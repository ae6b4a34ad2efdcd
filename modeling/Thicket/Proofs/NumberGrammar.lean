import Mathlib.Data.List.Forall2
import Thicket.Number.Literal
/-!
# The grammar of number literals

A literal is an optional sign, and then the word `Infinity`, or digits with an optional point and an optional exponent
(`Spells`).  `leading?` reads one from the start of a text, part by part, each part as far as it goes.  It goes back
nowhere: a mark without digits behind it is not an exponent and stays in the text, and a point after digits is taken
whether or not more digits follow.

What each part may do is said once (`MantissaRead`, `ExponentRead`, `LiteralRead`), and all else follows by these cases.

That is enough to read the longest literal.  What is read is a literal (`spells_of_leading?`), and where a text begins
with a literal, what is read leaves no more of the text than that literal does (`leading?_append`).
-/
namespace Thicket.Number

/-! ## Literals -/

/-- The characters are decimal digits of these values, in any script. -/
abbrev Digits (cs : List Char) (ds : List Nat) : Prop := List.Forall₂ (fun c d => Text.digit? c = some d) cs ds

/-- An optional sign, and whether it is a minus. -/
inductive Sign : List Char → Bool → Prop
  | none : Sign [] false
  | plus : Sign ['+'] false
  | minus : Sign ['-'] true

/-- The digits before and after an optional point, one of them at least. -/
inductive Mantissa : List Char → List Nat → List Nat → Prop
  | whole {cs : List Char} {ds : List Nat} : Digits cs ds → ds ≠ [] → Mantissa cs ds []
  | pointed {cs cs' : List Char} {ds ds' : List Nat} : Digits cs ds → ds ≠ [] → Digits cs' ds' →
      Mantissa (cs ++ '.' :: cs') ds ds'
  | fraction {cs : List Char} {ds : List Nat} : Digits cs ds → ds ≠ [] → Mantissa ('.' :: cs) [] ds

/-- An optional exponent: a mark, an optional sign, and digits. -/
inductive Exponent : List Char → Int → Prop
  | none : Exponent [] 0
  | some {mark : Char} {sign cs : List Char} {negative : Bool} {ds : List Nat} : mark ∈ ['e', 'E'] →
      Sign sign negative → Digits cs ds → ds ≠ [] →
      Exponent (mark :: (sign ++ cs)) (if negative then -(ofDigits ds : Int) else ofDigits ds)

/-- The characters spell the literal. -/
inductive Spells : List Char → Literal → Prop
  | infinity {sign : List Char} {negative : Bool} : Sign sign negative →
      Spells (sign ++ "Infinity".toList) (.infinity negative)
  | decimal {sign mantissa exponent : List Char} {negative : Bool} {whole fraction : List Nat} {e : Int} :
      Sign sign negative → Mantissa mantissa whole fraction → Exponent exponent e →
      Spells (sign ++ (mantissa ++ exponent)) (.decimal negative whole fraction e)

/-- The characters are a literal from end to end. -/
def IsLiteral (cs : List Char) : Prop := ∃ l, Spells cs l

/-! ## Digits -/

/-- The text does not go on with a digit. -/
def NoDigit (cs : List Char) : Prop := ∀ c ∈ cs.head?, Text.digit? c = none

theorem noDigit_nil : NoDigit [] := by
  rintro c ⟨⟩

theorem noDigit_cons {c : Char} {cs : List Char} (h : Text.digit? c = none) : NoDigit (c :: cs) := by
  rintro _ ⟨⟩
  exact h

theorem spanDigits_of_noDigit {cs : List Char} (h : NoDigit cs) : spanDigits cs = ([], cs) := by
  cases cs with
  | nil => rfl
  | cons c rest => rw [spanDigits, h c rfl]

/-- Digits are taken as far as they go. -/
theorem digits_of_span : ∀ {cs rest : List Char} {ds : List Nat}, spanDigits cs = (ds, rest) →
    ∃ digits, Digits digits ds ∧ cs = digits ++ rest
  | [], _, _, h => by
    cases h
    exact ⟨[], .nil, rfl⟩
  | c :: cs, rest, ds, h => by
    cases hc : Text.digit? c with
    | none =>
      rw [spanDigits_of_noDigit (noDigit_cons hc)] at h
      cases h
      exact ⟨[], .nil, rfl⟩
    | some d =>
      cases hspan : spanDigits cs with
      | mk ds' rest' =>
        rw [spanDigits, hc, hspan] at h
        cases h
        obtain ⟨digits, hdigits, rfl⟩ := digits_of_span hspan
        exact ⟨c :: digits, .cons hc hdigits, rfl⟩

theorem suffix_of_spanDigits {cs rest : List Char} {ds : List Nat} (h : spanDigits cs = (ds, rest)) : rest <:+ cs := by
  obtain ⟨digits, -, rfl⟩ := digits_of_span h
  exact List.suffix_append digits rest

theorem eq_of_spanDigits_nil {cs rest : List Char} (h : spanDigits cs = ([], rest)) : rest = cs := by
  obtain ⟨digits, hdigits, rfl⟩ := digits_of_span h
  rw [List.forall₂_nil_right_iff.1 hdigits, List.nil_append]

theorem noDigit_of_span : ∀ {cs rest : List Char} {ds : List Nat}, spanDigits cs = (ds, rest) → NoDigit rest
  | [], _, _, h => by
    cases h
    exact noDigit_nil
  | c :: cs, rest, ds, h => by
    cases hc : Text.digit? c with
    | none =>
      rw [spanDigits_of_noDigit (noDigit_cons hc)] at h
      cases h
      exact noDigit_cons hc
    | some d =>
      rw [spanDigits, hc] at h
      cases h
      exact noDigit_of_span rfl

/-- Behind digits, more of them are taken: those of the rest. -/
theorem spanDigits_append {cs rest rest' : List Char} {ds ds' : List Nat} (h : Digits cs ds)
    (hrest : spanDigits rest = (ds', rest')) : spanDigits (cs ++ rest) = (ds ++ ds', rest') := by
  induction h with
  | nil => exact hrest
  | cons hc _ ih => rw [List.cons_append, spanDigits, hc, ih]; rfl

/-! ## Signs -/

/-- The text does not go on with a sign. -/
def NoSign (cs : List Char) : Prop := ∀ c ∈ cs.head?, c ≠ '+' ∧ c ≠ '-'

theorem spanSign_append {sign body : List Char} {negative : Bool} (h : Sign sign negative) (hbody : NoSign body) :
    spanSign (sign ++ body) = (negative, body) := by
  cases h with
  | plus | minus => rfl
  | none =>
    rw [List.nil_append]
    unfold spanSign
    split
    · exact absurd rfl (hbody '-' rfl).2
    · exact absurd rfl (hbody '+' rfl).1
    · rfl

theorem sign_of_span {cs body : List Char} {negative : Bool} (h : spanSign cs = (negative, body)) :
    ∃ sign, Sign sign negative ∧ cs = sign ++ body := by
  unfold spanSign at h
  split at h <;> cases h
  · exact ⟨_, .minus, rfl⟩
  · exact ⟨_, .plus, rfl⟩
  · exact ⟨_, .none, rfl⟩

/-! ## Mantissas -/

theorem spanMantissa?_pointed {cs after rest : List Char} {ds ds' : List Nat} (h : spanDigits cs = (ds, '.' :: after))
    (hds : ds ≠ []) (hafter : spanDigits after = (ds', rest)) : spanMantissa? cs = some (ds, ds', rest) := by
  obtain ⟨d, ds, rfl⟩ := List.exists_cons_of_ne_nil hds
  rw [spanMantissa?, h]
  simp only [hafter]

theorem spanMantissa?_whole {cs after : List Char} {ds : List Nat} (h : spanDigits cs = (ds, after)) (hds : ds ≠ [])
    (hafter : after.head? ≠ some '.') : spanMantissa? cs = some (ds, [], after) := by
  obtain ⟨d, ds, rfl⟩ := List.exists_cons_of_ne_nil hds
  rw [spanMantissa?, h]
  cases after with
  | nil => rfl
  | cons c after =>
    have hc : c ≠ '.' := fun heq => hafter (congrArg some heq)
    simp [hc]

theorem spanMantissa?_fraction {after rest : List Char} {ds : List Nat} (h : spanDigits after = (ds, rest))
    (hds : ds ≠ []) : spanMantissa? ('.' :: after) = some ([], ds, rest) := by
  obtain ⟨d, ds, rfl⟩ := List.exists_cons_of_ne_nil hds
  have hpoint : spanDigits ('.' :: after) = ([], '.' :: after) := spanDigits_of_noDigit (noDigit_cons rfl)
  rw [spanMantissa?, hpoint]
  simp only [h]

/-- A point without a digit on either side is not a mantissa. -/
theorem spanMantissa?_lonePoint {after rest : List Char} (h : spanDigits after = ([], rest)) :
    spanMantissa? ('.' :: after) = none := by
  have hpoint : spanDigits ('.' :: after) = ([], '.' :: after) := spanDigits_of_noDigit (noDigit_cons rfl)
  rw [spanMantissa?, hpoint]
  simp only [h]

theorem spanMantissa?_none {cs : List Char} (h : spanDigits cs = ([], cs)) (hpoint : cs.head? ≠ some '.') :
    spanMantissa? cs = none := by
  rw [spanMantissa?, h]
  cases cs with
  | nil => rfl
  | cons c cs =>
    have hc : c ≠ '.' := fun heq => hpoint (congrArg some heq)
    simp [hc]

/-- All the ways in which a mantissa is read or not. -/
inductive MantissaRead : List Char → Option (List Nat × List Nat × List Char) → Prop
  | pointed {cs after rest : List Char} {ds ds' : List Nat} : spanDigits cs = (ds, '.' :: after) → ds ≠ [] →
      spanDigits after = (ds', rest) → MantissaRead cs (some (ds, ds', rest))
  | whole {cs after : List Char} {ds : List Nat} : spanDigits cs = (ds, after) → ds ≠ [] → after.head? ≠ some '.' →
      MantissaRead cs (some (ds, [], after))
  | fraction {after rest : List Char} {ds : List Nat} : spanDigits after = (ds, rest) → ds ≠ [] →
      MantissaRead ('.' :: after) (some ([], ds, rest))
  | lonePoint {after rest : List Char} : spanDigits after = ([], rest) → MantissaRead ('.' :: after) none
  | none {cs : List Char} : spanDigits cs = ([], cs) → cs.head? ≠ some '.' → MantissaRead cs none

theorem mantissaRead (cs : List Char) : MantissaRead cs (spanMantissa? cs) := by
  cases hspan : spanDigits cs with
  | mk ds after =>
    by_cases hds : ds = []
    · subst hds
      obtain rfl := eq_of_spanDigits_nil hspan
      by_cases hpoint : after.head? = some '.'
      · obtain ⟨behind, rfl⟩ := List.head?_eq_some_iff.1 hpoint
        cases hbehind : spanDigits behind with
        | mk ds' rest =>
          by_cases hds' : ds' = []
          · subst hds'
            rw [spanMantissa?_lonePoint hbehind]
            exact .lonePoint hbehind
          · rw [spanMantissa?_fraction hbehind hds']
            exact .fraction hbehind hds'
      · rw [spanMantissa?_none hspan hpoint]
        exact .none hspan hpoint
    · by_cases hpoint : after.head? = some '.'
      · obtain ⟨behind, rfl⟩ := List.head?_eq_some_iff.1 hpoint
        cases hbehind : spanDigits behind with
        | mk ds' rest =>
          rw [spanMantissa?_pointed hspan hds hbehind]
          exact .pointed hspan hds hbehind
      · rw [spanMantissa?_whole hspan hds hpoint]
        exact .whole hspan hds hpoint

theorem mantissa_of_span {cs rest : List Char} {whole fraction : List Nat}
    (h : spanMantissa? cs = some (whole, fraction, rest)) :
    ∃ mantissa, Mantissa mantissa whole fraction ∧ cs = mantissa ++ rest := by
  have hread := mantissaRead cs
  rw [h] at hread
  cases hread with
  | pointed hspan hds hbehind =>
    obtain ⟨digits, hdigits, rfl⟩ := digits_of_span hspan
    obtain ⟨digits', hdigits', rfl⟩ := digits_of_span hbehind
    exact ⟨digits ++ '.' :: digits', .pointed hdigits hds hdigits', by simp⟩
  | whole hspan hds =>
    obtain ⟨digits, hdigits, hsplit⟩ := digits_of_span hspan
    exact ⟨digits, .whole hdigits hds, hsplit⟩
  | fraction hspan hds =>
    obtain ⟨digits, hdigits, rfl⟩ := digits_of_span hspan
    exact ⟨'.' :: digits, .fraction hdigits hds, rfl⟩

/-- Where a text begins with a mantissa, what is taken goes at least as far, and no further than the text allows. -/
theorem spanMantissa?_append {mantissa : List Char} {whole fraction : List Nat} (h : Mantissa mantissa whole fraction)
    (rest : List Char) : ∃ whole' fraction' rest', spanMantissa? (mantissa ++ rest) = some (whole', fraction', rest') ∧
      rest' <:+ rest ∧
      (NoDigit rest → rest.head? ≠ some '.' → whole' = whole ∧ fraction' = fraction ∧ rest' = rest) := by
  cases hrest : spanDigits rest with
  | mk more after =>
    have hsuffix := suffix_of_spanDigits hrest
    have hstop : NoDigit rest → more = [] ∧ after = rest := fun hdigit => by
      rw [spanDigits_of_noDigit hdigit, Prod.mk.injEq] at hrest
      exact ⟨hrest.1.symm, hrest.2.symm⟩
    cases h with
    | @whole _ _ hdigits hds =>
      have hspan := spanDigits_append hdigits hrest
      have hne : whole ++ more ≠ [] := fun h => hds (List.append_eq_nil_iff.1 h).1
      by_cases hpoint : after.head? = some '.'
      · obtain ⟨behind, rfl⟩ := List.head?_eq_some_iff.1 hpoint
        cases hbehind : spanDigits behind with
        | mk more' after' =>
          refine ⟨_, _, _, spanMantissa?_pointed hspan hne hbehind, ?_, fun hdigit hnone => ?_⟩
          · exact (suffix_of_spanDigits hbehind).trans ((List.suffix_cons _ _).trans hsuffix)
          · exact absurd ((hstop hdigit).2 ▸ hpoint) hnone
      · refine ⟨_, _, _, spanMantissa?_whole hspan hne hpoint, hsuffix, fun hdigit _ => ?_⟩
        obtain ⟨rfl, rfl⟩ := hstop hdigit
        exact ⟨List.append_nil _, rfl, rfl⟩
    | @pointed cs cs' _ _ hdigits hds hdigits' =>
      have hpoint : spanDigits ('.' :: (cs' ++ rest)) = ([], '.' :: (cs' ++ rest)) :=
        spanDigits_of_noDigit (noDigit_cons rfl)
      have hspan := spanDigits_append hdigits hpoint
      rw [List.append_nil] at hspan
      rw [List.append_assoc, List.cons_append]
      refine ⟨_, _, _, spanMantissa?_pointed hspan hds (spanDigits_append hdigits' hrest), hsuffix, fun hdigit _ => ?_⟩
      obtain ⟨rfl, rfl⟩ := hstop hdigit
      exact ⟨rfl, List.append_nil _, rfl⟩
    | @fraction cs _ hdigits hds =>
      have hne : fraction ++ more ≠ [] := fun h => hds (List.append_eq_nil_iff.1 h).1
      refine ⟨_, _, _, spanMantissa?_fraction (spanDigits_append hdigits hrest) hne, hsuffix, fun hdigit _ => ?_⟩
      obtain ⟨rfl, rfl⟩ := hstop hdigit
      exact ⟨rfl, List.append_nil _, rfl⟩

/-! ## Exponents -/

theorem spanExponent_of_digits {mark : Char} {rest body after : List Char} {negative : Bool} {ds : List Nat}
    (hmark : mark ∈ ['e', 'E']) (hsign : spanSign rest = (negative, body)) (hspan : spanDigits body = (ds, after))
    (hds : ds ≠ []) :
    spanExponent (mark :: rest) = (if negative then -(ofDigits ds : Int) else ofDigits ds, after) := by
  obtain ⟨d, ds, rfl⟩ := List.exists_cons_of_ne_nil hds
  have hmark' : mark = 'e' ∨ mark = 'E' := by simpa using hmark
  simp only [spanExponent, Bool.or_eq_true, decide_eq_true_eq, hmark', if_true, hsign, hspan]

/-- A mark without digits stays where it is. -/
theorem spanExponent_loneMark {mark : Char} {rest body after : List Char} {negative : Bool}
    (hsign : spanSign rest = (negative, body)) (hspan : spanDigits body = ([], after)) :
    spanExponent (mark :: rest) = (0, mark :: rest) := by
  simp only [spanExponent, hsign, hspan, ite_self]

theorem spanExponent_none {cs : List Char} (h : ∀ c ∈ cs.head?, c ∉ ['e', 'E']) : spanExponent cs = (0, cs) := by
  cases cs with
  | nil => rfl
  | cons c rest =>
    have hc : ¬ (c = 'e' ∨ c = 'E') := by simpa using h c rfl
    simp only [spanExponent, Bool.or_eq_true, decide_eq_true_eq, hc, if_false]

/-- All the ways in which an exponent is read or not. -/
inductive ExponentRead : List Char → Int × List Char → Prop
  | digits {mark : Char} {rest body after : List Char} {negative : Bool} {ds : List Nat} : mark ∈ ['e', 'E'] →
      spanSign rest = (negative, body) → spanDigits body = (ds, after) → ds ≠ [] →
      ExponentRead (mark :: rest) (if negative then -(ofDigits ds : Int) else ofDigits ds, after)
  | loneMark {mark : Char} {rest body after : List Char} {negative : Bool} : mark ∈ ['e', 'E'] →
      spanSign rest = (negative, body) → spanDigits body = ([], after) → ExponentRead (mark :: rest) (0, mark :: rest)
  | none {cs : List Char} : (∀ c ∈ cs.head?, c ∉ ['e', 'E']) → ExponentRead cs (0, cs)

theorem exponentRead (cs : List Char) : ExponentRead cs (spanExponent cs) := by
  by_cases hmark : ∀ c ∈ cs.head?, c ∉ ['e', 'E']
  · rw [spanExponent_none hmark]
    exact .none hmark
  simp only [Classical.not_forall, Classical.not_not] at hmark
  obtain ⟨mark, hhead, hmark⟩ := hmark
  obtain ⟨behind, rfl⟩ := List.head?_eq_some_iff.1 hhead
  cases hsign : spanSign behind with
  | mk negative body =>
    cases hspan : spanDigits body with
    | mk ds after =>
      by_cases hds : ds = []
      · subst hds
        rw [spanExponent_loneMark hsign hspan]
        exact .loneMark hmark hsign hspan
      · rw [spanExponent_of_digits hmark hsign hspan hds]
        exact .digits hmark hsign hspan hds

theorem exponent_of_span {cs rest : List Char} {e : Int} (h : spanExponent cs = (e, rest)) :
    ∃ exponent, Exponent exponent e ∧ cs = exponent ++ rest := by
  have hread := exponentRead cs
  rw [h] at hread
  cases hread with
  | digits hmark hsign hspan hds =>
    obtain ⟨sign, hsign', rfl⟩ := sign_of_span hsign
    obtain ⟨digits, hdigits, rfl⟩ := digits_of_span hspan
    exact ⟨_, .some hmark hsign' hdigits hds, by simp⟩
  | loneMark | none => exact ⟨[], .none, rfl⟩

theorem suffix_of_spanExponent {cs rest : List Char} {e : Int} (h : spanExponent cs = (e, rest)) : rest <:+ cs := by
  obtain ⟨exponent, -, rfl⟩ := exponent_of_span h
  exact List.suffix_append exponent rest

theorem noSign_of_digits {cs : List Char} {ds : List Nat} (h : Digits cs ds) (hds : ds ≠ []) (rest : List Char) :
    NoSign (cs ++ rest) := by
  cases h with
  | nil => exact absurd rfl hds
  | cons hc _ =>
    rintro _ ⟨⟩
    constructor <;> rintro rfl <;> cases hc

theorem digit?_mark {c : Char} (h : c ∈ ['e', 'E']) : Text.digit? c = none := by
  have hc : c = 'e' ∨ c = 'E' := by simpa using h
  rcases hc with rfl | rfl <;> rfl

/-- Where a text begins with a mark, a sign and digits, all digits behind them are taken too. -/
theorem spanExponent_append {mark : Char} {sign cs rest after : List Char} {negative : Bool} {ds more : List Nat}
    (hmark : mark ∈ ['e', 'E']) (hsign : Sign sign negative) (hdigits : Digits cs ds) (hds : ds ≠ [])
    (hrest : spanDigits rest = (more, after)) :
    spanExponent (mark :: (sign ++ cs) ++ rest) =
      (if negative then -(ofDigits (ds ++ more) : Int) else ofDigits (ds ++ more), after) := by
  rw [List.cons_append, List.append_assoc]
  exact spanExponent_of_digits hmark (spanSign_append hsign (noSign_of_digits hdigits hds rest))
    (spanDigits_append hdigits hrest) fun h => hds (List.append_eq_nil_iff.1 h).1

/-! ## Whole literals -/

theorem afterWord?_append (word rest : List Char) : afterWord? word (word ++ rest) = some rest := by
  rw [afterWord?, if_pos (List.isPrefixOf_iff_prefix.2 (List.prefix_append word rest)), List.drop_left]

theorem eq_append_of_afterWord? {word cs rest : List Char} (h : afterWord? word cs = some rest) :
    cs = word ++ rest := by
  unfold afterWord? at h
  split at h
  · rename_i hword
    obtain ⟨more, rfl⟩ := List.isPrefixOf_iff_prefix.1 hword
    rw [List.drop_left, Option.some.injEq] at h
    rw [h]
  · cases h

theorem leading?_infinity {cs body rest : List Char} {negative : Bool} (hsign : spanSign cs = (negative, body))
    (hword : afterWord? "Infinity".toList body = some rest) : leading? cs = some (.infinity negative, rest) := by
  simp only [leading?, hsign, hword]

theorem leading?_decimal {cs body after rest : List Char} {negative : Bool} {whole fraction : List Nat} {e : Int}
    (hsign : spanSign cs = (negative, body)) (hword : afterWord? "Infinity".toList body = none)
    (hmantissa : spanMantissa? body = some (whole, fraction, after)) (hexponent : spanExponent after = (e, rest)) :
    leading? cs = some (.decimal negative whole fraction e, rest) := by
  simp only [leading?, hsign, hword, hmantissa, hexponent]

theorem leading?_none {cs body : List Char} {negative : Bool} (hsign : spanSign cs = (negative, body))
    (hword : afterWord? "Infinity".toList body = none) (hmantissa : spanMantissa? body = none) :
    leading? cs = none := by
  simp only [leading?, hsign, hword, hmantissa]

/-- All the ways in which a literal is read or not. -/
inductive LiteralRead : List Char → Option (Literal × List Char) → Prop
  | infinity {cs body rest : List Char} {negative : Bool} : spanSign cs = (negative, body) →
      afterWord? "Infinity".toList body = some rest → LiteralRead cs (some (.infinity negative, rest))
  | decimal {cs body after rest : List Char} {negative : Bool} {whole fraction : List Nat} {e : Int} :
      spanSign cs = (negative, body) → afterWord? "Infinity".toList body = none →
      spanMantissa? body = some (whole, fraction, after) → spanExponent after = (e, rest) →
      LiteralRead cs (some (.decimal negative whole fraction e, rest))
  | none {cs body : List Char} {negative : Bool} : spanSign cs = (negative, body) →
      afterWord? "Infinity".toList body = none → spanMantissa? body = none → LiteralRead cs none

theorem literalRead (cs : List Char) : LiteralRead cs (leading? cs) := by
  cases hsign : spanSign cs with
  | mk negative body =>
    cases hword : afterWord? "Infinity".toList body with
    | some rest =>
      rw [leading?_infinity hsign hword]
      exact .infinity hsign hword
    | none =>
      cases hmantissa : spanMantissa? body with
      | none =>
        rw [leading?_none hsign hword hmantissa]
        exact .none hsign hword hmantissa
      | some found =>
        obtain ⟨whole, fraction, after⟩ := found
        cases hexponent : spanExponent after with
        | mk e rest =>
          rw [leading?_decimal hsign hword hmantissa hexponent]
          exact .decimal hsign hword hmantissa hexponent

/-- **What is read at the start of a text is a literal.** -/
theorem spells_of_leading? {cs rest : List Char} {l : Literal} (h : leading? cs = some (l, rest)) :
    ∃ lit, Spells lit l ∧ cs = lit ++ rest := by
  have hread := literalRead cs
  rw [h] at hread
  cases hread with
  | infinity hsign hword =>
    obtain ⟨sign, hsign', rfl⟩ := sign_of_span hsign
    obtain rfl := eq_append_of_afterWord? hword
    exact ⟨_, .infinity hsign', (List.append_assoc _ _ _).symm⟩
  | decimal hsign _ hmantissa hexponent =>
    obtain ⟨sign, hsign', rfl⟩ := sign_of_span hsign
    obtain ⟨mantissa, hmantissa', rfl⟩ := mantissa_of_span hmantissa
    obtain ⟨exponent, hexponent', rfl⟩ := exponent_of_span hexponent
    exact ⟨_, .decimal hsign' hmantissa' hexponent', by simp⟩

/-- A mantissa begins with a digit or a point. -/
theorem Mantissa.exists_cons {mantissa : List Char} {whole fraction : List Nat} (h : Mantissa mantissa whole fraction) :
    ∃ c more, mantissa = c :: more ∧ (c = '.' ∨ ∃ d, Text.digit? c = some d) := by
  cases h with
  | whole hdigits hds =>
    cases hdigits with
    | nil => exact absurd rfl hds
    | cons hc _ => exact ⟨_, _, rfl, .inr ⟨_, hc⟩⟩
  | pointed hdigits hds _ =>
    cases hdigits with
    | nil => exact absurd rfl hds
    | cons hc _ => exact ⟨_, _, rfl, .inr ⟨_, hc⟩⟩
  | fraction => exact ⟨_, _, rfl, .inl rfl⟩

theorem Mantissa.noSign {mantissa : List Char} {whole fraction : List Nat} (h : Mantissa mantissa whole fraction)
    (rest : List Char) : NoSign (mantissa ++ rest) := by
  obtain ⟨c, more, rfl, hc⟩ := h.exists_cons
  rintro _ ⟨⟩
  rcases hc with rfl | ⟨d, hd⟩
  · decide
  · constructor <;> rintro rfl <;> cases hd

theorem Mantissa.afterWord?_eq_none {mantissa : List Char} {whole fraction : List Nat}
    (h : Mantissa mantissa whole fraction) (rest : List Char) :
    afterWord? "Infinity".toList (mantissa ++ rest) = none := by
  obtain ⟨c, more, rfl, hc⟩ := h.exists_cons
  cases hword : afterWord? "Infinity".toList (c :: more ++ rest) with
  | none => rfl
  | some after =>
    obtain ⟨rfl, -⟩ := List.cons.inj (eq_append_of_afterWord? hword)
    rcases hc with hc | ⟨d, hd⟩
    · cases hc
    · cases hd

/-- **Where a text begins with a literal, one is read, and it leaves no more of the text.**  Where that literal is the
whole text, it is the one that is read. -/
theorem leading?_append {lit : List Char} {l : Literal} (h : Spells lit l) (rest : List Char) :
    ∃ l' rest', leading? (lit ++ rest) = some (l', rest') ∧ rest' <:+ rest ∧ (rest = [] → l' = l) := by
  cases h with
  | @infinity sign negative hsign =>
    have hbody : NoSign ("Infinity".toList ++ rest) := by
      rintro _ ⟨⟩
      decide
    have hspan := spanSign_append hsign hbody
    rw [List.append_assoc]
    exact ⟨_, rest, leading?_infinity hspan (afterWord?_append _ rest), List.suffix_refl rest, fun _ => rfl⟩
  | @decimal sign mantissa exponent negative whole fraction e hsign hmantissa hexponent =>
    rw [List.append_assoc, List.append_assoc]
    have hspan := spanSign_append hsign (hmantissa.noSign (exponent ++ rest))
    have hword := hmantissa.afterWord?_eq_none (exponent ++ rest)
    obtain ⟨whole', fraction', after, htaken, hsuffix, hexact⟩ := spanMantissa?_append hmantissa (exponent ++ rest)
    cases hexponent with
    | none =>
      cases hafter : spanExponent after with
      | mk e' rest' =>
        refine ⟨_, rest', leading?_decimal hspan hword htaken hafter, (suffix_of_spanExponent hafter).trans hsuffix, ?_⟩
        rintro rfl
        obtain ⟨rfl, rfl, rfl⟩ := hexact noDigit_nil (by simp)
        cases hafter
        rfl
    | @some mark sign' cs negative' ds hmark hsign' hdigits hds =>
      -- the mark is not part of a mantissa, so that the exponent begins where it should
      have hmark' : NoDigit (mark :: (sign' ++ cs) ++ rest) := noDigit_cons (digit?_mark hmark)
      have hpoint : (mark :: (sign' ++ cs) ++ rest).head? ≠ some '.' := by
        rintro ⟨⟩
        simp at hmark
      obtain ⟨rfl, rfl, rfl⟩ := hexact hmark' hpoint
      cases hrest : spanDigits rest with
      | mk more rest' =>
        refine ⟨_, rest', leading?_decimal hspan hword htaken (spanExponent_append hmark hsign' hdigits hds hrest),
          suffix_of_spanDigits hrest, ?_⟩
        rintro rfl
        cases hrest
        rw [List.append_nil]

end Thicket.Number
