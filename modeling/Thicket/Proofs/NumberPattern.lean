import Thicket.Proofs.NumberGrammar
/-!
# Number literals as a pattern

The literals can also be written down as a pattern, with parts that follow each other, parts that may be left out, and
parts of which one is chosen.  A pattern is matched by trial: of two choices the first is tried first, a part that may
be left out is tried before it is left out, and as many characters as possible are tried before fewer are.  Where what
follows does not match, the next is tried, and the first trial that goes through counts (`Pattern.first?`).

Nothing in this asks for the longest match.  For number literals it is found all the same, since `leading?` stops where
the first match does (`first?_numeral`): wherever a part is followed by one that can fail, no other trial of that part
could have gone further.
-/
namespace Thicket.Number

inductive Pattern where
  /-- One of some characters. -/
  | one (allowed : Char → Bool)
  | word (w : List Char)
  /-- Any number of some characters. -/
  | many (allowed : Char → Bool)
  | next (p q : Pattern)
  | either (p q : Pattern)
  | optional (p : Pattern)

namespace Pattern

/-- What is left behind as many of some characters as there are, behind one less, and so on. -/
def manyRests (allowed : Char → Bool) : List Char → List (List Char)
  | [] => [[]]
  | c :: rest => if allowed c then manyRests allowed rest ++ [c :: rest] else [c :: rest]

/-- What is left of a text behind the matches at its start, in the order in which they are tried. -/
def rests : Pattern → List Char → List (List Char)
  | one _, [] => []
  | one allowed, c :: rest => if allowed c then [rest] else []
  | word w, cs => (afterWord? w cs).toList
  | many allowed, cs => manyRests allowed cs
  | next p q, cs => (p.rests cs).flatMap q.rests
  | either p q, cs => p.rests cs ++ q.rests cs
  | optional p, cs => p.rests cs ++ [cs]

/-- What is left behind the match that is found. -/
def first? (p : Pattern) (cs : List Char) : Option (List Char) := (p.rests cs).head?

/-! ## The pattern of a number -/

def sign : Pattern := one fun c => c = '+' || c = '-'

def point : Pattern := one fun c => c = '.'

def digits : Pattern := next (one Text.isDigit) (many Text.isDigit)

def mantissa : Pattern :=
  either (next digits (next (optional point) (many Text.isDigit))) (next point digits)

def exponent : Pattern := next (one fun c => c = 'e' || c = 'E') (next (optional sign) digits)

def numeral : Pattern :=
  next (optional sign) (either (word "Infinity".toList) (next mantissa (optional exponent)))

/-! ## The match that is found -/

variable {p q : Pattern} {cs : List Char}

theorem first?_one_cons (allowed : Char → Bool) (c : Char) (rest : List Char) :
    (one allowed).first? (c :: rest) = if allowed c then some rest else none := by
  unfold first? rests
  split <;> rfl

theorem first?_word (w cs : List Char) : (word w).first? cs = afterWord? w cs := by
  unfold first? rests
  cases afterWord? w cs <;> rfl

theorem first?_either (p q : Pattern) (cs : List Char) : (either p q).first? cs = (p.first? cs).or (q.first? cs) :=
  List.head?_append

theorem first?_optional (p : Pattern) (cs : List Char) : (optional p).first? cs = (p.first? cs).or (some cs) :=
  List.head?_append

theorem first?_next (p q : Pattern) (cs : List Char) : (next p q).first? cs = (p.rests cs).findSome? q.first? :=
  List.head?_flatMap

/-- Before a part that cannot fail, nothing else is ever tried. -/
theorem first?_next_of_total (hq : ∀ cs, q.first? cs ≠ none) : (next p q).first? cs = (p.first? cs).bind q.first? := by
  rw [first?_next, first?]
  cases p.rests cs with
  | nil => rfl
  | cons r more =>
    obtain ⟨r', hr'⟩ := Option.ne_none_iff_exists'.1 (hq r)
    rw [List.findSome?_cons_of_isSome (by rw [hr']; rfl), List.head?_cons, Option.bind_some]

theorem first?_next_one (allowed : Char → Bool) (q : Pattern) (cs : List Char) :
    (next (one allowed) q).first? cs = ((one allowed).first? cs).bind q.first? := by
  rw [first?_next]
  cases cs with
  | nil => rfl
  | cons c rest =>
    rw [first?_one_cons, rests]
    split
    · simp
    · rfl

/-- Before a part that cannot begin with a sign, a sign is never left for it. -/
theorem first?_next_sign (hq : ∀ c rest, c = '+' ∨ c = '-' → q.first? (c :: rest) = none) (cs : List Char) :
    (next (optional sign) q).first? cs = q.first? (spanSign cs).2 := by
  have hsigned : ∀ c rest, c = '+' ∨ c = '-' → (next (optional sign) q).first? (c :: rest) = q.first? rest := by
    intro c rest hc
    have hrests : (optional sign).rests (c :: rest) = [rest, c :: rest] := by simp [rests, sign, hc]
    rw [first?_next, hrests, List.findSome?_cons, List.findSome?_cons, hq c rest hc]
    cases q.first? rest <;> rfl
  unfold spanSign
  split
  · exact hsigned _ _ (.inr rfl)
  · exact hsigned _ _ (.inl rfl)
  · rename_i hminus hplus
    rw [first?_next]
    cases cs with
    | nil => simp [rests, sign]
    | cons c rest =>
      have hc : ¬ (c = '+' ∨ c = '-') := by
        rintro (rfl | rfl)
        · exact hplus _ rfl
        · exact hminus _ rfl
      simp [rests, sign, hc]

theorem first?_manyDigits : ∀ cs : List Char, (many Text.isDigit).first? cs = some (spanDigits cs).2
  | [] => rfl
  | c :: cs => by
    have hrest : (manyRests Text.isDigit cs).head? = some (spanDigits cs).2 := first?_manyDigits cs
    unfold first? rests manyRests
    cases hc : Text.digit? c with
    | none => simp [Text.isDigit, hc, spanDigits]
    | some d => simp [Text.isDigit, hc, spanDigits, List.head?_append, hrest]

theorem first?_digits (cs : List Char) :
    digits.first? cs = if (spanDigits cs).1 = [] then none else some (spanDigits cs).2 := by
  rw [digits, first?_next_one]
  cases cs with
  | nil => rfl
  | cons c cs =>
    rw [first?_one_cons, Text.isDigit]
    cases hc : Text.digit? c with
    | none => simp [spanDigits, hc]
    | some d => simp [spanDigits, hc, first?_manyDigits]

/-- No digits begin with a sign. -/
theorem first?_digits_sign {c : Char} (h : c = '+' ∨ c = '-') (rest : List Char) :
    digits.first? (c :: rest) = none := by
  have hc : Text.digit? c = none := by rcases h with rfl | rfl <;> rfl
  rw [first?_digits, spanDigits_of_noDigit (noDigit_cons hc), if_pos rfl]

/-! ## The parts of a number -/

theorem first?_point_of_ne (h : cs.head? ≠ some '.') : point.first? cs = none := by
  cases cs with
  | nil => rfl
  | cons c rest =>
    have hc : c ≠ '.' := fun heq => h (congrArg some heq)
    rw [point, first?_one_cons, decide_eq_false hc]
    rfl

theorem first?_fraction (cs : List Char) :
    (next (optional point) (many Text.isDigit)).first? cs = some (spanDigits ((point.first? cs).getD cs)).2 := by
  rw [first?_next_of_total fun cs => by rw [first?_manyDigits]; exact Option.some_ne_none _, first?_optional]
  cases point.first? cs <;> exact first?_manyDigits _

theorem first?_fraction_ne_none (cs : List Char) : (next (optional point) (many Text.isDigit)).first? cs ≠ none := by
  rw [first?_fraction]
  exact Option.some_ne_none _

theorem first?_mantissa (cs : List Char) : mantissa.first? cs = (spanMantissa? cs).map fun x => x.2.2 := by
  rw [mantissa, first?_either, first?_next_of_total first?_fraction_ne_none, first?_digits, point, first?_next_one,
    ← point]
  have hread := mantissaRead cs
  generalize spanMantissa? cs = r at hread
  cases hread with
  | @pointed _ after rest ds ds' hspan hds hbehind =>
    have hfirst : (point.first? ('.' :: after)).getD ('.' :: after) = after := rfl
    rw [hspan, if_neg hds, Option.bind_some, first?_fraction, hfirst, hbehind, Option.some_or, Option.map_some]
  | @whole _ after ds hspan hds hpoint =>
    -- the digits went as far as they could, so that none are left where there is no point
    have hstop : spanDigits after = ([], after) := spanDigits_of_noDigit (noDigit_of_span hspan)
    rw [hspan, if_neg hds, Option.bind_some, first?_fraction, first?_point_of_ne hpoint, Option.getD_none, hstop,
      Option.some_or, Option.map_some]
  | @fraction after rest ds hspan hds =>
    have hfirst : (point.first? ('.' :: after)).bind digits.first? = digits.first? after := rfl
    rw [spanDigits_of_noDigit (noDigit_cons rfl), if_pos rfl, Option.bind_none, Option.none_or, hfirst, first?_digits,
      hspan, if_neg hds, Option.map_some]
  | @lonePoint after rest hspan =>
    have hfirst : (point.first? ('.' :: after)).bind digits.first? = digits.first? after := rfl
    rw [spanDigits_of_noDigit (noDigit_cons rfl), if_pos rfl, Option.bind_none, Option.none_or, hfirst, first?_digits,
      hspan, if_pos rfl, Option.map_none]
  | none hspan hpoint =>
    rw [hspan, if_pos rfl, Option.bind_none, Option.none_or, first?_point_of_ne hpoint, Option.bind_none,
      Option.map_none]

theorem first?_optional_exponent (cs : List Char) : (optional exponent).first? cs = some (spanExponent cs).2 := by
  have hmarked : ∀ {mark : Char} {rest body : List Char} {negative : Bool}, mark ∈ ['e', 'E'] →
      spanSign rest = (negative, body) → exponent.first? (mark :: rest) = digits.first? body := by
    intro mark rest body negative hmark hsign
    have hc : (decide (mark = 'e') || decide (mark = 'E')) = true := by simpa using hmark
    rw [exponent, first?_next_one, first?_one_cons, if_pos hc, Option.bind_some,
      first?_next_sign fun c rest hc => first?_digits_sign hc rest, hsign]
  rw [first?_optional]
  have hread := exponentRead cs
  generalize spanExponent cs = r at hread
  cases hread with
  | digits hmark hsign hspan hds => rw [hmarked hmark hsign, first?_digits, hspan, if_neg hds, Option.some_or]
  | loneMark hmark hsign hspan => rw [hmarked hmark hsign, first?_digits, hspan, if_pos rfl, Option.none_or]
  | none hmark =>
    cases cs with
    | nil => rfl
    | cons c rest =>
      have hc : (decide (c = 'e') || decide (c = 'E')) = false := by simpa using hmark c rfl
      rw [exponent, first?_next_one, first?_one_cons, hc]
      rfl

theorem first?_optional_exponent_ne_none (cs : List Char) : (optional exponent).first? cs ≠ none := by
  rw [first?_optional_exponent]
  exact Option.some_ne_none _

/-- Behind the sign: the word, or else a mantissa and the exponent there. -/
theorem first?_unsigned (cs : List Char) :
    (either (word "Infinity".toList) (next mantissa (optional exponent))).first? cs =
      (afterWord? "Infinity".toList cs).or ((spanMantissa? cs).bind fun x => some (spanExponent x.2.2).2) := by
  rw [first?_either, first?_word, first?_next_of_total first?_optional_exponent_ne_none, first?_mantissa,
    Option.bind_map]
  simp only [Function.comp_def, first?_optional_exponent]

theorem first?_unsigned_sign (c : Char) (rest : List Char) (h : c = '+' ∨ c = '-') :
    (either (word "Infinity".toList) (next mantissa (optional exponent))).first? (c :: rest) = none := by
  have hword : afterWord? "Infinity".toList (c :: rest) = none := by rcases h with rfl | rfl <;> rfl
  have hdigit : spanDigits (c :: rest) = ([], c :: rest) := by rcases h with rfl | rfl <;> rfl
  have hpoint : (c :: rest).head? ≠ some '.' := by rcases h with rfl | rfl <;> simp
  rw [first?_unsigned, hword, spanMantissa?_none hdigit hpoint, Option.bind_none, Option.none_or]

/-- **What is read at the start of a text is the match of the pattern there.** -/
theorem first?_numeral (cs : List Char) : numeral.first? cs = (leading? cs).map Prod.snd := by
  rw [numeral, first?_next_sign first?_unsigned_sign, first?_unsigned]
  have hread := literalRead cs
  generalize leading? cs = r at hread
  cases hread with
  | infinity hsign hword => rw [hsign, hword, Option.some_or, Option.map_some]
  | decimal hsign hword hmantissa hexponent =>
    rw [hsign, hword, hmantissa, Option.none_or, Option.bind_some, hexponent, Option.map_some]
  | none hsign hword hmantissa => rw [hsign, hword, hmantissa, Option.none_or, Option.bind_none, Option.map_none]

end Pattern
end Thicket.Number
