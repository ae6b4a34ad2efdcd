import Thicket.Host.Call
import Thicket.Host.Native
import Thicket.Proofs.Doubles
import Thicket.Proofs.NumberPattern
/-!
# The number at the start of a text

`parseNum` reads the longest number literal at the start of a text, behind the blanks there (`longest_of_leading?`).  As
a text of its own that literal is a number from end to end, and the same one (`ofText?_of_spells`).  No literal is read
as what is no number, so that this value is free to say that the text begins with none, and the program is told so.
-/
namespace Thicket.Number

/-! ## The longest literal -/

/-- The text is a literal and what is behind it, and it begins with no longer one. -/
structure Longest (cs lit rest : List Char) : Prop where
  split : cs = lit ++ rest
  literal : IsLiteral lit
  longest : ∀ p, p <+: cs → IsLiteral p → p.length ≤ lit.length

theorem longest_of_leading? {cs rest : List Char} {l : Literal} (h : leading? cs = some (l, rest)) :
    ∃ lit, Longest cs lit rest ∧ Spells lit l := by
  obtain ⟨lit, hspells, rfl⟩ := spells_of_leading? h
  refine ⟨lit, ⟨rfl, ⟨l, hspells⟩, ?_⟩, hspells⟩
  rintro p ⟨more, hmore⟩ ⟨l', hp⟩
  obtain ⟨l'', rest', hread, hsuffix, -⟩ := leading?_append hp more
  rw [hmore, h, Option.some.injEq, Prod.mk.injEq] at hread
  obtain ⟨-, rfl⟩ := hread
  -- what is read leaves less of the text, so that it took more of it
  have hlength := congrArg List.length hmore
  rw [List.length_append, List.length_append] at hlength
  have hle := hsuffix.length_le
  omega

theorem leading?_eq_none_iff {cs : List Char} : leading? cs = none ↔ ∀ p, p <+: cs → ¬ IsLiteral p := by
  constructor
  · rintro h p ⟨more, rfl⟩ ⟨l, hp⟩
    obtain ⟨l', rest, hread, -⟩ := leading?_append hp more
    rw [h] at hread
    cases hread
  · intro h
    cases hread : leading? cs with
    | none => rfl
    | some found =>
      obtain ⟨l, rest⟩ := found
      obtain ⟨lit, hspells, hsplit⟩ := spells_of_leading? hread
      exact absurd ⟨l, hspells⟩ (h lit ⟨rest, hsplit.symm⟩)

/-! ## A literal as a whole text -/

/-- No character is a blank or an underscore. -/
def solid (cs : List Char) : Bool := cs.all fun c => !Text.isBlank c && c != '_'

theorem solid_append {cs cs' : List Char} (h : solid cs = true) (h' : solid cs' = true) : solid (cs ++ cs') = true := by
  rw [solid, List.all_append, ← solid, ← solid, h, h']
  rfl

theorem solid_cons {c : Char} {cs : List Char} (hc : solid [c] = true) (h : solid cs = true) : solid (c :: cs) = true :=
  solid_append hc h

/-- Every decimal digit is in one of the runs of ten. -/
theorem exists_zero_of_digit? {c : Char} {d : Nat} (h : Text.digit? c = some d) :
    ∃ z ∈ Text.zeros, z ≤ c.toNat ∧ c.toNat < z + 10 := by
  unfold Text.digit? at h
  split at h
  · split at h
    · exact ⟨0x30, List.mem_cons_self, by omega⟩
    · cases h
  · obtain ⟨z, hz, -⟩ := Option.map_eq_some_iff.1 h
    have hrun := List.find?_some hz
    exact ⟨z, List.mem_of_find?_eq_some hz, of_decide_eq_true hrun⟩

theorem isBlank_of_digit? {c : Char} {d : Nat} (h : Text.digit? c = some d) : Text.isBlank c = false := by
  have hapart : (Text.zeros.all fun z => Text.blanks.all fun r => decide (r.2 < z ∨ z + 10 ≤ r.1)) = true := by decide
  obtain ⟨z, hz, hle, hlt⟩ := exists_zero_of_digit? h
  refine List.any_eq_false.2 fun r hr => ?_
  have hzr := of_decide_eq_true (List.all_eq_true.1 (List.all_eq_true.1 hapart z hz) r hr)
  rw [decide_eq_true_eq]
  omega

theorem solid_digits {cs : List Char} {ds : List Nat} (h : Digits cs ds) : solid cs = true := by
  induction h with
  | nil => rfl
  | @cons c d cs ds hc _ ih =>
    have hne : c ≠ '_' := by
      rintro rfl
      cases hc
    exact solid_cons (by simp [solid, isBlank_of_digit? hc, hne]) ih

theorem solid_sign {sign : List Char} {negative : Bool} (h : Sign sign negative) : solid sign = true := by
  cases h <;> decide

theorem Spells.solid {lit : List Char} {l : Literal} (h : Spells lit l) : solid lit = true := by
  cases h with
  | infinity hsign => exact solid_append (solid_sign hsign) (by decide)
  | decimal hsign hmantissa hexponent =>
    refine solid_append (solid_sign hsign) (solid_append ?_ ?_)
    · cases hmantissa with
      | whole hdigits => exact solid_digits hdigits
      | pointed hdigits _ hdigits' => exact solid_append (solid_digits hdigits) (solid_cons rfl (solid_digits hdigits'))
      | fraction hdigits => exact solid_cons rfl (solid_digits hdigits)
    · cases hexponent with
      | none => rfl
      | @some mark _ _ _ _ hmark hsign' hdigits =>
        have hmark' : mark = 'e' ∨ mark = 'E' := by simpa using hmark
        have hsolid : Number.solid [mark] = true := by rcases hmark' with rfl | rfl <;> rfl
        exact solid_cons hsolid (solid_append (solid_sign hsign') (solid_digits hdigits))

theorem trim_eq_self {drop : Char → Bool} {cs : List Char} (h : ∀ c ∈ cs, drop c = false) : Text.trim drop cs = cs := by
  have hstart : ∀ {cs : List Char}, (∀ c ∈ cs, drop c = false) → cs.dropWhile drop = cs := by
    intro cs h
    cases cs with
    | nil => rfl
    | cons c rest => rw [List.dropWhile_cons, h c List.mem_cons_self]; rfl
  unfold Text.trim Text.trimEnd Text.trimStart
  rw [hstart h, hstart fun c hc => h c (List.mem_reverse.1 hc), List.reverse_reverse]

theorem withoutSeparators?_eq_self {digit : Bool} {cs : List Char} (h : '_' ∉ cs) :
    withoutSeparators? digit cs = some cs := by
  fun_induction withoutSeparators? digit cs with
  | case1 => rfl
  | case2 => simp at h
  | case3 => simp at h
  | case4 => simp at h
  | case5 digit c rest _ _ ih =>
    rw [ih fun hmem => h (List.mem_cons_of_mem c hmem)]
    rfl

theorem toLower_of_digit? {c : Char} {d : Nat} (h : Text.digit? c = some d) : c.toLower = c := by
  refine dif_neg fun hupper => ?_
  have hrange : 65 ≤ c.toNat ∧ c.toNat ≤ 90 := hupper
  unfold Text.digit? at h
  rw [if_pos (by omega), if_neg (by omega)] at h
  cases h

/-- A word that begins with a digit or a point is not one of the special numbers. -/
theorem special?_eq_none {c : Char} (hc : c = '.' ∨ ∃ d, Text.digit? c = some d) (rest : List Char) :
    special? (c :: rest) = none := by
  have hletter : c.toLower ≠ 'i' ∧ c.toLower ≠ 'n' := by
    rcases hc with rfl | ⟨d, hd⟩
    · decide
    · rw [toLower_of_digit? hd]
      constructor <;> rintro rfl <;> cases hd
  have hword : ∀ {w : String} {letter : Char} {more : List Char}, w.toList = letter :: more → c.toLower ≠ letter →
      String.ofList ((c :: rest).map Char.toLower) ≠ w := by
    rintro w letter more hw hne rfl
    rw [String.toList_ofList] at hw
    exact hne (List.cons.inj hw).1
  have hinf : String.ofList ((c :: rest).map Char.toLower) ≠ "inf" := hword rfl hletter.1
  have hinfinity : String.ofList ((c :: rest).map Char.toLower) ≠ "infinity" := hword rfl hletter.1
  have hnan : String.ofList ((c :: rest).map Char.toLower) ≠ "nan" := hword rfl hletter.2
  simp only [special?, hinf, hinfinity, hnan, decide_false, Bool.or_false, Bool.false_eq_true, if_false]

theorem leading?_of_spells {lit : List Char} {l : Literal} (h : Spells lit l) : leading? lit = some (l, []) := by
  obtain ⟨l', rest, hread, hsuffix, hl⟩ := leading?_append h []
  rw [List.append_nil, hl rfl, List.suffix_nil.1 hsuffix] at hread
  exact hread

/-- **A literal is a number from end to end, and the number is the one it stands for.** -/
theorem ofText?_of_spells {lit : List Char} {l : Literal} (h : Spells lit l) :
    ofText? (String.ofList lit) = some l.toFloat := by
  have hsolid : ∀ c ∈ lit, Text.isBlank c = false ∧ c ≠ '_' := by
    intro c hc
    simpa using List.all_eq_true.1 h.solid c hc
  have htrim : Text.trim isMargin lit = lit :=
    trim_eq_self fun c hc => by rw [isMargin, (hsolid c hc).1, Bool.false_and]
  have hplain : withoutSeparators? false lit = some lit := withoutSeparators?_eq_self fun hmem => (hsolid _ hmem).2 rfl
  have hread := leading?_of_spells h
  unfold ofText?
  rw [String.toList_ofList, htrim, hplain]
  dsimp only
  cases h with
  | @infinity sign negative hsign =>
    have hspan : spanSign (sign ++ "Infinity".toList) = (negative, "Infinity".toList) :=
      spanSign_append hsign (by rintro _ ⟨⟩; decide)
    rw [hspan]
    rfl
  | @decimal sign mantissa exponent negative whole fraction e hsign hmantissa hexponent =>
    obtain ⟨c, more, hcons, hc⟩ := hmantissa.exists_cons
    have hspecial : special? (mantissa ++ exponent) = none := by
      rw [hcons]
      exact special?_eq_none hc _
    rw [spanSign_append hsign (hmantissa.noSign exponent), hspecial, hread]

theorem leading_eq_of_leading? {text : String} {l : Literal} {rest : List Char}
    (h : leading? (Text.trimStart Text.isBlank text.toList) = some (l, rest)) : leading text = l.toFloat := by
  rw [leading, h]

theorem isNaN_leading_of_none {text : String} (h : leading? (Text.trimStart Text.isBlank text.toList) = none) :
    (leading text).isNaN = true := by
  rw [leading, h]
  decide +kernel

end Thicket.Number

namespace Thicket

open Number

/-! ## What the program is told -/

theorem call_of_parses {f : NativeFunction} (hf : f ∈ standardNatives) (hname : f.name = "parseNum")
    (v : Value) (s : State) :
    f.call [v] s =
      .ok (.object s.store.objects.size) { s with store := (s.store.newObject (parsedNumber v)).2 } := by
  simp only [standardNatives, List.mem_cons, List.not_mem_nil, or_false] at hf
  rcases hf with rfl | rfl | rfl | rfl
  · exact absurd hname (by decide)
  · exact absurd hname (by decide)
  · rfl
  · exact absurd hname (by decide)

/-- **`parseNum` reads the longest number literal at the start of a text**, behind the blanks there.  Without one the
result is no number, and the program is told that the text is not valid.  With one, that literal is converted: it is
where the pattern of number literals stops first, it is a number from end to end, and the program is told that
number. -/
theorem leading_reads_longest (text : String) {f : NativeFunction} (hf : f ∈ standardNatives)
    (hname : f.name = "parseNum") (s : State) :
    let t := Text.trimStart Text.isBlank text.toList
    let told := fun fields => f.call [.string text] s =
      .ok (.object s.store.objects.size) { s with store := (s.store.newObject fields).2 }
    ((∀ p, p <+: t → ¬ IsLiteral p) →
      (leading text).isNaN = true ∧ Pattern.numeral.rests t = [] ∧ told [("isValid", .boolean false)]) ∧
    ((∃ p, p <+: t ∧ IsLiteral p) → ∃ lit rest l, Longest t lit rest ∧ Spells lit l ∧
      leading text = l.toFloat ∧ ofText? (String.ofList lit) = some (leading text) ∧ (leading text).isNaN = false ∧
      Pattern.numeral.first? t = some rest ∧
      told [("isValid", .boolean true), ("value", .number (leading text))]) := by
  intro t told
  have hcall := call_of_parses hf hname (.string text) s
  refine ⟨fun hnone => ?_, fun hsome => ?_⟩
  · have hread : leading? t = none := leading?_eq_none_iff.2 hnone
    have hnan : (leading text).isNaN = true := isNaN_leading_of_none hread
    refine ⟨hnan, ?_, ?_⟩
    · rw [← List.head?_eq_none_iff, ← Pattern.first?, Pattern.first?_numeral, hread, Option.map_none]
    · rw [parsedNumber, if_pos hnan] at hcall
      exact hcall
  · have hread : leading? t ≠ none := by
      obtain ⟨p, hp, hliteral⟩ := hsome
      exact fun hread => leading?_eq_none_iff.1 hread p hp hliteral
    obtain ⟨⟨l, rest⟩, hread⟩ := Option.ne_none_iff_exists'.1 hread
    obtain ⟨lit, hlongest, hspells⟩ := longest_of_leading? hread
    have hvalue : leading text = l.toFloat := leading_eq_of_leading? hread
    have hnumber : (leading text).isNaN = false := by rw [hvalue, Literal.isNaN_toFloat]
    refine ⟨lit, rest, l, hlongest, hspells, hvalue, ?_, hnumber, ?_, ?_⟩
    · rw [ofText?_of_spells hspells, hvalue]
    · rw [Pattern.first?_numeral, hread, Option.map_some]
    · rw [parsedNumber, if_neg (by rw [hnumber]; exact Bool.false_ne_true)] at hcall
      exact hcall

/-- A weight, with a digit of another script, and a mark behind it that begins no exponent. -/
def weight : String := "\t -٣.5e+kg"

theorem weight_read : Longest "-٣.5e+kg".toList "-٣.5".toList "e+kg".toList ∧ leading weight = -3.5 ∧
    (∃ f ∈ standardNatives, ∀ s, f.call [.string weight] s = .ok (.object s.store.objects.size)
      { s with store := (s.store.newObject [("isValid", .boolean true), ("value", .number (-3.5))]).2 }) ∧
    ∃ f ∈ standardNatives, ∀ s, f.call [.string "e5"] s = .ok (.object s.store.objects.size)
      { s with store := (s.store.newObject [("isValid", .boolean false)]).2 } := by
  have hf : (⟨"parseNum", ["string"], "object", .parseNumber⟩ : NativeFunction) ∈ standardNatives := by
    simp [standardNatives]
  have htrim : Text.trimStart Text.isBlank weight.toList = "-٣.5e+kg".toList := by decide +kernel
  have hvalue : leading weight = -3.5 := by decide +kernel
  have hliteral : IsLiteral "-٣".toList := ⟨_, .decimal .minus (.whole (.cons rfl .nil) (List.cons_ne_nil _ _)) .none⟩
  have hread := fun s => (leading_reads_longest weight hf rfl s).2 ⟨_, htrim ▸ ⟨".5e+kg".toList, rfl⟩, hliteral⟩
  have hnone := fun s => (leading_reads_longest "e5" hf rfl s).1 (leading?_eq_none_iff.1 (by decide +kernel))
  refine ⟨?_, hvalue, ⟨_, hf, fun s => ?_⟩, ⟨_, hf, fun s => (hnone s).2.2⟩⟩
  · obtain ⟨lit, rest, -, hlongest, -, -, -, -, hfirst, -⟩ := hread (State.initial (.queue []) (.steady 0))
    rw [htrim] at hlongest hfirst
    have hrest : Pattern.numeral.first? "-٣.5e+kg".toList = some "e+kg".toList := by decide +kernel
    obtain rfl := Option.some.inj (hrest.symm.trans hfirst)
    have hsplit : "-٣.5".toList ++ "e+kg".toList = lit ++ "e+kg".toList := hlongest.split
    rw [List.append_cancel_right hsplit]
    exact hlongest
  · obtain ⟨-, -, -, -, -, -, -, -, -, htold⟩ := hread s
    rw [hvalue] at htold
    exact htold

end Thicket
