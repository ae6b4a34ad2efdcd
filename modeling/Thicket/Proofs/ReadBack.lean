import Thicket.Number.Text
import Thicket.Proofs.LeadingNumber
import Thicket.Proofs.ShortestDigits
/-!
# Numbers that are shown can be read

`display` writes a number in one of five ways: a word, all the digits of a whole number, digits with the point among
them or beside them, or digits with an exponent.  Each of these is a literal from end to end, and its value is known
(`Tells`).  For a whole number that value is the number itself, and for any other it is the decimal of the fewest
digits; both lie in the interval of the double, so the literal is read as that double (`Tells.spells_signed`).
-/
namespace Thicket.Number

open Float.Model (UnpackedFloat)

/-! ## Digits -/

/-- A text of the ten digits `0` to `9`. -/
def Decimals (cs : List Char) : Prop := ∀ c ∈ cs, c.isDigit = true

theorem decimals_toDigits (n : Nat) : Decimals (Nat.toDigits 10 n) :=
  fun _ hc => Nat.isDigit_of_mem_toDigits (by decide) (by decide) hc

theorem decimals_append {cs cs' : List Char} (h : Decimals cs) (h' : Decimals cs') : Decimals (cs ++ cs') := by
  intro c hc
  rcases List.mem_append.1 hc with hc | hc
  · exact h c hc
  · exact h' c hc

theorem decimals_zeros (n : Nat) : Decimals (List.replicate n '0') := by
  intro c hc
  rw [List.eq_of_mem_replicate hc]
  rfl

theorem Decimals.subset {cs cs' : List Char} (h : Decimals cs) (hsub : cs' ⊆ cs) : Decimals cs' :=
  fun c hc => h c (hsub hc)

/-- The value of each digit. -/
def digitValues (cs : List Char) : List Nat := cs.map fun c => c.toNat - '0'.toNat

theorem digit?_of_isDigit {c : Char} (h : c.isDigit = true) : Text.digit? c = some (c.toNat - '0'.toNat) := by
  have hbounds : 48 ≤ c.toNat ∧ c.toNat ≤ 57 := by
    rw [Char.isDigit, Bool.and_eq_true, decide_eq_true_iff, decide_eq_true_iff] at h
    exact h
  rw [Text.digit?, if_pos (by omega), if_pos hbounds]
  rfl

theorem Decimals.digits {cs : List Char} (h : Decimals cs) : Digits cs (digitValues cs) := by
  induction cs with
  | nil => exact .nil
  | cons c cs ih =>
    exact .cons (digit?_of_isDigit (h c List.mem_cons_self)) (ih (h.subset (List.subset_cons_self c cs)))

theorem ofDigits_digitValues (cs : List Char) : ofDigits (digitValues cs) = Nat.ofDigitChars 10 cs 0 := by
  rw [ofDigits, digitValues, List.foldl_map, Nat.ofDigitChars_eq_foldl]

theorem digitValues_ne_nil {cs : List Char} (h : cs ≠ []) : digitValues cs ≠ [] := by
  simpa [digitValues] using h

/-- The zeros that are dropped at the end of digits. -/
theorem exists_zeros (cs : List Char) : ∃ n, cs = trimZeros cs ++ List.replicate n '0' := by
  have hsplit : cs.reverse.takeWhile (· = '0') ++ cs.reverse.dropWhile (· = '0') = cs.reverse :=
    List.takeWhile_append_dropWhile
  have hzeros : cs.reverse.takeWhile (· = '0') = List.replicate (cs.reverse.takeWhile (· = '0')).length '0' := by
    refine List.eq_replicate_of_mem fun c hc => ?_
    simpa using List.mem_takeWhile_imp hc
  refine ⟨(cs.reverse.takeWhile (· = '0')).length, ?_⟩
  rw [← List.reverse_inj, List.reverse_append, List.reverse_replicate, trimZeros, List.reverse_reverse, ← hzeros,
    hsplit]

/-! ## Texts and their values -/

/-- The characters spell a number of this value, without a sign. -/
def Tells (cs : List Char) (v : ℚ) : Prop :=
  ∃ (mantissa exponent : List Char) (whole fraction : List Nat) (i : Int), cs = mantissa ++ exponent ∧
    Mantissa mantissa whole fraction ∧ Exponent exponent i ∧
    (Decimal.mk (ofDigits (whole ++ fraction)) (i - fraction.length)).value = v

theorem tells_whole {cs exponent : List Char} {i : Int} (h : Decimals cs) (hne : cs ≠ []) (hi : Exponent exponent i) :
    Tells (cs ++ exponent) (Nat.ofDigitChars 10 cs 0 * 10 ^ i) := by
  refine ⟨cs, exponent, digitValues cs, [], i, rfl, .whole h.digits (digitValues_ne_nil hne), hi, ?_⟩
  rw [List.append_nil, ofDigits_digitValues, List.length_nil, Nat.cast_zero, sub_zero]
  rfl

theorem tells_pointed {cs cs' exponent : List Char} {i : Int} (h : Decimals cs) (hne : cs ≠ []) (h' : Decimals cs')
    (hi : Exponent exponent i) :
    Tells (cs ++ '.' :: cs' ++ exponent) (Nat.ofDigitChars 10 (cs ++ cs') 0 * 10 ^ (i - cs'.length)) := by
  refine ⟨cs ++ '.' :: cs', exponent, digitValues cs, digitValues cs', i, rfl,
    .pointed h.digits (digitValues_ne_nil hne) h'.digits, hi, ?_⟩
  rw [← ofDigits_digitValues]
  simp [digitValues, Decimal.value]

theorem Tells.of_eq {cs cs' : List Char} {v v' : ℚ} (h : Tells cs v) (hcs : cs' = cs) (hv : v' = v) :
    Tells cs' v' := by
  subst hcs hv
  exact h

theorem ofDigitChars_zeros_append (n : Nat) (cs : List Char) :
    Nat.ofDigitChars 10 (List.replicate n '0' ++ cs) 0 = Nat.ofDigitChars 10 cs 0 := by
  rw [Nat.ofDigitChars_append, Nat.ofDigitChars_replicate_zero, Nat.mul_zero]

/-- Zeros at the end of digits count as much as the exponent. -/
theorem ofDigitChars_append_zeros (cs : List Char) (n : Nat) (i : Int) :
    (Nat.ofDigitChars 10 (cs ++ List.replicate n '0') 0 * 10 ^ i : ℚ) = Nat.ofDigitChars 10 cs 0 * 10 ^ (n + i) := by
  rw [Nat.ofDigitChars_append, Nat.ofDigitChars_replicate_zero, zpow_add₀ (by norm_num), zpow_natCast]
  push_cast
  ring

theorem tells_positional {digits : List Char} (h : Decimals digits) (hne : digits ≠ []) (point : Int) :
    Tells (positional digits point).toList (Nat.ofDigitChars 10 digits 0 * 10 ^ (point - digits.length)) := by
  have hlength : 0 < digits.length := List.length_pos_iff.2 hne
  unfold positional
  split
  · -- a zero before the point, and zeros after it
    refine (tells_pointed (decimals_zeros 1) (List.cons_ne_nil _ _)
      (decimals_append (decimals_zeros point.natAbs) h) .none).of_eq ?_ ?_
    · simp
    · rw [ofDigitChars_zeros_append, ofDigitChars_zeros_append, List.length_append, List.length_replicate]
      congr 2
      omega
  · split
    · refine (tells_pointed (h.subset (List.take_subset point.natAbs digits)) ?_
        (h.subset (List.drop_subset point.natAbs digits)) .none).of_eq ?_ ?_
      · rw [Ne, List.take_eq_nil_iff, not_or]
        exact ⟨by omega, hne⟩
      · simp
      · rw [List.take_append_drop, List.length_drop]
        congr 2
        omega
    · -- zeros on both sides of the point
      refine (tells_pointed (decimals_append h (decimals_zeros (point.natAbs - digits.length))) (by simp [hne])
        (decimals_zeros 1) .none).of_eq ?_ ?_
      · simp
      · rw [ofDigitChars_append_zeros, ofDigitChars_append_zeros, List.length_replicate]
        congr 2
        omega

theorem exponent_exponentText (e : Int) : Exponent ('e' :: (exponentText e).toList) e := by
  unfold exponentText
  dsimp only
  generalize hpadded : List.replicate (2 - (Nat.toDigits 10 e.natAbs).length) '0' ++ Nat.toDigits 10 e.natAbs = padded
  have hdigits : Decimals padded := hpadded ▸ decimals_append (decimals_zeros _) (decimals_toDigits _)
  have hne : digitValues padded ≠ [] :=
    digitValues_ne_nil (hpadded ▸ List.append_ne_nil_of_right_ne_nil _ Nat.toDigits_ne_nil)
  have hvalue : ofDigits (digitValues padded) = e.natAbs := by
    rw [ofDigits_digitValues, ← hpadded, ofDigitChars_zeros_append, Nat.ofDigitChars_ten_toDigits]
  by_cases hneg : e < 0
  · have hspelled := Exponent.some List.mem_cons_self .minus hdigits.digits hne
    rw [hvalue, if_pos rfl, show -(e.natAbs : Int) = e by omega] at hspelled
    rw [if_pos hneg]
    simpa using hspelled
  · have hspelled := Exponent.some List.mem_cons_self .plus hdigits.digits hne
    rw [hvalue, if_neg Bool.false_ne_true, show (e.natAbs : Int) = e by omega] at hspelled
    rw [if_neg hneg]
    simpa using hspelled

theorem tells_scientific {digits : List Char} (h : Decimals digits) (hne : digits ≠ []) (e : Int) :
    Tells (scientific digits e).toList (Nat.ofDigitChars 10 digits 0 * 10 ^ (e + 1 - digits.length)) := by
  obtain ⟨c, tail, rfl⟩ := List.exists_cons_of_ne_nil hne
  have hfirst : Decimals [c] := h.subset (by simp)
  unfold scientific
  cases tail with
  | nil =>
    refine (tells_whole hfirst (List.cons_ne_nil _ _) (exponent_exponentText e)).of_eq ?_ ?_
    · simp
    · congr 2
      simp
  | cons c' tail =>
    refine (tells_pointed hfirst (List.cons_ne_nil _ _) (h.subset (List.subset_cons_self c _))
      (exponent_exponentText e)).of_eq ?_ ?_
    · simp
    · congr 2
      simp

variable {m : Nat} {e : Int} {v : ℚ} {x : Float}

theorem tells_magnitudeText (hc : Canonical m e) : Tells (magnitudeText m e).toList (shortest m e).value := by
  have hpos : 0 < (shortest m e).coefficient := Decimal.coefficient_pos hc (contains_shortest hc)
  have hread : Nat.ofDigitChars 10 (Nat.toDigits 10 (shortest m e).coefficient) 0 = (shortest m e).coefficient :=
    Nat.ofDigitChars_ten_toDigits
  have hdecimals := decimals_toDigits (shortest m e).coefficient
  obtain ⟨zeros, hzeros⟩ := exists_zeros (Nat.toDigits 10 (shortest m e).coefficient)
  have hlength := congrArg List.length hzeros
  rw [List.length_append, List.length_replicate] at hlength
  have htrimmed : Decimals (trimZeros (Nat.toDigits 10 (shortest m e).coefficient)) := by
    refine hdecimals.subset ?_
    nth_rewrite 2 [hzeros]
    exact List.subset_append_left _ _
  have hne : trimZeros (Nat.toDigits 10 (shortest m e).coefficient) ≠ [] := by
    intro hnil
    rw [hnil, List.nil_append] at hzeros
    rw [hzeros, Nat.ofDigitChars_replicate_zero] at hread
    omega
  -- what is lost with the zeros is made up for by the place of the point
  have hvalue : (shortest m e).value = Nat.ofDigitChars 10 (trimZeros (Nat.toDigits 10 (shortest m e).coefficient)) 0 *
      10 ^ (zeros + (shortest m e).exponent) := by
    rw [← ofDigitChars_append_zeros, ← hzeros, hread]
    rfl
  unfold magnitudeText
  dsimp only
  split
  · refine (tells_positional htrimmed hne _).of_eq rfl ?_
    rw [hvalue]
    congr 2
    omega
  · refine (tells_scientific htrimmed hne _).of_eq rfl ?_
    rw [hvalue]
    congr 2
    omega

/-! ## Whole numbers -/

theorem tells_toDigits (n : Nat) : Tells (String.ofList (Nat.toDigits 10 n)).toList n := by
  refine (tells_whole (decimals_toDigits n) Nat.toDigits_ne_nil .none).of_eq ?_ ?_
  · rw [String.toList_ofList, List.append_nil]
  · rw [Nat.ofDigitChars_ten_toDigits, zpow_zero, mul_one]

theorem whole?_eq_some_iff {n : Nat} : ∀ {e : Int}, whole? m e = some n ↔ (n : ℚ) = m * 2 ^ e
  | .ofNat e => by
    simp only [whole?, twoTo, Nat.pow_eq, Option.some.injEq, Int.ofNat_eq_natCast, zpow_natCast]
    constructor
    · rintro rfl
      push_cast
      rfl
    · intro h
      exact_mod_cast h.symm
  | .negSucc e => by
    have hpos : 0 < twoTo (e + 1) := Nat.pow_pos (by decide)
    have hpower : (2 : ℚ) ^ (e + 1) = twoTo (e + 1) := by simp [twoTo]
    rw [zpow_negSucc, hpower, ← div_eq_mul_inv, eq_div_iff (by exact_mod_cast hpos.ne'), whole?]
    generalize twoTo (e + 1) = power at hpos
    constructor
    · intro h
      split at h
      · cases h
        exact_mod_cast Nat.div_mul_cancel (Nat.dvd_of_mod_eq_zero ‹_›)
      · cases h
    · intro h
      have h : n * power = m := by exact_mod_cast h
      rw [← h, Nat.mul_mod_left, if_pos rfl, Nat.mul_div_cancel _ hpos]

/-- The number that a double stands for, unless it is infinite or none. -/
def value? (x : Float) : Option ℚ :=
  match x.toModel.unpack with
  | .finite .positive m e _ => some (m * 2 ^ e)
  | .finite .negative m e _ => some (-(m * 2 ^ e))
  | .zero _ => some 0
  | _ => none

theorem value?_of_read {negative : Bool} (h : read x = .finite negative m e) :
    value? x = some (if negative then -((m : ℚ) * 2 ^ e) else m * 2 ^ e) := by
  unfold value?
  rw [unpack_toModel, h, ofReading]
  by_cases hm : m = 0
  · rw [dif_pos hm, hm]
    simp
  · rw [dif_neg hm]
    cases negative <;> rfl

/-! ## Signs -/

theorem toList_signed (negative : Bool) (s : String) :
    (signed negative s).toList = (if negative then ['-'] else []) ++ s.toList := by
  cases negative <;> simp [signed]

theorem sign_text (negative : Bool) : Sign (if negative then ['-'] else []) negative := by
  cases negative
  · exact .none
  · exact .minus

/-- A text of a value in the interval of a double is a literal of that double. -/
theorem Tells.spells_signed {s : String} (h : Tells s.toList v) (hc : Canonical m e)
    (hv : (Interval.around m e).Contains v) (negative : Bool) :
    ∃ l, Spells (signed negative s).toList l ∧ l.toFloat = hc.double (signOf negative) := by
  obtain ⟨mantissa, exponent, whole, fraction, i, htext, hmantissa, hexponent, rfl⟩ := h
  refine ⟨.decimal negative whole fraction i, ?_, ?_⟩
  · rw [toList_signed, htext]
    exact .decimal (sign_text negative) hmantissa hexponent
  · rw [Literal.toFloat, Decimal.toFloat_eq hc hv]
    cases negative
    · rfl
    · exact hc.neg_double

theorem spells_infinity (negative : Bool) : Spells (signed negative "Infinity").toList (.infinity negative) := by
  rw [toList_signed]
  exact .infinity (sign_text negative)

theorem spells_display (hx : x.isNaN = false) : ∃ l, Spells (display x).toList l ∧ (l.toFloat == x) = true := by
  have hnan : x ≠ Float.nan := by
    rw [Float.isNaN_eq_decide_eq_nan] at hx
    exact of_decide_eq_false hx
  have hunpack := unpack_toModel x
  unfold display
  cases hread : read x with
  | nan =>
    rw [hread] at hunpack
    have : x.isNaN = true := congrArg UnpackedFloat.isNaN hunpack
    rw [hx] at this
    cases this
  | infinite negative =>
    rw [hread] at hunpack
    refine ⟨_, spells_infinity negative, ?_⟩
    rw [eq_of_unpack hunpack]
    cases negative <;> decide +kernel
  | finite negative m e =>
    dsimp only
    by_cases hm : 0 < m
    · have hc := canonical_of_read hread hm
      have hequal : ∀ {y : Float}, y = hc.double (signOf negative) → (y == x) = true := by
        rintro y rfl
        rw [← eq_double_of_read hread hm]
        exact Float.beq_self_iff.2 hnan
      split
      · rename_i n hn
        have hvalue := whole?_eq_some_iff.1 hn
        have hne : n ≠ 0 := by
          rintro rfl
          have : (0 : ℚ) < m * 2 ^ e := by positivity
          rw [← hvalue, Nat.cast_zero] at this
          exact lt_irrefl _ this
        obtain ⟨l, hl, heq⟩ := (tells_toDigits n).spells_signed hc (hvalue ▸ hc.contains_self) negative
        rw [bne_iff_ne.2 hne, Bool.and_true]
        exact ⟨l, hl, hequal heq⟩
      · obtain ⟨l, hl, heq⟩ := (tells_magnitudeText hc).spells_signed hc (contains_shortest hc) negative
        exact ⟨l, hl, hequal heq⟩
    · obtain rfl : m = 0 := by omega
      have hn : whole? 0 e = some 0 := whole?_eq_some_iff.2 (by simp)
      have hzero : x.toModel.unpack = .zero (signOf negative) := by
        rw [hunpack, hread, ofReading, dif_pos rfl]
      have htext : (signed (negative && (0 : Nat) != 0) (String.ofList (Nat.toDigits 10 0))).toList =
          [] ++ (['0'] ++ []) := by simp [signed]
      rw [hn]
      refine ⟨.decimal false [0] [] 0, ?_, ?_⟩
      · dsimp only
        rw [htext]
        exact .decimal .none (.whole (.cons rfl .nil) (List.cons_ne_nil _ _)) .none
      · rw [eq_of_unpack hzero]
        cases negative <;> decide +kernel

theorem toString_eq_signed : ∀ n : Int,
    toString n = signed (decide (n < 0)) (String.ofList (Nat.toDigits 10 n.natAbs))
  | .ofNat n => Nat.toString_eq_ofList_toDigits
  | .negSucc n => by
    rw [decide_eq_true (Int.negSucc_lt_zero n), ← Nat.toString_eq_ofList_toDigits]
    rfl

theorem display_of_whole {n : Int} (h : value? x = some (n : ℚ)) : display x = toString n := by
  have hunpack := unpack_toModel x
  unfold display
  cases hread : read x with
  | nan | infinite =>
    rw [value?, hunpack, hread] at h
    cases h
  | finite negative m e =>
    rw [value?_of_read hread, Option.some.injEq] at h
    have hsize : (0 : ℚ) ≤ m * 2 ^ e := by positivity
    have hn : whole? m e = some n.natAbs := by
      rw [whole?_eq_some_iff, Nat.cast_natAbs, Int.cast_abs, ← h]
      split
      · rw [abs_neg, abs_of_nonneg hsize]
      · rw [abs_of_nonneg hsize]
    have hsign : (negative && n.natAbs != 0) = decide (n < 0) := by
      cases negative with
      | false =>
        rw [if_neg Bool.false_ne_true] at h
        have : 0 ≤ n := by exact_mod_cast h ▸ hsize
        rw [Bool.false_and, decide_eq_false (by omega)]
      | true =>
        rw [if_pos rfl] at h
        have : n ≤ 0 := by exact_mod_cast h ▸ neg_nonpos.2 hsize
        rw [Bool.true_and, Bool.eq_iff_iff, bne_iff_ne, decide_eq_true_iff]
        omega
    rw [toString_eq_signed]
    dsimp only
    rw [hn, ← hsign]

theorem trimStart_of_spells {cs : List Char} {l : Literal} (h : Spells cs l) : Text.trimStart Text.isBlank cs = cs := by
  refine List.dropWhile_eq_self_iff.2 fun hpos => ?_
  have hsolid := List.all_eq_true.1 h.solid _ (List.getElem_mem hpos)
  simp_all

/-- **A number that is shown can be read.**  Its text is a number literal from end to end, without blanks before it, and
what is read is equal to the number; only the sign of a zero is lost.  A whole number is shown by its decimal digits,
all of them, however large it is. -/
theorem shown_numbers_read_back (x : Float) (hx : x.isNaN = false) :
    Text.trimStart Text.isBlank (display x).toList = (display x).toList ∧
    (∃ l, leading? (display x).toList = some (l, [])) ∧ Pattern.numeral.first? (display x).toList = some [] ∧
    (leading (display x) == x) = true ∧ ∀ n : Int, value? x = some (n : ℚ) → display x = toString n := by
  obtain ⟨l, hspells, hequal⟩ := spells_display hx
  have htrim := trimStart_of_spells hspells
  have hread := leading?_of_spells hspells
  refine ⟨htrim, ⟨l, hread⟩, ?_, ?_, fun _ => display_of_whole⟩
  · rw [Pattern.first?_numeral, hread, Option.map_some]
  · rwa [leading_eq_of_leading? (by rw [htrim, hread])]

/-- The largest power of ten that is a double, and the double next to zero on its negative side. -/
theorem extremes_read_back :
    display (Float.ofBits 0x4480F0CF064DD592) = toString (10 ^ 22 : Int) ∧
    (leading (display (Float.ofBits 0x8000000000000001)) == Float.ofBits 0x8000000000000001) = true := by
  have hread : read (Float.ofBits 0x4480F0CF064DD592) = .finite false 4768371582031250 21 := by decide +kernel
  have hvalue : value? (Float.ofBits 0x4480F0CF064DD592) = some ((10 ^ 22 : Int) : ℚ) := by
    rw [value?_of_read hread]
    norm_num
  obtain ⟨-, -, -, -, hwhole⟩ := shown_numbers_read_back (Float.ofBits 0x4480F0CF064DD592) (by decide +kernel)
  obtain ⟨-, -, -, hequal, -⟩ := shown_numbers_read_back (Float.ofBits 0x8000000000000001) (by decide +kernel)
  exact ⟨hwhole _ hvalue, hequal⟩

end Thicket.Number
