import Mathlib
import Thicket.Number.Literal
import Thicket.Proofs.Rounding
/-!
# A decimal is read as the nearest double

`Decimal.toFloat` looks at how large a decimal is, then multiplies its coefficient with a power of ten or divides it by
one.  Small coefficients and powers go through doubles that hold them exactly, all others through whole numbers of any
size.  On either way there is one rounding, so the result is the double in whose interval the decimal lies
(`Decimal.toFloat_eq`).

The last part takes a double apart.  `read` looks at its bits; a double that is neither zero nor infinite is the one
with the mantissa and the exponent that are read from it (`eq_double_of_read`).
-/
namespace Thicket.Number

open Float.Model (Format UnpackedFloat totalExponent)
open Float.Model.UnpackedFloat (Accuracy Sign)

variable {m : Nat} {e : Int} {v : ℚ}

/-! ## The doubles -/

/-- The double with this sign, mantissa and exponent. -/
def Canonical.double (hc : Canonical m e) (s : Sign) : Float := .ofModel (.pack (.finite s m e hc.pos))

/-- The first digit of a mantissa with all its digits is known, and left out in packing. -/
theorem toNat_one_append (b : BitVec 52) : (1#1 ++ b).toNat = 2 ^ 52 + b.toNat := by
  rw [BitVec.toNat_append, Nat.shiftLeft_eq, Nat.mul_comm]
  exact (Nat.two_pow_add_eq_or_of_lt b.isLt 1).symm

theorem Canonical.unpack_pack (hc : Canonical m e) (s : Sign) :
    UnpackedFloat.unpack .binary64 (UnpackedFloat.pack .binary64 (.finite s m e hc.pos)) = .finite s m e hc.pos := by
  obtain ⟨hpos, hlt, hleast, hmost, hfull⟩ := hc
  have hbias : e + Format.binary64.exponentBias + Format.binary64.mantissaBitsWithoutImplicit = e + 1075 := by
    show e + 1023 + 52 = e + 1075
    omega
  have hlog : m.log2 < 53 := (Nat.log2_lt hpos.ne').2 hlt
  have hfinite : ¬ 2 ^ 11 ≤ (e + 1075).toNat + 1 := by omega
  unfold UnpackedFloat.pack
  dsimp only
  rw [hbias, if_neg hfinite]
  by_cases hnormal : 2 ^ 52 ≤ m
  · have hlog' : 52 ≤ m.log2 := (Nat.le_log2 hpos.ne').2 hnormal
    have hbiased : (BitVec.ofNat 11 (e + 1075).toNat).toNat = (e + 1075).toNat := by
      rw [BitVec.toNat_ofNat]
      omega
    have hmantissa : (1#1 ++ BitVec.ofNat 52 m).toNat = m := by
      rw [toNat_one_append, BitVec.toNat_ofNat]
      omega
    have hlargest : BitVec.ofNat 11 (e + 1075).toNat ≠ -1#11 := by
      intro h
      have := congrArg BitVec.toNat h
      rw [hbiased] at this
      change _ = 2047 at this
      omega
    have hleast : BitVec.ofNat 11 (e + 1075).toNat ≠ 0#11 := by
      intro h
      have := congrArg BitVec.toNat h
      rw [hbiased] at this
      change _ = 0 at this
      omega
    rw [if_pos (by show m.log2 + 1 = 53; omega)]
    unfold UnpackedFloat.unpack
    simp only [UnpackedFloat.unpackMantissa_packComponents, UnpackedFloat.unpackExponent_packComponents,
      UnpackedFloat.unpackSign_packComponents, Sign.ofBitVec_toBitVec, if_neg hlargest, if_neg hleast,
      hmantissa]
    congr 1
    show ((BitVec.ofNat 11 (e + 1075).toNat).toNat : Int) - (1023 + 52) = e
    omega
  · have hlog' : m.log2 < 52 := (Nat.log2_lt hpos.ne').2 (by omega)
    have hmantissa : (BitVec.ofNat 52 m).toNat = m := by
      rw [BitVec.toNat_ofNat]
      omega
    have hne : BitVec.ofNat 52 m ≠ 0#52 := by
      intro h
      have := congrArg BitVec.toNat h
      rw [hmantissa] at this
      exact hpos.ne' this
    rw [if_neg (by show m.log2 + 1 ≠ 53; omega)]
    unfold UnpackedFloat.unpack
    simp only [UnpackedFloat.unpackMantissa_packComponents, UnpackedFloat.unpackExponent_packComponents,
      UnpackedFloat.unpackSign_packComponents, Sign.ofBitVec_toBitVec, dif_neg hne, hmantissa]
    rw [if_neg (by decide), if_pos trivial]
    congr 1
    rw [hfull.resolve_left hnormal]
    rfl

theorem Canonical.unpack_double (hc : Canonical m e) (s : Sign) : (hc.double s).toModel.unpack = .finite s m e hc.pos :=
  hc.unpack_pack s

theorem Canonical.neg_double (hc : Canonical m e) : -hc.double .positive = hc.double .negative := by
  show Float.ofModel (.pack ((hc.double .positive).toModel.unpack.neg)) = _
  rw [hc.unpack_double]
  rfl

/-! ## Arithmetic that is rounded once -/

/-- The double itself lies in its interval. -/
theorem Canonical.contains_self (hc : Canonical m e) : (Interval.around m e).Contains (m * 2 ^ e) := by
  have hquotient : (m * 2 ^ e : ℚ) / 2 ^ e = m := mul_div_cancel_right₀ _ (by positivity)
  refine contains_of_inside hc.pos ?_ ?_ <;> rw [hquotient]
  · linarith [(reach_bounds m e).1]
  · linarith

variable {m₁ m₂ : Nat} {e₁ e₂ : Int}

theorem mul_eq (hc : Canonical m e) (h₁ : 0 < m₁) (h₂ : 0 < m₂) (hfull : 2 ^ 52 ≤ m₁ * m₂)
    (hv : (Interval.around m e).Contains (m₁ * 2 ^ e₁ * (m₂ * 2 ^ e₂))) :
    UnpackedFloat.mul .binary64 (.finite .positive m₁ e₁ h₁) (.finite .positive m₂ e₂ h₂) =
      .finite .positive m e hc.pos := by
  refine roundWithAccuracy_eq hc hv ?_ ?_ .positive
  · show _ = ((m₁ * m₂ : Nat) : ℚ)
    rw [zpow_add₀ two_ne_zero, div_eq_iff (by positivity)]
    push_cast
    ring
  · have hlog : 52 ≤ (m₁ * m₂).log2 := (Nat.le_log2 (by positivity)).2 hfull
    rw [targetExponent_eq, totalExponent]
    omega

theorem stands_accuracyOfFraction {num den : Nat} (h : num < den) :
    ∀ n : Nat, Stands n (UnpackedFloat.accuracyOfFraction num den) (n + num / den) := by
  intro n
  have hden : (0 : ℚ) < den := by exact_mod_cast Nat.zero_lt_of_lt h
  unfold UnpackedFloat.accuracyOfFraction
  split
  · simp [Stands, *]
  · have hpos : (0 : ℚ) < num / den := by
      have : (0 : ℚ) < num := by exact_mod_cast Nat.pos_of_ne_zero ‹_›
      positivity
    have hlt : (num : ℚ) / den < 1 := by
      rw [div_lt_one hden]
      exact_mod_cast h
    rcases hcmp : compare (2 * num) den with _ | _ | _
    · have : (2 : ℚ) * num < den := by exact_mod_cast Nat.compare_eq_lt.1 hcmp
      have : (num : ℚ) / den < 1 / 2 := by
        rw [div_lt_iff₀ hden]
        linarith
      exact ⟨by linarith, by linarith⟩
    · have : (2 : ℚ) * num = den := by exact_mod_cast Nat.compare_eq_eq.1 hcmp
      have : (num : ℚ) / den = 1 / 2 := by
        rw [div_eq_iff hden.ne']
        linarith
      show _ = _
      rw [this]
    · have : (den : ℚ) < 2 * num := by exact_mod_cast Nat.compare_eq_gt.1 hcmp
      have : (1 : ℚ) / 2 < num / den := by
        rw [lt_div_iff₀ hden]
        linarith
      exact ⟨by linarith, by linarith⟩

theorem div_eq (hc : Canonical m e) (h₁ : 0 < m₁) (h₂ : 0 < m₂)
    (hv : (Interval.around m e).Contains (m₁ * 2 ^ e₁ / (m₂ * 2 ^ e₂))) :
    UnpackedFloat.div .binary64 (.finite .positive m₁ e₁ h₁) (.finite .positive m₂ e₂ h₂) =
      .finite .positive m e hc.pos := by
  show UnpackedFloat.roundWithAccuracy .binary64 .positive _ _ _ = _
  rw [targetExponent_eq, totalExponent, totalExponent, Nat.shiftLeft_eq]
  generalize ht : min (e₁ - e₂) (max _ _) = t
  have hshift : ((e₁ - e₂ - t).toNat : Int) = e₁ - e₂ - t := by omega
  generalize (e₁ - e₂ - t).toNat = n at hshift
  refine roundWithAccuracy_eq hc hv ?_ ?_ .positive
  · have hquotient : (m₁ * 2 ^ e₁ / (m₂ * 2 ^ e₂) / 2 ^ t : ℚ) =
        ((m₁ * 2 ^ n / m₂ : Nat) : ℚ) + (m₁ * 2 ^ n % m₂ : Nat) / m₂ := by
      have hpower : (2 : ℚ) ^ n = 2 ^ e₁ / 2 ^ e₂ / 2 ^ t := by
        rw [← zpow_natCast, hshift, zpow_sub₀ two_ne_zero, zpow_sub₀ two_ne_zero]
      have hdivision : (m₁ * 2 ^ n : ℚ) = m₂ * (m₁ * 2 ^ n / m₂ : Nat) + (m₁ * 2 ^ n % m₂ : Nat) := by
        exact_mod_cast (Nat.div_add_mod (m₁ * 2 ^ n) m₂).symm
      have hne : (m₂ : ℚ) ≠ 0 := by exact_mod_cast h₂.ne'
      rw [hpower] at hdivision
      field_simp at hdivision ⊢
      linarith
    rw [hquotient]
    exact stands_accuracyOfFraction (Nat.mod_lt _ h₂) _
  · rw [targetExponent_eq, totalExponent]
    by_cases hleast : t ≤ -1074
    · omega
    · -- the dividend was shifted so far that the quotient has all the digits that a double has
      have hdigits : 2 ^ 52 * m₂ ≤ m₁ * 2 ^ n := by
        have hlow : 2 ^ m₁.log2 ≤ m₁ := Nat.log2_self_le h₁.ne'
        have hhigh : m₂ < 2 ^ (m₂.log2 + 1) := Nat.lt_log2_self
        calc 2 ^ 52 * m₂ ≤ 2 ^ 52 * 2 ^ (m₂.log2 + 1) := Nat.mul_le_mul_left _ hhigh.le
          _ = 2 ^ (52 + (m₂.log2 + 1)) := (Nat.pow_add ..).symm
          _ ≤ 2 ^ (m₁.log2 + n) := Nat.pow_le_pow_right (by decide) (by omega)
          _ = 2 ^ m₁.log2 * 2 ^ n := Nat.pow_add ..
          _ ≤ m₁ * 2 ^ n := Nat.mul_le_mul_right _ hlow
      have hquotient : 2 ^ 52 ≤ m₁ * 2 ^ n / m₂ := (Nat.le_div_iff_mul_le h₂).2 hdigits
      have hlog : 52 ≤ (m₁ * 2 ^ n / m₂).log2 := (Nat.le_log2 (by omega)).2 hquotient
      omega

/-! ## Powers of ten -/

/-- The double with all its digits that is exactly `10 ^ k`. -/
def isPowerOfTen (k : Nat) : UnpackedFloat → Bool
  | .finite .positive m e _ => decide (2 ^ 52 ≤ m) && decide (-52 ≤ e) && m * 2 ^ (e + 52).toNat == 10 ^ k * 2 ^ 52
  | _ => false

theorem powersOfTen_exact : ∀ k (h : k < Float.exactlyRepresentablePowersOfTen.size),
    isPowerOfTen k (Float.exactlyRepresentablePowersOfTen[k]).toModel.unpack = true := by
  decide +kernel

theorem finite_of_isPowerOfTen {k : Nat} : ∀ {u : UnpackedFloat}, isPowerOfTen k u = true →
    ∃ (n : Nat) (i : Int) (hn : 0 < n), u = .finite .positive n i hn ∧ 2 ^ 52 ≤ n ∧ (n * 2 ^ i : ℚ) = 10 ^ k
  | .finite .positive n i hn, h => by
    simp only [isPowerOfTen, Bool.and_eq_true, decide_eq_true_eq, beq_iff_eq] at h
    obtain ⟨⟨hfull, hi⟩, hvalue⟩ := h
    refine ⟨n, i, hn, rfl, hfull, ?_⟩
    have hvalue : (n * 2 ^ (i + 52).toNat : ℚ) = 10 ^ k * 2 ^ 52 := by exact_mod_cast hvalue
    rw [← zpow_natCast, Int.toNat_of_nonneg (by omega), zpow_add₀ two_ne_zero, ← mul_assoc] at hvalue
    exact mul_right_cancel₀ (by positivity) hvalue

/-- A whole number of no more digits than a double has is held exactly, with all its digits used. -/
theorem ofNat_exact {n : Nat} (h : 0 < n) (hlt : n < 2 ^ 53) : ∃ (k : Nat) (i : Int) (hc : Canonical k i),
    UnpackedFloat.ofNat .binary64 n = .finite .positive k i hc.pos ∧ 2 ^ 52 ≤ k ∧ (k * 2 ^ i : ℚ) = n := by
  have hlog : n.log2 < 53 := (Nat.log2_lt h.ne').2 hlt
  have hlow : 2 ^ n.log2 ≤ n := Nat.log2_self_le h.ne'
  have hhigh : n < 2 ^ (n.log2 + 1) := Nat.lt_log2_self
  have hfull : 2 ^ 52 ≤ n * 2 ^ (52 - n.log2) := by
    calc 2 ^ 52 = 2 ^ n.log2 * 2 ^ (52 - n.log2) := by rw [← Nat.pow_add]; congr 1; omega
      _ ≤ n * 2 ^ (52 - n.log2) := Nat.mul_le_mul_right _ hlow
  have hmantissa : n * 2 ^ (52 - n.log2) < 2 ^ 53 := by
    calc n * 2 ^ (52 - n.log2) < 2 ^ (n.log2 + 1) * 2 ^ (52 - n.log2) :=
          Nat.mul_lt_mul_of_pos_right hhigh (by positivity)
      _ = 2 ^ 53 := by rw [← Nat.pow_add]; congr 1; omega
  have hc : Canonical (n * 2 ^ (52 - n.log2)) (n.log2 - 52) := ⟨by omega, hmantissa, by omega, by omega, .inl hfull⟩
  have hvalue : (((n * 2 ^ (52 - n.log2) : Nat) : ℚ) * 2 ^ ((n.log2 : Int) - 52)) = n := by
    have hopposite : ((52 - n.log2 : Nat) : Int) + (n.log2 - 52) = 0 := by omega
    push_cast
    rw [← zpow_natCast, mul_assoc, ← zpow_add₀ two_ne_zero, hopposite, zpow_zero, mul_one]
  refine ⟨_, _, hc, ?_, hfull, hvalue⟩
  have hpositive : compare (n : Int) 0 = .gt := Int.compare_eq_gt.2 (by omega)
  have hshift : (0 - max ((n.log2 : Int) + 1 + 0 - 53) (-1074)).toNat = 52 - n.log2 := by omega
  have hexponent : (0 : Int) - (52 - n.log2 : Nat) = n.log2 - 52 := by omega
  unfold UnpackedFloat.ofNat UnpackedFloat.ofInt UnpackedFloat.normalize
  rw [hpositive]
  show UnpackedFloat.round .binary64 .positive (n : Int).toNat 0 = _
  unfold UnpackedFloat.round UnpackedFloat.decreaseExponent
  rw [Int.toNat_natCast, targetExponent_eq, totalExponent]
  dsimp only
  rw [hshift, hexponent, Nat.shiftLeft_eq]
  refine roundWithAccuracy_eq hc hc.contains_self ?_ hc.targetExponent_eq.ge .positive
  exact mul_div_cancel_right₀ _ (by positivity)

/-! ## Decimals -/

/-- The number that a decimal stands for. -/
def Decimal.value (d : Decimal) : ℚ := d.coefficient * 10 ^ d.exponent

theorem digitCount_bounds {n : Nat} (h : 0 < n) :
    10 ^ (digitCount n - 1) ≤ n ∧ n < 10 ^ digitCount n ∧ 0 < digitCount n := by
  have hpos : 0 < digitCount n := Nat.length_toDigits_pos
  refine ⟨?_, (Nat.length_toDigits_le_iff (by decide) hpos).1 le_rfl, hpos⟩
  by_contra hlt
  rcases Nat.eq_zero_or_pos (digitCount n - 1) with h0 | h0
  · rw [h0] at hlt
    omega
  · have := (Nat.length_toDigits_le_iff (n := n) (b := 10) (by decide) h0).2 (not_le.1 hlt)
    unfold digitCount at this hpos
    omega

theorem digitCount_le_log2 {n : Nat} (h : 0 < n) : digitCount n ≤ n.log2 + 1 := by
  obtain ⟨hlow, -, hpos⟩ := digitCount_bounds h
  have hpower : 2 ^ (digitCount n - 1) ≤ n := (Nat.pow_le_pow_left (by decide) _).trans hlow
  have := (Nat.le_log2 h.ne').2 hpower
  omega

theorem Decimal.value_bounds {d : Decimal} (h : 0 < d.coefficient) :
    (10 : ℚ) ^ (d.exponent + digitCount d.coefficient - 1) ≤ d.value ∧
      d.value < 10 ^ (d.exponent + digitCount d.coefficient) := by
  obtain ⟨hlow, hhigh, hpos⟩ := digitCount_bounds h
  have hunit : (0 : ℚ) < 10 ^ d.exponent := by positivity
  have hlow' : (10 : ℚ) ^ (digitCount d.coefficient - 1) ≤ d.coefficient := by exact_mod_cast hlow
  have hhigh' : (d.coefficient : ℚ) < 10 ^ digitCount d.coefficient := by exact_mod_cast hhigh
  have hten : (10 : ℚ) ≠ 0 := by norm_num
  unfold Decimal.value
  constructor
  · rw [show d.exponent + digitCount d.coefficient - 1 = (digitCount d.coefficient - 1 : Nat) + d.exponent by omega,
      zpow_add₀ hten, zpow_natCast]
    exact mul_le_mul_of_nonneg_right hlow' hunit.le
  · rw [Int.add_comm, zpow_add₀ hten, zpow_natCast]
    exact mul_lt_mul_of_pos_right hhigh' hunit

/-- No number beyond these bounds is read as a double other than zero and infinity. -/
theorem Canonical.bounds (hc : Canonical m e) (hv : (Interval.around m e).Contains v) :
    (10 : ℚ) ^ (-400 : Int) ≤ v ∧ v < 10 ^ (400 : Int) := by
  obtain ⟨hpos, hlt, hleast, hmost, -⟩ := hc
  obtain ⟨⟨hbelow, habove, -⟩, -⟩ := contains_around hpos hv
  have hunit : (0 : ℚ) < 2 ^ e := by positivity
  rw [le_div_iff₀ hunit] at hbelow
  rw [div_le_iff₀ hunit] at habove
  have hpos' : (1 : ℚ) ≤ m := by exact_mod_cast hpos
  have hlt' : (m : ℚ) + 1 ≤ 2 ^ 53 := by exact_mod_cast hlt
  have hlow : (2 : ℚ) ^ (-1074 : Int) ≤ 2 ^ e := zpow_le_zpow_right₀ one_le_two hleast
  have hhigh : (2 : ℚ) ^ e ≤ 2 ^ (971 : Int) := zpow_le_zpow_right₀ one_le_two hmost
  have hpowers : (2 : ℚ) ^ 1075 ≤ 10 ^ 400 := by exact_mod_cast (by decide +kernel : 2 ^ 1075 ≤ 10 ^ 400)
  constructor
  · calc (10 : ℚ) ^ (-400 : Int) = (10 ^ 400)⁻¹ := by rw [zpow_neg]; rfl
      _ ≤ (2 ^ 1075)⁻¹ := inv_anti₀ (by positivity) hpowers
      _ = 1 / 2 * (2 ^ 1074)⁻¹ := by rw [pow_succ, mul_inv, mul_comm, one_div]
      _ = 1 / 2 * 2 ^ (-1074 : Int) := by rw [zpow_neg]; rfl
      _ ≤ (m - 1 / 2) * 2 ^ e := mul_le_mul (by linarith) hlow (by positivity) (by linarith)
      _ ≤ v := hbelow
  · calc v ≤ (m + 1 / 2) * 2 ^ e := habove
      _ < 2 ^ 53 * 2 ^ e := mul_lt_mul_of_pos_right (by linarith) hunit
      _ ≤ 2 ^ 53 * 2 ^ (971 : Int) := mul_le_mul_of_nonneg_left hhigh (by positivity)
      _ = 2 ^ 1024 := by rw [← zpow_natCast, ← zpow_add₀ two_ne_zero, ← zpow_natCast]; rfl
      _ ≤ 2 ^ 1075 := pow_le_pow_right₀ one_le_two (by decide)
      _ ≤ 10 ^ (400 : Int) := hpowers

theorem ofScientific_model_eq (hc : Canonical m e) {n : Nat} {i : Int} (hn : 0 < n) (hhigh : i ≤ 2048)
    (hlow : -(2048 + n.log2) ≤ i) (hv : (Interval.around m e).Contains (n * 10 ^ i)) :
    UnpackedFloat.ofScientific .binary64 n i = .finite .positive m e hc.pos := by
  unfold UnpackedFloat.ofScientific
  rw [dif_neg hn.ne', if_neg (by show ¬ i > 2048; omega), if_neg (by show ¬ i < -(2048 + n.log2); omega)]
  split
  · rename_i hi
    have hvalue : ((n <<< 53 : Nat) * 2 ^ (-53 : Int) * ((10 ^ i.toNat : Nat) * 2 ^ (0 : Int)) : ℚ) = n * 10 ^ i := by
      have hten : (10 : ℚ) ^ i.toNat = 10 ^ i := by rw [← zpow_natCast, Int.toNat_of_nonneg hi]
      have htwo : (2 : ℚ) ^ 53 * 2 ^ (-53 : Int) = 1 := by norm_num
      rw [Nat.shiftLeft_eq, Nat.cast_mul, Nat.cast_pow, Nat.cast_pow, Nat.cast_ofNat, Nat.cast_ofNat, hten,
        mul_assoc (n : ℚ), htwo, zpow_zero, mul_one, mul_one]
    have hfull : 2 ^ 52 ≤ n <<< 53 * 10 ^ i.toNat := by
      rw [Nat.shiftLeft_eq]
      calc 2 ^ 52 ≤ 1 * 2 ^ 53 := by decide
        _ ≤ n * 2 ^ 53 := Nat.mul_le_mul_right _ hn
        _ ≤ n * 2 ^ 53 * 10 ^ i.toNat := Nat.le_mul_of_pos_right _ (by positivity)
    rw [← hvalue] at hv
    exact mul_eq hc _ _ hfull hv
  · rename_i hi
    have hvalue : (n * 2 ^ (0 : Int) / ((10 ^ (-i).toNat : Nat) * 2 ^ (0 : Int)) : ℚ) = n * 10 ^ i := by
      have hten : ((10 : ℚ) ^ (-i).toNat)⁻¹ = 10 ^ i := by
        rw [← zpow_natCast, Int.toNat_of_nonneg (by omega), zpow_neg, inv_inv]
      rw [Nat.cast_pow, Nat.cast_ofNat, zpow_zero, mul_one, mul_one, div_eq_mul_inv, hten]
    rw [← hvalue] at hv
    exact div_eq hc _ _ hv

theorem toModel_unpack_toUInt64 {n : Nat} (hlt : n < 2 ^ 53) {k : Nat} {i : Int} (hc : Canonical k i)
    (h : UnpackedFloat.ofNat .binary64 n = .finite .positive k i hc.pos) :
    n.toUInt64.toFloat.toModel.unpack = .finite .positive k i hc.pos := by
  have hword : n.toUInt64.toNat = n := by
    rw [Nat.toUInt64_eq, UInt64.toNat_ofNat']
    omega
  show UnpackedFloat.unpack .binary64 (UnpackedFloat.pack .binary64 (.ofNat .binary64 n.toUInt64.toNat)) = _
  rw [hword, h, hc.unpack_pack]

theorem ofScientific_eq (hc : Canonical m e) {n k : Nat} {s : Bool} (hn : 0 < n) (hk : k ≤ 2048 + n.log2)
    (hs : s = false → k ≤ 2048) (hv : (Interval.around m e).Contains (n * 10 ^ (if s then -k else k : Int))) :
    Float.ofScientific n s k = hc.double .positive := by
  unfold Float.ofScientific
  split
  · rename_i h
    obtain ⟨m₁, e₁, hc₁, hof, hfull₁, hvalue₁⟩ := ofNat_exact hn h.1
    have hsize : k < Float.exactlyRepresentablePowersOfTen.size := by
      show k < 23
      omega
    obtain ⟨m₂, e₂, hpos₂, hpower, hfull₂, hvalue₂⟩ := finite_of_isPowerOfTen (powersOfTen_exact k hsize)
    have hnumber := toModel_unpack_toUInt64 h.1 hc₁ hof
    dsimp only
    split
    · rename_i hs
      rw [if_pos hs, zpow_neg, zpow_natCast, ← div_eq_mul_inv, ← hvalue₁, ← hvalue₂] at hv
      show Float.ofModel (.pack (UnpackedFloat.div .binary64 _ _)) = _
      rw [hnumber, hpower, div_eq hc hc₁.pos hpos₂ hv]
      rfl
    · rename_i hs
      rw [if_neg hs, zpow_natCast, ← hvalue₁, ← hvalue₂] at hv
      have hfull : 2 ^ 52 ≤ m₁ * m₂ := hfull₁.trans (Nat.le_mul_of_pos_right _ hpos₂)
      show Float.ofModel (.pack (UnpackedFloat.mul .binary64 _ _)) = _
      rw [hnumber, hpower, mul_eq hc hc₁.pos hpos₂ hfull hv]
      rfl
  · have hexponent : (if s then Int.negOfNat k else Int.ofNat k) = if s then -(k : Int) else k := by
      cases s <;> simp [Int.negOfNat_eq]
    dsimp only
    rw [hexponent]
    show Float.ofModel (.pack (UnpackedFloat.ofScientific .binary64 n _)) = _
    rw [ofScientific_model_eq hc hn ?_ ?_ hv]
    · rfl
    · cases s
      · simpa using hs rfl
      · show -(k : Int) ≤ 2048
        omega
    · cases s
      · show -(2048 + (n.log2 : Int)) ≤ k
        omega
      · show -(2048 + (n.log2 : Int)) ≤ -k
        omega

theorem Decimal.coefficient_pos (hc : Canonical m e) {d : Decimal} (hv : (Interval.around m e).Contains d.value) :
    0 < d.coefficient := by
  by_contra hzero
  have hzero : d.coefficient = 0 := by omega
  have hlow := (hc.bounds hv).1
  have : (0 : ℚ) < 10 ^ (-400 : Int) := by positivity
  rw [Decimal.value, hzero, Nat.cast_zero, zero_mul] at hlow
  linarith

/-- **A decimal in the interval of a double is read as that double.** -/
theorem Decimal.toFloat_eq (hc : Canonical m e) {d : Decimal} (hv : (Interval.around m e).Contains d.value) :
    d.toFloat = hc.double .positive := by
  obtain ⟨hlow, hhigh⟩ := hc.bounds hv
  have hpos := Decimal.coefficient_pos hc hv
  obtain ⟨hfrom, hupto⟩ := Decimal.value_bounds hpos
  have hten : (1 : ℚ) < 10 := by norm_num
  have hleast : -400 < d.exponent + digitCount d.coefficient := (zpow_lt_zpow_iff_right₀ hten).1 (hlow.trans_lt hupto)
  have hmost : d.exponent + digitCount d.coefficient - 1 < 400 :=
    (zpow_lt_zpow_iff_right₀ hten).1 (hfrom.trans_lt hhigh)
  have hdigits := digitCount_le_log2 hpos
  have hdigits' := (digitCount_bounds hpos).2.2
  unfold Decimal.toFloat
  dsimp only
  rw [if_neg (by simp; omega), if_neg (by omega)]
  split
  · refine ofScientific_eq hc hpos (by omega) (by simp) ?_
    rwa [if_pos rfl, show -(d.exponent.natAbs : Int) = d.exponent by omega]
  · refine ofScientific_eq hc hpos (by omega) (by omega) ?_
    rwa [if_neg (by simp), show (d.exponent.natAbs : Int) = d.exponent by omega]

/-! ## Taking doubles apart -/

def signOf (negative : Bool) : Sign := if negative then .negative else .positive

/-- The double that a reading describes. -/
def ofReading : Reading → UnpackedFloat
  | .nan => .notANumber
  | .infinite negative => .infinity (signOf negative)
  | .finite negative m e =>
    if h : m = 0 then .zero (signOf negative) else .finite (signOf negative) m e (Nat.pos_of_ne_zero h)

theorem toNat_unpackMantissa (x : Float) :
    (@UnpackedFloat.unpackMantissa .binary64 x.toModel.toBits.toBitVec).toNat = x.toBits.toNat % twoTo 52 := by
  rw [UnpackedFloat.unpackMantissa_def, BitVec.extractLsb'_toNat, Nat.shiftRight_zero]
  rfl

theorem toNat_unpackExponent (x : Float) :
    (@UnpackedFloat.unpackExponent .binary64 x.toModel.toBits.toBitVec).toNat =
      x.toBits.toNat / twoTo 52 % twoTo 11 := by
  rw [UnpackedFloat.unpackExponent_def, BitVec.extractLsb'_toNat, Nat.shiftRight_eq_div_pow]
  rfl

theorem ofBitVec_unpackSign (x : Float) :
    Sign.ofBitVec (@UnpackedFloat.unpackSign .binary64 x.toModel.toBits.toBitVec) =
      signOf (decide (x.toBits.toNat / twoTo 63 = 1)) := by
  have hsign : (@UnpackedFloat.unpackSign .binary64 x.toModel.toBits.toBitVec).toNat = x.toBits.toNat / twoTo 63 := by
    rw [UnpackedFloat.unpackSign_def, BitVec.extractLsb'_toNat, Nat.shiftRight_eq_div_pow]
    show x.toBits.toNat / 2 ^ 63 % 2 ^ 1 = x.toBits.toNat / 2 ^ 63
    have := x.toBits.toNat_lt
    omega
  unfold Sign.ofBitVec signOf
  rw [← hsign]
  generalize @UnpackedFloat.unpackSign .binary64 x.toModel.toBits.toBitVec = b
  have hbit : b = 0#1 ∨ b = 1#1 := by
    revert b
    decide
  rcases hbit with rfl | rfl <;> rfl

theorem unpack_toModel (x : Float) : x.toModel.unpack = ofReading (read x) := by
  unfold Float.Model.unpack UnpackedFloat.unpack read
  dsimp only
  rw [ofBitVec_unpackSign x, ← toNat_unpackMantissa x, ← toNat_unpackExponent x]
  generalize x.toModel.toBits.toBitVec = b
  generalize decide (x.toBits.toNat / twoTo 63 = 1) = negative
  have hlargest : @UnpackedFloat.unpackExponent .binary64 b = -1#11 ↔
      (@UnpackedFloat.unpackExponent .binary64 b).toNat = 2047 := BitVec.toNat_inj.symm
  have hleast : @UnpackedFloat.unpackExponent .binary64 b = 0#11 ↔
      (@UnpackedFloat.unpackExponent .binary64 b).toNat = 0 := BitVec.toNat_inj.symm
  have hnone : @UnpackedFloat.unpackMantissa .binary64 b = 0#52 ↔
      (@UnpackedFloat.unpackMantissa .binary64 b).toNat = 0 := BitVec.toNat_inj.symm
  by_cases h2047 : (@UnpackedFloat.unpackExponent .binary64 b).toNat = 2047
  · rw [if_pos h2047, if_pos (hlargest.2 h2047)]
    by_cases h0 : (@UnpackedFloat.unpackMantissa .binary64 b).toNat = 0
    · rw [if_pos h0, if_pos (hnone.2 h0)]
      rfl
    · rw [if_neg h0, if_neg (mt hnone.1 h0)]
      rfl
  · rw [if_neg h2047, if_neg (mt hlargest.1 h2047)]
    by_cases h0 : (@UnpackedFloat.unpackExponent .binary64 b).toNat = 0
    · rw [if_pos h0, if_pos (hleast.2 h0)]
      by_cases hm : (@UnpackedFloat.unpackMantissa .binary64 b).toNat = 0
      · rw [dif_pos (hnone.2 hm), ofReading, dif_pos hm]
      · rw [dif_neg (mt hnone.1 hm), ofReading, dif_neg hm]
        congr 1
        rw [h0]
        rfl
    · rw [if_neg h0, if_neg (mt hleast.1 h0), ofReading, dif_neg (by simp [twoTo])]
      congr 1
      exact toNat_one_append _

theorem canonical_of_read {x : Float} {negative : Bool} (h : read x = .finite negative m e) (hm : 0 < m) :
    Canonical m e := by
  unfold read at h
  dsimp only at h
  have hfraction : x.toBits.toNat % twoTo 52 < 2 ^ 52 := Nat.mod_lt _ (by decide)
  have hbiased : x.toBits.toNat / twoTo 52 % twoTo 11 < 2 ^ 11 := Nat.mod_lt _ (by decide)
  have htwo : twoTo 52 = 2 ^ 52 := rfl
  generalize x.toBits.toNat % twoTo 52 = fraction at h hfraction
  generalize x.toBits.toNat / twoTo 52 % twoTo 11 = biased at h hbiased
  rw [htwo] at h
  split at h
  · split at h <;> cases h
  · split at h
    · obtain ⟨-, rfl, rfl⟩ := Reading.finite.inj h
      exact ⟨hm, by omega, by omega, by omega, .inr rfl⟩
    · obtain ⟨-, rfl, rfl⟩ := Reading.finite.inj h
      exact ⟨hm, by omega, by omega, by omega, .inl (by omega)⟩

theorem eq_of_unpack {x : Float} {u : UnpackedFloat} (h : x.toModel.unpack = u) : x = .ofModel (.pack u) := by
  rw [← h]
  exact (Float.ofBits_toBits x).symm

/-- A double is what it is read as. -/
theorem eq_double_of_read {x : Float} {negative : Bool} (h : read x = .finite negative m e) (hm : 0 < m) :
    x = (canonical_of_read h hm).double (signOf negative) := by
  refine eq_of_unpack ?_
  rw [unpack_toModel, h]
  exact dif_neg hm.ne'

end Thicket.Number
