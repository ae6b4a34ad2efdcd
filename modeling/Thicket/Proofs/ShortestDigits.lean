import Thicket.Proofs.NearestDouble
/-!
# The digits that are chosen read back

`shortest` looks for a decimal in the interval of a double on one grid of powers of ten after the other.  It compares in
whole numbers, and these comparisons are those of the interval (`Interval.holds_iff`), so what it finds on a grid reads
back.  It finds something: on the grid of seventeen digits the points lie nearer to each other than the doubles do, and
one of the two next to the double is in the interval (`contains_neighbour`).
-/
namespace Thicket.Number

variable {m : Nat} {e : Int} {v : ℚ}

/-! ## Comparing in whole numbers -/

namespace Ratio

theorem den_pos_scale2 (n : Nat) : ∀ e : Int, 0 < (scale2 n e).den
  | .ofNat _ => Nat.one_pos
  | .negSucc _ => Nat.pow_pos (by decide)

theorem den_pos_inUnits {r : Ratio} (h : 0 < r.den) : ∀ k : Int, 0 < (r.inUnits k).den
  | .ofNat _ => Nat.mul_pos h (Nat.pow_pos (by decide))
  | .negSucc _ => h

theorem value_inUnits (r : Ratio) : ∀ k : Int, (r.inUnits k).value = r.value / 10 ^ k
  | .ofNat k => by
    simp only [inUnits, value, tenTo, Nat.pow_eq, Nat.cast_mul, Nat.cast_pow, Nat.cast_ofNat, Int.ofNat_eq_natCast,
      zpow_natCast, div_div]
  | .negSucc k => by
    simp only [inUnits, value, tenTo, Nat.pow_eq, Nat.cast_mul, Nat.cast_pow, Nat.cast_ofNat, zpow_negSucc,
      div_inv_eq_mul]
    ring

theorem lt_iff {a b : Ratio} (ha : 0 < a.den) (hb : 0 < b.den) : a.lt b = true ↔ a.value < b.value := by
  have ha' : (0 : ℚ) < a.den := by exact_mod_cast ha
  have hb' : (0 : ℚ) < b.den := by exact_mod_cast hb
  rw [lt, decide_eq_true_iff, value, value, div_lt_div_iff₀ ha' hb']
  norm_cast

theorem le_iff {a b : Ratio} (ha : 0 < a.den) (hb : 0 < b.den) : a.le b = true ↔ a.value ≤ b.value := by
  have ha' : (0 : ℚ) < a.den := by exact_mod_cast ha
  have hb' : (0 : ℚ) < b.den := by exact_mod_cast hb
  rw [le, decide_eq_true_iff, value, value, div_le_div_iff₀ ha' hb']
  norm_cast

end Ratio

theorem Interval.holds_iff (m : Nat) (e k : Int) (n : Nat) :
    (Interval.around m e).holds k n = true ↔ (Interval.around m e).Contains (n * 10 ^ k) := by
  have hunit : (0 : ℚ) < 10 ^ k := by positivity
  have hden := fun n => Ratio.den_pos_inUnits (Ratio.den_pos_scale2 n (e - 2)) k
  have hn : Ratio.value ⟨n, 1⟩ = n := by simp [Ratio.value]
  unfold Interval.holds Interval.Contains Interval.around
  dsimp only
  split
  · rw [Bool.and_eq_true, Ratio.le_iff (hden _) Nat.one_pos, Ratio.le_iff Nat.one_pos (hden _), Ratio.value_inUnits,
      Ratio.value_inUnits, hn, div_le_iff₀ hunit, le_div_iff₀ hunit]
  · rw [Bool.and_eq_true, Ratio.lt_iff (hden _) Nat.one_pos, Ratio.lt_iff Nat.one_pos (hden _), Ratio.value_inUnits,
      Ratio.value_inUnits, hn, div_lt_iff₀ hunit, lt_div_iff₀ hunit]

theorem Interval.holds_of_onGrid? {i : Interval} {k : Int} {n : Nat} (h : i.onGrid? k = some n) :
    i.holds k n = true := by
  unfold Interval.onGrid? at h
  dsimp only at h
  split at h
  · cases h
    assumption
  · cases h
    assumption
  · cases h
  · split at h
    · cases h
      assumption
    · split at h
      · cases h
        assumption
      · split at h <;> cases h <;> assumption

/-- The last point of the grid that is not beyond the value. -/
def Interval.below (i : Interval) (k : Int) : Nat := (i.value.inUnits k).num / (i.value.inUnits k).den

theorem Interval.exists_onGrid? {i : Interval} {k : Int}
    (h : i.holds k (i.below k) = true ∨ i.holds k (i.below k + 1) = true) : ∃ n, i.onGrid? k = some n := by
  unfold Interval.below at h
  unfold Interval.onGrid?
  dsimp only
  split
  · exact ⟨_, rfl⟩
  · exact ⟨_, rfl⟩
  · simp_all
  · split
    · exact ⟨_, rfl⟩
    · split
      · exact ⟨_, rfl⟩
      · split <;> exact ⟨_, rfl⟩

theorem Ratio.floor_bounds {r : Ratio} (h : 0 < r.den) :
    ((r.num / r.den : Nat) : ℚ) ≤ r.value ∧ r.value < (r.num / r.den + 1 : Nat) := by
  have hden : (0 : ℚ) < r.den := by exact_mod_cast h
  rw [Ratio.value, le_div_iff₀ hden, div_lt_iff₀ hden]
  constructor
  · exact_mod_cast Nat.div_mul_le_self r.num r.den
  · exact_mod_cast Nat.lt_mul_of_div_lt (Nat.lt_succ_self _) h

/-! ## How large a number is -/

theorem leadingZeros_spec {den : Nat} : ∀ {fuel num : Nat}, den ≤ num * 10 ^ fuel →
    den ≤ num * 10 ^ leadingZeros den fuel num ∧
      (num < den → 0 < leadingZeros den fuel num ∧ num * 10 ^ (leadingZeros den fuel num - 1) < den)
  | 0, num, h => by
    simp only [leadingZeros]
    refine ⟨h, fun hlt => ?_⟩
    omega
  | fuel + 1, num, h => by
    unfold leadingZeros
    by_cases hle : den ≤ num
    · rw [if_pos hle]
      exact ⟨by simpa using hle, fun hlt => absurd hle (not_le.2 hlt)⟩
    · rw [if_neg hle]
      have hnext : den ≤ num * 10 * 10 ^ fuel := by rwa [mul_assoc, ← pow_succ']
      obtain ⟨hreach, hbefore⟩ := leadingZeros_spec hnext
      refine ⟨by rwa [pow_succ', ← mul_assoc], fun _ => ⟨Nat.succ_pos _, ?_⟩⟩
      rw [Nat.add_sub_cancel]
      by_cases hten : num * 10 < den
      · obtain ⟨hpos, hlt⟩ := hbefore hten
        rw [mul_assoc, ← pow_succ', Nat.sub_add_cancel hpos] at hlt
        exact hlt
      · have : leadingZeros den fuel (num * 10) = 0 := by
          cases fuel <;> simp [leadingZeros, not_lt.1 hten]
        rw [this, pow_zero, mul_one]
        omega

theorem magnitude_bounds {r : Ratio} (hden : 0 < r.den) (h : (10 : ℚ) ^ (-400 : Int) ≤ r.value) :
    (10 : ℚ) ^ (magnitude r - 1) ≤ r.value ∧ r.value < 10 ^ magnitude r := by
  have hden' : (0 : ℚ) < r.den := by exact_mod_cast hden
  obtain ⟨hfloor, hceil⟩ := Ratio.floor_bounds hden
  unfold magnitude
  split
  · rename_i hle
    have hpos : 0 < r.num / r.den := Nat.div_pos hle hden
    obtain ⟨hlow, hhigh, hcount⟩ := digitCount_bounds hpos
    have hlow' : (10 : ℚ) ^ (digitCount (r.num / r.den) - 1) ≤ (r.num / r.den : Nat) := by exact_mod_cast hlow
    have hhigh' : ((r.num / r.den + 1 : Nat) : ℚ) ≤ 10 ^ digitCount (r.num / r.den) := by exact_mod_cast hhigh
    rw [show (digitCount (r.num / r.den) : Int) - 1 = (digitCount (r.num / r.den) - 1 : Nat) by omega, zpow_natCast,
      zpow_natCast]
    exact ⟨hlow'.trans hfloor, hceil.trans_le hhigh'⟩
  · rename_i hlt
    have hfuel : r.den ≤ r.num * 10 ^ 400 := by
      rw [zpow_neg, Ratio.value, le_div_iff₀ hden', inv_mul_le_iff₀ (by positivity), mul_comm] at h
      exact_mod_cast h
    obtain ⟨hreach, hbefore⟩ := leadingZeros_spec hfuel
    obtain ⟨hpos, hbefore⟩ := hbefore (not_le.1 hlt)
    generalize leadingZeros r.den 400 r.num = z at hreach hpos hbefore
    have hreach' : (r.den : ℚ) ≤ r.num * 10 ^ z := by exact_mod_cast hreach
    have hbefore' : (r.num : ℚ) * 10 ^ (z - 1) < r.den := by exact_mod_cast hbefore
    rw [show (1 - (z : Int) - 1) = -z by omega, show (1 - (z : Int)) = -(z - 1 : Nat) by omega, zpow_neg, zpow_neg,
      zpow_natCast, zpow_natCast, Ratio.value]
    constructor
    · rw [le_div_iff₀ hden', inv_mul_le_iff₀ (by positivity)]
      linarith
    · rw [div_lt_iff₀ hden', lt_inv_mul_iff₀ (by positivity)]
      linarith

/-! ## Seventeen digits -/

theorem value_around (m : Nat) (e : Int) : (Interval.around m e).value.value = m * 2 ^ e := by
  show (Ratio.scale2 (4 * m) (e - 2)).value = _
  rw [Ratio.value_scale2, two_zpow_sub_two]
  push_cast
  ring

theorem below_bounds (m : Nat) (e k : Int) :
    ((Interval.around m e).below k : ℚ) * 10 ^ k ≤ m * 2 ^ e ∧
      (m : ℚ) * 2 ^ e < ((Interval.around m e).below k + 1 : Nat) * 10 ^ k := by
  have hunit : (0 : ℚ) < 10 ^ k := by positivity
  have hden := Ratio.den_pos_inUnits (Ratio.den_pos_scale2 (4 * m) (e - 2)) k
  have hfloor := Ratio.floor_bounds hden
  have hvalue : ((Ratio.scale2 (4 * m) (e - 2)).inUnits k).value = m * 2 ^ e / 10 ^ k := by
    rw [Ratio.value_inUnits]
    exact congrArg (· / _) (value_around m e)
  rw [hvalue, le_div_iff₀ hunit, div_lt_iff₀ hunit] at hfloor
  exact_mod_cast hfloor

/-- On a grid that has seventeen digits for the double, one of its two neighbours reads back. -/
theorem contains_neighbour (hc : Canonical m e) {k : Int} (hk : (10 : ℚ) ^ (k + 16) ≤ m * 2 ^ e) :
    (Interval.around m e).Contains ((Interval.around m e).below k * 10 ^ k) ∨
      (Interval.around m e).Contains (((Interval.around m e).below k + 1 : Nat) * 10 ^ k) := by
  have hunit : (0 : ℚ) < 2 ^ e := by positivity
  have hm : (m : ℚ) < 2 ^ 53 := by exact_mod_cast hc.lt
  obtain ⟨hbelow, habove⟩ := below_bounds m e k
  generalize (Interval.around m e).below k = b at hbelow habove
  rw [zpow_add₀ (by norm_num), ← div_le_iff₀ hunit, mul_div_right_comm] at hk
  rw [← div_le_iff₀ hunit, mul_div_assoc] at hbelow
  rw [← lt_div_iff₀ hunit, mul_div_assoc, Nat.cast_add_one] at habove
  -- how wide the grid is, in units of the last place
  generalize hu : (10 : ℚ) ^ k / 2 ^ e = u at hk hbelow habove
  norm_num at hk
  by_cases hpower : m = 2 ^ 52
  · -- there are less than `10 ^ 16` units up to here, so the next point is less than half a unit away
    right
    have hm' : (m : ℚ) = 4503599627370496 := by exact_mod_cast hpower
    refine contains_of_inside hc.pos ?_ ?_ <;> rw [mul_div_assoc, hu, Nat.cast_add_one]
    · linarith [(reach_bounds m e).1]
    · linarith
  · have hreach : reach m e = 1 / 2 := if_neg fun h => hpower h.1
    by_cases hnear : m - b * u < 1 / 2
    · left
      refine contains_of_inside hc.pos ?_ ?_ <;> rw [mul_div_assoc, hu]
      · linarith
      · linarith
    · right
      refine contains_of_inside hc.pos ?_ ?_ <;> rw [mul_div_assoc, hu, Nat.cast_add_one]
      · linarith
      · linarith

theorem exists_seventeen_digits (hc : Canonical m e) :
    ∃ n, (Interval.around m e).onGrid? (magnitude (Interval.around m e).value - 17) = some n := by
  have hden : 0 < (Interval.around m e).value.den := Ratio.den_pos_scale2 (4 * m) (e - 2)
  have hbounds := (hc.bounds hc.contains_self).1
  rw [← value_around] at hbounds
  have hmagnitude := (magnitude_bounds hden hbounds).1
  refine Interval.exists_onGrid? ?_
  rw [Interval.holds_iff, Interval.holds_iff]
  refine contains_neighbour hc ?_
  rwa [← value_around, show ∀ p : Int, p - 17 + 16 = p - 1 by omega]

/-- **The decimal of the fewest digits reads back.** -/
theorem contains_shortest (hc : Canonical m e) : (Interval.around m e).Contains (shortest m e).value := by
  unfold shortest
  dsimp only
  split
  · rename_i d hd
    obtain ⟨k, -, hk⟩ := List.exists_of_findSome?_eq_some hd
    obtain ⟨n, hn, rfl⟩ := Option.map_eq_some_iff.1 hk
    exact (Interval.holds_iff m e k n).1 (Interval.holds_of_onGrid? hn)
  · rename_i hnone
    obtain ⟨n, hn⟩ := exists_seventeen_digits hc
    have hlast : magnitude (Interval.around m e).value - 17 ∈
        (List.range 17).map fun (n : Nat) => magnitude (Interval.around m e).value - ((n : Int) + 1) :=
      List.mem_map.2 ⟨16, by decide, rfl⟩
    have hmissed := List.findSome?_eq_none_iff.1 hnone _ hlast
    rw [hn] at hmissed
    cases hmissed

end Thicket.Number
