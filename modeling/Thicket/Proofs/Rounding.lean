import Mathlib.Algebra.Order.Field.Power
import Mathlib.Tactic.FieldSimp
import Mathlib.Tactic.Linarith
import Mathlib.Tactic.Positivity
import Mathlib.Tactic.Ring
import Thicket.Number.Shortest
/-!
# Rounding to the nearest double

A double is a whole number below `2 ^ 53`, its mantissa, times a power of two (`Canonical`).  The numbers that lie
nearer to it than to any other double are an interval; at the ends, which lie half way to its neighbours, the double
with the even mantissa wins.  `Interval.around` computes that interval in order to choose digits.  Here is its other
side: a number in the interval is rounded to that very double (`roundWithAccuracy_eq`), however it was approximated.

Rounding goes by a whole number and by how far the number is beyond it, which is no more than four cases (`Stands`).
-/
namespace Thicket.Number

open Float.Model (Format UnpackedFloat totalExponent)
open Float.Model.UnpackedFloat (Accuracy ExtendedMantissa Sign)

/-! ## Whole numbers and what is beyond them -/

/-- The number lies beyond the mantissa as the accuracy says: not at all, by less than a half, by a half, or by more. -/
def Stands (m : Nat) : Accuracy → ℚ → Prop
  | .exact, v => v = m
  | .inexact .lt, v => (m : ℚ) < v ∧ v < m + 1 / 2
  | .inexact .eq, v => v = m + 1 / 2
  | .inexact .gt, v => (m : ℚ) + 1 / 2 < v ∧ v < m + 1

/-- No whole number is nearer, and of two equally near this is the even one. -/
def Closest (k : Nat) (v : ℚ) : Prop :=
  (k : ℚ) - 1 / 2 ≤ v ∧ v ≤ k + 1 / 2 ∧ (k % 2 = 1 → (k : ℚ) - 1 / 2 < v ∧ v < k + 1 / 2)

variable {m k : Nat} {a : Accuracy} {v : ℚ}

theorem Stands.bounds (h : Stands m a v) : (m : ℚ) ≤ v ∧ v < m + 1 := by
  rcases a with _ | _ | _ | _ <;> simp only [Stands] at h <;> constructor <;> linarith

theorem Stands.halve {em : ExtendedMantissa} (h : Stands em.mantissa em.accuracy v) :
    Stands em.shiftRightOne.mantissa em.shiftRightOne.accuracy (v / 2) := by
  obtain ⟨n, round, sticky⟩ := em
  have hsplit : (n : ℚ) = 2 * (n / 2 : Nat) + (n % 2 : Nat) := by exact_mod_cast (Nat.div_add_mod n 2).symm
  -- the last bit of the mantissa becomes the round bit, and that one joins the sticky bit
  rcases Nat.mod_two_eq_zero_or_one n with hbit | hbit <;> rw [hbit] at hsplit <;> push_cast at hsplit <;>
    cases round <;> cases sticky <;>
    simp only [ExtendedMantissa.accuracy, ExtendedMantissa.shiftRightOne, Stands, hbit, Bool.or_false, Bool.or_true,
      Nat.reduceBneDiff, bne_self_eq_false] at h ⊢ <;>
    grind

theorem Stands.shift {em : ExtendedMantissa} (h : Stands em.mantissa em.accuracy v) (n : Nat) :
    Stands (em >>> n).mantissa (em >>> n).accuracy (v / 2 ^ n) := by
  show Stands (n.repeat ExtendedMantissa.shiftRightOne em).mantissa
    (n.repeat ExtendedMantissa.shiftRightOne em).accuracy _
  induction n with
  | zero => simpa [Nat.repeat] using h
  | succ n ih =>
    rw [pow_succ, ← div_div]
    exact ih.halve

theorem Stands.ofMantissaAndAccuracy (h : Stands m a v) :
    Stands (ExtendedMantissa.ofMantissaAndAccuracy m a).mantissa
      (ExtendedMantissa.ofMantissaAndAccuracy m a).accuracy v := by
  rcases a with _ | _ | _ | _ <;> exact h

theorem Stands.roundedMantissa_eq {em : ExtendedMantissa} (h : Stands em.mantissa em.accuracy v) (hk : Closest k v) :
    em.roundedMantissa = k := by
  obtain ⟨n, round, sticky⟩ := em
  obtain ⟨hlow, hhigh, hodd⟩ := hk
  have hle : ∀ {i j : Nat}, (i : ℚ) < j + 1 → i ≤ j := fun hij => Nat.lt_succ_iff.1 (by exact_mod_cast hij)
  rcases round with _ | _ <;> rcases sticky with _ | _ <;>
    simp only [ExtendedMantissa.accuracy, Stands] at h <;>
    simp only [ExtendedMantissa.roundedMantissa, ExtendedMantissa.accuracy, Accuracy.roundToNearestEven]
  · exact Nat.le_antisymm (hle (by linarith)) (hle (by linarith))
  · exact Nat.le_antisymm (hle (by linarith)) (hle (by linarith))
  · -- half way: `k` is one of the two neighbours, and since it is an end of the other's range, it is even
    have hlow : n ≤ k := hle (by linarith)
    have hhigh : k ≤ n + 1 := hle (by push_cast; linarith)
    have heven : k % 2 = 0 := by
      by_contra hne
      have hodd := hodd (by omega)
      rcases Nat.lt_or_ge n k with hlt | hge
      · have : (n : ℚ) + 1 ≤ k := by exact_mod_cast hlt
        linarith
      · have : (k : ℚ) ≤ n := by exact_mod_cast hge
        linarith
    omega
  · exact Nat.le_antisymm (hle (by push_cast; linarith)) (hle (by push_cast; linarith))

/-! ## Doubles and their intervals -/

/-- The mantissa and the exponent of a double that is neither zero nor infinite. -/
structure Canonical (m : Nat) (e : Int) : Prop where
  pos : 0 < m
  lt : m < 2 ^ 53
  least : -1074 ≤ e
  most : e ≤ 971
  full : 2 ^ 52 ≤ m ∨ e = -1074

def Ratio.value (r : Ratio) : ℚ := r.num / r.den

/-- The number reads back. -/
def Interval.Contains (i : Interval) (v : ℚ) : Prop :=
  if i.closed then i.low.value ≤ v ∧ v ≤ i.high.value else i.low.value < v ∧ v < i.high.value

theorem Ratio.value_scale2 (n : Nat) : ∀ e : Int, (Ratio.scale2 n e).value = n * 2 ^ e
  | .ofNat e => by simp [Ratio.scale2, Ratio.value, twoTo]
  | .negSucc e => by
    simp only [Ratio.scale2, Ratio.value, twoTo, zpow_negSucc, Nat.pow_eq, Nat.cast_pow, Nat.cast_ofNat]
    rw [div_eq_mul_inv]

variable {e : Int}

theorem two_zpow_sub_two (e : Int) : (2 : ℚ) ^ (e - 2) = 2 ^ e / 4 := by
  rw [zpow_sub₀ two_ne_zero]
  norm_num

/-- How far the interval reaches below the double, in units of the last place. -/
def reach (m : Nat) (e : Int) : ℚ := if m = 2 ^ 52 ∧ -1074 < e then 1 / 4 else 1 / 2

theorem reach_bounds (m : Nat) (e : Int) : 0 < reach m e ∧ reach m e ≤ 1 / 2 := by
  unfold reach
  split <;> norm_num

/-- The interval in units of the last place. -/
theorem contains_around_iff (hm : 0 < m) : (Interval.around m e).Contains v ↔
    if m % 2 = 0 then m - reach m e ≤ v / 2 ^ e ∧ v / 2 ^ e ≤ m + 1 / 2
    else m - reach m e < v / 2 ^ e ∧ v / 2 ^ e < m + 1 / 2 := by
  have hunit : (0 : ℚ) < 2 ^ e := by positivity
  have hlow : ((4 * m - (if m = twoTo 52 && decide (e > -1074) then 1 else 2) : Nat) : ℚ) * (2 ^ e / 4) =
      (m - reach m e) * 2 ^ e := by
    have hpower : (m = twoTo 52 && decide (e > -1074)) = true ↔ m = 2 ^ 52 ∧ -1074 < e := by
      rw [Bool.and_eq_true, decide_eq_true_iff, decide_eq_true_iff]
      rfl
    unfold reach
    by_cases h : m = 2 ^ 52 ∧ -1074 < e
    · rw [if_pos h, if_pos (hpower.2 h), Nat.cast_sub (by omega)]
      push_cast
      ring
    · rw [if_neg h, if_neg (mt hpower.1 h), Nat.cast_sub (by omega)]
      push_cast
      ring
  have hhigh : ((4 * m + 2 : Nat) : ℚ) * (2 ^ e / 4) = (m + 1 / 2) * 2 ^ e := by
    push_cast
    ring
  unfold Interval.Contains Interval.around
  simp only [Ratio.value_scale2, two_zpow_sub_two]
  rw [hlow, hhigh, ← le_div_iff₀ hunit, ← div_le_iff₀ hunit, ← lt_div_iff₀ hunit, ← div_lt_iff₀ hunit]
  simp only [decide_eq_true_eq]

theorem contains_of_inside (hm : 0 < m) (hlow : m - reach m e < v / 2 ^ e) (hhigh : v / 2 ^ e < m + 1 / 2) :
    (Interval.around m e).Contains v := by
  rw [contains_around_iff hm]
  split
  · exact ⟨hlow.le, hhigh.le⟩
  · exact ⟨hlow, hhigh⟩

/-- A number in the interval is at most half of a last place away, and below a power of two at most a quarter. -/
theorem contains_around (hm : 0 < m) (h : (Interval.around m e).Contains v) :
    Closest m (v / 2 ^ e) ∧ (m = 2 ^ 52 → -1074 < e → (2 ^ 52 : ℚ) - 1 / 4 ≤ v / 2 ^ e) := by
  rw [contains_around_iff hm] at h
  have hreach := (reach_bounds m e).2
  have hends : m - reach m e ≤ v / 2 ^ e ∧ v / 2 ^ e ≤ m + 1 / 2 := by
    split at h
    · exact h
    · exact ⟨h.1.le, h.2.le⟩
  refine ⟨⟨by linarith [hends.1], hends.2, fun hodd => ?_⟩, fun hm he => ?_⟩
  · rw [if_neg (by omega)] at h
    exact ⟨by linarith [h.1], h.2⟩
  · have hlow := hends.1
    rw [reach, if_pos ⟨hm, he⟩, hm] at hlow
    push_cast at hlow
    exact hlow

/-! ## Rounding -/

theorem targetExponent_eq (t : Int) : Format.binary64.targetExponent t = max (t - 53) (-1074) := rfl

theorem exponent_lt_of_two_zpow_lt {a b : Int} (h : (2 : ℚ) ^ a < 2 ^ b) : a < b :=
  (zpow_lt_zpow_iff_right₀ one_lt_two).1 h

variable {M : Nat} {E : Int}

theorem Stands.lt_two_zpow (h : Stands M a (v / 2 ^ E)) : v < 2 ^ totalExponent M E := by
  have hunit : (0 : ℚ) < 2 ^ E := by positivity
  have hlog : (M : ℚ) + 1 ≤ 2 ^ (M.log2 + 1) := by exact_mod_cast Nat.lt_log2_self
  have hv := (div_lt_iff₀ hunit).1 (h.bounds.2.trans_le hlog)
  rwa [← zpow_natCast, ← zpow_add₀ two_ne_zero] at hv

theorem Stands.two_zpow_le (h : Stands M a (v / 2 ^ E)) (hM : M ≠ 0) : 2 ^ (totalExponent M E - 1) ≤ v := by
  have hunit : (0 : ℚ) < 2 ^ E := by positivity
  have hlog : (2 : ℚ) ^ M.log2 ≤ M := by exact_mod_cast Nat.log2_self_le hM
  have hv := (le_div_iff₀ hunit).1 (hlog.trans h.bounds.1)
  have hexponent : totalExponent M E - 1 = (M.log2 : Int) + E := by
    unfold totalExponent
    omega
  rwa [← zpow_natCast, ← zpow_add₀ two_ne_zero, ← hexponent] at hv

/-- The exponent that a number in the interval is rounded at is that of the double, or, right below a power of two, one
less. -/
theorem targetExponent_cases (hc : Canonical m e) (hv : (Interval.around m e).Contains v)
    (hM : Stands M a (v / 2 ^ E)) (hE : E ≤ Format.binary64.targetExponent (totalExponent M E)) :
    Format.binary64.targetExponent (totalExponent M E) = e ∨
      Format.binary64.targetExponent (totalExponent M E) = e - 1 ∧ m = 2 ^ 52 ∧ -1074 < e ∧ v < 2 ^ (52 + e) := by
  obtain ⟨hnear, hquarter⟩ := contains_around hc.pos hv
  have hunit : (0 : ℚ) < 2 ^ e := by positivity
  have hscale : ∀ n : Nat, (2 : ℚ) ^ ((n : Int) + e) = 2 ^ n * 2 ^ e := fun n => by
    rw [zpow_add₀ two_ne_zero, zpow_natCast]
  have habove : v ≤ (m + 1 / 2) * 2 ^ e := (div_le_iff₀ hunit).1 hnear.2.1
  have hbelow : (m - 1 / 2) * 2 ^ e ≤ v := (le_div_iff₀ hunit).1 hnear.1
  have hleast := hc.least
  rw [targetExponent_eq] at hE ⊢
  have hupper : v < 2 ^ totalExponent M E := hM.lt_two_zpow
  have hlower : M ≠ 0 → (2 : ℚ) ^ (totalExponent M E - 1) ≤ v := hM.two_zpow_le
  have hzero : M = 0 → totalExponent M E = 1 + E := by
    rintro rfl
    simp [totalExponent]
  generalize totalExponent M E = T at hE hupper hlower hzero ⊢
  have hT : ∀ n : Nat, M ≠ 0 → v < 2 ^ n * 2 ^ e → T - 1 < n + e := by
    intro n hne hlt
    rw [← hscale] at hlt
    exact exponent_lt_of_two_zpow_lt ((hlower hne).trans_lt hlt)
  by_cases hfull : 2 ^ 52 ≤ m
  · have hfull' : (2 ^ 52 : ℚ) ≤ m := by exact_mod_cast hfull
    have h51 : 51 + e < T := by
      refine exponent_lt_of_two_zpow_lt (lt_of_le_of_lt ?_ hupper)
      refine le_trans ?_ hbelow
      rw [show (51 : Int) = ((51 : Nat) : Int) from rfl, hscale]
      exact mul_le_mul_of_nonneg_right (by linarith) hunit.le
    have hne : M ≠ 0 := by
      intro h0
      have := hzero h0
      omega
    have h53 : T - 1 < (53 : Nat) + e := by
      refine hT 53 hne (habove.trans_lt (mul_lt_mul_of_pos_right ?_ hunit))
      have : (m : ℚ) + 1 ≤ 2 ^ 53 := by exact_mod_cast hc.lt
      linarith
    by_cases hpower : v < 2 ^ 52 * 2 ^ e
    · have h52 := hT 52 hne hpower
      have hm : m = 2 ^ 52 := by
        by_contra hm
        have hm' : (2 ^ 52 : ℚ) + 1 ≤ m := by exact_mod_cast Nat.lt_of_le_of_ne hfull (Ne.symm hm)
        have := mul_le_mul_of_nonneg_right (show (2 ^ 52 : ℚ) ≤ m - 1 / 2 by linarith) hunit.le
        linarith
      by_cases he : e = -1074
      · left
        omega
      · rw [← hscale] at hpower
        exact .inr ⟨by omega, hm, by omega, hpower⟩
    · have h52 : 52 + e < T := by
        refine exponent_lt_of_two_zpow_lt (lt_of_le_of_lt ?_ hupper)
        rw [show (52 : Int) = ((52 : Nat) : Int) from rfl, hscale]
        exact not_lt.1 hpower
      left
      omega
  · have he := hc.full.resolve_left hfull
    have hm : (m : ℚ) + 1 ≤ 2 ^ 52 := by exact_mod_cast not_le.1 hfull
    have h52 := fun hne => hT 52 hne (habove.trans_lt (mul_lt_mul_of_pos_right (by linarith) hunit))
    left
    by_cases hne : M = 0
    · have := hzero hne
      omega
    · have := h52 hne
      omega

theorem finite_of_parts {n : Nat} {k : Int} (hm : 0 < m) (hn : n = m) (hk : k = e) (s : Sign) :
    (if h : n = 0 then UnpackedFloat.zero s else .finite s n k (Nat.pos_of_ne_zero h)) = .finite s m e hm := by
  subst hn hk
  exact dif_neg hm.ne'

theorem Canonical.targetExponent_eq (hc : Canonical m e) : Format.binary64.targetExponent (totalExponent m e) = e := by
  obtain ⟨hpos, hlt, hleast, -, hfull⟩ := hc
  have hlog : m.log2 < 53 := (Nat.log2_lt hpos.ne').2 hlt
  rw [Number.targetExponent_eq, totalExponent]
  rcases hfull with hfull | rfl
  · have : 52 ≤ m.log2 := (Nat.le_log2 hpos.ne').2 hfull
    omega
  · omega

/-- **A number in the interval of a double is rounded to that double**, from any approximation that is not too
coarse. -/
theorem roundWithAccuracy_eq (hc : Canonical m e) (hv : (Interval.around m e).Contains v)
    (hM : Stands M a (v / 2 ^ E)) (hE : E ≤ Format.binary64.targetExponent (totalExponent M E)) (s : Sign) :
    UnpackedFloat.roundWithAccuracy .binary64 s M E a = .finite s m e hc.pos := by
  obtain ⟨hnear, hquarter⟩ := contains_around hc.pos hv
  have hcases := targetExponent_cases hc hv hM hE
  unfold UnpackedFloat.roundWithAccuracy UnpackedFloat.shiftToTargetExponent UnpackedFloat.shiftToExponent
  dsimp only
  generalize Format.binary64.targetExponent (totalExponent M E) = t at hE hcases
  have hexponent : E + ((t - E).toNat : Int) = t := by omega
  have hstands := hM.ofMantissaAndAccuracy.shift (t - E).toNat
  rw [div_div, ← zpow_natCast, ← zpow_add₀ two_ne_zero, hexponent] at hstands
  rw [hexponent]
  rcases hcases with rfl | ⟨rfl, rfl, he, hpower⟩
  · rw [hstands.roundedMantissa_eq hnear, hc.targetExponent_eq]
    have hshift : (t - t).toNat = 0 := by omega
    rw [hshift]
    exact finite_of_parts hc.pos rfl (by omega) s
  · -- the number is rounded up to the power of two, which has one digit too many
    have hround : Closest (2 ^ 53) (v / 2 ^ (e - 1)) := by
      have hunit : (0 : ℚ) < 2 ^ e := by positivity
      have hhalf : v / 2 ^ (e - 1) = 2 * (v / 2 ^ e) := by
        rw [zpow_sub₀ two_ne_zero, zpow_one]
        field_simp
      have hlt : v / 2 ^ e < 2 ^ 52 := by
        rw [div_lt_iff₀ hunit]
        rwa [zpow_add₀ two_ne_zero] at hpower
      have hge := hquarter rfl he
      rw [hhalf]
      refine ⟨?_, ?_, fun hodd => absurd hodd (by decide)⟩ <;> push_cast <;> linarith
    have htarget : Format.binary64.targetExponent (totalExponent (2 ^ 53) (e - 1)) = e := by
      rw [targetExponent_eq, totalExponent, Nat.log2_two_pow]
      omega
    rw [hstands.roundedMantissa_eq hround, htarget]
    have hshift : (e - (e - 1)).toNat = 1 := by omega
    rw [hshift]
    exact finite_of_parts hc.pos rfl (by omega) s

end Thicket.Number
