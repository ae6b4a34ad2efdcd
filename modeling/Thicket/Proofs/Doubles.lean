import Thicket.Number.Literal
/-!
# Doubles that are numbers

A double may be no number at all.  Reading a literal never ends in that one: it takes a whole number and multiplies it
with a power of ten or divides it by one, and only a zero or an infinity could turn that into no number.  A power of ten
is neither, however large.
-/
namespace Thicket.Number

open Float.Model (Format UnpackedFloat)

/-! ## What is packed is not lost -/

theorem isNaN_unpack {spec : Format} {b : BitVec spec.numBits}
    (h : UnpackedFloat.unpackExponent b = -1#_ → UnpackedFloat.unpackMantissa b = 0#_) :
    (UnpackedFloat.unpack spec b).isNaN = false := by
  unfold UnpackedFloat.unpack
  dsimp only
  by_cases hexponent : UnpackedFloat.unpackExponent b = -1#_
  · rw [if_pos hexponent, if_pos (h hexponent)]
    rfl
  · rw [if_neg hexponent]
    by_cases hleast : UnpackedFloat.unpackExponent b = 0#_
    · rw [if_pos hleast, apply_dite UnpackedFloat.isNaN]
      exact dite_eq_right_iff.2 fun _ => rfl
    · rw [if_neg hleast]
      rfl

/-- Rounding to the doubles does not make a number into none, not even where it makes it infinite. -/
theorem isNaN_unpack_pack {spec : Format} {u : UnpackedFloat} (h : u.isNaN = false) :
    (UnpackedFloat.unpack spec (UnpackedFloat.pack spec u)).isNaN = false := by
  have hinfinity : ∀ s, (UnpackedFloat.unpack spec (UnpackedFloat.packedInfinity spec s)).isNaN = false := by
    intro s
    exact isNaN_unpack fun _ => UnpackedFloat.unpackMantissa_packComponents
  have hleast : ∀ s m, (UnpackedFloat.unpack spec (UnpackedFloat.packComponents spec s 0#_ m)).isNaN = false := by
    intro s m
    refine isNaN_unpack fun hexponent => ?_
    rw [UnpackedFloat.unpackExponent_packComponents, BitVec.zero_eq_neg_one_iff] at hexponent
    exact absurd hexponent (Nat.ne_of_gt spec.he)
  cases u with
  | notANumber => cases h
  | infinity s => exact hinfinity s
  | zero s => exact hleast s 0#_
  | finite s m e hm =>
    unfold UnpackedFloat.pack
    dsimp only
    -- the largest exponent is kept for the infinities and for what is no number
    split
    · exact hinfinity s
    · rename_i hsmall
      split
      · refine isNaN_unpack fun hexponent => ?_
        rw [UnpackedFloat.unpackExponent_packComponents, BitVec.neg_one_eq_allOnes] at hexponent
        have hvalue := congrArg BitVec.toNat hexponent
        rw [BitVec.toNat_allOnes, BitVec.toNat_ofNat, Nat.mod_eq_of_lt (by omega)] at hvalue
        omega
      · exact hleast s _

theorem isNaN_pack {u : UnpackedFloat} (h : u.isNaN = false) : (Float.ofModel (.pack u)).isNaN = false :=
  isNaN_unpack_pack h

/-! ## Arithmetic -/

/-- Neither zero nor infinite, and not what is no number. -/
def proper : UnpackedFloat → Bool
  | .finite _ _ _ _ => true
  | _ => false

theorem isNaN_roundWithAccuracy (spec : Format) (s m e a) :
    (UnpackedFloat.roundWithAccuracy spec s m e a).isNaN = false := by
  show (dite _ _ _ : UnpackedFloat).isNaN = false
  rw [apply_dite UnpackedFloat.isNaN]
  exact dite_eq_right_iff.2 fun _ => rfl

theorem isNaN_mul {spec : Format} {u v : UnpackedFloat} (hu : u.isNaN = false) (hv : proper v = true) :
    (UnpackedFloat.mul spec u v).isNaN = false := by
  cases v with
  | notANumber | infinity | zero => cases hv
  | finite s m e hm =>
    cases u with
    | notANumber => cases hu
    | infinity | zero => rfl
    | finite => exact isNaN_roundWithAccuracy ..

theorem isNaN_div {spec : Format} {u v : UnpackedFloat} (hu : u.isNaN = false) (hv : proper v = true) :
    (UnpackedFloat.div spec u v).isNaN = false := by
  cases v with
  | notANumber | infinity | zero => cases hv
  | finite s m e hm =>
    cases u with
    | notANumber => cases hu
    | infinity | zero => rfl
    | finite => exact isNaN_roundWithAccuracy ..

theorem isNaN_ofNat (spec : Format) (n : Nat) : (UnpackedFloat.ofNat spec n).isNaN = false := by
  unfold UnpackedFloat.ofNat UnpackedFloat.ofInt UnpackedFloat.normalize
  split
  · exact isNaN_roundWithAccuracy ..
  · rfl
  · exact isNaN_roundWithAccuracy ..

theorem isNaN_neg {x : Float} (h : x.isNaN = false) : (-x).isNaN = false := by
  refine isNaN_pack ?_
  have hx : x.toModel.unpack.isNaN = false := h
  cases hu : x.toModel.unpack with
  | notANumber =>
    rw [hu] at hx
    cases hx
  | infinity | zero | finite => rfl

/-! ## Decimals -/

theorem isNaN_ofScientific_model (spec : Format) (m : Nat) (e : Int) :
    (UnpackedFloat.ofScientific spec m e).isNaN = false := by
  unfold UnpackedFloat.ofScientific
  by_cases hzero : m = 0
  · rw [dif_pos hzero]
    rfl
  rw [dif_neg hzero]
  by_cases hlarge : e > 2 ^ spec.exponentBits
  · rw [if_pos hlarge]
    rfl
  rw [if_neg hlarge]
  by_cases hsmall : e < -(2 ^ spec.exponentBits + m.log2)
  · rw [if_pos hsmall]
    rfl
  rw [if_neg hsmall]
  by_cases hsign : 0 ≤ e
  · rw [if_pos hsign]
    exact isNaN_mul rfl rfl
  · rw [if_neg hsign]
    exact isNaN_div rfl rfl

theorem proper_powerOfTen : ∀ e (h : e < Float.exactlyRepresentablePowersOfTen.size),
    proper (Float.exactlyRepresentablePowersOfTen[e]).toModel.unpack = true := by
  decide +kernel

theorem isNaN_ofScientific (m : Nat) (s : Bool) (e : Nat) : (Float.ofScientific m s e).isNaN = false := by
  unfold Float.ofScientific
  split
  · have hm : (m.toUInt64.toFloat).toModel.unpack.isNaN = false := isNaN_pack (isNaN_ofNat _ _)
    dsimp only
    split
    · exact isNaN_pack (isNaN_div hm (proper_powerOfTen _ _))
    · exact isNaN_pack (isNaN_mul hm (proper_powerOfTen _ _))
  · exact isNaN_pack (isNaN_ofScientific_model _ _ _)

theorem Decimal.isNaN_toFloat (d : Decimal) : d.toFloat.isNaN = false := by
  unfold Decimal.toFloat
  dsimp only
  split
  · exact isNaN_ofScientific 0 true 1
  · split
    · exact isNaN_ofScientific _ _ _
    · split <;> exact isNaN_ofScientific _ _ _

/-- **A literal is a number.** -/
theorem Literal.isNaN_toFloat (l : Literal) : l.toFloat.isNaN = false := by
  have hnegate : ∀ (negative : Bool) {x : Float}, x.isNaN = false → (Literal.negate negative x).isNaN = false := by
    intro negative x hx
    cases negative with
    | false => exact hx
    | true => exact isNaN_neg hx
  cases l with
  | infinity negative => exact hnegate negative (by decide +kernel)
  | decimal negative whole fraction exponent => exact hnegate negative (Decimal.isNaN_toFloat _)

end Thicket.Number
