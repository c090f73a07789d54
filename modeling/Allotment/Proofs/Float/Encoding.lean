import Mathlib.Algebra.Order.Field.Power

/-!
# The parts of floating-point numbers and their encodings

The arithmetic of floating-point numbers is arithmetic of their parts: a sign, a significand and
an exponent.  An operation unpacks the parts of its operands from their encodings, rounds, and packs
the result again.

**Results.**
* `FloatParts.unpack_eq`: the parts of a number in terms of the fields of its encoding.
* `FloatParts.unpack_pack_of_canonical`: parts that an encoding can have survive packing.
* `FloatParts.unpack_pack_of_large`: parts with a larger exponent become infinite.
-/

namespace Allotment

namespace FloatParts

open Float.Model (UnpackedFloat Format)
open Float.Model.UnpackedFloat

/-- Parts that an encoding can have. -/
def Canonical : UnpackedFloat → Prop
  | .finite _ m e _ => m < 2 ^ 53 ∧ -1074 ≤ e ∧ e ≤ 971 ∧ (2 ^ 52 ≤ m ∨ e = -1074)
  | _ => True

/-- The parts of a floating-point number. -/
def parts (x : Float) : UnpackedFloat := x.toModel.unpack

/-- The fraction field of an encoding. -/
def fractionField (b : BitVec 64) : Nat := b.toNat % 2 ^ 52

/-- The exponent field of an encoding. -/
def exponentField (b : BitVec 64) : Nat := b.toNat / 2 ^ 52 % 2 ^ 11

/-- The sign of an encoding. -/
def signField (b : BitVec 64) : Sign := Sign.ofBitVec (@unpackSign Format.binary64 b)

theorem toNat_mantissa (b : BitVec 64) :
    (@unpackMantissa Format.binary64 b).toNat = fractionField b := by
  simp only [unpackMantissa, BitVec.toNat_cast, BitVec.extractLsb_toNat]
  simp [fractionField]

theorem toNat_exponent (b : BitVec 64) :
    (@unpackExponent Format.binary64 b).toNat = exponentField b := by
  simp only [unpackExponent, BitVec.toNat_cast, BitVec.extractLsb_toNat]
  simp [exponentField, Nat.shiftRight_eq_div_pow]

theorem toNat_implicit (f : BitVec 52) : (1#1 ++ f).toNat = 2 ^ 52 + f.toNat := by
  rw [BitVec.toNat_append, ← Nat.shiftLeft_add_eq_or_of_lt f.isLt]
  rfl

variable {b : BitVec 64}

theorem exponent_eq_iff {k : Nat} (hk : k < 2 ^ 11) :
    @unpackExponent Format.binary64 b = BitVec.ofNat 11 k ↔ exponentField b = k := by
  rw [← BitVec.toNat_inj, toNat_exponent, BitVec.toNat_ofNat, Nat.mod_eq_of_lt hk]

theorem mantissa_eq_zero_iff :
    @unpackMantissa Format.binary64 b = 0#52 ↔ fractionField b = 0 := by
  rw [← BitVec.toNat_inj, toNat_mantissa]
  rfl

/-- The parts of a number whose encoding has these fields. -/
def ofFields (s : Sign) (k f : Nat) : UnpackedFloat :=
  if k = 2047 then if f = 0 then .infinity s else .notANumber
  else if k = 0 then if h : f = 0 then .zero s else .finite s f (-1074) (Nat.pos_of_ne_zero h)
  else .finite s (2 ^ 52 + f) (k - 1075) (by omega)

theorem finite_congr {s : Sign} {m m' : Nat} {e e' : Int} {h : 0 < m} {h' : 0 < m'}
    (hm : m = m') (he : e = e') : UnpackedFloat.finite s m e h = .finite s m' e' h' := by
  subst hm he
  rfl

/-- The parts of a number in terms of the fields of its encoding. -/
theorem unpack_eq (b : BitVec 64) :
    unpack Format.binary64 b = ofFields (signField b) (exponentField b) (fractionField b) := by
  have hinf := exponent_eq_iff (b := b) (show 2047 < 2 ^ 11 by omega)
  have hzero := exponent_eq_iff (b := b) (show 0 < 2 ^ 11 by omega)
  have hf := mantissa_eq_zero_iff (b := b)
  have hexponent : ((@unpackExponent Format.binary64 b).toNat : Int) = exponentField b := by
    rw [toNat_exponent]
  rw [ofFields]
  unfold unpack
  by_cases h : exponentField b = 2047
  · rw [if_pos h]
    refine (if_pos (hinf.2 h)).trans ?_
    by_cases hz : fractionField b = 0
    · rw [if_pos hz]
      exact if_pos (hf.2 hz)
    · rw [if_neg hz]
      exact if_neg (mt hf.1 hz)
  · rw [if_neg h]
    refine (if_neg (mt hinf.1 h)).trans ?_
    by_cases hk : exponentField b = 0
    · rw [if_pos hk]
      refine (if_pos (hzero.2 hk)).trans ?_
      by_cases hz : fractionField b = 0
      · rw [dif_pos hz]
        exact dif_pos (hf.2 hz)
      · rw [dif_neg hz]
        refine (dif_neg (mt hf.1 hz)).trans (finite_congr (toNat_mantissa b) ?_)
        exact congrArg (· - (1023 + 52 : Int) + 1) (hexponent.trans (congrArg _ hk))
    · rw [if_neg hk]
      refine (if_neg (mt hzero.1 hk)).trans (finite_congr ?_ ?_)
      · exact (toNat_implicit _).trans (congrArg _ (toNat_mantissa b))
      · exact congrArg (· - (1023 + 52 : Int)) hexponent

theorem fractionField_lt (b : BitVec 64) : fractionField b < 2 ^ 52 := Nat.mod_lt _ (by decide)

theorem exponentField_lt (b : BitVec 64) : exponentField b < 2 ^ 11 := Nat.mod_lt _ (by decide)

theorem ofFields_of_eq (s : Sign) (f : Nat) :
    ofFields s 2047 f = .infinity s ∨ ofFields s 2047 f = .notANumber := by
  by_cases hz : f = 0
  · exact .inl ((if_pos rfl).trans (if_pos hz))
  · exact .inr ((if_pos rfl).trans (if_neg hz))

theorem ofFields_of_ne (s : Sign) {k : Nat} (hk : k ≠ 2047) (f : Nat) :
    ofFields s k f = .zero s ∨ ∃ m e h, ofFields s k f = .finite s m e h := by
  by_cases hsub : k = 0
  · by_cases hz : f = 0
    · exact .inl ((if_neg hk).trans ((if_pos hsub).trans (dif_pos hz)))
    · exact .inr ⟨_, _, _, (if_neg hk).trans ((if_pos hsub).trans (dif_neg hz))⟩
  · exact .inr ⟨_, _, _, (if_neg hk).trans (if_neg hsub)⟩

theorem canonical_ofFields (s : Sign) {k f : Nat} (hk : k < 2 ^ 11) (hf : f < 2 ^ 52) :
    Canonical (ofFields s k f) := by
  rw [ofFields]
  by_cases h : k = 2047
  · rw [if_pos h]
    by_cases hz : f = 0
    · rw [if_pos hz]
      trivial
    · rw [if_neg hz]
      trivial
  · rw [if_neg h]
    by_cases hsub : k = 0
    · rw [if_pos hsub]
      by_cases hz : f = 0
      · rw [dif_pos hz]
        trivial
      · rw [dif_neg hz]
        exact ⟨by omega, by omega, by omega, .inr rfl⟩
    · rw [if_neg hsub]
      exact ⟨by omega, by omega, by omega, .inl (by omega)⟩

theorem canonical_unpack (b : BitVec 64) : Canonical (unpack Format.binary64 b) := by
  rw [unpack_eq]
  exact canonical_ofFields _ (exponentField_lt b) (fractionField_lt b)

theorem canonical_parts (x : Float) : Canonical (parts x) := canonical_unpack _

/-- A significand has all its digits exactly if its first one is there. -/
theorem log2_eq_iff {m : Nat} (hm : m < 2 ^ 53) (hpos : 0 < m) :
    m.log2 + 1 = 53 ↔ 2 ^ 52 ≤ m := by
  have hlt := (Nat.log2_lt (Nat.ne_of_gt hpos)).2 hm
  have hle := Nat.le_log2 (k := 52) (Nat.ne_of_gt hpos)
  omega

theorem signField_pack (s : Sign) (k : BitVec 11) (f : BitVec 52) :
    signField (packComponents Format.binary64 s k f) = s := by
  have h : unpackSign (packComponents Format.binary64 s k f) = s.toBitVec := by
    apply BitVec.eq_of_getLsbD_eq
    intro i hi
    obtain rfl : i = 0 := by omega
    show (BitVec.extractLsb 63 63 ((s.toBitVec ++ k) ++ f)).getLsbD 0 = _
    rw [BitVec.getLsbD_extractLsb, BitVec.getLsbD_append, BitVec.getLsbD_append]
    cases s <;> rfl
  rw [signField, h]
  cases s <;> rfl

theorem exponentField_pack (s : Sign) (k : BitVec 11) (f : BitVec 52) :
    exponentField (packComponents Format.binary64 s k f) = k.toNat := by
  rw [← toNat_exponent, unpackExponent_packComponents]

theorem fractionField_pack (s : Sign) (k : BitVec 11) (f : BitVec 52) :
    fractionField (packComponents Format.binary64 s k f) = f.toNat := by
  rw [← toNat_mantissa, unpackMantissa_packComponents]

theorem pack_finite (s : Sign) {m : Nat} (e : Int) (hm : 0 < m) :
    pack Format.binary64 (.finite s m e hm) =
      if 2047 ≤ (e + 1075).toNat then packedInfinity Format.binary64 s
      else if m.log2 + 1 = 53 then
        packComponents Format.binary64 s (BitVec.ofNat 11 (e + 1075).toNat) (BitVec.ofNat 52 m)
      else packComponents Format.binary64 s 0#11 (BitVec.ofNat 52 m) := by
  have hbias : e + ((1023 : Nat) : Int) + ((52 : Nat) : Int) = e + 1075 := by omega
  have hover : 2 ^ 11 ≤ (e + 1075).toNat + 1 ↔ 2047 ≤ (e + 1075).toNat := by omega
  unfold pack
  show (if 2 ^ 11 ≤ (e + ((1023 : Nat) : Int) + ((52 : Nat) : Int)).toNat + 1 then _
    else if m.log2 + 1 = 53 then packComponents Format.binary64 s
      (BitVec.ofNat 11 (e + ((1023 : Nat) : Int) + ((52 : Nat) : Int)).toNat) (BitVec.ofNat 52 m)
    else _) = _
  simp only [hbias, hover]

theorem unpack_packComponents (s : Sign) (k : BitVec 11) (f : BitVec 52) :
    unpack Format.binary64 (packComponents Format.binary64 s k f) = ofFields s k.toNat f.toNat := by
  rw [unpack_eq, signField_pack, exponentField_pack, fractionField_pack]

/-- Parts that an encoding can have survive packing. -/
theorem unpack_pack_of_canonical {u : UnpackedFloat} (h : Canonical u) :
    unpack Format.binary64 (pack Format.binary64 u) = u := by
  cases u with
  | notANumber => rfl
  | infinity s => cases s <;> rfl
  | zero s => cases s <;> rfl
  | finite s m e hm =>
      obtain ⟨hlt, hlow, hhigh, hform⟩ := h
      have hk : (BitVec.ofNat 11 (e + 1075).toNat).toNat = (e + 1075).toNat := by
        rw [BitVec.toNat_ofNat, Nat.mod_eq_of_lt (by omega)]
      have hf : (BitVec.ofNat 52 m).toNat = m % 2 ^ 52 := BitVec.toNat_ofNat _ _
      rw [pack_finite, if_neg (by omega)]
      by_cases hnormal : 2 ^ 52 ≤ m
      · rw [if_pos ((log2_eq_iff hlt hm).2 hnormal), unpack_packComponents, hk, ofFields,
          if_neg (by omega), if_neg (by omega)]
        exact finite_congr (by omega) (by omega)
      · have hzero : (0#11).toNat = 0 := rfl
        rw [if_neg (mt (log2_eq_iff hlt hm).1 hnormal), unpack_packComponents, hzero, ofFields,
          if_neg (by omega), if_pos rfl, dif_neg (by omega)]
        exact finite_congr (by omega) (by omega)

/-- A number with a larger exponent than an encoding can have becomes infinite. -/
theorem unpack_pack_of_large (s : Sign) {m : Nat} {e : Int} (hm : 0 < m) (he : 971 < e) :
    unpack Format.binary64 (pack Format.binary64 (.finite s m e hm)) = .infinity s := by
  rw [pack_finite, if_pos (by omega)]
  cases s <;> rfl

end FloatParts

end Allotment
