import Allotment.Binary64
import Allotment.Proofs.Float.Encoding
import Mathlib.Order.Compare
import Mathlib.Tactic.Linarith

/-!
# Where floating-point numbers stand

A floating-point number stands at a rational number, its exact value.  The infinite ones stand at
the ends, where the next power of two would, so the order of the numbers is that of their places.
What is not a number stands nowhere.

**Results.**
* `FloatParts.le_iff`, `FloatParts.lt_iff`: numbers are ordered like their places.
* `FloatParts.le_trans`: this order is transitive.
* `FloatParts.at?_of_isFinite`: a finite number stands at its exact value.
-/

namespace Allotment

/-- The exact value of a finite number. -/
def Binary64.value (b : Binary64) : ℚ := (b.signed : ℚ) * 2 ^ b.q

namespace FloatParts

open Float.Model (UnpackedFloat Format)
open Float.Model.UnpackedFloat

/-- A number of the given parts, without its sign. -/
def magnitude (m : Nat) (e : Int) : ℚ := m * 2 ^ e

/-- Where the numbers end. -/
def horizon : ℚ := magnitude 1 1024

/-- The number with the sign. -/
def signedBy : Sign → ℚ → ℚ
  | .negative, a => -a
  | .positive, a => a

/-- Where a floating-point number stands among the rational numbers.  The infinite ones stand
at the ends, where the next power of two would. -/
def place? : UnpackedFloat → Option ℚ
  | .notANumber => none
  | .infinity s => some (signedBy s horizon)
  | .zero _ => some 0
  | .finite s m e _ => some (signedBy s (magnitude m e))

@[simp] theorem signedBy_zero (s : Sign) : signedBy s 0 = 0 := by
  cases s with
  | negative => exact neg_zero
  | positive => rfl

theorem abs_signedBy (s : Sign) (a : ℚ) : |signedBy s a| = |a| := by
  cases s with
  | negative => exact abs_neg a
  | positive => rfl

@[simp] theorem place?_infinity (s : Sign) :
    place? (.infinity s) = some (signedBy s horizon) := by
  rfl

@[simp] theorem place?_zero (s : Sign) : place? (.zero s) = some 0 := by
  rfl

@[simp] theorem place?_finite (s : Sign) {m : Nat} (e : Int) (hm : 0 < m) :
    place? (.finite s m e hm) = some (signedBy s (magnitude m e)) := by
  rfl

theorem magnitude_pos {m : Nat} (hm : 0 < m) (e : Int) : 0 < magnitude m e :=
  mul_pos (Nat.cast_pos.2 hm) (zpow_pos two_pos e)

theorem horizon_pos : 0 < horizon := magnitude_pos one_pos _

theorem horizon_eq : horizon = 2 ^ (1024 : Int) := by
  rw [horizon, magnitude, Nat.cast_one, one_mul]

theorem magnitude_lt_two_zpow {m k : Nat} (hm : m < 2 ^ k) (e : Int) :
    magnitude m e < 2 ^ (k + e) := by
  have hcast : (m : ℚ) < 2 ^ k := by exact_mod_cast hm
  rw [zpow_add₀ two_ne_zero, zpow_natCast]
  exact mul_lt_mul_of_pos_right hcast (zpow_pos two_pos e)

theorem two_zpow_le_magnitude {m k : Nat} (hm : 2 ^ k ≤ m) (e : Int) :
    (2 : ℚ) ^ (k + e) ≤ magnitude m e := by
  have hcast : (2 : ℚ) ^ k ≤ m := by exact_mod_cast hm
  rw [zpow_add₀ two_ne_zero, zpow_natCast]
  exact mul_le_mul_of_nonneg_right hcast (zpow_pos two_pos e).le

theorem two_zpow_le {i j : Int} (h : i ≤ j) : (2 : ℚ) ^ i ≤ 2 ^ j :=
  zpow_le_zpow_right₀ one_le_two h

theorem magnitude_lt_horizon_of_lt {m k : Nat} (hm : m < 2 ^ k) {e : Int} (he : k + e ≤ 1024) :
    magnitude m e < horizon :=
  calc magnitude m e < 2 ^ (k + e) := magnitude_lt_two_zpow hm e
    _ ≤ 2 ^ ((0 : Nat) + (1024 : Int)) := two_zpow_le (by omega)
    _ ≤ horizon := two_zpow_le_magnitude (by decide) _

theorem horizon_le_magnitude {m k : Nat} (hm : 2 ^ k ≤ m) {e : Int} (he : 1024 ≤ k + e) :
    horizon ≤ magnitude m e :=
  calc horizon = 2 ^ (1024 : Int) := horizon_eq
    _ ≤ 2 ^ (k + e) := two_zpow_le he
    _ ≤ magnitude m e := two_zpow_le_magnitude hm e

section Order

variable {s s' : Sign} {m m' : Nat} {e e' : Int} {hm : 0 < m} {hm' : 0 < m'}

theorem magnitude_lt_horizon (h : Canonical (.finite s m e hm)) : magnitude m e < horizon :=
  magnitude_lt_horizon_of_lt h.1 (by have := h.2.2.1; omega)

theorem magnitude_lt_of_exponent_lt
    (h : Canonical (.finite s m e hm)) (h' : Canonical (.finite s' m' e' hm')) (hlt : e < e') :
    magnitude m e < magnitude m' e' := by
  have hnormal : 2 ^ 52 ≤ m' := by
    have := h'.2.2.2
    have := h.2.1
    omega
  calc magnitude m e < 2 ^ ((53 : Nat) + e) := magnitude_lt_two_zpow h.1 e
    _ ≤ 2 ^ ((52 : Nat) + e') := two_zpow_le (by omega)
    _ ≤ magnitude m' e' := two_zpow_le_magnitude hnormal e'

theorem magnitude_lt_iff (m m' : Nat) (e : Int) : magnitude m e < magnitude m' e ↔ m < m' := by
  rw [magnitude, magnitude, mul_lt_mul_iff_left₀ (zpow_pos two_pos e), Nat.cast_lt]

/-- Of two canonical numbers the one with the greater exponent is the greater one; with the same
exponent the significands decide. -/
theorem compare_magnitude
    (h : Canonical (.finite s m e hm)) (h' : Canonical (.finite s' m' e' hm')) :
    compare (magnitude m e) (magnitude m' e') = (compare e e').then (compare m m') := by
  rcases lt_trichotomy e e' with hlt | rfl | hlt
  · rw [compare_lt_iff_lt.2 hlt, compare_lt_iff_lt.2 (magnitude_lt_of_exponent_lt h h' hlt)]
    rfl
  · rw [compare_eq_iff_eq.2 rfl]
    rcases lt_trichotomy m m' with hlt | rfl | hlt
    · rw [compare_lt_iff_lt.2 hlt, compare_lt_iff_lt.2 ((magnitude_lt_iff m m' e).2 hlt)]
      rfl
    · rw [compare_eq_iff_eq.2 rfl, compare_eq_iff_eq.2 rfl]
      rfl
    · rw [compare_gt_iff_gt.2 hlt, compare_gt_iff_gt.2 ((magnitude_lt_iff m' m e).2 hlt)]
      rfl
  · rw [compare_gt_iff_gt.2 hlt, compare_gt_iff_gt.2 (magnitude_lt_of_exponent_lt h' h hlt)]
    rfl

theorem compare_neg (a b : ℚ) : compare (-a) (-b) = (compare a b).swap := by
  rcases lt_trichotomy a b with hlt | rfl | hlt
  · rw [compare_lt_iff_lt.2 hlt, compare_gt_iff_gt.2 (neg_lt_neg hlt)]
    rfl
  · rw [compare_eq_iff_eq.2 rfl, compare_eq_iff_eq.2 rfl]
    rfl
  · rw [compare_gt_iff_gt.2 hlt, compare_lt_iff_lt.2 (neg_lt_neg hlt)]
    rfl

/-- Numbers compare like their places. -/
theorem compare_eq_compare
    {u v : UnpackedFloat} (hu : Canonical u) (hv : Canonical v) {a b : ℚ}
    (ha : place? u = some a) (hb : place? v = some b) : u.compare v = some (compare a b) := by
  have hinfinite := horizon_pos
  have hfinite {s : Sign} {m : Nat} {e : Int} {hm : 0 < m} (h : Canonical (.finite s m e hm)) :
      0 < magnitude m e ∧ magnitude m e < horizon :=
    ⟨magnitude_pos hm e, magnitude_lt_horizon h⟩
  rcases u with ⟨_ | _⟩ | _ | s | ⟨_ | _, m, e, hm⟩ <;>
    rcases v with ⟨_ | _⟩ | _ | s' | ⟨_ | _, m', e', hm'⟩ <;> cases ha <;> cases hb
  case finite.negative.finite.negative =>
    rw [signedBy, signedBy, compare_neg, compare_magnitude hu hv]
    rfl
  case finite.positive.finite.positive =>
    rw [signedBy, signedBy, compare_magnitude hu hv]
    rfl
  -- Everywhere else the signs and the ends decide.
  all_goals
    try have := hfinite hu
    try have := hfinite hv
    first
    | exact congrArg some (compare_eq_iff_eq.2 rfl).symm
    | exact congrArg some (compare_lt_iff_lt.2 (by try simp only [signedBy]; linarith)).symm
    | exact congrArg some (compare_gt_iff_gt.2 (by try simp only [signedBy]; linarith)).symm

end Order

/-- Where a floating-point number stands among the rational numbers; what is not a number stands
nowhere. -/
def at? (x : Float) : Option ℚ := place? (parts x)

section Numbers

variable {x y : Float} {a b : ℚ}

theorem compare_parts (ha : at? x = some a) (hb : at? y = some b) :
    (parts x).compare (parts y) = some (compare a b) :=
  compare_eq_compare (canonical_parts x) (canonical_parts y) ha hb

theorem le_iff (ha : at? x = some a) (hb : at? y = some b) : x ≤ y ↔ a ≤ b := by
  have hle : x ≤ y ↔ ((parts x).compare (parts y)).any (·.isLE) = true := decide_eq_true_iff
  rw [hle, compare_parts ha hb, Option.any_some, Ordering.isLE_iff_ne_gt]
  exact compare_le_iff_le

theorem lt_iff (ha : at? x = some a) (hb : at? y = some b) : x < y ↔ a < b := by
  have hlt : x < y ↔ ((parts x).compare (parts y) == some .lt) = true := decide_eq_true_iff
  rw [hlt, compare_parts ha hb, ← compare_lt_iff_lt]
  cases compare a b <;> decide

theorem beq_iff (ha : at? x = some a) (hb : at? y = some b) : (x == y) = true ↔ a = b := by
  have hbeq : (x == y) = ((parts x).compare (parts y) == some .eq) := rfl
  rw [hbeq, compare_parts ha hb, ← compare_eq_iff_eq (a := a)]
  cases compare a b <;> decide

/-- What is not a number is not ordered. -/
theorem exists_place_of_le (h : x ≤ y) : (∃ a, at? x = some a) ∧ ∃ b, at? y = some b := by
  have hcompare : ((parts x).compare (parts y)).any (·.isLE) = true := of_decide_eq_true h
  rw [at?, at?]
  generalize parts x = u, parts y = v at hcompare
  cases u <;> cases v <;> first | exact ⟨⟨_, rfl⟩, _, rfl⟩ | cases hcompare

protected theorem le_trans {z : Float} (hxy : x ≤ y) (hyz : y ≤ z) : x ≤ z := by
  obtain ⟨⟨a, ha⟩, b, hb⟩ := exists_place_of_le hxy
  obtain ⟨-, c, hc⟩ := exists_place_of_le hyz
  have hab : a ≤ b := (le_iff ha hb).1 hxy
  have hbc : b ≤ c := (le_iff hb hc).1 hyz
  exact (le_iff ha hc).2 (hab.trans hbc)

theorem le_of_lt (h : x < y) : x ≤ y := by
  have hlt : ((parts x).compare (parts y) == some .lt) = true := of_decide_eq_true h
  have hle : ((parts x).compare (parts y)).any (·.isLE) = true := by
    rw [eq_of_beq hlt]
    rfl
  exact decide_eq_true hle

end Numbers

section Encoding

variable {x : Float}

theorem exponentBits_eq (x : Float) :
    Binary64.exponentBits x = exponentField x.toBits.toBitVec := by
  have hmask : (2047 : Nat) = 2 ^ 11 - 1 := rfl
  simp only [Binary64.exponentBits, exponentField, UInt64.toNat_and, UInt64.toNat_shiftRight]
  show x.toBits.toNat >>> 52 &&& 2047 = _
  rw [hmask, Nat.and_two_pow_sub_one_eq_mod, Nat.shiftRight_eq_div_pow]
  rfl

theorem fractionBits_eq (x : Float) :
    x.toBits.toNat &&& 0xFFFFFFFFFFFFF = fractionField x.toBits.toBitVec := by
  have hmask : 0xFFFFFFFFFFFFF = 2 ^ 52 - 1 := rfl
  rw [hmask, Nat.and_two_pow_sub_one_eq_mod]
  rfl

theorem signField_eq (b : BitVec 64) :
    signField b = if b.toNat / 2 ^ 63 = 1 then .negative else .positive := by
  have hsign : (@unpackSign Format.binary64 b).toNat = b.toNat / 2 ^ 63 % 2 := by
    show (BitVec.extractLsb 63 63 b).toNat = _
    rw [BitVec.extractLsb_toNat, Nat.shiftRight_eq_div_pow]
  have hb := b.isLt
  have hzero : @unpackSign Format.binary64 b = 0#1 ↔ b.toNat / 2 ^ 63 ≠ 1 := by
    rw [← BitVec.toNat_inj, hsign]
    show _ = 0 ↔ _
    omega
  show (if _ = 0#1 then Sign.positive else .negative) = _
  simp only [hzero, ite_not]

theorem signBit_iff (x : Float) :
    (x.toBits >>> 63 == 1) = true ↔ x.toBits.toBitVec.toNat / 2 ^ 63 = 1 := by
  rw [beq_iff_eq, ← UInt64.toNat_inj, UInt64.toNat_shiftRight, Nat.shiftRight_eq_div_pow]
  rfl

theorem signedBy_magnitude (s : Sign) (m : Nat) (e : Int) :
    signedBy s (magnitude m e) = ((s.apply m : Int) : ℚ) * 2 ^ e := by
  cases s with
  | negative => simp [signedBy, magnitude, Sign.apply]
  | positive => simp [signedBy, magnitude, Sign.apply]

theorem isFinite_iff (x : Float) :
    Binary64.IsFinite x ↔ exponentField x.toBits.toBitVec ≠ 2047 := by
  rw [Binary64.IsFinite, exponentBits_eq]

theorem signed_eq (x : Float) : (Binary64.ofFloat x).signed =
    (signField x.toBits.toBitVec).apply (Binary64.ofFloat x).m := by
  have hneg : (Binary64.ofFloat x).neg = (x.toBits >>> 63 == 1) := by
    rw [Binary64.ofFloat]
    split <;> rfl
  rw [Binary64.signed, hneg, signField_eq]
  by_cases h : x.toBits.toBitVec.toNat / 2 ^ 63 = 1
  · rw [if_pos ((signBit_iff x).2 h), if_pos h]
    rfl
  · rw [if_neg (mt (signBit_iff x).1 h), if_neg h]
    rfl

theorem at?_of_isFinite (h : Binary64.IsFinite x) : at? x = some (Binary64.ofFloat x).value := by
  have hk := (isFinite_iff x).1 h
  show place? (unpack Format.binary64 x.toBits.toBitVec) = _
  rw [unpack_eq, ofFields, if_neg hk, Binary64.value, signed_eq]
  by_cases hz : exponentField x.toBits.toBitVec = 0
  · have hm : (Binary64.ofFloat x).m = fractionField x.toBits.toBitVec := by
      simp [Binary64.ofFloat, exponentBits_eq, fractionBits_eq, hz]
    have hq : (Binary64.ofFloat x).q = -1074 := by
      simp [Binary64.ofFloat, exponentBits_eq, hz]
    rw [if_pos hz, hm, hq]
    by_cases hf : fractionField x.toBits.toBitVec = 0
    · have hzero : (signField x.toBits.toBitVec).apply (0 : Nat) = 0 := by
        cases signField x.toBits.toBitVec <;> rfl
      rw [dif_pos hf, hf, place?_zero, hzero, Int.cast_zero, zero_mul]
    · rw [dif_neg hf, place?_finite, signedBy_magnitude]
  · have hm : (Binary64.ofFloat x).m = 2 ^ 52 + fractionField x.toBits.toBitVec := by
      simp [Binary64.ofFloat, exponentBits_eq, fractionBits_eq, hz]
    have hq : (Binary64.ofFloat x).q = exponentField x.toBits.toBitVec - 1075 := by
      simp [Binary64.ofFloat, exponentBits_eq, hz]
    rw [if_neg hz, hm, hq, place?_finite, signedBy_magnitude]

end Encoding

end FloatParts

end Allotment
