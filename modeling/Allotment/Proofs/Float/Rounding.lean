import Allotment.Proofs.Float.Nearest

/-!
# Rounding

The exact result of an operation is cut to the digits that there is room for, and the digits that
are cut off decide whether the last one that is left goes up.  Of them only two bits are kept: the
first one, and whether any other one was there.  Then the result is packed, and what is too large
becomes infinite.  So an exact result becomes the place nearest to it where a number can stand.

**Results.**
* `FloatParts.roundWithAccuracy_eq`: what rounding does to a significand and an exponent.
* `FloatParts.nearest_roundWithAccuracy`: rounding leads to the nearest place.
-/

namespace Allotment

namespace FloatParts

open Float.Model (UnpackedFloat Format totalExponent)
open Float.Model.UnpackedFloat

/-! ### Shifted significands -/

theorem mantissa_shift (em : ExtendedMantissa) (k : Nat) :
    (em >>> k).mantissa = em.mantissa / 2 ^ k := by
  show (k.repeat ExtendedMantissa.shiftRightOne em).mantissa = _
  induction k with
  | zero => simp [Nat.repeat]
  | succ k ih =>
      show (Nat.repeat ExtendedMantissa.shiftRightOne k em).mantissa / 2 = _
      rw [ih, Nat.div_div_eq_div_mul, Nat.pow_succ]

theorem roundedMantissa_bounds (em : ExtendedMantissa) :
    em.mantissa ≤ em.roundedMantissa ∧ em.roundedMantissa ≤ em.mantissa + 1 := by
  obtain ⟨m, round, sticky⟩ := em
  cases round <;> cases sticky
  · exact ⟨Nat.le_refl m, Nat.le_succ m⟩
  · exact ⟨Nat.le_refl m, Nat.le_succ m⟩
  · have := Nat.mod_lt m two_pos
    exact ⟨Nat.le_add_right m _, Nat.add_le_add_left (by omega) m⟩
  · exact ⟨Nat.le_succ m, Nat.le_refl _⟩

/-- The number is read off the significand and the two bits behind it: the first one stands for a
half, and the other one tells whether there is more. -/
def Reads (em : ExtendedMantissa) (q : ℚ) : Prop :=
  if em.stickyBit then
    em.mantissa + (if em.roundBit then 1 / 2 else 0) < q ∧
      q < em.mantissa + (if em.roundBit then 1 / 2 else 0) + 1 / 2
  else q = em.mantissa + if em.roundBit then 1 / 2 else 0

theorem reads_exact (m : Nat) : Reads (ExtendedMantissa.ofMantissaAndAccuracy m .exact) m :=
  (add_zero (m : ℚ)).symm

theorem half_eq (m : Nat) :
    (m : ℚ) / 2 = (m / 2 : Nat) + if (m % 2 != 0) = true then 1 / 2 else 0 := by
  have hdiv : (m : ℚ) = 2 * (m / 2 : Nat) + (m % 2 : Nat) := by
    exact_mod_cast (Nat.div_add_mod m 2).symm
  rcases Nat.mod_two_eq_zero_or_one m with h | h
  · rw [h] at hdiv ⊢
    rw [if_neg (by decide), hdiv]
    push_cast
    ring
  · rw [h] at hdiv ⊢
    rw [if_pos (by decide), hdiv]
    push_cast
    ring

theorem Reads.shiftRightOne {em : ExtendedMantissa} {q : ℚ} (h : Reads em q) :
    Reads em.shiftRightOne (q / 2) := by
  obtain ⟨m, round, sticky⟩ := em
  have hhalf := half_eq m
  cases round <;> cases sticky
  all_goals
    simp only [Reads, ExtendedMantissa.shiftRightOne, Bool.or_false, Bool.or_true, if_true,
      if_false, Bool.false_eq_true, ← hhalf] at h ⊢
  · linarith
  · constructor <;> linarith
  · constructor <;> linarith
  · constructor <;> linarith

theorem Reads.shift {em : ExtendedMantissa} {q : ℚ} (h : Reads em q) (k : Nat) :
    Reads (em >>> k) (q / 2 ^ k) := by
  show Reads (k.repeat ExtendedMantissa.shiftRightOne em) _
  induction k with
  | zero => rwa [pow_zero, div_one]
  | succ k ih =>
      rw [pow_succ, ← div_div]
      exact ih.shiftRightOne

/-- The significand is rounded to the nearest integer. -/
theorem Reads.roundedMantissa {em : ExtendedMantissa} {q : ℚ} (h : Reads em q) :
    IsNearestInt em.roundedMantissa q := by
  obtain ⟨m, round, sticky⟩ := em
  cases round <;> cases sticky
  all_goals
    simp only [Reads, if_true, if_false, Bool.false_eq_true] at h
  · rw [h, add_zero]
    exact IsNearestInt.intCast m
  · refine IsNearestInt.of_abs_lt (n := m) ?_
    rw [Int.cast_natCast, abs_lt]
    constructor <;> linarith
  · show IsNearestInt ((m + m % 2 : Nat) : Int) q
    have heven : Even (m + m % 2) := Nat.even_iff.2 (by omega)
    refine ⟨?_, fun _ => (Int.even_coe_nat _).2 heven⟩
    rw [Int.cast_natCast, h, abs_le]
    rcases Nat.mod_two_eq_zero_or_one m with hm | hm
    · rw [hm]
      constructor <;> push_cast <;> linarith
    · rw [hm]
      constructor <;> push_cast <;> linarith
  · refine IsNearestInt.of_abs_lt (n := (m + 1 : Nat)) ?_
    rw [Int.cast_natCast, Nat.cast_succ, abs_lt]
    constructor <;> linarith

/-- The number `q` has this integer part, exactly or with a fraction behind it. -/
def Describes (m : Nat) : Accuracy → ℚ → Prop
  | .exact, q => q = m
  | .inexact _, q => m < q ∧ q < m + 1

theorem mantissa_ofMantissaAndAccuracy (m : Nat) (acc : Accuracy) :
    (ExtendedMantissa.ofMantissaAndAccuracy m acc).mantissa = m := by
  rcases acc with _ | ⟨_ | _ | _⟩ <;> rfl

/-- The significand of the rounded number. -/
def significand (m : Nat) (acc : Accuracy) (k : Nat) : Nat :=
  (ExtendedMantissa.ofMantissaAndAccuracy m acc >>> k).roundedMantissa

theorem significand_bounds (m : Nat) (acc : Accuracy) (k : Nat) :
    m / 2 ^ k ≤ significand m acc k ∧ significand m acc k ≤ m / 2 ^ k + 1 := by
  have h := roundedMantissa_bounds (ExtendedMantissa.ofMantissaAndAccuracy m acc >>> k)
  rwa [mantissa_shift, mantissa_ofMantissaAndAccuracy] at h

/-- The significand is the integer nearest to the number in units of its last place. -/
theorem nearest_significand
    {m : Nat} {acc : Accuracy} {q : ℚ} (h : Reads (ExtendedMantissa.ofMantissaAndAccuracy m acc) q)
    (k : Nat) : IsNearestInt (significand m acc k) (q / 2 ^ k) :=
  (h.shift k).roundedMantissa

/-- The exponent of the last digit that there is room for. -/
def lastPlace (m : Nat) (e : Int) : Int := max (m.log2 + e - 52) (-1074)

theorem targetExponent_eq (m : Nat) (e : Int) :
    Format.binary64.targetExponent (totalExponent m e) = lastPlace m e := by
  show max ((m.log2 : Int) + 1 + e - ((1 + 52 : Nat) : Int)) _ = _
  rw [lastPlace]
  congr 1
  omega

/-- How many digits are cut off. -/
def excess (m : Nat) (e : Int) : Nat := (lastPlace m e - e).toNat

theorem shiftToTargetExponent_eq (m : Nat) (e : Int) (acc : Accuracy) :
    shiftToTargetExponent Format.binary64 m e acc =
      (ExtendedMantissa.ofMantissaAndAccuracy m acc >>> excess m e, e + excess m e) := by
  rw [shiftToTargetExponent, shiftToExponent, targetExponent_eq]
  rfl

theorem significand_le (m : Nat) (e : Int) (acc : Accuracy) :
    significand m acc (excess m e) ≤ 2 ^ 53 := by
  have hk : m.log2 + 1 ≤ 53 + excess m e := by
    rw [excess, lastPlace]
    omega
  have hlt : m < 2 ^ 53 * 2 ^ excess m e := by
    rw [← Nat.pow_add]
    exact Nat.lt_log2_self.trans_le (Nat.pow_le_pow_right two_pos hk)
  have := (Nat.div_lt_iff_lt_mul (Nat.two_pow_pos _)).2 hlt
  have := (significand_bounds m acc (excess m e)).2
  omega

theorem le_significand {m : Nat} {e : Int} (acc : Accuracy) (he : e ≤ lastPlace m e) :
    2 ^ 52 ≤ significand m acc (excess m e) ∧ m ≠ 0 ∧ e + excess m e = m.log2 + e - 52 ∨
      e + excess m e = -1074 := by
  by_cases hlow : e + excess m e = -1074
  · exact .inr hlow
  · have hk : m.log2 = 52 + excess m e := by
      rw [excess, lastPlace] at *
      omega
    have hm : m ≠ 0 := by
      rintro rfl
      have hzero : Nat.log2 0 = 0 := rfl
      omega
    have hle : 2 ^ 52 * 2 ^ excess m e ≤ m := by
      rw [← Nat.pow_add, ← hk]
      exact Nat.log2_self_le hm
    have hfloor := (Nat.le_div_iff_mul_le (Nat.two_pow_pos _)).2 hle
    exact .inl ⟨hfloor.trans (significand_bounds m acc _).1, hm, by omega⟩

/-- A rounded number of the given significand and exponent. -/
def carried (s : Sign) (M : Nat) (T : Int) : UnpackedFloat :=
  if h : M = 0 then .zero s
  else if M < 2 ^ 53 then .finite s M T (Nat.pos_of_ne_zero h)
  else .finite s (2 ^ 52) (T + 1) (by decide)

theorem shift_of_fits {M : Nat} {T : Int} (hM : M < 2 ^ 53) (hT : -1074 ≤ T) :
    shiftToTargetExponent Format.binary64 M T .exact = (⟨M, false, false⟩, T) := by
  have hlog : M.log2 ≤ 52 := by
    by_cases hzero : M = 0
    · subst hzero
      exact Nat.zero_le _
    · exact Nat.lt_succ_iff.1 ((Nat.log2_lt hzero).2 hM)
  have hk : excess M T = 0 := by
    rw [excess, lastPlace]
    omega
  rw [shiftToTargetExponent_eq, hk, Int.natCast_zero, Int.add_zero]
  rfl

theorem shift_of_carry {T : Int} (hT : -1074 ≤ T) :
    shiftToTargetExponent Format.binary64 (2 ^ 53) T .exact = (⟨2 ^ 52, false, false⟩, T + 1) := by
  have hlog : Nat.log2 (2 ^ 53) = 53 := Nat.log2_two_pow
  have hk : excess (2 ^ 53) T = 1 := by
    rw [excess, lastPlace]
    omega
  rw [shiftToTargetExponent_eq, hk]
  rfl

/-- A number of a significand without further digits and an exponent. -/
def assembled (s : Sign) (p : ExtendedMantissa × Int) : UnpackedFloat :=
  if h : p.1.mantissa = 0 then .zero s else .finite s p.1.mantissa p.2 (Nat.pos_of_ne_zero h)

theorem assembled_shift (s : Sign) {M : Nat} {T : Int} (hM : M ≤ 2 ^ 53) (hT : -1074 ≤ T) :
    assembled s (shiftToTargetExponent Format.binary64 M T .exact) = carried s M T := by
  rcases hM.lt_or_eq with hlt | rfl
  · rw [shift_of_fits hlt hT]
    exact dite_congr rfl (fun _ => rfl) fun _ => (if_pos hlt).symm
  · rw [shift_of_carry hT]
    rfl

/-- Rounding cuts the digits off, and moves on to the next exponent where the last digit that is
left carries over. -/
theorem roundWithAccuracy_eq (s : Sign) (m : Nat) (e : Int) (acc : Accuracy) :
    roundWithAccuracy Format.binary64 s m e acc =
      carried s (significand m acc (excess m e)) (e + excess m e) := by
  have hT : -1074 ≤ e + excess m e := by
    rw [excess, lastPlace]
    omega
  rw [← assembled_shift s (significand_le m e acc) hT, significand]
  show assembled s (shiftToTargetExponent Format.binary64
    (shiftToTargetExponent Format.binary64 m e acc).1.roundedMantissa
    (shiftToTargetExponent Format.binary64 m e acc).2 .exact) = _
  rw [shiftToTargetExponent_eq m e acc]

/-- The place of what is left of a number once it has been packed. -/
def packed? (u : UnpackedFloat) : Option ℚ :=
  place? (unpack Format.binary64 (pack Format.binary64 u))

theorem packed?_of_canonical {u : UnpackedFloat} (h : Canonical u) : packed? u = place? u := by
  rw [packed?, unpack_pack_of_canonical h]

theorem packed?_finite
    {s : Sign} {m : Nat} {e : Int} {hm : 0 < m} (hlt : m < 2 ^ 53) (he : -1074 ≤ e)
    (hform : 2 ^ 52 ≤ m ∨ e = -1074) :
    packed? (.finite s m e hm) = some (signedBy s (min (magnitude m e) horizon)) := by
  by_cases hhigh : e ≤ 971
  · have hcanonical : Canonical (.finite s m e hm) := ⟨hlt, he, hhigh, hform⟩
    rw [packed?_of_canonical hcanonical, place?_finite,
      min_eq_left (magnitude_lt_horizon hcanonical).le]
  · have hle : horizon ≤ magnitude m e := horizon_le_magnitude (k := 52) (by omega) (by omega)
    rw [packed?, unpack_pack_of_large s hm (by omega), place?_infinity, min_eq_right hle]

theorem packed?_carried (s : Sign) {M : Nat} {T : Int} (hM : M ≤ 2 ^ 53) (hT : -1074 ≤ T)
    (hform : 2 ^ 52 ≤ M ∨ T = -1074) :
    packed? (carried s M T) = some (signedBy s (min (magnitude M T) horizon)) := by
  rw [carried]
  by_cases hzero : M = 0
  · have hmin : min (magnitude 0 T) horizon = 0 := by
      rw [magnitude, Nat.cast_zero, zero_mul]
      exact min_eq_left horizon_pos.le
    rw [dif_pos hzero, packed?_of_canonical (by trivial), hzero, hmin, place?_zero, signedBy_zero]
  · rw [dif_neg hzero]
    by_cases hlt : M < 2 ^ 53
    · rw [if_pos hlt]
      exact packed?_finite hlt hT hform
    · obtain rfl : M = 2 ^ 53 := by omega
      have hcarry : magnitude (2 ^ 52) (T + 1) = magnitude (2 ^ 53) T := by
        rw [magnitude, magnitude, zpow_add_one₀ two_ne_zero]
        push_cast
        ring
      rw [if_neg hlt, packed?_finite (by decide) (by omega) (.inl (le_refl _)), hcarry]

theorem Describes.le {m : Nat} {acc : Accuracy} {q : ℚ} (h : Describes m acc q) : m ≤ q := by
  cases acc with
  | exact => exact h.ge
  | inexact o => exact h.1.le

theorem magnitude_nonneg (m : Nat) (e : Int) : 0 ≤ magnitude m e :=
  mul_nonneg (Nat.cast_nonneg m) (zpow_pos two_pos e).le

/-- What is read off a significand lies between it and the next one. -/
theorem Reads.describes
    {m : Nat} {acc : Accuracy} {q : ℚ}
    (h : Reads (ExtendedMantissa.ofMantissaAndAccuracy m acc) q) : Describes m acc q := by
  rcases acc with _ | ⟨_ | _ | _⟩ <;>
    simp only [Reads, ExtendedMantissa.ofMantissaAndAccuracy, if_true, if_false, Bool.false_eq_true]
      at h
  · exact h.trans (add_zero _)
  · exact ⟨by linarith, by linarith⟩
  · exact ⟨by linarith, by linarith⟩
  · exact ⟨by linarith, by linarith⟩

section Scaled

variable {M : Nat} {T : Int} {r v : ℚ}

theorem abs_sub_scaled (r q : ℚ) (T : Int) : |r * 2 ^ T - q * 2 ^ T| = |r - q| * 2 ^ T := by
  rw [← sub_mul, abs_mul, abs_of_pos (zpow_pos (two_pos (α := ℚ)) T)]

theorem onGrid_magnitude (hM : M ≤ 2 ^ 53) (hT : -1074 ≤ T) (hle : magnitude M T ≤ horizon) :
    OnGrid (magnitude M T) := by
  refine ⟨by rwa [abs_of_nonneg (magnitude_nonneg M T)], ?_⟩
  rcases hM.lt_or_eq with hlt | rfl
  · exact ⟨M, T, by rw [Nat.abs_cast]; exact_mod_cast hlt, hT, by rw [magnitude, Int.cast_natCast]⟩
  · refine ⟨2 ^ 52, T + 1, by decide, by omega, ?_⟩
    rw [magnitude, zpow_add_one₀ two_ne_zero]
    push_cast
    ring

/-- The places that are no multiples of the last place are farther away than the nearest one. -/
theorem farther_of_small
    (h : IsNearestInt M r) (hr : 2 ^ 52 ≤ r) (hv : |v| < 2 ^ (52 + T)) :
    |r * 2 ^ T - magnitude M T| < |r * 2 ^ T - v| := by
  have hpos : (0 : ℚ) < 2 ^ T := zpow_pos two_pos T
  have hle : |r - M| ≤ r - 2 ^ 52 := by
    have hnear := h.le ((2 ^ 52 : Nat) : Int)
    rwa [Int.cast_natCast, Int.cast_natCast, Nat.cast_pow, Nat.cast_ofNat,
      abs_of_nonneg (sub_nonneg.2 hr)] at hnear
  have hv' : v < 2 ^ 52 * 2 ^ T := by
    have hlt := (le_abs_self v).trans_lt hv
    rwa [zpow_add₀ two_ne_zero, zpow_ofNat] at hlt
  calc |r * 2 ^ T - magnitude M T| = |r - M| * 2 ^ T := abs_sub_scaled r M T
    _ ≤ (r - 2 ^ 52) * 2 ^ T := mul_le_mul_of_nonneg_right hle hpos.le
    _ < r * 2 ^ T - v := by linarith
    _ ≤ |r * 2 ^ T - v| := le_abs_self _

/-- Up to the horizon the nearest multiple of the last place is the nearest place. -/
theorem nearest_of_le
    (h : IsNearestInt M r) (hM : M ≤ 2 ^ 53) (hT : -1074 ≤ T) (hr : 2 ^ 52 ≤ r ∨ T = -1074)
    (hle : magnitude M T ≤ horizon) : IsNearest (magnitude M T) (r * 2 ^ T) := by
  have hpos : (0 : ℚ) < 2 ^ T := zpow_pos two_pos T
  have hplace {v : ℚ} (hv : OnGrid v) :
      (∃ j : Int, v = j * 2 ^ T) ∨ |r * 2 ^ T - magnitude M T| < |r * 2 ^ T - v| := by
    obtain ⟨-, n, e, hn, he, rfl⟩ := hv
    rcases multiple_or_small hn (e := e) (T := T) with hmultiple | ⟨hlt, hsmall⟩
    · exact .inl hmultiple
    · exact .inr (farther_of_small h (hr.resolve_right (by omega)) hsmall)
  refine ⟨onGrid_magnitude hM hT hle, fun v hv => ?_, fun v hv hne htie => ?_⟩
  · rcases hplace hv with ⟨j, rfl⟩ | hfarther
    · rw [magnitude, abs_sub_scaled, abs_sub_scaled]
      exact mul_le_mul_of_nonneg_right (h.le j) hpos.le
    · exact hfarther.le
  · rcases hplace hv with ⟨j, rfl⟩ | hfarther
    · rw [magnitude, abs_sub_scaled, abs_sub_scaled] at htie
      have hne' : j ≠ M := by
        rintro rfl
        exact hne (by rw [magnitude, Int.cast_natCast])
      obtain ⟨⟨i, hi⟩, hone⟩ := h.of_tie hne' (mul_right_cancel₀ hpos.ne' htie)
      rw [Int.cast_natCast] at hone
      refine ⟨i, ?_⟩
      rw [magnitude, abs_sub_scaled, hone, one_mul, two_mul, ← Int.cast_add, ← hi, Int.cast_natCast]
    · exact absurd htie hfarther.ne'

/-- Beyond the horizon the number is beyond it, too. -/
theorem horizon_le_of_lt
    (h : IsNearestInt M r) (hr : 2 ^ 52 ≤ r ∨ T = -1074) (hlt : horizon < magnitude M T) :
    horizon ≤ r * 2 ^ T := by
  have hpos : (0 : ℚ) < 2 ^ T := zpow_pos two_pos T
  by_cases hT : T ≤ 1024
  · have hexp : (1024 : Int) = (1024 - T).toNat + T := by omega
    have hend : horizon = (2 ^ (1024 - T).toNat : Int) * 2 ^ T := by
      rw [horizon_eq, hexp, zpow_add₀ two_ne_zero, zpow_natCast, ← hexp]
      push_cast
      rfl
    rw [hend] at hlt ⊢
    rw [magnitude, mul_lt_mul_iff_left₀ hpos] at hlt
    generalize (2 ^ (1024 - T).toNat : Int) = H at hlt ⊢
    have hint : H + 1 ≤ M := by exact_mod_cast hlt
    have hcast : (H : ℚ) + 1 ≤ M := by exact_mod_cast hint
    have hnear := (abs_le.1 h.near).1
    push_cast at hnear
    exact mul_le_mul_of_nonneg_right (by linarith) hpos.le
  · have hr' := hr.resolve_right (by omega)
    calc horizon = 2 ^ (1024 : Int) := horizon_eq
      _ ≤ 2 ^ T := two_zpow_le (by omega)
      _ = 1 * 2 ^ T := (one_mul _).symm
      _ ≤ r * 2 ^ T := mul_le_mul_of_nonneg_right (le_trans (by norm_num) hr') hpos.le

/-- The nearest multiple of the last place, cut off at the horizon, is the nearest place. -/
theorem nearest_of_nearestInt
    (h : IsNearestInt M r) (hM : M ≤ 2 ^ 53) (hT : -1074 ≤ T) (hr : 2 ^ 52 ≤ r ∨ T = -1074) :
    IsNearest (min (magnitude M T) horizon) (r * 2 ^ T) := by
  rcases le_or_gt (magnitude M T) horizon with hle | hlt
  · rw [min_eq_left hle]
    exact nearest_of_le h hM hT hr hle
  · rw [min_eq_right hlt.le]
    exact IsNearest.of_beyond (horizon_le_of_lt h hr hlt)

end Scaled

/-- A number that is not subnormal has all its digits before its last place. -/
theorem two_pow_le_of_describes
    {m : Nat} {e : Int} {acc : Accuracy} {q : ℚ} (h : Describes m acc q) (he : e ≤ lastPlace m e) :
    2 ^ 52 ≤ q / 2 ^ excess m e ∨ e + excess m e = -1074 := by
  obtain ⟨-, hm, hT⟩ | hT := le_significand acc he
  · have hlog : m.log2 = 52 + excess m e := by omega
    have hcast : (2 : ℚ) ^ m.log2 ≤ m := by exact_mod_cast Nat.log2_self_le hm
    rw [hlog, pow_add] at hcast
    exact .inl ((le_div_iff₀ (pow_pos two_pos _)).2 (hcast.trans h.le))
  · exact .inr hT

/-- Rounding and packing lead to the nearest place. -/
theorem nearest_roundWithAccuracy
    {m : Nat} {e : Int} {acc : Accuracy} {q : ℚ} (s : Sign)
    (h : Reads (ExtendedMantissa.ofMantissaAndAccuracy m acc) q) (he : e ≤ lastPlace m e) :
    RoundsNearest (packed? (roundWithAccuracy Format.binary64 s m e acc))
      (signedBy s (q * 2 ^ e)) := by
  have hT : -1074 ≤ e + excess m e := by
    rw [excess, lastPlace]
    omega
  have hform := (le_significand acc he).imp_left And.left
  have hscale : q * 2 ^ e = q / 2 ^ excess m e * 2 ^ (e + excess m e) := by
    rw [zpow_add₀ two_ne_zero, zpow_natCast, div_mul_eq_mul_div, ← mul_assoc,
      mul_div_cancel_right₀ _ (pow_ne_zero _ two_ne_zero)]
  rw [roundWithAccuracy_eq, packed?_carried s (significand_le m e acc) hT hform, hscale]
  exact ⟨_, rfl, (nearest_of_nearestInt (nearest_significand h _) (significand_le m e acc) hT
    (two_pow_le_of_describes h.describes he)).signedBy s⟩

end FloatParts

end Allotment
