import Allotment.Proofs.Float.Place
import Mathlib.Algebra.Ring.Int.Parity
import Mathlib.Tactic.NormNum
import Mathlib.Tactic.Ring

/-!
# Nearest numbers

A number is rounded to the nearest integer, or to the nearest place where a floating-point number
can stand, and of two equally near ones to the even one.  Such a neighbour is unique, rounding keeps
the order, and what is rounded to the end of the numbers is at least half a step away from the
greatest one.

**Results.**
* `IsNearestInt.unique`, `FloatParts.IsNearest.unique`: there is only one nearest number.
* `FloatParts.IsNearest.mono`: rounding keeps the order.
* `FloatParts.IsNearest.fits_iff`: what is rounded to a finite number.
-/

namespace Allotment

/-- The integer is the nearest one, and even if another one is as near. -/
structure IsNearestInt (n : Int) (q : ℚ) : Prop where
  near : |q - n| ≤ 1 / 2
  even : |q - n| = 1 / 2 → Even n

namespace IsNearestInt

variable {m n : Int} {q : ℚ}

theorem of_abs_lt (h : |q - n| < 1 / 2) : IsNearestInt n q := ⟨h.le, fun htie => absurd htie h.ne⟩

theorem intCast (n : Int) : IsNearestInt n n :=
  of_abs_lt (by rw [sub_self, abs_zero]; norm_num)

/-- Another integer is at least one away, so it is not nearer. -/
theorem one_le (h : m ≠ n) (q : ℚ) : 1 ≤ |q - m| + |q - n| := by
  have hint : 1 ≤ |m - n| := Int.one_le_abs (sub_ne_zero.2 h)
  have hcast : (1 : ℚ) ≤ |(m : ℚ) - n| := by exact_mod_cast hint
  calc (1 : ℚ) ≤ |(m : ℚ) - n| := hcast
    _ ≤ |(m : ℚ) - q| + |q - n| := abs_sub_le _ _ _
    _ = |q - m| + |q - n| := by rw [abs_sub_comm (m : ℚ)]

theorem le (h : IsNearestInt n q) (m : Int) : |q - n| ≤ |q - m| := by
  by_cases heq : m = n
  · rw [heq]
  · have := one_le heq q
    have := h.near
    linarith

/-- An integer that is as near as the nearest one is next to it. -/
theorem of_tie (h : IsNearestInt n q) (hne : m ≠ n) (htie : |q - m| = |q - n|) :
    Even n ∧ |(m : ℚ) - n| = 1 := by
  have hone := one_le hne q
  have hhalf : |q - n| = 1 / 2 := le_antisymm h.near (by linarith)
  refine ⟨h.even hhalf, le_antisymm ?_ ?_⟩
  · calc |(m : ℚ) - n| ≤ |(m : ℚ) - q| + |q - n| := abs_sub_le _ _ _
      _ = 1 := by rw [abs_sub_comm (m : ℚ), htie, hhalf]; norm_num
  · exact_mod_cast Int.one_le_abs (sub_ne_zero.2 hne)

theorem unique (hm : IsNearestInt m q) (hn : IsNearestInt n q) : m = n := by
  by_contra hne
  have htie : |q - m| = |q - n| := le_antisymm (hm.le n) (hn.le m)
  obtain ⟨heven, hone⟩ := hn.of_tie hne htie
  obtain ⟨heven', -⟩ := hm.of_tie (Ne.symm hne) htie.symm
  have hone' : |m - n| = 1 := by exact_mod_cast hone
  have hdiff : Even (m - n) := heven'.sub heven
  rw [← even_abs, hone'] at hdiff
  exact absurd hdiff (by decide)

end IsNearestInt

namespace FloatParts

open Float.Model (UnpackedFloat Format)
open Float.Model.UnpackedFloat

/-- The rational numbers where floating-point numbers can stand. -/
def OnGrid (v : ℚ) : Prop :=
  |v| ≤ horizon ∧ ∃ n e : Int, |n| < 2 ^ 53 ∧ -1074 ≤ e ∧ v = n * 2 ^ e

/-- The place is next to the number, or is the number itself: nothing on the grid lies between. -/
def RoundsTo (p : Option ℚ) (q : ℚ) : Prop :=
  ∃ a ∈ p, ∀ v, OnGrid v → (v ≤ q → v ≤ a) ∧ (q ≤ v → a ≤ v)

theorem OnGrid.neg {v : ℚ} (h : OnGrid v) : OnGrid (-v) := by
  obtain ⟨hle, n, e, hn, he, rfl⟩ := h
  exact ⟨by rwa [abs_neg], -n, e, by rwa [abs_neg], he, by rw [Int.cast_neg, neg_mul]⟩

theorem OnGrid.signedBy {v : ℚ} (h : OnGrid v) (s : Sign) : OnGrid (signedBy s v) := by
  cases s with
  | negative => exact h.neg
  | positive => exact h

theorem onGrid_zero : OnGrid 0 :=
  ⟨by rw [abs_zero]; exact horizon_pos.le, 0, 0, by decide, by decide, by simp⟩

theorem onGrid_two_zpow {e : Int} (hlow : -1074 ≤ e) (hhigh : e ≤ 1024) : OnGrid (2 ^ e) := by
  refine ⟨?_, 1, e, by decide, hlow, by rw [Int.cast_one, one_mul]⟩
  rw [abs_of_pos (zpow_pos two_pos e), horizon_eq]
  exact two_zpow_le hhigh

theorem onGrid_one : OnGrid 1 := by
  rw [← zpow_zero (2 : ℚ)]
  exact onGrid_two_zpow (by decide) (by decide)

theorem onGrid_horizon : OnGrid horizon := by
  rw [horizon_eq]
  exact onGrid_two_zpow (by decide) (by decide)

theorem onGrid_of_place? {u : UnpackedFloat} (hu : Canonical u) {v : ℚ} (hv : place? u = some v) :
    OnGrid v := by
  cases u with
  | notANumber => cases hv
  | infinity s =>
      cases hv
      exact onGrid_horizon.signedBy s
  | zero s =>
      cases hv
      exact onGrid_zero
  | finite s m e hm =>
      cases hv
      have hmagnitude : OnGrid (magnitude m e) := by
        refine ⟨?_, m, e, ?_, hu.2.1, by rw [magnitude, Int.cast_natCast]⟩
        · rw [abs_of_pos (magnitude_pos hm e)]
          exact (magnitude_lt_horizon hu).le
        · rw [Nat.abs_cast]
          exact_mod_cast hu.1
      exact hmagnitude.signedBy s

/-- A number of the grid is either a multiple of the last place, or too small to matter. -/
theorem multiple_or_small {n e T : Int} (hn : |n| < 2 ^ 53) :
    (∃ j : Int, (n : ℚ) * 2 ^ e = j * 2 ^ T) ∨ (e < T ∧ |(n : ℚ) * 2 ^ e| < 2 ^ (52 + T)) := by
  by_cases he : T ≤ e
  · refine .inl ⟨n * 2 ^ (e - T).toNat, ?_⟩
    have : e = (e - T).toNat + T := by omega
    rw [Int.cast_mul, Int.cast_pow, Int.cast_ofNat, mul_assoc]
    rw [← zpow_natCast, ← zpow_add₀ two_ne_zero, ← this]
  · refine .inr ⟨by omega, ?_⟩
    have hcast : |(n : ℚ)| < 2 ^ 53 := by exact_mod_cast hn
    rw [abs_mul, abs_of_pos (zpow_pos two_pos e : (0 : ℚ) < 2 ^ e)]
    calc |(n : ℚ)| * 2 ^ e < 2 ^ 53 * 2 ^ e := mul_lt_mul_of_pos_right hcast (zpow_pos two_pos e)
      _ = 2 ^ (53 + e) := by rw [zpow_add₀ two_ne_zero]; rfl
      _ ≤ 2 ^ (52 + T) := two_zpow_le (by omega)

/-- The distance of the last places from one another. -/
def lastStep : ℚ := 2 ^ (971 : Int)

/-- The greatest place of a finite number. -/
def last : ℚ := horizon - lastStep

theorem lastStep_pos : 0 < lastStep := zpow_pos two_pos _

theorem horizon_eq_mul : horizon = 2 ^ 53 * lastStep := by
  rw [horizon_eq, show (1024 : Int) = (53 : Nat) + 971 from rfl, zpow_add₀ two_ne_zero,
    zpow_natCast, lastStep]

theorem last_eq : last = (2 ^ 53 - 1) * lastStep := by
  rw [last, horizon_eq_mul, sub_one_mul]

theorem last_lt_horizon : last < horizon := sub_lt_self _ lastStep_pos

theorem onGrid_last : OnGrid last := by
  have hlast : 0 ≤ last := by
    rw [last_eq]
    exact mul_nonneg (by norm_num) lastStep_pos.le
  refine ⟨?_, 2 ^ 53 - 1, 971, by decide, by decide, ?_⟩
  · rw [abs_of_nonneg hlast]
    exact last_lt_horizon.le
  · have hcast : ((2 ^ 53 - 1 : Int) : ℚ) = 2 ^ 53 - 1 := by norm_num
    rw [last_eq, lastStep, hcast]

theorem OnGrid.le_last {v : ℚ} (h : OnGrid v) (hlt : v < horizon) : v ≤ last := by
  obtain ⟨-, n, e, hn, -, rfl⟩ := h
  rcases multiple_or_small hn (e := e) (T := 971) with ⟨j, hj⟩ | ⟨-, hsmall⟩
  · rw [← lastStep] at hj
    rw [hj] at hlt ⊢
    rw [horizon_eq_mul, mul_lt_mul_iff_left₀ lastStep_pos] at hlt
    rw [last_eq, mul_le_mul_iff_left₀ lastStep_pos]
    have hj' : j < 2 ^ 53 := by exact_mod_cast hlt
    exact_mod_cast Int.le_sub_one_of_lt hj'
  · have hbound : (2 : ℚ) ^ (52 + 971 : Int) ≤ last := by
      rw [zpow_add₀ two_ne_zero, last_eq, ← lastStep, mul_le_mul_iff_left₀ lastStep_pos]
      norm_num
    exact ((le_abs_self _).trans_lt hsmall).le.trans hbound

theorem above_middle_iff {a b q : ℚ} (hlt : b < a) : |q - a| ≤ |q - b| ↔ a + b ≤ 2 * q := by
  rw [← sq_le_sq]
  constructor
  · intro h
    nlinarith
  · intro h
    nlinarith

theorem below_middle_iff {a b q : ℚ} (hlt : b < a) : |q - b| ≤ |q - a| ↔ 2 * q ≤ a + b := by
  rw [← sq_le_sq]
  constructor
  · intro h
    nlinarith
  · intro h
    nlinarith

/-- The number is rounded to a finite one: it is less than half a step beyond the last place. -/
def Fits (q : ℚ) : Prop := |q| < 2 ^ 1024 - 2 ^ 970

/-- The place is the nearest one, and an even multiple of its distance to any other place that is
as near. -/
structure IsNearest (a q : ℚ) : Prop where
  onGrid : OnGrid a
  near : ∀ v, OnGrid v → |q - a| ≤ |q - v|
  even : ∀ v, OnGrid v → v ≠ a → |q - v| = |q - a| → ∃ n : Int, a = 2 * n * |v - a|

namespace IsNearest

variable {a b p q : ℚ}

theorem self (h : OnGrid a) : IsNearest a a := by
  refine ⟨h, fun v _ => ?_, fun v _ hne htie => ?_⟩
  · rw [sub_self, abs_zero]
    exact abs_nonneg _
  · rw [sub_self, abs_zero, abs_eq_zero, sub_eq_zero] at htie
    exact absurd htie.symm hne

/-- Beyond the end nothing is nearer than the end. -/
theorem of_beyond (h : horizon ≤ q) : IsNearest horizon q := by
  have hle {v : ℚ} (hv : OnGrid v) : v ≤ horizon := (le_abs_self v).trans hv.1
  refine ⟨onGrid_horizon, fun v hv => ?_, fun v hv hne htie => ?_⟩
  · have := hle hv
    rw [abs_of_nonneg (sub_nonneg.2 h), abs_of_nonneg (by linarith)]
    linarith
  · have := hle hv
    rw [abs_of_nonneg (sub_nonneg.2 h), abs_of_nonneg (by linarith)] at htie
    exact absurd (by linarith) hne

theorem neg (h : IsNearest a q) : IsNearest (-a) (-q) := by
  have hdist (v : ℚ) : |-q - v| = |q - -v| := by
    rw [← abs_neg]
    congr 1
    ring
  have hself : |-q - -a| = |q - a| := by rw [hdist, neg_neg]
  refine ⟨h.onGrid.neg, fun v hv => ?_, fun v hv hne htie => ?_⟩
  · rw [hself, hdist]
    exact h.near _ hv.neg
  · rw [hself, hdist] at htie
    obtain ⟨n, hn⟩ := h.even _ hv.neg (fun heq => hne (by rw [← heq, neg_neg])) htie
    have hgap : |v - -a| = |-v - a| := by
      rw [← abs_neg]
      congr 1
      ring
    exact ⟨-n, by rw [hgap, Int.cast_neg, mul_neg, neg_mul, ← hn]⟩

theorem signedBy (h : IsNearest a q) (s : Sign) : IsNearest (signedBy s a) (signedBy s q) := by
  cases s with
  | negative => exact h.neg
  | positive => exact h

/-- Nothing on the grid lies between a number and the place nearest to it. -/
theorem between (h : IsNearest a q) (v : ℚ) (hv : OnGrid v) :
    (v ≤ q → v ≤ a) ∧ (q ≤ v → a ≤ v) := by
  refine ⟨fun hle => ?_, fun hle => ?_⟩
  · by_contra hlt
    have hnear := h.near v hv
    rw [abs_of_nonneg (by linarith), abs_of_nonneg (by linarith)] at hnear
    linarith
  · by_contra hlt
    have hnear := h.near v hv
    rw [abs_of_nonpos (by linarith), abs_of_nonpos (by linarith)] at hnear
    linarith

theorem unique (ha : IsNearest a q) (hb : IsNearest b q) : a = b := by
  by_contra hne
  have htie : |q - a| = |q - b| := le_antisymm (ha.near b hb.onGrid) (hb.near a ha.onGrid)
  obtain ⟨n, hn⟩ := ha.even b hb.onGrid (Ne.symm hne) htie.symm
  obtain ⟨n', hn'⟩ := hb.even a ha.onGrid hne htie
  have hgap : (0 : ℚ) < |a - b| := abs_pos.2 (sub_ne_zero.2 hne)
  rw [abs_sub_comm] at hn
  have hdiff : |a - b| = |2 * (n - n' : ℚ)| * |a - b| := by
    rw [← abs_abs (a - b), ← abs_mul, abs_abs]
    congr 1
    linarith
  have hone : |2 * (n - n' : ℚ)| = 1 :=
    (mul_eq_right₀ hgap.ne').1 hdiff.symm
  have hint : |2 * (n - n')| = 1 := by exact_mod_cast hone
  rcases (abs_eq zero_le_one).1 hint with h | h <;> omega

/-- Rounding keeps the order. -/
theorem mono (ha : IsNearest a p) (hb : IsNearest b q) (hle : p ≤ q) : a ≤ b := by
  rcases hle.lt_or_eq with hlt | rfl
  · by_contra hgt
    -- Then p is not below the middle of the two places, and q is not above it.
    have hp := (above_middle_iff (not_le.1 hgt)).1 (ha.near b hb.onGrid)
    have hq := (below_middle_iff (not_le.1 hgt)).1 (hb.near a ha.onGrid)
    linarith
  · exact (ha.unique hb).le

/-- Rounding does not go beyond a power of two. -/
theorem abs_le_two_zpow {k : Int} (h : IsNearest a q) (hlow : -1074 ≤ k) (hhigh : k ≤ 1024)
    (hq : |q| ≤ 2 ^ k) : |a| ≤ 2 ^ k := by
  have hend : OnGrid (2 ^ k) := onGrid_two_zpow hlow hhigh
  obtain ⟨hle, hge⟩ := abs_le.1 hq
  exact abs_le.2 ⟨(self hend.neg).mono h hle, h.mono (self hend) hge⟩

/-- What is at least half a step beyond the greatest finite place is rounded to the end. -/
theorem lt_horizon_iff (h : IsNearest a q) : a < horizon ↔ 2 * q < horizon + last := by
  constructor
  · intro hlt
    have hle := h.onGrid.le_last hlt
    have hmiddle := (below_middle_iff hlt).1 (h.near _ onGrid_horizon)
    refine lt_of_le_of_ne (hmiddle.trans (by linarith)) fun hq => ?_
    -- In the middle the place would have to be even, but the last one is odd.
    obtain rfl : a = last := le_antisymm hle (by linarith)
    have htie : |q - horizon| = |q - last| :=
      le_antisymm ((above_middle_iff hlt).2 hq.ge) (h.near _ onGrid_horizon)
    obtain ⟨n, hn⟩ := h.even _ onGrid_horizon hlt.ne' htie
    rw [abs_of_pos (sub_pos.2 hlt), last, sub_sub_cancel, ← last, last_eq] at hn
    have hodd : (2 ^ 53 - 1 : ℚ) = 2 * n := mul_right_cancel₀ lastStep_pos.ne' hn
    have hodd' : (2 ^ 53 - 1 : Int) = 2 * n := by exact_mod_cast hodd
    omega
  · intro hlt
    by_contra hge
    obtain rfl : a = horizon := le_antisymm ((le_abs_self a).trans h.onGrid.1) (not_lt.1 hge)
    have hmiddle := (above_middle_iff last_lt_horizon).1 (h.near _ onGrid_last)
    linarith

/-- What is rounded to a finite number. -/
theorem fits_iff (h : IsNearest a q) : |a| < horizon ↔ Fits q := by
  have hstep : lastStep = 2 * 2 ^ 970 := (zpow_ofNat 2 971).trans (pow_succ' 2 970)
  have hhorizon : horizon = 2 ^ 1024 := horizon_eq.trans (zpow_ofNat 2 1024)
  have hbrink : horizon + last = 2 * (2 ^ 1024 - 2 ^ 970) := by
    rw [last, hstep, hhorizon, ← add_sub_assoc, ← two_mul, ← mul_sub]
  rw [Fits, abs_lt, abs_lt, h.lt_horizon_iff, ← neg_lt, h.neg.lt_horizon_iff, hbrink]
  generalize (2 ^ 1024 - 2 ^ 970 : ℚ) = brink
  constructor
  · rintro ⟨hlow, hhigh⟩
    constructor <;> linarith
  · rintro ⟨hlow, hhigh⟩
    constructor <;> linarith

end IsNearest

/-- The place is the one that the number is rounded to. -/
def RoundsNearest (p : Option ℚ) (q : ℚ) : Prop := ∃ a ∈ p, IsNearest a q

namespace RoundsNearest

variable {p : Option ℚ} {q : ℚ}

theorem roundsTo (h : RoundsNearest p q) : RoundsTo p q := by
  obtain ⟨a, ha, hnearest⟩ := h
  exact ⟨a, ha, hnearest.between⟩

theorem neg (h : RoundsNearest p q) : RoundsNearest (p.map (-·)) (-q) := by
  obtain ⟨a, rfl, hnear⟩ := h
  exact ⟨-a, rfl, hnear.neg⟩

end RoundsNearest

end FloatParts

end Allotment
