import Allotment.Proofs.Quantity
import Mathlib.Data.Rat.Floor

/-!
# Rounding to integers

The nearest integer of a floating-point number is computed from its parts, exactly, and an integer
of the signed range is its own nearest one.  What lies beyond the signed range goes to the nearer
end of it, which is not the nearest integer.

**Results.**
* `Binary64.nearest_roundEven`: the integer computed from the parts is the nearest one.
* `Unary.round_nearest_iff`: when a number is rounded to the nearest integer.
-/

namespace Allotment

open FloatParts

namespace Binary64

/-- The number of units of the last place that make one. -/
def unit (b : Binary64) : Nat := 2 ^ (-b.q).toNat

theorem unit_pos (b : Binary64) : 0 < b.unit := Nat.two_pow_pos _

theorem value_eq_div {b : Binary64} (hq : b.q < 0) : b.value = (b.signed : ℚ) / b.unit := by
  rw [value_of_neg hq, unit]
  push_cast
  rfl

theorem floor_eq (b : Binary64) : b.floor = ⌊b.value⌋ := by
  rw [floor]
  by_cases hq : 0 ≤ b.q
  · rw [if_pos hq, value_of_nonneg hq, Int.floor_intCast]
    rfl
  · rw [if_neg hq, value_eq_div (not_le.1 hq), Rat.floor_intCast_div_natCast]
    exact Int.fdiv_eq_ediv_of_nonneg _ (Int.natCast_nonneg _)

/-- A value between two integers, by twice its distance from the lower one. -/
theorem nearest_of_twice {n t u : Int} (hu : 0 < u) (hlow : 0 ≤ t) (hhigh : t < 2 * u) :
    IsNearestInt (if t < u then n else if u < t then n + 1 else if n % 2 = 0 then n else n + 1)
      (n + t / (2 * u) : ℚ) := by
  have hpos : (0 : ℚ) < 2 * u := by exact_mod_cast Int.mul_pos two_pos hu
  have hnonneg : (0 : ℚ) ≤ t / (2 * u) := div_nonneg (by exact_mod_cast hlow) hpos.le
  have hone : (t : ℚ) / (2 * u) < 1 := (div_lt_one₀ hpos).2 (by exact_mod_cast hhigh)
  rcases lt_trichotomy t u with hlt | rfl | hgt
  · have hhalf : (t : ℚ) / (2 * u) < 1 / 2 := by
      rw [div_lt_div_iff₀ hpos two_pos]
      exact_mod_cast by omega
    rw [if_pos hlt]
    refine IsNearestInt.of_abs_lt ?_
    rwa [add_sub_cancel_left, abs_of_nonneg hnonneg]
  · have hhalf : (t : ℚ) / (2 * t) = 1 / 2 := by
      rw [div_eq_div_iff hpos.ne' two_ne_zero]
      ring
    rw [if_neg (lt_irrefl t), if_neg (lt_irrefl t), hhalf]
    by_cases heven : n % 2 = 0
    · rw [if_pos heven]
      refine ⟨?_, fun _ => Int.even_iff.2 heven⟩
      rw [add_sub_cancel_left, abs_of_pos (half_pos one_pos)]
    · rw [if_neg heven]
      refine ⟨?_, fun _ => Int.even_iff.2 (by omega)⟩
      rw [abs_le]
      push_cast
      constructor <;> linarith
  · have hhalf : 1 / 2 < (t : ℚ) / (2 * u) := by
      rw [div_lt_div_iff₀ two_pos hpos]
      exact_mod_cast by omega
    rw [if_neg hgt.not_gt, if_pos hgt]
    refine IsNearestInt.of_abs_lt ?_
    rw [abs_lt]
    push_cast
    constructor <;> linarith

/-- The integer computed from the parts is the nearest one. -/
theorem nearest_roundEven (b : Binary64) : IsNearestInt b.roundEven b.value := by
  rw [roundEven]
  by_cases hq : 0 ≤ b.q
  · rw [if_pos hq, value_of_nonneg hq]
    exact IsNearestInt.intCast (b.signed * 2 ^ b.q.toNat)
  · have hunit : (0 : Int) < b.unit := by exact_mod_cast b.unit_pos
    have hcast : ((b.unit : Int) : ℚ) ≠ 0 := by exact_mod_cast hunit.ne'
    have hvalue : b.value = (b.signed : ℚ) / (b.unit : Int) := value_eq_div (not_le.1 hq)
    have hrest : b.signed - b.floor * b.unit = b.signed % b.unit := by
      rw [floor_eq, value_eq_div (not_le.1 hq), Rat.floor_intCast_div_natCast, mul_comm]
      have := Int.mul_ediv_add_emod b.signed b.unit
      omega
    have hsplit : b.value =
        b.floor + ((2 * (b.signed - b.floor * b.unit) : Int) : ℚ) / (2 * (b.unit : Int)) := by
      rw [hvalue, Int.cast_mul, Int.cast_ofNat, mul_div_mul_left _ _ two_ne_zero, Int.cast_sub,
        Int.cast_mul, sub_div, mul_div_cancel_right₀ _ hcast, add_sub_cancel]
    have hlow := Int.emod_nonneg b.signed hunit.ne'
    have hhigh := Int.emod_lt_of_pos b.signed hunit
    rw [if_neg hq, hsplit]
    exact nearest_of_twice (t := 2 * (b.signed - b.floor * b.unit)) (u := b.unit) hunit (by omega)
      (by omega)

end Binary64

/-- The quantity lies in the signed range. -/
def InSignedRange (q : ℚ) : Prop := -0x8000000000000000 ≤ q ∧ q < 0x8000000000000000

section Ends

variable {a : ℚ} {k : Int}

theorem not_between (ha : OnGrid a) (hk : IsNearestInt k a) (hlt : a < 0x8000000000000000) :
    k < 0x8000000000000000 := by
  by_contra hge
  have hcast : (0x8000000000000000 : ℚ) ≤ k := by exact_mod_cast not_lt.1 hge
  have hnear := abs_le.1 hk.near
  obtain ⟨j, rfl⟩ := exists_int_of_onGrid ha (by linarith)
  obtain rfl := (IsNearestInt.intCast j).unique hk
  exact hge (by exact_mod_cast hlt)

theorem neg_le_of_near (ha : OnGrid a) (hlow : -0x8000000000000000 - 1 / 2 ≤ a) :
    -0x8000000000000000 ≤ a := by
  by_contra hlt
  obtain ⟨j, hj⟩ := exists_int_of_onGrid ha.neg (by linarith)
  have hgt : (0x8000000000000000 : ℚ) < j := by linarith
  have hint : (0x8000000000000000 : Int) + 1 ≤ j := by exact_mod_cast hgt
  have hcast : (0x8000000000000000 : ℚ) + 1 ≤ j := by exact_mod_cast hint
  linarith

/-- The nearest integer is kept exactly if the place is in the signed range. -/
theorem nearest_clamp_iff (ha : OnGrid a) (hk : IsNearestInt k a) :
    IsNearestInt (Signed.clamp k).val a ↔ InSignedRange a := by
  have hclamp : (Signed.clamp k).val = max (-0x8000000000000000) (min k 0x7FFFFFFFFFFFFFFF) := rfl
  constructor
  · intro h
    obtain ⟨hlow, hhigh⟩ := abs_le.1 h.near
    have hend : ((Signed.clamp k).val : ℚ) ≤ 0x7FFFFFFFFFFFFFFF := by
      exact_mod_cast Int.le_of_lt_add_one (Signed.clamp k).lt_hi
    have hend' : (-0x8000000000000000 : ℚ) ≤ (Signed.clamp k).val := by
      exact_mod_cast (Signed.clamp k).lo_le
    exact ⟨neg_le_of_near ha (by linarith), by linarith⟩
  · rintro ⟨hlow, hhigh⟩
    have hlt := not_between ha hk hhigh
    have hgt : (-0x8000000000000000 - 1 : ℚ) < k := by linarith [(abs_le.1 hk.near).2]
    have hgt' : (-0x8000000000000000 - 1 : Int) < k := by exact_mod_cast hgt
    have hkept : (Signed.clamp k).val = k := by omega
    rwa [hkept]

end Ends

namespace Operand

theorem round_float {x : Float} (hx : Binary64.IsFinite x) :
    (Operand.float x).round = .ok (Signed.clamp (Binary64.ofFloat x).roundEven) := by
  rw [round, if_pos hx]

/-- An unsigned integer beyond the signed range goes to the end of it. -/
theorem round_of_large {n : Int} (hn : 0x8000000000000000 ≤ n) (hn' : |n| ≤ 2 ^ 64) :
    ∃ r : Signed, (Operand.float (Float.ofInt n)).round = .ok r ∧ r.val = 0x7FFFFFFFFFFFFFFF := by
  obtain ⟨hfinite, hle⟩ := ofInt_of_large hn hn'
  refine ⟨_, round_float hfinite, ?_⟩
  have hnear := (abs_le.1 (Binary64.nearest_roundEven (Binary64.ofFloat (Float.ofInt n))).near).2
  generalize (Binary64.ofFloat (Float.ofInt n)).roundEven = k at hnear ⊢
  have hcast : (0x8000000000000000 - 1 : ℚ) < k := by linarith
  have hint : (0x8000000000000000 - 1 : Int) < k := by exact_mod_cast hcast
  show max _ (min k _) = _
  omega

end Operand

/-- The nearest integer of a number, or the end of the signed range that it goes to instead. -/
theorem exists_round (n : Json.Number) :
    ∃ r : Signed, (Operand.ofNumber n).round = .ok r ∧
      (IsNearestInt r.val n.quantity ↔ InSignedRange n.quantity) := by
  cases n with
  | int k =>
      rw [Json.Number.quantity, Operand.ofNumber]
      cases h : Bounded.ofInt? (-0x8000000000000000) 0x8000000000000000 k.val with
      | some s =>
          obtain hs := Bounded.ofInt?_eq_some_iff.1 h
          have hlow : (-0x8000000000000000 : ℚ) ≤ s.val := by exact_mod_cast s.lo_le
          have hhigh : (s.val : ℚ) < 0x8000000000000000 := by exact_mod_cast s.lt_hi
          rw [← hs]
          exact ⟨s, rfl, iff_of_true (IsNearestInt.intCast _) ⟨hlow, hhigh⟩⟩
      | none =>
          have hlarge : 0x8000000000000000 ≤ k.val :=
            (Bounded.ofInt?_eq_none_iff.1 h).resolve_left (not_lt.2 k.lo_le)
          obtain ⟨r, hr, hend⟩ := Operand.round_of_large hlarge (Json.abs_val_le k)
          refine ⟨r, hr, iff_of_false (fun hnear => ?_) fun hrange => ?_⟩
          · have := (IsNearestInt.intCast k.val).unique hnear
            omega
          · exact absurd hrange.2 (not_lt.2 (by exact_mod_cast hlarge))
  | real x =>
      exact ⟨_, Operand.round_float x.finite,
        nearest_clamp_iff (onGrid_value x.finite) (Binary64.nearest_roundEven _)⟩

theorem Unary.apply_round {v : Json} {n : Operand} {r : Signed}
    (hv : Operand.ofJson v = .ok n) (hr : n.round = .ok r) :
    Unary.round.apply v = .ok (.ofSigned r) := by
  simp only [apply, hv, hr, Except.map]

theorem ofSigned_eq_iff {n : Signed} {k : Whole} :
    Json.ofSigned n = .number (.int k) ↔ n.val = k.val := by
  constructor
  · intro h
    cases h
    rfl
  · intro h
    obtain ⟨m, hlow, hhigh⟩ := k
    cases h
    rfl

/-- A number is rounded to the nearest integer, of two equally near ones to the even one, exactly
if it is in the signed range; so an integer is left as it is exactly if it is there.  What is
rounded is not changed by rounding it again. -/
theorem Unary.round_nearest_iff (n : Json.Number) :
    ∃ r : Signed, Unary.round.apply (.number n) = .ok (.ofSigned r) ∧
      (IsNearestInt r.val n.quantity ↔ InSignedRange n.quantity) ∧
      (∀ k, n = .int k → (Json.ofSigned r = .number n ↔ k.val < 0x8000000000000000)) ∧
      Unary.round.apply (.ofSigned r) = .ok (.ofSigned r) := by
  obtain ⟨r, hr, hnear⟩ := exists_round n
  refine ⟨r, apply_round rfl hr, hnear, ?_, apply_round (Operand.ofJson_ofSigned r) rfl⟩
  rintro k rfl
  have hlow : (-0x8000000000000000 : ℚ) ≤ k.val := by exact_mod_cast k.lo_le
  have hrange : InSignedRange (Json.Number.int k).quantity ↔ k.val < 0x8000000000000000 := by
    rw [Json.Number.quantity, InSignedRange, and_iff_right hlow]
    exact_mod_cast Iff.rfl
  rw [← hrange, ← hnear, ofSigned_eq_iff, Json.Number.quantity]
  constructor
  · intro h
    rw [h]
    exact IsNearestInt.intCast k.val
  · intro h
    exact h.unique (IsNearestInt.intCast k.val)

/-- An unsigned integer beyond the signed range is rounded to another one. -/
theorem Unary.large_integer_moved :
    ¬ ∀ (n : Json.Number) (r : Signed), Unary.round.apply (.number n) = .ok (.ofSigned r) →
      IsNearestInt r.val n.quantity := by
  intro hall
  obtain ⟨r, hr, hnear⟩ := exists_round (.int ⟨10000000000000000000, by decide, by decide⟩)
  have hrange := hnear.1 (hall _ r (apply_round rfl hr))
  exact absurd hrange.2 (by rw [Json.Number.quantity]; norm_num)

end Allotment
