import Allotment.Operation
import Allotment.Proofs.Float.Limits

/-!
# The quantities of operands

A JSON number stands for a rational quantity, and the operators compute with an operand that is
made of it.  As a floating-point number the operand compares with small integers as the quantity
does.  As an integer it is the quantity itself, if that is an integer of the signed range, and the
nearer end of the range if it is another integer.

**Results.**
* `Json.near_of_quantity?`: a number in floating point.
* `Json.asInteger_eq_ok_iff`: a number as an integer.
-/

namespace Allotment

open FloatParts

namespace Binary64

theorem value_of_nonneg {b : Binary64} (hq : 0 ≤ b.q) :
    b.value = ((b.signed * 2 ^ b.q.toNat : Int) : ℚ) := by
  obtain ⟨n, hn⟩ := Int.eq_ofNat_of_zero_le hq
  rw [value, hn, Int.toNat_natCast, zpow_natCast]
  push_cast
  rfl

theorem value_of_neg {b : Binary64} (hq : b.q < 0) :
    b.value = (b.signed : ℚ) / (2 ^ (-b.q).toNat : Int) := by
  obtain ⟨n, hn⟩ := Int.eq_ofNat_of_zero_le (neg_nonneg.2 hq.le)
  have hq' : b.q = -n := by omega
  rw [value, hn, hq', Int.toNat_natCast, zpow_neg, zpow_natCast, ← div_eq_mul_inv]
  push_cast
  rfl

theorem dvd_signed_iff (b : Binary64) (n : Nat) : (n : Int) ∣ b.signed ↔ b.m % n = 0 := by
  rw [← Nat.dvd_iff_mod_eq_zero, ← Int.natCast_dvd_natCast, signed]
  split
  · exact Int.dvd_neg
  · exact Iff.rfl

theorem signed_eq_of_value {b : Binary64} (hq : b.q < 0) {k : Int} :
    b.value = k ↔ b.signed = k * 2 ^ (-b.q).toNat := by
  have hpow : ((2 ^ (-b.q).toNat : Int) : ℚ) ≠ 0 := by positivity
  rw [value_of_neg hq, div_eq_iff hpow]
  exact_mod_cast Iff.rfl

/-- The value is integral exactly if it has no fraction. -/
theorem isIntegral_iff {b : Binary64} : b.isIntegral = true ↔ ∃ k : Int, b.value = k := by
  rw [isIntegral, Bool.or_eq_true, decide_eq_true_iff, beq_iff_eq]
  by_cases hq : 0 ≤ b.q
  · exact iff_of_true (.inl hq) ⟨_, value_of_nonneg hq⟩
  · have hneg : b.q < 0 := not_le.1 hq
    have hdvd : ((2 ^ (-b.q).toNat : Nat) : Int) ∣ b.signed ↔ ∃ k : Int, b.value = k := by
      rw [dvd_def]
      refine exists_congr fun k => ?_
      rw [signed_eq_of_value hneg, mul_comm k]
      push_cast
      exact Iff.rfl
    rw [← hdvd, dvd_signed_iff]
    exact or_iff_right hq

/-- Truncation leaves an integer as it is. -/
theorem truncate_eq {b : Binary64} {k : Int} (h : b.value = k) : b.truncate = k := by
  rw [truncate]
  by_cases hq : 0 ≤ b.q
  · rw [if_pos hq]
    rw [value_of_nonneg hq] at h
    exact_mod_cast h
  · have hneg : b.q < 0 := not_le.1 hq
    have hpow : (2 ^ (-b.q).toNat : Int) ≠ 0 := by positivity
    rw [if_neg hq, (signed_eq_of_value hneg).1 h]
    exact Int.mul_tdiv_cancel k hpow

end Binary64

/-- The operand as an integer, if it is one: in the signed range, or else the nearer end of it. -/
theorem Operand.toInteger_float {x : Float} (hx : Binary64.IsFinite x) {i : Signed} :
    (Operand.float x).toInteger = .ok i ↔
      ∃ k : Int, (Binary64.ofFloat x).value = k ∧ i = Signed.clamp k := by
  rw [Operand.toInteger]
  by_cases hintegral : (Binary64.ofFloat x).isIntegral = true
  · rw [if_pos ⟨hx, hintegral⟩]
    obtain ⟨k, hk⟩ := Binary64.isIntegral_iff.1 hintegral
    rw [Binary64.truncate_eq hk, Except.ok.injEq]
    constructor
    · rintro rfl
      exact ⟨k, hk, rfl⟩
    · rintro ⟨k', hk', rfl⟩
      obtain rfl : k = k' := by exact_mod_cast hk.symm.trans hk'
      rfl
  · rw [if_neg fun h => hintegral h.2]
    refine iff_of_false (fun h => nomatch h) ?_
    rintro ⟨k, hk, -⟩
    exact hintegral (Binary64.isIntegral_iff.2 ⟨k, hk⟩)

theorem Operand.ofJson_ofSigned (n : Signed) : ofJson (.ofSigned n) = .ok (.int n) := by
  have hsome := Bounded.ofInt?_val n
  rw [Json.ofSigned, ofJson, ofNumber, Signed.toWhole, hsome]

namespace Json

/-- The quantity that a number stands for. -/
def Number.quantity : Number → ℚ
  | .int n => n.val
  | .real x => (Binary64.ofFloat x.val).value

/-- The quantity that a value stands for, if it counts as a number. -/
def quantity? : Json → Option ℚ
  | .number n => some n.quantity
  | .bool b => some (if b then 1 else 0)
  | _ => none

end Json

/-- A finite floating-point number compares with small integers as the rational one does. -/
def Near (x : Float) (q : ℚ) : Prop :=
  ∃ a, at? x = some a ∧ |a| < horizon ∧
    ∀ k : Int, |k| < 2 ^ 52 → ((k : ℚ) ≤ a ↔ (k : ℚ) ≤ q) ∧ (a ≤ k ↔ q ≤ k)

theorem near_of_isFinite {x : Float} (hx : Binary64.IsFinite x) :
    Near x (Binary64.ofFloat x).value := by
  obtain ⟨a, ha, hlt⟩ := isFinite_iff_at?.1 hx
  cases ha.symm.trans (at?_of_isFinite hx)
  exact ⟨_, ha, hlt, fun _ _ => ⟨Iff.rfl, Iff.rfl⟩⟩

theorem onGrid_intCast {k : Int} (hlow : -2 ^ 53 < k) (hhigh : k < 2 ^ 53) : OnGrid k := by
  refine ⟨?_, k, 0, abs_lt.2 ⟨hlow, hhigh⟩, by decide, by rw [zpow_zero, mul_one]⟩
  have hcast : |(k : ℚ)| = (k.natAbs : ℚ) := by
    rw [← Int.cast_abs, Int.abs_eq_natAbs, Int.cast_natCast]
  rw [hcast]
  exact (natCast_lt_horizon (show k.natAbs < 2 ^ 53 by omega) (by decide)).le

/-- An integer of 64 bits in floating point. -/
theorem near_ofInt {n : Int} (hn : |n| ≤ 2 ^ 64) : Near (Float.ofInt n) n := by
  obtain ⟨a, ha, hnearest⟩ := nearest_ofInt n
  have hbetween := hnearest.between
  have hn' : |(n : ℚ)| ≤ 2 ^ (64 : Int) := by exact_mod_cast hn
  have hbound := hnearest.abs_le_two_zpow (by decide) (by decide) hn'
  refine ⟨a, ha, hbound.trans_lt (two_zpow_lt_horizon (by decide)), fun k hk => ?_⟩
  obtain ⟨hlow, hhigh⟩ := abs_lt.1 hk
  obtain ⟨habove, hbelow⟩ := hbetween k (onGrid_intCast (by omega) (by omega))
  refine ⟨⟨fun hka => ?_, habove⟩, fun hak => ?_, hbelow⟩
  · by_contra hless
    have hpred : n ≤ k - 1 := Int.le_sub_one_of_lt (by exact_mod_cast not_le.1 hless)
    have hle := (hbetween _ (onGrid_intCast (by omega) (by omega))).2 (Int.cast_le.2 hpred)
    push_cast at hle
    linarith
  · by_contra hless
    have hsucc : k + 1 ≤ n := Int.add_one_le_of_lt (by exact_mod_cast not_le.1 hless)
    have hle := (hbetween _ (onGrid_intCast (by omega) (by omega))).1 (Int.cast_le.2 hsucc)
    push_cast at hle
    linarith

theorem onGrid_value {x : Float} (hx : Binary64.IsFinite x) : OnGrid (Binary64.ofFloat x).value :=
  onGrid_of_place? (canonical_parts x) (at?_of_isFinite hx)

/-- An integer beyond the signed range stays beyond it in floating point. -/
theorem ofInt_of_large {n : Int} (hn : 0x8000000000000000 ≤ n) (hn' : |n| ≤ 2 ^ 64) :
    Binary64.IsFinite (Float.ofInt n) ∧
      0x8000000000000000 ≤ (Binary64.ofFloat (Float.ofInt n)).value := by
  obtain ⟨a, ha, hlt, -⟩ := near_ofInt hn'
  have hfinite := isFinite_iff_at?.2 ⟨a, ha, hlt⟩
  obtain ⟨a', ha', hbetween⟩ := (nearest_ofInt n).rounds
  cases ha'.symm.trans (at?_of_isFinite hfinite)
  have hend : (0x8000000000000000 : ℚ) = 2 ^ (63 : Int) := by norm_num
  refine ⟨hfinite, ?_⟩
  rw [hend]
  exact (hbetween _ (onGrid_two_zpow (by decide) (by decide))).1 (by exact_mod_cast hn)

/-- Where the numbers are farther apart than the integers they are integers. -/
theorem exists_int_of_onGrid {a : ℚ} (ha : OnGrid a) (hlarge : 2 ^ 53 ≤ a) : ∃ k : Int, a = k := by
  obtain ⟨-, n, e, hn, -, rfl⟩ := ha
  have hcast : (n : ℚ) < 2 ^ 53 := by exact_mod_cast (abs_lt.1 hn).2
  by_cases he : 0 ≤ e
  · obtain ⟨j, rfl⟩ := Int.eq_ofNat_of_zero_le he
    exact ⟨n * 2 ^ j, by push_cast; rfl⟩
  · have hpow : (2 : ℚ) ^ e ≤ 1 := zpow_le_one_of_nonpos₀ one_le_two (not_le.1 he).le
    have hpos : (0 : ℚ) < 2 ^ e := zpow_pos two_pos e
    nlinarith

namespace Signed

theorem clamp_val (n : Signed) : clamp n.val = n := by
  have := n.lo_le
  have := n.lt_hi
  have hval : (clamp n.val).val = n.val := by
    show max _ (min n.val _) = n.val
    omega
  cases n
  cases h : clamp _
  rw [h] at hval
  cases hval
  rfl

theorem clamp_eq_clamp {m n : Int} (hm : 0x7FFFFFFFFFFFFFFF ≤ m) (hn : 0x7FFFFFFFFFFFFFFF ≤ n) :
    clamp m = clamp n := by
  simp only [clamp, min_eq_right hm, min_eq_right hn]

end Signed

namespace Json

variable {v : Json} {q : ℚ}

theorem ofInt_eq {n : Int} (hlow : -0x8000000000000000 ≤ n) (hhigh : n < 0x10000000000000000) :
    Json.ofInt n = .number (.int ⟨n, hlow, hhigh⟩) := by
  have hnumber : Number.ofInt? n = some (.int ⟨n, hlow, hhigh⟩) := Number.ofInt?_eq_some_iff.2 rfl
  rw [Json.ofInt, hnumber]
  rfl

theorem quantity?_ofInt
    {n : Int} (hlow : -0x8000000000000000 ≤ n) (hhigh : n < 0x10000000000000000) :
    (Json.ofInt n).quantity? = some (n : ℚ) := by
  rw [ofInt_eq hlow hhigh]
  rfl

theorem toFloat_ofNumber (n : Number) : (Operand.ofNumber n).toFloat = n.toFloat := by
  cases n with
  | real x => rfl
  | int n =>
      rw [Operand.ofNumber]
      cases h : Bounded.ofInt? (-0x8000000000000000) 0x8000000000000000 n.val with
      | none => rfl
      | some s => exact congrArg Float.ofInt (Bounded.ofInt?_eq_some_iff.1 h)

theorem abs_val_le (n : Whole) : |n.val| ≤ 2 ^ 64 := by
  have := n.lo_le
  have := n.lt_hi
  exact abs_le.2 ⟨by omega, by omega⟩

/-- What counts as a number is one, and compares with small integers as its quantity does. -/
theorem near_of_quantity? (h : v.quantity? = some q) :
    ∃ n, v.asNumber = .ok n ∧ Near n.toFloat q := by
  cases v with
  | number n =>
      cases h
      refine ⟨_, rfl, ?_⟩
      rw [toFloat_ofNumber]
      cases n with
      | int n => exact near_ofInt (abs_val_le n)
      | real x => exact near_of_isFinite x.finite
  | bool b =>
      cases h
      refine ⟨_, rfl, ?_⟩
      cases b with
      | false => exact_mod_cast near_ofInt (n := 0) (by decide)
      | true => exact_mod_cast near_ofInt (n := 1) (by decide)
  | null => cases h
  | string s => cases h
  | array items => cases h
  | object fields => cases h

/-- An unsigned integer beyond the signed range goes to the end of it. -/
theorem toInteger_of_large {n : Int} (hn : 0x8000000000000000 ≤ n) (hn' : |n| ≤ 2 ^ 64) :
    (Operand.float (Float.ofInt n)).toInteger = .ok (Signed.clamp n) := by
  obtain ⟨hfinite, hle⟩ := ofInt_of_large hn hn'
  obtain ⟨k, hk⟩ := exists_int_of_onGrid (onGrid_value hfinite) (le_trans (by norm_num) hle)
  rw [hk] at hle
  have hk' : (0x8000000000000000 : Int) ≤ k := by exact_mod_cast hle
  exact (Operand.toInteger_float hfinite).2
    ⟨k, hk, Signed.clamp_eq_clamp (by omega) (by omega)⟩

theorem toInteger_ofInt (n : Whole) :
    (Operand.ofNumber (.int n)).toInteger = .ok (Signed.clamp n.val) := by
  rw [Operand.ofNumber]
  cases h : Bounded.ofInt? (-0x8000000000000000) 0x8000000000000000 n.val with
  | none =>
      have hlarge : 0x8000000000000000 ≤ n.val :=
        (Bounded.ofInt?_eq_none_iff.1 h).resolve_left (not_lt.2 n.lo_le)
      exact toInteger_of_large hlarge (abs_val_le n)
  | some s =>
      rw [← Bounded.ofInt?_eq_some_iff.1 h, Signed.clamp_val]
      rfl

theorem eq_clamp_iff {r : Except TypeFault Signed} {n : Int} {i : Signed}
    (hr : r = .ok (Signed.clamp n)) :
    r = .ok i ↔ ∃ k : Int, (some (n : ℚ) : Option ℚ) = some (k : ℚ) ∧ i = Signed.clamp k := by
  subst hr
  simp only [Except.ok.injEq, Option.some.injEq, Int.cast_inj, exists_eq_left', eq_comm]

/-- A number as an integer: its quantity if that is an integer of the signed range, and the nearer
end of the range if it is another integer. -/
theorem asInteger_eq_ok_iff {i : Signed} :
    v.asInteger = .ok i ↔ ∃ k : Int, v.quantity? = some (k : ℚ) ∧ i = Signed.clamp k := by
  have hother {e : TypeFault} {r : Option ℚ} (hr : r = none) :
      (Except.error e : Except TypeFault Signed) = .ok i ↔
        ∃ k : Int, r = some (k : ℚ) ∧ i = Signed.clamp k := by
    subst hr
    exact iff_of_false (fun h => nomatch h) fun ⟨_, h, _⟩ => nomatch h
  cases v with
  | number n =>
      cases n with
      | int n => exact eq_clamp_iff (toInteger_ofInt n)
      | real x =>
          refine (Operand.toInteger_float x.finite).trans (exists_congr fun k => and_congr_left' ?_)
          exact (Option.some_inj (a := (Binary64.ofFloat x.val).value)).symm
  | bool b =>
      have hb : (Operand.ofBool b).toInteger = .ok (Signed.clamp (if b then 1 else 0)) := by
        cases b with
        | false => rfl
        | true => rfl
      have hcast : (some (if b then 1 else 0) : Option ℚ) =
          some ((if b then 1 else 0 : Int) : ℚ) := by
        rw [Int.cast_ite, Int.cast_one, Int.cast_zero]
      exact (eq_clamp_iff hb).trans (by rw [quantity?, hcast])
  | null => exact hother rfl
  | string s => exact hother rfl
  | array items => exact hother rfl
  | object fields => exact hother rfl

end Json

end Allotment
