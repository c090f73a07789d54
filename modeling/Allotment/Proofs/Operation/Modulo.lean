import Allotment.Proofs.Eval.Halting
import Allotment.Proofs.Quantity
import Mathlib.Data.Rat.Floor

/-!
# Remainders of integers

The remainder of two signed integers is computed in the word.  The machine gives the one for the
quotient rounded towards zero, which has the sign of the dividend.  Where that is not the sign of
the divisor, the divisor is added.  The two have opposite signs then, so the sum lies between them
and fits into the word.

**Results.**
* `eq_sub_mul_floor`: the only remainder between zero and the divisor is that of the quotient
  rounded down.
* `Signed.moduloByWords?_eq`: no step leaves the word.
* `modulo_floored`: what a remainder of two signed integers comes to.
-/

namespace Allotment

open FloatParts Stateful

/-- The number is zero, or it lies between zero and the divisor. -/
def UnderDivisor (r n : Int) : Prop := (0 ≤ r ∧ r < n) ∨ (n < r ∧ r ≤ 0)

namespace UnderDivisor

variable {r n : Int}

theorem abs_lt_abs (h : UnderDivisor r n) : |r| < |n| := by
  rcases h with ⟨hr, hlt⟩ | ⟨hlt, hr⟩
  · rwa [abs_of_nonneg hr, abs_of_nonneg (hr.trans hlt.le)]
  · rw [abs_of_nonpos hr, abs_of_nonpos (hlt.le.trans hr)]
    exact neg_lt_neg hlt

theorem sign_eq (h : UnderDivisor r n) : r = 0 ∨ r.sign = n.sign := by
  rcases h with ⟨hr, hlt⟩ | ⟨hlt, hr⟩
  · rcases hr.eq_or_lt with rfl | hpos
    · exact .inl rfl
    · exact .inr (by rw [Int.sign_eq_one_of_pos hpos, Int.sign_eq_one_of_pos (hpos.trans hlt)])
  · rcases hr.eq_or_lt with rfl | hneg
    · exact .inl rfl
    · right
      rw [Int.sign_eq_neg_one_of_neg hneg, Int.sign_eq_neg_one_of_neg (hlt.trans hneg)]

theorem of_abs_lt (hlt : |r| < |n|) (hsigns : r = 0 ∨ (r < 0 ↔ n < 0)) : UnderDivisor r n := by
  obtain ⟨hlow, hhigh⟩ := abs_lt.1 hlt
  by_cases hn : n < 0
  · rw [abs_of_neg hn] at hlow
    have hr : r ≤ 0 := hsigns.elim le_of_eq fun h => (h.2 hn).le
    exact .inr ⟨by omega, hr⟩
  · rw [abs_of_nonneg (not_lt.1 hn)] at hhigh
    have hr : 0 ≤ r := hsigns.elim ge_of_eq fun h => not_lt.1 (mt h.1 hn)
    exact .inl ⟨hr, hhigh⟩

/-- With the other sign, the sum with the divisor is between zero and the divisor. -/
theorem add_of_abs_lt (hlt : |r| < |n|) (h0 : r ≠ 0) (hsigns : ¬ (r < 0 ↔ n < 0)) :
    UnderDivisor (r + n) n := by
  obtain ⟨hlow, hhigh⟩ := abs_lt.1 hlt
  by_cases hn : n < 0
  · have hr : ¬ r < 0 := fun hr => hsigns (iff_of_true hr hn)
    rw [abs_of_neg hn] at hhigh
    exact .inr ⟨by omega, by omega⟩
  · have hr : r < 0 := by_contra fun hr => hsigns (iff_of_false hr hn)
    rw [abs_of_nonneg (not_lt.1 hn)] at hlow
    exact .inl ⟨by omega, by omega⟩

/-- A remainder is a part of the divisor. -/
theorem div_bounds (h : UnderDivisor r n) : (0 : ℚ) ≤ r / n ∧ (r : ℚ) / n < 1 := by
  rcases h with ⟨hr, hlt⟩ | ⟨hlt, hr⟩
  · have hn : (0 : ℚ) < n := by exact_mod_cast hr.trans_lt hlt
    exact ⟨div_nonneg (by exact_mod_cast hr) hn.le, (div_lt_one hn).2 (by exact_mod_cast hlt)⟩
  · have hn : (n : ℚ) < 0 := by exact_mod_cast hlt.trans_le hr
    refine ⟨div_nonneg_of_nonpos (by exact_mod_cast hr) hn.le, ?_⟩
    exact (div_lt_one_of_neg hn).2 (by exact_mod_cast hlt)

end UnderDivisor

/-- A number between zero and the divisor that differs from the dividend by a multiple of the
divisor is the remainder of the quotient rounded down. -/
theorem eq_sub_mul_floor {m n r : Int} (hdvd : n ∣ m - r) (hr : UnderDivisor r n) :
    r = m - n * ⌊(m / n : ℚ)⌋ := by
  obtain ⟨q, hq⟩ := hdvd
  obtain ⟨hnonneg, hlt⟩ := hr.div_bounds
  have hn : (n : ℚ) ≠ 0 := by
    intro hn
    rw [Int.cast_eq_zero.1 hn] at hr
    rcases hr with h | h <;> omega
  have hsplit : (m / n : ℚ) = q + r / n := by
    have hm : m = n * q + r := by omega
    rw [hm]
    push_cast
    field_simp
  have hfloor : ⌊(m / n : ℚ)⌋ = q := by
    rw [Int.floor_eq_iff, hsplit]
    constructor <;> linarith
  rw [hfloor]
  omega

namespace Signed

variable {m n : Signed}

/-- Nothing is wrapped in the word. -/
theorem wrap_of_ofInt? {k : Int} {s : Signed} (h : Bounded.ofInt? _ _ k = some s) :
    wrap k = s := by
  have hval := Bounded.ofInt?_eq_some_iff.1 h
  have hlow := s.lo_le
  have hhigh := s.lt_hi
  have hmod : Int.bmod k 0x10000000000000000 = s.val := by
    rw [← hval]
    exact Int.bmod_eq_of_le (by omega) (by omega)
  cases s
  cases hmod
  rfl

/-- The remainder by the words of a machine, with the quotient rounded down: nothing, if the divisor
is zero or a step does not fit into its word. -/
def moduloByWords? (m n : Signed) : Option Signed := do
  guard (n.val ≠ 0)
  let r ← Bounded.ofInt? _ _ (Int.tmod m.val n.val)
  if r.val ≠ 0 ∧ ¬ (r.val < 0 ↔ n.val < 0) then Bounded.ofInt? _ _ (r.val + n.val) else return r

/-- What the machine gives for the quotient rounded towards zero fits into the word. -/
theorem exists_remainder (m : Signed) (hn : n.val ≠ 0) :
    ∃ r : Signed, Bounded.ofInt? _ _ (Int.tmod m.val n.val) = some r ∧ |r.val| < |n.val| := by
  have hlt : |Int.tmod m.val n.val| < |n.val| := by
    rw [Int.abs_eq_natAbs, Int.abs_eq_natAbs, Int.natAbs_tmod]
    exact_mod_cast Nat.mod_lt _ (Int.natAbs_pos.2 hn)
  have hlow := n.lo_le
  have hhigh := n.lt_hi
  have hword : |n.val| ≤ 0x8000000000000000 := abs_le.2 ⟨hlow, hhigh.le⟩
  obtain ⟨hlow', hhigh'⟩ := abs_lt.1 (hlt.trans_le hword)
  exact ⟨⟨_, hlow'.le, hhigh'⟩, Bounded.ofInt?_eq_some_iff.2 rfl, hlt⟩

/-- The divisor is added where the remainder has the other sign, and the sum fits into the word. -/
theorem exists_corrected {r : Signed} (hlt : |r.val| < |n.val|) (h0 : r.val ≠ 0)
    (hsigns : ¬ (r.val < 0 ↔ n.val < 0)) :
    ∃ k : Signed, Bounded.ofInt? _ _ (r.val + n.val) = some k ∧ UnderDivisor k.val n.val := by
  have hlow := n.lo_le
  have hhigh := n.lt_hi
  have hbetween := UnderDivisor.add_of_abs_lt hlt h0 hsigns
  have hbounds : -0x8000000000000000 ≤ r.val + n.val ∧ r.val + n.val < 0x8000000000000000 := by
    rcases hbetween with h | h <;> omega
  exact ⟨⟨_, hbounds.1, hbounds.2⟩, Bounded.ofInt?_eq_some_iff.2 rfl, hbetween⟩

/-- No step leaves the word, and what comes of them is a remainder for the quotient rounded
down. -/
theorem moduloByWords?_eq (m : Signed) (hn : n.val ≠ 0) :
    moduloByWords? m n = some (m.modulo n) ∧ n.val ∣ m.val - (m.modulo n).val ∧
      UnderDivisor (m.modulo n).val n.val := by
  obtain ⟨r, hr, hlt⟩ := exists_remainder m hn
  have hremainder : m.remainder n = r := wrap_of_ofInt? hr
  have hdvd : n.val ∣ m.val - r.val := by
    rw [Bounded.ofInt?_eq_some_iff.1 hr]
    exact Int.dvd_self_sub_tmod
  by_cases hcorrect : r.val ≠ 0 ∧ ¬ (r.val < 0 ↔ n.val < 0)
  · -- Adding the divisor leaves the difference from the dividend a multiple of it.
    obtain ⟨k, hk, hunder⟩ := exists_corrected hlt hcorrect.1 hcorrect.2
    have hmodulo : m.modulo n = k := by
      rw [modulo, hremainder, if_pos hcorrect, wrap_of_ofInt? hk]
    have hwords : moduloByWords? m n = some k := by
      simp [moduloByWords?, hn, hr, if_pos hcorrect, hk]
    rw [hmodulo]
    refine ⟨hwords, ?_, hunder⟩
    rw [Bounded.ofInt?_eq_some_iff.1 hk, ← sub_sub]
    exact dvd_sub_self_right.2 hdvd
  · have hmodulo : m.modulo n = r := by
      rw [modulo, hremainder, if_neg hcorrect]
    have hwords : moduloByWords? m n = some r := by
      simp [moduloByWords?, hn, hr, if_neg hcorrect]
    rw [hmodulo]
    exact ⟨hwords, hdvd, .of_abs_lt hlt (by tauto)⟩

end Signed

/-- In floating point only the integer zero is zero. -/
theorem Operand.isZero_int_iff {n : Signed} : (int n).isZero = true ↔ n.val = 0 := by
  have hlow := n.lo_le
  have hhigh := n.lt_hi
  obtain ⟨a, ha, -, hnear⟩ := near_ofInt (n := n.val) (abs_le.2 ⟨by omega, by omega⟩)
  obtain ⟨habove, hbelow⟩ := hnear 0 (by decide)
  have hzero : a = 0 ↔ n.val = 0 := by
    push_cast at habove hbelow
    rw [le_antisymm_iff, habove, hbelow, ← le_antisymm_iff, Int.cast_eq_zero]
  exact (beq_iff ha at?_zero).trans hzero

theorem Arithmetic.apply_modulo (m n : Signed) :
    Arithmetic.modulo.apply (.int m) (.int n) =
      if n.val = 0 then .error .divisionByZero else .ok (.ofSigned (m.modulo n)) := by
  rw [apply.eq_def]
  by_cases hn : n.val = 0
  · rw [if_pos (Operand.isZero_int_iff.2 hn), if_pos hn]
  · rw [if_neg (mt Operand.isZero_int_iff.1 hn), if_neg hn]

/-- An operation on two operands that are numbers applies to these numbers. -/
theorem eval_arithmetic_of_numbers
    {name : Option String} {a : Arithmetic} {l r : Expr} {env env₁ env₂ : Env} {v w : Json}
    {m n : Operand} (live : env.isHalted = false)
    (hl : eval none l env = .ok v env₁) (hm : v.asNumber = .ok m)
    (hr : eval none r env₁ = .ok w env₂) (hn : w.asNumber = .ok n) :
    eval name (.arithmetic a l r) env = Run.demand a.name (a.apply m n) env₂ := by
  have hleft : Run.numberFor a.name (eval none l) env = .ok m env₁ := by
    rw [Run.numberFor, bind_of_ok hl, hm]
    rfl
  have hright : Run.numberFor a.name (eval none r) env₁ = .ok n env₂ := by
    rw [Run.numberFor, bind_of_ok hr, hn]
    rfl
  rw [eval, Run.unlessHalted_of_live live, bind_of_ok hleft, bind_of_ok hright]

/-- Before a return, the remainder of two signed integers is refused if the divisor is zero.
Otherwise it is the dividend less the divisor times the quotient rounded down, so it is zero or has
the sign of the divisor, and it is smaller than the divisor.  No step of the machine leaves the
word. -/
theorem modulo_floored
    {name : Option String} {l r : Expr} {env env₁ env₂ : Env} {v w : Json} {m n : Signed}
    (live : env.isHalted = false)
    (hl : eval none l env = .ok v env₁) (hm : v.asNumber = .ok (.int m))
    (hr : eval none r env₁ = .ok w env₂) (hn : w.asNumber = .ok (.int n)) :
    (n.val = 0 → eval name (.arithmetic .modulo l r) env =
      .error (.typeMismatch "%" .divisionByZero) env₂) ∧
    (n.val ≠ 0 → ∃ k : Signed,
      eval name (.arithmetic .modulo l r) env = .ok (.ofSigned k) env₂ ∧
      m.moduloByWords? n = some k ∧
      k.val = m.val - n.val * ⌊(m.val / n.val : ℚ)⌋ ∧
      (k.val = 0 ∨ k.val.sign = n.val.sign) ∧ |k.val| < |n.val|) := by
  rw [eval_arithmetic_of_numbers live hl hm hr hn, Arithmetic.apply_modulo]
  constructor
  · intro hzero
    rw [if_pos hzero]
    rfl
  · intro hne
    obtain ⟨hwords, hdvd, hunder⟩ := Signed.moduloByWords?_eq m hne
    rw [if_neg hne]
    exact ⟨m.modulo n, rfl, hwords, eq_sub_mul_floor hdvd hunder, hunder.sign_eq,
      hunder.abs_lt_abs⟩

section LeastInteger

/-- The least signed integer. -/
def least : Signed := ⟨-0x8000000000000000, by decide, by decide⟩

/-- The remainder of the least signed integer and a divisor. -/
def leastModulo (divisor : Signed) : Expr :=
  .arithmetic .modulo (.value (.ofSigned least)) (.value (.ofSigned divisor))

/-- The quotient by minus one does not fit into the word, but the remainder does; the one by three
is corrected, and the one by zero is refused. -/
theorem leastModulo_exact :
    eval none (leastModulo ⟨-1, by decide, by decide⟩) { salt := "shop", inputs := [] } =
      .ok (.ofInt 0) { salt := "shop", inputs := [] } ∧
    eval none (leastModulo ⟨3, by decide, by decide⟩) { salt := "shop", inputs := [] } =
      .ok (.ofInt 1) { salt := "shop", inputs := [] } ∧
    eval none (leastModulo ⟨0, by decide, by decide⟩) { salt := "shop", inputs := [] } =
      .error (.typeMismatch "%" .divisionByZero) { salt := "shop", inputs := [] } := by
  have hvalue (n : Signed) : eval none (.value (.ofSigned n)) { salt := "shop", inputs := [] } =
      .ok (.ofSigned n) { salt := "shop", inputs := [] } := rfl
  have hfloored (n : Signed) := @modulo_floored none _ _ _ _ _ _ _ _ _ rfl (hvalue least)
    (Operand.ofJson_ofSigned least) (hvalue n) (Operand.ofJson_ofSigned n)
  refine ⟨?_, ?_, (hfloored _).1 rfl⟩
  · obtain ⟨k, hk, hwords, -⟩ := (hfloored ⟨-1, by decide, by decide⟩).2 (by decide)
    cases hwords
    exact hk
  · obtain ⟨k, hk, hwords, -⟩ := (hfloored ⟨3, by decide, by decide⟩).2 (by decide)
    cases hwords
    exact hk

end LeastInteger

end Allotment
