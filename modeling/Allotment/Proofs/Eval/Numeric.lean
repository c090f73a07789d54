import Allotment.Proofs.Draw.Operands
import Allotment.Proofs.Draw.Range
import Allotment.Proofs.Expr.Fields
import Allotment.Proofs.Operation.Overflow

/-!
# The values of numeric operators

A numeric operator evaluates its operands to numbers and then calculates with them.  Its value is a
number exactly if no step of the calculation in floating point overflows, and it is null, without a
fault, if a step does.  Only sums, products, remainders, quotients and random floating-point numbers
have such steps.

**Results.**
* `eval_eq_calculation`: a numeric operator evaluates its operands and calculates with them.
* `Calculation.value_cases`: what a calculation comes to.
* `numeric_value_iff`: when the value of a numeric operator is a number.
-/

namespace Allotment

open Stateful FloatParts

/-- A numeric operator with the operands that it calculates with. -/
inductive Calculation where
  | aggregate (a : Aggregate) (ns : List Operand)
  | arithmetic (a : Arithmetic) (m n : Operand)
  | negative (n : Operand)
  | round (n : Operand)
  | bernoulliTrial (seed : Seed) (p : Operand)
  | randomFloat (seed : Seed) (min max : Operand)
  | randomInteger (seed : Seed) (min max : Signed)

namespace Calculation

/-- What the calculation comes to. -/
def result : Calculation → Except Fault Json
  | .aggregate a ns =>
      match a.apply? ns with
      | some n => .ok n.toJson
      | none => .error (.invalidOperator (.noValues a.name))
  | .arithmetic a m n => operand a.name (a.apply m n)
  | .negative n => .ok n.neg.toJson
  | .round n => operand "round" (n.round.map Json.ofSigned)
  | .bernoulliTrial seed p =>
      (Draw.bernoulli seed.hash p.toFloat).map fun success => .ofNat success.toNat
  | .randomFloat seed min max => .ok (.ofFloat (Draw.uniform seed.hash min.toFloat max.toFloat))
  | .randomInteger seed min max => (Draw.integer seed.hash min.val max.val).map .ofInt

/-- What the calculation computes exactly before it is rounded to a floating-point number, step by
step. -/
def steps : Calculation → List ℚ
  | .aggregate .sum ns => Operand.foldSteps (· + ·) Operand.add (.ofBool false) ns
  | .aggregate .product ns => Operand.foldSteps (· * ·) Operand.mul (.ofBool true) ns
  | .arithmetic .quotient m n => [m.value / n.value]
  | .arithmetic .modulo (.int _) (.int _) => []
  | .arithmetic .modulo m n => moduloSteps m.toFloat n.toFloat
  | .randomFloat seed min max => Draw.uniformSteps seed.hash min.toFloat max.toFloat
  | _ => []

/-- The operands are finite. -/
def Finite : Calculation → Prop
  | .aggregate _ ns => ∀ n ∈ ns, n.IsFinite
  | .arithmetic _ m n => m.IsFinite ∧ n.IsFinite
  | .negative n => n.IsFinite
  | .round n => n.IsFinite
  | .bernoulliTrial _ p => p.IsFinite
  | .randomFloat _ min max => min.IsFinite ∧ max.IsFinite
  | .randomInteger _ _ _ => True

end Calculation

/-- Evaluates the unit of a random operator and takes the seed. -/
def seedOf (op : String) (name : Option String) (unit : Expr) (salt fullSalt : Option String) :
    Run Seed := do
  let v ← eval none unit
  seedFor op (salt <|> name) fullSalt (unitsOf v)

/-- How a numeric operator evaluates its operands; the other operators are not numeric. -/
def calculation? (name : Option String) : Expr → Option (Run Calculation)
  | .aggregate a e => some do
      let v ← eval none e
      return .aggregate a (← Run.demand a.name v.asNumbers)
  | .arithmetic a l r => some do
      let m ← Run.numberFor a.name (eval none l)
      return .arithmetic a m (← Run.numberFor a.name (eval none r))
  | .unary .negative e => some do return .negative (← Run.numberFor "negative" (eval none e))
  | .unary .round e => some do return .round (← Run.numberFor "round" (eval none e))
  | .random (.bernoulliTrial p) unit salt fullSalt => some do
      let seed ← seedOf "bernoulliTrial" name unit salt fullSalt
      return .bernoulliTrial seed (← Run.numberFor "bernoulliTrial" (eval none p))
  | .random (.randomFloat lo hi) unit salt fullSalt => some do
      let seed ← seedOf "randomFloat" name unit salt fullSalt
      let min ← Run.numberFor "randomFloat" (eval none lo)
      return .randomFloat seed min (← Run.numberFor "randomFloat" (eval none hi))
  | .random (.randomInteger lo hi) unit salt fullSalt => some do
      let seed ← seedOf "randomInteger" name unit salt fullSalt
      let min ← Run.integerFor "randomInteger" (eval none lo)
      return .randomInteger seed min (← Run.integerFor "randomInteger" (eval none hi))
  | _ => none

namespace Run

theorem ofExcept_operand {α : Type} (op : String) (r : Except TypeFault α) :
    ofExcept (operand op r) = demand op r := by
  cases r <;> rfl

end Run

/-- A numeric operator evaluates its operands and then calculates with them. -/
theorem eval_eq_calculation {name : Option String} {e : Expr} {operands : Run Calculation}
    (h : calculation? name e = some operands) :
    eval name e = Run.unlessHalted (operands >>= fun c => Run.ofExcept c.result) := by
  cases e with
  | aggregate a e =>
      cases h
      rw [eval]
      simp only [bind_assoc, pure_bind, aggregateOf, Calculation.result]
      congr 1
      refine bind_congr fun v => bind_congr fun ns => ?_
      cases a.apply? ns <;> rfl
  | arithmetic a l r =>
      cases h
      simp only [eval, bind_assoc, pure_bind, Calculation.result, Run.ofExcept_operand]
  | unary u e =>
      cases u with
      | negative =>
          cases h
          simp only [eval, Run.numberFor, bind_assoc, pure_bind, Calculation.result]
          congr 1
          refine bind_congr fun v => ?_
          rw [Unary.apply, Json.asNumber]
          cases Operand.ofJson v <;> rfl
      | round =>
          cases h
          simp only [eval, Run.numberFor, bind_assoc, pure_bind, Calculation.result,
            Run.ofExcept_operand]
          congr 1
          refine bind_congr fun v => ?_
          rw [Unary.apply, Json.asNumber]
          cases Operand.ofJson v <;> rfl
      | not => cases h
      | length => cases h
  | random draw unit salt fullSalt =>
      cases draw with
      | bernoulliTrial p =>
          cases h
          simp only [eval, evalDraw, seedOf, Lottery.name, bind_assoc, pure_bind,
            Calculation.result]
          congr 1
          refine bind_congr fun v => bind_congr fun seed => bind_congr fun n => ?_
          cases Draw.bernoulli seed.hash n.toFloat <;> rfl
      | randomFloat lo hi =>
          cases h
          simp only [eval, evalDraw, seedOf, Lottery.name, bind_assoc, pure_bind,
            Calculation.result]
          rfl
      | randomInteger lo hi =>
          cases h
          simp only [eval, evalDraw, seedOf, Lottery.name, bind_assoc, pure_bind,
            Calculation.result]
          congr 1
          refine bind_congr fun v => bind_congr fun seed => bind_congr fun i =>
            bind_congr fun j => ?_
          cases Draw.integer seed.hash i.val j.val <;> rfl
      | _ => cases h
  | _ => cases h

/-! ### The values of calculations -/

namespace Json

/-- A number that is computed without a step in floating point. -/
theorem NumberIf.of_no_steps {v : Json} (h : v.IsNumber) :
    NumberIf (∀ q ∈ ([] : List ℚ), Fits q) v :=
  .of_isNumber (List.forall_mem_nil _) h

end Json

theorem Draw.isNumber_ofInt {h : Nat} {lo hi : Signed} {n : Int}
    (hn : integer h lo.val hi.val = .ok n) : (Json.ofInt n).IsNumber := by
  obtain ⟨hlow, hhigh⟩ := integer_bounds hn
  have := lo.lo_le
  have := hi.lt_hi
  exact Json.isNumber_ofInt (by omega) (by omega)

theorem Aggregate.numberIf_apply {a : Aggregate} {ns : List Operand} {n : Operand}
    (hns : ∀ n ∈ ns, n.IsFinite) (h : a.apply? ns = some n) :
    Json.NumberIf (∀ q ∈ (Calculation.aggregate a ns).steps, Fits q) n.toJson := by
  refine (Operand.numberIf_toJson n).congr ?_
  have hextremum {wanted : Ordering} {best : Operand} {rest : List Operand}
      (hall : ∀ n ∈ best :: rest, n.IsFinite) : (extremum wanted best rest).IsFinite :=
    hall _ (extremum_mem wanted best rest)
  cases a with
  | sum =>
      cases h
      exact Operand.isFinite_foldl_iff Operand.overflows_add (Operand.int_spec _).1 hns
  | product =>
      cases h
      exact Operand.isFinite_foldl_iff Operand.overflows_mul (Operand.int_spec _).1 hns
  | min =>
      cases ns with
      | nil => cases h
      | cons best rest =>
          cases h
          exact iff_of_true (hextremum hns) (List.forall_mem_nil _)
  | max =>
      cases ns with
      | nil => cases h
      | cons best rest =>
          cases h
          exact iff_of_true (hextremum hns) (List.forall_mem_nil _)

theorem Arithmetic.numberIf_apply {a : Arithmetic} {m n : Operand} {v : Json}
    (hm : m.IsFinite) (hn : n.IsFinite) (h : a.apply m n = .ok v) :
    Json.NumberIf (∀ q ∈ (Calculation.arithmetic a m n).steps, Fits q) v := by
  rw [Arithmetic.apply.eq_def] at h
  cases hzero : n.isZero with
  | true =>
      rw [if_pos hzero] at h
      cases h
  | false =>
      have hne := Operand.value_ne_zero hn hzero
      rw [if_neg (Bool.eq_false_iff.1 hzero)] at h
      have hmodulo : Json.NumberIf (∀ q ∈ moduloSteps m.toFloat n.toFloat, Fits q)
          (.ofFloat (floatModulo m.toFloat n.toFloat)) :=
        (Json.numberIf_ofFloat _).congr (isFinite_floatModulo_iff hm hn hne)
      cases a with
      | quotient =>
          cases h
          refine (Json.numberIf_ofFloat _).congr ?_
          rw [Calculation.steps, List.forall_mem_singleton]
          exact isFinite_div_iff hm hn hne
      | modulo =>
          cases m with
          | float x =>
              cases h
              exact hmodulo
          | int m =>
              cases n with
              | float y =>
                  cases h
                  exact hmodulo
              | int n =>
                  cases h
                  exact .of_no_steps (Json.isNumber_ofSigned _)

/-- A calculation comes to a number if no step overflows, and to null otherwise. -/
theorem Calculation.numberIf_result {c : Calculation} {v : Json} (hfinite : c.Finite)
    (h : c.result = .ok v) : Json.NumberIf (∀ q ∈ c.steps, Fits q) v := by
  cases c with
  | aggregate a ns =>
      rw [result] at h
      cases hn : a.apply? ns with
      | none =>
          rw [hn] at h
          cases h
      | some n =>
          rw [hn] at h
          cases h
          exact Aggregate.numberIf_apply hfinite hn
  | arithmetic a m n => exact Arithmetic.numberIf_apply hfinite.1 hfinite.2 (of_operand_eq_ok h)
  | negative n =>
      cases h
      exact (Operand.numberIf_toJson _).congr
        (iff_of_true (Operand.isFinite_neg hfinite) (List.forall_mem_nil _))
  | round n =>
      obtain ⟨r, -, rfl⟩ := of_map_eq_ok (of_operand_eq_ok h)
      exact .of_no_steps (Json.isNumber_ofSigned r)
  | bernoulliTrial seed p =>
      obtain ⟨success, -, rfl⟩ := of_map_eq_ok h
      refine .of_no_steps ?_
      cases success <;> exact Json.isNumber_ofInt (by decide) (by decide)
  | randomFloat seed lo hi =>
      cases h
      exact (Json.numberIf_ofFloat _).congr (Draw.isFinite_uniform_iff
        (Nat.le_of_lt_succ seed.hash_lt) hfinite.1 hfinite.2)
  | randomInteger seed lo hi =>
      obtain ⟨n, hn, rfl⟩ := of_map_eq_ok h
      exact .of_no_steps (Draw.isNumber_ofInt hn)

namespace Run

theorem isFinite_numberFor
    {op : String} {x : Run Json} {n : Operand} {env env' : Env}
    (h : numberFor op x env = .ok n env') : n.IsFinite := by
  obtain ⟨v, env₁, -, h⟩ := ok_of_bind h
  exact Operand.isFinite_ofJson (of_demand_eq_ok h).1

end Run

theorem Operand.isFinite_asNumbers {v : Json} {ns : List Operand} (h : v.asNumbers = .ok ns) :
    ∀ n ∈ ns, n.IsFinite := by
  rw [Json.asNumbers] at h
  cases hv : v.asList with
  | error why =>
      rw [hv] at h
      cases h
  | ok items =>
      rw [hv] at h
      exact isFinite_ofItems h

/-- The operands of a numeric operator are finite. -/
theorem finite_of_calculation {name : Option String} {e : Expr} {operands : Run Calculation}
    {env env' : Env} {c : Calculation} (hnumeric : calculation? name e = some operands)
    (h : operands env = .ok c env') : c.Finite := by
  cases e with
  | aggregate a e =>
      cases hnumeric
      obtain ⟨v, env₁, -, h⟩ := ok_of_bind h
      obtain ⟨ns, env₂, hns, h⟩ := ok_of_bind h
      cases h
      exact Operand.isFinite_asNumbers (Run.of_demand_eq_ok hns).1
  | arithmetic a l r =>
      cases hnumeric
      obtain ⟨m, env₁, hm, h⟩ := ok_of_bind h
      obtain ⟨n, env₂, hn, h⟩ := ok_of_bind h
      cases h
      exact ⟨Run.isFinite_numberFor hm, Run.isFinite_numberFor hn⟩
  | unary u e =>
      cases u with
      | negative =>
          cases hnumeric
          obtain ⟨n, env₁, hn, h⟩ := ok_of_bind h
          cases h
          exact Run.isFinite_numberFor hn
      | round =>
          cases hnumeric
          obtain ⟨n, env₁, hn, h⟩ := ok_of_bind h
          cases h
          exact Run.isFinite_numberFor hn
      | not => cases hnumeric
      | length => cases hnumeric
  | random draw unit salt fullSalt =>
      cases draw with
      | bernoulliTrial p =>
          cases hnumeric
          obtain ⟨seed, env₁, -, h⟩ := ok_of_bind h
          obtain ⟨n, env₂, hn, h⟩ := ok_of_bind h
          cases h
          exact Run.isFinite_numberFor hn
      | randomFloat lo hi =>
          cases hnumeric
          obtain ⟨seed, env₁, -, h⟩ := ok_of_bind h
          obtain ⟨m, env₂, hm, h⟩ := ok_of_bind h
          obtain ⟨n, env₃, hn, h⟩ := ok_of_bind h
          cases h
          exact ⟨Run.isFinite_numberFor hm, Run.isFinite_numberFor hn⟩
      | randomInteger lo hi =>
          cases hnumeric
          obtain ⟨seed, env₁, -, h⟩ := ok_of_bind h
          obtain ⟨m, env₂, -, h⟩ := ok_of_bind h
          obtain ⟨n, env₃, -, h⟩ := ok_of_bind h
          cases h
          trivial
      | _ => cases hnumeric
  | _ => cases hnumeric

/-- Before a return, a numeric operator that comes to a value has calculated it from its operands:
a number if no step of the calculation overflows, and null otherwise. -/
theorem numeric_value_iff {name : Option String} {e : Expr} {operands : Run Calculation}
    {env env' : Env} {v : Json} (hnumeric : calculation? name e = some operands)
    (live : env.isHalted = false) (h : eval name e env = .ok v env') :
    ∃ c, operands env = .ok c env' ∧ c.result = .ok v ∧
      (v.IsNumber ↔ ∀ q ∈ c.steps, Fits q) ∧ (¬ v.IsNumber → v = .null) := by
  rw [eval_eq_calculation hnumeric, Run.unlessHalted_of_live live] at h
  obtain ⟨c, env₁, hc, h⟩ := ok_of_bind h
  obtain ⟨hresult, rfl⟩ := Run.of_ofExcept_eq_ok h
  have hvalue := Calculation.numberIf_result (finite_of_calculation hnumeric hc) hresult
  exact ⟨c, hc, hresult, hvalue.isNumber_iff, hvalue.eq_null⟩

section GreatNumbers

/-- A number that is finite, but not twice it. -/
def great : Json := .number (.real ⟨1e308, by decide +kernel⟩)

/-- The sum of as many of them. -/
def greatSum (count : Nat) : Expr :=
  .aggregate .sum (.value (.array (List.replicate count great)))

/-- The sum of one such number is a number, and its only step does not overflow. -/
theorem greatSum_one_fits :
    ∃ v, eval none (greatSum 1) { salt := "shop", inputs := [] } =
        .ok v { salt := "shop", inputs := [] } ∧
      v.IsNumber ∧ Fits ((Operand.ofBool false).value + (Operand.float 1e308).value) := by
  have heval : eval none (greatSum 1) { salt := "shop", inputs := [] } =
      .ok (.ofFloat (Float.ofInt 0 + 1e308)) { salt := "shop", inputs := [] } := rfl
  have hfinite : Binary64.IsFinite (Float.ofInt 0 + 1e308) := by decide +kernel
  have hnumber := (Json.numberIf_ofFloat _).isNumber_iff.2 hfinite
  obtain ⟨c, hc, -, hiff, -⟩ := numeric_value_iff rfl rfl heval
  cases hc
  exact ⟨_, heval, hnumber, hiff.1 hnumber _ List.mem_cons_self⟩

/-- The sum of two such numbers is null. -/
theorem greatSum_two_null :
    ¬ ∀ (name : Option String) (e : Expr) (operands : Run Calculation) (env env' : Env) (v : Json),
      calculation? name e = some operands → env.isHalted = false →
      eval name e env = .ok v env' → v.IsNumber := by
  intro hall
  have heval : eval none (greatSum 2) { salt := "shop", inputs := [] } =
      .ok (.ofFloat (Float.ofInt 0 + 1e308 + 1e308)) { salt := "shop", inputs := [] } := rfl
  have hnumber := hall _ _ _ _ _ _ rfl rfl heval
  exact absurd ((Json.numberIf_ofFloat _).isNumber_iff.1 hnumber) (by decide +kernel)

end GreatNumbers

end Allotment
