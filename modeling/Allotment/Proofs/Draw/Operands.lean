import Allotment.Proofs.Eval.Halting

/-!
# Random operators on the values of their operands

A random operator evaluates its unit, takes its salt, and then evaluates its operands.  Operands
of the wrong kind are found out one after the other, so a fault may come before the last operand
is evaluated.  Where all of them can be evaluated this makes no difference to the answer, which is
a function of the salt, the units and the values of the operands.

**Results.**
* `evalDraw_answer`: the answer with a seed depends on the values of the operands only.
* `Supplied.outcome`: what a random operator comes to.
-/

namespace Allotment

open Stateful

namespace Stateful

variable {ε σ α β : Type}

/-- The value or the fault of a computation. -/
def answer : EStateM.Result ε σ α → Except ε α
  | .ok a _ => .ok a
  | .error e _ => .error e

theorem answer_bind_of_ok
    {x : EStateM ε σ α} {s s' : σ} {a : α} (h : x s = .ok a s') (f : α → EStateM ε σ β) :
    answer ((x >>= f) s) = answer (f a s') := by
  rw [bind_of_ok h]

end Stateful

/-- An operand of the wrong kind as a fault of the operator. -/
def operand {α : Type} (op : String) : Except TypeFault α → Except Fault α :=
  Except.mapError (.typeMismatch op)

theorem of_operand_eq_ok {α : Type} {op : String} {r : Except TypeFault α} {a : α}
    (h : operand op r = .ok a) : r = .ok a := by
  cases r with
  | error why => cases h
  | ok b =>
      cases h
      rfl

/-- The choices of a sample, of which there has to be one. -/
def pooled (v : Json) : Except Fault (List Json) := do
  let choices ← operand "sample" v.asList
  if choices.isEmpty then throw (.invalidOperator (.noChoices "sample")) else return choices

namespace Run

variable {α β : Type} {env env' : Env} {x : Run Json} {v : Json}

theorem of_demand_eq_ok {op : String} {r : Except TypeFault α} {a : α}
    (h : demand op r env = .ok a env') : r = .ok a ∧ env = env' := by
  cases r with
  | error why => cases h
  | ok b =>
      cases h
      exact ⟨rfl, rfl⟩

theorem of_ofExcept_eq_ok {r : Except Fault α} {a : α}
    (h : ofExcept r env = .ok a env') : r = .ok a ∧ env = env' := by
  cases r with
  | error e => cases h
  | ok b =>
      cases h
      exact ⟨rfl, rfl⟩

theorem answer_demand_bind
    (op : String) (r : Except TypeFault α) (f : α → Run β) (env : Env) :
    answer ((demand op r >>= f) env) = (operand op r).bind fun a => answer (f a env) := by
  cases r with
  | ok a => rfl
  | error why => rfl

theorem answer_ofExcept_bind (r : Except Fault α) (f : α → Run β) (env : Env) :
    answer ((ofExcept r >>= f) env) = r.bind fun a => answer (f a env) := by
  cases r with
  | ok a => rfl
  | error e => rfl

/-- An operand is evaluated and then has to be of the right kind. -/
theorem answer_checked_bind
    (h : x env = .ok v env') (op : String) (check : Json → Except TypeFault α) (f : α → Run β) :
    answer (((do demand op (check (← x))) >>= f) env) =
      (operand op (check v)).bind fun a => answer (f a env') := by
  rw [bind_assoc, bind_of_ok h, answer_demand_bind]

theorem answer_listFor_bind
    (h : x env = .ok v env') (op : String) (f : List Json → Run β) :
    answer ((listFor op x >>= f) env) =
      (operand op v.asList).bind fun items => answer (f items env') :=
  answer_checked_bind h op Json.asList f

theorem answer_numberFor_bind
    (h : x env = .ok v env') (op : String) (f : Operand → Run β) :
    answer ((numberFor op x >>= f) env) =
      (operand op v.asNumber).bind fun n => answer (f n env') :=
  answer_checked_bind h op Json.asNumber f

theorem answer_integerFor_bind
    (h : x env = .ok v env') (op : String) (f : Signed → Run β) :
    answer ((integerFor op x >>= f) env) =
      (operand op v.asInteger).bind fun n => answer (f n env') :=
  answer_checked_bind h op Json.asInteger f

theorem answer_samplePool_bind
    (h : x env = .ok v env') (f : List Json → Run β) :
    answer ((samplePool x >>= f) env) = (pooled v).bind fun items => answer (f items env') := by
  rw [samplePool, bind_assoc, answer_listFor_bind h, pooled]
  cases operand "sample" v.asList with
  | error e => rfl
  | ok choices =>
      show answer (((if choices.isEmpty then _ else _) >>= f) env') = Except.bind (ite _ _ _) _
      by_cases hempty : choices.isEmpty
      · rw [if_pos hempty, if_pos hempty]
        rfl
      · rw [if_neg hempty, if_neg hempty]
        rfl

theorem answer_choose (choices : List Json) (position : Except Fault Nat) (env : Env) :
    answer (choose choices position env) = position.map fun i => choices.getD i .null := by
  cases position with
  | ok i => rfl
  | error e => rfl

end Run

/-- Evaluates the operands of a draw. -/
def Lottery.evaluated : Lottery Expr → Run (Lottery Json)
  | .uniformChoice c => do
      let c ← eval none c
      return .uniformChoice c
  | .weightedChoice c w => do
      let c ← eval none c
      let w ← eval none w
      return .weightedChoice c w
  | .bernoulliTrial p => do
      let p ← eval none p
      return .bernoulliTrial p
  | .bernoulliFilter p c => do
      let p ← eval none p
      let c ← eval none c
      return .bernoulliFilter p c
  | .randomFloat lo hi => do
      let lo ← eval none lo
      let hi ← eval none hi
      return .randomFloat lo hi
  | .randomInteger lo hi => do
      let lo ← eval none lo
      let hi ← eval none hi
      return .randomInteger lo hi
  | .sample c none => do
      let c ← eval none c
      return .sample c none
  | .sample c (some n) => do
      let c ← eval none c
      let n ← eval none n
      return .sample c (some n)

namespace Seed

/-- What is drawn from values. -/
def drawn (s : Seed) : Lottery Json → Except Fault Json
  | .uniformChoice c => do
      let choices ← operand "uniformChoice" c.asList
      let i ← Draw.index s.hash choices.length
      return choices.getD i .null
  | .weightedChoice c w => do
      let choices ← operand "weightedChoice" c.asList
      let weights ← operand "weightedChoice" w.asNumbers
      let i ← weightedPosition s.hash choices weights
      return choices.getD i .null
  | .bernoulliTrial p => do
      let p ← operand "bernoulliTrial" p.asNumber
      let success ← Draw.bernoulli s.hash p.toFloat
      return .ofNat success.toNat
  | .bernoulliFilter p c => do
      let p ← operand "bernoulliFilter" p.asNumber
      let choices ← operand "bernoulliFilter" c.asList
      let kept ← s.filter p.toFloat choices
      return .array kept
  | .randomFloat lo hi => do
      let min ← operand "randomFloat" lo.asNumber
      let max ← operand "randomFloat" hi.asNumber
      return .ofFloat (Draw.uniform s.hash min.toFloat max.toFloat)
  | .randomInteger lo hi => do
      let min ← operand "randomInteger" lo.asInteger
      let max ← operand "randomInteger" hi.asInteger
      let n ← Draw.integer s.hash min.val max.val
      return .ofInt n
  | .sample c n => do
      let choices ← pooled c
      match n with
      | none => return .array (s.shuffle choices)
      | some n => do
          let draws ← operand "sample" n.asInteger
          let size ← sampleSize choices.length draws.val
          return .array ((s.shuffle choices).take size)

end Seed

/-- The answer with a seed depends on the values of the operands only. -/
theorem evalDraw_answer
    {draw : Lottery Expr} {operands : Lottery Json} {env env' : Env} (seed : Seed)
    (h : draw.evaluated env = .ok operands env') :
    answer (evalDraw seed draw env) = seed.drawn operands := by
  -- Both sides check the operands in the same order; where one does not fit, the left one stops
  -- before it evaluates the others.
  cases draw with
  | uniformChoice c =>
      obtain ⟨v, env₁, hc, heq⟩ := ok_of_bind h
      cases heq
      rw [evalDraw, Run.answer_listFor_bind hc]
      simp only [Run.answer_choose]
      rfl
  | weightedChoice c w =>
      obtain ⟨v, env₁, hc, h⟩ := ok_of_bind h
      obtain ⟨v', env₂, hw, heq⟩ := ok_of_bind h
      cases heq
      rw [evalDraw, Run.answer_listFor_bind hc]
      simp only [answer_bind_of_ok hw, Run.answer_demand_bind, Run.answer_choose]
      rfl
  | bernoulliTrial p =>
      obtain ⟨v, env₁, hp, heq⟩ := ok_of_bind h
      cases heq
      rw [evalDraw, Run.answer_numberFor_bind hp]
      simp only [Run.answer_ofExcept_bind]
      rfl
  | bernoulliFilter p c =>
      obtain ⟨v, env₁, hp, h⟩ := ok_of_bind h
      obtain ⟨v', env₂, hc, heq⟩ := ok_of_bind h
      cases heq
      rw [evalDraw, Run.answer_numberFor_bind hp]
      simp only [Run.answer_listFor_bind hc, Run.answer_ofExcept_bind]
      rfl
  | randomFloat lo hi =>
      obtain ⟨v, env₁, hlo, h⟩ := ok_of_bind h
      obtain ⟨v', env₂, hhi, heq⟩ := ok_of_bind h
      cases heq
      rw [evalDraw, Run.answer_numberFor_bind hlo]
      simp only [Run.answer_numberFor_bind hhi]
      rfl
  | randomInteger lo hi =>
      obtain ⟨v, env₁, hlo, h⟩ := ok_of_bind h
      obtain ⟨v', env₂, hhi, heq⟩ := ok_of_bind h
      cases heq
      rw [evalDraw, Run.answer_integerFor_bind hlo]
      simp only [Run.answer_integerFor_bind hhi, Run.answer_ofExcept_bind]
      rfl
  | sample c n =>
      cases n with
      | none =>
          obtain ⟨v, env₁, hc, heq⟩ := ok_of_bind h
          cases heq
          rw [evalDraw, Run.answer_samplePool_bind hc]
          rfl
      | some n =>
          obtain ⟨v, env₁, hc, h⟩ := ok_of_bind h
          obtain ⟨v', env₂, hn, heq⟩ := ok_of_bind h
          cases heq
          rw [evalDraw, Run.answer_samplePool_bind hc]
          simp only [Run.answer_integerFor_bind hn, Run.answer_ofExcept_bind]
          rfl

/-- The salt of a draw, if it has one: the full salt, or else that of the experiment together with
its own. -/
def saltText? (experiment : String) (own fullSalt : Option String) : Option String :=
  match fullSalt, own with
  | some whole, _ => some whole
  | none, some own => some (experiment ++ "." ++ own)
  | none, none => none

theorem seedFor_of_saltText
    {env : Env} {own fullSalt : Option String} {salt : String}
    (h : saltText? env.salt own fullSalt = some salt) (op : String) (units : List Json) :
    seedFor op own fullSalt units env = .ok (Seed.ofSalt salt units) env := by
  cases fullSalt with
  | some whole =>
      cases h
      rfl
  | none =>
      cases own with
      | none => cases h
      | some own =>
          cases h
          rfl

theorem seedFor_of_no_saltText
    {env : Env} {own fullSalt : Option String} (h : saltText? env.salt own fullSalt = none)
    (op : String) (units : List Json) :
    seedFor op own fullSalt units env = .error (.invalidOperator (.noSalt op)) env := by
  cases fullSalt with
  | some whole => cases h
  | none =>
      cases own with
      | some own => cases h
      | none => rfl

/-- A random operator without its draw, at the place where it is evaluated. -/
structure Site where
  /-- The variable of which the operator is directly the value. -/
  name : Option String
  unit : Expr
  salt : Option String
  fullSalt : Option String

/-- What a draw at the site comes to, its value or its fault. -/
def Site.outcome (site : Site) (draw : Lottery Expr) (env : Env) : Except Fault Json :=
  answer (eval site.name (.random draw site.unit site.salt site.fullSalt) env)

/-- Before a return, the units, the salt and the operands of the random operator are evaluated to
these. -/
inductive Supplied (site : Site) (draw : Lottery Expr) (env : Env) (salt : String)
    (units : List Json) (operands : Lottery Json) : Prop
  | intro {v : Json} {env₁ env₂ : Env} (live : env.isHalted = false)
      (unit : eval none site.unit env = .ok v env₁) (units : unitsOf v = units)
      (salt : saltText? env₁.salt (site.salt <|> site.name) site.fullSalt = some salt)
      (operands : draw.evaluated env₁ = .ok operands env₂)

/-- What a random operator comes to depends on its salt, its units and the values of its operands
only. -/
theorem Supplied.outcome
    {site : Site} {draw : Lottery Expr} {env : Env} {salt : String} {units : List Json}
    {operands : Lottery Json} (h : Supplied site draw env salt units operands) :
    site.outcome draw env = (Seed.ofSalt salt units).drawn operands := by
  obtain ⟨live, hunit, rfl, hsalt, hoperands⟩ := h
  rw [Site.outcome, eval, Run.unlessHalted_of_live live, bind_of_ok hunit,
    bind_of_ok (seedFor_of_saltText hsalt _ _), evalDraw_answer _ hoperands]

end Allotment
