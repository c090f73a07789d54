import Allotment.Proofs.Draw.Guarded
import Allotment.Proofs.Eval.Faults
import Allotment.Proofs.Operation.Modulo

/-!
# Evaluations with guarded steps

An evaluation draws positions, takes elements of lists, shuffles and shortens them, and divides
integers.  Here it is carried out with these steps guarded, wherever an operator takes them.  The
two evaluations come to the same, for every expression and in every environment, so no guard ever
stops one.

**Results.**
* `Passes.bind`: what no guard stops, part by part, no guard stops as a whole.
* `guardedEval_passes`: no guard stops the evaluation of an expression.
* `evaluation_never_stuck`: how evaluations with guarded steps end.
-/

namespace Allotment

open Guarded Stateful

/-- A computation that changes an environment, with guarded steps. -/
abbrev GuardedRun := EStateM Stop Env

/-- A computation in which no step is guarded. -/
def Run.unguarded {α : Type} (x : Run α) : GuardedRun α := fun env =>
  match x env with
  | .ok a env' => .ok a env'
  | .error e env' => .error (.fault e) env'

namespace GuardedRun

variable {α : Type}

/-- The result, or why there is none. -/
def attempt : Except Stop α → GuardedRun α
  | .ok a => pure a
  | .error why => throw why

/-- Null, once the environment is halted. -/
def unlessHalted (run : GuardedRun Json) : GuardedRun Json := do
  if (← get).isHalted then return .null else run

/-- Null, if the variable is overridden. -/
def unlessOverridden (x : String) (run : GuardedRun Json) : GuardedRun Json := do
  if (← get).isOverridden x then return .null else run

/-- A value computed for an operator that demands one of its kind. -/
def operandFor (op : String) (kind : Json → Except TypeFault α) (run : GuardedRun Json) :
    GuardedRun α := do
  Run.unguarded (Run.demand op (kind (← run)))

end GuardedRun

open GuardedRun

/-- Choices to take a sample from. -/
def guardedSamplePool (run : GuardedRun Json) : GuardedRun (List Json) := do
  let choices ← operandFor "sample" Json.asList run
  if choices.isEmpty then throw (.fault (.invalidOperator (.noChoices "sample")))
  else return choices

/-- The choice at a drawn position, which the choices have to have. -/
def guardedChoose (choices : List Json) (position : Except Stop Nat) : GuardedRun Json := do
  let i ← attempt position
  attempt (step choices[i]?)

/-- The position that the weights draw, of which there have to be as many as choices, with guarded
steps. -/
def guardedWeightedPosition (h : Nat) (choices : List Json) (weights : List Operand) :
    Except Stop Nat :=
  if weights.length = choices.length then
    Draw.guardedWeighted h (weights.map Operand.toFloat)
  else .error (.fault (.invalidOperator (.weightCount choices.length weights.length)))

/-- The value of an operation on two numbers, with guarded steps. -/
def Arithmetic.guardedApply (a : Arithmetic) (m n : Operand) : Except Stop Json :=
  if n.isZero then .error (.fault (.typeMismatch a.name .divisionByZero))
  else
    match a, m, n with
    | .modulo, .int m, .int n => (step (m.moduloByWords? n)).map .ofSigned
    | .modulo, m, n => .ok (.ofFloat (floatModulo m.toFloat n.toFloat))
    | .quotient, m, n => .ok (.ofFloat (m.toFloat / n.toFloat))

mutual

/-- Evaluates an expression with guarded steps. -/
def guardedEval (name : Option String) : Expr → GuardedRun Json
  | .value v => unlessHalted (return v)
  | .list items => unlessHalted do return .array (← guardedItems items)
  | .literal v => unlessHalted (return v)
  | .get x => unlessHalted (Run.unguarded (Run.lookup x))
  | .set x e => unlessHalted <| unlessOverridden x do
      let v ← guardedEval (some x) e
      modify fun env => env.assign x v
      return .null
  | .seq body => unlessHalted (guardedSeq .null body)
  | .ret e => unlessHalted do
      let v ← guardedEval none e
      modify fun env => env.halt v.truthy
      return .null
  | .cond branches => unlessHalted (guardedBranches branches)
  | .array e => unlessHalted do
      return .array (← operandFor "array" Json.asList (guardedEval none e))
  | .map entries => unlessHalted do return .object (← guardedEntries entries)
  | .index b i => unlessHalted do
      let base ← guardedEval none b
      let index ← guardedEval none i
      Run.unguarded (Run.demand "index" (base.pick index))
  | .coalesce es => unlessHalted (guardedFirst es)
  | .all es => unlessHalted (guardedAll es)
  | .any es => unlessHalted (guardedAny es)
  | .compare c l r => unlessHalted do
      let v ← guardedEval none l
      let w ← guardedEval none r
      return .bool (← Run.unguarded (Run.demand c.name (c.apply v w)))
  | .aggregate a e => unlessHalted do Run.unguarded (aggregateOf a (← guardedEval none e))
  | .arithmetic a l r => unlessHalted do
      let m ← operandFor a.name Json.asNumber (guardedEval none l)
      let n ← operandFor a.name Json.asNumber (guardedEval none r)
      attempt (a.guardedApply m n)
  | .unary u e => unlessHalted do
      Run.unguarded (Run.demand u.name (u.apply (← guardedEval none e)))
  | .random draw unit salt fullSalt => unlessHalted do
      let v ← guardedEval none unit
      let seed ← Run.unguarded (seedFor draw.name (salt <|> name) fullSalt (unitsOf v))
      guardedDraw seed draw

/-- The values of a list of expressions. -/
def guardedItems : List Expr → GuardedRun (List Json)
  | [] => return []
  | e :: rest => do
      let v ← guardedEval none e
      let vs ← guardedItems rest
      return v :: vs

/-- The values under their names. -/
def guardedEntries : List (String × Expr) → GuardedRun (List (String × Json))
  | [] => return []
  | (k, e) :: rest => do
      let v ← guardedEval none e
      let vs ← guardedEntries rest
      return (k, v) :: vs

/-- The value of the last expression, or of the one that ended the evaluation. -/
def guardedSeq (last : Json) : List Expr → GuardedRun Json
  | [] => return last
  | e :: rest => do
      let v ← guardedEval none e
      if (← get).isHalted then return v else guardedSeq v rest

/-- The value of the first branch whose condition is true, or null. -/
def guardedBranches : List (Expr × Expr) → GuardedRun Json
  | [] => return .null
  | (c, e) :: rest => do
      if (← guardedEval none c).truthy then guardedEval none e else guardedBranches rest

/-- The first value that is not null, or null. -/
def guardedFirst : List Expr → GuardedRun Json
  | [] => return .null
  | e :: rest => do
      match ← guardedEval none e with
      | .null => guardedFirst rest
      | v => return v

/-- Whether all values are true, up to the first one that is not. -/
def guardedAll : List Expr → GuardedRun Json
  | [] => return .bool true
  | e :: rest => do
      if (← guardedEval none e).truthy then guardedAll rest else return .bool false

/-- Whether some value is true, up to the first one that is. -/
def guardedAny : List Expr → GuardedRun Json
  | [] => return .bool false
  | e :: rest => do
      if (← guardedEval none e).truthy then return .bool true else guardedAny rest

/-- Draws with a seed and guarded steps. -/
def guardedDraw (seed : Seed) : Lottery Expr → GuardedRun Json
  | .uniformChoice c => do
      let choices ← operandFor "uniformChoice" Json.asList (guardedEval none c)
      guardedChoose choices (Draw.guardedIndex seed.hash choices.length)
  | .weightedChoice c w => do
      let choices ← operandFor "weightedChoice" Json.asList (guardedEval none c)
      let weights ← Run.unguarded (Run.demand "weightedChoice" (← guardedEval none w).asNumbers)
      guardedChoose choices (guardedWeightedPosition seed.hash choices weights)
  | .bernoulliTrial p => do
      let p ← operandFor "bernoulliTrial" Json.asNumber (guardedEval none p)
      let success ← Run.unguarded (Run.ofExcept (Draw.bernoulli seed.hash p.toFloat))
      return .ofNat success.toNat
  | .bernoulliFilter p c => do
      let p ← operandFor "bernoulliFilter" Json.asNumber (guardedEval none p)
      let choices ← operandFor "bernoulliFilter" Json.asList (guardedEval none c)
      return .array (← Run.unguarded (Run.ofExcept (seed.filter p.toFloat choices)))
  | .randomFloat lo hi => do
      let min ← operandFor "randomFloat" Json.asNumber (guardedEval none lo)
      let max ← operandFor "randomFloat" Json.asNumber (guardedEval none hi)
      return .ofFloat (Draw.uniform seed.hash min.toFloat max.toFloat)
  | .randomInteger lo hi => do
      let min ← operandFor "randomInteger" Json.asInteger (guardedEval none lo)
      let max ← operandFor "randomInteger" Json.asInteger (guardedEval none hi)
      return .ofInt (← attempt (Draw.guardedInteger seed.hash min max))
  | .sample c none => do
      let choices ← guardedSamplePool (guardedEval none c)
      return .array (← attempt (step (seed.guardedShuffle choices)))
  | .sample c (some n) => do
      let choices ← guardedSamplePool (guardedEval none c)
      let draws ← operandFor "sample" Json.asInteger (guardedEval none n)
      let size ← Run.unguarded (Run.ofExcept (sampleSize choices.length draws.val))
      let shuffled ← attempt (step (seed.guardedShuffle choices))
      return .array (← attempt (step (take? size shuffled)))

end

/-- The computation with guarded steps comes to what the other one comes to. -/
def Passes {α : Type} (y : GuardedRun α) (x : Run α) : Prop := y = Run.unguarded x

namespace Passes

variable {α β : Type}

theorem unguarded (x : Run α) : Passes (Run.unguarded x) x := rfl

theorem pure (a : α) : Passes (Pure.pure a) (Pure.pure a) := rfl

theorem modify (f : Env → Env) : Passes (modify f) (modify f) := rfl

theorem fault (e : Fault) : Passes (throw (.fault e) : GuardedRun α) (throw e) := rfl

/-- What no guard stops, part by part, no guard stops as a whole. -/
theorem bind
    {y : GuardedRun α} {x : Run α} {g : α → GuardedRun β} {f : α → Run β}
    (h : Passes y x) (hf : ∀ a, Passes (g a) (f a)) :
    Passes (y >>= g) (x >>= f) := by
  cases h
  funext env
  cases hx : x env with
  | ok a env' =>
      have hy : Run.unguarded x env = .ok a env' := by rw [Run.unguarded, hx]
      rw [bind_of_ok hy, Run.unguarded, bind_of_ok hx, hf a]
      rfl
  | error e env' =>
      have hy : Run.unguarded x env = .error (.fault e) env' := by rw [Run.unguarded, hx]
      rw [bind_of_error hy, Run.unguarded, bind_of_error hx]

/-- A computation that looks at its environment. -/
theorem get_bind
    {g : Env → GuardedRun α} {f : Env → Run α} (hf : ∀ seen, Passes (g seen) (f seen)) :
    Passes (get >>= g) (get >>= f) :=
  bind rfl hf

theorem unlessHalted {y : GuardedRun Json} {x : Run Json} (h : Passes y x) :
    Passes (GuardedRun.unlessHalted y) (Run.unlessHalted x) := by
  refine get_bind fun seen => ?_
  split
  · exact pure _
  · exact h

theorem unlessOverridden {y : GuardedRun Json} {x : Run Json} (h : Passes y x) (name : String) :
    Passes (GuardedRun.unlessOverridden name y) (Run.unlessOverridden name x) := by
  refine get_bind fun seen => ?_
  split
  · exact pure _
  · exact h

/-- No guard stands between an operand and its kind. -/
theorem operandFor
    {y : GuardedRun Json} {x : Run Json} (h : Passes y x) (op : String)
    (kind : Json → Except TypeFault α) :
    Passes (GuardedRun.operandFor op kind y) (do Run.demand op (kind (← x))) :=
  h.bind fun _ => unguarded _

theorem attempt {q : Except Stop α} {r : Except Fault α} (h : q = Guarded.unguarded r) :
    Passes (GuardedRun.attempt q) (Run.ofExcept r) := by
  cases h
  cases r with
  | ok a => rfl
  | error e => rfl

/-- What follows a result is guarded for that result only. -/
theorem ofExcept_bind
    {r : Except Fault α} {g : α → GuardedRun β} {f : α → Run β}
    (hf : ∀ a, r = .ok a → Passes (g a) (f a)) :
    Passes (Run.unguarded (Run.ofExcept r) >>= g) (Run.ofExcept r >>= f) := by
  cases r with
  | ok a => exact hf a rfl
  | error e => rfl

theorem samplePool {y : GuardedRun Json} {x : Run Json} (h : Passes y x) :
    Passes (guardedSamplePool y) (Allotment.samplePool x) := by
  refine (h.operandFor "sample" Json.asList).bind fun choices => ?_
  split
  · exact fault _
  · exact pure _

/-- The choices have a drawn position that lies in their list. -/
theorem choose
    {choices : List Json} {q : Except Stop Nat} {position : Except Fault Nat}
    (h : q = Guarded.unguarded position) (hlt : Draw.Within choices.length position) :
    Passes (guardedChoose choices q) (Allotment.choose choices position) := by
  cases h
  cases position with
  | error e => rfl
  | ok i =>
      have hitem : choices[i]? = some (choices.getD i .null) := by
        simp [hlt i rfl]
      show GuardedRun.attempt (step choices[i]?) = _
      rw [hitem]
      rfl

end Passes

theorem weightedPosition_within (h : Nat) (choices : List Json) (weights : List Operand) :
    Draw.Within choices.length (weightedPosition h choices weights) := by
  intro i hi
  rw [weightedPosition] at hi
  split at hi
  · rename_i hlength
    have hlt := Draw.weighted_within _ _ i hi
    rwa [List.length_map, hlength] at hlt
  · cases hi

theorem guardedWeightedPosition_eq (h : Nat) (choices : List Json) (weights : List Operand) :
    guardedWeightedPosition h choices weights =
      Guarded.unguarded (weightedPosition h choices weights) := by
  rw [guardedWeightedPosition, weightedPosition]
  split
  · exact Draw.guardedWeighted_eq _ _
  · rfl

/-- A sample is not larger than the choices. -/
theorem sampleSize_le {available size : Nat} {draws : Int}
    (h : sampleSize available draws = .ok size) : size ≤ available := by
  rw [sampleSize] at h
  split at h
  · cases h
    omega
  · cases h

/-- The divisor is checked before the integers are divided. -/
theorem Arithmetic.guardedApply_passes (a : Arithmetic) (m n : Operand) :
    Passes (GuardedRun.attempt (a.guardedApply m n)) (Run.demand a.name (a.apply m n)) := by
  rw [guardedApply.eq_def, apply.eq_def]
  cases hzero : n.isZero with
  | true => rfl
  | false =>
      cases a with
      | quotient => rfl
      | modulo =>
          cases m with
          | float x => rfl
          | int m =>
              cases n with
              | float y => rfl
              | int n =>
                  have hne : n.val ≠ 0 := by
                    rw [← Operand.isZero_int_iff.ne, hzero]
                    decide
                  obtain ⟨hwords, -⟩ := Signed.moduloByWords?_eq m hne
                  simp only [hwords]
                  rfl

section Evaluation

mutual

/-- No guard stops the evaluation of an expression. -/
theorem guardedEval_passes :
    ∀ (e : Expr) (name : Option String), Passes (guardedEval name e) (eval name e)
  | .value _, name => (Passes.pure _).unlessHalted
  | .list es, name => ((guardedItems_passes es).bind fun _ => .pure _).unlessHalted
  | .literal _, name => (Passes.pure _).unlessHalted
  | .get x, name => (Passes.unguarded (Run.lookup x)).unlessHalted
  | .set x e, name => by
      have he := guardedEval_passes e (some x)
      have hset := he.bind fun v =>
        (Passes.modify fun env => env.assign x v).bind fun _ => .pure Json.null
      exact (hset.unlessOverridden x).unlessHalted
  | .seq es, name => (guardedSeq_passes es .null).unlessHalted
  | .ret e, name => by
      have he := guardedEval_passes e none
      exact (he.bind fun v => (Passes.modify _).bind fun _ => .pure _).unlessHalted
  | .cond bs, name => (guardedBranches_passes bs).unlessHalted
  | .array e, name => by
      have he := guardedEval_passes e none
      exact ((he.operandFor "array" Json.asList).bind fun _ => .pure _).unlessHalted
  | .map es, name => ((guardedEntries_passes es).bind fun _ => .pure _).unlessHalted
  | .index b i, name => by
      have hb := guardedEval_passes b none
      have hi := guardedEval_passes i none
      exact (hb.bind fun v => hi.bind fun w => .unguarded _).unlessHalted
  | .coalesce es, name => (guardedFirst_passes es).unlessHalted
  | .all es, name => (guardedAll_passes es).unlessHalted
  | .any es, name => (guardedAny_passes es).unlessHalted
  | .compare c l r, name => by
      have hl := guardedEval_passes l none
      have hr := guardedEval_passes r none
      refine (hl.bind fun v => hr.bind fun w => ?_).unlessHalted
      exact (Passes.unguarded _).bind fun _ => .pure _
  | .aggregate a e, name => by
      have he := guardedEval_passes e none
      exact (he.bind fun v => .unguarded _).unlessHalted
  | .arithmetic a l r, name => by
      have hl := guardedEval_passes l none
      have hr := guardedEval_passes r none
      refine ((hl.operandFor a.name Json.asNumber).bind fun m => ?_).unlessHalted
      exact (hr.operandFor a.name Json.asNumber).bind fun n => a.guardedApply_passes m n
  | .unary u e, name => by
      have he := guardedEval_passes e none
      exact (he.bind fun v => .unguarded _).unlessHalted
  | .random draw unit salt fullSalt, name => by
      have hu := guardedEval_passes unit none
      refine (hu.bind fun v => (Passes.unguarded _).bind fun seed => ?_).unlessHalted
      exact guardedDraw_passes seed draw

theorem guardedItems_passes : ∀ es : List Expr, Passes (guardedItems es) (evalItems es)
  | [] => .pure _
  | e :: rest => by
      have he := guardedEval_passes e none
      have hrest := guardedItems_passes rest
      exact he.bind fun _ => hrest.bind fun _ => .pure _

theorem guardedEntries_passes :
    ∀ es : List (String × Expr), Passes (guardedEntries es) (evalEntries es)
  | [] => .pure _
  | (k, e) :: rest => by
      have he := guardedEval_passes e none
      have hrest := guardedEntries_passes rest
      exact he.bind fun _ => hrest.bind fun _ => .pure _

theorem guardedSeq_passes :
    ∀ (es : List Expr) (last : Json), Passes (guardedSeq last es) (evalSeq last es)
  | [], last => .pure last
  | e :: rest, last => by
      have he := guardedEval_passes e none
      refine he.bind fun v => .get_bind fun seen => ?_
      split
      · exact .pure v
      · exact guardedSeq_passes rest v

theorem guardedBranches_passes :
    ∀ bs : List (Expr × Expr), Passes (guardedBranches bs) (evalBranches bs)
  | [] => .pure _
  | (c, e) :: rest => by
      have hc := guardedEval_passes c none
      refine hc.bind fun v => ?_
      split
      · exact guardedEval_passes e none
      · exact guardedBranches_passes rest

theorem guardedFirst_passes : ∀ es : List Expr, Passes (guardedFirst es) (evalFirst es)
  | [] => .pure _
  | e :: rest => by
      have he := guardedEval_passes e none
      refine he.bind fun v => ?_
      cases v with
      | null => exact guardedFirst_passes rest
      | _ => exact .pure _

theorem guardedAll_passes : ∀ es : List Expr, Passes (guardedAll es) (evalAll es)
  | [] => .pure _
  | e :: rest => by
      have he := guardedEval_passes e none
      refine he.bind fun v => ?_
      split
      · exact guardedAll_passes rest
      · exact .pure _

theorem guardedAny_passes : ∀ es : List Expr, Passes (guardedAny es) (evalAny es)
  | [] => .pure _
  | e :: rest => by
      have he := guardedEval_passes e none
      refine he.bind fun v => ?_
      split
      · exact .pure _
      · exact guardedAny_passes rest

theorem guardedDraw_passes (seed : Seed) :
    ∀ draw : Lottery Expr, Passes (guardedDraw seed draw) (evalDraw seed draw)
  | .uniformChoice c => by
      have hc := guardedEval_passes c none
      refine (hc.operandFor "uniformChoice" Json.asList).bind fun choices => ?_
      exact .choose (Draw.guardedIndex_eq _ _) (Draw.index_within _ _)
  | .weightedChoice c w => by
      have hc := guardedEval_passes c none
      have hw := guardedEval_passes w none
      refine (hc.operandFor "weightedChoice" Json.asList).bind fun choices => ?_
      refine hw.bind fun v => (Passes.unguarded _).bind fun weights => ?_
      exact .choose (guardedWeightedPosition_eq _ _ _) (weightedPosition_within _ _ _)
  | .bernoulliTrial p => by
      have hp := guardedEval_passes p none
      refine (hp.operandFor "bernoulliTrial" Json.asNumber).bind fun p => ?_
      exact (Passes.unguarded _).bind fun _ => .pure _
  | .bernoulliFilter p c => by
      have hp := guardedEval_passes p none
      have hc := guardedEval_passes c none
      refine (hp.operandFor "bernoulliFilter" Json.asNumber).bind fun p => ?_
      refine (hc.operandFor "bernoulliFilter" Json.asList).bind fun choices => ?_
      exact (Passes.unguarded _).bind fun _ => .pure _
  | .randomFloat lo hi => by
      have hl := guardedEval_passes lo none
      have hh := guardedEval_passes hi none
      refine (hl.operandFor "randomFloat" Json.asNumber).bind fun min => ?_
      exact (hh.operandFor "randomFloat" Json.asNumber).bind fun max => .pure _
  | .randomInteger lo hi => by
      have hl := guardedEval_passes lo none
      have hh := guardedEval_passes hi none
      refine (hl.operandFor "randomInteger" Json.asInteger).bind fun min => ?_
      refine (hh.operandFor "randomInteger" Json.asInteger).bind fun max => ?_
      have hhash := Nat.le_of_lt_succ seed.hash_lt
      exact (Passes.attempt (Draw.guardedInteger_eq hhash)).bind fun _ => .pure _
  | .sample c none => by
      have hc := guardedEval_passes c none
      refine hc.samplePool.bind fun choices => ?_
      rw [seed.guardedShuffle_eq]
      exact .pure _
  | .sample c (some n) => by
      have hc := guardedEval_passes c none
      have hs := guardedEval_passes n none
      refine hc.samplePool.bind fun choices => ?_
      refine (hs.operandFor "sample" Json.asInteger).bind fun draws => ?_
      refine .ofExcept_bind fun size hsize => ?_
      -- The size is checked against the choices and used on the shuffle of them.
      have hle : size ≤ (seed.shuffle choices).length := by
        rw [Seed.shuffle, length_shuffleWith]
        exact sampleSize_le hsize
      rw [seed.guardedShuffle_eq]
      show Passes (GuardedRun.attempt (step (take? size (seed.shuffle choices))) >>= _) _
      rw [take?_of_le hle]
      exact .pure _

end

end Evaluation

/-- An evaluation with guarded steps has come to a value, or to a fault of one of three kinds. -/
inductive Concluded : EStateM.Result Stop Env Json → Prop
  | value (v : Json) (env : Env) : Concluded (.ok v env)
  | rejected (why : OperatorFault) (env : Env) :
      Concluded (.error (.fault (.invalidOperator why)) env)
  | undefined (x : String) (env : Env) : Concluded (.error (.fault (.undefinedVariable x)) env)
  | mismatched (op : String) (why : TypeFault) (env : Env) :
      Concluded (.error (.fault (.typeMismatch op why)) env)

/-- An evaluation concludes, since its nodes raise no other faults. -/
theorem concluded_unguarded_eval (name : Option String) (e : Expr) (env : Env) :
    Concluded (Run.unguarded (eval name e) env) := by
  rw [Run.unguarded]
  cases h : eval name e env with
  | ok v env' => exact .value v env'
  | error fault env' =>
      have hraised := eval_raises e name (List.Subset.refl _) env env' fault h
      cases fault with
      | invalidOperator why => exact .rejected why env'
      | undefinedVariable x => exact .undefined x env'
      | typeMismatch op why => exact .mismatched op why env'
      | _ => exact hraised.elim

/-- Whatever the hash and the weights are, the positions that are drawn lie in their lists; no guard
stops a shuffle; and no guard stops an evaluation, which comes to a value or to a fault of one of
three kinds. -/
theorem evaluation_never_stuck :
    (∀ h len, Draw.Within len (Draw.index h len)) ∧
    (∀ h (weights : List Float), Draw.Within weights.length (Draw.weighted h weights)) ∧
    (∀ (seed : Seed) (choices : List Json),
      seed.guardedShuffle choices = some (seed.shuffle choices)) ∧
    ∀ (name : Option String) (e : Expr) (env : Env),
      guardedEval name e env = Run.unguarded (eval name e) env ∧
        Concluded (guardedEval name e env) := by
  refine ⟨Draw.index_within, Draw.weighted_within, Seed.guardedShuffle_eq, fun name e env => ?_⟩
  have hpasses : guardedEval name e = Run.unguarded (eval name e) := guardedEval_passes e name
  rw [hpasses]
  exact ⟨rfl, concluded_unguarded_eval name e env⟩

end Allotment
