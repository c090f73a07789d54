import Allotment.Eval
import Allotment.Proofs.Expr.Nodes
import Allotment.Proofs.Stateful

/-!
# The faults of an evaluation

An evaluation fails in three ways: an operator rejects its arguments, an operand has the wrong
kind, or a name denotes nothing.  The first fault ends the evaluation, so a name that denotes
nothing still does so in the environment that is left behind, and it is the name of a node.

**Results.**
* `eval_raises`: the faults of an evaluation come from its nodes.
-/

namespace Allotment

open Stateful
open EStateM (Result)

/-- The result is a value, or an operator is rejected. -/
inductive Rejecting {α : Type} : Except Fault α → Prop
  | ok (a : α) : Rejecting (.ok a)
  | error (why : OperatorFault) : Rejecting (.error (.invalidOperator why))

section Draws

theorem Rejecting.ite
    {α : Type} {p : Prop} [Decidable p] {r q : Except Fault α}
    (hr : Rejecting r) (hq : Rejecting q) :
    Rejecting (if p then r else q) := by
  split
  · exact hr
  · exact hq

theorem index_rejecting (h len : Nat) : Rejecting (Draw.index h len) :=
  .ite (.error _) (.ok _)

theorem bernoulli_rejecting (h : Nat) (p : Float) : Rejecting (Draw.bernoulli h p) :=
  .ite (.ok _) (.error _)

theorem integer_rejecting (h : Nat) (min max : Int) : Rejecting (Draw.integer h min max) :=
  .ite (.error _) (.ok _)

theorem weighted_rejecting (h : Nat) (weights : List Float) :
    Rejecting (Draw.weighted h weights) := by
  refine .ite (.error _) ?_
  split
  · exact .error _
  · exact .ite (.error _) (.ok _)

theorem weightedPosition_rejecting (h : Nat) (choices : List Json) (weights : List Operand) :
    Rejecting (weightedPosition h choices weights) :=
  .ite (weighted_rejecting h _) (.error _)

theorem filter_rejecting (s : Seed) (p : Float) (choices : List Json) :
    Rejecting (s.filter p choices) := by
  induction choices with
  | nil => exact .ok []
  | cons c rest ih =>
      rw [Seed.filter]
      have hkeep := bernoulli_rejecting (s.hashWith c) p
      generalize Draw.bernoulli (s.hashWith c) p = keep at hkeep
      generalize s.filter p rest = kept at ih
      cases hkeep with
      | error why => exact .error why
      | ok keep =>
          cases ih with
          | error why => exact .error why
          | ok kept => exact .ok _

theorem sampleSize_rejecting (available : Nat) (draws : Int) :
    Rejecting (sampleSize available draws) :=
  .ite (.ok _) (.error _)

end Draws

/-- The fault was raised by an operator, or by a node that reads a name which denotes nothing. -/
def Fault.RaisedBy (nodes : List Expr) (env : Env) : Fault → Prop
  | .undefinedVariable x => .get x ∈ nodes ∧ env.get? x = none
  | .invalidOperator _ => True
  | .typeMismatch _ _ => True
  | _ => False

/-- The faults of a computation are raised by the nodes, in the environments that it leaves. -/
def Raises (nodes : List Expr) {α : Type} (x : Run α) : Prop :=
  ∀ env env' fault, x env = .error fault env' → fault.RaisedBy nodes env'

namespace Raises

variable {nodes : List Expr} {α β : Type}

theorem pure (a : α) :
    Raises nodes (Pure.pure a : Run α) := by
  intro env env' fault h
  cases h

theorem modify (f : Env → Env) :
    Raises nodes (modify f : Run PUnit) := by
  intro env env' fault h
  cases h

theorem rejected (why : OperatorFault) :
    Raises nodes (throw (.invalidOperator why) : Run α) := by
  intro env env' fault h
  cases h
  exact trivial

/-- The first fault of two computations is that of the whole. -/
theorem bind
    {x : Run α} {f : α → Run β} (hx : Raises nodes x) (hf : ∀ a, Raises nodes (f a)) :
    Raises nodes (x >>= f) := by
  intro env env' fault h
  cases hr : x env with
  | ok a env₁ => exact hf a env₁ env' fault ((bind_of_ok hr f).symm.trans h)
  | error e env₁ =>
      cases (bind_of_error hr f).symm.trans h
      exact hx env env' fault hr

/-- A computation that looks at its environment raises what it raises for each one. -/
theorem get_bind
    {f : Env → Run α} (hf : ∀ seen, Raises nodes (f seen)) :
    Raises nodes (get >>= f) :=
  fun env env' fault h => hf env env env' fault h

theorem unlessHalted
    {x : Run Json} (hx : Raises nodes x) :
    Raises nodes (Run.unlessHalted x) := by
  refine get_bind fun seen => ?_
  split
  · exact .pure _
  · exact hx

theorem unlessOverridden
    {x : Run Json} (hx : Raises nodes x) (name : String) :
    Raises nodes (Run.unlessOverridden name x) := by
  refine get_bind fun seen => ?_
  split
  · exact .pure _
  · exact hx

/-- A name that is read and denotes nothing is that of the node. -/
theorem lookup
    {x : String} (hx : .get x ∈ nodes) :
    Raises nodes (Run.lookup x) := by
  intro env env' fault h
  have hget : (get : Run Env) env = .ok env env := rfl
  unfold Run.lookup at h
  rw [bind_of_ok hget] at h
  cases hread : env.get? x with
  | some v =>
      rw [hread] at h
      cases h
  | none =>
      rw [hread] at h
      cases h
      exact ⟨hx, hread⟩

theorem demand (op : String) (r : Except TypeFault α) :
    Raises nodes (Run.demand op r) := by
  intro env env' fault h
  cases r with
  | ok a => cases h
  | error why =>
      cases h
      exact trivial

theorem ofExcept
    {r : Except Fault α} (hr : Rejecting r) :
    Raises nodes (Run.ofExcept r) := by
  cases hr with
  | ok a => exact .pure a
  | error why => exact .rejected why

theorem choose
    {position : Except Fault Nat} (h : Rejecting position) (choices : List Json) :
    Raises nodes (choose choices position) :=
  (ofExcept h).bind fun _ => .pure _

theorem aggregateOf (a : Aggregate) (v : Json) :
    Raises nodes (aggregateOf a v) := by
  refine (demand a.name v.asNumbers).bind fun ns => ?_
  split
  · exact .pure _
  · exact .rejected _

theorem seedFor (op : String) (salt fullSalt : Option String) (units : List Json) :
    Raises nodes (seedFor op salt fullSalt units) := by
  cases fullSalt with
  | some whole => exact .pure _
  | none =>
      cases salt with
      | some own => exact .get_bind fun _ => .pure _
      | none => exact .rejected _

section Operands

variable {x : Run Json} (hx : Raises nodes x) (op : String)
include hx

theorem listFor : Raises nodes (Run.listFor op x) := hx.bind fun _ => .demand op _

theorem numberFor : Raises nodes (Run.numberFor op x) := hx.bind fun _ => .demand op _

theorem integerFor : Raises nodes (Run.integerFor op x) := hx.bind fun _ => .demand op _

theorem samplePool : Raises nodes (samplePool x) := by
  refine (hx.listFor "sample").bind fun choices => ?_
  split
  · exact .rejected _
  · exact .pure _

end Operands

end Raises

section Evaluation

variable {nodes : List Expr}

mutual

/-- The faults of an evaluation are raised by nodes of the expression. -/
theorem eval_raises :
    ∀ (e : Expr) (name : Option String), e.nodes ⊆ nodes → Raises nodes (eval name e)
  | .value _, name, _ => (Raises.pure _).unlessHalted
  | .list es, name, hn => by
      have hes := evalItems_raises es (List.cons_subset.1 hn).2
      exact (hes.bind fun _ => .pure _).unlessHalted
  | .literal _, name, _ => (Raises.pure _).unlessHalted
  | .get x, name, hn => (Raises.lookup (List.cons_subset.1 hn).1).unlessHalted
  | .set x e, name, hn => by
      have he := eval_raises e (some x) (List.cons_subset.1 hn).2
      have hset := he.bind fun v =>
        (Raises.modify fun env => env.assign x v).bind fun _ => .pure Json.null
      exact (hset.unlessOverridden x).unlessHalted
  | .seq es, name, hn => (evalSeq_raises es .null (List.cons_subset.1 hn).2).unlessHalted
  | .ret e, name, hn => by
      have he := eval_raises e none (List.cons_subset.1 hn).2
      exact (he.bind fun v => (Raises.modify _).bind fun _ => .pure _).unlessHalted
  | .cond bs, name, hn => (evalBranches_raises bs (List.cons_subset.1 hn).2).unlessHalted
  | .array e, name, hn => by
      have he := eval_raises e none (List.cons_subset.1 hn).2
      exact ((he.listFor "array").bind fun _ => .pure _).unlessHalted
  | .map es, name, hn => by
      have hes := evalEntries_raises es (List.cons_subset.1 hn).2
      exact (hes.bind fun _ => .pure _).unlessHalted
  | .index b i, name, hn => by
      obtain ⟨hb, hi⟩ := List.append_subset.1 (List.cons_subset.1 hn).2
      have hb := eval_raises b none hb
      have hi := eval_raises i none hi
      exact (hb.bind fun v => hi.bind fun w => .demand "index" _).unlessHalted
  | .coalesce es, name, hn => (evalFirst_raises es (List.cons_subset.1 hn).2).unlessHalted
  | .all es, name, hn => (evalAll_raises es (List.cons_subset.1 hn).2).unlessHalted
  | .any es, name, hn => (evalAny_raises es (List.cons_subset.1 hn).2).unlessHalted
  | .compare c l r, name, hn => by
      obtain ⟨hl, hr⟩ := List.append_subset.1 (List.cons_subset.1 hn).2
      have hl := eval_raises l none hl
      have hr := eval_raises r none hr
      refine (hl.bind fun v => hr.bind fun w => ?_).unlessHalted
      exact (Raises.demand c.name _).bind fun _ => .pure _
  | .aggregate a e, name, hn => by
      have he := eval_raises e none (List.cons_subset.1 hn).2
      exact (he.bind fun v => .aggregateOf a v).unlessHalted
  | .arithmetic a l r, name, hn => by
      obtain ⟨hl, hr⟩ := List.append_subset.1 (List.cons_subset.1 hn).2
      have hl := eval_raises l none hl
      have hr := eval_raises r none hr
      refine ((hl.numberFor a.name).bind fun m => ?_).unlessHalted
      exact (hr.numberFor a.name).bind fun n => .demand a.name _
  | .unary u e, name, hn => by
      have he := eval_raises e none (List.cons_subset.1 hn).2
      exact (he.bind fun v => .demand u.name _).unlessHalted
  | .random draw unit salt fullSalt, name, hn => by
      obtain ⟨hu, hd⟩ := List.append_subset.1 (List.cons_subset.1 hn).2
      have hu := eval_raises unit none hu
      refine (hu.bind fun v => (Raises.seedFor _ _ _ _).bind fun seed => ?_).unlessHalted
      exact evalDraw_raises seed draw hd

theorem evalItems_raises :
    ∀ es : List Expr, Expr.nodesAll es ⊆ nodes → Raises nodes (evalItems es)
  | [], _ => .pure _
  | e :: rest, hn => by
      obtain ⟨he, hrest⟩ := List.append_subset.1 hn
      have he := eval_raises e none he
      have hrest := evalItems_raises rest hrest
      exact he.bind fun _ => hrest.bind fun _ => .pure _

theorem evalEntries_raises :
    ∀ es : List (String × Expr), Expr.nodesEntries es ⊆ nodes → Raises nodes (evalEntries es)
  | [], _ => .pure _
  | (k, e) :: rest, hn => by
      obtain ⟨he, hrest⟩ := List.append_subset.1 hn
      have he := eval_raises e none he
      have hrest := evalEntries_raises rest hrest
      exact he.bind fun _ => hrest.bind fun _ => .pure _

theorem evalSeq_raises :
    ∀ (es : List Expr) (last : Json), Expr.nodesAll es ⊆ nodes → Raises nodes (evalSeq last es)
  | [], last, _ => .pure last
  | e :: rest, last, hn => by
      obtain ⟨he, hrest⟩ := List.append_subset.1 hn
      have he := eval_raises e none he
      refine he.bind fun v => .get_bind fun seen => ?_
      split
      · exact .pure v
      · exact evalSeq_raises rest v hrest

theorem evalBranches_raises :
    ∀ bs : List (Expr × Expr), Expr.nodesBranches bs ⊆ nodes → Raises nodes (evalBranches bs)
  | [], _ => .pure _
  | (c, e) :: rest, hn => by
      obtain ⟨hc, hthen⟩ := List.append_subset.1 hn
      obtain ⟨he, hrest⟩ := List.append_subset.1 hthen
      have hc := eval_raises c none hc
      refine hc.bind fun v => ?_
      split
      · exact eval_raises e none he
      · exact evalBranches_raises rest hrest

theorem evalFirst_raises :
    ∀ es : List Expr, Expr.nodesAll es ⊆ nodes → Raises nodes (evalFirst es)
  | [], _ => .pure _
  | e :: rest, hn => by
      obtain ⟨he, hrest⟩ := List.append_subset.1 hn
      have he := eval_raises e none he
      refine he.bind fun v => ?_
      split
      · exact evalFirst_raises rest hrest
      · exact .pure _

theorem evalAll_raises :
    ∀ es : List Expr, Expr.nodesAll es ⊆ nodes → Raises nodes (evalAll es)
  | [], _ => .pure _
  | e :: rest, hn => by
      obtain ⟨he, hrest⟩ := List.append_subset.1 hn
      have he := eval_raises e none he
      refine he.bind fun v => ?_
      split
      · exact evalAll_raises rest hrest
      · exact .pure _

theorem evalAny_raises :
    ∀ es : List Expr, Expr.nodesAll es ⊆ nodes → Raises nodes (evalAny es)
  | [], _ => .pure _
  | e :: rest, hn => by
      obtain ⟨he, hrest⟩ := List.append_subset.1 hn
      have he := eval_raises e none he
      refine he.bind fun v => ?_
      split
      · exact .pure _
      · exact evalAny_raises rest hrest

theorem evalDraw_raises (seed : Seed) :
    ∀ draw : Lottery Expr, Expr.nodesDraw draw ⊆ nodes → Raises nodes (evalDraw seed draw)
  | .uniformChoice c, hn => by
      have hc := eval_raises c none hn
      exact (hc.listFor _).bind fun _ => .choose (index_rejecting _ _) _
  | .weightedChoice c w, hn => by
      obtain ⟨hc, hw⟩ := List.append_subset.1 hn
      have hc := eval_raises c none hc
      have hw := eval_raises w none hw
      refine (hc.listFor _).bind fun _ => hw.bind fun _ => ?_
      exact (Raises.demand _ _).bind fun _ => .choose (weightedPosition_rejecting _ _ _) _
  | .bernoulliTrial p, hn => by
      have hp := eval_raises p none hn
      refine (hp.numberFor _).bind fun _ => ?_
      exact (Raises.ofExcept (bernoulli_rejecting _ _)).bind fun _ => .pure _
  | .bernoulliFilter p c, hn => by
      obtain ⟨hp, hc⟩ := List.append_subset.1 hn
      have hp := eval_raises p none hp
      have hc := eval_raises c none hc
      refine (hp.numberFor _).bind fun _ => (hc.listFor _).bind fun _ => ?_
      exact (Raises.ofExcept (filter_rejecting _ _ _)).bind fun _ => .pure _
  | .randomFloat lo hi, hn => by
      obtain ⟨hl, hh⟩ := List.append_subset.1 hn
      have hl := eval_raises lo none hl
      have hh := eval_raises hi none hh
      exact (hl.numberFor _).bind fun _ => (hh.numberFor _).bind fun _ => .pure _
  | .randomInteger lo hi, hn => by
      obtain ⟨hl, hh⟩ := List.append_subset.1 hn
      have hl := eval_raises lo none hl
      have hh := eval_raises hi none hh
      refine (hl.integerFor _).bind fun _ => (hh.integerFor _).bind fun _ => ?_
      exact (Raises.ofExcept (integer_rejecting _ _ _)).bind fun _ => .pure _
  | .sample c none, hn => by
      have hc := eval_raises c none hn
      exact hc.samplePool.bind fun _ => .pure _
  | .sample c (some n), hn => by
      obtain ⟨hc, hs⟩ := List.append_subset.1 hn
      have hc := eval_raises c none hc
      have hs := eval_raises n none hs
      refine hc.samplePool.bind fun _ => (hs.integerFor _).bind fun _ => ?_
      exact (Raises.ofExcept (sampleSize_rejecting _ _)).bind fun _ => .pure _

end

end Evaluation

end Allotment
