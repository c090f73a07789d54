import Allotment.Eval
import Allotment.Proofs.Stateful
import Allotment.Proofs.Expr.Revision

/-!
# Evaluations in step

An evaluation looks at its environment in four ways only: whether it is halted, which salt it
has, whether a variable is overridden, and what a name that is read denotes.  It changes it in
two ways: by an assignment and by a halt.

So an expression is evaluated in step from any two environments whose relation fixes the
answers and survives the changes, as far as the nodes of the expression call for it.  The second
evaluation may also be one of the expression with revised settings, if none of the environments
in which it sets a variable shows the difference.

**Results.**
* `eval_revised`: the expression and its revision are evaluated in step.
* `eval_inStep`: the expression is evaluated in step with itself.
* `eval_keeps`: what every assignment and every halt keep, an evaluation keeps.
-/

namespace Allotment

open Stateful

/-- Environments in the relation look alike to the nodes and stay in it when the nodes change
them. -/
structure Respects (R : Env → Env → Prop) (nodes : List Expr) : Prop where
  /-- Both environments are halted, or neither is. -/
  halted : ∀ {a b}, R a b → a.isHalted = b.isHalted
  salt : ∀ {a b}, R a b → a.salt = b.salt
  /-- A variable that is set is overridden in both or in neither. -/
  overridden : ∀ {a b x e}, R a b → .set x e ∈ nodes → a.isOverridden x = b.isOverridden x
  /-- A name that is read denotes the same. -/
  read : ∀ {a b x}, R a b → .get x ∈ nodes → a.get? x = b.get? x
  /-- A setting keeps the relation. -/
  assign : ∀ {a b x e} (v : Json), R a b → .set x e ∈ nodes → R (a.assign x v) (b.assign x v)
  /-- A return keeps the relation. -/
  halt : ∀ {a b e} (verdict : Bool), R a b → .ret e ∈ nodes → R (a.halt verdict) (b.halt verdict)

namespace Respects

variable {R : Env → Env → Prop} {nodes : List Expr}

/-- What holds for some nodes holds for a part of them. -/
theorem mono
    {part : List Expr} (hR : Respects R nodes) (hsub : ∀ e ∈ part, e ∈ nodes) :
    Respects R part where
  halted := hR.halted
  salt := hR.salt
  overridden h hx := hR.overridden h (hsub _ hx)
  read h hx := hR.read h (hsub _ hx)
  assign v h hx := hR.assign v h (hsub _ hx)
  halt verdict h he := hR.halt verdict h (hsub _ he)

theorem tail
    {n : Expr} {rest : List Expr} (hR : Respects R (n :: rest)) :
    Respects R rest :=
  hR.mono fun _ h => List.mem_cons_of_mem n h

theorem left
    {ms ns : List Expr} (hR : Respects R (ms ++ ns)) :
    Respects R ms :=
  hR.mono fun _ h => List.mem_append_left ns h

theorem right
    {ms ns : List Expr} (hR : Respects R (ms ++ ns)) :
    Respects R ns :=
  hR.mono fun _ h => List.mem_append_right ms h

/-- Nodes do not tell an environment from itself, and keep what their settings and returns
keep. -/
theorem of_kept
    {P : Env → Prop}
    (hassign : ∀ env x d v, .set x d ∈ nodes → P env → P (env.assign x v))
    (hhalt : ∀ env d verdict, .ret d ∈ nodes → P env → P (env.halt verdict)) :
    Respects (fun a b => a = b ∧ P a) nodes := by
  refine
    { halted := ?_, salt := ?_, overridden := ?_, read := ?_, assign := ?_, halt := ?_ }
  · rintro a b ⟨rfl, -⟩
    rfl
  · rintro a b ⟨rfl, -⟩
    rfl
  · rintro a b x d ⟨rfl, -⟩ -
    rfl
  · rintro a b x ⟨rfl, -⟩ -
    rfl
  · rintro a b x d v ⟨rfl, ha⟩ hx
    exact ⟨rfl, hassign a x d v hx ha⟩
  · rintro a b d verdict ⟨rfl, ha⟩ hx
    exact ⟨rfl, hhalt a d verdict hx ha⟩

variable (hR : Respects R nodes)
include hR

theorem unlessHalted
    {x y : Run Json} (h : InStep R x y) :
    InStep R (Run.unlessHalted x) (Run.unlessHalted y) := by
  refine InStep.get_bind fun a b hab => ?_
  rw [hR.halted hab]
  split
  · exact .ok _ hab
  · exact h a b hab

theorem unlessOverridden
    {x : String} {e : Expr} {p q : Run Json}
    (hx : .set x e ∈ nodes) (h : InStep R p q) :
    InStep R (Run.unlessOverridden x p) (Run.unlessOverridden x q) := by
  refine InStep.get_bind fun a b hab => ?_
  rw [hR.overridden hab hx]
  split
  · exact .ok _ hab
  · exact h a b hab

theorem lookup
    {x : String} (hx : .get x ∈ nodes) :
    InStep R (Run.lookup x) (Run.lookup x) := by
  refine InStep.get_bind fun a b hab => ?_
  rw [hR.read hab hx]
  cases b.get? x with
  | some v => exact .ok v hab
  | none => exact .error _ hab

theorem seedFor (op : String) (salt fullSalt : Option String) (units : List Json) :
    InStep R (seedFor op salt fullSalt units) (seedFor op salt fullSalt units) := by
  cases fullSalt with
  | some whole => exact InStep.pure _
  | none =>
      cases salt with
      | some own =>
          refine InStep.get_bind fun a b hab => ?_
          rw [hR.salt hab]
          exact .ok _ hab
      | none => exact InStep.throw _

end Respects

section Operands

variable {R : Env → Env → Prop} {α : Type}

theorem ofExcept_inStep (r : Except Fault α) :
    InStep R (Run.ofExcept r) (Run.ofExcept r) := by
  cases r with
  | ok a => exact InStep.pure a
  | error e => exact InStep.throw e

theorem demand_inStep (op : String) (r : Except TypeFault α) :
    InStep R (Run.demand op r) (Run.demand op r) := by
  cases r with
  | ok a => exact InStep.pure a
  | error why => exact InStep.throw _

theorem choose_inStep (choices : List Json) (position : Except Fault Nat) :
    InStep R (choose choices position) (choose choices position) :=
  (ofExcept_inStep position).bind fun _ => InStep.pure _

theorem aggregateOf_inStep (a : Aggregate) (v : Json) :
    InStep R (aggregateOf a v) (aggregateOf a v) := by
  refine (demand_inStep a.name v.asNumbers).bind fun ns => ?_
  split
  · exact InStep.pure _
  · exact InStep.throw _

variable {x y : Run Json} (h : InStep R x y)
include h

theorem listFor_inStep (op : String) :
    InStep R (Run.listFor op x) (Run.listFor op y) :=
  h.bind fun _ => demand_inStep op _

theorem numberFor_inStep (op : String) :
    InStep R (Run.numberFor op x) (Run.numberFor op y) :=
  h.bind fun _ => demand_inStep op _

theorem integerFor_inStep (op : String) :
    InStep R (Run.integerFor op x) (Run.integerFor op y) :=
  h.bind fun _ => demand_inStep op _

theorem samplePool_inStep :
    InStep R (samplePool x) (samplePool y) := by
  refine (listFor_inStep h "sample").bind fun choices => ?_
  split
  · exact InStep.throw _
  · exact InStep.pure _

end Operands

section Evaluation

variable {R : Env → Env → Prop}

/-- In the second environments of the relation it does not show that values of settings have been
revised. -/
def Unnoticed (R : Env → Env → Prop) (f : String → Expr → Expr) : Prop :=
  ∀ ⦃a b⦄, R a b → ∀ x e, eval none (.set x (f x e)) b = eval none (.set x e) b

section Revised

variable {f : String → Expr → Expr} (hf : Unnoticed R f)
include hf

-- all theorems of the block use the variable, if only through one another
set_option linter.unusedSectionVars false in
mutual

/-- An expression and its revision are evaluated in step from related environments. -/
theorem eval_revised :
    ∀ (e : Expr) (name : Option String), Respects R e.nodes →
      InStep R (eval name e) (eval name (e.revise f))
  | .value v, name, hR => hR.unlessHalted (InStep.pure v)
  | .list es, name, hR => hR.unlessHalted <|
      (evalItems_revised es hR.tail).bind fun _ => InStep.pure _
  | .literal v, name, hR => hR.unlessHalted (InStep.pure v)
  | .get x, name, hR => hR.unlessHalted (hR.lookup (List.mem_singleton_self _))
  | .set x e, name, hR => by
      have hx : .set x e ∈ (Expr.set x e).nodes := List.mem_cons_self
      have he := eval_revised e (some x) hR.tail
      have hset : InStep R (eval name (.set x e)) (eval none (.set x (e.revise f))) := by
        refine hR.unlessHalted (hR.unlessOverridden hx (he.bind fun v => ?_))
        exact (InStep.change fun _ _ h => hR.assign v h hx).bind fun _ => InStep.pure _
      -- The value of the second setting is revised once more, as a whole.
      intro a b hab
      show Matches R (eval name (.set x e) a) (eval none (.set x (f x (e.revise f))) b)
      rw [hf hab]
      exact hset a b hab
  | .seq es, name, hR => hR.unlessHalted (evalSeq_revised es .null hR.tail)
  | .ret e, name, hR => by
      have hx : .ret e ∈ (Expr.ret e).nodes := List.mem_cons_self
      have he := eval_revised e none hR.tail
      refine hR.unlessHalted (he.bind fun v => ?_)
      exact (InStep.change fun _ _ h => hR.halt v.truthy h hx).bind fun _ => InStep.pure _
  | .cond bs, name, hR => hR.unlessHalted (evalBranches_revised bs hR.tail)
  | .array e, name, hR => by
      have he := eval_revised e none hR.tail
      exact hR.unlessHalted ((listFor_inStep he "array").bind fun _ => InStep.pure _)
  | .map es, name, hR => hR.unlessHalted <|
      (evalEntries_revised es hR.tail).bind fun _ => InStep.pure _
  | .index b i, name, hR => by
      have hb := eval_revised b none hR.tail.left
      have hi := eval_revised i none hR.tail.right
      exact hR.unlessHalted (hb.bind fun _ => hi.bind fun _ => demand_inStep "index" _)
  | .coalesce es, name, hR => hR.unlessHalted (evalFirst_revised es hR.tail)
  | .all es, name, hR => hR.unlessHalted (evalAll_revised es hR.tail)
  | .any es, name, hR => hR.unlessHalted (evalAny_revised es hR.tail)
  | .compare c l r, name, hR => by
      have hl := eval_revised l none hR.tail.left
      have hr := eval_revised r none hR.tail.right
      refine hR.unlessHalted (hl.bind fun v => hr.bind fun w => ?_)
      exact (demand_inStep c.name (c.apply v w)).bind fun _ => InStep.pure _
  | .aggregate a e, name, hR => by
      have he := eval_revised e none hR.tail
      exact hR.unlessHalted (he.bind fun v => aggregateOf_inStep a v)
  | .arithmetic a l r, name, hR => by
      have hl := eval_revised l none hR.tail.left
      have hr := eval_revised r none hR.tail.right
      refine hR.unlessHalted ((numberFor_inStep hl a.name).bind fun m => ?_)
      exact (numberFor_inStep hr a.name).bind fun n => demand_inStep a.name (a.apply m n)
  | .unary u e, name, hR => by
      have he := eval_revised e none hR.tail
      exact hR.unlessHalted (he.bind fun v => demand_inStep u.name (u.apply v))
  | .random draw unit salt fullSalt, name, hR => by
      have hu := eval_revised unit none hR.tail.left
      refine hR.unlessHalted (hu.bind fun v => ?_)
      rw [Expr.name_reviseDraw]
      refine (hR.seedFor draw.name (salt <|> name) fullSalt (unitsOf v)).bind fun seed => ?_
      exact evalDraw_revised seed draw hR.tail.right

theorem evalItems_revised :
    ∀ es : List Expr, Respects R (Expr.nodesAll es) →
      InStep R (evalItems es) (evalItems (Expr.reviseAll f es))
  | [], _ => InStep.pure _
  | e :: rest, hR => by
      have he := eval_revised e none hR.left
      have hrest := evalItems_revised rest hR.right
      exact he.bind fun _ => hrest.bind fun _ => InStep.pure _

theorem evalEntries_revised :
    ∀ es : List (String × Expr), Respects R (Expr.nodesEntries es) →
      InStep R (evalEntries es) (evalEntries (Expr.reviseEntries f es))
  | [], _ => InStep.pure _
  | (k, e) :: rest, hR => by
      have he := eval_revised e none hR.left
      have hrest := evalEntries_revised rest hR.right
      exact he.bind fun _ => hrest.bind fun _ => InStep.pure _

theorem evalSeq_revised :
    ∀ (es : List Expr) (last : Json), Respects R (Expr.nodesAll es) →
      InStep R (evalSeq last es) (evalSeq last (Expr.reviseAll f es))
  | [], last, _ => InStep.pure last
  | e :: rest, last, hR => by
      have he := eval_revised e none hR.left
      refine he.bind fun v => InStep.get_bind fun a b hab => ?_
      rw [hR.halted hab]
      split
      · exact .ok v hab
      · exact evalSeq_revised rest v hR.right a b hab

theorem evalBranches_revised :
    ∀ bs : List (Expr × Expr), Respects R (Expr.nodesBranches bs) →
      InStep R (evalBranches bs) (evalBranches (Expr.reviseBranches f bs))
  | [], _ => InStep.pure _
  | (c, e) :: rest, hR => by
      have hc := eval_revised c none hR.left
      refine hc.bind fun v => ?_
      split
      · exact eval_revised e none hR.right.left
      · exact evalBranches_revised rest hR.right.right

theorem evalFirst_revised :
    ∀ es : List Expr, Respects R (Expr.nodesAll es) →
      InStep R (evalFirst es) (evalFirst (Expr.reviseAll f es))
  | [], _ => InStep.pure _
  | e :: rest, hR => by
      have he := eval_revised e none hR.left
      refine he.bind fun v => ?_
      split
      · exact evalFirst_revised rest hR.right
      · exact InStep.pure _

theorem evalAll_revised :
    ∀ es : List Expr, Respects R (Expr.nodesAll es) →
      InStep R (evalAll es) (evalAll (Expr.reviseAll f es))
  | [], _ => InStep.pure _
  | e :: rest, hR => by
      have he := eval_revised e none hR.left
      refine he.bind fun v => ?_
      split
      · exact evalAll_revised rest hR.right
      · exact InStep.pure _

theorem evalAny_revised :
    ∀ es : List Expr, Respects R (Expr.nodesAll es) →
      InStep R (evalAny es) (evalAny (Expr.reviseAll f es))
  | [], _ => InStep.pure _
  | e :: rest, hR => by
      have he := eval_revised e none hR.left
      refine he.bind fun v => ?_
      split
      · exact InStep.pure _
      · exact evalAny_revised rest hR.right

theorem evalDraw_revised (seed : Seed) :
    ∀ draw : Lottery Expr, Respects R (Expr.nodesDraw draw) →
      InStep R (evalDraw seed draw) (evalDraw seed (Expr.reviseDraw f draw))
  | .uniformChoice c, hR => by
      have hc := eval_revised c none hR
      exact (listFor_inStep hc _).bind fun _ => choose_inStep _ _
  | .weightedChoice c w, hR => by
      have hc := eval_revised c none hR.left
      have hw := eval_revised w none hR.right
      refine (listFor_inStep hc _).bind fun _ => hw.bind fun _ => ?_
      exact (demand_inStep _ _).bind fun _ => choose_inStep _ _
  | .bernoulliTrial p, hR => by
      have hp := eval_revised p none hR
      refine (numberFor_inStep hp _).bind fun _ => ?_
      exact (ofExcept_inStep _).bind fun _ => InStep.pure _
  | .bernoulliFilter p c, hR => by
      have hp := eval_revised p none hR.left
      have hc := eval_revised c none hR.right
      refine (numberFor_inStep hp _).bind fun _ => (listFor_inStep hc _).bind fun _ => ?_
      exact (ofExcept_inStep _).bind fun _ => InStep.pure _
  | .randomFloat lo hi, hR => by
      have hl := eval_revised lo none hR.left
      have hh := eval_revised hi none hR.right
      exact (numberFor_inStep hl _).bind fun _ =>
        (numberFor_inStep hh _).bind fun _ => InStep.pure _
  | .randomInteger lo hi, hR => by
      have hl := eval_revised lo none hR.left
      have hh := eval_revised hi none hR.right
      refine (integerFor_inStep hl _).bind fun _ => (integerFor_inStep hh _).bind fun _ => ?_
      exact (ofExcept_inStep _).bind fun _ => InStep.pure _
  | .sample c none, hR => by
      have hc := eval_revised c none hR
      exact (samplePool_inStep hc).bind fun _ => InStep.pure _
  | .sample c (some n), hR => by
      have hc := eval_revised c none hR.left
      have hn := eval_revised n none hR.right
      refine (samplePool_inStep hc).bind fun _ => (integerFor_inStep hn _).bind fun _ => ?_
      exact (ofExcept_inStep _).bind fun _ => InStep.pure _

end

end Revised

/-- An expression is evaluated in step from related environments. -/
theorem eval_inStep (e : Expr) (name : Option String) (hR : Respects R e.nodes) :
    InStep R (eval name e) (eval name e) := by
  have hf : Unnoticed R fun _ d => d := fun _ _ _ _ _ => rfl
  simpa only [Expr.revise_self] using eval_revised hf e name hR

/-- An evaluation keeps what the settings and returns of the expression keep. -/
theorem eval_keeps
    {P : Env → Prop} {e : Expr} {env : Env} (name : Option String)
    (hassign : ∀ env x d v, .set x d ∈ e.nodes → P env → P (env.assign x v))
    (hhalt : ∀ env d verdict, .ret d ∈ e.nodes → P env → P (env.halt verdict))
    (henv : P env) :
    P (endState (eval name e env)) :=
  keeps_of_inStep (eval_inStep e name (Respects.of_kept hassign hhalt)) henv

end Evaluation

end Allotment
