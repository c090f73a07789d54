import Allotment.Proofs.Eval.Changes
import Allotment.Proofs.Eval.Simulation

/-!
# The changes as a record of the evaluation

The changes of an evaluation, carried out one after another, lead to the environment in which
the evaluation ends.  Each of them is made by a node of the expression, none of them binds an
overridden variable, and what follows a completed return is completed returns only.

**Results.**
* `eval_records`: the changes of an expression record its evaluation.
-/

namespace Allotment

open Stateful
open EStateM (Result)

/-- The changes, made to the environment, account for the result by what the nodes do. -/
structure Recorded (nodes : List Expr) {α : Type} (env : Env) (cs : List Change)
    (r : Result Fault Env α) : Prop where
  /-- The changes lead to the environment of the result. -/
  replay : env.replay cs = endState r
  /-- Each change comes from a node. -/
  origin : ∀ c ∈ cs, c.ComesFrom nodes
  /-- No overridden variable is bound. -/
  free : ∀ c ∈ cs, ∀ x ∈ c.bound?, env.isOverridden x = false
  /-- Once the environment is halted there are completed returns only. -/
  halted : env.isHalted = true → ∀ c ∈ cs, c.isReturn = true
  /-- After a completed return there are completed returns only. -/
  sealed : cs.Pairwise fun c d => c.isReturn = true → d.isReturn = true

/-- A computation that is in step with itself for every relation changes nothing. -/
theorem endState_of_inStep
    {α : Type} {x : Run α} (h : ∀ R : Env → Env → Prop, InStep R x x) (env : Env) :
    endState (x env) = env := by
  have hstep : InStep (fun a b => a = b ∧ a = env) x x := h _
  exact keeps_of_inStep (P := fun a => a = env) hstep rfl

theorem endState_lookup (x : String) (env : Env) :
    endState (Run.lookup x env) = env := by
  have hget : (get : Run Env) env = .ok env env := rfl
  unfold Run.lookup
  rw [bind_of_ok hget]
  cases env.get? x with
  | some v => rfl
  | none => rfl

theorem endState_seedFor
    (op : String) (salt fullSalt : Option String) (units : List Json) (env : Env) :
    endState (seedFor op salt fullSalt units env) = env := by
  cases fullSalt with
  | some whole => rfl
  | none =>
      cases salt with
      | some own => rfl
      | none => rfl

namespace Recorded

variable {nodes : List Expr} {α β : Type} {env env' : Env} {cs ds : List Change}

/-- No changes, and a result in the same environment. -/
theorem nothing
    {r : Result Fault Env α} (h : endState r = env) :
    Recorded nodes env [] r where
  replay := h.symm
  origin _ hc := absurd hc List.not_mem_nil
  free _ hc := absurd hc List.not_mem_nil
  halted _ _ hc := absurd hc List.not_mem_nil
  sealed := List.Pairwise.nil

/-- Changes that lead to a value, and the changes from there on. -/
theorem append
    {a : α} {r : Result Fault Env β}
    (h : Recorded nodes env cs (.ok a env' : Result Fault Env α))
    (hnext : Recorded nodes env' ds r) :
    Recorded nodes env (cs ++ ds) r := by
  have hmid : env.replay cs = env' := h.replay
  have hhalted : env'.isHalted = (env.isHalted || cs.any Change.isReturn) := by
    rw [← hmid, Env.isHalted_replay]
  refine { replay := ?_, origin := ?_, free := ?_, halted := ?_, sealed := ?_ }
  · rw [Env.replay_append, hmid]
    exact hnext.replay
  · intro c hc
    rcases List.mem_append.1 hc with hc | hc
    · exact h.origin c hc
    · exact hnext.origin c hc
  · intro c hc x hx
    rcases List.mem_append.1 hc with hc | hc
    · exact h.free c hc x hx
    · rw [← Env.isOverridden_replay env cs x, hmid]
      exact hnext.free c hc x hx
  · intro henv c hc
    rcases List.mem_append.1 hc with hc | hc
    · exact h.halted henv c hc
    · exact hnext.halted (by rw [hhalted, henv, Bool.true_or]) c hc
  · refine List.pairwise_append.2 ⟨h.sealed, hnext.sealed, ?_⟩
    -- A return among the first changes has halted the environment of the others.
    intro c hc d hd hreturn
    have hany : cs.any Change.isReturn = true := List.any_eq_true.2 ⟨c, hc, hreturn⟩
    exact hnext.halted (by rw [hhalted, hany, Bool.or_true]) d hd

/-- Only the environment of the result matters. -/
theorem congr
    {r : Result Fault Env α} {q : Result Fault Env β}
    (h : Recorded nodes env cs r) (hend : endState q = endState r) :
    Recorded nodes env cs q where
  replay := by rw [h.replay, hend]
  origin := h.origin
  free := h.free
  halted := h.halted
  sealed := h.sealed

/-- A variable that is not overridden gets the value, unless a return has ended the evaluation. -/
theorem binding
    {x : String} {e : Expr} (hx : .set x e ∈ nodes) (hfree : env.isOverridden x = false)
    (v : Json) :
    Recorded nodes env (Trace.binding x v env)
      ((do modify fun env => env.assign x v; return .null : Run Json) env) := by
  unfold Trace.binding Trace.unlessHalted
  split
  · rename_i h
    exact .nothing (Env.assign_of_halted h x v)
  · rename_i h
    have hlive : env.isHalted = false := Bool.eq_false_iff.2 h
    refine
      { replay := (Env.assign_of_live hlive x v).symm, origin := ?_, free := ?_, halted := ?_,
        sealed := List.pairwise_singleton _ _ }
    · intro c hc
      rw [List.mem_singleton.1 hc]
      exact ⟨e, hx⟩
    · intro c hc y hy
      rw [List.mem_singleton.1 hc] at hy
      obtain rfl : x = y := Option.some.inj hy
      exact hfree
    · intro henv
      exact absurd henv h

end Recorded

/-- The trace records the computation, from whatever environment it starts. -/
def Records (nodes : List Expr) {α : Type} (t : Trace) (x : Run α) : Prop :=
  ∀ env, Recorded nodes env (t env) (x env)

namespace Records

variable {nodes : List Expr} {α β : Type}

/-- A computation that changes nothing. -/
theorem still
    {x : Run α} (h : ∀ env, endState (x env) = env) :
    Records nodes .still x :=
  fun env => .nothing (h env)

/-- Two computations one after the other. -/
theorem bind
    {t : Trace} {x : Run α} {next : α → Trace} {f : α → Run β}
    (h : Records nodes t x) (hnext : ∀ a, Records nodes (next a) (f a)) :
    Records nodes (t.andThen x next) (x >>= f) := by
  intro env
  have hx := h env
  cases hr : x env with
  | ok a env' =>
      rw [hr] at hx
      rw [Trace.andThen_of_ok hr, bind_of_ok hr]
      exact hx.append (hnext a env')
  | error e env' =>
      rw [hr] at hx
      rw [Trace.andThen_of_error hr, bind_of_error hr]
      exact hx.congr rfl

/-- A computation with something after it that changes nothing. -/
theorem before
    {t : Trace} {x : Run α} {f : α → Run β}
    (h : Records nodes t x) (hf : ∀ a, ∀ R : Env → Env → Prop, InStep R (f a) (f a)) :
    Records nodes t (x >>= f) := by
  intro env
  exact (h env).congr (endState_bind x (fun a => endState_of_inStep (hf a)) env)

/-- A computation that is carried out as long as there is no halt. -/
theorem upToHalt
    {t : Trace} {x : Run Json} (h : Records nodes t x) (v : Json) :
    Records nodes t.unlessHalted (do if (← get).isHalted then return v else x : Run Json) := by
  intro env
  show Recorded nodes env (if env.isHalted then [] else t env)
    ((if env.isHalted then pure v else x : Run Json) env)
  split
  · exact .nothing rfl
  · exact h env

theorem unlessHalted
    {t : Trace} {x : Run Json} (h : Records nodes t x) :
    Records nodes t.unlessHalted (Run.unlessHalted x) :=
  h.upToHalt .null

/-- A setting evaluates its value and then gives it to its variable, unless the variable is
overridden or a return has ended the evaluation. -/
theorem setting
    {x : String} {e : Expr} (hx : .set x e ∈ nodes) {t : Trace} {run : Run Json}
    (h : Records nodes t run) :
    Records nodes ((t.andThen run fun v => .binding x v).unlessOverridden x)
      (Run.unlessOverridden x do
        let v ← run
        modify fun env => env.assign x v
        return .null) := by
  intro env
  show Recorded nodes env
    (if env.isOverridden x then [] else t.andThen run (fun v => .binding x v) env)
    ((if env.isOverridden x then pure .null else _ : Run Json) env)
  split
  · exact .nothing rfl
  · rename_i hfree
    have hrun := h env
    cases hr : run env with
    | error fault env' =>
        rw [hr] at hrun
        rw [Trace.andThen_of_error hr, bind_of_error hr]
        exact hrun.congr rfl
    | ok v env' =>
        rw [hr] at hrun
        have henv' : env.replay (t env) = env' := hrun.replay
        rw [Trace.andThen_of_ok hr, bind_of_ok hr]
        refine hrun.append (.binding hx ?_ v)
        rw [← henv', Env.isOverridden_replay]
        exact Bool.eq_false_iff.2 hfree

theorem returning
    {e : Expr} (he : .ret e ∈ nodes) (v : Json) :
    Records nodes (.returning v)
      (do modify fun env => env.halt v.truthy; return .null : Run Json) := by
  intro env
  refine
    { replay := rfl, origin := ?_, free := ?_, halted := ?_,
      sealed := List.pairwise_singleton _ _ }
  · intro c hc
    rw [List.mem_singleton.1 hc]
    exact ⟨e, he⟩
  · intro c hc x hx
    rw [List.mem_singleton.1 hc] at hx
    contradiction
  · intro _ c hc
    rw [List.mem_singleton.1 hc]
    rfl

end Records

section Operands

variable {nodes : List Expr} {t : Trace} {run : Run Json} (h : Records nodes t run)
include h

theorem listFor_records (op : String) : Records nodes t (Run.listFor op run) :=
  h.before fun _ _ => demand_inStep op _

theorem numberFor_records (op : String) : Records nodes t (Run.numberFor op run) :=
  h.before fun _ _ => demand_inStep op _

theorem integerFor_records (op : String) : Records nodes t (Run.integerFor op run) :=
  h.before fun _ _ => demand_inStep op _

theorem samplePool_records : Records nodes t (samplePool run) := by
  refine (listFor_records h "sample").before fun choices R => ?_
  split
  · exact InStep.throw _
  · exact InStep.pure _

end Operands

section Evaluation

variable {nodes : List Expr}

mutual

/-- The changes of an expression record its evaluation. -/
theorem eval_records :
    ∀ (e : Expr) (name : Option String), e.nodes ⊆ nodes →
      Records nodes (changes name e) (eval name e)
  | .value _, name, _ => (Records.still fun _ => rfl).unlessHalted
  | .list es, name, hn => by
      have hes := evalItems_records es (List.cons_subset.1 hn).2
      exact (hes.before fun _ _ => InStep.pure _).unlessHalted
  | .literal _, name, _ => (Records.still fun _ => rfl).unlessHalted
  | .get x, name, _ => (Records.still (endState_lookup x)).unlessHalted
  | .set x e, name, hn => by
      obtain ⟨hx, he⟩ := List.cons_subset.1 hn
      have he := eval_records e (some x) he
      exact (Records.setting hx he).unlessHalted
  | .seq es, name, hn =>
      (evalSeq_records es .null (List.cons_subset.1 hn).2).unlessHalted
  | .ret e, name, hn => by
      obtain ⟨hx, he⟩ := List.cons_subset.1 hn
      have he := eval_records e none he
      exact (he.bind fun v => .returning hx v).unlessHalted
  | .cond bs, name, hn =>
      (evalBranches_records bs (List.cons_subset.1 hn).2).unlessHalted
  | .array e, name, hn => by
      have he := eval_records e none (List.cons_subset.1 hn).2
      exact ((listFor_records he "array").before fun _ _ => InStep.pure _).unlessHalted
  | .map es, name, hn => by
      have hes := evalEntries_records es (List.cons_subset.1 hn).2
      exact (hes.before fun _ _ => InStep.pure _).unlessHalted
  | .index b i, name, hn => by
      obtain ⟨hb, hi⟩ := List.append_subset.1 (List.cons_subset.1 hn).2
      have hb := eval_records b none hb
      have hi := eval_records i none hi
      exact (hb.bind fun v => hi.before fun w _ => demand_inStep "index" (v.pick w)).unlessHalted
  | .coalesce es, name, hn =>
      (evalFirst_records es (List.cons_subset.1 hn).2).unlessHalted
  | .all es, name, hn =>
      (evalAll_records es (List.cons_subset.1 hn).2).unlessHalted
  | .any es, name, hn =>
      (evalAny_records es (List.cons_subset.1 hn).2).unlessHalted
  | .compare c l r, name, hn => by
      obtain ⟨hl, hr⟩ := List.append_subset.1 (List.cons_subset.1 hn).2
      have hl := eval_records l none hl
      have hr := eval_records r none hr
      refine (hl.bind fun v => hr.before fun w _ => ?_).unlessHalted
      exact (demand_inStep c.name (c.apply v w)).bind fun _ => InStep.pure _
  | .aggregate a e, name, hn => by
      have he := eval_records e none (List.cons_subset.1 hn).2
      exact (he.before fun v _ => aggregateOf_inStep a v).unlessHalted
  | .arithmetic a l r, name, hn => by
      obtain ⟨hl, hr⟩ := List.append_subset.1 (List.cons_subset.1 hn).2
      have hl := eval_records l none hl
      have hr := eval_records r none hr
      refine ((numberFor_records hl a.name).bind fun m => ?_).unlessHalted
      exact (numberFor_records hr a.name).before fun n _ => demand_inStep a.name (a.apply m n)
  | .unary u e, name, hn => by
      have he := eval_records e none (List.cons_subset.1 hn).2
      exact (he.before fun v _ => demand_inStep u.name (u.apply v)).unlessHalted
  | .random draw unit salt fullSalt, name, hn => by
      obtain ⟨hu, hd⟩ := List.append_subset.1 (List.cons_subset.1 hn).2
      have hu := eval_records unit none hu
      refine (hu.bind fun v => (Records.still ?_).bind fun seed => ?_).unlessHalted
      · exact endState_seedFor draw.name (salt <|> name) fullSalt (unitsOf v)
      · exact evalDraw_records seed draw hd

theorem evalItems_records :
    ∀ es : List Expr, Expr.nodesAll es ⊆ nodes →
      Records nodes (changesItems es) (evalItems es)
  | [], _ => .still fun _ => rfl
  | e :: rest, hn => by
      obtain ⟨he, hrest⟩ := List.append_subset.1 hn
      have he := eval_records e none he
      have hrest := evalItems_records rest hrest
      exact he.bind fun _ => hrest.before fun _ _ => InStep.pure _

theorem evalEntries_records :
    ∀ es : List (String × Expr), Expr.nodesEntries es ⊆ nodes →
      Records nodes (changesEntries es) (evalEntries es)
  | [], _ => .still fun _ => rfl
  | (k, e) :: rest, hn => by
      obtain ⟨he, hrest⟩ := List.append_subset.1 hn
      have he := eval_records e none he
      have hrest := evalEntries_records rest hrest
      exact he.bind fun _ => hrest.before fun _ _ => InStep.pure _

theorem evalSeq_records :
    ∀ (es : List Expr) (last : Json), Expr.nodesAll es ⊆ nodes →
      Records nodes (changesSeq es) (evalSeq last es)
  | [], last, _ => .still fun _ => rfl
  | e :: rest, last, hn => by
      obtain ⟨he, hrest⟩ := List.append_subset.1 hn
      have he := eval_records e none he
      refine he.bind fun v => ?_
      exact (evalSeq_records rest v hrest).upToHalt v

theorem evalBranches_records :
    ∀ bs : List (Expr × Expr), Expr.nodesBranches bs ⊆ nodes →
      Records nodes (changesBranches bs) (evalBranches bs)
  | [], _ => .still fun _ => rfl
  | (c, e) :: rest, hn => by
      obtain ⟨hc, hthen⟩ := List.append_subset.1 hn
      obtain ⟨he, hrest⟩ := List.append_subset.1 hthen
      have hc := eval_records c none hc
      refine hc.bind fun v => ?_
      split
      · exact eval_records e none he
      · exact evalBranches_records rest hrest

theorem evalFirst_records :
    ∀ es : List Expr, Expr.nodesAll es ⊆ nodes →
      Records nodes (changesFirst es) (evalFirst es)
  | [], _ => .still fun _ => rfl
  | e :: rest, hn => by
      obtain ⟨he, hrest⟩ := List.append_subset.1 hn
      have he := eval_records e none he
      refine he.bind fun v => ?_
      cases v with
      | null => exact evalFirst_records rest hrest
      | _ => exact .still fun _ => rfl

theorem evalAll_records :
    ∀ es : List Expr, Expr.nodesAll es ⊆ nodes →
      Records nodes (changesAll es) (evalAll es)
  | [], _ => .still fun _ => rfl
  | e :: rest, hn => by
      obtain ⟨he, hrest⟩ := List.append_subset.1 hn
      have he := eval_records e none he
      refine he.bind fun v => ?_
      split
      · exact evalAll_records rest hrest
      · exact .still fun _ => rfl

theorem evalAny_records :
    ∀ es : List Expr, Expr.nodesAll es ⊆ nodes →
      Records nodes (changesAny es) (evalAny es)
  | [], _ => .still fun _ => rfl
  | e :: rest, hn => by
      obtain ⟨he, hrest⟩ := List.append_subset.1 hn
      have he := eval_records e none he
      refine he.bind fun v => ?_
      split
      · exact .still fun _ => rfl
      · exact evalAny_records rest hrest

theorem evalDraw_records (seed : Seed) :
    ∀ draw : Lottery Expr, Expr.nodesDraw draw ⊆ nodes →
      Records nodes (changesDraw draw) (evalDraw seed draw)
  | .uniformChoice c, hn =>
      (listFor_records (eval_records c none hn) _).before fun _ _ => choose_inStep _ _
  | .weightedChoice c w, hn => by
      obtain ⟨hc, hw⟩ := List.append_subset.1 hn
      have hc := eval_records c none hc
      have hw := eval_records w none hw
      refine (listFor_records hc _).bind fun _ => hw.before fun _ _ => ?_
      exact (demand_inStep _ _).bind fun _ => choose_inStep _ _
  | .bernoulliTrial p, hn =>
      (numberFor_records (eval_records p none hn) _).before fun _ _ =>
        (ofExcept_inStep _).bind fun _ => InStep.pure _
  | .bernoulliFilter p c, hn => by
      obtain ⟨hp, hc⟩ := List.append_subset.1 hn
      have hp := eval_records p none hp
      have hc := eval_records c none hc
      refine (numberFor_records hp _).bind fun _ => (listFor_records hc _).before fun _ _ => ?_
      exact (ofExcept_inStep _).bind fun _ => InStep.pure _
  | .randomFloat lo hi, hn => by
      obtain ⟨hl, hh⟩ := List.append_subset.1 hn
      have hl := eval_records lo none hl
      have hh := eval_records hi none hh
      exact (numberFor_records hl _).bind fun _ =>
        (numberFor_records hh _).before fun _ _ => InStep.pure _
  | .randomInteger lo hi, hn => by
      obtain ⟨hl, hh⟩ := List.append_subset.1 hn
      have hl := eval_records lo none hl
      have hh := eval_records hi none hh
      refine (integerFor_records hl _).bind fun _ => (integerFor_records hh _).before fun _ _ => ?_
      exact (ofExcept_inStep _).bind fun _ => InStep.pure _
  | .sample c none, hn =>
      (samplePool_records (eval_records c none hn)).before fun _ _ => InStep.pure _
  | .sample c (some n), hn => by
      obtain ⟨hc, hs⟩ := List.append_subset.1 hn
      have hc := eval_records c none hc
      have hs := eval_records n none hs
      refine (samplePool_records hc).bind fun _ => (integerFor_records hs _).before fun _ _ => ?_
      exact (ofExcept_inStep _).bind fun _ => InStep.pure _

end

end Evaluation

end Allotment
