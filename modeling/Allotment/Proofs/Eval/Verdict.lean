import Allotment.Proofs.Eval.Halting
import Allotment.Proofs.Expr.Parts

/-!
# The verdict of a run

A return that completes gives the verdict, and a later one replaces it.  A later one there is
when a return stands inside another: the outer one completes with what is left for it of its
operand.  In the same way an operator around a return goes on with a null operand, and may fault
on it.

Neither happens if returns stand in the open: inside no other return, and inside no operator that
makes demands on its operands.

**Results.**
* `Env.takesPart_replay`: the last completed return decides.
* `eval_lenient`: with returns in the open, an evaluation in which one completes comes to a
  value, and it is the only one.
* `Definition.first_return_decides_iff`: when the first completed return decides.
-/

namespace Allotment

open Stateful

namespace Expr

/-- The expression is a return. -/
def isReturn : Expr → Bool
  | .ret _ => true
  | _ => false

/-- Null for an operand is a fault of the operator, or a verdict if it is a return. -/
def demanding : Expr → Bool
  | .ret _ => true
  | .array _ => true
  | .index _ _ => true
  | .compare c _ _ => c != .equal
  | .aggregate _ _ => true
  | .arithmetic _ _ _ => true
  | .unary u _ => u != .not
  | .random _ _ _ _ => true
  | _ => false

end Expr

/-- Among the nodes, no return stands inside an operator that makes demands on its operands. -/
def ReturnsOpenly (nodes : List Expr) : Prop :=
  ∀ n ∈ nodes, n.demanding = true → ∀ p ∈ n.parts, ∀ m ∈ p.nodes, m.isReturn = false

instance (nodes : List Expr) : Decidable (ReturnsOpenly nodes) :=
  inferInstanceAs (Decidable (∀ n ∈ nodes, n.demanding = true →
    ∀ p ∈ n.parts, ∀ m ∈ p.nodes, m.isReturn = false))

/-- The values of the completed returns. -/
def returnedValues (cs : List Change) : List Json := cs.filterMap Change.returned?

theorem returnedValues_append (cs ds : List Change) :
    returnedValues (cs ++ ds) = returnedValues cs ++ returnedValues ds :=
  List.filterMap_append

theorem returnedValues_eq_nil_iff (cs : List Change) :
    returnedValues cs = [] ↔ cs.any Change.isReturn = false := by
  induction cs with
  | nil => simp [returnedValues]
  | cons c cs ih =>
      cases c with
      | bind x v => simpa [returnedValues, Change.returned?, Change.isReturn] using ih
      | halt v => simp [returnedValues, Change.returned?, Change.isReturn]

theorem Env.takesPart_bind (env : Env) (x : String) (v : Json) :
    (env.bind x v).takesPart = env.takesPart := by
  unfold bind
  split
  · rfl
  · rfl

/-- The last completed return decides. -/
theorem Env.takesPart_replay (env : Env) (cs : List Change) :
    (env.replay cs).takesPart =
      ((returnedValues cs).map Json.truthy).getLastD env.takesPart := by
  induction cs generalizing env with
  | nil => rfl
  | cons c cs ih =>
      rw [replay_cons, ih]
      cases c with
      | bind x v =>
          have hc : (env.change (.bind x v)).takesPart = env.takesPart := by
            unfold change
            rw [takesPart_bind]
            split
            · rfl
            · rfl
          rw [hc]
          rfl
      | halt v => exact List.getLastD_cons.symm

/-- At most one return completes, and not if there is a fault. -/
structure Lenient {α : Type} (t : Trace) (x : Run α) : Prop where
  /-- In a halted environment there is a value, without a change. -/
  halted : ∀ env, env.isHalted = true → t env = [] ∧ ∃ a, x env = .ok a env
  /-- From any other one, no return completes, or a single one and there is a value. -/
  live : ∀ env, env.isHalted = false → returnedValues (t env) = [] ∨
    ∃ v a env', returnedValues (t env) = [v] ∧ x env = .ok a env'

namespace Lenient

variable {nodes : List Expr} {α β : Type}

theorem pure (a : α) : Lenient .still (Pure.pure a : Run α) where
  halted _ _ := ⟨rfl, a, rfl⟩
  live _ _ := Or.inl rfl

/-- Two computations one after the other. -/
theorem bind
    {t : Trace} {x : Run α} {next : α → Trace} {f : α → Run β}
    (h : Lenient t x) (hrecords : Records nodes t x) (hnext : ∀ a, Lenient (next a) (f a)) :
    Lenient (t.andThen x next) (x >>= f) := by
  constructor
  · intro env henv
    obtain ⟨ht, a, hx⟩ := h.halted env henv
    obtain ⟨hnone, b, hb⟩ := (hnext a).halted env henv
    refine ⟨?_, b, ?_⟩
    · rw [Trace.andThen_of_ok hx, ht, hnone]
      rfl
    · rw [bind_of_ok hx]
      exact hb
  · intro env henv
    have hlive := h.live env henv
    cases hx : x env with
    | error e env' =>
        rcases hlive with hnone | ⟨v, a, env'', -, hok⟩
        · rw [Trace.andThen_of_error hx]
          exact Or.inl hnone
        · rw [hx] at hok
          contradiction
    | ok a env' =>
        have hmid : env.replay (t env) = env' := by
          rw [(hrecords env).replay, hx]
          rfl
        have hhalted : env'.isHalted = (t env).any Change.isReturn := by
          rw [← hmid, Env.isHalted_replay, henv, Bool.false_or]
        rw [Trace.andThen_of_ok hx, returnedValues_append, bind_of_ok hx]
        rcases hlive with hnone | ⟨v, a', env'', hone, -⟩
        · rw [hnone, List.nil_append]
          rw [(returnedValues_eq_nil_iff _).1 hnone] at hhalted
          exact (hnext a).live env' hhalted
        · have hhalted' : env'.isHalted = true := by
            rw [hhalted, ← Bool.not_eq_false, ← returnedValues_eq_nil_iff, hone]
            exact List.cons_ne_nil _ _
          obtain ⟨hnone, b, hb⟩ := (hnext a).halted env' hhalted'
          refine Or.inr ⟨v, b, env', ?_, hb⟩
          rw [hone, hnone]
          rfl

/-- A computation with something after it that always comes to a value. -/
theorem before
    {t : Trace} {x : Run α} {f : α → Run β}
    (h : Lenient t x) (hf : ∀ a env, ∃ b, f a env = .ok b env) :
    Lenient t (x >>= f) := by
  constructor
  · intro env henv
    obtain ⟨ht, a, hx⟩ := h.halted env henv
    rw [bind_of_ok hx]
    exact ⟨ht, hf a env⟩
  · intro env henv
    refine (h.live env henv).imp id ?_
    rintro ⟨v, a, env', hv, hx⟩
    obtain ⟨b, hb⟩ := hf a env'
    exact ⟨v, b, env', hv, by rw [bind_of_ok hx, hb]⟩

/-- A computation that is carried out as long as there is no halt. -/
theorem upToHalt
    {t : Trace} {x : Run Json} (v : Json)
    (h : ∀ env, env.isHalted = false → returnedValues (t env) = [] ∨
      ∃ v a env', returnedValues (t env) = [v] ∧ x env = .ok a env') :
    Lenient t.unlessHalted (do if (← get).isHalted then return v else x : Run Json) := by
  have hrun : ∀ env, (do if (← get).isHalted then return v else x : Run Json) env =
      (if env.isHalted then Pure.pure v else x : Run Json) env := fun _ => rfl
  constructor
  · intro env henv
    refine ⟨if_pos henv, v, ?_⟩
    rw [hrun, if_pos henv]
    rfl
  · intro env henv
    have hdone : ¬ env.isHalted = true := Bool.eq_false_iff.1 henv
    have ht : t.unlessHalted env = t env := if_neg hdone
    rw [hrun, if_neg hdone, ht]
    exact h env henv

theorem unlessHalted
    {t : Trace} {x : Run Json} (h : Lenient t x) :
    Lenient t.unlessHalted (Run.unlessHalted x) :=
  upToHalt .null h.live

theorem unlessOverridden
    {t : Trace} {run : Run Json} (h : Lenient t run) (x : String) :
    Lenient (t.unlessOverridden x) (Run.unlessOverridden x run) := by
  have hrun : ∀ env, Run.unlessOverridden x run env =
      (if env.isOverridden x then Pure.pure .null else run : Run Json) env := fun _ => rfl
  have ht : ∀ env, t.unlessOverridden x env = if env.isOverridden x then [] else t env :=
    fun _ => rfl
  constructor
  · intro env henv
    rw [hrun, ht]
    split
    · exact ⟨rfl, .null, rfl⟩
    · exact h.halted env henv
  · intro env henv
    rw [hrun, ht]
    split
    · exact Or.inl rfl
    · exact h.live env henv

theorem binding (x : String) (v : Json) :
    Lenient (.binding x v) (do modify fun env => env.assign x v; return .null : Run Json) := by
  constructor
  · intro env henv
    refine ⟨if_pos henv, .null, ?_⟩
    show EStateM.Result.ok Json.null (env.assign x v) = .ok .null env
    rw [Env.assign_of_halted henv]
  · intro env henv
    have ht : Trace.binding x v env = [.bind x v] := if_neg (Bool.eq_false_iff.1 henv)
    rw [ht]
    exact Or.inl rfl

end Lenient

section Evaluation

variable {nodes : List Expr}

/-- In an expression without returns none completes. -/
theorem returnedValues_changes
    {e : Expr} (h : ∀ m ∈ e.nodes, m.isReturn = false) (name : Option String) (env : Env) :
    returnedValues (changes name e env) = [] := by
  have hrecorded := eval_records e name (List.Subset.refl e.nodes) env
  refine List.filterMap_eq_nil_iff.2 fun c hc => ?_
  cases c with
  | bind x v => rfl
  | halt v =>
      obtain ⟨d, hd⟩ : Change.ComesFrom e.nodes (.halt v) := hrecorded.origin _ hc
      have hd' := h _ hd
      contradiction

theorem lenient_of_no_return
    {e : Expr} (h : ∀ m ∈ e.nodes, m.isReturn = false) (name : Option String) :
    Lenient (changes name e) (eval name e) where
  halted _ henv := ⟨changes_of_halted name e henv, .null, eval_of_halted name e henv⟩
  live env _ := Or.inl (returnedValues_changes h name env)

/-- An operator that makes demands, and is no return itself, has no return. -/
theorem lenient_of_demanding
    (hopen : ReturnsOpenly nodes) {e : Expr} (he : e ∈ nodes)
    (hdemanding : e.demanding = true) (hreturn : e.isReturn = false) (name : Option String) :
    Lenient (changes name e) (eval name e) := by
  refine lenient_of_no_return (fun m hm => ?_) name
  rcases Expr.mem_nodes.1 hm with rfl | ⟨p, hp, hm⟩
  · exact hreturn
  · exact hopen e he hdemanding p hp m hm

mutual

/-- With returns in the open, an evaluation in which one completes comes to a value, and it is
the only one. -/
theorem eval_lenient (hopen : ReturnsOpenly nodes) :
    ∀ (e : Expr) (name : Option String), e.nodes ⊆ nodes →
      Lenient (changes name e) (eval name e)
  | .value v, name, _ => (Lenient.pure v).unlessHalted
  | .list es, name, hn => by
      have hes := evalItems_lenient hopen es (List.cons_subset.1 hn).2
      exact (hes.before fun vs _ => ⟨.array vs, rfl⟩).unlessHalted
  | .literal v, name, _ => (Lenient.pure v).unlessHalted
  | .get x, name, _ => lenient_of_no_return (by simp [Expr.nodes, Expr.isReturn]) name
  | .set x e, name, hn => by
      have he : e.nodes ⊆ nodes := (List.cons_subset.1 hn).2
      have hvalue := eval_lenient hopen e (some x) he
      have hset := hvalue.bind (eval_records e (some x) he) fun v => .binding x v
      exact (hset.unlessOverridden x).unlessHalted
  | .seq es, name, hn =>
      (evalSeq_lenient hopen es .null (List.cons_subset.1 hn).2).unlessHalted
  | .ret e, name, hn => by
      have hret : .ret e ∈ nodes := (List.cons_subset.1 hn).1
      refine Lenient.upToHalt .null fun env _ => ?_
      -- No return completes in the operand, so this one is the first.
      have hnone := returnedValues_changes (hopen _ hret rfl e List.mem_cons_self) none env
      cases hx : eval none e env with
      | error f env' =>
          rw [Trace.andThen_of_error hx]
          exact Or.inl hnone
      | ok v env' =>
          rw [Trace.andThen_of_ok hx, returnedValues_append, hnone, bind_of_ok hx]
          exact Or.inr ⟨v, .null, env'.halt v.truthy, rfl, rfl⟩
  | .cond bs, name, hn =>
      (evalBranches_lenient hopen bs (List.cons_subset.1 hn).2).unlessHalted
  | .array e, name, hn => lenient_of_demanding hopen (List.cons_subset.1 hn).1 rfl rfl name
  | .map es, name, hn => by
      have hes := evalEntries_lenient hopen es (List.cons_subset.1 hn).2
      exact (hes.before fun fields _ => ⟨.object fields, rfl⟩).unlessHalted
  | .index b i, name, hn => lenient_of_demanding hopen (List.cons_subset.1 hn).1 rfl rfl name
  | .coalesce es, name, hn =>
      (evalFirst_lenient hopen es (List.cons_subset.1 hn).2).unlessHalted
  | .all es, name, hn =>
      (evalAll_lenient hopen es (List.cons_subset.1 hn).2).unlessHalted
  | .any es, name, hn =>
      (evalAny_lenient hopen es (List.cons_subset.1 hn).2).unlessHalted
  | .compare c l r, name, hn => by
      have hc : .compare c l r ∈ nodes := (List.cons_subset.1 hn).1
      cases c with
      | equal =>
          obtain ⟨hl, hr⟩ := List.append_subset.1 (List.cons_subset.1 hn).2
          have hleft := eval_lenient hopen l none hl
          refine (hleft.bind (eval_records l none hl) fun v => ?_).unlessHalted
          exact (eval_lenient hopen r none hr).before fun w _ => ⟨.bool (Json.same v w), rfl⟩
      | _ => exact lenient_of_demanding hopen hc rfl rfl name
  | .aggregate _ _, name, hn =>
      lenient_of_demanding hopen (List.cons_subset.1 hn).1 rfl rfl name
  | .arithmetic _ _ _, name, hn =>
      lenient_of_demanding hopen (List.cons_subset.1 hn).1 rfl rfl name
  | .unary u e, name, hn => by
      have hu : .unary u e ∈ nodes := (List.cons_subset.1 hn).1
      cases u with
      | not =>
          have he := eval_lenient hopen e none (List.cons_subset.1 hn).2
          exact (he.before fun v _ => ⟨.bool (!v.truthy), rfl⟩).unlessHalted
      | _ => exact lenient_of_demanding hopen hu rfl rfl name
  | .random _ _ _ _, name, hn =>
      lenient_of_demanding hopen (List.cons_subset.1 hn).1 rfl rfl name

theorem evalItems_lenient (hopen : ReturnsOpenly nodes) :
    ∀ es : List Expr, Expr.nodesAll es ⊆ nodes →
      Lenient (changesItems es) (evalItems es)
  | [], _ => .pure _
  | e :: rest, hn => by
      obtain ⟨he, hrest⟩ := List.append_subset.1 hn
      have hrest := evalItems_lenient hopen rest hrest
      refine (eval_lenient hopen e none he).bind (eval_records e none he) fun v => ?_
      exact hrest.before fun vs _ => ⟨v :: vs, rfl⟩

theorem evalEntries_lenient (hopen : ReturnsOpenly nodes) :
    ∀ es : List (String × Expr), Expr.nodesEntries es ⊆ nodes →
      Lenient (changesEntries es) (evalEntries es)
  | [], _ => .pure _
  | (k, e) :: rest, hn => by
      obtain ⟨he, hrest⟩ := List.append_subset.1 hn
      have hrest := evalEntries_lenient hopen rest hrest
      refine (eval_lenient hopen e none he).bind (eval_records e none he) fun v => ?_
      exact hrest.before fun vs _ => ⟨(k, v) :: vs, rfl⟩

theorem evalSeq_lenient (hopen : ReturnsOpenly nodes) :
    ∀ (es : List Expr) (last : Json), Expr.nodesAll es ⊆ nodes →
      Lenient (changesSeq es) (evalSeq last es)
  | [], last, _ => .pure last
  | e :: rest, last, hn => by
      obtain ⟨he, hrest⟩ := List.append_subset.1 hn
      refine (eval_lenient hopen e none he).bind (eval_records e none he) fun v => ?_
      have hrest := evalSeq_lenient hopen rest v hrest
      exact .upToHalt v hrest.live

theorem evalBranches_lenient (hopen : ReturnsOpenly nodes) :
    ∀ bs : List (Expr × Expr), Expr.nodesBranches bs ⊆ nodes →
      Lenient (changesBranches bs) (evalBranches bs)
  | [], _ => .pure _
  | (c, e) :: rest, hn => by
      obtain ⟨hc, hthen⟩ := List.append_subset.1 hn
      obtain ⟨he, hrest⟩ := List.append_subset.1 hthen
      refine (eval_lenient hopen c none hc).bind (eval_records c none hc) fun v => ?_
      split
      · exact eval_lenient hopen e none he
      · exact evalBranches_lenient hopen rest hrest

theorem evalFirst_lenient (hopen : ReturnsOpenly nodes) :
    ∀ es : List Expr, Expr.nodesAll es ⊆ nodes →
      Lenient (changesFirst es) (evalFirst es)
  | [], _ => .pure _
  | e :: rest, hn => by
      obtain ⟨he, hrest⟩ := List.append_subset.1 hn
      refine (eval_lenient hopen e none he).bind (eval_records e none he) fun v => ?_
      cases v with
      | null => exact evalFirst_lenient hopen rest hrest
      | _ => exact .pure _

theorem evalAll_lenient (hopen : ReturnsOpenly nodes) :
    ∀ es : List Expr, Expr.nodesAll es ⊆ nodes →
      Lenient (changesAll es) (evalAll es)
  | [], _ => .pure _
  | e :: rest, hn => by
      obtain ⟨he, hrest⟩ := List.append_subset.1 hn
      refine (eval_lenient hopen e none he).bind (eval_records e none he) fun v => ?_
      split
      · exact evalAll_lenient hopen rest hrest
      · exact .pure _

theorem evalAny_lenient (hopen : ReturnsOpenly nodes) :
    ∀ es : List Expr, Expr.nodesAll es ⊆ nodes →
      Lenient (changesAny es) (evalAny es)
  | [], _ => .pure _
  | e :: rest, hn => by
      obtain ⟨he, hrest⟩ := List.append_subset.1 hn
      refine (eval_lenient hopen e none he).bind (eval_records e none he) fun v => ?_
      split
      · exact .pure _
      · exact evalAny_lenient hopen rest hrest

end

end Evaluation

namespace Definition

/-- The values of the returns that complete in a run, in their order. -/
def returned (d : Definition) (env : Env) : List Json := returnedValues (changes none d.root env)

theorem takesPart_run
    {d : Definition} {env : Env} {v : Json} {later : List Json}
    (h : d.returned env = v :: later) :
    (endState (d.run env)).takesPart = (later.getLastD v).truthy := by
  have hrecorded := eval_records d.root none (List.Subset.refl d.root.nodes) env
  have hend : env.replay (changes none d.root env) = endState (d.run env) := hrecorded.replay
  have hvalues : returnedValues (changes none d.root env) = v :: later := h
  rw [← hend, Env.takesPart_replay, hvalues, List.map_cons, List.getLastD_cons]
  rw [List.getLastD_eq_getLast?, List.getLastD_eq_getLast?, List.getLast?_map]
  cases later.getLast? with
  | none => rfl
  | some w => rfl

/-- The first completed return decides, and the run does not fail, if and only if the run comes
to a value and the last completed return says the same; and so it is wherever returns stand in
the open. -/
theorem first_return_decides_iff
    {d : Definition} {env : Env} {v : Json} {later : List Json}
    (h : d.returned env = v :: later) :
    ((∃ w env', d.run env = .ok w env' ∧ env'.takesPart = v.truthy) ↔
      (∃ w env', d.run env = .ok w env') ∧ (later.getLastD v).truthy = v.truthy) ∧
    (ReturnsOpenly d.root.nodes → later = [] ∧
      ∃ w env', d.run env = .ok w env' ∧ env'.takesPart = v.truthy) := by
  have hverdict := takesPart_run h
  have hiff : (∃ w env', d.run env = .ok w env' ∧ env'.takesPart = v.truthy) ↔
      (∃ w env', d.run env = .ok w env') ∧ (later.getLastD v).truthy = v.truthy := by
    constructor
    · rintro ⟨w, env', hrun, htakes⟩
      rw [hrun] at hverdict
      exact ⟨⟨w, env', hrun⟩, hverdict.symm.trans htakes⟩
    · rintro ⟨⟨w, env', hrun⟩, hlast⟩
      rw [hrun] at hverdict
      exact ⟨w, env', hrun, hverdict.trans hlast⟩
  refine ⟨hiff, fun hopen => ?_⟩
  have hsome : returnedValues (changes none d.root env) = v :: later := h
  have hlive : env.isHalted = false := by
    refine Bool.eq_false_iff.2 fun henv => ?_
    rw [changes_of_halted none d.root henv] at hsome
    contradiction
  have hlenient := eval_lenient hopen d.root none (List.Subset.refl _)
  rcases hlenient.live env hlive with hnone | ⟨v', w, env', hone, hrun⟩
  · rw [hnone] at hsome
    contradiction
  · rw [hone] at hsome
    obtain ⟨-, rfl⟩ := List.cons.inj hsome
    exact ⟨rfl, hiff.2 ⟨⟨w, env', hrun⟩, rfl⟩⟩

/-- A unit that has left, by a return in a branch, does not take part. -/
theorem sample_left_early :
    let d : Definition := ⟨.seq
      [.set "color" (.value (.string "red")), .cond [(.get "left", .ret (.get "back"))],
        .set "size" (.value (.string "big"))]⟩
    let env : Env := { salt := "s", inputs := [("back", .bool false), ("left", .bool true)] }
    d.returned env = [.bool false] ∧ ReturnsOpenly d.root.nodes ∧
      ∃ w env', d.run env = .ok w env' ∧ env'.takesPart = false := by
  intro d env
  have hreturned : d.returned env = [.bool false] := rfl
  have hopen : ReturnsOpenly d.root.nodes := by decide
  obtain ⟨-, hdecides⟩ := first_return_decides_iff hreturned
  exact ⟨hreturned, hopen, (hdecides hopen).2⟩

/-- A return around a return replaces its verdict, and an operator around both faults. -/
theorem first_return_overruled :
    ¬ ∀ (d : Definition) (env : Env), env.isHalted = false →
      ∀ v later, d.returned env = v :: later →
        ∃ w env', d.run env = .ok w env' ∧ env'.takesPart = v.truthy := by
  intro hall
  let d : Definition := ⟨.seq [.set "x" (.unary .negative (.ret (.ret (.value (.bool true)))))]⟩
  let env : Env := { salt := "s", inputs := [] }
  have hreturned : d.returned env = [.bool true, .null] := rfl
  have hrun : d.run env =
      .error (.typeMismatch "negative" (.notNumber .null)) { env with halted := some false } :=
    rfl
  obtain ⟨w, env', hok, -⟩ := hall d env rfl _ _ hreturned
  rw [hrun] at hok
  contradiction

end Definition

end Allotment
