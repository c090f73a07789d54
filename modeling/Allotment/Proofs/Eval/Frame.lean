import Allotment.Proofs.Eval.Faults
import Allotment.Proofs.Eval.Footprint
import Allotment.Proofs.Eval.Overrides

/-!
# What an evaluation leaves alone

Whatever becomes of an evaluation, its settings and returns bound what is different afterwards.
Inputs and overrides stay, no variable loses its value, and a variable that no setting names keeps
it.  The salt is replaced by a setting of its variable only, and the verdict comes from a return.
This holds between any two moments of the evaluation, up to its value or its fault.

Therefore a name that turns out to denote nothing did so at the start already.

**Results.**
* `Expr.Footprint.change`: what one change leaves alone.
* `evaluation_footprint`: what an evaluation leaves alone, and which names it can find undefined.
-/

namespace Allotment

open Stateful

/-- A name denotes nothing if it is neither bound nor an input. -/
theorem Env.get?_eq_none_iff
    {env : Env} {x : String} :
    env.get? x = none ↔ Dict.get? env.bindings x = none ∧ Dict.get? env.inputs x = none := by
  unfold get?
  cases Dict.get? env.bindings x with
  | none => simp
  | some v => simp

namespace Expr

/-- The second environment differs from the first one only where nodes of the expression can have
changed it. -/
structure Footprint (e : Expr) (env env' : Env) : Prop where
  inputs : env'.inputs = env.inputs
  overrides : env'.overrides = env.overrides
  /-- What is bound stays bound. -/
  bound : ∀ x, Dict.get? env.bindings x ≠ none → Dict.get? env'.bindings x ≠ none
  /-- A variable that no setting names keeps its value, or has none. -/
  kept : ∀ x, (∀ d, .set x d ∉ e.nodes) →
    Dict.get? env'.bindings x = Dict.get? env.bindings x
  salt : env'.salt ≠ env.salt → ∃ d, .set Env.saltVariable d ∈ e.nodes
  halted : env'.halted ≠ env.halted → ∃ d, .ret d ∈ e.nodes

namespace Footprint

variable {e : Expr} {env env₁ env' : Env}

theorem refl (e : Expr) (env : Env) :
    e.Footprint env env where
  inputs := rfl
  overrides := rfl
  bound _ h := h
  kept _ _ := rfl
  salt h := absurd rfl h
  halted h := absurd rfl h

theorem trans
    (h : e.Footprint env env₁) (h' : e.Footprint env₁ env') :
    e.Footprint env env' where
  inputs := h'.inputs.trans h.inputs
  overrides := h'.overrides.trans h.overrides
  bound x hx := h'.bound x (h.bound x hx)
  kept x hx := (h'.kept x hx).trans (h.kept x hx)
  salt hne := by
    by_cases hsame : env₁.salt = env.salt
    · exact h'.salt (hsame ▸ hne)
    · exact h.salt hsame
  halted hne := by
    by_cases hsame : env₁.halted = env.halted
    · exact h'.halted (hsame ▸ hne)
    · exact h.halted hsame

/-- What is not bound afterwards was not bound before. -/
theorem unbound
    (h : e.Footprint env env') {x : String} (hx : Dict.get? env'.bindings x = none) :
    Dict.get? env.bindings x = none := by
  cases hbefore : Dict.get? env.bindings x with
  | none => rfl
  | some v => exact absurd hx (h.bound x (by simp [hbefore]))

/-- A variable is bound by a setting of it. -/
theorem bind
    {x : String} {d : Expr} (hx : .set x d ∈ e.nodes) (env : Env) (v : Json) :
    e.Footprint env (env.bind x v) := by
  unfold Env.bind
  split
  · exact .refl e env
  · refine { Footprint.refl e env with bound := fun y hy => ?_, kept := fun y hy => ?_ }
    · show Dict.get? (Dict.insert env.bindings x v) y ≠ none
      rw [Dict.get?_insert]
      split
      · exact Option.some_ne_none v
      · exact hy
    · exact Dict.get?_insert_of_ne _ v fun hyx => hy d (hyx ▸ hx)

/-- The salt is replaced by a setting of its variable. -/
theorem replaceSalt
    {d : Expr} (hx : .set Env.saltVariable d ∈ e.nodes) (env : Env) (salt : String) :
    e.Footprint env { env with salt } :=
  { Footprint.refl e env with salt := fun _ => ⟨d, hx⟩ }

/-- A change leaves alone what its node does not name. -/
theorem change
    {c : Change} (hc : c.ComesFrom e.nodes) (env : Env) :
    e.Footprint env (env.change c) := by
  cases c with
  | bind x v =>
      obtain ⟨d, hx⟩ := hc
      by_cases hsalt : x = Env.saltVariable
      · simp only [Env.change, if_pos hsalt]
        exact (replaceSalt (hsalt ▸ hx) env _).trans (.bind hx _ v)
      · simp only [Env.change, if_neg hsalt]
        exact .bind hx env v
  | halt v => exact { Footprint.refl e env with halted := fun _ => hc }

/-- From the first environment of a course on, its changes leave alone what their nodes do not
name. -/
theorem course
    {cs : List Change} (hcs : ∀ c ∈ cs, c.ComesFrom e.nodes) (env : Env) :
    ∀ moment ∈ env.course cs, e.Footprint env moment :=
  Env.forall_mem_course (.refl e env) fun c hc moment hmoment =>
    hmoment.trans (change (hcs c hc) moment)

/-- The same between any two environments of a course. -/
theorem pairwise_course
    {cs : List Change} (hcs : ∀ c ∈ cs, c.ComesFrom e.nodes) (env : Env) :
    (env.course cs).Pairwise e.Footprint := by
  induction cs generalizing env with
  | nil => exact List.pairwise_singleton _ _
  | cons c cs ih =>
      have hall := course hcs env
      rw [Env.course_cons] at hall ⊢
      refine List.pairwise_cons.2 ⟨fun moment hmoment => ?_, ?_⟩
      · exact hall moment (List.mem_cons_of_mem env hmoment)
      · exact ih (fun d hd => hcs d (List.mem_cons_of_mem c hd)) _

end Footprint

end Expr

/-- An evaluation leaves inputs and overrides alone, keeps bound what is bound, and changes only
variables that a setting names, the salt only with a setting of its variable, and the verdict only
with a return: up to its value or its fault, and between any two moments on the way.  A name that
it finds undefined is read by a node and was neither bound nor an input at the start. -/
theorem evaluation_footprint (name : Option String) (e : Expr) (env : Env) :
    let moments := env.course (changes name e env)
    e.Footprint env (endState (eval name e env)) ∧
    (moments.head? = some env ∧ moments.getLast? = some (endState (eval name e env)) ∧
      moments.Pairwise e.Footprint) ∧
    ∀ x env', eval name e env = .error (.undefinedVariable x) env' →
      .get x ∈ e.nodes ∧ Dict.get? env.bindings x = none ∧ Dict.get? env.inputs x = none := by
  intro moments
  have hrecorded := eval_records e name (List.Subset.refl e.nodes) env
  have hlast : moments.getLast? = some (endState (eval name e env)) := getLast?_course name e env
  have hend : e.Footprint env (endState (eval name e env)) :=
    .course hrecorded.origin env _ (List.mem_of_getLast? hlast)
  refine ⟨hend, ⟨List.head?_scanl, hlast,
    Expr.Footprint.pairwise_course hrecorded.origin env⟩, ?_⟩
  intro x env' hfault
  obtain ⟨hread, hnone⟩ := eval_raises e name (List.Subset.refl e.nodes) env env' _ hfault
  rw [hfault, endState_error] at hend
  obtain ⟨hunbound, hinput⟩ := Env.get?_eq_none_iff.1 hnone
  exact ⟨hread, hend.unbound hunbound, hend.inputs ▸ hinput⟩

/-- A setting replaces the salt before a name is found undefined.  The variable that no setting
names keeps its value. -/
theorem sample_footprint :
    let e : Expr := .seq [.set "color" (.value (.string "red")),
      .set "experiment_salt" (.get "color"), .ret (.get "size")]
    let env : Env :=
      { salt := "s", inputs := [("age", .ofNat 3)], bindings := [("shade", .string "dark")] }
    ∃ env', eval none e env = .error (.undefinedVariable "size") env' ∧
      env'.salt = "red" ∧ env'.inputs = env.inputs ∧
      Dict.get? env'.bindings "shade" = some (.string "dark") ∧
      .get "size" ∈ e.nodes := by
  intro e env
  obtain ⟨hend, -, hundefined⟩ := evaluation_footprint none e env
  have hshade : ∀ d, .set "shade" d ∉ e.nodes := by
    simp [e, Expr.nodes, Expr.nodesAll]
  have hfault : eval none e env = .error (.undefinedVariable "size") _ := rfl
  exact ⟨_, hfault, rfl, hend.inputs, hend.kept "shade" hshade, (hundefined _ _ hfault).1⟩

end Allotment
