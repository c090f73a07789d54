import Allotment.Proofs.Dict
import Allotment.Proofs.Eval.Halting

/-!
# Overridden variables

An overridden variable has its value from the start, and a setting of it does nothing: neither
is the variable bound nor is the value of the setting so much as evaluated.

**Results.**
* `Env.Pinned.course`: the overridden variables keep their values along all changes.
* `eval_without`: values of settings of overridden variables do not matter.
* `Definition.overrides_undisturbed`: so no run disturbs an override, and no run depends on what
  stands in such a setting.
-/

namespace Allotment

open Stateful

namespace Dict

variable {α : Type}

/-- What is written over a dictionary can be read there. -/
theorem get?_override
    {d e : Dict α} (he : Ascending e) {x : String} {a : α} (h : get? e x = some a) :
    get? (override d e) x = some a := by
  have hx : x ∈ keys e := List.mem_map_of_mem (mem_of_get? h)
  have hentries : ∀ y ∈ e, get? e y.1 = some y.2 := fun y hy => (mem_iff_get? he).1 hy
  rw [override, get?_foldl_insert e hentries, if_pos hx, h]

end Dict

namespace Env

variable {overrides : Dict Json} {env : Env}

/-- The variables of the overrides are fixed and bound to their values. -/
structure Pinned (overrides : Dict Json) (env : Env) : Prop where
  fixed : env.overrides = overrides
  bound : ∀ x v, Dict.get? overrides x = some v → Dict.get? env.bindings x = some v

theorem pinned_withOverrides
    (h : Dict.Ascending overrides) (env : Env) :
    (env.withOverrides overrides).Pinned overrides where
  fixed := rfl
  bound _ _ hx := Dict.get?_override h hx

namespace Pinned

/-- A pinned variable is read as its value. -/
theorem get?_eq
    (h : env.Pinned overrides) {x : String} {v : Json} (hx : Dict.get? overrides x = some v) :
    env.get? x = some v := by
  unfold Env.get?
  rw [h.bound x v hx]

theorem bind
    (h : env.Pinned overrides) (x : String) (v : Json) :
    (env.bind x v).Pinned overrides := by
  unfold Env.bind
  split
  · exact h
  · rename_i hfree
    refine { fixed := h.fixed, bound := fun y w hy => ?_ }
    have hne : y ≠ x := by
      rintro rfl
      exact hfree (by simp [isOverridden, Dict.contains, h.fixed, hy])
    exact (Dict.get?_insert_of_ne _ v hne).trans (h.bound y w hy)

theorem change
    (h : env.Pinned overrides) (c : Change) :
    (env.change c).Pinned overrides := by
  cases c with
  | bind x v =>
      by_cases hx : x = saltVariable
      · have hsalt : Pinned overrides { env with salt := saltText v } := ⟨h.fixed, h.bound⟩
        simpa only [Env.change, if_pos hx] using hsalt.bind x v
      · simpa only [Env.change, if_neg hx] using h.bind x v
  | halt v => exact ⟨h.fixed, h.bound⟩

/-- Overridden variables keep their values along all changes. -/
theorem course
    (h : env.Pinned overrides) (cs : List Change) :
    ∀ moment ∈ env.course cs, moment.Pinned overrides :=
  forall_mem_course h fun c _ _ hmoment => hmoment.change c

end Pinned

end Env

section Evaluation

variable {overrides : Dict Json} {env : Env}

/-- The environments that an evaluation goes through, from the first to the last. -/
theorem getLast?_course (name : Option String) (e : Expr) (env : Env) :
    (env.course (changes name e env)).getLast? = some (endState (eval name e env)) := by
  have hrecorded := eval_records e name (List.Subset.refl e.nodes) env
  rw [← hrecorded.replay]
  exact List.getLast?_scanl

theorem Env.Pinned.eval
    (h : env.Pinned overrides) (name : Option String) (e : Expr) :
    (endState (eval name e env)).Pinned overrides :=
  h.course _ _ (List.mem_of_getLast? (getLast?_course name e env))

/-- A setting of an overridden variable does nothing. -/
theorem eval_set_of_overridden
    {x : String} (h : env.isOverridden x = true) (name : Option String) (e : Expr) :
    eval name (.set x e) env = .ok .null env := by
  cases hhalted : env.isHalted with
  | true => exact eval_of_halted name _ hhalted
  | false =>
      rw [eval, Run.unlessHalted_of_live hhalted]
      show (if env.isOverridden x then pure .null else _ : Run Json) env = .ok .null env
      rw [if_pos h]
      rfl

end Evaluation

namespace Expr

/-- The expression without the values of the settings of the variables, which are set to null
instead. -/
def without (xs : List String) (e : Expr) : Expr :=
  e.revise fun x d => if x ∈ xs then .value .null else d

/-- The expressions are the same but for the values of settings of the variables. -/
def SameBesides (xs : List String) (e e' : Expr) : Prop := e.without xs = e'.without xs

end Expr

section Inert

variable {env : Env} {overrides : Dict Json}

/-- With the overrides, it does not show what the values of settings of their variables are. -/
theorem unnoticed_without (overrides : Dict Json) :
    Unnoticed (fun a b => a = b ∧ a.overrides = overrides)
      fun x d => if x ∈ Dict.keys overrides then .value .null else d := by
  rintro a b ⟨rfl, hover⟩ x d
  by_cases hx : x ∈ Dict.keys overrides
  · have hfixed : a.isOverridden x = true := by
      rw [Env.isOverridden, hover]
      exact Dict.contains_iff_mem_keys.2 hx
    rw [eval_set_of_overridden hfixed, eval_set_of_overridden hfixed]
  · simp only [if_neg hx]

theorem overrides_bind (env : Env) (x : String) (v : Json) :
    (env.bind x v).overrides = env.overrides := by
  unfold Env.bind
  split
  · rfl
  · rfl

theorem overrides_assign (env : Env) (x : String) (v : Json) :
    (env.assign x v).overrides = env.overrides := by
  unfold Env.assign
  split
  · rfl
  · split
    · exact overrides_bind _ x v
    · exact overrides_bind env x v

/-- The values of settings of overridden variables do not matter to an evaluation. -/
theorem eval_without (name : Option String) (e : Expr) (env : Env) :
    eval name (e.without (Dict.keys env.overrides)) env = eval name e env := by
  have hrespects : Respects (fun a b => a = b ∧ a.overrides = env.overrides) e.nodes :=
    .of_kept (fun a x _ v _ ha => (overrides_assign a x v).trans ha) (fun _ _ _ _ ha => ha)
  have hstep := eval_revised (unnoticed_without env.overrides) e name hrespects
  exact ((hstep env env ⟨rfl, rfl⟩).eq fun h => h.1).symm

/-- Nor does it matter to an evaluation by what they are replaced. -/
theorem eval_of_sameBesides
    {e e' : Expr} (h : e.SameBesides (Dict.keys env.overrides) e') (name : Option String) :
    eval name e env = eval name e' env := by
  rw [← eval_without name e, ← eval_without name e', h]

end Inert

namespace Definition

/-- The environment after runs of some definitions, one after the other, whether they came to
values or to faults. -/
def afterRuns (env : Env) (ds : List Definition) : Env :=
  ds.foldl (fun env d => endState (d.run env)) env

theorem pinned_afterRuns
    {overrides : Dict Json} {env : Env} (h : env.Pinned overrides) (ds : List Definition) :
    (afterRuns env ds).Pinned overrides := by
  induction ds generalizing env with
  | nil => exact h
  | cons d ds ih => exact ih (h.eval none d.root)

/-- Overrides cannot be disturbed.  In an environment with overrides, also after earlier runs,
every moment of a run, up to its value or its fault, finds each overridden variable bound to its
value and reads it as that; and what a run comes to, in which environment, is the same for every
definition that differs in values of settings of overridden variables only. -/
theorem overrides_undisturbed
    {overrides : Dict Json} (hoverrides : Dict.Ascending overrides)
    (env : Env) (earlier : List Definition) :
    let start := afterRuns (env.withOverrides overrides) earlier
    (∀ d : Definition,
      let moments := start.course (changes none d.root start)
      moments.head? = some start ∧ moments.getLast? = some (endState (d.run start)) ∧
      ∀ moment ∈ moments, ∀ x v, Dict.get? overrides x = some v →
        Dict.get? moment.bindings x = some v ∧ moment.get? x = some v) ∧
    ∀ d d' : Definition, d.root.SameBesides (Dict.keys overrides) d'.root →
      d.run start = d'.run start := by
  intro start
  have hstart : start.Pinned overrides :=
    pinned_afterRuns (Env.pinned_withOverrides hoverrides env) earlier
  constructor
  · intro d moments
    refine ⟨List.head?_scanl, getLast?_course none d.root start, ?_⟩
    intro moment hmoment x v hx
    have hpinned : moment.Pinned overrides := hstart.course _ moment hmoment
    exact ⟨hpinned.bound x v hx, hpinned.get?_eq hx⟩
  · intro d d' hsame
    rw [← hstart.fixed] at hsame
    exact eval_of_sameBesides hsame none

/-- A color that is overridden for a unit which has another one as its input.  What a definition
would set it to, be it a color or a return of a name that denotes nothing, does not show. -/
theorem sample_undisturbed :
    let overrides : Dict Json := [("color", .string "red")]
    let env : Env := { salt := "s", inputs := [("color", .string "grey")] }
    let earlier : List Definition := [⟨.set "color" (.get "size")⟩, ⟨.get "size"⟩]
    let withColor (e : Expr) : Definition :=
      ⟨.seq [.cond [(.get "color", .set "color" e)], .set "shade" (.get "color")]⟩
    let blue := withColor (.value (.string "blue"))
    let ended := withColor (.ret (.get "size"))
    let start := afterRuns (env.withOverrides overrides) earlier
    Dict.Ascending overrides ∧
      blue.root.SameBesides (Dict.keys overrides) ended.root ∧
      blue.run start = ended.run start ∧
      (endState (blue.run start)).bindings =
        [("color", .string "red"), ("shade", .string "red")] ∧
      (endState (blue.run start)).get? "color" = some (.string "red") := by
  intro overrides env earlier withColor blue ended start
  have hoverrides : Dict.Ascending overrides := by decide
  have hsame : blue.root.SameBesides (Dict.keys overrides) ended.root := rfl
  obtain ⟨hmoments, hinert⟩ := overrides_undisturbed hoverrides env earlier
  obtain ⟨-, hlast, hbound⟩ := hmoments blue
  have hcolor := hbound _ (List.mem_of_getLast? hlast) "color" (.string "red") rfl
  exact ⟨hoverrides, hsame, hinert blue ended hsame, rfl, hcolor.2⟩

end Definition

end Allotment
