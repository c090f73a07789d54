import Allotment.Definition
import Allotment.Proofs.Eval.Simulation

/-!
# Inputs that are not read

Inputs are looked at by the reading of names only.  So two environments that differ in inputs
which no node of an expression reads are not told apart by its evaluation.

**Results.**
* `eval_unread`: the evaluations come to the same, in environments that differ in their inputs
  as before.
* `Definition.run_noninterference`: what a definition comes to, binds and leaves as the salt and
  the verdict depends on the inputs that it reads and on no others.
-/

namespace Allotment

open Stateful

/-- The environments differ in nothing but the values of inputs that no node reads. -/
structure SameBut (nodes : List Expr) (a b : Env) : Prop where
  salt : a.salt = b.salt
  overrides : a.overrides = b.overrides
  bindings : a.bindings = b.bindings
  /-- Both have the same verdict, or none. -/
  halted : a.halted = b.halted
  /-- The inputs that are read are the same. -/
  inputs : ∀ x, .get x ∈ nodes → Dict.get? a.inputs x = Dict.get? b.inputs x

namespace SameBut

variable {nodes : List Expr} {a b : Env}

theorem isOverridden
    (h : SameBut nodes a b) (x : String) :
    a.isOverridden x = b.isOverridden x := by
  unfold Env.isOverridden
  rw [h.overrides]

theorem isHalted
    (h : SameBut nodes a b) :
    a.isHalted = b.isHalted := by
  unfold Env.isHalted
  rw [h.halted]

theorem bind
    (h : SameBut nodes a b) (x : String) (v : Json) :
    SameBut nodes (a.bind x v) (b.bind x v) := by
  unfold Env.bind
  rw [h.isOverridden x]
  split
  · exact h
  · exact { h with bindings := congrArg (fun d => Dict.insert d x v) h.bindings }

theorem assign
    (h : SameBut nodes a b) (x : String) (v : Json) :
    SameBut nodes (a.assign x v) (b.assign x v) := by
  unfold Env.assign
  rw [h.isHalted]
  split
  · exact h
  · split
    · have hsalt : SameBut nodes
          { a with salt := Env.saltText v } { b with salt := Env.saltText v } :=
        { h with salt := rfl }
      exact hsalt.bind x v
    · exact h.bind x v

theorem halt
    (h : SameBut nodes a b) (verdict : Bool) :
    SameBut nodes (a.halt verdict) (b.halt verdict) :=
  { h with halted := rfl }

/-- The nodes do not tell the environments apart. -/
theorem respects (nodes : List Expr) : Respects (SameBut nodes) nodes where
  halted h := h.isHalted
  salt h := h.salt
  overridden h _ := h.isOverridden _
  read {a b x} h hx := by
    unfold Env.get?
    rw [h.bindings, h.inputs x hx]
  assign v h _ := h.assign _ v
  halt verdict h _ := h.halt verdict

end SameBut

/-- Inputs that no node reads do not matter to an evaluation. -/
theorem eval_unread
    (name : Option String) (e : Expr) {a b : Env}
    (h : SameBut e.nodes a b) :
    Matches (SameBut e.nodes) (eval name e a) (eval name e b) :=
  eval_inStep e name (SameBut.respects e.nodes) a b h

/-- The environments differ in nothing but their inputs. -/
structure Env.SameBesidesInputs (a b : Env) : Prop where
  salt : a.salt = b.salt
  overrides : a.overrides = b.overrides
  bindings : a.bindings = b.bindings
  halted : a.halted = b.halted

theorem SameBut.besidesInputs
    {nodes : List Expr} {a b : Env} (h : SameBut nodes a b) :
    a.SameBesidesInputs b where
  salt := h.salt
  overrides := h.overrides
  bindings := h.bindings
  halted := h.halted

/-- Inputs that a definition does not read do not show in what a run of it comes to: neither in
the value or the fault nor in the environment that is left. -/
theorem Definition.run_noninterference
    (d : Definition) {a b : Env} (hab : a.SameBesidesInputs b)
    (hread : ∀ x, .get x ∈ d.root.nodes → Dict.get? a.inputs x = Dict.get? b.inputs x) :
    Matches Env.SameBesidesInputs (d.run a) (d.run b) := by
  have hsame : SameBut d.root.nodes a b :=
    { salt := hab.salt
      overrides := hab.overrides
      bindings := hab.bindings
      halted := hab.halted
      inputs := hread }
  have heval : Matches (SameBut d.root.nodes) (d.run a) (d.run b) :=
    eval_unread none d.root hsame
  exact heval.mono SameBut.besidesInputs

/-- A definition that reads an input for a variable and one for its verdict, run for two units
of which only the second has a region. -/
theorem Definition.sample_noninterference :
    let d : Definition := ⟨.seq [.set "x" (.get "u"), .ret (.get "v")]⟩
    let here : Env := { salt := "s", inputs := [("u", .string "a"), ("v", .bool true)] }
    let there : Env :=
      { salt := "s", inputs := [("region", .null), ("u", .string "a"), ("v", .bool true)] }
    Dict.get? here.inputs "region" ≠ Dict.get? there.inputs "region" ∧
      here.SameBesidesInputs there ∧ Matches Env.SameBesidesInputs (d.run here) (d.run there) := by
  intro d here there
  have hab : here.SameBesidesInputs there := ⟨rfl, rfl, rfl, rfl⟩
  have hread : ∀ x, .get x ∈ d.root.nodes →
      Dict.get? here.inputs x = Dict.get? there.inputs x := by
    intro x hx
    have hnames : x = "u" ∨ x = "v" := by
      simpa [d, Expr.nodes, Expr.nodesAll] using hx
    rcases hnames with rfl | rfl
    · rfl
    · rfl
  exact ⟨by simp [here, there, Dict.get?], hab, d.run_noninterference hab hread⟩

end Allotment
