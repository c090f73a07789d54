import Allotment.Proofs.Expr.Nodes

/-!
# Parts of an expression

The expressions that stand directly in an expression, in their order.  What goes on below a node
is said for its parts, so a proof by induction has one case for all operators.

**Results.**
* `Expr.nodes_eq`: the nodes are the expression and the nodes of its parts.
* `Expr.induction_on_parts`: induction from the parts to the whole.
-/

namespace Allotment

universe u

/-- The operands of a draw. -/
def Lottery.operands {α : Type u} : Lottery α → List α
  | .uniformChoice c => [c]
  | .weightedChoice c w => [c, w]
  | .bernoulliTrial p => [p]
  | .bernoulliFilter p c => [p, c]
  | .randomFloat lo hi => [lo, hi]
  | .randomInteger lo hi => [lo, hi]
  | .sample c n => c :: n.toList

namespace Expr

/-- The expressions directly inside an expression. -/
def parts : Expr → List Expr
  | .value _ => []
  | .list es => es
  | .literal _ => []
  | .get _ => []
  | .set _ e => [e]
  | .seq es => es
  | .ret e => [e]
  | .cond bs => bs.flatMap fun b => [b.1, b.2]
  | .array e => [e]
  | .map es => es.map (·.2)
  | .index b i => [b, i]
  | .coalesce es => es
  | .all es => es
  | .any es => es
  | .compare _ l r => [l, r]
  | .aggregate _ e => [e]
  | .arithmetic _ l r => [l, r]
  | .unary _ e => [e]
  | .random draw unit _ _ => unit :: draw.operands

theorem nodesAll_eq (es : List Expr) : nodesAll es = es.flatMap nodes := by
  induction es with
  | nil => rfl
  | cons e es ih => rw [nodesAll, ih, List.flatMap_cons]

theorem nodesBranches_eq (bs : List (Expr × Expr)) :
    nodesBranches bs = (bs.flatMap fun b => [b.1, b.2]).flatMap nodes := by
  induction bs with
  | nil => rfl
  | cons b bs ih => simp [nodesBranches, ih]

theorem nodesEntries_eq (es : List (String × Expr)) :
    nodesEntries es = (es.map (·.2)).flatMap nodes := by
  induction es with
  | nil => rfl
  | cons e es ih => simp [nodesEntries, ih]

theorem nodesDraw_eq (draw : Lottery Expr) : nodesDraw draw = draw.operands.flatMap nodes := by
  cases draw with
  | sample c n =>
      cases n with
      | none => simp [nodesDraw, Lottery.operands]
      | some n => simp [nodesDraw, Lottery.operands]
  | _ => simp [nodesDraw, Lottery.operands]

/-- The nodes are the expression and the nodes of its parts. -/
theorem nodes_eq (e : Expr) : e.nodes = e :: e.parts.flatMap nodes := by
  cases e <;>
    simp [nodes, parts, nodesAll_eq, nodesBranches_eq, nodesEntries_eq, nodesDraw_eq]

theorem mem_nodes_self (e : Expr) : e ∈ e.nodes := by
  rw [nodes_eq]
  exact List.mem_cons_self

theorem mem_nodes {e n : Expr} : n ∈ e.nodes ↔ n = e ∨ ∃ p ∈ e.parts, n ∈ p.nodes := by
  rw [nodes_eq, List.mem_cons, List.mem_flatMap]

theorem length_nodes_lt_of_part {e p : Expr} (h : p ∈ e.parts) :
    p.nodes.length < e.nodes.length := by
  have hsub : p.nodes.Sublist (e.parts.flatMap nodes) :=
    List.sublist_flatten_of_mem (List.mem_map_of_mem h)
  rw [nodes_eq e, List.length_cons]
  exact Nat.lt_succ_of_le hsub.length_le

/-- Induction from the parts to the whole. -/
@[elab_as_elim]
theorem induction_on_parts {motive : Expr → Prop}
    (step : ∀ e, (∀ p ∈ e.parts, motive p) → motive e) (e : Expr) : motive e :=
  step e fun p _ => induction_on_parts step p
termination_by e.nodes.length
decreasing_by exact length_nodes_lt_of_part ‹_›

end Expr

end Allotment
