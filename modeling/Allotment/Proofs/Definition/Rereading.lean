import Allotment.Proofs.Eval.Appending
import Allotment.Proofs.Expr.Rereading

/-!
# Definitions that read back what is written

A list in the place of a value is written like a list of expressions, an object with the entry
`op` like an operator, and a map with an entry `op` without its name.  No other expression is
written so that something else is read, and the reader makes no such expression.

**Results.**
* `rereadable_exactly`: which expressions are read back, and that all definitions are that are
  read or appended to.
-/

namespace Allotment

namespace Definition

variable {d d' : Definition} {x : String} {v : Json}

/-- The definition with the variable appended, or as it was if that is refused. -/
def tryAppend (d : Definition) (x : String) (v : Json) : Definition :=
  match d.appendSet x v with
  | .ok d' => d'
  | .error _ => d

/-- The definitions that are read, and those with variables appended to them. -/
inductive Made : Definition → Prop
  | empty : Made empty
  | parsed {text : String} {d : Definition} (h : parse text = .ok d) : Made d
  | read {v : Json} (hv : v.Canonical) {d : Definition} (h : ofJson v = .ok d) : Made d
  | appended {d : Definition} (h : Made d) (x : String) {v : Json} (hv : v.Canonical) :
      Made (d.tryAppend x v)

/-- A node of a definition with a variable appended was there before, is new at the root, or is
read from the value of the variable. -/
theorem of_mem_nodes_appendSet
    (h : d.appendSet x v = .ok d') {n : Expr} (hn : n ∈ d'.root.nodes) :
    n ∈ d.root.nodes ∨ (∃ body, n = .seq body) ∨ (∃ e, n = .set x e) ∨
      ∃ e, Expr.ofJson v = .ok e ∧ n ∈ e.nodes := by
  obtain ⟨body, e, hroot, he, rfl⟩ := of_appendSet_eq_ok h
  rcases Expr.mem_nodes.1 hn with rfl | ⟨p, hp, hn⟩
  · exact .inr (.inl ⟨_, rfl⟩)
  · rcases List.mem_append.1 hp with hp | hp
    · rw [hroot]
      exact .inl (Expr.mem_nodes.2 (.inr ⟨p, hp, hn⟩))
    · cases List.mem_singleton.1 hp
      rcases Expr.mem_nodes.1 hn with rfl | ⟨p, hp, hn⟩
      · exact .inr (.inr (.inl ⟨e, rfl⟩))
      · cases List.mem_singleton.1 hp
        exact .inr (.inr (.inr ⟨e, he, hn⟩))

/-- All that a definition needs to be read from what is written of it. -/
structure Readable (d : Definition) : Prop where
  ordered : d.root.Ordered
  rereadable : d.root.Rereadable

namespace Readable

theorem ofJson_toJson
    (h : d.Readable) :
    ofJson d.toJson = .ok d := by
  unfold ofJson toJson
  rw [Expr.ofJson_toJson h.ordered h.rereadable]
  rfl

theorem of_ofJson
    (hv : v.Canonical) (h : ofJson v = .ok d) :
    d.Readable := by
  obtain ⟨e, he, rfl⟩ := of_map_eq_ok h
  exact ⟨Expr.ordered_of_ofJson hv he, Expr.rereadable_of_ofJson he⟩

theorem of_parse
    {text : String} (h : parse text = .ok d) :
    d.Readable := by
  unfold parse at h
  split at h
  · rename_i v hv
    exact of_ofJson (Json.fits_of_parse? hv).canonical h
  · cases h

theorem empty : Definition.empty.Readable := by
  have hnodes : Definition.empty.root.nodes = [.seq []] := rfl
  constructor
  · intro entries hn
    rw [hnodes] at hn
    cases List.mem_singleton.1 hn
  · intro n hn
    rw [hnodes] at hn
    cases List.mem_singleton.1 hn
    exact trivial

theorem of_appendSet
    (hd : d.Readable) (hv : v.Canonical) (h : d.appendSet x v = .ok d') :
    d'.Readable := by
  constructor
  · intro entries hn
    rcases of_mem_nodes_appendSet h hn with hn | ⟨body, heq⟩ | ⟨e, heq⟩ | ⟨e, he, hn⟩
    · exact hd.ordered entries hn
    · cases heq
    · cases heq
    · exact Expr.ordered_of_ofJson hv he entries hn
  · intro n hn
    rcases of_mem_nodes_appendSet h hn with hn | ⟨body, rfl⟩ | ⟨e, rfl⟩ | ⟨e, he, hn⟩
    · exact hd.rereadable n hn
    · exact trivial
    · exact trivial
    · exact Expr.rereadable_of_ofJson he n hn

theorem tryAppend
    (hd : d.Readable) (x : String) (hv : v.Canonical) :
    (d.tryAppend x v).Readable := by
  unfold Definition.tryAppend
  cases h : d.appendSet x v with
  | ok d' => exact hd.of_appendSet hv h
  | error fault => exact hd

end Readable

theorem Made.readable
    (h : d.Made) :
    d.Readable := by
  induction h with
  | empty => exact .empty
  | parsed h => exact .of_parse h
  | read hv h => exact .of_ofJson hv h
  | appended _ x hv ih => exact ih.tryAppend x hv

/-- An expression is read from what is written of it exactly if no value in it is a list or an
object with the entry `op` and no map in it has such an entry.  All that comes of reading and
appending is read from what is written of it. -/
theorem rereadable_exactly :
    (∀ e : Expr, e.Ordered →
      (Expr.ofJson e.toJson = .ok e ↔ e.Rereadable) ∧
        ∀ e', Expr.ofJson e.toJson = .ok e' → e'.Rereadable) ∧
    ∀ d : Definition, d.Made → d.root.Rereadable ∧ ofJson d.toJson = .ok d := by
  refine ⟨fun e he => ⟨⟨?_, ?_⟩, ?_⟩, fun d hd => ⟨?_, ?_⟩⟩
  · exact Expr.rereadable_of_ofJson
  · exact Expr.ofJson_toJson he
  · exact fun e' => Expr.rereadable_of_ofJson
  · exact hd.readable.rereadable
  · exact hd.readable.ofJson_toJson

section Sample

/-- A map that has a variable in the place of its name. -/
def unnamed : Expr := .map [("op", .get "x")]

theorem mixedRead_rereadable :
    mixedRead.Ordered ∧ Expr.ofJson mixedRead.toJson = .ok mixedRead ∧
    unnamed.Ordered ∧ Expr.ofJson unnamed.toJson ≠ .ok unnamed ∧
    (empty.tryAppend "x" (.array [.null])).Made ∧
    ofJson (empty.tryAppend "x" (.array [.null])).toJson =
      .ok (empty.tryAppend "x" (.array [.null])) := by
  have hordered : mixedRead.Ordered := by
    simp [Expr.Ordered, mixedRead, Expr.nodes, Expr.nodesAll, Expr.nodesDraw, Expr.nodesEntries,
      Dict.Ascending]
  have hrereadable : mixedRead.Rereadable := by
    simp [Expr.Rereadable, mixedRead, Expr.nodes, Expr.nodesAll, Expr.nodesDraw,
      Expr.nodesEntries, Expr.Faithful, Json.Bare, Dict.get?]
  have hunnamed : unnamed.Ordered := by
    simp [Expr.Ordered, unnamed, Expr.nodes, Expr.nodesEntries, Dict.Ascending]
  have hnot : ¬ unnamed.Rereadable := by
    simp [Expr.Rereadable, unnamed, Expr.nodes, Expr.nodesEntries, Expr.Faithful, Dict.get?]
  have hmade : (empty.tryAppend "x" (.array [.null])).Made := by
    refine .appended .empty "x" ?_
    simp [Json.Canonical, Json.CanonicalItems]
  have hread := (rereadable_exactly.1 mixedRead hordered).1.2 hrereadable
  have hlost := mt (rereadable_exactly.1 unnamed hunnamed).1.1 hnot
  exact ⟨hordered, hread, hunnamed, hlost, hmade, (rereadable_exactly.2 _ hmade).2⟩

end Sample

end Definition

end Allotment
