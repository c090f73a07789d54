import Allotment.Proofs.Expr.Parts
import Allotment.Proofs.Expr.RoundTrip

/-!
# Where expressions are read

What the reader makes of a value is put together from what it makes of values inside.  So what
the reader sees to at the root of an expression it sees to everywhere.

**Results.**
* `supplies_ofName?`: the parts of an operator are read from inside its object.
* `Expr.readFrom`: a value makes a root that can be told from what is written, and supplies the
  parts.
* `Expr.rereadable_of_ofJson`: so this holds at all nodes of an expression that is read.
-/

namespace Allotment

open Allotment.Expr (readings fieldOf ofJson)

namespace Json

/-- The value is neither a list nor an object with the entry `op`. -/
def Bare : Json → Prop
  | .array _ => False
  | .object fields => Dict.get? fields "op" = none
  | _ => True

/-- The expression is read from a value inside the value. -/
def Supplies (v : Json) (e : Expr) : Prop := ∃ w, Inside w v ∧ ofJson w = .ok e

theorem Inside.supplies
    {v w : Json} (h : Inside w v) {e : Expr} (he : w.Supplies e) :
    v.Supplies e := by
  obtain ⟨u, hu, he⟩ := he
  exact ⟨u, hu.trans h, he⟩

end Json

open Json (Inside Supplies)

namespace Expr

/-- The root can be told from what is written: a value that stands for itself does not look like
a list or an operator, and a map has no entry in the place of its name. -/
def Faithful : Expr → Prop
  | .value v => v.Bare
  | .map entries => Dict.get? entries "op" = none
  | _ => True

/-- All nodes can be told from what is written. -/
def Rereadable (e : Expr) : Prop := ∀ n ∈ e.nodes, n.Faithful

/-- The entries of every map ascend, as those of a dictionary do. -/
def Ordered (e : Expr) : Prop := ∀ entries, .map entries ∈ e.nodes → Dict.Ascending entries

/-- The expression is an operator with fields of its own. -/
def HasForm : Expr → Prop
  | .value _ => False
  | .list _ => False
  | .map _ => False
  | _ => True

theorem supplies_of_ofItems
    {items : List Json} {es : List Expr} (h : ofItems items = .ok es) {e : Expr} (he : e ∈ es) :
    (Json.array items).Supplies e := by
  suffices ∃ v ∈ items, ofJson v = .ok e by
    obtain ⟨v, hv, hread⟩ := this
    exact ⟨v, .item hv, hread⟩
  induction items generalizing es with
  | nil =>
      cases h
      simp at he
  | cons v rest ih =>
      rw [ofItems_cons] at h
      obtain ⟨x, xs, hx, hxs, rfl⟩ := of_both_eq_ok h
      rcases List.mem_cons.1 he with rfl | he
      · exact ⟨v, List.mem_cons_self, hx⟩
      · obtain ⟨w, hw, hread⟩ := ih hxs he
        exact ⟨w, List.mem_cons_of_mem _ hw, hread⟩

theorem supplies_of_ofBranches
    {items : List Json} {bs : List (Expr × Expr)} (h : ofBranches items = .ok bs)
    {b : Expr × Expr} (hb : b ∈ bs) :
    (Json.array items).Supplies b.1 ∧ (Json.array items).Supplies b.2 := by
  suffices ∃ v ∈ items, ofBranch v = .ok b by
    obtain ⟨v, hv, hread⟩ := this
    obtain ⟨fields, vc, ve, rfl, -, hif, hc, hthen, he⟩ := of_ofBranch_eq_ok hread
    exact ⟨⟨vc, (Inside.of_get? hif).trans (.item hv), hc⟩,
      ⟨ve, (Inside.of_get? hthen).trans (.item hv), he⟩⟩
  induction items generalizing bs with
  | nil =>
      cases h
      simp at hb
  | cons v rest ih =>
      rw [ofBranches_cons] at h
      obtain ⟨x, xs, hx, hxs, rfl⟩ := of_both_eq_ok h
      rcases List.mem_cons.1 hb with rfl | hb
      · exact ⟨v, List.mem_cons_self, hx⟩
      · obtain ⟨w, hw, hread⟩ := ih hxs hb
        exact ⟨w, List.mem_cons_of_mem _ hw, hread⟩

/-- The entries of a map are those of its object but the operator's name. -/
theorem keys_of_ofEntries
    {fields : List (String × Json)} {entries : List (String × Expr)}
    (h : ofEntries fields = .ok entries) :
    Dict.keys entries = (Dict.keys fields).filter (· ≠ "op") := by
  induction fields generalizing entries with
  | nil =>
      cases h
      rfl
  | cons x rest ih =>
      obtain ⟨k, v⟩ := x
      by_cases hk : k = "op"
      · rw [ofEntries, if_pos hk] at h
        simpa [Dict.keys, hk] using ih h
      · rw [ofEntries_cons rest v hk] at h
        obtain ⟨e, es, he, hes, rfl⟩ := of_both_eq_ok h
        simpa [Dict.keys, hk] using ih hes

theorem supplies_of_ofEntries
    {fields : List (String × Json)} {entries : List (String × Expr)}
    (h : ofEntries fields = .ok entries) {x : String × Expr} (hx : x ∈ entries) :
    (Json.object fields).Supplies x.2 := by
  suffices ∃ y ∈ fields, ofJson y.2 = .ok x.2 by
    obtain ⟨y, hy, hread⟩ := this
    exact ⟨y.2, .entry hy, hread⟩
  induction fields generalizing entries with
  | nil =>
      cases h
      simp at hx
  | cons y rest ih =>
      obtain ⟨k, v⟩ := y
      by_cases hk : k = "op"
      · rw [ofEntries, if_pos hk] at h
        obtain ⟨w, hw, hread⟩ := ih h hx
        exact ⟨w, List.mem_cons_of_mem _ hw, hread⟩
      · rw [ofEntries_cons rest v hk] at h
        obtain ⟨e, es, he, hes, rfl⟩ := of_both_eq_ok h
        rcases List.mem_cons.1 hx with rfl | hx
        · exact ⟨(k, v), List.mem_cons_self, he⟩
        · obtain ⟨w, hw, hread⟩ := ih hes hx
          exact ⟨w, List.mem_cons_of_mem _ hw, hread⟩

/-- The expression is an operator, and its parts are supplied by the value. -/
structure Assembled (v : Json) (e : Expr) : Prop where
  hasForm : e.HasForm
  parts : ∀ p ∈ e.parts, v.Supplies p

end Expr

namespace Form

variable {fields : List (String × Json)} {α : Type}

theorem supplies_expr (key : String) :
    Yields fields (expr key) fun _ e => (Json.object fields).Supplies e :=
  .required fun v _ _ hv h => ⟨v, .of_get? hv, h⟩

theorem supplies_expr? (key : String) :
    Yields fields (expr? key) fun _ o => ∀ e ∈ o, (Json.object fields).Supplies e := by
  refine .optional (fun v _ e hv h => ?_) (by simp)
  intro e' he'
  cases he'
  exact ⟨v, .of_get? hv, h⟩

theorem supplies_exprs (key : String) :
    Yields fields (exprs key) fun _ es => ∀ e ∈ es, (Json.object fields).Supplies e := by
  refine .required fun v _ es hv h => ?_
  split at h
  · rename_i read hread
    obtain ⟨items, rfl, hitems⟩ := Expr.of_itemsOf_eq_some hread
    rw [hitems] at h
    exact fun e he => (Inside.of_get? hv).supplies (Expr.supplies_of_ofItems h he)
  · cases h

theorem supplies_branches (key : String) :
    Yields fields (branches key) fun _ bs =>
      ∀ b ∈ bs, (Json.object fields).Supplies b.1 ∧ (Json.object fields).Supplies b.2 := by
  refine .required fun v _ bs hv h => ?_
  split at h
  · rename_i read hread
    obtain ⟨items, rfl, hitems⟩ := Expr.of_branchesOf_eq_some hread
    rw [hitems] at h
    intro b hb
    obtain ⟨hc, he⟩ := Expr.supplies_of_ofBranches h hb
    exact ⟨(Inside.of_get? hv).supplies hc, (Inside.of_get? hv).supplies he⟩
  · cases h

/-- A form of one expression. -/
theorem supplies_one
    {key : String} {g : Expr → α} {P : α → Prop}
    (hg : ∀ x, (∀ p ∈ [x], (Json.object fields).Supplies p) → P (g x)) :
    Yields fields ((expr key).map g) fun _ a => P a :=
  (supplies_expr key).map fun _ x hx => hg x (List.forall_mem_singleton.2 hx)

/-- A form of two expressions. -/
theorem supplies_two
    {key key' : String} {g : Expr → Expr → α} {P : α → Prop}
    (hg : ∀ x y, (∀ p ∈ [x, y], (Json.object fields).Supplies p) → P (g x y)) :
    Yields fields (((expr key).map g).seq (expr key')) fun _ a => P a := by
  refine .seq ((supplies_expr key).map fun _ x hx _ y hy => hg x y ?_) (supplies_expr key')
  exact List.forall_mem_cons.2 ⟨hx, List.forall_mem_singleton.2 hy⟩

/-- A form of a list of expressions. -/
theorem supplies_list
    {key : String} {g : List Expr → α} {P : α → Prop}
    (hg : ∀ es, (∀ p ∈ es, (Json.object fields).Supplies p) → P (g es)) :
    Yields fields ((exprs key).map g) fun _ a => P a :=
  (supplies_exprs key).map fun _ => hg

theorem supplies_set :
    Yields fields (((text "var").map Expr.set).seq (expr "value")) fun _ e =>
      e.Assembled (.object fields) := by
  refine .seq ((yields_text "var").map fun _ x _ _ e he => ?_) (supplies_expr "value")
  exact ⟨trivial, List.forall_mem_singleton.2 he⟩

theorem supplies_cond :
    Yields fields ((branches "cond").map Expr.cond) fun _ e => e.Assembled (.object fields) := by
  refine (supplies_branches "cond").map fun _ bs hbs => ⟨trivial, fun p hp => ?_⟩
  obtain ⟨b, hb, hp⟩ := List.mem_flatMap.1 hp
  obtain ⟨hc, he⟩ := hbs b hb
  simp only [List.mem_cons, List.not_mem_nil, or_false] at hp
  rcases hp with rfl | rfl
  · exact hc
  · exact he

theorem supplies_sample :
    Yields fields (((expr "choices").map Lottery.sample).seq (expr? "draws")) fun _ d =>
      ∀ p ∈ d.operands, (Json.object fields).Supplies p := by
  refine .seq ((supplies_expr "choices").map fun _ c hc _ n hn => ?_) (supplies_expr? "draws")
  exact List.forall_mem_cons.2 ⟨hc, fun p hp => hn p (Option.mem_toList.1 hp)⟩

theorem supplies_random
    {draw : Form (Lottery Expr)}
    (h : Yields fields draw fun _ d => ∀ p ∈ d.operands, (Json.object fields).Supplies p) :
    Yields fields (random draw) fun _ e => e.Assembled (.object fields) := by
  refine .seq (.seq (.seq (h.map ?_) (supplies_expr "unit")) (yields_text? "salt"))
    (yields_text? "full_salt")
  intro _ d hd _ unit hunit _ salt _ _ fullSalt _
  exact ⟨trivial, List.forall_mem_cons.2 ⟨hunit, hd⟩⟩

/-- The parts of an operator are read from inside its object. -/
theorem supplies_ofName?
    {name : String} {form : Form Expr} (h : ofName? name = some form) :
    Yields fields form fun _ e => e.Assembled (.object fields) := by
  unfold ofName? at h
  split at h <;> cases h
  · exact (yields_json _).map fun _ _ _ => ⟨trivial, List.forall_mem_nil _⟩
  · exact (yields_text _).map fun _ _ _ => ⟨trivial, List.forall_mem_nil _⟩
  · exact supplies_set
  · exact supplies_list fun _ h => ⟨trivial, h⟩
  · exact supplies_one fun _ h => ⟨trivial, h⟩
  · exact supplies_cond
  · exact supplies_one fun _ h => ⟨trivial, h⟩
  · exact supplies_two fun _ _ h => ⟨trivial, h⟩
  · exact supplies_list fun _ h => ⟨trivial, h⟩
  · exact supplies_list fun _ h => ⟨trivial, h⟩
  · exact supplies_list fun _ h => ⟨trivial, h⟩
  · exact supplies_two fun _ _ h => ⟨trivial, h⟩
  · exact supplies_two fun _ _ h => ⟨trivial, h⟩
  · exact supplies_two fun _ _ h => ⟨trivial, h⟩
  · exact supplies_two fun _ _ h => ⟨trivial, h⟩
  · exact supplies_two fun _ _ h => ⟨trivial, h⟩
  · exact supplies_one fun _ h => ⟨trivial, h⟩
  · exact supplies_one fun _ h => ⟨trivial, h⟩
  · exact supplies_one fun _ h => ⟨trivial, h⟩
  · exact supplies_one fun _ h => ⟨trivial, h⟩
  · exact supplies_two fun _ _ h => ⟨trivial, h⟩
  · exact supplies_two fun _ _ h => ⟨trivial, h⟩
  · exact supplies_one fun _ h => ⟨trivial, h⟩
  · exact supplies_one fun _ h => ⟨trivial, h⟩
  · exact supplies_one fun _ h => ⟨trivial, h⟩
  · exact supplies_one fun _ h => ⟨trivial, h⟩
  · exact supplies_random (supplies_one fun _ h => h)
  · exact supplies_random (supplies_two fun _ _ h => h)
  · exact supplies_random (supplies_one fun _ h => h)
  · exact supplies_random (supplies_two fun _ _ h => h)
  · exact supplies_random (supplies_two fun _ _ h => h)
  · exact supplies_random (supplies_two fun _ _ h => h)
  · exact supplies_random supplies_sample

end Form

namespace Expr

/-- The expression is what the reader can make of the value: its root can be told from what is
written, and its parts are read from values inside. -/
structure ReadFrom (v : Json) (e : Expr) : Prop where
  faithful : e.Faithful
  ascending : v.Canonical → ∀ entries, e = .map entries → Dict.Ascending entries
  parts : ∀ p ∈ e.parts, v.Supplies p

theorem Assembled.readFrom
    {v : Json} {e : Expr} (h : e.Assembled v) :
    e.ReadFrom v where
  faithful := by
    have hform := h.hasForm
    cases e with
    | value v => exact hform.elim
    | map entries => exact hform.elim
    | _ => exact trivial
  ascending := by
    rintro _ entries rfl
    exact h.hasForm.elim
  parts := h.parts

theorem readFrom_value
    {v : Json} (h : v.Bare) :
    (Expr.value v).ReadFrom v where
  faithful := h
  ascending _ _ heq := by cases heq
  parts := List.forall_mem_nil _

theorem readFrom_list
    {items : List Json} {es : List Expr} (h : ofItems items = .ok es) :
    (Expr.list es).ReadFrom (.array items) where
  faithful := trivial
  ascending _ _ heq := by cases heq
  parts _ hp := supplies_of_ofItems h hp

theorem readFrom_map
    {fields : List (String × Json)} {entries : List (String × Expr)}
    (h : ofEntries fields = .ok entries) :
    (Expr.map entries).ReadFrom (.object fields) where
  faithful := by
    show Dict.get? entries "op" = none
    rw [Dict.get?_eq_none_iff, keys_of_ofEntries h]
    simp
  ascending hcan entries' heq := by
    cases heq
    have hasc := (Json.canonical_object_iff.1 hcan).1
    rw [Dict.ascending_iff_keys] at hasc ⊢
    rw [keys_of_ofEntries h]
    exact hasc.filter _
  parts p hp := by
    obtain ⟨x, hx, rfl⟩ := List.mem_map.1 hp
    exact supplies_of_ofEntries h hx

theorem readFrom
    {v : Json} {e : Expr} (h : ofJson v = .ok e) :
    e.ReadFrom v := by
  cases v with
  | array items =>
      rw [ofJson_array] at h
      obtain ⟨es, hes, rfl⟩ := of_map_eq_ok h
      exact readFrom_list hes
  | object fields =>
      rcases op_cases fields with hop | hop | ⟨name, hop, hname⟩ | ⟨found, hop, hfound⟩
      · rw [ofJson_plain hop] at h
        cases h
        exact readFrom_value hop
      · rw [ofJson_map hop] at h
        obtain ⟨entries, hentries, rfl⟩ := of_map_eq_ok h
        exact readFrom_map hentries
      · rw [ofJson_operator hop hname] at h
        obtain ⟨form, hform, hread, -⟩ := Form.of_build_eq_ok h
        exact (Form.supplies_ofName? hform name e hread).readFrom
      · rw [ofJson_nameNotString hop hfound] at h
        cases h
  | _ =>
      cases h
      exact readFrom_value trivial

/-- Every node of an expression is read from the value or from a value inside. -/
theorem exists_origin
    {v : Json} {e : Expr} (h : ofJson v = .ok e) {n : Expr} (hn : n ∈ e.nodes) :
    ∃ w, (w = v ∨ w.Inside v) ∧ ofJson w = .ok n := by
  induction e using induction_on_parts generalizing v with
  | step e ih =>
      rcases mem_nodes.1 hn with rfl | ⟨p, hp, hn⟩
      · exact ⟨v, .inl rfl, h⟩
      · obtain ⟨w, hw, hread⟩ := (readFrom h).parts p hp
        obtain ⟨u, hu, hn⟩ := ih p hp hread hn
        refine ⟨u, .inr ?_, hn⟩
        rcases hu with rfl | hu
        · exact hw
        · exact hu.trans hw

/-- An expression that is read can be told from what is written. -/
theorem rereadable_of_ofJson
    {v : Json} {e : Expr} (h : ofJson v = .ok e) :
    e.Rereadable := by
  intro n hn
  obtain ⟨w, -, hw⟩ := exists_origin h hn
  exact (readFrom hw).faithful

/-- In an expression that is read from a canonical value the entries of every map ascend. -/
theorem ordered_of_ofJson
    {v : Json} (hv : v.Canonical) {e : Expr} (h : ofJson v = .ok e) :
    e.Ordered := by
  intro entries hentries
  obtain ⟨w, hw, hread⟩ := exists_origin h hentries
  have hcan : w.Canonical := by
    rcases hw with rfl | hw
    · exact hv
    · exact hw.canonical hv
  exact (readFrom hread).ascending hcan entries rfl

end Expr

end Allotment
