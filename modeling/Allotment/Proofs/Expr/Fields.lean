import Allotment.Expr.OfJson
import Allotment.Proofs.Dict

/-!
# Fields of an operator

The fields of an operator stand under the names of the entries of its object, each with the ways
to read the value there.  A form looks at nothing but the entries under its own names, so what it
reads is said by these entries.

**Results.**
* `get?_readings`: the field under a name is that of the value under the name.
* `of_build_eq_ok`: an operator that is read has a form that names all fields.
-/

namespace Allotment

universe u v

section Results

variable {α β γ : Type u}

theorem of_map_eq_ok
    {ε : Type v} {f : α → β} {r : Except ε α} {b : β} (h : r.map f = .ok b) :
    ∃ a, r = .ok a ∧ f a = b := by
  cases r with
  | error e => cases h
  | ok a =>
      cases h
      exact ⟨a, rfl, rfl⟩

/-- If both results are used, then both are values. -/
theorem of_both_eq_ok
    {f : α → β → γ} {r : Except Fault α} {q : Except Fault β} {c : γ}
    (h : (do return f (← r) (← q)) = .ok c) :
    ∃ a b, r = .ok a ∧ q = .ok b ∧ f a b = c := by
  cases r with
  | error e => cases h
  | ok a =>
      cases q with
      | error e => cases h
      | ok b =>
          cases h
          exact ⟨a, b, rfl, rfl, rfl⟩

end Results

namespace Expr

/-- A value with the ways to read it as a field. -/
def fieldOf (v : Json) : Field := ⟨v, fun _ => ofJson v, itemsOf v, branchesOf v⟩

theorem readings_eq_map (fields : List (String × Json)) :
    readings fields = fields.map fun x => (x.1, fieldOf x.2) := by
  induction fields with
  | nil => rfl
  | cons x rest ih =>
      obtain ⟨k, v⟩ := x
      simp only [readings, List.map_cons, ih, fieldOf]

theorem get?_readings (fields : List (String × Json)) (key : String) :
    Dict.get? (readings fields) key = (Dict.get? fields key).map fieldOf := by
  rw [readings_eq_map, Dict.get?_map]

/-- No field is unknown if the names cover all entries but the operator's name. -/
theorem find?_unknown_eq_none_iff
    {fields : List (String × Json)} {names : List String} :
    (readings fields).find? (fun x => x.1 != "op" && !names.contains x.1) = none ↔
      ∀ x ∈ fields, x.1 = "op" ∨ x.1 ∈ names := by
  rw [readings_eq_map, List.find?_map, Option.map_eq_none_iff, List.find?_eq_none]
  simp [Decidable.or_iff_not_imp_left]

/-- No part of a branch is unknown if there are no parts but the two. -/
theorem find?_unknownPart_eq_none_iff
    {fields : List (String × Json)} :
    (fields.find? fun x => x.1 != "if" && x.1 != "then") = none ↔
      ∀ x ∈ fields, x.1 = "if" ∨ x.1 = "then" := by
  rw [List.find?_eq_none]
  simp [Decidable.or_iff_not_imp_left]

theorem ofJson_array (items : List Json) :
    ofJson (.array items) = (ofItems items).map .list := by
  rw [ofJson]
  cases ofItems items <;> rfl

section Objects

variable {fields : List (String × Json)}

theorem ofJson_plain
    (hop : Dict.get? fields "op" = none) :
    ofJson (.object fields) = .ok (.value (.object fields)) := by
  rw [ofJson, hop]

theorem ofJson_map
    (hop : Dict.get? fields "op" = some (.string "map")) :
    ofJson (.object fields) = (ofEntries fields).map .map := by
  rw [ofJson, hop]
  cases ofEntries fields <;> rfl

theorem ofJson_operator
    {name : String} (hop : Dict.get? fields "op" = some (.string name)) (hname : name ≠ "map") :
    ofJson (.object fields) = Form.build name (readings fields) := by
  rw [ofJson, hop]
  exact if_neg hname

theorem ofJson_nameNotString
    {found : Json} (hop : Dict.get? fields "op" = some found)
    (hfound : ∀ name, found ≠ .string name) :
    ofJson (.object fields) = .error (.invalidOperator (.nameNotString found)) := by
  rw [ofJson, hop]
  cases found with
  | string name => exact absurd rfl (hfound name)
  | _ => rfl

/-- The ways in which an object is read: as it is, as a map, as an operator, or not at all. -/
theorem op_cases (fields : List (String × Json)) :
    Dict.get? fields "op" = none ∨
    Dict.get? fields "op" = some (.string "map") ∨
    (∃ name, Dict.get? fields "op" = some (.string name) ∧ name ≠ "map") ∨
    ∃ found, Dict.get? fields "op" = some found ∧ ∀ name, found ≠ .string name := by
  cases Dict.get? fields "op" with
  | none => exact .inl rfl
  | some found =>
      refine .inr ?_
      cases found with
      | string name =>
          by_cases hname : name = "map"
          · exact .inl (by rw [hname])
          · exact .inr (.inl ⟨name, rfl, hname⟩)
      | _ => exact .inr (.inr ⟨_, rfl, fun _ heq => nomatch heq⟩)

end Objects

theorem ofItems_cons (v : Json) (rest : List Json) :
    ofItems (v :: rest) = do return (← ofJson v) :: (← ofItems rest) := by
  rw [ofItems]
  cases ofJson v with
  | error e => rfl
  | ok x => cases ofItems rest <;> rfl

theorem ofEntries_cons
    (rest : List (String × Json)) {k : String} (v : Json) (hk : k ≠ "op") :
    ofEntries ((k, v) :: rest) = do return (k, ← ofJson v) :: (← ofEntries rest) := by
  rw [ofEntries, if_neg hk]
  cases ofJson v with
  | error e => rfl
  | ok x => cases ofEntries rest <;> rfl

theorem ofBranches_cons (v : Json) (rest : List Json) :
    ofBranches (v :: rest) = do return (← ofBranch v) :: (← ofBranches rest) := by
  rw [ofBranches]
  cases ofBranch v with
  | error e => rfl
  | ok b => cases ofBranches rest <;> rfl

theorem ofBranch_of_known
    {fields : List (String × Json)}
    (h : (fields.find? fun x => x.1 != "if" && x.1 != "then") = none) :
    ofBranch (.object fields) = do
      return (← branchPart "if" (readings fields), ← branchPart "then" (readings fields)) := by
  rw [ofBranch, h]
  cases branchPart "if" (readings fields) with
  | error e => rfl
  | ok c => cases branchPart "then" (readings fields) <;> rfl

/-- Only a list is read as expressions. -/
theorem of_itemsOf_eq_some
    {v : Json} {read : Unit → Except Fault (List Expr)} (h : itemsOf v = some read) :
    ∃ items, v = .array items ∧ read () = ofItems items := by
  cases v with
  | array items =>
      cases h
      exact ⟨items, rfl, rfl⟩
  | _ => cases h

/-- Only a list is read as branches. -/
theorem of_branchesOf_eq_some
    {v : Json} {read : Unit → Except Fault (List (Expr × Expr))} (h : branchesOf v = some read) :
    ∃ items, v = .array items ∧ read () = ofBranches items := by
  cases v with
  | array items =>
      cases h
      exact ⟨items, rfl, rfl⟩
  | _ => cases h

theorem of_branchPart_eq_ok
    {part : String} {fields : List (String × Json)} {e : Expr}
    (h : branchPart part (readings fields) = .ok e) :
    ∃ v, Dict.get? fields part = some v ∧ ofJson v = .ok e := by
  unfold branchPart at h
  rw [get?_readings] at h
  cases hv : Dict.get? fields part with
  | none =>
      rw [hv] at h
      cases h
  | some v =>
      rw [hv] at h
      exact ⟨v, rfl, h⟩

/-- Both parts of a branch are read from entries of an object that has no others. -/
theorem of_ofBranch_eq_ok
    {v : Json} {c e : Expr} (h : ofBranch v = .ok (c, e)) :
    ∃ fields vc ve, v = .object fields ∧ (∀ x ∈ fields, x.1 = "if" ∨ x.1 = "then") ∧
      Dict.get? fields "if" = some vc ∧ ofJson vc = .ok c ∧
      Dict.get? fields "then" = some ve ∧ ofJson ve = .ok e := by
  cases v with
  | object fields =>
      cases hfind : fields.find? fun x => x.1 != "if" && x.1 != "then" with
      | some x =>
          rw [ofBranch, hfind] at h
          cases h
      | none =>
          rw [ofBranch_of_known hfind] at h
          obtain ⟨c', e', hc, he, heq⟩ := of_both_eq_ok h
          cases heq
          obtain ⟨vc, hif, hc⟩ := of_branchPart_eq_ok hc
          obtain ⟨ve, hthen, he⟩ := of_branchPart_eq_ok he
          have hknown := find?_unknownPart_eq_none_iff.1 hfind
          exact ⟨fields, vc, ve, rfl, hknown, hif, hc, hthen, he⟩
  | _ => cases h

end Expr

namespace Form

open Allotment.Expr (readings fieldOf)

variable {α : Type u} {β : Type v} {fields : List (String × Json)} {key : String}

theorem seq_read
    {α β : Type u} (f : Form (α → β)) (x : Form α) (op : String) (fields : List (String × Field)) :
    (f.seq x).read op fields = do return (← f.read op fields) (← x.read op fields) := by
  simp only [Form.seq]
  cases f.read op fields with
  | error e => rfl
  | ok g => cases x.read op fields <;> rfl

theorem required_read
    (f : String → Field → Except Fault α) (op : String) {v : Json}
    (h : Dict.get? fields key = some v) :
    (required key f).read op (readings fields) = f op (fieldOf v) := by
  simp only [required, Expr.get?_readings, h, Option.map_some]

theorem required_read_none
    (f : String → Field → Except Fault α) (op : String) (h : Dict.get? fields key = none) :
    (required key f).read op (readings fields) =
      .error (.invalidOperator (.missingField op key)) := by
  simp only [required, Expr.get?_readings, h, Option.map_none]

theorem optional_read
    (f : String → Field → Except Fault α) (op : String) {v : Json}
    (h : Dict.get? fields key = some v) :
    (optional key f).read op (readings fields) = (f op (fieldOf v)).map some := by
  simp only [optional, Expr.get?_readings, h, Option.map_some]

theorem optional_read_none
    (f : String → Field → Except Fault α) (op : String) (h : Dict.get? fields key = none) :
    (optional key f).read op (readings fields) = .ok none := by
  simp only [optional, Expr.get?_readings, h, Option.map_none]

/-- An operator that is read has a form, which reads its fields and names all of them. -/
theorem of_build_eq_ok
    {name : String} {e : Expr} (h : build name (readings fields) = .ok e) :
    ∃ form, ofName? name = some form ∧ form.read name (readings fields) = .ok e ∧
      ∀ x ∈ fields, x.1 = "op" ∨ x.1 ∈ form.keys := by
  unfold build at h
  split at h
  · cases h
  · rename_i form hform
    split at h
    · cases h
    · rename_i e' hread
      split at h
      · cases h
      · rename_i hfind
        cases h
        exact ⟨form, hform, hread, Expr.find?_unknown_eq_none_iff.1 hfind⟩

end Form

end Allotment
