import Allotment.Json.Basic
import Allotment.Proofs.Dict

/-!
# Parts of a JSON value

The items of a list and the entries of an object are smaller than the value, so what holds of a
value whenever it holds of its parts holds of every value.

In a canonical value the names of every object ascend.  What stands inside a canonical value is
canonical.

**Results.**
* `induction_on_size`: induction over the parts of a value.
* `Inside.canonical`: what stands inside a canonical value is canonical.
-/

namespace Allotment

namespace Json

theorem sizeOf_item_lt
    {items : List Json} {v : Json} (h : v ∈ items) :
    sizeOf v < sizeOf (Json.array items) := by
  have := List.sizeOf_lt_of_mem h
  simp only [Json.array.sizeOf_spec]
  omega

theorem sizeOf_entry_lt
    {fields : List (String × Json)} {x : String × Json} (h : x ∈ fields) :
    sizeOf x.2 < sizeOf (Json.object fields) := by
  obtain ⟨k, v⟩ := x
  have := List.sizeOf_lt_of_mem h
  simp only [Json.object.sizeOf_spec, Prod.mk.sizeOf_spec] at this ⊢
  omega

/-- All values that are smaller have the property. -/
def Below (P : Json → Prop) (v : Json) : Prop := ∀ w, sizeOf w < sizeOf v → P w

namespace Below

variable {P : Json → Prop}

theorem mono
    {v w : Json} (h : Below P v) (hlt : sizeOf w < sizeOf v) :
    Below P w :=
  fun u hu => h u (Nat.lt_trans hu hlt)

theorem item
    {items : List Json} {v : Json} (h : Below P (.array items)) (hv : v ∈ items) :
    P v :=
  h v (sizeOf_item_lt hv)

theorem entry
    {fields : List (String × Json)} {key : String} {v : Json} (h : Below P (.object fields))
    (hv : Dict.get? fields key = some v) :
    P v :=
  h v (sizeOf_entry_lt (Dict.mem_of_get? hv))

theorem of_entry
    {fields : List (String × Json)} {key : String} {v : Json} (h : Below P (.object fields))
    (hv : Dict.get? fields key = some v) :
    Below P v :=
  h.mono (sizeOf_entry_lt (Dict.mem_of_get? hv))

theorem of_item
    {items : List Json} {v : Json} (h : Below P (.array items)) (hv : v ∈ items) :
    Below P v :=
  h.mono (sizeOf_item_lt hv)

end Below

/-- What holds of a value whenever it holds of all smaller ones holds of every value. -/
theorem induction_on_size
    {P : Json → Prop} (h : ∀ v, Below P v → P v) (v : Json) :
    P v :=
  h v fun w _ => induction_on_size h w
termination_by sizeOf v

theorem canonicalItems_iff
    {items : List Json} :
    CanonicalItems items ↔ ∀ v ∈ items, v.Canonical := by
  induction items with
  | nil => simp [CanonicalItems]
  | cons v rest ih => simp [CanonicalItems, ih]

theorem canonicalFields_iff
    {fields : List (String × Json)} :
    CanonicalFields fields ↔ ∀ x ∈ fields, x.2.Canonical := by
  induction fields with
  | nil => simp [CanonicalFields]
  | cons x rest ih =>
      obtain ⟨k, v⟩ := x
      simp [CanonicalFields, ih]

theorem canonical_array_iff
    {items : List Json} :
    (Json.array items).Canonical ↔ ∀ v ∈ items, v.Canonical := by
  rw [Canonical, canonicalItems_iff]

theorem canonical_object_iff
    {fields : List (String × Json)} :
    (Json.object fields).Canonical ↔ Dict.Ascending fields ∧ ∀ x ∈ fields, x.2.Canonical := by
  rw [Canonical, canonicalFields_iff]

theorem canonical_of_entry
    {fields : List (String × Json)} {key : String} {v : Json}
    (h : (Json.object fields).Canonical) (hv : Dict.get? fields key = some v) :
    v.Canonical :=
  (canonical_object_iff.1 h).2 _ (Dict.mem_of_get? hv)

theorem canonical_ofFields
    {entries : List (String × Json)} (h : ∀ x ∈ entries, x.2.Canonical) :
    (ofFields entries).Canonical := by
  refine canonical_object_iff.2 ⟨Dict.ascending_ofList entries, fun x hx => ?_⟩
  exact h x (Dict.mem_of_mem_ofList hx)

/-- The value stands somewhere in another one. -/
inductive Inside : Json → Json → Prop
  | item {items : List Json} {v : Json} (h : v ∈ items) : Inside v (.array items)
  | entry {fields : List (String × Json)} {x : String × Json} (h : x ∈ fields) :
      Inside x.2 (.object fields)
  | trans {u v w : Json} (h : Inside u v) (h' : Inside v w) : Inside u w

theorem Inside.of_get?
    {fields : List (String × Json)} {key : String} {v : Json}
    (h : Dict.get? fields key = some v) :
    Inside v (.object fields) :=
  .entry (Dict.mem_of_get? h)

/-- A value with something inside is an array or an object. -/
theorem Inside.cases_outer
    {w v : Json} (h : Inside w v) :
    (∃ items, v = .array items) ∨ ∃ fields, v = .object fields := by
  induction h with
  | item h => exact .inl ⟨_, rfl⟩
  | entry h => exact .inr ⟨_, rfl⟩
  | trans _ _ _ ih => exact ih

theorem inside_array_iff
    {items : List Json} {w : Json} :
    Inside w (.array items) ↔ ∃ v ∈ items, w = v ∨ Inside w v := by
  constructor
  · intro h
    generalize hv : Json.array items = v at h
    induction h with
    | item h =>
        cases hv
        exact ⟨_, h, .inl rfl⟩
    | entry h => cases hv
    | trans h _ _ ih =>
        obtain ⟨v, hmem, rfl | hw⟩ := ih hv
        · exact ⟨_, hmem, .inr h⟩
        · exact ⟨v, hmem, .inr (h.trans hw)⟩
  · rintro ⟨v, hmem, rfl | hw⟩
    · exact .item hmem
    · exact hw.trans (.item hmem)

theorem inside_object_iff
    {fields : List (String × Json)} {w : Json} :
    Inside w (.object fields) ↔ ∃ x ∈ fields, w = x.2 ∨ Inside w x.2 := by
  constructor
  · intro h
    generalize hv : Json.object fields = v at h
    induction h with
    | item h => cases hv
    | entry h =>
        cases hv
        exact ⟨_, h, .inl rfl⟩
    | trans h _ _ ih =>
        obtain ⟨x, hmem, rfl | hw⟩ := ih hv
        · exact ⟨x, hmem, .inr h⟩
        · exact ⟨x, hmem, .inr (h.trans hw)⟩
  · rintro ⟨x, hmem, rfl | hw⟩
    · exact .entry hmem
    · exact hw.trans (.entry hmem)

/-- What stands in a canonical value is canonical. -/
theorem Inside.canonical
    {w v : Json} (h : Inside w v) (hv : v.Canonical) :
    w.Canonical := by
  induction h with
  | item h => exact canonical_array_iff.1 hv _ h
  | entry h => exact (canonical_object_iff.1 hv).2 _ h
  | trans _ _ ih ih' => exact ih (ih' hv)

end Json

end Allotment
