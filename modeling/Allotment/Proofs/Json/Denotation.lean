import Allotment.Json.Reader
import Allotment.Proofs.Json.Parts

/-!
# Values of documents

A document denotes a value only if no more arrays and objects stand inside one another than the
reader allows.  The value is canonical then.

**Results.**
* `Document.value?_ofJson`: the document of a canonical value denotes the value, if this is not
  nested too deep.
* `fits_of_parse?`: what a text denotes is canonical and not nested too deep.
-/

namespace Allotment

namespace Json

mutual

/-- How many arrays and objects stand inside one another. -/
def depth : Json → Nat
  | .array items => depthItems items + 1
  | .object fields => depthFields fields + 1
  | _ => 0

/-- The depth of the deepest item. -/
def depthItems : List Json → Nat
  | [] => 0
  | v :: rest => max (depth v) (depthItems rest)

/-- The depth of the deepest entry. -/
def depthFields : List (String × Json) → Nat
  | [] => 0
  | (_, v) :: rest => max (depth v) (depthFields rest)

end

theorem depthItems_le_iff
    {items : List Json} {n : Nat} :
    depthItems items ≤ n ↔ ∀ v ∈ items, v.depth ≤ n := by
  induction items with
  | nil => simp [depthItems]
  | cons v rest ih => rw [depthItems, Nat.max_le, ih, List.forall_mem_cons]

theorem depthFields_le_iff
    {fields : List (String × Json)} {n : Nat} :
    depthFields fields ≤ n ↔ ∀ x ∈ fields, x.2.depth ≤ n := by
  induction fields with
  | nil => simp [depthFields]
  | cons x rest ih =>
      obtain ⟨k, v⟩ := x
      rw [depthFields, Nat.max_le, ih, List.forall_mem_cons]

theorem depthItems_append (items more : List Json) :
    depthItems (items ++ more) = max (depthItems items) (depthItems more) := by
  induction items with
  | nil => simp [depthItems]
  | cons v rest ih => simp [depthItems, ih, Nat.max_assoc]

namespace Document

mutual

/-- The document of a canonical value denotes the value, if it is not nested too deep. -/
theorem value?_ofJson :
    ∀ (v : Json) (depth : Nat), v.Canonical →
      value? depth (ofJson v) = if v.depth ≤ depth then some v else none
  | .null, depth, _ => by simp [ofJson, value?, Json.depth]
  | .bool b, depth, _ => by simp [ofJson, value?, Json.depth]
  | .number n, depth, _ => by simp [ofJson, value?, Json.depth]
  | .string s, depth, _ => by simp [ofJson, value?, Json.depth]
  | .array items, 0, _ => by simp [ofJson, value?, Json.depth]
  | .object fields, 0, _ => by simp [ofJson, value?, Json.depth]
  | .array items, depth + 1, hcan => by
      rw [ofJson, value?, values?_ofItems items depth (canonical_array_iff.1 hcan), Json.depth]
      by_cases h : depthItems items ≤ depth
      · simp [h]
      · simp [h]
  | .object fields, depth + 1, hcan => by
      obtain ⟨hasc, hfields⟩ := canonical_object_iff.1 hcan
      rw [ofJson, value?, entries?_ofFields fields depth hfields, Json.depth]
      by_cases h : depthFields fields ≤ depth
      · simp [h, Json.ofFields, Dict.ofList_eq hasc fun _ => Iff.rfl]
      · simp [h]

theorem values?_ofItems :
    ∀ (items : List Json) (depth : Nat), (∀ v ∈ items, v.Canonical) →
      values? depth (ofItems items) = if depthItems items ≤ depth then some items else none
  | [], depth, _ => by simp [ofItems, values?, depthItems]
  | v :: rest, depth, hcan => by
      obtain ⟨hv, hrest⟩ := List.forall_mem_cons.1 hcan
      rw [ofItems, values?, value?_ofJson v depth hv, values?_ofItems rest depth hrest, depthItems]
      simp only [Nat.max_le]
      by_cases h : v.depth ≤ depth <;> by_cases h' : depthItems rest ≤ depth <;> simp [h, h']

theorem entries?_ofFields :
    ∀ (fields : List (String × Json)) (depth : Nat), (∀ x ∈ fields, x.2.Canonical) →
      entries? depth (ofFields fields) = if depthFields fields ≤ depth then some fields else none
  | [], depth, _ => by simp [ofFields, entries?, depthFields]
  | (k, v) :: rest, depth, hcan => by
      obtain ⟨hv, hrest⟩ := List.forall_mem_cons.1 hcan
      rw [ofFields, entries?, value?_ofJson v depth hv, entries?_ofFields rest depth hrest,
        depthFields]
      simp only [Nat.max_le]
      by_cases h : v.depth ≤ depth <;> by_cases h' : depthFields rest ≤ depth <;> simp [h, h']

end

/-- The value is canonical and has at most `depth` arrays and objects inside one another. -/
structure Fits (depth : Nat) (v : Json) : Prop where
  canonical : v.Canonical
  depth_le : v.depth ≤ depth

mutual

theorem fits_of_value? :
    ∀ (depth : Nat) (d : Document) {v : Json}, value? depth d = some v → Fits depth v
  | _, .null, v, h => by
      cases h
      exact ⟨trivial, Nat.zero_le _⟩
  | _, .bool b, v, h => by
      cases h
      exact ⟨trivial, Nat.zero_le _⟩
  | _, .number n, v, h => by
      obtain ⟨n, -, rfl⟩ := Option.map_eq_some_iff.1 h
      exact ⟨trivial, Nat.zero_le _⟩
  | _, .string s, v, h => by
      obtain ⟨s, -, rfl⟩ := Option.map_eq_some_iff.1 h
      exact ⟨trivial, Nat.zero_le _⟩
  | 0, .array _, v, h => by cases h
  | 0, .object _, v, h => by cases h
  | depth + 1, .array items, v, h => by
      obtain ⟨vs, hvs, rfl⟩ := Option.map_eq_some_iff.1 h
      have hfits := fits_of_values? depth items hvs
      constructor
      · exact canonical_array_iff.2 fun v hv => (hfits v hv).canonical
      · exact Nat.succ_le_succ (depthItems_le_iff.2 fun v hv => (hfits v hv).depth_le)
  | depth + 1, .object members, v, h => by
      obtain ⟨entries, hentries, rfl⟩ := Option.map_eq_some_iff.1 h
      have hfits := fits_of_entries? depth members hentries
      constructor
      · exact canonical_ofFields fun x hx => (hfits x hx).canonical
      · refine Nat.succ_le_succ (depthFields_le_iff.2 fun x hx => ?_)
        exact (hfits x (Dict.mem_of_mem_ofList hx)).depth_le

theorem fits_of_values? :
    ∀ (depth : Nat) (ds : List Document) {vs : List Json}, values? depth ds = some vs →
      ∀ v ∈ vs, Fits depth v
  | _, [], vs, h => by
      cases h
      simp
  | depth, d :: rest, vs, h => by
      obtain ⟨w, hw, h⟩ := Option.bind_eq_some_iff.1 h
      obtain ⟨ws, hws, h⟩ := Option.bind_eq_some_iff.1 h
      cases h
      exact List.forall_mem_cons.2 ⟨fits_of_value? depth d hw, fits_of_values? depth rest hws⟩

theorem fits_of_entries? :
    ∀ (depth : Nat) (members : List (Option String × Document)) {entries : List (String × Json)},
      entries? depth members = some entries → ∀ x ∈ entries, Fits depth x.2
  | _, [], entries, h => by
      cases h
      simp
  | depth, (k, d) :: rest, entries, h => by
      obtain ⟨k, -, h⟩ := Option.bind_eq_some_iff.1 h
      obtain ⟨w, hw, h⟩ := Option.bind_eq_some_iff.1 h
      obtain ⟨ws, hws, h⟩ := Option.bind_eq_some_iff.1 h
      cases h
      exact List.forall_mem_cons.2 ⟨fits_of_value? depth d hw, fits_of_entries? depth rest hws⟩

end

end Document

/-- What a text denotes is canonical and not nested too deep. -/
theorem fits_of_parse?
    {text : String} {v : Json} (h : parse? text = some v) :
    Document.Fits maxDepth v := by
  obtain ⟨d, -, hd⟩ := Option.bind_eq_some_iff.1 h
  exact d.fits_of_value? maxDepth hd

end Json

end Allotment
