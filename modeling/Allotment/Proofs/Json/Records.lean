import Allotment.Json.Decoder
import Allotment.Proofs.Json.Denotation
import Allotment.Proofs.Json.Rereading

/-!
# Records read as they were written

A record is written as an object with an entry for each field.  A field is looked up by its name,
so its decoder is given the document of what was written there.  A decoder that is the inverse of
what is written fails for one reason only: more arrays and objects stand inside one another than
the reader allows.

**Results.**
* `Fields.decoder_ofFields`: the fields of an object are those that were written.
* `Fields.Reads.decoder`: a record is read if each of its fields is.
* `Record.parse_text`: what is read from the tree of a record is read from its text.
-/

namespace Allotment

namespace Json

variable {α β : Type}

theorem Document.ofFields_eq_map (fields : List (String × Json)) :
    Document.ofFields fields = fields.map fun x => (some x.1, Document.ofJson x.2) := by
  induction fields with
  | nil => rfl
  | cons x rest ih =>
      obtain ⟨k, v⟩ := x
      rw [Document.ofFields, ih, List.map_cons]

theorem Document.ofItems_eq_map (items : List Json) :
    Document.ofItems items = items.map Document.ofJson := by
  induction items with
  | nil => rfl
  | cons v rest ih => rw [Document.ofItems, ih, List.map_cons]

namespace Fields

theorem find?_eq_get? (members : List (String × Document)) (name : String) :
    find? members name = Dict.get? members name := by
  induction members with
  | nil => rfl
  | cons m rest ih =>
      obtain ⟨k, d⟩ := m
      by_cases hk : k = name
      · simp [find?, Dict.get?, hk]
      · simpa [find?, Dict.get?, hk] using ih

theorem known?_ofFields
    (names : List String) {fields : Dict Json} (hfields : Dict.Ascending fields) :
    known? names (Document.ofFields fields) =
      some ((fields.map fun x => (x.1, Document.ofJson x.2)).filter fun m => m.1 ∈ names) := by
  have hnamed : ∀ l : List (String × Json),
      (Document.ofFields l).mapM (fun m => m.1.map fun k => (k, m.2)) =
        some (l.map fun x => (x.1, Document.ofJson x.2)) := by
    intro l
    rw [Document.ofFields_eq_map]
    induction l with
    | nil => rfl
    | cons x l ih =>
        rw [List.map_cons, List.mapM_cons, ih]
        rfl
  have hnodup : (((fields.map fun x => (x.1, Document.ofJson x.2)).filter
      fun m => m.1 ∈ names).map (·.1)).Nodup := by
    refine List.Nodup.sublist (List.filter_sublist.map _) ?_
    rw [List.map_map]
    exact Dict.nodup_keys hfields
  unfold known?
  rw [hnamed]
  exact if_pos hnodup

/-- The fields of a record are found under their names. -/
theorem decoder_ofFields
    (f : Fields α) (lenient : Bool) (depth : Nat) {entries : List (String × Json)}
    (h : (Dict.keys entries).Nodup) :
    f.decoder lenient (depth + 1) (Document.ofJson (Json.ofFields entries)) =
      f.read depth fun k =>
        if k ∈ f.names then (Dict.get? entries k).map Document.ofJson else none := by
  have hasc := Dict.ascending_ofList entries
  have hfind : ∀ k, find? (((Dict.ofList entries).map fun x =>
      (x.1, Document.ofJson x.2)).filter fun m => m.1 ∈ f.names) k =
        if k ∈ f.names then (Dict.get? entries k).map Document.ofJson else none := by
    intro k
    rw [find?_eq_get?, Dict.get?_filter _ fun k => decide (k ∈ f.names), Dict.get?_map,
      Dict.get?_ofList h]
    simp only [decide_eq_true_eq]
  rw [Json.ofFields, Document.ofJson]
  show (known? f.names (Document.ofFields (Dict.ofList entries))).bind
    (fun known => f.read depth (find? known)) = _
  rw [known?_ofFields f.names hasc, Option.bind_some, funext hfind]

end Fields

theorem depthFields_append (fields more : List (String × Json)) :
    depthFields (fields ++ more) = max (depthFields fields) (depthFields more) := by
  induction fields with
  | nil => simp [depthFields]
  | cons x rest ih =>
      obtain ⟨k, v⟩ := x
      simp [depthFields, ih, Nat.max_assoc]

/-- The order of the entries plays no part in the depth of an object. -/
theorem depth_ofFields
    {entries : List (String × Json)} (h : (Dict.keys entries).Nodup) :
    (Json.ofFields entries).depth = depthFields entries + 1 := by
  have hmem : ∀ x ∈ entries, x ∈ Dict.ofList entries := fun x hx =>
    Dict.mem_of_get? ((Dict.get?_ofList h x.1).trans (Dict.get?_of_mem_of_nodup h hx))
  have hle : ∀ n, depthFields (Dict.ofList entries) ≤ n ↔ depthFields entries ≤ n := by
    intro n
    rw [depthFields_le_iff, depthFields_le_iff]
    constructor
    · exact fun hall x hx => hall x (hmem x hx)
    · exact fun hall x hx => hall x (Dict.mem_of_mem_ofList hx)
  have heq : depthFields (Dict.ofList entries) = depthFields entries :=
    Nat.le_antisymm ((hle _).2 (Nat.le_refl _)) ((hle _).1 (Nat.le_refl _))
  rw [Json.ofFields, Json.depth, heq]

theorem legible_ofFields
    {entries : List (String × Json)} (h : ∀ x ∈ entries, x.2.Legible) :
    (Json.ofFields entries).Legible :=
  .of_entries fun x hx => h x (Dict.mem_of_mem_ofList hx)

/-- The decoder reads `a` from what is written as `v`, unless this is nested too deep. -/
def Decoder.Reads (d : Decoder α) (v : Json) (a : α) : Prop :=
  ∀ depth, d depth (Document.ofJson v) = if v.depth ≤ depth then some a else none

namespace Decoder.Reads

theorem of_flat
    {d : Decoder α} {v : Json} {a : α} (hv : v.depth = 0)
    (h : ∀ depth, d depth (Document.ofJson v) = some a) :
    d.Reads v a := by
  intro depth
  rw [h, hv, if_pos (Nat.zero_le _)]

theorem any {v : Json} (hv : v.Canonical) : Decoder.any.Reads v v :=
  fun depth => Document.value?_ofJson v depth hv

theorem text (s : String) : Decoder.text.Reads (.string s) s :=
  of_flat rfl fun _ => rfl

theorem bool (b : Bool) : Decoder.bool.Reads (.bool b) b :=
  of_flat rfl fun _ => rfl

theorem word (w : UInt64) : Decoder.word.Reads (.ofWord w) w := by
  refine of_flat rfl fun depth => ?_
  show (if 0 ≤ (w.toNat : Int) then some (UInt64.ofNat (w.toNat : Int).toNat) else none) = some w
  rw [if_pos (Int.natCast_nonneg _), Int.toNat_natCast, UInt64.ofNat_toNat]

theorem float {x : Float} (hx : Binary64.IsFinite x) : Decoder.float.Reads (.ofFloat x) x := by
  have hwritten : Json.ofFloat x = .number (.real ⟨x, hx⟩) := by
    rw [Json.ofFloat, Number.ofFloat?, Real.ofFloat?, dif_pos hx]
    rfl
  rw [hwritten]
  exact of_flat rfl fun _ => rfl

theorem null (d : Decoder α) : d.nullable.Reads .null none :=
  of_flat rfl fun _ => rfl

variable {d : Decoder α} {v : Json} {a : α}

theorem some (h : d.Reads v a) (hv : v ≠ .null) : d.nullable.Reads v (some a) := by
  intro depth
  have hsome : d.nullable depth (Document.ofJson v) = (d depth (Document.ofJson v)).map .some := by
    cases v with
    | null => exact absurd rfl hv
    | _ => rfl
  rw [hsome, h depth]
  split
  · rfl
  · rfl

/-- A string or null. -/
theorem text? : ∀ s : Option String, Decoder.text.nullable.Reads (.ofString? s) s
  | .none => null _
  | .some s => (text s).some (by simp)

theorem filterMap
    {f : α → Option β} {b : β} (h : d.Reads v a) (hf : f a = .some b) :
    (d.filterMap f).Reads v b := by
  intro depth
  rw [Decoder.filterMap, h depth]
  split
  · exact hf
  · rfl

theorem list
    {toJson : α → Json} (h : ∀ a, d.Reads (toJson a) a) (l : List α) :
    d.list.Reads (.array (l.map toJson)) l := by
  intro depth
  cases depth with
  | zero => rfl
  | succ depth =>
      rw [Document.ofJson, Document.ofItems_eq_map, Json.depth]
      show ((l.map toJson).map Document.ofJson).mapM (d depth) = _
      induction l with
      | nil => rfl
      | cons a l ih =>
          rw [List.map_cons, List.map_cons, List.mapM_cons, h a depth, ih, depthItems]
          simp only [Nat.add_le_add_iff_right, Nat.max_le]
          by_cases ha : (toJson a).depth ≤ depth <;>
            by_cases hl : depthItems (l.map toJson) ≤ depth <;> simp [ha, hl]

end Decoder.Reads

/-- The fields read `a` from what is written as these entries, unless an entry is nested too
deep. -/
structure Fields.Reads (f : Fields α) (entries : List (String × Json)) (a : α) : Prop where
  names : f.names = Dict.keys entries
  read : ∀ depth at?, (∀ x ∈ entries, at? x.1 = some (Document.ofJson x.2)) →
    f.read depth at? = if depthFields entries ≤ depth then some a else none

namespace Fields.Reads

theorem pure (a : α) : (Fields.pure a).Reads [] a where
  names := rfl
  read _ _ _ := rfl

section Entry

variable {entries : List (String × Json)} {d : Decoder α} {v : Json} {a : α}

theorem withDefault
    {f : Fields (α → β)} {g : α → β} (hf : f.Reads entries g) (name : String) (hd : d.Reads v a)
    (default : α) :
    (f.withDefault name d default).Reads (entries ++ [(name, v)]) (g a) where
  names := by simp [Fields.withDefault, hf.names, Dict.keys]
  read depth at? h := by
    obtain ⟨hentries, hv⟩ := List.forall_mem_append.1 h
    have hat : at? name = some (Document.ofJson v) := hv _ (List.mem_singleton_self _)
    rw [Fields.withDefault]
    simp only [hf.read depth at? hentries, hat, hd depth, depthFields_append, depthFields,
      Nat.max_le]
    by_cases he : depthFields entries ≤ depth <;> by_cases hw : v.depth ≤ depth <;> simp [he, hw]

theorem required
    {f : Fields (α → β)} {g : α → β} (hf : f.Reads entries g) (name : String) (hd : d.Reads v a) :
    (f.required name d).Reads (entries ++ [(name, v)]) (g a) where
  names := (hf.withDefault name hd a).names
  read depth at? h := by
    have hat : at? name = some (Document.ofJson v) :=
      h _ (List.mem_append_right _ (List.mem_singleton_self (name, v)))
    have hdefault := (hf.withDefault name hd a).read depth at? h
    rw [Fields.withDefault] at hdefault
    simp only [hat] at hdefault
    rw [← hdefault, Fields.required]
    simp only [hat]
    rfl

theorem optional
    {f : Fields (Option α → β)} {g : Option α → β} {o : Option α} (hf : f.Reads entries g)
    (name : String) (hd : d.nullable.Reads v o) :
    (f.optional name d).Reads (entries ++ [(name, v)]) (g o) :=
  hf.withDefault name hd none

end Entry

section Object

variable {f : Fields α} {entries part : List (String × Json)} {a : α}

/-- Entries that the fields do not know are passed over. -/
theorem decoder_of_subset
    (h : f.Reads part a) (hnodup : (Dict.keys entries).Nodup) (hsub : part ⊆ entries)
    (lenient : Bool) (depth : Nat) :
    f.decoder lenient (depth + 1) (Document.ofJson (Json.ofFields entries)) =
      if depthFields part ≤ depth then some a else none := by
  rw [decoder_ofFields f lenient depth hnodup]
  refine h.read depth _ fun x hx => ?_
  have hname : x.1 ∈ f.names := by
    rw [h.names]
    exact List.mem_map_of_mem hx
  rw [if_pos hname, Dict.get?_of_mem_of_nodup hnodup (hsub hx)]
  rfl

/-- A record is read from an object with its fields. -/
theorem decoder (h : f.Reads entries a) (hnodup : f.names.Nodup) (lenient : Bool) :
    (f.decoder lenient).Reads (Json.ofFields entries) a := by
  intro depth
  rw [h.names] at hnodup
  rw [depth_ofFields hnodup]
  cases depth with
  | zero => rfl
  | succ depth =>
      rw [h.decoder_of_subset hnodup (List.Subset.refl _)]
      simp only [Nat.add_le_add_iff_right]

end Object

end Fields.Reads

end Json

namespace Record

open Json (Document maxDepth)

variable {α : Type} [Record α] {a : α}

/-- The record is read from what is written of it, by every reader that allows as many arrays and
objects inside one another as there are. -/
def Restored (a : α) : Prop := (decoder : Json.Decoder α).Reads (toJson a) a

/-- A record that is read from its tree is read from its text, up to the depth that texts may
have. -/
theorem parse_text
    (h : Restored a) (hlegible : (toJson a).Legible) :
    parse (text a) = if (toJson a).depth ≤ maxDepth then .ok a else .error .json := by
  have hread : Document.read? (text a).toList = some (Document.ofJson (toJson a)) := by
    rw [text, Json.compact, String.toList_ofList]
    exact Json.read?_write hlegible
  have hparse : (parse? (text a) : Option α) =
      if (toJson a).depth ≤ maxDepth then some a else none := by
    unfold parse?
    rw [hread]
    exact h maxDepth
  by_cases hdepth : (toJson a).depth ≤ maxDepth
  · simp only [parse, hparse, if_pos hdepth]
  · simp only [parse, hparse, if_neg hdepth]

end Record

theorem Time.restored_iff {t : Time} : Record.Restored t ↔ Time.read? t.write = some t := by
  have hdecoder : (Record.decoder : Json.Decoder Time) =
      Json.Decoder.text.filterMap fun s => read? s.toList := rfl
  have htoJson : Record.toJson t = .string t.text := rfl
  have hread : ∀ depth, (Record.decoder : Json.Decoder Time) depth
      (Json.Document.ofJson (Record.toJson t)) = read? t.write := by
    intro depth
    rw [hdecoder, htoJson, Json.Document.ofJson, Json.Decoder.filterMap, Json.Decoder.text,
      Option.bind_some, text, String.toList_ofList]
  constructor
  · intro h
    rw [← hread 0, h 0]
    exact if_pos (Nat.zero_le _)
  · exact fun h => .of_flat rfl fun depth => (hread depth).trans h

end Allotment
