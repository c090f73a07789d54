import Allotment.Proofs.Definition.Rereading
import Allotment.Proofs.Json.Records
import Allotment.Proofs.Json.Rereading
import Allotment.Record.Experiment

/-!
# Definitions read from their texts

The text of a definition that is read or appended to is read as the definition again, unless it
has more arrays and objects inside one another than the reader allows.  Reading keeps to that
limit, but appending does not: the value of a variable comes to stand inside the setting, the
list of settings and the sequence, three levels deeper than in its own text.

**Results.**
* `toJson_appendSet`: what is written of a definition that is appended to.
* `Composed.depth_le_iff`: which values may be appended.
* `composed_rereading`: which texts of definitions and of experiments are read.
-/

namespace Allotment

open Json (Document maxDepth)

namespace Definition

/-- The entries of a sequence. -/
def sequenceFields (items : List Json) : Dict Json :=
  [("op", .string "seq"), ("seq", .array items)]

/-- The entries of the setting of a variable. -/
def settingFields (x : String) (v : Json) : Dict Json :=
  [("op", .string "set"), ("value", v), ("var", .string x)]

theorem ascending_sequenceFields (items : List Json) : Dict.Ascending (sequenceFields items) :=
  Dict.ascending_iff_keys.2 (by decide : ["op", "seq"].Pairwise (· < ·))

theorem ascending_settingFields (x : String) (v : Json) : Dict.Ascending (settingFields x v) :=
  Dict.ascending_iff_keys.2 (by decide : ["op", "value", "var"].Pairwise (· < ·))

end Definition

open Definition (sequenceFields settingFields)

namespace Expr

theorem toJson_seq (body : List Expr) :
    toJson (.seq body) = .object (sequenceFields (toItems body)) :=
  congrArg Json.object (Dict.ofList_eq (Definition.ascending_sequenceFields _) fun _ => Iff.rfl)

theorem toJson_set (x : String) (e : Expr) :
    toJson (.set x e) = .object (settingFields x (toJson e)) := by
  refine congrArg Json.object
    (Dict.ofList_eq (Definition.ascending_settingFields x (toJson e)) fun y => ?_)
  simp only [settingFields, List.mem_cons, or_left_comm]

theorem toItems_append (es fs : List Expr) : toItems (es ++ fs) = toItems es ++ toItems fs := by
  induction es with
  | nil => rfl
  | cons e es ih => rw [List.cons_append, toItems, toItems, ih, List.cons_append]

end Expr

namespace Json

/-- The property is one of all parts of a value. -/
structure Partwise (P : Json → Prop) : Prop where
  string (s : String) : P (.string s)
  array_iff {items : List Json} : P (.array items) ↔ ∀ v ∈ items, P v
  object_iff {fields : Dict Json} (h : Dict.Ascending fields) :
    P (.object fields) ↔ ∀ x ∈ fields, P x.2

theorem partwise_canonical : Partwise Canonical where
  string _ := trivial
  array_iff := canonical_array_iff
  object_iff h := canonical_object_iff.trans (and_iff_right h)

theorem partwise_legible : Partwise Legible where
  string := .string
  array_iff := ⟨fun h _ hv => h.item hv, .of_items⟩
  object_iff _ := ⟨fun h _ hx => h.entry hx, .of_entries⟩

end Json

namespace Definition

variable {d d' : Definition} {x : String} {v : Json} {items : List Json}

section Appending

variable {P : Json → Prop} (hP : Json.Partwise P)
include hP

theorem partwise_sequence_iff :
    P (.object (sequenceFields items)) ↔ ∀ w ∈ items, P w := by
  rw [hP.object_iff (ascending_sequenceFields items), ← hP.array_iff]
  simp [sequenceFields, hP.string]

theorem partwise_setting_iff :
    P (.object (settingFields x v)) ↔ P v := by
  rw [hP.object_iff (ascending_settingFields x v)]
  simp [settingFields, hP.string]

end Appending

/-- A sequence that is appended to is written with one more setting. -/
theorem toJson_appendSet
    (hv : v.Canonical) (h : d.appendSet x v = .ok d') :
    ∃ items, d.toJson = .object (sequenceFields items) ∧
      d'.toJson = .object (sequenceFields (items ++ [.object (settingFields x v)])) := by
  obtain ⟨body, e, rfl, he, rfl⟩ := of_appendSet_eq_ok h
  refine ⟨Expr.toItems body, Expr.toJson_seq body, ?_⟩
  show Expr.toJson (.seq (body ++ [.set x e])) = _
  rw [Expr.toJson_seq, Expr.toItems_append, Expr.toItems, Expr.toItems, Expr.toJson_set,
    v.restores hv e he]

/-- What is written of a definition with a variable is made of what was written without it and of
the value. -/
theorem partwise_appendSet_iff
    {P : Json → Prop} (hP : Json.Partwise P) (hv : v.Canonical) (h : d.appendSet x v = .ok d') :
    P d'.toJson ↔ P d.toJson ∧ P v := by
  obtain ⟨items, hd, hd'⟩ := toJson_appendSet hv h
  rw [hd, hd', partwise_sequence_iff hP, partwise_sequence_iff hP, List.forall_mem_append,
    List.forall_mem_singleton, partwise_setting_iff hP]

theorem toJson_empty : empty.toJson = .object (sequenceFields []) := Expr.toJson_seq []

theorem depth_sequence (items : List Json) :
    (Json.object (sequenceFields items)).depth = Json.depthItems items + 2 := by
  simp [sequenceFields, Json.depth, Json.depthFields]

/-- A value that is appended comes to stand three levels deeper. -/
theorem depth_appendSet
    (hv : v.Canonical) (h : d.appendSet x v = .ok d') :
    d'.toJson.depth = max d.toJson.depth (v.depth + 3) := by
  obtain ⟨items, hd, hd'⟩ := toJson_appendSet hv h
  have hsetting : Json.depthItems [.object (settingFields x v)] = v.depth + 1 := by
    simp [settingFields, Json.depth, Json.depthFields, Json.depthItems]
  rw [hd, hd', depth_sequence, depth_sequence, Json.depthItems_append, hsetting]
  omega

/-- The definitions that are composed of texts, and the values that are appended to them.  What
is known of the floating-point numbers in the text of a definition is that the reader inverts the
writer. -/
inductive Composed : List Json → Definition → Prop
  | empty : Composed [] empty
  | parsed {text : String} {d : Definition} (h : parse text = .ok d)
      (hlegible : d.toJson.Legible) : Composed [] d
  | appended {values : List Json} {d d' : Definition} {x text : String} {v : Json}
      (hd : Composed values d) (hread : Json.parse? text = some v) (hfree : v.FloatFree)
      (h : d.appendSet x v = .ok d') : Composed (v :: values) d'

namespace Composed

variable {values : List Json}

theorem readable
    (h : Composed values d) :
    d.Readable := by
  induction h with
  | empty => exact .empty
  | parsed h => exact .of_parse h
  | appended _ hread _ h ih => exact ih.of_appendSet (Json.fits_of_parse? hread).canonical h

theorem canonical
    (h : Composed values d) :
    d.toJson.Canonical := by
  induction h with
  | empty =>
      rw [toJson_empty, partwise_sequence_iff Json.partwise_canonical]
      exact List.forall_mem_nil _
  | parsed h => exact (Json.fits_of_parse? (toJson_of_parse h)).canonical
  | appended _ hread _ h ih =>
      have hv := (Json.fits_of_parse? hread).canonical
      exact (partwise_appendSet_iff Json.partwise_canonical hv h).2 ⟨ih, hv⟩

theorem legible
    (h : Composed values d) :
    d.toJson.Legible := by
  induction h with
  | empty =>
      rw [toJson_empty, partwise_sequence_iff Json.partwise_legible]
      exact List.forall_mem_nil _
  | parsed h hlegible => exact hlegible
  | appended _ hread hfree h ih =>
      have hv := (Json.fits_of_parse? hread).canonical
      exact (partwise_appendSet_iff Json.partwise_legible hv h).2 ⟨ih, hfree.legible⟩

/-- A definition is not nested too deep if no value was that is appended to it. -/
theorem depth_le_iff
    (h : Composed values d) :
    d.toJson.depth ≤ maxDepth ↔ ∀ v ∈ values, v.depth + 3 ≤ maxDepth := by
  induction h with
  | empty =>
      rw [toJson_empty, depth_sequence]
      simp [Json.depthItems, maxDepth]
  | parsed h => simpa using (Json.fits_of_parse? (toJson_of_parse h)).depth_le
  | appended _ hread _ h ih =>
      have hv := (Json.fits_of_parse? hread).canonical
      rw [depth_appendSet hv h, Nat.max_le, ih, List.forall_mem_cons, and_comm]

theorem parse_text
    (h : Composed values d) :
    parse d.text = if d.toJson.depth ≤ maxDepth then .ok d else .error .json := by
  unfold parse text
  rw [Json.parse?_compact h.canonical h.legible]
  by_cases hdepth : d.toJson.depth ≤ maxDepth
  · rw [if_pos hdepth, if_pos hdepth]
    exact h.readable.ofJson_toJson
  · rw [if_neg hdepth, if_neg hdepth]

end Composed

end Definition

namespace Experiment

variable {e : Experiment}

/-- The entries that are written of an experiment. -/
def entries (e : Experiment) : List (String × Json) :=
  [("id", .ofWord e.id), ("name", .string e.name), ("definition", e.definition.toJson),
    ("goal_ids", .array (e.goalIds.map Json.ofWord)), ("created_at", Record.toJson e.createdAt),
    ("modified_at", Record.toJson e.modifiedAt)]

theorem nodup_keys_entries (e : Experiment) : (Dict.keys e.entries).Nodup :=
  (by decide :
    ["id", "name", "definition", "goal_ids", "created_at", "modified_at"].Nodup)

theorem legible_toJson
    (h : e.definition.toJson.Legible) :
    (Record.toJson e).Legible := by
  refine Json.legible_ofFields fun x (hx : x ∈ e.entries) => ?_
  simp only [entries, List.mem_cons, List.not_mem_nil, or_false] at hx
  rcases hx with rfl | rfl | rfl | rfl | rfl | rfl
  · exact .word e.id
  · exact .string e.name
  · exact h
  · refine .of_items fun v hv => ?_
    obtain ⟨w, -, rfl⟩ := List.mem_map.1 hv
    exact .word w
  · exact .string e.createdAt.text
  · exact .string e.modifiedAt.text

theorem definitionDecoder_reads
    {d : Definition} (hd : d.Readable) (hcan : d.toJson.Canonical) :
    definitionDecoder.Reads d.toJson d := by
  refine (Json.Decoder.Reads.any hcan).filterMap ?_
  rw [hd.ofJson_toJson]
  rfl

/-- An experiment is read from what is written of it, if its definition is. -/
theorem restored
    (hd : e.definition.Readable) (hcan : e.definition.toJson.Canonical)
    (hcreated : Record.Restored e.createdAt) (hmodified : Record.Restored e.modifiedAt) :
    Record.Restored e :=
  (Json.Fields.Reads.pure Experiment.mk
    |>.required "id" (.word e.id)
    |>.required "name" (.text e.name)
    |>.required "definition" (definitionDecoder_reads hd hcan)
    |>.required "goal_ids" (.list .word e.goalIds)
    |>.required "created_at" hcreated
    |>.required "modified_at" hmodified).decoder (by decide) false

/-- The definition of an experiment stands one level deeper in what is written of it. -/
theorem depth_toJson (e : Experiment) :
    (Record.toJson e).depth = max e.definition.toJson.depth 1 + 1 := by
  have hword : ∀ w, (Json.ofWord w).depth = 0 := fun _ => rfl
  have htime : ∀ t : Time, (Record.toJson t).depth = 0 := fun _ => rfl
  have hgoals : Json.depthItems (e.goalIds.map Json.ofWord) = 0 := by
    refine Nat.le_zero.1 (Json.depthItems_le_iff.2 fun v hv => ?_)
    obtain ⟨w, -, rfl⟩ := List.mem_map.1 hv
    exact Nat.le_refl _
  show (Json.ofFields e.entries).depth = _
  rw [Json.depth_ofFields e.nodup_keys_entries]
  simp [entries, Json.depthFields, Json.depth, hword, htime, hgoals]

theorem parse_text
    (hd : e.definition.Readable) (hcan : e.definition.toJson.Canonical)
    (hlegible : e.definition.toJson.Legible)
    (hcreated : Time.read? e.createdAt.write = some e.createdAt)
    (hmodified : Time.read? e.modifiedAt.write = some e.modifiedAt) :
    Record.parse (Record.text e) =
      if e.definition.toJson.depth < maxDepth then .ok e else .error .json := by
  have hrestored : Record.Restored e :=
    restored hd hcan (Time.restored_iff.2 hcreated) (Time.restored_iff.2 hmodified)
  have hdepth : (Record.toJson e).depth ≤ maxDepth ↔ e.definition.toJson.depth < maxDepth := by
    rw [depth_toJson]
    unfold maxDepth
    omega
  rw [Record.parse_text hrestored (legible_toJson hlegible)]
  simp only [hdepth]

end Experiment

namespace Definition

/-- A definition that is composed of texts is read from its text, and from the text of an
experiment that has it and whose times are read from what is written of them, exactly if it is not
nested too deep; and it is nested too deep exactly if a value is appended to it that comes to stand
too deep. -/
theorem composed_rereading
    {values : List Json} {d : Definition} (h : Composed values d) :
    (d.toJson.depth ≤ maxDepth ↔ ∀ v ∈ values, v.depth + 3 ≤ maxDepth) ∧
    parse d.text = (if d.toJson.depth ≤ maxDepth then .ok d else .error .json) ∧
    ∀ e : Experiment, e.definition = d →
      Time.read? e.createdAt.write = some e.createdAt →
      Time.read? e.modifiedAt.write = some e.modifiedAt →
      Record.parse (Record.text e) =
        if d.toJson.depth < maxDepth then .ok e else .error .json := by
  refine ⟨h.depth_le_iff, h.parse_text, ?_⟩
  rintro e rfl hcreated hmodified
  exact e.parse_text h.readable h.canonical h.legible hcreated hmodified

section Nested

/-- An empty list inside `n` more lists. -/
def nested : Nat → Json
  | 0 => .array []
  | n + 1 => .array [nested n]

/-- What is read of nested lists. -/
def nestedRead : Nat → Expr
  | 0 => .list []
  | n + 1 => .list [nestedRead n]

theorem ofJson_nested (n : Nat) : Expr.ofJson (nested n) = .ok (nestedRead n) := by
  induction n with
  | zero => rfl
  | succ n ih =>
      rw [nested, Expr.ofJson_array, Expr.ofItems_cons, ih]
      rfl

theorem depth_nested (n : Nat) : (nested n).depth = n + 1 := by
  induction n with
  | zero => rfl
  | succ n ih =>
      rw [nested, Json.depth, Json.depthItems, Json.depthItems, ih, Nat.max_zero]

theorem canonical_nested (n : Nat) : (nested n).Canonical := by
  induction n with
  | zero => exact trivial
  | succ n ih => exact ⟨ih, trivial⟩

theorem floatFree_nested (n : Nat) : (nested n).FloatFree := by
  induction n with
  | zero => exact trivial
  | succ n ih => exact ⟨ih, trivial⟩

/-- The definition that binds a variable to nested lists. -/
def deep (n : Nat) : Definition := ⟨.seq [.set "x" (nestedRead n)]⟩

theorem appendSet_nested (n : Nat) : empty.appendSet "x" (nested n) = .ok (deep n) := by
  unfold appendSet
  rw [ofJson_nested]
  rfl

theorem depth_deep (n : Nat) : (deep n).toJson.depth = n + 4 := by
  have hempty : Json.depthItems [] = 0 := rfl
  rw [depth_appendSet (canonical_nested n) (appendSet_nested n), toJson_empty, depth_sequence,
    depth_nested, hempty]
  omega

theorem parse?_nested
    {n : Nat} (h : n < maxDepth) :
    Json.parse? (nested n).compact = some (nested n) := by
  rw [Json.parse?_compact (canonical_nested n) (floatFree_nested n).legible, depth_nested]
  exact if_pos h

theorem composed_deep
    {n : Nat} (h : n < maxDepth) :
    Composed [nested n] (deep n) :=
  .appended .empty (parse?_nested h) (floatFree_nested n) (appendSet_nested n)

/-- A value of 125 lists is read from its text and can be appended, but then the definition is
not read from its own text. -/
theorem nested_unreadable :
    Json.parse? (nested 124).compact = some (nested 124) ∧ (nested 124).FloatFree ∧
    empty.appendSet "x" (nested 124) = .ok (deep 124) ∧
    parse (deep 124).text = .error .json := by
  have hvalue : 124 < maxDepth := by decide
  have hdepth : ¬ (deep 124).toJson.depth ≤ maxDepth := by
    rw [depth_deep]
    decide
  refine ⟨parse?_nested hvalue, floatFree_nested 124, appendSet_nested 124, ?_⟩
  rw [(composed_deep hvalue).parse_text, if_neg hdepth]

/-- A sequence of one half. -/
def half : Definition := ⟨.seq [.value (.number (.real .half))]⟩

/-- The sequence is read from its text, as its number is. -/
theorem composed_half : Composed [] half := by
  have hjson : half.toJson = .object (sequenceFields [.number (.real .half)]) :=
    Expr.toJson_seq _
  have hcan : half.toJson.Canonical := by
    rw [hjson, partwise_sequence_iff Json.partwise_canonical, List.forall_mem_singleton]
    trivial
  have hlegible : half.toJson.Legible := by
    rw [hjson, partwise_sequence_iff Json.partwise_legible, List.forall_mem_singleton]
    exact .real Json.Number.readsBack_half
  have hparse : parse half.text = .ok half := by
    unfold parse text
    rw [Json.parse?_compact hcan hlegible, if_pos (by decide)]
    rfl
  exact .parsed hparse hlegible

/-- A sequence of one half and of the setting of a variable to nested lists. -/
def halfDeep (n : Nat) : Definition :=
  ⟨.seq [.value (.number (.real .half)), .set "x" (nestedRead n)]⟩

theorem appendSet_half (n : Nat) : half.appendSet "x" (nested n) = .ok (halfDeep n) := by
  unfold appendSet
  rw [ofJson_nested]
  rfl

theorem depth_halfDeep (n : Nat) : (halfDeep n).toJson.depth = n + 4 := by
  have hhalf : half.toJson.depth = 2 := by rfl
  rw [depth_appendSet (canonical_nested n) (appendSet_half n), depth_nested, hhalf]
  omega

/-- An experiment with one half that binds a variable to nested lists. -/
def deepExperiment : Experiment :=
  { Experiment.new 1 "deep" .epoch with definition := halfDeep 122 }

/-- With two lists less the definition is read from its text and from that of an experiment, also
behind a floating-point number. -/
theorem nested_reread :
    Composed [nested 122] (halfDeep 122) ∧ Time.read? Time.epoch.write = some Time.epoch ∧
    parse (halfDeep 122).text = .ok (halfDeep 122) ∧
    Record.parse (Record.text deepExperiment) = .ok deepExperiment := by
  have hvalue : 122 < maxDepth := by decide
  have hcomposed : Composed [nested 122] (halfDeep 122) :=
    .appended composed_half (parse?_nested hvalue) (floatFree_nested 122) (appendSet_half 122)
  have htime : Time.read? Time.epoch.write = some Time.epoch := by rfl
  have hdepth : (halfDeep 122).toJson.depth < maxDepth := by
    rw [depth_halfDeep]
    decide
  obtain ⟨-, hparse, hrecord⟩ := composed_rereading hcomposed
  rw [if_pos (Nat.le_of_lt hdepth)] at hparse
  have hexperiment := hrecord deepExperiment rfl htime htime
  rw [if_pos hdepth] at hexperiment
  exact ⟨hcomposed, htime, hparse, hexperiment⟩

end Nested

end Definition

end Allotment
