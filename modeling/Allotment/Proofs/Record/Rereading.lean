import Allotment.Config
import Allotment.Proofs.Definition.Text
import Allotment.Proofs.Time.Rereading
import Allotment.Record.Event
import Allotment.Record.Outcome

/-!
# Records read from their trees

Every kind of record has its own writer and its own fields.  The two fit together: the entries are
written under the names that the fields have, in their order, and each of them by the inverse of
what reads it.  A unit is the one record whose fields depend on an entry, the kind.

What the reader of a time does with what is written of it is a matter of the calendar.  For every
other record it is assumed of its times, and holds of all that are proper.

**Results.**
* `Definition.Made.canonical`: what is written of a definition is in canonical order.
* `Subject.restored`: a unit of either kind is read.
* `Record.restored_every_kind`: every record is read from what is written of it.
-/

namespace Allotment

open Json (Decoder Document Fields)
open Record (Restored)

namespace Definition

theorem canonical_empty : empty.toJson.Canonical := by
  rw [toJson_empty, partwise_sequence_iff Json.partwise_canonical]
  exact List.forall_mem_nil _

theorem canonical_of_ofJson
    {v : Json} {d : Definition} (hv : v.Canonical) (h : ofJson v = .ok d) :
    d.toJson.Canonical := by
  obtain ⟨e, he, rfl⟩ := of_map_eq_ok h
  show e.toJson.Canonical
  rw [v.restores hv e he]
  exact hv

theorem Made.canonical
    {d : Definition} (h : d.Made) :
    d.toJson.Canonical := by
  induction h with
  | empty => exact canonical_empty
  | parsed h => exact (Json.fits_of_parse? (toJson_of_parse h)).canonical
  | read hv h => exact canonical_of_ofJson hv h
  | @appended d _ x v hv ih =>
      unfold tryAppend
      cases h : d.appendSet x v with
      | ok d' => exact (partwise_appendSet_iff Json.partwise_canonical hv h).2 ⟨ih, hv⟩
      | error fault => exact ih

end Definition

theorem Time.Proper.restored {t : Time} (h : t.Proper) : Restored t :=
  Time.restored_iff.2 (Time.read?_write h)

theorem Experiment.restored_of_made
    {e : Experiment} (hd : e.definition.Made) (hcreated : Restored e.createdAt)
    (hmodified : Restored e.modifiedAt) :
    Restored e :=
  Experiment.restored hd.readable hd.canonical hcreated hmodified

theorem Variation.restored {v : Variation} (htime : Restored v.createdAt) : Restored v :=
  (Fields.Reads.pure Variation.mk
    |>.required "id" (.word v.id)
    |>.required "experiment_id" (.word v.experimentId)
    |>.required "key" (.text v.key)
    |>.required "value" (.text v.value)
    |>.required "created_at" htime).decoder (by decide) false

theorem Outcome.restored
    {o : Outcome} (hvalue : Binary64.IsFinite o.value) (htime : Restored o.computedAt) :
    Restored o :=
  (Fields.Reads.pure Outcome.mk
    |>.required "experiment_id" (.word o.experimentId)
    |>.required "goal_id" (.word o.goalId)
    |>.required "variation_id" (.word o.variationId)
    |>.required "total_exposures" (.word o.exposures)
    |>.required "total_goal_achievements" (.word o.achievements)
    |>.required "success_value" (.float hvalue)
    |>.required "computed_at" htime).decoder (by decide) false

theorem User.restored (u : User) : Restored u :=
  (Fields.Reads.pure User.mk
    |>.required "id" (.word u.id)
    |>.required "username" (.text u.username)).decoder (by decide) false

namespace Subject

/-- The kind of a unit. -/
def kindFields : Fields String := (Fields.pure id).required "kind" .text

/-- The kind is read from a unit like the one field of a record. -/
theorem decode_object (depth : Nat) (members : List (Option String × Document)) :
    decode (depth + 1) (.object members) =
      (Decoder.any (depth + 1) (.object members)).bind fun _ =>
        (kindFields.decoder false (depth + 1) (.object members)).bind fun kind =>
          (fieldsOf? kind).bind fun f => f.decoder false (depth + 1) (.object members) := by
  have htext : ∀ doc, (Decoder.text depth doc).bind some = Decoder.text (depth + 1) doc := by
    intro doc
    cases doc with
    | string s => exact Option.bind_fun_some s
    | _ => rfl
  have hkind : kindFields.decoder false (depth + 1) (.object members) =
      (Fields.known? ["kind"] members).bind fun known =>
        (Fields.find? known "kind").bind (Decoder.text (depth + 1)) :=
    Option.bind_congr fun known _ => Option.bind_congr fun doc _ => htext doc
  simp only [decode, hkind, Option.bind_eq_bind, Option.bind_assoc]

/-- A unit is written as its kind and the fields of that kind. -/
theorem decode_reads
    (kind : String) {f : Fields Subject} {part : List (String × Json)} {u : Subject}
    (hkind : fieldsOf? kind = some f) (hreads : f.Reads part u)
    (hnodup : ("kind" :: f.names).Nodup) (hcan : ∀ x ∈ part, x.2.Canonical) :
    Decoder.Reads decode (.ofFields (("kind", .string kind) :: part)) u := by
  have hkeys : (Dict.keys (("kind", Json.string kind) :: part)).Nodup := by
    rw [hreads.names] at hnodup
    exact hnodup
  have hvalue : (Json.ofFields (("kind", .string kind) :: part)).Canonical :=
    Json.canonical_ofFields (List.forall_mem_cons.2 ⟨trivial, hcan⟩)
  have hdepth : (Json.ofFields (("kind", .string kind) :: part)).depth =
      Json.depthFields part + 1 := by
    have hflat : (Json.string kind).depth = 0 := rfl
    rw [Json.depth_ofFields hkeys, Json.depthFields, hflat, Nat.zero_max]
  intro depth
  cases depth with
  | zero => rfl
  | succ depth =>
      -- The unit is read three times: as a value, for its kind and for the fields of this kind.
      have hany := Decoder.Reads.any hvalue (depth + 1)
      have hfirst : kindFields.decoder false (depth + 1)
          (.ofJson (.ofFields (("kind", .string kind) :: part))) = some kind :=
        ((Fields.Reads.pure id).required "kind" (.text kind)).decoder_of_subset hkeys
          (List.cons_subset_cons _ (List.nil_subset _)) false depth
      have hrest := hreads.decoder_of_subset hkeys (List.subset_cons_self _ _) false depth
      rw [hdepth] at hany ⊢
      rw [Json.ofFields, Document.ofJson] at hany hfirst hrest ⊢
      rw [decode_object, hany, hfirst, Option.bind_some]
      simp only [hkind, hrest, Nat.add_le_add_iff_right, Option.bind_some]
      split
      · rfl
      · rfl

theorem restored (u : Subject) : Restored u := by
  cases u with
  | user u =>
      have hcan : (Record.toJson u).Canonical :=
        Json.canonical_ofFields (by simp [Json.Canonical, Json.ofWord])
      exact decode_reads "user" rfl ((Fields.Reads.pure user).required "user" u.restored)
        (by decide) (by simpa using hcan)
  | external identifier identifierType =>
      exact decode_reads "external" rfl
        ((Fields.Reads.pure external).required "identifier" (.text identifier)
          |>.required "identifier_type" (.text identifierType))
        (by decide) (by simp [Json.Canonical])

end Subject

theorem EventMeta.restored
    {m : EventMeta} (htime : Restored m.seenAt) (hdata : m.data.Canonical) :
    Restored m :=
  (Fields.Reads.pure EventMeta.mk
    |>.required "seen_at" htime
    |>.optional "data_source" (.text? m.dataSource)
    |>.optional "app_version" (.text? m.appVersion)
    |>.required "data_meta" (.any hdata)).decoder (by decide) false

theorem Exposure.restored
    {e : Exposure} (hmeta : Restored e.circumstances) :
    Restored e :=
  (Fields.Reads.pure Exposure.mk
    |>.required "id" (.word e.id)
    |>.required "experiment_id" (.word e.experimentId)
    |>.required "variation_id" (.word e.variationId)
    |>.required "unit" e.unit.restored
    |>.required "meta" hmeta).decoder (by decide) false

theorem Goal.restored (g : Goal) : Restored g :=
  (Fields.Reads.pure Goal.mk
    |>.required "id" (.word g.id)
    |>.required "name" (.text g.name)
    |>.required "description" (.text g.description)).decoder (by decide) false

theorem Related.restored (r : Related) : Restored r :=
  (Fields.Reads.pure Related.mk
    |>.required "content_type" (.text r.contentType)
    |>.required "object_id" (.word r.objectId)).decoder (by decide) false

namespace Achievement

/-- A related object that is absent is written as null. -/
theorem related_reads :
    ∀ r : Option Related, (Record.decoder : Decoder Related).nullable.Reads (relatedJson r) r
  | none => .null _
  | some r => .some r.restored (by simp [Record.toJson, Json.ofFields, relatedJson])

theorem restored
    {a : Achievement} (hvalue : Binary64.IsFinite a.value) (hmeta : Restored a.circumstances) :
    Restored a :=
  (Fields.Reads.pure Achievement.mk
    |>.required "id" (.word a.id)
    |>.required "goal_id" (.word a.goalId)
    |>.required "unit" a.unit.restored
    |>.required "value" (.float hvalue)
    |>.optional "related" (related_reads a.related)
    |>.required "meta" hmeta).decoder (by decide) false

end Achievement

theorem LogEntry.restored
    {l : LogEntry} (hdata : l.data.Canonical) (htime : Restored l.createdAt) :
    Restored l :=
  (Fields.Reads.pure LogEntry.mk
    |>.required "id" (.word l.id)
    |>.required "experiment_id" (.word l.experimentId)
    |>.required "data" (.any hdata)
    |>.required "created_at" htime).decoder (by decide) false

namespace Config

theorem restored (c : Config) : Restored c :=
  (Fields.Reads.pure Config.mk
    |>.withDefault "internal_identifier_type" (.text c.internalType) defaultInternalType
    |>.withDefault "auto_exposure_log" (.bool c.autoExposure) true
    |>.optional "data_source" (.text? c.dataSource)
    |>.optional "app_version" (.text? c.appVersion)).decoder (by decide) true

/-- The entries that are written of a configuration. -/
def entries (c : Config) : List (String × Json) :=
  [("internal_identifier_type", .string c.internalType),
    ("auto_exposure_log", .bool c.autoExposure), ("data_source", .ofString? c.dataSource),
    ("app_version", .ofString? c.appVersion)]

theorem nodup_keys_entries (c : Config) : (Dict.keys c.entries).Nodup :=
  (by decide :
    ["internal_identifier_type", "auto_exposure_log", "data_source", "app_version"].Nodup)

theorem legible_toJson (c : Config) : (Record.toJson c).Legible := by
  have htext : ∀ s, (Json.ofString? s).Legible := by
    intro s
    cases s with
    | none => exact Json.FloatFree.legible trivial
    | some s => exact .string s
  refine Json.legible_ofFields fun x (hx : x ∈ c.entries) => ?_
  simp only [entries, List.mem_cons, List.not_mem_nil, or_false] at hx
  rcases hx with rfl | rfl | rfl | rfl
  · exact .string c.internalType
  · exact Json.FloatFree.legible trivial
  · exact htext c.dataSource
  · exact htext c.appVersion

theorem depth_toJson (c : Config) : (Record.toJson c).depth = 1 := by
  have htext : ∀ s, (Json.ofString? s).depth = 0 := by
    intro s
    cases s <;> rfl
  show (Json.ofFields c.entries).depth = 1
  rw [Json.depth_ofFields c.nodup_keys_entries]
  simp [entries, Json.depthFields, Json.depth, htext]

/-- A configuration that is valid is parsed from its text. -/
theorem parse_text
    {c : Config} (h : c.validate = .ok c) :
    parse (Record.text c) = .ok c := by
  have hdepth : (Record.toJson c).depth ≤ Json.maxDepth := by
    rw [depth_toJson]
    decide
  have hread : Record.parse (Record.text c) = .ok c := by
    rw [Record.parse_text c.restored c.legible_toJson, if_pos hdepth]
  rw [parse, hread]
  exact h

end Config

/-- Every record is read from what is written of it. -/
theorem Record.restored_every_kind :
    (∀ t : Time, t.Proper → Restored t) ∧
    (∀ e : Experiment, e.definition.Made → Restored e.createdAt → Restored e.modifiedAt →
      Restored e) ∧
    (∀ v : Variation, Restored v.createdAt → Restored v) ∧
    (∀ m : EventMeta, Restored m.seenAt → m.data.Canonical → Restored m) ∧
    (∀ e : Exposure, Restored e.circumstances.seenAt → e.circumstances.data.Canonical →
      Restored e) ∧
    (∀ g : Goal, Restored g) ∧
    (∀ a : Achievement, Binary64.IsFinite a.value → Restored a.circumstances.seenAt →
      a.circumstances.data.Canonical → Restored a) ∧
    (∀ l : LogEntry, l.data.Canonical → Restored l.createdAt → Restored l) ∧
    (∀ o : Outcome, Binary64.IsFinite o.value → Restored o.computedAt → Restored o) ∧
    (∀ u : User, Restored u) ∧
    (∀ u : Subject, Restored u) ∧
    ∀ c : Config, Restored c ∧ (c.validate = .ok c → Config.parse (Record.text c) = .ok c) :=
  ⟨fun _ => Time.Proper.restored,
    fun _ => Experiment.restored_of_made,
    fun _ => Variation.restored,
    fun _ => EventMeta.restored,
    fun _ htime hdata => Exposure.restored (EventMeta.restored htime hdata),
    Goal.restored,
    fun _ hvalue htime hdata => Achievement.restored hvalue (EventMeta.restored htime hdata),
    fun _ => LogEntry.restored,
    fun _ => Outcome.restored,
    User.restored,
    Subject.restored,
    fun c => ⟨c.restored, Config.parse_text⟩⟩

section Sample

/-- A time inside a leap second. -/
def sampleLeap : Time := ⟨1483228799, 1500000000⟩

/-- Circumstances with nested data, of which one text is absent. -/
def sampleSeen : EventMeta :=
  { seenAt := sampleLeap, dataSource := some "web", data := .object [("at", .array [.null])] }

def sampleGain (related : Option Related) : Achievement :=
  ⟨1, 2, .user ⟨3, "ann"⟩, 2.5, related, sampleSeen⟩

/-- A definition that binds a variable to a list. -/
def sampleListing : Experiment :=
  { Experiment.new 1 "shop" sampleLeap with
    definition := Definition.empty.tryAppend "x" (.array [.null]), goalIds := [2] }

theorem sample_restored :
    (sampleLeap.Proper ∧ Restored sampleLeap) ∧
    (sampleListing.definition.Made ∧ Restored sampleListing) ∧
    Restored (⟨1, 1, "x", "red", sampleLeap⟩ : Variation) ∧
    (sampleSeen.data.Canonical ∧ Restored sampleSeen) ∧
    Restored (⟨1, 1, 1, .external "ann" "name", sampleSeen⟩ : Exposure) ∧
    (Binary64.IsFinite 2.5 ∧ Restored (sampleGain none) ∧
      Restored (sampleGain (some ⟨"order", 7⟩))) ∧
    Restored (⟨1, 1, sampleSeen.data, sampleLeap⟩ : LogEntry) ∧
    Restored (⟨1, 2, 1, 4, 1, 2.5, sampleLeap⟩ : Outcome) ∧
    (Config.validate {} = .ok {} ∧ Config.parse (Record.text ({} : Config)) = .ok {}) := by
  obtain ⟨htimes, hexperiments, hvariations, hmetas, hexposures, -, hachievements, hlogs,
    houtcomes, -, -, hconfigs⟩ := Record.restored_every_kind
  have hproper : sampleLeap.Proper := ⟨by decide, by decide, by decide⟩
  have htime := htimes sampleLeap hproper
  have hlist : (Json.array [.null]).Canonical := by
    simp [Json.Canonical, Json.CanonicalItems]
  have hmade : sampleListing.definition.Made := Definition.Made.appended .empty "x" hlist
  have hdata : sampleSeen.data.Canonical :=
    Json.canonical_object_iff.2 ⟨List.pairwise_singleton _ _, List.forall_mem_singleton.2 hlist⟩
  have hvalue : Binary64.IsFinite 2.5 := by decide
  have hvalid : Config.validate {} = .ok {} := by rfl
  exact ⟨⟨hproper, htime⟩, ⟨hmade, hexperiments _ hmade htime htime⟩, hvariations _ htime,
    ⟨hdata, hmetas _ htime hdata⟩, hexposures _ htime hdata,
    ⟨hvalue, hachievements _ hvalue htime hdata, hachievements _ hvalue htime hdata⟩,
    hlogs _ hdata htime, houtcomes _ hvalue htime, hvalid, (hconfigs {}).2 hvalid⟩

end Sample

end Allotment
