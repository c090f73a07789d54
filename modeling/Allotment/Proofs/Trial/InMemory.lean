import Allotment.Proofs.Dict
import Allotment.Proofs.Store.Reachable
import Allotment.Proofs.Trial.Request

/-!
# Trials on a memory

On the store in memory no call of a recording fails, so the recording of exposures is a function
of the memory.

**Results.**
* `record_apply`: what a recording makes of a memory.
* `exposures_expose`: a recording exposes the unit to the variation of each value.
* `length_exposuresOf_expose`: how many exposures to a variation a recording adds.
* `Exposes.append`: how many exposures several recordings add.
* `endState_perform_of_resolved`: what the first question to a trial makes of a memory.
-/

namespace Allotment

open Stateful

namespace Memory

/-- The memory after the exposures of a unit to some values were recorded; without a unit the
variations are. -/
def expose (experiment : UInt64) (unit : Option Subject) (circumstances : EventMeta) :
    List (String × Json) → Memory → Memory
  | [], m => m
  | (key, v) :: rest, m =>
      let (w, m) := m.ensureVariation experiment key v.label
      match unit with
      | some u =>
          expose experiment unit circumstances rest
            (m.addExposure experiment w.id u circumstances).2
      | none => expose experiment unit circumstances rest m

variable {experiment : UInt64} {circumstances : EventMeta} {u : Subject}

/-- A recording only adds variations and exposures. -/
theorem recorded_expose
    (experiment : UInt64) (unit : Option Subject) (circumstances : EventMeta)
    (values : List (String × Json)) (m : Memory) :
    Recorded m (expose experiment unit circumstances values m) := by
  induction values generalizing m with
  | nil => exact .refl
  | cons x rest ih =>
      obtain ⟨key, v⟩ := x
      have hw : Recorded m (m.ensureVariation experiment key v.label).2 :=
        Recorded.refl.ensureVariation experiment key v.label
      cases unit with
      | some u => exact (hw.addExposure experiment _ u circumstances).trans (ih _)
      | none => exact hw.trans (ih _)

/-- A recording for a unit adds exposures of this unit only, and each of the values has an
exposure to its variation among them. -/
theorem exposures_expose
    (experiment : UInt64) (u : Subject) (circumstances : EventMeta)
    (values : List (String × Json)) (m : Memory) :
    let m' := expose experiment (some u) circumstances values m
    ∃ new, m'.exposures = m.exposures ++ new ∧ (∀ x ∈ new, x.unit = u) ∧
      ∀ key v, (key, v) ∈ values →
        ∃ w, m'.variation? experiment key v.label = some w ∧ ∃ x ∈ new, x.variationId = w.id := by
  induction values generalizing m with
  | nil => exact ⟨[], by simp [expose], by simp, by simp⟩
  | cons head rest ih =>
      obtain ⟨key, v⟩ := head
      let w := (m.ensureVariation experiment key v.label).1
      let m₁ := (m.ensureVariation experiment key v.label).2
      let x := (m₁.addExposure experiment w.id u circumstances).1
      let m₂ := (m₁.addExposure experiment w.id u circumstances).2
      obtain ⟨new, hnew, hunit, hvalues⟩ := ih m₂
      have hw : (expose experiment (some u) circumstances rest m₂).variation?
          experiment key v.label = some w :=
        (recorded_expose experiment (some u) circumstances rest m₂).variation?_of_some
          (variation?_ensureVariation_self m experiment key v.label)
      have hm₂ : m₂.exposures = m.exposures ++ [x] := by
        show m₁.exposures ++ [x] = _
        rw [ensureVariation_exposures]
      refine ⟨x :: new, ?_, ?_, ?_⟩
      · show (expose experiment (some u) circumstances rest m₂).exposures = _
        rw [hnew, hm₂]
        simp
      · intro y hy
        rcases List.mem_cons.1 hy with rfl | hy
        · rfl
        · exact hunit y hy
      · intro key' v' hmem
        rcases List.mem_cons.1 hmem with heq | hmem
        · cases heq
          exact ⟨w, hw, x, List.mem_cons_self, rfl⟩
        · obtain ⟨w', hw', y, hy, hid⟩ := hvalues key' v' hmem
          exact ⟨w', hw', y, List.mem_cons_of_mem x hy, hid⟩

/-- To a variation a recording for a unit adds an exposure for each value of it. -/
theorem length_exposuresOf_expose
    (values : List (String × Json)) {m m' : Memory}
    (hrec : Recorded (expose experiment (some u) circumstances values m) m') (hm' : m'.Numbered)
    {key value : String} {w : Variation} (hw : m'.variation? experiment key value = some w) :
    ((expose experiment (some u) circumstances values m).exposuresOf w.id).length =
      (m.exposuresOf w.id).length +
        values.countP fun x => x.1 = key ∧ x.2.label = value := by
  induction values generalizing m with
  | nil => simp [expose]
  | cons head rest ih =>
      obtain ⟨k, v⟩ := head
      let w₁ := (m.ensureVariation experiment k v.label).1
      let m₁ := (m.ensureVariation experiment k v.label).2
      let x := (m₁.addExposure experiment w₁.id u circumstances).1
      let m₂ := (m₁.addExposure experiment w₁.id u circumstances).2
      have hrest := ih (m := m₂) hrec
      have hw₁ : m'.variation? experiment k v.label = some w₁ :=
        ((recorded_expose experiment (some u) circumstances rest m₂).trans hrec).variation?_of_some
          (variation?_ensureVariation_self m experiment k v.label)
      have hm₂ : m₂.exposures = m.exposures ++ [x] := by
        show m₁.exposures ++ [x] = _
        rw [ensureVariation_exposures]
      have hone : (m₂.exposuresOf w.id).length =
          (m.exposuresOf w.id).length + if k = key ∧ v.label = value then 1 else 0 := by
        unfold exposuresOf
        rw [hm₂, List.filter_append, List.length_append]
        congr 1
        by_cases hkey : k = key ∧ v.label = value
        · obtain ⟨rfl, rfl⟩ := hkey
          have heq : w₁ = w := Option.some.inj (hw₁.symm.trans hw)
          simp [x, Memory.addExposure, heq]
        · have hid : w₁.id ≠ w.id := fun hid => hkey (hm'.variation?_inj hw₁ hw hid).2
          simp [x, Memory.addExposure, hid, hkey]
      show ((expose experiment (some u) circumstances rest m₂).exposuresOf w.id).length = _
      rw [hrest, hone, List.countP_cons]
      simp only [decide_eq_true_eq]
      omega

/-- The second memory comes from the first by recordings that add, of the exposures to the values
of one variable, one to the variation of each label of a list. -/
structure Exposes (experiment : UInt64) (key : String) (labels : List String)
    (m m₁ : Memory) : Prop where
  /-- Nothing but variations and exposures is added. -/
  recorded : Recorded m m₁
  /-- Each label has its variation. -/
  found : ∀ x ∈ labels, ∃ w, m₁.variation? experiment key x = some w
  /-- The exposures to a variation, as long as variations have numbers of their own. -/
  count : ∀ m' x w, Recorded m₁ m' → m'.Numbered → m'.variation? experiment key x = some w →
    (m₁.exposuresOf w.id).length = (m.exposuresOf w.id).length + labels.count x

namespace Exposes

variable {experiment : UInt64} {key : String} {labels labels' : List String}
variable {m m₁ m₂ : Memory}

theorem nil (experiment : UInt64) (key : String) (m : Memory) :
    Exposes experiment key [] m m where
  recorded := .refl
  found _ hx := absurd hx List.not_mem_nil
  count _ _ _ _ _ _ := rfl

/-- It does not matter if time passes before a recording. -/
theorem of_pass
    {now : Time} (h : Exposes experiment key labels { m with now } m₁) :
    Exposes experiment key labels m m₁ where
  recorded := (Recorded.refl.pass now).trans h.recorded
  found := h.found
  count := h.count

/-- One recording after the other adds the exposures of both. -/
theorem append
    (h : Exposes experiment key labels m m₁) (h' : Exposes experiment key labels' m₁ m₂) :
    Exposes experiment key (labels ++ labels') m m₂ where
  recorded := h.recorded.trans h'.recorded
  found x hx := by
    rcases List.mem_append.1 hx with hx | hx
    · obtain ⟨w, hw⟩ := h.found x hx
      exact ⟨w, h'.recorded.variation?_of_some hw⟩
    · exact h'.found x hx
  count m' x w hrec hm' hw := by
    rw [h'.count m' x w hrec hm' hw, h.count m' x w (h'.recorded.trans hrec) hm' hw,
      List.count_append]
    omega

/-- A recording of values in the order of their names adds an exposure to the value of a
variable, if it has one. -/
theorem of_expose
    (experiment : UInt64) (u : Subject) (circumstances : EventMeta) {values : Dict Json}
    (hvalues : Dict.Ascending values) (key : String) (m : Memory) :
    Exposes experiment key ((Dict.get? values key).map Json.label).toList m
      (expose experiment (some u) circumstances values m) where
  recorded := recorded_expose experiment (some u) circumstances values m
  found x hx := by
    obtain ⟨v, hv, rfl⟩ := Option.map_eq_some_iff.1 (Option.mem_toList.1 hx)
    obtain ⟨new, -, -, hfound⟩ := exposures_expose experiment u circumstances values m
    obtain ⟨w, hw, -⟩ := hfound key v (Dict.mem_of_get? hv)
    exact ⟨w, hw⟩
  count m' x w hrec hm' hw := by
    rw [length_exposuresOf_expose values hrec hm' hw, Dict.countP_entries hvalues]

end Exposes

end Memory

namespace Trial

/-- On a memory the exposures are always recorded. -/
theorem record_apply
    (t : Trial) (now : Time) (unit : Option Subject) (values : List (String × Json))
    (m : Memory) :
    t.record now unit values m =
      .ok () (Memory.expose t.experiment.id unit (t.circumstances now) values m) := by
  induction values generalizing m with
  | nil => rfl
  | cons x rest ih =>
      obtain ⟨key, v⟩ := x
      cases unit with
      | some u => exact (record_of_recorded rfl rfl).trans (ih _)
      | none => exact (record_of_unattributed rfl).trans (ih _)

section Resolved

variable {t : Trial} {a : Assignment} {unit : Option Subject} {m m' : Memory}
variable (ha : t.assigned = .ok a) (hnew : ¬ t.IsExposed) (hin : a.takesPart = true)
variable (hr : t.resolveUnit m = .ok unit m')
include ha hnew hin hr

/-- On a memory the recording of the exposures succeeds when the unit is known. -/
theorem logExposure_apply
    (now : Time) :
    logExposure now (t, m) =
      .ok () (t.inStage (.exposed a),
        Memory.expose t.experiment.id unit (t.circumstances now) a.values m') := by
  rw [logExposure_of_resolved ha hnew hin hr, onStore, record_apply]

/-- The first question to an automatic trial records the exposures. -/
theorem endState_perform_of_resolved
    (hauto : t.autoExposure = true) {r : Request} (heval : r.evaluates = true) (now : Time) :
    endState (perform now r (t, m)) =
      (t.inStage (.exposed a),
        Memory.expose t.experiment.id unit (t.circumstances now) a.values m') := by
  rw [endState_perform_of_auto hauto heval, logExposure_apply ha hnew hin hr]
  rfl

end Resolved

end Trial

end Allotment
