import Allotment.Store.Memory

/-!
# Records that are created on demand

A variation is found by its experiment, its variable and its label, a goal and an experiment by
their names.  They are created when they are asked for and not there.

**Results.**
* `variation?_ensureVariation`: what is found after a variation was asked for.
* `goalNamed?_ensureGoal_self`: a goal that was asked for is found.
* `experiment?_ensureExperiment`, `experiment?_putExperiment`: what is found after an experiment
  was asked for or replaced.
-/

namespace Allotment

namespace Memory

/-- The variation of an experiment, a variable and a label. -/
def variation? (m : Memory) (experiment : UInt64) (key value : String) : Option Variation :=
  m.variations.find? fun v => v.experimentId = experiment ∧ v.key = key ∧ v.value = value

/-- The goal of a name. -/
def goalNamed? (m : Memory) (name : String) : Option Goal :=
  m.goals.find? fun g => g.name = name

section Variations

variable {m : Memory} {experiment experiment' : UInt64} {key key' value value' : String}
variable {w : Variation}

/-- A variation that is found is there, and it is the one that was looked for. -/
theorem mem_of_variation?
    (h : m.variation? experiment key value = some w) :
    w ∈ m.variations ∧ w.experimentId = experiment ∧ w.key = key ∧ w.value = value := by
  refine ⟨List.mem_of_find?_eq_some h, ?_⟩
  simpa using List.find?_some h

/-- A variation that is there is given as it is. -/
theorem ensureVariation_of_some
    (h : m.variation? experiment key value = some w) :
    m.ensureVariation experiment key value = (w, m) := by
  unfold variation? at h
  simp only [ensureVariation, h]

/-- A variation that is not there is created. -/
theorem ensureVariation_of_none
    (h : m.variation? experiment key value = none) :
    m.ensureVariation experiment key value =
      (⟨m.nextId, experiment, key, value, m.now⟩,
        { m with
          nextId := m.nextId + 1
          variations := m.variations ++ [⟨m.nextId, experiment, key, value, m.now⟩] }) := by
  unfold variation? at h
  simp only [ensureVariation, h]

/-- What is found after a variation was asked for. -/
theorem variation?_ensureVariation
    (m : Memory) (experiment experiment' : UInt64) (key key' value value' : String) :
    (m.ensureVariation experiment key value).2.variation? experiment' key' value' =
      if experiment = experiment' ∧ key = key' ∧ value = value' then
        some (m.ensureVariation experiment key value).1
      else m.variation? experiment' key' value' := by
  cases h : m.variation? experiment key value with
  | some w =>
      rw [ensureVariation_of_some h]
      split
      · rename_i heq
        obtain ⟨rfl, rfl, rfl⟩ := heq
        exact h
      · rfl
  | none =>
      rw [ensureVariation_of_none h]
      simp only [variation?, List.find?_append]
      split
      · rename_i heq
        obtain ⟨rfl, rfl, rfl⟩ := heq
        unfold variation? at h
        rw [h]
        simp
      · rename_i hne
        simp [hne]

/-- A variation that was asked for is found. -/
theorem variation?_ensureVariation_self
    (m : Memory) (experiment : UInt64) (key value : String) :
    (m.ensureVariation experiment key value).2.variation? experiment key value =
      some (m.ensureVariation experiment key value).1 := by
  rw [variation?_ensureVariation]
  simp

/-- What was found before a variation was asked for is found after it. -/
theorem variation?_ensureVariation_of_some
    (h : m.variation? experiment' key' value' = some w) :
    (m.ensureVariation experiment key value).2.variation? experiment' key' value' = some w := by
  rw [variation?_ensureVariation]
  split
  · rename_i heq
    obtain ⟨rfl, rfl, rfl⟩ := heq
    rw [ensureVariation_of_some h]
  · exact h

@[simp] theorem ensureVariation_exposures
    (m : Memory) (experiment : UInt64) (key value : String) :
    (m.ensureVariation experiment key value).2.exposures = m.exposures := by
  unfold ensureVariation
  dsimp only
  split <;> rfl

end Variations

section Goals

variable {m : Memory} {name : String} {g : Goal}

/-- A goal that is there is given as it is. -/
theorem ensureGoal_of_some
    (h : m.goalNamed? name = some g) :
    m.ensureGoal name = (g, m) := by
  unfold goalNamed? at h
  simp only [ensureGoal, h]

/-- A goal that is not there is created. -/
theorem ensureGoal_of_none
    (h : m.goalNamed? name = none) :
    m.ensureGoal name =
      (⟨m.nextId, name, ""⟩,
        { m with nextId := m.nextId + 1, goals := m.goals ++ [⟨m.nextId, name, ""⟩] }) := by
  unfold goalNamed? at h
  simp only [ensureGoal, h]

/-- A goal that was asked for is found. -/
theorem goalNamed?_ensureGoal_self
    (m : Memory) (name : String) :
    (m.ensureGoal name).2.goalNamed? name = some (m.ensureGoal name).1 := by
  cases h : m.goalNamed? name with
  | some g => rw [ensureGoal_of_some h, h]
  | none =>
      rw [ensureGoal_of_none h]
      unfold goalNamed? at h ⊢
      rw [List.find?_append, h]
      simp

/-- To ask for a goal changes no event and no variation. -/
theorem ensureGoal_events
    (m : Memory) (name : String) :
    (m.ensureGoal name).2.variations = m.variations ∧
      (m.ensureGoal name).2.exposures = m.exposures ∧
      (m.ensureGoal name).2.achievements = m.achievements := by
  unfold ensureGoal
  split <;> exact ⟨rfl, rfl, rfl⟩

end Goals

section Experiments

variable {m : Memory} {name : String} {e : Experiment}

/-- An experiment that is there is given as it is. -/
theorem ensureExperiment_of_some
    (h : m.experiment? name = some e) :
    m.ensureExperiment name = ((e, false), m) := by
  simp only [ensureExperiment, h]

/-- An experiment that is not there is created. -/
theorem ensureExperiment_of_none
    (h : m.experiment? name = none) :
    m.ensureExperiment name =
      ((Experiment.new m.nextId name m.now, true),
        { m with
          nextId := m.nextId + 1
          experiments := m.experiments ++ [Experiment.new m.nextId name m.now]
          names := m.names ++ [(m.nextId, name)] }) := by
  simp only [ensureExperiment, h]
  rfl

theorem experiment?_ensureExperiment
    (m : Memory) (name n : String) :
    (m.ensureExperiment name).2.experiment? n =
      if n = name then some (m.ensureExperiment name).1.1 else m.experiment? n := by
  cases h : m.experiment? name with
  | some e =>
      rw [ensureExperiment_of_some h]
      split
      · rename_i heq
        rw [heq, h]
      · rfl
  | none =>
      rw [ensureExperiment_of_none h]
      unfold experiment? at h ⊢
      rw [List.find?_append]
      by_cases hn : n = name
      · subst hn
        rw [h]
        simp [Experiment.new]
      · have hother : ¬ name = n := fun heq => hn heq.symm
        simp [Experiment.new, hn, hother]

theorem experiment?_putExperiment
    (m : Memory) (e : Experiment) (n : String) :
    (m.putExperiment e).experiment? n =
      if n = e.name then (m.experiment? n).map fun _ => e else m.experiment? n := by
  -- The replacement has the name of what it replaces, so the search finds the same place.
  have hname : (fun x : Experiment => decide (x.name = n)) ∘
      (fun old => if old.name = e.name then e else old) = fun x => decide (x.name = n) := by
    funext old
    simp only [Function.comp_apply]
    split
    · rename_i hold
      rw [hold]
    · rfl
  unfold putExperiment experiment?
  rw [List.find?_map, hname]
  cases h : m.experiments.find? fun x => decide (x.name = n) with
  | none => simp
  | some old =>
      have hold : old.name = n := by simpa using List.find?_some h
      simp only [Option.map_some, hold]
      split
      · rfl
      · rfl

/-- An experiment of which the name is known is saved. -/
theorem saveExperiment_of_some
    {old : Experiment} (h : m.experiment? e.name = some old) :
    m.saveExperiment e = .ok (m.putExperiment (e.touch m.now)) := by
  simp only [saveExperiment, h]

theorem ensureExperiment_apply_of_some
    (h : m.experiment? name = some e) :
    (Store.ensureExperiment name : StoreM Memory _) m = .ok (e, false) m := by
  show sure (fun m => m.ensureExperiment name) m = _
  simp only [sure, ensureExperiment_of_some h]

theorem ensureExperiment_apply_of_none
    (h : m.experiment? name = none) :
    (Store.ensureExperiment name : StoreM Memory _) m =
      .ok (Experiment.new m.nextId name m.now, true) (m.ensureExperiment name).2 := by
  show sure (fun m => m.ensureExperiment name) m = _
  simp only [sure, ensureExperiment_of_none h]

theorem saveExperiment_apply_of_some
    {old : Experiment} (h : m.experiment? e.name = some old) :
    (Store.saveExperiment e : StoreM Memory Unit) m =
      .ok () (m.putExperiment (e.touch m.now)) := by
  show change (fun m => m.saveExperiment e) m = _
  simp only [change, saveExperiment_of_some h]

end Experiments

end Memory

end Allotment
