import Allotment.Proofs.Store.Listings

/-!
# Experiments by their numbers

Experiments are stored by name.  A number leads to the name of the experiment that was created
with it, and from there to the experiment that is stored under the name now.  So an experiment is
always found by the number it was created with.  A call that saves an experiment puts whatever
number the saved record has into the store, and the index does not follow.

**Results.**
* `Course.filed`: the index has one entry for each stored experiment.
* `experimentById_of_named`: a stored experiment is found by the number of its creation.
* `indexed_of_keepsNumbers`: it is found by its own number if that is the same.
* `indexed_throughout_iff`: all experiments are found by their own numbers all the time exactly if
  no save changes a number.
-/

namespace Allotment

/-- The deed is about the records of experiments. -/
def Deed.onExperiments : Deed → Bool
  | .experiment .. | .saved _ | .attached .. | .cleared => true
  | _ => false

namespace Memory

variable {now : Time} {past : Chronicle} {m m' : Memory} {d : Deed} {e : Experiment}

/-- The index and the table have the same names, each once. -/
structure Filed (m : Memory) : Prop where
  names : m.names.map Prod.snd = m.experiments.map Experiment.name
  nodup : (m.experiments.map Experiment.name).Nodup

/-- Each experiment has the number that its name was created with. -/
def KeepsNumbers (m : Memory) : Prop := ∀ e ∈ m.experiments, (e.id, e.name) ∈ m.names

/-- Each stored experiment is reached by its own number. -/
structure Indexed (m : Memory) : Prop where
  /-- The numbers tell the experiments apart. -/
  distinct : ∀ e ∈ m.experiments, ∀ e' ∈ m.experiments, e.id = e'.id → e = e'
  /-- Under its number the goals of the experiment are listed. -/
  listed : ∀ e ∈ m.experiments,
    (Store.goals e.id : StoreM Memory _) m = .ok (e.goalIds.filterMap m.goal?) m
  /-- Under its number a known goal can be attached to the experiment, and to no other. -/
  attached : ∀ e ∈ m.experiments, ∀ goal, (m.goal? goal).isSome = true →
    ∃ m', (Store.attachGoal e.id goal : StoreM Memory Unit) m = .ok () m' ∧
      ∀ name, m'.experiment? name =
        if name = e.name then some ((e.attachGoal goal).touch m.now) else m.experiment? name

theorem mem_putExperiment
    {x : Experiment} (h : x ∈ (m.putExperiment e).experiments) :
    x = e ∨ x ∈ m.experiments ∧ x.name ≠ e.name := by
  obtain ⟨old, hold, rfl⟩ := List.mem_map.1 h
  split
  · exact .inl rfl
  · rename_i hname
    exact .inr ⟨hold, hname⟩

theorem mem_putExperiment_self
    {old : Experiment} (h : m.experiment? e.name = some old) :
    e ∈ (m.putExperiment e).experiments := by
  refine List.mem_map.2 ⟨old, List.mem_of_find?_eq_some h, if_pos ?_⟩
  simpa using List.find?_some h

theorem mem_of_experiment?
    {name : String} (h : m.experiment? name = some e) :
    e ∈ m.experiments ∧ e.name = name := by
  exact ⟨List.mem_of_find?_eq_some h, by simpa using List.find?_some h⟩

/-- The index has one entry for each stored experiment. -/
theorem Course.filed
    (h : Course { now } past m) :
    m.Filed := by
  refine h.induction_since (motive := fun _ m => m.Filed) ⟨rfl, .nil⟩ (fun m => ⟨rfl, .nil⟩) ?_
  intro past m d m' _ hstep hkeep ih
  obtain ⟨-, -, -, -, -, hnames, hexperiments⟩ := hstep.growth hkeep
  refine ⟨by rw [hnames, hexperiments, List.map_append, ih.names], ?_⟩
  rw [hexperiments]
  refine List.nodup_append.2 ⟨ih.nodup, ?_, ?_⟩
  · unfold created
    split
    · cases hnaming : d.naming? <;> simp [hnaming]
    · exact .nil
  · intro name hname name' hname' heq
    subst heq
    unfold created at hname'
    split at hname'
    · rename_i hnew
      cases d with
      | experiment asked given fresh =>
          obtain rfl : name = asked := by simpa [Deed.naming?] using hname'
          have hunknown : m.experiment? name = none := by
            simpa [Deed.creates, Deed.key?, Deed.number?, knows] using hnew
          obtain ⟨e, he, rfl⟩ := List.mem_map.1 hname
          simpa using List.find?_eq_none.1 hunknown e he
      | _ => simp [Deed.naming?] at hname'
    · simp at hname'

theorem Filed.experiment?_eq
    (h : m.Filed) (he : e ∈ m.experiments) :
    m.experiment? e.name = some e :=
  find?_of_nodup h.nodup he

theorem Filed.number_unique
    (h : m.Filed) {id id' : UInt64} {name : String} (hid : (id, name) ∈ m.names)
    (hid' : (id', name) ∈ m.names) :
    id = id' := by
  have hnodup : (m.names.map Prod.snd).Nodup := h.names ▸ h.nodup
  exact congrArg Prod.fst (List.inj_on_of_nodup_map hnodup hid hid' rfl)

/-- An experiment that is found by a number is found by the name of the number. -/
theorem of_experimentById
    {id : UInt64} (h : m.experimentById id = .ok e) :
    m.names.find? (fun x => x.1 = id) = some (id, e.name) ∧ m.experiment? e.name = some e := by
  unfold experimentById at h
  split at h
  · cases h
  · rename_i x hx
    obtain ⟨number, name⟩ := x
    obtain rfl : number = id := by simpa using List.find?_some hx
    split at h
    · cases h
    · rename_i e' he
      cases h
      obtain ⟨-, rfl⟩ := mem_of_experiment? he
      exact ⟨hx, he⟩

theorem attachGoal_id_name
    (e : Experiment) (goal : UInt64) :
    (e.attachGoal goal).id = e.id ∧ (e.attachGoal goal).name = e.name := by
  unfold Experiment.attachGoal
  split <;> exact ⟨rfl, rfl⟩

section Numbers

variable (h : Course { now } past m) (hfits : past.Fits)
include h hfits

theorem nodup_names : (m.names.map Prod.fst).Nodup := by
  rw [h.growth.names, List.nil_append]
  refine h.distinct (fun d x hx => ?_) hfits
  cases d with
  | experiment name given fresh =>
      cases hx
      rfl
  | _ => cases hx

/-- A stored experiment is found by the number that its name was created with. -/
theorem experimentById_of_named
    {id : UInt64} (he : e ∈ m.experiments) (hid : (id, e.name) ∈ m.names) :
    m.experimentById id = .ok e := by
  have hname : m.names.find? (fun x => x.1 = id) = some (id, e.name) :=
    find?_of_nodup (nodup_names h hfits) hid
  unfold experimentById
  simp only [hname, h.filed.experiment?_eq he]

/-- Experiments with the numbers of their creation are reached by them. -/
theorem indexed_of_keepsNumbers
    (hkept : m.KeepsNumbers) :
    m.Indexed where
  distinct e he e' he' hid := by
    have hfound := experimentById_of_named h hfits he (hkept e he)
    rw [hid, experimentById_of_named h hfits he' (hkept e' he')] at hfound
    exact (Except.ok.inj hfound).symm
  listed e he := goals_apply (experimentById_of_named h hfits he (hkept e he))
  attached e he goal hgoal := by
    obtain ⟨g, hg⟩ := Option.isSome_iff_exists.1 hgoal
    refine ⟨m.putExperiment ((e.attachGoal goal).touch m.now), ?_, fun name => ?_⟩
    · show change (fun m => m.attachGoal e.id goal) m = _
      simp only [change, attachGoal, hg, experimentById_of_named h hfits he (hkept e he)]
    · have hname : ((e.attachGoal goal).touch m.now).name = e.name :=
        (attachGoal_id_name e goal).2
      rw [experiment?_putExperiment, hname]
      split
      · rename_i heq
        rw [heq, h.filed.experiment?_eq he]
        rfl
      · rfl

end Numbers

/-- A deed that is not about experiments leaves them as they are. -/
theorem Happens.experiments_eq
    (h : Happens m d m') (hother : d.onExperiments = false) :
    m'.experiments = m.experiments ∧ m'.names = m.names := by
  cases h with
  | variation experiment key value =>
      cases hfind : m.variation? experiment key value with
      | some v =>
          rw [ensureVariation_of_some hfind]
          exact ⟨rfl, rfl⟩
      | none =>
          rw [ensureVariation_of_none hfind]
          exact ⟨rfl, rfl⟩
  | goal name =>
      cases hfind : m.goalNamed? name with
      | some g =>
          rw [ensureGoal_of_some hfind]
          exact ⟨rfl, rfl⟩
      | none =>
          rw [ensureGoal_of_none hfind]
          exact ⟨rfl, rfl⟩
  | exposure | achievement | logged | registered | passed => exact ⟨rfl, rfl⟩
  | experiment | saved | attached | cleared => cases hother

/-- What is stored after a deed has the numbers of the creation, if a save has the number of what
it replaces. -/
theorem KeepsNumbers.step
    (hkept : m.KeepsNumbers) (h : Happens m d m')
    (hsaved : ∀ e old, d = .saved e → m.experiment? e.name = some old → e.id = old.id) :
    m'.KeepsNumbers := by
  have hother (hd : d.onExperiments = false) : m'.KeepsNumbers := by
    obtain ⟨hexperiments, hnames⟩ := h.experiments_eq hd
    simpa only [KeepsNumbers, hexperiments, hnames] using hkept
  have hput {e old : Experiment} (hold : m.experiment? e.name = some old) (hid : e.id = old.id) :
      (m.putExperiment e).KeepsNumbers := by
    intro x hx
    rcases mem_putExperiment hx with rfl | ⟨hx, -⟩
    · obtain ⟨hmem, hname⟩ := mem_of_experiment? hold
      rw [hid, ← hname]
      exact hkept old hmem
    · exact hkept x hx
  cases h with
  | experiment name =>
      cases hfind : m.experiment? name with
      | some e =>
          rw [ensureExperiment_of_some hfind]
          exact hkept
      | none =>
          rw [ensureExperiment_of_none hfind]
          intro x hx
          rcases List.mem_append.1 hx with hx | hx
          · exact List.mem_append_left _ (hkept x hx)
          · rw [List.mem_singleton.1 hx]
            exact List.mem_append_right _ List.mem_cons_self
  | @saved _ e h =>
      obtain ⟨⟨old, hold⟩, rfl⟩ := of_saveExperiment h
      exact hput hold (hsaved e old rfl hold)
  | @attached _ _ goal h =>
      obtain ⟨-, e, he, rfl⟩ := of_attachGoal h
      obtain ⟨hid, hname⟩ := attachGoal_id_name e goal
      have hold : m.experiment? (e.attachGoal goal).name = some e := by
        rw [hname]
        exact (of_experimentById he).2
      exact hput (e := (e.attachGoal goal).touch m.now) hold hid
  | cleared => simp [KeepsNumbers, clear]
  | _ => exact hother rfl

/-- A save that leaves every experiment reachable has the number of what it replaces. -/
theorem id_eq_of_saved
    {old : Experiment} (hfiled : m.Filed) (hkept : m.KeepsNumbers) (hstep : Happens m (.saved e) m')
    (hindexed : m'.Indexed) (hold : m.experiment? e.name = some old) :
    e.id = old.id := by
  cases hstep with
  | saved h =>
      obtain ⟨-, rfl⟩ := of_saveExperiment h
      obtain ⟨hmem, hname⟩ := mem_of_experiment? hold
      have hput : e.touch m.now ∈ (m.putExperiment (e.touch m.now)).experiments :=
        mem_putExperiment_self hold
      -- The goals under the saved number are listed, so the number leads to a stored experiment.
      obtain ⟨x, hx⟩ := experimentById_of_goals (hindexed.listed _ hput)
      obtain ⟨hfind, hx⟩ := of_experimentById hx
      have hnamed : (e.id, x.name) ∈ m.names := List.mem_of_find?_eq_some hfind
      rcases mem_putExperiment (mem_of_experiment? hx).1 with rfl | ⟨hxmem, hother⟩
      · have hnamed : (e.id, e.name) ∈ m.names := hnamed
        rw [← hname] at hnamed
        exact hfiled.number_unique hnamed (hkept old hmem)
      · have hid : e.id = x.id := hfiled.number_unique hnamed (hkept x hxmem)
        refine absurd ?_ hother
        rw [← hindexed.distinct _ hput x (mem_of_experiment? hx).1 hid]

/-- Experiments have the numbers of their creation after a history whose saves change no number. -/
theorem Course.keepsNumbers
    (h : Course { now } past m)
    (hsaved : ∀ before e m₁ old, before ++ [.saved e] <+: past → Course { now } before m₁ →
      m₁.experiment? e.name = some old → e.id = old.id) :
    m.KeepsNumbers := by
  induction h with
  | nil => simp [KeepsNumbers]
  | @snoc past m m' d h hstep ih =>
      refine (ih fun before e m₁ old hpre => ?_).step hstep fun e old hd hold => ?_
      · exact hsaved before e m₁ old (hpre.trans (List.prefix_append past [d]))
      · subst hd
        exact hsaved past e m old (List.prefix_refl _) h hold

/-- Experiments have the numbers of their creation after a history that left them reachable all the
time. -/
theorem Course.keepsNumbers_of_indexed
    (h : Course { now } past m)
    (hindexed : ∀ before m₁, before <+: past → Course { now } before m₁ → m₁.Indexed) :
    m.KeepsNumbers := by
  induction h with
  | nil => simp [KeepsNumbers]
  | @snoc past m m' d h hstep ih =>
      have hkept : m.KeepsNumbers := ih fun before m₁ hpre =>
        hindexed before m₁ (hpre.trans (List.prefix_append past [d]))
      refine hkept.step hstep fun e old hd hold => ?_
      subst hd
      exact id_eq_of_saved h.filed hkept hstep
        (hindexed _ m' (List.prefix_refl _) (h.snoc hstep)) hold

/-- All experiments are reached by their own numbers at every moment of a history exactly if no
save changes the number of the experiment that it replaces. -/
theorem indexed_throughout_iff
    (hfits : ∀ before : Chronicle, before <+: past → before.Fits) :
    (∀ before m, before <+: past → Course { now } before m → m.Indexed) ↔
      ∀ before e m old, before ++ [.saved e] <+: past → Course { now } before m →
        m.experiment? e.name = some old → e.id = old.id := by
  constructor
  · intro hindexed before e m old hpre h hold
    have hpre' : before <+: past := (List.prefix_append before [.saved e]).trans hpre
    have hkept : m.KeepsNumbers := h.keepsNumbers_of_indexed fun before' m₁ hpre'' =>
      hindexed before' m₁ (hpre''.trans hpre')
    have hstep : Happens m (.saved e) (m.putExperiment (e.touch m.now)) :=
      .saved (saveExperiment_of_some hold)
    exact id_eq_of_saved h.filed hkept hstep (hindexed _ _ hpre (h.snoc hstep)) hold
  · intro hsaved before m hpre h
    have hkept : m.KeepsNumbers := h.keepsNumbers fun before' e m₁ old hpre' =>
      hsaved before' e m₁ old (hpre'.trans hpre)
    exact indexed_of_keepsNumbers h (hfits before hpre) hkept

section Sample

/-- An experiment that was created. -/
def sampleCreated (id : UInt64) : Experiment := .new id "shop" ⟨0, 0⟩

/-- An experiment is created and saved. -/
def sampleEdited : Chronicle :=
  [.experiment "shop" (sampleCreated 1) true, .saved (sampleCreated 1)]

/-- The memory after that. -/
def sampleStored : Memory where
  now := ⟨0, 0⟩
  nextId := 2
  experiments := [sampleCreated 1]
  names := [(1, "shop")]

/-- The save has the number of what it replaces, so the experiment is reached all the time. -/
theorem sample_indexed :
    (∀ before : Chronicle, before <+: sampleEdited → before.Fits) ∧ sampleStored.Indexed := by
  have hfits : ∀ before : Chronicle, before <+: sampleEdited → before.Fits := by
    intro before hpre
    simp only [sampleEdited, List.prefix_cons_iff, List.prefix_nil] at hpre
    unfold Chronicle.Fits
    rcases hpre with rfl | ⟨_, rfl, rfl | ⟨_, rfl, rfl⟩⟩ <;> decide
  have hcourse : Course { now := ⟨0, 0⟩ } sampleEdited sampleStored :=
    (Course.nil.snoc (.experiment "shop")).snoc (.saved rfl)
  refine ⟨hfits, (indexed_throughout_iff hfits).2 ?_ sampleEdited sampleStored (List.prefix_refl _)
    hcourse⟩
  intro before e m old hpre h hold
  have hpre : before ++ [.saved e] <+:
      [.experiment "shop" (sampleCreated 1) true] ++ [.saved (sampleCreated 1)] := hpre
  rcases List.prefix_concat_iff.1 hpre with hpre | hpre
  · obtain ⟨rfl, hsaved⟩ := List.append_inj' hpre rfl
    cases hsaved
    rw [h.unique (.single (.experiment "shop"))] at hold
    cases hold
    rfl
  · have hsaved := hpre.subset (List.mem_append_right before List.mem_cons_self)
    simp at hsaved

/-- An experiment is created again after everything was forgotten, and a copy of the first one is
saved. -/
def sampleStale : Chronicle :=
  [.experiment "shop" (sampleCreated 1) true, .cleared, .experiment "shop" (sampleCreated 2) true,
    .saved (sampleCreated 1)]

/-- The experiment has the number of the copy then, which the index does not know. -/
theorem saved_copy_not_indexed :
    ¬ ∀ past m, Course { now := ⟨0, 0⟩ } past m → m.Indexed := by
  intro hindexed
  let stored : Memory :=
    { now := ⟨0, 0⟩, nextId := 3, experiments := [sampleCreated 1], names := [(2, "shop")] }
  have hcourse : Course { now := ⟨0, 0⟩ } sampleStale stored :=
    (((Course.nil.snoc (.experiment "shop")).snoc .cleared).snoc (.experiment "shop")).snoc
      (.saved rfl)
  have hlisted := (hindexed sampleStale stored hcourse).listed (sampleCreated 1)
    List.mem_cons_self
  cases hlisted

end Sample

end Memory

end Allotment
