import Allotment.Proofs.Store.Course
import Allotment.Proofs.Store.Reachable

/-!
# What a memory knows of its history

Each deed adds the record that it creates to the table of its kind and takes the next number for
it.  Nothing else in the tables changes but the experiments that are saved or that goals are
attached to, which keep their names.  So the tables hold the records that were created since
everything was forgotten, and the numbers count all creations.

**Results.**
* `Happens.growth`: what a deed adds to the tables.
* `Course.knows_eq`: a memory knows the keys that were asked for since everything was forgotten.
* `Course.growth`: the tables hold the records that were created since then.
* `Course.reachable`: what a course leads to is reachable by operations.
* `Course.numbers_eq`: the numbers that are given out are those from one on.
-/

namespace Allotment

namespace Memory

/-- There is a record of the key. -/
def knows (m : Memory) : RecordKey → Bool
  | .experiment name => (m.experiment? name).isSome
  | .variation experiment key value => (m.variation? experiment key value).isSome
  | .goal name => (m.goalNamed? name).isSome

/-- The deed as a creation, if it creates a record in a memory. -/
def created (m : Memory) (d : Deed) : Chronicle := if d.creates m.knows then [d] else []

/-- The second memory is the first with the records that were created, each in the table of its
kind.  The experiments may have changed, but not their names. -/
structure Growth (m : Memory) (created : Chronicle) (m' : Memory) : Prop where
  variations : m'.variations = m.variations ++ created.filterMap Deed.variation?
  exposures : m'.exposures = m.exposures ++ created.filterMap Deed.exposure?
  goals : m'.goals = m.goals ++ created.filterMap Deed.goal?
  achievements : m'.achievements = m.achievements ++ created.filterMap Deed.achievement?
  logs : m'.logs = m.logs ++ created.filterMap Deed.entry?
  names : m'.names = m.names ++ created.filterMap Deed.naming?
  experiments : m'.experiments.map Experiment.name =
    m.experiments.map Experiment.name ++ (created.filterMap Deed.naming?).map Prod.snd

namespace Growth

variable {m m' m'' : Memory} {created created' : Chronicle}

theorem trans
    (h : Growth m created m') (h' : Growth m' created' m'') :
    Growth m (created ++ created') m'' := by
  constructor
  · simp [h'.variations, h.variations]
  · simp [h'.exposures, h.exposures]
  · simp [h'.goals, h.goals]
  · simp [h'.achievements, h.achievements]
  · simp [h'.logs, h.logs]
  · simp [h'.names, h.names]
  · simp [h'.experiments, h.experiments]

/-- Nothing is added if only experiments change, in other things than their names. -/
theorem of_same
    {experiments : List Experiment}
    (hnames : experiments.map Experiment.name = m.experiments.map Experiment.name)
    (now : Time) (users : List User) :
    Growth m [] { m with experiments, now, users } := by
  constructor <;> simp [hnames]

/-- Nothing is in the tables after everything was forgotten. -/
theorem of_clear (m : Memory) (now : Time) : Growth { now } [] m.clear := by
  constructor <;> simp [clear]

/-- The keys that are known in addition are those for which a record was created. -/
theorem knows_eq
    (h : Growth m created m') (hfaithful : ∀ d ∈ created, d.IsFaithful) (k : RecordKey) :
    m'.knows k = (m.knows k || created.asked k) := by
  -- A creation is found under the key that it asks for, as its record has the data of the call.
  have hasked {p : Deed → Bool} (hp : ∀ d, d.IsFaithful → p d = d.asks k) :
      created.any p = created.asked k := by
    rw [Bool.eq_iff_iff, List.any_eq_true, Chronicle.asked, List.any_eq_true]
    exact exists_congr fun d => and_congr_right fun hd => by rw [hp d (hfaithful d hd)]
  cases k with
  | experiment name =>
      have htable (m : Memory) : m.knows (.experiment name) =
          (m.experiments.map Experiment.name).any (· = name) := by
        rw [List.any_map]
        exact List.isSome_find?
      rw [htable, htable, h.experiments, List.any_append]
      congr 1
      rw [List.any_map, List.any_filterMap]
      exact hasked fun d _ => by cases d <;> simp [Deed.naming?, Deed.asks, Deed.key?]
  | variation experiment key value =>
      have htable (m : Memory) : m.knows (.variation experiment key value) =
          m.variations.any fun v =>
            v.experimentId = experiment ∧ v.key = key ∧ v.value = value := by
        exact List.isSome_find?
      rw [htable, htable, h.variations, List.any_append, List.any_filterMap]
      congr 1
      refine hasked fun d hd => ?_
      cases d with
      | variation id key' value' v =>
          obtain ⟨rfl, rfl, rfl⟩ := hd
          simp [Deed.variation?, Deed.asks, Deed.key?]
      | _ => simp [Deed.variation?, Deed.asks, Deed.key?]
  | goal name =>
      have htable (m : Memory) : m.knows (.goal name) = m.goals.any fun g => g.name = name := by
        exact List.isSome_find?
      rw [htable, htable, h.goals, List.any_append, List.any_filterMap]
      congr 1
      refine hasked fun d hd => ?_
      cases d with
      | goal name' g =>
          obtain rfl : g.name = name' := hd
          simp [Deed.goal?, Deed.asks, Deed.key?]
      | _ => simp [Deed.goal?, Deed.asks, Deed.key?]

theorem variation?_of_some
    (h : Growth m created m') {experiment : UInt64} {key value : String} {v : Variation}
    (hv : m.variation? experiment key value = some v) :
    m'.variation? experiment key value = some v := by
  unfold variation? at hv ⊢
  rw [h.variations, List.find?_append, hv]
  rfl

theorem goalNamed?_of_some
    (h : Growth m created m') {name : String} {g : Goal} (hg : m.goalNamed? name = some g) :
    m'.goalNamed? name = some g := by
  unfold goalNamed? at hg ⊢
  rw [h.goals, List.find?_append, hg]
  rfl

theorem goal?_of_some
    (h : Growth m created m') {id : UInt64} {g : Goal} (hg : m.goal? id = some g) :
    m'.goal? id = some g := by
  unfold Memory.goal? at hg ⊢
  rw [h.goals, List.find?_append, hg]
  rfl

end Growth

section Experiments

variable {m m' : Memory} {e : Experiment} {experiment goal : UInt64}

theorem map_name_putExperiment
    (m : Memory) (e : Experiment) :
    (m.putExperiment e).experiments.map Experiment.name = m.experiments.map Experiment.name := by
  unfold putExperiment
  rw [List.map_map]
  refine List.map_congr_left fun old _ => ?_
  simp only [Function.comp_apply]
  split
  · rename_i hname
    exact hname.symm
  · rfl

/-- What a saved experiment replaces has the same name. -/
theorem of_saveExperiment
    (h : m.saveExperiment e = .ok m') :
    (∃ old, m.experiment? e.name = some old) ∧ m' = m.putExperiment (e.touch m.now) := by
  unfold saveExperiment at h
  split at h
  · rename_i old hold
    cases h
    exact ⟨⟨old, hold⟩, rfl⟩
  · cases h

/-- A goal that is attached is known, and it is attached to the experiment of the number. -/
theorem of_attachGoal
    (h : m.attachGoal experiment goal = .ok m') :
    (∃ g, m.goal? goal = some g) ∧ ∃ e, m.experimentById experiment = .ok e ∧
      m' = m.putExperiment ((e.attachGoal goal).touch m.now) := by
  unfold attachGoal at h
  split at h
  · cases h
  · rename_i g hg
    split at h
    · cases h
    · rename_i e he
      cases h
      exact ⟨⟨g, hg⟩, e, he, rfl⟩

/-- The goals of an experiment that is found by its number are those of its goals that are known. -/
theorem goals_apply
    (h : m.experimentById experiment = .ok e) :
    (Store.goals experiment : StoreM Memory _) m = .ok (e.goalIds.filterMap m.goal?) m := by
  have hgoals : m.goalsOf experiment = .ok (e.goalIds.filterMap m.goal?) := by
    rw [goalsOf, h]
    rfl
  show view (fun m => m.goalsOf experiment) m = _
  simp only [view, hgoals]

/-- Goals are listed only under the number of an experiment. -/
theorem experimentById_of_goals
    {goals : List Goal} (h : (Store.goals experiment : StoreM Memory _) m = .ok goals m') :
    ∃ e, m.experimentById experiment = .ok e := by
  cases hfind : m.experimentById experiment with
  | ok e => exact ⟨e, rfl⟩
  | error fault =>
      have hgoals : m.goalsOf experiment = .error fault := by
        rw [goalsOf, hfind]
        rfl
      change view (fun m => m.goalsOf experiment) m = _ at h
      simp only [view, hgoals] at h
      cases h

end Experiments

variable {m m' : Memory} {d : Deed}

theorem created_of_known
    (h : d.creates m.knows = false) :
    m.created d = [] := by
  simp [created, h]

theorem created_of_new
    (h : d.creates m.knows = true) :
    m.created d = [d] := by
  simp [created, h]

namespace Happens

section Cases

attribute [local simp] Deed.creates Deed.key? Deed.number? Deed.variation? Deed.exposure?
  Deed.goal? Deed.achievement? Deed.entry? Deed.naming?

/-- A deed that does not forget creates no record, or it creates one with the next number. -/
theorem creates_cases
    (h : Happens m d m') (hkeep : d.clears = false) :
    d.creates m.knows = false ∧ Growth m [] m' ∧ m'.nextId = m.nextId ∨
      d.creates m.knows = true ∧ Growth m [d] m' ∧ d.number? = some m.nextId ∧
        m'.nextId = m.nextId + 1 := by
  cases h with
  | experiment name =>
      cases hfind : m.experiment? name with
      | some e =>
          rw [ensureExperiment_of_some hfind]
          exact .inl ⟨by simp [Memory.knows, hfind], .of_same rfl _ _, rfl⟩
      | none =>
          rw [ensureExperiment_of_none hfind]
          refine .inr ⟨by simp [Memory.knows, hfind], ?_, rfl, rfl⟩
          constructor <;> simp [Experiment.new]
  | variation experiment key value =>
      cases hfind : m.variation? experiment key value with
      | some v =>
          rw [ensureVariation_of_some hfind]
          exact .inl ⟨by simp [Memory.knows, hfind], .of_same rfl _ _, rfl⟩
      | none =>
          rw [ensureVariation_of_none hfind]
          refine .inr ⟨by simp [Memory.knows, hfind], ?_, rfl, rfl⟩
          constructor <;> simp
  | goal name =>
      cases hfind : m.goalNamed? name with
      | some g =>
          rw [ensureGoal_of_some hfind]
          exact .inl ⟨by simp [Memory.knows, hfind], .of_same rfl _ _, rfl⟩
      | none =>
          rw [ensureGoal_of_none hfind]
          refine .inr ⟨by simp [Memory.knows, hfind], ?_, rfl, rfl⟩
          constructor <;> simp
  | saved h =>
      obtain ⟨-, rfl⟩ := of_saveExperiment h
      exact .inl ⟨rfl, .of_same (map_name_putExperiment m _) _ _, rfl⟩
  | attached h =>
      obtain ⟨-, e, -, rfl⟩ := of_attachGoal h
      exact .inl ⟨rfl, .of_same (map_name_putExperiment m _) _ _, rfl⟩
  | exposure experiment variation unit circumstances =>
      refine .inr ⟨rfl, ?_, rfl, rfl⟩
      constructor <;> simp [addExposure]
  | achievement goal unit value related circumstances =>
      refine .inr ⟨rfl, ?_, rfl, rfl⟩
      constructor <;> simp [addAchievement]
  | logged experiment data =>
      refine .inr ⟨rfl, ?_, rfl, rfl⟩
      constructor <;> simp [addLog]
  | registered user => exact .inl ⟨rfl, .of_same rfl _ _, rfl⟩
  | cleared => cases hkeep
  | passed now => exact .inl ⟨rfl, .of_same rfl _ _, rfl⟩

/-- The records that are given have the data of the calls. -/
theorem faithful
    (h : Happens m d m') :
    d.IsFaithful := by
  cases h with
  | experiment name =>
      cases hfind : m.experiment? name with
      | some e =>
          rw [ensureExperiment_of_some hfind]
          simpa [Deed.IsFaithful] using List.find?_some hfind
      | none =>
          rw [ensureExperiment_of_none hfind]
          rfl
  | variation experiment key value =>
      exact (mem_of_variation? (variation?_ensureVariation_self m experiment key value)).2
  | goal name =>
      simpa [Deed.IsFaithful] using List.find?_some (goalNamed?_ensureGoal_self m name)
  | exposure experiment variation unit circumstances => exact ⟨rfl, rfl, rfl, rfl⟩
  | achievement goal unit value related circumstances => exact ⟨rfl, rfl, rfl, rfl, rfl⟩
  | logged experiment data => exact ⟨rfl, rfl⟩
  | saved h => trivial
  | attached h => trivial
  | registered user => trivial
  | cleared => trivial
  | passed now => trivial

end Cases

/-- What a deed that does not forget adds to the tables. -/
theorem growth
    (h : Happens m d m') (hkeep : d.clears = false) :
    Growth m (m.created d) m' := by
  rcases h.creates_cases hkeep with ⟨hold, hgrowth, -⟩ | ⟨hnew, hgrowth, -⟩
  · rw [created_of_known hold]
    exact hgrowth
  · rw [created_of_new hnew]
    exact hgrowth

/-- A key that is asked for is known afterwards, and those that were known are. -/
theorem knows_eq
    (h : Happens m d m') (hkeep : d.clears = false) (k : RecordKey) :
    m'.knows k = (m.knows k || d.asks k) := by
  have hgrowth := h.growth hkeep
  cases hnew : d.creates m.knows with
  | true =>
      rw [created_of_new hnew] at hgrowth
      rw [hgrowth.knows_eq (by simpa using h.faithful)]
      simp [Chronicle.asked]
  | false =>
      rw [created_of_known hnew] at hgrowth
      rw [hgrowth.knows_eq (by simp)]
      -- Only a key that is known already can be asked for without a record being created.
      have hknown (hasks : d.asks k = true) : m.knows k = true := by
        have hkey : d.key? = some k := by simpa [Deed.asks] using hasks
        have hnumber : d.number?.isSome = true := by
          cases d <;> simp [Deed.key?, Deed.number?] at hkey ⊢
        simpa [Deed.creates, hkey, hnumber] using hnew
      cases hasks : d.asks k with
      | true => simp [hknown hasks]
      | false => simp [Chronicle.asked]

/-- Deeds are operations on a memory. -/
theorem step
    (h : Happens m d m') :
    Step m m' := by
  cases h with
  | experiment name => exact .ensureExperiment name
  | saved h => exact .saveExperiment h
  | variation experiment key value => exact .ensureVariation experiment key value
  | exposure experiment variation unit circumstances =>
      exact .addExposure experiment variation unit circumstances
  | goal name => exact .ensureGoal name
  | attached h => exact .attachGoal h
  | achievement goal unit value related circumstances =>
      exact .addAchievement goal unit value related circumstances
  | logged experiment data => exact .addLog experiment data
  | registered user => exact .putUser user
  | cleared => exact .clear
  | passed now => exact .pass now

theorem variation?_given
    {experiment : UInt64} {key value : String} {v : Variation}
    (h : Happens m (.variation experiment key value v) m') :
    m'.variation? experiment key value = some v := by
  cases h with
  | variation => exact variation?_ensureVariation_self m experiment key value

theorem goalNamed?_given
    {name : String} {g : Goal} (h : Happens m (.goal name g) m') :
    m'.goalNamed? name = some g := by
  cases h with
  | goal => exact goalNamed?_ensureGoal_self m name

end Happens

namespace Course

variable {now : Time} {past : Chronicle}

/-- The records that are given have the data of the calls. -/
theorem faithful
    {start : Memory} (h : Course start past m) :
    ∀ d ∈ past, d.IsFaithful := by
  induction h with
  | nil => simp
  | snoc h hstep ih =>
      intro d hd
      rcases List.mem_append.1 hd with hd | hd
      · exact ih d hd
      · rw [List.mem_singleton.1 hd]
        exact hstep.faithful

/-- A memory knows the keys that were asked for since everything was forgotten. -/
theorem knows_eq
    (h : Course { now } past m) :
    m.knows = past.sinceClear.asked := by
  refine h.induction_since (motive := fun recent m => m.knows = recent.asked) ?_ (fun m => ?_) ?_
  · funext k
    cases k <;> rfl
  · funext k
    cases k <;> rfl
  · intro past m d m' _ hstep hkeep ih
    funext k
    rw [hstep.knows_eq hkeep, ih]
    simp [Chronicle.asked]

/-- The tables hold the records that were created since everything was forgotten. -/
theorem growth
    (h : Course { now } past m) :
    Growth { now } past.sinceClear.creations m := by
  refine h.induction_since (motive := fun recent m => Growth { now } recent.creations m)
    (.of_same rfl now []) (fun m => .of_clear m now) ?_
  intro past m d m' h hstep hkeep ih
  have hmore := ih.trans (hstep.growth hkeep)
  rw [created, h.knows_eq] at hmore
  rw [Chronicle.creations_concat, Chronicle.sinceClear_idem]
  exact hmore

/-- What was given for a key since everything was forgotten is found. -/
theorem variation?_of_mem
    (h : Course { now } past m) {experiment : UInt64} {key value : String} {v : Variation} :
    .variation experiment key value v ∈ past.sinceClear →
      m.variation? experiment key value = some v := by
  refine h.induction_since (motive := fun recent m => .variation experiment key value v ∈ recent →
    m.variation? experiment key value = some v) (by simp) (by simp) ?_
  intro past m d m' _ hstep hkeep ih hmem
  rcases List.mem_append.1 hmem with hmem | hmem
  · exact (hstep.growth hkeep).variation?_of_some (ih hmem)
  · rw [← List.mem_singleton.1 hmem] at hstep
    exact hstep.variation?_given

theorem goalNamed?_of_mem
    (h : Course { now } past m) {name : String} {g : Goal} :
    .goal name g ∈ past.sinceClear → m.goalNamed? name = some g := by
  refine h.induction_since (motive := fun recent m => .goal name g ∈ recent →
    m.goalNamed? name = some g) (by simp) (by simp) ?_
  intro past m d m' _ hstep hkeep ih hmem
  rcases List.mem_append.1 hmem with hmem | hmem
  · exact (hstep.growth hkeep).goalNamed?_of_some (ih hmem)
  · rw [← List.mem_singleton.1 hmem] at hstep
    exact hstep.goalNamed?_given

/-- The counter has gone on by one for each record that was created. -/
theorem nextId_eq
    (h : Course { now } past m) :
    m.nextId = UInt64.ofNat (past.creations.length + 1) := by
  induction h with
  | nil => rfl
  | @snoc past m m' d h hstep ih =>
      rw [Chronicle.creations_concat, ← h.knows_eq]
      cases hclears : d.clears with
      | true =>
          cases hstep with
          | cleared => simpa [Deed.creates, Deed.number?, clear] using ih
          | _ => cases hclears
      | false =>
          rcases hstep.creates_cases hclears with ⟨hold, -, hnext⟩ | ⟨hnew, -, -, hnext⟩
          · rw [hnext, ih, hold]
            simp
          · rw [hnext, ih, hnew]
            simp

/-- A course with numbers for all records leads to a reachable memory. -/
theorem reachable
    (h : Course { now } past m) (hroom : past.creations.length + 1 < UInt64.size) :
    m.Reachable := by
  induction h with
  | nil => exact .new now
  | @snoc past m m' d h hstep ih =>
      have hlater := (h.snoc hstep).nextId_eq
      have hmore : past.creations.length ≤ (Chronicle.creations (past ++ [d])).length := by
        simp [Chronicle.creations_concat]
      refine (ih (by omega)).step hstep.step ?_
      rw [h.nextId_eq, hlater, UInt64.le_iff_toNat_le, UInt64.toNat_ofNat_of_lt' (by omega),
        UInt64.toNat_ofNat_of_lt' hroom]
      omega

/-- The numbers that are given out are those from one on. -/
theorem numbers_eq
    (h : Course { now } past m) :
    past.numbers = (List.range past.creations.length).map fun i => UInt64.ofNat (i + 1) := by
  induction h with
  | nil => rfl
  | @snoc past m m' d h hstep ih =>
      unfold Chronicle.numbers at ih ⊢
      rw [Chronicle.creations_concat, ← h.knows_eq]
      cases hclears : d.clears with
      | true =>
          cases hstep with
          | cleared => simpa [Deed.creates, Deed.number?] using ih
          | _ => cases hclears
      | false =>
          rcases hstep.creates_cases hclears with ⟨hold, -, -⟩ | ⟨hnew, -, hnumber, -⟩
          · simpa [hold] using ih
          · simp [hnew, hnumber, ih, h.nextId_eq, List.range_succ]

/-- The numbers ascend as long as there are words for them. -/
theorem pairwise_numbers
    (h : Course { now } past m) (hroom : past.creations.length + 1 < UInt64.size) :
    past.numbers.Pairwise (· < ·) := by
  rw [h.numbers_eq, List.pairwise_map]
  refine List.pairwise_lt_range.imp_of_mem fun {i j} hi hj hlt => ?_
  have hj := List.mem_range.1 hj
  rw [UInt64.lt_iff_toNat_lt, UInt64.toNat_ofNat_of_lt' (by omega),
    UInt64.toNat_ofNat_of_lt' (by omega)]
  omega

/-- The numbers since everything was forgotten are different as long as there are words for them,
also where the counter starts over. -/
theorem nodup_numbers
    (h : Course { now } past m) (hfits : past.Fits) :
    past.sinceClear.numbers.Nodup := by
  have hlast : past.sinceClear.numbers <:+ past.numbers :=
    (Chronicle.creations_sinceClear_suffix past).filterMap _
  have hlength : past.sinceClear.numbers.length ≤ UInt64.size :=
    Nat.le_trans (List.length_filterMap_le _ _) hfits
  rw [List.suffix_iff_eq_drop] at hlast
  rw [hlast, h.numbers_eq, ← List.map_drop, List.range_eq_range', List.drop_range']
  refine List.Nodup.map_on (fun i hi j hj hij => ?_) (List.nodup_range' _)
  simp only [List.mem_range'_1, List.length_map, List.length_range'] at hi hj
  have hmod : (UInt64.ofNat (i + 1)).toNat = (UInt64.ofNat (j + 1)).toNat :=
    congrArg UInt64.toNat hij
  rw [UInt64.toNat_ofNat', UInt64.toNat_ofNat'] at hmod
  simp only [UInt64.size] at hlength
  omega

end Course

end Memory

end Allotment
