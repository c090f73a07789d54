import Mathlib.Data.List.Nodup
import Allotment.Proofs.Store.Upserts

/-!
# Reachable memories

A memory comes from the empty one by the operations of the store.  As long as the counter of
the numbers does not start over, no two variations have the same number.

A recording adds variations and exposures only.  The counter goes on by one for each of them,
so the number of records that are added tells whether it starts over.

**Results.**
* `Reachable.numbered`: the variations of a reachable memory have numbers of their own.
* `Reachable.recorded`: a memory stays reachable by recordings for which there are numbers left.
-/

namespace Allotment

namespace Memory

/-- One operation on a memory. -/
inductive Step : Memory → Memory → Prop
  | ensureExperiment {m : Memory} (name : String) : Step m (m.ensureExperiment name).2
  | saveExperiment {m m' : Memory} {e : Experiment} (h : m.saveExperiment e = .ok m') : Step m m'
  | ensureVariation {m : Memory} (experiment : UInt64) (key value : String) :
      Step m (m.ensureVariation experiment key value).2
  | addExposure {m : Memory} (experiment variation : UInt64) (unit : Subject)
      (circumstances : EventMeta) :
      Step m (m.addExposure experiment variation unit circumstances).2
  | ensureGoal {m : Memory} (name : String) : Step m (m.ensureGoal name).2
  | attachGoal {m m' : Memory} {experiment goal : UInt64}
      (h : m.attachGoal experiment goal = .ok m') : Step m m'
  | addAchievement {m : Memory} (goal : UInt64) (unit : Subject) (value : Float)
      (related : Option Related) (circumstances : EventMeta) :
      Step m (m.addAchievement goal unit value related circumstances).2
  | addLog {m : Memory} (experiment : UInt64) (data : Json) : Step m (m.addLog experiment data).2
  | putUser {m : Memory} (u : User) : Step m (m.putUser u)
  | clear {m : Memory} : Step m m.clear
  | pass {m : Memory} (now : Time) : Step m { m with now }

/-- The memory comes from an empty one by operations, and the counter has not started over. -/
inductive Reachable : Memory → Prop
  | new (now : Time) : Reachable { now }
  | step {m m' : Memory} (h : Reachable m) (hstep : Step m m') (hcount : m.nextId ≤ m'.nextId) :
      Reachable m'

/-- The variations have numbers of their own, which were given out before. -/
structure Numbered (m : Memory) : Prop where
  /-- The numbers were given out before. -/
  below : ∀ v ∈ m.variations, v.id < m.nextId
  /-- No two variations have the same number. -/
  distinct : (m.variations.map Variation.id).Nodup

namespace Numbered

variable {m m' : Memory}

/-- The variations of another memory, of which none is new, have numbers of their own too. -/
theorem of_sublist
    (h : m.Numbered) (hsub : m'.variations.Sublist m.variations) (hcount : m.nextId ≤ m'.nextId) :
    m'.Numbered where
  below v hv := UInt64.lt_of_lt_of_le (h.below v (hsub.subset hv)) hcount
  distinct := (hsub.map Variation.id).nodup h.distinct

theorem ensureVariation
    (h : m.Numbered) (experiment : UInt64) (key value : String)
    (hcount : m.nextId ≤ (m.ensureVariation experiment key value).2.nextId) :
    (m.ensureVariation experiment key value).2.Numbered := by
  cases hfind : m.variation? experiment key value with
  | some w =>
      rw [ensureVariation_of_some hfind]
      exact h
  | none =>
      rw [ensureVariation_of_none hfind] at hcount ⊢
      have hlt : m.nextId < m.nextId + 1 := by
        simp only [UInt64.le_iff_toNat_le, UInt64.lt_iff_toNat_lt, UInt64.toNat_add] at hcount ⊢
        have := m.nextId.toNat_lt
        simp at hcount ⊢
        omega
      refine ⟨fun v hv => ?_, ?_⟩
      · rcases List.mem_append.1 hv with hv | hv
        · exact UInt64.lt_trans (h.below v hv) hlt
        · cases List.mem_singleton.1 hv
          exact hlt
      · rw [List.map_append]
        refine List.nodup_append.2 ⟨h.distinct, by simp, ?_⟩
        intro i hi j hj
        obtain ⟨v, hv, rfl⟩ := List.mem_map.1 hi
        simp only [List.map_cons, List.map_nil, List.mem_singleton] at hj
        subst hj
        exact fun heq => UInt64.lt_irrefl m.nextId (heq ▸ h.below v hv)

/-- Variations with the same number are found under the same experiment, variable and label. -/
theorem variation?_inj
    (h : m.Numbered) {experiment experiment' : UInt64} {key key' value value' : String}
    {v w : Variation} (hv : m.variation? experiment key value = some v)
    (hw : m.variation? experiment' key' value' = some w) (hid : v.id = w.id) :
    experiment = experiment' ∧ key = key' ∧ value = value' := by
  obtain ⟨hmemv, hve, hvk, hvv⟩ := mem_of_variation? hv
  obtain ⟨hmemw, hwe, hwk, hwv⟩ := mem_of_variation? hw
  have heq : v = w := by
    exact List.inj_on_of_nodup_map h.distinct hmemv hmemw hid
  subst heq
  exact ⟨hve.symm.trans hwe, hvk.symm.trans hwk, hvv.symm.trans hwv⟩

/-- An operation leaves the variations with numbers of their own. -/
theorem step
    (h : m.Numbered) (hstep : Step m m') (hcount : m.nextId ≤ m'.nextId) :
    m'.Numbered := by
  have hkeep : m'.variations = m.variations → m'.Numbered := fun heq =>
    h.of_sublist (heq ▸ List.Sublist.refl _) hcount
  cases hstep with
  | ensureExperiment name =>
      refine hkeep ?_
      unfold ensureExperiment
      split <;> rfl
  | saveExperiment hsave =>
      refine hkeep ?_
      unfold saveExperiment at hsave
      split at hsave
      · cases hsave
        rfl
      · cases hsave
  | ensureVariation experiment key value => exact h.ensureVariation experiment key value hcount
  | addExposure experiment variation unit circumstances => exact hkeep rfl
  | ensureGoal name =>
      refine hkeep ?_
      unfold ensureGoal
      split <;> rfl
  | attachGoal hattach =>
      refine hkeep ?_
      unfold attachGoal at hattach
      split at hattach
      · cases hattach
      · split at hattach
        · cases hattach
        · cases hattach
          rfl
  | addAchievement goal unit value related circumstances => exact hkeep rfl
  | addLog experiment data => exact hkeep rfl
  | putUser u => exact hkeep rfl
  | clear => exact h.of_sublist (List.nil_sublist _) hcount
  | pass now => exact hkeep rfl

end Numbered

/-- The variations of a reachable memory have numbers of their own. -/
theorem Reachable.numbered
    {m : Memory} (h : Reachable m) :
    m.Numbered := by
  induction h with
  | new now => exact ⟨by simp, by simp⟩
  | step h hstep hcount ih => exact ih.step hstep hcount

/-- The variations and exposures of a memory. -/
def recordCount (m : Memory) : Nat := m.variations.length + m.exposures.length

/-- The second memory comes from the first by recordings, between which time may pass. -/
inductive Recorded (m : Memory) : Memory → Prop
  | refl : Recorded m m
  | ensureVariation {m' : Memory} (h : Recorded m m') (experiment : UInt64) (key value : String) :
      Recorded m (m'.ensureVariation experiment key value).2
  | addExposure {m' : Memory} (h : Recorded m m') (experiment variation : UInt64)
      (unit : Subject) (circumstances : EventMeta) :
      Recorded m (m'.addExposure experiment variation unit circumstances).2
  | pass {m' : Memory} (h : Recorded m m') (now : Time) : Recorded m { m' with now }

namespace Recorded

variable {m m' m'' : Memory}

theorem trans
    (h : Recorded m m') (h' : Recorded m' m'') :
    Recorded m m'' := by
  induction h' with
  | refl => exact h
  | ensureVariation _ experiment key value ih => exact ih.ensureVariation experiment key value
  | addExposure _ experiment variation unit circumstances ih =>
      exact ih.addExposure experiment variation unit circumstances
  | pass _ now ih => exact ih.pass now

/-- What was found is found after a recording. -/
theorem variation?_of_some
    (h : Recorded m m') {experiment : UInt64} {key value : String} {w : Variation}
    (hw : m.variation? experiment key value = some w) :
    m'.variation? experiment key value = some w := by
  induction h with
  | refl => exact hw
  | ensureVariation _ experiment' key' value' ih => exact variation?_ensureVariation_of_some ih
  | addExposure _ experiment' variation unit circumstances ih => exact ih
  | pass _ now ih => exact ih

/-- A variation that is asked for is one record more and takes one number, or neither. -/
theorem ensureVariation_count
    (m : Memory) (experiment : UInt64) (key value : String) :
    let m' := (m.ensureVariation experiment key value).2
    m'.recordCount = m.recordCount ∧ m'.nextId = m.nextId ∨
      m'.recordCount = m.recordCount + 1 ∧ m'.nextId = m.nextId + 1 := by
  cases h : m.variation? experiment key value with
  | some w =>
      rw [ensureVariation_of_some h]
      exact .inl ⟨rfl, rfl⟩
  | none =>
      rw [ensureVariation_of_none h]
      refine .inr ⟨?_, rfl⟩
      simp only [recordCount, List.length_append, List.length_singleton]
      omega

/-- The counter goes on by one for each record that is added. -/
theorem count
    (h : Recorded m m') :
    m.recordCount ≤ m'.recordCount ∧
      m'.nextId = m.nextId + UInt64.ofNat (m'.recordCount - m.recordCount) := by
  have hsucc : ∀ {a b : Memory}, b.recordCount = a.recordCount + 1 → b.nextId = a.nextId + 1 →
      m.recordCount ≤ a.recordCount →
      a.nextId = m.nextId + UInt64.ofNat (a.recordCount - m.recordCount) →
      b.nextId = m.nextId + UInt64.ofNat (b.recordCount - m.recordCount) := by
    intro a b hcount hnext hle heq
    rw [hnext, heq, hcount, Nat.sub_add_comm hle, UInt64.ofNat_add, UInt64.add_assoc]
    rfl
  induction h with
  | refl => simp
  | ensureVariation _ experiment key value ih =>
      obtain ⟨hle, heq⟩ := ih
      rcases ensureVariation_count _ experiment key value with ⟨hcount, hnext⟩ | ⟨hcount, hnext⟩
      · rw [hcount, hnext]
        exact ⟨hle, heq⟩
      · exact ⟨by omega, hsucc hcount hnext hle heq⟩
  | @addExposure a _ experiment variation unit circumstances ih =>
      obtain ⟨hle, heq⟩ := ih
      have hcount : (a.addExposure experiment variation unit circumstances).2.recordCount =
          a.recordCount + 1 := by
        simp only [recordCount, Memory.addExposure, List.length_append, List.length_singleton]
        omega
      exact ⟨by omega, hsucc hcount rfl hle heq⟩
  | pass _ now ih => exact ih

/-- If there are numbers for all records, the counter has not started over. -/
theorem nextId_toNat
    (h : Recorded m m') (hroom : m.nextId.toNat + (m'.recordCount - m.recordCount) < UInt64.size) :
    m'.nextId.toNat = m.nextId.toNat + (m'.recordCount - m.recordCount) := by
  have hlt : m'.recordCount - m.recordCount < UInt64.size := by omega
  rw [h.count.2, UInt64.toNat_add, UInt64.toNat_ofNat_of_lt' hlt, Nat.mod_eq_of_lt hroom]

/-- If there are numbers for two recordings, the counter has not started over between them. -/
theorem nextId_le
    (h : Recorded m m') (h' : Recorded m' m'')
    (hroom : m.nextId.toNat + (m''.recordCount - m.recordCount) < UInt64.size) :
    m.nextId.toNat + (m'.recordCount - m.recordCount) < UInt64.size ∧ m'.nextId ≤ m''.nextId := by
  have hle := h'.count.1
  have hroom' : m.nextId.toNat + (m'.recordCount - m.recordCount) < UInt64.size := by omega
  refine ⟨hroom', ?_⟩
  rw [UInt64.le_iff_toNat_le, h.nextId_toNat hroom', (h.trans h').nextId_toNat hroom]
  omega

end Recorded

/-- A memory stays reachable by recordings that there are numbers for. -/
theorem Reachable.recorded
    {m m' : Memory} (h : Reachable m) (hrec : Recorded m m')
    (hroom : m.nextId.toNat + (m'.recordCount - m.recordCount) < UInt64.size) :
    Reachable m' := by
  induction hrec with
  | refl => exact h
  | ensureVariation hrec experiment key value ih =>
      obtain ⟨hroom', hcount⟩ :=
        hrec.nextId_le (Recorded.refl.ensureVariation experiment key value) hroom
      exact (ih hroom').step (.ensureVariation experiment key value) hcount
  | addExposure hrec experiment variation unit circumstances ih =>
      obtain ⟨hroom', hcount⟩ :=
        hrec.nextId_le (Recorded.refl.addExposure experiment variation unit circumstances) hroom
      exact (ih hroom').step (.addExposure experiment variation unit circumstances) hcount
  | pass hrec now ih => exact (ih hroom).step (.pass now) (UInt64.le_refl _)

end Memory

end Allotment
