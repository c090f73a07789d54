import Allotment.Proofs.Stateful
import Allotment.Proofs.Store.Listings
import Allotment.Proofs.Store.OnePerKey
import Allotment.Results
import Mathlib.Data.List.Forall2

/-!
# Results of an experiment

The results of an experiment load the achievements of a goal once and share them among the
variations.  The totals of a variation for a goal load both kinds of events for each pair.  On a
memory both come to the same, for every goal that is listed and every variation.

**Results.**
* `Memory.forGoals_apply`: the table is made of the totals of every pair.
* `Memory.results_complete`: the table has one entry for each goal and, in it, one row for each
  variation, which tells the totals of the two.
-/

namespace Allotment

open Stateful

/-- The row tells the totals of a variation for a goal. -/
structure Outcome.Tells (row : Outcome) (v : Variation) (g : Goal) (now : Time) (t : Totals) :
    Prop where
  experimentId : row.experimentId = v.experimentId
  goalId : row.goalId = g.id
  variationId : row.variationId = v.id
  exposures : row.exposures = t.exposures
  achievements : row.achievements = t.achievements
  value : row.value = t.value
  computedAt : row.computedAt = now
  rate : row.rate = t.rate
  percentage : row.percentage = t.percentage
  /-- Without exposures the rate is zero. -/
  unexposed : t.exposures = 0 → row.rate = 0.0

theorem Totals.outcome_tells (t : Totals) (v : Variation) (g : Goal) (now : Time) :
    (t.outcome v g now).Tells v g now t where
  experimentId := rfl
  goalId := rfl
  variationId := rfl
  exposures := rfl
  achievements := rfl
  value := rfl
  computedAt := rfl
  rate := rfl
  percentage := rfl
  unexposed h := if_pos h

namespace Memory

/-- The totals of a variation for a goal. -/
def totals (m : Memory) (v : Variation) (g : Goal) : Totals :=
  .ofEvents (m.exposuresOf v.id) (m.achievementsOf g.id)

/-- The rows of some variations for a goal. -/
def rows (m : Memory) (listed : List Variation) (now : Time) (g : Goal) : List Outcome :=
  listed.map fun v => (m.totals v g).outcome v g now

variable {m : Memory} {experiment : UInt64}

theorem compute_apply (m : Memory) (v : Variation) (g : Goal) :
    (Totals.compute v g : StoreM Memory _) m = .ok (m.totals v g) m := by
  rfl

/-- The achievements that are shared are those that each pair would load. -/
theorem ofVariations_apply (m : Memory) (g : Goal) (now : Time) (listed : List Variation) :
    (Results.ofVariations g (m.achievementsOf g.id) now listed : StoreM Memory _) m =
      .ok (m.rows listed now g) m := by
  induction listed with
  | nil => rfl
  | cons v listed ih =>
      have hexposures : (Store.exposures v.id : StoreM Memory _) m =
          .ok (m.exposuresOf v.id) m := rfl
      exact (bind_of_ok hexposures _).trans (bind_of_ok ih _)

theorem forGoal_apply (m : Memory) (experiment : UInt64) (now : Time) (g : Goal) :
    (Results.forGoal experiment now g : StoreM Memory _) m =
      .ok (m.rows (m.variationsOf experiment) now g) m :=
  ofVariations_apply m g now (m.variationsOf experiment)

theorem forGoals_apply (m : Memory) (experiment : UInt64) (now : Time) (goals : List Goal) :
    (Results.forGoals experiment now goals : StoreM Memory _) m =
      .ok (goals.map fun g => (g, m.rows (m.variationsOf experiment) now g)) m := by
  induction goals with
  | nil => rfl
  | cons g goals ih =>
      exact (bind_of_ok (forGoal_apply m experiment now g) _).trans
        (bind_of_ok ih _)

theorem rows_tell (m : Memory) (listed : List Variation) (now : Time) (g : Goal) :
    List.Forall₂
      (fun v row => ∃ t, (Totals.compute v g : StoreM Memory _) m = .ok t m ∧
        row.Tells v g now t)
      listed (m.rows listed now g) := by
  refine List.forall₂_map_right_iff.2 (List.forall₂_same.2 fun v _ => ?_)
  exact ⟨m.totals v g, compute_apply m v g, (m.totals v g).outcome_tells v g now⟩

/-- The variations of an experiment are listed as they were created, each once. -/
theorem Course.variationsOf_eq
    {start : Time} {past : Chronicle} (h : Course { now := start } past m) (experiment : UInt64) :
    m.variationsOf experiment =
        (past.sinceClear.creations.filterMap Deed.variation?).filter
          (fun v => v.experimentId = experiment) ∧
      (past.Fits → ((m.variationsOf experiment).map Variation.id).Nodup) := by
  obtain ⟨hvariations, -⟩ := h.growth
  rw [List.nil_append] at hvariations
  have hnumber : ∀ d v, Deed.variation? d = some v → d.number? = some (Variation.id v) := by
    intro d v hv
    cases d <;> simp_all [Deed.variation?, Deed.number?]
  unfold variationsOf
  rw [hvariations]
  refine ⟨rfl, fun hfits => ?_⟩
  exact (h.distinct hnumber hfits).sublist (List.filter_sublist.map _)

/-- The results of an experiment that is known have one entry for each of its goals, in the order
in which they are listed, and in it one row for each of its variations, in the order of their
creation.  Each row tells the totals of its variation for its goal. -/
theorem results_complete
    {e : Experiment} (h : m.experimentById experiment = .ok e) (now : Time) :
    ∃ goals listed table,
      (Store.goals experiment : StoreM Memory _) m = .ok goals m ∧
      (Store.variations experiment : StoreM Memory _) m = .ok listed m ∧
      (Results.ofExperiment experiment now : StoreM Memory _) m = .ok table m ∧
      List.Forall₂
        (fun g entry => entry.1 = g ∧
          List.Forall₂
            (fun v row => ∃ t, (Totals.compute v g : StoreM Memory _) m = .ok t m ∧
              row.Tells v g now t)
            listed entry.2)
        goals table ∧
      (∀ v ∈ listed, v.experimentId = experiment) ∧
      ∀ (start : Time) (past : Chronicle), Course { now := start } past m →
        listed = (past.sinceClear.creations.filterMap Deed.variation?).filter
          (fun v => v.experimentId = experiment) ∧
        (past.Fits → (listed.map Variation.id).Nodup) := by
  have hgoals := goals_apply h
  refine ⟨e.goalIds.filterMap m.goal?, m.variationsOf experiment, _, hgoals, rfl,
    (bind_of_ok hgoals _).trans (forGoals_apply m experiment now _), ?_, ?_, ?_⟩
  · refine List.forall₂_map_right_iff.2 (List.forall₂_same.2 fun g _ => ?_)
    exact ⟨rfl, rows_tell m (m.variationsOf experiment) now g⟩
  · intro v hv
    simpa using (List.mem_filter.1 hv).2
  · intro start past hcourse
    exact hcourse.variationsOf_eq experiment

section Sample

/-- Who is exposed to the first one of two variations, and buys. -/
def sampleBuyer : Subject := .external "ann" "name"

/-- A memory with two variations of an experiment, of which only one was ever shown. -/
def sampleSold : Memory where
  now := ⟨5, 0⟩
  nextId := 7
  experiments := [{ Experiment.new 1 "shop" ⟨0, 0⟩ with goalIds := [2] }]
  names := [(1, "shop")]
  variations := [⟨3, 1, "color", "red", ⟨0, 0⟩⟩, ⟨4, 1, "color", "blue", ⟨5, 0⟩⟩]
  goals := [⟨2, "buy", ""⟩]
  exposures := [⟨5, 1, 3, sampleBuyer, { seenAt := ⟨5, 0⟩ }⟩]
  achievements := [⟨6, 2, sampleBuyer, 1.0, none, { seenAt := ⟨5, 0⟩ }⟩]

theorem sampleSold_course :
    ∃ past, Course { now := ⟨0, 0⟩ } past sampleSold ∧ past.Fits := by
  have hcourse := ((sampleKnown_course.snoc (.variation 1 "color" "blue")).snoc
    (.exposure 1 3 sampleBuyer { seenAt := ⟨5, 0⟩ })).snoc
    (.achievement 2 sampleBuyer 1.0 none { seenAt := ⟨5, 0⟩ })
  refine ⟨_, hcourse, ?_⟩
  unfold Chronicle.Fits
  decide

/-- The table has a row for each variation, also for the one that was not shown. -/
theorem sample_results :
    ∃ e red blue,
      sampleSold.experimentById 1 = .ok e ∧
      (Results.ofExperiment 1 ⟨9, 0⟩ : StoreM Memory _) sampleSold =
        .ok [(⟨2, "buy", ""⟩, [red, blue])] sampleSold ∧
      (red.exposures = 1 ∧ red.achievements = 1 ∧ red.variationId = 3) ∧
      (blue.exposures = 0 ∧ blue.rate = 0.0 ∧ blue.variationId = 4) ∧
      (sampleSold.variations.map Variation.id).Nodup := by
  have h : sampleSold.experimentById 1 =
      .ok { Experiment.new 1 "shop" ⟨0, 0⟩ with goalIds := [2] } := rfl
  have hgoals : (Store.goals 1 : StoreM Memory _) sampleSold =
      .ok [⟨2, "buy", ""⟩] sampleSold := rfl
  have hlisted : (Store.variations 1 : StoreM Memory _) sampleSold =
      .ok sampleSold.variations sampleSold := rfl
  obtain ⟨goals, listed, table, hgoals', hlisted', htable, hentries, -, hcourses⟩ :=
    results_complete h ⟨9, 0⟩
  cases hgoals.symm.trans hgoals'
  cases hlisted.symm.trans hlisted'
  obtain ⟨past, hcourse, hfits⟩ := sampleSold_course
  have hnodup := (hcourses ⟨0, 0⟩ past hcourse).2 hfits
  obtain ⟨⟨g, entries⟩, _, ⟨rfl, hrows⟩, hend, rfl⟩ := List.forall₂_cons_left_iff.1 hentries
  cases hend
  obtain ⟨red, _, ⟨t, ht, hred⟩, hrest, rfl⟩ := List.forall₂_cons_left_iff.1 hrows
  obtain ⟨blue, _, ⟨t', ht', hblue⟩, hend, rfl⟩ := List.forall₂_cons_left_iff.1 hrest
  cases hend
  cases ht
  cases ht'
  exact ⟨_, red, blue, h, htable,
    ⟨hred.exposures.trans rfl, hred.achievements.trans rfl, hred.variationId⟩,
    ⟨hblue.exposures.trans rfl, hblue.unexposed rfl, hblue.variationId⟩, hnodup⟩

end Sample

end Memory

end Allotment
