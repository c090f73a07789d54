import Allotment.Proofs.Store.Listings

/-!
# One record for each key

Whatever is done between two clearings, all calls that ask for the record of one key are given the
same record, and calls with different keys are given records with different numbers.  An
experiment is created by the first call for its name, and no later call changes it.

**Results.**
* `variation_inj`, `goal_inj`: records that were given under one number were asked for by one key.
* `goal?_of_mem`: a goal that was given is found by its number.
* `created_iff_first`: an experiment is created by the first call for its name.
* `one_record_per_key`: all of this between two clearings.
-/

namespace Allotment

namespace Memory

variable {now : Time} {past : Chronicle} {m : Memory}

section Numbers

variable (h : Course { now } past m) (hfits : past.Fits)
include h hfits

theorem nodup_variations : (m.variations.map Variation.id).Nodup := by
  rw [h.growth.variations, List.nil_append]
  exact h.distinct (fun d v hv => by cases d <;> simp_all [Deed.variation?, Deed.number?]) hfits

theorem nodup_goals : (m.goals.map Goal.id).Nodup := by
  rw [h.growth.goals, List.nil_append]
  exact h.distinct (fun d g hg => by cases d <;> simp_all [Deed.goal?, Deed.number?]) hfits

/-- Variations that were given under one number were asked for by one key. -/
theorem variation_inj
    {experiment experiment' : UInt64} {key key' value value' : String} {v v' : Variation}
    (hv : .variation experiment key value v ∈ past.sinceClear)
    (hv' : .variation experiment' key' value' v' ∈ past.sinceClear) (hid : v.id = v'.id) :
    experiment = experiment' ∧ key = key' ∧ value = value' := by
  obtain ⟨hmem, hexperiment, hkey, hvalue⟩ := mem_of_variation? (h.variation?_of_mem hv)
  obtain ⟨hmem', hexperiment', hkey', hvalue'⟩ := mem_of_variation? (h.variation?_of_mem hv')
  obtain rfl := List.inj_on_of_nodup_map (nodup_variations h hfits) hmem hmem' hid
  exact ⟨hexperiment.symm.trans hexperiment', hkey.symm.trans hkey', hvalue.symm.trans hvalue'⟩

/-- A goal that was given is found by its number. -/
theorem goal?_of_mem
    {name : String} {g : Goal} (hg : .goal name g ∈ past.sinceClear) :
    m.goal? g.id = some g := by
  exact find?_of_nodup (nodup_goals h hfits) (List.mem_of_find?_eq_some (h.goalNamed?_of_mem hg))

/-- Goals that were given under one number were asked for by one name. -/
theorem goal_inj
    {name name' : String} {g g' : Goal} (hg : .goal name g ∈ past.sinceClear)
    (hg' : .goal name' g' ∈ past.sinceClear) (hid : g.id = g'.id) :
    name = name' := by
  have hsame := goal?_of_mem h hfits hg
  rw [hid, goal?_of_mem h hfits hg'] at hsame
  cases hsame
  have hname : g.name = name := h.faithful _ (Chronicle.mem_of_mem_sinceClear hg)
  have hname' : g.name = name' := h.faithful _ (Chronicle.mem_of_mem_sinceClear hg')
  exact hname.symm.trans hname'

end Numbers

/-- An experiment is created by the first call for its name. -/
theorem created_iff_first
    (h : Course { now } past m) {name : String} {e : Experiment} {created : Bool}
    {before after : Chronicle}
    (hsplit : past.sinceClear = before ++ .experiment name e created :: after) :
    created = true ↔ ∀ e' created', .experiment name e' created' ∉ before := by
  obtain ⟨past', m₁, m₂, rfl, h₁, hstep⟩ := h.exists_moment hsplit
  have hcreated : created = !(m₁.knows (.experiment name)) := by
    cases hstep with
    | experiment =>
        cases hfind : m₁.experiment? name with
        | some e => simp [ensureExperiment_of_some hfind, knows, hfind]
        | none => simp [ensureExperiment_of_none hfind, knows, hfind]
  have hknows : m₁.knows (.experiment name) = true ↔
      ∃ e' created', .experiment name e' created' ∈ past'.sinceClear := by
    rw [h₁.knows_eq, Chronicle.asked, List.any_eq_true]
    constructor
    · rintro ⟨d, hd, hasks⟩
      cases d with
      | experiment name' e' created' =>
          obtain rfl : name' = name := by simpa [Deed.asks, Deed.key?] using hasks
          exact ⟨e', created', hd⟩
      | _ => simp [Deed.asks, Deed.key?] at hasks
    · rintro ⟨e', created', hmem⟩
      exact ⟨_, hmem, by simp [Deed.asks, Deed.key?]⟩
  rw [hcreated, Bool.not_eq_true', ← Bool.not_eq_true, hknows]
  push Not
  rfl

/-- To ask for an experiment leaves those that are there as they are. -/
theorem experiment?_of_ensureExperiment
    {name : String} {e : Experiment} (he : m.experiment? name = some e) (asked : String) :
    (m.ensureExperiment asked).2.experiment? name = some e := by
  rw [experiment?_ensureExperiment]
  split
  · rename_i heq
    rw [← heq, ensureExperiment_of_some he]
  · exact he

/-- Between two clearings of a new memory, all calls that ask for a variation by the same
experiment, variable and label, or for a goal by the same name, are given the same record.  Calls
with different keys are given different numbers, and the goal that was given is the one that is
listed under its number, as long as there are numbers for the records between the two clearings.
An experiment is created exactly by the first call for its name, and a call for an experiment leaves
those that are there as they are. -/
theorem one_record_per_key
    (h : Course { now } past m) :
    let recent := past.sinceClear
    (∀ experiment key value v v', .variation experiment key value v ∈ recent →
      .variation experiment key value v' ∈ recent → v = v') ∧
    (∀ name g g', .goal name g ∈ recent → .goal name g' ∈ recent → g = g') ∧
    (past.Fits →
      (∀ experiment key value v experiment' key' value' v',
        .variation experiment key value v ∈ recent →
        .variation experiment' key' value' v' ∈ recent → v.id = v'.id →
        experiment = experiment' ∧ key = key' ∧ value = value') ∧
      (∀ name g name' g', .goal name g ∈ recent → .goal name' g' ∈ recent → g.id = g'.id →
        name = name') ∧
      ∀ name g experiment e goals, .goal name g ∈ recent → m.experimentById experiment = .ok e →
        (Store.goals experiment : StoreM Memory _) m = .ok goals m →
        (g.id ∈ e.goalIds → g ∈ goals) ∧ ∀ shown ∈ goals, shown.id = g.id → shown = g) ∧
    (∀ before name e created after, recent = before ++ .experiment name e created :: after →
      (created = true ↔ ∀ e' created', .experiment name e' created' ∉ before)) ∧
    ∀ name e, m.experiment? name = some e →
      (Store.ensureExperiment name : StoreM Memory _) m = .ok (e, false) m ∧
      ∀ asked, (m.ensureExperiment asked).2.experiment? name = some e := by
  refine ⟨?_, ?_, fun hfits => ⟨?_, ?_, ?_⟩, ?_, ?_⟩
  · intro experiment key value v v' hv hv'
    exact Option.some.inj ((h.variation?_of_mem hv).symm.trans (h.variation?_of_mem hv'))
  · intro name g g' hg hg'
    exact Option.some.inj ((h.goalNamed?_of_mem hg).symm.trans (h.goalNamed?_of_mem hg'))
  · intro experiment key value v experiment' key' value' v' hv hv' hid
    exact variation_inj h hfits hv hv' hid
  · intro name g name' g' hg hg' hid
    exact goal_inj h hfits hg hg' hid
  · intro name g experiment e goals hg he hgoals
    have hfind := goal?_of_mem h hfits hg
    have hlist := goals_apply he
    rw [hgoals] at hlist
    cases hlist
    refine ⟨fun hmem => List.mem_filterMap.2 ⟨g.id, hmem, hfind⟩, ?_⟩
    intro shown hshown hid
    obtain ⟨id, -, hshown⟩ := List.mem_filterMap.1 hshown
    have hnumber : shown.id = id := by simpa using List.find?_some hshown
    rw [← hnumber, hid, hfind] at hshown
    exact (Option.some.inj hshown).symm
  · intro before name e created after hsplit
    exact created_iff_first h hsplit
  · intro name e he
    exact ⟨ensureExperiment_apply_of_some he, experiment?_of_ensureExperiment he⟩

section Sample

/-- A goal and a variation are asked for twice at different times, and an experiment is, to which
the goal is attached in between. -/
def sampleAsked : Chronicle :=
  [.experiment "shop" (.new 1 "shop" ⟨0, 0⟩) true,
    .goal "buy" ⟨2, "buy", ""⟩,
    .variation 1 "color" "red" ⟨3, 1, "color", "red", ⟨0, 0⟩⟩,
    .attached 1 2,
    .passed ⟨5, 0⟩,
    .variation 1 "color" "red" ⟨3, 1, "color", "red", ⟨0, 0⟩⟩,
    .goal "buy" ⟨2, "buy", ""⟩,
    .experiment "shop" { Experiment.new 1 "shop" ⟨0, 0⟩ with goalIds := [2] } false]

/-- The memory after that. -/
def sampleKnown : Memory where
  now := ⟨5, 0⟩
  nextId := 4
  experiments := [{ Experiment.new 1 "shop" ⟨0, 0⟩ with goalIds := [2] }]
  names := [(1, "shop")]
  variations := [⟨3, 1, "color", "red", ⟨0, 0⟩⟩]
  goals := [⟨2, "buy", ""⟩]

theorem sampleKnown_course :
    Course { now := ⟨0, 0⟩ } sampleAsked sampleKnown := by
  let before : Memory :=
    { sampleKnown with now := ⟨0, 0⟩, experiments := [Experiment.new 1 "shop" ⟨0, 0⟩] }
  have hbefore : Course { now := ⟨0, 0⟩ } (sampleAsked.take 3) before :=
    ((Course.nil.snoc (.experiment "shop")).snoc (.goal "buy")).snoc (.variation 1 "color" "red")
  have hattach : before.attachGoal 1 2 = .ok { sampleKnown with now := ⟨0, 0⟩ } := by
    rfl
  exact ((((hbefore.snoc (.attached hattach)).snoc (.passed ⟨5, 0⟩)).snoc
    (.variation 1 "color" "red")).snoc (.goal "buy")).snoc (.experiment "shop")

/-- What was given first is given again. -/
theorem sample_one_record :
    sampleAsked.Fits ∧
    (∀ v, .variation 1 "color" "red" v ∈ sampleAsked.sinceClear →
      v = ⟨3, 1, "color", "red", ⟨0, 0⟩⟩) ∧
    (Store.goals 1 : StoreM Memory _) sampleKnown = .ok [⟨2, "buy", ""⟩] sampleKnown ∧
    ¬ ∀ e created, .experiment "shop" e created ∉ sampleAsked.take 7 := by
  obtain ⟨hvariations, -, hnumbers, hfirst, -⟩ := one_record_per_key sampleKnown_course
  have hfits : sampleAsked.Fits := by
    unfold Chronicle.Fits
    decide
  obtain ⟨-, -, hlisted⟩ := hnumbers hfits
  have hgoals : (Store.goals 1 : StoreM Memory _) sampleKnown =
      .ok [⟨2, "buy", ""⟩] sampleKnown := by
    rfl
  refine ⟨hfits, fun v hv => ?_, hgoals, fun hnone => ?_⟩
  · refine hvariations 1 "color" "red" v _ hv ?_
    simp [sampleAsked, Chronicle.sinceClear, Deed.clears]
  · have hcreated := (hfirst (sampleAsked.take 7) "shop"
      { Experiment.new 1 "shop" ⟨0, 0⟩ with goalIds := [2] } false [] rfl).2 hnone
    cases hcreated

end Sample

end Memory

end Allotment
