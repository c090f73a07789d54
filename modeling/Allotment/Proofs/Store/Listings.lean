import Allotment.Proofs.Store.Recall
import Mathlib.Data.List.Sort

/-!
# Listings and history

The listings of a memory show what its history tells: of the records that were created since
everything was forgotten, those that are asked for, in the order of their creation.  The numbers
of the records ascend in this order, so it does not matter how the tables are kept as long as what
is read from them is sorted by number.

**Results.**
* `shows_of_ascending`: what is read from a table and sorted by number.
* `Course.ascending`, `Course.distinct`: the numbers of the records of a kind.
* `listings_of_course`: the listings show the history.
-/

namespace Allotment

namespace Chronicle

variable {α : Type}

/-- What is read from each deed in one way is among what is read in another way that gives the
same and perhaps more. -/
theorem filterMap_sublist
    {f g : Deed → Option α} (h : ∀ d a, f d = some a → g d = some a) (past : Chronicle) :
    (past.filterMap f).Sublist (past.filterMap g) := by
  induction past with
  | nil => exact .slnil
  | cons d past ih =>
      rw [List.filterMap_cons, List.filterMap_cons]
      cases hf : f d with
      | some a =>
          rw [h d a hf]
          exact ih.cons_cons a
      | none =>
          cases g d with
          | none => exact ih
          | some a => exact ih.cons a

/-- The numbers of the records of one kind are among the numbers of all. -/
theorem map_sublist_numbers
    {record? : Deed → Option α} {number : α → UInt64}
    (hnumber : ∀ d a, record? d = some a → d.number? = some (number a)) (past : Chronicle) :
    ((past.creations.filterMap record?).map number).Sublist past.numbers := by
  rw [List.map_filterMap]
  refine filterMap_sublist (fun d n hn => ?_) past.creations
  obtain ⟨a, ha, rfl⟩ := Option.map_eq_some_iff.1 hn
  exact hnumber d a ha

end Chronicle

namespace Memory

variable {α : Type} {now : Time} {past : Chronicle} {m : Memory}

/-- A record is found by its key in a table that has each key once. -/
theorem find?_of_nodup
    {κ : Type} [DecidableEq κ] {key : α → κ} {table : List α} (h : (table.map key).Nodup) {a : α}
    (ha : a ∈ table) :
    table.find? (fun x => key x = key a) = some a := by
  cases hfind : table.find? fun x => key x = key a with
  | none => simpa using List.find?_eq_none.1 hfind a ha
  | some b =>
      have hkey : key b = key a := by simpa using List.find?_some hfind
      rw [List.inj_on_of_nodup_map h (List.mem_of_find?_eq_some hfind) ha hkey]

/-- In whatever order a table is kept, what passes a test is this when it is sorted by number. -/
def Shows (number : α → UInt64) (table : List α) (test : α → Bool) (records : List α) : Prop :=
  ∀ kept : List α, kept.Perm table →
    (kept.filter test).mergeSort (fun a b => number a ≤ number b) = records

/-- A table with ascending numbers shows what passes a test in its own order. -/
theorem shows_of_ascending
    {number : α → UInt64} {table : List α} (h : (table.map number).Pairwise (· < ·))
    (test : α → Bool) :
    Shows number table test (table.filter test) := by
  intro kept hkept
  have hperm : ((kept.filter test).mergeSort fun a b => number a ≤ number b).Perm
      (table.filter test) :=
    (List.mergeSort_perm _ _).trans (hkept.filter test)
  have hsorted : ((kept.filter test).mergeSort fun a b => number a ≤ number b).Pairwise
      fun a b => decide (number a ≤ number b) = true :=
    List.pairwise_mergeSort
      (fun a b c hab hbc => by
        simp only [decide_eq_true_eq] at hab hbc ⊢
        exact UInt64.le_trans hab hbc)
      (fun a b => by simpa using UInt64.le_total (number a) (number b)) (kept.filter test)
  have htable : (table.filter test).Pairwise fun a b => number a < number b :=
    (List.pairwise_map.1 h).filter test
  refine hperm.eq_of_pairwise (fun a b ha hb hab hba => ?_) hsorted
    (htable.imp fun hlt => by simpa using UInt64.le_of_lt hlt)
  -- Records with the same number are the same, so sorting leaves no choice.
  simp only [decide_eq_true_eq] at hab hba
  exact List.inj_on_of_nodup_map (h.imp UInt64.ne_of_lt) (List.mem_of_mem_filter (hperm.subset ha))
    (List.mem_of_mem_filter hb) (UInt64.le_antisymm hab hba)

section Kind

variable {record? : Deed → Option α} {number : α → UInt64}
  (hnumber : ∀ d a, record? d = some a → d.number? = some (number a))
include hnumber

/-- The records of a kind have ascending numbers, as long as there are words for them. -/
theorem Course.ascending
    (h : Course { now } past m) (hroom : past.creations.length + 1 < UInt64.size) :
    ((past.sinceClear.creations.filterMap record?).map number).Pairwise (· < ·) := by
  have hlast : past.sinceClear.numbers.Sublist past.numbers :=
    (Chronicle.creations_sinceClear_suffix past).sublist.filterMap _
  exact (h.pairwise_numbers hroom).sublist
    ((Chronicle.map_sublist_numbers hnumber past.sinceClear).trans hlast)

/-- The records of a kind have numbers of their own, as long as there are words for those that were
created since everything was forgotten. -/
theorem Course.distinct
    (h : Course { now } past m) (hfits : past.Fits) :
    ((past.sinceClear.creations.filterMap record?).map number).Nodup :=
  (Chronicle.map_sublist_numbers hnumber past.sinceClear).nodup (h.nodup_numbers hfits)

/-- A table of the records that were created of one kind shows those that pass a test. -/
theorem Course.shows
    (h : Course { now } past m) (hroom : past.creations.length + 1 < UInt64.size) {table : List α}
    (htable : table = past.sinceClear.creations.filterMap record?) (test : α → Bool) :
    Shows number table test ((past.sinceClear.creations.filterMap record?).filter test) := by
  rw [htable]
  exact shows_of_ascending (h.ascending hnumber hroom) test

end Kind

/-- After any course of a new memory in which fewer than 2^64 - 1 numbers are given out, each
listing shows, of the records that were created since everything was forgotten, exactly those that
are asked for, unaltered and in the order of their creation.  The numbers of all creations ascend,
also where everything is forgotten between them. -/
theorem listings_of_course
    (h : Course { now } past m) (hroom : past.creations.length + 1 < UInt64.size) :
    let created := past.sinceClear.creations
    (∀ variation,
      let shown := (created.filterMap Deed.exposure?).filter fun x => x.variationId = variation
      (Store.exposures variation : StoreM Memory _) m = .ok shown m ∧
        Shows Exposure.id m.exposures (fun x => x.variationId = variation) shown) ∧
    (∀ goal,
      let shown := (created.filterMap Deed.achievement?).filter fun a => a.goalId = goal
      (Store.achievements goal : StoreM Memory _) m = .ok shown m ∧
        Shows Achievement.id m.achievements (fun a => a.goalId = goal) shown) ∧
    (∀ experiment,
      let shown := (created.filterMap Deed.entry?).filter fun l => l.experimentId = experiment
      m.logsOf experiment = shown ∧
        Shows LogEntry.id m.logs (fun l => l.experimentId = experiment) shown) ∧
    (∀ experiment,
      let shown := (created.filterMap Deed.variation?).filter fun v => v.experimentId = experiment
      (Store.variations experiment : StoreM Memory _) m = .ok shown m ∧
        Shows Variation.id m.variations (fun v => v.experimentId = experiment) shown) ∧
    (∀ d ∈ past, d.IsFaithful) ∧
    past.numbers.Pairwise (· < ·) := by
  obtain ⟨hvariations, hexposures, -, hachievements, hlogs, -, -⟩ := h.growth
  simp only [List.nil_append] at hexposures hachievements hlogs hvariations
  refine ⟨fun variation => ⟨?_, h.shows ?_ hroom hexposures _⟩,
    fun goal => ⟨?_, h.shows ?_ hroom hachievements _⟩,
    fun experiment => ⟨?_, h.shows ?_ hroom hlogs _⟩,
    fun experiment => ⟨?_, h.shows ?_ hroom hvariations _⟩,
    h.faithful, h.pairwise_numbers hroom⟩
  · rw [← hexposures]
    rfl
  · intro d x hx
    cases d <;> simp_all [Deed.exposure?, Deed.number?]
  · rw [← hachievements]
    rfl
  · intro d a ha
    cases d <;> simp_all [Deed.achievement?, Deed.number?]
  · rw [← hlogs]
    rfl
  · intro d l hl
    cases d <;> simp_all [Deed.entry?, Deed.number?]
  · rw [← hvariations]
    rfl
  · intro d v hv
    cases d <;> simp_all [Deed.variation?, Deed.number?]

section Sample

/-- The exposure of a unit to a variation of the first experiment. -/
def sampleExposure (id variation : UInt64) (identifier : String) : Exposure :=
  ⟨id, 1, variation, .external identifier "name", { seenAt := ⟨0, 0⟩ }⟩

/-- The variation of the first experiment that was seen first under a number. -/
def sampleVariation (id : UInt64) : Variation := ⟨id, 1, "color", "red", ⟨0, 0⟩⟩

/-- A unit is exposed, everything is forgotten, and two units are exposed again. -/
def samplePast : Chronicle :=
  [.variation 1 "color" "red" (sampleVariation 1),
    .exposure 1 1 (.external "ann" "name") { seenAt := ⟨0, 0⟩ } (sampleExposure 2 1 "ann"),
    .cleared,
    .variation 1 "color" "red" (sampleVariation 3),
    .exposure 1 3 (.external "ann" "name") { seenAt := ⟨0, 0⟩ } (sampleExposure 4 3 "ann"),
    .variation 1 "color" "red" (sampleVariation 3),
    .exposure 1 3 (.external "bob" "name") { seenAt := ⟨0, 0⟩ } (sampleExposure 5 3 "bob")]

/-- The memory after that. -/
def sampleRecalled : Memory where
  now := ⟨0, 0⟩
  nextId := 6
  variations := [sampleVariation 3]
  exposures := [sampleExposure 4 3 "ann", sampleExposure 5 3 "bob"]

theorem sampleRecalled_course :
    Course { now := ⟨0, 0⟩ } samplePast sampleRecalled :=
  ((((((Course.nil.snoc (.variation 1 "color" "red")).snoc
    (.exposure 1 1 (.external "ann" "name") { seenAt := ⟨0, 0⟩ })).snoc
    .cleared).snoc (.variation 1 "color" "red")).snoc
    (.exposure 1 3 (.external "ann" "name") { seenAt := ⟨0, 0⟩ })).snoc
    (.variation 1 "color" "red")).snoc
    (.exposure 1 3 (.external "bob" "name") { seenAt := ⟨0, 0⟩ })

/-- The exposures to the second variation of this key are those after the clearing. -/
theorem sample_listings :
    samplePast.creations.length + 1 < UInt64.size ∧
    (Store.exposures 3 : StoreM Memory _) sampleRecalled =
      .ok [sampleExposure 4 3 "ann", sampleExposure 5 3 "bob"] sampleRecalled ∧
    samplePast.numbers = [1, 2, 3, 4, 5] ∧ samplePast.numbers.Pairwise (· < ·) := by
  have hroom : samplePast.creations.length + 1 < UInt64.size := by
    decide
  obtain ⟨hexposures, -, -, -, -, hnumbers⟩ := listings_of_course sampleRecalled_course hroom
  exact ⟨hroom, (hexposures 3).1, rfl, hnumbers⟩

end Sample

end Memory

end Allotment
