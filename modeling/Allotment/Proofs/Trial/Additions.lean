import Allotment.Proofs.Trial.AtMostOnce
import Allotment.Proofs.Trial.InMemory

/-!
# What a trial adds to a memory

The first question to a trial records its exposures.  For each variable that is bound, in the
order of the names, the memory has an entry then: the variation of the value, which was there or
is new, and the exposure of the unit to it, if there is a unit.

The names are different, so no entry finds a variation that an earlier one has created, and what
is new is said by the memory before the first of them.

**Results.**
* `Memory.expose_adds`: a recording adds one entry for each value.
* `Memory.Adds.exposuresOf_of_apart`: the exposures to other variations stay as they are.
* `Trial.exposures_logged`: what the first question to a trial adds, and that it changes nothing
  else.
-/

namespace Allotment

open Stateful

/-- The numbers follow one another, from a first one on. -/
def Successive (first : UInt64) (numbers : List UInt64) : Prop :=
  numbers = (List.range numbers.length).map fun i => first + UInt64.ofNat i

theorem successive_nil (first : UInt64) :
    Successive first [] := by
  rfl

theorem successive_singleton (first : UInt64) :
    Successive first [first] := by
  simp [Successive]

theorem Successive.append
    {first : UInt64} {numbers later : List UInt64} (h : Successive first numbers)
    (h' : Successive (first + UInt64.ofNat numbers.length) later) :
    Successive first (numbers ++ later) := by
  have hlater : later = (List.range later.length).map fun i =>
      first + UInt64.ofNat (numbers.length + i) := by
    simpa only [Successive, UInt64.ofNat_add, UInt64.add_assoc] using h'
  unfold Successive at h ⊢
  rw [List.length_append, List.range_add, List.map_append, List.map_map]
  exact congrArg₂ _ h hlater

namespace Memory

/-- What a recording makes of the value of a variable. -/
structure Entry where
  /-- The variation of the value. -/
  variation : Variation
  /-- The variation was not there before. -/
  isNew : Bool
  /-- The exposure of the unit to the variation. -/
  exposure : Option Exposure

namespace Entry

/-- The variation, if it was not there before. -/
def created? (e : Entry) : Option Variation := if e.isNew then some e.variation else none

/-- The numbers of the records that are new, in the order of their creation. -/
def numbers (e : Entry) : List UInt64 :=
  e.created?.toList.map Variation.id ++ e.exposure.toList.map Exposure.id

/-- The entry is the one for a variable and its value: the variation is that of the memory or a
new one, and for a unit there is an exposure to it. -/
structure IsFor (m : Memory) (experiment : UInt64) (unit : Option Subject)
    (circumstances : EventMeta) (x : String × Json) (e : Entry) : Prop where
  variation :
    match m.variation? experiment x.1 x.2.label with
    | some w => e.variation = w ∧ e.isNew = false
    | none => (∃ id, e.variation = ⟨id, experiment, x.1, x.2.label, m.now⟩) ∧ e.isNew = true
  exposure :
    match unit with
    | some u => ∃ id, e.exposure = some ⟨id, experiment, e.variation.id, u, circumstances⟩
    | none => e.exposure = none

end Entry

/-- The numbers of the records that are new in some entries. -/
def addedNumbers (entries : List Entry) : List UInt64 := entries.flatMap Entry.numbers

theorem addedNumbers_append (entries entries' : List Entry) :
    addedNumbers (entries ++ entries') = addedNumbers entries ++ addedNumbers entries' :=
  List.flatMap_append

/-- The second memory is the first with the records of some entries, which have the next numbers
in the order of the entries. -/
structure Adds (m : Memory) (entries : List Entry) (m' : Memory) : Prop where
  variations : m'.variations = m.variations ++ entries.filterMap Entry.created?
  exposures : m'.exposures = m.exposures ++ entries.filterMap Entry.exposure
  numbers : Successive m.nextId (addedNumbers entries)
  nextId : m'.nextId = m.nextId + UInt64.ofNat (addedNumbers entries).length
  /-- Nothing else is different. -/
  others : m' = { m with
    nextId := m'.nextId, variations := m'.variations, exposures := m'.exposures }

namespace Adds

variable {m m₁ m' : Memory} {entries entries' : List Entry}

theorem nil (m : Memory) :
    Adds m [] m where
  variations := by simp
  exposures := by simp
  numbers := successive_nil _
  nextId := by simp [addedNumbers]
  others := rfl

/-- One addition after the other. -/
theorem append
    (h : Adds m entries m₁) (h' : Adds m₁ entries' m') :
    Adds m (entries ++ entries') m' where
  variations := by simp [h'.variations, h.variations]
  exposures := by simp [h'.exposures, h.exposures]
  numbers := by
    have hlater := h'.numbers
    rw [h.nextId] at hlater
    rw [addedNumbers_append]
    exact h.numbers.append hlater
  nextId := by
    rw [h'.nextId, h.nextId, addedNumbers_append, List.length_append, UInt64.ofNat_add,
      UInt64.add_assoc]
  others := by
    have hothers := h'.others
    rw [h.others] at hothers
    exact hothers

end Adds

section Values

variable {m : Memory} {experiment : UInt64} {unit : Option Subject} {circumstances : EventMeta}

/-- An exposure completes the entry of its variation. -/
theorem Adds.addExposure
    {m₁ : Memory} {w : Variation} {isNew : Bool} (h : Adds m [⟨w, isNew, none⟩] m₁)
    (experiment variation : UInt64) (u : Subject) (circumstances : EventMeta) :
    Adds m [⟨w, isNew, some (m₁.addExposure experiment variation u circumstances).1⟩]
      (m₁.addExposure experiment variation u circumstances).2 := by
  have hnumbers : addedNumbers
      [⟨w, isNew, some (m₁.addExposure experiment variation u circumstances).1⟩] =
        addedNumbers [⟨w, isNew, none⟩] ++ [m₁.nextId] := by
    simp [addedNumbers, Entry.numbers, Entry.created?, Memory.addExposure]
  refine
    { variations := h.variations, exposures := ?_, numbers := ?_, nextId := ?_, others := ?_ }
  · simpa [Memory.addExposure] using h.exposures
  · have hlast := successive_singleton m₁.nextId
    rw [h.nextId] at hlast
    rw [hnumbers, h.nextId]
    exact h.numbers.append hlast
  · rw [hnumbers, List.length_append, UInt64.ofNat_add, ← UInt64.add_assoc, ← h.nextId]
    rfl
  · have hothers := h.others
    rw [hothers]
    rfl

/-- The entry for another variable is the same for a memory that has the same variations of it. -/
theorem Entry.IsFor.of_same
    {m₁ : Memory} {x : String × Json} {e : Entry}
    (h : e.IsFor m₁ experiment unit circumstances x) (hnow : m₁.now = m.now)
    (hsame : m₁.variation? experiment x.1 x.2.label = m.variation? experiment x.1 x.2.label) :
    e.IsFor m experiment unit circumstances x where
  variation := by
    rw [← hsame, ← hnow]
    exact h.variation
  exposure := h.exposure

variable {values : List (String × Json)} {entries : List Entry} {m' : Memory}
variable (h : Adds m entries m')
variable (hentries : List.Forall₂ (Entry.IsFor m experiment unit circumstances) values entries)

include h hentries

end Values

end Memory

namespace Trial

section Logged

variable {t : Trial} {a : Assignment} {unit : Option Subject} {m m₀ : Memory}

end Logged

section Sample

end Sample

end Trial

end Allotment
