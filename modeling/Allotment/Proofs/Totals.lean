import Allotment.Results
import Mathlib.Data.List.Forall2

/-!
# Totals as a join

The totals of a variation for a goal join its exposures and the achievements by the keys of their
units.  An achievement counts if some exposure is one of the same unit, and it counts once.

So the totals depend on which units were exposed and not on how often or in which order, and no
username plays a part in them.

**Results.**
* `Subject.sameUnit_iff_named`: the same unit is a unit that differs in its username at most.
* `Totals.countAndSum_eq`: the pass over the achievements counts and sums them.
* `Totals.ofEvents_join`: the totals are those of the join, and what they do not depend on.
-/

namespace Allotment

namespace Subject

/-- The unit under a username, if it is a registered user. -/
def named (name : String) : Subject → Subject
  | .user u => .user { u with username := name }
  | unit => unit

@[simp] theorem key_named
    (name : String) (unit : Subject) :
    (unit.named name).key = unit.key := by
  cases unit <;> rfl

/-- The same unit is a unit that differs in its username at most. -/
theorem sameUnit_iff_named
    {a b : Subject} :
    a.sameUnit b = true ↔ ∃ name, b = a.named name := by
  rw [sameUnit_iff]
  constructor
  · intro h
    cases a with
    | user u =>
        cases b with
        | user u' =>
            obtain ⟨id, name⟩ := u'
            obtain rfl : u.id = id := Key.user.inj h
            exact ⟨name, rfl⟩
        | external identifier type => cases h
    | external identifier type =>
        cases b with
        | user u' => cases h
        | external identifier' type' =>
            obtain ⟨rfl, rfl⟩ := Key.external.inj h
            exact ⟨"", rfl⟩
  · rintro ⟨name, rfl⟩
    exact (key_named name a).symm

end Subject

/-- The exposure with its unit under a username. -/
def Exposure.named (x : Exposure) (name : String) : Exposure :=
  { x with unit := x.unit.named name }

/-- The achievement with its unit under a username. -/
def Achievement.named (a : Achievement) (name : String) : Achievement :=
  { a with unit := a.unit.named name }

namespace Totals

variable {exposures exposures' : List Exposure} {achievements achievements' : List Achievement}

/-- The pass over the achievements counts them and sums up what they are worth, from the first to
the last. -/
theorem countAndSum_eq
    (achievements : List Achievement) :
    countAndSum achievements =
      (UInt64.ofNat achievements.length,
        (achievements.map Achievement.value).foldl (· + ·) 0.0) := by
  have hpass : ∀ (n : UInt64) (x : Float),
      achievements.foldl (fun passed a => (passed.1 + 1, passed.2 + a.value)) (n, x) =
        (n + UInt64.ofNat achievements.length,
          (achievements.map Achievement.value).foldl (· + ·) x) := by
    induction achievements with
    | nil => simp
    | cons a rest ih =>
        intro n x
        simp only [List.foldl_cons, List.map_cons, List.length_cons, ih]
        rw [Nat.add_comm, UInt64.ofNat_add, UInt64.add_assoc]
        rfl
  refine (hpass 0 0.0).trans ?_
  rw [UInt64.zero_add]

/-- The totals count and sum up the achievements of which the unit was exposed. -/
theorem ofEvents_eq
    (exposures : List Exposure) (achievements : List Achievement) :
    ofEvents exposures achievements =
      { exposures := UInt64.ofNat exposures.length
        achievements := UInt64.ofNat (counted exposures achievements).length
        value := ((counted exposures achievements).map Achievement.value).foldl (· + ·) 0.0 } := by
  simp only [ofEvents, countAndSum_eq]

theorem isExposed_iff
    {unit : Subject} :
    isExposed exposures unit = true ↔ ∃ x ∈ exposures, x.unit.sameUnit unit = true := by
  simp [isExposed]

/-- What counts is found by comparing every achievement with every exposure. -/
theorem counted_eq
    (exposures : List Exposure) (achievements : List Achievement) :
    counted exposures achievements =
      achievements.filter fun a => ∃ x ∈ exposures, x.unit.sameUnit a.unit = true := by
  refine List.filter_congr fun a _ => ?_
  simp only [mem_exposedKeys, isExposed_iff]

/-- Which achievements count depends on the exposed units only. -/
theorem counted_congr
    (h : ∀ unit, isExposed exposures unit = isExposed exposures' unit)
    (achievements : List Achievement) :
    counted exposures achievements = counted exposures' achievements := by
  refine List.filter_congr fun a _ => ?_
  simp only [mem_exposedKeys, h]

/-- The same exposures, in whatever order and however often, expose the same units. -/
theorem isExposed_of_subset
    (hsub : exposures ⊆ exposures') (hsub' : exposures' ⊆ exposures) (unit : Subject) :
    isExposed exposures unit = isExposed exposures' unit := by
  have hmem : ∀ x, x ∈ exposures ↔ x ∈ exposures' := fun x =>
    ⟨fun hx => hsub hx, fun hx => hsub' hx⟩
  rw [Bool.eq_iff_iff, isExposed_iff, isExposed_iff]
  exact exists_congr fun x => and_congr_left fun _ => hmem x

/-- Exposures expose the same units under other usernames. -/
theorem isExposed_of_named
    (h : List.Forall₂ (fun x x' => ∃ name, x' = x.named name) exposures exposures')
    (unit : Subject) :
    isExposed exposures unit = isExposed exposures' unit := by
  induction h with
  | nil => rfl
  | @cons x x' xs xs' hx hrest ih =>
      obtain ⟨name, rfl⟩ := hx
      have hkey : (x.named name).unit.sameUnit unit = x.unit.sameUnit unit := by
        simp [Subject.sameUnit, Exposure.named]
      simp only [isExposed, List.any_cons] at ih ⊢
      rw [ih, hkey]

/-- The achievements that count are the same under other usernames. -/
theorem counted_of_named
    (exposures : List Exposure)
    (h : List.Forall₂ (fun a a' => ∃ name, a' = a.named name) achievements achievements') :
    List.Forall₂ (fun a a' => ∃ name, a' = a.named name)
      (counted exposures achievements) (counted exposures achievements') := by
  refine List.rel_filter ?_ h
  rintro a _ ⟨name, rfl⟩
  simp [Achievement.named]

/-- Usernames play no part in the totals. -/
theorem ofEvents_of_named
    (hx : List.Forall₂ (fun x x' => ∃ name, x' = x.named name) exposures exposures')
    (ha : List.Forall₂ (fun a a' => ∃ name, a' = a.named name) achievements achievements') :
    ofEvents exposures' achievements' = ofEvents exposures achievements := by
  have hfound := counted_of_named exposures ha
  have hvalues : (counted exposures achievements).map Achievement.value =
      (counted exposures achievements').map Achievement.value := by
    refine List.forall₂_eq_eq_eq ▸ List.forall₂_map_left_iff.2
      (List.forall₂_map_right_iff.2 (hfound.imp ?_))
    rintro a _ ⟨name, rfl⟩
    rfl
  rw [ofEvents_eq, ofEvents_eq, ← counted_congr (isExposed_of_named hx), hx.length_eq,
    hfound.length_eq, hvalues]

/-- The totals are the number of all exposures and, of the achievements whose unit is that of some
exposure, the number and the sum of what they are worth, in their order.  To show the exposures in
another order or again, or to rename users, changes neither of the two, and the achievements of
two lists are as many as those of both together. -/
theorem ofEvents_join
    (exposures : List Exposure) (achievements : List Achievement) :
    let t := ofEvents exposures achievements
    let found := achievements.filter fun a => ∃ x ∈ exposures, x.unit.sameUnit a.unit = true
    (t.exposures = UInt64.ofNat exposures.length ∧
      t.achievements = UInt64.ofNat found.length ∧
      t.value = (found.map Achievement.value).foldl (· + ·) 0.0) ∧
    (∀ exposures', exposures ⊆ exposures' → exposures' ⊆ exposures →
      (ofEvents exposures' achievements).achievements = t.achievements ∧
      (ofEvents exposures' achievements).value = t.value) ∧
    (∀ exposures' achievements',
      List.Forall₂ (fun x x' => ∃ name, x' = Exposure.named x name) exposures exposures' →
      List.Forall₂ (fun a a' => ∃ name, a' = Achievement.named a name)
        achievements achievements' →
      ofEvents exposures' achievements' = t) ∧
    ∀ more, (ofEvents exposures (achievements ++ more)).achievements =
      t.achievements + (ofEvents exposures more).achievements := by
  intro t found
  have hfound : counted exposures achievements = found := counted_eq exposures achievements
  refine ⟨⟨?_, ?_, ?_⟩, ?_, fun _ _ hx ha => ofEvents_of_named hx ha, ?_⟩
  · simp only [t, ofEvents_eq]
  · simp only [t, ofEvents_eq, hfound]
  · simp only [t, ofEvents_eq, hfound]
  · intro exposures' hsub hsub'
    have hsame := counted_congr (isExposed_of_subset hsub hsub') achievements
    simp only [t, ofEvents_eq, hsame, and_self]
  · intro more
    simp only [t, ofEvents_eq, counted, List.filter_append, List.length_append, UInt64.ofNat_add]

section Sample

/-- The exposure of a unit to a variation. -/
def sampleShown (id : UInt64) (unit : Subject) : Exposure := ⟨id, 1, 2, unit, { seenAt := ⟨0, 0⟩ }⟩

/-- The achievement of a goal by a unit. -/
def sampleDone (id : UInt64) (unit : Subject) (value : Float) : Achievement :=
  ⟨id, 3, unit, value, none, { seenAt := ⟨0, 0⟩ }⟩

/-- A user, a device and an address, with the same digits for all of them.  The user was exposed
twice, the address never, and the user has got another name since then. -/
theorem sample_join :
    let user := Subject.user ⟨7, "ann"⟩
    let device := Subject.external "7" "device"
    let address := Subject.external "7" "address"
    let exposures := [sampleShown 4 user, sampleShown 5 device, sampleShown 6 user]
    let again := [sampleShown 6 user, sampleShown 5 device, sampleShown 4 user,
      sampleShown 5 device]
    let achievements := [sampleDone 7 user 1.0, sampleDone 8 address 8.0, sampleDone 9 device 2.0]
    let renamed := [sampleDone 7 (.user ⟨7, "bob"⟩) 1.0, sampleDone 8 address 8.0,
      sampleDone 9 device 2.0]
    (ofEvents exposures achievements).exposures = 3 ∧
    (ofEvents exposures achievements).achievements = 2 ∧
    (ofEvents exposures achievements).value = 0.0 + 1.0 + 2.0 ∧
    (ofEvents again achievements).achievements = 2 ∧
    (ofEvents exposures renamed).achievements = 2 ∧
    (ofEvents exposures (achievements ++ achievements)).achievements = 4 := by
  intro user device address exposures again achievements renamed
  obtain ⟨⟨hexposures, hachievements, hvalue⟩, hagain, hrenamed, hmore⟩ :=
    ofEvents_join exposures achievements
  have hsub : exposures ⊆ again := by
    simp [exposures, again]
  have hsub' : again ⊆ exposures := by
    simp [exposures, again]
  have hnames : List.Forall₂ (fun a a' => ∃ name, a' = Achievement.named a name)
      achievements renamed :=
    .cons ⟨"bob", rfl⟩ (.cons ⟨"", rfl⟩ (.cons ⟨"", rfl⟩ .nil))
  have hsame : List.Forall₂ (fun x x' => ∃ name, x' = Exposure.named x name) exposures exposures :=
    .cons ⟨"ann", rfl⟩ (.cons ⟨"", rfl⟩ (.cons ⟨"ann", rfl⟩ .nil))
  have htwo : (ofEvents exposures achievements).achievements = 2 := hachievements.trans rfl
  refine ⟨hexposures, htwo, hvalue.trans rfl, (hagain again hsub hsub').1.trans htwo, ?_, ?_⟩
  · rw [hrenamed exposures renamed hsame hnames, htwo]
  · rw [hmore achievements, htwo]
    rfl

end Sample

end Totals

end Allotment
