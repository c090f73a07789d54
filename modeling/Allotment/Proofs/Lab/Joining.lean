import Allotment.Proofs.Lab.Units
import Allotment.Proofs.Trial.InMemory

/-!
# Exposures and achievements of one unit

An exposure is recorded for the unit that the inputs of its trial lead to, an achievement for
the unit that is given.  Results join the two by the key of the unit.  They are the same unit
unless an identifier from outside has the type of the registered users: its exposures go to the
user of that number, and its achievements stay with the identifier.

**Results.**
* `value_exposes`: the exposures that giving a value records.
* `achievement_counted_iff`: an achievement counts for a value exactly if the unit does not claim
  to be a user, or was exposed to the value before.
-/

namespace Allotment

open Stateful

namespace Lab

variable {lab : Lab} {m m₀ m₁ m₂ : Memory} {name key goal : String}

theorem saveExperiment_exposures
    (e : Experiment) (m : Memory) :
    (endState (Store.saveExperiment e m)).exposures = m.exposures := by
  show (endState (Memory.change (fun m => m.saveExperiment e) m)).exposures = _
  unfold Memory.change
  cases h : m.saveExperiment e with
  | error fault => simp only [h, endState_error]
  | ok m' =>
      simp only [h, endState_ok]
      unfold Memory.saveExperiment at h
      split at h
      · cases h
        rfl
      · cases h

/-- Experiments are no exposures. -/
theorem experiment_exposures
    (name : String) (control : Json) (m : Memory) :
    (endState (experiment name control m)).exposures = m.exposures := by
  have hensure : (m.ensureExperiment name).2.exposures = m.exposures := by
    unfold Memory.ensureExperiment
    split <;> rfl
  rcases hm : m.ensureExperiment name with ⟨⟨e, created⟩, m'⟩
  have hstep : (Store.ensureExperiment name : StoreM Memory _) m = .ok (e, created) m' := by
    show Memory.sure (fun m => m.ensureExperiment name) m = _
    simp only [Memory.sure, hm]
  unfold experiment
  rw [bind_of_ok hstep]
  rw [hm] at hensure
  cases created with
  | false => exact hensure
  | true =>
      simp only [if_true]
      rcases e.setFromControl control with ⟨e', none | fault⟩
      · have hread := endState_bind (Store.saveExperiment e' : StoreM Memory Unit)
          (f := fun _ => return e') (fun _ _ => rfl) m'
        exact (congrArg Memory.exposures hread).trans
          ((saveExperiment_exposures e' m').trans hensure)
      · exact hensure

/-- The value of a complete unit is read off a new trial. -/
theorem value_apply
    {u : Subject} (hu : u.isComplete = true) {control : Json} {inputs : Dict Json}
    {e : Experiment} (he : experiment name (.object [(key, control)]) m = .ok e m₀) :
    lab.value name key (some u) control inputs m =
      (lab.trialFor e u inputs).once (Trial.getOr lab.now key control) m₀ := by
  have hfilter : (some u).filter Subject.isComplete = some u := by simp [hu]
  refine (bind_of_ok he _).trans ?_
  rw [hfilter]

/-- Giving a value records the exposures of a unit, which is the given one unless that claims to
be a user. -/
theorem value_exposes
    (hauto : lab.config.autoExposure = true) {u : Subject} (hu : u.isComplete = true)
    {control r : Json} {inputs : Dict Json} {e : Experiment}
    (he : experiment name (.object [(key, control)]) m = .ok e m₀)
    (hvalue : lab.value name key (some u) control inputs m = .ok r m₁)
    {a : Assignment} (ha : (lab.trialFor e u inputs).outcome = .ok a) (hin : a.takesPart = true) :
    ∃ u', u'.sameUnit u = (!u.claimsUser lab.config.internalType) ∧
      m₁ = Memory.expose e.id (some u') lab.circumstances a.values m₀ := by
  rw [value_apply hu he] at hvalue
  have hnew : ¬ (lab.trialFor e u inputs).IsExposed := Trial.not_isExposed_of_unevaluated rfl
  have hassigned : (lab.trialFor e u inputs).assigned = .ok a :=
    (Trial.assigned_of_unevaluated rfl).trans ha
  have hprepare := Trial.prepare_of_auto (t := lab.trialFor e u inputs) hauto lab.now m₀
  unfold Trial.once at hvalue
  cases hr : (lab.trialFor e u inputs).resolveUnit m₀ with
  | error fault m' =>
      rw [Trial.logExposure_of_unresolved hassigned hnew hin hr] at hprepare
      rw [Trial.getOr_of_error hprepare] at hvalue
      cases hvalue
  | ok unit m' =>
      obtain ⟨rfl, u', rfl, hsame⟩ := resolveUnit_trialFor hr
      refine ⟨u', hsame, ?_⟩
      have hend := Trial.endState_getOr lab.now key control (lab.trialFor e u inputs, m')
      rw [hprepare, Trial.logExposure_apply hassigned hnew hin hr] at hend
      split at hvalue
      · rename_i heq
        rw [heq] at hend
        cases hvalue
        exact congrArg Prod.snd hend
      · cases hvalue

/-- An achievement of a complete unit is recorded for this unit. -/
theorem achieve_apply
    (lab : Lab) {u : Subject} (hu : u.isComplete = true) (goal : String) (value : Float)
    (related : Option Related) (m : Memory) :
    ∃ ach g m', lab.achieve goal u value related m = .ok (some ach) m' ∧
      m'.ensureGoal goal = (g, m') ∧ ach.goalId = g.id ∧ ach.unit = u ∧
      m'.achievements = m.achievements ++ [ach] ∧ m'.exposures = m.exposures ∧
      m'.variations = m.variations := by
  let g := (m.ensureGoal goal).1
  let m' := (m.ensureGoal goal).2
  let ach := (m'.addAchievement g.id u value related lab.circumstances).1
  let m'' := (m'.addAchievement g.id u value related lab.circumstances).2
  obtain ⟨hvs, hxs, hachs⟩ := m.ensureGoal_events goal
  have hstep : (Store.ensureGoal goal : StoreM Memory Goal) m = .ok g m' := by
    rfl
  have hachieve : lab.achieve goal u value related m = .ok (some ach) m'' := by
    unfold achieve
    rw [if_pos hu, bind_of_ok hstep]
    rfl
  have hgoal : m''.goalNamed? goal = some g := m.goalNamed?_ensureGoal_self goal
  have hachs' : m''.achievements = m.achievements ++ [ach] := by
    rw [← hachs]
    rfl
  exact ⟨ach, g, m'', hachieve, Memory.ensureGoal_of_some hgoal, rfl, rfl, hachs', hxs, hvs⟩

/-- Exposures of one unit expose another exactly if the two are the same. -/
theorem isExposed_of_unit
    {exposures : List Exposure} {u u' : Subject} (hunit : ∀ x ∈ exposures, x.unit = u')
    (hne : exposures ≠ []) :
    Totals.isExposed exposures u = u'.sameUnit u := by
  unfold Totals.isExposed
  cases h : u'.sameUnit u with
  | true =>
      obtain ⟨x, hx⟩ := List.exists_mem_of_ne_nil _ hne
      refine List.any_eq_true.2 ⟨x, hx, ?_⟩
      rw [hunit x hx, h]
  | false =>
      refine List.any_eq_false.2 fun x hx => ?_
      rw [hunit x hx, h]
      simp

/-- On a memory, an achievement of a unit that was given a value counts for the value exactly if
the unit does not claim to be a user, or had been exposed to the value before. -/
theorem achievement_counted_iff
    (hauto : lab.config.autoExposure = true) {u : Subject} (hu : u.isComplete = true)
    {control r v : Json} {inputs : Dict Json} {e : Experiment}
    (he : experiment name (.object [(key, control)]) m = .ok e m₀)
    (hvalue : lab.value name key (some u) control inputs m = .ok r m₁)
    {a : Assignment} (ha : (lab.trialFor e u inputs).outcome = .ok a) (hin : a.takesPart = true)
    (hv : Dict.get? a.values key = some v)
    (later : Lab) (goal : String) (value : Float) (related : Option Related) :
    (∃ new, m₁.exposures = m.exposures ++ new ∧ new ≠ [] ∧
      ∀ x ∈ new, x.unit.sameUnit u = !u.claimsUser lab.config.internalType) ∧
    ∃ ach g w m₂,
      later.achieve goal u value related m₁ = .ok (some ach) m₂ ∧
      m₂.ensureGoal goal = (g, m₂) ∧
      m₂.ensureVariation e.id key v.label = (w, m₂) ∧
      Totals.compute w g m₂ =
        .ok (Totals.ofEvents (m₂.exposuresOf w.id) (m₂.achievementsOf g.id)) m₂ ∧
      ach ∈ m₂.achievementsOf g.id ∧ ach.unit = u ∧
      (ach ∈ Totals.counted (m₂.exposuresOf w.id) (m₂.achievementsOf g.id) ↔
        u.claimsUser lab.config.internalType = false ∨
          Totals.isExposed (m.exposuresOf w.id) u = true) := by
  obtain ⟨u', hsame, rfl⟩ := value_exposes hauto hu he hvalue ha hin
  obtain ⟨new, hnew, hunit, hvalues⟩ :=
    Memory.exposures_expose e.id u' lab.circumstances a.values m₀
  obtain ⟨w, hw, x₀, hx₀, hid⟩ := hvalues key v (Dict.mem_of_get? hv)
  have hexposures : m₀.exposures = m.exposures := by
    have hsame := experiment_exposures name (.object [(key, control)]) m
    rwa [he] at hsame
  rw [hexposures] at hnew
  obtain ⟨ach, g, m₂, hach, hgoal, hgid, hachunit, hachs, hxs, hvs⟩ :=
    achieve_apply later hu goal value related
      (Memory.expose e.id (some u') lab.circumstances a.values m₀)
  have hmem : ach ∈ m₂.achievementsOf g.id := by
    unfold Memory.achievementsOf
    rw [hachs]
    simp [hgid]
  have hw₂ : m₂.variation? e.id key v.label = some w := by
    unfold Memory.variation? at hw ⊢
    rw [hvs, hw]
  refine ⟨⟨new, hnew, List.ne_nil_of_mem hx₀, fun x hx => hunit x hx ▸ hsame⟩,
    ach, g, w, m₂, hach, hgoal, Memory.ensureVariation_of_some hw₂, rfl, hmem, hachunit, ?_⟩
  -- The achievement counts through an exposure that was there or through one that is new.
  have hold : m₂.exposuresOf w.id =
      m.exposuresOf w.id ++ new.filter fun x => x.variationId = w.id := by
    unfold Memory.exposuresOf
    rw [hxs, hnew, List.filter_append]
  have hjoin : Totals.isExposed (new.filter fun x => x.variationId = w.id) u =
      !u.claimsUser lab.config.internalType := by
    have hx₀' : x₀ ∈ new.filter fun x => x.variationId = w.id :=
      List.mem_filter.2 ⟨hx₀, by simpa using hid⟩
    rw [← hsame]
    exact isExposed_of_unit (fun x hx => hunit x (List.mem_filter.1 hx).1) (List.ne_nil_of_mem hx₀')
  have hcounted : ach ∈ Totals.counted (m₂.exposuresOf w.id) (m₂.achievementsOf g.id) ↔
      Totals.isExposed (m₂.exposuresOf w.id) u = true := by
    simp [Totals.counted, hmem, hachunit]
  have hsplit : Totals.isExposed (m₂.exposuresOf w.id) u =
      (Totals.isExposed (m.exposuresOf w.id) u || !u.claimsUser lab.config.internalType) := by
    rw [hold, ← hjoin]
    exact List.any_append
  rw [hcounted, hsplit, Bool.or_eq_true, Bool.not_eq_true', or_comm]

section Sample

/-- A laboratory with the default configuration. -/
def defaultLab : Lab := ⟨{}, ⟨0, 0⟩⟩

/-- A memory with one registered user. -/
def registeredAnn : Memory := { now := ⟨0, 0⟩, users := [⟨42, "ann"⟩] }

/-- The experiment that is created for the control value. -/
def redShop : Experiment where
  id := 1
  name := "shop"
  definition := ⟨.seq [.set "color" (.value (.string "red"))]⟩
  goalIds := []
  createdAt := ⟨0, 0⟩
  modifiedAt := ⟨0, 0⟩

/-- The memory with the experiment. -/
def seededShop : Memory :=
  { registeredAnn with
    nextId := 2
    experiments := [redShop]
    names := [(1, "shop")] }

/-- The memory after the value was given to a unit. -/
def givenRed (u : Subject) : Memory :=
  endState (defaultLab.value "shop" "color" (some u) (.string "red") [] registeredAnn)

/-- The achievement of a device counts. -/
theorem device_achievement_counted :
    let u := Subject.external "abc" "device_id"
    defaultLab.value "shop" "color" (some u) (.string "red") [] registeredAnn =
      .ok (.string "red") (givenRed u) ∧
    ∃ ach g w m₂,
      defaultLab.achieve "buy" u 1.0 none (givenRed u) = .ok (some ach) m₂ ∧
      m₂.ensureGoal "buy" = (g, m₂) ∧ m₂.ensureVariation 1 "color" "red" = (w, m₂) ∧
      ach ∈ Totals.counted (m₂.exposuresOf w.id) (m₂.achievementsOf g.id) := by
  intro u
  have he : experiment "shop" (.object [("color", .string "red")]) registeredAnn =
      .ok redShop seededShop := by
    rfl
  have hvalue : defaultLab.value "shop" "color" (some u) (.string "red") [] registeredAnn =
      .ok (.string "red") (givenRed u) := by
    rfl
  have ha : (defaultLab.trialFor redShop u []).outcome =
      .ok ⟨[("color", .string "red")], true⟩ := by
    rfl
  obtain ⟨-, ach, g, w, m₂, hach, hgoal, hw, -, -, -, hiff⟩ :=
    achievement_counted_iff rfl rfl he hvalue ha rfl rfl defaultLab "buy" 1.0 none
  exact ⟨hvalue, ach, g, w, m₂, hach, hgoal, hw, hiff.2 (.inl rfl)⟩

/-- That a unit was given a value does not mean that its achievements count for the value. -/
theorem achievement_of_claimed_user_lost :
    ¬ ∀ (lab : Lab) (m m₀ m₁ m₂ : Memory) (name key goal : String) (u : Subject)
        (control r v : Json) (inputs : Dict Json) (e : Experiment) (a : Assignment)
        (value : Float) (related : Option Related) (ach : Achievement) (g : Goal) (w : Variation),
      lab.config.autoExposure = true → u.isComplete = true →
      experiment name (.object [(key, control)]) m = .ok e m₀ →
      lab.value name key (some u) control inputs m = .ok r m₁ →
      (lab.trialFor e u inputs).outcome = .ok a → a.takesPart = true →
      Dict.get? a.values key = some v →
      lab.achieve goal u value related m₁ = .ok (some ach) m₂ →
      m₂.ensureGoal goal = (g, m₂) → m₂.ensureVariation e.id key v.label = (w, m₂) →
      ach ∈ Totals.counted (m₂.exposuresOf w.id) (m₂.achievementsOf g.id) := by
  intro hall
  let u := Subject.external "42" Config.defaultInternalType
  let m₂ := endState (defaultLab.achieve "buy" u 1.0 none (givenRed u))
  let ach : Achievement := ⟨5, 4, u, 1.0, none, defaultLab.circumstances⟩
  let w : Variation := ⟨2, 1, "color", "red", ⟨0, 0⟩⟩
  have hcounted : ach ∈ Totals.counted (m₂.exposuresOf 2) (m₂.achievementsOf 4) :=
    hall defaultLab registeredAnn seededShop (givenRed u) m₂ "shop" "color" "buy" u
      (.string "red") (.string "red") (.string "red") [] redShop
      ⟨[("color", .string "red")], true⟩ 1.0 none ach ⟨4, "buy", ""⟩ w
      rfl rfl rfl rfl rfl rfl rfl rfl rfl rfl
  have hnone : Totals.counted (m₂.exposuresOf 2) (m₂.achievementsOf 4) = [] := by
    rfl
  rw [hnone] at hcounted
  exact List.not_mem_nil hcounted

end Sample

end Lab

end Allotment
