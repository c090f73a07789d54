import Allotment.Proofs.Stateful
import Allotment.Trial

/-!
# Steps of a trial

What the steps of a trial do, one rule for each way that a step can go.

An evaluation happens once; after it the trial has its assignment.  The unit is looked for in
the inputs and, if they name a registered user, in the store.  The exposures are recorded when
the unit is known, and from then on the trial counts as exposed.

**Results.**
* `evaluate_apply`: an evaluation settles the assignment or changes nothing.
* `logExposure_of_resolved` and its companions: when exposures are recorded.
* `prepare_of_auto`, `prepare_of_manual`: what is done before a trial answers.
-/

namespace Allotment

open Stateful

namespace Trial

/-- The trial at another stage. -/
def inStage (t : Trial) (stage : Stage) : Trial := { t with stage }

/-- The assignment of the trial, which its definition gives if nothing was evaluated before. -/
def assigned (t : Trial) : Except Fault Assignment :=
  match t.stage with
  | .unevaluated => t.outcome
  | .evaluated a => .ok a
  | .exposed a => .ok a

/-- The trial once its definition was evaluated, if that is possible. -/
def settle (t : Trial) : Trial :=
  match t.stage, t.outcome with
  | .unevaluated, .ok a => t.inStage (.evaluated a)
  | _, _ => t

/-- The recording of the exposures has begun. -/
def IsExposed (t : Trial) : Prop := ∃ a, t.stage = .exposed a

/-- The assignment is what the definition has bound when its evaluation ends. -/
theorem outcome_of_run
    {t : Trial} {v : Json} {env : Env}
    (h : t.experiment.definition.run
      (({ salt := t.salt, inputs := t.inputs } : Env).withOverrides t.overrides) = .ok v env) :
    t.outcome = .ok ⟨env.bindings, env.takesPart⟩ := by
  unfold outcome
  simp only [h]

/-- A trial that has not been evaluated is given what its definition gives. -/
theorem assigned_of_unevaluated
    {t : Trial} (h : t.stage = .unevaluated) :
    t.assigned = t.outcome := by
  unfold assigned
  rw [h]

theorem not_isExposed_of_unevaluated
    {t : Trial} (h : t.stage = .unevaluated) :
    ¬ t.IsExposed := by
  rintro ⟨a, ha⟩
  rw [h] at ha
  cases ha

@[simp] theorem inStage_stage (t : Trial) (stage : Stage) :
    (t.inStage stage).stage = stage := by
  rfl

@[simp] theorem inStage_self (t : Trial) :
    t.inStage t.stage = t := by
  rfl

/-- A trial that has an assignment is at one of two stages once it is settled. -/
theorem settle_of_ok
    {t : Trial} {a : Assignment} (h : t.assigned = .ok a) :
    t.settle = t.inStage (.evaluated a) ∧ ¬ t.IsExposed ∨
      t.settle = t ∧ t.stage = .exposed a := by
  unfold assigned at h
  cases hs : t.stage with
  | unevaluated =>
      simp only [hs] at h
      left
      simp [settle, hs, h, IsExposed]
  | evaluated b =>
      simp only [hs, Except.ok.injEq] at h
      left
      refine ⟨?_, by simp [IsExposed, hs]⟩
      rw [← h, ← hs, inStage_self]
      simp [settle, hs]
  | exposed b =>
      simp only [hs, Except.ok.injEq] at h
      right
      simp [settle, hs, h]

theorem settle_assigned
    {t : Trial} {a : Assignment} (h : t.assigned = .ok a) :
    t.settle.assigned = .ok a := by
  rcases settle_of_ok h with ⟨hsettle, -⟩ | ⟨hsettle, -⟩
  · rw [hsettle]
    rfl
  · rw [hsettle, h]

@[simp] theorem settle_settle (t : Trial) :
    t.settle.settle = t.settle := by
  cases hs : t.stage with
  | unevaluated => cases ho : t.outcome <;> simp [settle, hs, ho]
  | evaluated a => simp [settle, hs]
  | exposed a => simp [settle, hs]

@[simp] theorem settle_autoExposure (t : Trial) :
    t.settle.autoExposure = t.autoExposure := by
  unfold settle
  split <;> rfl

section Steps

variable {σ : Type}

theorem evaluate_apply (t : Trial) (s : σ) :
    evaluate (t, s) =
      match t.assigned with
      | .ok _ => .ok () (t.settle, s)
      | .error fault => .error fault (t, s) := by
  have hcurrent : current (t, s) = .ok t (t, s) := by
    rfl
  refine (bind_of_ok hcurrent _).trans ?_
  cases hs : t.stage with
  | unevaluated =>
      cases ho : t.outcome with
      | ok a =>
          simp only [assigned, settle, hs, ho]
          rfl
      | error fault =>
          simp only [assigned, hs, ho]
          rfl
  | evaluated a =>
      simp only [assigned, settle, hs]
      rfl
  | exposed a =>
      simp only [assigned, settle, hs]
      rfl

/-- An operation of the store leaves the trial as it is. -/
theorem endState_onStore
    {α : Type} (op : StoreM σ α) (t : Trial) (s : σ) :
    endState (onStore op (t, s)) = (t, endState (op s)) := by
  cases h : op s <;> simp [onStore, h]

variable [Store σ]

@[simp] theorem inStage_resolveUnit (t : Trial) (stage : Stage) :
    (t.inStage stage).resolveUnit (σ := σ) = t.resolveUnit := by
  rfl

@[simp] theorem inStage_record
    (t : Trial) (stage : Stage) (now : Time) (unit : Option Subject)
    (values : List (String × Json)) :
    (t.inStage stage).record (σ := σ) now unit values = t.record now unit values := by
  induction values with
  | nil => rfl
  | cons x rest ih =>
      obtain ⟨key, v⟩ := x
      simp only [record, ih]
      rfl

section ResolveUnit

/-- The unit for the answer to the search for a user. -/
def registered (id : UInt64) : Option User → StoreM σ (Option Subject)
  | none => throw (.userNotFound (wordText id))
  | some user => return some (.user user)

variable {t : Trial} {type identifier : Json} {s s' : σ}

/-- Without an identifier and its type the inputs name no unit. -/
theorem resolveUnit_of_anonymous
    (h : t.given Subject.typeInput = none ∨ t.given Subject.unitInput = none) :
    t.resolveUnit s = .ok none s := by
  unfold resolveUnit
  rcases h with h | h
  · rw [h]
    rfl
  · rw [h]
    cases t.given Subject.typeInput <;> rfl

variable (htype : t.given Subject.typeInput = some type)
variable (hidentifier : t.given Subject.unitInput = some identifier)
include htype hidentifier

/-- An identifier of another type than the internal one is the unit itself. -/
theorem resolveUnit_of_external
    (hother : type.label ≠ t.internalType) :
    t.resolveUnit s = .ok (some (.external identifier.label type.label)) s := by
  unfold resolveUnit
  rw [htype, hidentifier]
  simp only [if_neg hother]
  rfl

variable (hinternal : type.label = t.internalType)
include hinternal

theorem resolveUnit_of_noNumber
    (hid : userId? identifier = none) :
    t.resolveUnit s = .error (.userNotFound identifier.label) s := by
  unfold resolveUnit
  rw [htype, hidentifier]
  simp only [if_pos hinternal, hid]
  rfl

variable {id : UInt64} (hid : userId? identifier = some id)
include hid

/-- An identifier of the internal type is left to the store. -/
theorem resolveUnit_of_number :
    t.resolveUnit s = (Store.findUser id >>= registered id) s := by
  unfold resolveUnit
  rw [htype, hidentifier]
  simp only [if_pos hinternal, hid]
  rfl

theorem resolveUnit_of_fault
    {fault : Fault} (hfind : Store.findUser id s = .error fault s') :
    t.resolveUnit s = .error fault s' :=
  (resolveUnit_of_number htype hidentifier hinternal hid).trans (bind_of_error hfind _)

theorem resolveUnit_of_unknown
    (hfind : Store.findUser id s = .ok none s') :
    t.resolveUnit s = .error (.userNotFound (wordText id)) s' :=
  (resolveUnit_of_number htype hidentifier hinternal hid).trans (bind_of_ok hfind _)

theorem resolveUnit_of_user
    {user : User} (hfind : Store.findUser id s = .ok (some user) s') :
    t.resolveUnit s = .ok (some (.user user)) s' :=
  (resolveUnit_of_number htype hidentifier hinternal hid).trans (bind_of_ok hfind _)

end ResolveUnit

/-- The search for the unit leaves a store as the search for a user leaves it. -/
theorem endState_resolveUnit
    {s : σ} (hfind : ∀ id, endState (Store.findUser id s) = s) (t : Trial) :
    endState (t.resolveUnit s) = s := by
  cases htype : t.given Subject.typeInput with
  | none => exact congrArg endState (resolveUnit_of_anonymous (.inl htype))
  | some type =>
      cases hidentifier : t.given Subject.unitInput with
      | none => exact congrArg endState (resolveUnit_of_anonymous (.inr hidentifier))
      | some identifier =>
          by_cases hinternal : type.label = t.internalType
          · cases hid : userId? identifier with
            | none =>
                exact congrArg endState
                  (resolveUnit_of_noNumber htype hidentifier hinternal hid)
            | some id =>
                rw [resolveUnit_of_number htype hidentifier hinternal hid]
                have hanswer : ∀ found y,
                    endState (registered (σ := σ) id found y) = y := by
                  intro found y
                  cases found <;> rfl
                exact (endState_bind _ hanswer s).trans (hfind id)
          · exact congrArg endState (resolveUnit_of_external htype hidentifier hinternal)

section Record

variable {t : Trial} {now : Time} {key : String} {v : Json} {rest : List (String × Json)}
variable {s s' : σ} {w : Variation}

theorem record_of_variationRefused
    {unit : Option Subject} {fault : Fault}
    (hw : Store.ensureVariation t.experiment.id key v.label s = .error fault s') :
    t.record now unit ((key, v) :: rest) s = .error fault s' :=
  bind_of_error hw _

theorem record_of_unattributed
    (hw : Store.ensureVariation t.experiment.id key v.label s = .ok w s') :
    t.record now none ((key, v) :: rest) s = t.record now none rest s' :=
  (bind_of_ok hw _).trans rfl

theorem record_of_exposureRefused
    {u : Subject} {s'' : σ} {fault : Fault}
    (hw : Store.ensureVariation t.experiment.id key v.label s = .ok w s')
    (hx : Store.addExposure t.experiment.id w.id u (t.circumstances now) s' = .error fault s'') :
    t.record now (some u) ((key, v) :: rest) s = .error fault s'' :=
  (bind_of_ok hw _).trans (bind_of_error hx _)

theorem record_of_recorded
    {u : Subject} {s'' : σ} {x : Exposure}
    (hw : Store.ensureVariation t.experiment.id key v.label s = .ok w s')
    (hx : Store.addExposure t.experiment.id w.id u (t.circumstances now) s' = .ok x s'') :
    t.record now (some u) ((key, v) :: rest) s = t.record now (some u) rest s'' :=
  (bind_of_ok hw _).trans (bind_of_ok hx _)

end Record

section LogExposure

variable {t : Trial} {a : Assignment}

/-- A definition that cannot be evaluated leaves everything as it was. -/
theorem logExposure_of_error
    {fault : Fault} (h : t.assigned = .error fault) (now : Time) (s : σ) :
    logExposure now (t, s) = .error fault (t, s) := by
  refine bind_of_error ?_ _
  rw [evaluate_apply, h]

/-- Once the definition is evaluated the stage decides whether exposures are recorded. -/
theorem logExposure_of_ok
    (h : t.assigned = .ok a) (now : Time) (s : σ) :
    logExposure now (t, s) =
      (match t.settle.stage with
        | .evaluated a =>
            if a.takesPart then do
              let unit ← onStore t.settle.resolveUnit
              enter (.exposed a)
              onStore (t.settle.record now unit a.values)
            else return ()
        | _ => return () : Step σ Unit) (t.settle, s) := by
  have he : evaluate (t, s) = .ok () (t.settle, s) := by
    rw [evaluate_apply, h]
  exact (bind_of_ok he _).trans rfl

/-- After the recording has begun nothing is recorded. -/
theorem logExposure_of_exposed
    (h : t.stage = .exposed a) (now : Time) (s : σ) :
    logExposure now (t, s) = .ok () (t, s) := by
  have ha : t.assigned = .ok a := by simp [assigned, h]
  have hsettle : t.settle = t := by simp [settle, h]
  rw [logExposure_of_ok ha, hsettle, h]
  rfl

/-- For a unit that is excluded nothing is recorded. -/
theorem logExposure_of_excluded
    (h : t.assigned = .ok a) (hout : a.takesPart = false) (now : Time) (s : σ) :
    logExposure now (t, s) = .ok () (t.settle, s) := by
  rcases settle_of_ok h with ⟨hsettle, -⟩ | ⟨hsettle, hs⟩
  · rw [logExposure_of_ok h, hsettle]
    simp only [inStage_stage, hout]
    rfl
  · rw [logExposure_of_exposed hs, hsettle]

/-- Without an answer about the unit nothing is recorded. -/
theorem logExposure_of_unresolved
    (h : t.assigned = .ok a) (hnew : ¬ t.IsExposed) (hin : a.takesPart = true)
    {s s' : σ} {fault : Fault} (hr : t.resolveUnit s = .error fault s') (now : Time) :
    logExposure now (t, s) = .error fault (t.inStage (.evaluated a), s') := by
  rcases settle_of_ok h with ⟨hsettle, -⟩ | ⟨-, hs⟩
  · rw [logExposure_of_ok h, hsettle]
    simp only [inStage_stage, hin, if_true]
    refine bind_of_error ?_ _
    simp only [onStore, inStage_resolveUnit, hr]
  · exact absurd ⟨a, hs⟩ hnew

/-- With the unit known the trial counts as exposed, and the exposures are recorded. -/
theorem logExposure_of_resolved
    (h : t.assigned = .ok a) (hnew : ¬ t.IsExposed) (hin : a.takesPart = true)
    {s s' : σ} {unit : Option Subject} (hr : t.resolveUnit s = .ok unit s') (now : Time) :
    logExposure now (t, s) =
      onStore (t.record now unit a.values) (t.inStage (.exposed a), s') := by
  rcases settle_of_ok h with ⟨hsettle, -⟩ | ⟨-, hs⟩
  · rw [logExposure_of_ok h, hsettle]
    simp only [inStage_stage, hin, if_true]
    have hunit : onStore (t.inStage (.evaluated a)).resolveUnit (t.inStage (.evaluated a), s) =
        .ok unit (t.inStage (.evaluated a), s') := by
      simp only [onStore, inStage_resolveUnit, hr]
    rw [bind_of_ok hunit, inStage_record]
    rfl
  · exact absurd ⟨a, hs⟩ hnew

end LogExposure

/-- A trial that records exposures by itself prepares for an answer by recording them. -/
theorem prepare_of_auto
    {t : Trial} (hauto : t.autoExposure = true) (now : Time) (s : σ) :
    prepare now (t, s) = logExposure now (t, s) := by
  cases h : t.assigned with
  | error fault =>
      rw [logExposure_of_error h]
      refine bind_of_error ?_ _
      rw [evaluate_apply, h]
  | ok a =>
      have he : evaluate (t, s) = .ok () (t.settle, s) := by
        rw [evaluate_apply, h]
      have hp : prepare now (t, s) =
          (if t.settle.autoExposure then logExposure now else return () : Step σ Unit)
            (t.settle, s) :=
        (bind_of_ok he _).trans rfl
      rw [hp, settle_autoExposure, hauto, if_pos rfl, logExposure_of_ok (settle_assigned h),
        settle_settle, logExposure_of_ok h]

/-- Any other trial prepares for an answer by evaluating its definition. -/
theorem prepare_of_manual
    {t : Trial} (hauto : t.autoExposure = false) (now : Time) (s : σ) :
    prepare now (t, s) = evaluate (t, s) := by
  cases h : t.assigned with
  | error fault =>
      have he : evaluate (t, s) = .error fault (t, s) := by
        rw [evaluate_apply, h]
      rw [he]
      exact bind_of_error he _
  | ok a =>
      have he : evaluate (t, s) = .ok () (t.settle, s) := by
        rw [evaluate_apply, h]
      have hp : prepare now (t, s) =
          (if t.settle.autoExposure then logExposure now else return () : Step σ Unit)
            (t.settle, s) :=
        (bind_of_ok he _).trans rfl
      rw [hp, settle_autoExposure, hauto, he]
      rfl

end Steps

end Trial

end Allotment
