import Allotment.Proofs.Trial.Lifecycle
import Allotment.Proofs.Trial.Simulation

/-!
# Failures before the first write

A request can fail before anything is written: the definition cannot be evaluated, the unit has
the type of registered users and an identifier that is no number or that of no user, or the search
for the user fails.  What such a failure leaves behind is the assignment, if there is one, and the
store as the search has left it.

A trial with its assignment answers like one that has yet to be evaluated, so after any number of
such failures a request is answered as if it was the first one.

**Results.**
* `Obstacle.perform_eq`: what a request comes to that fails before the first write.
* `perform_settle`: an assignment that is known makes no difference to an answer.
* `failures_leave_nothing`: nothing is written by such requests, and later ones are answered as
  without them.
-/

namespace Allotment

open Stateful

namespace Trial

theorem settle_of_error
    {t : Trial} {fault : Fault} (h : t.assigned = .error fault) :
    t.settle = t ∧ t.stage = .unevaluated := by
  unfold assigned at h
  cases hs : t.stage with
  | unevaluated =>
      simp only [hs] at h
      exact ⟨by simp [settle, hs, h], rfl⟩
  | evaluated a => simp [hs] at h
  | exposed a => simp [hs] at h

theorem settle_of_new
    {t : Trial} {a : Assignment} (h : t.assigned = .ok a) (hnew : ¬ t.IsExposed) :
    t.settle = t.inStage (.evaluated a) := by
  rcases settle_of_ok h with ⟨hsettle, -⟩ | ⟨-, hs⟩
  · exact hsettle
  · exact absurd ⟨a, hs⟩ hnew

/-- An evaluation does not count as an exposure. -/
theorem settle_isExposed_iff (t : Trial) :
    t.settle.IsExposed ↔ t.IsExposed := by
  cases h : t.assigned with
  | error fault => rw [(settle_of_error h).1]
  | ok a =>
      rcases settle_of_ok h with ⟨hsettle, hnew⟩ | ⟨hsettle, -⟩
      · rw [hsettle]
        refine iff_of_false ?_ hnew
        rintro ⟨b, hb⟩
        cases hb
      · rw [hsettle]

section Settled

variable {σ : Type}

theorem evaluate_settle (t : Trial) (s : σ) :
    evaluate (t.settle, s) = evaluate (t, s) := by
  rw [evaluate_apply, evaluate_apply]
  cases h : t.assigned with
  | error fault => rw [(settle_of_error h).1, h]
  | ok a => rw [settle_assigned h, settle_settle]

variable [Store σ]

/-- An assignment that is known makes no difference to the answer to a request that needs it. -/
theorem perform_settle
    {r : Request} (hr : r.evaluates = true) (now : Time) (t : Trial) (s : σ) :
    perform now r (t.settle, s) = perform now r (t, s) := by
  have hlog : logExposure now (t.settle, s) = logExposure now (t, s) :=
    bind_of_same (evaluate_settle t s) _
  have hassignment : assignment now (t.settle, s) = assignment now (t, s) :=
    bind_of_same (bind_of_same (evaluate_settle t s) _) _
  cases r with
  | get name => exact bind_of_same (bind_of_same (bind_of_same hassignment _) _) _
  | getOr name default => exact bind_of_same (bind_of_same (bind_of_same hassignment _) _) _
  | assignment => exact bind_of_same hassignment _
  | logExposure => exact bind_of_same hlog _
  | log data => cases hr

end Settled

/-- The request has the exposures recorded, if there is nothing against it. -/
def Exposing (t : Trial) (r : Request) : Prop :=
  r = .logExposure ∨ t.autoExposure = true ∧ r.evaluates = true

/-- The request makes the trial look for the registered user of an identifier. -/
structure Seeking (t : Trial) (r : Request) (identifier : Json) : Prop where
  exposing : t.Exposing r
  takesPart : ∃ a, t.assigned = .ok a ∧ a.takesPart = true
  isNew : ¬ t.IsExposed
  internal : ∃ type, t.given Subject.typeInput = some type ∧ type.label = t.internalType
  identifier : t.given Subject.unitInput = some identifier

section Obstacles

variable {σ : Type} [Store σ]

/-- What can make a request fail before the first write, the fault, and the store afterwards. -/
inductive Obstacle (t : Trial) (r : Request) (s : σ) : Fault → σ → Prop
  /-- The definition cannot be evaluated. -/
  | unevaluable {fault : Fault}
      (hr : r.evaluates = true) (hstage : t.stage = .unevaluated)
      (hout : t.outcome = .error fault) :
      Obstacle t r s fault s
  /-- The identifier is not the number of a user. -/
  | noNumber {identifier : Json}
      (hseek : t.Seeking r identifier) (hid : userId? identifier = none) :
      Obstacle t r s (.userNotFound identifier.label) s
  /-- No user has the number. -/
  | unknown {identifier : Json} {id : UInt64} {s' : σ}
      (hseek : t.Seeking r identifier) (hid : userId? identifier = some id)
      (hfind : Store.findUser id s = .ok none s') :
      Obstacle t r s (.userNotFound (wordText id)) s'
  /-- The search for the user fails. -/
  | refused {identifier : Json} {id : UInt64} {fault : Fault} {s' : σ}
      (hseek : t.Seeking r identifier) (hid : userId? identifier = some id)
      (hfind : Store.findUser id s = .error fault s') :
      Obstacle t r s fault s'

namespace Obstacle

variable {t : Trial} {r : Request} {s s' : σ} {fault : Fault}

/-- There is no assignment, or the unit is needed and cannot be found. -/
theorem assigned_or_resolveUnit
    (h : Obstacle t r s fault s') :
    t.assigned = .error fault ∧ s' = s ∧ r.evaluates = true ∨
      t.Exposing r ∧ (∃ a, t.assigned = .ok a ∧ a.takesPart = true) ∧
        t.resolveUnit s = .error fault s' := by
  cases h with
  | unevaluable hr hstage hout => exact .inl ⟨(assigned_of_unevaluated hstage).trans hout, rfl, hr⟩
  | noNumber hseek hid =>
      obtain ⟨type, htype, hinternal⟩ := hseek.internal
      exact .inr ⟨hseek.exposing, hseek.takesPart,
        resolveUnit_of_noNumber htype hseek.identifier hinternal hid⟩
  | unknown hseek hid hfind =>
      obtain ⟨type, htype, hinternal⟩ := hseek.internal
      exact .inr ⟨hseek.exposing, hseek.takesPart,
        resolveUnit_of_unknown htype hseek.identifier hinternal hid hfind⟩
  | refused hseek hid hfind =>
      obtain ⟨type, htype, hinternal⟩ := hseek.internal
      exact .inr ⟨hseek.exposing, hseek.takesPart,
        resolveUnit_of_fault htype hseek.identifier hinternal hid hfind⟩

theorem not_isExposed
    (h : Obstacle t r s fault s') :
    ¬ t.IsExposed := by
  cases h with
  | unevaluable hr hstage hout => exact not_isExposed_of_unevaluated hstage
  | noNumber hseek hid => exact hseek.isNew
  | unknown hseek hid hfind => exact hseek.isNew
  | refused hseek hid hfind => exact hseek.isNew

/-- The request fails, and the trial has its assignment, if there is one. -/
theorem perform_eq
    (h : Obstacle t r s fault s') (now : Time) :
    perform now r (t, s) = .error fault (t.settle, s') := by
  have hnew := h.not_isExposed
  rcases h.assigned_or_resolveUnit with ⟨ha, rfl, hr⟩ | ⟨hexposing, ⟨a, ha, hin⟩, hunit⟩
  · rw [(settle_of_error ha).1]
    exact perform_of_error ha hr now s'
  · have hlog := logExposure_of_unresolved ha hnew hin hunit now
    rw [← settle_of_new ha hnew] at hlog
    rcases hexposing with rfl | ⟨hauto, hr⟩
    · exact bind_of_error hlog _
    · exact perform_of_failure ((prepare_of_auto hauto now s).trans hlog) hlog hr

/-- Nothing has been written. -/
theorem writes_eq
    {j j' : Journaled σ} (h : Obstacle t r j fault j') :
    j'.journal.writes = j.journal.writes := by
  rcases h.assigned_or_resolveUnit with ⟨-, rfl, -⟩ | ⟨-, -, hunit⟩
  · rfl
  · rcases resolveUnit_journal t j with ⟨_, _, hfound, -⟩ | ⟨_, _, hfault, hwrites, -⟩
    · cases hfound.symm.trans hunit
    · cases hfault.symm.trans hunit
      exact hwrites

/-- The store is what it was if a search for a user leaves it so. -/
theorem store_eq
    {j j' : Journaled σ} (h : Obstacle t r j fault j')
    (hfind : ∀ id (s : σ), endState (Store.findUser id s) = s) :
    j'.store = j.store := by
  rcases h.assigned_or_resolveUnit with ⟨-, rfl, -⟩ | ⟨-, -, hunit⟩
  · rfl
  · have hstore : (endState (t.resolveUnit j)).store = endState (t.resolveUnit j.store) :=
      endState_related (resolveUnit_inStep (agree_journaled σ) t) rfl
    rwa [hunit, endState_error, endState_resolveUnit (fun id => hfind id j.store)] at hstore

end Obstacle

end Obstacles

section Attempts

variable {σ : Type}

/-- A request that fails, and what becomes of the store until the next one. -/
structure Attempt (σ : Type) where
  now : Time
  request : Request
  /-- The fault with which the request fails. -/
  fault : Fault
  /-- What others make of the store afterwards. -/
  meanwhile : σ → σ

variable [Store σ]

namespace Attempt

/-- The trial and the store before the next attempt. -/
def run (x : Trial × Journaled σ) (attempt : Attempt σ) : Trial × Journaled σ :=
  let (t, j) := endState (perform attempt.now attempt.request x)
  (t, { j with store := attempt.meanwhile j.store })

/-- The results of some attempts. -/
def results : List (Attempt σ) → Trial × Journaled σ → List (Except Fault Answer)
  | [], _ => []
  | attempt :: rest, x =>
      (match perform attempt.now attempt.request x with
        | .ok answer _ => .ok answer
        | .error fault _ => .error fault) :: results rest (run x attempt)

/-- What others make of the store. -/
def others (attempts : List (Attempt σ)) (s : σ) : σ :=
  attempts.foldl (fun s attempt => attempt.meanwhile s) s

end Attempt

open Attempt

/-- All attempts fail before the first write. -/
inductive FailEarly : List (Attempt σ) → Trial × Journaled σ → Prop
  | nil (x : Trial × Journaled σ) : FailEarly [] x
  | cons {attempt : Attempt σ} {rest : List (Attempt σ)} {x : Trial × Journaled σ}
      {j : Journaled σ}
      (h : Obstacle x.1 attempt.request x.2 attempt.fault j)
      (hrest : FailEarly rest (run x attempt)) :
      FailEarly (attempt :: rest) x

/-- The trial and the store after an attempt that fails before the first write. -/
theorem run_of_obstacle
    {attempt : Attempt σ} {x : Trial × Journaled σ} {j : Journaled σ}
    (h : Obstacle x.1 attempt.request x.2 attempt.fault j) :
    run x attempt = (x.1.settle, { j with store := attempt.meanwhile j.store }) := by
  unfold run
  rw [h.perform_eq attempt.now]
  rfl

namespace FailEarly

variable {attempts : List (Attempt σ)} {x : Trial × Journaled σ}

theorem results_eq
    (h : FailEarly attempts x) :
    results attempts x = attempts.map fun attempt => .error attempt.fault := by
  induction h with
  | nil x => rfl
  | @cons attempt rest x j h hrest ih =>
      rw [results, h.perform_eq attempt.now, ih]
      rfl

theorem writes_eq
    (h : FailEarly attempts x) :
    (attempts.foldl run x).2.journal.writes = x.2.journal.writes := by
  induction h with
  | nil x => rfl
  | cons h hrest ih =>
      rw [List.foldl_cons, ih, run_of_obstacle h]
      exact h.writes_eq

/-- After any number of attempts the trial is what it was or has its assignment. -/
theorem trial_eq
    (h : FailEarly attempts x) :
    (attempts.foldl run x).1 = if attempts = [] then x.1 else x.1.settle := by
  induction h with
  | nil x => rfl
  | @cons attempt rest x j h hrest ih =>
      rw [List.foldl_cons, ih, run_of_obstacle h, settle_settle, ite_self, if_neg (by simp)]

theorem not_isExposed
    (h : FailEarly attempts x) (hsome : attempts ≠ []) :
    ¬ x.1.IsExposed := by
  cases h with
  | nil => exact absurd rfl hsome
  | cons h hrest => exact h.not_isExposed

/-- The store is what others make of it if a search for a user leaves it as it is. -/
theorem store_eq
    (h : FailEarly attempts x) (hfind : ∀ id (s : σ), endState (Store.findUser id s) = s) :
    (attempts.foldl run x).2.store = others attempts x.2.store := by
  induction h with
  | nil x => rfl
  | @cons attempt rest x j h hrest ih =>
      rw [List.foldl_cons, ih, run_of_obstacle h]
      show others rest (attempt.meanwhile j.store) = others rest (attempt.meanwhile x.2.store)
      rw [h.store_eq hfind]

/-- A request is answered as if it was the first one. -/
theorem perform_eq
    (h : FailEarly attempts x) {r : Request} (hr : r.evaluates = true) (now : Time)
    (j : Journaled σ) :
    perform now r ((attempts.foldl run x).1, j) = perform now r (x.1, j) := by
  rw [h.trial_eq]
  split
  · rfl
  · exact perform_settle hr now x.1 j

end FailEarly

/-- Requests that fail before the first write leave nothing behind, however many they are and
whatever others make of the store in between: no variation and no exposure is asked for, and the
trial is not exposed; it has its assignment, unless the definition cannot be evaluated.  A later
request is answered as without them on whatever the store is then, and that is what others have
made of it, as long as a search for a user leaves a store as it is. -/
theorem failures_leave_nothing
    {t : Trial} {s : σ} {attempts : List (Attempt σ)}
    (h : FailEarly attempts (t, (⟨s, []⟩ : Journaled σ))) :
    let x := attempts.foldl run (t, (⟨s, []⟩ : Journaled σ))
    results attempts (t, (⟨s, []⟩ : Journaled σ)) =
        attempts.map (fun attempt => .error attempt.fault) ∧
      x.2.journal.writes = [] ∧
      (attempts ≠ [] → ¬ x.1.IsExposed ∧
        match t.assigned with
        | .error _ => t.stage = .unevaluated ∧ x.1 = t
        | .ok a => x.1 = t.inStage (.evaluated a)) ∧
      ∀ now (r : Request), r.evaluates = true →
        (∀ j : Journaled σ, perform now r (x.1, j) = perform now r (t, j)) ∧
        ((∀ id (s : σ), endState (Store.findUser id s) = s) →
          Matches (Alike fun j s => j.store = s)
            (perform now r x) (perform now r (t, others attempts s))) := by
  intro x
  refine ⟨h.results_eq, h.writes_eq, fun hsome => ?_, fun now r hr => ⟨h.perform_eq hr now, ?_⟩⟩
  · have hnew := h.not_isExposed hsome
    have hx : x.1 = t.settle := h.trial_eq.trans (if_neg hsome)
    rw [hx]
    refine ⟨fun hexposed => hnew ((settle_isExposed_iff t).1 hexposed), ?_⟩
    cases ha : t.assigned with
    | error fault => exact ⟨(settle_of_error ha).2, (settle_of_error ha).1⟩
    | ok a => exact settle_of_new ha hnew
  · intro hfind
    have hstore : x.2.store = others attempts s := h.store_eq hfind
    have hfirst : perform now r x = perform now r (t, x.2) := h.perform_eq hr now x.2
    rw [hfirst]
    exact perform_inStep (agree_journaled σ) now r _ _ ⟨rfl, hstore⟩

end Attempts

section Sample

/-- The trial of color and size for a registered user. -/
def colorAndSizeForUser : Trial :=
  { colorAndSize with inputs := Subject.inputs (.user ⟨42, "ada"⟩) Config.defaultInternalType }

/-- The user is registered after the second attempt only. -/
def failingAttempts : List (Attempt Memory) :=
  [⟨⟨0, 0⟩, .get "color", .userNotFound "42", id⟩,
    ⟨⟨1, 0⟩, .logExposure, .userNotFound "42", fun m => m.putUser ⟨42, "ada"⟩⟩]

/-- Both attempts fail without a trace, and the third one exposes the user. -/
theorem colorAndSize_retried :
    let t := colorAndSizeForUser
    let m : Memory := { now := ⟨5, 0⟩ }
    let x := failingAttempts.foldl Attempt.run (t, (⟨m, []⟩ : Journaled Memory))
    FailEarly failingAttempts (t, (⟨m, []⟩ : Journaled Memory)) ∧
      x.2.journal.writes = [] ∧ ¬ x.1.IsExposed ∧
      Matches (Alike fun j s => j.store = s)
        (perform ⟨2, 0⟩ (.get "color") x)
        (perform ⟨2, 0⟩ (.get "color") (t, m.putUser ⟨42, "ada"⟩)) ∧
      ∃ y, perform ⟨2, 0⟩ (.get "color") (t, m.putUser ⟨42, "ada"⟩) =
          .ok (.value (.string "red")) y ∧
        y.2.exposures.map (fun e => e.unit) = [.user ⟨42, "ada"⟩, .user ⟨42, "ada"⟩] := by
  intro t m x
  have hfirst : t.Seeking (.get "color") (.ofWord 42) :=
    ⟨.inr ⟨rfl, rfl⟩, ⟨_, rfl, rfl⟩, not_isExposed_of_unevaluated rfl, ⟨_, rfl, rfl⟩, rfl⟩
  have hsecond : t.settle.Seeking .logExposure (.ofWord 42) :=
    ⟨.inl rfl, ⟨_, rfl, rfl⟩, fun hexposed => hfirst.isNew ((settle_isExposed_iff t).1 hexposed),
      ⟨_, rfl, rfl⟩, rfl⟩
  have hfail : FailEarly failingAttempts (t, (⟨m, []⟩ : Journaled Memory)) :=
    .cons (.unknown hfirst rfl rfl) (.cons (.unknown hsecond rfl rfl) (.nil _))
  obtain ⟨-, hwrites, hstage, hlater⟩ := failures_leave_nothing hfail
  exact ⟨hfail, hwrites, (hstage (by simp [failingAttempts])).1,
    (hlater ⟨2, 0⟩ (.get "color") rfl).2 (fun _ _ => rfl), _, rfl, rfl⟩

end Sample

end Trial

end Allotment
