import Allotment.Proofs.Trial.Steps

/-!
# Requests to a trial

What can be asked of a trial, and what one request does to the trial and to its store.

**Results.**
* `perform_effect`: a request has one of five effects.
* `serve_keeps`: what each effect keeps, any sequence of requests keeps.
-/

namespace Allotment

open Stateful

namespace Trial

/-- What can be asked of a trial. -/
inductive Request where
  | get (name : String)
  /-- The value of a variable, or a default. -/
  | getOr (name : String) (default : Json)
  | assignment
  /-- That the exposures are recorded. -/
  | logExposure
  /-- That the log of the experiment gets an entry. -/
  | log (data : Json)

/-- The request has the definition evaluated. -/
def Request.evaluates : Request → Bool
  | .log _ => false
  | _ => true

/-- What a request is answered with. -/
inductive Answer where
  | value (v : Json)
  | values (values : Dict Json)
  | done
  | entry (entry : LogEntry)

variable {σ : Type} [Store σ]

/-- Carries out a request. -/
def perform (now : Time) : Request → Step σ Answer
  | .get name => do return .value (← get now name)
  | .getOr name default => do return .value (← getOr now name default)
  | .assignment => do return .values (← assignment now)
  | .logExposure => do
      logExposure now
      return .done
  | .log data => do return .entry (← onStore ((← current).log data))

/-- The trial and the store after some requests, each made at its time, whatever the answers. -/
def serve : List (Time × Request) → Trial × σ → Trial × σ
  | [], x => x
  | (now, r) :: rest, x => serve rest (endState (perform now r x))

@[simp] theorem serve_nil (x : Trial × σ) :
    serve [] x = x := by
  rfl

theorem serve_append (before after : List (Time × Request)) (x : Trial × σ) :
    serve (before ++ after) x = serve after (serve before x) := by
  induction before generalizing x with
  | nil => rfl
  | cons r before ih => exact ih _

theorem endState_assignment (now : Time) (x : Trial × σ) :
    endState (assignment now x) = endState (prepare now x) := by
  refine endState_bind _ (fun _ y => ?_) x
  have hcurrent : current y = .ok y.1 y := by
    rfl
  refine (congrArg endState (bind_of_ok hcurrent _)).trans ?_
  cases y.1.stage.assignment? <;> rfl

theorem endState_lookup (now : Time) (name : String) (x : Trial × σ) :
    endState (lookup now name x) = endState (prepare now x) := by
  rw [← endState_assignment]
  exact endState_bind _ (fun _ _ => rfl) x

theorem endState_getOr (now : Time) (name : String) (default : Json) (x : Trial × σ) :
    endState (getOr now name default x) = endState (prepare now x) := by
  rw [← endState_lookup now name]
  exact endState_bind _ (fun _ _ => rfl) x

/-- Without a preparation there is no answer. -/
theorem getOr_of_error
    {now : Time} {x y : Trial × σ} {fault : Fault} (h : prepare now x = .error fault y)
    (name : String) (default : Json) :
    getOr now name default x = .error fault y :=
  bind_of_error (bind_of_error (bind_of_error h _) _) _

/-- An answer changes what its preparation changes. -/
theorem endState_perform (now : Time) (r : Request) (t : Trial) (s : σ) :
    endState (perform now r (t, s)) =
      match r with
      | .logExposure => endState (logExposure now (t, s))
      | .log data => (t, endState (t.log data s))
      | _ => endState (prepare now (t, s)) := by
  cases r with
  | get name =>
      rw [← endState_lookup now name]
      refine (endState_bind _ (fun _ _ => rfl) _).trans (endState_bind _ (fun v y => ?_) _)
      cases v <;> rfl
  | getOr name default =>
      rw [← endState_getOr now name default]
      exact endState_bind _ (fun _ _ => rfl) _
  | assignment =>
      rw [← endState_assignment]
      exact endState_bind _ (fun _ _ => rfl) _
  | logExposure => exact endState_bind _ (fun _ _ => rfl) _
  | log data =>
      refine (endState_bind (onStore (t.log data)) (fun _ _ => rfl) (t, s)).trans ?_
      exact endState_onStore _ t s

/-- Every request that has the definition evaluated makes an automatic trial record its
exposures. -/
theorem endState_perform_of_auto
    {t : Trial} (hauto : t.autoExposure = true) {r : Request} (hr : r.evaluates = true)
    (now : Time) (s : σ) :
    endState (perform now r (t, s)) = endState (logExposure now (t, s)) := by
  rw [endState_perform]
  cases r with
  | get name => simp only [prepare_of_auto hauto]
  | getOr name default => simp only [prepare_of_auto hauto]
  | assignment => simp only [prepare_of_auto hauto]
  | logExposure => rfl
  | log data => cases hr

/-- What a request may do to a trial and its store. -/
inductive Effect (now : Time) (t : Trial) (s : σ) : Trial × σ → Prop
  | none : Effect now t s (t, s)
  /-- The definition is evaluated. -/
  | settled {a : Assignment}
      (hstage : t.stage = .unevaluated) (hout : t.outcome = .ok a) :
      Effect now t s (t.inStage (.evaluated a), s)
  /-- The store is asked for the unit in vain. -/
  | unresolved {a : Assignment} {fault : Fault} {s' : σ}
      (ha : t.assigned = .ok a) (hnew : ¬ t.IsExposed) (hin : a.takesPart = true)
      (hr : t.resolveUnit s = .error fault s') :
      Effect now t s (t.inStage (.evaluated a), s')
  /-- The unit becomes known, the trial counts as exposed and the exposures are recorded. -/
  | exposed {a : Assignment} {unit : Option Subject} {s' : σ}
      (ha : t.assigned = .ok a) (hnew : ¬ t.IsExposed) (hin : a.takesPart = true)
      (hr : t.resolveUnit s = .ok unit s') :
      Effect now t s (t.inStage (.exposed a), endState (t.record now unit a.values s'))
  /-- The log of the experiment is written. -/
  | logged (data : Json) : Effect now t s (t, endState (t.log data s))

theorem effect_settle
    (now : Time) {t : Trial} {a : Assignment} (h : t.assigned = .ok a) (s : σ) :
    Effect now t s (t.settle, s) := by
  cases hs : t.stage with
  | unevaluated =>
      have ho : t.outcome = .ok a := by simpa [assigned, hs] using h
      have hsettle : t.settle = t.inStage (.evaluated a) := by simp [settle, hs, ho]
      rw [hsettle]
      exact .settled hs ho
  | evaluated b =>
      have hsettle : t.settle = t := by simp [settle, hs]
      rw [hsettle]
      exact .none
  | exposed b =>
      have hsettle : t.settle = t := by simp [settle, hs]
      rw [hsettle]
      exact .none

theorem evaluate_effect (now : Time) (t : Trial) (s : σ) :
    Effect now t s (endState (evaluate (t, s))) := by
  rw [evaluate_apply]
  cases h : t.assigned with
  | error fault => exact .none
  | ok a => exact effect_settle now h s

theorem logExposure_effect (now : Time) (t : Trial) (s : σ) :
    Effect now t s (endState (logExposure now (t, s))) := by
  cases h : t.assigned with
  | error fault =>
      rw [logExposure_of_error h]
      exact .none
  | ok a =>
      by_cases hex : t.IsExposed
      · obtain ⟨b, hb⟩ := hex
        rw [logExposure_of_exposed hb]
        exact .none
      · cases hin : a.takesPart with
        | false =>
            rw [logExposure_of_excluded h hin]
            exact effect_settle now h s
        | true =>
            cases hr : t.resolveUnit s with
            | error fault s' =>
                rw [logExposure_of_unresolved h hex hin hr]
                exact .unresolved h hex hin hr
            | ok unit s' =>
                rw [logExposure_of_resolved h hex hin hr, endState_onStore]
                exact .exposed h hex hin hr

/-- A request has one of the effects. -/
theorem perform_effect (now : Time) (r : Request) (t : Trial) (s : σ) :
    Effect now t s (endState (perform now r (t, s))) := by
  have hprepare : Effect now t s (endState (prepare now (t, s))) := by
    cases hauto : t.autoExposure with
    | true =>
        rw [prepare_of_auto hauto]
        exact logExposure_effect now t s
    | false =>
        rw [prepare_of_manual hauto]
        exact evaluate_effect now t s
  rw [endState_perform]
  cases r with
  | get name => exact hprepare
  | getOr name default => exact hprepare
  | assignment => exact hprepare
  | logExposure => exact logExposure_effect now t s
  | log data => exact .logged data

/-- What every effect keeps, any sequence of requests keeps. -/
theorem serve_keeps
    {P : Trial × σ → Prop}
    (hstep : ∀ now t s x, P (t, s) → Effect now t s x → P x)
    (requests : List (Time × Request)) {x : Trial × σ} (h : P x) :
    P (serve requests x) := by
  induction requests generalizing x with
  | nil => exact h
  | cons r rest ih =>
      obtain ⟨now, r⟩ := r
      exact ih (hstep now x.1 x.2 _ h (perform_effect now r x.1 x.2))

end Trial

end Allotment
