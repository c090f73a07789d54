import Allotment.Proofs.Trial.AtMostOnce

/-!
# The stages of a trial

A trial goes from one stage to the next and never back, whatever is asked of it and whichever
calls of its store fail.  The assignment that it has once it is evaluated is what its definition
gives, and it stays.

**Results.**
* `Effect.leadsTo`: a request keeps a trial where it is or moves it forward.
* `perform_settles`: a request that needs the assignment leaves the trial with it, even if the
  request fails.
* `answer_of_perform`: answers are taken from the assignment.
* `stages_ascend`: the stages and answers of a new trial along any sequence of requests.
-/

namespace Allotment

open Stateful

namespace Stage

/-- The first stage is the second one or comes before it, with the same assignment if it has
one. -/
inductive LeadsTo : Stage → Stage → Prop
  | same (stage : Stage) : LeadsTo stage stage
  | evaluated (a : Assignment) : LeadsTo .unevaluated (.evaluated a)
  | exposed (a : Assignment) : LeadsTo (.evaluated a) (.exposed a)
  /-- The trial is evaluated and exposed at once. -/
  | both (a : Assignment) : LeadsTo .unevaluated (.exposed a)

namespace LeadsTo

variable {p q r : Stage}

theorem trans (h : p.LeadsTo q) (h' : q.LeadsTo r) : p.LeadsTo r := by
  cases h with
  | same => exact h'
  | evaluated a =>
      cases h' with
      | same => exact .evaluated a
      | exposed => exact .both a
  | exposed a =>
      cases h' with
      | same => exact .exposed a
  | both a =>
      cases h' with
      | same => exact .both a

/-- What is known stays known. -/
theorem assignment? (h : p.LeadsTo q) {a : Assignment} (ha : p.assignment? = some a) :
    q.assignment? = some a := by
  cases h with
  | same => exact ha
  | evaluated b => cases ha
  | exposed b => exact ha
  | both b => cases ha

end LeadsTo

end Stage

namespace Trial

/-- With the salt of its experiment and without fixed variables, a trial evaluates what the
experiment binds for its inputs. -/
theorem params_of_outcome
    {t : Trial} {a : Assignment} (h : t.outcome = .ok a)
    (hsalt : t.salt = t.experiment.salt) (hoverrides : t.overrides = []) :
    t.experiment.params t.inputs = .ok a.values := by
  cases hrun : t.experiment.definition.run
      (({ salt := t.salt, inputs := t.inputs } : Env).withOverrides t.overrides) with
  | ok v env =>
      cases h.symm.trans (outcome_of_run hrun)
      rw [hsalt, hoverrides] at hrun
      have hparams : t.experiment.definition.run
          { salt := t.experiment.salt, inputs := t.inputs } = .ok v env := hrun
      unfold Experiment.params Definition.params
      simp only [hparams]
  | error fault env =>
      unfold outcome at h
      simp only [hrun] at h
      cases h

/-- The stages at which a trial can be that began without an evaluation. -/
inductive Admits (t : Trial) : Stage → Prop
  | unevaluated : Admits t .unevaluated
  | evaluated {a : Assignment} (h : t.outcome = .ok a) : Admits t (.evaluated a)
  | exposed {a : Assignment} (h : t.outcome = .ok a) (hin : a.takesPart = true) :
      Admits t (.exposed a)

namespace Admits

variable {t : Trial} {stage : Stage} {a : Assignment}

theorem outcome_of_known (h : t.Admits stage) (ha : stage.assignment? = some a) :
    t.outcome = .ok a := by
  cases h with
  | unevaluated => cases ha
  | evaluated hout =>
      cases ha
      exact hout
  | exposed hout hin =>
      cases ha
      exact hout

theorem assigned_eq (h : t.Admits stage) : (t.inStage stage).assigned = t.outcome := by
  cases h with
  | unevaluated => rfl
  | evaluated hout => exact hout.symm
  | exposed hout hin => exact hout.symm

/-- A trial is exposed for units that take part. -/
theorem takesPart (h : t.Admits (.exposed a)) : a.takesPart = true := by
  cases h with
  | exposed hout hin => exact hin

end Admits

variable {σ : Type} [Store σ]

section Step

variable {now : Time} {t : Trial} {s : σ} {x : Trial × σ} {a : Assignment}

/-- A request keeps a trial where it is or moves it forward. -/
theorem Effect.leadsTo (h : Effect now t s x) :
    ∃ stage, x.1 = t.inStage stage ∧ t.stage.LeadsTo stage := by
  cases h with
  | none => exact ⟨t.stage, rfl, .same _⟩
  | @settled a hstage hout =>
      refine ⟨.evaluated a, rfl, ?_⟩
      rw [hstage]
      exact .evaluated a
  | @unresolved a fault s' ha hnew hin hr =>
      refine ⟨.evaluated a, rfl, ?_⟩
      cases hs : t.stage with
      | unevaluated => exact .evaluated a
      | evaluated b =>
          simp only [assigned, hs] at ha
          cases ha
          exact .same _
      | exposed b => exact absurd ⟨b, hs⟩ hnew
  | @exposed a unit s' ha hnew hin hr =>
      refine ⟨.exposed a, rfl, ?_⟩
      cases hs : t.stage with
      | unevaluated => exact .both a
      | evaluated b =>
          simp only [assigned, hs] at ha
          cases ha
          exact .exposed a
      | exposed b => exact absurd ⟨b, hs⟩ hnew
  | logged data => exact ⟨t.stage, rfl, .same _⟩

/-- A request keeps to the stages that a trial admits. -/
theorem Effect.admits {stage : Stage} (h : Effect now (t.inStage stage) s x)
    (hstage : t.Admits stage) :
    ∃ stage', x.1 = t.inStage stage' ∧ t.Admits stage' := by
  have hassigned := hstage.assigned_eq
  cases h with
  | none => exact ⟨stage, rfl, hstage⟩
  | settled _ hout => exact ⟨_, rfl, .evaluated hout⟩
  | unresolved ha hnew hin hr => exact ⟨_, rfl, .evaluated (hassigned.symm.trans ha)⟩
  | exposed ha hnew hin hr => exact ⟨_, rfl, .exposed (hassigned.symm.trans ha) hin⟩
  | logged data => exact ⟨stage, rfl, hstage⟩

end Step

section Runs

theorem serve_leadsTo (requests : List (Time × Request)) (x : Trial × σ) :
    x.1.stage.LeadsTo (serve requests x).1.stage := by
  refine serve_keeps (P := fun y => x.1.stage.LeadsTo y.1.stage) ?_ requests (.same _)
  intro now t s y hpast heffect
  obtain ⟨stage, hy, hforward⟩ := heffect.leadsTo
  rw [hy]
  exact hpast.trans hforward

theorem serve_admits
    {t : Trial} (ht : t.stage = .unevaluated) (s : σ) (requests : List (Time × Request)) :
    ∃ stage, (serve requests (t, s)).1 = t.inStage stage ∧ t.Admits stage := by
  refine serve_keeps (P := fun y => ∃ stage, y.1 = t.inStage stage ∧ t.Admits stage)
    ?_ requests ⟨t.stage, rfl, ht ▸ .unevaluated⟩
  rintro now - s y ⟨stage, rfl, hstage⟩ heffect
  exact heffect.admits hstage

end Runs

section Answers

variable {t : Trial} {a : Assignment} {s : σ}

theorem settle_known (h : t.assigned = .ok a) : t.settle.stage.assignment? = some a := by
  rcases settle_of_ok h with ⟨hsettle, -⟩ | ⟨hsettle, hstage⟩
  · rw [hsettle]
    rfl
  · rw [hsettle, hstage]
    rfl

theorem logExposure_settles (h : t.assigned = .ok a) (now : Time) (s : σ) :
    (endState (logExposure now (t, s))).1.stage.assignment? = some a := by
  by_cases hex : t.IsExposed
  · obtain ⟨b, hb⟩ := hex
    have hsettle : t.settle = t := by simp [settle, hb]
    rw [logExposure_of_exposed hb, endState_ok, ← hsettle]
    exact settle_known h
  · cases hin : a.takesPart with
    | false =>
        rw [logExposure_of_excluded h hin]
        exact settle_known h
    | true =>
        cases hr : t.resolveUnit s with
        | error fault s' =>
            rw [logExposure_of_unresolved h hex hin hr]
            rfl
        | ok unit s' =>
            rw [logExposure_of_resolved h hex hin hr, endState_onStore]
            rfl

theorem prepare_settles (h : t.assigned = .ok a) (now : Time) (s : σ) :
    (endState (prepare now (t, s))).1.stage.assignment? = some a := by
  cases hauto : t.autoExposure with
  | true =>
      rw [prepare_of_auto hauto]
      exact logExposure_settles h now s
  | false =>
      rw [prepare_of_manual hauto, evaluate_apply, h]
      exact settle_known h

/-- A request that needs the assignment leaves the trial with it, even if the request fails. -/
theorem perform_settles
    (h : t.assigned = .ok a) {r : Request} (hr : r.evaluates = true) (now : Time) (s : σ) :
    (endState (perform now r (t, s))).1.stage.assignment? = some a := by
  rw [endState_perform]
  cases r with
  | get name => exact prepare_settles h now s
  | getOr name default => exact prepare_settles h now s
  | assignment => exact prepare_settles h now s
  | logExposure => exact logExposure_settles h now s
  | log data => cases hr

theorem prepare_of_error
    {fault : Fault} (h : t.assigned = .error fault) (now : Time) (s : σ) :
    prepare now (t, s) = .error fault (t, s) := by
  refine bind_of_error ?_ _
  rw [evaluate_apply, h]

/-- A request that needs the assignment fails if nothing can be prepared or recorded for it. -/
theorem perform_of_failure
    {now : Time} {x y : Trial × σ} {fault : Fault} (hprepare : prepare now x = .error fault y)
    (hlog : logExposure now x = .error fault y) {r : Request} (hr : r.evaluates = true) :
    perform now r x = .error fault y := by
  cases r with
  | get name => exact bind_of_error (bind_of_error (bind_of_error (bind_of_error hprepare _) _) _) _
  | getOr name default => exact bind_of_error (getOr_of_error hprepare name default) _
  | assignment => exact bind_of_error (bind_of_error hprepare _) _
  | logExposure => exact bind_of_error hlog _
  | log data => cases hr

/-- A request that needs the assignment fails if there is none, and leaves everything as it was. -/
theorem perform_of_error
    {fault : Fault} (h : t.assigned = .error fault) {r : Request} (hr : r.evaluates = true)
    (now : Time) (s : σ) :
    perform now r (t, s) = .error fault (t, s) :=
  perform_of_failure (prepare_of_error h now s) (logExposure_of_error h now s) hr

/-- What a request is to be answered with, according to the values of an assignment. -/
def Request.answer? (values : Dict Json) : Request → Option Answer
  | .get name => (Dict.get? values name).map .value
  | .getOr name default => some (.value ((Dict.get? values name).getD default))
  | .assignment => some (.values values)
  | .logExposure => some .done
  | .log _ => none

theorem assignment_of_prepare
    {now : Time} {x y : Trial × σ} (h : prepare now x = .ok () y)
    (hknown : y.1.stage.assignment? = some a) :
    assignment now x = .ok a.values y := by
  have hcurrent : current y = .ok y.1 y := rfl
  refine (bind_of_ok h _).trans ?_
  rw [bind_of_ok hcurrent, hknown]
  rfl

theorem getOr_of_prepare
    {now : Time} {x y : Trial × σ} (h : prepare now x = .ok () y)
    (hknown : y.1.stage.assignment? = some a) (name : String) (default : Json) :
    getOr now name default x = .ok ((Dict.get? a.values name).getD default) y := by
  have hlookup : lookup now name x = .ok (Dict.get? a.values name) y :=
    (bind_of_ok (assignment_of_prepare h hknown) _).trans rfl
  exact (bind_of_ok hlookup _).trans rfl

/-- The values that are answered are those of the assignment. -/
theorem values_of_assignment
    (h : t.assigned = .ok a) {now : Time} {values : Dict Json} {x : Trial × σ}
    (hvalues : assignment now (t, s) = .ok values x) :
    values = a.values := by
  obtain ⟨⟨⟩, y, hprepare, -⟩ := ok_of_bind hvalues
  have hknown := prepare_settles h now s
  rw [hprepare, endState_ok] at hknown
  cases (assignment_of_prepare hprepare hknown).symm.trans hvalues
  rfl

theorem value_of_lookup
    (h : t.assigned = .ok a) {now : Time} {name : String} {v : Option Json} {x : Trial × σ}
    (hv : lookup now name (t, s) = .ok v x) :
    v = Dict.get? a.values name := by
  obtain ⟨values, y, hvalues, hrest⟩ := ok_of_bind hv
  cases hrest
  rw [values_of_assignment h hvalues]

/-- Answers are taken from the assignment. -/
theorem answer_of_perform
    (h : t.assigned = .ok a) {r : Request} (hr : r.evaluates = true) {now : Time}
    {answer : Answer} {x : Trial × σ} (hanswer : perform now r (t, s) = .ok answer x) :
    r.answer? a.values = some answer := by
  -- Both questions for a value look it up, and differ in what they make of its absence.
  cases r with
  | get name =>
      obtain ⟨v, y, hget, hrest⟩ := ok_of_bind hanswer
      obtain ⟨found, z, hlookup, hfound⟩ := ok_of_bind hget
      have hvalue := value_of_lookup h hlookup
      cases hrest
      cases found with
      | none => cases hfound
      | some w =>
          cases hfound
          simp [Request.answer?, ← hvalue]
  | getOr name default =>
      obtain ⟨v, y, hget, hrest⟩ := ok_of_bind hanswer
      obtain ⟨found, z, hlookup, hfound⟩ := ok_of_bind hget
      have hvalue := value_of_lookup h hlookup
      cases hrest
      cases hfound
      simp [Request.answer?, ← hvalue]
  | assignment =>
      obtain ⟨values, y, hvalues, hrest⟩ := ok_of_bind hanswer
      cases hrest
      simp [Request.answer?, values_of_assignment h hvalues]
  | logExposure =>
      obtain ⟨⟨⟩, y, -, hrest⟩ := ok_of_bind hanswer
      cases hrest
      rfl
  | log data => cases hr

end Answers

/-- A trial that begins without an evaluation only moves forward, whatever is asked of its store
and whichever calls fail.  The assignment that it has at any time is what its definition gives,
and for good; a unit that is excluded is never exposed.  A request that needs the assignment
leaves the trial with it, unless the definition cannot be evaluated, and is answered from it. -/
theorem stages_ascend
    (t : Trial) (ht : t.stage = .unevaluated) (s : σ) (before after : List (Time × Request)) :
    let mid := serve before (t, s)
    let last := serve (before ++ after) (t, s)
    mid.1.stage.LeadsTo last.1.stage ∧
    (∀ a, mid.1.stage.assignment? = some a →
      t.outcome = .ok a ∧ last.1.stage.assignment? = some a ∧
      (t.salt = t.experiment.salt → t.overrides = [] →
        t.experiment.params t.inputs = .ok a.values)) ∧
    (∀ a, t.outcome = .ok a → a.takesPart = false → ¬ last.1.IsExposed) ∧
    ∀ now r, r.evaluates = true →
      match t.outcome with
      | .error fault => perform now r mid = .error fault mid
      | .ok a =>
          (endState (perform now r mid)).1.stage.assignment? = some a ∧
          ∀ answer x, perform now r mid = .ok answer x → r.answer? a.values = some answer := by
  intro mid last
  have hforward : mid.1.stage.LeadsTo last.1.stage := by
    have hlast : last = serve after mid := serve_append before after (t, s)
    rw [hlast]
    exact serve_leadsTo after mid
  obtain ⟨stage, hmid, hstage⟩ := serve_admits ht s before
  refine ⟨hforward, ?_, ?_, ?_⟩
  · intro a ha
    have hknown : stage.assignment? = some a := by
      rw [← inStage_stage t stage, ← hmid]
      exact ha
    have hout := hstage.outcome_of_known hknown
    exact ⟨hout, hforward.assignment? ha, params_of_outcome hout⟩
  · rintro a hout hexcluded ⟨b, hexposed⟩
    obtain ⟨stage', hlast, hstage'⟩ := serve_admits ht s (before ++ after)
    have hb : stage' = .exposed b := by
      rw [← inStage_stage t stage', ← hlast]
      exact hexposed
    subst hb
    cases hout.symm.trans (hstage'.outcome_of_known rfl)
    rw [hstage'.takesPart] at hexcluded
    cases hexcluded
  · intro now r hr
    have hassigned : mid.1.assigned = t.outcome := by
      show (serve before (t, s)).1.assigned = t.outcome
      rw [hmid]
      exact hstage.assigned_eq
    cases hout : t.outcome with
    | error fault => exact perform_of_error (hassigned.trans hout) hr now mid.2
    | ok a =>
        have ha := hassigned.trans hout
        exact ⟨perform_settles ha hr now mid.2, fun answer x => answer_of_perform ha hr⟩

section Sample

/-- The store refuses an exposure of the trial of color and size, so its first question is not
answered.  The assignment is there all the same, and the second question is answered from it. -/
theorem colorAndSize_stages_ascend :
    let ask : Time × Request := (⟨0, 0⟩, .get "color")
    let a : Assignment := ⟨[("color", .string "red"), ("size", .string "big")], true⟩
    let mid := serve [ask] (colorAndSize, refusingStore)
    colorAndSize.stage = .unevaluated ∧
      perform ask.1 ask.2 (colorAndSize, refusingStore) = .error (.storage "down") mid ∧
      mid.1.stage.LeadsTo (serve ([ask] ++ getThenExpose) (colorAndSize, refusingStore)).1.stage ∧
      colorAndSize.experiment.params colorAndSize.inputs = .ok a.values ∧
      Request.answer? a.values (.get "color") = some (.value (.string "red")) := by
  intro ask a mid
  have hfailed : perform ask.1 ask.2 (colorAndSize, refusingStore) =
      .error (.storage "down") mid := rfl
  have hmid : mid.1.stage.assignment? = some a := rfl
  have hanswered : perform ask.1 ask.2 mid = .ok (.value (.string "red")) mid := rfl
  have hout : colorAndSize.outcome = .ok a := rfl
  obtain ⟨hforward, hknown, -, hrequests⟩ :=
    stages_ascend colorAndSize rfl refusingStore [ask] getThenExpose
  have hrequest := hrequests ask.1 ask.2 rfl
  rw [hout] at hrequest
  exact ⟨rfl, hfailed, hforward, (hknown a hmid).2.2 rfl rfl, hrequest.2 _ _ hanswered⟩

end Sample

end Trial

end Allotment
