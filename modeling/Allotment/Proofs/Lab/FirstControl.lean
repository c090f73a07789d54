import Allotment.Proofs.Expr.Plain
import Allotment.Proofs.Lab.Joining
import Allotment.Proofs.Lab.Seeding
import Allotment.Proofs.Store.Recall
import Allotment.Proofs.Trial.Lifecycle

/-!
# The first control value

Whoever asks first for a value of an experiment that is not known seeds the experiment with a
control value.  If that holds no operators the experiment gives it to everybody from then on,
whatever control values and inputs the later questions bring along.

A question adds at most records of exposures to the store.  So the experiment and the registered
users stay as they are from one question to the next.

**Results.**
* `value_of_quote`: what a question is answered when the experiment is there.
* `answers_of_known`: the same for one question after the other.
* `first_control_sticks`: all questions are answered with the first control value.
-/

namespace Allotment

open Stateful

namespace Memory

/-- Recordings keep the experiments and the users. -/
theorem Recorded.kept
    {m m' : Memory} (h : Recorded m m') :
    m'.experiments = m.experiments ∧ m'.users = m.users := by
  induction h with
  | refl => exact ⟨rfl, rfl⟩
  | @ensureVariation m' h experiment key value ih =>
      cases hfind : m'.variation? experiment key value with
      | some w =>
          rw [ensureVariation_of_some hfind]
          exact ih
      | none =>
          rw [ensureVariation_of_none hfind]
          exact ih
  | addExposure h experiment variation unit circumstances ih => exact ih
  | pass h now ih => exact ih

end Memory

namespace Lab

/-- A question for the value that an experiment gives a variable: who asks where for which unit,
with which control value and other inputs. -/
structure Question where
  lab : Lab
  unit : Subject
  control : Json
  inputs : Dict Json

namespace Question

/-- The unit is complete and can be found: it is a registered user of the memory, or it has an
identifier of another type than users have. -/
def Resolves (q : Question) (m : Memory) : Prop :=
  match q.unit with
  | .user u => (m.user? u.id).isSome = true
  | .external identifier type =>
      identifier ≠ "" ∧ type ≠ "" ∧ type ≠ q.lab.config.internalType

variable {q : Question} {m m' : Memory}

theorem Resolves.of_users (h : q.Resolves m) (husers : m'.users = m.users) : q.Resolves m' := by
  unfold Resolves Memory.user? at h ⊢
  rw [husers]
  exact h

theorem Resolves.isComplete (h : q.Resolves m) : q.unit.isComplete = true := by
  unfold Resolves at h
  cases hunit : q.unit with
  | user u => rfl
  | external identifier type =>
      rw [hunit] at h
      simp [Subject.isComplete, h.1, h.2.1]

theorem Resolves.resolveUnit (h : q.Resolves m) (e : Experiment) :
    ∃ u, (q.lab.trialFor e q.unit q.inputs).resolveUnit m = .ok (some u) m := by
  unfold Resolves at h
  cases hunit : q.unit with
  | user u =>
      rw [hunit] at h
      obtain ⟨hidentifier, htype⟩ := given_trialFor q.lab e q.inputs
        (Subject.inputs_user u q.lab.config.internalType) (by simp [Json.ofWord]) (by simp)
      obtain ⟨user, huser⟩ := Option.isSome_iff_exists.1 h
      have hfind : (Store.findUser u.id : StoreM Memory _) m = .ok (some user) m :=
        congrArg (fun found => EStateM.Result.ok found m) huser
      exact ⟨.user user, Trial.resolveUnit_of_user htype hidentifier rfl
        (Trial.userId?_ofWord u.id) hfind⟩
  | external identifier type =>
      rw [hunit] at h
      exact ⟨_, resolveUnit_trialFor_of_external h.2.2 m⟩

end Question

section Quoted

variable {x : Expr} {v : Json} {name key : String} {m m₀ m' : Memory} {e : Experiment}
variable {q : Question}

/-- A trial of an experiment that sets one variable to a value that stands for itself. -/
theorem outcome_of_quote
    (hx : x.Quotes v) (he : e.definition = ⟨.seq [.set key x]⟩) (lab : Lab) (u : Subject)
    (inputs : Dict Json) :
    (lab.trialFor e u inputs).outcome = .ok ⟨[(key, v)], true⟩ := by
  obtain ⟨w, env', hrun, hbindings, htakes⟩ :=
    run_quote hx key e.salt (Dict.override inputs (u.inputs lab.config.internalType))
  rw [← he] at hrun
  have houtcome : (lab.trialFor e u inputs).outcome = .ok ⟨env'.bindings, env'.takesPart⟩ :=
    Trial.outcome_of_run hrun
  rw [houtcome, hbindings, htakes]

/-- A question that leads to such an experiment is answered with the value, and leaves at most
records of exposures behind. -/
theorem value_of_quote
    (hx : x.Quotes v) (he : e.definition = ⟨.seq [.set key x]⟩)
    (hgiven : experiment name (.object [(key, q.control)]) m = .ok e m₀) (hq : q.Resolves m₀) :
    ∃ m₁, q.lab.value name key (some q.unit) q.control q.inputs m = .ok v m₁ ∧
      Memory.Recorded m₀ m₁ := by
  let t := q.lab.trialFor e q.unit q.inputs
  let a : Assignment := ⟨[(key, v)], true⟩
  have ha : t.assigned = .ok a :=
    (Trial.assigned_of_unevaluated rfl).trans (outcome_of_quote hx he q.lab q.unit q.inputs)
  have hknown := Trial.prepare_settles ha q.lab.now m₀
  -- The exposure cannot fail, as the unit is found; without automatic exposure there is none.
  have hprepare : ∃ t' m₁, Trial.prepare q.lab.now (t, m₀) = .ok () (t', m₁) ∧
      Memory.Recorded m₀ m₁ := by
    cases hauto : t.autoExposure with
    | true =>
        obtain ⟨u, hu⟩ := hq.resolveUnit e
        have hnew : ¬ t.IsExposed := Trial.not_isExposed_of_unevaluated rfl
        rw [Trial.prepare_of_auto hauto, Trial.logExposure_apply ha hnew rfl hu]
        exact ⟨_, _, rfl, Memory.recorded_expose _ _ _ _ m₀⟩
    | false =>
        rw [Trial.prepare_of_manual hauto, Trial.evaluate_apply, ha]
        exact ⟨_, m₀, rfl, .refl⟩
  obtain ⟨t', m₁, hprepare, hrecorded⟩ := hprepare
  rw [hprepare] at hknown
  refine ⟨m₁, ?_, hrecorded⟩
  have hvalue : (Dict.get? a.values key).getD q.control = v := by simp [a, Dict.get?]
  rw [value_apply hq.isComplete hgiven]
  unfold Trial.once
  rw [Trial.getOr_of_prepare hprepare hknown key q.control, hvalue]

/-- Asks for the value at the time of the laboratory. -/
def ask (name key : String) (q : Question) : StoreM Memory Json := fun m =>
  q.lab.value name key (some q.unit) q.control q.inputs { m with now := q.lab.now }

/-- Asks one question after the other, up to the first one that fails. -/
def askAll (name key : String) : List Question → StoreM Memory (List Json)
  | [] => return []
  | q :: rest => do
      let v ← ask name key q
      let vs ← askAll name key rest
      return v :: vs

/-- A new experiment is given with the definition of its control value, which is saved. -/
theorem experiment_of_new
    {control : Json} {d : Definition} (hnew : m.experiment? name = none)
    (hseed : Experiment.seeded control = .ok d) :
    ∃ m₀, experiment name control m = .ok (sown name m d) m₀ ∧
      m₀.definition? name = some d ∧ m₀.users = m.users := by
  let m₁ := (m.ensureExperiment name).2
  let e := sown name m d
  have hthere : m₁.experiment? e.name = some (m.ensureExperiment name).1.1 := by
    rw [Memory.experiment?_ensureExperiment]
    exact if_pos rfl
  have hask := Memory.ensureExperiment_apply_of_none hnew
  have hsave := Memory.saveExperiment_apply_of_some hthere
  refine ⟨m₁.putExperiment (e.touch m₁.now),
    (experiment_of_readable hask hseed).trans (bind_of_ok hsave _), ?_, ?_⟩
  · have hname : (e.touch m₁.now).name = name := rfl
    unfold Memory.definition?
    rw [Memory.experiment?_putExperiment, hname, if_pos rfl]
    have hfound : m₁.experiment? name = some (m.ensureExperiment name).1.1 := hthere
    rw [hfound]
    rfl
  · show m₁.users = m.users
    simp only [m₁, Memory.ensureExperiment_of_none hnew]

/-- A question about an experiment that is there is answered with the value, and leaves the
experiment and the users as they are. -/
theorem answer_of_known
    (hx : x.Quotes v) (hd : m.definition? name = some ⟨.seq [.set key x]⟩) (hq : q.Resolves m) :
    ∃ m', ask name key q m = .ok v m' ∧ m'.definition? name = m.definition? name ∧
      m'.users = m.users := by
  obtain ⟨e, he, hdefinition⟩ := Option.map_eq_some_iff.1 hd
  let now : Memory := { m with now := q.lab.now }
  have henow : now.experiment? name = some e := he
  have hgiven : experiment name (.object [(key, q.control)]) now = .ok e now :=
    bind_of_ok (Memory.ensureExperiment_apply_of_some henow) _
  obtain ⟨m', hvalue, hrecorded⟩ := value_of_quote hx hdefinition hgiven (hq.of_users rfl)
  obtain ⟨hexperiments, husers⟩ := hrecorded.kept
  refine ⟨m', hvalue, ?_, husers⟩
  unfold Memory.definition? Memory.experiment?
  rw [hexperiments]

theorem answers_of_known
    (hx : x.Quotes v) {questions : List Question}
    (hd : m.definition? name = some ⟨.seq [.set key x]⟩) (hall : ∀ q ∈ questions, q.Resolves m) :
    ∃ m', askAll name key questions m = .ok (List.replicate questions.length v) m' ∧
      m'.definition? name = m.definition? name := by
  induction questions generalizing m with
  | nil => exact ⟨m, rfl, rfl⟩
  | cons q rest ih =>
      obtain ⟨hq, hrest⟩ := List.forall_mem_cons.1 hall
      obtain ⟨m₁, hfirst, hdefinition, husers⟩ := answer_of_known hx hd hq
      obtain ⟨m', hothers, hkept⟩ := ih (hdefinition.trans hd)
        fun q' hq' => (hrest q' hq').of_users husers
      refine ⟨m', ?_, hkept.trans hdefinition⟩
      exact (bind_of_ok hfirst _).trans ((bind_of_ok hothers _).trans rfl)

/-- The question that seeds an experiment is answered with its control value. -/
theorem answer_of_new
    (hnew : m.experiment? name = none) (hq : q.Resolves m) (hx : x.Quotes q.control) :
    ∃ m', ask name key q m = .ok q.control m' ∧
      m'.definition? name = some ⟨.seq [.set key x]⟩ ∧ m'.users = m.users := by
  let now : Memory := { m with now := q.lab.now }
  have hseed : Experiment.seeded (.object [(key, q.control)]) = .ok ⟨.seq [.set key x]⟩ := by
    have hsettings : Experiment.settings [(key, q.control)] = .ok [.set key x] := by
      rw [Experiment.settings_cons, hx.read]
      rfl
    show (Experiment.settings [(key, q.control)]).map _ = _
    rw [hsettings]
    rfl
  have hnow : now.experiment? name = none := hnew
  obtain ⟨m₀, hgiven, hdefinition, husers⟩ := experiment_of_new hnow hseed
  obtain ⟨m', hvalue, hrecorded⟩ := value_of_quote hx rfl hgiven (hq.of_users husers)
  obtain ⟨hexperiments, husers'⟩ := hrecorded.kept
  refine ⟨m', hvalue, ?_, husers'.trans husers⟩
  rw [← hdefinition]
  unfold Memory.definition? Memory.experiment?
  rw [hexperiments]

end Quoted

/-- Whoever asks first for a value of an experiment that is not known, with a control value
without operators, makes it the answer to this question and to all that follow, if their units
are found: whatever the control values and the inputs are that come with them.  After each of
them the stored definition is the setting of the variable to this value. -/
theorem first_control_sticks
    {m : Memory} {name : String} (hnew : m.experiment? name = none) (key : String)
    (first : Question) (later : List Question)
    (hplain : first.control.holdsOperator = false)
    (hfound : ∀ q ∈ first :: later, q.Resolves m) :
    ∃ x, Expr.ofJson first.control = .ok x ∧ x.toJson = first.control ∧
      ∀ asked, asked <+: later →
        ∃ m', askAll name key (first :: asked) m =
            .ok (List.replicate (asked.length + 1) first.control) m' ∧
          m'.definition? name = some ⟨.seq [.set key x]⟩ := by
  obtain ⟨x, hx⟩ := Json.exists_quote first.control hplain
  obtain ⟨hfirst, hlater⟩ := List.forall_mem_cons.1 hfound
  obtain ⟨m₁, hanswer, hdefinition, husers⟩ := answer_of_new hnew hfirst hx
  refine ⟨x, hx.read, hx.written, fun asked hasked => ?_⟩
  obtain ⟨m', hanswers, hkept⟩ := answers_of_known hx hdefinition
    fun q hq => (hlater q (hasked.subset hq)).of_users husers
  refine ⟨m', ?_, hkept.trans hdefinition⟩
  exact (bind_of_ok hanswer _).trans ((bind_of_ok hanswers _).trans rfl)

section Sample

/-- A control value with an object that looks like an operator, but is not evaluated. -/
def sampleControl : Json :=
  .array [.string "red", .object [("theme", .object [("op", .string "get"), ("var", .null)])]]

/-- A device asks first, and then a registered user with a control value of no use. -/
def sampleQuestions : List Question :=
  [⟨⟨{}, ⟨1, 0⟩⟩, .external "abc" "device_id", sampleControl, []⟩,
    ⟨⟨{ autoExposure := false }, ⟨2, 0⟩⟩, .user ⟨42, "ann"⟩, .object [("op", .null)],
      [("color", .string "blue")]⟩]

/-- Both are answered with the first control value, which is stored as it is. -/
theorem sample_first_control_sticks :
    sampleControl.holdsOperator = false ∧
    (∀ q ∈ sampleQuestions, q.Resolves registeredAnn) ∧
    ∃ m' x,
      askAll "shop" "color" sampleQuestions registeredAnn =
        .ok [sampleControl, sampleControl] m' ∧
      x.toJson = sampleControl ∧ m'.definition? "shop" = some ⟨.seq [.set "color" x]⟩ := by
  have hplain : sampleControl.holdsOperator = false := rfl
  have hfound : ∀ q ∈ sampleQuestions, q.Resolves registeredAnn := by
    simp [sampleQuestions, Question.Resolves, registeredAnn, Memory.user?]
  have hnew : registeredAnn.experiment? "shop" = none := rfl
  obtain ⟨x, -, hwritten, hafter⟩ := first_control_sticks hnew "color" _ _ hplain hfound
  obtain ⟨m', hanswers, hdefinition⟩ := hafter _ (List.prefix_refl _)
  exact ⟨hplain, hfound, m', x, hanswers, hwritten, hdefinition⟩

end Sample

end Lab

end Allotment
