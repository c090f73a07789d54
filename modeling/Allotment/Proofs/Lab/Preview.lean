import Allotment.Proofs.Eval.Inputs
import Allotment.Proofs.Lab.Units
import Allotment.Proofs.Trial.InMemory
import Allotment.Proofs.Trial.Ordered

/-!
# What a preview predicts

A preview evaluates a definition for each of some identifiers and counts what they are given.
A trial for an identifier has the type of the identifier as one more input.  As long as the
definition does not read it, the two evaluations are the same, so the preview tells how many
exposures new trials record.

**Results.**
* `outcome_of_params`: an input that is not read makes no difference to a trial.
* `get?_tally`: a tally has the number of occurrences.
* `preview_predicts_exposures`: the counts of a preview are the exposures that trials add.
-/

namespace Allotment

open Stateful

namespace Experiment

/-- A tally has the number of occurrences of each label. -/
theorem get?_tally
    (labels : List String) (x : String) :
    (Dict.get? (tally labels) x).getD 0 = labels.count x := by
  have hcount : ∀ d : Dict Nat,
      (Dict.get? (labels.foldl (fun d x => Dict.alter d x fun n => n.getD 0 + 1) d) x).getD 0 =
        (Dict.get? d x).getD 0 + labels.count x := by
    induction labels with
    | nil => simp
    | cons y rest ih =>
        intro d
        rw [List.foldl_cons, ih, Dict.alter, Dict.get?_insert, List.count_cons]
        by_cases hxy : x = y
        · subst hxy
          simp
          omega
        · have hyx : ¬ y = x := fun h => hxy h.symm
          simp [hxy, hyx]
  simpa [tally] using hcount []

/-- The labels of some units are those of the first and those of the others. -/
theorem labelsFor_cons
    {e : Experiment} {key : String} {unit : Json} {rest : List Json} {labels : List String}
    (h : e.labelsFor key (unit :: rest) = .ok labels) :
    ∃ label others, e.labelFor key unit = .ok label ∧ e.labelsFor key rest = .ok others ∧
      labels = label.toList ++ others := by
  unfold labelsFor at h
  split at h
  · cases h
  · rename_i label hlabel
    split at h
    · cases h
    · rename_i others hothers
      cases h
      exact ⟨label, others, hlabel, hothers, rfl⟩

end Experiment

namespace Lab

variable {e : Experiment} {key identifier : String}

/-- What a definition gives an identifier it gives a new trial for the identifier, if it does not
read the type. -/
theorem outcome_of_params
    (lab : Lab) (type : String) (hunread : .get Subject.typeInput ∉ e.definition.root.nodes)
    {values : Dict Json}
    (h : e.params [(Subject.unitInput, .string identifier)] = .ok values) :
    ∃ a, (lab.trialFor e (.external identifier type) []).outcome = .ok a ∧ a.values = values := by
  have hsame : SameBut e.definition.root.nodes
      { salt := e.salt, inputs := [(Subject.unitInput, .string identifier)] }
      { salt := e.salt
        inputs := Dict.override []
          ((Subject.external identifier type).inputs lab.config.internalType) } := by
    refine ⟨rfl, rfl, rfl, rfl, fun x hx => ?_⟩
    have hne : x ≠ Subject.typeInput := fun heq => hunread (heq ▸ hx)
    simp only [Subject.inputs_external, Dict.override, List.foldl_cons, List.foldl_nil,
      Dict.get?_insert, if_neg hne]
    by_cases hxu : x = Subject.unitInput <;> simp [Dict.get?, hxu, Ne.symm]
  have hmatch := eval_unread none e.definition.root hsame
  unfold Experiment.params Definition.params Definition.run at h
  generalize eval none e.definition.root _ = result at hmatch h
  generalize hrun : eval none e.definition.root _ = result' at hmatch
  cases hmatch with
  | @ok v final final' hfinal =>
      have houtcome : (lab.trialFor e (.external identifier type) []).outcome =
          .ok ⟨final'.bindings, final'.takesPart⟩ :=
        Trial.outcome_of_run hrun
      refine ⟨_, houtcome, ?_⟩
      rw [← hfinal.bindings]
      exact Except.ok.inj h
  | error fault hfinal => cases h

/-- The label that a preview finds for an identifier is that of what a new trial is given. -/
theorem outcome_of_labelFor
    (lab : Lab) (type : String) (hunread : .get Subject.typeInput ∉ e.definition.root.nodes)
    {label : Option String}
    (h : e.labelFor key (.string identifier) = .ok label) :
    ∃ a, (lab.trialFor e (.external identifier type) []).outcome = .ok a ∧
      label = (Dict.get? a.values key).map Json.label := by
  unfold Experiment.labelFor at h
  cases hparams : e.params [(Subject.unitInput, .string identifier)] with
  | error fault =>
      rw [hparams] at h
      cases h
  | ok values =>
      rw [hparams] at h
      obtain ⟨a, ha, rfl⟩ := outcome_of_params lab type hunread hparams
      exact ⟨a, ha, (Except.ok.inj h).symm⟩

/-- A preview of an experiment that is there counts the labels of the units. -/
theorem labelsFor_of_preview
    {m m' : Memory} {name : String} (he : m.experiment? name = some e) {units : List Json}
    {counts : Dict Nat} (h : preview name key units m = .ok counts m') :
    ∃ labels, e.labelsFor key units = .ok labels ∧ counts = Experiment.tally labels := by
  have hfind : (Store.findExperiment name : StoreM Memory _) m = .ok (some e) m := by
    show Memory.view (fun m => .ok (m.experiment? name)) m = _
    simp only [Memory.view, he]
  have hexisting : (existing name : StoreM Memory Experiment) m = .ok e m :=
    (bind_of_ok hfind _).trans rfl
  have hpreview := (bind_of_ok hexisting _).symm.trans h
  unfold Experiment.preview at hpreview
  cases hlabels : e.labelsFor key units with
  | error fault =>
      rw [hlabels] at hpreview
      cases hpreview
  | ok labels =>
      rw [hlabels] at hpreview
      cases hpreview
      exact ⟨labels, rfl, rfl⟩

/-- A new trial for an identifier, and what is asked of it when. -/
structure Visit where
  identifier : String
  now : Time
  request : Trial.Request

/-- The memory after a visit, whatever its answer was. -/
def visit (lab : Lab) (e : Experiment) (type : String) (m : Memory) (v : Visit) : Memory :=
  (endState (Trial.perform v.now v.request
    (lab.trialFor e (.external v.identifier type) [], { m with now := v.now }))).2

/-- The memory after some visits. -/
def visits (lab : Lab) (e : Experiment) (type : String) (m : Memory) : List Visit → Memory
  | [] => m
  | v :: rest => visits lab e type (lab.visit e type m v) rest

section Visits

variable {lab : Lab} {type : String}
variable (hauto : lab.config.autoExposure = true) (htype : type ≠ lab.config.internalType)
include hauto htype

/-- A visit exposes the identifier to what it is given. -/
theorem visit_apply
    {v : Visit} (hv : v.request.evaluates = true) {a : Assignment}
    (ha : (lab.trialFor e (.external v.identifier type) []).outcome = .ok a)
    (hin : a.takesPart = true) (m : Memory) :
    lab.visit e type m v =
      Memory.expose e.id (some (.external v.identifier type))
        ((lab.trialFor e (.external v.identifier type) []).circumstances v.now) a.values
        { m with now := v.now } := by
  rw [← Trial.assigned_of_unevaluated rfl] at ha
  unfold visit
  rw [Trial.endState_perform_of_resolved ha (Trial.not_isExposed_of_unevaluated rfl) hin
    (resolveUnit_trialFor_of_external htype _) hauto hv]
  rfl

variable (hunread : .get Subject.typeInput ∉ e.definition.root.nodes)
include hunread

/-- A visit adds an exposure to the variation whose label a preview finds. -/
theorem visit_exposes
    {v : Visit} (hv : v.request.evaluates = true)
    (hin : ∀ a, (lab.trialFor e (.external v.identifier type) []).outcome = .ok a →
      a.takesPart = true)
    {label : Option String} (h : e.labelFor key (.string v.identifier) = .ok label) (m : Memory) :
    Memory.Exposes e.id key label.toList m (lab.visit e type m v) := by
  obtain ⟨a, ha, rfl⟩ := outcome_of_labelFor lab type hunread h
  rw [visit_apply hauto htype hv ha (hin a ha)]
  exact (Memory.Exposes.of_expose e.id _ _ (Trial.ascending_outcome ha) key _).of_pass

/-- Visits add an exposure for each label that a preview finds. -/
theorem visits_expose
    {vs : List Visit} (hvs : ∀ v ∈ vs, v.request.evaluates = true)
    (hin : ∀ v ∈ vs, ∀ a, (lab.trialFor e (.external v.identifier type) []).outcome = .ok a →
      a.takesPart = true)
    {labels : List String}
    (h : e.labelsFor key (vs.map fun v => .string v.identifier) = .ok labels) (m : Memory) :
    Memory.Exposes e.id key labels m (lab.visits e type m vs) := by
  induction vs generalizing m labels with
  | nil =>
      cases h
      exact .nil e.id key m
  | cons v rest ih =>
      obtain ⟨label, others, hlabel, hothers, rfl⟩ := Experiment.labelsFor_cons h
      have hfirst := visit_exposes hauto htype hunread (hvs v List.mem_cons_self)
        (hin v List.mem_cons_self) hlabel m
      have hrest := ih (fun v' hv' => hvs v' (List.mem_cons_of_mem v hv'))
        (fun v' hv' => hin v' (List.mem_cons_of_mem v hv')) hothers (lab.visit e type m v)
      exact hfirst.append hrest

end Visits

/-- On a reachable memory, the counts of a preview are the exposures that new trials add for the
identifiers, if the definition does not read the type of the identifiers, none of them is
excluded and there are numbers for the records. -/
theorem preview_predicts_exposures
    (lab : Lab) (hauto : lab.config.autoExposure = true) {m : Memory} (hm : m.Reachable)
    {name : String} {e : Experiment} (he : m.experiment? name = some e)
    (hunread : .get Subject.typeInput ∉ e.definition.root.nodes)
    {type : String} (htype : type ≠ lab.config.internalType)
    {vs : List Visit} (hvs : ∀ v ∈ vs, v.request.evaluates = true)
    (hin : ∀ v ∈ vs, ∀ a, (lab.trialFor e (.external v.identifier type) []).outcome = .ok a →
      a.takesPart = true)
    {key : String} {counts : Dict Nat}
    (hpreview : preview name key (vs.map fun v => .string v.identifier) m = .ok counts m)
    (hroom : m.nextId.toNat + ((lab.visits e type m vs).recordCount - m.recordCount) < UInt64.size)
    (value : String) :
    match (lab.visits e type m vs).variation? e.id key value with
    | some w => ((lab.visits e type m vs).exposuresOf w.id).length =
        (m.exposuresOf w.id).length + (Dict.get? counts value).getD 0
    | none => (Dict.get? counts value).getD 0 = 0 := by
  obtain ⟨labels, hlabels, rfl⟩ := labelsFor_of_preview he hpreview
  have hexposes := visits_expose hauto htype hunread hvs hin hlabels m
  have hnumbered := (hm.recorded hexposes.recorded hroom).numbered
  rw [Experiment.get?_tally]
  cases hw : (lab.visits e type m vs).variation? e.id key value with
  | some w => exact hexposes.count _ value w .refl hnumbered hw
  | none =>
      refine List.count_eq_zero.2 fun hmem => ?_
      obtain ⟨w, hw'⟩ := hexposes.found value hmem
      cases hw.symm.trans hw'

section Sample

/-- An experiment that gives an identifier back. -/
def echo : Experiment where
  id := 1
  name := "echo"
  definition := ⟨.seq [.set "who" (.get Subject.unitInput)]⟩
  goalIds := []
  createdAt := ⟨0, 0⟩
  modifiedAt := ⟨0, 0⟩

/-- A memory with the experiment. -/
def echoMemory : Memory where
  now := ⟨0, 0⟩
  nextId := 2
  experiments := [echo]
  names := [(1, "echo")]

/-- Three visits by two identifiers. -/
def echoVisits : List Visit :=
  [⟨"ann", ⟨1, 0⟩, .get "who"⟩, ⟨"bob", ⟨2, 0⟩, .assignment⟩, ⟨"ann", ⟨3, 0⟩, .logExposure⟩]

theorem echoMemory_reachable :
    echoMemory.Reachable := by
  have hcreated := (Memory.Reachable.new ⟨0, 0⟩).step (.ensureExperiment "echo") (by decide)
  exact hcreated.step (.saveExperiment (e := echo) rfl) (by decide)

/-- The identifier that visits twice is counted twice. -/
theorem echo_preview_predicts :
    let lab : Lab := ⟨{}, ⟨0, 0⟩⟩
    let m' := lab.visits echo "name" echoMemory echoVisits
    preview "echo" "who" (echoVisits.map fun v => .string v.identifier) echoMemory =
      .ok [("ann", 2), ("bob", 1)] echoMemory ∧
    ∃ w, m'.variation? 1 "who" "ann" = some w ∧ (m'.exposuresOf w.id).length = 2 := by
  intro lab m'
  have hpreview :
      preview "echo" "who" (echoVisits.map fun v => .string v.identifier) echoMemory =
        .ok [("ann", 2), ("bob", 1)] echoMemory := by
    rfl
  have hunread : .get Subject.typeInput ∉ echo.definition.root.nodes := by
    simp [echo, Expr.nodes, Expr.nodesAll, Subject.typeInput, Subject.unitInput]
  have hvs : ∀ v ∈ echoVisits, v.request.evaluates = true := by
    decide
  have hin : ∀ v ∈ echoVisits, ∀ a,
      (lab.trialFor echo (.external v.identifier "name") []).outcome = .ok a →
        a.takesPart = true := by
    intro v hv a ha
    simp only [echoVisits, List.mem_cons, List.not_mem_nil, or_false] at hv
    rcases hv with rfl | rfl | rfl
    · cases ha
      rfl
    · cases ha
      rfl
    · cases ha
      rfl
  have hroom : echoMemory.nextId.toNat +
      ((lab.visits echo "name" echoMemory echoVisits).recordCount - echoMemory.recordCount) <
        UInt64.size := by
    decide
  have hpredicts := preview_predicts_exposures lab rfl echoMemory_reachable rfl hunread
    (by decide) hvs hin hpreview hroom "ann"
  exact ⟨hpreview, ⟨2, 1, "who", "ann", ⟨1, 0⟩⟩, rfl, hpredicts⟩

end Sample

end Lab

end Allotment
