import Allotment.Lab
import Allotment.Proofs.Expr.Acceptance
import Allotment.Proofs.Stateful
import Allotment.Proofs.Store.Outages
import Allotment.Proofs.Store.Upserts

/-!
# Experiments that are created and not seeded

An experiment that is asked for is created first and given its variables afterwards.  If the
control value cannot be read, or the experiment with the variables is not saved, then the
experiment stays in the store without any variable.  It is known from then on, so nobody seeds it
later.

**Results.**
* `Experiment.seeded_decides`: a control value seeds an experiment if all its values are
  definitions.
* `experiment_ends`: the ways in which the asking for an experiment ends.
* `failed_experiment_keeps_definitions_iff`: a failure leaves the stored definitions as they were
  exactly if the first call was refused.
-/

namespace Allotment

open Stateful

namespace Experiment

/-- The settings of variables, up to the first value that is no definition. -/
def settings (vars : List (String × Json)) : Except Fault (List Expr) :=
  vars.mapM fun x => (Expr.ofJson x.2).map (Expr.set x.1)

/-- The definition that a new experiment gets from a control value. -/
def seeded (control : Json) : Except Fault Definition :=
  (settings (controlVariables control)).map fun body => ⟨.seq body⟩

theorem settings_cons (x : String × Json) (rest : List (String × Json)) :
    settings (x :: rest) = do
      return (← (Expr.ofJson x.2).map (Expr.set x.1)) :: (← settings rest) := by
  exact List.mapM_cons

theorem settings_decides (vars : List (String × Json)) :
    Decides (∀ x ∈ vars, Grammar.WellFormed x.2) (settings vars) := by
  induction vars with
  | nil => exact .ok [] (by simp)
  | cons x rest ih =>
      have hx : Decides (Grammar.WellFormed x.2) (Expr.ofJson x.2) := x.2.judged
      rw [settings_cons]
      exact ((hx.map (Expr.set x.1)).both ih List.cons).of_iff List.forall_mem_cons

/-- A control value seeds an experiment exactly if all its values are definitions. -/
theorem seeded_decides (control : Json) :
    Decides (∀ x ∈ controlVariables control, Grammar.WellFormed x.2) (seeded control) := by
  exact (settings_decides _).map _

variable {e : Experiment} {vars : List (String × Json)} {body added : List Expr}

theorem addVariable_of_seq
    (he : e.definition = ⟨.seq body⟩) (key : String) (v : Json) :
    e.addVariable key v = (Expr.ofJson v).map fun x =>
      { e with definition := ⟨.seq (body ++ [.set key x])⟩ } := by
  unfold addVariable Definition.appendSet
  rw [he]
  cases Expr.ofJson v with
  | error fault => rfl
  | ok x => rfl

/-- Variables are appended to those that are there, up to the first fault. -/
theorem addVariables_of_seq
    (he : e.definition = ⟨.seq body⟩) (vars : List (String × Json)) :
    match settings vars with
    | .ok added => e.addVariables vars = ({ e with definition := ⟨.seq (body ++ added)⟩ }, none)
    | .error fault => (e.addVariables vars).2 = some fault := by
  induction vars generalizing e body with
  | nil =>
      show (e, none) = ({ e with definition := ⟨.seq (body ++ [])⟩ }, none)
      rw [List.append_nil, ← he]
  | cons x rest ih =>
      rw [settings_cons]
      unfold addVariables
      rw [addVariable_of_seq he]
      cases Expr.ofJson x.2 with
      | error fault => rfl
      | ok y =>
          let e' : Experiment := { e with definition := ⟨.seq (body ++ [.set x.1 y])⟩ }
          have he' : e'.definition = ⟨.seq (body ++ [.set x.1 y])⟩ := rfl
          have hrest := ih he'
          cases hsettings : settings rest with
          | error fault =>
              rw [hsettings] at hrest
              exact hrest
          | ok added =>
              rw [hsettings] at hrest
              exact hrest.trans (by simp [e'])

/-- A new experiment is given the definition of the control value. -/
theorem setFromControl_new
    {control : Json} {d : Definition} (h : seeded control = .ok d)
    (id : UInt64) (name : String) (now : Time) :
    (new id name now).setFromControl control =
      ({ new id name now with definition := d }, none) := by
  have hempty : (new id name now).definition = ⟨.seq []⟩ := rfl
  have hadd := addVariables_of_seq hempty (controlVariables control)
  obtain ⟨added, hsettings, rfl⟩ := of_map_eq_ok h
  rw [hsettings] at hadd
  exact hadd

/-- A new experiment is refused a control value that has no definition. -/
theorem setFromControl_new_of_error
    {control : Json} {fault : Fault} (h : seeded control = .error fault)
    (id : UInt64) (name : String) (now : Time) :
    ((new id name now).setFromControl control).2 = some fault := by
  have hempty : (new id name now).definition = ⟨.seq []⟩ := rfl
  have hadd := addVariables_of_seq hempty (controlVariables control)
  unfold seeded at h
  cases hsettings : settings (controlVariables control) with
  | error fault' =>
      rw [hsettings] at h hadd
      cases h
      exact hadd
  | ok added =>
      rw [hsettings] at h
      cases h

end Experiment

/-- The definition that is stored under a name. -/
def Memory.definition? (m : Memory) (name : String) : Option Definition :=
  (m.experiment? name).map Experiment.definition

namespace Lab

variable {name : String} {control : Json} {u u' w : Unreliable Memory}

/-- The experiment that is created for a name, once it has a definition. -/
def sown (name : String) (m : Memory) (d : Definition) : Experiment :=
  { Experiment.new m.nextId name m.now with definition := d }

theorem ask_of_known
    {e : Experiment} (hcall : u.refuses .ensureExperiment = false)
    (h : u.store.experiment? name = some e) :
    ∃ outages, (Store.ensureExperiment name : StoreM (Unreliable Memory) _) u =
      .ok (e, false) ⟨u.store, outages⟩ := by
  obtain ⟨outages, -, hask⟩ :=
    Unreliable.pass_of_not_refuses hcall (Store.ensureExperiment name : StoreM Memory _)
  rw [Memory.ensureExperiment_apply_of_some h] at hask
  exact ⟨outages, hask⟩

theorem ask_of_new
    (hcall : u.refuses .ensureExperiment = false) (h : u.store.experiment? name = none) :
    ∃ u₁ : Unreliable Memory, u₁.store = (u.store.ensureExperiment name).2 ∧
      u₁.refuses .saveExperiment = u.refuses .saveExperiment ∧
      (Store.ensureExperiment name : StoreM (Unreliable Memory) _) u =
        .ok (Experiment.new u.store.nextId name u.store.now, true) u₁ := by
  obtain ⟨outages, hother, hask⟩ :=
    Unreliable.pass_of_not_refuses hcall (Store.ensureExperiment name : StoreM Memory _)
  rw [Memory.ensureExperiment_apply_of_none h] at hask
  exact ⟨⟨(u.store.ensureExperiment name).2, outages⟩, rfl,
    hother _ .saveExperiment (by decide), hask⟩

theorem save_of_known
    {e old : Experiment} (hcall : u.refuses .saveExperiment = false)
    (h : u.store.experiment? e.name = some old) :
    ∃ outages, (Store.saveExperiment e : StoreM (Unreliable Memory) Unit) u =
      .ok () ⟨u.store.putExperiment (e.touch u.store.now), outages⟩ := by
  obtain ⟨outages, -, hsave⟩ :=
    Unreliable.pass_of_not_refuses hcall (Store.saveExperiment e : StoreM Memory Unit)
  rw [Memory.saveExperiment_apply_of_some h] at hsave
  exact ⟨outages, hsave⟩

/-- A new experiment whose control value cannot be read stays as it was created. -/
theorem experiment_of_unreadable
    {σ : Type} [Store σ] {s s₁ : σ} {id : UInt64} {now : Time} {fault : Fault}
    (hask : (Store.ensureExperiment name : StoreM σ _) s =
      .ok (Experiment.new id name now, true) s₁)
    (hseed : Experiment.seeded control = .error fault) :
    experiment name control s = .error fault s₁ := by
  have hset := Experiment.setFromControl_new_of_error hseed id name now
  rcases hread : (Experiment.new id name now).setFromControl control with ⟨e, failure⟩
  rw [hread] at hset
  cases hset
  unfold experiment
  rw [bind_of_ok hask]
  simp only [if_true, hread]
  rfl

/-- A new experiment with its definition is saved before it is given. -/
theorem experiment_of_readable
    {σ : Type} [Store σ] {s s₁ : σ} {m : Memory} {d : Definition}
    (hask : (Store.ensureExperiment name : StoreM σ _) s =
      .ok (Experiment.new m.nextId name m.now, true) s₁)
    (hseed : Experiment.seeded control = .ok d) :
    experiment name control s =
      (do Store.saveExperiment (sown name m d); return sown name m d : StoreM σ _) s₁ := by
  unfold experiment
  rw [bind_of_ok hask]
  simp only [if_true, Experiment.setFromControl_new hseed]
  rfl

/-- The ways in which the asking for an experiment ends, with the store that is left. -/
inductive Ends (name : String) (control : Json) (u : Unreliable Memory) :
    EStateM.Result Fault (Unreliable Memory) Experiment → Prop
  | refused
      {fault : Fault} {u' : Unreliable Memory}
      (hcall : u.refuses .ensureExperiment = true)
      (hstore : u'.store = u.store) :
      Ends name control u (.error fault u')
  | known
      {e : Experiment} {u' : Unreliable Memory}
      (hcall : u.refuses .ensureExperiment = false)
      (hknown : u.store.experiment? name = some e)
      (hstore : u'.store = u.store) :
      Ends name control u (.ok e u')
  | unreadable
      {fault : Fault} {u' : Unreliable Memory}
      (hcall : u.refuses .ensureExperiment = false)
      (hnew : u.store.experiment? name = none)
      (hseed : Experiment.seeded control = .error fault)
      (hstore : u'.store = (u.store.ensureExperiment name).2) :
      Ends name control u (.error fault u')
  | unsaved
      {fault : Fault} {u' : Unreliable Memory} {d : Definition}
      (hcall : u.refuses .ensureExperiment = false)
      (hnew : u.store.experiment? name = none)
      (hseed : Experiment.seeded control = .ok d)
      (hsave : u.refuses .saveExperiment = true)
      (hstore : u'.store = (u.store.ensureExperiment name).2) :
      Ends name control u (.error fault u')
  | seeded
      {u' : Unreliable Memory} {d : Definition}
      (hcall : u.refuses .ensureExperiment = false)
      (hnew : u.store.experiment? name = none)
      (hseed : Experiment.seeded control = .ok d)
      (hsave : u.refuses .saveExperiment = false)
      (hstore : u'.store =
        (u.store.ensureExperiment name).2.putExperiment (sown name u.store d)) :
      Ends name control u (.ok (sown name u.store d) u')

theorem experiment_ends (name : String) (control : Json) (u : Unreliable Memory) :
    Ends name control u (experiment name control u) := by
  cases hcall : u.refuses .ensureExperiment with
  | true =>
      obtain ⟨fault, outages, hask⟩ :=
        Unreliable.pass_of_refuses hcall (Store.ensureExperiment name : StoreM Memory _)
      have hends : experiment name control u = .error fault ⟨u.store, outages⟩ :=
        bind_of_error hask _
      rw [hends]
      exact .refused hcall rfl
  | false =>
      cases hfound : u.store.experiment? name with
      | some e =>
          obtain ⟨outages, hask⟩ := ask_of_known hcall hfound
          have hends : experiment name control u = .ok e ⟨u.store, outages⟩ :=
            bind_of_ok hask _
          rw [hends]
          exact .known hcall hfound rfl
      | none =>
          obtain ⟨u₁, hstore, hsame, hask⟩ := ask_of_new hcall hfound
          cases hseed : Experiment.seeded control with
          | error fault =>
              rw [experiment_of_unreadable hask hseed]
              exact .unreadable hcall hfound hseed hstore
          | ok d =>
              let e := sown name u.store d
              cases hsave : u.refuses .saveExperiment with
              | true =>
                  obtain ⟨fault, outages, hsaved⟩ := Unreliable.pass_of_refuses
                    (hsame.trans hsave) (Store.saveExperiment e : StoreM Memory Unit)
                  have hends : experiment name control u = .error fault ⟨u₁.store, outages⟩ :=
                    (experiment_of_readable hask hseed).trans (bind_of_error hsaved _)
                  rw [hends]
                  exact .unsaved hcall hfound hseed hsave hstore
              | false =>
                  have hthere : u₁.store.experiment? e.name =
                      some (u.store.ensureExperiment name).1.1 := by
                    rw [hstore, Memory.experiment?_ensureExperiment]
                    exact if_pos rfl
                  have hnow : u₁.store.now = u.store.now := by
                    rw [hstore, Memory.ensureExperiment_of_none hfound]
                  obtain ⟨outages, hsaved⟩ := save_of_known (hsame.trans hsave) hthere
                  rw [hnow, hstore] at hsaved
                  have hends := (experiment_of_readable hask hseed).trans (bind_of_ok hsaved _)
                  rw [hends]
                  exact .seeded hcall hfound hseed hsave rfl

/-- A name that was not known has the empty definition once it was asked for. -/
theorem definition?_of_created
    {m : Memory} (h : m.experiment? name = none) (n : String) :
    (m.ensureExperiment name).2.definition? n =
      if n = name then some .empty else m.definition? n := by
  unfold Memory.definition?
  rw [Memory.experiment?_ensureExperiment, Memory.ensureExperiment_of_none h]
  split
  · rfl
  · rfl

/-- What a store without failures answers to a control value that can be read: the definition
that is stored, or else the one of the control value. -/
theorem experiment_of_definition?
    (name : String) (hcall : w.refuses .ensureExperiment = false)
    (hsave : w.refuses .saveExperiment = false)
    {d : Definition} (hseed : Experiment.seeded control = .ok d) :
    ∃ e w', experiment name control w = .ok e w' ∧
      w'.store.definition? name = some e.definition ∧
      e.definition = (w.store.definition? name).getD d := by
  have hends := experiment_ends name control w
  generalize experiment name control w = r at hends ⊢
  cases hends with
  | refused hcall' => cases hcall.symm.trans hcall'
  | unreadable hcall' hnew hseed' => cases hseed.symm.trans hseed'
  | unsaved hcall' hnew hseed' hsave' => cases hsave.symm.trans hsave'
  | @known e w' hcall' hknown hstore =>
      have hdefinition : w.store.definition? name = some e.definition := by
        unfold Memory.definition?
        rw [hknown]
        rfl
      refine ⟨e, w', rfl, ?_, ?_⟩
      · rw [hstore, hdefinition]
      · rw [hdefinition]
        rfl
  | @seeded w' d' hcall' hnew hseed' hsave' hstore =>
      cases hseed.symm.trans hseed'
      refine ⟨sown name w.store d, w', rfl, ?_, ?_⟩
      · unfold Memory.definition?
        rw [hstore, Memory.experiment?_putExperiment, Memory.experiment?_ensureExperiment]
        simp [sown, Experiment.new]
      · unfold Memory.definition?
        rw [hnew]
        rfl

/-- What a failure leaves of the stored definitions. -/
theorem definitions_of_failed
    {fault : Fault} (h : experiment name control u = .error fault u') :
    u.refuses .ensureExperiment = true ∧
      (∀ n, u'.store.definition? n = u.store.definition? n) ∨
    u.refuses .ensureExperiment = false ∧ u.store.definition? name = none ∧
      ∀ n, u'.store.definition? n = if n = name then some .empty else u.store.definition? n := by
  have hends := experiment_ends name control u
  rw [h] at hends
  -- After the first call, a failure leaves what that call created.
  have hcreated (hnew : u.store.experiment? name = none)
      (hstore : u'.store = (u.store.ensureExperiment name).2) :
      u.store.definition? name = none ∧ ∀ n, u'.store.definition? n =
        if n = name then some .empty else u.store.definition? n := by
    constructor
    · unfold Memory.definition?
      rw [hnew]
      rfl
    · intro n
      rw [hstore, definition?_of_created hnew]
  cases hends with
  | refused hcall hstore => exact .inl ⟨hcall, fun n => by rw [hstore]⟩
  | unreadable hcall hnew _ hstore => exact .inr ⟨hcall, hcreated hnew hstore⟩
  | unsaved hcall hnew _ _ hstore => exact .inr ⟨hcall, hcreated hnew hstore⟩

/-- Over a memory of which any call may be refused: if the asking for an experiment fails, the
stored definitions are the same as before exactly if the first call was refused.  Otherwise the
name was not known before and has the empty definition now.  So a later call with a control value
that can be read gives a new experiment the variables of the control value after such a refusal,
and no variables after any other failure. -/
theorem failed_experiment_keeps_definitions_iff
    {fault : Fault} (h : experiment name control u = .error fault u') :
    ((∀ n, u'.store.definition? n = u.store.definition? n) ↔
      u.refuses .ensureExperiment = true) ∧
    (u.refuses .ensureExperiment = false →
      u.store.definition? name = none ∧
      ∀ n, u'.store.definition? n = if n = name then some .empty else u.store.definition? n) ∧
    ∀ (w : Unreliable Memory) (later : Json) (d : Definition),
      w.store.definition? name = u'.store.definition? name →
      w.refuses .ensureExperiment = false → w.refuses .saveExperiment = false →
      Experiment.seeded later = .ok d →
      ∃ e w', experiment name later w = .ok e w' ∧
        w'.store.definition? name = some e.definition ∧
        e.definition =
          if u.refuses .ensureExperiment then (u.store.definition? name).getD d else .empty := by
  rcases definitions_of_failed h with ⟨hcall, hkept⟩ | ⟨hcall, hnone, hleft⟩
  · refine ⟨⟨fun _ => hcall, fun _ => hkept⟩, fun hfalse => ?_, ?_⟩
    · cases hcall.symm.trans hfalse
    · intro w later d hsame hwcall hwsave hseed
      obtain ⟨e, w', hgiven, hstored, hdefinition⟩ :=
        experiment_of_definition? name hwcall hwsave hseed
      refine ⟨e, w', hgiven, hstored, ?_⟩
      rw [hdefinition, hsame, hkept, if_pos hcall]
  · refine ⟨⟨fun hkept => ?_, fun htrue => ?_⟩, fun _ => ⟨hnone, hleft⟩, ?_⟩
    · have hname := hkept name
      rw [hleft, if_pos rfl, hnone] at hname
      cases hname
    · cases hcall.symm.trans htrue
    · intro w later d hsame hwcall hwsave hseed
      obtain ⟨e, w', hgiven, hstored, hdefinition⟩ :=
        experiment_of_definition? name hwcall hwsave hseed
      refine ⟨e, w', hgiven, hstored, ?_⟩
      rw [hdefinition, hsame, hleft, if_pos rfl, hcall]
      rfl

section Sample

/-- A store without experiments that refuses nothing. -/
def sampleUnseeded : Unreliable Memory := { store := { now := ⟨0, 0⟩ } }

/-- A control value with an operator that does not exist. -/
def sampleMisspelt : Json := .object [("color", .object [("op", .string "nope")])]

/-- The store after the experiment was asked for with this control value. -/
def sampleLeft : Unreliable Memory :=
  { store :=
      { now := ⟨0, 0⟩
        nextId := 2
        experiments := [Experiment.new 1 "shop" ⟨0, 0⟩]
        names := [(1, "shop")] } }

/-- After a misspelt control value the corrected one gives the experiment no variable. -/
theorem sample_left_unseeded :
    experiment "shop" sampleMisspelt sampleUnseeded =
      .error (.invalidOperator (.unknownOperator "nope")) sampleLeft ∧
    ∃ e w', experiment "shop" (.object [("color", .string "red")]) sampleLeft = .ok e w' ∧
      w'.store.definition? "shop" = some .empty ∧ e.definition = .empty := by
  have h : experiment "shop" sampleMisspelt sampleUnseeded =
      .error (.invalidOperator (.unknownOperator "nope")) sampleLeft := by
    rfl
  obtain ⟨-, -, hlater⟩ := failed_experiment_keeps_definitions_iff h
  have hseed : Experiment.seeded (.object [("color", .string "red")]) =
      .ok ⟨.seq [.set "color" (.value (.string "red"))]⟩ := by
    rfl
  obtain ⟨e, w', hgiven, hstored, hdefinition⟩ := hlater sampleLeft _ _ rfl rfl rfl hseed
  have hempty : e.definition = .empty := hdefinition
  exact ⟨h, e, w', hgiven, hempty ▸ hstored, hempty⟩

/-- A failure to give an experiment does not mean that the stored definitions are as before and
that a later call seeds the experiment. -/
theorem failed_experiment_stays :
    ¬ ∀ (name : String) (control : Json) (u u' : Unreliable Memory) (fault : Fault),
      experiment name control u = .error fault u' →
      (∀ n, u'.store.definition? n = u.store.definition? n) ∧
      ∀ (later : Json) (d : Definition) (e : Experiment) (w' : Unreliable Memory),
        u.store.definition? name = none → Experiment.seeded later = .ok d →
        experiment name later u' = .ok e w' → e.definition = d := by
  intro hall
  obtain ⟨hkept, -⟩ := hall "shop" sampleMisspelt sampleUnseeded sampleLeft
    (.invalidOperator (.unknownOperator "nope")) rfl
  have hshop : sampleLeft.store.definition? "shop" = sampleUnseeded.store.definition? "shop" :=
    hkept "shop"
  cases hshop

end Sample

end Lab

end Allotment
