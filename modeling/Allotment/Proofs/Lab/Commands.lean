import Allotment.Proofs.Lab.Seeding
import Allotment.Proofs.Store.Attachments
import Allotment.Proofs.Trial.Simulation

/-!
# What a laboratory does to a memory

Every call of a laboratory is done by deeds.  None of them forgets anything, and the only record of
an experiment that is saved is one that the call has created.  So the calls of laboratories, one
after the other, lose no goal that is attached.  They may if another deed comes between the deeds of
a call: a goal is lost that is attached to a new experiment before the call that has created the
experiment saves it.

**Results.**
* `run_careful`: a call is done by deeds of this kind.
* `attached_goal_listed`: which deeds leave an attached goal in its list.
-/

namespace Allotment

open Stateful

namespace Memory

variable {m m' m'' start : Memory}

/-- The second memory has come from the first by deeds that did not forget and saved no record of
an experiment that was there before. -/
def Careful (m m' : Memory) : Prop :=
  ∃ deeds, Course m deeds m' ∧ (∀ d ∈ deeds, d.clears = false) ∧
    ∀ e, .saved e ∈ deeds → m.experiment? e.name = none

namespace Careful

theorem refl (m : Memory) : Careful m m := ⟨[], .nil, by simp, by simp⟩

theorem of_happens
    {d : Deed} (h : Happens m d m') (hkeep : d.clears = false) (hsaved : ∀ e, d ≠ .saved e) :
    Careful m m' := by
  refine ⟨[d], .single h, by simpa using hkeep, fun e he => ?_⟩
  exact absurd (List.mem_singleton.1 he).symm (hsaved e)

theorem trans
    (h : Careful m m') (h' : Careful m' m'') :
    Careful m m'' := by
  obtain ⟨deeds, hcourse, hkeep, hsaved⟩ := h
  obtain ⟨deeds', hcourse', hkeep', hsaved'⟩ := h'
  refine ⟨deeds ++ deeds', hcourse.append hcourse', fun d hd => ?_, fun e he => ?_⟩
  · exact (List.mem_append.1 hd).elim (hkeep d) (hkeep' d)
  · rcases List.mem_append.1 he with he | he
    · exact hsaved e he
    · obtain ⟨created, hgrowth⟩ := hcourse.grows hkeep
      cases hfind : m.experiment? e.name with
      | none => rfl
      | some old =>
          obtain ⟨old', hold', -⟩ := hgrowth.experiment?_of_some hfind
          rw [hsaved' e he] at hold'
          cases hold'

/-- A computation that is done carefully from every memory goes on carefully. -/
theorem inStep
    {α : Type} {x : StoreM Memory α} (h : ∀ m, Careful m (endState (x m))) :
    InStep (fun a b => a = b ∧ Careful start a) x x := by
  rintro m _ ⟨rfl, hm⟩
  have hend := hm.trans (h m)
  cases hx : x m with
  | ok a m' =>
      rw [hx] at hend
      exact .ok a ⟨rfl, hend⟩
  | error fault m' =>
      rw [hx] at hend
      exact .error fault ⟨rfl, hend⟩

end Careful

theorem careful_view
    {α : Type} (f : Memory → Except Fault α) (m : Memory) :
    Careful m (endState (view f m)) := by
  unfold view
  cases f m with
  | ok a => exact .refl m
  | error fault => exact .refl m

theorem careful_change
    {f : Memory → Except Fault Memory} (h : ∀ m', f m = .ok m' → Careful m m') :
    Careful m (endState (change f m)) := by
  unfold change
  cases hf : f m with
  | ok m' =>
      simp only [endState_ok]
      exact h m' hf
  | error fault => exact .refl m

/-- A memory that trials use carefully agrees with itself. -/
theorem agree_careful (start : Memory) : Agree fun a b => a = b ∧ Careful start a where
  ensureVariation experiment key value :=
    Careful.inStep fun _ => .of_happens (.variation experiment key value) rfl (by simp)
  addExposure experiment variation unit circumstances :=
    Careful.inStep fun _ =>
      .of_happens (.exposure experiment variation unit circumstances) rfl (by simp)
  addLog experiment data :=
    Careful.inStep fun _ => .of_happens (.logged experiment data) rfl (by simp)
  findUser id := Careful.inStep (careful_view fun m => .ok (m.user? id))

end Memory

/-- A call of a laboratory, or a request to a trial in the state that it has come to. -/
inductive Command where
  | experiment (name : String) (control : Json)
  | value (name key : String) (unit : Option Subject) (control : Json) (inputs : Dict Json)
  | achieve (goal : String) (unit : Subject) (value : Float) (related : Option Related)
  | attachGoal (experiment goal : String)
  | results (experiment : String)
  | preview (experiment key : String) (units : List Json)
  | request (t : Trial) (r : Trial.Request)

namespace Lab

open Memory (Careful)

variable {start : Memory}

/-- Carries out a call for what it does to the store. -/
def run {σ : Type} [Store σ] (lab : Lab) : Command → StoreM σ Unit
  | .experiment name control => do let _ ← experiment name control
  | .value name key unit control inputs => do let _ ← lab.value name key unit control inputs
  | .achieve goal unit value related => do let _ ← lab.achieve goal unit value related
  | .attachGoal experiment goal => do let _ ← attachGoal experiment goal
  | .results experiment => do let _ ← lab.results experiment
  | .preview experiment key units => do let _ ← preview experiment key units
  | .request t r => do let _ ← t.once (Trial.perform lab.now r)

/-- An experiment that is saved when it was created was not there before. -/
theorem careful_of_created
    {m m' : Memory} {name : String} {e : Experiment} (hnew : m.experiment? name = none)
    (he : e.name = name) (h : (m.ensureExperiment name).2.saveExperiment e = .ok m') :
    Careful m m' := by
  refine ⟨[.experiment name (m.ensureExperiment name).1.1 (m.ensureExperiment name).1.2, .saved e],
    (Memory.Course.single (.experiment name)).snoc (.saved h), by simp [Deed.clears], ?_⟩
  intro e' he'
  obtain rfl : e' = e := by simpa using he'
  rw [he, hnew]

/-- Asking for an experiment is done carefully. -/
theorem experiment_careful (name : String) (control : Json) (m : Memory) :
    Careful m (endState (experiment name control m)) := by
  cases hfind : m.experiment? name with
  | some e =>
      unfold experiment
      rw [bind_of_ok (Memory.ensureExperiment_apply_of_some hfind)]
      exact .refl m
  | none =>
      have hcreated : Careful m (m.ensureExperiment name).2 :=
        .of_happens (.experiment name) rfl (by simp)
      have hask := Memory.ensureExperiment_apply_of_none hfind
      cases hseed : Experiment.seeded control with
      | error fault =>
          rw [experiment_of_unreadable hask hseed]
          exact hcreated
      | ok d =>
          rw [experiment_of_readable hask hseed, endState_bind _ fun _ _ => rfl]
          show Careful m (endState
            (Memory.change (fun m => m.saveExperiment _) (m.ensureExperiment name).2))
          unfold Memory.change
          cases hsave : (m.ensureExperiment name).2.saveExperiment (sown name m d) with
          | ok m' =>
              simp only [hsave, endState_ok]
              exact careful_of_created hfind rfl hsave
          | error fault =>
              simp only [hsave, endState_error]
              exact hcreated

theorem existing_inStep (name : String) :
    InStep (fun a b => a = b ∧ Careful start a) (existing name) (existing (σ := Memory) name) := by
  have hfind : InStep (fun a b => a = b ∧ Careful start a) (Store.findExperiment name)
      (Store.findExperiment (σ := Memory) name) :=
    Careful.inStep (Memory.careful_view fun m => .ok (m.experiment? name))
  refine .bind hfind fun found => ?_
  cases found with
  | some e => exact .pure e
  | none => exact .throw _

theorem ofVariations_inStep
    (g : Goal) (achievements : List Achievement) (now : Time) (variations : List Variation) :
    InStep (fun a b => a = b ∧ Careful start a)
      (Results.ofVariations g achievements now variations)
      (Results.ofVariations (σ := Memory) g achievements now variations) := by
  induction variations with
  | nil => exact .pure []
  | cons v rest ih =>
      refine .bind (Careful.inStep (Memory.careful_view fun m => .ok (m.exposuresOf v.id)))
        fun exposures => .bind ih fun _ => .pure _

theorem forGoals_inStep (experiment : UInt64) (now : Time) (goals : List Goal) :
    InStep (fun a b => a = b ∧ Careful start a) (Results.forGoals experiment now goals)
      (Results.forGoals (σ := Memory) experiment now goals) := by
  induction goals with
  | nil => exact .pure []
  | cons g rest ih =>
      refine .bind (.bind ?_ fun achievements => .bind ?_ fun variations => ?_) fun _ =>
        .bind ih fun _ => .pure _
      · exact Careful.inStep (Memory.careful_view fun m => .ok (m.achievementsOf g.id))
      · exact Careful.inStep (Memory.careful_view fun m => .ok (m.variationsOf experiment))
      · exact ofVariations_inStep g achievements now variations

theorem once_inStep
    {α σ τ : Type} {R : σ → τ → Prop} {step : Trial.Step σ α} {step' : Trial.Step τ α}
    (h : InStep (Trial.Alike R) step step') (t : Trial) :
    InStep R (t.once step) (t.once step') := by
  intro s s' hs
  have hr := h (t, s) (t, s') ⟨rfl, hs⟩
  unfold Trial.once
  generalize step (t, s) = result at hr
  generalize step' (t, s') = result' at hr
  cases hr with
  | ok a h' => exact .ok a h'.2
  | error fault h' => exact .error fault h'.2

/-- All calls are done carefully. -/
theorem run_careful (lab : Lab) (c : Command) (m : Memory) :
    Careful m (endState (lab.run c m)) := by
  refine keeps_of_inStep (P := Careful m) ?_ (.refl m)
  have hgoal (goal : String) : InStep (fun a b => a = b ∧ Careful m a) (Store.ensureGoal goal)
      (Store.ensureGoal (σ := Memory) goal) :=
    Careful.inStep fun _ => .of_happens (.goal goal) rfl (by simp)
  cases c with
  | experiment name control =>
      exact .bind (Careful.inStep (experiment_careful name control)) fun _ => .pure ()
  | value name key unit control inputs =>
      refine .bind (.bind (Careful.inStep (experiment_careful name _)) fun e => ?_)
        fun _ => .pure ()
      cases unit.filter Subject.isComplete with
      | none => exact .pure control
      | some u =>
          refine once_inStep ?_ (lab.trialFor e u inputs)
          exact .bind (Trial.lookup_inStep (Memory.agree_careful m) lab.now key) fun _ => .pure _
  | achieve goal unit value related =>
      refine .bind ?_ fun _ => .pure ()
      unfold achieve
      split
      · refine .bind (hgoal goal) fun g => .bind ?_ fun _ => .pure _
        exact Careful.inStep fun _ =>
          .of_happens (.achievement g.id unit value related lab.circumstances) rfl (by simp)
      · exact .pure none
  | attachGoal experiment goal =>
      refine .bind (.bind (existing_inStep experiment) fun e => .bind (hgoal goal) fun g =>
        .bind (Careful.inStep fun m' => ?_) fun _ => .pure g) fun _ => .pure ()
      exact Memory.careful_change fun m'' h => .of_happens (.attached h) rfl (by simp)
  | results experiment =>
      refine .bind (.bind (existing_inStep experiment) fun e =>
        .bind ?_ fun goals => forGoals_inStep e.id lab.now goals) fun _ => .pure ()
      exact Careful.inStep (Memory.careful_view fun m => m.goalsOf e.id)
  | preview experiment key units =>
      refine .bind (.bind (existing_inStep experiment) fun e => ?_) fun _ => .pure ()
      cases e.preview key units with
      | ok counts => exact .pure counts
      | error fault => exact .throw fault
  | request t r =>
      have hperform := Trial.perform_inStep (Memory.agree_careful m) lab.now r
      exact .bind (once_inStep hperform t) fun _ => .pure ()

/-- Carries out calls one after the other, each at the time of its laboratory. -/
def runs (m : Memory) : List (Lab × Command) → Memory
  | [] => m
  | (lab, c) :: rest => runs (endState (lab.run c { m with now := lab.now })) rest

theorem runs_careful (calls : List (Lab × Command)) (m : Memory) : Careful m (runs m calls) := by
  induction calls generalizing m with
  | nil => exact .refl m
  | cons call rest ih =>
      obtain ⟨lab, c⟩ := call
      have hpassed : Careful m { m with now := lab.now } :=
        .of_happens (.passed lab.now) rfl (by simp)
      exact (hpassed.trans (run_careful lab c _)).trans (ih _)

section Attached

open Memory

/-- A goal that is attached is listed after careful deeds. -/
theorem attached_of_careful
    {now : Time} {past : Chronicle} {m m₁ m₂ : Memory} {id goal : UInt64} {x : Experiment}
    (h : Course { now } past m) (hx : m.experimentById id = .ok x)
    (hattach : m.attachGoal id goal = .ok m₁) (hcareful : Careful m₁ m₂) :
    ∃ goals, (Store.goals id : StoreM Memory _) m₂ = .ok goals m₂ ∧ goal ∈ goals.map Goal.id := by
  obtain ⟨deeds, hcourse, hkeep, hsaved⟩ := hcareful
  refine h.attached_stays hx hattach hcourse hkeep fun e he hname => ?_
  have hgrowth := (Happens.attached hattach).growth rfl
  obtain ⟨x', hx', -⟩ := hgrowth.experiment?_of_some (of_experimentById hx).2
  rw [← hname, hsaved e he] at hx'
  cases hx'

/-- A goal that was attached to an experiment stays in its list until everything is forgotten or a
record without the goal is saved under the name of the experiment, and so through all calls of
laboratories that are carried out one after the other.  The goals are listed once each, in the
order in which they were attached first, as long as each record that is saved under the name begins
with the goals that were attached before and repeats none. -/
theorem attached_goal_listed
    {now : Time} {past : Chronicle} {m : Memory} {id : UInt64} {x : Experiment}
    (h : Course { now } past m) (hx : m.experimentById id = .ok x) :
    (∀ goal m₁, (Store.attachGoal id goal : StoreM Memory Unit) m = .ok () m₁ →
      (∀ later m₂, Course m₁ later m₂ → (∀ d ∈ later, d.clears = false) →
        (∀ e, .saved e ∈ later → e.name = x.name → goal ∈ e.goalIds) →
        ∃ goals, (Store.goals id : StoreM Memory _) m₂ = .ok goals m₂ ∧
          goal ∈ goals.map Goal.id) ∧
      ∀ calls, ∃ goals, (Store.goals id : StoreM Memory _) (runs m₁ calls) =
        .ok goals (runs m₁ calls) ∧ goal ∈ goals.map Goal.id) ∧
    ((∀ (before : Chronicle) e after, past.sinceClear = before ++ .saved e :: after →
        e.name = x.name →
        (before.attachments id x.name).eraseDups <+: e.goalIds ∧ e.goalIds.Nodup) →
      ∃ goals, (Store.goals id : StoreM Memory _) m = .ok goals m ∧
        goals.map Goal.id = (past.sinceClear.attachments id x.name).eraseDups.filter
          (fun goal => (m.goal? goal).isSome) ∧
        (goals.map Goal.id).Nodup ∧
        ∀ goal, .attached id goal ∈ past.sinceClear → goal ∈ goals.map Goal.id) := by
  refine ⟨fun goal m₁ hattach => ?_, h.listed_in_order hx⟩
  have hattach : m.attachGoal id goal = .ok m₁ := by
    change change (fun m => m.attachGoal id goal) m = _ at hattach
    unfold change at hattach
    split at hattach
    · rename_i heq
      cases hattach
      exact heq
    · cases hattach
  refine ⟨fun later m₂ hlater hkeep hsaved => ?_, fun calls => ?_⟩
  · exact h.attached_stays hx hattach hlater hkeep hsaved
  · exact attached_of_careful h hx hattach (runs_careful calls m₁)

end Attached

section Sample

open Memory

/-- An experiment and two goals are created. -/
def sampleOffered : Chronicle :=
  [.experiment "shop" (sampleCreated 1) true, .goal "buy" ⟨2, "buy", ""⟩,
    .goal "visit" ⟨3, "visit", ""⟩]

/-- The experiment with some goals. -/
def sampleHolder (goals : List UInt64) : Experiment := { sampleCreated 1 with goalIds := goals }

/-- A memory with the two goals and the experiment, which has some of them. -/
def sampleHolding (goals : List UInt64) : Memory where
  now := ⟨0, 0⟩
  nextId := 4
  experiments := [sampleHolder goals]
  names := [(1, "shop")]
  goals := [⟨2, "buy", ""⟩, ⟨3, "visit", ""⟩]

theorem sampleOffered_course : Course { now := ⟨0, 0⟩ } sampleOffered (sampleHolding []) :=
  ((Course.nil.snoc (.experiment "shop")).snoc (.goal "buy")).snoc (.goal "visit")

/-- The second goal is attached before the first and once more after it, and a copy that was read
then is saved. -/
theorem sample_goal_listed :
    (∃ goals, (Store.goals 1 : StoreM Memory _) (sampleHolding [3, 2]) =
      .ok goals (sampleHolding [3, 2]) ∧ 3 ∈ goals.map Goal.id) ∧
    ∃ goals, (Store.goals 1 : StoreM Memory _) (sampleHolding [3, 2]) =
      .ok goals (sampleHolding [3, 2]) ∧ goals.map Goal.id = [3, 2] := by
  let later : Chronicle := [.attached 1 2, .attached 1 3, .saved (sampleHolder [3, 2])]
  have hlater : Course (sampleHolding [3]) later (sampleHolding [3, 2]) :=
    ((Course.nil.snoc (.attached rfl)).snoc (.attached rfl)).snoc (.saved rfl)
  have hcourse : Course { now := ⟨0, 0⟩ } (sampleOffered ++ .attached 1 3 :: later)
      (sampleHolding [3, 2]) := by
    have hattach : (sampleHolding []).attachGoal 1 3 = .ok (sampleHolding [3]) := by
      rfl
    simpa using (sampleOffered_course.snoc (.attached hattach)).append hlater
  have hbefore : (sampleHolding []).experimentById 1 = .ok (sampleHolder []) := by
    rfl
  have hafter : (sampleHolding [3, 2]).experimentById 1 = .ok (sampleHolder [3, 2]) := by
    rfl
  constructor
  · refine ((attached_goal_listed sampleOffered_course hbefore).1 3 _ rfl).1 later _ hlater ?_ ?_
    · simp [later, Deed.clears]
    · intro e he _
      obtain rfl : e = sampleHolder [3, 2] := by simpa [later] using he
      simp [sampleHolder]
  · have hextends : ∀ (before : Chronicle) e after,
        Chronicle.sinceClear (sampleOffered ++ .attached 1 3 :: later) =
          before ++ .saved e :: after → e.name = (sampleHolder [3, 2]).name →
        (before.attachments 1 (sampleHolder [3, 2]).name).eraseDups <+: e.goalIds ∧
          e.goalIds.Nodup := by
      intro before e after hsplit _
      have hsplit : sampleOffered ++ .attached 1 3 :: later = before ++ .saved e :: after := hsplit
      simp [sampleOffered, later, List.cons_eq_append_iff] at hsplit
      obtain ⟨rfl, rfl, -⟩ := hsplit
      exact ⟨List.prefix_refl [3, 2], by simp [sampleHolder]⟩
    obtain ⟨goals, hgoals, hids, -⟩ := (attached_goal_listed hcourse hafter).2 hextends
    exact ⟨goals, hgoals, hids⟩

/-- A copy that was read before the goal was attached is saved, and the goal is lost. -/
theorem saved_copy_loses_goal :
    ¬ ∀ past m id goal m₁ later m₂, Course { now := ⟨0, 0⟩ } past m →
      (Store.attachGoal id goal : StoreM Memory Unit) m = .ok () m₁ → Course m₁ later m₂ →
      (∀ d ∈ later, d.clears = false) →
      ∃ goals, (Store.goals id : StoreM Memory _) m₂ = .ok goals m₂ ∧ goal ∈ goals.map Goal.id := by
  intro hstays
  obtain ⟨goals, hgoals, hmem⟩ := hstays sampleOffered (sampleHolding []) 1 2 (sampleHolding [2])
    [.saved (sampleCreated 1)] (sampleHolding []) sampleOffered_course rfl (.single (.saved rfl))
    (by simp [Deed.clears])
  cases hgoals
  simp [sampleHolder, sampleCreated, Experiment.new] at hmem

end Sample

end Lab

end Allotment
