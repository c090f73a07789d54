import Allotment.Proofs.Stateful
import Allotment.Store.Unreliable

/-!
# Stores with a journal

A store around another one that notes every call made to it and what came back.  The calls that
write variations and exposures and the search for users are noted with their arguments.

A journal shows in whose name an exposure was asked for: the variable of the variation that was
asked for last, if the exposure is to that variation.

**Results.**
* `noting_inStep`: a call comes to the same as without the journal.
-/

namespace Allotment

open Stateful

/-- A call to a store and what came back. -/
inductive Call where
  /-- A variation was asked for. -/
  | variation (experiment : UInt64) (key value : String) (answer : Except Fault Variation)
  /-- An exposure was to be added. -/
  | exposure (experiment variation : UInt64) (unit : Subject) (circumstances : EventMeta)
      (answer : Except Fault Exposure)
  /-- A user was looked for. -/
  | user (id : UInt64) (answer : Except Fault (Option User))
  /-- Some other operation was called. -/
  | other (operation : StoreCall)

namespace Call

/-- The call writes a variation or an exposure. -/
def isWrite : Call → Bool
  | .variation _ _ _ _ => true
  | .exposure _ _ _ _ _ => true
  | _ => false

/-- The call writes a variation or an exposure, and it failed. -/
def isRefused : Call → Bool
  | .variation _ _ _ (.error _) => true
  | .exposure _ _ _ _ (.error _) => true
  | _ => false

/-- The user that a call has found. -/
def foundUser? : Call → Option User
  | .user _ (.ok found) => found
  | _ => none

/-- A call that is refused is a write. -/
theorem isWrite_of_isRefused
    {call : Call} (h : call.isRefused = true) :
    call.isWrite = true := by
  cases call with
  | variation => rfl
  | exposure => rfl
  | user => cases h
  | other => cases h

end Call

/-- The calls to a store in their order. -/
abbrev Journal := List Call

namespace Journal

/-- The calls that write variations and exposures. -/
def writes (journal : Journal) : Journal := journal.filter Call.isWrite

/-- The users that were found. -/
def foundUsers (journal : Journal) : List User := journal.filterMap Call.foundUser?

/-- The variable in whose name each exposure of the journal was asked for, if there is one;
`last` is the variable of the variation that was given last, and its number. -/
def exposedVariables (last : Option (String × UInt64)) : Journal → List (Option String)
  | [] => []
  | .variation _ key _ (.ok v) :: rest => exposedVariables (some (key, v.id)) rest
  | .variation _ _ _ (.error _) :: rest => exposedVariables none rest
  | .exposure _ variation _ _ _ :: rest =>
      ((last.filter fun x => x.2 = variation).map fun x => x.1) :: exposedVariables last rest
  | _ :: rest => exposedVariables last rest

/-- The store has given the variation of an experiment, a variable and a label and has then
accepted an exposure of the unit to it. -/
def Accepts (journal : Journal) (experiment : UInt64) (unit : Subject) (key value : String) :
    Prop :=
  ∃ v circumstances x,
    [.variation experiment key value (.ok v),
      .exposure experiment v.id unit circumstances (.ok x)] <:+: journal.writes

@[simp] theorem writes_nil : writes [] = [] := rfl

@[simp] theorem writes_append (journal calls : Journal) :
    writes (journal ++ calls) = writes journal ++ writes calls := by
  simp [writes]

theorem mem_writes_of_isRefused
    {journal : Journal} {call : Call} (h : call ∈ journal) (href : call.isRefused = true) :
    call ∈ journal.writes :=
  List.mem_filter.2 ⟨h, Call.isWrite_of_isRefused href⟩

@[simp] theorem foundUsers_nil : foundUsers [] = [] := rfl

@[simp] theorem foundUsers_append (journal calls : Journal) :
    foundUsers (journal ++ calls) = foundUsers journal ++ foundUsers calls := by
  simp [foundUsers]

/-- Only the writes show in whose name exposures were asked for. -/
theorem exposedVariables_writes
    (last : Option (String × UInt64)) (journal : Journal) :
    exposedVariables last journal.writes = exposedVariables last journal := by
  induction journal generalizing last with
  | nil => rfl
  | cons call rest ih =>
      simp only [writes] at ih
      cases call with
      | variation experiment key value answer =>
          cases answer <;>
            simp [writes, List.filter_cons, Call.isWrite, exposedVariables, ih]
      | exposure experiment variation unit circumstances answer =>
          simp [writes, List.filter_cons, Call.isWrite, exposedVariables, ih]
      | user id answer => simp [writes, Call.isWrite, exposedVariables, ih]
      | other operation => simp [writes, Call.isWrite, exposedVariables, ih]

end Journal

/-- A store whose calls are noted. -/
structure Journaled (σ : Type) where
  store : σ
  journal : Journal := []

namespace Journaled

variable {σ α : Type}

/-- Passes a call on to the store and notes what comes back. -/
def noting (op : StoreM σ α) (call : Except Fault α → Call) : StoreM (Journaled σ) α := fun j =>
  match op j.store with
  | .ok a s => .ok a ⟨s, j.journal ++ [call (.ok a)]⟩
  | .error fault s => .error fault ⟨s, j.journal ++ [call (.error fault)]⟩

/-- Passes on a call whose answer is not noted. -/
def passing (operation : StoreCall) (op : StoreM σ α) : StoreM (Journaled σ) α :=
  noting op fun _ => .other operation

instance [Store σ] : Store (Journaled σ) where
  ensureExperiment name := passing .ensureExperiment (Store.ensureExperiment name)
  findExperiment name := passing .findExperiment (Store.findExperiment name)
  saveExperiment e := passing .saveExperiment (Store.saveExperiment e)
  ensureVariation experiment key value :=
    noting (Store.ensureVariation experiment key value) (.variation experiment key value)
  addExposure experiment variation unit circumstances :=
    noting (Store.addExposure experiment variation unit circumstances)
      (.exposure experiment variation unit circumstances)
  ensureGoal name := passing .ensureGoal (Store.ensureGoal name)
  attachGoal experiment goal := passing .attachGoal (Store.attachGoal experiment goal)
  addAchievement goal unit value related circumstances :=
    passing .addAchievement (Store.addAchievement goal unit value related circumstances)
  variations experiment := passing .variations (Store.variations experiment)
  goals experiment := passing .goals (Store.goals experiment)
  exposures variation := passing .exposures (Store.exposures variation)
  achievements goal := passing .achievements (Store.achievements goal)
  addLog experiment data := passing .addLog (Store.addLog experiment data)
  findUser id := noting (Store.findUser id) (.user id)

/-- A call comes to the same with and without the journal. -/
theorem noting_inStep (op : StoreM σ α) (call : Except Fault α → Call) :
    InStep (fun (j : Journaled σ) s => j.store = s) (noting op call) op := by
  rintro j s rfl
  unfold noting
  cases op j.store with
  | ok a s => exact .ok a rfl
  | error fault s => exact .error fault rfl

/-- A call that is noted comes back with a value or a fault, and the journal has it. -/
theorem noting_cases (op : StoreM σ α) (call : Except Fault α → Call) (j : Journaled σ) :
    (∃ a s, noting op call j = .ok a ⟨s, j.journal ++ [call (.ok a)]⟩) ∨
      ∃ fault s, noting op call j = .error fault ⟨s, j.journal ++ [call (.error fault)]⟩ := by
  unfold noting
  cases op j.store with
  | ok a s => exact .inl ⟨a, s, rfl⟩
  | error fault s => exact .inr ⟨fault, s, rfl⟩

end Journaled

end Allotment
