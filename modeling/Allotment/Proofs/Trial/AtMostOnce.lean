import Allotment.Proofs.Trial.Ordered
import Allotment.Proofs.Trial.Recording
import Allotment.Store.Memory

/-!
# Exposures at most once

However often and in whatever order a trial is asked, and whichever calls of the store fail, it
asks for at most one exposure in the name of each of its variables.

The assignment has one entry for each variable, since bindings are kept in the order of their
names, and a recording goes through the entries once.

**Results.**
* `exposures_at_most_once`: at most one exposure for each variable, none after the recording and
  none for a unit that is excluded.
-/

namespace Allotment

open Stateful

namespace Trial

/-- A recording asks for exposures in the names of the variables, in their order. -/
theorem Recording.exposedVariables_sublist
    {experiment : UInt64} {unit : Option Subject} {circumstances : EventMeta}
    {values : List (String × Json)} {calls : Journal}
    (h : Recording experiment unit circumstances values calls)
    (last : Option (String × UInt64)) :
    (calls.exposedVariables last).Sublist ((Dict.keys values).map some) := by
  induction h generalizing last with
  | done => exact .slnil
  | variationRefused => simp [Journal.exposedVariables]
  | @unattributed key v rest w calls hunit hrest ih =>
      simp only [Journal.exposedVariables, Dict.keys, List.map_cons]
      exact .cons _ (ih _)
  | exposureRefused hunit => simp [Journal.exposedVariables, Dict.keys]
  | @recorded key v rest w u x calls hunit hrest ih =>
      simp only [Journal.exposedVariables, Dict.keys, List.map_cons, Option.filter_some,
        decide_true, if_true, Option.map_some]
      exact .cons_cons _ (ih _)

/-- A journal has no write, or the exposures of a unit that takes part, at most one for each
variable. -/
theorem History.exposedVariables_cases
    {t : Trial} {stage : Stage} {journal : Journal} (h : History t stage journal) :
    journal.writes = [] ∨
      ∃ a, t.assigned = .ok a ∧ a.takesPart = true ∧ stage = .exposed a ∧
        (journal.exposedVariables none).Sublist ((Dict.keys a.values).map some) := by
  cases h with
  | begun hwrites hfound => exact .inl hwrites
  | settled ha hnew hwrites hfound => exact .inl hwrites
  | @exposed a unit circumstances journal ha hnew hin hunit hwrites =>
      refine .inr ⟨a, ha, hin, rfl, ?_⟩
      rw [← Journal.exposedVariables_writes]
      exact hwrites.exposedVariables_sublist none

section Runs

variable {σ : Type} [Store σ]

/-- A trial asks its store for at most one exposure in the name of each variable that is bound,
whatever requests are made to it and whichever calls fail.  After the recording has begun it
makes no write, and for a unit that is excluded it never makes any. -/
theorem exposures_at_most_once
    (t : Trial) (ht : t.Ordered) (s : σ) (requests : List (Time × Request)) :
    let run := fun requests => serve requests (t, (⟨s, []⟩ : Journaled σ))
    let exposed := (run requests).2.journal.exposedVariables none
    exposed.Nodup ∧
    (∀ x ∈ exposed, ∃ a key, x = some key ∧
      (run requests).1.stage = .exposed a ∧ key ∈ Dict.keys a.values) ∧
    (∀ before after, requests = before ++ after → (run before).1.IsExposed →
      (run requests).2.journal.writes = (run before).2.journal.writes) ∧
    (∀ a, t.assigned = .ok a → a.takesPart = false →
      (run requests).2.journal.writes = []) := by
  intro run exposed
  have hcases := (serve_traced t s requests).2.exposedVariables_cases
  have hnone : (run requests).2.journal.writes = [] → exposed = [] := by
    intro hwrites
    show (run requests).2.journal.exposedVariables none = []
    rw [← Journal.exposedVariables_writes, hwrites]
    rfl
  refine ⟨?_, ?_, ?_, ?_⟩
  · rcases hcases with hwrites | ⟨a, ha, hin, hstage, hsub⟩
    · rw [hnone hwrites]
      exact List.nodup_nil
    · have hkeys := Dict.nodup_keys (ht.assigned ha)
      refine hsub.nodup ?_
      exact List.Pairwise.map some (fun _ _ hne heq => hne (Option.some.inj heq)) hkeys
  · intro x hx
    rcases hcases with hwrites | ⟨a, ha, hin, hstage, hsub⟩
    · rw [hnone hwrites] at hx
      exact absurd hx List.not_mem_nil
    · obtain ⟨key, hkey, rfl⟩ := List.mem_map.1 (hsub.subset hx)
      exact ⟨a, key, rfl, hstage, hkey⟩
  · rintro before after rfl hex
    show (serve (before ++ after) (t, (⟨s, []⟩ : Journaled σ))).2.journal.writes = _
    rw [serve_append]
    exact serve_of_exposed hex _ after
  · intro a ha hout
    rcases hcases with hwrites | ⟨b, hb, hin, hstage, hsub⟩
    · exact hwrites
    · cases ha.symm.trans hb
      rw [hout] at hin
      cases hin

end Runs

section Sample

/-- A trial of an experiment that binds two variables. -/
def colorAndSize : Trial where
  experiment :=
    { id := 1
      name := "shop"
      definition := ⟨.seq [.set "color" (.value (.string "red")),
        .set "size" (.value (.string "big"))]⟩
      goalIds := []
      createdAt := ⟨0, 0⟩
      modifiedAt := ⟨0, 0⟩ }
  inputs := Subject.inputs (.external "abc" "device_id") Config.defaultInternalType

/-- A store that refuses the second exposure that it is asked to add. -/
def refusingStore : Journaled (Unreliable Memory) where
  store := { store := { now := ⟨0, 0⟩ }, outages := [⟨.addExposure, 1, "down"⟩] }

/-- A variable is asked for, and then that the exposures are recorded. -/
def getThenExpose : List (Time × Request) :=
  [(⟨0, 0⟩, .get "color"), (⟨1, 0⟩, .logExposure)]

/-- The refused exposure is not asked for again. -/
theorem colorAndSize_exposed_once :
    colorAndSize.Ordered ∧
    (serve getThenExpose (colorAndSize, refusingStore)).2.journal.exposedVariables none =
      [some "color", some "size"] ∧
    ((serve getThenExpose (colorAndSize, refusingStore)).2.journal.exposedVariables none).Nodup :=
  have hordered : colorAndSize.Ordered := ordered_of_unevaluated rfl
  ⟨hordered, by decide,
    (exposures_at_most_once colorAndSize hordered refusingStore.store getThenExpose).1⟩

end Sample

end Trial

end Allotment
