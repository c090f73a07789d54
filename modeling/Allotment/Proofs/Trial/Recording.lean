import Allotment.Proofs.Store.Journal
import Allotment.Proofs.Trial.Request

/-!
# The calls of a trial

What a trial writes is seen in the journal of its store.  The exposures of a trial are recorded
variable by variable, in the order of the names, up to the first call that fails.

**Results.**
* `record_recording`: the calls of one recording.
* `serve_traced`: whatever is asked of a trial, its stage tells which writes were made.
* `serve_of_exposed`: no write is made after the recording.
-/

namespace Allotment

open Stateful

namespace Trial

/-- The writes of a recording of values: a variation for each variable and, for a unit, an
exposure to it.  The first write that is refused is the last one. -/
inductive Recording (experiment : UInt64) (unit : Option Subject) (circumstances : EventMeta) :
    List (String × Json) → Journal → Prop
  | done : Recording experiment unit circumstances [] []
  | variationRefused {key : String} {v : Json} {rest : List (String × Json)} {fault : Fault} :
      Recording experiment unit circumstances ((key, v) :: rest)
        [.variation experiment key v.label (.error fault)]
  | unattributed {key : String} {v : Json} {rest : List (String × Json)} {w : Variation}
      {calls : Journal}
      (hunit : unit = none) (hrest : Recording experiment unit circumstances rest calls) :
      Recording experiment unit circumstances ((key, v) :: rest)
        (.variation experiment key v.label (.ok w) :: calls)
  | exposureRefused {key : String} {v : Json} {rest : List (String × Json)} {w : Variation}
      {u : Subject} {fault : Fault}
      (hunit : unit = some u) :
      Recording experiment unit circumstances ((key, v) :: rest)
        [.variation experiment key v.label (.ok w),
          .exposure experiment w.id u circumstances (.error fault)]
  | recorded {key : String} {v : Json} {rest : List (String × Json)} {w : Variation}
      {u : Subject} {x : Exposure} {calls : Journal}
      (hunit : unit = some u) (hrest : Recording experiment unit circumstances rest calls) :
      Recording experiment unit circumstances ((key, v) :: rest)
        (.variation experiment key v.label (.ok w) ::
          .exposure experiment w.id u circumstances (.ok x) :: calls)

namespace Recording

variable {experiment : UInt64} {unit : Option Subject} {circumstances : EventMeta}
variable {values : List (String × Json)} {calls : Journal}

/-- A recording consists of writes. -/
theorem writes_eq
    (h : Recording experiment unit circumstances values calls) :
    calls.writes = calls := by
  induction h with
  | done => rfl
  | variationRefused => rfl
  | unattributed hunit hrest ih =>
      simpa [Journal.writes, List.filter_cons, Call.isWrite] using ih
  | exposureRefused hunit => rfl
  | recorded hunit hrest ih =>
      simpa [Journal.writes, List.filter_cons, Call.isWrite] using ih

/-- A recording looks for no user. -/
theorem foundUsers_eq
    (h : Recording experiment unit circumstances values calls) :
    calls.foundUsers = [] := by
  induction h with
  | done => rfl
  | variationRefused => rfl
  | unattributed hunit hrest ih => exact ih
  | exposureRefused hunit => rfl
  | recorded hunit hrest ih => exact ih

end Recording

section Journaled

variable {σ : Type} [Store σ]

/-- The calls with which the exposures of a trial are recorded. -/
theorem record_recording
    (t : Trial) (now : Time) (unit : Option Subject) (values : List (String × Json))
    (j : Journaled σ) :
    ∃ calls, (endState (t.record now unit values j)).journal = j.journal ++ calls ∧
      Recording t.experiment.id unit (t.circumstances now) values calls := by
  induction values generalizing j with
  | nil => exact ⟨[], by simp [record, Pure.pure, EStateM.pure], .done⟩
  | cons x rest ih =>
      obtain ⟨key, v⟩ := x
      rcases Journaled.noting_cases (Store.ensureVariation t.experiment.id key v.label)
        (.variation t.experiment.id key v.label) j with ⟨w, s, hw⟩ | ⟨fault, s, hw⟩
      · cases hu : unit with
        | none =>
            subst hu
            obtain ⟨calls, hcalls, hrec⟩ :=
              ih ⟨s, j.journal ++ [.variation t.experiment.id key v.label (.ok w)]⟩
            refine ⟨.variation t.experiment.id key v.label (.ok w) :: calls, ?_,
              .unattributed rfl hrec⟩
            rw [record_of_unattributed hw, hcalls]
            simp
        | some u =>
            subst hu
            rcases Journaled.noting_cases
              (Store.addExposure t.experiment.id w.id u (t.circumstances now))
              (.exposure t.experiment.id w.id u (t.circumstances now))
              ⟨s, j.journal ++ [.variation t.experiment.id key v.label (.ok w)]⟩
              with ⟨x, s', hx⟩ | ⟨fault, s', hx⟩
            · obtain ⟨calls, hcalls, hrec⟩ := ih ⟨s', _⟩
              refine ⟨.variation t.experiment.id key v.label (.ok w) ::
                .exposure t.experiment.id w.id u (t.circumstances now) (.ok x) :: calls, ?_,
                .recorded rfl hrec⟩
              rw [record_of_recorded hw hx, hcalls]
              simp
            · refine ⟨[.variation t.experiment.id key v.label (.ok w),
                .exposure t.experiment.id w.id u (t.circumstances now) (.error fault)], ?_,
                .exposureRefused rfl⟩
              rw [record_of_exposureRefused hw hx]
              simp
      · refine ⟨[.variation t.experiment.id key v.label (.error fault)], ?_,
          .variationRefused⟩
        rw [record_of_variationRefused hw]
        rfl

/-- The unit that the inputs stand for when the store has found these users for them. -/
def unitFrom (t : Trial) (found : List User) : Option Subject :=
  match t.given Subject.typeInput, t.given Subject.unitInput with
  | some type, some identifier =>
      if type.label = t.internalType then found.head?.map .user
      else some (.external identifier.label type.label)
  | _, _ => none

/-- Looking for the unit writes nothing, and what is found is the unit. -/
theorem resolveUnit_journal (t : Trial) (j : Journaled σ) :
    (∃ unit j', t.resolveUnit j = .ok unit j' ∧
      j'.journal.writes = j.journal.writes ∧
      (j.journal.foundUsers = [] → t.unitFrom j'.journal.foundUsers = unit)) ∨
    ∃ fault j', t.resolveUnit j = .error fault j' ∧
      j'.journal.writes = j.journal.writes ∧ j'.journal.foundUsers = j.journal.foundUsers := by
  cases htype : t.given Subject.typeInput with
  | none =>
      refine .inl ⟨none, j, resolveUnit_of_anonymous (.inl htype), rfl, fun _ => ?_⟩
      simp [unitFrom, htype]
  | some type =>
      cases hidentifier : t.given Subject.unitInput with
      | none =>
          refine .inl ⟨none, j, resolveUnit_of_anonymous (.inr hidentifier), rfl, fun _ => ?_⟩
          simp [unitFrom, htype, hidentifier]
      | some identifier =>
          by_cases hinternal : type.label = t.internalType
          · cases hid : userId? identifier with
            | none =>
                exact .inr ⟨_, j, resolveUnit_of_noNumber htype hidentifier hinternal hid, rfl, rfl⟩
            | some id =>
                rcases Journaled.noting_cases (Store.findUser id) (.user id) j with
                  ⟨found, s, hfind⟩ | ⟨fault, s, hfind⟩
                · cases found with
                  | none =>
                      refine .inr ⟨_, _,
                        resolveUnit_of_unknown htype hidentifier hinternal hid hfind, ?_⟩
                      simp [Journal.writes, Journal.foundUsers, Call.isWrite, Call.foundUser?]
                  | some user =>
                      refine .inl ⟨_, _,
                        resolveUnit_of_user htype hidentifier hinternal hid hfind, ?_, fun hj => ?_⟩
                      · simp [Journal.writes, Call.isWrite]
                      · rw [Journal.foundUsers_append, hj]
                        simp [unitFrom, htype, hidentifier, hinternal, Journal.foundUsers,
                          Call.foundUser?]
                · refine .inr ⟨_, _,
                    resolveUnit_of_fault htype hidentifier hinternal hid hfind, ?_⟩
                  simp [Journal.writes, Journal.foundUsers, Call.isWrite, Call.foundUser?]
          · refine .inl ⟨_, j, resolveUnit_of_external htype hidentifier hinternal, rfl,
              fun _ => ?_⟩
            simp [unitFrom, htype, hidentifier, hinternal]

theorem log_journal (t : Trial) (data : Json) (j : Journaled σ) :
    (endState (t.log data j)).journal = j.journal ++ [.other .addLog] := by
  rcases Journaled.noting_cases (Store.addLog t.experiment.id data) (fun _ => .other .addLog) j with
    ⟨entry, s, h⟩ | ⟨fault, s, h⟩
  · exact congrArg (fun r => (endState r).journal) h
  · exact congrArg (fun r => (endState r).journal) h

/-- An entry of the log is no write of a variation or an exposure. -/
theorem writes_log (t : Trial) (data : Json) (j : Journaled σ) :
    (endState (t.log data j)).journal.writes = j.journal.writes := by
  rw [log_journal, Journal.writes_append]
  exact List.append_nil _

/-- An entry of the log finds no user. -/
theorem foundUsers_log (t : Trial) (data : Json) (j : Journaled σ) :
    (endState (t.log data j)).journal.foundUsers = j.journal.foundUsers := by
  rw [log_journal, Journal.foundUsers_append]
  exact List.append_nil _

end Journaled

/-- What the journal of a trial holds at a stage, if it was empty when the trial was `t`. -/
inductive History (t : Trial) : Stage → Journal → Prop
  /-- Nothing was recorded, and the stage is as it was. -/
  | begun {journal : Journal}
      (hwrites : journal.writes = []) (hfound : ¬ t.IsExposed → journal.foundUsers = []) :
      History t t.stage journal
  /-- The definition was evaluated, and nothing was recorded. -/
  | settled {a : Assignment} {journal : Journal}
      (ha : t.assigned = .ok a) (hnew : ¬ t.IsExposed)
      (hwrites : journal.writes = []) (hfound : journal.foundUsers = []) :
      History t (.evaluated a) journal
  /-- The exposures were recorded once. -/
  | exposed {a : Assignment} {unit : Option Subject} {circumstances : EventMeta}
      {journal : Journal}
      (ha : t.assigned = .ok a) (hnew : ¬ t.IsExposed) (hin : a.takesPart = true)
      (hunit : t.unitFrom journal.foundUsers = unit)
      (hwrites : Recording t.experiment.id unit circumstances a.values journal.writes) :
      History t (.exposed a) journal

namespace History

variable {t : Trial} {stage : Stage} {journal journal' : Journal}

/-- Calls that neither write nor find a user do not matter. -/
theorem of_same
    (h : History t stage journal)
    (hw : journal'.writes = journal.writes) (hf : journal'.foundUsers = journal.foundUsers) :
    History t stage journal' := by
  cases h with
  | begun hwrites hfound =>
      exact .begun (hw.trans hwrites) fun hnew => hf.trans (hfound hnew)
  | settled ha hnew hwrites hfound =>
      exact .settled ha hnew (hw.trans hwrites) (hf.trans hfound)
  | exposed ha hnew hin hunit hwrites =>
      rw [← hf] at hunit
      rw [← hw] at hwrites
      exact .exposed ha hnew hin hunit hwrites

/-- Before the recording nothing was written, and the assignment is the one of the trial. -/
theorem of_not_exposed
    (h : History t stage journal) {a : Assignment}
    (ha : (t.inStage stage).assigned = .ok a) (hnew : ¬ (t.inStage stage).IsExposed) :
    t.assigned = .ok a ∧ ¬ t.IsExposed ∧ journal.writes = [] ∧ journal.foundUsers = [] := by
  cases h with
  | begun hwrites hfound => exact ⟨ha, hnew, hwrites, hfound hnew⟩
  | settled hb hnew' hwrites hfound =>
      have hab : _ = a := Except.ok.inj ha
      exact ⟨hab ▸ hb, hnew', hwrites, hfound⟩
  | exposed hb hnew' hin hunit hwrites => exact absurd ⟨_, rfl⟩ hnew

end History

section Journaled

variable {σ : Type} [Store σ]

/-- The trial is at some stage of `t`, and the journal is that of the stage. -/
def Traced (t : Trial) (x : Trial × Journaled σ) : Prop :=
  x.1 = t.inStage x.1.stage ∧ History t x.1.stage x.2.journal

/-- Every effect of a request leaves a journal for the stage that is reached. -/
theorem Traced.effect
    {t t' : Trial} {now : Time} {j : Journaled σ} {x : Trial × Journaled σ}
    (h : Traced t (t', j)) (heff : Effect now t' j x) :
    Traced t x := by
  obtain ⟨hstage, hist⟩ := h
  simp only at hstage hist
  cases heff with
  | none => exact ⟨hstage, hist⟩
  | @settled a hs hout =>
      rw [hstage] at hout ⊢
      have ha : (t.inStage t'.stage).assigned = .ok a := by simpa [assigned, hs] using hout
      have hnew : ¬ (t.inStage t'.stage).IsExposed := by simp [IsExposed, hs]
      obtain ⟨ha, hnew, hw, hf⟩ := hist.of_not_exposed ha hnew
      exact ⟨rfl, .settled ha hnew hw hf⟩
  | @unresolved a fault j₁ ha hnew hin hr =>
      rw [hstage] at ha hnew
      obtain ⟨ha, hnew, hw, hf⟩ := hist.of_not_exposed ha hnew
      rcases resolveUnit_journal t' j with ⟨_, _, hr', _⟩ | ⟨_, _, hr', hw', hf'⟩
      · cases hr'.symm.trans hr
      · cases hr'.symm.trans hr
        rw [hstage]
        exact ⟨rfl, .settled ha hnew (hw'.trans hw) (hf'.trans hf)⟩
  | @exposed a unit j₁ ha hnew hin hr =>
      rw [hstage] at ha hnew
      obtain ⟨ha, hnew, hw, hf⟩ := hist.of_not_exposed ha hnew
      rcases resolveUnit_journal t' j with ⟨_, _, hr', hw', hunit⟩ | ⟨_, _, hr', _⟩
      · cases hr'.symm.trans hr
        obtain ⟨calls, hcalls, hrec⟩ := record_recording t' now unit a.values j₁
        have hwrites : (endState (t'.record now unit a.values j₁)).journal.writes = calls := by
          rw [hcalls, Journal.writes_append, hw', hw, hrec.writes_eq, List.nil_append]
        have hfound : (endState (t'.record now unit a.values j₁)).journal.foundUsers =
            j₁.journal.foundUsers := by
          rw [hcalls, Journal.foundUsers_append, hrec.foundUsers_eq, List.append_nil]
        have hu : t.unitFrom
            (endState (t'.record now unit a.values j₁)).journal.foundUsers = unit := by
          have hu := hunit hf
          rw [hstage] at hu
          rw [hfound]
          exact hu
        have hexperiment : t'.experiment = t.experiment := by rw [hstage]; rfl
        rw [hexperiment, ← hwrites] at hrec
        exact ⟨by rw [hstage]; rfl, .exposed ha hnew hin hu hrec⟩
      · cases hr'.symm.trans hr
  | logged data =>
      exact ⟨hstage, hist.of_same (writes_log t' data j) (foundUsers_log t' data j)⟩

/-- Whatever is asked of a trial, the journal is that of the stage that is reached. -/
theorem serve_traced (t : Trial) (s : σ) (requests : List (Time × Request)) :
    Traced t (serve requests (t, ⟨s, []⟩)) := by
  refine serve_keeps (P := Traced t) (fun now t' j x h heff => h.effect heff) requests ?_
  exact ⟨rfl, .begun rfl fun _ => rfl⟩

/-- Once the recording has begun, no request leads to a write. -/
theorem serve_of_exposed
    {t : Trial} (h : t.IsExposed) (j : Journaled σ) (requests : List (Time × Request)) :
    (serve requests (t, j)).2.journal.writes = j.journal.writes := by
  let P : Trial × Journaled σ → Prop := fun x =>
    x.1.IsExposed ∧ x.2.journal.writes = j.journal.writes
  suffices hP : P (serve requests (t, j)) from hP.2
  refine serve_keeps (P := P) (fun now t' j' x hx heff => ?_) requests ⟨h, rfl⟩
  obtain ⟨⟨a, ha⟩, hw⟩ := hx
  cases heff with
  | none => exact ⟨⟨a, ha⟩, hw⟩
  | settled hs hout => exact absurd (ha.symm.trans hs) (by simp)
  | unresolved hb hnew hin hr => exact absurd ⟨a, ha⟩ hnew
  | exposed hb hnew hin hr => exact absurd ⟨a, ha⟩ hnew
  | logged data => exact ⟨⟨a, ha⟩, (writes_log t' data j').trans hw⟩

end Journaled

end Trial

end Allotment
