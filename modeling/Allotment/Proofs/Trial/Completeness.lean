import Allotment.Proofs.Trial.AtMostOnce
import Allotment.Store.Memory

/-!
# When the exposures are complete

A trial counts as exposed before its exposures are recorded.  If the store refuses a write of
the recording, the recording ends there and is not taken up again, though the trial counts as
exposed.

**Results.**
* `Recording.accepts_iff`: a recording is complete exactly if no write of it was refused.
* `exposures_complete_iff`: so an exposed trial has all its exposures exactly if no write that it
  made was refused.
* `exposed_with_lost_exposure`: an exposed trial may lack an exposure.
-/

namespace Allotment

open Stateful

namespace Trial

namespace Recording

variable {experiment : UInt64} {circumstances : EventMeta} {u : Subject}
variable {values : List (String × Json)} {calls : Journal}

/-- Without a refusal every variable has its exposure. -/
theorem infix_of_not_refused
    {unit : Option Subject}
    (h : Recording experiment unit circumstances values calls) (hunit : unit = some u)
    (hok : ∀ call ∈ calls, call.isRefused = false)
    {key : String} {v : Json} (hmem : (key, v) ∈ values) :
    ∃ w x, [.variation experiment key v.label (.ok w),
      .exposure experiment w.id u circumstances (.ok x)] <:+: calls := by
  induction h with
  | done => simp at hmem
  | variationRefused => simp [Call.isRefused] at hok
  | unattributed hnone hrest ih => simp [hnone] at hunit
  | exposureRefused hsome => simp [Call.isRefused] at hok
  | @recorded k v' rest w u' x calls hsome hrest ih =>
      cases hsome.symm.trans hunit
      rcases List.mem_cons.1 hmem with heq | hmem
      · cases heq
        exact ⟨w, x, List.prefix_append _ calls |>.isInfix⟩
      · have hok' : ∀ call ∈ calls, call.isRefused = false := fun call hc =>
          hok call (List.mem_cons_of_mem _ (List.mem_cons_of_mem _ hc))
        obtain ⟨w', x', hin⟩ := ih hok' hmem
        exact ⟨w', x', List.infix_cons (List.infix_cons hin)⟩

/-- After a refusal some variable lacks its exposure. -/
theorem exists_not_infix_of_refused
    {unit : Option Subject}
    (h : Recording experiment unit circumstances values calls) (hunit : unit = some u)
    (hvalues : Dict.Ascending values)
    (hno : ∃ call ∈ calls, call.isRefused = true) :
    ∃ key v, (key, v) ∈ values ∧ ∀ w i m x,
      ¬ [.variation experiment key v.label (.ok w), .exposure experiment i u m (.ok x)]
        <:+: calls := by
  induction h with
  | done => simp at hno
  | @variationRefused k v rest fault =>
      refine ⟨k, v, List.mem_cons_self, fun w i m x hin => ?_⟩
      exact absurd hin.length_le (by simp)
  | unattributed hnone hrest ih => simp [hnone] at hunit
  | @exposureRefused k v rest w u' fault hsome =>
      refine ⟨k, v, List.mem_cons_self, fun w i m x hin => ?_⟩
      have heq := hin.eq_of_length (by simp)
      simp at heq
  | @recorded k v rest w u' x calls hsome hrest ih =>
      obtain ⟨hk, hrest'⟩ := List.pairwise_cons.1 hvalues
      have hno' : ∃ call ∈ calls, call.isRefused = true := by
        obtain ⟨call, hc, href⟩ := hno
        rcases List.mem_cons.1 hc with rfl | hc
        · cases href
        · rcases List.mem_cons.1 hc with rfl | hc
          · cases href
          · exact ⟨call, hc, href⟩
      obtain ⟨key, v', hmem, hlost⟩ := ih hrest' hno'
      refine ⟨key, v', List.mem_cons_of_mem _ hmem, fun w' i m x' hin => ?_⟩
      rcases List.infix_cons_iff.1 hin with hpre | hin
      · have hhead := (List.cons_prefix_cons.1 hpre).1
        have hkey : key = k := (Call.variation.inj hhead).2.1
        exact String.lt_irrefl k (hkey ▸ hk _ hmem)
      · rcases List.infix_cons_iff.1 hin with hpre | hin
        · have hhead := (List.cons_prefix_cons.1 hpre).1
          cases hhead
        · exact hlost w' i m x' hin

/-- The exposures of all variables were accepted exactly if no write was refused. -/
theorem accepts_iff
    {journal : Journal}
    (h : Recording experiment (some u) circumstances values journal.writes)
    (hvalues : Dict.Ascending values) :
    (∀ key v, (key, v) ∈ values → journal.Accepts experiment u key v.label) ↔
      ∀ call ∈ journal, call.isRefused = false := by
  constructor
  · intro hall call hc
    cases href : call.isRefused with
    | false => rfl
    | true =>
        obtain ⟨key, v, hmem, hlost⟩ :=
          h.exists_not_infix_of_refused rfl hvalues
            ⟨call, Journal.mem_writes_of_isRefused hc href, href⟩
        obtain ⟨w, m, x, hin⟩ := hall key v hmem
        exact absurd hin (hlost w w.id m x)
  · intro hok key v hmem
    obtain ⟨w, x, hin⟩ :=
      h.infix_of_not_refused rfl (fun call hc => hok call (List.mem_filter.1 hc).1) hmem
    exact ⟨w, circumstances, x, hin⟩

end Recording

section Runs

variable {σ : Type} [Store σ]

/-- What an exposed trial has recorded for its unit is complete exactly if no write failed. -/
theorem serve_accepts_iff
    {t : Trial} (ht : t.Ordered) (hnew : ¬ t.IsExposed) (s : σ)
    (requests : List (Time × Request)) {a : Assignment} {u : Subject}
    (ha : (serve requests (t, (⟨s, []⟩ : Journaled σ))).1.stage = .exposed a)
    (hu : t.unitFrom (serve requests (t, (⟨s, []⟩ : Journaled σ))).2.journal.foundUsers = some u) :
    (∀ key v, (key, v) ∈ a.values →
        (serve requests (t, (⟨s, []⟩ : Journaled σ))).2.journal.Accepts
          t.experiment.id u key v.label) ↔
      ∀ call ∈ (serve requests (t, (⟨s, []⟩ : Journaled σ))).2.journal, call.isRefused = false := by
  obtain ⟨-, hist⟩ := serve_traced t s requests
  generalize hrun : serve requests (t, (⟨s, []⟩ : Journaled σ)) = run at ha hu hist ⊢
  generalize run.1.stage = stage at ha hist
  cases hist with
  | begun hnone hfound => exact absurd ⟨a, ha⟩ hnew
  | settled hassigned hnew' hnone hfound => cases ha
  | exposed hassigned hnew' hin hunit hrec =>
      cases ha
      cases hunit.symm.trans hu
      exact hrec.accepts_iff (ht.assigned hassigned)

/-- A trial of which a write was refused counts as exposed. -/
theorem serve_exposed_of_refused
    (t : Trial) (s : σ) (requests : List (Time × Request))
    {call : Call} (hc : call ∈ (serve requests (t, (⟨s, []⟩ : Journaled σ))).2.journal)
    (href : call.isRefused = true) :
    (serve requests (t, (⟨s, []⟩ : Journaled σ))).1.IsExposed := by
  obtain ⟨-, hist⟩ := serve_traced t s requests
  have hwrite := Journal.mem_writes_of_isRefused hc href
  unfold IsExposed
  generalize serve requests (t, (⟨s, []⟩ : Journaled σ)) = run at hist hwrite ⊢
  generalize run.1.stage = stage at hist ⊢
  cases hist with
  | begun hnone hfound => simp [hnone] at hwrite
  | settled hassigned hnew' hnone hfound => simp [hnone] at hwrite
  | exposed hassigned hnew' hin hunit hrec => exact ⟨_, rfl⟩

/-- An exposed trial whose inputs stand for a unit has exposures of the unit for all its
variables exactly if the store refused none of its writes.  A trial of which a write was refused
is always exposed, so no later request makes up for what is missing. -/
theorem exposures_complete_iff
    (t : Trial) (ht : t.Ordered) (hnew : ¬ t.IsExposed) (s : σ)
    (requests : List (Time × Request)) :
    let run := serve requests (t, (⟨s, []⟩ : Journaled σ))
    (∀ a u, run.1.stage = .exposed a → t.unitFrom run.2.journal.foundUsers = some u →
      ((∀ key v, (key, v) ∈ a.values →
          run.2.journal.Accepts t.experiment.id u key v.label) ↔
        ∀ call ∈ run.2.journal, call.isRefused = false)) ∧
    ((∃ call ∈ run.2.journal, call.isRefused = true) → run.1.IsExposed) := by
  intro run
  refine ⟨fun a u ha hu => ?_, fun ⟨call, hc, href⟩ => ?_⟩
  · exact serve_accepts_iff ht hnew s requests ha hu
  · exact serve_exposed_of_refused t s requests hc href

end Runs

section Sample

/-- The trial of color and size is exposed though an exposure of it was refused. -/
theorem colorAndSize_exposed_incompletely :
    colorAndSize.Ordered ∧ ¬ colorAndSize.IsExposed ∧
    (serve getThenExpose (colorAndSize, refusingStore)).1.IsExposed :=
  have hordered : colorAndSize.Ordered := ordered_of_unevaluated rfl
  have hnew : ¬ colorAndSize.IsExposed := not_isExposed_of_unevaluated rfl
  ⟨hordered, hnew,
    (exposures_complete_iff colorAndSize hordered hnew refusingStore.store getThenExpose).2
      (by decide)⟩

/-- That a new trial is exposed does not mean that all its exposures were accepted. -/
theorem exposed_with_lost_exposure :
    ¬ ∀ (t : Trial) (s : Unreliable Memory) (requests : List (Time × Request)),
      t.stage = .unevaluated →
      let run := serve requests (t, (⟨s, []⟩ : Journaled (Unreliable Memory)))
      ∀ a u, run.1.stage = .exposed a → t.unitFrom run.2.journal.foundUsers = some u →
        ∀ key v, (key, v) ∈ a.values →
          run.2.journal.Accepts t.experiment.id u key v.label := by
  intro hall
  have hordered : colorAndSize.Ordered := ordered_of_unevaluated rfl
  have hnew : ¬ colorAndSize.IsExposed := not_isExposed_of_unevaluated rfl
  have hstage : (serve getThenExpose (colorAndSize, refusingStore)).1.stage =
      .exposed ⟨[("color", .string "red"), ("size", .string "big")], true⟩ := by
    rfl
  have hunit : colorAndSize.unitFrom
      (serve getThenExpose (colorAndSize, refusingStore)).2.journal.foundUsers =
        some (.external "abc" "device_id") := by
    rfl
  have haccepted := hall colorAndSize refusingStore.store getThenExpose rfl _ _ hstage hunit
  have hno := (serve_accepts_iff hordered hnew refusingStore.store getThenExpose hstage hunit).1
    haccepted
  revert hno
  decide

end Sample

end Trial

end Allotment
