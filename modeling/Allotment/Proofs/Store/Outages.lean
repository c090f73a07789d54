import Allotment.Store.Unreliable

/-!
# Calls that are refused

A call of a store that fails is refused before it reaches the store, or it goes through.  Which
of the two it is has been planned for each operation on its own, so one call says nothing about
the calls of other operations.

**Results.**
* `pass_of_refuses`, `pass_of_not_refuses`: what a call comes to.
-/

namespace Allotment

namespace Unreliable

variable {σ α : Type} {call other : StoreCall}

/-- The next call of an operation is refused. -/
def refuses (u : Unreliable σ) (call : StoreCall) : Bool :=
  (u.outages.find? fun o => o.call = call).any fun o => o.after = 0

/-- A refused call leaves the store as it is. -/
theorem pass_of_refuses
    {u : Unreliable σ} (h : u.refuses call = true) (op : StoreM σ α) :
    ∃ fault outages, pass call op u = .error fault ⟨u.store, outages⟩ := by
  unfold refuses at h
  unfold pass
  cases hfind : u.outages.find? fun o => o.call = call with
  | none =>
      rw [hfind] at h
      cases h
  | some o =>
      rw [hfind] at h
      have hafter : o.after = 0 := by simpa using h
      exact ⟨.storage o.reason, without call u.outages, by simp only [hafter, if_true]⟩

theorem find?_without
    (h : other ≠ call) (outages : List Outage) :
    (without call outages).find? (fun o => o.call = other) =
      outages.find? fun o => o.call = other := by
  unfold without
  rw [List.find?_filter]
  congr 1
  funext o
  by_cases ho : o.call = other
  · simp [ho, h]
  · simp [ho]

/-- A call that is not refused is one of the store inside, and the calls of other operations are
refused as before. -/
theorem pass_of_not_refuses
    {u : Unreliable σ} (h : u.refuses call = false) (op : StoreM σ α) :
    ∃ outages : List Outage,
      (∀ (s : σ) (other : StoreCall), other ≠ call →
        (⟨s, outages⟩ : Unreliable σ).refuses other = u.refuses other) ∧
      pass call op u =
        match op u.store with
        | .ok a s => .ok a ⟨s, outages⟩
        | .error fault s => .error fault ⟨s, outages⟩ := by
  unfold refuses at h
  unfold pass
  cases hfind : u.outages.find? fun o => o.call = call with
  | none => exact ⟨u.outages, fun _ _ _ => rfl, rfl⟩
  | some o =>
      rw [hfind] at h
      have hafter : ¬ o.after = 0 := by simpa using h
      have hcall : o.call = call := by simpa using List.find?_some hfind
      refine ⟨{ o with after := o.after - 1 } :: without call u.outages, ?_, ?_⟩
      · intro s other hother
        have hne : ¬ o.call = other := fun heq => hother (heq.symm.trans hcall)
        simp only [refuses, List.find?_cons, hne, decide_false]
        rw [find?_without hother]
      · exact if_neg hafter

end Unreliable

end Allotment
