import Allotment.Eval
import Allotment.Proofs.Draw.Uniform
import Mathlib.Data.Nat.PSub

/-!
# Draws with guarded steps

Some steps of a draw have a condition: a divisor is not zero, a position lies in its list, a list
is long enough for what is taken of it, and an integer fits into its word.  Here these steps are
guarded, and a draw comes to nothing if a guard stops it.

The lengths are checked in one place and used in another.  A draw by weights takes its position
from the weights, the last one if no running total reaches the stop, and the choices are as many
as the weights.

**Results.**
* `Draw.index_within`, `Draw.weighted_within`: the positions that are drawn lie in their lists.
* `Seed.guardedShuffle_eq`: no guard stops a shuffle.
* `Draw.guardedWeighted_eq`, `Draw.guardedInteger_eq`: no guard stops a draw.
-/

namespace Allotment

/-- Why a computation with guarded steps does not come to a value. -/
inductive Stop where
  /-- It has a fault of its own. -/
  | fault (why : Fault)
  /-- The condition of a step fails. -/
  | stuck

namespace Guarded

variable {α : Type}

/-- A guarded step of a computation. -/
def step : Option α → Except Stop α
  | some a => .ok a
  | none => .error .stuck

/-- A computation in which no step is guarded. -/
def unguarded : Except Fault α → Except Stop α := Except.mapError .fault

/-- The remainder by a divisor that is not zero. -/
def remainder? (n divisor : Nat) : Option Nat :=
  if divisor = 0 then none else some (n % divisor)

/-- The list after two elements that it has to have at these positions have changed places. -/
def exchange? (l : List α) (i j : Nat) : Option (List α) := do
  let x ← l[i]?
  let y ← l[j]?
  return (l.set i y).set j x

/-- The first `n` elements of a list that has as many. -/
def take? (n : Nat) (l : List α) : Option (List α) :=
  if n ≤ l.length then some (l.take n) else none

theorem remainder?_of_pos {n divisor : Nat} (h : 0 < divisor) :
    remainder? n divisor = some (n % divisor) :=
  if_neg h.ne'

theorem exchange?_of_lt {l : List α} {i j : Nat} (hi : i < l.length) (hj : j < l.length) :
    exchange? l i j = some (exchange l i j) := by
  simp [exchange?, exchange, hi, hj]

theorem take?_of_le {n : Nat} {l : List α} (h : n ≤ l.length) : take? n l = some (l.take n) :=
  if_pos h

end Guarded

open Guarded

namespace Seed

variable {α : Type} (s : Seed)

/-- The shuffle from a position down to the second one, with guarded steps. -/
def guardedShuffleFrom : Nat → List α → Option (List α)
  | 0, l => some l
  | n + 1, l => do
      let partner ← remainder? (s.hashWith (.ofNat (n + 1))) (n + 2)
      guardedShuffleFrom n (← exchange? l (n + 1) partner)

/-- The shuffle with guarded steps. -/
def guardedShuffle (l : List α) : Option (List α) := guardedShuffleFrom s (l.length - 1) l

theorem guardedShuffleFrom_eq {n : Nat} {l : List α} (hn : n ≤ l.length - 1) :
    s.guardedShuffleFrom n l = some (shuffleFrom s.partner n l) := by
  induction n generalizing l with
  | zero => rfl
  | succ n ih =>
      -- The guards ask for the length of the list only, which an exchange keeps.
      have hlast : n + 1 < l.length := by omega
      have hpartner : s.partner (n + 1) < l.length := (s.partner_le _).trans_lt hlast
      have hstep : remainder? (s.hashWith (.ofNat (n + 1))) (n + 2) = some (s.partner (n + 1)) :=
        remainder?_of_pos (Nat.succ_pos _)
      have hrest : n ≤ (exchange l (n + 1) (s.partner (n + 1))).length - 1 := by
        rw [length_exchange]
        omega
      simp only [guardedShuffleFrom, hstep, exchange?_of_lt hlast hpartner, Option.bind_eq_bind,
        Option.bind_some, ih hrest, shuffleFrom]

/-- No guard stops a shuffle. -/
theorem guardedShuffle_eq (l : List α) : s.guardedShuffle l = some (s.shuffle l) :=
  s.guardedShuffleFrom_eq le_rfl

end Seed

namespace Draw

/-- A position that is drawn lies in a list of this length. -/
def Within (length : Nat) (position : Except Fault Nat) : Prop :=
  ∀ i, position = .ok i → i < length

/-- A position in a list of `len` elements, with guarded steps. -/
def guardedIndex (h len : Nat) : Except Stop Nat :=
  if len = 0 then .error (.fault (.invalidOperator (.noChoices "uniformChoice")))
  else step (remainder? h len)

/-- A position drawn in proportion to the weights, with guarded steps. -/
def guardedWeighted (h : Nat) (weights : List Float) : Except Stop Nat :=
  if weights = [] then .error (.fault (.invalidOperator (.noChoices "weightedChoice")))
  else
    match weights.find? (fun w => !weightOk w) with
    | some w => .error (.fault (.invalidOperator (.badWeight w)))
    | none =>
        let totals := cumulative 0.0 weights
        let sum := totals.getLast?.getD 0.0
        if sum ≤ 0.0 then .error (.fault (.invalidOperator .noPositiveWeight))
        else do
          let stop := uniform h 0.0 sum
          let last ← step weights.length.ppred
          .ok ((totals.findIdx? (fun c => stop ≤ c)).getD last)

/-- An integer from `lo` to `hi`, drawn by the words of a machine. -/
def guardedInteger (h : Nat) (lo hi : Signed) : Except Stop Int :=
  if hi.val < lo.val then .error (.fault (.invalidOperator (.emptyRange lo.val hi.val)))
  else (step (integerByWords? h lo hi)).map (·.val)

theorem index_within (h len : Nat) : Within len (index h len) := by
  intro i hi
  rw [index] at hi
  split at hi
  · cases hi
  · rename_i hlen
    cases hi
    exact Nat.mod_lt _ (Nat.pos_of_ne_zero hlen)

theorem length_cumulative (total : Float) (weights : List Float) :
    (cumulative total weights).length = weights.length := by
  induction weights generalizing total with
  | nil => rfl
  | cons w rest ih => simp [cumulative, ih]

/-- There is a running total for each weight, so the first one that reaches the stop is in the
place of a weight, and so is the last weight if none does. -/
theorem weighted_within (h : Nat) (weights : List Float) :
    Within weights.length (weighted h weights) := by
  intro i hi
  rw [weighted] at hi
  split at hi
  · cases hi
  · rename_i hne
    have hlength : 0 < weights.length := List.length_pos_of_ne_nil hne
    split at hi
    · cases hi
    · dsimp only at hi
      split at hi
      · cases hi
      · cases hi
        cases hfind : (cumulative 0.0 weights).findIdx? _ with
        | none =>
            exact Nat.sub_lt hlength one_pos
        | some i =>
            obtain ⟨hlt, -⟩ := List.findIdx?_eq_some_iff_getElem.1 hfind
            rwa [length_cumulative] at hlt

theorem guardedIndex_eq (h len : Nat) : guardedIndex h len = unguarded (index h len) := by
  rw [guardedIndex, index]
  split
  · rfl
  · rename_i hlen
    rw [remainder?_of_pos (Nat.pos_of_ne_zero hlen)]
    rfl

theorem guardedWeighted_eq (h : Nat) (weights : List Float) :
    guardedWeighted h weights = unguarded (weighted h weights) := by
  rw [guardedWeighted, weighted]
  by_cases hne : weights = []
  · rw [if_pos hne, if_pos hne]
    rfl
  · rw [if_neg hne, if_neg hne]
    cases weights.find? (fun w => !weightOk w) with
    | some w => rfl
    | none =>
        obtain ⟨last, hlast⟩ := Nat.exists_eq_add_one_of_ne_zero (mt List.length_eq_zero_iff.1 hne)
        dsimp only
        split
        · rfl
        · rw [hlast, Nat.ppred_succ]
          rfl

theorem guardedInteger_eq {h : Nat} {lo hi : Signed} (hh : h ≤ top) :
    guardedInteger h lo hi = unguarded (integer h lo.val hi.val) := by
  rw [guardedInteger]
  split
  · rename_i hlt
    rw [integer, if_pos hlt]
    rfl
  · rename_i hle
    obtain ⟨n, hn, hexact, -⟩ := integerByWords?_eq hh (not_lt.1 hle)
    rw [hn, hexact]
    rfl

end Draw

end Allotment
