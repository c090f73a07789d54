import Allotment.Draw
import Mathlib.Algebra.Order.Floor.Div
import Mathlib.Data.Int.CardIntervalMod
import Mathlib.Data.Set.Card

/-!
# Uniform draws

A position and an integer are drawn by the remainder of the hash.  Among the `2 ^ 60` hashes each
remainder occurs as often as any other one, or once more, so the draws are as even as the number
of hashes allows.  An integer is drawn by the words of a machine, and none of them overflows.

**Results.**
* `Draw.share_of_residue`: how many hashes leave a remainder.
* `Draw.integerByWords?_eq`: the machine draws the exact integer.
* `Draw.evenly_shared`: positions and integers are drawn evenly.
-/

namespace Allotment

namespace Draw

/-- For how many hashes something is drawn. -/
noncomputable def share {α : Type} (draw : Nat → Except Fault α) (a : α) : Nat :=
  Set.ncard {h | h ≤ top ∧ draw h = .ok a}

/-- As many hashes as each of `n` outcomes gets if they share them evenly, up to one hash. -/
def EvenShare (n count : Nat) : Prop := count = 2 ^ 60 / n ∨ count = 2 ^ 60 ⌈/⌉ n

theorem evenShare_of_lt {n r : Nat} (hn : 0 < n) :
    EvenShare n (2 ^ 60 / n + if r < 2 ^ 60 % n then 1 else 0) := by
  by_cases hr : r < 2 ^ 60 % n
  · have hceil : 2 ^ 60 + n - 1 = 2 ^ 60 - 1 + n := by omega
    have hpred : (2 ^ 60 - 1) / n = 2 ^ 60 / n := by
      have hmod := Nat.div_add_mod (2 ^ 60) n
      have hlt := Nat.mod_lt (2 ^ 60) hn
      rw [Nat.div_eq_iff hn]
      rw [Nat.mul_comm] at hmod
      omega
    rw [if_pos hr]
    right
    rw [Nat.ceilDiv_eq_add_pred_div, hceil, Nat.add_div_right _ hn, hpred]
  · rw [if_neg hr]
    exact .inl (Nat.add_zero _)

/-- A draw by the remainder of the hash is even. -/
theorem share_of_residue {α : Type} {draw : Nat → Except Fault α} {a : α} {n r : Nat}
    (hr : r < n) (hdraw : ∀ h, draw h = .ok a ↔ h % n = r) : EvenShare n (share draw a) := by
  have hn : 0 < n := Nat.zero_lt_of_lt hr
  have hset : {h | h ≤ top ∧ draw h = .ok a} =
      ((Finset.range (2 ^ 60)).filter (· ≡ r [MOD n]) : Finset Nat) := by
    ext h
    have hle : h ≤ top ↔ h < 2 ^ 60 := Nat.lt_succ_iff.symm
    rw [Set.mem_ofPred_eq, Finset.mem_coe, Finset.mem_filter, Finset.mem_range, hle, hdraw,
      Nat.ModEq, Nat.mod_eq_of_lt hr]
  rw [share, hset, Set.ncard_coe_finset, ← Nat.count_eq_card_filter_range,
    Nat.count_modEq_card _ hn, Nat.mod_eq_of_lt hr]
  exact evenShare_of_lt hn

theorem index_of_pos {len : Nat} (hlen : 0 < len) (h : Nat) : index h len = .ok (h % len) :=
  if_neg hlen.ne'

theorem integer_of_le {lo hi : Int} (hle : lo ≤ hi) (h : Nat) :
    integer h lo hi = .ok (lo + (h : Int) % (hi - lo + 1)) :=
  if_neg (Int.not_lt.2 hle)

theorem share_index {len i : Nat} (hi : i < len) : EvenShare len (share (index · len) i) := by
  refine share_of_residue hi fun h => ?_
  rw [index_of_pos (Nat.zero_lt_of_lt hi), Except.ok.injEq]

theorem share_integer {lo hi n : Int} {span : Nat} (hspan : (span : Int) = hi - lo + 1)
    (hlo : lo ≤ n) (hhi : n ≤ hi) : EvenShare span (share (integer · lo hi) n) := by
  have hr : (n - lo).toNat < span := by omega
  refine share_of_residue hr fun h => ?_
  have hcast : (h : Int) % (hi - lo + 1) = (h % span : Nat) := by
    rw [← hspan, Int.natCast_emod]
  rw [integer_of_le (hlo.trans hhi), Except.ok.injEq, hcast]
  omega

/-- The integers of a signed word of 128 bits, if they fit into one. -/
def signed128? : Int → Option (Bounded (-0x80000000000000000000000000000000)
    0x80000000000000000000000000000000) :=
  Bounded.ofInt? _ _

/-- The integers of an unsigned word of 128 bits, if they fit into one. -/
def unsigned128? : Int → Option (Bounded 0 0x100000000000000000000000000000000) :=
  Bounded.ofInt? _ _

/-- The integer drawn by the words of a machine: nothing, if a step does not fit into its word. -/
def integerByWords? (h : Nat) (lo hi : Signed) : Option Signed := do
  let hi' ← signed128? hi.val
  let lo' ← signed128? lo.val
  let width ← signed128? (hi'.val - lo'.val)
  let span ← signed128? (width.val + 1)
  let span ← unsigned128? span.val
  let hash ← unsigned128? h
  guard (span.val ≠ 0)
  let offset ← signed128? (hash.val % span.val)
  let n ← signed128? (lo'.val + offset.val)
  Bounded.ofInt? _ _ n.val

theorem signed128?_of_bounds {n : Int}
    (hlow : -0x80000000000000000000000000000000 ≤ n)
    (hhigh : n < 0x80000000000000000000000000000000) :
    signed128? n = some ⟨n, hlow, hhigh⟩ :=
  dif_pos ⟨hlow, hhigh⟩

theorem unsigned128?_of_bounds {n : Int}
    (hlow : 0 ≤ n) (hhigh : n < 0x100000000000000000000000000000000) :
    unsigned128? n = some ⟨n, hlow, hhigh⟩ :=
  dif_pos ⟨hlow, hhigh⟩

/-- No step of the machine overflows, and what it draws is the exact integer. -/
theorem integerByWords?_eq {h : Nat} {lo hi : Signed} (hh : h ≤ top) (hle : lo.val ≤ hi.val) :
    ∃ n : Signed, integerByWords? h lo hi = some n ∧ integer h lo.val hi.val = .ok n.val ∧
      lo.val ≤ n.val ∧ n.val ≤ hi.val := by
  have hlo := lo.lo_le
  have hhi := hi.lt_hi
  have hspan : 0 < hi.val - lo.val + 1 := by omega
  have hoffset := Int.emod_nonneg (h : Int) hspan.ne'
  have hoffset' := Int.emod_lt_of_pos (h : Int) hspan
  have htop : h ≤ 0xFFFFFFFFFFFFFFF := hh
  refine ⟨⟨lo.val + (h : Int) % (hi.val - lo.val + 1), by omega, by omega⟩, ?_,
    integer_of_le hle h, by dsimp only; omega, by dsimp only; omega⟩
  simp (disch := omega) only [integerByWords?, signed128?_of_bounds, unsigned128?_of_bounds,
    Option.bind_eq_bind, Option.bind_some, ne_eq, hspan.ne', not_false_eq_true, guard_true,
    Option.pure_def]
  exact dif_pos (by omega)

/-- Every position of a list is drawn for as many hashes as an even share of them has, and so is
every integer between two signed ones; nothing else is drawn, and no step of the machine
overflows. -/
theorem evenly_shared :
    (∀ len, 1 ≤ len →
      (∀ h ≤ top, ∃ i < len, index h len = .ok i) ∧
      ∀ i < len, EvenShare len (share (index · len) i)) ∧
    ∀ lo hi : Signed, lo.val ≤ hi.val →
      (∀ h ≤ top, ∃ n : Signed, integerByWords? h lo hi = some n ∧
        integer h lo.val hi.val = .ok n.val ∧ lo.val ≤ n.val ∧ n.val ≤ hi.val) ∧
      ∀ n, lo.val ≤ n → n ≤ hi.val →
        EvenShare (hi.val - lo.val + 1).toNat (share (integer · lo.val hi.val) n) := by
  refine ⟨fun len hlen => ⟨fun h _ => ?_, fun i => share_index⟩,
    fun lo hi hle => ⟨fun h hh => integerByWords?_eq hh hle, fun n => share_integer ?_⟩⟩
  · exact ⟨h % len, Nat.mod_lt h hlen, index_of_pos hlen h⟩
  · omega

/-- A signed integer out of all of them is drawn for one hash or for none. -/
theorem share_of_all_signed :
    ∀ n : Signed, share (integer · (-0x8000000000000000) 0x7FFFFFFFFFFFFFFF) n.val ≤ 1 := by
  intro n
  have hhi := n.lt_hi
  obtain hzero | hone := (evenly_shared.2 ⟨-0x8000000000000000, by decide, by decide⟩
    ⟨0x7FFFFFFFFFFFFFFF, by decide, by decide⟩ (by decide)).2 n.val n.lo_le (by dsimp only; omega)
  · exact hzero.le.trans (by decide)
  · refine hone.le.trans ?_
    rw [Nat.ceilDiv_eq_add_pred_div]
    decide

end Draw

end Allotment
