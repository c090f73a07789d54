import Allotment.Draw
import Mathlib.Data.Fintype.BigOperators
import Mathlib.Data.Fintype.Perm
import Mathlib.Data.List.NodupEquivFin
import Mathlib.Data.Nat.Factorial.BigOperators

/-!
# Shuffles reach every order once

A step of a shuffle fixes the element at its position: all later steps exchange positions further
in front.  So the last element of the shuffled list tells the residue of the first step, and step by
step the shuffled list tells all residues.  There are as many residues as orders, and no order is
favoured by them.

**Results.**
* `shuffleWith_perm`: a shuffled list has the elements of the list.
* `getElem?_shuffleFrom_of_lt`, `getElem?_shuffleFrom_self`: what a step leaves and what it fixes.
* `Residues.order_bijective`: every order comes of one choice of the residues.
* `Seed.shuffle_exact`: the shuffle by a seed is the one by its residues.
-/

namespace Allotment

universe u v

section Exchange

variable {α : Type u} {l : List α} {i j k : Nat}

theorem exchange_eq (hi : i < l.length) (hj : j < l.length) :
    exchange l i j = (l.set i l[j]).set j l[i] := by
  simp [exchange, hi, hj]

theorem exchange_perm (l : List α) (i j : Nat) : (exchange l i j).Perm l := by
  by_cases h : i < l.length ∧ j < l.length
  · rw [exchange_eq h.1 h.2]
    exact List.set_set_perm h.1 h.2
  · have hnone : l[i]? = none ∨ l[j]? = none := by
      simp only [List.getElem?_eq_none_iff]
      omega
    unfold exchange
    rcases hnone with h | h <;> simp [h]

theorem getElem?_exchange_left (hi : i < l.length) (hj : j < l.length) :
    (exchange l i j)[i]? = l[j]? := by
  rw [exchange_eq hi hj, List.getElem?_set]
  by_cases h : j = i
  · simp [h, hi]
  · simp [h, hi, hj]

theorem getElem?_exchange_of_ne (hi : k ≠ i) (hj : k ≠ j) :
    (exchange l i j)[k]? = l[k]? := by
  unfold exchange
  split
  · rw [List.getElem?_set_ne hj.symm, List.getElem?_set_ne hi.symm]
  · rfl

end Exchange

section Steps

variable {α : Type u} {p q : Nat → Nat} {l : List α} {n : Nat}

theorem shuffleFrom_perm (p : Nat → Nat) (n : Nat) (l : List α) :
    (shuffleFrom p n l).Perm l := by
  induction n generalizing l with
  | zero => exact .refl l
  | succ n ih => exact (ih _).trans (exchange_perm l _ _)

/-- A shuffled list has the elements of the list. -/
theorem shuffleWith_perm (p : Nat → Nat) (l : List α) : (shuffleWith p l).Perm l :=
  shuffleFrom_perm p _ l

theorem shuffleFrom_congr (h : ∀ i, 0 < i → i ≤ n → p i = q i) (l : List α) :
    shuffleFrom p n l = shuffleFrom q n l := by
  induction n generalizing l with
  | zero => rfl
  | succ n ih =>
      rw [shuffleFrom, shuffleFrom, h (n + 1) (Nat.succ_pos n) (Nat.le_refl _)]
      exact ih (fun i hi hin => h i hi (Nat.le_succ_of_le hin)) _

variable (hp : ∀ i, p i ≤ i)
include hp

/-- Positions behind that of a step stay as they are. -/
theorem getElem?_shuffleFrom_of_lt {k : Nat} (hk : n < k) :
    (shuffleFrom p n l)[k]? = l[k]? := by
  induction n generalizing l with
  | zero => rfl
  | succ n ih =>
      have hpartner := hp (n + 1)
      rw [shuffleFrom, ih (Nat.lt_of_succ_lt hk),
        getElem?_exchange_of_ne (Nat.ne_of_gt hk) (by omega)]

/-- A step fixes the element at its position. -/
theorem getElem?_shuffleFrom_self (hn : n + 1 < l.length) :
    (shuffleFrom p (n + 1) l)[n + 1]? = l[p (n + 1)]? := by
  rw [shuffleFrom, getElem?_shuffleFrom_of_lt hp (Nat.lt_succ_self n),
    getElem?_exchange_left hn (Nat.lt_of_le_of_lt (hp _) hn)]

/-- The order of different elements tells what every step did. -/
theorem eq_of_shuffleFrom_eq
    (hq : ∀ i, q i ≤ i) (hl : l.Nodup) (hn : n < l.length)
    (h : shuffleFrom p n l = shuffleFrom q n l) {i : Nat} (hi : 0 < i) (hin : i ≤ n) :
    p i = q i := by
  induction n generalizing l with
  | zero => exact absurd hin (Nat.not_le.2 hi)
  | succ n ih =>
      have hfixed : l[p (n + 1)]? = l[q (n + 1)]? := by
        rw [← getElem?_shuffleFrom_self hp hn, ← getElem?_shuffleFrom_self hq hn, h]
      have hstep : p (n + 1) = q (n + 1) :=
        (List.getElem?_inj (Nat.lt_of_le_of_lt (hp _) hn) hl).1 hfixed
      rcases Nat.le_succ_iff.1 hin with hin | rfl
      · rw [shuffleFrom, shuffleFrom, hstep] at h
        have hperm := exchange_perm l (n + 1) (q (n + 1))
        refine ih (hperm.nodup_iff.2 hl) ?_ h hin
        rw [length_exchange]
        exact Nat.lt_of_succ_lt hn
      · exact hstep

end Steps

/-- What the steps of a shuffle of `n` elements draw: for the position `i + 1` one not behind it. -/
abbrev Residues (n : Nat) := (i : Fin (n - 1)) → Fin (i.val + 2)

namespace Residues

variable {n : Nat} {α : Type u}

/-- The position that changes places with another one. -/
def position (r : Residues n) : Nat → Nat
  | 0 => 0
  | i + 1 => if h : i < n - 1 then r ⟨i, h⟩ else 0

theorem position_succ (r : Residues n) (i : Fin (n - 1)) : r.position (i + 1) = r i :=
  dif_pos i.isLt

theorem position_le (r : Residues n) (i : Nat) : r.position i ≤ i := by
  cases i with
  | zero => exact Nat.le_refl 0
  | succ i =>
      rw [position]
      split
      · exact Nat.le_of_lt_succ (r _).isLt
      · exact Nat.zero_le _

/-- The list shuffled by the residues. -/
def arrange (r : Residues n) (l : List α) : List α := shuffleWith r.position l

/-- The residues are told by the order of different elements. -/
theorem eq_of_arrange_eq
    {r r' : Residues n} {l : List α} (hl : l.Nodup) (hn : l.length = n)
    (h : r.arrange l = r'.arrange l) :
    r = r' := by
  funext i
  have hlast : l.length - 1 < l.length := by
    have := i.isLt
    omega
  have hposition : r.position (i + 1) = r'.position (i + 1) := by
    refine eq_of_shuffleFrom_eq r.position_le r'.position_le hl hlast h (Nat.succ_pos _) ?_
    rw [hn]
    exact i.isLt
  rw [position_succ, position_succ] at hposition
  exact Fin.ext hposition

/-- The order into which the positions of a list come: what stands at a position then is what
stood at its image before. -/
def order (r : Residues n) : Equiv.Perm (Fin n) :=
  (finCongr (by simp [arrange])).trans <|
    List.Nodup.getEquivOfForallMemList (r.arrange (List.finRange n))
      ((shuffleWith_perm _ _).nodup_iff.2 (List.nodup_finRange n))
      fun i => (shuffleWith_perm _ _).mem_iff.2 (List.mem_finRange i)

theorem arrange_finRange (r : Residues n) : r.arrange (List.finRange n) = List.ofFn r.order := by
  refine List.ext_getElem (by simp [arrange]) fun i hi _ => ?_
  rw [List.getElem_ofFn]
  rfl

/-- A list is shuffled by the order of its positions. -/
theorem arrange_eq (r : Residues n) (l : List α) (hn : l.length = n) :
    r.arrange l = List.ofFn fun i => l[r.order i] := by
  subst hn
  have hpositions : (List.finRange l.length).map (fun i => l[i]) = l :=
    List.map_getElem_finRange l
  have hmap : r.arrange ((List.finRange l.length).map fun i => l[i]) =
      (r.arrange (List.finRange l.length)).map fun i => l[i] :=
    shuffleWith_map _ r.position _
  rw [hpositions, arrange_finRange, List.map_ofFn] at hmap
  exact hmap

/-- There are as many residues as orders. -/
theorem card_residues (n : Nat) : Fintype.card (Residues n) = n.factorial := by
  have hprod : ∀ m, ∏ i ∈ Finset.range m, (i + 2) = (m + 1).factorial := by
    intro m
    induction m with
    | zero => rfl
    | succ m ih => rw [Finset.prod_range_succ, ih, Nat.factorial_succ (m + 1), Nat.mul_comm]
  rw [Fintype.card_pi]
  simp only [Fintype.card_fin]
  rw [Fin.prod_univ_eq_prod_range (fun i => i + 2), hprod]
  cases n with
  | zero => rfl
  | succ n => rfl

/-- Every order of the positions comes of one choice of the residues. -/
theorem order_bijective (n : Nat) :
    Function.Bijective (order : Residues n → Equiv.Perm (Fin n)) := by
  -- Different residues give different orders, and there are as many of one as of the other.
  refine (Fintype.bijective_iff_injective_and_card _).2 ⟨fun r r' h => ?_, ?_⟩
  · refine eq_of_arrange_eq (List.nodup_finRange n) (List.length_finRange) ?_
    rw [arrange_finRange, arrange_finRange, h]
  · rw [card_residues, Fintype.card_perm, Fintype.card_fin]

end Residues

namespace Seed

variable {α : Type u} {β : Type v}

/-- What the seed draws for the steps of a shuffle. -/
def residues (s : Seed) (n : Nat) : Residues n := fun i =>
  ⟨s.partner (i + 1), Nat.lt_succ_of_le (s.partner_le (i + 1))⟩

theorem shuffle_eq_arrange (s : Seed) (l : List α) :
    s.shuffle l = (s.residues l.length).arrange l := by
  refine shuffleFrom_congr (fun i hi hlast => ?_) l
  obtain ⟨i, rfl⟩ := Nat.exists_eq_succ_of_ne_zero (Nat.ne_of_gt hi)
  exact (Residues.position_succ (s.residues l.length) ⟨i, hlast⟩).symm

/-- A shuffled list has the elements of the list, in an order that depends on its length and on
what is drawn for each step, and every order comes of exactly one choice of these draws. -/
theorem shuffle_exact :
    (∀ (s : Seed) (l : List α), (s.shuffle l).Perm l) ∧
    (∀ (s : Seed) (f : α → β) (l : List α), s.shuffle (l.map f) = (s.shuffle l).map f) ∧
    (∀ (s : Seed) (l : List α), s.shuffle l = (s.residues l.length).arrange l) ∧
    (∀ (s : Seed) (n : Nat) (i : Fin (n - 1)),
      (s.residues n i : Nat) = s.hashWith (.ofNat (i + 1)) % (i + 2)) ∧
    (∀ (l : List α) (r : Residues l.length), r.arrange l = List.ofFn fun i => l[r.order i]) ∧
    ∀ n : Nat, Function.Bijective (Residues.order : Residues n → Equiv.Perm (Fin n)) :=
  ⟨fun s => shuffleWith_perm s.partner,
    fun s f => shuffleWith_map f s.partner,
    shuffle_eq_arrange,
    fun _ _ _ => rfl,
    fun l r => r.arrange_eq l rfl,
    Residues.order_bijective⟩

end Seed

end Allotment
