/-!
# Shuffling a list

The exact exchange shuffle.  For each position from the last down to the second
the element there changes places with the one at a given position not behind it.

**Results.**
* `length_shuffleWith`: the length stays.
* `shuffleWith_map`: only positions decide, never the elements.
-/

namespace Allotment

universe u v

variable {α : Type u} {β : Type v}

/-- Exchanges the elements at two positions; nothing happens unless both are in the list. -/
def exchange (l : List α) (i j : Nat) : List α :=
  match l[i]?, l[j]? with
  | some x, some y => (l.set i y).set j x
  | _, _ => l

/-- Exchanges position `i` with `position i` for `i` from `n` down to `1`. -/
def shuffleFrom (position : Nat → Nat) : Nat → List α → List α
  | 0, l => l
  | n + 1, l => shuffleFrom position n (exchange l (n + 1) (position (n + 1)))

/-- Exchanges position `i` with `position i` for all positions but the first, from the last one
down. -/
def shuffleWith (position : Nat → Nat) (l : List α) : List α :=
  shuffleFrom position (l.length - 1) l

@[simp] theorem length_exchange (l : List α) (i j : Nat) : (exchange l i j).length = l.length := by
  unfold exchange
  split <;> simp

@[simp] theorem length_shuffleFrom (position : Nat → Nat) (n : Nat) (l : List α) :
    (shuffleFrom position n l).length = l.length := by
  induction n generalizing l with
  | zero => rfl
  | succ n ih => simp [shuffleFrom, ih]

@[simp] theorem length_shuffleWith (position : Nat → Nat) (l : List α) :
    (shuffleWith position l).length = l.length :=
  length_shuffleFrom position _ l

theorem exchange_map (f : α → β) (l : List α) (i j : Nat) :
    exchange (l.map f) i j = (exchange l i j).map f := by
  unfold exchange
  cases hi : l[i]? <;> cases hj : l[j]? <;> simp [List.getElem?_map, hi, hj, List.map_set]

theorem shuffleFrom_map (f : α → β) (position : Nat → Nat) (n : Nat) (l : List α) :
    shuffleFrom position n (l.map f) = (shuffleFrom position n l).map f := by
  induction n generalizing l with
  | zero => rfl
  | succ n ih => simp [shuffleFrom, exchange_map, ih]

/-- The shuffle moves positions and never looks at the elements. -/
theorem shuffleWith_map (f : α → β) (position : Nat → Nat) (l : List α) :
    shuffleWith position (l.map f) = (shuffleWith position l).map f := by
  simp [shuffleWith, shuffleFrom_map]

end Allotment
