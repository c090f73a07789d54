/-!
# Bounded integers

Exact integers with the bounds of a machine word carried in the type.
-/

namespace Allotment

/-- An integer from `lo` up to and without `hi`. -/
structure Bounded (lo hi : Int) where
  val : Int
  lo_le : lo ≤ val
  lt_hi : val < hi
deriving DecidableEq, Repr

namespace Bounded

variable {lo hi : Int}

/-- The integer as a member of the range, if it lies there. -/
def ofInt? (lo hi n : Int) : Option (Bounded lo hi) :=
  if h : lo ≤ n ∧ n < hi then some ⟨n, h.1, h.2⟩ else none

theorem ofInt?_eq_some_iff {n : Int} {b : Bounded lo hi} :
    ofInt? lo hi n = some b ↔ b.val = n := by
  unfold ofInt?
  constructor
  · intro h
    split at h
    · cases h; rfl
    · contradiction
  · intro h
    subst h
    simp [b.lo_le, b.lt_hi]

theorem ofInt?_eq_none_iff {n : Int} : ofInt? lo hi n = none ↔ n < lo ∨ hi ≤ n := by
  unfold ofInt?
  split <;> simp <;> omega

@[simp] theorem ofInt?_val (b : Bounded lo hi) : ofInt? lo hi b.val = some b :=
  ofInt?_eq_some_iff.2 rfl

end Bounded

/-- The integers of a signed 64-bit word. -/
abbrev Signed := Bounded (-0x8000000000000000) 0x8000000000000000

/-- The integers of a signed or an unsigned 64-bit word. -/
abbrev Whole := Bounded (-0x8000000000000000) 0x10000000000000000

/-- The signed 64-bit integer nearest to `n`. -/
def Signed.clamp (n : Int) : Signed :=
  ⟨max (-0x8000000000000000) (min n 0x7FFFFFFFFFFFFFFF), by omega, by omega⟩

/-- The signed 64-bit integer that differs from `n` by a multiple of `2 ^ 64`. -/
def Signed.wrap (n : Int) : Signed :=
  ⟨Int.bmod n 0x10000000000000000, Int.le_bmod (by decide), Int.bmod_lt (by decide)⟩

/-- A signed 64-bit integer among the integers of either signedness. -/
def Signed.toWhole (n : Signed) : Whole := ⟨n.val, n.lo_le, by have := n.lt_hi; omega⟩

end Allotment
