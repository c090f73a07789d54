import Allotment.Digest
import Allotment.Fault
import Allotment.Json.Label
import Allotment.Shuffle

/-!
# Draws

A draw is a function of a 60-bit number, the hash of a seed.  A seed is a salt
followed by the labels of the units, so the same unit always draws the same.

The first part of the module treats draws as functions of the hash, the second
one seeds.
-/

namespace Allotment

namespace Draw

/-- The greatest hash. -/
def top : Nat := 0xFFFFFFFFFFFFFFF

/-- The hash as a fraction of the greatest one. -/
def fraction (h : Nat) : Float := Float.ofNat h / Float.ofNat top

/-- A number from `min` to `max`. -/
def uniform (h : Nat) (min max : Float) : Float := min + (max - min) * fraction h

/-- An integer from `min` to `max`, both included. -/
def integer (h : Nat) (min max : Int) : Except Fault Int :=
  if max < min then .error (.invalidOperator (.emptyRange min max))
  else .ok (min + (h : Int) % (max - min + 1))

/-- A position in a list of `len` elements. -/
def index (h len : Nat) : Except Fault Nat :=
  if len = 0 then .error (.invalidOperator (.noChoices "uniformChoice")) else .ok (h % len)

/-- The running totals of the weights, starting from `total`. -/
def cumulative (total : Float) : List Float → List Float
  | [] => []
  | w :: rest => (total + w) :: cumulative (total + w) rest

/-- The weight is a finite number that is not negative. -/
def weightOk (w : Float) : Bool := decide (Binary64.IsFinite w) && !(w < 0.0)

/-- A position drawn in proportion to the weights: the first one whose running total
reaches a number drawn from zero to the sum. -/
def weighted (h : Nat) (weights : List Float) : Except Fault Nat :=
  if weights = [] then .error (.invalidOperator (.noChoices "weightedChoice"))
  else
    match weights.find? (fun w => !weightOk w) with
    | some w => .error (.invalidOperator (.badWeight w))
    | none =>
        let totals := cumulative 0.0 weights
        let sum := totals.getLast?.getD 0.0
        if sum ≤ 0.0 then .error (.invalidOperator .noPositiveWeight)
        else
          let stop := uniform h 0.0 sum
          .ok ((totals.findIdx? (fun c => stop ≤ c)).getD (weights.length - 1))

/-- The number lies in the unit interval. -/
def isProbability (p : Float) : Bool := 0.0 ≤ p && p ≤ 1.0

/-- Success with probability `p`. -/
def bernoulli (h : Nat) (p : Float) : Except Fault Bool :=
  if isProbability p then .ok (uniform h 0.0 1.0 ≤ p)
  else .error (.invalidOperator (.badProbability p))

end Draw

/-- The text that is hashed for a draw. -/
structure Seed where
  text : String
deriving DecidableEq, Repr

namespace Seed

/-- The seed with one more label behind it. -/
def extend (s : Seed) (v : Json) : Seed := ⟨s.text ++ "." ++ v.label⟩

/-- The seed of a salt and the units. -/
def ofSalt (salt : String) (units : List Json) : Seed := units.foldl extend ⟨salt⟩

/-- The seed of an experiment's salt, a variable's salt and the units. -/
def ofSalts (experiment own : String) (units : List Json) : Seed :=
  ofSalt (experiment ++ "." ++ own) units

/-- The hash of the seed. -/
def hash (s : Seed) : Nat := Digest.hash60 s.text

/-- The hash of the seed with one more label. -/
def hashWith (s : Seed) (v : Json) : Nat := (s.extend v).hash

/-- The position that changes places with `i` in a shuffle. -/
def partner (s : Seed) (i : Nat) : Nat := s.hashWith (.ofNat i) % (i + 1)

/-- A shuffled list. -/
def shuffle {α : Type u} (s : Seed) (l : List α) : List α := shuffleWith s.partner l

theorem hash_lt (s : Seed) : s.hash < 0x1000000000000000 := Digest.hash60_lt s.text

theorem partner_le (s : Seed) (i : Nat) : s.partner i ≤ i :=
  Nat.le_of_lt_succ (Nat.mod_lt _ (Nat.succ_pos i))

end Seed

end Allotment
