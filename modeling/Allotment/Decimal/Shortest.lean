import Allotment.Binary64

/-!
# Shortest decimals

The decimal with the fewest digits among those that round to a given binary64
value and, of these, the one nearest to the value.

**Algorithm.**  For 1, 2, … 17 digits take the grid of decimals with that many
digits at the scale of the value, and test the two grid points around the value
against the interval of reals that round to it.  All comparisons are exact, by
cross-multiplication of natural numbers.
-/

namespace Allotment

/-- The decimal `digits * 10 ^ exp`. -/
structure Decimal where
  /-- The significant digits as a number. -/
  digits : Nat
  /-- The exponent of the last digit. -/
  exp : Int
deriving DecidableEq, Repr

namespace Decimal

/-- Which of two equally near decimals is chosen. -/
inductive Tie where
  /-- The one whose last digit is even. -/
  | toEven
  /-- The larger one. -/
  | away
deriving DecidableEq, Repr

/-- Compares `a * 10 ^ i` with `n * 2 ^ j`. -/
def compareScaled (a : Nat) (i : Int) (n : Nat) (j : Int) : Ordering :=
  compare (a * Nat.pow 10 i.toNat * Nat.pow 2 (-j).toNat)
    (n * Nat.pow 2 j.toNat * Nat.pow 10 (-i).toNat)

/-- The decimal lies in the interval of reals that round to the magnitude of `b`;
the ends belong to the interval exactly when the significand is even. -/
def readsBack (b : Binary64) (d : Decimal) : Bool :=
  let lo := if b.narrowBelow then 4 * b.m - 1 else 4 * b.m - 2
  let hi := 4 * b.m + 2
  let closed := b.m % 2 == 0
  let low := compareScaled d.digits d.exp lo (b.q - 2)
  let high := compareScaled d.digits d.exp hi (b.q - 2)
  (low == .gt || (closed && low == .eq)) && (high == .lt || (closed && high == .eq))

/-- The least `k` with `m * 2 ^ q < 10 ^ k`, found near an estimate from the binary logarithm. -/
def scale (b : Binary64) : Int :=
  let estimate := ((b.m.log2 : Int) + b.q) * 30103 / 100000
  if compareScaled 1 estimate b.m b.q == .gt then estimate
  else if compareScaled 1 (estimate + 1) b.m b.q == .gt then estimate + 1
  else estimate + 2

/-- The digits of the grid point `10 ^ g * n` that is the last one not above the value. -/
def gridBelow (b : Binary64) (g : Int) : Nat :=
  (b.m * Nat.pow 2 b.q.toNat * Nat.pow 10 (-g).toNat) /
    (Nat.pow 2 (-b.q).toNat * Nat.pow 10 g.toNat)

/-- Which of the grid points `n` and `n + 1` around the value is the nearer one. -/
def nearer (tie : Tie) (b : Binary64) (n : Nat) (g : Int) : Nat :=
  -- Twice the value is compared with the sum of the two grid points.
  match compareScaled (2 * n + 1) g (2 * b.m) b.q, tie with
  | .gt, _ => n
  | .lt, _ => n + 1
  | .eq, .away => n + 1
  | .eq, .toEven => if n % 2 = 0 then n else n + 1

/-- The point of the grid `10 ^ g` that rounds to the value, the nearer one of two. -/
def onGrid? (tie : Tie) (b : Binary64) (g : Int) : Option Decimal :=
  let n := gridBelow b g
  match readsBack b ⟨n, g⟩, readsBack b ⟨n + 1, g⟩ with
  | true, true => some ⟨nearer tie b n g, g⟩
  | true, false => some ⟨n, g⟩
  | false, true => some ⟨n + 1, g⟩
  | false, false => none

/-- Moves trailing zeros of the digits into the exponent. -/
def strip (d : Decimal) : Decimal :=
  go d.digits d.digits d.exp
where
  /-- Strips at most as many zeros as the first argument says. -/
  go : Nat → Nat → Int → Decimal
    | 0, n, e => ⟨n, e⟩
    | fuel + 1, n, e => if n % 10 = 0 ∧ n ≠ 0 then go fuel (n / 10) (e + 1) else ⟨n, e⟩

/-- The exact value of the magnitude of `b`. -/
def exact (b : Binary64) : Decimal :=
  if 0 ≤ b.q then ⟨b.m * Nat.pow 2 b.q.toNat, 0⟩ else ⟨b.m * Nat.pow 5 (-b.q).toNat, b.q⟩

/-- The shortest decimal that rounds to the magnitude of `b`; zero has the digit `0`. -/
def shortest (tie : Tie) (b : Binary64) : Decimal :=
  if b.m = 0 then ⟨0, 0⟩
  else
    let k := scale b
    let found := (List.range 17).findSome? fun i : Nat => onGrid? tie b (k - 1 - i)
    strip (found.getD (exact b))

end Decimal

end Allotment
