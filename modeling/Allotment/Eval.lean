import Allotment.Draw
import Allotment.Env

/-!
# Evaluation

An expression is evaluated in an environment, which it changes, to a value or a
fault.  What was done before a fault stays done.

A return does not unwind: it marks the environment as halted, and from then on
every evaluation that is still to come gives null without any effect.

A random operator takes its draw from the hash of its salts and its unit.  Standing
directly as the value of a setting it may do without a salt of its own and has the
name of the variable instead.
-/

namespace Allotment

universe u

/-- A computation that changes an environment. -/
abbrev Run := EStateM Fault Env

namespace Run

variable {α : Type}

/-- The result, or its fault. -/
def ofExcept : Except Fault α → Run α
  | .ok a => pure a
  | .error e => throw e

/-- The operand of an operator, or that it does not fit. -/
def demand (op : String) : Except TypeFault α → Run α
  | .ok a => pure a
  | .error why => throw (.typeMismatch op why)

/-- Null, once the environment is halted. -/
def unlessHalted (run : Run Json) : Run Json := do
  if (← get).isHalted then return .null else run

/-- The value of a name. -/
def lookup (x : String) : Run Json := do
  match (← get).get? x with
  | some v => return v
  | none => throw (.undefinedVariable x)

/-- Null, if the variable is overridden. -/
def unlessOverridden (x : String) (run : Run Json) : Run Json := do
  if (← get).isOverridden x then return .null else run

/-- A value computed for an operator, as a list. -/
def listFor (op : String) (run : Run Json) : Run (List Json) := do demand op (← run).asList

/-- A value computed for an operator, as a number. -/
def numberFor (op : String) (run : Run Json) : Run Operand := do demand op (← run).asNumber

/-- A value computed for an operator, as an integer. -/
def integerFor (op : String) (run : Run Json) : Run Signed := do demand op (← run).asInteger

end Run

/-- The units of a draw: the items of a list, or a single value. -/
def unitsOf : Json → List Json
  | .array items => items
  | v => [v]

/-- The seed of a random operator for the units: that of the full salt, if there is one, and
otherwise that of the environment's salt and the operator's own. -/
def seedFor (op : String) (salt fullSalt : Option String) (units : List Json) : Run Seed := do
  match fullSalt, salt with
  | some whole, _ => return Seed.ofSalt whole units
  | none, some own => return Seed.ofSalts (← get).salt own units
  | none, none => throw (.invalidOperator (.noSalt op))

namespace Seed

/-- The choices that succeed with probability `p`, each in a draw of its own. -/
def filter (s : Seed) (p : Float) : List Json → Except Fault (List Json)
  | [] => .ok []
  | c :: rest =>
      match Draw.bernoulli (s.hashWith c) p with
      | .error e => .error e
      | .ok keep =>
          match filter s p rest with
          | .error e => .error e
          | .ok kept => .ok (if keep then c :: kept else kept)

end Seed

/-- The choice at a drawn position. -/
def choose (choices : List Json) (position : Except Fault Nat) : Run Json := do
  return choices.getD (← Run.ofExcept position) .null

/-- The position that the weights draw, of which there have to be as many as choices. -/
def weightedPosition (h : Nat) (choices : List Json) (weights : List Operand) : Except Fault Nat :=
  if weights.length = choices.length then Draw.weighted h (weights.map Operand.toFloat)
  else .error (.invalidOperator (.weightCount choices.length weights.length))

/-- The size of a sample from `available` choices. -/
def sampleSize (available : Nat) (draws : Int) : Except Fault Nat :=
  if 0 ≤ draws ∧ draws ≤ available then .ok draws.toNat
  else .error (.invalidOperator (.badDraws draws available))

/-- Choices to take a sample from. -/
def samplePool (run : Run Json) : Run (List Json) := do
  let choices ← Run.listFor "sample" run
  if choices.isEmpty then throw (.invalidOperator (.noChoices "sample")) else return choices

/-- The value of an aggregate of a list. -/
def aggregateOf (a : Aggregate) (v : Json) : Run Json := do
  match a.apply? (← Run.demand a.name v.asNumbers) with
  | some n => return n.toJson
  | none => throw (.invalidOperator (.noValues a.name))

mutual

/-- Evaluates an expression.  The name is that of the variable of which the expression is
directly the value. -/
def eval (name : Option String) : Expr → Run Json
  | .value v => Run.unlessHalted (return v)
  | .list items => Run.unlessHalted do return .array (← evalItems items)
  | .literal v => Run.unlessHalted (return v)
  | .get x => Run.unlessHalted (Run.lookup x)
  | .set x e => Run.unlessHalted <| Run.unlessOverridden x do
      let v ← eval (some x) e
      modify fun env => env.assign x v
      return .null
  | .seq body => Run.unlessHalted (evalSeq .null body)
  | .ret e => Run.unlessHalted do
      let v ← eval none e
      modify fun env => env.halt v.truthy
      return .null
  | .cond branches => Run.unlessHalted (evalBranches branches)
  | .array e => Run.unlessHalted do return .array (← Run.listFor "array" (eval none e))
  | .map entries => Run.unlessHalted do return .object (← evalEntries entries)
  | .index b i => Run.unlessHalted do
      let base ← eval none b
      let index ← eval none i
      Run.demand "index" (base.pick index)
  | .coalesce es => Run.unlessHalted (evalFirst es)
  | .all es => Run.unlessHalted (evalAll es)
  | .any es => Run.unlessHalted (evalAny es)
  | .compare c l r => Run.unlessHalted do
      let v ← eval none l
      let w ← eval none r
      return .bool (← Run.demand c.name (c.apply v w))
  | .aggregate a e => Run.unlessHalted do aggregateOf a (← eval none e)
  | .arithmetic a l r => Run.unlessHalted do
      let m ← Run.numberFor a.name (eval none l)
      let n ← Run.numberFor a.name (eval none r)
      Run.demand a.name (a.apply m n)
  | .unary u e => Run.unlessHalted do Run.demand u.name (u.apply (← eval none e))
  | .random draw unit salt fullSalt => Run.unlessHalted do
      let v ← eval none unit
      let seed ← seedFor draw.name (salt <|> name) fullSalt (unitsOf v)
      evalDraw seed draw

/-- The values of a list of expressions. -/
def evalItems : List Expr → Run (List Json)
  | [] => return []
  | e :: rest => do
      let v ← eval none e
      let vs ← evalItems rest
      return v :: vs

/-- The values under their names. -/
def evalEntries : List (String × Expr) → Run (List (String × Json))
  | [] => return []
  | (k, e) :: rest => do
      let v ← eval none e
      let vs ← evalEntries rest
      return (k, v) :: vs

/-- The value of the last expression, or of the one that ended the evaluation; `last` if
there is none. -/
def evalSeq (last : Json) : List Expr → Run Json
  | [] => return last
  | e :: rest => do
      let v ← eval none e
      if (← get).isHalted then return v else evalSeq v rest

/-- The value of the first branch whose condition is true, or null. -/
def evalBranches : List (Expr × Expr) → Run Json
  | [] => return .null
  | (c, e) :: rest => do
      if (← eval none c).truthy then eval none e else evalBranches rest

/-- The first value that is not null, or null. -/
def evalFirst : List Expr → Run Json
  | [] => return .null
  | e :: rest => do
      match ← eval none e with
      | .null => evalFirst rest
      | v => return v

/-- Whether all values are true, up to the first one that is not. -/
def evalAll : List Expr → Run Json
  | [] => return .bool true
  | e :: rest => do
      if (← eval none e).truthy then evalAll rest else return .bool false

/-- Whether some value is true, up to the first one that is. -/
def evalAny : List Expr → Run Json
  | [] => return .bool false
  | e :: rest => do
      if (← eval none e).truthy then return .bool true else evalAny rest

/-- Draws with a seed. -/
def evalDraw (seed : Seed) : Lottery Expr → Run Json
  | .uniformChoice c => do
      let choices ← Run.listFor "uniformChoice" (eval none c)
      choose choices (Draw.index seed.hash choices.length)
  | .weightedChoice c w => do
      let choices ← Run.listFor "weightedChoice" (eval none c)
      let weights ← Run.demand "weightedChoice" (← eval none w).asNumbers
      choose choices (weightedPosition seed.hash choices weights)
  | .bernoulliTrial p => do
      let p ← Run.numberFor "bernoulliTrial" (eval none p)
      let success ← Run.ofExcept (Draw.bernoulli seed.hash p.toFloat)
      return .ofNat success.toNat
  | .bernoulliFilter p c => do
      let p ← Run.numberFor "bernoulliFilter" (eval none p)
      let choices ← Run.listFor "bernoulliFilter" (eval none c)
      return .array (← Run.ofExcept (seed.filter p.toFloat choices))
  | .randomFloat lo hi => do
      let min ← Run.numberFor "randomFloat" (eval none lo)
      let max ← Run.numberFor "randomFloat" (eval none hi)
      return .ofFloat (Draw.uniform seed.hash min.toFloat max.toFloat)
  | .randomInteger lo hi => do
      let min ← Run.integerFor "randomInteger" (eval none lo)
      let max ← Run.integerFor "randomInteger" (eval none hi)
      return .ofInt (← Run.ofExcept (Draw.integer seed.hash min.val max.val))
  | .sample c none => do
      let choices ← samplePool (eval none c)
      return .array (seed.shuffle choices)
  | .sample c (some n) => do
      let choices ← samplePool (eval none c)
      let draws ← Run.integerFor "sample" (eval none n)
      let size ← Run.ofExcept (sampleSize choices.length draws.val)
      return .array ((seed.shuffle choices).take size)

end

end Allotment
