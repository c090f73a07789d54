import Allotment.Expr.Basic

/-!
# Nodes of an expression

The expressions that stand somewhere in an expression, the expression itself among them.
What an expression reads, sets or returns anywhere in it is said by the nodes it has.
-/

namespace Allotment

namespace Expr

mutual

/-- The expression and all expressions inside it. -/
def nodes : Expr → List Expr
  | .value v => [.value v]
  | .list es => .list es :: nodesAll es
  | .literal v => [.literal v]
  | .get x => [.get x]
  | .set x e => .set x e :: nodes e
  | .seq es => .seq es :: nodesAll es
  | .ret e => .ret e :: nodes e
  | .cond bs => .cond bs :: nodesBranches bs
  | .array e => .array e :: nodes e
  | .map es => .map es :: nodesEntries es
  | .index b i => .index b i :: (nodes b ++ nodes i)
  | .coalesce es => .coalesce es :: nodesAll es
  | .all es => .all es :: nodesAll es
  | .any es => .any es :: nodesAll es
  | .compare c l r => .compare c l r :: (nodes l ++ nodes r)
  | .aggregate a e => .aggregate a e :: nodes e
  | .arithmetic a l r => .arithmetic a l r :: (nodes l ++ nodes r)
  | .unary u e => .unary u e :: nodes e
  | .random d u s f => .random d u s f :: (nodes u ++ nodesDraw d)

/-- The nodes of some expressions. -/
def nodesAll : List Expr → List Expr
  | [] => []
  | e :: rest => nodes e ++ nodesAll rest

/-- The nodes of both parts of some branches. -/
def nodesBranches : List (Expr × Expr) → List Expr
  | [] => []
  | (c, e) :: rest => nodes c ++ (nodes e ++ nodesBranches rest)

/-- The nodes of some entries. -/
def nodesEntries : List (String × Expr) → List Expr
  | [] => []
  | (_, e) :: rest => nodes e ++ nodesEntries rest

/-- The nodes of the operands of a draw. -/
def nodesDraw : Lottery Expr → List Expr
  | .uniformChoice c => nodes c
  | .weightedChoice c w => nodes c ++ nodes w
  | .bernoulliTrial p => nodes p
  | .bernoulliFilter p c => nodes p ++ nodes c
  | .randomFloat lo hi => nodes lo ++ nodes hi
  | .randomInteger lo hi => nodes lo ++ nodes hi
  | .sample c none => nodes c
  | .sample c (some n) => nodes c ++ nodes n

end

end Expr

end Allotment
