import Allotment.Proofs.Expr.Parts
import Mathlib.Logic.Basic

/-!
# Revised settings

An expression can be changed at its settings: the value of each one is revised, from the inside
out, and everything else stays as it is.

**Results.**
* `revise_self`: a revision that changes no value changes nothing.
* `parts_revise`: the parts of an expression are revised one by one.
-/

namespace Allotment

namespace Expr

mutual

/-- The expression with the value of every setting revised. -/
def revise (f : String → Expr → Expr) : Expr → Expr
  | .value v => .value v
  | .list es => .list (reviseAll f es)
  | .literal v => .literal v
  | .get x => .get x
  | .set x e => .set x (f x (revise f e))
  | .seq es => .seq (reviseAll f es)
  | .ret e => .ret (revise f e)
  | .cond bs => .cond (reviseBranches f bs)
  | .array e => .array (revise f e)
  | .map es => .map (reviseEntries f es)
  | .index b i => .index (revise f b) (revise f i)
  | .coalesce es => .coalesce (reviseAll f es)
  | .all es => .all (reviseAll f es)
  | .any es => .any (reviseAll f es)
  | .compare c l r => .compare c (revise f l) (revise f r)
  | .aggregate a e => .aggregate a (revise f e)
  | .arithmetic a l r => .arithmetic a (revise f l) (revise f r)
  | .unary u e => .unary u (revise f e)
  | .random draw unit salt fullSalt =>
      .random (reviseDraw f draw) (revise f unit) salt fullSalt

/-- Some expressions with the values of settings revised. -/
def reviseAll (f : String → Expr → Expr) : List Expr → List Expr
  | [] => []
  | e :: rest => revise f e :: reviseAll f rest

/-- Some branches with the values of settings revised. -/
def reviseBranches (f : String → Expr → Expr) : List (Expr × Expr) → List (Expr × Expr)
  | [] => []
  | (c, e) :: rest => (revise f c, revise f e) :: reviseBranches f rest

/-- Some entries with the values of settings revised. -/
def reviseEntries (f : String → Expr → Expr) : List (String × Expr) → List (String × Expr)
  | [] => []
  | (k, e) :: rest => (k, revise f e) :: reviseEntries f rest

/-- A draw with the values of settings in its operands revised. -/
def reviseDraw (f : String → Expr → Expr) : Lottery Expr → Lottery Expr
  | .uniformChoice c => .uniformChoice (revise f c)
  | .weightedChoice c w => .weightedChoice (revise f c) (revise f w)
  | .bernoulliTrial p => .bernoulliTrial (revise f p)
  | .bernoulliFilter p c => .bernoulliFilter (revise f p) (revise f c)
  | .randomFloat lo hi => .randomFloat (revise f lo) (revise f hi)
  | .randomInteger lo hi => .randomInteger (revise f lo) (revise f hi)
  | .sample c none => .sample (revise f c) none
  | .sample c (some n) => .sample (revise f c) (some (revise f n))

end

section Lists

variable (f : String → Expr → Expr)

theorem reviseAll_eq (es : List Expr) : reviseAll f es = es.map (revise f) := by
  induction es with
  | nil => rfl
  | cons e es ih => rw [reviseAll, ih, List.map_cons]

theorem reviseBranches_eq (bs : List (Expr × Expr)) :
    reviseBranches f bs = bs.map fun b => (revise f b.1, revise f b.2) := by
  induction bs with
  | nil => rfl
  | cons b bs ih => rw [reviseBranches, ih, List.map_cons]

theorem reviseEntries_eq (es : List (String × Expr)) :
    reviseEntries f es = es.map fun e => (e.1, revise f e.2) := by
  induction es with
  | nil => rfl
  | cons e es ih => rw [reviseEntries, ih, List.map_cons]

theorem operands_reviseDraw (draw : Lottery Expr) :
    (reviseDraw f draw).operands = draw.operands.map (revise f) := by
  cases draw with
  | sample c n =>
      cases n with
      | none => simp [reviseDraw, Lottery.operands]
      | some n => simp [reviseDraw, Lottery.operands]
  | _ => simp [reviseDraw, Lottery.operands]

@[simp] theorem name_reviseDraw (draw : Lottery Expr) :
    (reviseDraw f draw).name = draw.name := by
  cases draw with
  | sample c n => cases n <;> simp [reviseDraw, Lottery.name]
  | _ => simp [reviseDraw, Lottery.name]

/-- The parts are revised one by one, and that of a setting once more as its value. -/
theorem parts_revise (e : Expr) :
    (e.revise f).parts =
      match e with
      | .set x d => [f x (d.revise f)]
      | e => e.parts.map (revise f) := by
  cases e <;>
    simp [revise, parts, reviseAll_eq, reviseBranches_eq, reviseEntries_eq, operands_reviseDraw,
      List.flatMap_map, List.map_flatMap]

end Lists

mutual

/-- A revision that changes no value changes nothing. -/
theorem revise_self : ∀ e : Expr, e.revise (fun _ d => d) = e
  | .value _ => rfl
  | .list es => congrArg Expr.list (reviseAll_self es)
  | .literal _ => rfl
  | .get _ => rfl
  | .set x e => congrArg (Expr.set x) (revise_self e)
  | .seq es => congrArg Expr.seq (reviseAll_self es)
  | .ret e => congrArg Expr.ret (revise_self e)
  | .cond bs => congrArg Expr.cond (reviseBranches_self bs)
  | .array e => congrArg Expr.array (revise_self e)
  | .map es => congrArg Expr.map (reviseEntries_self es)
  | .index b i => congrArg₂ Expr.index (revise_self b) (revise_self i)
  | .coalesce es => congrArg Expr.coalesce (reviseAll_self es)
  | .all es => congrArg Expr.all (reviseAll_self es)
  | .any es => congrArg Expr.any (reviseAll_self es)
  | .compare c l r => congrArg₂ (Expr.compare c) (revise_self l) (revise_self r)
  | .aggregate a e => congrArg (Expr.aggregate a) (revise_self e)
  | .arithmetic a l r => congrArg₂ (Expr.arithmetic a) (revise_self l) (revise_self r)
  | .unary u e => congrArg (Expr.unary u) (revise_self e)
  | .random draw unit salt fullSalt => by
      rw [revise, reviseDraw_self draw, revise_self unit]

theorem reviseAll_self : ∀ es : List Expr, reviseAll (fun _ d => d) es = es
  | [] => rfl
  | e :: rest => congrArg₂ List.cons (revise_self e) (reviseAll_self rest)

theorem reviseBranches_self :
    ∀ bs : List (Expr × Expr), reviseBranches (fun _ d => d) bs = bs
  | [] => rfl
  | (c, e) :: rest =>
      congrArg₂ List.cons (congrArg₂ Prod.mk (revise_self c) (revise_self e))
        (reviseBranches_self rest)

theorem reviseEntries_self :
    ∀ es : List (String × Expr), reviseEntries (fun _ d => d) es = es
  | [] => rfl
  | (k, e) :: rest =>
      congrArg₂ List.cons (congrArg (Prod.mk k) (revise_self e)) (reviseEntries_self rest)

theorem reviseDraw_self : ∀ draw : Lottery Expr, reviseDraw (fun _ d => d) draw = draw
  | .uniformChoice c => congrArg Lottery.uniformChoice (revise_self c)
  | .weightedChoice c w => congrArg₂ Lottery.weightedChoice (revise_self c) (revise_self w)
  | .bernoulliTrial p => congrArg Lottery.bernoulliTrial (revise_self p)
  | .bernoulliFilter p c => congrArg₂ Lottery.bernoulliFilter (revise_self p) (revise_self c)
  | .randomFloat lo hi => congrArg₂ Lottery.randomFloat (revise_self lo) (revise_self hi)
  | .randomInteger lo hi => congrArg₂ Lottery.randomInteger (revise_self lo) (revise_self hi)
  | .sample c none => congrArg (Lottery.sample · none) (revise_self c)
  | .sample c (some n) =>
      congrArg₂ (fun c n => Lottery.sample c (some n)) (revise_self c) (revise_self n)

end

end Expr

end Allotment
