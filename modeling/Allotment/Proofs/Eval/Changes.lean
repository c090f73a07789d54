import Allotment.Eval
import Allotment.Proofs.Expr.Nodes

/-!
# Changes of an environment

An evaluation changes its environment in two places: where a setting binds its variable and
where a return completes.  Its trace is the list of these changes in the order in which they
happen, up to the end of the evaluation or to its fault.

The trace follows the evaluation from part to part.  It asks the evaluation itself for the
values on which the way depends.

**Results.**
* `Env.isHalted_replay`: an environment is halted by the returns among its changes.
* `Env.assign_of_live`: before a return, a setting is a change.
-/

namespace Allotment

/-- One change of an environment. -/
inductive Change where
  /-- A setting binds its variable. -/
  | bind (x : String) (v : Json)
  /-- A return completes with its value. -/
  | halt (v : Json)

namespace Change

/-- The change is a completed return. -/
def isReturn : Change → Bool
  | .bind _ _ => false
  | .halt _ => true

/-- The value of a completed return. -/
def returned? : Change → Option Json
  | .bind _ _ => none
  | .halt v => some v

/-- The variable that is bound. -/
def bound? : Change → Option String
  | .bind x _ => some x
  | .halt _ => none

/-- One of the nodes makes such a change. -/
def ComesFrom (nodes : List Expr) : Change → Prop
  | .bind x _ => ∃ e, .set x e ∈ nodes
  | .halt _ => ∃ e, .ret e ∈ nodes

end Change

namespace Env

/-- The environment after a change.  The variable of the salt replaces the salt as well. -/
def change (env : Env) : Change → Env
  | .bind x v => (if x = saltVariable then { env with salt := saltText v } else env).bind x v
  | .halt v => env.halt v.truthy

/-- The environment after some changes. -/
def replay (env : Env) (cs : List Change) : Env := cs.foldl change env

/-- The environments from a first one on, through some changes. -/
def course (env : Env) (cs : List Change) : List Env := cs.scanl change env

@[simp] theorem replay_nil (env : Env) : env.replay [] = env := rfl

@[simp] theorem replay_cons (env : Env) (c : Change) (cs : List Change) :
    env.replay (c :: cs) = (env.change c).replay cs := rfl

theorem replay_append (env : Env) (cs ds : List Change) :
    env.replay (cs ++ ds) = (env.replay cs).replay ds :=
  List.foldl_append

theorem isHalted_bind (env : Env) (x : String) (v : Json) :
    (env.bind x v).isHalted = env.isHalted := by
  unfold bind
  split
  · rfl
  · rfl

theorem isHalted_change (env : Env) (c : Change) :
    (env.change c).isHalted = (env.isHalted || c.isReturn) := by
  cases c with
  | bind x v =>
      unfold change
      rw [isHalted_bind]
      split
      · simp [isHalted, Change.isReturn]
      · simp [Change.isReturn]
  | halt v => simp [change, halt, isHalted, Change.isReturn]

/-- An environment is halted by the returns among its changes. -/
theorem isHalted_replay (env : Env) (cs : List Change) :
    (env.replay cs).isHalted = (env.isHalted || cs.any Change.isReturn) := by
  induction cs generalizing env with
  | nil => simp
  | cons c cs ih =>
      rw [replay_cons, ih, isHalted_change, List.any_cons, Bool.or_assoc]

theorem isOverridden_bind (env : Env) (x y : String) (v : Json) :
    (env.bind x v).isOverridden y = env.isOverridden y := by
  unfold bind
  split
  · rfl
  · rfl

theorem isOverridden_change (env : Env) (c : Change) (y : String) :
    (env.change c).isOverridden y = env.isOverridden y := by
  cases c with
  | bind x v =>
      unfold change
      rw [isOverridden_bind]
      split
      · rfl
      · rfl
  | halt v => rfl

/-- Changes override nothing. -/
theorem isOverridden_replay (env : Env) (cs : List Change) (y : String) :
    (env.replay cs).isOverridden y = env.isOverridden y := by
  induction cs generalizing env with
  | nil => rfl
  | cons c cs ih => rw [replay_cons, ih, isOverridden_change]

/-- Without a halt, a setting is a change. -/
theorem assign_of_live
    {env : Env} (h : env.isHalted = false) (x : String) (v : Json) :
    env.assign x v = env.change (.bind x v) := by
  unfold assign
  by_cases hx : x = saltVariable
  · simp [h, hx, change]
  · simp [h, hx, change]

theorem assign_of_halted
    {env : Env} (h : env.isHalted = true) (x : String) (v : Json) :
    env.assign x v = env := by
  unfold assign
  rw [if_pos h]

end Env

/-- The changes that a computation makes to an environment. -/
abbrev Trace := Env → List Change

namespace Trace

variable {α : Type}

/-- No changes. -/
def still : Trace := fun _ => []

/-- No changes, once the environment is halted. -/
def unlessHalted (t : Trace) : Trace := fun env => if env.isHalted then [] else t env

/-- No changes, if the variable is overridden. -/
def unlessOverridden (x : String) (t : Trace) : Trace := fun env =>
  if env.isOverridden x then [] else t env

/-- The changes of a computation and, if it comes to a value, those of what follows on it. -/
def andThen (t : Trace) (run : Run α) (next : α → Trace) : Trace := fun env =>
  t env ++
    match run env with
    | .ok a env' => next a env'
    | .error _ _ => []

/-- The variable is bound. -/
def binding (x : String) (v : Json) : Trace := unlessHalted fun _ => [.bind x v]

/-- The return completes. -/
def returning (v : Json) : Trace := fun _ => [.halt v]

section AndThen

variable {t : Trace} {run : Run α} {next : α → Trace} {env env' : Env}

theorem andThen_of_ok
    {a : α} (h : run env = .ok a env') :
    t.andThen run next env = t env ++ next a env' := by
  unfold andThen
  rw [h]

theorem andThen_of_error
    {e : Fault} (h : run env = .error e env') :
    t.andThen run next env = t env := by
  unfold andThen
  rw [h]
  exact List.append_nil _

end AndThen

end Trace

mutual

/-- The changes by the evaluation of an expression.  The name is that of the variable of which
the expression is directly the value. -/
def changes (name : Option String) : Expr → Trace
  | .value _ => .unlessHalted .still
  | .list es => .unlessHalted (changesItems es)
  | .literal _ => .unlessHalted .still
  | .get _ => .unlessHalted .still
  | .set x e => .unlessHalted <| .unlessOverridden x <|
      (changes (some x) e).andThen (eval (some x) e) fun v => .binding x v
  | .seq es => .unlessHalted (changesSeq es)
  | .ret e => .unlessHalted <|
      (changes none e).andThen (eval none e) fun v => .returning v
  | .cond bs => .unlessHalted (changesBranches bs)
  | .array e => .unlessHalted (changes none e)
  | .map es => .unlessHalted (changesEntries es)
  | .index b i => .unlessHalted <|
      (changes none b).andThen (eval none b) fun _ => changes none i
  | .coalesce es => .unlessHalted (changesFirst es)
  | .all es => .unlessHalted (changesAll es)
  | .any es => .unlessHalted (changesAny es)
  | .compare _ l r => .unlessHalted <|
      (changes none l).andThen (eval none l) fun _ => changes none r
  | .aggregate _ e => .unlessHalted (changes none e)
  | .arithmetic a l r => .unlessHalted <|
      (changes none l).andThen (Run.numberFor a.name (eval none l)) fun _ => changes none r
  | .unary _ e => .unlessHalted (changes none e)
  | .random draw unit salt fullSalt => .unlessHalted <|
      (changes none unit).andThen (eval none unit) fun v =>
        Trace.still.andThen (seedFor draw.name (salt <|> name) fullSalt (unitsOf v)) fun _ =>
          changesDraw draw

/-- The changes by the evaluation of all expressions of a list. -/
def changesItems : List Expr → Trace
  | [] => .still
  | e :: rest => (changes none e).andThen (eval none e) fun _ => changesItems rest

/-- The changes by the evaluation of all entries. -/
def changesEntries : List (String × Expr) → Trace
  | [] => .still
  | (_, e) :: rest => (changes none e).andThen (eval none e) fun _ => changesEntries rest

/-- The changes by the evaluation of the expressions in turn, up to a halt. -/
def changesSeq : List Expr → Trace
  | [] => .still
  | e :: rest =>
      (changes none e).andThen (eval none e) fun _ => .unlessHalted (changesSeq rest)

/-- The changes by the evaluation of the conditions up to a true one, and of its branch. -/
def changesBranches : List (Expr × Expr) → Trace
  | [] => .still
  | (c, e) :: rest => (changes none c).andThen (eval none c) fun v =>
      if v.truthy then changes none e else changesBranches rest

/-- The changes by the evaluation up to a value that is not null. -/
def changesFirst : List Expr → Trace
  | [] => .still
  | e :: rest => (changes none e).andThen (eval none e) fun v =>
      match v with
      | .null => changesFirst rest
      | _ => .still

/-- The changes by the evaluation up to a value that is not true. -/
def changesAll : List Expr → Trace
  | [] => .still
  | e :: rest => (changes none e).andThen (eval none e) fun v =>
      if v.truthy then changesAll rest else .still

/-- The changes by the evaluation up to a value that is true. -/
def changesAny : List Expr → Trace
  | [] => .still
  | e :: rest => (changes none e).andThen (eval none e) fun v =>
      if v.truthy then .still else changesAny rest

/-- The changes by the evaluation of the operands of a draw. -/
def changesDraw : Lottery Expr → Trace
  | .uniformChoice c => changes none c
  | .weightedChoice c w =>
      (changes none c).andThen (Run.listFor "weightedChoice" (eval none c)) fun _ =>
        changes none w
  | .bernoulliTrial p => changes none p
  | .bernoulliFilter p c =>
      (changes none p).andThen (Run.numberFor "bernoulliFilter" (eval none p)) fun _ =>
        changes none c
  | .randomFloat lo hi =>
      (changes none lo).andThen (Run.numberFor "randomFloat" (eval none lo)) fun _ =>
        changes none hi
  | .randomInteger lo hi =>
      (changes none lo).andThen (Run.integerFor "randomInteger" (eval none lo)) fun _ =>
        changes none hi
  | .sample c none => changes none c
  | .sample c (some n) =>
      (changes none c).andThen (samplePool (eval none c)) fun _ => changes none n

end

end Allotment
