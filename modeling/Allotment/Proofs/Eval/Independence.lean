import Allotment.Proofs.Dict
import Allotment.Proofs.Eval.Appending
import Allotment.Proofs.Eval.Verdict
import Mathlib.Data.List.Pairwise

/-!
# Independent expressions

Two expressions are independent if neither has a return or replaces the salt, and neither sets
a variable that the other one reads or sets.  What one of them binds, the other one neither sees
nor undoes, so they may change places in a sequence.

Only which of two faults ends a run depends on the order: it is that of the expression that
comes first.

**Results.**
* `Env.replay_comm`: changes that are apart from others can be made before or after them.
* `eval_replay`: changes apart from what an expression mentions do not matter to its evaluation.
* `interchangeable_of_independent`: independent expressions can be evaluated in either order.
* `independent_reordered`: sequences and definitions with independent expressions in them.
-/

namespace Allotment

open Stateful
open EStateM (Result)

namespace Expr

/-- The variable that an expression itself reads or sets. -/
def mentioned? : Expr → Option String
  | .get x => some x
  | .set x _ => some x
  | _ => none

/-- The variables that are read or set anywhere in an expression. -/
def mentioned (e : Expr) : List String := e.nodes.filterMap mentioned?

theorem mem_mentioned_of_get
    {e : Expr} {x : String} (h : .get x ∈ e.nodes) :
    x ∈ e.mentioned :=
  List.mem_filterMap.2 ⟨_, h, rfl⟩

theorem mem_mentioned_of_set
    {e d : Expr} {x : String} (h : .set x d ∈ e.nodes) :
    x ∈ e.mentioned :=
  List.mem_filterMap.2 ⟨_, h, rfl⟩

/-- An expression does nothing that concerns another one: it has no return, does not replace the
salt, and sets no variable that the other one mentions. -/
structure Spares (a b : Expr) : Prop where
  noReturn : ∀ n ∈ a.nodes, n.isReturn = false
  noSalt : Env.saltVariable ∉ a.assigned
  apart : ∀ x ∈ a.assigned, x ∉ b.mentioned

instance (a b : Expr) : Decidable (Spares a b) :=
  decidable_of_iff
    ((∀ n ∈ a.nodes, n.isReturn = false) ∧ Env.saltVariable ∉ a.assigned ∧
      ∀ x ∈ a.assigned, x ∉ b.mentioned)
    ⟨fun h => ⟨h.1, h.2.1, h.2.2⟩, fun h => ⟨h.noReturn, h.noSalt, h.apart⟩⟩

/-- Neither expression does anything that concerns the other one. -/
def Independent (a b : Expr) : Prop := a.Spares b ∧ b.Spares a

instance (a b : Expr) : Decidable (Independent a b) :=
  inferInstanceAs (Decidable (_ ∧ _))

theorem Independent.symm {a b : Expr} (h : Independent a b) : Independent b a :=
  And.symm h

end Expr

/-- The change binds a variable, which is neither that of the salt nor one of the names. -/
inductive Change.Apart (names : List String) : Change → Prop
  | bind {x : String} (v : Json) (hsalt : x ≠ Env.saltVariable) (hx : x ∉ names) :
      Apart names (.bind x v)

/-- What an expression changes is apart from what is mentioned by one that it spares. -/
theorem Expr.Spares.apart_changes
    {a b : Expr} (h : a.Spares b) (name : Option String) (env : Env) :
    ∀ c ∈ changes name a env, c.Apart b.mentioned := by
  intro c hc
  have hrecorded := eval_records a name (List.Subset.refl a.nodes) env
  have horigin := hrecorded.origin c hc
  cases c with
  | bind x v =>
      have hx : x ∈ a.assigned := mem_assigned.2 horigin
      refine .bind v ?_ (h.apart x hx)
      rintro rfl
      exact h.noSalt hx
  | halt v =>
      obtain ⟨e, he⟩ := horigin
      exact absurd (h.noReturn _ he) (by simp [isReturn])

namespace Env

variable {env : Env} {names : List String} {cs ds : List Change}

/-- Different variables can be bound in either order. -/
theorem bind_comm
    (env : Env) {x y : String} (hxy : x ≠ y) (v w : Json) :
    (env.bind x v).bind y w = (env.bind y w).bind x v := by
  have hbound : ∀ z d, isOverridden { env with bindings := d } z = env.isOverridden z :=
    fun _ _ => rfl
  unfold bind
  cases hx : env.isOverridden x <;> cases hy : env.isOverridden y
  · simp [hbound, hx, hy, Dict.insert_comm env.bindings hxy]
  · simp [hbound, hx, hy]
  · simp [hbound, hx, hy]
  · simp [hx, hy]

theorem bind_withSalt
    (env : Env) (x : String) (v : Json) (salt : String) :
    ({ env with salt := salt } : Env).bind x v = { env.bind x v with salt := salt } := by
  unfold bind
  have hsame : isOverridden { env with salt := salt } x = env.isOverridden x := rfl
  rw [hsame]
  split
  · rfl
  · rfl

theorem bind_halt
    (env : Env) (x : String) (v : Json) (verdict : Bool) :
    (env.halt verdict).bind x v = (env.bind x v).halt verdict := by
  unfold bind
  have hsame : (env.halt verdict).isOverridden x = env.isOverridden x := rfl
  rw [hsame]
  split
  · rfl
  · rfl

/-- A change that is apart from another one can be made before or after it. -/
theorem change_comm
    {c d : Change} (hc : c.Apart names) (hd : ∀ x ∈ d.bound?, x ∈ names) (env : Env) :
    (env.change c).change d = (env.change d).change c := by
  cases hc with
  | @bind x v hsalt hx =>
      have hbind : ∀ env : Env, env.change (.bind x v) = env.bind x v := by
        intro env
        simp only [change, if_neg hsalt]
      rw [hbind, hbind]
      cases d with
      | bind y w =>
          have hxy : x ≠ y := fun heq => hx (heq ▸ hd y rfl)
          by_cases hy : y = saltVariable
          · simp only [change, if_pos hy]
            rw [← bind_withSalt, bind_comm _ hxy]
          · simp only [change, if_neg hy]
            rw [bind_comm _ hxy]
      | halt w => exact (bind_halt env x v w.truthy).symm

theorem replay_change
    {d : Change} (hcs : ∀ c ∈ cs, c.Apart names) (hd : ∀ x ∈ d.bound?, x ∈ names) (env : Env) :
    (env.replay cs).change d = (env.change d).replay cs := by
  induction cs generalizing env with
  | nil => rfl
  | cons c cs ih =>
      obtain ⟨hc, hcs⟩ := List.forall_mem_cons.1 hcs
      rw [replay_cons, replay_cons, ih hcs, change_comm hc hd]

/-- Changes that are apart from other ones can be made before or after them. -/
theorem replay_comm
    (hcs : ∀ c ∈ cs, c.Apart names) (hds : ∀ x ∈ boundVariables ds, x ∈ names) (env : Env) :
    (env.replay cs).replay ds = (env.replay ds).replay cs := by
  induction ds generalizing env with
  | nil => rfl
  | cons d ds ih =>
      rw [boundVariables_cons, List.forall_mem_append] at hds
      have hd : ∀ x ∈ d.bound?, x ∈ names := fun x hx => hds.1 x (Option.mem_toList.2 hx)
      rw [replay_cons, replay_change hcs hd, ih hds.2, replay_cons]

section Apart

variable (hcs : ∀ c ∈ cs, c.Apart names)
include hcs

/-- Changes that are apart show in the bindings only. -/
theorem replay_of_apart (env : Env) :
    ∃ bindings, env.replay cs = { env with bindings := bindings } := by
  induction cs generalizing env with
  | nil => exact ⟨env.bindings, rfl⟩
  | cons c cs ih =>
      obtain ⟨hc, hcs⟩ := List.forall_mem_cons.1 hcs
      obtain ⟨bindings, hrest⟩ := ih hcs (env.change c)
      cases hc with
      | bind v hsalt hx =>
          refine ⟨bindings, ?_⟩
          rw [replay_cons, hrest]
          simp only [change, if_neg hsalt, bind]
          split
          · rfl
          · rfl

theorem isHalted_replay_of_apart (env : Env) :
    (env.replay cs).isHalted = env.isHalted := by
  obtain ⟨bindings, hreplay⟩ := replay_of_apart hcs env
  rw [hreplay]
  rfl

theorem get?_replay_of_apart {y : String} (hy : y ∈ names) :
    (env.replay cs).get? y = env.get? y := by
  have hnot : y ∉ boundVariables cs := by
    intro hbound
    obtain ⟨v, hv⟩ := mem_boundVariables hbound
    cases hcs _ hv with
    | bind _ _ hx => exact hx hy
  have hbindings : Dict.get? (env.replay cs).bindings y = Dict.get? env.bindings y :=
    get?_replay hnot
  obtain ⟨bindings, hreplay⟩ := replay_of_apart hcs env
  rw [hreplay] at hbindings ⊢
  simp only [get?, hbindings]

end Apart

end Env

section Evaluation

variable {a b : Expr} {cs : List Change} {env : Env}

/-- Nodes do not tell whether changes have been made that are apart from what they mention. -/
theorem respects_replay
    (hcs : ∀ c ∈ cs, c.Apart b.mentioned) :
    Respects (fun s t => t = s.replay cs) b.nodes := by
  refine
    { halted := ?_, salt := ?_, overridden := ?_, read := ?_, assign := ?_, halt := ?_ }
  · rintro s t rfl
    exact (Env.isHalted_replay_of_apart hcs s).symm
  · rintro s t rfl
    obtain ⟨bindings, hreplay⟩ := Env.replay_of_apart hcs s
    rw [hreplay]
  · rintro s t x e rfl -
    obtain ⟨bindings, hreplay⟩ := Env.replay_of_apart hcs s
    rw [hreplay]
    rfl
  · rintro s t x rfl hx
    exact (Env.get?_replay_of_apart hcs (Expr.mem_mentioned_of_get hx)).symm
  · rintro s t x e v rfl hx
    have hhalted := Env.isHalted_replay_of_apart hcs s
    cases hs : s.isHalted with
    | true =>
        rw [Env.assign_of_halted hs, Env.assign_of_halted (hhalted.trans hs)]
    | false =>
        rw [Env.assign_of_live hs, Env.assign_of_live (hhalted.trans hs)]
        refine Env.replay_change hcs ?_ s
        rintro y ⟨⟩
        exact Expr.mem_mentioned_of_set hx
  · rintro s t e verdict rfl -
    have hnone : ∀ x ∈ (Change.halt (.bool verdict)).bound?, x ∈ b.mentioned := by
      rintro x ⟨⟩
    exact Env.replay_change hcs hnone s

/-- Whether changes have been made that are apart from what an expression mentions does not
matter to its evaluation, and the changes stay. -/
theorem eval_replay
    (name : Option String) (hcs : ∀ c ∈ cs, c.Apart b.mentioned) (env : Env) :
    Matches (fun s t => t = s.replay cs) (eval name b env) (eval name b (env.replay cs)) :=
  eval_inStep b name (respects_replay hcs) env _ rfl

/-- Of two independent expressions, the one that is evaluated first can be evaluated second. -/
theorem eval_later
    {va vb : Json} {env₁ env₂ : Env} (hab : a.Independent b)
    (ha : eval none a env = .ok va env₁) (hb : eval none b env₁ = .ok vb env₂) :
    ∃ env₁', eval none b env = .ok vb env₁' ∧ eval none a env₁' = .ok va env₂ := by
  have hcs := hab.1.apart_changes none env
  have hds := hab.2.apart_changes none env
  have hreplay := (eval_records a none (List.Subset.refl a.nodes) env).replay
  have hreplay' := (eval_records b none (List.Subset.refl b.nodes) env).replay
  have hbound : ∀ x ∈ boundVariables (changes none b env), x ∈ b.mentioned := by
    intro x hx
    obtain ⟨d, hd⟩ := Expr.mem_assigned.1 (assigned_of_bound hx)
    exact Expr.mem_mentioned_of_set hd
  rw [ha, endState_ok] at hreplay
  have hwithout := eval_replay none hcs env
  rw [hreplay, hb] at hwithout
  obtain ⟨env₁', hb', hend⟩ := hwithout.exists_left
  rw [hb', endState_ok] at hreplay'
  have hwith := eval_replay none hds env
  rw [hreplay', ha] at hwith
  obtain ⟨env₂', ha', hend'⟩ := hwith.exists_right
  have hsame : env₂' = env₂ := by
    rw [hend', hend, ← hreplay, ← hreplay']
    exact Env.replay_comm hcs hbound env
  exact ⟨env₁', hb', hsame ▸ ha'⟩

/-- The environment after an expression, if there is one before it and the expression comes to a
value. -/
def advance (env? : Option Env) (e : Expr) : Option Env :=
  env?.bind fun env => reached? (eval none e env)

/-- Two expressions lead to the same environment in either order, or in neither. -/
def Interchangeable (a b : Expr) : Prop :=
  ∀ env?, advance (advance env? a) b = advance (advance env? b) a

instance : Std.Symm Interchangeable := ⟨fun _ _ h env? => (h env?).symm⟩

theorem interchangeable_of_independent (hab : a.Independent b) : Interchangeable a b := by
  intro env?
  have hstep : ∀ {a b : Expr} {env' : Env}, a.Independent b →
      advance (advance env? a) b = some env' → advance (advance env? b) a = some env' := by
    intro a b env' hab h
    obtain ⟨env₁, h₁, hb⟩ := Option.bind_eq_some_iff.1 h
    obtain ⟨env, henv, ha⟩ := Option.bind_eq_some_iff.1 h₁
    obtain ⟨va, ha⟩ := reached?_eq_some_iff.1 ha
    obtain ⟨vb, hb⟩ := reached?_eq_some_iff.1 hb
    obtain ⟨env₁', hb', ha'⟩ := eval_later hab ha hb
    simp [advance, henv, hb', ha', reached?]
  exact Option.ext fun env' => ⟨hstep hab, hstep hab.symm⟩

theorem foldl_advance_of_halted (es : List Expr) (h : env.isHalted = true) :
    es.foldl advance (some env) = some env := by
  induction es with
  | nil => rfl
  | cons e es ih =>
      have hfirst : advance (some env) e = some env := by
        simp [advance, eval_of_halted none e h, reached?]
      rw [List.foldl_cons, hfirst, ih]

theorem foldl_advance_none (es : List Expr) :
    es.foldl advance none = none := by
  induction es with
  | nil => rfl
  | cons e es ih => exact ih

/-- A sequence leads where its expressions lead one after another. -/
theorem reached?_evalSeq (es : List Expr) (last : Json) (env : Env) :
    reached? (evalSeq last es env) = es.foldl advance (some env) := by
  induction es generalizing last env with
  | nil => rfl
  | cons e es ih =>
      rw [List.foldl_cons]
      cases h : eval none e env with
      | error fault env' =>
          have hfirst : advance (some env) e = none := by
            simp [advance, h, reached?]
          rw [evalSeq_cons_of_error h, hfirst, foldl_advance_none]
          rfl
      | ok v env' =>
          have hfirst : advance (some env) e = some env' := by
            simp [advance, h, reached?]
          rw [evalSeq_cons_of_ok h, hfirst]
          cases hhalted : env'.isHalted with
          | true =>
              -- The sequence ends here, and what follows is passed over one by one.
              rw [foldl_advance_of_halted es hhalted]
              rfl
          | false => exact ih v env'

theorem reached?_seq (name : Option String) (es : List Expr) (env : Env) :
    reached? (eval name (.seq es) env) = es.foldl advance (some env) := by
  cases h : env.isHalted with
  | true =>
      rw [eval_of_halted name _ h, foldl_advance_of_halted es h]
      rfl
  | false =>
      have hseq : eval name (.seq es) env = evalSeq .null es env := Run.unlessHalted_of_live h _
      rw [hseq, reached?_evalSeq]

/-- Independent expressions in a sequence can be reordered. -/
theorem reached?_reordered
    {block block' : List Expr} (hindependent : block.Pairwise Expr.Independent)
    (hperm : block.Perm block') (pre post : List Expr) (name : Option String) (env : Env) :
    reached? (eval name (.seq (pre ++ block ++ post)) env) =
      reached? (eval name (.seq (pre ++ block' ++ post)) env) := by
  have hpairwise : block.Pairwise Interchangeable :=
    hindependent.imp interchangeable_of_independent
  have hall : ∀ a ∈ block, ∀ b ∈ block, Interchangeable a b :=
    fun a ha b hb => hpairwise.forall_of_forall (fun _ _ _ => rfl) ha hb
  simp only [reached?_seq, List.foldl_append]
  rw [hperm.foldl_eq' hall]

end Evaluation

/-- The bindings of a definition are those of the environment to which it leads. -/
theorem Definition.toOption_params (d : Definition) (salt : String) (inputs : Dict Json) :
    (d.params salt inputs).toOption = (reached? (d.run { salt, inputs })).map Env.bindings := by
  unfold params
  cases d.run { salt, inputs } with
  | ok v env => rfl
  | error fault env => rfl

/-- Two neighbours in a sequence that are independent can be swapped: where the sequence comes to
a value, so it does afterwards, in the same environment.  And expressions of a definition that
are independent of each other can be brought into any order without a change of what the
definition binds. -/
theorem independent_reordered :
    (∀ (pre post : List Expr) (a b : Expr), a.Independent b →
      ∀ (name : Option String) (env env' : Env) (v : Json),
        eval name (.seq (pre ++ a :: b :: post)) env = .ok v env' →
        ∃ w, eval name (.seq (pre ++ b :: a :: post)) env = .ok w env') ∧
    ∀ pre block block' post : List Expr,
      block.Pairwise Expr.Independent → block.Perm block' →
      ∀ (salt : String) (inputs : Dict Json),
        (Definition.params ⟨.seq (pre ++ block' ++ post)⟩ salt inputs).toOption =
          (Definition.params ⟨.seq (pre ++ block ++ post)⟩ salt inputs).toOption := by
  constructor
  · intro pre post a b hab name env env' v heval
    have hpair : [a, b].Pairwise Expr.Independent := List.pairwise_pair.2 hab
    have hswap : [a, b].Perm [b, a] := List.Perm.swap b a []
    have hreached := reached?_reordered hpair hswap pre post name env
    simp only [List.append_assoc, List.cons_append, List.nil_append] at hreached
    rw [heval] at hreached
    exact reached?_eq_some_iff.1 hreached.symm
  · intro pre block block' post hindependent hperm salt inputs
    rw [Definition.toOption_params, Definition.toOption_params]
    have hreached := reached?_reordered hindependent hperm pre post none { salt, inputs }
    exact congrArg _ hreached.symm

section Sample

/-- A color that is drawn for the unit. -/
def colorSetting : Expr :=
  .set "color" (.random (.uniformChoice (.value (.array [.string "red", .string "blue"])))
    (.get "userid") none none)

/-- A size that depends on the plan, and a fit that is set inside it where there is no plan. -/
def sizeSetting : Expr :=
  .set "size" (.coalesce [.get "plan", .set "fit" (.value (.string "slim"))])

/-- A cut for everybody. -/
def cutSetting : Expr := .set "cut" (.value (.string "crew"))

/-- Size and cut are swapped in a run that has set the plan, and ends by a return; and three
settings are reordered for all units. -/
theorem sample_reordered :
    let plan : Expr := .set "plan" (.get "tier")
    let only : Expr := .ret (.get "plan")
    let env : Env := { salt := "s", inputs := [("tier", .null)] }
    let env' : Env :=
      { env with
        bindings := [("cut", .string "crew"), ("fit", .string "slim"), ("plan", .null),
          ("size", .null)]
        halted := some false }
    let settings : List Expr := [colorSetting, sizeSetting, cutSetting]
    let reordered : List Expr := [cutSetting, colorSetting, sizeSetting]
    sizeSetting.Independent cutSetting ∧
      eval none (.seq ([plan] ++ sizeSetting :: cutSetting :: [only])) env = .ok .null env' ∧
      (∃ w, eval none (.seq ([plan] ++ cutSetting :: sizeSetting :: [only])) env = .ok w env') ∧
      settings.Pairwise Expr.Independent ∧ settings.Perm reordered ∧
      ∀ salt inputs,
        (Definition.params ⟨.seq ([plan] ++ reordered ++ [only])⟩ salt inputs).toOption =
          (Definition.params ⟨.seq ([plan] ++ settings ++ [only])⟩ salt inputs).toOption := by
  intro plan only env env' settings reordered
  have hindependent : sizeSetting.Independent cutSetting := by decide
  have heval : eval none (.seq ([plan] ++ sizeSetting :: cutSetting :: [only])) env =
      .ok .null env' := rfl
  have hpairwise : settings.Pairwise Expr.Independent := by decide
  have hperm : settings.Perm reordered := by
    have hswap : [sizeSetting, cutSetting].Perm [cutSetting, sizeSetting] := .swap _ _ _
    exact (hswap.cons colorSetting).trans (.swap _ _ _)
  obtain ⟨hswapped, hreordered⟩ := independent_reordered
  exact ⟨hindependent, heval,
    hswapped [plan] [only] sizeSetting cutSetting hindependent none env env' .null heval,
    hpairwise, hperm, hreordered [plan] settings reordered [only] hpairwise hperm⟩

end Sample

end Allotment
