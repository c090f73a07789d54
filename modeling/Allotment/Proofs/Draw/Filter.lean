import Allotment.Proofs.Draw.Operands
import Allotment.Proofs.Float.Place
import Mathlib.Data.List.Basic

/-!
# Filters are trials of every choice

A filter draws for each choice as a trial does whose units are followed by the choice.  The seed of
the filter is a prefix of that of the trial, so they hash the same text, and what becomes of a
choice does not depend on the other ones.

**Results.**
* `Seed.filter_eq`: a filter keeps the choices that succeed.
* `Filtered.pointwise`: filters compared with trials and with one another.
-/

namespace Allotment

open Stateful

namespace Seed

/-- A draw with probability `p` is a success. -/
def succeeds (s : Seed) (p : Float) : Bool := Draw.uniform s.hash 0.0 1.0 ≤ p

theorem bernoulli_eq (s : Seed) {p : Float} (hp : Draw.isProbability p = true) :
    Draw.bernoulli s.hash p = .ok (s.succeeds p) :=
  if_pos hp

/-- A filter keeps the choices that succeed. -/
theorem filter_eq (s : Seed) {p : Float} (hp : Draw.isProbability p = true) (choices : List Json) :
    s.filter p choices = .ok (choices.filter fun c => (s.extend c).succeeds p) := by
  induction choices with
  | nil => rfl
  | cons c rest ih =>
      have hdraw : Draw.bernoulli (s.hashWith c) p = .ok ((s.extend c).succeeds p) :=
        bernoulli_eq (s.extend c) hp
      rw [filter, hdraw, ih, List.filter_cons]

theorem ofSalt_concat (salt : String) (units : List Json) (v : Json) :
    ofSalt salt (units ++ [v]) = (ofSalt salt units).extend v :=
  List.foldl_concat extend ⟨salt⟩ v units

theorem extend_eq_of_label_eq (s : Seed) {v w : Json} (h : v.label = w.label) :
    s.extend v = s.extend w := by
  rw [extend, extend, h]

/-- What succeeds also does with a larger probability. -/
theorem succeeds_of_le {s : Seed} {p p' : Float} (hle : p ≤ p') (h : s.succeeds p = true) :
    s.succeeds p' = true :=
  decide_eq_true (FloatParts.le_trans (of_decide_eq_true h) hle)

end Seed

/-- A choice is kept by a filter with this salt, these units and this probability. -/
def keeps (salt : String) (units : List Json) (p : Float) (c : Json) : Bool :=
  (Seed.ofSalt salt (units ++ [c])).succeeds p

/-- A trial is to be made, and its operand is evaluated to the probability. -/
inductive Tried (site : Site) (e : Expr) (env : Env) (salt : String) (units : List Json)
    (p : Float) : Prop
  | intro {v : Json} {n : Operand}
      (supplied : Supplied site (.bernoulliTrial e) env salt units (.bernoulliTrial v))
      (number : v.asNumber = .ok n) (value : n.toFloat = p)

/-- Choices are to be filtered, and the operands are evaluated to the probability and to them. -/
inductive Filtered (site : Site) (e c : Expr) (env : Env) (salt : String)
    (units choices : List Json) (p : Float) : Prop
  | intro {v : Json} {n : Operand}
      (supplied : Supplied site (.bernoulliFilter e c) env salt units
        (.bernoulliFilter v (.array choices)))
      (number : v.asNumber = .ok n) (value : n.toFloat = p)

variable {site : Site} {e c : Expr} {env : Env} {salt : String} {units choices : List Json}
  {p : Float}

theorem Tried.outcome
    (h : Tried site e env salt units p) (hp : Draw.isProbability p = true) :
    site.outcome (.bernoulliTrial e) env =
      .ok (.ofNat ((Seed.ofSalt salt units).succeeds p).toNat) := by
  obtain ⟨hsupplied, hn, rfl⟩ := h
  rw [hsupplied.outcome, Seed.drawn, hn]
  show ((Draw.bernoulli (Seed.ofSalt salt units).hash _).bind fun success => _) = _
  rw [Seed.bernoulli_eq _ hp]
  rfl

namespace Filtered

theorem outcome
    (h : Filtered site e c env salt units choices p) (hp : Draw.isProbability p = true) :
    site.outcome (.bernoulliFilter e c) env =
      .ok (.array (choices.filter (keeps salt units p))) := by
  have hkeeps : (fun v => ((Seed.ofSalt salt units).extend v).succeeds p) = keeps salt units p := by
    funext v
    rw [keeps, Seed.ofSalt_concat]
  obtain ⟨hsupplied, hn, rfl⟩ := h
  rw [hsupplied.outcome, Seed.drawn, hn]
  show ((Seed.filter _ _ choices).bind fun kept => _) = _
  rw [Seed.filter_eq _ hp, hkeeps]
  rfl

/-- Every choice can be put to a trial. -/
theorem exists_tried (h : Filtered site e c env salt units choices p) (v : Json) :
    ∃ site' e' env', Tried site' e' env' salt (units ++ [v]) p := by
  obtain @⟨w, n, -, hn, hvalue⟩ := h
  exact ⟨⟨none, .literal (.array (units ++ [v])), none, some salt⟩, .literal w,
    { salt := salt, inputs := [] }, ⟨rfl, rfl, rfl, rfl, rfl⟩, hn, hvalue⟩

/-- A filter decides on each choice as a trial with the same probability and salt does, whose units
are followed by the choice.  So choices with the same label are kept or dropped together, the
choices of two lists one behind the other are kept that are kept of each, and no choice is dropped
because the probability is raised. -/
theorem pointwise
    (h : Filtered site e c env salt units choices p) (hp : Draw.isProbability p = true) :
    site.outcome (.bernoulliFilter e c) env =
      .ok (.array (choices.filter (keeps salt units p))) ∧
    (∀ v, (∃ site' e' env', Tried site' e' env' salt (units ++ [v]) p) ∧
      ∀ site' e' env', Tried site' e' env' salt (units ++ [v]) p →
        site'.outcome (.bernoulliTrial e') env' =
          .ok (.ofNat (if keeps salt units p v then 1 else 0))) ∧
    (∀ v w, v.label = w.label → keeps salt units p v = keeps salt units p w) ∧
    (∀ site' e' c' env' site'' e'' c'' env'' choices',
      Filtered site' e' c' env' salt units choices' p →
      Filtered site'' e'' c'' env'' salt units (choices ++ choices') p →
      ∃ items items', site.outcome (.bernoulliFilter e c) env = .ok (.array items) ∧
        site'.outcome (.bernoulliFilter e' c') env' = .ok (.array items') ∧
        site''.outcome (.bernoulliFilter e'' c'') env'' = .ok (.array (items ++ items'))) ∧
    ∀ site' e' c' env' p', Filtered site' e' c' env' salt units choices p' →
      Draw.isProbability p' = true → p ≤ p' →
      ∃ items items', site.outcome (.bernoulliFilter e c) env = .ok (.array items) ∧
        site'.outcome (.bernoulliFilter e' c') env' = .ok (.array items') ∧
        items.Sublist items' ∧ ∀ v, keeps salt units p v = true → keeps salt units p' v = true := by
  refine ⟨h.outcome hp, fun v => ⟨h.exists_tried v, ?_⟩, ?_, ?_, ?_⟩
  · intro site' e' env' htried
    rw [htried.outcome hp, ← keeps]
    cases keeps salt units p v with
    | true => rfl
    | false => rfl
  · intro v w hlabel
    rw [keeps, keeps, Seed.ofSalt_concat, Seed.ofSalt_concat, Seed.extend_eq_of_label_eq _ hlabel]
  · intro site' e' c' env' site'' e'' c'' env'' choices' h' h''
    refine ⟨_, _, h.outcome hp, h'.outcome hp, ?_⟩
    rw [h''.outcome hp, List.filter_append]
  · intro site' e' c' env' p' h' hp' hle
    have hkeeps : ∀ v, keeps salt units p v = true → keeps salt units p' v = true :=
      fun v => Seed.succeeds_of_le hle
    exact ⟨_, _, h.outcome hp, h'.outcome hp', List.monotone_filter_right choices hkeeps, hkeeps⟩

end Filtered

section Sweets

/-- A place whose salt is the name of a variable. -/
def sweetSite : Site := ⟨some "sweet", .literal (.string "ann"), none, none⟩

/-- Three choices, two of which are the same. -/
def sweets : List Json := [.string "mint", .string "mint", .string "lemon"]

/-- What is kept of the choices with this probability. -/
def sweetOutcome (p : Json) (choices : List Json) : Except Fault Json :=
  sweetSite.outcome (.bernoulliFilter (.literal p) (.literal (.array choices)))
    { salt := "shop", inputs := [] }

theorem filtered_sweets {v : Json} {n : Operand} (hn : v.asNumber = .ok n) (choices : List Json) :
    Filtered sweetSite (.literal v) (.literal (.array choices)) { salt := "shop", inputs := [] }
      "shop.sweet" [.string "ann"] choices n.toFloat :=
  ⟨⟨rfl, rfl, rfl, rfl, rfl⟩, hn, rfl⟩

/-- What is kept with a probability of one half is also kept with probability one, and twice as
much of twice the choices. -/
theorem kept_sweets :
    ∃ kept more, sweetOutcome (.ofFloat 0.5) sweets = .ok (.array kept) ∧
      sweetOutcome (.ofInt 1) sweets = .ok (.array more) ∧ kept.Sublist more ∧
      sweetOutcome (.ofFloat 0.5) (sweets ++ sweets) = .ok (.array (kept ++ kept)) := by
  have hhalf : (Json.ofFloat 0.5).asNumber = .ok (.float 0.5) := by rfl
  have hone : (Json.ofInt 1).asNumber = .ok (.int ⟨1, by decide, by decide⟩) := by rfl
  have hp : Draw.isProbability 0.5 = true := by decide
  obtain ⟨-, -, -, htwice, hraised⟩ := (filtered_sweets hhalf sweets).pointwise hp
  obtain ⟨kept, more, hkept, hmore, hsublist, -⟩ :=
    hraised _ _ _ _ _ (filtered_sweets hone sweets) (by decide) (by decide)
  obtain ⟨items, items', hitems, hitems', hboth⟩ :=
    htwice _ _ _ _ _ _ _ _ _ (filtered_sweets hhalf sweets) (filtered_sweets hhalf _)
  cases hkept.symm.trans hitems
  cases hkept.symm.trans hitems'
  exact ⟨kept, more, hkept, hmore, hsublist, hboth⟩

end Sweets

end Allotment
