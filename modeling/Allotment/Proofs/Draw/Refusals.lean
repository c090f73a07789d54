import Allotment.Proofs.Draw.Filter
import Allotment.Proofs.Draw.Sample
import Allotment.Proofs.Draw.Weighted
import Allotment.Proofs.Quantity
import Mathlib.Algebra.Order.BigOperators.Group.List
import Mathlib.Data.List.Forall2

/-!
# What random operators refuse

A random operator whose operands have the right kinds is refused as an invalid one if it has no
salt or if its arguments are out of their domain, and otherwise it has a value.  Some arguments
out of their domain are overlooked: the bounds of a random float are never compared, a probability
is checked with each choice and so never without one, and bounds of a random integer that go to the
same end of the signed range are equal there.

**Results.**
* `Seed.drawn_refuses`: what is refused of a draw with a seed.
* `Evaluated.refused_iff`: what is refused of a random operator.
-/

namespace Allotment

open FloatParts Stateful

/-- The computation is refused with these arguments, and without them it has a value. -/
def Refuses {α : Type} (r : Except Fault α) (bad : Prop) : Prop :=
  (bad → ∃ why, r = .error (.invalidOperator why)) ∧ (¬ bad → ∃ a, r = .ok a)

namespace Refuses

variable {α β : Type} {r : Except Fault α} {bad bad' : Prop}

theorem of_ok (a : α) : Refuses (.ok a) False := ⟨False.elim, fun _ => ⟨a, rfl⟩⟩

theorem of_error (why : OperatorFault) :
    Refuses (.error (.invalidOperator why) : Except Fault α) True :=
  ⟨fun _ => ⟨why, rfl⟩, fun h => absurd trivial h⟩

theorem congr (h : Refuses r bad) (hiff : bad ↔ bad') : Refuses r bad' :=
  propext hiff ▸ h

theorem map (h : Refuses r bad) (f : α → β) : Refuses (r.map f) bad := by
  refine ⟨fun hbad => ?_, fun hgood => ?_⟩
  · obtain ⟨why, rfl⟩ := h.1 hbad
    exact ⟨why, rfl⟩
  · obtain ⟨a, rfl⟩ := h.2 hgood
    exact ⟨f a, rfl⟩

theorem ite {p : Prop} [Decidable p] {why : OperatorFault} (h : Refuses r bad) :
    Refuses (if p then .error (.invalidOperator why) else r) (p ∨ bad) := by
  by_cases hp : p
  · rw [if_pos hp]
    exact (of_error why).congr (iff_of_true trivial (.inl hp))
  · rw [if_neg hp]
    exact h.congr (or_iff_right hp).symm

/-- What is refused is refused for these arguments and no others. -/
theorem iff (h : Refuses r bad) : (∃ why, r = .error (.invalidOperator why)) ↔ bad := by
  refine ⟨fun ⟨why, hwhy⟩ => ?_, h.1⟩
  by_contra hgood
  obtain ⟨a, ha⟩ := h.2 hgood
  cases hwhy.symm.trans ha

end Refuses

/-- The arguments of a random operator: how many choices there are, and what quantities the other
operands stand for. -/
inductive Terms where
  | uniformChoice (choices : Nat)
  | weightedChoice (choices : Nat) (weights : List ℚ)
  | bernoulliTrial (p : ℚ)
  | bernoulliFilter (p : ℚ) (choices : Nat)
  | randomFloat (min max : ℚ)
  | randomInteger (min max : Int)
  | sample (choices : Nat) (draws : Option Int)

/-- The operands have the kinds that the operator demands, and these are its arguments. -/
inductive Reads : Lottery Json → Terms → Prop
  | uniformChoice (choices : List Json) :
      Reads (.uniformChoice (.array choices)) (.uniformChoice choices.length)
  | weightedChoice (choices : List Json) {weights : List Json} {ws : List ℚ}
      (h : List.Forall₂ (fun v w => v.quantity? = some w) weights ws) :
      Reads (.weightedChoice (.array choices) (.array weights))
        (.weightedChoice choices.length ws)
  | bernoulliTrial {v : Json} {p : ℚ} (h : v.quantity? = some p) :
      Reads (.bernoulliTrial v) (.bernoulliTrial p)
  | bernoulliFilter {v : Json} {p : ℚ} (h : v.quantity? = some p) (choices : List Json) :
      Reads (.bernoulliFilter v (.array choices)) (.bernoulliFilter p choices.length)
  | randomFloat {v v' : Json} {min max : ℚ} (h : v.quantity? = some min)
      (h' : v'.quantity? = some max) : Reads (.randomFloat v v') (.randomFloat min max)
  | randomInteger {v v' : Json} {min max : Int} (h : v.quantity? = some (min : ℚ))
      (h' : v'.quantity? = some (max : ℚ)) : Reads (.randomInteger v v') (.randomInteger min max)
  | shuffle (choices : List Json) :
      Reads (.sample (.array choices) none) (.sample choices.length none)
  | sample (choices : List Json) {v : Json} {k : Int} (h : v.quantity? = some (k : ℚ)) :
      Reads (.sample (.array choices) (some v)) (.sample choices.length (some k))

namespace Terms

/-- The arguments are out of their domain. -/
def Bad : Terms → Prop
  | .uniformChoice n => n = 0
  | .weightedChoice n ws => n = 0 ∨ ws.length ≠ n ∨ (∃ w ∈ ws, w < 0) ∨ ws.sum ≤ 0
  | .bernoulliTrial p => ¬ (0 ≤ p ∧ p ≤ 1)
  | .bernoulliFilter p _ => ¬ (0 ≤ p ∧ p ≤ 1)
  | .randomFloat min max => max < min
  | .randomInteger min max => max < min
  | .sample n draws => n = 0 ∨ ∃ k ∈ draws, k < 0 ∨ (n : Int) < k

/-- The arguments are not checked, or a check does not see what is bad about them. -/
def Overlooked : Terms → Prop
  | .randomFloat _ _ => True
  | .bernoulliFilter _ n => n = 0
  | .randomInteger min max => 0x7FFFFFFFFFFFFFFF ≤ max ∨ min ≤ -0x8000000000000000
  | .sample n draws => 0x7FFFFFFFFFFFFFFF ≤ n ∧ ∃ k ∈ draws, 0 ≤ k
  | _ => False

end Terms

namespace Near

variable {x : Float} {q : ℚ}

theorem nonneg_iff (h : Near x q) : Draw.weightOk x = true ↔ 0 ≤ q := by
  obtain ⟨a, ha, hlt, hcompare⟩ := h
  have hzero := (hcompare 0 (by decide)).1
  rw [Int.cast_zero] at hzero
  rw [Draw.weightOk_iff, ← hzero]
  constructor
  · rintro ⟨a', ha', hnonneg, -⟩
    cases ha.symm.trans ha'
    exact hnonneg
  · exact fun hnonneg => ⟨a, ha, hnonneg, (le_abs_self a).trans_lt hlt⟩

theorem pos_iff (h : Near x q) : 0.0 < x ↔ 0 < q := by
  obtain ⟨a, ha, -, hcompare⟩ := h
  have hzero := (hcompare 0 (by decide)).2
  rw [Int.cast_zero] at hzero
  rw [lt_iff at?_zero ha, ← not_le, hzero, not_le]

theorem isProbability_iff (h : Near x q) : Draw.isProbability x = true ↔ 0 ≤ q ∧ q ≤ 1 := by
  obtain ⟨a, ha, -, hcompare⟩ := h
  have hzero := (hcompare 0 (by decide)).1
  have hone := (hcompare 1 (by decide)).2
  rw [Int.cast_zero] at hzero
  rw [Int.cast_one] at hone
  rw [Draw.isProbability, Bool.and_eq_true, decide_eq_true_iff, decide_eq_true_iff,
    le_iff at?_zero ha, le_iff ha at?_one, hzero, hone]

end Near

section Draws

variable {h : Nat}

theorem index_refuses (h n : Nat) : Refuses (Draw.index h n) (n = 0) :=
  ((Refuses.of_ok (h % n)).ite).congr (iff_of_eq (or_false _))

theorem integer_refuses (h : Nat) (min max : Int) : Refuses (Draw.integer h min max) (max < min) :=
  ((Refuses.of_ok _).ite).congr (iff_of_eq (or_false _))

theorem bernoulli_refuses {p : Float} {q : ℚ} (hp : Near p q) :
    Refuses (Draw.bernoulli h p) (¬ (0 ≤ q ∧ q ≤ 1)) := by
  rw [← hp.isProbability_iff, Draw.bernoulli]
  by_cases hok : Draw.isProbability p = true
  · rw [if_pos hok]
    exact (Refuses.of_ok _).congr (iff_of_false id (not_not.2 hok))
  · rw [if_neg hok]
    exact (Refuses.of_error _).congr (iff_of_true trivial hok)

/-- A filter checks its probability with each choice. -/
theorem filter_refuses {p : Float} {q : ℚ} (hp : Near p q) (s : Seed) (choices : List Json) :
    Refuses (s.filter p choices) (¬ (0 ≤ q ∧ q ≤ 1) ∧ choices.length ≠ 0) := by
  by_cases hq : 0 ≤ q ∧ q ≤ 1
  · rw [Seed.filter_eq s (hp.isProbability_iff.2 hq)]
    exact (Refuses.of_ok _).congr (iff_of_false id fun h => h.1 hq)
  · cases choices with
    | nil => exact (Refuses.of_ok _).congr (iff_of_false id fun h => h.2 rfl)
    | cons c rest =>
        obtain ⟨why, hwhy⟩ := (bernoulli_refuses (h := s.hashWith c) hp).1 hq
        rw [Seed.filter, hwhy]
        exact (Refuses.of_error why).congr (iff_of_true trivial ⟨hq, by simp⟩)

theorem sampleSize_refuses (n : Nat) (k : Int) :
    Refuses (sampleSize n k) (k < 0 ∨ (n : Int) < k) := by
  have hiff : k < 0 ∨ (n : Int) < k ↔ ¬ (0 ≤ k ∧ k ≤ n) := by omega
  rw [hiff, sampleSize]
  by_cases hok : 0 ≤ k ∧ k ≤ n
  · rw [if_pos hok]
    exact (Refuses.of_ok _).congr (iff_of_false id (not_not.2 hok))
  · rw [if_neg hok]
    exact (Refuses.of_error _).congr (iff_of_true trivial hok)

/-- The sum of weights that are not negative is positive exactly if one of them is. -/
theorem sum_pos_iff {ws : List ℚ} (hnonneg : ∀ w ∈ ws, 0 ≤ w) :
    0 < ws.sum ↔ ∃ w ∈ ws, 0 < w := by
  induction ws with
  | nil => simp
  | cons w rest ih =>
      have hw := hnonneg w List.mem_cons_self
      have hrest : ∀ w ∈ rest, 0 ≤ w := fun w hw => hnonneg w (List.mem_cons_of_mem _ hw)
      have hsum := List.sum_nonneg hrest
      rw [List.sum_cons, List.exists_mem_cons_iff, ← ih hrest]
      constructor
      · intro hpos
        by_contra hnone
        rw [not_or, not_lt, not_lt] at hnone
        linarith
      · rintro (hpos | hpos)
        · linarith
        · linarith

theorem exists_iff_of_forall₂
    {α β : Type} {r : α → β → Prop} {p : α → Prop} {p' : β → Prop} {l : List α} {l' : List β}
    (h : List.Forall₂ r l l') (hiff : ∀ a b, r a b → (p a ↔ p' b)) :
    (∃ a ∈ l, p a) ↔ ∃ b ∈ l', p' b := by
  induction h with
  | nil => simp
  | cons hab _ ih => rw [List.exists_mem_cons_iff, List.exists_mem_cons_iff, hiff _ _ hab, ih]

/-- A weighted draw is refused without weights, for a negative weight and for a sum that is not
positive. -/
theorem weighted_refuses {fs : List Float} {ws : List ℚ} (hnear : List.Forall₂ Near fs ws) :
    Refuses (Draw.weighted h fs) (ws = [] ∨ (∃ w ∈ ws, w < 0) ∨ ws.sum ≤ 0) := by
  have hneg : (∃ f ∈ fs, Draw.weightOk f ≠ true) ↔ ∃ w ∈ ws, w < 0 :=
    exists_iff_of_forall₂ hnear fun f w hfw => (not_congr hfw.nonneg_iff).trans not_le
  have hpos : (∃ f ∈ fs, 0.0 < f) ↔ ∃ w ∈ ws, 0 < w :=
    exists_iff_of_forall₂ hnear fun f w hfw => hfw.pos_iff
  by_cases hempty : fs = []
  · subst hempty
    cases hnear
    exact (Refuses.of_error _).congr (iff_of_true trivial (.inl rfl))
  · have hempty' : ws ≠ [] := by
      rintro rfl
      cases hnear
      exact hempty rfl
    by_cases hbad : ∃ w ∈ ws, w < 0
    · obtain ⟨w, hw⟩ := Draw.weighted_of_bad (h := h) (hneg.2 hbad)
      rw [hw]
      exact (Refuses.of_error _).congr (iff_of_true trivial (.inr (.inl hbad)))
    · have hok : ∀ f ∈ fs, Draw.weightOk f = true := by
        intro f hf
        by_contra hf'
        exact hbad (hneg.1 ⟨f, hf, hf'⟩)
      have hnonneg : ∀ w ∈ ws, 0 ≤ w := fun w hw => not_lt.1 fun hlt => hbad ⟨w, hw, hlt⟩
      have hsum : Draw.total fs ≤ 0.0 ↔ ws.sum ≤ 0 := by
        rw [Draw.total_le_zero_iff hok, Draw.total_pos_iff hok, hpos, ← sum_pos_iff hnonneg, not_lt]
      rw [Draw.weighted_of_ok hempty hok]
      refine (Refuses.of_ok _).ite.congr ?_
      rw [or_false, hsum, or_iff_right hempty', or_iff_right hbad]

theorem weightedPosition_refuses
    (choices : List Json) {ns : List Operand} {ws : List ℚ}
    (hnear : List.Forall₂ Near (ns.map Operand.toFloat) ws) :
    Refuses (weightedPosition h choices ns) (Terms.weightedChoice choices.length ws).Bad := by
  have hlength : ns.length = ws.length := by
    rw [← List.length_map Operand.toFloat, hnear.length_eq]
  rw [weightedPosition, Terms.Bad, hlength]
  by_cases heq : ws.length = choices.length
  · rw [if_pos heq, ← heq, List.length_eq_zero_iff]
    exact (weighted_refuses hnear).congr (or_congr_right (or_iff_right (not_not.2 rfl)).symm)
  · rw [if_neg heq]
    exact (Refuses.of_error _).congr (iff_of_true trivial (.inr (.inl heq)))

end Draws

theorem ofItems_of_quantities {weights : List Json} {ws : List ℚ}
    (h : List.Forall₂ (fun v w => v.quantity? = some w) weights ws) :
    ∃ ns, Operand.ofItems weights = .ok ns ∧ List.Forall₂ Near (ns.map Operand.toFloat) ws := by
  induction h with
  | nil => exact ⟨[], rfl, .nil⟩
  | cons hv _ ih =>
      obtain ⟨n, hn, hnear⟩ := Json.near_of_quantity? hv
      obtain ⟨ns, hns, hnears⟩ := ih
      have hn' : Operand.ofJson _ = .ok n := hn
      refine ⟨n :: ns, ?_, .cons hnear hnears⟩
      rw [Operand.ofItems, hn', hns]

/-- A sample is refused without choices and for a number that is negative or above theirs. -/
theorem sample_refuses
    (s : Seed) {choices : List Json} {count : Option Json} {k : Int}
    (hcount : sampleCount? choices count = some k) :
    Refuses (s.drawn (.sample (.array choices) count))
      (choices.length = 0 ∨ k < 0 ∨ (choices.length : Int) < k) := by
  by_cases hne : choices = []
  · subst hne
    cases count with
    | none => exact (Refuses.of_error _).congr (iff_of_true trivial (.inl rfl))
    | some n => exact (Refuses.of_error _).congr (iff_of_true trivial (.inl rfl))
  · rw [Seed.drawn_sample s hne hcount]
    exact ((sampleSize_refuses _ k).map _).congr
      (or_iff_right (mt List.length_eq_zero_iff.1 hne)).symm

/-- A draw with a seed is refused for arguments that are out of their domain and not overlooked. -/
theorem Seed.drawn_refuses (s : Seed) {operands : Lottery Json} {t : Terms}
    (ht : Reads operands t) : Refuses (s.drawn operands) (t.Bad ∧ ¬ t.Overlooked) := by
  cases ht with
  | uniformChoice choices =>
      exact ((index_refuses s.hash choices.length).map _).congr (and_iff_left not_false).symm
  | weightedChoice choices h =>
      obtain ⟨ns, hns, hnear⟩ := ofItems_of_quantities h
      have hnumbers : (Json.array _).asNumbers = .ok ns := hns
      rw [drawn, hnumbers]
      exact ((weightedPosition_refuses choices hnear).map _).congr (and_iff_left not_false).symm
  | bernoulliTrial h =>
      obtain ⟨n, hn, hnear⟩ := Json.near_of_quantity? h
      rw [drawn, hn]
      exact ((bernoulli_refuses hnear).map _).congr (and_iff_left not_false).symm
  | bernoulliFilter h choices =>
      obtain ⟨n, hn, hnear⟩ := Json.near_of_quantity? h
      rw [drawn, hn]
      exact (filter_refuses hnear s choices).map _
  | randomFloat h h' =>
      obtain ⟨n, hn, -⟩ := Json.near_of_quantity? h
      obtain ⟨n', hn', -⟩ := Json.near_of_quantity? h'
      rw [drawn, hn, hn']
      exact (Refuses.of_ok _).congr (iff_of_false id fun h => h.2 trivial)
  | @randomInteger _ _ min max h h' =>
      have hclamp : (Signed.clamp max).val < (Signed.clamp min).val ↔
          (Terms.randomInteger min max).Bad ∧ ¬ (Terms.randomInteger min max).Overlooked := by
        simp only [Signed.clamp, Terms.Bad, Terms.Overlooked]
        omega
      rw [drawn, Json.asInteger_eq_ok_iff.2 ⟨_, h, rfl⟩, Json.asInteger_eq_ok_iff.2 ⟨_, h', rfl⟩]
      exact ((integer_refuses s.hash _ _).map _).congr hclamp
  | shuffle choices =>
      refine (@sample_refuses s choices none choices.length rfl).congr ?_
      simp [Terms.Bad, Terms.Overlooked]
  | @sample choices v k h =>
      have hcount : sampleCount? choices (some v) = some (Signed.clamp k).val := by
        rw [sampleCount?, Json.asInteger_eq_ok_iff.2 ⟨_, h, rfl⟩]
        rfl
      refine (sample_refuses s hcount).congr ?_
      simp only [Signed.clamp, Terms.Bad, Terms.Overlooked, Option.mem_some_iff, exists_eq_left']
      omega

/-- There is no salt for a draw at this place. -/
def Site.Unsalted (site : Site) : Prop :=
  site.fullSalt = none ∧ site.salt = none ∧ site.name = none

theorem saltText?_eq_none_iff (site : Site) (experiment : String) :
    saltText? experiment (site.salt <|> site.name) site.fullSalt = none ↔ site.Unsalted := by
  obtain ⟨name, unit, salt, fullSalt⟩ := site
  cases fullSalt <;> cases salt <;> cases name <;> simp [saltText?, Site.Unsalted]

/-- Before a return, the unit of the random operator is evaluated, and then its operands, to
these. -/
inductive Evaluated (site : Site) (draw : Lottery Expr) (env : Env) (operands : Lottery Json) :
    Prop
  | intro {v : Json} {env₁ env₂ : Env} (live : env.isHalted = false)
      (unit : eval none site.unit env = .ok v env₁)
      (operands : draw.evaluated env₁ = .ok operands env₂)

namespace Evaluated

variable {site : Site} {draw : Lottery Expr} {env : Env} {operands : Lottery Json} {t : Terms}

theorem refuses (h : Evaluated site draw env operands) (ht : Reads operands t) :
    Refuses (site.outcome draw env) (site.Unsalted ∨ (t.Bad ∧ ¬ t.Overlooked)) := by
  obtain @⟨v, env₁, env₂, live, hunit, hoperands⟩ := h
  cases hsalt : saltText? env₁.salt (site.salt <|> site.name) site.fullSalt with
  | none =>
      have hunsalted := (saltText?_eq_none_iff site _).1 hsalt
      have houtcome : site.outcome draw env = .error (.invalidOperator (.noSalt draw.name)) := by
        rw [Site.outcome, eval, Run.unlessHalted_of_live live, bind_of_ok hunit,
          bind_of_error (seedFor_of_no_saltText hsalt _ _)]
        rfl
      rw [houtcome]
      exact (Refuses.of_error _).congr (iff_of_true trivial (.inl hunsalted))
  | some salt =>
      have hsalted : ¬ site.Unsalted := by
        rw [← saltText?_eq_none_iff site env₁.salt, hsalt]
        exact Option.some_ne_none salt
      have hsupplied : Supplied site draw env salt (unitsOf v) operands :=
        ⟨live, hunit, rfl, hsalt, hoperands⟩
      rw [hsupplied.outcome]
      exact ((Seed.ofSalt salt (unitsOf v)).drawn_refuses ht).congr (or_iff_right hsalted).symm

/-- A random operator is refused as an invalid one exactly if it has no salt or if its arguments
are out of their domain and not overlooked; otherwise it has a value. -/
theorem refused_iff (h : Evaluated site draw env operands) (ht : Reads operands t) :
    ((∃ why, site.outcome draw env = .error (.invalidOperator why)) ↔
      site.Unsalted ∨ (t.Bad ∧ ¬ t.Overlooked)) ∧
    (¬ (site.Unsalted ∨ (t.Bad ∧ ¬ t.Overlooked)) → ∃ v, site.outcome draw env = .ok v) :=
  ⟨(h.refuses ht).iff, (h.refuses ht).2⟩

end Evaluated

/-- A trial with probability two is refused. -/
theorem trial_refused :
    ∃ why, sweetSite.outcome (.bernoulliTrial (.literal (.ofInt 2)))
      { salt := "shop", inputs := [] } = .error (.invalidOperator why) := by
  have hevaluated : Evaluated sweetSite (.bernoulliTrial (.literal (.ofInt 2)))
      { salt := "shop", inputs := [] } (.bernoulliTrial (.ofInt 2)) := ⟨rfl, rfl, rfl⟩
  have hreads : Reads (.bernoulliTrial (.ofInt 2)) (.bernoulliTrial (2 : Int)) :=
    .bernoulliTrial (Json.quantity?_ofInt (by decide) (by decide))
  refine (hevaluated.refused_iff hreads).1.2 (.inr ⟨fun h => ?_, id⟩)
  exact absurd h.2 (by norm_num)

/-- A random float between bounds in the wrong order has a value. -/
theorem reversed_float_drawn :
    ¬ ∀ (site : Site) (draw : Lottery Expr) (env : Env) (operands : Lottery Json) (t : Terms),
      Evaluated site draw env operands → Reads operands t →
      ((∃ why, site.outcome draw env = .error (.invalidOperator why)) ↔
        site.Unsalted ∨ t.Bad) := by
  intro hall
  have hevaluated : Evaluated sweetSite (.randomFloat (.literal (.ofInt 2)) (.literal (.ofInt 1)))
      { salt := "shop", inputs := [] } (.randomFloat (.ofInt 2) (.ofInt 1)) := ⟨rfl, rfl, rfl⟩
  have hreads : Reads (.randomFloat (.ofInt 2) (.ofInt 1)) (.randomFloat (2 : Int) (1 : Int)) :=
    .randomFloat (Json.quantity?_ofInt (by decide) (by decide))
      (Json.quantity?_ofInt (by decide) (by decide))
  have hbad : (Terms.randomFloat (2 : Int) (1 : Int)).Bad := by
    rw [Terms.Bad]
    norm_num
  obtain ⟨why, hwhy⟩ := (hall _ _ _ _ _ hevaluated hreads).2 (.inr hbad)
  have hrefused := (hevaluated.refuses hreads).iff.1 ⟨why, hwhy⟩
  obtain hunsalted | ⟨-, hseen⟩ := hrefused
  · cases hunsalted.2.2
  · exact hseen trivial

end Allotment
