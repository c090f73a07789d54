import Allotment.Proofs.Draw.Operands
import Allotment.Proofs.Draw.Shuffle

/-!
# Samples

A sample is the front of the shuffled choices.  The shuffle depends on the seed and the choices
and not on how many of them are to be drawn, so samples of different sizes agree as far as the
smaller one goes, and none of them has a choice more often than there is.

**Results.**
* `Seed.drawn_sample`: what a sample is, or why there is none.
* `Sampled.consistent`: samples of the same choices are fronts of each other.
-/

namespace Allotment

open Stateful

/-- How many choices are to be drawn: the integer that is given, or else all of them. -/
def sampleCount? (choices : List Json) : Option Json → Option Int
  | none => some choices.length
  | some n => n.asInteger.toOption.map (·.val)

/-- There is a sample of this size. -/
def Feasible (choices : List Json) (k : Int) : Prop :=
  choices ≠ [] ∧ 0 ≤ k ∧ k ≤ choices.length

theorem operand_of_toOption
    {α : Type} {op : String} {r : Except TypeFault α} {a : α} (h : r.toOption = some a) :
    operand op r = .ok a := by
  cases r with
  | error why => cases h
  | ok a' =>
      cases h
      rfl

section Values

variable {choices : List Json} {count : Option Json} {k : Int}

theorem feasible_length (hne : choices ≠ []) : Feasible choices choices.length :=
  ⟨hne, Int.natCast_nonneg _, Int.le_refl _⟩

theorem sampleSize_of_feasible
    (h : Feasible choices k) : sampleSize choices.length k = .ok k.toNat :=
  if_pos h.2

theorem sampleSize_of_not_feasible
    (hne : choices ≠ []) (h : ¬ Feasible choices k) :
    sampleSize choices.length k = .error (.invalidOperator (.badDraws k choices.length)) :=
  if_neg fun hk => h ⟨hne, hk⟩

/-- A sample is the front of the shuffled choices; without a number it is one of as many choices
as there are. -/
theorem Seed.drawn_sample
    (s : Seed) (hne : choices ≠ []) (hcount : sampleCount? choices count = some k) :
    s.drawn (.sample (.array choices) count) =
      (sampleSize choices.length k).map fun size => .array ((s.shuffle choices).take size) := by
  have hpool : pooled (.array choices) = .ok choices := by
    obtain ⟨v, rest, rfl⟩ := List.exists_cons_of_ne_nil hne
    rfl
  cases count with
  | none =>
      cases hcount
      have hall : (s.shuffle choices).take choices.length = s.shuffle choices :=
        List.take_of_length_le (Nat.le_of_eq (length_shuffleWith _ _))
      rw [drawn, hpool, sampleSize_of_feasible (feasible_length hne), Except.map,
        Int.toNat_natCast, hall]
      rfl
  | some n =>
      obtain ⟨i, hi, rfl⟩ := Option.map_eq_some_iff.1 hcount
      rw [drawn, hpool]
      show (operand "sample" n.asInteger).bind _ = _
      rw [operand_of_toOption hi]
      rfl

end Values

theorem choices_of_evaluated
    {c : Expr} {n : Option Expr} {env env' : Env} {v : Json} {count : Option Json}
    (h : (Lottery.sample c n).evaluated env = .ok (.sample v count) env') :
    ∃ env₁, eval none c env = .ok v env₁ := by
  cases n with
  | none =>
      obtain ⟨w, env₁, hc, heq⟩ := ok_of_bind h
      cases heq
      exact ⟨_, hc⟩
  | some n =>
      obtain ⟨w, env₁, hc, h⟩ := ok_of_bind h
      obtain ⟨w', env₂, hn, heq⟩ := ok_of_bind h
      cases heq
      exact ⟨env₁, hc⟩

/-- A sample is to be drawn, and its operands are evaluated to the choices and to how many of them
are to be drawn. -/
inductive Sampled (site : Site) (c : Expr) (n : Option Expr) (env : Env) (salt : String)
    (units choices : List Json) (k : Int) : Prop
  | intro {count : Option Json}
      (supplied : Supplied site (.sample c n) env salt units (.sample (.array choices) count))
      (count : sampleCount? choices count = some k)

namespace Sampled

variable {site site' : Site} {c c' : Expr} {n n' : Option Expr} {env env' : Env} {salt : String}
  {units choices : List Json} {k k' : Int}

/-- The front of the shuffled choices is drawn. -/
theorem outcome_of_feasible
    (h : Sampled site c n env salt units choices k) (hk : Feasible choices k) :
    site.outcome (.sample c n) env =
      .ok (.array (((Seed.ofSalt salt units).shuffle choices).take k.toNat)) := by
  obtain ⟨hsupplied, hcount⟩ := h
  rw [hsupplied.outcome, Seed.drawn_sample _ hk.1 hcount, sampleSize_of_feasible hk]
  rfl

theorem outcome_of_not_feasible
    (h : Sampled site c n env salt units choices k) (hk : ¬ Feasible choices k) :
    ∃ why, site.outcome (.sample c n) env = .error (.invalidOperator why) := by
  obtain ⟨hsupplied, hcount⟩ := h
  rw [hsupplied.outcome]
  by_cases hne : choices = []
  · subst hne
    exact ⟨.noChoices "sample", rfl⟩
  · refine ⟨.badDraws k choices.length, ?_⟩
    rw [Seed.drawn_sample _ hne hcount, sampleSize_of_not_feasible hne hk]
    rfl

/-- Where some of the choices are drawn, all of them can be drawn. -/
theorem whole (h : Sampled site c n env salt units choices k) :
    Sampled site c none env salt units choices choices.length := by
  obtain ⟨⟨live, hunit, hunits, hsalt, hoperands⟩, -⟩ := h
  obtain ⟨env₁, hc⟩ := choices_of_evaluated hoperands
  have hwhole : (Lottery.sample c none).evaluated _ = .ok (.sample (.array choices) none) env₁ :=
    bind_of_ok hc _
  exact ⟨⟨live, hunit, hunits, hsalt, hwhole⟩, rfl⟩

theorem succeeds_iff (h : Sampled site c n env salt units choices k) :
    (∃ v, site.outcome (.sample c n) env = .ok v) ↔ Feasible choices k := by
  constructor
  · rintro ⟨v, hv⟩
    by_contra hk
    obtain ⟨why, herror⟩ := h.outcome_of_not_feasible hk
    cases hv.symm.trans herror
  · exact fun hk => ⟨_, h.outcome_of_feasible hk⟩

/-- All that is drawn is the front of the shuffled choices. -/
theorem eq_of_outcome
    (h : Sampled site c n env salt units choices k) {v : Json}
    (hv : site.outcome (.sample c n) env = .ok v) :
    Feasible choices k ∧ v = .array (((Seed.ofSalt salt units).shuffle choices).take k.toNat) := by
  have hk : Feasible choices k := h.succeeds_iff.1 ⟨v, hv⟩
  rw [h.outcome_of_feasible hk] at hv
  exact ⟨hk, (Except.ok.inj hv).symm⟩

/-- A smaller sample is the front of a larger one. -/
theorem isPrefix
    (h : Sampled site c n env salt units choices k)
    (h' : Sampled site' c' n' env' salt units choices k') (hle : k ≤ k') {items items' : List Json}
    (hitems : site.outcome (.sample c n) env = .ok (.array items))
    (hitems' : site'.outcome (.sample c' n') env' = .ok (.array items')) :
    items <+: items' := by
  obtain ⟨-, heq⟩ := h.eq_of_outcome hitems
  obtain ⟨-, heq'⟩ := h'.eq_of_outcome hitems'
  cases heq
  cases heq'
  exact List.take_prefix_take_left (Int.toNat_le_toNat hle)

/-- Choices are drawn without replacement.  This succeeds exactly if there are choices, and at least
as many as are to be drawn; then so many come out, none of them more often than it is there.  They
are the front of the sample of all choices and of every larger sample with the same salt, units and
choices. -/
theorem consistent (h : Sampled site c n env salt units choices k) :
    ((∃ v, site.outcome (.sample c n) env = .ok v) ↔ Feasible choices k) ∧
    (¬ Feasible choices k →
      ∃ why, site.outcome (.sample c n) env = .error (.invalidOperator why)) ∧
    ∀ v, site.outcome (.sample c n) env = .ok v →
      ∃ items whole, v = .array items ∧ (items.length : Int) = k ∧ items.Subperm choices ∧
        site.outcome (.sample c none) env = .ok (.array whole) ∧ items <+: whole ∧
        ∀ site' c' n' env' k', Sampled site' c' n' env' salt units choices k' → k ≤ k' →
          ∀ items', site'.outcome (.sample c' n') env' = .ok (.array items') →
            items <+: items' := by
  refine ⟨h.succeeds_iff, h.outcome_of_not_feasible, fun v hv => ?_⟩
  obtain ⟨hk, rfl⟩ := h.eq_of_outcome hv
  obtain ⟨hne, hnonneg, hle⟩ := hk
  have hwhole := h.whole.outcome_of_feasible (feasible_length hne)
  have hperm : ((Seed.ofSalt salt units).shuffle choices).Perm choices := shuffleWith_perm _ _
  refine ⟨_, _, rfl, ?_, ?_, hwhole, h.isPrefix h.whole hle hv hwhole, ?_⟩
  · rw [List.length_take, hperm.length_eq]
    omega
  · exact (List.take_sublist _ _).subperm.trans hperm.subperm
  · exact fun site' c' n' env' k' h' hle items' hitems' => h.isPrefix h' hle hv hitems'

end Sampled

section Colors

/-- A place with a salt of its own. -/
def colorSite : Site := ⟨none, .literal (.string "ann"), none, some "colors"⟩

/-- Three choices, two of which are the same. -/
def colors : List Json := [.string "red", .string "red", .string "blue"]

/-- The answer if so many colors are to be drawn. -/
def colorAnswer (count : Option Json) : Except Fault Json :=
  colorSite.outcome (.sample (.literal (.array colors)) (count.map .literal))
    { salt := "shop", inputs := [] }

theorem sampled_colors {count : Option Json} {k : Int} (hk : sampleCount? colors count = some k) :
    Sampled colorSite (.literal (.array colors)) (count.map .literal)
      { salt := "shop", inputs := [] } "colors" [.string "ann"] colors k := by
  cases count with
  | none => exact ⟨⟨rfl, rfl, rfl, rfl, rfl⟩, hk⟩
  | some n => exact ⟨⟨rfl, rfl, rfl, rfl, rfl⟩, hk⟩

/-- Two of the colors can be drawn, and minus one cannot. -/
theorem drawn_colors :
    (∃ items whole, colorAnswer (some (.ofFloat 2.0)) = .ok (.array items) ∧ items.length = 2 ∧
      items.Subperm colors ∧ colorAnswer none = .ok (.array whole) ∧ items <+: whole) ∧
    ∃ why, colorAnswer (some (.ofInt (-1))) = .error (.invalidOperator why) := by
  have htwo : sampleCount? colors (some (.ofFloat 2.0)) = some 2 := by decide
  have hminus : sampleCount? colors (some (.ofInt (-1))) = some (-1) := by decide
  obtain ⟨hsucceeds, -, hdrawn⟩ := (sampled_colors htwo).consistent
  obtain ⟨v, hv⟩ := hsucceeds.2 ⟨by simp [colors], by decide, by decide⟩
  obtain ⟨items, whole, rfl, hlength, hsubperm, hwhole, hfront, -⟩ := hdrawn v hv
  refine ⟨⟨items, whole, hv, by omega, hsubperm, hwhole, hfront⟩, ?_⟩
  exact (sampled_colors hminus).consistent.2.1 fun h => absurd h.2.1 (by decide)

end Colors

end Allotment
