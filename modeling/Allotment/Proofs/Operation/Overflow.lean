import Allotment.Proofs.Draw.Weighted
import Allotment.Proofs.Float.Overflow
import Allotment.Proofs.Operation.Aggregate
import Allotment.Proofs.Operation.Round

/-!
# Overflow of operations

The operations on numbers compute in steps, and the steps in floating point may overflow.  A number
that is not finite does not become finite again, so a result is finite, and can be written as a
number, exactly if no step overflows.  For each operation it is listed what its steps compute
exactly.

**Results.**
* `Operand.isFinite_combine_iff`, `Operand.isFinite_foldl_iff`: one step of a sum or a product, and
  the whole computation.
* `isFinite_floatModulo_iff`: the remainder in floating point.
* `Draw.isFinite_uniform_iff`: a number drawn between two others.
-/

namespace Allotment

open FloatParts

namespace Json

/-- The value is a number. -/
def IsNumber (v : Json) : Prop := ∃ n, v = .number n

theorem isNumber_ofSigned (n : Signed) : (Json.ofSigned n).IsNumber := ⟨_, rfl⟩

theorem isNumber_ofInt
    {n : Int} (hlow : -0x8000000000000000 ≤ n) (hhigh : n < 0x10000000000000000) :
    (Json.ofInt n).IsNumber := ⟨_, ofInt_eq hlow hhigh⟩

/-- The value is a number if the condition holds, and null otherwise. -/
def NumberIf (P : Prop) (v : Json) : Prop := (P ∧ v.IsNumber) ∨ (¬ P ∧ v = .null)

namespace NumberIf

variable {P Q : Prop} {v : Json}

theorem of_isNumber (hP : P) (h : v.IsNumber) : NumberIf P v := .inl ⟨hP, h⟩

theorem congr (h : NumberIf P v) (hPQ : P ↔ Q) : NumberIf Q v := by rwa [NumberIf, ← hPQ]

theorem isNumber_iff (h : NumberIf P v) : v.IsNumber ↔ P := by
  rcases h with ⟨hP, hv⟩ | ⟨hP, rfl⟩
  · exact iff_of_true hv hP
  · exact iff_of_false (fun ⟨_, h⟩ => nomatch h) hP

theorem eq_null (h : NumberIf P v) (hv : ¬ v.IsNumber) : v = .null :=
  h.elim (fun h => absurd h.2 hv) (·.2)

end NumberIf

/-- What is not finite is written as null. -/
theorem numberIf_ofFloat (x : Float) : NumberIf (Binary64.IsFinite x) (ofFloat x) := by
  rw [ofFloat, Number.ofFloat?, Real.ofFloat?]
  by_cases hx : Binary64.IsFinite x
  · rw [dif_pos hx]
    exact .inl ⟨hx, _, rfl⟩
  · rw [dif_neg hx]
    exact .inr ⟨hx, rfl⟩

end Json

namespace FloatParts

theorem fits_of_abs_le {q : ℚ} (h : |q| ≤ 2 ^ 126) : Fits q := by
  have hsmall : (2 : ℚ) ^ 126 < 2 ^ 970 := pow_lt_pow_right₀ one_lt_two (by decide)
  have hlarge : 2 * (2 : ℚ) ^ 970 ≤ 2 ^ 1024 := by
    rw [← pow_succ']
    exact pow_le_pow_right₀ one_le_two (by decide)
  rw [Fits]
  generalize (2 : ℚ) ^ 970 = step at hsmall hlarge ⊢
  generalize (2 : ℚ) ^ 1024 = brink at hlarge ⊢
  linarith

theorem at?_neg_zero : at? (-0.0) = some 0 := by
  rw [at?_neg, at?_zero, Option.map_some, neg_zero]

theorem isFinite_of_at? {x : Float} {a : ℚ} (ha : at? x = some a) (hlt : |a| < horizon) :
    Binary64.IsFinite x ∧ valueOf x = a := by
  have hx := isFinite_iff_at?.2 ⟨a, ha, hlt⟩
  exact ⟨hx, Option.some.inj ((at?_eq_valueOf hx).symm.trans ha)⟩

/-- A number of the grid rounded down is on the grid. -/
theorem onGrid_floor {a : ℚ} (ha : OnGrid a) : OnGrid ⌊a⌋ := by
  by_cases hhigh : 2 ^ 53 ≤ a
  · obtain ⟨k, rfl⟩ := exists_int_of_onGrid ha hhigh
    rwa [Int.floor_intCast]
  by_cases hlow : 2 ^ 53 ≤ -a
  · obtain ⟨k, hk⟩ := exists_int_of_onGrid ha.neg hlow
    have hint : a = (-k : Int) := by rw [Int.cast_neg, ← hk, neg_neg]
    rwa [hint, Int.floor_intCast, ← hint]
  have hlt : ⌊a⌋ < 2 ^ 53 := Int.floor_lt.2 (by exact_mod_cast not_le.1 hhigh)
  have hle : -2 ^ 53 ≤ ⌊a⌋ := Int.le_floor.2 (by push_cast; linarith)
  rcases hle.eq_or_lt with heq | hgt
  · rw [← heq, Int.cast_neg, Int.cast_pow, Int.cast_ofNat]
    exact (onGrid_two_zpow (e := 53) (by decide) (by decide)).neg
  · exact onGrid_intCast hgt hlt

end FloatParts

section Floor

variable {x : Float}

theorem abs_floor_lt {a : ℚ} (ha : OnGrid a) (hlt : |a| < horizon) : |(⌊a⌋ : ℚ)| < horizon := by
  obtain ⟨hlow, hhigh⟩ := abs_lt.1 hlt
  have hlast := ha.neg.le_last (by linarith)
  have hstep : 1 ≤ lastStep := one_le_zpow₀ one_le_two (by decide)
  have hfloor := Int.sub_one_lt_floor a
  rw [last] at hlast
  exact abs_lt.2 ⟨by linarith, (Int.floor_le a).trans_lt hhigh⟩

/-- A finite number is rounded down exactly. -/
theorem floorFloat_spec (hx : Binary64.IsFinite x) :
    Binary64.IsFinite (floorFloat x) ∧ valueOf (floorFloat x) = ⌊valueOf x⌋ := by
  have hfloor : (Binary64.ofFloat x).floor = ⌊valueOf x⌋ := Binary64.floor_eq _
  have hgrid : OnGrid ⌊valueOf x⌋ := onGrid_floor (onGrid_value hx)
  refine isFinite_of_at? ?_ (abs_floor_lt (onGrid_value hx) (abs_valueOf_lt hx))
  rw [floorFloat, if_pos hx]
  dsimp only
  rw [hfloor]
  split_ifs with hzero hneg
  · rw [hzero, Int.cast_zero]
    exact at?_neg_zero
  · rw [hzero, Int.cast_zero]
    exact at?_zero
  · exact (nearest_ofInt _).rounds.eq_of_onGrid hgrid

theorem isFinite_of_floorFloat (h : Binary64.IsFinite (floorFloat x)) : Binary64.IsFinite x := by
  by_contra hx
  rw [floorFloat, if_neg hx] at h
  exact hx h

end Floor

-- A step after one that overflows has no exact value, and it does not matter: the first one does.

/-- What the remainder in floating point computes exactly, step by step. -/
def moduloSteps (x y : Float) : List ℚ :=
  [valueOf x / valueOf y, valueOf y * ⌊valueOf (x / y)⌋,
    valueOf x - valueOf (y * floorFloat (x / y))]

theorem isFinite_floatModulo_iff {x y : Float}
    (hx : Binary64.IsFinite x) (hy : Binary64.IsFinite y) (hne : valueOf y ≠ 0) :
    Binary64.IsFinite (floatModulo x y) ↔ ∀ q ∈ moduloSteps x y, Fits q := by
  have hquotient := isFinite_div_iff hx hy hne
  have hproduct (h : Binary64.IsFinite (x / y)) :
      Binary64.IsFinite (y * floorFloat (x / y)) ↔ Fits (valueOf y * ⌊valueOf (x / y)⌋) := by
    obtain ⟨hfinite, hvalue⟩ := floorFloat_spec h
    rw [isFinite_mul_iff hy hfinite, hvalue]
  rw [moduloSteps, List.forall_mem_cons, List.forall_mem_cons, List.forall_mem_singleton]
  constructor
  · intro h
    have hp := (isFinite_of_sub h).2
    have hq := isFinite_of_floorFloat (isFinite_of_mul hp).2
    exact ⟨hquotient.1 hq, (hproduct hq).1 hp, (isFinite_sub_iff hx hp).1 h⟩
  · rintro ⟨hq, hp, h⟩
    exact (isFinite_sub_iff hx ((hproduct (hquotient.2 hq)).2 hp)).2 h

namespace Draw

/-- What a draw between two numbers computes exactly, step by step. -/
def uniformSteps (h : Nat) (lo hi : Float) : List ℚ :=
  [valueOf hi - valueOf lo, valueOf (hi - lo) * valueOf (fraction h),
    valueOf lo + valueOf ((hi - lo) * fraction h)]

theorem isFinite_fraction {h : Nat} (hh : h ≤ top) : Binary64.IsFinite (fraction h) := by
  obtain ⟨f, hf, hnonneg, hle, -⟩ := at?_fraction hh
  refine (isFinite_of_at? hf ?_).1
  rw [abs_of_nonneg hnonneg]
  exact hle.trans_lt one_lt_horizon

theorem isFinite_uniform_iff {h : Nat} {lo hi : Float} (hh : h ≤ top)
    (hlo : Binary64.IsFinite lo) (hhi : Binary64.IsFinite hi) :
    Binary64.IsFinite (uniform h lo hi) ↔ ∀ q ∈ uniformSteps h lo hi, Fits q := by
  have hspan := isFinite_sub_iff hhi hlo
  have hshare (hd : Binary64.IsFinite (hi - lo)) := isFinite_mul_iff hd (isFinite_fraction hh)
  rw [uniformSteps, List.forall_mem_cons, List.forall_mem_cons, List.forall_mem_singleton]
  constructor
  · intro hsum
    have hp := (isFinite_of_add hsum).2
    have hd := (isFinite_of_mul hp).1
    exact ⟨hspan.1 hd, (hshare hd).1 hp, (isFinite_add_iff hlo hp).1 hsum⟩
  · rintro ⟨hd, hp, hsum⟩
    exact (isFinite_add_iff hlo ((hshare (hspan.2 hd)).2 hp)).2 hsum

end Draw

namespace Operand

/-- The exact value of the operand in floating point. -/
def value (n : Operand) : ℚ := valueOf n.toFloat

/-- The operand is finite in floating point. -/
def IsFinite (n : Operand) : Prop := Binary64.IsFinite n.toFloat

theorem isFinite_of_near {x : Float} {q : ℚ} (h : Near x q) : Binary64.IsFinite x := by
  obtain ⟨a, ha, hlt, -⟩ := h
  exact isFinite_iff_at?.2 ⟨a, ha, hlt⟩

/-- An integer of the signed range in floating point. -/
theorem int_spec (n : Signed) : (int n).IsFinite ∧ |(int n).value| ≤ 2 ^ 63 := by
  have hn : |(n.val : ℚ)| ≤ 2 ^ (63 : Int) :=
    abs_le.2 ⟨by exact_mod_cast n.lo_le, by exact_mod_cast n.lt_hi.le⟩
  obtain ⟨a, ha, hnearest⟩ := nearest_ofInt n.val
  have hle := hnearest.abs_le_two_zpow (by decide) (by decide) hn
  obtain ⟨hfinite, hvalue⟩ := isFinite_of_at? ha (hle.trans_lt (two_zpow_lt_horizon (by decide)))
  refine ⟨hfinite, ?_⟩
  rw [value, show (int n).toFloat = Float.ofInt n.val from rfl, hvalue]
  exact_mod_cast hle

/-- Operands come from finite numbers. -/
theorem isFinite_ofJson {v : Json} {n : Operand} (h : ofJson v = .ok n) : n.IsFinite := by
  have hquantity : ∃ q, v.quantity? = some q := by
    cases v <;> first | exact ⟨_, rfl⟩ | cases h
  obtain ⟨q, hq⟩ := hquantity
  obtain ⟨n', hn', hnear⟩ := Json.near_of_quantity? hq
  cases h.symm.trans hn'
  exact isFinite_of_near hnear

theorem isFinite_ofItems {vs : List Json} {ns : List Operand} (h : ofItems vs = .ok ns) :
    ∀ n ∈ ns, n.IsFinite := by
  induction vs generalizing ns with
  | nil =>
      cases h
      exact List.forall_mem_nil _
  | cons v rest ih =>
      rw [ofItems] at h
      cases hv : ofJson v with
      | error e =>
          rw [hv] at h
          cases h
      | ok n =>
          cases hrest : ofItems rest with
          | error e =>
              rw [hv, hrest] at h
              cases h
          | ok ns' =>
              rw [hv, hrest] at h
              cases h
              exact List.forall_mem_cons.2 ⟨isFinite_ofJson hv, ih hrest⟩

/-- An operand that is not finite is written as null. -/
theorem numberIf_toJson (n : Operand) : Json.NumberIf n.IsFinite n.toJson := by
  cases n with
  | int m => exact .of_isNumber (int_spec m).1 (Json.isNumber_ofSigned m)
  | float x => exact Json.numberIf_ofFloat x

theorem isFinite_neg {n : Operand} (h : n.IsFinite) : n.neg.IsFinite := by
  cases n with
  | int m =>
      rw [neg]
      by_cases hfits : FitsSigned (-m.val)
      · rw [exactOr_of_fits hfits]
        exact (int_spec _).1
      · rw [exactOr_of_not_fits hfits]
        exact FloatParts.isFinite_neg h
  | float x => exact FloatParts.isFinite_neg h

theorem value_ne_zero {n : Operand} (h : n.IsFinite) (hzero : n.isZero = false) : n.value ≠ 0 := by
  intro hvalue
  have hbeq : n.isZero = true := (beq_iff (at?_eq_valueOf h) at?_zero).2 hvalue
  rw [hzero] at hbeq
  cases hbeq

section Steps

variable {onInts : Int → Int → Int} {onFloats : Float → Float → Float} {exact : ℚ → ℚ → ℚ}
  {a b : Operand}

/-- An operation in floating point overflows where the exact one does, and only there.  Integers of
the signed range do not overflow. -/
structure Overflows (onFloats : Float → Float → Float) (exact : ℚ → ℚ → ℚ) : Prop where
  isFinite_iff : ∀ {x y}, Binary64.IsFinite x → Binary64.IsFinite y →
    (Binary64.IsFinite (onFloats x y) ↔ Fits (exact (valueOf x) (valueOf y)))
  isFinite_left : ∀ {x y}, Binary64.IsFinite (onFloats x y) → Binary64.IsFinite x
  fits : ∀ {p q : ℚ}, |p| ≤ 2 ^ 63 → |q| ≤ 2 ^ 63 → Fits (exact p q)

theorem overflows_add : Overflows (· + ·) (· + ·) where
  isFinite_iff hx hy := isFinite_add_iff hx hy
  isFinite_left h := (isFinite_of_add h).1
  fits hp hq := fits_of_abs_le ((abs_add_le _ _).trans (by linarith))

theorem overflows_mul : Overflows (· * ·) (· * ·) where
  isFinite_iff hx hy := isFinite_mul_iff hx hy
  isFinite_left h := (isFinite_of_mul h).1
  fits {p q} hp hq := by
    refine fits_of_abs_le ?_
    calc |p * q| = |p| * |q| := abs_mul p q
      _ ≤ 2 ^ 63 * 2 ^ 63 := mul_le_mul hp hq (abs_nonneg q) (by norm_num)
      _ = 2 ^ 126 := by norm_num

/-- One step of a computation gives a finite operand exactly if it does not overflow. -/
theorem isFinite_combine_iff (h : Overflows onFloats exact) (ha : a.IsFinite) (hb : b.IsFinite) :
    (combine onInts onFloats a b).IsFinite ↔ Fits (exact a.value b.value) := by
  cases a with
  | float x => exact h.isFinite_iff ha hb
  | int m =>
      cases b with
      | float y => exact h.isFinite_iff ha hb
      | int n =>
          have hfits := h.fits (int_spec m).2 (int_spec n).2
          rw [combine]
          by_cases hin : FitsSigned (onInts m.val n.val)
          · rw [exactOr_of_fits hin]
            exact iff_of_true (int_spec _).1 hfits
          · rw [exactOr_of_not_fits hin]
            exact h.isFinite_iff ha hb

theorem isFinite_of_combine (h : Overflows onFloats exact)
    (hfinite : (combine onInts onFloats a b).IsFinite) : a.IsFinite := by
  cases a with
  | int m => exact (int_spec m).1
  | float x => exact h.isFinite_left hfinite

theorem isFinite_of_foldl (h : Overflows onFloats exact) {ns : List Operand}
    (hfinite : (ns.foldl (combine onInts onFloats) a).IsFinite) : a.IsFinite := by
  induction ns generalizing a with
  | nil => exact hfinite
  | cons n rest ih => exact isFinite_of_combine h (ih hfinite)

/-- What a computation with one operand after the other computes exactly, step by step. -/
def foldSteps (exact : ℚ → ℚ → ℚ) (op : Operand → Operand → Operand) (acc : Operand) :
    List Operand → List ℚ
  | [] => []
  | n :: rest => exact acc.value n.value :: foldSteps exact op (op acc n) rest

/-- A computation with one operand after the other ends with a finite operand exactly if no step
overflows. -/
theorem isFinite_foldl_iff (h : Overflows onFloats exact) {ns : List Operand}
    (ha : a.IsFinite) (hns : ∀ n ∈ ns, n.IsFinite) :
    (ns.foldl (combine onInts onFloats) a).IsFinite ↔
      ∀ q ∈ foldSteps exact (combine onInts onFloats) a ns, Fits q := by
  induction ns generalizing a with
  | nil => exact iff_of_true ha (List.forall_mem_nil _)
  | cons n rest ih =>
      obtain ⟨hn, hrest⟩ := List.forall_mem_cons.1 hns
      have hstep : (combine onInts onFloats a n).IsFinite ↔ Fits (exact a.value n.value) :=
        isFinite_combine_iff h ha hn
      rw [List.foldl_cons, foldSteps, List.forall_mem_cons, ← hstep]
      constructor
      · intro hfinite
        have hfirst := isFinite_of_foldl h hfinite
        exact ⟨hfirst, (ih hfirst hrest).1 hfinite⟩
      · rintro ⟨hfirst, hall⟩
        exact (ih hfirst hrest).2 hall

end Steps

end Operand

/-- An extremum is one of the operands. -/
theorem extremum_mem (wanted : Ordering) (best : Operand) (ns : List Operand) :
    extremum wanted best ns ∈ best :: ns := by
  rw [extremum]
  induction ns generalizing best with
  | nil => exact List.mem_cons_self
  | cons n rest ih =>
      rw [List.foldl_cons]
      refine (List.mem_cons.1 (ih _)).elim (fun heq => ?_) fun hmem =>
        List.mem_cons_of_mem _ (List.mem_cons_of_mem _ hmem)
      rw [heq]
      split_ifs
      · exact List.mem_cons_of_mem _ List.mem_cons_self
      · exact List.mem_cons_self

end Allotment
