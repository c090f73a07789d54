import Allotment.Proofs.Float.Limits
import Mathlib.Data.Rat.Floor

/-!
# Overflow

An operation on finite numbers overflows if its exact result is at least half a step beyond the
last place, and has a finite result otherwise.  A sum, a difference or a product with what is not
finite is not finite either.

**Results.**
* `FloatParts.isFinite_add_iff`, `FloatParts.isFinite_sub_iff`, `FloatParts.isFinite_mul_iff`,
  `FloatParts.isFinite_div_iff`: which operations on finite numbers overflow.
* `FloatParts.isFinite_of_add`, `FloatParts.isFinite_of_sub`, `FloatParts.isFinite_of_mul`: a finite
  result comes from finite numbers.
-/

namespace Allotment

namespace FloatParts

open Float.Model (UnpackedFloat Format)
open Float.Model.UnpackedFloat

/-- The exact value of a finite number. -/
def valueOf (x : Float) : ℚ := (Binary64.ofFloat x).value

/-- Neither a finite number nor a zero. -/
def Unbounded : UnpackedFloat → Prop
  | .notANumber => True
  | .infinity _ => True
  | _ => False

section Operations

variable {x y : Float} {q : ℚ}

theorem at?_eq_valueOf (hx : Binary64.IsFinite x) : at? x = some (valueOf x) := at?_of_isFinite hx

theorem abs_valueOf_lt (hx : Binary64.IsFinite x) : |valueOf x| < horizon := by
  obtain ⟨a, ha, hlt⟩ := isFinite_iff_at?.1 hx
  cases ha.symm.trans (at?_eq_valueOf hx)
  exact hlt

/-- A number is finite exactly if what it was rounded from does not overflow. -/
theorem isFinite_iff_fits (h : RoundsNearest (at? x) q) : Binary64.IsFinite x ↔ Fits q := by
  obtain ⟨a, ha, hnear⟩ := h
  rw [isFinite_iff_at?, ← hnear.fits_iff]
  constructor
  · rintro ⟨a', ha', hlt⟩
    cases Option.mem_unique ha ha'
    exact hlt
  · exact fun hlt => ⟨a, ha, hlt⟩

theorem isFinite_add_iff (hx : Binary64.IsFinite x) (hy : Binary64.IsFinite y) :
    Binary64.IsFinite (x + y) ↔ Fits (valueOf x + valueOf y) :=
  isFinite_iff_fits (nearest_add (at?_eq_valueOf hx) (at?_eq_valueOf hy) (abs_valueOf_lt hx)
    (abs_valueOf_lt hy))

theorem isFinite_sub_iff (hx : Binary64.IsFinite x) (hy : Binary64.IsFinite y) :
    Binary64.IsFinite (x - y) ↔ Fits (valueOf x - valueOf y) :=
  isFinite_iff_fits (nearest_sub (at?_eq_valueOf hx) (at?_eq_valueOf hy) (abs_valueOf_lt hx)
    (abs_valueOf_lt hy))

theorem isFinite_mul_iff (hx : Binary64.IsFinite x) (hy : Binary64.IsFinite y) :
    Binary64.IsFinite (x * y) ↔ Fits (valueOf x * valueOf y) :=
  isFinite_iff_fits (nearest_mul (at?_eq_valueOf hx) (at?_eq_valueOf hy) (abs_valueOf_lt hx)
    (abs_valueOf_lt hy))

theorem isFinite_div_iff (hx : Binary64.IsFinite x) (hy : Binary64.IsFinite y)
    (hne : valueOf y ≠ 0) : Binary64.IsFinite (x / y) ↔ Fits (valueOf x / valueOf y) :=
  isFinite_iff_fits (nearest_div (at?_eq_valueOf hx) (at?_eq_valueOf hy) (abs_valueOf_lt hx)
    (abs_valueOf_lt hy) hne)

theorem isFinite_iff_not_unbounded : Binary64.IsFinite x ↔ ¬ Unbounded (parts x) := by
  have hc := canonical_parts x
  rw [isFinite_iff_at?, at?]
  generalize parts x = u at hc ⊢
  cases u with
  | notANumber =>
      refine iff_of_false ?_ (not_not.2 trivial)
      rintro ⟨a, ha, -⟩
      cases ha
  | infinity s =>
      refine iff_of_false ?_ (not_not.2 trivial)
      rintro ⟨a, ha, hlt⟩
      cases ha
      rw [abs_signedBy, abs_of_pos horizon_pos] at hlt
      exact lt_irrefl _ hlt
  | zero s => exact iff_of_true ⟨0, rfl, by rw [abs_zero]; exact horizon_pos⟩ id
  | finite s m e hm =>
      refine iff_of_true ⟨_, rfl, ?_⟩ id
      rw [abs_signedBy, abs_of_pos (magnitude_pos hm e)]
      exact magnitude_lt_horizon hc

/-- What is unbounded stays so when it is packed. -/
theorem unbounded_packed {u : UnpackedFloat} (h : Unbounded u) :
    Unbounded (unpack Format.binary64 (pack Format.binary64 u)) := by
  have hcanonical : Canonical u := by
    cases u with
    | notANumber => trivial
    | infinity s => trivial
    | zero s => exact h.elim
    | finite s m e hm => exact h.elim
  rwa [unpack_pack_of_canonical hcanonical]

variable {u v : UnpackedFloat}

theorem unbounded_neg (h : Unbounded u) : Unbounded u.neg := by
  cases u <;> exact h

theorem unbounded_add (h : Unbounded u ∨ Unbounded v) :
    Unbounded (UnpackedFloat.add Format.binary64 u v) := by
  rcases u with ⟨_ | _⟩ | _ | _ | _ <;> rcases v with ⟨_ | _⟩ | _ | _ | _ <;>
    first
    | trivial
    | exact (h.elim id id).elim

theorem unbounded_sub (h : Unbounded u ∨ Unbounded v) :
    Unbounded (UnpackedFloat.sub Format.binary64 u v) := by
  rw [sub_eq]
  exact unbounded_add (h.imp_right unbounded_neg)

theorem unbounded_mul (h : Unbounded u ∨ Unbounded v) :
    Unbounded (UnpackedFloat.mul Format.binary64 u v) := by
  cases u <;> cases v <;>
    first
    | trivial
    | exact (h.elim id id).elim

/-- A finite number does not come from unbounded parts. -/
theorem bounded_of_isFinite (h : Binary64.IsFinite x)
    (hparts : parts x = unpack Format.binary64 (pack Format.binary64 u)) : ¬ Unbounded u := by
  intro hu
  have hx := isFinite_iff_not_unbounded.1 h
  rw [hparts] at hx
  exact hx (unbounded_packed hu)

theorem isFinite_of_add (h : Binary64.IsFinite (x + y)) :
    Binary64.IsFinite x ∧ Binary64.IsFinite y := by
  obtain ⟨hx, hy⟩ := not_or.1 (mt unbounded_add (bounded_of_isFinite h rfl))
  exact ⟨isFinite_iff_not_unbounded.2 hx, isFinite_iff_not_unbounded.2 hy⟩

theorem isFinite_of_sub (h : Binary64.IsFinite (x - y)) :
    Binary64.IsFinite x ∧ Binary64.IsFinite y := by
  obtain ⟨hx, hy⟩ := not_or.1 (mt unbounded_sub (bounded_of_isFinite h rfl))
  exact ⟨isFinite_iff_not_unbounded.2 hx, isFinite_iff_not_unbounded.2 hy⟩

theorem isFinite_of_mul (h : Binary64.IsFinite (x * y)) :
    Binary64.IsFinite x ∧ Binary64.IsFinite y := by
  obtain ⟨hx, hy⟩ := not_or.1 (mt unbounded_mul (bounded_of_isFinite h rfl))
  exact ⟨isFinite_iff_not_unbounded.2 hx, isFinite_iff_not_unbounded.2 hy⟩

theorem isFinite_neg (h : Binary64.IsFinite x) : Binary64.IsFinite (-x) := by
  rw [isFinite_iff_not_unbounded, parts_neg]
  have hx := isFinite_iff_not_unbounded.1 h
  generalize parts x = u at hx ⊢
  cases u <;> exact hx

end Operations

end FloatParts

end Allotment
