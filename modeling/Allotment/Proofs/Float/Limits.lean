import Allotment.Proofs.Float.Arithmetic

/-!
# Zeros and infinite numbers

A zero, whatever its sign, changes no number that it is added to.  An infinite number stays
infinite when a finite one is added to it or when it is multiplied by a positive one; multiplied by
a zero it is no number any more.

**Results.**
* `FloatParts.isFinite_iff_at?`: a number is finite exactly if it does not stand at the ends.
* `FloatParts.at?_add_zero`, `FloatParts.at?_zero_add`, `FloatParts.at?_sub_zero`: zeros in sums.
* `FloatParts.at?_add_of_nonneg`: a sum of numbers that are not negative is not below them.
* `FloatParts.at?_horizon_mul`, `FloatParts.at?_horizon_mul_zero`: infinite numbers in products.
-/

namespace Allotment

namespace FloatParts

open Float.Model (UnpackedFloat Format)
open Float.Model.UnpackedFloat

theorem two_zpow_lt_horizon {k : Int} (hk : k < 1024) : 2 ^ k < horizon := by
  rw [horizon_eq]
  exact zpow_lt_zpow_right₀ one_lt_two hk

theorem one_lt_horizon : 1 < horizon := by
  exact_mod_cast natCast_lt_horizon (show 1 < 2 ^ 1 by decide) (by decide)

section Places

variable {x y w : Float} {a b : ℚ}

theorem abs_le_horizon (ha : at? x = some a) : |a| ≤ horizon :=
  (onGrid_of_place? (canonical_parts x) ha).1

/-- A number is finite exactly if it does not stand at the ends. -/
theorem isFinite_iff_at? : Binary64.IsFinite x ↔ ∃ a, at? x = some a ∧ |a| < horizon := by
  have hc := canonical_parts x
  have hx : parts x = ofFields (signField x.toBits.toBitVec) (exponentField x.toBits.toBitVec)
      (fractionField x.toBits.toBitVec) := unpack_eq _
  rw [isFinite_iff, at?]
  constructor
  · intro hk
    rcases ofFields_of_ne _ hk _ with hzero | ⟨m, e, hm, hfinite⟩
    · rw [hx, hzero]
      exact ⟨0, rfl, by rw [abs_zero]; exact horizon_pos⟩
    · rw [hx, hfinite] at hc
      rw [hx, hfinite]
      refine ⟨_, rfl, ?_⟩
      rw [abs_signedBy, abs_of_pos (magnitude_pos hm e)]
      exact magnitude_lt_horizon hc
  · rintro ⟨a, ha, hlt⟩ hk
    rw [hk] at hx
    rcases ofFields_of_eq _ _ with hinf | hnan
    · rw [hx, hinf] at ha
      cases ha
      rw [abs_signedBy, abs_of_pos horizon_pos] at hlt
      exact lt_irrefl _ hlt
    · rw [hx, hnan] at ha
      cases ha

theorem parts_of_zero (hw : at? w = some 0) : ∃ s, parts w = .zero s := by
  have hlt : |(0 : ℚ)| < horizon := by
    rw [abs_zero]
    exact horizon_pos
  rcases finite_cases hw hlt with ⟨s, hs, -⟩ | ⟨s, m, e, hm, -, -, h⟩
  · exact ⟨s, hs⟩
  · have habs : |(0 : ℚ)| = |signedBy s (magnitude m e)| := by rw [← h]
    rw [abs_zero, abs_signedBy, abs_of_pos (magnitude_pos hm e)] at habs
    exact absurd habs (magnitude_pos hm e).ne

theorem parts_of_horizon (hx : at? x = some horizon) : parts x = .infinity .positive := by
  have hc := canonical_parts x
  have hpos := horizon_pos
  rw [at?] at hx
  generalize parts x = u at hx hc
  rcases u with ⟨_ | _⟩ | _ | s | ⟨_ | _, m, e, hm⟩
  · have : -horizon = horizon := Option.some.inj hx
    linarith
  · rfl
  · cases hx
  · have : 0 = horizon := Option.some.inj hx
    linarith
  · have : -magnitude m e = horizon := Option.some.inj hx
    linarith [magnitude_pos hm e]
  · have : magnitude m e = horizon := Option.some.inj hx
    linarith [magnitude_lt_horizon hc]

/-- Parts of the same number, up to the sign of a zero. -/
def SameNumber (u v : UnpackedFloat) : Prop := u = v ∨ ∃ s s', u = .zero s ∧ v = .zero s'

theorem SameNumber.packed?_eq {u v : UnpackedFloat} (h : SameNumber u v) (hv : Canonical v) :
    packed? u = place? v := by
  obtain rfl | ⟨s, s', rfl, rfl⟩ := h
  · exact packed?_of_canonical hv
  · exact packed?_of_canonical trivial

theorem sameNumber_add_zero (u : UnpackedFloat) (s : Sign) :
    SameNumber (UnpackedFloat.add Format.binary64 u (.zero s)) u := by
  cases u with
  | notANumber => exact .inl rfl
  | infinity s' => exact .inl rfl
  | zero s' => exact .inr ⟨_, s', (apply_ite UnpackedFloat.zero _ _ _).symm, rfl⟩
  | finite s' m e hm => exact .inl rfl

theorem sameNumber_zero_add (u : UnpackedFloat) (s : Sign) :
    SameNumber (UnpackedFloat.add Format.binary64 (.zero s) u) u := by
  cases u with
  | notANumber => exact .inl rfl
  | infinity s' => exact .inl rfl
  | zero s' => exact .inr ⟨_, s', (apply_ite UnpackedFloat.zero _ _ _).symm, rfl⟩
  | finite s' m e hm => exact .inl rfl

theorem sameNumber_sub_zero (u : UnpackedFloat) (s : Sign) :
    SameNumber (UnpackedFloat.sub Format.binary64 u (.zero s)) u := by
  cases u with
  | notANumber => exact .inl rfl
  | infinity s' => exact .inl rfl
  | zero s' => exact .inr ⟨_, s', (apply_ite UnpackedFloat.zero _ _ _).symm, rfl⟩
  | finite s' m e hm => exact .inl rfl

theorem at?_add_zero (hw : at? w = some 0) : at? (x + w) = at? x := by
  obtain ⟨s, hs⟩ := parts_of_zero hw
  show packed? (UnpackedFloat.add Format.binary64 (parts x) (parts w)) = _
  rw [hs]
  exact (sameNumber_add_zero _ s).packed?_eq (canonical_parts x)

theorem at?_zero_add (hw : at? w = some 0) : at? (w + x) = at? x := by
  obtain ⟨s, hs⟩ := parts_of_zero hw
  show packed? (UnpackedFloat.add Format.binary64 (parts w) (parts x)) = _
  rw [hs]
  exact (sameNumber_zero_add _ s).packed?_eq (canonical_parts x)

theorem at?_sub_zero (hw : at? w = some 0) : at? (x - w) = at? x := by
  obtain ⟨s, hs⟩ := parts_of_zero hw
  show packed? (UnpackedFloat.sub Format.binary64 (parts x) (parts w)) = _
  rw [hs]
  exact (sameNumber_sub_zero _ s).packed?_eq (canonical_parts x)

theorem at?_horizon_add (hx : at? x = some horizon) (hy : at? y = some b) (hlt : |b| < horizon) :
    at? (x + y) = some horizon := by
  show packed? (UnpackedFloat.add Format.binary64 (parts x) (parts y)) = _
  rw [parts_of_horizon hx]
  rcases finite_cases hy hlt with ⟨s, hs, -⟩ | ⟨s, m, e, hm, hs, -⟩
  · rw [hs]
    exact packed?_of_canonical trivial
  · rw [hs]
    exact packed?_of_canonical trivial

/-- A sum of numbers that are not negative is not below them. -/
theorem at?_add_of_nonneg
    (ha : at? x = some a) (hb : at? y = some b) (hx : 0 ≤ a) (hy : 0 ≤ b) (hlt : b < horizon) :
    ∃ c, at? (x + y) = some c ∧ a ≤ c ∧ b ≤ c := by
  have hb' : |b| < horizon := by rwa [abs_of_nonneg hy]
  rcases (abs_le_horizon ha).lt_or_eq with ha' | ha'
  · obtain ⟨c, hc, hbetween⟩ := (nearest_add ha hb ha' hb').rounds
    have hgridx := onGrid_of_place? (canonical_parts x) ha
    have hgridy := onGrid_of_place? (canonical_parts y) hb
    exact ⟨c, hc, (hbetween a hgridx).1 (le_add_of_nonneg_right hy),
      (hbetween b hgridy).1 (le_add_of_nonneg_left hx)⟩
  · rw [abs_of_nonneg hx] at ha'
    subst ha'
    exact ⟨horizon, at?_horizon_add ha hb hb', le_rfl, hlt.le⟩

theorem at?_horizon_mul
    (hx : at? x = some horizon) (hy : at? y = some b) (hpos : 0 < b) (hlt : b < horizon) :
    at? (x * y) = some horizon := by
  show packed? (UnpackedFloat.mul Format.binary64 (parts x) (parts y)) = _
  rw [parts_of_horizon hx]
  rcases finite_cases hy ((abs_of_pos hpos).trans_lt hlt) with ⟨s, -, h⟩ | ⟨s, m, e, hm, hs, -, h⟩
  · exact absurd h hpos.ne'
  · have := magnitude_pos hm e
    cases s with
    | negative =>
        rw [signedBy] at h
        linarith
    | positive =>
        rw [hs]
        exact packed?_of_canonical trivial

/-- An infinite number times zero is no number. -/
theorem at?_horizon_mul_zero (hx : at? x = some horizon) (hw : at? w = some 0) :
    at? (x * w) = none := by
  obtain ⟨s, hs⟩ := parts_of_zero hw
  show packed? (UnpackedFloat.mul Format.binary64 (parts x) (parts w)) = _
  rw [parts_of_horizon hx, hs]
  exact packed?_of_canonical trivial

end Places

theorem at?_zero : at? 0.0 = some 0 := by
  have hparts : parts 0.0 = .zero .positive := rfl
  rw [at?, hparts, place?_zero]

end FloatParts

end Allotment
