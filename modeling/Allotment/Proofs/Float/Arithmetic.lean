import Allotment.Proofs.Float.Rounding

/-!
# Arithmetic of floating-point numbers

A sum, a product or a quotient of finite floating-point numbers stands at the place nearest to the
exact one.  So an operation is exact where the exact result is such a place, and it preserves bounds
that are such places.

**Results.**
* `FloatParts.nearest_add`, `FloatParts.nearest_sub`, `FloatParts.nearest_mul`,
  `FloatParts.nearest_div`: the operations.
* `FloatParts.nearest_ofNat`, `FloatParts.nearest_ofInt`: the conversions of integers.
* `FloatParts.Rounds.eq_of_onGrid`: where nothing has to be rounded the result is exact.
-/

namespace Allotment

namespace FloatParts

open Float.Model (UnpackedFloat Format totalExponent)
open Float.Model.UnpackedFloat

/-- The floating-point number is the rational one or a neighbour of it. -/
def Rounds (x : Float) (q : ℚ) : Prop := RoundsTo (at? x) q

theorem RoundsNearest.rounds {x : Float} {q : ℚ} (h : RoundsNearest (at? x) q) : Rounds x q :=
  h.roundsTo

/-- Where nothing has to be rounded the result is exact. -/
theorem Rounds.eq_of_onGrid {x : Float} {q : ℚ} (h : Rounds x q) (hq : OnGrid q) :
    at? x = some q := by
  obtain ⟨a, ha, hbetween⟩ := h
  obtain ⟨hle, hge⟩ := hbetween q hq
  rwa [le_antisymm (hge le_rfl) (hle le_rfl)] at ha

/-- A number that is not at the ends is zero or has a significand and an exponent. -/
theorem finite_cases {x : Float} {a : ℚ} (ha : at? x = some a) (hlt : |a| < horizon) :
    (∃ s, parts x = .zero s ∧ a = 0) ∨
    ∃ s m e hm, parts x = .finite s m e hm ∧ Canonical (.finite s m e hm) ∧
      a = signedBy s (magnitude m e) := by
  have hx := canonical_parts x
  rw [at?] at ha
  generalize parts x = u at ha hx
  cases u with
  | notANumber => cases ha
  | infinity s =>
      cases ha
      rw [abs_signedBy, abs_of_pos horizon_pos] at hlt
      exact absurd hlt (lt_irrefl _)
  | zero s =>
      cases ha
      exact .inl ⟨s, rfl, rfl⟩
  | finite s m e hm =>
      cases ha
      exact .inr ⟨s, m, e, hm, rfl, hx, rfl⟩

theorem mul_exponent_le {s s' : Sign} {m m' : Nat} {e e' : Int} {hm : 0 < m} {hm' : 0 < m'}
    (h : Canonical (.finite s m e hm)) (h' : Canonical (.finite s' m' e' hm')) :
    e + e' ≤ lastPlace (m * m') (e + e') := by
  have hform := h.2.2.2
  have hform' := h'.2.2.2
  rw [lastPlace]
  by_cases hlog : 52 ≤ (m * m').log2
  · omega
  · have hlt : m * m' < 2 ^ 52 := (Nat.log2_lt (Nat.mul_pos hm hm').ne').1 (by omega)
    have := Nat.le_mul_of_pos_right m hm'
    have := Nat.le_mul_of_pos_left m' hm
    omega

theorem signedBy_mul (s s' : Sign) (a b : ℚ) :
    signedBy (s * s') (a * b) = signedBy s a * signedBy s' b := by
  cases s <;> cases s' <;> simp only [signedBy, neg_mul, mul_neg, neg_neg]

theorem magnitude_mul (m m' : Nat) (e e' : Int) :
    ((m * m' : Nat) : ℚ) * 2 ^ (e + e') = magnitude m e * magnitude m' e' := by
  rw [magnitude, magnitude, zpow_add₀ two_ne_zero, Nat.cast_mul]
  ring

theorem nearest_place {u : UnpackedFloat} (hu : Canonical u) {a : ℚ} (ha : place? u = some a) :
    RoundsNearest (packed? u) a := by
  rw [packed?_of_canonical hu, ha]
  exact ⟨a, rfl, IsNearest.self (onGrid_of_place? hu ha)⟩

theorem nearest_zero (s : Sign) : RoundsNearest (packed? (.zero s)) 0 :=
  nearest_place (u := .zero s) trivial rfl

section Operations

variable {x y : Float} {a b : ℚ}

theorem nearest_mul
    (ha : at? x = some a) (hb : at? y = some b) (hx : |a| < horizon) (hy : |b| < horizon) :
    RoundsNearest (at? (x * y)) (a * b) := by
  show RoundsNearest (packed? (UnpackedFloat.mul Format.binary64 (parts x) (parts y))) _
  rcases finite_cases ha hx with ⟨s, hs, rfl⟩ | ⟨s, m, e, hm, hs, hc, rfl⟩ <;>
    rcases finite_cases hb hy with ⟨s', hs', rfl⟩ | ⟨s', m', e', hm', hs', hc', rfl⟩ <;>
    rw [hs, hs']
  · rw [mul_zero]
    exact nearest_zero _
  · rw [zero_mul]
    exact nearest_zero _
  · rw [mul_zero]
    exact nearest_zero _
  · rw [← signedBy_mul, ← magnitude_mul]
    exact nearest_roundWithAccuracy _ (reads_exact _) (mul_exponent_le hc hc')

theorem excess_shiftLeft {m : Nat} (hm : 0 < m) (e : Int) (d : Nat) :
    lastPlace (m <<< d) (e - d) = lastPlace m e := by
  have hlog : (m <<< d).log2 = m.log2 + d := by
    have hne : m <<< d ≠ 0 := by
      rw [Nat.shiftLeft_eq]
      exact (Nat.mul_pos hm (Nat.two_pow_pos d)).ne'
    obtain ⟨hle, hlt⟩ := (Nat.log2_eq_iff hm.ne').1 rfl
    rw [Nat.log2_eq_iff hne, Nat.shiftLeft_eq, Nat.add_right_comm, Nat.pow_add, Nat.pow_add]
    exact ⟨Nat.mul_le_mul_right _ hle, Nat.mul_lt_mul_of_pos_right hlt (Nat.two_pow_pos d)⟩
  rw [lastPlace, lastPlace, hlog]
  congr 1
  omega

theorem magnitude_shiftLeft (m : Nat) (e : Int) (d : Nat) :
    ((m <<< d : Nat) : ℚ) * 2 ^ (e - d) = magnitude m e := by
  rw [magnitude, Nat.shiftLeft_eq, zpow_sub₀ two_ne_zero, zpow_natCast, Nat.cast_mul, Nat.cast_pow,
    Nat.cast_ofNat, mul_assoc, mul_div_cancel₀ _ (pow_ne_zero d two_ne_zero)]

theorem nearest_round (s : Sign) {m : Nat} (hm : 0 < m) (e : Int) :
    RoundsNearest (packed? (UnpackedFloat.round Format.binary64 s m e))
      (signedBy s (magnitude m e)) := by
  have hle : e - (e - lastPlace m e).toNat ≤
      lastPlace (m <<< (e - lastPlace m e).toNat) (e - (e - lastPlace m e).toNat) := by
    rw [excess_shiftLeft hm]
    omega
  rw [UnpackedFloat.round, decreaseExponent, targetExponent_eq, ← magnitude_shiftLeft m e]
  exact nearest_roundWithAccuracy s (reads_exact _) hle

theorem nearest_normalize (n e : Int) :
    RoundsNearest (packed? (UnpackedFloat.normalize Format.binary64 n e .positive))
      (n * 2 ^ e) := by
  rw [UnpackedFloat.normalize]
  rcases lt_trichotomy n 0 with hneg | rfl | hpos
  · rw [show compare n 0 = .lt from compare_lt_iff_lt.2 hneg]
    have h := nearest_round .negative (m := (-n).toNat) (by omega) e
    rwa [signedBy_magnitude, Sign.apply, Int.toNat_of_nonneg (by omega), neg_neg] at h
  · rw [Int.cast_zero, zero_mul]
    exact nearest_zero _
  · rw [show compare n 0 = .gt from compare_gt_iff_gt.2 hpos]
    have h := nearest_round .positive (m := n.toNat) (by omega) e
    rwa [signedBy_magnitude, Sign.apply, Int.toNat_of_nonneg hpos.le] at h

theorem aligned (s : Sign) (m : Nat) {e t : Int} (ht : t ≤ e) :
    ((s.apply ((decreaseExponent m e t).1 : Nat) : Int) : ℚ) * 2 ^ t =
      signedBy s (magnitude m e) := by
  have hexp : e - (e - t).toNat = t := by omega
  rw [← signedBy_magnitude, decreaseExponent]
  show signedBy s (((m <<< (e - t).toNat : Nat) : ℚ) * 2 ^ t) = _
  rw [← magnitude_shiftLeft m e (e - t).toNat, hexp]

theorem nearest_add
    (ha : at? x = some a) (hb : at? y = some b) (hx : |a| < horizon) (hy : |b| < horizon) :
    RoundsNearest (at? (x + y)) (a + b) := by
  show RoundsNearest (packed? (UnpackedFloat.add Format.binary64 (parts x) (parts y))) _
  rcases finite_cases ha hx with ⟨s, hs, rfl⟩ | ⟨s, m, e, hm, hs, hc, rfl⟩ <;>
    rcases finite_cases hb hy with ⟨s', hs', rfl⟩ | ⟨s', m', e', hm', hs', hc', rfl⟩ <;>
    rw [hs, hs']
  · rw [add_zero]
    show RoundsNearest (packed? (if s == s' then .zero s else .zero .positive)) 0
    rw [← apply_ite UnpackedFloat.zero]
    exact nearest_zero _
  · rw [zero_add]
    exact nearest_place hc' rfl
  · rw [add_zero]
    exact nearest_place hc rfl
  · have h := nearest_normalize (s.apply (decreaseExponent m e (min e e')).1 +
      s'.apply (decreaseExponent m' e' (min e e')).1) (min e e')
    rwa [Int.cast_add, add_mul, aligned s m (min_le_left e e'),
      aligned s' m' (min_le_right e e')] at h

theorem sub_eq (u v : UnpackedFloat) :
    UnpackedFloat.sub Format.binary64 u v = UnpackedFloat.add Format.binary64 u v.neg := by
  have hneg (s : Sign) (n : Nat) : (-s).apply n = -(s.apply n : Int) := by
    cases s with
    | negative => exact (neg_neg _).symm
    | positive => rfl
  cases u with
  | notANumber => rfl
  | infinity s => cases v <;> rfl
  | zero s => cases v <;> rfl
  | finite s m e hm =>
      cases v with
      | finite s' m' e' hm' =>
          show UnpackedFloat.normalize _ (s.apply _ - s'.apply _) _ _ =
            UnpackedFloat.normalize _ (s.apply _ + (-s').apply _) _ _
          rw [hneg, ← Int.sub_eq_add_neg]
      | notANumber => rfl
      | infinity s' => rfl
      | zero s' => rfl

/-- The exponent to which a quotient is computed. -/
def quotientPlace (m : Nat) (e : Int) (m' : Nat) (e' : Int) : Int :=
  min (e - e') (max ((m.log2 + e) - (m'.log2 + e') - 53) (-1074))

theorem divCore_eq (m : Nat) (e : Int) (m' : Nat) (e' : Int) :
    divCore Format.binary64 m e m' e' =
      let d := (e - e' - quotientPlace m e m' e').toNat
      (m <<< d / m', quotientPlace m e m' e', accuracyOfFraction (m <<< d % m') m') := by
  have htarget : Format.binary64.targetExponent (totalExponent m e - totalExponent m' e') =
      max ((m.log2 + e) - (m'.log2 + e') - 53) (-1074) := by
    show max ((m.log2 : Int) + 1 + e - (m'.log2 + 1 + e') - ((1 + 52 : Nat) : Int)) _ = _
    congr 1
    omega
  rw [divCore, htarget]
  rfl

/-- A quotient is computed to enough digits. -/
theorem quotientPlace_le {m m' : Nat} (hm : 0 < m) (hm' : 0 < m') {e e' : Int} {d : Nat}
    (hd : d = (e - e' - quotientPlace m e m' e').toNat) :
    quotientPlace m e m' e' ≤ lastPlace (m <<< d / m') (quotientPlace m e m' e') := by
  by_cases hlow : quotientPlace m e m' e' ≤ -1074
  · exact hlow.trans (le_max_right _ _)
  · have hshift : 53 + m'.log2 ≤ m.log2 + d := by
      rw [quotientPlace] at hlow hd
      omega
    have hle : 2 ^ 52 * m' ≤ m <<< d :=
      calc 2 ^ 52 * m' ≤ 2 ^ 52 * 2 ^ (m'.log2 + 1) := Nat.mul_le_mul_left _ Nat.lt_log2_self.le
        _ = 2 ^ (53 + m'.log2) := by rw [← Nat.pow_add]; congr 1; omega
        _ ≤ 2 ^ (m.log2 + d) := Nat.pow_le_pow_right two_pos hshift
        _ = 2 ^ m.log2 * 2 ^ d := Nat.pow_add _ _ _
        _ ≤ m <<< d := by
          rw [Nat.shiftLeft_eq]
          exact Nat.mul_le_mul_right _ (Nat.log2_self_le hm.ne')
    have hquotient : 2 ^ 52 ≤ m <<< d / m' := (Nat.le_div_iff_mul_le hm').2 hle
    have hlog : 52 ≤ (m <<< d / m').log2 :=
      (Nat.le_log2 ((Nat.two_pow_pos 52).trans_le hquotient).ne').2 hquotient
    rw [lastPlace]
    omega

/-- The accuracy of a quotient tells its fraction from a half. -/
theorem reads_quotient {m m' : Nat} (hm' : 0 < m') :
    Reads (ExtendedMantissa.ofMantissaAndAccuracy (m / m') (accuracyOfFraction (m % m') m'))
      (m / m' : ℚ) := by
  have hcast : (0 : ℚ) < m' := Nat.cast_pos.2 hm'
  have hdiv : (m : ℚ) = m' * (m / m' : Nat) + (m % m' : Nat) := by
    exact_mod_cast (Nat.div_add_mod m m').symm
  have hquotient : (m / m' : ℚ) = (m / m' : Nat) + (m % m' : Nat) / m' := by
    rw [div_eq_iff hcast.ne', add_mul, div_mul_cancel₀ _ hcast.ne', mul_comm, ← hdiv]
  rw [accuracyOfFraction, hquotient]
  split_ifs with h
  · rw [h, Nat.cast_zero, zero_div, add_zero]
    exact reads_exact _
  · have hpos : (0 : ℚ) < (m % m' : Nat) / m' :=
      div_pos (Nat.cast_pos.2 (Nat.pos_of_ne_zero h)) hcast
    have hlt : ((m % m' : Nat) : ℚ) / m' < 1 :=
      (div_lt_one₀ hcast).2 (Nat.cast_lt.2 (Nat.mod_lt m hm'))
    generalize (m / m' : Nat) = n
    generalize m % m' = r at hpos hlt
    rcases lt_trichotomy (2 * r) m' with hhalf | rfl | hhalf
    · have hfraction : (r : ℚ) / m' < 1 / 2 := by
        rw [div_lt_div_iff₀ hcast two_pos]
        exact_mod_cast by omega
      rw [compare_lt_iff_lt.2 hhalf]
      show (n : ℚ) + 0 < n + r / m' ∧ (n : ℚ) + r / m' < n + 0 + 1 / 2
      constructor <;> linarith
    · have hfraction : (r : ℚ) / (2 * r : Nat) = 1 / 2 := by
        rw [div_eq_div_iff hcast.ne' two_ne_zero]
        push_cast
        ring
      rw [compare_eq_iff_eq.2 rfl]
      exact congrArg _ hfraction
    · have hfraction : 1 / 2 < (r : ℚ) / m' := by
        rw [div_lt_div_iff₀ two_pos hcast]
        exact_mod_cast by omega
      rw [compare_gt_iff_gt.2 hhalf]
      show (n : ℚ) + 1 / 2 < n + r / m' ∧ (n : ℚ) + r / m' < n + 1 / 2 + 1 / 2
      constructor <;> linarith

theorem signedBy_div (s s' : Sign) (a b : ℚ) :
    signedBy (s / s') (a / b) = signedBy s a / signedBy s' b := by
  cases s <;> cases s' <;> simp only [signedBy, neg_div, div_neg, neg_neg] <;> rfl

theorem magnitude_div (m m' : Nat) {e e' t : Int} {d : Nat} (hd : (d : Int) = e - e' - t) :
    ((m <<< d : Nat) : ℚ) / m' * 2 ^ t = magnitude m e / magnitude m' e' := by
  have hexp : t = (e - d) - e' := by omega
  rw [hexp, zpow_sub₀ two_ne_zero, div_mul_div_comm, magnitude_shiftLeft m e d]
  rfl

theorem nearest_quotient (s : Sign) {m m' : Nat} (hm : 0 < m) (hm' : 0 < m') (e e' : Int) :
    RoundsNearest (packed? (roundWithAccuracy Format.binary64 s
        (divCore Format.binary64 m e m' e').1 (divCore Format.binary64 m e m' e').2.1
        (divCore Format.binary64 m e m' e').2.2))
      (signedBy s (magnitude m e / magnitude m' e')) := by
  have hd :
      ((e - e' - quotientPlace m e m' e').toNat : Int) = e - e' - quotientPlace m e m' e' := by
    rw [quotientPlace]
    omega
  rw [divCore_eq, ← magnitude_div m m' hd]
  exact nearest_roundWithAccuracy s (reads_quotient hm') (quotientPlace_le hm hm' rfl)

theorem nearest_div
    (ha : at? x = some a) (hb : at? y = some b) (hx : |a| < horizon) (hy : |b| < horizon)
    (hne : b ≠ 0) : RoundsNearest (at? (x / y)) (a / b) := by
  show RoundsNearest (packed? (UnpackedFloat.div Format.binary64 (parts x) (parts y))) _
  rcases finite_cases hb hy with ⟨s', hs', rfl⟩ | ⟨s', m', e', hm', hs', hc', rfl⟩
  · exact absurd rfl hne
  · rcases finite_cases ha hx with ⟨s, hs, rfl⟩ | ⟨s, m, e, hm, hs, hc, rfl⟩ <;> rw [hs, hs']
    · rw [zero_div]
      exact nearest_zero _
    · rw [← signedBy_div]
      exact nearest_quotient _ hm hm' e e'

theorem canonical_neg {u : UnpackedFloat} (h : Canonical u) : Canonical u.neg := by
  cases u <;> exact h

theorem signedBy_neg (s : Sign) (a : ℚ) : signedBy (-s) a = -signedBy s a := by
  cases s with
  | negative => exact (neg_neg a).symm
  | positive => rfl

theorem place?_neg (u : UnpackedFloat) : place? u.neg = (place? u).map (-·) := by
  cases u with
  | notANumber => rfl
  | infinity s => exact congrArg some (signedBy_neg s _)
  | zero s => exact congrArg some neg_zero.symm
  | finite s m e hm => exact congrArg some (signedBy_neg s _)

theorem parts_neg (x : Float) : parts (-x) = (parts x).neg :=
  unpack_pack_of_canonical (canonical_neg (canonical_parts x))

theorem at?_neg (x : Float) : at? (-x) = (at? x).map (-·) := by
  rw [at?, parts_neg, place?_neg, at?]

theorem nearest_neg (h : RoundsNearest (at? x) a) : RoundsNearest (at? (-x)) (-a) := by
  rw [at?_neg]
  exact h.neg

/-- A difference is the sum with the other sign. -/
theorem parts_sub (x y : Float) : parts (x - y) = parts (x + -y) := by
  show unpack Format.binary64 (pack Format.binary64 (UnpackedFloat.sub _ (parts x) (parts y))) =
    unpack Format.binary64 (pack Format.binary64 (UnpackedFloat.add _ (parts x) (parts (-y))))
  rw [sub_eq, parts_neg]

theorem nearest_sub
    (ha : at? x = some a) (hb : at? y = some b) (hx : |a| < horizon) (hy : |b| < horizon) :
    RoundsNearest (at? (x - y)) (a - b) := by
  have hneg : at? (-y) = some (-b) := by rw [at?_neg, hb, Option.map_some]
  rw [at?, parts_sub, ← at?, sub_eq_add_neg]
  exact nearest_add ha hneg hx (by rwa [abs_neg])

theorem nearest_toFloat (n : UInt64) : RoundsNearest (at? n.toFloat) n.toNat := by
  have h := nearest_normalize n.toNat 0
  rwa [zpow_zero, mul_one, Int.cast_natCast] at h

theorem natCast_lt_horizon {n k : Nat} (hn : n < 2 ^ k) (hk : k ≤ 1024) : (n : ℚ) < horizon := by
  have h := magnitude_lt_horizon_of_lt hn (e := 0) (by omega)
  rwa [magnitude, zpow_zero, mul_one] at h

theorem onGrid_natCast {n : Nat} (h : n < 2 ^ 53) : OnGrid n := by
  refine ⟨?_, n, 0, by rw [Nat.abs_cast]; exact_mod_cast h, by decide, by simp⟩
  rw [Nat.abs_cast]
  exact (natCast_lt_horizon h (by decide)).le

theorem at?_one : at? 1.0 = some 1 := by
  have hparts : parts 1.0 = .finite .positive (2 ^ 52) (-52) (by decide) := rfl
  rw [at?, hparts, place?_finite, signedBy, magnitude]
  norm_num

theorem ofNat_of_lt {n : Nat} (h : n < 2 ^ 53) :
    Float.ofNat n = n.toUInt64.toFloat * 1.0 :=
  dif_pos ⟨h, by decide⟩

theorem at?_ofNat_of_ge {n : Nat} (h : 2 ^ 53 ≤ n) :
    at? (Float.ofNat n) =
      packed? (roundWithAccuracy Format.binary64 .positive (n <<< 53) (-53) .exact) := by
  have hn : ¬(n < 2 ^ 53 ∧ 0 ≤ 22) := by omega
  have hofNat : Float.ofNat n = ⟨Float.Model.ofScientific n 0⟩ := dif_neg hn
  have hsmall : ¬ (0 : Int) < -(2 ^ 11 + n.log2) := by omega
  rw [hofNat]
  show packed? (UnpackedFloat.ofScientific Format.binary64 n 0) = _
  rw [UnpackedFloat.ofScientific, dif_neg (by omega), if_neg (by decide), if_neg hsmall,
    if_pos (by decide)]
  show packed? (roundWithAccuracy Format.binary64 .positive ((n <<< 53) * 1) (-53) .exact) = _
  rw [Nat.mul_one]

/-- A natural number goes to the nearest place. -/
theorem nearest_ofNat (n : Nat) : RoundsNearest (at? (Float.ofNat n)) n := by
  by_cases h : n < 2 ^ 53
  · have hword : n.toUInt64.toNat = n := by
      rw [UInt64.toNat_ofNat', Nat.mod_eq_of_lt (by omega)]
    have hn := (nearest_toFloat n.toUInt64).rounds.eq_of_onGrid (hword.symm ▸ onGrid_natCast h)
    rw [hword] at hn
    have hlt : |(n : ℚ)| < horizon := by
      rw [Nat.abs_cast]
      exact natCast_lt_horizon h (by decide)
    have hone : |(1 : ℚ)| < horizon := by
      rw [abs_one]
      exact_mod_cast natCast_lt_horizon (n := 1) (k := 1) (by decide) (by decide)
    rw [ofNat_of_lt h, ← mul_one (n : ℚ)]
    exact nearest_mul hn at?_one hlt hone
  · have hle : (-53 : Int) ≤ lastPlace (n <<< 53) (-53) := by
      have hplace : lastPlace (n <<< 53) (-53) = lastPlace n 0 :=
        excess_shiftLeft (by omega) 0 53
      have hzero : -52 ≤ lastPlace n 0 := by
        rw [lastPlace]
        omega
      omega
    have hvalue : ((n <<< 53 : Nat) : ℚ) * 2 ^ (0 - ((53 : Nat) : Int)) = n := by
      rw [magnitude_shiftLeft n 0 53, magnitude, zpow_zero, mul_one]
    rw [at?_ofNat_of_ge (Nat.le_of_not_lt h), ← hvalue]
    exact nearest_roundWithAccuracy .positive (reads_exact _) hle

/-- An integer goes to the nearest place. -/
theorem nearest_ofInt (n : Int) : RoundsNearest (at? (Float.ofInt n)) n := by
  cases n with
  | ofNat n => exact nearest_ofNat n
  | negSucc n =>
      rw [Int.negSucc_eq, Int.cast_neg]
      exact nearest_neg (nearest_ofNat (n + 1))

end Operations

end FloatParts

end Allotment
