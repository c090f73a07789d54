import Allotment.Draw
import Allotment.Proofs.Float.Limits

/-!
# Weighted draws

A weighted draw takes the first position whose running total reaches the stop, a number between
zero and the total of the weights.  The running total moves only where a weight is positive, so a
position with the weight zero is not the first one to reach a positive stop.

Other stops come from rounding.  The stop is zero for the least hash, and where the product of the
total and the fraction is too small for a floating-point number; then the first position is drawn,
whatever its weight.  It is no number if the total is infinite and the hash is zero; then the last
position is drawn.

**Results.**
* `Draw.weighted_of_ok`: what comes of weights that are in order.
* `Draw.total_pos_iff`: the total is positive exactly if some weight is.
* `Draw.weighted_positive_iff`: when the weight of the drawn position is positive.
-/

namespace Allotment

namespace Draw

open FloatParts

/-- The total of the weights, added up from the first one on. -/
def total (weights : List Float) : Float := weights.foldl (· + ·) 0.0

/-- The number that the running totals have to reach. -/
def stop (h : Nat) (weights : List Float) : Float := uniform h 0.0 (total weights)

section Totals

variable {ws : List Float} {acc w s : Float} {a p : ℚ}

theorem weightOk_iff : weightOk w = true ↔ ∃ a, at? w = some a ∧ 0 ≤ a ∧ a < horizon := by
  have hsplit : weightOk w = true ↔ Binary64.IsFinite w ∧ ¬ w < 0.0 := by
    rw [weightOk, Bool.and_eq_true, decide_eq_true_iff, Bool.not_eq_true', decide_eq_false_iff_not]
  rw [hsplit, isFinite_iff_at?]
  constructor
  · rintro ⟨⟨a, ha, hlt⟩, hneg⟩
    exact ⟨a, ha, not_lt.1 (mt (lt_iff ha at?_zero).2 hneg), (le_abs_self a).trans_lt hlt⟩
  · rintro ⟨a, ha, hnonneg, hlt⟩
    exact ⟨⟨a, ha, by rwa [abs_of_nonneg hnonneg]⟩, mt (lt_iff ha at?_zero).1 (not_lt.2 hnonneg)⟩

theorem getLast?_cumulative (acc : Float) {ws : List Float} (hne : ws ≠ []) :
    (cumulative acc ws).getLast? = some (ws.foldl (· + ·) acc) := by
  induction ws generalizing acc with
  | nil => exact absurd rfl hne
  | cons w rest ih =>
      rw [cumulative, List.foldl_cons]
      cases rest with
      | nil => rfl
      | cons w' rest =>
          rw [cumulative, List.getLast?_cons_cons, ← cumulative, ih _ (List.cons_ne_nil w' rest)]

/-- Running totals do not fall, and reach every weight. -/
theorem at?_foldl
    (hacc : at? acc = some p) (hp : 0 ≤ p) (hok : ∀ w ∈ ws, weightOk w = true) :
    ∃ q, at? (ws.foldl (· + ·) acc) = some q ∧ p ≤ q ∧ ∀ w ∈ ws, ∀ a ∈ at? w, a ≤ q := by
  induction ws generalizing acc p with
  | nil => exact ⟨p, hacc, le_rfl, fun w hw => absurd hw (List.not_mem_nil)⟩
  | cons w rest ih =>
      obtain ⟨a, ha, hnonneg, hlt⟩ := weightOk_iff.1 (hok w List.mem_cons_self)
      obtain ⟨p', hp', hpp', hap'⟩ := at?_add_of_nonneg hacc ha hp hnonneg hlt
      obtain ⟨q, hq, hpq, hall⟩ :=
        ih hp' (hp.trans hpp') fun w hw => hok w (List.mem_cons_of_mem _ hw)
      refine ⟨q, hq, hpp'.trans hpq, fun w' hw' b hb => ?_⟩
      rcases List.mem_cons.1 hw' with rfl | hmem
      · cases Option.mem_unique ha hb
        exact hap'.trans hpq
      · exact hall w' hmem b hb

theorem at?_foldl_of_zeros (hzero : ∀ w ∈ ws, at? w = some 0) :
    at? (ws.foldl (· + ·) acc) = at? acc := by
  induction ws generalizing acc with
  | nil => rfl
  | cons w rest ih =>
      rw [List.foldl_cons, ih fun w hw => hzero w (List.mem_cons_of_mem _ hw),
        at?_add_zero (hzero w List.mem_cons_self)]

theorem at?_total (hok : ∀ w ∈ ws, weightOk w = true) :
    ∃ q, at? (total ws) = some q ∧ 0 ≤ q ∧ ∀ w ∈ ws, ∀ a ∈ at? w, a ≤ q :=
  at?_foldl at?_zero le_rfl hok

/-- The total is positive exactly if some weight is. -/
theorem total_pos_iff (hok : ∀ w ∈ ws, weightOk w = true) :
    0.0 < total ws ↔ ∃ w ∈ ws, 0.0 < w := by
  obtain ⟨q, hq, hnonneg, hall⟩ := at?_total hok
  rw [lt_iff at?_zero hq]
  constructor
  · intro hpos
    by_contra hnone
    have hzero : ∀ w ∈ ws, at? w = some 0 := by
      intro w hw
      obtain ⟨a, ha, ha', -⟩ := weightOk_iff.1 (hok w hw)
      have : ¬ 0 < a := fun h => hnone ⟨w, hw, (lt_iff at?_zero ha).2 h⟩
      rw [ha, le_antisymm (not_lt.1 this) ha']
    have := hq.symm.trans ((at?_foldl_of_zeros hzero).trans at?_zero)
    exact hpos.ne' (Option.some.inj this)
  · rintro ⟨w, hw, hpos⟩
    obtain ⟨a, ha, -⟩ := weightOk_iff.1 (hok w hw)
    exact ((lt_iff at?_zero ha).1 hpos).trans_le (hall w hw a ha)

/-- A stop that is not reached before the weights is reached where a weight is not zero. -/
theorem reached_at_weight
    {i : Nat} {t : ℚ} (hs : at? s = some t) (hacc : at? acc = some p) (hp : 0 ≤ p) (hlt : p < t)
    (hok : ∀ w ∈ ws, weightOk w = true)
    (hi : (cumulative acc ws).findIdx? (fun c => s ≤ c) = some i) :
    ∃ w, ws[i]? = some w ∧ 0.0 < w := by
  -- As long as nothing is found the running total stays below the stop.
  induction ws generalizing acc p i with
  | nil => cases hi
  | cons w rest ih =>
      obtain ⟨a, ha, hnonneg, hfin⟩ := weightOk_iff.1 (hok w List.mem_cons_self)
      obtain ⟨p', hp', hpp', -⟩ := at?_add_of_nonneg hacc ha hp hnonneg hfin
      rw [cumulative, List.findIdx?_cons] at hi
      by_cases hreached : s ≤ acc + w
      · rw [if_pos (decide_eq_true hreached)] at hi
        cases hi
        refine ⟨w, rfl, (lt_iff at?_zero ha).2 (hnonneg.lt_of_ne ?_)⟩
        -- A zero weight would have left the running total where it was.
        rintro rfl
        rw [at?_add_zero ha, hacc] at hp'
        cases hp'
        exact absurd ((le_iff hs ((at?_add_zero ha).trans hacc)).1 hreached) (not_le.2 hlt)
      · rw [if_neg (mt of_decide_eq_true hreached)] at hi
        obtain ⟨j, hj, rfl⟩ := Option.map_eq_some_iff.1 hi
        have hlt' : p' < t := not_le.1 (mt (le_iff hs hp').2 hreached)
        exact ih hp' (hp.trans hpp') hlt' (fun w hw => hok w (List.mem_cons_of_mem _ hw)) hj

end Totals

section Stops

variable {h : Nat} {ws : List Float} {q : ℚ}

theorem at?_top : at? (Float.ofNat top) = some (2 ^ (60 : Int)) := by
  have hparts : parts (Float.ofNat top) = .finite .positive (2 ^ 52) 8 (by decide) := rfl
  rw [at?, hparts, place?_finite, signedBy, magnitude]
  norm_num

/-- The fraction lies between zero and one; it is zero for the least hash only, and otherwise at
least the share of one hash. -/
theorem at?_fraction (hh : h ≤ top) :
    ∃ f, at? (fraction h) = some f ∧ 0 ≤ f ∧ f ≤ 1 ∧ (h = 0 → f = 0) ∧
      (h ≠ 0 → 2 ^ (-60 : Int) ≤ f) := by
  have hpow : (0 : ℚ) < 2 ^ (60 : Int) := zpow_pos two_pos _
  have hgrid : OnGrid (2 ^ (60 : Int)) := onGrid_two_zpow (by decide) (by decide)
  have hcast : (h : ℚ) ≤ 2 ^ (60 : Int) := by
    have : h ≤ 2 ^ 60 := hh.trans (by decide)
    exact_mod_cast this
  obtain ⟨n, hn, hbetween⟩ := (nearest_ofNat h).rounds
  have hn0 : 0 ≤ n := (hbetween 0 onGrid_zero).1 (Nat.cast_nonneg h)
  have hn1 : n ≤ 2 ^ (60 : Int) := (hbetween _ hgrid).2 hcast
  have hlt : (2 : ℚ) ^ (60 : Int) < horizon := two_zpow_lt_horizon (by decide)
  obtain ⟨f, hf, hbetween'⟩ := (nearest_div hn at?_top
    (by rw [abs_of_nonneg hn0]; exact hn1.trans_lt hlt) (by rwa [abs_of_pos hpow]) hpow.ne').rounds
  refine ⟨f, hf, (hbetween' 0 onGrid_zero).1 (div_nonneg hn0 hpow.le),
    (hbetween' 1 onGrid_one).2 ((div_le_one₀ hpow).2 hn1), ?_, ?_⟩
  · rintro rfl
    have hn' : n = 0 := le_antisymm ((hbetween 0 onGrid_zero).2 (by rw [Nat.cast_zero])) hn0
    rw [hn', zero_div] at hbetween'
    exact le_antisymm ((hbetween' 0 onGrid_zero).2 le_rfl) ((hbetween' 0 onGrid_zero).1 le_rfl)
  · intro hne
    have hn' : 1 ≤ n := (hbetween 1 onGrid_one).1 (by exact_mod_cast Nat.one_le_iff_ne_zero.2 hne)
    refine (hbetween' _ (onGrid_two_zpow (by decide) (by decide))).1 ?_
    rw [zpow_neg, ← one_div]
    exact div_le_div_of_nonneg_right hn' hpow.le

theorem at?_stop (h : Nat) (ws : List Float) :
    at? (stop h ws) = at? ((total ws - 0.0) * fraction h) :=
  at?_zero_add at?_zero

/-- With a finite total the stop lies between zero and the total, and it is positive unless the
hash is zero or the total tiny. -/
theorem at?_stop_of_finite
    (hh : h ≤ top) (hq : at? (total ws) = some q) (hnonneg : 0 ≤ q) (hlt : q < horizon) :
    ∃ t, at? (stop h ws) = some t ∧ 0 ≤ t ∧ t ≤ q ∧
      (h ≠ 0 → 2 ^ (-1014 : Int) ≤ q → 0 < t) := by
  obtain ⟨f, hf, hf0, hf1, -, hfpos⟩ := at?_fraction hh
  have hleast : OnGrid (2 ^ (-1074 : Int)) := onGrid_two_zpow (by decide) (by decide)
  have hq' : at? (total ws - 0.0) = some q := (at?_sub_zero at?_zero).trans hq
  obtain ⟨t, ht, hbetween⟩ := (nearest_mul hq' hf (by rwa [abs_of_nonneg hnonneg])
    (by rw [abs_of_nonneg hf0]; exact hf1.trans_lt one_lt_horizon)).rounds
  refine ⟨t, (at?_stop h ws).trans ht, (hbetween 0 onGrid_zero).1 (mul_nonneg hnonneg hf0),
    (hbetween q (onGrid_of_place? (canonical_parts _) hq)).2 (mul_le_of_le_one_right hnonneg hf1),
    fun hne hlarge => ?_⟩
  refine (zpow_pos two_pos (-1074)).trans_le ((hbetween _ hleast).1 ?_)
  calc (2 : ℚ) ^ (-1074 : Int) = 2 ^ (-1014 : Int) * 2 ^ (-60 : Int) := by
        rw [← zpow_add₀ two_ne_zero]
        rfl
    _ ≤ q * f := mul_le_mul hlarge (hfpos hne) (zpow_pos two_pos _).le hnonneg

/-- With an infinite total the stop is infinite, or no number if the hash is zero. -/
theorem at?_stop_of_infinite (hh : h ≤ top) (hq : at? (total ws) = some horizon) :
    at? (stop h ws) = if h = 0 then none else some horizon := by
  obtain ⟨f, hf, -, hf1, hfzero, hfpos⟩ := at?_fraction hh
  have hq' : at? (total ws - 0.0) = some horizon := (at?_sub_zero at?_zero).trans hq
  rw [at?_stop]
  by_cases hne : h = 0
  · rw [if_pos hne]
    rw [hfzero hne] at hf
    exact at?_horizon_mul_zero hq' hf
  · rw [if_neg hne]
    exact at?_horizon_mul hq' hf ((zpow_pos two_pos _).trans_le (hfpos hne))
      (hf1.trans_lt one_lt_horizon)

/-- The stop, if it is a number, lies between zero and the total. -/
theorem at?_stop_bounds
    (hh : h ≤ top) (hq : at? (total ws) = some q) (hnonneg : 0 ≤ q) :
    (∀ t, at? (stop h ws) = some t → 0 ≤ t ∧ t ≤ q) ∧
      (h ≠ 0 → 2 ^ (-1014 : Int) ≤ q → ∃ t, at? (stop h ws) = some t ∧ 0 < t) := by
  have hle : q ≤ horizon := (le_abs_self q).trans (abs_le_horizon hq)
  rcases hle.lt_or_eq with hlt | rfl
  · obtain ⟨t, ht, ht0, htq, hpos⟩ := at?_stop_of_finite hh hq hnonneg hlt
    refine ⟨fun t' ht' => ?_, fun hne hlarge => ⟨t, ht, hpos hne hlarge⟩⟩
    cases ht.symm.trans ht'
    exact ⟨ht0, htq⟩
  · have hstop := at?_stop_of_infinite hh hq
    refine ⟨fun t ht => ?_, fun hne _ => ⟨horizon, by rw [hstop, if_neg hne], horizon_pos⟩⟩
    rw [hstop] at ht
    split_ifs at ht
    cases ht
    exact ⟨hnonneg, le_rfl⟩

end Stops

section Positions

variable {h : Nat} {ws : List Float}

/-- What comes of weights that are in order. -/
theorem weighted_of_ok (hne : ws ≠ []) (hok : ∀ w ∈ ws, weightOk w = true) :
    weighted h ws =
      if total ws ≤ 0.0 then .error (.invalidOperator .noPositiveWeight)
      else .ok (((cumulative 0.0 ws).findIdx? fun c => stop h ws ≤ c).getD (ws.length - 1)) := by
  have hnone : ws.find? (fun w => !weightOk w) = none :=
    List.find?_eq_none.2 fun w hw => by rw [hok w hw]; decide
  have hsum : (cumulative 0.0 ws).getLast?.getD 0.0 = total ws := by
    rw [getLast?_cumulative 0.0 hne]
    rfl
  rw [weighted, if_neg hne, hnone]
  show (if (cumulative 0.0 ws).getLast?.getD 0.0 ≤ 0.0 then _
    else Except.ok (((cumulative 0.0 ws).findIdx? fun c =>
      uniform h 0.0 ((cumulative 0.0 ws).getLast?.getD 0.0) ≤ c).getD _)) = _
  rw [hsum]
  rfl

/-- A weight that is negative or not finite is refused. -/
theorem weighted_of_bad (hbad : ∃ w ∈ ws, weightOk w ≠ true) :
    ∃ w, weighted h ws = .error (.invalidOperator (.badWeight w)) := by
  obtain ⟨w, hw, hwbad⟩ := hbad
  have hfind : (ws.find? fun w => !weightOk w).isSome := by
    rw [List.find?_isSome]
    exact ⟨w, hw, by rwa [Bool.not_eq_true', ← Bool.not_eq_true]⟩
  obtain ⟨w', hw'⟩ := Option.isSome_iff_exists.1 hfind
  rw [weighted, if_neg (List.ne_nil_of_mem hw), hw']
  exact ⟨w', rfl⟩

theorem total_le_zero_iff (hok : ∀ w ∈ ws, weightOk w = true) :
    total ws ≤ 0.0 ↔ ¬ 0.0 < total ws := by
  obtain ⟨q, hq, -⟩ := at?_total hok
  rw [le_iff hq at?_zero, lt_iff at?_zero hq, not_lt]

theorem weighted_of_positive
    (hne : ws ≠ []) (hok : ∀ w ∈ ws, weightOk w = true) (hpos : 0.0 < total ws) :
    weighted h ws =
      .ok (((cumulative 0.0 ws).findIdx? fun c => stop h ws ≤ c).getD (ws.length - 1)) := by
  rw [weighted_of_ok hne hok, if_neg fun hle => (total_le_zero_iff hok).1 hle hpos]

/-- A positive stop leads to a position with a positive weight. -/
theorem weighted_of_stop_pos
    (hne : ws ≠ []) (hok : ∀ w ∈ ws, weightOk w = true) (hpos : 0.0 < total ws)
    (hstop : 0.0 < stop h ws) (hle : stop h ws ≤ total ws) :
    ∃ i w, weighted h ws = .ok i ∧ ws[i]? = some w ∧ 0.0 < w := by
  have hlast : total ws ∈ cumulative 0.0 ws :=
    List.mem_of_getLast? (getLast?_cumulative 0.0 hne)
  obtain ⟨i, hi⟩ : ∃ i, (cumulative 0.0 ws).findIdx? (fun c => stop h ws ≤ c) = some i :=
    Option.isSome_iff_exists.1
      (List.findIdx?_isSome.trans (List.any_eq_true.2 ⟨_, hlast, decide_eq_true hle⟩))
  obtain ⟨⟨t, ht⟩, -⟩ := exists_place_of_le hle
  have htpos := (lt_iff at?_zero ht).1 hstop
  obtain ⟨w, hw, hwpos⟩ := reached_at_weight ht at?_zero le_rfl htpos hok hi
  refine ⟨i, w, ?_, hw, hwpos⟩
  rw [weighted_of_positive hne hok hpos, hi]
  rfl

/-- A stop of zero leads to the first position. -/
theorem weighted_of_stop_zero
    (hne : ws ≠ []) (hok : ∀ w ∈ ws, weightOk w = true) (hpos : 0.0 < total ws)
    (hstop : at? (stop h ws) = some 0) : weighted h ws = .ok 0 := by
  obtain ⟨w, rest, rfl⟩ := List.exists_cons_of_ne_nil hne
  obtain ⟨a, ha, hnonneg, -⟩ := weightOk_iff.1 (hok w List.mem_cons_self)
  have hfirst : stop h (w :: rest) ≤ 0.0 + w :=
    (le_iff hstop ((at?_zero_add at?_zero).trans ha)).2 hnonneg
  rw [weighted_of_positive hne hok hpos, cumulative, List.findIdx?_cons,
    if_pos (decide_eq_true hfirst)]
  rfl

/-- A stop that is no number leads to the last position. -/
theorem weighted_of_stop_none
    (hne : ws ≠ []) (hok : ∀ w ∈ ws, weightOk w = true) (hpos : 0.0 < total ws)
    (hstop : at? (stop h ws) = none) : weighted h ws = .ok (ws.length - 1) := by
  have hnever : (cumulative 0.0 ws).findIdx? (fun c => stop h ws ≤ c) = none := by
    refine List.findIdx?_eq_none_iff.2 fun c _ => decide_eq_false fun hle => ?_
    obtain ⟨⟨t, ht⟩, -⟩ := exists_place_of_le hle
    cases hstop.symm.trans ht
  rw [weighted_of_positive hne hok hpos, hnever]
  rfl

/-- The weight of the drawn position is positive exactly if the stop is positive, or it is zero and
the first weight is positive, or it is neither and the last weight is positive.  Only for the hash
zero, or with a total below the product of the smallest positive number and the number of hashes,
the stop is not positive. -/
theorem weighted_positive_iff
    (hh : h ≤ top) (hne : ws ≠ []) (hok : ∀ w ∈ ws, weightOk w = true) (hpos : 0.0 < total ws) :
    ∃ i w, weighted h ws = .ok i ∧ ws[i]? = some w ∧
      (0.0 < w ↔ 0.0 < stop h ws ∨ (stop h ws ≤ 0.0 ∧ 0.0 < ws.head hne) ∨
        (¬ 0.0 < stop h ws ∧ ¬ stop h ws ≤ 0.0 ∧ 0.0 < ws.getLast hne)) ∧
      ∀ q ∈ at? (total ws), h ≠ 0 → 2 ^ (-1014 : Int) ≤ q → 0.0 < stop h ws := by
  obtain ⟨q, hq, hq0, -⟩ := at?_total hok
  obtain ⟨hbounds, hlarge⟩ := at?_stop_bounds hh hq hq0
  have hmargin : ∀ q' ∈ at? (total ws), h ≠ 0 → 2 ^ (-1014 : Int) ≤ q' → 0.0 < stop h ws := by
    intro q' hq' h0 hle
    cases Option.mem_unique hq hq'
    obtain ⟨t, ht, htpos⟩ := hlarge h0 hle
    exact (lt_iff at?_zero ht).2 htpos
  cases hstop : at? (stop h ws) with
  | none =>
      have hle : ¬ stop h ws ≤ 0.0 := by
        intro hle
        obtain ⟨⟨t, ht⟩, -⟩ := exists_place_of_le hle
        cases hstop.symm.trans ht
      have hlt : ¬ 0.0 < stop h ws := by
        intro hlt
        obtain ⟨-, t, ht⟩ := exists_place_of_le (le_of_lt hlt)
        cases hstop.symm.trans ht
      refine ⟨_, ws.getLast hne, weighted_of_stop_none hne hok hpos hstop, ?_, ?_, hmargin⟩
      · rw [← List.getLast?_eq_getElem?, List.getLast?_eq_some_getLast hne]
      · exact ⟨fun h => .inr (.inr ⟨hlt, hle, h⟩), fun h =>
          (h.resolve_left hlt).elim (fun h => absurd h.1 hle) (fun h => h.2.2)⟩
  | some t =>
      obtain ⟨ht0, htq⟩ := hbounds t hstop
      rcases ht0.lt_or_eq with htpos | rfl
      · have hlt : 0.0 < stop h ws := (lt_iff at?_zero hstop).2 htpos
        obtain ⟨i, w, hi, hw, hwpos⟩ :=
          weighted_of_stop_pos hne hok hpos hlt ((le_iff hstop hq).2 htq)
        exact ⟨i, w, hi, hw, ⟨fun _ => .inl hlt, fun _ => hwpos⟩, hmargin⟩
      · have hle : stop h ws ≤ 0.0 := (le_iff hstop at?_zero).2 le_rfl
        have hlt : ¬ 0.0 < stop h ws := mt (lt_iff at?_zero hstop).1 (lt_irrefl 0)
        refine ⟨0, ws.head hne, weighted_of_stop_zero hne hok hpos hstop, ?_, ?_, hmargin⟩
        · rw [← List.head?_eq_getElem?, List.head?_eq_some_head hne]
        · exact ⟨fun h => .inr (.inl ⟨hle, h⟩), fun h =>
            (h.resolve_left hlt).elim (fun h => h.2) (fun h => absurd hle h.2.1)⟩

/-- Of one positive weight between two that are zero the positive one is drawn. -/
theorem weighted_between_zeros :
    ∃ i w, weighted 1 [0.0, 1.0, 0.0] = .ok i ∧ [0.0, 1.0, 0.0][i]? = some w ∧ 0.0 < w := by
  obtain ⟨i, w, hi, hw, hiff, -⟩ := @weighted_positive_iff 1 [0.0, 1.0, 0.0]
    (by decide) (List.cons_ne_nil _ _) (by decide) (by decide)
  exact ⟨i, w, hi, hw, hiff.2 (.inl (by decide +kernel))⟩

/-- Half of the smallest positive number is rounded to zero, so a zero weight in front of it is
drawn. -/
theorem zero_weight_drawn :
    ¬ ∀ (h : Nat) (ws : List Float), h ≤ top → ws ≠ [] → (∀ w ∈ ws, weightOk w = true) →
      0.0 < total ws → ∃ i w, weighted h ws = .ok i ∧ ws[i]? = some w ∧ 0.0 < w := by
  intro hall
  obtain ⟨i, w, hi, hw, hpos⟩ := hall 402830609758588386 [0.0, Float.ofBits 1] (by decide)
    (List.cons_ne_nil _ _) (by decide) (by decide)
  have hfirst : ((cumulative 0.0 [0.0, Float.ofBits 1]).findIdx? fun c =>
      stop 402830609758588386 [0.0, Float.ofBits 1] ≤ c).getD 1 = 0 := by decide +kernel
  have hzero : weighted 402830609758588386 [0.0, Float.ofBits 1] = .ok 0 :=
    (weighted_of_positive (List.cons_ne_nil _ _) (by decide) (by decide)).trans
      (congrArg Except.ok hfirst)
  cases hi.symm.trans hzero
  cases hw
  exact absurd hpos (by decide)

end Positions

end Draw

end Allotment
