import Allotment.Eval
import Allotment.Proofs.Quantity
import Allotment.Proofs.Stateful
import Mathlib.Algebra.BigOperators.Group.List.Basic

/-!
# Sums and products of integers

A sum or a product of signed integers is computed exactly as long as what has been added up or
multiplied so far fits into a signed word.  From the first result that does not, the computation
goes on in floating point and never comes back, even if the later results fit again.  So it is
exact in the given order if the result of no prefix overflows, and in every order if that of no
selection of the numbers does.

**Results.**
* `Operand.foldl_combine_eq_int_iff`: when a computation stays exact.
* `Aggregate.exact_iff`: when sums and products of integers are exact, in one order and in all.
-/

namespace Allotment

/-- The integer fits into a signed word. -/
def FitsSigned (n : Int) : Prop := -0x8000000000000000 ≤ n ∧ n < 0x8000000000000000

namespace Operand

variable {onInts : Int → Int → Int} {onFloats : Float → Float → Float}

theorem exactOr_of_fits {n : Int} (h : FitsSigned n) (x : Float) :
    exactOr n x = .int ⟨n, h.1, h.2⟩ := by
  have hsome : Bounded.ofInt? (-0x8000000000000000) 0x8000000000000000 n = some ⟨n, h.1, h.2⟩ :=
    Bounded.ofInt?_eq_some_iff.2 rfl
  rw [exactOr, hsome]

theorem exactOr_of_not_fits {n : Int} (h : ¬ FitsSigned n) (x : Float) :
    exactOr n x = .float x := by
  have hnone : Bounded.ofInt? (-0x8000000000000000) 0x8000000000000000 n = none := by
    rw [Bounded.ofInt?_eq_none_iff]
    by_contra hin
    exact h ⟨by omega, by omega⟩
  rw [exactOr, hnone]

/-- A computation in floating point never comes back to the integers. -/
theorem foldl_combine_float
    (onInts : Int → Int → Int) (onFloats : Float → Float → Float) (x : Float)
    (ns : List Operand) :
    ∃ y, ns.foldl (combine onInts onFloats) (.float x) = .float y := by
  induction ns generalizing x with
  | nil => exact ⟨x, rfl⟩
  | cons n rest ih =>
      rw [List.foldl_cons]
      exact ih _

/-- What an integer operation makes of the integers, one after the other. -/
def total (onInts : Int → Int → Int) (start : Int) (ns : List Signed) : Int :=
  ns.foldl (fun m n => onInts m n.val) start

/-- A computation ends with an integer exactly if the result of no prefix overflows, and then the
integer is exact. -/
theorem foldl_combine_eq_int_iff (m : Signed) (ns : List Signed) (s : Signed) :
    (ns.map int).foldl (combine onInts onFloats) (.int m) = .int s ↔
      s.val = total onInts m.val ns ∧ ∀ p, p <+: ns → FitsSigned (total onInts m.val p) := by
  induction ns generalizing m with
  | nil =>
      have hfits : FitsSigned m.val := ⟨m.lo_le, m.lt_hi⟩
      constructor
      · intro h
        cases h
        refine ⟨rfl, fun p hp => ?_⟩
        rw [List.prefix_nil.1 hp]
        exact hfits
      · rintro ⟨hs, -⟩
        obtain ⟨n, hlow, hhigh⟩ := s
        cases hs
        rfl
  | cons n rest ih =>
      have hprefixes : (∀ p, p <+: n :: rest → FitsSigned (total onInts m.val p)) ↔
          FitsSigned m.val ∧
            ∀ p, p <+: rest → FitsSigned (total onInts (onInts m.val n.val) p) := by
        simp only [List.prefix_cons_iff, forall_eq_or_imp]
        refine and_congr Iff.rfl ⟨fun h p hp => h _ ⟨p, rfl, hp⟩, ?_⟩
        rintro h p ⟨p, rfl, hp⟩
        exact h p hp
      rw [hprefixes, List.map_cons, List.foldl_cons]
      by_cases hfits : FitsSigned (onInts m.val n.val)
      · have hstep := exactOr_of_fits hfits (onFloats (int m).toFloat (int n).toFloat)
        rw [show combine onInts onFloats (int m) (int n) = _ from hstep, ih]
        exact and_congr Iff.rfl (and_iff_right (And.intro m.lo_le m.lt_hi)).symm
      · -- From here on the computation goes on in floating point.
        have hstep := exactOr_of_not_fits hfits (onFloats (int m).toFloat (int n).toFloat)
        obtain ⟨y, hy⟩ := foldl_combine_float onInts onFloats
          (onFloats (int m).toFloat (int n).toFloat) (rest.map int)
        rw [show combine onInts onFloats (int m) (int n) = _ from hstep, hy]
        refine iff_of_false (fun h => nomatch h) ?_
        rintro ⟨-, -, hall⟩
        exact hfits (hall [] List.nil_prefix)

theorem ofItems_ofSigned (ns : List Signed) :
    ofItems (ns.map Json.ofSigned) = .ok (ns.map int) := by
  induction ns with
  | nil => rfl
  | cons n rest ih => rw [List.map_cons, ofItems, ofJson_ofSigned, ih, List.map_cons]

theorem toJson_eq_ofSigned_iff {n : Operand} {s : Signed} :
    n.toJson = .ofSigned s ↔ n = .int s := by
  cases n with
  | int m =>
      constructor
      · intro h
        cases m
        cases s
        cases h
        rfl
      · intro h
        cases h
        rfl
  | float x =>
      refine iff_of_false (fun h => ?_) fun h => nomatch h
      rw [toJson, Json.ofFloat, Json.Number.ofFloat?] at h
      cases hx : Json.Real.ofFloat? x with
      | none =>
          rw [hx] at h
          cases h
      | some y =>
          rw [hx] at h
          cases h

end Operand

namespace Aggregate

/-- The aggregate of the integers is the integer `n`, of the signed range. -/
def Yields (a : Aggregate) (ns : List Signed) (n : Int) : Prop :=
  ∃ r : Signed, r.val = n ∧
    ∀ env, aggregateOf a (.array (ns.map Json.ofSigned)) env = .ok (.ofSigned r) env

/-- The exact sum of the integers. -/
def exactSum (ns : List Signed) : Int := (ns.map (·.val)).sum

/-- The exact product of the integers. -/
def exactProduct (ns : List Signed) : Int := (ns.map (·.val)).prod

theorem total_add (ns : List Signed) : Operand.total (· + ·) 0 ns = exactSum ns := by
  rw [exactSum, List.sum_eq_foldl, List.foldl_map]
  rfl

theorem total_mul (ns : List Signed) : Operand.total (· * ·) 1 ns = exactProduct ns := by
  rw [exactProduct, List.prod_eq_foldl, List.foldl_map]
  rfl

theorem aggregateOf_ofSigned {a : Aggregate} {ns : List Signed} {n : Operand} (env : Env)
    (h : a.apply? (ns.map .int) = some n) :
    aggregateOf a (.array (ns.map Json.ofSigned)) env = .ok n.toJson env := by
  have hnumbers : (Json.array (ns.map Json.ofSigned)).asNumbers = .ok (ns.map .int) :=
    Operand.ofItems_ofSigned ns
  have hdemand : Run.demand a.name (Json.array (ns.map Json.ofSigned)).asNumbers env =
      .ok (ns.map .int) env := by
    rw [hnumbers]
    rfl
  rw [aggregateOf, Stateful.bind_of_ok hdemand, h]
  rfl

theorem yields_iff {a : Aggregate} {ns : List Signed} {n : Operand} {m : Int}
    (h : a.apply? (ns.map .int) = some n) :
    a.Yields ns m ↔ ∃ r : Signed, r.val = m ∧ n = .int r := by
  refine exists_congr fun r => and_congr_right fun _ => ?_
  rw [← Operand.toJson_eq_ofSigned_iff]
  constructor
  · intro hall
    have hvalue := (aggregateOf_ofSigned { salt := "", inputs := [] } h).symm.trans (hall _)
    injection hvalue
  · intro hvalue env
    rw [aggregateOf_ofSigned env h, hvalue]

/-- A computation yields its exact result if and only if no prefix overflows. -/
theorem yields_total_iff
    {a : Aggregate} {onInts : Int → Int → Int} {onFloats : Float → Float → Float} (start : Signed)
    (ha : ∀ ns, a.apply? ns = some (ns.foldl (Operand.combine onInts onFloats) (.int start)))
    (ns : List Signed) :
    a.Yields ns (Operand.total onInts start.val ns) ↔
      ∀ p, p <+: ns → FitsSigned (Operand.total onInts start.val p) := by
  rw [yields_iff (ha _)]
  simp only [Operand.foldl_combine_eq_int_iff]
  constructor
  · rintro ⟨r, -, -, hprefixes⟩
    exact hprefixes
  · intro hprefixes
    obtain ⟨hlow, hhigh⟩ := hprefixes ns List.prefix_rfl
    exact ⟨⟨_, hlow, hhigh⟩, rfl, rfl, hprefixes⟩

theorem yields_sum_iff (ns : List Signed) :
    sum.Yields ns (exactSum ns) ↔ ∀ p, p <+: ns → FitsSigned (exactSum p) := by
  simp only [← total_add]
  exact yields_total_iff ⟨0, by decide, by decide⟩ (fun _ => rfl) ns

theorem yields_product_iff (ns : List Signed) :
    product.Yields ns (exactProduct ns) ↔ ∀ p, p <+: ns → FitsSigned (exactProduct p) := by
  simp only [← total_mul]
  exact yields_total_iff ⟨1, by decide, by decide⟩ (fun _ => rfl) ns

/-- The prefixes of the rearrangements of a list are the rearrangements of the selections from
it. -/
theorem forall_prefix_of_perm_iff
    {α : Type} {P : List α → Prop} (hP : ∀ l l', l.Perm l' → (P l ↔ P l')) (l : List α) :
    (∀ l', l'.Perm l → ∀ p, p <+: l' → P p) ↔ ∀ p, p.Sublist l → P p := by
  constructor
  · intro hall p hp
    obtain ⟨rest, hrest⟩ := hp.exists_perm_append
    exact hall (p ++ rest) hrest.symm p (List.prefix_append p rest)
  · intro hall l' hl' p hp
    obtain ⟨p', hperm, hsub⟩ := hp.sublist.subperm.trans hl'.subperm
    exact (hP p' p hperm).1 (hall p' hsub)

/-- A computation yields its exact result in every order if and only if no selection overflows. -/
theorem yields_of_perm_iff
    {a : Aggregate} {exact : List Signed → Int}
    (hperm : ∀ ns ns', ns.Perm ns' → exact ns = exact ns')
    (hyields : ∀ ns, a.Yields ns (exact ns) ↔ ∀ p, p <+: ns → FitsSigned (exact p))
    (ns : List Signed) :
    (∀ ns', ns'.Perm ns → a.Yields ns' (exact ns)) ↔
      ∀ p, p.Sublist ns → FitsSigned (exact p) := by
  rw [← forall_prefix_of_perm_iff fun l l' h => by rw [hperm l l' h]]
  refine forall₂_congr fun ns' h => ?_
  rw [← hperm ns' ns h, hyields]

theorem exactSum_perm (ns ns' : List Signed) (h : ns.Perm ns') : exactSum ns = exactSum ns' :=
  (h.map _).sum_eq

theorem exactProduct_perm (ns ns' : List Signed) (h : ns.Perm ns') :
    exactProduct ns = exactProduct ns' :=
  (h.map _).prod_eq

/-- The sum and the product of signed integers are exact integers if and only if the sum or the
product of no prefix overflows.  They are so in every order if and only if that of no selection of
the integers does. -/
theorem exact_iff (ns : List Signed) :
    (sum.Yields ns (exactSum ns) ↔ ∀ p, p <+: ns → FitsSigned (exactSum p)) ∧
    (product.Yields ns (exactProduct ns) ↔ ∀ p, p <+: ns → FitsSigned (exactProduct p)) ∧
    ((∀ ns', ns'.Perm ns → sum.Yields ns' (exactSum ns)) ↔
      ∀ p, p.Sublist ns → FitsSigned (exactSum p)) ∧
    ((∀ ns', ns'.Perm ns → product.Yields ns' (exactProduct ns)) ↔
      ∀ p, p.Sublist ns → FitsSigned (exactProduct p)) :=
  ⟨yields_sum_iff ns, yields_product_iff ns,
    yields_of_perm_iff exactSum_perm yields_sum_iff ns,
    yields_of_perm_iff exactProduct_perm yields_product_iff ns⟩

/-- The greatest signed integer, one, and minus one sum up to it, but not in this order. -/
theorem sum_overflows_midway :
    ¬ ∀ ns : List Signed, FitsSigned (exactSum ns) → sum.Yields ns (exactSum ns) := by
  intro hall
  have hprefixes := (yields_sum_iff _).1 (hall
    [⟨0x7FFFFFFFFFFFFFFF, by decide, by decide⟩, ⟨1, by decide, by decide⟩,
      ⟨-1, by decide, by decide⟩] ⟨by decide, by decide⟩)
  exact absurd (hprefixes _ (List.take_prefix 2 _)).2 (by decide)

end Aggregate

end Allotment
