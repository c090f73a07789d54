import Allotment.Proofs.Operation.Overflow

/-!
# Comparison of numbers

Two integers of the signed range are compared exactly.  All other numbers are compared in floating
point, and there different numbers may be rounded to the same place.  Such numbers are blurred: they
compare as equal.  Rounding keeps the order, so all others compare by their exact values.

**Results.**
* `Operand.order_of_blurred`, `Operand.order_of_not_blurred`: the order of two operands.
* `Comparison.exact_iff_not_blurred`: which numbers compare by their exact values.
-/

namespace Allotment

open FloatParts

namespace Operand

variable {m n : Operand}

theorem orderFloats_eq {x y : Float} (hx : Binary64.IsFinite x) (hy : Binary64.IsFinite y) :
    orderFloats x y = some (compare (valueOf x) (valueOf y)) := by
  have hlt := lt_iff (at?_eq_valueOf hx) (at?_eq_valueOf hy)
  have hgt := lt_iff (at?_eq_valueOf hy) (at?_eq_valueOf hx)
  have heq := beq_iff (at?_eq_valueOf hx) (at?_eq_valueOf hy)
  simp only [orderFloats, hlt, hgt, heq]
  rcases lt_trichotomy (valueOf x) (valueOf y) with h | h | h
  · rw [if_pos h, compare_lt_iff_lt.2 h]
  · rw [if_neg h.not_lt, if_pos h, compare_eq_iff_eq.2 h]
  · rw [if_neg h.not_gt, if_neg h.ne', if_pos h, compare_gt_iff_gt.2 h]

/-- The operand is an integer, of the signed range. -/
def IsInt (n : Operand) : Prop := ∃ s, n = .int s

/-- In floating point operands have the order of their values. -/
theorem order_of_not_int (hm : m.IsFinite) (hn : n.IsFinite) (h : ¬ (m.IsInt ∧ n.IsInt)) :
    m.order n = some (compare m.value n.value) := by
  have hfloats : m.order n = orderFloats m.toFloat n.toFloat := by
    cases m with
    | float x => rfl
    | int s =>
        cases n with
        | float y => rfl
        | int t => exact absurd ⟨⟨s, rfl⟩, t, rfl⟩ h
  rw [hfloats]
  exact orderFloats_eq hm hn

end Operand

namespace Json

/-- The value is a truth value or an integer of the signed range. -/
def IsSigned : Json → Prop
  | .bool _ => True
  | .number (.int n) => n.val < 0x8000000000000000
  | _ => False

/-- The quantities are different, and compared in floating point, where they are rounded to the same
place. -/
def Blurred (v w : Json) : Prop :=
  ∃ p q a, v.quantity? = some p ∧ w.quantity? = some q ∧ p ≠ q ∧
    ¬ (v.IsSigned ∧ w.IsSigned) ∧ IsNearest a p ∧ IsNearest a q

/-- The operand that is made of a quantity: the quantity itself if it is signed, and in floating
point the place nearest to it. -/
structure Stands (v : Json) (p : ℚ) (n : Operand) : Prop where
  ofJson : Operand.ofJson v = .ok n
  nearest : IsNearest n.value p
  signed : v.IsSigned → ∃ s : Signed, n = .int s ∧ (s.val : ℚ) = p
  isSigned : n.IsInt → v.IsSigned

variable {v w : Json} {p q : ℚ} {m n : Operand}

theorem nearest_valueOf_ofInt {n : Int} (hn : |n| ≤ 2 ^ 64) :
    IsNearest (valueOf (Float.ofInt n)) n := by
  obtain ⟨a, ha, hnearest⟩ := nearest_ofInt n
  have hfinite := Operand.isFinite_of_near (near_ofInt hn)
  cases ha.symm.trans (at?_eq_valueOf hfinite)
  exact hnearest

theorem exists_stands (h : v.quantity? = some p) : ∃ n, Stands v p n := by
  cases v with
  | number n =>
      cases h
      cases n with
      | real x =>
          refine ⟨.float x.val, rfl, IsNearest.self (onGrid_value x.finite), fun h => h.elim, ?_⟩
          rintro ⟨s, hs⟩
          cases hs
      | int k =>
          have hnearest := nearest_valueOf_ofInt (abs_val_le k)
          cases hk : Bounded.ofInt? (-0x8000000000000000) 0x8000000000000000 k.val with
          | some s =>
              have hs : s.val = k.val := Bounded.ofInt?_eq_some_iff.1 hk
              have hn : Operand.ofNumber (.int k) = .int s := by rw [Operand.ofNumber, hk]
              refine ⟨.int s, congrArg _ hn, ?_, fun _ => ⟨s, rfl, congrArg _ hs⟩, fun _ => ?_⟩
              · show IsNearest (valueOf (Float.ofInt s.val)) k.val
                rwa [hs]
              · exact lt_of_eq_of_lt hs.symm s.lt_hi
          | none =>
              have hlarge := (Bounded.ofInt?_eq_none_iff.1 hk).resolve_left (not_lt.2 k.lo_le)
              have hn : Operand.ofNumber (.int k) = .float (Float.ofInt k.val) := by
                rw [Operand.ofNumber, hk]
              refine ⟨.float (Float.ofInt k.val), congrArg _ hn, hnearest, ?_, ?_⟩
              · exact fun hsigned => absurd hsigned (not_lt.2 hlarge)
              · rintro ⟨s, hs⟩
                cases hs
  | bool b =>
      cases h
      refine ⟨_, rfl, ?_, fun _ => ?_, fun _ => trivial⟩
      · cases b with
        | false => exact_mod_cast nearest_valueOf_ofInt (n := 0) (by decide)
        | true => exact_mod_cast nearest_valueOf_ofInt (n := 1) (by decide)
      · cases b with
        | false => exact ⟨_, rfl, Int.cast_zero⟩
        | true => exact ⟨_, rfl, Int.cast_one⟩
  | null => cases h
  | string s => cases h
  | array items => cases h
  | object fields => cases h

namespace Stands

theorem isFinite (h : Stands v p n) : n.IsFinite := Operand.isFinite_ofJson h.ofJson

theorem isInt_iff (h : Stands v p n) : n.IsInt ↔ v.IsSigned :=
  ⟨h.isSigned, fun hsigned => (h.signed hsigned).imp fun _ hs => hs.1⟩

/-- Quantities that are both signed are compared exactly. -/
theorem order_of_signed (hv : Stands v p m) (hw : Stands w q n) (h : v.IsSigned ∧ w.IsSigned) :
    m.order n = some (compare p q) := by
  obtain ⟨s, rfl, rfl⟩ := hv.signed h.1
  obtain ⟨t, rfl, rfl⟩ := hw.signed h.2
  rw [Operand.order]
  rcases lt_trichotomy s.val t.val with hlt | heq | hgt
  · rw [compare_lt_iff_lt.2 hlt, compare_lt_iff_lt.2 (Int.cast_lt.2 hlt)]
  · rw [compare_eq_iff_eq.2 heq, compare_eq_iff_eq.2 (congrArg _ heq)]
  · rw [compare_gt_iff_gt.2 hgt, compare_gt_iff_gt.2 (Int.cast_lt.2 hgt)]

/-- Other quantities are compared by the places nearest to them. -/
theorem order_of_not_signed (hv : Stands v p m) (hw : Stands w q n)
    (h : ¬ (v.IsSigned ∧ w.IsSigned)) : m.order n = some (compare m.value n.value) :=
  Operand.order_of_not_int hv.isFinite hw.isFinite (by rwa [hv.isInt_iff, hw.isInt_iff])

theorem blurred_iff (hv : Stands v p m) (hw : Stands w q n) (hp : v.quantity? = some p)
    (hq : w.quantity? = some q) :
    Blurred v w ↔ p ≠ q ∧ ¬ (v.IsSigned ∧ w.IsSigned) ∧ m.value = n.value := by
  constructor
  · rintro ⟨p', q', a, hp', hq', hne, hsigned, ha, ha'⟩
    cases hp.symm.trans hp'
    cases hq.symm.trans hq'
    exact ⟨hne, hsigned, (hv.nearest.unique ha).trans (hw.nearest.unique ha').symm⟩
  · rintro ⟨hne, hsigned, heq⟩
    exact ⟨p, q, m.value, hp, hq, hne, hsigned, hv.nearest, heq ▸ hw.nearest⟩

theorem order_of_blurred (hv : Stands v p m) (hw : Stands w q n) (hp : v.quantity? = some p)
    (hq : w.quantity? = some q) (h : Blurred v w) : m.order n = some .eq := by
  obtain ⟨-, hsigned, heq⟩ := (hv.blurred_iff hw hp hq).1 h
  rw [hv.order_of_not_signed hw hsigned, compare_eq_iff_eq.2 heq]

/-- Rounding keeps the order of quantities that are not blurred. -/
theorem order_of_not_blurred (hv : Stands v p m) (hw : Stands w q n) (hp : v.quantity? = some p)
    (hq : w.quantity? = some q) (h : ¬ Blurred v w) : m.order n = some (compare p q) := by
  by_cases hsigned : v.IsSigned ∧ w.IsSigned
  · exact hv.order_of_signed hw hsigned
  have hdistinct (hne : p ≠ q) : m.value ≠ n.value := fun heq =>
    h ((hv.blurred_iff hw hp hq).2 ⟨hne, hsigned, heq⟩)
  rw [hv.order_of_not_signed hw hsigned]
  rcases lt_trichotomy p q with hlt | rfl | hgt
  · have hlt' := (hv.nearest.mono hw.nearest hlt.le).lt_of_ne (hdistinct hlt.ne)
    rw [compare_lt_iff_lt.2 hlt, compare_lt_iff_lt.2 hlt']
  · rw [compare_eq_iff_eq.2 rfl, compare_eq_iff_eq.2 (hv.nearest.unique hw.nearest)]
  · have hgt' := (hw.nearest.mono hv.nearest hgt.le).lt_of_ne (hdistinct hgt.ne').symm
    rw [compare_gt_iff_gt.2 hgt, compare_gt_iff_gt.2 hgt']

end Stands

/-- What counts as a number. -/
theorem ofJson_cases (h : Operand.ofJson v = .ok n) :
    (∃ k, v = .number k ∧ n = Operand.ofNumber k) ∨ ∃ b, v = .bool b ∧ n = Operand.ofBool b := by
  cases v <;> cases h
  · exact .inr ⟨_, rfl, rfl⟩
  · exact .inl ⟨_, rfl, rfl⟩

theorem order_eq (hv : Operand.ofJson v = .ok m) (hw : Operand.ofJson w = .ok n) :
    order v w = .ok (m.order n) := by
  rcases ofJson_cases hv with ⟨k, rfl, rfl⟩ | ⟨b, rfl, rfl⟩ <;>
    rcases ofJson_cases hw with ⟨k', rfl, rfl⟩ | ⟨b', rfl, rfl⟩ <;> rfl

theorem same_eq (hv : Operand.ofJson v = .ok m) (hw : Operand.ofJson w = .ok n) :
    same v w = sameNumber m n := by
  rcases ofJson_cases hv with ⟨k, rfl, rfl⟩ | ⟨b, rfl, rfl⟩ <;>
    rcases ofJson_cases hw with ⟨k', rfl, rfl⟩ | ⟨b', rfl, rfl⟩
  · rfl
  · rfl
  · rfl
  · cases b <;> cases b' <;> rfl

end Json

theorem Comparison.apply_eq {v w : Json} {m n : Operand} {o : Ordering} (c : Comparison)
    (hv : Operand.ofJson v = .ok m) (hw : Operand.ofJson w = .ok n) (ho : m.order n = some o) :
    c.apply v w = .ok (c.accepts o) := by
  have horder : Json.order v w = .ok (some o) := by rw [Json.order_eq hv hw, ho]
  have hsame : Json.same v w = (o == .eq) := by
    rw [Json.same_eq hv hw, Json.sameNumber, ho]
    cases o <;> rfl
  cases c with
  | equal => exact congrArg _ hsame
  | _ =>
      show (Json.order v w).map _ = _
      rw [horder]
      rfl

/-- Numbers and truth values compare by their exact values if and only if they are not blurred. -/
theorem Comparison.exact_iff_not_blurred {v w : Json} {p q : ℚ}
    (hp : v.quantity? = some p) (hq : w.quantity? = some q) :
    (∀ c : Comparison, c.apply v w = .ok (c.accepts (compare p q))) ↔ ¬ v.Blurred w := by
  obtain ⟨m, hv⟩ := Json.exists_stands hp
  obtain ⟨n, hw⟩ := Json.exists_stands hq
  constructor
  · intro hall hblurred
    have heq := apply_eq .equal hv.ofJson hw.ofJson (hv.order_of_blurred hw hp hq hblurred)
    have hne := ((hv.blurred_iff hw hp hq).1 hblurred).1
    have haccepts : true = (compare p q == .eq) := Except.ok.inj (heq.symm.trans (hall .equal))
    exact hne (compare_eq_iff_eq.1 (eq_of_beq haccepts.symm))
  · intro hclear c
    exact apply_eq c hv.ofJson hw.ofJson (hv.order_of_not_blurred hw hp hq hclear)

end Allotment
