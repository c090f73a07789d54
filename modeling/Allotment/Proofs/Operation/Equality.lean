import Allotment.Proofs.Json.Parts
import Allotment.Proofs.Operation.Comparison

/-!
# Equality of values

Two values are equal if they are so at the top and part by part: lists item by item, and objects
entry by entry.  Equality is reflexive and symmetric.  It is transitive up to the rounding of
numbers: two signed integers that are different may both be equal to a third number, which is
compared in floating point.

**Results.**
* `Json.same_iff`: equality part by part.
* `Json.same_refl`, `Json.same_comm`: equality is reflexive and symmetric.
* `Json.same_of_same_iff`: when two values that are equal to a third one are equal.
* `Json.comparison_by_value_iff`: comparison by value and the laws of equality.
-/

namespace Allotment

namespace Json

/-- Where a part of a value stands: at an index of a list or under a name of an object. -/
abbrev Position := Nat ⊕ String

/-- The part of a value at a position. -/
def part? : Json → Position → Option Json
  | .array items, .inl i => items[i]?
  | .object fields, .inr k => Dict.get? fields k
  | _, _ => none

/-- Equality of values, as a relation. -/
def Same (v w : Json) : Prop := same v w = true

instance (v w : Json) : Decidable (Same v w) := inferInstanceAs (Decidable (_ = _))

/-- The values are of the same kind, and equal if they have no parts. -/
inductive SameTop : Json → Json → Prop
  | null : SameTop .null .null
  | string (s : String) : SameTop (.string s) (.string s)
  | number {v w : Json} {m n : Operand} (hv : Operand.ofJson v = .ok m)
      (hw : Operand.ofJson w = .ok n) (h : sameNumber m n = true) : SameTop v w
  | array (vs ws : List Json) : SameTop (.array vs) (.array ws)
  | object (fs gs : List (String × Json)) : SameTop (.object fs) (.object gs)

/-- The parts at all positions are equal, or missing from both values. -/
def SameParts (v w : Json) : Prop := ∀ s, Option.Rel Same (v.part? s) (w.part? s)

theorem sameItems_iff {vs ws : List Json} :
    sameItems vs ws = true ↔ ∀ i : Nat, Option.Rel Same vs[i]? ws[i]? := by
  induction vs generalizing ws with
  | nil =>
      cases ws with
      | nil => exact iff_of_true rfl fun i => .none
      | cons w ws => exact iff_of_false (fun h => nomatch h) fun h => nomatch h 0
  | cons v vs ih =>
      cases ws with
      | nil => exact iff_of_false (fun h => nomatch h) fun h => nomatch h 0
      | cons w ws =>
          rw [sameItems, Bool.and_eq_true, ih]
          constructor
          · rintro ⟨hfirst, hrest⟩ i
            cases i with
            | zero => exact .some hfirst
            | succ i => exact hrest i
          · intro h
            refine ⟨?_, fun i => h (i + 1)⟩
            cases h 0 with
            | some hfirst => exact hfirst

theorem sameFields_iff {fs : List (String × Json)} {gs : Dict Json} :
    sameFields fs gs = true ↔ ∀ x ∈ fs, ∃ w, Dict.get? gs x.1 = some w ∧ Same x.2 w := by
  induction fs with
  | nil => exact iff_of_true rfl (List.forall_mem_nil _)
  | cons x rest ih =>
      obtain ⟨k, v⟩ := x
      rw [sameFields, Bool.and_eq_true, ih, List.forall_mem_cons]
      refine and_congr_left' ?_
      cases Dict.get? gs k with
      | none => exact iff_of_false (fun h => nomatch h) fun ⟨_, h, _⟩ => nomatch h
      | some w =>
          constructor
          · exact fun h => ⟨w, rfl, h⟩
          · rintro ⟨w', hw, h⟩
            cases hw
            exact h

theorem mem_keys_iff {fs : Dict Json} {k : String} :
    k ∈ Dict.keys fs ↔ ∃ v, Dict.get? fs k = some v := by
  rw [← Dict.contains_iff_mem_keys, Dict.contains, Option.isSome_iff_exists]

theorem rel_iff {R : Json → Json → Prop} {x y : Option Json} :
    Option.Rel R x y ↔
      ((∃ a, x = some a) ↔ ∃ b, y = some b) ∧ ∀ a b, x = some a → y = some b → R a b := by
  constructor
  · intro h
    cases h with
    | none => exact ⟨Iff.rfl, fun _ _ ha => nomatch ha⟩
    | some hab =>
        refine ⟨iff_of_true ⟨_, rfl⟩ ⟨_, rfl⟩, fun a b ha hb => ?_⟩
        cases ha
        cases hb
        exact hab
  · rintro ⟨hboth, hall⟩
    cases x with
    | none =>
        cases y with
        | none => exact .none
        | some b => exact (nomatch hboth.2 ⟨b, rfl⟩)
    | some a =>
        obtain ⟨b, rfl⟩ := hboth.1 ⟨a, rfl⟩
        exact .some (hall a b rfl rfl)

/-- Objects are equal exactly if they have equal entries under all names. -/
theorem sameObject_iff {fs gs : Dict Json} (hf : Dict.Ascending fs) (hg : Dict.Ascending gs) :
    (fs.length == gs.length && sameFields fs gs) = true ↔
      ∀ k, Option.Rel Same (Dict.get? fs k) (Dict.get? gs k) := by
  have hlength (d : Dict Json) : (Dict.keys d).length = d.length := List.length_map _
  rw [Bool.and_eq_true, beq_iff_eq, sameFields_iff]
  constructor
  · rintro ⟨hlen, hfields⟩
    have hsubset : Dict.keys fs ⊆ Dict.keys gs := by
      intro k hk
      obtain ⟨v, hv⟩ := mem_keys_iff.1 hk
      obtain ⟨w, hw, -⟩ := hfields _ (Dict.mem_of_get? hv)
      exact mem_keys_iff.2 ⟨w, hw⟩
    -- There are as many names on both sides, and those of one are among those of the other.
    have hperm : (Dict.keys fs).Perm (Dict.keys gs) :=
      (List.subperm_of_subset (Dict.nodup_keys hf) hsubset).perm_of_length_le
        (by rw [hlength, hlength, hlen])
    intro k
    cases hk : Dict.get? fs k with
    | some v =>
        obtain ⟨w, hw, hsame⟩ := hfields _ (Dict.mem_of_get? hk)
        rw [hw]
        exact .some hsame
    | none =>
        have hnone : Dict.get? gs k = none := by
          rw [Dict.get?_eq_none_iff, ← hperm.mem_iff, ← Dict.get?_eq_none_iff]
          exact hk
        rw [hnone]
        exact .none
  · intro hall
    have hkeys (k : String) : k ∈ Dict.keys fs ↔ k ∈ Dict.keys gs := by
      rw [mem_keys_iff, mem_keys_iff]
      exact (rel_iff.1 (hall k)).1
    have hperm := (List.perm_ext_iff_of_nodup (Dict.nodup_keys hf) (Dict.nodup_keys hg)).2 hkeys
    refine ⟨by rw [← hlength fs, ← hlength gs, hperm.length_eq], fun x hx => ?_⟩
    obtain ⟨hboth, hsame⟩ := rel_iff.1 (hall x.1)
    have hv := (Dict.mem_iff_get? hf).1 hx
    obtain ⟨w, hw⟩ := hboth.1 ⟨_, hv⟩
    exact ⟨w, hw, hsame _ _ hv hw⟩

section Parts

variable {u v w a b : Json} {s : Position}

theorem sameParts_of_leaf (hv : ∀ s, v.part? s = none) (hw : ∀ s, w.part? s = none) :
    SameParts v w := by
  intro s
  rw [hv, hw]
  exact .none

theorem part?_of_ofJson {n : Operand} (h : Operand.ofJson v = .ok n) (s : Position) :
    v.part? s = none := by
  rcases ofJson_cases h with ⟨k, rfl, -⟩ | ⟨b, rfl, -⟩ <;> rfl

theorem sameParts_iff :
    SameParts v w ↔ (∀ s, (∃ a, v.part? s = some a) ↔ ∃ b, w.part? s = some b) ∧
      ∀ s a b, v.part? s = some a → w.part? s = some b → Same a b := by
  simp only [SameParts, rel_iff, forall_and]

theorem sameParts_array_iff {vs ws : List Json} :
    SameParts (.array vs) (.array ws) ↔ sameItems vs ws = true := by
  rw [sameItems_iff]
  constructor
  · exact fun h i => h (.inl i)
  · rintro h (i | k)
    · exact h i
    · exact .none

theorem sameParts_object_iff {fs gs : List (String × Json)}
    (hf : (Json.object fs).Canonical) (hg : (Json.object gs).Canonical) :
    SameParts (.object fs) (.object gs) ↔
      (fs.length == gs.length && sameFields fs gs) = true := by
  rw [sameObject_iff (canonical_object_iff.1 hf).1 (canonical_object_iff.1 hg).1]
  constructor
  · exact fun h k => h (.inr k)
  · rintro h (i | k)
    · exact .none
    · exact h k

theorem sameTop_of_same (h : Same v w) : SameTop v w := by
  have hnumber {m n : Operand} (hv : Operand.ofJson v = .ok m) (hw : Operand.ofJson w = .ok n) :
      SameTop v w := .number hv hw ((same_eq hv hw).symm.trans h)
  have hstring {s t : String} (heq : (s == t) = true) : SameTop (.string s) (.string t) := by
    rw [eq_of_beq heq]
    exact .string t
  rw [Same] at h
  cases v <;> cases w <;>
    first
    | exact .null
    | exact .array _ _
    | exact .object _ _
    | exact hstring h
    | exact hnumber rfl rfl
    | cases h

/-- Values are equal exactly if they are so at the top and part by part. -/
theorem same_iff (hv : v.Canonical) (hw : w.Canonical) :
    Same v w ↔ SameTop v w ∧ SameParts v w := by
  have hsame (htop : SameTop v w) : Same v w ↔ SameParts v w := by
    cases htop with
    | null => exact iff_of_true rfl (sameParts_of_leaf (fun _ => rfl) fun _ => rfl)
    | string s =>
        exact iff_of_true (beq_self_eq_true s) (sameParts_of_leaf (fun _ => rfl) fun _ => rfl)
    | number hv hw h =>
        exact iff_of_true ((same_eq hv hw).trans h)
          (sameParts_of_leaf (part?_of_ofJson hv) (part?_of_ofJson hw))
    | array vs ws => exact sameParts_array_iff.symm
    | object fs gs => exact (sameParts_object_iff hv hw).symm
  constructor
  · exact fun h => ⟨sameTop_of_same h, (hsame (sameTop_of_same h)).1 h⟩
  · exact fun ⟨htop, hparts⟩ => (hsame htop).2 hparts

theorem sizeOf_part_lt (h : v.part? s = some a) : sizeOf a < sizeOf v := by
  cases v with
  | array items =>
      cases s with
      | inl i => exact sizeOf_item_lt (List.mem_of_getElem? h)
      | inr k => cases h
  | object fields =>
      cases s with
      | inl i => cases h
      | inr k => exact sizeOf_entry_lt (Dict.mem_of_get? h)
  | _ => cases h

theorem canonical_part (hv : v.Canonical) (h : v.part? s = some a) : a.Canonical := by
  cases v with
  | array items =>
      cases s with
      | inl i => exact canonical_array_iff.1 hv _ (List.mem_of_getElem? h)
      | inr k => cases h
  | object fields =>
      cases s with
      | inl i => cases h
      | inr k => exact canonical_of_entry hv h
  | _ => cases h

end Parts

section Laws

variable {u v w a b : Json} {m n : Operand} {p q : ℚ}

theorem exists_stands_of_ofJson (h : Operand.ofJson v = .ok m) :
    ∃ p, v.quantity? = some p ∧ Stands v p m := by
  have hquantity : ∃ p, v.quantity? = some p := by
    rcases ofJson_cases h with ⟨k, rfl, -⟩ | ⟨b, rfl, -⟩ <;> exact ⟨_, rfl⟩
  obtain ⟨p, hp⟩ := hquantity
  obtain ⟨m', hm'⟩ := exists_stands hp
  cases h.symm.trans hm'.ofJson
  exact ⟨p, hp, hm'⟩

/-- Numbers are equal exactly if they are rounded to the same place, and signed ones only if they
are the same. -/
theorem sameNumber_iff (hv : Stands v p m) (hw : Stands w q n) :
    sameNumber m n = true ↔ m.value = n.value ∧ (v.IsSigned → w.IsSigned → p = q) := by
  have heq {o : Ordering} (ho : m.order n = some o) : sameNumber m n = true ↔ o = .eq := by
    rw [sameNumber, ho]
    cases o <;> decide
  by_cases hsigned : v.IsSigned ∧ w.IsSigned
  · rw [heq (hv.order_of_signed hw hsigned), compare_eq_iff_eq]
    constructor
    · rintro rfl
      exact ⟨hv.nearest.unique hw.nearest, fun _ _ => rfl⟩
    · exact fun h => h.2 hsigned.1 hsigned.2
  · rw [heq (hv.order_of_not_signed hw hsigned), compare_eq_iff_eq]
    exact (and_iff_left fun h h' => absurd ⟨h, h'⟩ hsigned).symm

theorem sameTop_refl (v : Json) : SameTop v v := by
  have hnumber {m : Operand} (hv : Operand.ofJson v = .ok m) : SameTop v v := by
    obtain ⟨p, -, hstands⟩ := exists_stands_of_ofJson hv
    exact .number hv hv ((sameNumber_iff hstands hstands).2 ⟨rfl, fun _ _ => rfl⟩)
  cases v with
  | null => exact .null
  | bool b => exact hnumber rfl
  | number k => exact hnumber rfl
  | string s => exact .string s
  | array items => exact .array items items
  | object fields => exact .object fields fields

theorem sameTop_symm (h : SameTop v w) : SameTop w v := by
  cases h with
  | null => exact .null
  | string s => exact .string s
  | array vs ws => exact .array ws vs
  | object fs gs => exact .object gs fs
  | number hv hw h =>
      obtain ⟨p, -, hp⟩ := exists_stands_of_ofJson hv
      obtain ⟨q, -, hq⟩ := exists_stands_of_ofJson hw
      obtain ⟨hvalue, hexact⟩ := (sameNumber_iff hp hq).1 h
      exact .number hw hv ((sameNumber_iff hq hp).2
        ⟨hvalue.symm, fun hsigned hsigned' => (hexact hsigned' hsigned).symm⟩)

/-- If both values are signed then they stand for the same quantity. -/
def Agree (v w : Json) : Prop := v.IsSigned → w.IsSigned → v.quantity? = w.quantity?

/-- Values that are equal to a third one at the top are so to one another, unless they are different
signed integers. -/
theorem sameTop_iff_agree (huv : SameTop u v) (hvw : SameTop v w) : SameTop u w ↔ Agree u w := by
  cases huv with
  | null =>
      cases hvw with
      | null => exact iff_of_true .null fun h => h.elim
      | number hv => cases hv
  | string s =>
      cases hvw with
      | string s => exact iff_of_true (.string s) fun h => h.elim
      | number hv => cases hv
  | array us vs =>
      cases hvw with
      | array vs ws => exact iff_of_true (.array us ws) fun h => h.elim
      | number hv => cases hv
  | object fs gs =>
      cases hvw with
      | object gs hs => exact iff_of_true (.object fs hs) fun h => h.elim
      | number hv => cases hv
  | number hu hv h =>
      cases hvw with
      | null => cases hv
      | string s => cases hv
      | array vs ws => cases hv
      | object fs gs => cases hv
      | number hv' hw h' =>
          cases hv.symm.trans hv'
          obtain ⟨p, hp, hpu⟩ := exists_stands_of_ofJson hu
          obtain ⟨_, -, hqv⟩ := exists_stands_of_ofJson hv
          obtain ⟨r, hr, hrw⟩ := exists_stands_of_ofJson hw
          have hvalue := ((sameNumber_iff hpu hqv).1 h).1.trans ((sameNumber_iff hqv hrw).1 h').1
          have hsame := (sameNumber_iff hpu hrw).trans (and_iff_right hvalue)
          rw [Agree, hp, hr, Option.some_inj, ← hsame]
          constructor
          · intro htop
            cases htop with
            | number hu' hw' h =>
                cases hu.symm.trans hu'
                cases hw.symm.trans hw'
                exact h
            | null => cases hu
            | string s => cases hu
            | array us ws => cases hu
            | object fs gs => cases hu
          · exact .number hu hw

/-- Equality is reflexive. -/
theorem same_refl (hv : v.Canonical) : Same v v := by
  induction v using induction_on_size with
  | h v ih =>
      refine (same_iff hv hv).2 ⟨sameTop_refl v, sameParts_iff.2 ⟨fun s => Iff.rfl, ?_⟩⟩
      intro s a b ha hb
      cases ha.symm.trans hb
      exact ih a (sizeOf_part_lt ha) (canonical_part hv ha)

/-- Equality is symmetric. -/
theorem same_symm (hv : v.Canonical) (hw : w.Canonical) (h : Same v w) : Same w v := by
  induction v using induction_on_size generalizing w with
  | h v ih =>
      obtain ⟨htop, hparts⟩ := (same_iff hv hw).1 h
      obtain ⟨hboth, hall⟩ := sameParts_iff.1 hparts
      refine (same_iff hw hv).2 ⟨sameTop_symm htop, sameParts_iff.2 ⟨fun s => (hboth s).symm, ?_⟩⟩
      intro s b a hb ha
      exact ih a (sizeOf_part_lt ha) (canonical_part hv ha) (canonical_part hw hb)
        (hall s a b ha hb)

/-- Parts of two values that stand at the same place in them. -/
inductive Facing : Json → Json → Json → Json → Prop
  | here (v w : Json) : Facing v w v w
  | part {v w v' w' a b : Json} {s : Position} (hv : v.part? s = some v') (hw : w.part? s = some w')
      (h : Facing v' w' a b) : Facing v w a b

/-- Signed numbers that stand at the same place in the two values are the same. -/
def Clear (v w : Json) : Prop := ∀ a b, Facing v w a b → Agree a b

theorem clear_iff :
    Clear v w ↔ Agree v w ∧ ∀ s a b, v.part? s = some a → w.part? s = some b → Clear a b := by
  constructor
  · intro h
    exact ⟨h v w (.here v w), fun s a b ha hb a' b' hfacing => h a' b' (.part ha hb hfacing)⟩
  · rintro ⟨hagree, hparts⟩ a b hfacing
    cases hfacing with
    | here => exact hagree
    | part ha hb hfacing => exact hparts _ _ _ ha hb a b hfacing

/-- Values that are equal to a third one are equal to one another if and only if signed numbers at
the same place in them are the same. -/
theorem same_of_same_iff (hu : u.Canonical) (hv : v.Canonical) (hw : w.Canonical)
    (huv : Same u v) (hvw : Same v w) : Same u w ↔ Clear u w := by
  -- The induction is on the value in the middle, whose parts are equal to those of the others.
  induction v using induction_on_size generalizing u w with
  | h v ih =>
      obtain ⟨huvtop, huvparts⟩ := (same_iff hu hv).1 huv
      obtain ⟨hvwtop, hvwparts⟩ := (same_iff hv hw).1 hvw
      obtain ⟨huvboth, huvall⟩ := sameParts_iff.1 huvparts
      obtain ⟨hvwboth, hvwall⟩ := sameParts_iff.1 hvwparts
      rw [same_iff hu hw, clear_iff, sameTop_iff_agree huvtop hvwtop, sameParts_iff,
        and_iff_right fun s => (huvboth s).trans (hvwboth s)]
      refine and_congr_right' (forall_congr' fun s => forall₂_congr fun a b =>
        forall₂_congr fun ha hb => ?_)
      obtain ⟨c, hc⟩ := (huvboth s).1 ⟨a, ha⟩
      exact ih c (sizeOf_part_lt hc) (canonical_part hu ha) (canonical_part hv hc)
        (canonical_part hw hb) (huvall s a c ha hc) (hvwall s c b hc hb)

/-- Numbers and truth values compare by their exact values if and only if they are not blurred.
Values are equal exactly if they are so at the top and part by part.  Equality is reflexive and
symmetric, and transitive if and only if signed numbers at the same place are the same. -/
theorem comparison_by_value_iff (hu : u.Canonical) (hv : v.Canonical) (hw : w.Canonical) :
    (∀ p q : ℚ, u.quantity? = some p → v.quantity? = some q →
      ((∀ c : Comparison, c.apply u v = .ok (c.accepts (compare p q))) ↔ ¬ u.Blurred v)) ∧
    (Same u v ↔ SameTop u v ∧ SameParts u v) ∧
    Same u u ∧
    (Same u v → Same v u) ∧
    (Same u v → Same v w → (Same u w ↔ Clear u w)) :=
  ⟨fun _ _ hp hq => Comparison.exact_iff_not_blurred hp hq, same_iff hu hv, same_refl hu,
    same_symm hu hv, same_of_same_iff hu hv hw⟩

end Laws

/-- One as a floating-point number. -/
def oneReal : Json := .number (.real ⟨1.0, by decide +kernel⟩)

/-- The integer one compares with the truth value as one does with one, and both are equal to one in
floating point. -/
theorem one_equals_true :
    (∀ c : Comparison, c.apply (.ofInt 1) (.bool true) = .ok (c.accepts .eq)) ∧
    Same (.bool true) (.ofInt 1) ∧ Clear (.ofInt 1) oneReal := by
  obtain ⟨hexact, -, -, hsymm, htrans⟩ :=
    comparison_by_value_iff (u := .ofInt 1) (v := .bool true) (w := oneReal) trivial trivial trivial
  have hone : (Json.ofInt 1).quantity? = some 1 := by
    exact_mod_cast quantity?_ofInt (n := 1) (by decide) (by decide)
  have hclear : ¬ (Json.ofInt 1).Blurred (.bool true) := by
    rintro ⟨p, q, a, hp, hq, hne, -⟩
    cases hone.symm.trans hp
    cases hq
    exact hne rfl
  have htrue : Same (.ofInt 1) (.bool true) := rfl
  have hreal : Same (.bool true) oneReal := by decide +kernel
  have hreal' : Same (.ofInt 1) oneReal := by decide +kernel
  refine ⟨fun c => ?_, hsymm htrue, (htrans htrue hreal).1 hreal'⟩
  rw [(hexact 1 1 hone rfl).2 hclear c, compare_eq_iff_eq.2 rfl]

/-- Integers next to each other above the signed range compare as equal, and the last two signed
integers are equal to the first unsigned one beyond them. -/
theorem neighbours_blurred :
    (¬ ∀ (v w : Json) (p q : ℚ), v.quantity? = some p → w.quantity? = some q →
      ∀ c : Comparison, c.apply v w = .ok (c.accepts (compare p q))) ∧
    ¬ ∀ u v w : Json, u.Canonical → v.Canonical → w.Canonical →
      Same u v → Same v w → Same u w := by
  constructor
  · intro hall
    have heq : Same (.ofInt 0xFFFFFFFFFFFFFFFF) (.ofInt 0xFFFFFFFFFFFFFFFE) := by decide +kernel
    have hexact := hall _ _ _ _
      (quantity?_ofInt (n := 0xFFFFFFFFFFFFFFFF) (by decide) (by decide))
      (quantity?_ofInt (n := 0xFFFFFFFFFFFFFFFE) (by decide) (by decide)) .equal
    have haccepts := Except.ok.inj ((congrArg Except.ok heq).symm.trans hexact)
    have hquantities := compare_eq_iff_eq.1 (eq_of_beq haccepts.symm)
    exact absurd (Int.cast_injective hquantities) (by decide)
  · intro htrans
    have hlow : Same (.ofInt 0x7FFFFFFFFFFFFFFF) (.ofInt 0x8000000000000000) := by decide +kernel
    have hhigh : Same (.ofInt 0x8000000000000000) (.ofInt 0x7FFFFFFFFFFFFFFE) := by decide +kernel
    have hends : ¬ Same (.ofInt 0x7FFFFFFFFFFFFFFF) (.ofInt 0x7FFFFFFFFFFFFFFE) := by
      decide +kernel
    exact hends (htrans _ (.ofInt 0x8000000000000000) _ trivial trivial trivial hlow hhigh)

end Json

end Allotment
