import Allotment.Proofs.Json.Denotation
import Allotment.Proofs.Json.Tokens

/-!
# Values read as they were written

The compact text of a value is read as the document of the value, and so denotes the value
unless this is nested too deep.  Integers are read from what is written of them; of a
floating-point number it depends on its text, since the reader rounds more than once.

The reader is called with a bound that decreases at every call.  Twice the length of the text is
enough, as no document is written without a character and no list without a bracket.

**Results.**
* `Number.readsBack_int`: an integer is read from what is written of it.
* `Number.exists_not_readsBack`: not every floating-point number is.
* `Reader.document?_write`: so is any value whose floating-point numbers are.
* `parse?_compact`: its compact text denotes it, up to the depth that is allowed.
-/

namespace Allotment

namespace Json

namespace Reader

variable {bound : Nat} {rest : List Char}

theorem skip_skip (cs : List Char) : skip (skip cs) = skip cs := by
  induction cs with
  | nil => rfl
  | cons c cs ih =>
      by_cases hc : isBlank c
      · simpa [skip, hc] using ih
      · simp [skip, hc]

theorem skip_append
    {cs : List Char} {c : Char} {cs' : List Char} (h : skip cs = c :: cs') (rest : List Char) :
    skip (cs ++ rest) = c :: (cs' ++ rest) := by
  unfold skip at h ⊢
  rw [List.dropWhile_append, h]
  rfl

theorem document?_skip (bound : Nat) (cs : List Char) :
    document? bound (skip cs) = document? bound cs := by
  cases bound with
  | zero => rw [document?, document?]
  | succ bound => rw [document?, document?, skip_skip]

theorem items?_skip (bound : Nat) (cs : List Char) :
    items? bound (skip cs) = items? bound cs := by
  cases bound with
  | zero => rw [items?, items?]
  | succ bound => rw [items?, items?, document?_skip]

theorem members?_skip (bound : Nat) (cs : List Char) :
    members? bound (skip cs) = members? bound cs := by
  cases bound with
  | zero => rw [members?, members?]
  | succ bound => rw [members?, members?, skip_skip]

section Numbers

theorem document?_minus (bound : Nat) (cs : List Char) :
    document? (bound + 1) ('-' :: cs) =
      (number? true cs).map fun x => (.number x.1, x.2) := by
  have hskip : skip ('-' :: cs) = '-' :: cs := rfl
  simp only [document?, hskip]
  cases number? true cs <;> rfl

theorem document?_digit
    {c : Char} (hc : c.isDigit = true) (bound : Nat) (cs : List Char) :
    document? (bound + 1) (c :: cs) =
      (number? false (c :: cs)).map fun x => (.number x.1, x.2) := by
  have hblank : isBlank c = false := by
    cases h : isBlank c with
    | false => rfl
    | true =>
        simp only [isBlank, Bool.or_eq_true, beq_iff_eq] at h
        rcases h with ((rfl | rfl) | rfl) | rfl <;> cases hc
  have hskip : skip (c :: cs) = c :: cs := by
    simp [skip, hblank]
  rw [document?, hskip]
  split <;> rename_i heq <;> cases heq
  · cases hc
  · cases hc
  · cases hc
  · cases hc
  · rw [if_pos hc]
    cases number? false (c :: cs) <;> rfl

theorem of_word?_eq_some
    {word : List Char} {d d' : Document} {cs r : List Char} (h : word? word d cs = some (d', r)) :
    d' = d := by
  unfold word? at h
  split at h
  · cases h
    rfl
  · cases h

/-- A number starts with a sign or a digit. -/
theorem of_document?_eq_number
    {cs : List Char} {m : Option Number} {r : List Char}
    (h : document? (bound + 1) cs = some (.number m, r)) :
    (∃ cs', skip cs = '-' :: cs' ∧ number? true cs' = some (m, r)) ∨
      ∃ c cs', skip cs = c :: cs' ∧ c.isDigit = true ∧ number? false (c :: cs') = some (m, r) := by
  rw [document?] at h
  split at h
  · cases h
  · simp [Option.bind_eq_some_iff] at h
  · split at h
    · cases h
    · simp [Option.bind_eq_some_iff] at h
  · split at h
    · cases h
    · simp [Option.bind_eq_some_iff] at h
  · rename_i cs' hskip
    exact .inl ⟨cs', hskip, by simpa [Option.bind_eq_some_iff] using h⟩
  · rename_i c cs' _ _ _ _ hskip
    split at h
    · rename_i hc
      exact .inr ⟨c, cs', hskip, hc, by simpa [Option.bind_eq_some_iff] using h⟩
    · repeat' split at h
      · cases of_word?_eq_some h
      · cases of_word?_eq_some h
      · cases of_word?_eq_some h
      · cases h

/-- Whatever can follow a value does not change how a number in front of it is read. -/
theorem document?_number_append
    {cs : List Char} {m : Option Number} (h : document? (bound + 1) cs = some (.number m, []))
    (hrest : Ends rest) (bound' : Nat) :
    document? (bound' + 1) (cs ++ rest) = some (.number m, rest) := by
  rw [← document?_skip]
  rcases of_document?_eq_number h with ⟨cs', hskip, hread⟩ | ⟨c, cs', hskip, hc, hread⟩
  · rw [skip_append hskip, document?_minus, number?_append hrest, hread]
    rfl
  · rw [skip_append hskip, document?_digit hc, ← List.cons_append, number?_append hrest, hread]
    rfl

end Numbers

theorem document?_string
    {cs : List Char} {s : String} (h : string? cs = some (some s, rest)) (bound : Nat) :
    document? (bound + 1) ('"' :: cs) = some (.string (some s), rest) := by
  have hskip : skip ('"' :: cs) = '"' :: cs := rfl
  simp [document?, hskip, h]

section Lists

variable {cs r : List Char}

/-- A closing bracket is no document. -/
theorem skip_ne_bracket
    {d : Document} (h : document? bound cs = some (d, r)) (cs' : List Char) :
    skip cs ≠ ']' :: cs' := by
  intro hskip
  cases bound with
  | zero =>
      rw [document?] at h
      cases h
  | succ bound =>
      rw [← document?_skip, hskip] at h
      cases h

theorem items?_last
    {d : Document} (h : document? bound cs = some (d, r)) (hr : skip r = ']' :: rest) :
    items? (bound + 1) cs = some ([d], rest) := by
  simp [items?, h, hr]

theorem items?_cons
    {d : Document} {ds : List Document} {cs' : List Char} (h : document? bound cs = some (d, r))
    (hr : skip r = ',' :: cs') (hrest : items? bound cs' = some (ds, rest)) :
    items? (bound + 1) cs = some (d :: ds, rest) := by
  simp [items?, h, hr, hrest]

theorem document?_of_items?
    {items : List Document} (h : items? bound cs = some (items, rest)) :
    document? (bound + 1) ('[' :: cs) = some (.array items, rest) := by
  have hne : ∀ cs', skip cs ≠ ']' :: cs' := by
    cases bound with
    | zero =>
        rw [items?] at h
        cases h
    | succ bound =>
        rw [items?] at h
        obtain ⟨x, hx, -⟩ := Option.bind_eq_some_iff.1 h
        exact skip_ne_bracket hx
  have hskip : skip ('[' :: cs) = '[' :: cs := rfl
  simp only [document?, hskip]
  rw [items?_skip, h]
  rfl

theorem members?_last
    {k : String} {d : Document} {cs' : List Char}
    (hk : string? cs = some (some k, ':' :: cs')) (h : document? bound cs' = some (d, r))
    (hr : skip r = '\x7d' :: rest) :
    members? (bound + 1) ('"' :: cs) = some ([(some k, d)], rest) := by
  have hskip : skip ('"' :: cs) = '"' :: cs := rfl
  have hcolon : skip (':' :: cs') = ':' :: cs' := rfl
  simp [members?, hskip, hk, hcolon, h, hr]

theorem members?_cons
    {k : String} {d : Document} {ds : List (Option String × Document)} {cs' cs'' : List Char}
    (hk : string? cs = some (some k, ':' :: cs')) (h : document? bound cs' = some (d, r))
    (hr : skip r = ',' :: cs'') (hrest : members? bound cs'' = some (ds, rest)) :
    members? (bound + 1) ('"' :: cs) = some ((some k, d) :: ds, rest) := by
  have hskip : skip ('"' :: cs) = '"' :: cs := rfl
  have hcolon : skip (':' :: cs') = ':' :: cs' := rfl
  simp [members?, hskip, hk, hcolon, h, hr, hrest]

theorem document?_of_members?
    {members : List (Option String × Document)} (h : members? bound cs = some (members, rest)) :
    document? (bound + 1) ('\x7b' :: cs) = some (.object members, rest) := by
  have hne : ∀ cs', skip cs ≠ '\x7d' :: cs' := by
    intro cs' hskip
    cases bound with
    | zero =>
        rw [members?] at h
        cases h
    | succ bound =>
        rw [members?, hskip] at h
        cases h
  have hskip : skip ('\x7b' :: cs) = '\x7b' :: cs := rfl
  simp only [document?, hskip]
  rw [members?_skip, h]
  rfl

end Lists

end Reader

/-- The number is read from what is written of it. -/
def Number.ReadsBack (n : Number) : Prop :=
  Reader.document? 1 (writeNumber n) = some (.number (some n), [])

theorem Number.readsBack_int (n : Whole) : (Number.int n).ReadsBack := by
  show Reader.document? 1 (writeInt n.val) = _
  unfold writeInt
  split
  · rename_i hneg
    rw [Reader.document?_minus, Reader.number?_digitsOf, Reader.wholeOf?_of_neg hneg]
    rfl
  · rename_i hneg
    cases hds : Decimal.digitsOf n.val.natAbs with
    | nil => exact absurd hds Nat.toDigits_ne_nil
    | cons c cs =>
        have hc : c.isDigit = true := Decimal.isDigit_of_mem_digitsOf (hds ▸ List.mem_cons_self)
        rw [Reader.document?_digit hc, ← hds, Reader.number?_digitsOf,
          Reader.wholeOf?_of_nonneg hneg]
        rfl

/-- One half. -/
def Real.half : Real := ⟨0.5, by decide⟩

theorem Number.readsBack_half : (Number.real .half).ReadsBack := by
  have hwritten : writeNumber (.real .half) = ['0', '.', '5'] := by
    decide +kernel
  have hread : Reader.number? false ['0', '.', '5'] = some (some (.real .half), []) := by
    decide +kernel
  rw [Number.ReadsBack, hwritten, Reader.document?_digit (by decide), hread]
  rfl

/-- Scaling a word by a power of ten may round once too often: of what is written of `5e31` the
number below is read. -/
theorem Number.exists_not_readsBack : ∃ x : Real, ¬ (Number.real x).ReadsBack := by
  let x : Real := ⟨5e31, by decide +kernel⟩
  let below : Real := ⟨4.999999999999999e31, by decide +kernel⟩
  refine ⟨x, fun h => ?_⟩
  have hwritten : writeNumber (.real x) = ['5', 'e', '+', '3', '1'] := by
    decide +kernel
  have hread : Reader.number? false ['5', 'e', '+', '3', '1'] = some (some (.real below), []) := by
    decide +kernel
  rw [Number.ReadsBack, hwritten, Reader.document?_digit (by decide), hread] at h
  have heq : below = x := by simpa using h
  exact absurd heq (by decide +kernel)

/-- All floating-point numbers in the value are read from what is written of them. -/
def Legible (v : Json) : Prop :=
  ∀ x : Real, (.number (.real x) = v ∨ Inside (.number (.real x)) v) → (Number.real x).ReadsBack

namespace Legible

variable {items : List Json} {fields : List (String × Json)}

theorem string (s : String) : (Json.string s).Legible := by
  rintro x (heq | hx)
  · cases heq
  · rcases hx.cases_outer with ⟨items, heq⟩ | ⟨fields, heq⟩ <;> cases heq

theorem word (w : UInt64) : (Json.ofWord w).Legible := by
  rintro x (heq | hx)
  · cases heq
  · rcases hx.cases_outer with ⟨items, heq⟩ | ⟨fields, heq⟩ <;> cases heq

theorem real
    {x : Real} (h : (Number.real x).ReadsBack) :
    (Json.number (.real x)).Legible := by
  rintro y (heq | hy)
  · cases heq
    exact h
  · rcases hy.cases_outer with ⟨items, heq⟩ | ⟨fields, heq⟩ <;> cases heq

theorem item
    (h : (Json.array items).Legible) {v : Json} (hv : v ∈ items) :
    v.Legible :=
  fun x hx => h x (.inr (inside_array_iff.2 ⟨v, hv, hx⟩))

theorem entry
    (h : (Json.object fields).Legible) {x : String × Json} (hx : x ∈ fields) :
    x.2.Legible :=
  fun y hy => h y (.inr (inside_object_iff.2 ⟨x, hx, hy⟩))

theorem of_items
    (h : ∀ v ∈ items, v.Legible) :
    (Json.array items).Legible := by
  rintro x (heq | hx)
  · cases heq
  · obtain ⟨v, hv, hx⟩ := inside_array_iff.1 hx
    exact h v hv x hx

theorem of_entries
    (h : ∀ x ∈ fields, x.2.Legible) :
    (Json.object fields).Legible := by
  rintro x (heq | hx)
  · cases heq
  · obtain ⟨y, hy, hx⟩ := inside_object_iff.1 hx
    exact h y hy x hx

end Legible

namespace Reader

theorem document?_writeNumber
    {n : Number} (h : (Json.number n).Legible) (bound : Nat) {rest : List Char}
    (hrest : Ends rest) :
    document? (bound + 1) (writeNumber n ++ rest) = some (.number (some n), rest) := by
  have hback : n.ReadsBack := by
    cases n with
    | int n => exact Number.readsBack_int n
    | real x => exact h x (.inl rfl)
  exact document?_number_append hback hrest bound

theorem writeItems_cons (v w : Json) (vs : List Json) :
    writeItems (v :: w :: vs) = write v ++ ',' :: writeItems (w :: vs) := by
  rw [writeItems]
  simp

theorem writeFields_cons (k : String) (v : Json) (x : String × Json) (xs : List (String × Json)) :
    writeFields ((k, v) :: x :: xs) =
      writeString k ++ ':' :: (write v ++ ',' :: writeFields (x :: xs)) := by
  rw [writeFields]
  simp

mutual

/-- A value is read from what is written of it. -/
theorem document?_write :
    ∀ (v : Json) {bound : Nat} {rest : List Char}, v.Legible → 2 * (write v).length ≤ bound →
      Ends rest → document? (bound + 1) (write v ++ rest) = some (Document.ofJson v, rest)
  | .null, bound, rest, _, _, _ => rfl
  | .bool true, bound, rest, _, _, _ => rfl
  | .bool false, bound, rest, _, _, _ => rfl
  | .number n, bound, rest, hv, _, hrest => document?_writeNumber hv bound hrest
  | .string s, bound, rest, _, _, _ => by
      rw [write, writeString, List.cons_append, List.append_assoc]
      exact document?_string (string?_write s rest) bound
  | .array [], bound, rest, _, _, _ => rfl
  | .array (v :: vs), bound, rest, hv, hbound, hrest => by
      rw [write, List.length_cons, List.length_append] at hbound
      obtain ⟨bound, rfl⟩ : ∃ b, bound = b + 1 := ⟨bound - 1, by omega⟩
      rw [write, List.cons_append, List.append_assoc]
      exact document?_of_items?
        (items?_write v vs (fun w hw => hv.item hw) (by omega) rest)
  | .object [], bound, rest, _, _, _ => rfl
  | .object (x :: xs), bound, rest, hv, hbound, hrest => by
      rw [write, List.length_cons, List.length_append] at hbound
      obtain ⟨bound, rfl⟩ : ∃ b, bound = b + 1 := ⟨bound - 1, by omega⟩
      rw [write, List.cons_append, List.append_assoc]
      exact document?_of_members?
        (members?_write x xs (fun y hy => hv.entry hy) (by omega) rest)

theorem items?_write :
    ∀ (v : Json) (vs : List Json) {bound : Nat}, (∀ w ∈ v :: vs, w.Legible) →
      2 * (writeItems (v :: vs)).length + 1 ≤ bound → ∀ rest : List Char,
      items? (bound + 1) (writeItems (v :: vs) ++ ']' :: rest) =
        some (Document.ofItems (v :: vs), rest)
  | v, [], bound, hv, hbound, rest => by
      rw [writeItems] at hbound ⊢
      obtain ⟨bound, rfl⟩ : ∃ b, bound = b + 1 := ⟨bound - 1, by omega⟩
      have hends : Ends (']' :: rest) := ends_cons (by decide) rest
      have hread := document?_write v (hv v List.mem_cons_self) (by omega : _ ≤ bound) hends
      exact items?_last hread rfl
  | v, w :: vs, bound, hv, hbound, rest => by
      rw [writeItems_cons, List.length_append, List.length_cons] at hbound
      obtain ⟨bound, rfl⟩ : ∃ b, bound = b + 1 := ⟨bound - 1, by omega⟩
      obtain ⟨hv, hvs⟩ := List.forall_mem_cons.1 hv
      have hends : Ends (',' :: (writeItems (w :: vs) ++ ']' :: rest)) := ends_cons (by decide) _
      have hread := document?_write v hv (by omega : _ ≤ bound) hends
      rw [writeItems_cons, List.append_assoc, List.cons_append]
      exact items?_cons hread rfl (items?_write w vs hvs (by omega) rest)

theorem members?_write :
    ∀ (x : String × Json) (xs : List (String × Json)) {bound : Nat},
      (∀ y ∈ x :: xs, y.2.Legible) → 2 * (writeFields (x :: xs)).length + 1 ≤ bound →
      ∀ rest : List Char, members? (bound + 1) (writeFields (x :: xs) ++ '\x7d' :: rest) =
        some (Document.ofFields (x :: xs), rest)
  | (k, v), [], bound, hv, hbound, rest => by
      rw [writeFields, writeString] at hbound ⊢
      simp only [List.length_cons, List.length_append] at hbound
      obtain ⟨bound, rfl⟩ : ∃ b, bound = b + 1 := ⟨bound - 1, by omega⟩
      have hends : Ends ('\x7d' :: rest) := ends_cons (by decide) rest
      have hread := document?_write v (hv (k, v) List.mem_cons_self) (by omega : _ ≤ bound) hends
      simp only [List.cons_append, List.append_assoc, List.nil_append]
      exact members?_last (string?_write k _) hread rfl
  | (k, v), y :: xs, bound, hv, hbound, rest => by
      rw [writeFields_cons, writeString] at hbound ⊢
      simp only [List.length_cons, List.length_append] at hbound
      obtain ⟨bound, rfl⟩ : ∃ b, bound = b + 1 := ⟨bound - 1, by omega⟩
      obtain ⟨hv, hxs⟩ := List.forall_mem_cons.1 hv
      have hends : Ends (',' :: (writeFields (y :: xs) ++ '\x7d' :: rest)) :=
        ends_cons (by decide) _
      have hread := document?_write v hv (by omega : _ ≤ bound) hends
      simp only [List.cons_append, List.append_assoc, List.nil_append]
      exact members?_cons (string?_write k _) hread rfl (members?_write y xs hxs (by omega) rest)

end

end Reader

section Texts

variable {v : Json}

theorem read?_write
    (h : v.Legible) :
    Document.read? (write v) = some (Document.ofJson v) := by
  have hread := Reader.document?_write v h (by omega : _ ≤ 2 * (write v).length + 1)
    Reader.ends_nil
  rw [List.append_nil] at hread
  unfold Document.read?
  rw [hread]
  rfl

/-- The compact text of a value denotes the value, if this is not nested too deep. -/
theorem parse?_compact
    (hcan : v.Canonical) (h : v.Legible) :
    parse? v.compact = if v.depth ≤ maxDepth then some v else none := by
  unfold parse? compact
  rw [String.toList_ofList, read?_write h]
  exact Document.value?_ofJson v maxDepth hcan

theorem floatFree_of_item
    {items : List Json} (h : FloatFreeItems items) (hv : v ∈ items) :
    v.FloatFree := by
  induction items with
  | nil => simp at hv
  | cons w rest ih =>
      rcases List.mem_cons.1 hv with rfl | hv
      · exact h.1
      · exact ih h.2 hv

theorem floatFree_of_entry
    {fields : List (String × Json)} (h : FloatFreeFields fields) {x : String × Json}
    (hx : x ∈ fields) :
    x.2.FloatFree := by
  induction fields with
  | nil => simp at hx
  | cons y rest ih =>
      rcases List.mem_cons.1 hx with rfl | hx
      · exact h.1
      · exact ih h.2 hx

theorem Inside.floatFree
    {w : Json} (h : Inside w v) (hv : v.FloatFree) :
    w.FloatFree := by
  induction h with
  | item h => exact floatFree_of_item hv h
  | entry h => exact floatFree_of_entry hv h
  | trans _ _ ih ih' => exact ih (ih' hv)

/-- Without floating-point numbers there is nothing that might not be read back. -/
theorem FloatFree.legible
    (h : v.FloatFree) :
    v.Legible := by
  rintro x (rfl | hx)
  · exact h.elim
  · exact (hx.floatFree h).elim

end Texts

end Json

end Allotment
