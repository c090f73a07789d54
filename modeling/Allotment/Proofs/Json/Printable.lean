import Allotment.Proofs.Json.Parts
import Allotment.Proofs.Json.Separated
import Allotment.Proofs.Text.Printable

/-!
# Spelled values and printable strings

A value is spelled out with its strings in quotes.  It could be spelled out with the printable
forms of its strings instead.  The two texts are the same where every string in the value, the
names of entries among them, is quoted as its printable form; one difference is enough to make the
printable text longer.

**Results.**
* `spelledWith_sameIff`: a text of a value beside another one, from the texts of its strings.
* `spelling_printable_iff`: the values that are spelled with the printable forms of their strings.
* `noBreakSpace_unescaped`: not all of them are.
-/

namespace Allotment

namespace Json

open Text (Database SameIff)

mutual

/-- The strings in a value, with the names of entries. -/
def strings : Json → List String
  | .string s => [s]
  | .array items => stringsOfItems items
  | .object fields => stringsOfEntries fields
  | _ => []

/-- The strings in some items. -/
def stringsOfItems : List Json → List String
  | [] => []
  | v :: rest => strings v ++ stringsOfItems rest

/-- The names of some entries and the strings in their values. -/
def stringsOfEntries : List (String × Json) → List String
  | [] => []
  | (k, v) :: rest => k :: (strings v ++ stringsOfEntries rest)

end

section Strings

variable {P : String → Prop}

theorem forall_strings_array
    {items : List Json} :
    (∀ s ∈ (Json.array items).strings, P s) ↔ ∀ v ∈ items, ∀ s ∈ v.strings, P s := by
  show (∀ s ∈ stringsOfItems items, P s) ↔ _
  induction items with
  | nil => simp [stringsOfItems]
  | cons v rest ih =>
      rw [stringsOfItems, List.forall_mem_append, ih, List.forall_mem_cons]

theorem forall_strings_object
    {fields : List (String × Json)} :
    (∀ s ∈ (Json.object fields).strings, P s) ↔
      ∀ x ∈ fields, P x.1 ∧ ∀ s ∈ x.2.strings, P s := by
  show (∀ s ∈ stringsOfEntries fields, P s) ↔ _
  induction fields with
  | nil => simp [stringsOfEntries]
  | cons x rest ih =>
      rw [stringsOfEntries, List.forall_mem_cons, List.forall_mem_append, ih, List.forall_mem_cons,
        and_assoc]

end Strings

theorem separated_sameIff
    {α : Type} {R : α → Prop} {f g : α → List Char} {as : List α}
    (h : ∀ a ∈ as, SameIff (R a) (f a) (g a)) :
    SameIff (∀ a ∈ as, R a) (separated f as) (separated g as) := by
  induction as with
  | nil => exact .of_eq rfl (by simp)
  | cons a as ih =>
      obtain ⟨ha, has⟩ := List.forall_mem_cons.1 h
      cases as with
      | nil => exact ha.of_iff (by simp)
      | cons b as =>
          rw [separated_cons, separated_cons]
          exact (ha.append (((ih has).cons ' ').cons ',')).of_iff List.forall_mem_cons

/-- The text of a value beside another one, from the texts of its strings. -/
theorem spelledWith_sameIff
    {P : String → Prop} {f g : String → List Char} (h : ∀ s, SameIff (P s) (f s) (g s))
    (v : Json) :
    SameIff (∀ s ∈ v.strings, P s) (spelledWith f v) (spelledWith g v) := by
  induction v using induction_on_size with
  | h v ih =>
      cases v with
      | null => exact .of_eq rfl (by simp [strings])
      | bool b => exact .of_eq (by cases b <;> rfl) (by simp [strings])
      | number n => exact .of_eq rfl (by simp [strings])
      | string s => exact (h s).of_iff (by simp [strings])
      | array items =>
          rw [spelledWith_array, spelledWith_array]
          have hitems := separated_sameIff fun v hv => ih v (sizeOf_item_lt hv)
          exact (hitems.between ['['] [']']).of_iff forall_strings_array
      | object fields =>
          rw [spelledWith_object, spelledWith_object]
          have hentry (x) (hx : x ∈ fields) := (h x.1).append
            (((ih x.2 (sizeOf_entry_lt hx)).cons ' ').cons ':')
          exact ((separated_sameIff hentry).between ['\x7b'] ['\x7d']).of_iff forall_strings_object

/-- By any version of the character database: a string is spelled, alone, as its printable form
exactly if it holds no character that cannot be printed as it stands but control characters; and a
value is spelled with the printable forms of its strings and of the names of its entries, wherever
they stand in it, exactly if all of these are such strings. -/
theorem spelling_printable_iff (u : Database) :
    (∀ s : String, spell (.string s) = u.print s ↔
      ∀ c ∈ s.toList, u.Printable c ∨ Text.isControl c = true) ∧
    ∀ v : Json, spell v = spelledWith u.print v ↔
      ∀ s ∈ v.strings, ∀ c ∈ s.toList, u.Printable c ∨ Text.isControl c = true := by
  have hvalue (v : Json) :
      spell v = spelledWith u.print v ↔ ∀ s ∈ v.strings, u.Shows s := by
    rw [spell_eq_spelledWith]
    exact (spelledWith_sameIff u.quote_sameIff v).eq_iff
  exact ⟨fun s => (u.quote_sameIff s).eq_iff, hvalue⟩

/-- A name with a tabulator, two apostrophes of different kinds and a control character behind the
ASCII ones, quoted in a list and as the name of an entry. -/
theorem sample_printable :
    let s := "d\u2019Été\t'\u0085"
    let v : Json := .object [(s, .array [.string s, .null])]
    (∀ c ∈ s.toList, Text.sampleDatabase.Printable c ∨ Text.isControl c = true) ∧
      spell (.string s) = Text.sampleDatabase.print s ∧
      spell v = spelledWith Text.sampleDatabase.print v := by
  intro s v
  have hall : (s.toList.all fun c =>
      decide (Text.sampleDatabase.Printable c ∨ Text.isControl c = true)) = true := by decide
  have hshows : ∀ c ∈ s.toList, Text.sampleDatabase.Printable c ∨ Text.isControl c = true :=
    fun c hc => of_decide_eq_true (List.all_eq_true.1 hall c hc)
  obtain ⟨hstring, hvalue⟩ := spelling_printable_iff Text.sampleDatabase
  refine ⟨hshows, (hstring s).2 hshows, (hvalue v).2 ?_⟩
  intro t ht
  obtain rfl : t = s := by
    simpa [v, strings, stringsOfEntries, stringsOfItems] using ht
  exact hshows

/-- A string with a no-break space is not spelled as its printable form, which writes the space by
its code point; neither is it where it is an item or the name of an entry. -/
theorem noBreakSpace_unescaped :
    spell (.string "\u00A0") = "'\u00A0'".toList ∧
    Text.sampleDatabase.print "\u00A0" = "'\\xa0'".toList ∧
    spell (.array [.string "\u00A0"]) ≠
      spelledWith Text.sampleDatabase.print (.array [.string "\u00A0"]) ∧
    spell (.object [("\u00A0", .null)]) ≠
      spelledWith Text.sampleDatabase.print (.object [("\u00A0", .null)]) := by
  refine ⟨by decide, by decide, by decide, by decide⟩

end Json

end Allotment
