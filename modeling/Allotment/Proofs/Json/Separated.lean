import Allotment.Json.Label

/-!
# Texts of values from the texts of their parts

A value is spelled out from the texts of its strings and of the names of its entries.  Between
items and between entries there is a comma and a blank.

**Results.**
* `spelledWith_array`, `spelledWith_object`: the text of a list or an object from those of its
  parts.
* `spell_eq_spelledWith`: a value is spelled out with its strings in quotes.
-/

namespace Allotment

namespace Json

section Separated

variable {α : Type}

/-- Texts of items with a comma and a blank between them. -/
def separated (text : α → List Char) : List α → List Char
  | [] => []
  | [a] => text a
  | a :: rest => text a ++ ',' :: ' ' :: separated text rest

theorem separated_cons (text : α → List Char) (a b : α) (as : List α) :
    separated text (a :: b :: as) = text a ++ ',' :: ' ' :: separated text (b :: as) := by
  rw [separated]
  simp

end Separated

mutual

/-- A value spelled out, every string and every name of an entry in the given text. -/
def spelledWith (text : String → List Char) : Json → List Char
  | .null => "None".toList
  | .bool true => "True".toList
  | .bool false => "False".toList
  | .number n => spellNumber n
  | .string s => text s
  | .array items => '[' :: (itemsWith text items ++ [']'])
  | .object fields => '\x7b' :: (entriesWith text fields ++ ['\x7d'])

/-- Items with a comma and a blank between them. -/
def itemsWith (text : String → List Char) : List Json → List Char
  | [] => []
  | [v] => spelledWith text v
  | v :: rest => spelledWith text v ++ ',' :: ' ' :: itemsWith text rest

/-- Entries with a comma and a blank between them. -/
def entriesWith (text : String → List Char) : List (String × Json) → List Char
  | [] => []
  | [(k, v)] => text k ++ ':' :: ' ' :: spelledWith text v
  | (k, v) :: rest =>
      text k ++ ':' :: ' ' :: (spelledWith text v ++ ',' :: ' ' :: entriesWith text rest)

end

/-- The text of an entry. -/
def entryWith (text : String → List Char) (x : String × Json) : List Char :=
  text x.1 ++ ':' :: ' ' :: spelledWith text x.2

section Parts

variable (text : String → List Char)

theorem itemsWith_eq (items : List Json) :
    itemsWith text items = separated (spelledWith text) items := by
  induction items with
  | nil => rfl
  | cons v rest ih =>
      cases rest with
      | nil => rfl
      | cons w rest =>
          rw [separated_cons, ← ih]
          rfl

theorem entriesWith_eq (fields : List (String × Json)) :
    entriesWith text fields = separated (entryWith text) fields := by
  induction fields with
  | nil => rfl
  | cons x rest ih =>
      cases rest with
      | nil => rfl
      | cons y rest =>
          have hcons : entriesWith text (x :: y :: rest) =
              text x.1 ++ ':' :: ' ' ::
                (spelledWith text x.2 ++ ',' :: ' ' :: entriesWith text (y :: rest)) := rfl
          rw [separated_cons, ← ih, hcons]
          simp [entryWith]

theorem spelledWith_array (items : List Json) :
    spelledWith text (.array items) = '[' :: (separated (spelledWith text) items ++ [']']) := by
  rw [← itemsWith_eq]
  rfl

theorem spelledWith_object (fields : List (String × Json)) :
    spelledWith text (.object fields) =
      '\x7b' :: (separated (entryWith text) fields ++ ['\x7d']) := by
  rw [← entriesWith_eq]
  rfl

end Parts

mutual

/-- A value is spelled out with its strings in quotes. -/
theorem spell_eq_spelledWith : ∀ v : Json, spell v = spelledWith Text.quote v
  | .null => rfl
  | .bool true => rfl
  | .bool false => rfl
  | .number _ => rfl
  | .string _ => rfl
  | .array items =>
      congrArg (fun text => '[' :: (text ++ [']'])) (spellItems_eq_itemsWith items)
  | .object fields =>
      congrArg (fun text => '\x7b' :: (text ++ ['\x7d'])) (spellFields_eq_entriesWith fields)

theorem spellItems_eq_itemsWith : ∀ items, spellItems items = itemsWith Text.quote items
  | [] => rfl
  | [v] => spell_eq_spelledWith v
  | v :: w :: rest => by
      show spell v ++ ',' :: ' ' :: spellItems (w :: rest) = _
      rw [spell_eq_spelledWith v, spellItems_eq_itemsWith (w :: rest)]
      rfl

theorem spellFields_eq_entriesWith : ∀ fields, spellFields fields = entriesWith Text.quote fields
  | [] => rfl
  | [(k, v)] => congrArg (fun text => Text.quote k ++ ':' :: ' ' :: text) (spell_eq_spelledWith v)
  | (k, v) :: x :: rest => by
      show Text.quote k ++ ':' :: ' ' :: (spell v ++ ',' :: ' ' :: spellFields (x :: rest)) = _
      rw [spell_eq_spelledWith v, spellFields_eq_entriesWith (x :: rest)]
      rfl

end

end Json

end Allotment
