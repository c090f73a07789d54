import Allotment.Json.Basic

/-!
# The grammar of definitions

Which JSON values are definitions, said by a table of the fields of the operators and by rules
over the value, without reading it.

A list of definitions, a value of another kind and an object without the entry `op` are
definitions.  An object with the entry `op` names an operator there and has the fields of the
operator, each with a content of its kind.

**Results.**
* `wellFormed_array_iff`, `wellFormed_map_iff`, `wellFormed_operator_iff`: the rules, read
  backwards.
-/

namespace Allotment

namespace Grammar

/-- What a field of an operator holds. -/
inductive Content where
  /-- Any value, which is not looked into. -/
  | anything
  | text
  | expression
  | expressions
  | branches
deriving DecidableEq, Repr

/-- A field of an operator. -/
structure Slot where
  key : String
  content : Content
  optional : Bool
deriving DecidableEq, Repr

/-- Required fields that hold a definition. -/
def operands (keys : List String) : List Slot := keys.map fun k => ⟨k, .expression, false⟩

/-- The fields that all random operators have. -/
def draw : List Slot :=
  [⟨"unit", .expression, false⟩, ⟨"salt", .text, true⟩, ⟨"full_salt", .text, true⟩]

/-- The fields of the operators, except for `map`, which has no fixed ones. -/
def slots? : String → Option (List Slot)
  | "literal" => some [⟨"value", .anything, false⟩]
  | "get" => some [⟨"var", .text, false⟩]
  | "set" => some [⟨"var", .text, false⟩, ⟨"value", .expression, false⟩]
  | "seq" => some [⟨"seq", .expressions, false⟩]
  | "cond" => some [⟨"cond", .branches, false⟩]
  | "coalesce" | "and" | "or" => some [⟨"values", .expressions, false⟩]
  | "index" => some (operands ["base", "index"])
  | "return" | "not" | "negative" | "round" | "length" => some (operands ["value"])
  | "array" | "sum" | "product" | "min" | "max" => some (operands ["values"])
  | "equals" | "greaterThan" | "lessThan" | "greaterThanOrEqualTo" | "lessThanOrEqualTo"
  | "%" | "/" => some (operands ["left", "right"])
  | "uniformChoice" => some (operands ["choices"] ++ draw)
  | "weightedChoice" => some (operands ["choices", "weights"] ++ draw)
  | "bernoulliTrial" => some (operands ["p"] ++ draw)
  | "bernoulliFilter" => some (operands ["p", "choices"] ++ draw)
  | "randomFloat" | "randomInteger" => some (operands ["min", "max"] ++ draw)
  | "sample" => some (operands ["choices"] ++ ⟨"draws", .expression, true⟩ :: draw)
  | _ => none

mutual

/-- The value is a definition. -/
inductive WellFormed : Json → Prop
  | null : WellFormed .null
  | bool (b : Bool) : WellFormed (.bool b)
  | number (n : Json.Number) : WellFormed (.number n)
  | string (s : String) : WellFormed (.string s)
  | array {items : List Json} (h : ∀ v ∈ items, WellFormed v) : WellFormed (.array items)
  /-- An object without the entry `op`, whatever it holds. -/
  | plain {fields : List (String × Json)} (hop : Dict.get? fields "op" = none) :
      WellFormed (.object fields)
  /-- The operator `map`, with entries of any names. -/
  | map {fields : List (String × Json)} (hop : Dict.get? fields "op" = some (.string "map"))
      (h : ∀ x ∈ fields, x.1 ≠ "op" → WellFormed x.2) : WellFormed (.object fields)
  /-- Any other operator: it has no fields but its own, all that are required, and in each what
  the field holds. -/
  | operator {fields : List (String × Json)} {name : String} {slots : List Slot}
      (hop : Dict.get? fields "op" = some (.string name)) (hslots : slots? name = some slots)
      (hknown : ∀ x ∈ fields, x.1 = "op" ∨ x.1 ∈ slots.map Slot.key)
      (hpresent : ∀ s ∈ slots, s.optional = false → (Dict.get? fields s.key).isSome)
      (hholds : ∀ s ∈ slots, ∀ v, Dict.get? fields s.key = some v → Holds s.content v) :
      WellFormed (.object fields)

/-- The value is what a field with the content holds. -/
inductive Holds : Content → Json → Prop
  | anything (v : Json) : Holds .anything v
  | text (s : String) : Holds .text (.string s)
  | expression {v : Json} (h : WellFormed v) : Holds .expression v
  | expressions {items : List Json} (h : ∀ v ∈ items, WellFormed v) :
      Holds .expressions (.array items)
  | branches {items : List Json} (h : ∀ v ∈ items, IsBranch v) : Holds .branches (.array items)

/-- The value is an object of a condition and a consequence. -/
inductive IsBranch : Json → Prop
  | object {fields : List (String × Json)} {condition consequence : Json}
      (hknown : ∀ x ∈ fields, x.1 = "if" ∨ x.1 = "then")
      (hif : Dict.get? fields "if" = some condition) (hcondition : WellFormed condition)
      (hthen : Dict.get? fields "then" = some consequence)
      (hconsequence : WellFormed consequence) : IsBranch (.object fields)

end

/-- The object has the field, unless the field is optional, with what the field holds. -/
def Slot.Met (fields : List (String × Json)) (s : Slot) : Prop :=
  (s.optional = false → (Dict.get? fields s.key).isSome) ∧
    ∀ v, Dict.get? fields s.key = some v → Holds s.content v

theorem wellFormed_array_iff
    {items : List Json} :
    WellFormed (.array items) ↔ ∀ v ∈ items, WellFormed v := by
  constructor
  · intro h
    cases h with
    | array h => exact h
  · exact .array

theorem slots?_map : slots? "map" = none := by rfl

theorem not_wellFormed_of_nameNotString
    {fields : List (String × Json)} {found : Json} (hop : Dict.get? fields "op" = some found)
    (hfound : ∀ name, found ≠ .string name) :
    ¬ WellFormed (.object fields) := by
  intro h
  cases h with
  | plain hop' => simp [hop] at hop'
  | map hop' =>
      cases hop.symm.trans hop'
      exact hfound _ rfl
  | operator hop' =>
      cases hop.symm.trans hop'
      exact hfound _ rfl

theorem wellFormed_map_iff
    {fields : List (String × Json)} (hop : Dict.get? fields "op" = some (.string "map")) :
    WellFormed (.object fields) ↔ ∀ x ∈ fields, x.1 ≠ "op" → WellFormed x.2 := by
  constructor
  · intro h
    cases h with
    | plain hop' => simp [hop] at hop'
    | map _ h => exact h
    | operator hop' hslots =>
        cases hop.symm.trans hop'
        simp [slots?_map] at hslots
  · exact .map hop

theorem wellFormed_operator_iff
    {fields : List (String × Json)} {name : String}
    (hop : Dict.get? fields "op" = some (.string name)) (hname : name ≠ "map") :
    WellFormed (.object fields) ↔
      ∃ slots, slots? name = some slots ∧ (∀ s ∈ slots, s.Met fields) ∧
        ∀ x ∈ fields, x.1 = "op" ∨ x.1 ∈ slots.map Slot.key := by
  constructor
  · intro h
    cases h with
    | plain hop' => simp [hop] at hop'
    | map hop' =>
        cases hop.symm.trans hop'
        exact absurd rfl hname
    | operator hop' hslots hknown hpresent hholds =>
        cases hop.symm.trans hop'
        exact ⟨_, hslots, fun s hs => ⟨hpresent s hs, hholds s hs⟩, hknown⟩
  · rintro ⟨slots, hslots, hmet, hknown⟩
    exact .operator hop hslots hknown (fun s hs => (hmet s hs).1) (fun s hs => (hmet s hs).2)

end Grammar

end Allotment
