import Allotment.Proofs.Expr.Fields
import Allotment.Proofs.Expr.Grammar
import Allotment.Proofs.Json.Parts

/-!
# What is read as an expression

The reader accepts the values of the grammar and no others, and refuses every other value for a
fault of an operator.

A result decides a proposition if it is a value where the proposition holds, and such a fault
where it does not.  The reading of a field decides whether the field holds what the grammar says;
a form decides this for all its fields, since it reads one after the other; and the operator,
which refuses unknown fields after that, decides whether its object is a definition.

**Results.**
* `follows_ofName?`: the form of an operator decides whether the fields of the operator are met.
* `judged`: the reader decides whether a value is a definition.
* `ofJson_accepts_iff`: so it accepts exactly the definitions.
-/

namespace Allotment

open Allotment.Expr (readings fieldOf ofJson)
open Grammar (WellFormed Holds IsBranch Slot Content slots?)

/-- The result is a value where the proposition holds, and a fault of an operator where it does
not. -/
inductive Decides (P : Prop) {α : Type} : Except Fault α → Prop
  | ok (a : α) (h : P) : Decides P (.ok a)
  | error (why : OperatorFault) (h : ¬ P) : Decides P (.error (.invalidOperator why))

namespace Decides

variable {P Q : Prop} {α β γ : Type}

theorem of_iff
    {r : Except Fault α} (hr : Decides P r) (h : Q ↔ P) :
    Decides Q r := by
  cases hr with
  | ok a hp => exact .ok a (h.2 hp)
  | error why hp => exact .error why fun hq => hp (h.1 hq)

theorem isOk_iff
    {r : Except Fault α} (hr : Decides P r) :
    r.isOk = true ↔ P := by
  cases hr with
  | ok a hp => exact ⟨fun _ => hp, fun _ => rfl⟩
  | error why hp => exact ⟨fun h => (nomatch h), fun h => absurd h hp⟩

theorem map
    {r : Except Fault α} (hr : Decides P r) (f : α → β) :
    Decides P (r.map f) := by
  cases hr with
  | ok a hp => exact .ok (f a) hp
  | error why hp => exact .error why hp

/-- Two results, of which the second counts only if the first is a value, decide both
propositions. -/
theorem both
    {r : Except Fault α} {q : Except Fault β} (hr : Decides P r) (hq : Decides Q q)
    (f : α → β → γ) :
    Decides (P ∧ Q) (do return f (← r) (← q)) := by
  cases hr with
  | error why hp => exact .error why fun h => hp h.1
  | ok a hp =>
      cases hq with
      | error why hq => exact .error why fun h => hq h.2
      | ok b hq => exact .ok (f a b) ⟨hp, hq⟩

end Decides

/-- Reading the value decides whether it is a definition. -/
def Json.Judged (v : Json) : Prop := Decides (WellFormed v) (ofJson v)

namespace Expr

theorem ofItems_decides
    {items : List Json} (h : ∀ v ∈ items, v.Judged) :
    Decides (∀ v ∈ items, WellFormed v) (ofItems items) := by
  induction items with
  | nil => exact .ok [] (by simp)
  | cons v rest ih =>
      have hv : v.Judged := h v List.mem_cons_self
      have hrest := ih fun w hw => h w (List.mem_cons_of_mem _ hw)
      rw [ofItems_cons]
      exact (hv.both hrest List.cons).of_iff List.forall_mem_cons

theorem ofEntries_decides
    {fields : List (String × Json)} (h : ∀ x ∈ fields, x.2.Judged) :
    Decides (∀ x ∈ fields, x.1 ≠ "op" → WellFormed x.2) (ofEntries fields) := by
  induction fields with
  | nil => exact .ok [] (by simp)
  | cons x rest ih =>
      obtain ⟨k, v⟩ := x
      have hv : v.Judged := h (k, v) List.mem_cons_self
      have hrest := ih fun y hy => h y (List.mem_cons_of_mem _ hy)
      by_cases hop : k = "op"
      · subst hop
        exact hrest.of_iff (by simp)
      · rw [ofEntries_cons rest v hop]
        refine (hv.both hrest fun x xs => (k, x) :: xs).of_iff ?_
        rw [List.forall_mem_cons]
        simp [hop]

theorem branchPart_decides
    {fields : List (String × Json)} (h : (Json.object fields).Below Json.Judged) (part : String) :
    Decides (∃ v, Dict.get? fields part = some v ∧ WellFormed v)
      (branchPart part (readings fields)) := by
  unfold branchPart
  rw [get?_readings]
  cases hv : Dict.get? fields part with
  | none => exact .error _ (by simp)
  | some v =>
      have hjudged : v.Judged := h.entry hv
      exact hjudged.of_iff (by simp)

theorem ofBranch_decides
    {v : Json} (h : v.Below Json.Judged) :
    Decides (IsBranch v) (ofBranch v) := by
  cases v with
  | object fields =>
      cases hfind : fields.find? fun x => x.1 != "if" && x.1 != "then" with
      | some x =>
        rw [ofBranch, hfind]
        refine .error _ fun hb => ?_
        cases hb with
        | object hknown =>
            rw [← find?_unknownPart_eq_none_iff, hfind] at hknown
            cases hknown
      | none =>
        rw [ofBranch_of_known hfind]
        have hknown := find?_unknownPart_eq_none_iff.1 hfind
        refine ((branchPart_decides h "if").both (branchPart_decides h "then") Prod.mk).of_iff ?_
        constructor
        · intro hb
          cases hb with
          | object _ hif hcondition hthen hconsequence =>
              exact ⟨⟨_, hif, hcondition⟩, ⟨_, hthen, hconsequence⟩⟩
        · rintro ⟨⟨c, hif, hc⟩, ⟨e, hthen, he⟩⟩
          exact .object hknown hif hc hthen he
  | _ => exact .error _ fun hb => by cases hb

theorem ofBranches_decides
    {items : List Json} (h : ∀ v ∈ items, v.Below Json.Judged) :
    Decides (∀ v ∈ items, IsBranch v) (ofBranches items) := by
  induction items with
  | nil => exact .ok [] (by simp)
  | cons v rest ih =>
      have hv := ofBranch_decides (h v List.mem_cons_self)
      have hrest := ih fun w hw => h w (List.mem_cons_of_mem _ hw)
      rw [ofBranches_cons]
      exact (hv.both hrest List.cons).of_iff List.forall_mem_cons

end Expr

namespace Form

variable {α β : Type} {fields : List (String × Json)}

/-- The form reads the fields of the slots, and decides whether the object meets them. -/
structure Follows (fields : List (String × Json)) (form : Form α) (slots : List Slot) : Prop where
  /-- The form names the fields of the slots. -/
  keys : form.keys = slots.map Slot.key
  /-- The form decides whether the slots are met. -/
  decides : ∀ op, Decides (∀ s ∈ slots, s.Met fields) (form.read op (readings fields))

namespace Follows

theorem seq
    {f : Form (α → β)} {x : Form α} {slots slots' : List Slot}
    (hf : Follows fields f slots) (hx : Follows fields x slots') :
    Follows fields (f.seq x) (slots ++ slots') where
  keys := by
    rw [List.map_append, ← hf.keys, ← hx.keys]
    rfl
  decides op := by
    rw [seq_read]
    exact ((hf.decides op).both (hx.decides op) fun g a => g a).of_iff List.forall_mem_append

theorem map
    {x : Form α} {slots : List Slot} (hx : Follows fields x slots) (g : α → β) :
    Follows fields (x.map g) slots where
  keys := hx.keys
  decides op := (hx.decides op).map g

theorem required
    {key : String} {content : Content} {f : String → Field → Except Fault α}
    (h : ∀ v op, Dict.get? fields key = some v → Decides (Holds content v) (f op (fieldOf v))) :
    Follows fields (Form.required key f) [⟨key, content, false⟩] where
  keys := rfl
  decides op := by
    cases hv : Dict.get? fields key with
    | none =>
        rw [required_read_none f op hv]
        exact .error _ fun hmet => by simpa [hv] using (hmet _ List.mem_cons_self).1
    | some v =>
        rw [required_read f op hv]
        exact (h v op hv).of_iff (by simp [Slot.Met, hv])

theorem optional
    {key : String} {content : Content} {f : String → Field → Except Fault α}
    (h : ∀ v op, Dict.get? fields key = some v → Decides (Holds content v) (f op (fieldOf v))) :
    Follows fields (Form.optional key f) [⟨key, content, true⟩] where
  keys := rfl
  decides op := by
    cases hv : Dict.get? fields key with
    | none =>
        rw [optional_read_none f op hv]
        exact .ok _ (by simp [Slot.Met, hv])
    | some v =>
        rw [optional_read f op hv]
        exact ((h v op hv).map some).of_iff (by simp [Slot.Met, hv])

end Follows

theorem asText_decides (key op : String) (v : Json) :
    Decides (Holds .text v) (asText key op (fieldOf v)) := by
  cases v with
  | string s => exact .ok s (.text s)
  | _ => exact .error _ fun h => nomatch h

theorem follows_json (key : String) :
    Follows fields (json key) [⟨key, .anything, false⟩] :=
  .required fun v _ _ => .ok v (.anything v)

theorem follows_text (key : String) :
    Follows fields (text key) [⟨key, .text, false⟩] :=
  .required fun v op _ => asText_decides key op v

theorem follows_text? (key : String) :
    Follows fields (text? key) [⟨key, .text, true⟩] :=
  .optional fun v op _ => asText_decides key op v

theorem expr_decides
    {v : Json} (h : v.Judged) :
    Decides (Holds .expression v) ((fieldOf v).expr ()) := by
  refine h.of_iff ?_
  constructor
  · intro hv
    cases hv with
    | expression hv => exact hv
  · exact .expression

section Operators

variable (hparts : (Json.object fields).Below Json.Judged)
include hparts

theorem follows_expr (key : String) :
    Follows fields (expr key) [⟨key, .expression, false⟩] :=
  .required fun _ _ hv => expr_decides (hparts.entry hv)

theorem follows_expr? (key : String) :
    Follows fields (expr? key) [⟨key, .expression, true⟩] :=
  .optional fun _ _ hv => expr_decides (hparts.entry hv)

theorem follows_exprs (key : String) :
    Follows fields (exprs key) [⟨key, .expressions, false⟩] := by
  refine .required fun v op hv => ?_
  cases v with
  | array items =>
      have hitems := Expr.ofItems_decides fun w hw => (hparts.of_entry hv).item hw
      refine hitems.of_iff ⟨fun h => ?_, .expressions⟩
      cases h with
      | expressions h => exact h
  | _ => exact .error _ fun h => nomatch h

theorem follows_branches (key : String) :
    Follows fields (branches key) [⟨key, .branches, false⟩] := by
  refine .required fun v op hv => ?_
  cases v with
  | array items =>
      have hitems := Expr.ofBranches_decides fun w hw => (hparts.of_entry hv).of_item hw
      refine hitems.of_iff ⟨fun h => ?_, .branches⟩
      cases h with
      | branches h => exact h
  | _ => exact .error _ fun h => nomatch h

theorem follows_one (key : String) (g : Expr → α) :
    Follows fields ((expr key).map g) (Grammar.operands [key]) :=
  (follows_expr hparts key).map g

theorem follows_two (key key' : String) (g : Expr → Expr → α) :
    Follows fields (((expr key).map g).seq (expr key')) (Grammar.operands [key, key']) :=
  (follows_one hparts key g).seq (follows_expr hparts key')

theorem follows_random
    {draw : Form (Lottery Expr)} {slots : List Slot} (h : Follows fields draw slots) :
    Follows fields (random draw) (slots ++ Grammar.draw) := by
  have hrandom := (((h.map Expr.random).seq (follows_expr hparts "unit")).seq
    (follows_text? "salt")).seq (follows_text? "full_salt")
  rw [List.append_assoc, List.append_assoc] at hrandom
  exact hrandom

/-- The form of an operator follows the slots of the operator. -/
theorem follows_ofName?
    {name : String} {form : Form Expr} (h : ofName? name = some form) :
    ∃ slots, slots? name = some slots ∧ Follows fields form slots := by
  unfold ofName? at h
  split at h <;> cases h
  · exact ⟨_, rfl, (follows_json _).map _⟩
  · exact ⟨_, rfl, (follows_text _).map _⟩
  · exact ⟨_, rfl, ((follows_text _).map _).seq (follows_expr hparts _)⟩
  · exact ⟨_, rfl, (follows_exprs hparts _).map _⟩
  · exact ⟨_, rfl, follows_one hparts _ _⟩
  · exact ⟨_, rfl, (follows_branches hparts _).map _⟩
  · exact ⟨_, rfl, follows_one hparts _ _⟩
  · exact ⟨_, rfl, follows_two hparts _ _ _⟩
  · exact ⟨_, rfl, (follows_exprs hparts _).map _⟩
  · exact ⟨_, rfl, (follows_exprs hparts _).map _⟩
  · exact ⟨_, rfl, (follows_exprs hparts _).map _⟩
  · exact ⟨_, rfl, follows_two hparts _ _ _⟩
  · exact ⟨_, rfl, follows_two hparts _ _ _⟩
  · exact ⟨_, rfl, follows_two hparts _ _ _⟩
  · exact ⟨_, rfl, follows_two hparts _ _ _⟩
  · exact ⟨_, rfl, follows_two hparts _ _ _⟩
  · exact ⟨_, rfl, follows_one hparts _ _⟩
  · exact ⟨_, rfl, follows_one hparts _ _⟩
  · exact ⟨_, rfl, follows_one hparts _ _⟩
  · exact ⟨_, rfl, follows_one hparts _ _⟩
  · exact ⟨_, rfl, follows_two hparts _ _ _⟩
  · exact ⟨_, rfl, follows_two hparts _ _ _⟩
  · exact ⟨_, rfl, follows_one hparts _ _⟩
  · exact ⟨_, rfl, follows_one hparts _ _⟩
  · exact ⟨_, rfl, follows_one hparts _ _⟩
  · exact ⟨_, rfl, follows_one hparts _ _⟩
  · exact ⟨_, rfl, follows_random hparts (follows_one hparts _ _)⟩
  · exact ⟨_, rfl, follows_random hparts (follows_two hparts _ _ _)⟩
  · exact ⟨_, rfl, follows_random hparts (follows_one hparts _ _)⟩
  · exact ⟨_, rfl, follows_random hparts (follows_two hparts _ _ _)⟩
  · exact ⟨_, rfl, follows_random hparts (follows_two hparts _ _ _)⟩
  · exact ⟨_, rfl, follows_random hparts (follows_two hparts _ _ _)⟩
  · exact ⟨_, rfl, follows_random hparts ((follows_one hparts _ _).seq (follows_expr? hparts _))⟩

end Operators

/-- A name with slots has a form. -/
theorem ofName?_of_slots?
    {name : String} {slots : List Slot} (h : slots? name = some slots) :
    ∃ form, ofName? name = some form := by
  unfold slots? at h
  split at h <;> cases h
  all_goals exact ⟨_, rfl⟩

/-- The reading of an operator decides whether its name has slots that the object meets, without
other fields. -/
theorem build_decides
    (hparts : (Json.object fields).Below Json.Judged) (name : String) :
    Decides (∃ slots, slots? name = some slots ∧ (∀ s ∈ slots, s.Met fields) ∧
        ∀ x ∈ fields, x.1 = "op" ∨ x.1 ∈ slots.map Slot.key)
      (build name (readings fields)) := by
  unfold build
  cases hform : ofName? name with
  | none =>
      refine .error _ ?_
      rintro ⟨slots, hslots, -⟩
      obtain ⟨form, hform'⟩ := ofName?_of_slots? hslots
      cases hform.symm.trans hform'
  | some form =>
      obtain ⟨slots, hslots, hfollows⟩ := follows_ofName? hparts hform
      have hdecides := hfollows.decides name
      cases hread : form.read name (readings fields) with
      | error e =>
          rw [hread] at hdecides
          simp only [hread]
          cases hdecides with
          | error why hmet =>
              refine .error why ?_
              rintro ⟨slots', hslots', hmet', -⟩
              cases hslots.symm.trans hslots'
              exact hmet hmet'
      | ok e =>
          rw [hread] at hdecides
          have hmet : ∀ s ∈ slots, s.Met fields := by
            cases hdecides with
            | ok _ hmet => exact hmet
          simp only [hread]
          split
          · rename_i x hfind
            refine .error _ ?_
            rintro ⟨slots', hslots', -, hknown⟩
            cases hslots.symm.trans hslots'
            rw [← hfollows.keys, ← Expr.find?_unknown_eq_none_iff, hfind] at hknown
            cases hknown
          · rename_i hfind
            rw [Expr.find?_unknown_eq_none_iff, hfollows.keys] at hfind
            exact .ok e ⟨slots, hslots, hmet, hfind⟩

end Form

namespace Json

/-- The reading of a value decides whether it is a definition. -/
theorem judged (v : Json) : v.Judged := by
  induction v using induction_on_size with
  | h v hparts =>
      unfold Judged
      cases v with
      | null => exact .ok _ .null
      | bool b => exact .ok _ (.bool b)
      | number n => exact .ok _ (.number n)
      | string s => exact .ok _ (.string s)
      | array items =>
          have hitems := Expr.ofItems_decides fun w hw => hparts.item hw
          rw [Expr.ofJson_array]
          exact (hitems.map Expr.list).of_iff Grammar.wellFormed_array_iff
      | object fields =>
          rcases Expr.op_cases fields with
            hop | hop | ⟨name, hop, hname⟩ | ⟨found, hop, hfound⟩
          · rw [Expr.ofJson_plain hop]
            exact .ok _ (.plain hop)
          · have hentries := Expr.ofEntries_decides fun x hx => hparts x.2 (sizeOf_entry_lt hx)
            rw [Expr.ofJson_map hop]
            exact (hentries.map Expr.map).of_iff (Grammar.wellFormed_map_iff hop)
          · rw [Expr.ofJson_operator hop hname]
            exact (Form.build_decides hparts name).of_iff
              (Grammar.wellFormed_operator_iff hop hname)
          · rw [Expr.ofJson_nameNotString hop hfound]
            exact .error _ (Grammar.not_wellFormed_of_nameNotString hop hfound)

end Json

namespace Grammar

/-- Whether a value is a definition is found out by reading it. -/
instance (v : Json) : Decidable (WellFormed v) :=
  decidable_of_iff ((ofJson v).isOk = true) v.judged.isOk_iff

/-- The reader accepts exactly the definitions, and everything it refuses has a fault of an
operator. -/
theorem ofJson_accepts_iff (v : Json) :
    ((∃ e, ofJson v = .ok e) ↔ WellFormed v) ∧
    ∀ fault, ofJson v = .error fault → ∃ why, fault = .invalidOperator why := by
  have hv := v.judged
  unfold Json.Judged at hv
  generalize ofJson v = r at hv ⊢
  cases hv with
  | ok e h => exact ⟨⟨fun _ => h, fun _ => ⟨e, rfl⟩⟩, fun _ hfault => nomatch hfault⟩
  | error why h =>
      refine ⟨⟨fun hok => ?_, fun hv => absurd hv h⟩, fun _ hfault => ?_⟩
      · obtain ⟨e, he⟩ := hok
        cases he
      · cases hfault
        exact ⟨why, rfl⟩

/-- A sample may say how many draws it takes, and from which salt. -/
example : WellFormed (.object [("choices", .array [.null]), ("draws", .object [("a", .null)]),
    ("op", .string "sample"), ("salt", .string "s"), ("unit", .string "u")]) := by
  decide

/-- A choice has no draws, and a salt is a string. -/
example : ¬ WellFormed (.object [("choices", .array [.null]), ("draws", .null),
      ("op", .string "uniformChoice"), ("unit", .string "u")]) ∧
    ¬ WellFormed (.object [("choices", .array [.null]), ("op", .string "uniformChoice"),
      ("salt", .null), ("unit", .string "u")]) := by
  decide

end Grammar

end Allotment
