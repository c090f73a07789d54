import Allotment.Proofs.Json.Rereading
import Allotment.Proofs.Json.Separated
import Allotment.Proofs.Text.Quoted

/-!
# Spelled values can be told apart

The first character of a spelled value says of which kind it is.  Then a string ends at its quote,
an integer in front of anything that can follow a value, and a list or an object at its bracket,
since behind every item and every entry there is a comma or the bracket.  So a value without
floating-point numbers is told from any other, and its end is found, whatever follows it.

**Results.**
* `separated_append_inj`: items that are told apart one by one are told apart as a list.
* `FloatFree.toldApart`: a value without floating-point numbers is told from any other.
* `spelling_injective`: so no two of them share a spelling, and no two lists or objects a label.
-/

namespace Allotment

namespace Json

open Reader (Ends ends_nil ends_cons)

section Separated

variable {α : Type}

/-- What follows the first item of a list that `close` ends. -/
def behind (text : α → List Char) (close : Char) (rest : List Char) : List α → List Char
  | [] => close :: rest
  | a :: as => ',' :: ' ' :: (separated text (a :: as) ++ close :: rest)

theorem separated_cons_append
    (text : α → List Char) (close : Char) (rest : List Char) (a : α) (as : List α) :
    separated text (a :: as) ++ close :: rest = text a ++ behind text close rest as := by
  cases as with
  | nil => rfl
  | cons b as => simp [separated_cons, behind]

variable {text : α → List Char} {close : Char}

theorem ends_behind
    (hclose : close = ']' ∨ close = '\x7d') (rest : List Char) (as : List α) :
    Ends (behind text close rest as) := by
  cases as with
  | nil => exact ends_cons (.inr hclose) rest
  | cons a as => exact ends_cons (.inl rfl) _

/-- A list that is over is told from one that goes on. -/
theorem behind_inj
    {as bs : List α} {rest rest' : List Char} (hclose : close = ']' ∨ close = '\x7d')
    (hlists : separated text as ++ close :: rest = separated text bs ++ close :: rest' →
      as = bs ∧ rest = rest')
    (h : behind text close rest as = behind text close rest' bs) :
    as = bs ∧ rest = rest' := by
  have hcomma : close ≠ ',' := by
    rcases hclose with rfl | rfl <;> decide
  cases as with
  | nil =>
      cases bs with
      | nil => exact ⟨rfl, (List.cons.inj h).2⟩
      | cons b bs => exact absurd (List.cons.inj h).1 hcomma
  | cons a as =>
      cases bs with
      | nil => exact absurd (List.cons.inj h).1.symm hcomma
      | cons b bs => exact hlists (List.cons.inj (List.cons.inj h).2).2

/-- Items that are told apart one by one, and from the end of the list, are told apart as a
list. -/
theorem separated_append_inj
    {as bs : List α} {rest rest' : List Char} (hclose : close = ']' ∨ close = '\x7d')
    (has : ∀ a ∈ as, ∀ r, (text a ++ r).head? ≠ some close)
    (hbs : ∀ b ∈ bs, ∀ r, (text b ++ r).head? ≠ some close)
    (hinj : ∀ a ∈ as, ∀ b ∈ bs, ∀ r r', Ends r → Ends r' →
      text a ++ r = text b ++ r' → a = b ∧ r = r')
    (h : separated text as ++ close :: rest = separated text bs ++ close :: rest') :
    as = bs ∧ rest = rest' := by
  induction as generalizing bs with
  | nil =>
      cases bs with
      | nil => exact ⟨rfl, (List.cons.inj h).2⟩
      | cons b bs =>
          rw [separated_cons_append] at h
          exact absurd (congrArg List.head? h).symm (hbs b List.mem_cons_self _)
  | cons a as ih =>
      rw [separated_cons_append] at h
      cases bs with
      | nil => exact absurd (congrArg List.head? h) (has a List.mem_cons_self _)
      | cons b bs =>
          rw [separated_cons_append] at h
          obtain ⟨rfl, hbehind⟩ := hinj a List.mem_cons_self b List.mem_cons_self _ _
            (ends_behind hclose rest as) (ends_behind hclose rest' bs) h
          have hlists := ih (fun x hx => has x (List.mem_cons_of_mem a hx))
            (fun y hy => hbs y (List.mem_cons_of_mem a hy))
            (fun x hx y hy => hinj x (List.mem_cons_of_mem a hx) y (List.mem_cons_of_mem a hy))
          obtain ⟨rfl, hrest⟩ := behind_inj hclose hlists hbehind
          exact ⟨rfl, hrest⟩

end Separated

/-- The kinds of values that a spelling shows by its first character. -/
inductive Kind where
  | null
  | false
  | true
  | number
  | string
  | array
  | object

/-- The kind of a value. -/
def kind : Json → Kind
  | .null => .null
  | .bool false => .false
  | .bool true => .true
  | .number _ => .number
  | .string _ => .string
  | .array _ => .array
  | .object _ => .object

/-- The kind of the values that are spelled with this character in front. -/
def Kind.ofChar? (c : Char) : Option Kind :=
  if c.isDigit || c == '-' then some .number
  else match c with
    | 'N' => some .null
    | 'F' => some .false
    | 'T' => some .true
    | '\'' => some .string
    | '"' => some .string
    | '[' => some .array
    | '\x7b' => some .object
    | _ => none

/-- An integer begins with a sign or a digit. -/
theorem kind_of_writeInt (n : Int) (rest : List Char) :
    (writeInt n ++ rest).head?.bind Kind.ofChar? = some .number := by
  unfold writeInt
  split
  · rfl
  · cases hds : Decimal.digitsOf n.natAbs with
    | nil => exact absurd hds Nat.toDigits_ne_nil
    | cons c cs =>
        have hc : c.isDigit = true := Decimal.isDigit_of_mem_digitsOf (hds ▸ List.mem_cons_self)
        show Kind.ofChar? c = some .number
        unfold Kind.ofChar?
        rw [hc]
        rfl

/-- The first character of a spelled value says of which kind it is. -/
theorem kind_of_spell
    {v : Json} (hv : v.FloatFree) (rest : List Char) :
    (spell v ++ rest).head?.bind Kind.ofChar? = some v.kind := by
  cases v with
  | null => rfl
  | bool b => cases b <;> rfl
  | number n =>
      cases n with
      | int n => exact kind_of_writeInt n.val rest
      | real x => exact hv.elim
  | string s =>
      show (Text.quote s ++ rest).head?.bind Kind.ofChar? = some .string
      rw [Text.quote_append]
      rcases Text.quoteFor_cases s.toList with hq | hq <;> rw [hq] <;> rfl
  | array items => rfl
  | object fields => rfl

/-- A value that is followed by what can follow a value is told from any other. -/
def ToldApart (v : Json) : Prop :=
  ∀ {w : Json} {rest rest' : List Char}, w.FloatFree → Ends rest → Ends rest' →
    spell v ++ rest = spell w ++ rest' → v = w ∧ rest = rest'

theorem kind_eq_of_spell
    {v w : Json} {rest rest' : List Char} (hv : v.FloatFree) (hw : w.FloatFree)
    (h : spell v ++ rest = spell w ++ rest') :
    v.kind = w.kind := by
  have hkind := kind_of_spell hv rest
  rw [h, kind_of_spell hw rest'] at hkind
  exact (Option.some.inj hkind).symm

/-- No value begins with a bracket that closes. -/
theorem head?_spell
    {v : Json} (hv : v.FloatFree) {close : Char} (hclose : close = ']' ∨ close = '\x7d')
    (rest : List Char) :
    (spell v ++ rest).head? ≠ some close := by
  intro h
  have hkind := kind_of_spell hv rest
  rw [h] at hkind
  rcases hclose with rfl | rfl <;> cases hkind

/-- An integer ends in front of anything that can follow a value. -/
theorem writeInt_append_inj
    {m n : Whole} {rest rest' : List Char} (hrest : Ends rest) (hrest' : Ends rest')
    (h : writeInt m.val ++ rest = writeInt n.val ++ rest') :
    m = n ∧ rest = rest' := by
  have hread := Reader.document?_number_append (Number.readsBack_int m) hrest 0
  have hread' := Reader.document?_number_append (Number.readsBack_int n) hrest' 0
  rw [show writeNumber (.int m) ++ rest = writeNumber (.int n) ++ rest' from h, hread'] at hread
  cases hread
  exact ⟨rfl, rfl⟩

theorem spell_array_append (items : List Json) (rest : List Char) :
    spell (.array items) ++ rest = '[' :: (separated spell items ++ ']' :: rest) := by
  have hspell : spelledWith Text.quote = spell := funext fun v => (spell_eq_spelledWith v).symm
  rw [spell_eq_spelledWith, spelledWith_array, hspell]
  simp

/-- An entry spelled out. -/
def spellEntry (x : String × Json) : List Char := Text.quote x.1 ++ ':' :: ' ' :: spell x.2

theorem spell_object_append (fields : List (String × Json)) (rest : List Char) :
    spell (.object fields) ++ rest =
      '\x7b' :: (separated spellEntry fields ++ '\x7d' :: rest) := by
  have hentry : entryWith Text.quote = spellEntry := by
    funext x
    rw [entryWith, ← spell_eq_spelledWith]
    rfl
  rw [spell_eq_spelledWith, spelledWith_object, hentry]
  simp

/-- Entries are told apart by their names and then by their values. -/
theorem spellEntry_append_inj
    {x y : String × Json} {rest rest' : List Char} (hx : x.2.ToldApart) (hy : y.2.FloatFree)
    (hrest : Ends rest) (hrest' : Ends rest')
    (h : spellEntry x ++ rest = spellEntry y ++ rest') :
    x = y ∧ rest = rest' := by
  unfold spellEntry at h
  rw [List.append_assoc, List.append_assoc] at h
  obtain ⟨hname, hvalue⟩ := Text.quote_append_inj h
  obtain ⟨hsame, hend⟩ := hx hy hrest hrest' (List.cons.inj (List.cons.inj hvalue).2).2
  exact ⟨Prod.ext hname hsame, hend⟩

/-- No entry begins with a bracket that closes. -/
theorem head?_spellEntry
    (x : String × Json) {close : Char} (hclose : close = ']' ∨ close = '\x7d')
    (rest : List Char) :
    (spellEntry x ++ rest).head? ≠ some close := by
  have hquote : Text.quoteFor x.1.toList ≠ close := by
    rcases Text.quoteFor_cases x.1.toList with hq | hq <;> rw [hq] <;>
      rcases hclose with rfl | rfl <;> decide
  unfold spellEntry
  rw [List.append_assoc, Text.quote_append]
  exact fun h => hquote (Option.some.inj h)

/-- Two values of the same kind. -/
inductive Paired : Json → Json → Prop
  | null : Paired .null .null
  | bool (b : Bool) : Paired (.bool b) (.bool b)
  | number (m n : Number) : Paired (.number m) (.number n)
  | string (s t : String) : Paired (.string s) (.string t)
  | array (items items' : List Json) : Paired (.array items) (.array items')
  | object (fields fields' : List (String × Json)) : Paired (.object fields) (.object fields')

theorem paired_of_kind_eq
    {v w : Json} (h : v.kind = w.kind) :
    Paired v w := by
  unfold kind at h
  split at h <;> split at h <;> cases h <;> constructor

/-- A value without floating-point numbers is told from any other. -/
theorem FloatFree.toldApart
    {v : Json} (hv : v.FloatFree) :
    v.ToldApart := by
  induction v using induction_on_size with
  | h v ih =>
      intro w rest rest' hw hrest hrest' heq
      cases paired_of_kind_eq (kind_eq_of_spell hv hw heq) with
      | null => exact ⟨rfl, List.append_cancel_left heq⟩
      | bool b => exact ⟨rfl, List.append_cancel_left heq⟩
      | number m n =>
          cases m with
          | real x => exact hv.elim
          | int m =>
              cases n with
              | real x => exact hw.elim
              | int n =>
                  obtain ⟨rfl, hend⟩ := writeInt_append_inj hrest hrest' heq
                  exact ⟨rfl, hend⟩
      | string s t =>
          obtain ⟨rfl, hend⟩ := Text.quote_append_inj heq
          exact ⟨rfl, hend⟩
      | array items items' =>
          rw [spell_array_append, spell_array_append] at heq
          have hclose : ']' = ']' ∨ ']' = '\x7d' := .inl rfl
          obtain ⟨rfl, hend⟩ := separated_append_inj hclose
            (fun x hx => head?_spell (floatFree_of_item hv hx) hclose)
            (fun y hy => head?_spell (floatFree_of_item hw hy) hclose)
            (fun x hx y hy r r' hr hr' =>
              ih.item hx (floatFree_of_item hv hx) (floatFree_of_item hw hy) hr hr')
            (List.cons.inj heq).2
          exact ⟨rfl, hend⟩
      | object fields fields' =>
          rw [spell_object_append, spell_object_append] at heq
          have hclose : '\x7d' = ']' ∨ '\x7d' = '\x7d' := .inr rfl
          obtain ⟨rfl, hend⟩ := separated_append_inj hclose
            (fun x _ => head?_spellEntry x hclose)
            (fun y _ => head?_spellEntry y hclose)
            (fun x hx y hy r r' hr hr' =>
              spellEntry_append_inj (ih x.2 (sizeOf_entry_lt hx) (floatFree_of_entry hv hx))
                (floatFree_of_entry hw hy) hr hr')
            (List.cons.inj heq).2
          exact ⟨rfl, hend⟩

/-- A list or an object. -/
def IsComposite : Json → Prop
  | .array _ => True
  | .object _ => True
  | _ => False

/-- Lists and objects are spelled out in their labels. -/
theorem IsComposite.label_eq
    {v : Json} (h : v.IsComposite) :
    v.label = v.spelling := by
  cases v with
  | array items => rfl
  | object fields => rfl
  | _ => exact h.elim

/-- Where something without floating-point numbers is spelled inside a list or an object, or alone,
the text says which value it is and where it ends.  So values without floating-point numbers that
differ are spelled differently, and lists or objects without them that differ have different
labels. -/
theorem spelling_injective :
    (∀ (v w : Json) (rest rest' : List Char), v.FloatFree → w.FloatFree →
      Ends rest → Ends rest' → spell v ++ rest = spell w ++ rest' → v = w ∧ rest = rest') ∧
    (∀ v w : Json, v.FloatFree → w.FloatFree → v ≠ w → v.spelling ≠ w.spelling) ∧
    ∀ v w : Json, v.FloatFree → w.FloatFree → v.IsComposite → w.IsComposite → v ≠ w →
      v.label ≠ w.label := by
  have hspelling (v w : Json) (hv : v.FloatFree) (hw : w.FloatFree) (hne : v ≠ w) :
      v.spelling ≠ w.spelling := by
    intro heq
    have htexts : spell v ++ [] = spell w ++ [] := by
      rw [String.ofList_injective heq]
    exact hne (hv.toldApart hw ends_nil ends_nil htexts).1
  refine ⟨fun v w rest rest' hv hw hrest hrest' h => hv.toldApart hw hrest hrest' h,
    hspelling, fun v w hv hw hv' hw' hne => ?_⟩
  rw [hv'.label_eq, hw'.label_eq]
  exact hspelling v w hv hw hne

/-- A list of one string that holds what would separate two, and a list of two strings.  They are
told apart as labels, and also where one is the last item of a list and the other is not. -/
theorem sample_labels_differ :
    let one : Json := .array [.string "a', 'b"]
    let two : Json := .array [.string "a", .string "b"]
    one.FloatFree ∧ two.FloatFree ∧ one ≠ two ∧
      spell one ++ [']'] ≠ spell two ++ [',', ' ', '1', ']'] ∧
      one.spelling ≠ two.spelling ∧ one.label ≠ two.label := by
  intro one two
  have hone : one.FloatFree := ⟨trivial, trivial⟩
  have htwo : two.FloatFree := ⟨trivial, trivial, trivial⟩
  have hne : one ≠ two := by
    intro h
    have hitems : [Json.string "a', 'b"] = [.string "a", .string "b"] := Json.array.inj h
    exact absurd (congrArg List.length hitems) (by decide)
  obtain ⟨htexts, hspellings, hlabels⟩ := spelling_injective
  have hlast : Ends [']'] := ends_cons (.inr (.inl rfl)) []
  have hmore : Ends [',', ' ', '1', ']'] := ends_cons (.inl rfl) _
  refine ⟨hone, htwo, hne, fun h => ?_, hspellings one two hone htwo hne,
    hlabels one two hone htwo trivial trivial hne⟩
  exact hne (htexts one two _ _ hone htwo hlast hmore h).1

end Json

end Allotment
