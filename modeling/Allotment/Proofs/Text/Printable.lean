import Allotment.Proofs.Text.Quoted

/-!
# The printable form of a text

The printable form of a text quotes it and leaves no character in it that cannot be seen: a
control or format character, one for private use, one that is not assigned, and a separator other
than the blank are written by their code points.  These are general categories of characters, and
which characters they have is told by a database that is extended from version to version.

A quoted string escapes the control characters and none of the others.  So it is the printable
form of a text in which nothing else cannot be seen, and too short for any other text.

**Results.**
* `SameIff`: texts of which one is no longer, and which are the same under a condition; how such
  texts are put together.
* `Database.quoteChar_sameIff`: a quoted character beside its printable form.
* `Database.quote_sameIff`: a quoted string beside its printable form.
-/

namespace Allotment

namespace Text

/-- The general categories of characters, as far as printing tells them apart.  There is none for
surrogates, which are no characters of a text. -/
inductive Category where
  | control
  | format
  | privateUse
  | unassigned
  | lineSeparator
  | paragraphSeparator
  | spaceSeparator
  /-- A letter, a mark, a number, a punctuation mark or a symbol. -/
  | visible
deriving DecidableEq

/-- The general category of every character, in some version of the character database.  In every
version the control characters are the same, and so are the ASCII characters. -/
structure Database where
  category : Char → Category
  control_iff : ∀ c, category c = .control ↔ isControl c = true
  ascii : ∀ c : Char, 0x20 < c.toNat → c.toNat < 0x7F → category c = .visible
  blank : category ' ' = .spaceSeparator

/-- The last hexadecimal digits of a number, as many as there are places. -/
def hexDigits : Nat → Nat → List Char
  | 0, _ => []
  | places + 1, n => hexDigits places (n / 16) ++ [hexDigit (n % 16)]

/-- A character written by its code point, in the fewest of two, four or eight digits. -/
def escapeCode (c : Char) : List Char :=
  if c.toNat < 0x100 then '\\' :: 'x' :: hexDigits 2 c.toNat
  else if c.toNat < 0x10000 then '\\' :: 'u' :: hexDigits 4 c.toNat
  else '\\' :: 'U' :: hexDigits 8 c.toNat

namespace Database

variable (u : Database)

/-- The character can be seen, or is the blank. -/
def Printable (c : Char) : Prop := u.category c = .visible ∨ c = ' '

instance (c : Char) : Decidable (u.Printable c) :=
  inferInstanceAs (Decidable (u.category c = .visible ∨ c = ' '))

/-- The printable form of a character between the quotes `q`. -/
def printChar (q c : Char) : List Char :=
  if c = '\\' ∨ c = q then ['\\', c]
  else if c = '\n' then ['\\', 'n']
  else if c = '\r' then ['\\', 'r']
  else if c = '\t' then ['\\', 't']
  else if u.Printable c then [c]
  else escapeCode c

/-- The printable form of a text: in double quotes if it holds a single quote and no double quote,
and otherwise in single quotes. -/
def print (s : String) : List Char :=
  let q := if '\'' ∈ s.toList ∧ '"' ∉ s.toList then '"' else '\''
  q :: (s.toList.flatMap (u.printChar q) ++ [q])

/-- Only control characters of the text cannot be printed as they stand. -/
def Shows (s : String) : Prop := ∀ c ∈ s.toList, u.Printable c ∨ isControl c = true

end Database

/-- The first text is no longer than the second one, and they are the same exactly under the
condition. -/
structure SameIff (P : Prop) (cs ds : List Char) : Prop where
  length_le : cs.length ≤ ds.length
  eq_iff : cs = ds ↔ P

namespace SameIff

variable {P Q : Prop} {α : Type}

theorem refl (cs : List Char) : SameIff True cs cs where
  length_le := Nat.le_refl _
  eq_iff := by simp

theorem of_eq
    {cs ds : List Char} (h : cs = ds) (hP : P) :
    SameIff P cs ds where
  length_le := Nat.le_of_eq (congrArg List.length h)
  eq_iff := ⟨fun _ => hP, fun _ => h⟩

/-- A text that is shorter is another one. -/
theorem of_lt
    {cs ds : List Char} (h : cs.length < ds.length) (hP : ¬ P) :
    SameIff P cs ds where
  length_le := Nat.le_of_lt h
  eq_iff := ⟨fun heq => absurd (congrArg List.length heq) (Nat.ne_of_lt h), fun hp => absurd hp hP⟩

theorem of_iff
    {cs ds : List Char} (h : SameIff P cs ds) (hQ : Q ↔ P) :
    SameIff Q cs ds where
  length_le := h.length_le
  eq_iff := h.eq_iff.trans hQ.symm

/-- Since no part is longer than its partner, there is no shift from one part to the next. -/
theorem append
    {cs ds cs' ds' : List Char} (h : SameIff P cs ds) (h' : SameIff Q cs' ds') :
    SameIff (P ∧ Q) (cs ++ cs') (ds ++ ds') where
  length_le := by
    have := h.length_le
    have := h'.length_le
    simp only [List.length_append]
    omega
  eq_iff := by
    rw [← h.eq_iff, ← h'.eq_iff]
    constructor
    · intro heq
      have hlength := congrArg List.length heq
      have := h.length_le
      have := h'.length_le
      simp only [List.length_append] at hlength
      exact List.append_inj heq (by omega)
    · rintro ⟨rfl, rfl⟩
      rfl

theorem cons
    {cs ds : List Char} (c : Char) (h : SameIff P cs ds) :
    SameIff P (c :: cs) (c :: ds) :=
  ((refl [c]).append h).of_iff (by simp)

theorem between
    {cs ds : List Char} (front back : List Char) (h : SameIff P cs ds) :
    SameIff P (front ++ (cs ++ back)) (front ++ (ds ++ back)) :=
  ((refl front).append (h.append (refl back))).of_iff (by simp)

theorem flatMap
    {f g : α → List Char} {R : α → Prop} {as : List α}
    (h : ∀ a ∈ as, SameIff (R a) (f a) (g a)) :
    SameIff (∀ a ∈ as, R a) (as.flatMap f) (as.flatMap g) := by
  induction as with
  | nil => exact of_eq rfl (by simp)
  | cons a as ih =>
      obtain ⟨ha, has⟩ := List.forall_mem_cons.1 h
      exact (ha.append (ih has)).of_iff List.forall_mem_cons

end SameIff

theorem length_hexDigits (places n : Nat) : (hexDigits places n).length = places := by
  induction places generalizing n with
  | zero => rfl
  | succ places ih => simp [hexDigits, ih]

theorem length_escapeCode (c : Char) : 4 ≤ (escapeCode c).length := by
  unfold escapeCode
  split
  · simp [length_hexDigits]
  · split
    · simp [length_hexDigits]
    · simp [length_hexDigits]

theorem escapeCode_of_isControl
    {c : Char} (h : isControl c = true) :
    escapeCode c = ['\\', 'x'] ++ hexPair c.toNat := by
  have hlt := toNat_lt_of_isControl h
  have hhigh : c.toNat / 16 % 16 = c.toNat / 16 := by omega
  rw [escapeCode, if_pos hlt]
  simp [hexDigits, hexPair, hhigh]

namespace Database

variable {u : Database} {q : Char}

theorem not_printable_of_isControl
    {c : Char} (h : isControl c = true) :
    ¬ u.Printable c := by
  rintro (hvisible | rfl)
  · rw [(u.control_iff c).2 h] at hvisible
    cases hvisible
  · cases h

theorem printable_of_ascii
    {c : Char} (hlow : 0x20 < c.toNat) (hhigh : c.toNat < 0x7F) :
    u.Printable c :=
  .inl (u.ascii c hlow hhigh)

/-- A quoted character beside its printable form. -/
theorem quoteChar_sameIff
    (hq : q = '\'' ∨ q = '"') (c : Char) :
    SameIff (u.Printable c ∨ isControl c = true) (quoteChar q c) (u.printChar q c) := by
  by_cases hbackslash : c = '\\'
  · subst hbackslash
    exact .of_eq (by simp [quoteChar, printChar])
      (.inl (printable_of_ascii (by decide) (by decide)))
  by_cases hquote : c = q
  · subst hquote
    have hprintable : u.Printable c := by
      rcases hq with rfl | rfl <;> exact printable_of_ascii (by decide) (by decide)
    refine .of_eq ?_ (.inl hprintable)
    rcases hq with rfl | rfl <;> simp [quoteChar, printChar]
  by_cases hnamed : c = '\n' ∨ c = '\r' ∨ c = '\t'
  · have hcontrol : isControl c = true := by
      rcases hnamed with rfl | rfl | rfl <;> decide
    refine .of_eq ?_ (.inr hcontrol)
    rcases hnamed with rfl | rfl | rfl <;> simp [quoteChar, printChar, hquote]
  obtain ⟨hnewline, hother⟩ := not_or.1 hnamed
  obtain ⟨hreturn, htab⟩ := not_or.1 hother
  simp only [quoteChar, printChar, hbackslash, hquote, hnewline, hreturn, htab, false_or, if_false]
  by_cases hcontrol : isControl c = true
  · rw [if_pos hcontrol, if_neg (not_printable_of_isControl hcontrol)]
    exact .of_eq (escapeCode_of_isControl hcontrol).symm (.inr hcontrol)
  rw [if_neg hcontrol]
  by_cases hprintable : u.Printable c
  · rw [if_pos hprintable]
    exact .of_eq rfl (.inl hprintable)
  · rw [if_neg hprintable]
    have hlength : [c].length < (escapeCode c).length := by
      have := length_escapeCode c
      rw [List.length_singleton]
      omega
    exact .of_lt hlength (not_or.2 ⟨hprintable, hcontrol⟩)

/-- A quoted string beside its printable form. -/
theorem quote_sameIff (u : Database) (s : String) :
    SameIff (u.Shows s) (quote s) (u.print s) := by
  have hquote : (if '\'' ∈ s.toList ∧ '"' ∉ s.toList then '"' else '\'') = quoteFor s.toList := by
    simp [quoteFor]
  unfold print
  rw [hquote]
  have hchars : SameIff (u.Shows s) _ _ :=
    SameIff.flatMap fun c _ => u.quoteChar_sameIff (quoteFor_cases s.toList) c
  exact hchars.between [quoteFor s.toList] [quoteFor s.toList]

end Database

section Sample

/-- Ranges of characters behind the ASCII ones that are not visible: those of version 14 of the
character database, of which the characters without an assignment are left out but for those that
never get one. -/
def invisibleRanges : List (Nat × Nat × Category) :=
  [(0xA0, 0xA0, .spaceSeparator), (0xAD, 0xAD, .format), (0x600, 0x605, .format),
    (0x61C, 0x61C, .format), (0x6DD, 0x6DD, .format), (0x70F, 0x70F, .format),
    (0x890, 0x891, .format), (0x8E2, 0x8E2, .format), (0x1680, 0x1680, .spaceSeparator),
    (0x180E, 0x180E, .format), (0x2000, 0x200A, .spaceSeparator), (0x200B, 0x200F, .format),
    (0x2028, 0x2028, .lineSeparator), (0x2029, 0x2029, .paragraphSeparator),
    (0x202A, 0x202E, .format), (0x202F, 0x202F, .spaceSeparator),
    (0x205F, 0x205F, .spaceSeparator), (0x2060, 0x2064, .format), (0x2066, 0x206F, .format),
    (0x3000, 0x3000, .spaceSeparator), (0xE000, 0xF8FF, .privateUse), (0xFDD0, 0xFDEF, .unassigned),
    (0xFEFF, 0xFEFF, .format), (0xFFF9, 0xFFFB, .format), (0x110BD, 0x110BD, .format),
    (0x110CD, 0x110CD, .format), (0x13430, 0x13438, .format), (0x1BCA0, 0x1BCA3, .format),
    (0x1D173, 0x1D17A, .format), (0xE0001, 0xE0001, .format), (0xE0020, 0xE007F, .format),
    (0xF0000, 0xFFFFD, .privateUse), (0x100000, 0x10FFFD, .privateUse)] ++
  (List.range 17).map fun plane =>
    (0x10000 * plane + 0xFFFE, 0x10000 * plane + 0xFFFF, .unassigned)

/-- The database with these ranges. -/
def sampleDatabase : Database where
  category c :=
    if isControl c then .control
    else if c = ' ' then .spaceSeparator
    else match invisibleRanges.find? fun r => r.1 ≤ c.toNat && c.toNat ≤ r.2.1 with
      | some r => r.2.2
      | none => .visible
  control_iff c := by
    have hranges : ∀ r ∈ invisibleRanges, r.2.2 ≠ .control := by decide
    split
    · simp [*]
    · rename_i hcontrol
      split
      · simp [hcontrol]
      · split
        · rename_i r hr
          simp [hcontrol, hranges r (List.mem_of_find?_eq_some hr)]
        · simp [hcontrol]
  ascii c hlow hhigh := by
    have hranges : ∀ r ∈ invisibleRanges, 0x7F ≤ r.1 := by decide
    have hcontrol : isControl c = false := by
      simp [isControl]
      omega
    have hblank : c ≠ ' ' := by
      rintro rfl
      exact absurd hlow (by decide)
    have hnone : (invisibleRanges.find? fun r => r.1 ≤ c.toNat && c.toNat ≤ r.2.1) = none := by
      rw [List.find?_eq_none]
      intro r hr
      have := hranges r hr
      simp
      omega
    simp [hcontrol, hblank, hnone]
  blank := by decide

end Sample

end Text

end Allotment
