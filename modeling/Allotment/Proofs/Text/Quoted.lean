import Allotment.Text.Quoted

/-!
# Quoted strings can be taken apart

A quoted string begins with its quote, and no character inside it is written with that quote in
front.  So it ends at the next quote that is not escaped, whatever follows.  Inside, each
character can be read from its beginning: an escape says by its second character how far it goes.

**Results.**
* `unquoteChar?_quoteChar`: a quoted character is read back, whatever follows.
* `quote_append_inj`: a quoted string and what follows it are told from any other.
-/

namespace Allotment

namespace Text

/-- The character that two hexadecimal digits stand for, in front of the rest. -/
def hexChar? (high low : Char) (rest : List Char) : Option (Char × List Char) := do
  return (Char.ofNat (16 * (← hexValue? high) + (← hexValue? low)), rest)

/-- The character with which a text between quotes begins, and what follows. -/
def unquoteChar? : List Char → Option (Char × List Char)
  | '\\' :: 'x' :: high :: low :: rest => hexChar? high low rest
  | '\\' :: 'n' :: rest => some ('\n', rest)
  | '\\' :: 'r' :: rest => some ('\r', rest)
  | '\\' :: 't' :: rest => some ('\t', rest)
  | '\\' :: c :: rest => some (c, rest)
  | c :: rest => some (c, rest)
  | [] => none

theorem hexChar?_hexPair
    {c : Char} (hc : c.toNat < 256) (rest : List Char) :
    hexChar? (hexDigit (c.toNat / 16)) (hexDigit (c.toNat % 16)) rest = some (c, rest) := by
  have hhigh := hexValue?_hexDigit (n := c.toNat / 16) (by omega)
  have hlow := hexValue?_hexDigit (n := c.toNat % 16) (by omega)
  have hvalue : 16 * (c.toNat / 16) + c.toNat % 16 = c.toNat := Nat.div_add_mod c.toNat 16
  unfold hexChar?
  rw [hhigh, hlow]
  show some (Char.ofNat (16 * (c.toNat / 16) + c.toNat % 16), rest) = some (c, rest)
  rw [hvalue, Char.ofNat_toNat]

theorem toNat_lt_of_isControl
    {c : Char} (h : isControl c = true) :
    c.toNat < 256 := by
  simp [isControl] at h
  omega

/-- A character that is no backslash stands for itself. -/
theorem unquoteChar?_of_ne
    {c : Char} (hc : c ≠ '\\') (rest : List Char) :
    unquoteChar? (c :: rest) = some (c, rest) := by
  unfold unquoteChar?
  split
  all_goals simp_all

/-- A quoted character is an escape or, unless it is the quote, the character itself. -/
theorem quoteChar_cases (q c : Char) :
    (∃ cs, quoteChar q c = '\\' :: cs) ∨ quoteChar q c = [c] ∧ c ≠ q := by
  unfold quoteChar
  repeat' split
  any_goals exact .inl ⟨_, rfl⟩
  rename_i hc _
  exact .inr ⟨rfl, hc⟩

/-- The quote is one of the two. -/
theorem quoteFor_cases (cs : List Char) : quoteFor cs = '\'' ∨ quoteFor cs = '"' := by
  unfold quoteFor
  split
  · exact .inr rfl
  · exact .inl rfl

section Characters

variable {q : Char} (hq : q = '\'' ∨ q = '"')
include hq

/-- A quoted character is read back, whatever follows. -/
theorem unquoteChar?_quoteChar (c : Char) (rest : List Char) :
    unquoteChar? (quoteChar q c ++ rest) = some (c, rest) := by
  unfold quoteChar
  split
  · rename_i hc
    rw [hc]
    rfl
  · rename_i hbackslash
    repeat' split
    · rename_i hc
      rw [hc]
      rfl
    · rename_i hc
      rw [hc]
      rfl
    · rename_i hc
      rw [hc]
      rfl
    · rename_i hc
      rw [hc]
      rcases hq with rfl | rfl
      · rfl
      · rfl
    · rename_i hcontrol
      exact hexChar?_hexPair (toNat_lt_of_isControl hcontrol) rest
    · exact unquoteChar?_of_ne hbackslash rest

/-- No quoted character begins with the quote. -/
theorem head?_quoteChar (c : Char) (rest : List Char) :
    (quoteChar q c ++ rest).head? ≠ some q := by
  rcases quoteChar_cases q c with ⟨cs, hcs⟩ | ⟨hcs, hc⟩
  · rw [hcs]
    rcases hq with rfl | rfl <;> simp
  · rw [hcs]
    simpa using hc

/-- Texts between quotes end at the quote. -/
theorem quotedChars_append_inj
    {cs ds rest rest' : List Char}
    (h : cs.flatMap (quoteChar q) ++ q :: rest = ds.flatMap (quoteChar q) ++ q :: rest') :
    cs = ds ∧ rest = rest' := by
  induction cs generalizing ds with
  | nil =>
      cases ds with
      | nil => exact ⟨rfl, (List.cons.inj h).2⟩
      | cons d ds =>
          rw [List.flatMap_cons, List.append_assoc] at h
          exact absurd (congrArg List.head? h).symm (head?_quoteChar hq d _)
  | cons c cs ih =>
      rw [List.flatMap_cons, List.append_assoc] at h
      cases ds with
      | nil => exact absurd (congrArg List.head? h) (head?_quoteChar hq c _)
      | cons d ds =>
          rw [List.flatMap_cons, List.append_assoc] at h
          have hread := congrArg unquoteChar? h
          rw [unquoteChar?_quoteChar hq, unquoteChar?_quoteChar hq] at hread
          obtain ⟨rfl, hrest⟩ := Prod.mk.inj (Option.some.inj hread)
          obtain ⟨rfl, hrest'⟩ := ih hrest
          exact ⟨rfl, hrest'⟩

end Characters

theorem quote_append (s : String) (rest : List Char) :
    quote s ++ rest = quoteFor s.toList ::
      (s.toList.flatMap (quoteChar (quoteFor s.toList)) ++ quoteFor s.toList :: rest) := by
  simp [quote]

/-- A quoted string and what follows it are told from any other. -/
theorem quote_append_inj
    {s t : String} {rest rest' : List Char} (h : quote s ++ rest = quote t ++ rest') :
    s = t ∧ rest = rest' := by
  rw [quote_append, quote_append] at h
  obtain ⟨hquote, hinside⟩ := List.cons.inj h
  rw [← hquote] at hinside
  obtain ⟨hchars, hrest⟩ := quotedChars_append_inj (quoteFor_cases s.toList) hinside
  exact ⟨String.toList_inj.1 hchars, hrest⟩

end Text

end Allotment
