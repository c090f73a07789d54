import Allotment.Json.Reader
import Allotment.Json.Writer

/-!
# Tokens read as they were written

A string is written with escapes that stand for its characters, and an integer in digits without
a zero in front.  What is written ends where the reader stops: a string at its quote, and a
number in front of anything that can follow a value.

**Results.**
* `Reader.string?_write`: a string is read from what is written of it.
* `Reader.number?_append`: what follows a number token is left alone.
* `Reader.number?_digitsOf`: an integer is read from its digits.
-/

namespace Allotment

namespace Decimal

/-- Only zero has a zero in front. -/
theorem head_digitsOf_ne_zero
    {n : Nat} (hn : n ≠ 0) {d : Char} {ds : List Char} (h : digitsOf n = d :: ds) :
    d ≠ '0' := by
  induction n using Nat.strongRecOn generalizing d ds with
  | ind n ih =>
      rw [digitsOf, Nat.toDigits_eq_if (by decide)] at h
      split at h
      · rename_i hlt
        cases h
        have hdigit : ∀ m : Fin 10, m.val ≠ 0 → m.val.digitChar ≠ '0' := by decide
        exact hdigit ⟨n, hlt⟩ hn
      · rename_i hge
        cases hrest : digitsOf (n / 10) with
        | nil => exact absurd hrest Nat.toDigits_ne_nil
        | cons c cs =>
            rw [← digitsOf, hrest] at h
            cases h
            exact ih (n / 10) (by omega) (by omega) hrest

end Decimal

namespace Json

namespace Reader

section Strings

theorem hex4?_hexPair
    {n : Nat} (h : n < 256) :
    hex4? '0' '0' (Text.hexDigit (n / 16)) (Text.hexDigit (n % 16)) = some n := by
  have hzero : Text.hexValue? '0' = some 0 := rfl
  have hhigh := Text.hexValue?_hexDigit (n := n / 16) (by omega)
  have hlow := Text.hexValue?_hexDigit (n := n % 16) (by omega)
  simp [hex4?, hzero, hhigh, hlow]
  omega

/-- An escape of two characters. -/
theorem units?_escape
    {e : Char} {u : Nat} (hu : unescape? e = some u) (rest : List Char) :
    units? ('\\' :: e :: rest) = (units? rest).map fun x => (u :: x.1, x.2) := by
  have hne : e ≠ 'u' := by
    rintro rfl
    cases hu
  rw [units?]
  · rw [hu]
    cases units? rest <;> rfl
  · rintro a b c d rest' heq _
    exact hne heq

theorem units?_hex
    {n : Nat} (h : n < 256) (rest : List Char) :
    units? (['\\', 'u', '0', '0'] ++ Text.hexPair n ++ rest) =
      (units? rest).map fun x => (n :: x.1, x.2) := by
  show units? ('\\' :: 'u' :: '0' :: '0' :: Text.hexDigit (n / 16) ::
    Text.hexDigit (n % 16) :: rest) = _
  rw [units?, hex4?_hexPair h]
  cases units? rest <;> rfl

theorem units?_plain
    {c : Char} (hquote : c ≠ '"') (hescape : c ≠ '\\') (h : ¬ c.toNat < 32) (rest : List Char) :
    units? (c :: rest) = (units? rest).map fun x => (c.toNat :: x.1, x.2) := by
  rw [units?, if_neg h]
  · cases units? rest <;> rfl
  · exact hquote
  · rintro a b c d rest' heq _
    exact hescape heq
  · rintro e rest' heq _
    exact hescape heq

/-- A character is read from what is written of it. -/
theorem units?_escapeChar (c : Char) (rest : List Char) :
    units? (escapeChar c ++ rest) = (units? rest).map fun x => (c.toNat :: x.1, x.2) := by
  unfold escapeChar
  iterate 7
    split
    · rename_i h
      rw [h]
      exact units?_escape rfl rest
  split
  · exact units?_hex (by omega) rest
  · exact units?_plain ‹_› ‹_› ‹_› rest

theorem units?_flatMap (cs : List Char) (rest : List Char) :
    units? (cs.flatMap escapeChar ++ '"' :: rest) = some (cs.map Char.toNat, rest) := by
  induction cs with
  | nil => rfl
  | cons c cs ih =>
      rw [List.flatMap_cons, List.append_assoc, units?_escapeChar, ih]
      rfl

theorem not_surrogate (c : Char) : c.toNat < 0xD800 ∨ 0xDFFF < c.toNat := by
  rcases c.valid with h | h
  · exact .inl h
  · exact .inr h.1

theorem chars?_map_toNat (cs : List Char) : chars? (cs.map Char.toNat) = some cs := by
  induction cs with
  | nil => rfl
  | cons c cs ih =>
      have hc := not_surrogate c
      cases cs with
      | nil =>
          have hno : ¬ (0xD800 ≤ c.toNat ∧ c.toNat < 0xE000) := by omega
          rw [List.map_cons, List.map_nil, chars?, if_neg hno, Char.ofNat_toNat]
      | cons d cs =>
          have hhigh : ¬ (0xD800 ≤ c.toNat ∧ c.toNat < 0xDC00) := by omega
          have hlow : ¬ (0xDC00 ≤ c.toNat ∧ c.toNat < 0xE000) := by omega
          rw [List.map_cons, List.map_cons, chars?, if_neg hhigh, if_neg hlow, ← List.map_cons, ih,
            Option.map_some, Char.ofNat_toNat]

/-- A string is read from what is written of it. -/
theorem string?_write (s : String) (rest : List Char) :
    string? (s.toList.flatMap escapeChar ++ '"' :: rest) = some (some s, rest) := by
  unfold string?
  rw [units?_flatMap]
  show some ((chars? (s.toList.map Char.toNat)).map String.ofList, rest) = _
  rw [chars?_map_toNat, Option.map_some, String.ofList_toList]

end Strings

section Numbers

/-- The text is over, or goes on with what can follow a value. -/
def Ends (rest : List Char) : Prop := ∀ c ∈ rest.head?, c = ',' ∨ c = ']' ∨ c = '\x7d'

theorem ends_nil : Ends [] := by
  simp [Ends]

theorem ends_cons
    {c : Char} (hc : c = ',' ∨ c = ']' ∨ c = '\x7d') (rest : List Char) :
    Ends (c :: rest) := by
  intro d hd
  cases hd
  exact hc

theorem Ends.of_cons
    {c : Char} {rest : List Char} (h : Ends (c :: rest)) :
    c = ',' ∨ c = ']' ∨ c = '\x7d' :=
  h c rfl

variable {rest : List Char}

theorem takeWhile_of_ends
    (h : Ends rest) :
    rest.takeWhile Char.isDigit = [] ∧ rest.dropWhile Char.isDigit = rest := by
  cases rest with
  | nil => exact ⟨rfl, rfl⟩
  | cons c rest => rcases h.of_cons with rfl | rfl | rfl <;> exact ⟨rfl, rfl⟩

theorem digits_append (h : Ends rest) (cs : List Char) :
    digits (cs ++ rest) = ((digits cs).1, (digits cs).2 ++ rest) := by
  induction cs with
  | nil =>
      obtain ⟨htake, hdrop⟩ := takeWhile_of_ends h
      simp [digits, htake, hdrop]
  | cons c cs ih =>
      obtain ⟨htake, hdrop⟩ := Prod.mk.inj ih
      by_cases hc : c.isDigit
      · simp [digits, hc, htake, hdrop]
      · simp [digits, hc]

theorem wholePart?_append (h : Ends rest) (cs : List Char) :
    wholePart? (cs ++ rest) = (wholePart? cs).map fun x => (x.1, x.2 ++ rest) := by
  unfold wholePart?
  rw [digits_append h]
  cases digits cs with
  | mk ds rest' =>
      cases ds with
      | nil => rfl
      | cons d ds =>
          show (if d = '0' ∧ ds ≠ [] then none else _) =
            (if d = '0' ∧ ds ≠ [] then none else _).map _
          split
          · rfl
          · rfl

theorem fraction?_append (h : Ends rest) (cs : List Char) :
    fraction? (cs ++ rest) = (fraction? cs).map fun x => (x.1, x.2 ++ rest) := by
  cases cs with
  | nil =>
      rw [List.nil_append]
      unfold fraction?
      split
      · exact absurd h.of_cons (by decide)
      · rfl
  | cons c cs =>
      by_cases hc : c = '.'
      · subst hc
        rw [List.cons_append, fraction?, fraction?, digits_append h]
        cases digits cs with
        | mk ds rest' => cases ds <;> rfl
      · rw [List.cons_append, fraction?, fraction?]
        · rfl
        · rintro cs' heq
          cases heq
          exact hc rfl
        · rintro cs' heq
          cases heq
          exact hc rfl

theorem exponentDigits?_append (h : Ends rest) (neg : Bool) (cs : List Char) :
    exponentDigits? neg (cs ++ rest) =
      (exponentDigits? neg cs).map fun x => (x.1, x.2 ++ rest) := by
  unfold exponentDigits?
  rw [digits_append h]
  cases digits cs with
  | mk ds rest' => cases ds <;> rfl

theorem exponent?_none
    {c : Char} (hc : ¬ (c = 'e' ∨ c = 'E')) (cs : List Char) :
    exponent? (c :: cs) = some (none, c :: cs) := by
  unfold exponent?
  exact if_neg hc

theorem exponent?_unsigned
    {c : Char} (hc : c = 'e' ∨ c = 'E') {cs : List Char} (hplus : cs.head? ≠ some '+')
    (hminus : cs.head? ≠ some '-') :
    exponent? (c :: cs) = exponentDigits? false cs := by
  rw [exponent?, if_pos hc]
  · rintro cs' rfl
    exact hplus rfl
  · rintro cs' rfl
    exact hminus rfl

theorem exponent?_append (h : Ends rest) (cs : List Char) :
    exponent? (cs ++ rest) = (exponent? cs).map fun x => (x.1, x.2 ++ rest) := by
  cases cs with
  | nil =>
      cases rest with
      | nil => rfl
      | cons c rest =>
          rcases h.of_cons with rfl | rfl | rfl <;> exact exponent?_none (by decide) rest
  | cons c cs =>
      by_cases hc : c = 'e' ∨ c = 'E'
      · have hplus : rest.head? ≠ some '+' := by
          intro heq
          rcases h '+' heq with h | h | h <;> cases h
        have hminus : rest.head? ≠ some '-' := by
          intro heq
          rcases h '-' heq with h | h | h <;> cases h
        cases cs with
        | nil =>
            rw [List.cons_append, List.nil_append, exponent?_unsigned hc hplus hminus,
              exponent?_unsigned hc (by decide) (by decide)]
            exact exponentDigits?_append h false []
        | cons d ds =>
            by_cases hplus : d = '+'
            · subst hplus
              simp only [List.cons_append, exponent?, if_pos hc]
              exact exponentDigits?_append h false ds
            · by_cases hminus : d = '-'
              · subst hminus
                simp only [List.cons_append, exponent?, if_pos hc]
                exact exponentDigits?_append h true ds
              · rw [List.cons_append, exponent?_unsigned hc, exponent?_unsigned hc]
                · exact exponentDigits?_append h false (d :: ds)
                · simpa using hplus
                · simpa using hminus
                · simpa using hplus
                · simpa using hminus
      · rw [List.cons_append, exponent?_none hc, exponent?_none hc]
        rfl

theorem bind_map_append {α β : Type} {x : Option (α × List Char)}
    {f g : α × List Char → Option (β × List Char)}
    (h : ∀ a cs, g (a, cs ++ rest) = (f (a, cs)).map fun x => (x.1, x.2 ++ rest)) :
    (x.map fun x => (x.1, x.2 ++ rest)) >>= g = (x >>= f).map fun x => (x.1, x.2 ++ rest) := by
  cases x with
  | none => rfl
  | some x => exact h x.1 x.2

theorem number?_append (h : Ends rest) (neg : Bool) (cs : List Char) :
    number? neg (cs ++ rest) = (number? neg cs).map fun x => (x.1, x.2 ++ rest) := by
  unfold number?
  rw [wholePart?_append h]
  refine bind_map_append fun whole cs => ?_
  simp only
  rw [fraction?_append h]
  refine bind_map_append fun fraction cs => ?_
  simp only
  rw [exponent?_append h]
  refine bind_map_append fun exponent cs => ?_
  cases fraction <;> cases exponent <;> rfl

theorem digits_of_all
    {cs : List Char} (h : ∀ c ∈ cs, c.isDigit = true) :
    digits cs = (cs, []) := by
  induction cs with
  | nil => rfl
  | cons c cs ih =>
      obtain ⟨hc, hcs⟩ := List.forall_mem_cons.1 h
      obtain ⟨htake, hdrop⟩ := Prod.mk.inj (ih hcs)
      simp [digits, hc, htake, hdrop]

theorem wholePart?_digitsOf (n : Nat) :
    wholePart? (Decimal.digitsOf n) = some (Decimal.digitsOf n, []) := by
  unfold wholePart?
  rw [digits_of_all fun c => Decimal.isDigit_of_mem_digitsOf]
  cases h : Decimal.digitsOf n with
  | nil => exact absurd h Nat.toDigits_ne_nil
  | cons d ds =>
      refine if_neg ?_
      rintro ⟨hd, hds⟩
      by_cases hn : n = 0
      · subst hn
        cases h
        exact hds rfl
      · exact Decimal.head_digitsOf_ne_zero hn h hd

/-- An integer is read from its digits. -/
theorem number?_digitsOf (neg : Bool) (n : Nat) :
    number? neg (Decimal.digitsOf n) = some (wholeOf? neg (Decimal.digitsOf n), []) := by
  unfold number?
  rw [wholePart?_digitsOf]
  rfl

theorem wholeOf?_of_neg
    {n : Whole} (hn : n.val < 0) :
    wholeOf? true (Decimal.digitsOf n.val.natAbs) = some (.int n) := by
  have habs : -(n.val.natAbs : Int) = n.val := by omega
  have hzero : (n.val.natAbs == 0) = false := by
    rw [beq_eq_false_iff_ne]
    omega
  have hfound : Number.ofInt? n.val = some (.int n) := Number.ofInt?_eq_some_iff.2 rfl
  simp only [wholeOf?, Decimal.ofDigits_digitsOf, hzero, Bool.true_and, Bool.false_eq_true,
    if_false, if_true, habs, hfound]

theorem wholeOf?_of_nonneg
    {n : Whole} (hn : ¬ n.val < 0) :
    wholeOf? false (Decimal.digitsOf n.val.natAbs) = some (.int n) := by
  have habs : (n.val.natAbs : Int) = n.val := by omega
  have hfound : Number.ofInt? n.val = some (.int n) := Number.ofInt?_eq_some_iff.2 rfl
  simp only [wholeOf?, Decimal.ofDigits_digitsOf, Bool.false_and, Bool.false_eq_true, if_false,
    habs, hfound]

end Numbers

end Reader

end Json

end Allotment
