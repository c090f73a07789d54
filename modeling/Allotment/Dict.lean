/-!
# Dictionaries

A dictionary is a list of named entries.  The operations below keep the names
strictly ascending in the order of their code points, so two dictionaries with
the same entries are the same list and every traversal is in name order.

**Results.**
* `get?_insert`: reading after a write.
* `Ascending.insert`: writing keeps the order.
* `ascending_ofList`: so a dictionary that is built by writing is ascending.
-/

namespace Allotment

universe u v

/-- Entries under names; ascending when it is built by the operations of this namespace. -/
abbrev Dict (α : Type u) := List (String × α)

namespace Dict

variable {α : Type u} {β : Type v}

/-- The names strictly ascend, so each occurs once. -/
def Ascending (d : Dict α) : Prop := d.Pairwise (fun a b => a.1 < b.1)

instance (d : Dict α) : Decidable (Ascending d) :=
  inferInstanceAs (Decidable (d.Pairwise (fun a b => a.1 < b.1)))

/-- The entry under a name. -/
def get? : Dict α → String → Option α
  | [], _ => none
  | (k, v) :: d, x => if k = x then some v else get? d x

/-- Whether there is an entry under the name. -/
def contains (d : Dict α) (x : String) : Bool := (get? d x).isSome

/-- Writes an entry, in place of the one under the same name if there is one. -/
def insert : Dict α → String → α → Dict α
  | [], x, a => [(x, a)]
  | (k, v) :: d, x, a =>
      if x < k then (x, a) :: (k, v) :: d
      else if x = k then (x, a) :: d
      else (k, v) :: insert d x a

/-- Applies `f` to the entry under `x`, or to `none` if there is none. -/
def alter (d : Dict α) (x : String) (f : Option α → α) : Dict α := insert d x (f (get? d x))

/-- The entries in turn; a later one replaces an earlier one of the same name. -/
def ofList (entries : List (String × α)) : Dict α :=
  entries.foldl (fun d e => insert d e.1 e.2) []

/-- The entries of `d` with those of `e` written over them. -/
def override (d e : Dict α) : Dict α := e.foldl (fun d x => insert d x.1 x.2) d

/-- The names in order. -/
def keys (d : Dict α) : List String := d.map (·.1)

@[simp] theorem get?_nil (x : String) : get? ([] : Dict α) x = none := rfl

/-- Names that are neither before one another nor the other way round are equal. -/
theorem lt_of_ne_of_not_lt {x y : String} (hne : x ≠ y) (h : ¬ x < y) : y < x := by
  rcases Classical.em (y < x) with hlt | hlt
  · exact hlt
  · exact absurd (String.le_antisymm hlt h) hne

/-- A name of the dictionary after a write is the one written or was there before. -/
theorem mem_insert {d : Dict α} {x : String} {a : α} {e : String × α} (h : e ∈ insert d x a) :
    e = (x, a) ∨ e ∈ d := by
  induction d with
  | nil => simpa [insert] using h
  | cons f d ih =>
      obtain ⟨k, v⟩ := f
      unfold insert at h
      split at h
      · simpa using h
      · split at h
        · rcases List.mem_cons.1 h with h | h
          · exact Or.inl h
          · exact Or.inr (List.mem_cons_of_mem _ h)
        · rcases List.mem_cons.1 h with h | h
          · exact Or.inr (h ▸ List.mem_cons_self)
          · rcases ih h with h | h
            · exact Or.inl h
            · exact Or.inr (List.mem_cons_of_mem _ h)

/-- Writing keeps the order. -/
theorem Ascending.insert {d : Dict α} (h : Ascending d) (x : String) (a : α) :
    Ascending (insert d x a) := by
  induction d with
  | nil => simp [Dict.insert, Ascending]
  | cons f d ih =>
      obtain ⟨k, v⟩ := f
      obtain ⟨hk, hd⟩ := List.pairwise_cons.1 h
      unfold Dict.insert
      split
      · rename_i hlt
        refine List.pairwise_cons.2 ⟨fun e he => ?_, h⟩
        rcases List.mem_cons.1 he with rfl | he
        · exact hlt
        · exact String.lt_trans hlt (hk e he)
      · rename_i hlt
        split
        · rename_i heq
          subst heq
          exact List.pairwise_cons.2 ⟨hk, hd⟩
        · rename_i hne
          refine List.pairwise_cons.2 ⟨fun e he => ?_, ih hd⟩
          rcases mem_insert he with rfl | he
          · exact lt_of_ne_of_not_lt hne hlt
          · exact hk e he

/-- The entries of a list make an ascending dictionary. -/
theorem ascending_ofList (entries : List (String × α)) : Ascending (ofList entries) := by
  suffices ∀ d : Dict α, Ascending d →
      Ascending (entries.foldl (fun d e => Dict.insert d e.1 e.2) d) from
    this [] List.Pairwise.nil
  induction entries with
  | nil => exact fun _ h => h
  | cons e rest ih => exact fun d h => ih _ (h.insert e.1 e.2)

theorem get?_insert_self (d : Dict α) (x : String) (a : α) : get? (insert d x a) x = some a := by
  induction d with
  | nil => simp [insert, get?]
  | cons e d ih =>
      obtain ⟨k, v⟩ := e
      unfold insert
      split
      · simp [get?]
      · split
        · simp [get?]
        · rename_i hne
          simp [get?, Ne.symm hne, ih]

theorem get?_insert_of_ne (d : Dict α) {x y : String} (a : α) (h : y ≠ x) :
    get? (insert d x a) y = get? d y := by
  induction d with
  | nil => simp [insert, get?, h.symm]
  | cons e d ih =>
      obtain ⟨k, v⟩ := e
      unfold insert
      split
      · simp [get?, h.symm]
      · split
        · rename_i heq
          subst heq
          simp [get?, h.symm]
        · simp only [get?, ih]

/-- Reading after a write. -/
theorem get?_insert (d : Dict α) (x y : String) (a : α) :
    get? (insert d x a) y = if y = x then some a else get? d y := by
  split
  · rename_i h
    rw [h, get?_insert_self]
  · rename_i h
    exact get?_insert_of_ne d a h

end Dict

end Allotment
