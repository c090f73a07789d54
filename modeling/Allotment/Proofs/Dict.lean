import Allotment.Dict

/-!
# Entries of dictionaries

In a dictionary in the order of its names every name has one entry.

**Results.**
* `Ascending.override`: writing one dictionary over another keeps the order.
* `insert_comm`: writes under different names can be made in either order.
* `nodup_keys`: no name occurs twice.
* `countP_entries`: at most one entry counts for a name.
* `mem_iff_get?`: the entries are what is read under the names.
* `ofList_eq`: the entries of a dictionary, written in any order, make the dictionary.
* `ofList_select`: so do its entries under names that cover all of its own.
-/

namespace Allotment

universe u

namespace Dict

variable {α : Type u}

/-- Writing a dictionary over another keeps the order. -/
theorem Ascending.override
    {d : Dict α} (h : Ascending d) (e : Dict α) :
    Ascending (override d e) := by
  unfold Dict.override
  induction e generalizing d with
  | nil => exact h
  | cons x e ih => exact ih (h.insert x.1 x.2)

/-- Writes under different names can be made in either order. -/
theorem insert_comm
    (d : Dict α) {x y : String} (hxy : x ≠ y) (a b : α) :
    insert (insert d x a) y b = insert (insert d y b) x a := by
  induction d with
  | nil =>
      by_cases hlt : x < y
      · simp [insert, hlt, String.lt_asymm hlt, hxy.symm]
      · have hgt : y < x := lt_of_ne_of_not_lt hxy hlt
        simp [insert, hlt, hgt, hxy]
  | cons e d ih =>
      obtain ⟨k, v⟩ := e
      -- Where the writes are made is a matter of the order of `x`, `y` and `k`.
      grind [insert, String.lt_trans, String.lt_irrefl, lt_of_ne_of_not_lt]

/-- What is read is an entry. -/
theorem mem_of_get?
    {d : Dict α} {x : String} {a : α} (h : get? d x = some a) :
    (x, a) ∈ d := by
  induction d with
  | nil => simp at h
  | cons e d ih =>
      obtain ⟨k, v⟩ := e
      unfold get? at h
      split at h
      · rename_i hk
        cases h
        rw [hk]
        exact List.mem_cons_self
      · exact List.mem_cons_of_mem _ (ih h)

theorem contains_iff_mem_keys
    {d : Dict α} {x : String} :
    contains d x = true ↔ x ∈ keys d := by
  induction d with
  | nil => simp [contains, keys]
  | cons e d ih =>
      obtain ⟨k, v⟩ := e
      by_cases hk : k = x
      · simp [contains, keys, get?, hk]
      · have hne : x ≠ k := fun h => hk h.symm
        simpa [contains, keys, get?, hk, hne] using ih

theorem get?_eq_none_iff
    {d : Dict α} {x : String} :
    get? d x = none ↔ x ∉ keys d := by
  rw [← contains_iff_mem_keys, contains]
  cases get? d x <;> simp

/-- The order is one of the names alone. -/
theorem ascending_iff_keys
    {d : Dict α} :
    Ascending d ↔ (keys d).Pairwise (· < ·) :=
  List.pairwise_map.symm

/-- In the order of names, no name occurs twice. -/
theorem nodup_keys
    {d : Dict α} (hd : Ascending d) :
    (keys d).Nodup := by
  refine List.pairwise_map.2 (hd.imp fun {a b} hlt heq => ?_)
  rw [heq] at hlt
  exact String.lt_irrefl b.1 hlt

/-- In the order of names, at most the entry under a name can be counted for it. -/
theorem countP_entries
    {β : Type u} [DecidableEq β] {d : Dict α} (hd : Ascending d) (f : α → β) (x : String) (b : β) :
    d.countP (fun e => e.1 = x ∧ f e.2 = b) = ((get? d x).map f).toList.count b := by
  induction d with
  | nil => rfl
  | cons e d ih =>
      obtain ⟨k, v⟩ := e
      obtain ⟨hk, hd⟩ := List.pairwise_cons.1 hd
      rw [List.countP_cons, ih hd]
      by_cases hkx : k = x
      · have hnone : get? d x = none := by
          cases h : get? d x with
          | none => rfl
          | some a => exact absurd (hkx ▸ hk _ (mem_of_get? h)) (String.lt_irrefl x)
        simp [get?, hkx, hnone, List.count_singleton]
      · simp [get?, hkx]

/-- In the order of names, the entries are what is read under the names. -/
theorem mem_iff_get?
    {d : Dict α} (hd : Ascending d) {x : String} {a : α} :
    (x, a) ∈ d ↔ get? d x = some a := by
  constructor
  · intro hmem
    induction d with
    | nil => simp at hmem
    | cons e d ih =>
        obtain ⟨k, v⟩ := e
        obtain ⟨hk, hd⟩ := List.pairwise_cons.1 hd
        rcases List.mem_cons.1 hmem with heq | hmem
        · cases heq
          simp [get?]
        · have hne : k ≠ x := by
            rintro rfl
            exact String.lt_irrefl k (hk _ hmem)
          simp [get?, hne, ih hd hmem]
  · exact mem_of_get?

theorem get?_map
    {β : Type u} (d : Dict α) (f : α → β) (x : String) :
    get? (d.map fun e => (e.1, f e.2)) x = (get? d x).map f := by
  induction d with
  | nil => rfl
  | cons e d ih =>
      obtain ⟨k, v⟩ := e
      by_cases hk : k = x
      · simp [get?, hk]
      · simp only [List.map_cons, get?, if_neg hk, ih]

theorem get?_filter
    (d : Dict α) (p : String → Bool) (x : String) :
    get? (d.filter fun e => p e.1) x = if p x then get? d x else none := by
  induction d with
  | nil => simp
  | cons e d ih =>
      obtain ⟨k, v⟩ := e
      by_cases hk : k = x
      · subst hk
        by_cases hp : p k
        · simp [hp, get?]
        · simpa [hp] using ih
      · by_cases hp : p k
        · simpa [hp, get?, hk] using ih
        · simpa [hp, get?, hk] using ih

/-- Dictionaries in the order of names with the same entries are the same. -/
theorem Ascending.ext
    {d e : Dict α} (hd : Ascending d) (he : Ascending e) (h : ∀ x, get? d x = get? e x) :
    d = e := by
  have hnodup : ∀ {c : Dict α}, Ascending c → c.Nodup := by
    intro c hc
    refine List.Pairwise.imp (fun {a b} hlt heq => ?_) hc
    rw [heq] at hlt
    exact String.lt_irrefl b.1 hlt
  have hperm : d.Perm e := by
    refine (List.perm_ext_iff_of_nodup (hnodup hd) (hnodup he)).2 fun x => ?_
    rw [mem_iff_get? hd, mem_iff_get? he, h]
  refine hperm.eq_of_pairwise (fun a b _ _ hab hba => ?_) hd he
  exact absurd (String.lt_trans hab hba) (String.lt_irrefl a.1)

/-- What is read after entries of `t` have been written into `d`. -/
theorem get?_foldl_insert
    {t : Dict α} (entries : List (String × α)) (h : ∀ e ∈ entries, get? t e.1 = some e.2)
    (d : Dict α) (x : String) :
    get? (entries.foldl (fun d e => insert d e.1 e.2) d) x =
      if x ∈ keys entries then get? t x else get? d x := by
  induction entries generalizing d with
  | nil => simp [keys]
  | cons e rest ih =>
      have hrest := ih (fun e he => h e (List.mem_cons_of_mem _ he)) (insert d e.1 e.2)
      rw [List.foldl_cons, hrest, get?_insert]
      by_cases hx : x ∈ keys rest
      · have hx' : x ∈ keys (e :: rest) := List.mem_cons_of_mem _ hx
        simp only [hx, hx', if_true]
      · by_cases he : x = e.1
        · have hx' : x ∈ keys (e :: rest) := by simp [keys, he]
          rw [if_neg hx, if_pos he, if_pos hx', he, h e List.mem_cons_self]
        · have hx' : x ∉ keys (e :: rest) := by
            intro hmem
            rcases List.mem_cons.1 hmem with heq | hmem
            · exact he heq
            · exact hx hmem
          simp only [hx, hx', he, if_false]

/-- The first of the entries under a name is read. -/
theorem get?_append (d e : Dict α) (x : String) :
    get? (d ++ e) x = (get? d x).or (get? e x) := by
  induction d with
  | nil => rfl
  | cons f d ih =>
      obtain ⟨k, v⟩ := f
      by_cases hk : k = x
      · simp [get?, hk]
      · simp only [List.cons_append, get?, if_neg hk, ih]

theorem get?_of_mem_of_nodup
    {d : Dict α} (hd : (keys d).Nodup) {e : String × α} (he : e ∈ d) :
    get? d e.1 = some e.2 := by
  induction d with
  | nil => simp at he
  | cons f d ih =>
      obtain ⟨k, v⟩ := f
      obtain ⟨hk, hd⟩ := List.nodup_cons.1 hd
      rcases List.mem_cons.1 he with rfl | hrest
      · simp [get?]
      · have hmem : e.1 ∈ keys d := List.mem_map_of_mem hrest
        have hne : k ≠ e.1 := fun heq => hk (heq ▸ hmem)
        simp [get?, hne, ih hd hrest]

/-- If no name occurs twice, the entries that are written are the ones that are read. -/
theorem get?_ofList
    {entries : List (String × α)} (h : (keys entries).Nodup) (x : String) :
    get? (ofList entries) x = get? entries x := by
  rw [ofList, get?_foldl_insert entries fun e he => get?_of_mem_of_nodup h he]
  split
  · rfl
  · rename_i hx
    exact (get?_eq_none_iff.2 hx).symm

/-- An entry of the dictionary that a list makes is an entry of the list. -/
theorem mem_of_mem_ofList
    {entries : List (String × α)} {e : String × α} (h : e ∈ ofList entries) :
    e ∈ entries := by
  suffices hfold : ∀ d : Dict α, e ∈ entries.foldl (fun d e => insert d e.1 e.2) d →
      e ∈ entries ∨ e ∈ d by
    rcases hfold [] h with hmem | hmem
    · exact hmem
    · simp at hmem
  clear h
  induction entries with
  | nil => exact fun d hd => Or.inr hd
  | cons x rest ih =>
      intro d hd
      rcases ih (insert d x.1 x.2) hd with hmem | hmem
      · exact Or.inl (List.mem_cons_of_mem _ hmem)
      · rcases mem_insert hmem with rfl | hmem
        · exact Or.inl List.mem_cons_self
        · exact Or.inr hmem

/-- The entries of a dictionary, written in any order, make the dictionary. -/
theorem ofList_eq
    {d : Dict α} (hd : Ascending d) {entries : List (String × α)}
    (h : ∀ e, e ∈ entries ↔ e ∈ d) :
    ofList entries = d := by
  refine (ascending_ofList entries).ext hd fun x => ?_
  unfold ofList
  rw [get?_foldl_insert entries (fun e he => (mem_iff_get? hd).1 ((h e).1 he))]
  split
  · rfl
  · rename_i hx
    cases hget : get? d x with
    | none => rfl
    | some a =>
        have hmem := (h (x, a)).2 (mem_of_get? hget)
        exact absurd (List.mem_map_of_mem hmem) hx

/-- Dictionaries in the order of names are the same if they have the same entries. -/
theorem Ascending.eq_of_mem_iff
    {d e : Dict α} (hd : Ascending d) (he : Ascending e) (h : ∀ x, x ∈ d ↔ x ∈ e) :
    d = e :=
  (ofList_eq hd fun _ => Iff.rfl).symm.trans (ofList_eq he h)

/-- The entries under some names, in the order in which the names are given. -/
def select (d : Dict α) (names : List String) : List (String × α) :=
  names.filterMap fun k => (get? d k).map fun a => (k, a)

theorem select_append (d : Dict α) (names names' : List String) :
    select d (names ++ names') = select d names ++ select d names' :=
  List.filterMap_append

theorem select_cons_of_some
    {d : Dict α} {x : String} {a : α} (h : get? d x = some a) (names : List String) :
    select d (x :: names) = (x, a) :: select d names := by
  simp [select, h]

@[simp] theorem select_nil (d : Dict α) : select d [] = [] := rfl

theorem mem_select_iff
    {d : Dict α} {names : List String} {x : String} {a : α} :
    (x, a) ∈ select d names ↔ x ∈ names ∧ get? d x = some a := by
  unfold select
  rw [List.mem_filterMap]
  constructor
  · rintro ⟨k, hk, h⟩
    obtain ⟨b, hb, heq⟩ := Option.map_eq_some_iff.1 h
    cases heq
    exact ⟨hk, hb⟩
  · rintro ⟨hx, ha⟩
    exact ⟨x, hx, by rw [ha]; rfl⟩

/-- The entries under names that cover all names of a dictionary make the dictionary. -/
theorem ofList_select
    {d : Dict α} (hd : Ascending d) {names : List String} (h : ∀ e ∈ d, e.1 ∈ names) :
    ofList (select d names) = d := by
  refine ofList_eq hd fun e => ?_
  obtain ⟨x, a⟩ := e
  rw [mem_select_iff, mem_iff_get? hd]
  constructor
  · exact fun hmem => hmem.2
  · exact fun hget => ⟨h _ (mem_of_get? hget), hget⟩

end Dict

end Allotment
