import Allotment.Definition
import Allotment.Proofs.Expr.Fields
import Allotment.Proofs.Json.Denotation

/-!
# Expressions written as they were read

An expression that is read from a canonical value is written as that value again.

What a form reads is tied to the entries of the object under the names of the form.  The relation
is built up with the form: a form of one field reads what is written as the one entry, and fields
of one form and then of another read what is written as the entries of the one and then of the
other.  An operator names all of its entries, so its fields, with its name, are written as the
whole object.

**Results.**
* `yields_ofName?`: an operator is written as the entries under the names of its form.
* `Json.restores`: an expression is written as the value it was read from.
* `Definition.written_as_read`: so is a definition.
-/

namespace Allotment

open Allotment.Expr (readings fieldOf ofJson toJson)

/-- An expression that is read from the value is written as the value, if this is canonical. -/
def Json.Restores (v : Json) : Prop := v.Canonical → ∀ e, ofJson v = .ok e → e.toJson = v

namespace Form

variable {α β : Type} {fields : List (String × Json)}

/-- The entries under the names of the form are related to what the form reads. -/
def Yields (fields : List (String × Json)) (form : Form α)
    (R : List (String × Json) → α → Prop) : Prop :=
  ∀ op a, form.read op (readings fields) = .ok a → R (Dict.select fields form.keys) a

namespace Yields

variable {Q : List (String × Json) → α → Prop} {R : List (String × Json) → β → Prop}

theorem seq
    {f : Form (α → β)} {x : Form α}
    (hf : Yields fields f fun l g => ∀ l' a, Q l' a → R (l ++ l') (g a))
    (hx : Yields fields x Q) :
    Yields fields (f.seq x) R := by
  intro op b h
  rw [seq_read] at h
  obtain ⟨g, a, hg, ha, rfl⟩ := of_both_eq_ok h
  show R (Dict.select fields (f.keys ++ x.keys)) (g a)
  rw [Dict.select_append]
  exact hf op g hg _ a (hx op a ha)

theorem map
    {g : α → β} {x : Form α}
    (hx : Yields fields x Q) (h : ∀ l a, Q l a → R l (g a)) :
    Yields fields (x.map g) R := by
  intro op b hb
  obtain ⟨a, ha, rfl⟩ := of_map_eq_ok hb
  exact h _ a (hx op a ha)

theorem required
    {key : String} {f : String → Field → Except Fault α}
    (h : ∀ v op a, Dict.get? fields key = some v → f op (fieldOf v) = .ok a → Q [(key, v)] a) :
    Yields fields (Form.required key f) Q := by
  intro op a ha
  cases hv : Dict.get? fields key with
  | none => simp [required_read_none f op hv] at ha
  | some v =>
      rw [required_read f op hv] at ha
      simpa [Form.required, Dict.select, hv] using h v op a hv ha

theorem optional
    {key : String} {f : String → Field → Except Fault α}
    {Q : List (String × Json) → Option α → Prop}
    (hsome : ∀ v op a, Dict.get? fields key = some v → f op (fieldOf v) = .ok a →
      Q [(key, v)] (some a))
    (hnone : Q [] none) :
    Yields fields (Form.optional key f) Q := by
  intro op o ho
  cases hv : Dict.get? fields key with
  | none =>
      rw [optional_read_none f op hv] at ho
      cases ho
      simpa [Form.optional, Dict.select, hv] using hnone
  | some v =>
      rw [optional_read f op hv] at ho
      obtain ⟨a, ha, rfl⟩ := of_map_eq_ok ho
      simpa [Form.optional, Dict.select, hv] using hsome v op a hv ha

end Yields

theorem yields_json (key : String) :
    Yields fields (json key) fun l v => l = [(key, v)] := by
  refine Yields.required fun v op a _ h => ?_
  cases h
  rfl

theorem eq_string_of_asText
    {key op s : String} {v : Json} (h : asText key op (fieldOf v) = .ok s) :
    v = .string s := by
  unfold asText at h
  split at h
  · rename_i s' hs
    cases h
    exact hs
  · cases h

theorem yields_text (key : String) :
    Yields fields (text key) fun l s => l = [(key, .string s)] := by
  refine Yields.required fun v op s _ h => ?_
  rw [eq_string_of_asText h]

theorem yields_text? (key : String) :
    Yields fields (text? key) fun l s => l = Expr.textField? key s := by
  refine Yields.optional (fun v op s _ h => ?_) rfl
  rw [eq_string_of_asText h]
  rfl

theorem yields_literal :
    Yields fields ((json "value").map Expr.literal) fun l e =>
      toJson e = Expr.operatorJson "literal" l := by
  refine (yields_json "value").map ?_
  rintro _ v rfl
  rfl

theorem yields_get :
    Yields fields ((text "var").map Expr.get) fun l e =>
      toJson e = Expr.operatorJson "get" l := by
  refine (yields_text "var").map ?_
  rintro _ x rfl
  rfl

end Form

namespace Expr

theorem toItems_of_ofItems
    {items : List Json} (h : ∀ v ∈ items, v.Restores) (hcan : ∀ v ∈ items, v.Canonical)
    {es : List Expr} (hes : ofItems items = .ok es) :
    toItems es = items := by
  induction items generalizing es with
  | nil =>
      cases hes
      rfl
  | cons v rest ih =>
      obtain ⟨hv, hrest⟩ := List.forall_mem_cons.1 h
      obtain ⟨hcanv, hcanrest⟩ := List.forall_mem_cons.1 hcan
      rw [ofItems_cons] at hes
      obtain ⟨x, xs, hx, hxs, rfl⟩ := of_both_eq_ok hes
      rw [toItems, hv hcanv x hx, ih hrest hcanrest hxs]

theorem toEntries_of_ofEntries
    {fields : List (String × Json)} (h : ∀ x ∈ fields, x.2.Restores)
    (hcan : ∀ x ∈ fields, x.2.Canonical) {entries : List (String × Expr)}
    (hentries : ofEntries fields = .ok entries) :
    toEntries entries = fields.filter fun x => x.1 ≠ "op" := by
  induction fields generalizing entries with
  | nil =>
      cases hentries
      rfl
  | cons x rest ih =>
      obtain ⟨k, v⟩ := x
      obtain ⟨hv, hrest⟩ := List.forall_mem_cons.1 h
      obtain ⟨hcanv, hcanrest⟩ := List.forall_mem_cons.1 hcan
      by_cases hk : k = "op"
      · unfold ofEntries at hentries
        rw [if_pos hk] at hentries
        rw [ih hrest hcanrest hentries, List.filter_cons_of_neg (by simpa using hk)]
      · rw [ofEntries_cons rest v hk] at hentries
        obtain ⟨e, es, he, hes, rfl⟩ := of_both_eq_ok hentries
        rw [toEntries, hv hcanv e he, ih hrest hcanrest hes,
          List.filter_cons_of_pos (by simpa using hk)]

/-- A branch is written as the object it was read from. -/
theorem eq_of_ofBranch
    {v : Json} (hcan : v.Canonical) (h : v.Below Json.Restores) {c e : Expr}
    (hb : ofBranch v = .ok (c, e)) :
    Json.ofFields [("if", toJson c), ("then", toJson e)] = v := by
  obtain ⟨fields, vc, ve, rfl, hkeys, hif, hc, hthen, he⟩ := of_ofBranch_eq_ok hb
  have hselect : Dict.select fields ["if", "then"] = [("if", vc), ("then", ve)] := by
    rw [Dict.select_cons_of_some hif, Dict.select_cons_of_some hthen, Dict.select_nil]
  rw [h.entry hif (Json.canonical_of_entry hcan hif) c hc,
    h.entry hthen (Json.canonical_of_entry hcan hthen) e he, Json.ofFields, ← hselect]
  have hasc := (Json.canonical_object_iff.1 hcan).1
  exact congrArg Json.object (Dict.ofList_select hasc fun x hx => by simpa using hkeys x hx)

theorem toBranches_of_ofBranches
    {items : List Json} (h : ∀ v ∈ items, v.Below Json.Restores)
    (hcan : ∀ v ∈ items, v.Canonical) {bs : List (Expr × Expr)}
    (hbs : ofBranches items = .ok bs) :
    toBranches bs = items := by
  induction items generalizing bs with
  | nil =>
      cases hbs
      rfl
  | cons v rest ih =>
      obtain ⟨hv, hrest⟩ := List.forall_mem_cons.1 h
      obtain ⟨hcanv, hcanrest⟩ := List.forall_mem_cons.1 hcan
      rw [ofBranches_cons] at hbs
      obtain ⟨⟨c, e⟩, rest', hb, hrest', rfl⟩ := of_both_eq_ok hbs
      rw [toBranches, eq_of_ofBranch hcanv hv hb, ih hrest hcanrest hrest']

end Expr

namespace Form

section Operators

variable {fields : List (String × Json)} (hcan : (Json.object fields).Canonical)
  (hparts : (Json.object fields).Below Json.Restores)
include hcan hparts

theorem yields_expr (key : String) :
    Yields fields (expr key) fun l e => l = [(key, toJson e)] := by
  refine Yields.required fun v op e hv h => ?_
  rw [hparts.entry hv (Json.canonical_of_entry hcan hv) e h]

theorem yields_expr? (key : String) :
    Yields fields (expr? key) fun l e => l = (e.map fun e => (key, toJson e)).toList := by
  refine Yields.optional (fun v op e hv h => ?_) rfl
  rw [Option.map_some, hparts.entry hv (Json.canonical_of_entry hcan hv) e h]
  rfl

theorem yields_exprs (key : String) :
    Yields fields (exprs key) fun l es => l = [(key, .array (Expr.toItems es))] := by
  refine Yields.required fun v op es hv h => ?_
  split at h
  · rename_i read hread
    obtain ⟨items, rfl, hitems⟩ := Expr.of_itemsOf_eq_some hread
    rw [hitems] at h
    have hcan := Json.canonical_array_iff.1 (Json.canonical_of_entry hcan hv)
    rw [Expr.toItems_of_ofItems (fun w hw => (hparts.of_entry hv).item hw) hcan h]
  · cases h

theorem yields_branches (key : String) :
    Yields fields (branches key) fun l bs => l = [(key, .array (Expr.toBranches bs))] := by
  refine Yields.required fun v op bs hv h => ?_
  split at h
  · rename_i read hread
    obtain ⟨items, rfl, hitems⟩ := Expr.of_branchesOf_eq_some hread
    rw [hitems] at h
    have hcan := Json.canonical_array_iff.1 (Json.canonical_of_entry hcan hv)
    rw [Expr.toBranches_of_ofBranches (fun w hw => (hparts.of_entry hv).of_item hw) hcan h]
  · cases h

/-- A form of one expression. -/
theorem yields_one
    {key : String} {g : Expr → α} {R : List (String × Json) → α → Prop}
    (hg : ∀ x, R [(key, toJson x)] (g x)) :
    Yields fields ((expr key).map g) R := by
  refine (yields_expr hcan hparts key).map fun l x hl => ?_
  rw [hl]
  exact hg x

/-- A form of two expressions. -/
theorem yields_two
    {key key' : String} {g : Expr → Expr → α} {R : List (String × Json) → α → Prop}
    (hg : ∀ x y, R [(key, toJson x), (key', toJson y)] (g x y)) :
    Yields fields (((expr key).map g).seq (expr key')) R := by
  refine Yields.seq (yields_one hcan hparts fun x l y hl => ?_) (yields_expr hcan hparts key')
  rw [hl]
  exact hg x y

/-- A form of a list of expressions. -/
theorem yields_list
    {key : String} {g : List Expr → α} {R : List (String × Json) → α → Prop}
    (hg : ∀ es, R [(key, .array (Expr.toItems es))] (g es)) :
    Yields fields ((exprs key).map g) R := by
  refine (yields_exprs hcan hparts key).map fun l es hl => ?_
  rw [hl]
  exact hg es

theorem yields_set :
    Yields fields (((text "var").map Expr.set).seq (expr "value")) fun l e =>
      toJson e = Expr.operatorJson "set" l := by
  refine Yields.seq ((yields_text "var").map ?_) (yields_expr hcan hparts "value")
  rintro _ x rfl _ e rfl
  rfl

theorem yields_cond :
    Yields fields ((branches "cond").map Expr.cond) fun l e =>
      toJson e = Expr.operatorJson "cond" l := by
  refine (yields_branches hcan hparts "cond").map ?_
  rintro _ bs rfl
  rfl

theorem yields_sample :
    Yields fields (((expr "choices").map Lottery.sample).seq (expr? "draws")) fun l d =>
      d.name = "sample" ∧ l = Expr.toFields d := by
  refine Yields.seq (yields_one hcan hparts ?_) (yields_expr? hcan hparts "draws")
  rintro choices _ draws rfl
  cases draws with
  | none => exact ⟨rfl, rfl⟩
  | some n => exact ⟨rfl, rfl⟩

theorem yields_random
    {draw : Form (Lottery Expr)} {name : String}
    (h : Yields fields draw fun l d => d.name = name ∧ l = Expr.toFields d) :
    Yields fields (random draw) fun l e => toJson e = Expr.operatorJson name l := by
  refine Yields.seq (Yields.seq (Yields.seq (h.map ?_) (yields_expr hcan hparts "unit"))
    (yields_text? "salt")) (yields_text? "full_salt")
  rintro _ d ⟨rfl, rfl⟩ _ unit rfl _ salt rfl _ fullSalt rfl
  simp only [toJson, List.append_assoc, List.cons_append, List.nil_append]

/-- An operator is written as its name and the entries under the names of its form. -/
theorem yields_ofName?
    {name : String} {form : Form Expr} (h : ofName? name = some form) :
    Yields fields form fun l e => toJson e = Expr.operatorJson name l := by
  unfold ofName? at h
  split at h <;> cases h
  · exact yields_literal
  · exact yields_get
  · exact yields_set hcan hparts
  · exact yields_list hcan hparts fun _ => rfl
  · exact yields_one hcan hparts fun _ => rfl
  · exact yields_cond hcan hparts
  · exact yields_one hcan hparts fun _ => rfl
  · exact yields_two hcan hparts fun _ _ => rfl
  · exact yields_list hcan hparts fun _ => rfl
  · exact yields_list hcan hparts fun _ => rfl
  · exact yields_list hcan hparts fun _ => rfl
  · exact yields_two hcan hparts fun _ _ => rfl
  · exact yields_two hcan hparts fun _ _ => rfl
  · exact yields_two hcan hparts fun _ _ => rfl
  · exact yields_two hcan hparts fun _ _ => rfl
  · exact yields_two hcan hparts fun _ _ => rfl
  · exact yields_one hcan hparts fun _ => rfl
  · exact yields_one hcan hparts fun _ => rfl
  · exact yields_one hcan hparts fun _ => rfl
  · exact yields_one hcan hparts fun _ => rfl
  · exact yields_two hcan hparts fun _ _ => rfl
  · exact yields_two hcan hparts fun _ _ => rfl
  · exact yields_one hcan hparts fun _ => rfl
  · exact yields_one hcan hparts fun _ => rfl
  · exact yields_one hcan hparts fun _ => rfl
  · exact yields_one hcan hparts fun _ => rfl
  · exact yields_random hcan hparts (yields_one hcan hparts fun _ => ⟨rfl, rfl⟩)
  · exact yields_random hcan hparts (yields_two hcan hparts fun _ _ => ⟨rfl, rfl⟩)
  · exact yields_random hcan hparts (yields_one hcan hparts fun _ => ⟨rfl, rfl⟩)
  · exact yields_random hcan hparts (yields_two hcan hparts fun _ _ => ⟨rfl, rfl⟩)
  · exact yields_random hcan hparts (yields_two hcan hparts fun _ _ => ⟨rfl, rfl⟩)
  · exact yields_random hcan hparts (yields_two hcan hparts fun _ _ => ⟨rfl, rfl⟩)
  · exact yields_random hcan hparts (yields_sample hcan hparts)

end Operators

end Form

namespace Json

section Objects

variable {fields : List (String × Json)} (hcan : (Json.object fields).Canonical)
  (hparts : (Json.object fields).Below Json.Restores)
include hcan hparts

theorem eq_of_ofEntries
    {entries : List (String × Expr)} (hop : Dict.get? fields "op" = some (.string "map"))
    (hentries : Expr.ofEntries fields = .ok entries) :
    toJson (.map entries) = .object fields := by
  have hasc := (canonical_object_iff.1 hcan).1
  have hread := Expr.toEntries_of_ofEntries (fun x hx => hparts x.2 (sizeOf_entry_lt hx))
    (canonical_object_iff.1 hcan).2 hentries
  rw [toJson, hread]
  refine congrArg Json.object (Dict.ofList_eq hasc fun x => ?_)
  obtain ⟨k, v⟩ := x
  by_cases hk : k = "op"
  · subst hk
    simp [Dict.mem_iff_get? hasc, hop, eq_comm]
  · simp [hk]

theorem eq_of_build
    {name : String} {e : Expr} (hop : Dict.get? fields "op" = some (.string name))
    (he : Form.build name (readings fields) = .ok e) :
    toJson e = .object fields := by
  obtain ⟨form, hform, hread, hkeys⟩ := Form.of_build_eq_ok he
  rw [Form.yields_ofName? hcan hparts hform name e hread, Expr.operatorJson, ofFields,
    ← Dict.select_cons_of_some hop]
  have hasc := (canonical_object_iff.1 hcan).1
  exact congrArg Json.object (Dict.ofList_select hasc fun x hx => by simpa using hkeys x hx)

end Objects

/-- An expression that is read from a canonical value is written as the value. -/
theorem restores (v : Json) : v.Restores := by
  induction v using induction_on_size with
  | h v hparts =>
      intro hcan e he
      cases v with
      | array items =>
          rw [Expr.ofJson_array] at he
          obtain ⟨es, hes, rfl⟩ := of_map_eq_ok he
          rw [toJson, Expr.toItems_of_ofItems (fun w hw => hparts.item hw)
            (canonical_array_iff.1 hcan) hes]
      | object fields =>
          rcases Expr.op_cases fields with
            hop | hop | ⟨name, hop, hname⟩ | ⟨found, hop, hfound⟩
          · rw [Expr.ofJson_plain hop] at he
            cases he
            rfl
          · rw [Expr.ofJson_map hop] at he
            obtain ⟨entries, hentries, rfl⟩ := of_map_eq_ok he
            exact eq_of_ofEntries hcan hparts hop hentries
          · rw [Expr.ofJson_operator hop hname] at he
            exact eq_of_build hcan hparts hop he
          · rw [Expr.ofJson_nameNotString hop hfound] at he
            cases he
      | _ =>
          cases he
          rfl

end Json

namespace Definition

theorem toJson_of_ofJson
    {v : Json} (hv : v.Canonical) {d : Definition} (h : ofJson v = .ok d) :
    d.toJson = v := by
  obtain ⟨e, he, rfl⟩ := of_map_eq_ok h
  exact v.restores hv e he

/-- A definition that is read from a text is written as the value that the text denotes. -/
theorem toJson_of_parse
    {text : String} {d : Definition} (h : parse text = .ok d) :
    Json.parse? text = some d.toJson := by
  unfold parse at h
  split at h
  · rename_i v hv
    rw [hv, toJson_of_ofJson (Json.fits_of_parse? hv).canonical h]
  · cases h

/-- What is read from a canonical value, as an expression or as a definition, is written as that
value. -/
theorem written_as_read
    (v : Json) (hv : v.Canonical) :
    (∀ e, Expr.ofJson v = .ok e → e.toJson = v) ∧ (∀ d, ofJson v = .ok d → d.toJson = v) := by
  constructor
  · exact v.restores hv
  · exact fun d hd => toJson_of_ofJson hv hd

section Sample

/-- A sequence of a setting with a sample, a bare list and a map. -/
def mixedSequence : Json :=
  .object [
    ("op", .string "seq"),
    ("seq", .array [
      .object [
        ("op", .string "set"),
        ("value", .object [
          ("choices", .array [.string "a", .bool true]),
          ("draws", .object [("op", .string "get"), ("var", .string "n")]),
          ("op", .string "sample"),
          ("salt", .string "s"),
          ("unit", .object [("op", .string "get"), ("var", .string "u")])]),
        ("var", .string "x")],
      .array [.null, .object [("k", .null)]],
      .object [
        ("a b", .object [("op", .string "literal"), ("value", .object [("op", .null)])]),
        ("op", .string "map")]])]

/-- The expression that the sequence stands for. -/
def mixedRead : Expr :=
  .seq [
    .set "x" (.random
      (.sample (.list [.value (.string "a"), .value (.bool true)]) (some (.get "n")))
      (.get "u") (some "s") none),
    .list [.value .null, .value (.object [("k", .null)])],
    .map [("a b", .literal (.object [("op", .null)]))]]

theorem mixedSequence_written_as_read :
    mixedSequence.Canonical ∧ Expr.ofJson mixedSequence = .ok mixedRead ∧
      mixedRead.toJson = mixedSequence := by
  have hcan : mixedSequence.Canonical := by
    simp only [mixedSequence, Json.Canonical, Json.CanonicalItems, Json.CanonicalFields, and_true,
      true_and]
    decide
  have hread : Expr.ofJson mixedSequence = .ok mixedRead := by
    rfl
  exact ⟨hcan, hread, (written_as_read mixedSequence hcan).1 mixedRead hread⟩

end Sample

end Definition

end Allotment
