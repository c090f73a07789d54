import Allotment.Proofs.Expr.Origins

/-!
# Expressions read as they were written

An expression is read from what is written of it, unless a value in it looks like a list of
expressions or an operator, or a map gives up its name for an entry `op`.

An operator is written as its name and its fields.  The form of the operator looks the fields up
by their names, so it recovers what has been written under them, whatever their order in the
object.

**Results.**
* `ofJson_operatorJson`: an operator is read if its form recovers the fields.
* `ofJson_toJson`: an expression that can be told from what is written is read from it.
-/

namespace Allotment

open Allotment.Expr (readings fieldOf ofJson toJson)

namespace Expr

theorem ofItems_toItems
    {es : List Expr} (h : ∀ e ∈ es, ofJson (toJson e) = .ok e) :
    ofItems (toItems es) = .ok es := by
  induction es with
  | nil => rfl
  | cons e es ih =>
      obtain ⟨he, hes⟩ := List.forall_mem_cons.1 h
      rw [toItems, ofItems_cons, he, ih hes]
      rfl

end Expr

namespace Form

variable {α β : Type} {l : List (String × Json)}

/-- The form reads the result wherever its fields are those of the list. -/
def Recovers (l : List (String × Json)) (form : Form α) (a : α) : Prop :=
  ∀ fields op, (∀ k ∈ form.keys, Dict.get? fields k = Dict.get? l k) →
    form.read op (readings fields) = .ok a

namespace Recovers

theorem seq
    {f : Form (α → β)} {x : Form α} {g : α → β} {a : α}
    (hf : Recovers l f g) (hx : Recovers l x a) :
    Recovers l (f.seq x) (g a) := by
  intro fields op h
  have hg := hf fields op fun k hk => h k (List.mem_append_left _ hk)
  have ha := hx fields op fun k hk => h k (List.mem_append_right _ hk)
  rw [seq_read, hg, ha]
  rfl

theorem map
    {x : Form α} {a : α} (hx : Recovers l x a) (g : α → β) :
    Recovers l (x.map g) (g a) := by
  intro fields op h
  show (x.read op (readings fields)).map g = .ok (g a)
  rw [hx fields op h]
  rfl

theorem required
    {key : String} {f : String → Field → Except Fault α} {v : Json} {a : α}
    (hv : Dict.get? l key = some v) (h : ∀ op, f op (fieldOf v) = .ok a) :
    Recovers l (Form.required key f) a := by
  intro fields op hfields
  have hget : Dict.get? fields key = some v := by
    rw [hfields key List.mem_cons_self, hv]
  rw [required_read f op hget, h op]

theorem optional
    {key : String} {f : String → Field → Except Fault α} {v : Json} {a : α}
    (hv : Dict.get? l key = some v) (h : ∀ op, f op (fieldOf v) = .ok a) :
    Recovers l (Form.optional key f) (some a) := by
  intro fields op hfields
  have hget : Dict.get? fields key = some v := by
    rw [hfields key List.mem_cons_self, hv]
  rw [optional_read f op hget, h op]
  rfl

theorem optional_none
    {key : String} {f : String → Field → Except Fault α} (hv : Dict.get? l key = none) :
    Recovers l (Form.optional key f) none := by
  intro fields op hfields
  have hget : Dict.get? fields key = none := by
    rw [hfields key List.mem_cons_self, hv]
  rw [optional_read_none f op hget]

/-- A form recovers the same from any list with the same fields. -/
theorem of_get?
    {form : Form α} {a : α} (h : Recovers l form a) {l' : List (String × Json)}
    (hl : ∀ k ∈ form.keys, Dict.get? l' k = Dict.get? l k) :
    Recovers l' form a :=
  fun fields op hfields => h fields op fun k hk => (hfields k hk).trans (hl k hk)

end Recovers

theorem recovers_json
    {key : String} {v : Json} (hv : Dict.get? l key = some v) :
    Recovers l (json key) v :=
  .required hv fun _ => rfl

theorem recovers_text
    {key s : String} (hv : Dict.get? l key = some (.string s)) :
    Recovers l (text key) s :=
  .required hv fun _ => rfl

theorem recovers_text?
    {key : String} {s : Option String} (hv : Dict.get? l key = s.map .string) :
    Recovers l (text? key) s := by
  cases s with
  | none => exact .optional_none hv
  | some s => exact .optional hv fun _ => rfl

theorem recovers_expr
    {key : String} {e : Expr} (hv : Dict.get? l key = some (toJson e))
    (he : ofJson (toJson e) = .ok e) :
    Recovers l (expr key) e :=
  .required hv fun _ => he

theorem recovers_expr?
    {key : String} {e : Option Expr} (hv : Dict.get? l key = e.map toJson)
    (he : ∀ x ∈ e, ofJson (toJson x) = .ok x) :
    Recovers l (expr? key) e := by
  cases e with
  | none => exact .optional_none hv
  | some e => exact .optional hv fun _ => he e rfl

theorem recovers_branches
    {key : String} {bs : List (Expr × Expr)}
    (hv : Dict.get? l key = some (.array (Expr.toBranches bs)))
    (hbs : Expr.ofBranches (Expr.toBranches bs) = .ok bs) :
    Recovers l (branches key) bs :=
  .required hv fun _ => hbs

/-- A form of one expression. -/
theorem recovers_one
    {key : String} {x : Expr} (g : Expr → α) (hx : Dict.get? l key = some (toJson x))
    (h : ∀ p ∈ [x], ofJson (toJson p) = .ok p) :
    Recovers l ((expr key).map g) (g x) :=
  (recovers_expr hx (h x List.mem_cons_self)).map g

/-- A form of two expressions. -/
theorem recovers_two
    {key key' : String} {x y : Expr} (g : Expr → Expr → α)
    (hx : Dict.get? l key = some (toJson x)) (hy : Dict.get? l key' = some (toJson y))
    (h : ∀ p ∈ [x, y], ofJson (toJson p) = .ok p) :
    Recovers l (((expr key).map g).seq (expr key')) (g x y) := by
  have hy' := h y (List.mem_cons_of_mem x List.mem_cons_self)
  exact .seq ((recovers_expr hx (h x List.mem_cons_self)).map g) (recovers_expr hy hy')

/-- A form of a list of expressions. -/
theorem recovers_list
    {key : String} {es : List Expr} (g : List Expr → α)
    (hes : Dict.get? l key = some (.array (Expr.toItems es)))
    (h : ∀ p ∈ es, ofJson (toJson p) = .ok p) :
    Recovers l ((exprs key).map g) (g es) :=
  .map (.required hes fun _ => Expr.ofItems_toItems h) g

/-- The form of what a random operator draws. -/
def ofDraw : Lottery Expr → Form (Lottery Expr)
  | .uniformChoice _ => (expr "choices").map .uniformChoice
  | .weightedChoice _ _ => ((expr "choices").map .weightedChoice).seq (expr "weights")
  | .bernoulliTrial _ => (expr "p").map .bernoulliTrial
  | .bernoulliFilter _ _ => ((expr "p").map .bernoulliFilter).seq (expr "choices")
  | .randomFloat _ _ => ((expr "min").map .randomFloat).seq (expr "max")
  | .randomInteger _ _ => ((expr "min").map .randomInteger).seq (expr "max")
  | .sample _ _ => ((expr "choices").map .sample).seq (expr? "draws")

theorem ofName?_draw (d : Lottery Expr) : ofName? d.name = some (random (ofDraw d)) := by
  cases d <;> rfl

theorem keys_random (draw : Form (Lottery Expr)) :
    (random draw).keys = draw.keys ++ ["unit", "salt", "full_salt"] := by
  show draw.keys ++ ["unit"] ++ ["salt"] ++ ["full_salt"] = _
  rw [List.append_assoc, List.append_assoc]
  rfl

theorem ofName?_compare (c : Comparison) : ofName? c.name = some (compare c) := by
  cases c <;> rfl

theorem ofName?_aggregate (a : Aggregate) : ofName? a.name = some (aggregate a) := by
  cases a <;> rfl

theorem ofName?_arithmetic (a : Arithmetic) : ofName? a.name = some (arithmetic a) := by
  cases a <;> rfl

theorem ofName?_unary (u : Unary) : ofName? u.name = some (unary u) := by
  cases u <;> rfl

theorem nodup_keys_of_ofName?
    {name : String} {form : Form Expr} (h : ofName? name = some form) :
    ("op" :: form.keys).Nodup := by
  unfold ofName? at h
  split at h <;> cases h <;> decide

/-- An operator is read if its form reads the fields and names all of them. -/
theorem build_of_read
    {name : String} {form : Form Expr} {fields : List (String × Json)} {e : Expr}
    (hform : ofName? name = some form) (hread : form.read name (readings fields) = .ok e)
    (hkeys : ∀ x ∈ fields, x.1 = "op" ∨ x.1 ∈ form.keys) :
    build name (readings fields) = .ok e := by
  unfold build
  simp only [hform, hread, Expr.find?_unknown_eq_none_iff.2 hkeys]

end Form

namespace Expr

open Form (Recovers)

theorem ofJson_operatorJson
    {name : String} {form : Form Expr} {l : List (String × Json)} {e : Expr}
    (hform : Form.ofName? name = some form) (hl : (Dict.keys l).Sublist form.keys)
    (h : Recovers l form e) :
    ofJson (operatorJson name l) = .ok e := by
  have hkeys := Form.nodup_keys_of_ofName? hform
  have hnodup : (Dict.keys (("op", Json.string name) :: l)).Nodup := (hl.cons_cons "op").nodup hkeys
  have hname : name ≠ "map" := by
    rintro rfl
    cases hform
  have hop :
      Dict.get? (Dict.ofList (("op", Json.string name) :: l)) "op" = some (.string name) := by
    rw [Dict.get?_ofList hnodup]
    rfl
  rw [operatorJson, Json.ofFields, ofJson_operator hop hname]
  refine Form.build_of_read hform (h _ _ fun k hk => ?_) fun x hx => ?_
  · have hne : "op" ≠ k := fun heq => (List.nodup_cons.1 hkeys).1 (heq ▸ hk)
    rw [Dict.get?_ofList hnodup, Dict.get?, if_neg hne]
  · rcases List.mem_cons.1 (Dict.mem_of_mem_ofList hx) with rfl | hx
    · exact .inl rfl
    · exact .inr (hl.subset (List.mem_map_of_mem hx))

theorem ofBranch_ofFields
    {c e : Expr} (hc : ofJson (toJson c) = .ok c) (he : ofJson (toJson e) = .ok e) :
    ofBranch (Json.ofFields [("if", toJson c), ("then", toJson e)]) = .ok (c, e) := by
  have hasc : Dict.Ascending [("if", toJson c), ("then", toJson e)] :=
    Dict.ascending_iff_keys.2 (by decide : ["if", "then"].Pairwise (· < ·))
  have hfind : [("if", toJson c), ("then", toJson e)].find?
      (fun x => x.1 != "if" && x.1 != "then") = none := rfl
  rw [Json.ofFields, Dict.ofList_eq hasc fun _ => Iff.rfl, ofBranch_of_known hfind]
  show (do return (← ofJson (toJson c), ← ofJson (toJson e))) = _
  rw [hc, he]
  rfl

theorem ofBranches_toBranches
    {bs : List (Expr × Expr)}
    (h : ∀ b ∈ bs, ofJson (toJson b.1) = .ok b.1 ∧ ofJson (toJson b.2) = .ok b.2) :
    ofBranches (toBranches bs) = .ok bs := by
  induction bs with
  | nil => rfl
  | cons b bs ih =>
      obtain ⟨c, e⟩ := b
      obtain ⟨⟨hc, he⟩, hbs⟩ := List.forall_mem_cons.1 h
      rw [toBranches, ofBranches_cons, ofBranch_ofFields hc he, ih hbs]
      rfl

theorem ofEntries_eq_filter (fields : List (String × Json)) :
    ofEntries fields = ofEntries (fields.filter (·.1 ≠ "op")) := by
  induction fields with
  | nil => rfl
  | cons x rest ih =>
      obtain ⟨k, v⟩ := x
      by_cases hk : k = "op"
      · rw [ofEntries, if_pos hk, ih, List.filter_cons_of_neg (by simpa using hk)]
      · rw [List.filter_cons_of_pos (by simpa using hk), ofEntries_cons rest v hk,
          ofEntries_cons _ v hk, ih]

theorem ofEntries_toEntries
    {entries : List (String × Expr)} (hop : "op" ∉ Dict.keys entries)
    (h : ∀ x ∈ entries, ofJson (toJson x.2) = .ok x.2) :
    ofEntries (toEntries entries) = .ok entries := by
  induction entries with
  | nil => rfl
  | cons x rest ih =>
      obtain ⟨k, e⟩ := x
      obtain ⟨he, hrest⟩ := List.forall_mem_cons.1 h
      obtain ⟨hk, hop⟩ := not_or.1 (fun hmem => hop (List.mem_cons.2 hmem))
      rw [toEntries, ofEntries_cons _ _ (Ne.symm hk), he, ih hop hrest]
      rfl

theorem keys_toEntries (entries : List (String × Expr)) :
    Dict.keys (toEntries entries) = Dict.keys entries := by
  induction entries with
  | nil => rfl
  | cons x rest ih =>
      obtain ⟨k, e⟩ := x
      simpa [toEntries, Dict.keys] using ih

section Operators

variable {e : Expr}

theorem recovers_draw
    {d : Lottery Expr} (h : ∀ p ∈ d.operands, ofJson (toJson p) = .ok p) :
    Recovers (toFields d) (Form.ofDraw d) d := by
  cases d with
  | uniformChoice c => exact Form.recovers_one _ rfl h
  | weightedChoice c w => exact Form.recovers_two _ rfl rfl h
  | bernoulliTrial p => exact Form.recovers_one _ rfl h
  | bernoulliFilter p c => exact Form.recovers_two _ rfl rfl h
  | randomFloat lo hi => exact Form.recovers_two _ rfl rfl h
  | randomInteger lo hi => exact Form.recovers_two _ rfl rfl h
  | sample c n =>
      obtain ⟨hc, hn⟩ := List.forall_mem_cons.1 h
      have hchoices : Dict.get? (toFields (.sample c n)) "choices" = some (toJson c) := by
        cases n <;> rfl
      have hdraws : Dict.get? (toFields (.sample c n)) "draws" = n.map toJson := by
        cases n <;> rfl
      exact .seq ((Form.recovers_expr hchoices hc).map _)
        (Form.recovers_expr? hdraws fun x hx => hn x (Option.mem_toList.2 hx))

/-- The fields of a random operator are under the names of its form, in the same order. -/
theorem keys_toFields_sublist (d : Lottery Expr) :
    (Dict.keys (toFields d)).Sublist (Form.ofDraw d).keys := by
  cases d with
  | sample c n =>
      cases n with
      | none => exact .cons_cons _ (.cons _ .slnil)
      | some n => exact .refl _
  | _ => exact .refl _

theorem keys_textField?_sublist (key : String) (s : Option String) :
    (Dict.keys (textField? key s)).Sublist [key] := by
  cases s with
  | none => exact .cons _ .slnil
  | some s => exact .refl _

/-- The fields of a draw have other names than those that all random operators have. -/
theorem ne_of_mem_ofDraw_keys
    {d : Lottery Expr} {k k' : String} (hk : k ∈ (Form.ofDraw d).keys)
    (hk' : k' ∈ ["unit", "salt", "full_salt"]) :
    k ≠ k' := by
  have hkeys := Form.nodup_keys_of_ofName? (Form.ofName?_draw d)
  rw [Form.keys_random, ← List.cons_append] at hkeys
  exact (List.nodup_append.1 hkeys).2.2 k (List.mem_cons_of_mem _ hk) k' hk'

theorem get?_of_mem_ofDraw_keys
    {d : Lottery Expr} {l : List (String × Json)}
    (hl : (Dict.keys l).Sublist ["unit", "salt", "full_salt"]) {k : String}
    (hk : k ∈ (Form.ofDraw d).keys) :
    Dict.get? (toFields d ++ l) k = Dict.get? (toFields d) k := by
  have hnone : Dict.get? l k = none :=
    Dict.get?_eq_none_iff.2 fun hmem => ne_of_mem_ofDraw_keys hk (hl.subset hmem) rfl
  rw [Dict.get?_append, hnone, Option.or_none]

theorem get?_of_common
    (d : Lottery Expr) (l : List (String × Json)) {k : String}
    (hk : k ∈ ["unit", "salt", "full_salt"]) :
    Dict.get? (toFields d ++ l) k = Dict.get? l k := by
  have hnone : Dict.get? (toFields d) k = none :=
    Dict.get?_eq_none_iff.2 fun hmem =>
      ne_of_mem_ofDraw_keys ((keys_toFields_sublist d).subset hmem) hk rfl
  rw [Dict.get?_append, hnone, Option.none_or]

theorem ofJson_random
    {d : Lottery Expr} {unit : Expr} (salt fullSalt : Option String)
    (hd : ∀ p ∈ d.operands, ofJson (toJson p) = .ok p) (hunit : ofJson (toJson unit) = .ok unit) :
    ofJson (toJson (.random d unit salt fullSalt)) = .ok (.random d unit salt fullSalt) := by
  let rest := ("unit", toJson unit) :: (textField? "salt" salt ++ textField? "full_salt" fullSalt)
  have hrest : (Dict.keys rest).Sublist ["unit", "salt", "full_salt"] := by
    refine .cons_cons "unit" ?_
    rw [List.map_append]
    exact (keys_textField?_sublist "salt" salt).append (keys_textField?_sublist _ fullSalt)
  have hsalt : Dict.get? rest "salt" = salt.map .string := by
    cases salt <;> cases fullSalt <;> rfl
  have hfullSalt : Dict.get? rest "full_salt" = fullSalt.map .string := by
    cases salt <;> cases fullSalt <;> rfl
  rw [toJson]
  refine ofJson_operatorJson (Form.ofName?_draw d) ?_ ?_
  · rw [Form.keys_random, Dict.keys, List.map_append]
    exact (keys_toFields_sublist d).append hrest
  · have hdraw := (recovers_draw hd).of_get? fun k hk => get?_of_mem_ofDraw_keys hrest hk
    refine .seq (.seq (.seq (hdraw.map _) ?_) ?_) ?_
    · exact Form.recovers_expr (get?_of_common d rest (by decide)) hunit
    · exact Form.recovers_text? ((get?_of_common d rest (by decide)).trans hsalt)
    · exact Form.recovers_text? ((get?_of_common d rest (by decide)).trans hfullSalt)

/-- An operator is read from what is written if its parts are. -/
theorem ofJson_of_hasForm
    (hform : e.HasForm) (h : ∀ p ∈ e.parts, ofJson (toJson p) = .ok p) :
    ofJson (toJson e) = .ok e := by
  cases e with
  | value v => exact hform.elim
  | list es => exact hform.elim
  | map entries => exact hform.elim
  | literal v => exact ofJson_operatorJson rfl (.refl _) ((Form.recovers_json rfl).map _)
  | get x => exact ofJson_operatorJson rfl (.refl _) ((Form.recovers_text rfl).map _)
  | set x e =>
      have he := h e List.mem_cons_self
      exact ofJson_operatorJson rfl (.refl _)
        (.seq ((Form.recovers_text rfl).map _) (Form.recovers_expr rfl he))
  | seq es => exact ofJson_operatorJson rfl (.refl _) (Form.recovers_list _ rfl h)
  | ret e => exact ofJson_operatorJson rfl (.refl _) (Form.recovers_one _ rfl h)
  | cond bs =>
      have hbs := ofBranches_toBranches fun b hb =>
        ⟨h b.1 (List.mem_flatMap.2 ⟨b, hb, by simp⟩), h b.2 (List.mem_flatMap.2 ⟨b, hb, by simp⟩)⟩
      exact ofJson_operatorJson rfl (.refl _) ((Form.recovers_branches rfl hbs).map _)
  | array e => exact ofJson_operatorJson rfl (.refl _) (Form.recovers_one _ rfl h)
  | index b i => exact ofJson_operatorJson rfl (.refl _) (Form.recovers_two _ rfl rfl h)
  | coalesce es => exact ofJson_operatorJson rfl (.refl _) (Form.recovers_list _ rfl h)
  | all es => exact ofJson_operatorJson rfl (.refl _) (Form.recovers_list _ rfl h)
  | any es => exact ofJson_operatorJson rfl (.refl _) (Form.recovers_list _ rfl h)
  | compare c l r =>
      exact ofJson_operatorJson (Form.ofName?_compare c) (.refl _) (Form.recovers_two _ rfl rfl h)
  | aggregate a e =>
      exact ofJson_operatorJson (Form.ofName?_aggregate a) (.refl _) (Form.recovers_one _ rfl h)
  | arithmetic a l r =>
      exact ofJson_operatorJson (Form.ofName?_arithmetic a) (.refl _)
        (Form.recovers_two _ rfl rfl h)
  | unary u e =>
      exact ofJson_operatorJson (Form.ofName?_unary u) (.refl _) (Form.recovers_one _ rfl h)
  | random d unit salt fullSalt =>
      obtain ⟨hunit, hd⟩ := List.forall_mem_cons.1 h
      exact ofJson_random salt fullSalt hd hunit

end Operators

section Maps

variable {entries : List (String × Expr)} (hasc : Dict.Ascending entries)
  (hop : Dict.get? entries "op" = none)
include hasc hop

theorem nodup_keys_map (name : Json) :
    (Dict.keys (("op", name) :: toEntries entries)).Nodup := by
  have hkeys : Dict.keys (("op", name) :: toEntries entries) = "op" :: Dict.keys entries :=
    congrArg ("op" :: ·) (keys_toEntries entries)
  rw [hkeys, List.nodup_cons]
  exact ⟨Dict.get?_eq_none_iff.1 hop, Dict.nodup_keys hasc⟩

/-- Without the name of the operator the entries that are written are left. -/
theorem filter_ofList_toEntries (name : Json) :
    (Dict.ofList (("op", name) :: toEntries entries)).filter (·.1 ≠ "op") = toEntries entries := by
  have hfields := Dict.ascending_ofList (("op", name) :: toEntries entries)
  have hentries : Dict.Ascending (toEntries entries) := by
    rw [Dict.ascending_iff_keys, keys_toEntries]
    exact Dict.ascending_iff_keys.1 hasc
  have hnone : Dict.get? (toEntries entries) "op" = none := by
    rw [Dict.get?_eq_none_iff, keys_toEntries]
    exact Dict.get?_eq_none_iff.1 hop
  refine Dict.Ascending.eq_of_mem_iff (hfields.filter _) hentries fun x => ?_
  obtain ⟨k, v⟩ := x
  rw [List.mem_filter, Dict.mem_iff_get? hfields, Dict.mem_iff_get? hentries,
    Dict.get?_ofList (nodup_keys_map hasc hop name), Dict.get?]
  by_cases hk : "op" = k
  · subst hk
    simp [hnone]
  · simp [hk, Ne.symm hk]

theorem ofJson_toJson_map
    (h : ∀ p ∈ (Expr.map entries).parts, ofJson (toJson p) = .ok p) :
    ofJson (toJson (.map entries)) = .ok (.map entries) := by
  have hname : Dict.get? (Dict.ofList (("op", .string "map") :: toEntries entries)) "op" =
      some (.string "map") := by
    rw [Dict.get?_ofList (nodup_keys_map hasc hop _)]
    rfl
  have hentries : ofEntries (toEntries entries) = .ok entries :=
    ofEntries_toEntries (Dict.get?_eq_none_iff.1 hop) fun x hx => h x.2 (List.mem_map_of_mem hx)
  rw [toJson, operatorJson, Json.ofFields, ofJson_map hname, ofEntries_eq_filter,
    filter_ofList_toEntries hasc hop, hentries]
  rfl

end Maps

theorem ofJson_of_bare
    {v : Json} (h : v.Bare) :
    ofJson v = .ok (.value v) := by
  cases v with
  | array items => exact h.elim
  | object fields => exact ofJson_plain h
  | _ => rfl

/-- An expression that can be told from what is written is read from it. -/
theorem ofJson_toJson
    {e : Expr} (hordered : e.Ordered) (h : e.Rereadable) :
    ofJson (toJson e) = .ok e := by
  induction e using induction_on_parts with
  | step e ih =>
      have hparts : ∀ p ∈ e.parts, ofJson (toJson p) = .ok p := by
        intro p hp
        refine ih p hp (fun entries hn => ?_) fun n hn => ?_
        · exact hordered entries (mem_nodes.2 (.inr ⟨p, hp, hn⟩))
        · exact h n (mem_nodes.2 (.inr ⟨p, hp, hn⟩))
      have hroot := h e (mem_nodes_self e)
      cases e with
      | value v => exact ofJson_of_bare hroot
      | list es =>
          have hes : ofItems (toItems es) = .ok es := ofItems_toItems hparts
          rw [toJson, ofJson_array, hes]
          rfl
      | map entries =>
          exact ofJson_toJson_map (hordered entries (mem_nodes_self _)) hroot hparts
      | _ => exact ofJson_of_hasForm trivial hparts

end Expr

end Allotment
