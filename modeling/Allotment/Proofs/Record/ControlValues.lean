import Allotment.Proofs.Lab.Seeding

/-!
# Variables of a control value

The variables of a control value are appended to a definition one after the other.  A value that
is no definition ends this, and what has been appended by then stays.  So a failure leaves the
experiment as it was if it comes with the first variable, and only then.

**Results.**
* `Experiment.settings_splits`: all values are definitions, or there is a first one that is none.
* `Experiment.seeding_ends`: the ways in which the appending of a control value ends.
* `Experiment.seeding_atomic_iff`: which failures leave the experiment as it was.
* `Experiment.seeding_not_atomic`: not all do.
-/

namespace Allotment

open Grammar (WellFormed)

namespace Experiment

variable {e : Experiment} {vars : List (String × Json)} {body added : List Expr}

/-- All values are definitions, or there is a first one that is none. -/
theorem settings_splits (vars : List (String × Json)) :
    (∃ added, settings vars = .ok added) ∨
    ∃ before x rest added fault, vars = before ++ x :: rest ∧ settings before = .ok added ∧
      Expr.ofJson x.2 = .error fault := by
  induction vars with
  | nil => exact .inl ⟨[], rfl⟩
  | cons x rest ih =>
      cases hx : Expr.ofJson x.2 with
      | error fault => exact .inr ⟨[], x, rest, [], fault, rfl, rfl, hx⟩
      | ok y =>
          have hcons {before added} (h : settings before = .ok added) :
              settings (x :: before) = .ok (.set x.1 y :: added) := by
            rw [settings_cons, hx, h]
            rfl
          rcases ih with ⟨added, hadded⟩ | ⟨before, z, rest', added, fault, rfl, hadded, hz⟩
          · exact .inl ⟨_, hcons hadded⟩
          · exact .inr ⟨x :: before, z, rest', _, fault, rfl, hcons hadded, hz⟩

/-- After variables that could all be appended, the others are appended to what they left. -/
theorem addVariables_append
    {e' : Experiment} (h : e.addVariables vars = (e', none)) (rest : List (String × Json)) :
    e.addVariables (vars ++ rest) = e'.addVariables rest := by
  induction vars generalizing e with
  | nil =>
      obtain rfl : e = e' := congrArg Prod.fst h
      rfl
  | cons x vars ih =>
      rw [addVariables] at h
      rw [List.cons_append, addVariables]
      cases hx : e.addVariable x.1 x.2 with
      | ok e₁ =>
          rw [hx] at h
          exact ih h
      | error fault =>
          rw [hx] at h
          cases h

/-- Variables are appended up to the first value that is no definition. -/
theorem addVariables_stop
    (he : e.definition = ⟨.seq body⟩) (hadded : settings vars = .ok added)
    {x : String × Json} {fault : Fault} (hx : Expr.ofJson x.2 = .error fault)
    (rest : List (String × Json)) :
    e.addVariables (vars ++ x :: rest) =
      ({ e with definition := ⟨.seq (body ++ added)⟩ }, some fault) := by
  have hall := addVariables_of_seq he vars
  rw [hadded] at hall
  rw [addVariables_append hall, addVariables, addVariable_of_seq rfl, hx]
  rfl

/-- Nothing can be appended to a definition that is no sequence. -/
theorem addVariable_of_not_seq
    (he : ∀ body, e.definition ≠ ⟨.seq body⟩) (key : String) (v : Json) :
    ∃ fault, e.addVariable key v = .error fault := by
  unfold addVariable Definition.appendSet
  cases Expr.ofJson v with
  | error fault => exact ⟨fault, rfl⟩
  | ok x =>
      cases hroot : e.definition.root with
      | seq body => exact absurd (congrArg Definition.mk hroot) (he body)
      | _ => exact ⟨_, rfl⟩

/-- The ways in which the appending of variables ends, with the experiment that is left. -/
inductive Ends (e : Experiment) : List (String × Json) → Experiment × Option Fault → Prop
  | nothing : Ends e [] (e, none)
  | refused
      {x : String × Json} {rest : List (String × Json)} {fault : Fault}
      (he : ∀ body, e.definition ≠ ⟨.seq body⟩) :
      Ends e (x :: rest) (e, some fault)
  | appended
      {vars : List (String × Json)} {body added : List Expr}
      (he : e.definition = ⟨.seq body⟩) (hadded : settings vars = .ok added) :
      Ends e vars ({ e with definition := ⟨.seq (body ++ added)⟩ }, none)
  | stopped
      {before rest : List (String × Json)} {x : String × Json} {body added : List Expr}
      {fault : Fault}
      (he : e.definition = ⟨.seq body⟩) (hadded : settings before = .ok added)
      (hx : ¬ WellFormed x.2) :
      Ends e (before ++ x :: rest) ({ e with definition := ⟨.seq (body ++ added)⟩ }, some fault)

theorem addVariables_ends (e : Experiment) (vars : List (String × Json)) :
    Ends e vars (e.addVariables vars) := by
  by_cases he : ∃ body, e.definition = ⟨.seq body⟩
  · obtain ⟨body, he⟩ := he
    rcases settings_splits vars with
      ⟨added, hadded⟩ | ⟨before, x, rest, added, fault, rfl, hadded, hx⟩
    · have hall := addVariables_of_seq he vars
      rw [hadded] at hall
      rw [hall]
      exact .appended he hadded
    · have hnot : ¬ WellFormed x.2 := by
        have hdecides : Decides (WellFormed x.2) (Expr.ofJson x.2) := x.2.judged
        rw [hx] at hdecides
        cases hdecides with
        | error why hnot => exact hnot
      rw [addVariables_stop he hadded hx]
      exact .stopped he hadded hnot
  · have hclosed : ∀ body, e.definition ≠ ⟨.seq body⟩ := not_exists.1 he
    cases vars with
    | nil => exact .nothing
    | cons x rest =>
        obtain ⟨fault, hfault⟩ := addVariable_of_not_seq hclosed x.1 x.2
        rw [addVariables, hfault]
        exact .refused hclosed

/-- The appending of a control value ends in one of these ways. -/
theorem seeding_ends (e : Experiment) (control : Json) :
    Ends e (controlVariables control) (e.setFromControl control) :=
  addVariables_ends e (controlVariables control)

/-- If settings were read, all values are definitions. -/
theorem wellFormed_of_settings
    (h : settings vars = .ok added) :
    ∀ x ∈ vars, WellFormed x.2 := by
  have hdecides := settings_decides vars
  rw [h] at hdecides
  cases hdecides with
  | ok _ hall => exact hall

theorem settings_eq_nil_iff
    (h : settings vars = .ok added) :
    added = [] ↔ vars = [] := by
  cases vars with
  | nil =>
      cases h
      simp
  | cons x rest =>
      rw [settings_cons] at h
      obtain ⟨y, ys, -, -, rfl⟩ := of_both_eq_ok (f := List.cons) h
      simp

/-- Appended settings show. -/
theorem appended_eq_self_iff
    (he : e.definition = ⟨.seq body⟩) :
    { e with definition := ⟨.seq (body ++ added)⟩ } = e ↔ added = [] := by
  constructor
  · intro h
    have hdefinition : (⟨.seq (body ++ added)⟩ : Definition) = ⟨.seq body⟩ :=
      (congrArg Experiment.definition h).trans he
    simpa using hdefinition
  · rintro rfl
    rw [List.append_nil, ← he]

namespace Ends

variable {r : Experiment × Option Fault}

theorem succeeds_iff
    (h : Ends e vars r) :
    r.2 = none ↔
      (∀ x ∈ vars, WellFormed x.2) ∧ (vars = [] ∨ ∃ body, e.definition = ⟨.seq body⟩) := by
  cases h with
  | nothing => simp
  | refused he => simp [he]
  | appended he hadded =>
      exact ⟨fun _ => ⟨wellFormed_of_settings hadded, .inr ⟨_, he⟩⟩, fun _ => rfl⟩
  | @stopped before rest x body added fault he hadded hx =>
      have hmem : x ∈ before ++ x :: rest := List.mem_append_right before List.mem_cons_self
      exact ⟨fun h => absurd h (Option.some_ne_none fault), fun h => absurd (h.1 x hmem) hx⟩

theorem of_success
    (h : Ends e vars r) (hsuccess : r.2 = none) :
    vars = [] ∧ r.1 = e ∨
    ∃ body added, e.definition = ⟨.seq body⟩ ∧ settings vars = .ok added ∧
      r.1 = { e with definition := ⟨.seq (body ++ added)⟩ } := by
  cases h with
  | nothing => exact .inl ⟨rfl, rfl⟩
  | refused he => cases hsuccess
  | appended he hadded => exact .inr ⟨_, _, he, hadded, rfl⟩
  | stopped he hadded hx => cases hsuccess

/-- What is left of a failure. -/
theorem of_failure
    (h : Ends e vars r) (hfailure : r.2 ≠ none) (he : e.definition = ⟨.seq body⟩) :
    ∃ before x rest added, vars = before ++ x :: rest ∧ ¬ WellFormed x.2 ∧
      settings before = .ok added ∧ r.1 = { e with definition := ⟨.seq (body ++ added)⟩ } := by
  cases h with
  | nothing => exact absurd rfl hfailure
  | refused hclosed => exact absurd he (hclosed body)
  | appended he' hadded => exact absurd rfl hfailure
  | @stopped before rest x body' added fault he' hadded hx =>
      cases he.symm.trans he'
      exact ⟨before, x, rest, added, rfl, hx, hadded, rfl⟩

/-- A failure leaves the experiment as it was if nothing was appended before it. -/
theorem unchanged_iff
    (h : Ends e vars r) (hfailure : r.2 ≠ none) :
    r.1 = e ↔
      (∀ body, e.definition ≠ ⟨.seq body⟩) ∨ ∃ x ∈ vars.head?, ¬ WellFormed x.2 := by
  cases h with
  | nothing => exact absurd rfl hfailure
  | refused he => exact ⟨fun _ => .inl he, fun _ => rfl⟩
  | appended he hadded => exact absurd rfl hfailure
  | @stopped before rest x body added fault he hadded hx =>
      rw [appended_eq_self_iff he, settings_eq_nil_iff hadded]
      constructor
      · rintro rfl
        exact .inr ⟨x, rfl, hx⟩
      · rintro (hclosed | ⟨y, hy, hnot⟩)
        · exact absurd he (hclosed body)
        · cases before with
          | nil => rfl
          | cons z before =>
              obtain rfl : z = y := Option.some.inj hy
              exact absurd (wellFormed_of_settings hadded z List.mem_cons_self) hnot

end Ends

/-- A control value is appended to an experiment without a failure exactly if all its values are
definitions and, unless there are none, the experiment's definition is a sequence.  Then one
setting for each variable stands behind those that were there, and nothing else is different.

A failure leaves the experiment as it was exactly if the definition is no sequence or the first
value is no definition.  Of a sequence it leaves in any case what it was, followed by the settings
of the variables before the first value that is no definition. -/
theorem seeding_atomic_iff (e : Experiment) (control : Json) :
    let vars := controlVariables control
    let after := (e.setFromControl control).1
    let failure := (e.setFromControl control).2
    (failure = none ↔
      (∀ x ∈ vars, WellFormed x.2) ∧ (vars = [] ∨ ∃ body, e.definition = ⟨.seq body⟩)) ∧
    (failure = none →
      vars = [] ∧ after = e ∨
      ∃ body added, e.definition = ⟨.seq body⟩ ∧ settings vars = .ok added ∧
        after = { e with definition := ⟨.seq (body ++ added)⟩ }) ∧
    (failure ≠ none →
      (after = e ↔
        (∀ body, e.definition ≠ ⟨.seq body⟩) ∨ ∃ x ∈ vars.head?, ¬ WellFormed x.2) ∧
      ∀ body, e.definition = ⟨.seq body⟩ →
        ∃ before x rest added, vars = before ++ x :: rest ∧ ¬ WellFormed x.2 ∧
          settings before = .ok added ∧
          after = { e with definition := ⟨.seq (body ++ added)⟩ }) := by
  have hends := seeding_ends e control
  refine ⟨hends.succeeds_iff, hends.of_success, fun hfailure => ⟨?_, fun body he => ?_⟩⟩
  · exact hends.unchanged_iff hfailure
  · exact hends.of_failure hfailure he

section Sample

/-- An experiment with a variable. -/
def sampleColored : Experiment :=
  { new 1 "shop" ⟨0, 0⟩ with definition := ⟨.seq [.set "color" (.value (.string "red"))]⟩ }

/-- A control value of two variables.  The value of the second one is an operator that does not
exist. -/
def sampleHalf : Json :=
  .object [("size", .string "small"), ("tint", .object [("op", .string "nope")])]

/-- Of the two variables the first one stays. -/
theorem sample_half_seeded :
    (sampleColored.setFromControl sampleHalf).2 =
      some (.invalidOperator (.unknownOperator "nope")) ∧
    (sampleColored.setFromControl sampleHalf).1.outputs = ["color", "size"] ∧
    (sampleColored.setFromControl sampleHalf).1 ≠ sampleColored := by
  have hfailure : (sampleColored.setFromControl sampleHalf).2 =
      some (.invalidOperator (.unknownOperator "nope")) := rfl
  obtain ⟨-, -, hfailed⟩ := seeding_atomic_iff sampleColored sampleHalf
  obtain ⟨hiff, -⟩ := hfailed (by rw [hfailure]; exact Option.some_ne_none _)
  refine ⟨hfailure, rfl, fun hsame => ?_⟩
  rcases hiff.1 hsame with hclosed | ⟨x, hx, hnot⟩
  · exact hclosed _ rfl
  · obtain rfl : ("size", Json.string "small") = x := Option.some.inj hx
    exact hnot (.string "small")

/-- A control value whose appending fails does not always leave the experiment as it was. -/
theorem seeding_not_atomic :
    ¬ ∀ (e : Experiment) (control : Json) (fault : Fault),
      (e.setFromControl control).2 = some fault → (e.setFromControl control).1 = e := by
  intro hall
  have hsame := hall sampleColored sampleHalf (.invalidOperator (.unknownOperator "nope")) rfl
  have houtputs : ["color", "size"] = ["color"] := congrArg Experiment.outputs hsame
  exact absurd houtputs (by decide)

end Sample

end Experiment

end Allotment
