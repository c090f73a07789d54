import Allotment.Proofs.Store.Upserts
import Mathlib.Data.List.Induction

/-!
# Courses of a memory

A course is what is done to a memory, one deed after the other.  A deed is a call that may change
the memory, together with the record that came back.  A call that only reads or that is refused
leaves the memory as it is and is no deed, so every sequence of calls is a course.

A history tells which deeds created a record: those that always do, and of the deeds that ask for
the record of a key the first one since everything was forgotten.

**Results.**
* `Course.append_iff`: a course can be cut at any place.
* `Course.induction_since`: what is kept since everything was forgotten.
* `sinceClear_concat`, `creations_concat`: what one more deed adds to a history.
-/

namespace Allotment

/-- What records that are created on demand are found by. -/
inductive RecordKey where
  | experiment (name : String)
  | variation (experiment : UInt64) (key value : String)
  | goal (name : String)
deriving DecidableEq

/-- Something that was done to a memory, with the record that was given. -/
inductive Deed where
  /-- An experiment was asked for, which was created or not. -/
  | experiment (name : String) (given : Experiment) (created : Bool)
  /-- An experiment was saved. -/
  | saved (e : Experiment)
  /-- A variation was asked for. -/
  | variation (experiment : UInt64) (key value : String) (given : Variation)
  /-- An exposure was added. -/
  | exposure (experiment variation : UInt64) (unit : Subject) (circumstances : EventMeta)
      (given : Exposure)
  /-- A goal was asked for. -/
  | goal (name : String) (given : Goal)
  /-- A goal was attached to an experiment. -/
  | attached (experiment goal : UInt64)
  /-- An achievement was added. -/
  | achievement (goal : UInt64) (unit : Subject) (value : Float) (related : Option Related)
      (circumstances : EventMeta) (given : Achievement)
  /-- An entry was added to a log. -/
  | logged (experiment : UInt64) (data : Json) (given : LogEntry)
  /-- A user was registered. -/
  | registered (user : User)
  /-- Everything but the users was forgotten. -/
  | cleared
  /-- Time passed. -/
  | passed (now : Time)

namespace Deed

/-- Everything but the users was forgotten. -/
def clears : Deed → Bool
  | .cleared => true
  | _ => false

/-- The key of the record that was asked for, if it is one that is created on demand. -/
def key? : Deed → Option RecordKey
  | .experiment name _ _ => some (.experiment name)
  | .variation id key value _ => some (.variation id key value)
  | .goal name _ => some (.goal name)
  | _ => none

/-- The number of the record that was given. -/
def number? : Deed → Option UInt64
  | .experiment _ e _ => some e.id
  | .variation _ _ _ v => some v.id
  | .exposure _ _ _ _ x => some x.id
  | .goal _ g => some g.id
  | .achievement _ _ _ _ _ a => some a.id
  | .logged _ _ l => some l.id
  | _ => none

/-- The variation that was given. -/
def variation? : Deed → Option Variation
  | .variation _ _ _ v => some v
  | _ => none

/-- The exposure that was added. -/
def exposure? : Deed → Option Exposure
  | .exposure _ _ _ _ x => some x
  | _ => none

/-- The goal that was given. -/
def goal? : Deed → Option Goal
  | .goal _ g => some g
  | _ => none

/-- The achievement that was added. -/
def achievement? : Deed → Option Achievement
  | .achievement _ _ _ _ _ a => some a
  | _ => none

/-- The entry that was added to a log. -/
def entry? : Deed → Option LogEntry
  | .logged _ _ l => some l
  | _ => none

/-- The number of the experiment that was given, and the name it was asked for by. -/
def naming? : Deed → Option (UInt64 × String)
  | .experiment name e _ => some (e.id, name)
  | _ => none

/-- The record that was given has the data of the call. -/
def IsFaithful : Deed → Prop
  | .experiment name e _ => e.name = name
  | .variation id key value v => v.experimentId = id ∧ v.key = key ∧ v.value = value
  | .exposure id shown unit circumstances x =>
      x.experimentId = id ∧ x.variationId = shown ∧ x.unit = unit ∧ x.circumstances = circumstances
  | .goal name g => g.name = name
  | .achievement id unit value related circumstances a =>
      a.goalId = id ∧ a.unit = unit ∧ a.value = value ∧ a.related = related ∧
        a.circumstances = circumstances
  | .logged id data l => l.experimentId = id ∧ l.data = data
  | _ => True

/-- The record of the key was asked for. -/
def asks (k : RecordKey) (d : Deed) : Bool := d.key? = some k

/-- The deed creates a record if the records of some keys are known: it always does, or it asks
for the record of a key that is not known. -/
def creates (known : RecordKey → Bool) (d : Deed) : Bool :=
  d.number?.isSome && d.key?.all fun k => !known k

end Deed

/-- What was done, in its order. -/
abbrev Chronicle := List Deed

namespace Chronicle

/-- What was done since everything was forgotten. -/
def sinceClear (past : Chronicle) : Chronicle :=
  past.foldl (fun recent d => if d.clears then [] else recent ++ [d]) []

/-- The record of a key was asked for. -/
def asked (past : Chronicle) (k : RecordKey) : Bool := past.any (Deed.asks k)

/-- The deeds that created a record, if some were done before since everything was forgotten. -/
def creationsAfter (recent : Chronicle) : Chronicle → Chronicle
  | [] => []
  | d :: rest =>
      let later := creationsAfter (if d.clears then [] else recent ++ [d]) rest
      if d.creates recent.asked then d :: later else later

/-- The deeds that created a record. -/
def creations (past : Chronicle) : Chronicle := creationsAfter [] past

/-- The numbers that were given out, in their order. -/
def numbers (past : Chronicle) : List UInt64 := past.creations.filterMap Deed.number?

/-- The records that were created since everything was forgotten are no more than there are numbers
for them. -/
def Fits (past : Chronicle) : Prop := past.sinceClear.creations.length ≤ UInt64.size

variable {past : Chronicle} {d : Deed}

@[simp] theorem sinceClear_nil : sinceClear [] = [] := rfl

theorem sinceClear_concat (past : Chronicle) (d : Deed) :
    sinceClear (past ++ [d]) = if d.clears then [] else sinceClear past ++ [d] := by
  simp [sinceClear]

@[simp] theorem creations_nil : creations [] = [] := rfl

/-- One more deed is one more creation, or none. -/
theorem creations_concat (past : Chronicle) (d : Deed) :
    creations (past ++ [d]) =
      creations past ++ if d.creates (sinceClear past).asked then [d] else [] := by
  suffices h : ∀ recent : Chronicle,
      creationsAfter recent (past ++ [d]) = creationsAfter recent past ++
        if d.creates
          (asked (past.foldl (fun recent d => if d.clears then [] else recent ++ [d]) recent))
        then [d] else [] from h []
  induction past with
  | nil => exact fun recent => rfl
  | cons d' past ih =>
      intro recent
      simp only [List.cons_append, creationsAfter, ih, List.foldl_cons]
      split
      · rfl
      · rfl

/-- After everything was forgotten, what was done since is what was done after. -/
theorem sinceClear_idem (past : Chronicle) :
    sinceClear (sinceClear past) = sinceClear past := by
  induction past using List.reverseRecOn with
  | nil => rfl
  | append_singleton past d ih =>
      rw [sinceClear_concat]
      split
      · rfl
      · rename_i hclears
        rw [sinceClear_concat, if_neg hclears, ih]

/-- What was created since everything was forgotten was created last. -/
theorem creations_sinceClear_suffix (past : Chronicle) :
    past.sinceClear.creations <:+ past.creations := by
  induction past using List.reverseRecOn with
  | nil => exact List.suffix_refl _
  | append_singleton past d ih =>
      rw [sinceClear_concat]
      split
      · exact List.nil_suffix
      · obtain ⟨earlier, hearlier⟩ := ih
        rw [creations_concat, creations_concat, sinceClear_idem, ← hearlier, List.append_assoc]
        exact List.suffix_append _ _

theorem mem_of_mem_sinceClear
    (h : d ∈ past.sinceClear) :
    d ∈ past := by
  induction past using List.reverseRecOn with
  | nil => exact h
  | append_singleton past d' ih =>
      rw [sinceClear_concat] at h
      split at h
      · simp at h
      · rcases List.mem_append.1 h with h | h
        · exact List.mem_append_left _ (ih h)
        · exact List.mem_append_right _ h

end Chronicle

namespace Memory

/-- One deed and what it makes of a memory. -/
inductive Happens : Memory → Deed → Memory → Prop
  | experiment {m : Memory} (name : String) :
      Happens m (.experiment name (m.ensureExperiment name).1.1 (m.ensureExperiment name).1.2)
        (m.ensureExperiment name).2
  | saved {m m' : Memory} {e : Experiment} (h : m.saveExperiment e = .ok m') :
      Happens m (.saved e) m'
  | variation {m : Memory} (experiment : UInt64) (key value : String) :
      Happens m (.variation experiment key value (m.ensureVariation experiment key value).1)
        (m.ensureVariation experiment key value).2
  | exposure {m : Memory} (experiment variation : UInt64) (unit : Subject)
      (circumstances : EventMeta) :
      Happens m
        (.exposure experiment variation unit circumstances
          (m.addExposure experiment variation unit circumstances).1)
        (m.addExposure experiment variation unit circumstances).2
  | goal {m : Memory} (name : String) :
      Happens m (.goal name (m.ensureGoal name).1) (m.ensureGoal name).2
  | attached {m m' : Memory} {experiment goal : UInt64}
      (h : m.attachGoal experiment goal = .ok m') :
      Happens m (.attached experiment goal) m'
  | achievement {m : Memory} (goal : UInt64) (unit : Subject) (value : Float)
      (related : Option Related) (circumstances : EventMeta) :
      Happens m
        (.achievement goal unit value related circumstances
          (m.addAchievement goal unit value related circumstances).1)
        (m.addAchievement goal unit value related circumstances).2
  | logged {m : Memory} (experiment : UInt64) (data : Json) :
      Happens m (.logged experiment data (m.addLog experiment data).1)
        (m.addLog experiment data).2
  | registered {m : Memory} (user : User) : Happens m (.registered user) (m.putUser user)
  | cleared {m : Memory} : Happens m .cleared m.clear
  | passed {m : Memory} (now : Time) : Happens m (.passed now) { m with now }

/-- A deed makes one thing of a memory. -/
theorem Happens.unique
    {m m₁ m₂ : Memory} {d : Deed} (h : Happens m d m₁) (h' : Happens m d m₂) :
    m₁ = m₂ := by
  cases h with
  | saved h =>
      cases h' with
      | saved h' => exact Except.ok.inj (h.symm.trans h')
  | attached h =>
      cases h' with
      | attached h' => exact Except.ok.inj (h.symm.trans h')
  | _ =>
      cases h'
      rfl

/-- What was done to a memory and what became of it. -/
inductive Course (start : Memory) : Chronicle → Memory → Prop
  | nil : Course start [] start
  | snoc {past : Chronicle} {m m' : Memory} {d : Deed} (h : Course start past m)
      (hstep : Happens m d m') : Course start (past ++ [d]) m'

namespace Course

variable {start m m' : Memory} {past later : Chronicle} {d : Deed}

theorem single (hstep : Happens m d m') : Course m [d] m' := .snoc .nil hstep

theorem append
    (h : Course start past m) (h' : Course m later m') :
    Course start (past ++ later) m' := by
  induction h' with
  | nil => simpa using h
  | snoc h' hstep ih =>
      rw [← List.append_assoc]
      exact ih.snoc hstep

/-- The last deed of a course happened to what the deeds before it have led to. -/
theorem of_concat
    (h : Course start (past ++ [d]) m') :
    ∃ m, Course start past m ∧ Happens m d m' := by
  generalize hpast : past ++ [d] = all at h
  cases h with
  | nil => simp at hpast
  | @snoc past' m _ d' h hstep =>
      obtain ⟨rfl, hd⟩ := List.append_inj' hpast rfl
      cases hd
      exact ⟨m, h, hstep⟩

/-- A history leads to one memory. -/
theorem unique
    (h : Course start past m) (h' : Course start past m') :
    m = m' := by
  induction h generalizing m' with
  | nil =>
      generalize hpast : ([] : Chronicle) = all at h'
      cases h' with
      | nil => rfl
      | snoc => simp at hpast
  | snoc h hstep ih =>
      obtain ⟨m₁, h₁, hstep'⟩ := h'.of_concat
      rw [← ih h₁] at hstep'
      exact hstep.unique hstep'

/-- A course can be cut at any place. -/
theorem append_iff :
    Course start (past ++ later) m' ↔ ∃ m, Course start past m ∧ Course m later m' := by
  constructor
  · intro h
    induction later using List.reverseRecOn generalizing m' with
    | nil => exact ⟨m', by simpa using h, .nil⟩
    | append_singleton later d ih =>
        rw [← List.append_assoc] at h
        obtain ⟨m₁, h₁, hstep⟩ := h.of_concat
        obtain ⟨m, hfirst, hrest⟩ := ih h₁
        exact ⟨m, hfirst, hrest.snoc hstep⟩
  · rintro ⟨m, h, h'⟩
    exact h.append h'

/-- What holds of new and of cleared memories and is kept by the deeds that do not forget holds at
the end, with what was done since everything was forgotten. -/
theorem induction_since
    {now : Time} {motive : Chronicle → Memory → Prop} (h : Course { now } past m)
    (hnew : motive [] { now }) (hcleared : ∀ m : Memory, motive [] m.clear)
    (hkept : ∀ past m d m', Course { now } past m → Happens m d m' → d.clears = false →
      motive past.sinceClear m → motive (past.sinceClear ++ [d]) m') :
    motive past.sinceClear m := by
  induction h with
  | nil => exact hnew
  | @snoc past m m' d h hstep ih =>
      rw [Chronicle.sinceClear_concat]
      cases hclears : d.clears with
      | true =>
          cases hstep with
          | cleared => exact hcleared m
          | _ => cases hclears
      | false => exact hkept past m d m' h hstep hclears ih

/-- Each deed since everything was forgotten happened to a memory with a history of its own, which
has the deeds before it. -/
theorem exists_moment
    (h : Course start past m) {before after : Chronicle}
    (hsplit : past.sinceClear = before ++ d :: after) :
    ∃ past' m₁ m₂, past'.sinceClear = before ∧ Course start past' m₁ ∧ Happens m₁ d m₂ := by
  induction h generalizing after with
  | nil => simp at hsplit
  | @snoc past m m' d' h hstep ih =>
      rw [Chronicle.sinceClear_concat] at hsplit
      split at hsplit
      · simp at hsplit
      · rcases List.eq_nil_or_concat after with rfl | ⟨after, d'', rfl⟩
        · obtain ⟨hbefore, hd⟩ := List.append_inj' hsplit rfl
          cases hd
          exact ⟨past, m, m', hbefore, h, hstep⟩
        · have hsplit : past.sinceClear ++ [d'] = (before ++ d :: after) ++ [d''] := by
            simpa using hsplit
          exact ih (List.append_inj' hsplit rfl).1

end Course

end Memory

end Allotment
