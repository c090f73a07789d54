import Allotment.Proofs.Store.Index

/-!
# Attached goals

The goals of an experiment are part of its record.  A goal is attached under the number of the
experiment, which adds it to the record.  A save replaces the record under its name, and the goals
with it.  So which goals an experiment has is told by its history alone: those of the last record
that was saved under its name, and those that were attached after it.

A goal that was attached is lost if a copy is saved that was read before.

**Results.**
* `Course.goalIds_eq`: the goals of an experiment are told by the history.
* `Course.attached_stays`: an attached goal is listed as long as the records that are saved have it.
* `Course.listed_in_order`: the goals are listed in the order in which they were attached first, as
  long as the records that are saved begin with those that were attached before.
-/

namespace Allotment

namespace Deed

/-- The goals that a deed attaches to the experiment of a number and a name. -/
def attaches (id : UInt64) (name : String) : Deed → List UInt64
  | .attached i g => if i = id then [g] else []
  | .saved e => if e.name = name then e.goalIds else []
  | _ => []

/-- The goals of the experiment of a number and a name after a deed, if it held some before. -/
def goalsAfter (id : UInt64) (name : String) (held : List UInt64) : Deed → List UInt64
  | .attached i g => if i = id ∧ g ∉ held then held ++ [g] else held
  | .saved e => if e.name = name then e.goalIds else held
  | _ => held

end Deed

namespace Chronicle

variable {past : Chronicle} {id : UInt64} {name : String}

/-- The goals that were attached to the experiment of a number and a name, by themselves or with a
record that was saved. -/
def attachments (past : Chronicle) (id : UInt64) (name : String) : List UInt64 :=
  past.flatMap (Deed.attaches id name)

/-- The goals that the experiment of a number and a name is left with. -/
def goalsLeft (past : Chronicle) (id : UInt64) (name : String) : List UInt64 :=
  past.foldl (Deed.goalsAfter id name) []

/-- What was done to a memory that did not forget adds to what was done since it last did. -/
theorem sinceClear_append
    {later : Chronicle} (h : ∀ d ∈ later, d.clears = false) :
    (past ++ later).sinceClear = past.sinceClear ++ later := by
  induction later using List.reverseRecOn with
  | nil => simp
  | append_singleton later d ih =>
      rw [← List.append_assoc, sinceClear_concat, h d (by simp),
        ih fun d hd => h d (List.mem_append_left _ hd)]
      simp

theorem eraseDups_append_of_subset
    {goals more : List UInt64} (h : more ⊆ goals) :
    (goals ++ more).eraseDups = goals.eraseDups := by
  have hnone : more.removeAll goals = [] := by
    simpa [List.removeAll, List.filter_eq_nil_iff] using fun g hg => h hg
  rw [List.eraseDups_append, hnone]
  simp

theorem eraseDups_concat
    {goals : List UInt64} {g : UInt64} (h : g ∉ goals) :
    (goals ++ [g]).eraseDups = goals.eraseDups ++ [g] := by
  rw [List.eraseDups_append]
  simp [List.removeAll, h, List.eraseDups_cons]

/-- Goals that are there, and others behind them, each once, are what is there then. -/
theorem eraseDups_append_of_prefix
    {goals held : List UInt64} (h : goals.eraseDups <+: held) (hnodup : held.Nodup) :
    (goals ++ held).eraseDups = held := by
  obtain ⟨more, rfl⟩ := h
  induction more using List.reverseRecOn with
  | nil =>
      rw [List.append_nil, eraseDups_append_of_subset fun g hg => List.mem_eraseDups.1 hg]
  | append_singleton more g ih =>
      rw [← List.append_assoc] at hnodup
      obtain ⟨hbefore, -, hnew⟩ := List.nodup_append.1 hnodup
      have hnew : g ∉ goals ++ (goals.eraseDups ++ more) := by
        intro hg
        refine hnew g ?_ g List.mem_cons_self rfl
        simpa using hg
      rw [← List.append_assoc, ← List.append_assoc, List.append_assoc goals, eraseDups_concat hnew,
        ih hbefore, List.append_assoc]

/-- A goal that is held is left if the records that are saved have it. -/
theorem mem_foldl_goalsAfter
    {later : Chronicle} {held : List UInt64} {goal : UInt64} (hgoal : goal ∈ held)
    (hsaved : ∀ e, .saved e ∈ later → e.name = name → goal ∈ e.goalIds) :
    goal ∈ later.foldl (Deed.goalsAfter id name) held := by
  induction later generalizing held with
  | nil => exact hgoal
  | cons d later ih =>
      refine ih ?_ fun e he => hsaved e (List.mem_cons_of_mem d he)
      cases d with
      | attached i g =>
          simp only [Deed.goalsAfter]
          split
          · exact List.mem_append_left _ hgoal
          · exact hgoal
      | saved e =>
          simp only [Deed.goalsAfter]
          split
          · rename_i hname
            exact hsaved e List.mem_cons_self hname
          · exact hgoal
      | _ => exact hgoal

/-- A deed leaves the goals that were attached so far, each once and in the order of the first time,
if it saves no record but one with the goals that were there at its beginning and no goal twice. -/
theorem goalsAfter_eq
    {d : Deed} {goals held : List UInt64} (hheld : held = goals.eraseDups) (hnodup : held.Nodup)
    (hsaved : ∀ e, d = .saved e → e.name = name → goals.eraseDups <+: e.goalIds ∧ e.goalIds.Nodup) :
    d.goalsAfter id name held = (goals ++ d.attaches id name).eraseDups ∧
      (d.goalsAfter id name held).Nodup := by
  have hsame (hafter : d.goalsAfter id name held = held) (hold : d.attaches id name ⊆ held) :
      d.goalsAfter id name held = (goals ++ d.attaches id name).eraseDups ∧
        (d.goalsAfter id name held).Nodup := by
    have hold : d.attaches id name ⊆ goals := fun g hg => List.mem_eraseDups.1 (hheld ▸ hold hg)
    rw [hafter, eraseDups_append_of_subset hold]
    exact ⟨hheld, hnodup⟩
  cases d with
  | attached i g =>
      by_cases hi : i = id
      · by_cases hg : g ∈ held
        · exact hsame (by simp [Deed.goalsAfter, hg]) (by simp [Deed.attaches, hi, hg])
        · have hnew : g ∉ goals := by
            rwa [hheld, List.mem_eraseDups] at hg
          have hattaches : Deed.attaches id name (.attached i g) = [g] := by
            simp [Deed.attaches, hi]
          have hafter : Deed.goalsAfter id name held (.attached i g) = held ++ [g] := by
            simp [Deed.goalsAfter, hi, hg]
          rw [hafter, hattaches, eraseDups_concat hnew]
          refine ⟨by rw [hheld], List.nodup_append.2 ⟨hnodup, by simp, fun a ha b hb heq => ?_⟩⟩
          rw [heq, List.mem_singleton.1 hb] at ha
          exact hg ha
      · exact hsame (by simp [Deed.goalsAfter, hi]) (by simp [Deed.attaches, hi])
  | saved e =>
      by_cases hname : e.name = name
      · obtain ⟨hstart, hnodup⟩ := hsaved e rfl hname
        have hattaches : Deed.attaches id name (.saved e) = e.goalIds := if_pos hname
        have hafter : Deed.goalsAfter id name held (.saved e) = e.goalIds := if_pos hname
        rw [hafter, hattaches, eraseDups_append_of_prefix hstart hnodup]
        exact ⟨rfl, hnodup⟩
      · exact hsame (if_neg hname) (by simp [Deed.attaches, hname])
  | _ => exact hsame rfl (List.nil_subset _)

/-- The goals that are left are those that were attached, each once and in the order of the first
time, if each record that was saved has the goals that were attached before at its beginning and no
goal twice. -/
theorem goalsLeft_eq
    (hsaved : ∀ before e after, past = before ++ .saved e :: after → e.name = name →
      (attachments before id name).eraseDups <+: e.goalIds ∧ e.goalIds.Nodup) :
    goalsLeft past id name = (attachments past id name).eraseDups ∧
      (goalsLeft past id name).Nodup := by
  induction past using List.reverseRecOn with
  | nil => exact ⟨rfl, .nil⟩
  | append_singleton past d ih =>
      obtain ⟨ih, hnodup⟩ := ih fun before e after hsplit =>
        hsaved before e (after ++ [d]) (by simp [hsplit])
      have hstep : d.goalsAfter id name (goalsLeft past id name) =
          (attachments past id name ++ d.attaches id name).eraseDups ∧
            (d.goalsAfter id name (goalsLeft past id name)).Nodup :=
        goalsAfter_eq ih hnodup fun e hd => hsaved past e [] (by rw [hd])
      simpa [goalsLeft, attachments] using hstep

end Chronicle

namespace Memory

variable {now : Time} {past : Chronicle} {m m' : Memory} {d : Deed} {id : UInt64} {name : String}

/-- The goals of the experiment of a name. -/
def goalIds (m : Memory) (name : String) : List UInt64 :=
  (m.experiment? name).elim [] Experiment.goalIds

/-- The number leads to no other name, and the name has no other number. -/
structure Belongs (m : Memory) (id : UInt64) (name : String) : Prop where
  leads : ∀ x, m.names.find? (fun x => x.1 = id) = some x → x.2 = name
  number : ∀ x ∈ m.names, x.2 = name → x.1 = id

namespace Growth

variable {created : Chronicle}

theorem belongs
    (h : Growth m created m') (hb : m'.Belongs id name) :
    m.Belongs id name where
  leads x hx := by
    refine hb.leads x ?_
    rw [h.names, List.find?_append, hx]
    rfl
  number x hx := by
    refine hb.number x ?_
    rw [h.names]
    exact List.mem_append_left _ hx

theorem experiment?_of_some
    (h : Growth m created m') {e : Experiment} (he : m.experiment? name = some e) :
    ∃ e', m'.experiment? name = some e' ∧ e'.name = name := by
  obtain ⟨hmem, rfl⟩ := mem_of_experiment? he
  have hknown : e.name ∈ m'.experiments.map Experiment.name := by
    rw [h.experiments]
    exact List.mem_append_left _ (List.mem_map_of_mem hmem)
  cases hfound : m'.experiment? e.name with
  | none =>
      obtain ⟨e', he', hname⟩ := List.mem_map.1 hknown
      simpa [hname] using List.find?_eq_none.1 hfound e' he'
  | some e' => exact ⟨e', rfl, (mem_of_experiment? hfound).2⟩

theorem experimentById
    (h : Growth m created m') {e : Experiment} (he : m.experimentById id = .ok e) :
    ∃ e', m'.experimentById id = .ok e' ∧ e'.name = e.name := by
  obtain ⟨hfind, he⟩ := of_experimentById he
  have hfind' : m'.names.find? (fun x => x.1 = id) = some (id, e.name) := by
    rw [h.names, List.find?_append, hfind]
    rfl
  obtain ⟨e', hfound, hname⟩ := h.experiment?_of_some he
  refine ⟨e', ?_, hname⟩
  unfold Memory.experimentById
  simp only [hfind', hfound]

end Growth

theorem Filed.belongs
    {e : Experiment} (h : m.Filed) (he : m.experimentById id = .ok e) :
    m.Belongs id e.name := by
  obtain ⟨hfind, -⟩ := of_experimentById he
  refine ⟨fun x hx => ?_, fun x hx hname => ?_⟩
  · rw [hfind] at hx
    cases hx
    rfl
  · obtain ⟨i, n⟩ := x
    cases hname
    exact h.number_unique hx (List.mem_of_find?_eq_some hfind)

/-- What a deed that does not forget makes of the goals of an experiment. -/
theorem Happens.goalIds_eq
    (h : Happens m d m') (hkeep : d.clears = false) (hb : m.Belongs id name) :
    m'.goalIds name = d.goalsAfter id name (m.goalIds name) := by
  have hother (hd : d.onExperiments = false) : m'.goalIds name = m.goalIds name := by
    simp only [goalIds, experiment?, (h.experiments_eq hd).1]
  -- A record that is replaced has the goals of the replacement, and others keep theirs.
  have hput {e old : Experiment} (hold : m.experiment? e.name = some old) :
      (m.putExperiment e).goalIds name = if e.name = name then e.goalIds else m.goalIds name := by
    unfold goalIds
    rw [experiment?_putExperiment]
    by_cases hname : e.name = name
    · subst hname
      simp [hold]
    · rw [if_neg (Ne.symm hname), if_neg hname]
  cases h with
  | experiment n =>
      show (m.ensureExperiment n).2.goalIds name = m.goalIds name
      unfold goalIds
      rw [experiment?_ensureExperiment]
      split
      · rename_i heq
        rw [heq]
        cases hfind : m.experiment? n with
        | some e => rw [ensureExperiment_of_some hfind]
        | none =>
            rw [ensureExperiment_of_none hfind]
            rfl
      · rfl
  | @saved _ e h =>
      obtain ⟨⟨old, hold⟩, rfl⟩ := of_saveExperiment h
      exact hput (e := e.touch m.now) hold
  | @attached _ i g h =>
      obtain ⟨-, e, he, rfl⟩ := of_attachGoal h
      obtain ⟨hfind, hold⟩ := of_experimentById he
      have hsame : ((e.attachGoal g).touch m.now).name = e.name := (attachGoal_id_name e g).2
      rw [hput (hsame ▸ hold), hsame]
      by_cases hi : i = id
      · obtain rfl : e.name = name := hb.leads _ (hi ▸ hfind)
        have hgoals : m.goalIds e.name = e.goalIds := by
          simp [goalIds, hold]
        rw [if_pos rfl, Deed.goalsAfter, hgoals]
        show (e.attachGoal g).goalIds = _
        unfold Experiment.attachGoal
        by_cases hg : g ∈ e.goalIds
        · simp [hg]
        · simp [hi, hg]
      · have hname : ¬ e.name = name := fun heq =>
          hi (hb.number (i, e.name) (List.mem_of_find?_eq_some hfind) heq)
        rw [if_neg hname]
        simp [Deed.goalsAfter, hi]
  | cleared => cases hkeep
  | _ => exact hother rfl

/-- The goals of an experiment are what the deeds since everything was forgotten have left. -/
theorem Course.goalIds_eq
    (h : Course { now } past m) :
    m.Belongs id name → m.goalIds name = Chronicle.goalsLeft past.sinceClear id name := by
  refine h.induction_since (motive := fun recent m => m.Belongs id name →
    m.goalIds name = Chronicle.goalsLeft recent id name) (fun _ => rfl) (fun m _ => rfl) ?_
  intro past m d m' _ hstep hkeep ih hb
  have hbefore := (hstep.growth hkeep).belongs hb
  rw [hstep.goalIds_eq hkeep hbefore, ih hbefore]
  simp [Chronicle.goalsLeft]

/-- What a history that does not forget adds to the tables. -/
theorem Course.grows
    {start : Memory} {later : Chronicle} (h : Course start later m)
    (hkeep : ∀ d ∈ later, d.clears = false) :
    ∃ created, Growth start created m := by
  induction h with
  | nil => exact ⟨[], .of_same rfl start.now start.users⟩
  | @snoc later m m' d h hstep ih =>
      obtain ⟨created, hgrowth⟩ := ih fun d hd => hkeep d (List.mem_append_left _ hd)
      exact ⟨_, hgrowth.trans (hstep.growth (hkeep d (by simp)))⟩

/-- Goals that were attached since everything was forgotten are known. -/
theorem Course.goal?_of_attached
    (h : Course { now } past m) {goal : UInt64} :
    .attached id goal ∈ past.sinceClear → (m.goal? goal).isSome = true := by
  refine h.induction_since (motive := fun recent m => .attached id goal ∈ recent →
    (m.goal? goal).isSome = true) (by simp) (by simp) ?_
  intro past m d m' _ hstep hkeep ih hmem
  have hknown : (m.goal? goal).isSome = true := by
    rcases List.mem_append.1 hmem with hmem | hmem
    · exact ih hmem
    · rw [← List.mem_singleton.1 hmem] at hstep
      cases hstep with
      | attached h =>
          obtain ⟨⟨g, hg⟩, -⟩ := of_attachGoal h
          rw [hg]
          rfl
  obtain ⟨g, hg⟩ := Option.isSome_iff_exists.1 hknown
  rw [(hstep.growth hkeep).goal?_of_some hg]
  rfl

theorem map_id_filterMap_goal?
    (m : Memory) (goals : List UInt64) :
    (goals.filterMap m.goal?).map Goal.id = goals.filter fun g => (m.goal? g).isSome := by
  induction goals with
  | nil => rfl
  | cons g goals ih =>
      cases hg : m.goal? g with
      | none => simpa [hg] using ih
      | some goal =>
          have hid : goal.id = g := by simpa using List.find?_some hg
          simpa [hg, hid] using ih

/-- The goals of an experiment are listed as the history has left them. -/
theorem Course.goals_listed
    (h : Course { now } past m) {x : Experiment} (hx : m.experimentById id = .ok x) :
    (Store.goals id : StoreM Memory _) m =
      .ok ((Chronicle.goalsLeft past.sinceClear id x.name).filterMap m.goal?) m := by
  have hgoals : m.goalIds x.name = x.goalIds := by
    simp [goalIds, (of_experimentById hx).2]
  rw [goals_apply hx, ← hgoals, h.goalIds_eq (h.filed.belongs hx)]

/-- A goal that was attached is listed as long as the records that are saved have it. -/
theorem Course.attached_stays
    {m₁ : Memory} {later : Chronicle} {goal : UInt64} {x : Experiment}
    (h : Course { now } past m) (hx : m.experimentById id = .ok x)
    (hattach : m.attachGoal id goal = .ok m₁) (hlater : Course m₁ later m')
    (hkeep : ∀ d ∈ later, d.clears = false)
    (hsaved : ∀ e, .saved e ∈ later → e.name = x.name → goal ∈ e.goalIds) :
    ∃ goals, (Store.goals id : StoreM Memory _) m' = .ok goals m' ∧ goal ∈ goals.map Goal.id := by
  have hall : Course { now } (past ++ .attached id goal :: later) m' := by
    simpa using (h.snoc (.attached hattach)).append hlater
  have hsince : Chronicle.sinceClear (past ++ .attached id goal :: later) =
      past.sinceClear ++ .attached id goal :: later := by
    refine Chronicle.sinceClear_append fun d hd => ?_
    rcases List.mem_cons.1 hd with rfl | hd
    · rfl
    · exact hkeep d hd
  obtain ⟨x', hx', hname⟩ : ∃ x', m'.experimentById id = .ok x' ∧ x'.name = x.name := by
    have hgrows : ∃ created, Growth m created m' := by
      refine ((Course.single (.attached hattach)).append hlater).grows fun d hd => ?_
      rcases List.mem_append.1 hd with hd | hd
      · rw [List.mem_singleton.1 hd]
        rfl
      · exact hkeep d hd
    exact hgrows.choose_spec.experimentById hx
  have hmem : .attached id goal ∈ Chronicle.sinceClear (past ++ .attached id goal :: later) := by
    simp [hsince]
  refine ⟨_, hall.goals_listed hx', ?_⟩
  rw [map_id_filterMap_goal?, hname, hsince]
  refine List.mem_filter.2 ⟨?_, hall.goal?_of_attached hmem⟩
  have hheld : goal ∈ Deed.goalsAfter id x.name (Chronicle.goalsLeft past.sinceClear id x.name)
      (.attached id goal) := by
    simp only [Deed.goalsAfter]
    split
    · simp
    · simp_all
  simpa [Chronicle.goalsLeft] using Chronicle.mem_foldl_goalsAfter hheld hsaved

/-- The goals are listed in the order in which they were attached first, each once, if the records
that were saved under the name begin with the goals that were attached before and repeat none. -/
theorem Course.listed_in_order
    {x : Experiment} (h : Course { now } past m) (hx : m.experimentById id = .ok x)
    (hsaved : ∀ (before : Chronicle) e after, past.sinceClear = before ++ .saved e :: after →
      e.name = x.name →
      (before.attachments id x.name).eraseDups <+: e.goalIds ∧ e.goalIds.Nodup) :
    ∃ goals, (Store.goals id : StoreM Memory _) m = .ok goals m ∧
      goals.map Goal.id = (past.sinceClear.attachments id x.name).eraseDups.filter
        (fun goal => (m.goal? goal).isSome) ∧
      (goals.map Goal.id).Nodup ∧
      ∀ goal, .attached id goal ∈ past.sinceClear → goal ∈ goals.map Goal.id := by
  obtain ⟨hleft, hnodup⟩ := Chronicle.goalsLeft_eq hsaved
  refine ⟨_, h.goals_listed hx, ?_, ?_, fun goal hgoal => ?_⟩
  · rw [map_id_filterMap_goal?, hleft]
  · rw [map_id_filterMap_goal?]
    exact hnodup.filter _
  · rw [map_id_filterMap_goal?, hleft]
    refine List.mem_filter.2 ⟨List.mem_eraseDups.2 ?_, h.goal?_of_attached hgoal⟩
    exact List.mem_flatMap.2 ⟨_, hgoal, by simp [Deed.attaches]⟩

end Memory

end Allotment
