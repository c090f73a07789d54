import Allotment.Lab
import Allotment.Proofs.Dict
import Allotment.Proofs.Trial.Steps
import Allotment.Store.Memory

/-!
# The units of trials

A trial for a unit has the identity of the unit among its inputs, and the unit for which its
exposures are recorded is read off the inputs again.  What is read is the unit that the trial
is for, unless its identifier only looks like that of a registered user.

**Results.**
* `resolveUnit_trialFor_of_external`: an identifier of any other type is the unit itself.
* `resolveUnit_trialFor`: the unit that is found on a memory.
-/

namespace Allotment

namespace Subject

/-- The unit is given by an identifier from outside, of the type that registered users have. -/
def claimsUser (unit : Subject) (internalType : String) : Bool :=
  match unit with
  | .user _ => false
  | .external _ identifierType => identifierType == internalType

/-- The identifier stands before its type. -/
theorem ofList_inputs (identifier type : Json) :
    Dict.ofList [(unitInput, identifier), (typeInput, type)] =
      [(unitInput, identifier), (typeInput, type)] := by
  have hlt : ¬ typeInput < unitInput := by decide
  have hne : typeInput ≠ unitInput := by decide
  simp only [Dict.ofList, List.foldl_cons, List.foldl_nil, Dict.insert, if_neg hlt, if_neg hne]

theorem inputs_user (u : User) (internalType : String) :
    (Subject.user u).inputs internalType =
      [(unitInput, .ofWord u.id), (typeInput, .string internalType)] :=
  ofList_inputs _ _

theorem inputs_external (identifier identifierType internalType : String) :
    (Subject.external identifier identifierType).inputs internalType =
      [(unitInput, .string identifier), (typeInput, .string identifierType)] :=
  ofList_inputs _ _

end Subject

namespace Trial

theorem userId?_ofWord (n : UInt64) :
    userId? (.ofWord n) = some n := by
  simp [userId?, Json.ofWord, Json.toWord?]

/-- On a memory, an identifier of the internal type leads to a registered user or to a fault. -/
theorem resolveUnit_of_internal
    {t : Trial} {type identifier : Json} (htype : t.given Subject.typeInput = some type)
    (hidentifier : t.given Subject.unitInput = some identifier)
    (hinternal : type.label = t.internalType) {unit : Option Subject} {m m' : Memory}
    (h : t.resolveUnit m = .ok unit m') :
    m' = m ∧ ∃ id user, userId? identifier = some id ∧ user.id = id ∧
      unit = some (.user user) := by
  cases hid : userId? identifier with
  | none =>
      cases h.symm.trans (resolveUnit_of_noNumber htype hidentifier hinternal hid)
  | some id =>
      have hfind : Store.findUser id m = .ok (m.user? id) m := rfl
      cases huser : m.user? id with
      | none =>
          rw [huser] at hfind
          cases h.symm.trans (resolveUnit_of_unknown htype hidentifier hinternal hid hfind)
      | some user =>
          rw [huser] at hfind
          cases h.symm.trans (resolveUnit_of_user htype hidentifier hinternal hid hfind)
          have hsame : user.id = id := by simpa using List.find?_some huser
          exact ⟨rfl, id, user, rfl, hsame, rfl⟩

end Trial

namespace Lab

/-- The identity of the unit takes precedence over other inputs. -/
theorem given_trialFor
    (lab : Lab) (e : Experiment) (inputs : Dict Json) {unit : Subject} {identifier type : Json}
    (h : unit.inputs lab.config.internalType =
      [(Subject.unitInput, identifier), (Subject.typeInput, type)])
    (hidentifier : identifier ≠ .null) (htype : type ≠ .null) :
    (lab.trialFor e unit inputs).given Subject.unitInput = some identifier ∧
      (lab.trialFor e unit inputs).given Subject.typeInput = some type := by
  have hne : Subject.unitInput ≠ Subject.typeInput := by decide
  simp only [Trial.given, trialFor, trial, h, Dict.override, List.foldl_cons, List.foldl_nil,
    Dict.get?_insert, hne, if_true, if_false]
  constructor
  · split
    · rename_i heq
      exact absurd (Option.some.inj heq) hidentifier
    · rfl
  · split
    · rename_i heq
      exact absurd (Option.some.inj heq) htype
    · rfl

variable {lab : Lab} {e : Experiment} {inputs : Dict Json}

/-- An identifier from outside of another type than the internal one is the unit. -/
theorem resolveUnit_trialFor_of_external
    {σ : Type} [Store σ] {identifier type : String} (hother : type ≠ lab.config.internalType)
    (s : σ) :
    (lab.trialFor e (.external identifier type) inputs).resolveUnit s =
      .ok (some (.external identifier type)) s := by
  obtain ⟨hidentifier, htype⟩ :=
    given_trialFor lab e inputs
      (Subject.inputs_external identifier type lab.config.internalType) (by simp) (by simp)
  exact Trial.resolveUnit_of_external htype hidentifier hother

/-- The unit that is found for a trial on a memory is the one that the trial is for, unless that
claims to be a registered user. -/
theorem resolveUnit_trialFor
    {u : Subject} {unit : Option Subject} {m m' : Memory}
    (h : (lab.trialFor e u inputs).resolveUnit m = .ok unit m') :
    m' = m ∧ ∃ u', unit = some u' ∧
      u'.sameUnit u = !u.claimsUser lab.config.internalType := by
  cases u with
  | user user =>
      obtain ⟨hidentifier, htype⟩ :=
        given_trialFor lab e inputs
          (Subject.inputs_user user lab.config.internalType) (by simp [Json.ofWord]) (by simp)
      obtain ⟨rfl, id, user', hid, hsame, rfl⟩ :=
        Trial.resolveUnit_of_internal htype hidentifier rfl h
      rw [Trial.userId?_ofWord] at hid
      refine ⟨rfl, .user user', rfl, ?_⟩
      simp [Subject.sameUnit, Subject.key, Subject.claimsUser, hsame, Option.some.inj hid]
  | external identifier type =>
      by_cases hother : type = lab.config.internalType
      · obtain ⟨hidentifier, htype⟩ :=
          given_trialFor lab e inputs
            (Subject.inputs_external identifier type lab.config.internalType) (by simp) (by simp)
        obtain ⟨rfl, id, user', hid, hsame, rfl⟩ :=
          Trial.resolveUnit_of_internal htype hidentifier hother h
        refine ⟨rfl, .user user', rfl, ?_⟩
        simp [Subject.sameUnit, Subject.key, Subject.claimsUser, hother]
      · cases h.symm.trans (resolveUnit_trialFor_of_external hother m)
        refine ⟨rfl, _, rfl, ?_⟩
        simp [Subject.sameUnit, Subject.claimsUser, hother]

end Lab

end Allotment
