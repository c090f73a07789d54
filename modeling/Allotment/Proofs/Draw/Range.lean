import Allotment.Proofs.Draw.Operands
import Allotment.Proofs.Quantity

/-!
# The range of a random integer

A random integer is drawn between its two operands as signed integers.  An operand beyond the
signed range is replaced by the end of the range, so the integer lies between the operands
themselves exactly if none of them is beyond the end that the integer would have to reach.

**Results.**
* `Draw.integer_bounds`: an integer that is drawn lies between the bounds of the draw.
* `Site.randomInteger_within_iff`: when it lies between the operands.
-/

namespace Allotment

open Stateful

/-- An integer that is drawn lies between the bounds. -/
theorem Draw.integer_bounds {h : Nat} {lo hi n : Int} (hn : integer h lo hi = .ok n) :
    lo ≤ n ∧ n ≤ hi := by
  rw [integer] at hn
  by_cases hlt : hi < lo
  · rw [if_pos hlt] at hn
    cases hn
  · rw [if_neg hlt] at hn
    cases hn
    have hspan : 0 < hi - lo + 1 := by omega
    have := Int.emod_nonneg (h : Int) hspan.ne'
    have := Int.emod_lt_of_pos (h : Int) hspan
    omega

namespace Run

variable {x : Run Json} {env env' : Env} {op : String} {i : Signed}

theorem of_integerFor_eq_ok (h : integerFor op x env = .ok i env') :
    ∃ v, x env = .ok v env' ∧ v.asInteger = .ok i := by
  obtain ⟨v, env₁, hv, h⟩ := ok_of_bind h
  obtain ⟨hi, rfl⟩ := of_demand_eq_ok h
  exact ⟨v, hv, hi⟩

end Run

namespace Site

variable {site : Site} {lo hi : Expr} {env : Env} {v : Json}

theorem ok_of_outcome {draw : Lottery Expr} (h : site.outcome draw env = .ok v) :
    ∃ env', eval site.name (.random draw site.unit site.salt site.fullSalt) env = .ok v env' := by
  rw [outcome] at h
  cases heval : eval site.name (.random draw site.unit site.salt site.fullSalt) env with
  | ok w env' =>
      rw [heval] at h
      cases h
      exact ⟨env', rfl⟩
  | error e env' =>
      rw [heval] at h
      cases h

/-- A random integer comes from a salt, units and two operands. -/
theorem supplied_of_randomInteger
    (live : env.isHalted = false) (h : site.outcome (.randomInteger lo hi) env = .ok v) :
    ∃ salt units a b,
      Supplied site (.randomInteger lo hi) env salt units (.randomInteger a b) := by
  obtain ⟨env', heval⟩ := ok_of_outcome h
  rw [eval, Run.unlessHalted_of_live live] at heval
  obtain ⟨u, env₁, hunit, heval⟩ := ok_of_bind heval
  obtain ⟨seed, env₂, hseed, heval⟩ := ok_of_bind heval
  cases hsalt : saltText? env₁.salt (site.salt <|> site.name) site.fullSalt with
  | none =>
      rw [seedFor_of_no_saltText hsalt] at hseed
      cases hseed
  | some salt =>
      rw [seedFor_of_saltText hsalt] at hseed
      cases hseed
      obtain ⟨i, env₃, hlo, heval⟩ := ok_of_bind heval
      obtain ⟨a, ha, -⟩ := Run.of_integerFor_eq_ok hlo
      obtain ⟨j, env₄, hhi, -⟩ := ok_of_bind heval
      obtain ⟨b, hb, -⟩ := Run.of_integerFor_eq_ok hhi
      exact ⟨salt, _, a, b, live, hunit, rfl, hsalt, (bind_of_ok ha _).trans (bind_of_ok hb _)⟩

theorem of_drawn_randomInteger {s : Seed} {a b : Json}
    (h : s.drawn (.randomInteger a b) = .ok v) :
    ∃ i j n, a.asInteger = .ok i ∧ b.asInteger = .ok j ∧
      Draw.integer s.hash i.val j.val = .ok n ∧ v = .ofInt n := by
  rw [Seed.drawn] at h
  cases hi : a.asInteger with
  | error why =>
      rw [hi] at h
      cases h
  | ok i =>
      cases hj : b.asInteger with
      | error why =>
          rw [hi, hj] at h
          cases h
      | ok j =>
          rw [hi, hj] at h
          have hmap : (Draw.integer s.hash i.val j.val).map Json.ofInt = .ok v := h
          cases hn : Draw.integer s.hash i.val j.val with
          | error e =>
              rw [hn] at hmap
              cases hmap
          | ok n =>
              rw [hn] at hmap
              cases hmap
              exact ⟨i, j, n, rfl, rfl, hn, rfl⟩

/-- A random integer lies between its operands exactly if the lower one is not beyond the upper
end of the signed range, and the upper one not beyond the lower end. -/
theorem randomInteger_within_iff
    (live : env.isHalted = false) (h : site.outcome (.randomInteger lo hi) env = .ok v) :
    (∃ salt units a b,
      Supplied site (.randomInteger lo hi) env salt units (.randomInteger a b)) ∧
    ∀ salt units a b,
      Supplied site (.randomInteger lo hi) env salt units (.randomInteger a b) →
      ∃ (k k' : Int) (n : Signed), a.quantity? = some (k : ℚ) ∧ b.quantity? = some (k' : ℚ) ∧
        v = .ofInt n.val ∧
        (k ≤ n.val ∧ n.val ≤ k' ↔ k ≤ 0x7FFFFFFFFFFFFFFF ∧ -0x8000000000000000 ≤ k') := by
  refine ⟨supplied_of_randomInteger live h, fun salt units a b hsupplied => ?_⟩
  rw [hsupplied.outcome] at h
  obtain ⟨i, j, n, hi, hj, hn, rfl⟩ := of_drawn_randomInteger h
  obtain ⟨k, hk, rfl⟩ := Json.asInteger_eq_ok_iff.1 hi
  obtain ⟨k', hk', rfl⟩ := Json.asInteger_eq_ok_iff.1 hj
  obtain ⟨hlow, hhigh⟩ := Draw.integer_bounds hn
  have hlow' : max (-0x8000000000000000) (min k 0x7FFFFFFFFFFFFFFF) ≤ n := hlow
  have hhigh' : n ≤ max (-0x8000000000000000) (min k' 0x7FFFFFFFFFFFFFFF) := hhigh
  refine ⟨k, k', ⟨n, by omega, by omega⟩, hk, hk', rfl, ?_⟩
  dsimp only
  omega

section Dice

/-- A place where a die is thrown. -/
def dieSite : Site := ⟨some "die", .literal (.string "ann"), none, none⟩

/-- What comes of a throw between these numbers. -/
def thrown (lo hi : Int) : Except Fault Json :=
  dieSite.outcome (.randomInteger (.literal (.ofInt lo)) (.literal (.ofInt hi)))
    { salt := "shop", inputs := [] }

theorem supplied_die (lo hi : Int) :
    Supplied dieSite (.randomInteger (.literal (.ofInt lo)) (.literal (.ofInt hi)))
      { salt := "shop", inputs := [] } "shop.die" [.string "ann"]
      (.randomInteger (.ofInt lo) (.ofInt hi)) :=
  ⟨rfl, rfl, rfl, rfl, rfl⟩

/-- A die shows a number from one to six. -/
theorem thrown_die :
    ∃ n : Signed, thrown 1 6 = .ok (.ofInt n.val) ∧ 1 ≤ n.val ∧ n.val ≤ 6 := by
  have hdrawn (s : Seed) : s.drawn (.randomInteger (.ofInt 1) (.ofInt 6)) =
      .ok (.ofInt (1 + (s.hash : Int) % 6)) := rfl
  have hthrown := (supplied_die 1 6).outcome.trans (hdrawn _)
  obtain ⟨k, k', n, hk, hk', hv, hwithin⟩ :=
    (randomInteger_within_iff rfl hthrown).2 _ _ _ _ (supplied_die 1 6)
  cases hk.symm.trans (Json.quantity?_ofInt (n := 1) (by decide) (by decide))
  cases hk'.symm.trans (Json.quantity?_ofInt (n := 6) (by decide) (by decide))
  exact ⟨n, hthrown.trans (congrArg Except.ok hv), hwithin.2 ⟨by decide, by decide⟩⟩

/-- Between a number beyond the signed range and itself, the end of the range is drawn. -/
theorem thrown_out_of_range :
    ¬ ∀ (site : Site) (lo hi : Expr) (env : Env) (v : Json), env.isHalted = false →
      site.outcome (.randomInteger lo hi) env = .ok v →
      ∀ salt units a b,
        Supplied site (.randomInteger lo hi) env salt units (.randomInteger a b) →
        ∃ q q' : ℚ, a.quantity? = some q ∧ b.quantity? = some q' ∧
          ∃ r : Int, v.quantity? = some (r : ℚ) ∧ q ≤ r ∧ r ≤ q' := by
  intro hall
  have hend : (Json.ofInt 10000000000000000000).asInteger =
      .ok (Signed.clamp 10000000000000000000) :=
    Json.asInteger_eq_ok_iff.2 ⟨_, Json.quantity?_ofInt (by decide) (by decide), rfl⟩
  have hdrawn (s : Seed) : s.drawn (.randomInteger (.ofInt 10000000000000000000)
      (.ofInt 10000000000000000000)) = .ok (.ofInt 0x7FFFFFFFFFFFFFFF) := by
    rw [Seed.drawn, hend]
    show Except.ok (Json.ofInt (0x7FFFFFFFFFFFFFFF + (s.hash : Int) % 1)) = _
    rw [Int.emod_one]
    rfl
  have hsupplied := supplied_die 10000000000000000000 10000000000000000000
  obtain ⟨q, q', hq, -, r, hr, hle, -⟩ :=
    hall _ _ _ _ _ rfl (hsupplied.outcome.trans (hdrawn _)) _ _ _ _ hsupplied
  cases hq.symm.trans (Json.quantity?_ofInt (by decide) (by decide))
  cases hr.symm.trans (Json.quantity?_ofInt (by decide) (by decide))
  exact absurd hle (by norm_num)

end Dice

end Site

end Allotment
