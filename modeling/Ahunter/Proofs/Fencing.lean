import Ahunter.Proofs.Rebuilding

/-!
# Fencing

A worker that was taken over does not know it, and goes on calling with the
lease it has. A claim raises the generation of the test and nothing lowers it,
so none of these calls writes anything any more.
-/

namespace Ahunter.Records

open Ahunter.Lib

namespace Db

variable {R P V A : Type} {db t u : Db R P V} {testId : String} {lease : Lease}

def generationOf (db : Db R P V) (testId : String) : ℕ :=
  ((db.leases.get? testId).map LeaseRow.generation).getD 0

theorem generationOf_new {row : LeaseRow} (h : u.leases = db.leases.set testId row) :
    u.generationOf testId = row.generation := by
  rw [generationOf, h, Dict.get?_set_self]
  rfl

theorem generationOf_set {row : LeaseRow} (h : u.leases = db.leases.set testId row)
    (hrow : db.generationOf testId ≤ row.generation) (id : String) :
    db.generationOf id ≤ u.generationOf id := by
  rcases eq_or_ne id testId with rfl | hne
  · exact hrow.trans_eq (generationOf_new h).symm
  · rw [generationOf, generationOf, h, Dict.get?_set_of_ne hne]

theorem generationOf_held {row : LeaseRow} {now} (hrow : db.leases.get? lease.testId = some row)
    (hheld : ¬ (row.workerId ≠ lease.workerId ∨ row.generation ≠ lease.generation
      ∨ row.expiresAt ≤ now)) : db.generationOf lease.testId = lease.generation := by
  rw [generationOf, hrow]
  exact not_not.mp fun h => hheld (.inr (.inl h))

/-- Guards move rows of the work queue, and no lease. -/
def KeepsLeases (guard : Db R P V → Attempt (Db R P V)) : Prop :=
  ∀ db u, guard db = .ok u → u.leases = db.leases

variable [DecidableEq V]

theorem claim_grants (host : Host A) (workerId : String) (seconds : ℕ)
    {guard : Option (Db R P V → Attempt (Db R P V))} (supersede : Bool)
    (hguard : ∀ g ∈ guard, KeepsLeases g) :
    (∃ e, db.claim host testId workerId seconds guard supersede = (.error e, db)) ∨
      ∃ row : LeaseRow, row.generation = db.generationOf testId + 1 ∧
        (db.claim host testId workerId seconds guard supersede).2.leases
          = db.leases.set testId row ∧
        ∀ l, (db.claim host testId workerId seconds guard supersede).1 = .ok l →
          l = ⟨testId, row.workerId, row.generation⟩ := by
  unfold claim
  split
  · exact .inl ⟨_, rfl⟩
  · rcases transaction_result host (claimBody host testId workerId seconds guard supersede) db with
      hsame | ⟨granted, u, hbody, hleft, hresult⟩
    · exact .inl hsame
    have hgranted : ∀ l, (transaction host (claimBody host testId workerId seconds guard
        supersede) db).1 = .ok l → l = granted := by
      intro l hl
      rw [transaction, hbody] at hl
      grind
    simp only [claimBody, bind_ok, pure_ok, Prod.mk.injEq] at hbody
    obtain ⟨_, -, g, hg, _, -, _, -, _, -, _, -, _, -, _, -, rfl, rfl⟩ := hbody
    have hleases : g.leases = db.leases := by
      cases guard with
      | none => cases hg; rfl
      | some guard => exact hguard guard rfl db g hg
    exact .inr ⟨_, rfl, by rw [hleft, hleases], fun l hl => by rw [hgranted l hl, hleases]⟩

theorem not_assertLease (h : lease.generation < db.generationOf lease.testId) (now) :
    db.assertLease now lease ≠ .ok () := by
  intro hok
  obtain ⟨row, hrow, hok⟩ := bind_ok.mp hok
  obtain ⟨_, hheld, -⟩ := bind_ok.mp hok
  exact h.ne' (generationOf_held (need_ok.mp hrow) (refuse_ok.mp hheld))

variable [DecidableEq P]

inductive LeaseStep : Db R P V → Db R P V → Prop
  | claim {A : Type} (db) (host : Host A) (testId workerId seconds guard supersede)
      (hguard : ∀ g ∈ guard, KeepsLeases g) :
      LeaseStep db (db.claim host testId workerId seconds guard supersede).2
  | renew {A : Type} (db) (host : Host A) (lease seconds) :
      LeaseStep db (db.renew host lease seconds).2
  | commit {A : Type} (db) (host : Host A) (c guard) (hguard : KeepsLeases guard) :
      LeaseStep db (db.commitWith host c guard).2
  | heartbeat {db u : Db R P V} {row : LeaseRow} {testId : String} {at_}
      (hrow : db.leases.get? testId = some row)
      (h : u.leases = db.leases.set testId { row with expiresAt := at_ }) : LeaseStep db u
  | other {db u : Db R P V} (h : u.leases = db.leases) : LeaseStep db u

theorem LeaseStep.generation_le (h : LeaseStep db u) (id : String) :
    db.generationOf id ≤ u.generationOf id := by
  cases h with
  | claim _ host testId workerId seconds guard supersede hguard =>
      rcases claim_grants host workerId seconds supersede hguard with ⟨e, h⟩ | ⟨row, hrow, h, -⟩
      · rw [h]
      · exact generationOf_set h (by omega) id
  | renew _ host lease seconds =>
      rcases renew_cases host lease seconds db with h | ⟨row, -, hrow, h⟩
      · rw [h]
      · exact generationOf_set (congrArg Db.leases h) (by simp [generationOf, hrow]) id
  | commit _ host c guard hguard =>
      rcases commitWith_cases host c guard db with h | ⟨event, hc⟩
      · rw [h]
      · obtain ⟨g, hg, -, hleft⟩ := hc.result
        rw [generationOf, generationOf, hleft, hguard _ g hg]
  | heartbeat hrow h => exact generationOf_set h (by simp [generationOf, hrow]) id
  | other h => rw [generationOf, generationOf, h]

theorem generation_run (h : Relation.ReflTransGen LeaseStep db u) (id : String) :
    db.generationOf id ≤ u.generationOf id := by
  induction h with
  | refl => exact le_rfl
  | tail _ step ih => exact ih.trans (step.generation_le id)

/-- Once a claim of a test has changed the store, every lease granted before it
is lost for good: it never passes the check again, and no commit, renewal or
rebuild under it writes anything, whatever the store becomes. -/
theorem lost_lease_fenced {d : Db R P V} {host : Host A} {workerId : String} {seconds : ℕ}
    {guard : Option (Db R P V → Attempt (Db R P V))} {supersede : Bool}
    (hguard : ∀ g ∈ guard, KeepsLeases g)
    (hgranted : (d.claim host testId workerId seconds guard supersede).1 = .ok lease)
    (hrun : Relation.ReflTransGen LeaseStep
      (d.claim host testId workerId seconds guard supersede).2 db)
    {host' : Host A} {workerId' : String} {seconds' : ℕ}
    {guard' : Option (Db R P V → Attempt (Db R P V))} {supersede' : Bool}
    (hguard' : ∀ g ∈ guard', KeepsLeases g)
    (hclaim : (db.claim host' testId workerId' seconds' guard' supersede').2 ≠ db)
    (hlater : Relation.ReflTransGen LeaseStep
      (db.claim host' testId workerId' seconds' guard' supersede').2 t) :
    (∀ now, t.assertLease now lease ≠ .ok ()) ∧
      (∀ (host : Host A) c guard, c.lease = some lease → (t.commitWith host c guard).2 = t) ∧
      (∀ (host : Host A) seconds, (t.renew host lease seconds).2 = t) ∧
      ∀ host : Host A, (t.rebuild host lease).2 = t := by
  have hlost : lease.generation < t.generationOf lease.testId := by
    have hmine : lease.testId = testId ∧ lease.generation ≤ db.generationOf testId := by
      rcases claim_grants host workerId seconds supersede hguard with ⟨e, h⟩ | ⟨row, -, h, hl⟩
      · rw [h] at hgranted
        cases hgranted
      · cases hl lease hgranted
        exact ⟨rfl, (generationOf_new h).ge.trans (generation_run hrun testId)⟩
    rw [hmine.1]
    refine hmine.2.trans_lt (lt_of_lt_of_le ?_ (generation_run hlater testId))
    rcases claim_grants host' workerId' seconds' supersede' hguard' with ⟨e, h⟩ | ⟨row, hrow, h, -⟩
    · exact absurd (congrArg Prod.snd h) hclaim
    · rw [generationOf_new h, hrow]
      exact Nat.lt_succ_self _
  have hfenced := not_assertLease hlost
  refine ⟨hfenced, fun host c guard hlease => ?_, fun host seconds => ?_, fun host => ?_⟩
  · rcases commitWith_cases host c guard t with hsame | ⟨event, hc⟩
    · exact hsame
    · have hwritable := hc.writable
      simp only [writable, hlease, bind_ok] at hwritable
      obtain ⟨-, -, hassert⟩ := hwritable
      exact absurd hassert (hfenced host.now)
  · rcases renew_cases host lease seconds t with hsame | ⟨_, hassert, -⟩
    · exact hsame
    · exact absurd hassert (hfenced host.now)
  · rcases transaction_cases host (rebuildBody host lease) t with hsame | ⟨_, u, hbody, -⟩
    · exact hsame
    · obtain ⟨row, hrow, hbody⟩ := bind_ok.mp hbody
      obtain ⟨_, hheld, -⟩ := bind_ok.mp hbody
      exact absurd (generationOf_held (need_ok.mp hrow) (refuse_ok.mp hheld)) hlost.ne'

end Db

end Ahunter.Records

namespace Ahunter.Trials

open Ahunter.Records

/-! ## A test taken over -/

def afterwards : TrialHost Unit := { sampleTrialHost with now := 100000000 }

theorem lost_lease_fenced_sample : ∃ t : TrialDb Unit Unit Unit,
    claimedSample.generationOf "e/test/1" = 1 ∧ t.generationOf "e/test/1" = 2 ∧
    ∀ seconds, (t.renew afterwards ⟨"e/test/1", "w", 1⟩ seconds).2 = t := by
  have hgranted : (Db.claim sampleTrialHost "e/test/1" "w" 60 (some pure) false queuedSample).1
      = .ok ⟨"e/test/1", "w", 1⟩ := by decide +kernel
  have htaken : (claimedSample.claim afterwards "e/test/1" "v" 60 none false).2.generationOf
      "e/test/1" = 2 := by decide +kernel
  refine ⟨_, by decide +kernel, htaken,
    (Db.lost_lease_fenced ?_ hgranted .refl ?_ ?_ .refl).2.2.1 afterwards⟩
  · rintro _ ⟨⟩ _ _ ⟨⟩
    rfl
  · rintro _ ⟨⟩
  · intro hsame
    exact absurd (hsame ▸ htaken) (by decide +kernel)

end Ahunter.Trials
