import Ahunter.Proofs.RequestMoves
import Ahunter.Research.Service

/-!
# What a step of the research service does to the tables

The steps of services and clients are runs of shifts: the moves of a request,
the edits of one experiment row of the queue, the recovery of those left
running, and changes beside the queue, of tests, their events and the service
lease. A shift says of these only what the laws of the queue ask for: who may
own the lease, which rows may be parked, and that a test with a worker lease
has its row in the queue.
-/

namespace Ahunter.Research

open Ahunter.Lib
open Ahunter.Sim (Instant Stamp)

/-! ## Shifts -/

structure QueueRules extends Rules where
  owns : String → Prop
  parks : String → WorkRow → Prop

inductive WorkEdit (rules : QueueRules) (db : Db) (testId : String) (work : WorkRow) :
    WorkRow → Prop
  | claim (serviceOwner claimedBy : String) (hhead : nextWork db = some (testId, work))
      (hclaims : rules.claims claimedBy) :
      WorkEdit rules db testId work { work with
        state := .running
        claimedBy := some claimedBy
        serviceOwnerId := some serviceOwner }
  | cancel : WorkEdit rules db testId work (cancelledWork work)
  | park (hrunning : work.state = .running) (hparks : rules.parks testId work) :
      WorkEdit rules db testId work { work with state := .waiting }
  | status (status : Records.Status) : WorkEdit rules db testId work (testWork status work)

structure Beside (rules : QueueRules) (db db' : Db) : Prop where
  requests : db'.requests = db.requests
  records : db'.records = db.records
  queue : db'.queue = db.queue
  service : ∀ row', db'.service = some row' →
    (∃ row, db.service = some row ∧ row.ownerId = row'.ownerId) ∨ rules.owns row'.ownerId
  tests : ∀ testId test', db'.tests.get? testId = some test' → test'.lease.isSome = true →
    (∃ test, db.tests.get? testId = some test ∧ test.lease.isSome = true) ∨
      ∃ work, db.queue.get? testId = some work ∧ work.kind = .experiment

/-- The tables once the experiments others left running are back in the queue. -/
def Db.recoverWork (db : Db) (serviceOwner claimedBy : String) : Db :=
  { db with queue := db.queue.map fun _ work =>
    if work.abandoned serviceOwner claimedBy then requeued work else work }

/-- One change of the tables. -/
inductive Shift (rules : QueueRules) (db : Db) : Db → Prop
  | request {db' : Db} (h : Move rules.toRules db db') : Shift rules db db'
  | own {workId owner : String} {work : WorkRow} (hwork : db.queue.get? workId = some work) :
      Shift rules db { db with
        queue := db.queue.set workId { work with serviceOwnerId := some owner } }
  | enter {testId : String} (input : String) (now : Stamp) (hfree : db.queue.get? testId = none) :
      Shift rules db { db with
        queue := db.queue.set testId (admittedWork (fun _ => input) testId now) }
  | work {testId : String} {work work' : WorkRow} (hwork : db.queue.get? testId = some work)
      (hkind : work.kind = .experiment) (h : WorkEdit rules db testId work work') :
      Shift rules db { db with queue := db.queue.set testId work' }
  | recover (serviceOwner claimedBy : String) :
      Shift rules db (db.recoverWork serviceOwner claimedBy)
  | beside {db' : Db} (h : Beside rules db db') : Shift rules db db'

abbrev Shifts (rules : QueueRules) : Db → Db → Prop := Relation.ReflTransGen (Shift rules)

variable {rules : QueueRules} {db db' seen : Db} {now : Stamp}

theorem Moves.shifts (h : Moves rules.toRules db db') : Shifts rules db db' :=
  Relation.ReflTransGen.mono (fun _ _ hmove => .request hmove) _ _ h

/-! ## Changes beside the queue -/

variable {testId : String}

theorem Beside.service_only {row : ServiceRow}
    (h : (∃ old, db.service = some old ∧ old.ownerId = row.ownerId) ∨ rules.owns row.ownerId) :
    Beside rules db { db with service := some row } where
  requests := rfl
  records := rfl
  queue := rfl
  service row' hrow' := by
    cases hrow'
    exact h
  tests testId test' htest' hlease := Or.inl ⟨test', htest', hlease⟩

theorem Beside.same {events : List EventRow} {tests : Dict String TestRow}
    (h : ∀ testId test', tests.get? testId = some test' → test'.lease.isSome = true →
      (∃ test, db.tests.get? testId = some test ∧ test.lease.isSome = true) ∨
        ∃ work, db.queue.get? testId = some work ∧ work.kind = .experiment) :
    Beside rules db { db with tests := tests, events := events } where
  requests := rfl
  records := rfl
  queue := rfl
  service row' hrow' := Or.inl ⟨row', hrow', rfl⟩
  tests := h

theorem Beside.test {test : TestRow} {events : List EventRow}
    (h : test.lease.isSome = true →
      (∃ old, db.tests.get? testId = some old ∧ old.lease.isSome = true) ∨
        ∃ work, db.queue.get? testId = some work ∧ work.kind = .experiment) :
    Beside rules db { db with tests := db.tests.set testId test, events := events } := by
  refine .same fun id test' htest' hlease => ?_
  rw [Dict.get?_set] at htest'
  split at htest'
  · next heq =>
      cases htest'
      rw [heq]
      exact h hlease
  · exact Or.inl ⟨test', htest', hlease⟩

/-! ## The service lease -/

variable {ttl : ℕ}

theorem acquireServiceLease_shift {owner : String} (howns : rules.owns owner)
    (h : acquireServiceLease owner now ttl db = .ok (some db')) :
    Shift rules db db' ∧ db' = { db with service := some ⟨owner, now, now, later now ttl⟩ } := by
  simp only [acquireServiceLease, bind_ok, refuse_ok, pure_ok] at h
  obtain ⟨_, _, h⟩ := h
  split at h
  · cases h
    exact ⟨.beside (.service_only (Or.inr howns)), rfl⟩
  · cases h

theorem heartbeatServiceLease_shift {owner : String}
    (h : heartbeatServiceLease owner now ttl db = some db') :
    Shift rules db db' ∧ db'.queue = db.queue ∧ db'.requests = db.requests := by
  rw [heartbeatServiceLease] at h
  split at h
  · next row hrow =>
      split at h
      · cases h
        exact ⟨.beside (.service_only (Or.inl ⟨row, hrow, rfl⟩)), rfl, rfl⟩
      · cases h
  · cases h

/-! ## Starting and claiming -/

variable {leaseOwner claimOwner : String}

def Takes (leaseOwner : String) (ttl : ℕ) (now : Stamp) (db : Db) : Prop :=
  1 ≤ ttl ∧ ttl ≤ 300 ∧ ∀ row, db.service = some row → row.yields leaseOwner now = true

theorem start_takes (h : start leaseOwner claimOwner ttl now db = .ok (some db')) :
    Takes leaseOwner ttl now db := by
  simp only [start, bind_ok] at h
  obtain ⟨taken, htaken, h⟩ := h
  simp only [acquireServiceLease, bind_ok, refuse_ok, pure_ok] at htaken
  obtain ⟨_, hvalid, htaken⟩ := htaken
  split at htaken
  · next hyields =>
      refine ⟨by omega, by omega, fun row hrow => ?_⟩
      rw [hrow, Option.all_some] at hyields
      exact hyields
  · subst htaken
    cases h

theorem start_shifts (howns : rules.owns leaseOwner)
    (hrecovers : ∀ requestId row, db.requests.get? requestId = some row →
      row.abandoned claimOwner = true → rules.recovers row)
    (h : start leaseOwner claimOwner ttl now db = .ok (some db')) : Shifts rules db db' := by
  simp only [start, bind_ok] at h
  obtain ⟨taken, htaken, h⟩ := h
  split at h
  · cases h
  · next t =>
      simp only [bind_ok, pure_ok, Option.some.injEq] at h
      obtain ⟨⟨_, recovered⟩, hrecovered, _, hwork, rfl⟩ := h
      obtain ⟨hshift, rfl⟩ := acquireServiceLease_shift howns htaken
      have hmoves : Moves rules.toRules
          { db with service := some ⟨leaseOwner, now, now, later now ttl⟩ } recovered :=
        recoverInterruptedRequests_moves hrecovers hrecovered
      simp only [recoverExperimentWork, bind_ok, pure_ok] at hwork
      obtain ⟨_, _, rfl⟩ := hwork
      exact (Relation.ReflTransGen.single hshift).trans
        (hmoves.shifts.tail (.recover leaseOwner claimOwner))

theorem tickClaim_shifts (hclaims : rules.claims claimOwner)
    (h : tickClaim leaseOwner claimOwner now db = .ok db') : Shifts rules db db' := by
  rw [tickClaim] at h
  split at h
  · simp only [bind_ok] at h
    obtain ⟨⟨claimed, t⟩, hclaimed, h⟩ := h
    rcases claimNextRequest_moves hclaims hclaimed with
      ⟨rfl, rfl⟩ | ⟨requestId, row, rfl, hrow, rfl, hmove⟩
    · cases h
      exact .refl
    · cases h
      refine .head (.request hmove) ?_
      rw [Db.ownWork]
      split
      · next work hwork => exact .single (.own hwork)
      · exact .refl
  · cases h
    exact .refl

theorem tick_shifts (hclaims : rules.claims claimOwner)
    (h : tick leaseOwner claimOwner ttl now db = .ok db') : Shifts rules db db' := by
  rw [tick] at h
  split at h
  · cases h
    exact .refl
  · next hbeat =>
      exact .head (heartbeatServiceLease_shift hbeat).1 (tickClaim_shifts hclaims h)

/-! ## Events of a test -/

theorem setStatus_shifts {target : Records.Status} :
    Shifts rules db (db.setStatus testId target) := by
  have htests : Beside rules db { db with tests := statusTests testId target db.tests } := by
    rw [statusTests]
    split
    · next test htest => exact .test fun hlease => Or.inl ⟨test, htest, hlease⟩
    · exact .same fun _ test' htest' hlease => Or.inl ⟨test', htest', hlease⟩
  refine .head (.beside htests) ?_
  rw [Db.setStatus, statusQueue]
  split
  · next work hwork =>
      split
      · next hkind => exact .single (.work hwork hkind (.status target))
      · exact .refl
  · exact .refl

theorem commitEvent_shifts {e : EventSpec} {lease : Option Records.Lease} {guard : Db → Attempt Db}
    (hguard : e.prior db = none → assertWriter e.testId lease now db = .ok () →
      ∀ t, guard db = .ok t → Shifts rules db t)
    (h : commitEvent e lease guard now db = .ok db') : Shifts rules db db' := by
  simp only [commitEvent, bind_ok] at h
  obtain ⟨_, _, h⟩ := h
  split at h
  · simp only [bind_ok, refuse_ok, pure_ok] at h
    obtain ⟨_, _, rfl⟩ := h
    exact .refl
  · next hfresh =>
      simp only [bind_ok, pure_ok] at h
      obtain ⟨_, hwriter, _, _, t, ht, rfl⟩ := h
      have hevent : Beside rules t { t with events := t.events ++ [e.row lease] } :=
        .same fun _ test' htest' hlease => Or.inl ⟨test', htest', hlease⟩
      refine (hguard hfresh hwriter t ht).trans (.head (.beside hevent) ?_)
      split
      · exact setStatus_shifts
      · exact .refl

variable {lease : Records.Lease}

theorem assertLease_work {work : WorkRow}
    (h : assertLease lease now db = .ok ()) (hwork : db.queue.get? lease.testId = some work)
    (hkind : work.kind = .experiment) :
    work.state = .running ∧ work.claimedBy = some lease.workerId := by
  simp only [assertLease, bind_ok, refuse_ok, need_ok] at h
  obtain ⟨_, _, _, _, _, _, h⟩ := h
  rw [hwork, Option.filter_some, if_pos (by rw [hkind]; rfl), refuse_ok] at h
  exact ⟨not_not.mp fun hs => h (Or.inl hs), not_not.mp fun hc => h (Or.inr (Or.inl hc))⟩

variable {seconds : ℕ}

theorem renewLease_shifts
    (h : renewLease lease seconds now db = .ok db') : Shifts rules db db' := by
  simp only [renewLease, bind_ok, refuse_ok, pure_ok] at h
  obtain ⟨_, _, _, _, rfl⟩ := h
  split
  · next test htest =>
      refine .single (.beside (.test fun hlease => Or.inl ⟨test, htest, ?_⟩))
      rwa [Option.isSome_map] at hlease
  · exact .refl

/-! ## The experiment queue -/

theorem insertInput_shifts {descriptor : String} {test : TestRow}
    (htest : db.tests.get? testId = some test)
    (h : insertInput testId descriptor test db = .ok db') :
    Shifts rules db db' ∧ db'.queue = db.queue := by
  rw [insertInput] at h
  split at h
  · simp only [bind_ok, refuse_ok, pure_ok] at h
    obtain ⟨_, _, rfl⟩ := h
    exact ⟨.refl, rfl⟩
  · cases h
    exact ⟨.single (.beside (.test fun hlease => Or.inl ⟨test, htest, hlease⟩)), rfl⟩

variable {serviceInput : String → String}

theorem enqueueFixture_shifts {descriptor : String}
    {fixture : Bool} (h : enqueueFixture serviceInput testId descriptor fixture now db = .ok db') :
    Shifts rules db db' := by
  simp only [enqueueFixture, bind_ok, refuse_ok, getTest, need_ok] at h
  obtain ⟨test, htest, _, _, h⟩ := h
  split at h
  · simp only [bind_ok, refuse_ok, pure_ok] at h
    obtain ⟨_, hadmitted, _, _, rfl⟩ := h
    exact (insertInput_shifts htest hadmitted).1
  · next hfree =>
      simp only [bind_ok, refuse_ok, pure_ok] at h
      obtain ⟨_, _, admitted, hadmitted, rfl⟩ := h
      have hinput : Shifts rules db admitted ∧ _ := insertInput_shifts htest hadmitted
      exact hinput.1.tail (.enter (serviceInput testId) now (hinput.2 ▸ hfree))

theorem claimExperiment_shifts {serviceOwner claimedBy : String} (hclaims : rules.claims claimedBy)
    (h : claimExperiment serviceInput testId serviceOwner claimedBy seconds now seen db = .ok db') :
    Shifts rules db db' := by
  simp only [claimExperiment, bind_ok, refuse_ok, not_not] at h
  obtain ⟨work, _, _, hkind, _, _, _, _, h⟩ := h
  split at h
  · cases h
    exact .refl
  · simp only [bind_ok, refuse_ok] at h
    obtain ⟨_, _, guarded, hguard, h⟩ := h
    simp only [claimGuard, bind_ok, refuse_ok, pure_ok, not_or, not_not] at hguard
    obtain ⟨_, _, _, ⟨hhead, _⟩, _, _, rfl⟩ := hguard
    have hwork : db.queue.get? testId = some work :=
      Dict.mem_entries.mp (List.mem_of_mem_filter (List.argmin_mem hhead))
    refine .head (.work hwork hkind (.claim serviceOwner claimedBy hhead hclaims)) ?_
    simp only [claimLease, bind_ok, need_ok, refuse_ok, pure_ok] at h
    obtain ⟨_, _, _, _, test, _, _, _, rfl⟩ := h
    exact .single (.beside (.test fun _ => Or.inr ⟨_, Dict.get?_set_self .., hkind⟩))

theorem cancelExperiment_shifts (h : cancelExperiment testId db = .ok db') :
    Shifts rules db db' := by
  simp only [cancelExperiment, bind_ok, readWork, need_ok, refuse_ok, not_not] at h
  obtain ⟨work, hwork, _, hkind, h⟩ := h
  split at h
  · cases h
    exact .refl
  · cases h
    exact .single (.work hwork hkind .cancel)

structure Parks (lease : Records.Lease) (finished clean : Bool) (now : Stamp) (seen db : Db) :
    Prop where
  evaluating : ∃ test, seen.tests.get? lease.testId = some test ∧ test.status = .evaluating
  finished : finished = true
  clean : clean = true
  fresh : (parkEvent lease).prior db = none
  lease : assertLease lease now db = .ok ()

theorem parkEvaluation_shifts {finished clean : Bool}
    (hkind : ∀ work, db.queue.get? lease.testId = some work →
      assertLease lease now db = .ok () → work.kind = .experiment)
    (hparks : ∀ work, db.queue.get? lease.testId = some work →
      Parks lease finished clean now seen db → rules.parks lease.testId work)
    (h : parkEvaluation lease finished clean now seen db = .ok db') : Shifts rules db db' := by
  simp only [parkEvaluation, bind_ok, getTest, need_ok, refuse_ok, not_not,
    Bool.not_eq_false] at h
  obtain ⟨test, htest, _, hevaluating, _, hfinished, _, hclean, h⟩ := h
  refine commitEvent_shifts (fun hfresh hwriter t ht => ?_) h
  simp only [assertWriter, bind_ok, refuse_ok] at hwriter
  obtain ⟨_, _, hlease⟩ := hwriter
  rw [parked] at ht
  split at ht
  · next work hwork =>
      cases ht
      exact .single (.work hwork (hkind work hwork hlease)
        (.park (assertLease_work hlease hwork (hkind work hwork hlease)).1
          (hparks work hwork ⟨⟨test, htest, hevaluating⟩, hfinished, hclean, hfresh, hlease⟩)))
  · cases ht
    exact .refl

theorem pulse_shifts {serviceOwner : String}
    (h : pulse lease serviceOwner ttl seconds now db = .ok db') : Shifts rules db db' := by
  rw [pulse] at h
  split at h
  · cases h
    exact .refl
  · next hbeat =>
      refine .head (heartbeatServiceLease_shift hbeat).1 ?_
      simp only [bind_ok] at h
      obtain ⟨_, _, h⟩ := h
      split at h
      · cases h
        exact .refl
      · simp only [heartbeatTest, bind_ok, refuse_ok, need_ok, pure_ok] at h
        obtain ⟨_, _, _, _, _, _, test, htest, row, hrow, _, _, rfl⟩ := h
        refine .single (.beside (.test fun _ => Or.inl ⟨test, htest, ?_⟩))
        rw [hrow]
        rfl

end Ahunter.Research
