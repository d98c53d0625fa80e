import Ahunter.Proofs.Takeover

/-!
# Cancellations that nobody acts on

A cancelled request that goes back to the queue is never claimed again, and a
cancelled test that is parked is never queued again. Two steps can do this: a
start that recovers a running request whose cancellation it does not look at,
and a park of a test that was cancelled after its worker last looked. Every
other step keeps each cancelled row where it ends or is taken up again.
-/

namespace Ahunter.Research

open Ahunter.Lib
open Ahunter.Sim (Instant Stamp)

variable {ι : Type} {services : Services ι} {naming : Naming} {db db' : Db} {now : Stamp}

/-- No request waits in the queue with its cancellation requested, and no test
waits for its evaluator with one. -/
structure Unstranded (db : Db) : Prop where
  requests : ∀ id row, db.requests.get? id = some row → row.status = .queued →
    row.cancelRequested = false
  tests : ∀ id work, db.queue.get? id = some work → work.kind = .experiment →
    work.state = .waiting → work.cancelRequested = false

structure QueueRules.Heeding (rules : QueueRules) : Prop where
  recovers : ∀ row, rules.recovers row → row.cancelRequested = false
  parks : ∀ id work, rules.parks id work → work.cancelRequested = false

variable {rules : QueueRules}

theorem Edit.unflagged (hheeds : rules.Heeding) {row row' : RequestRow}
    (h : Edit rules.toRules row row') (hqueued : row'.status = .queued)
    (hrow : row.status = .queued → row.cancelRequested = false) : row'.cancelRequested = false := by
  cases h with
  | bound => exact hrow hqueued
  | progress => exact hrow hqueued
  | flag now hrunning =>
      rw [flaggedRequest, hrunning] at hqueued
      cases hqueued
  | recover now hrunning hrecovers => exact hheeds.recovers row hrecovers

theorem Move.unstranded (h : Move rules.toRules db db') (hheeds : rules.Heeding)
    (hold : ∀ id row, db.requests.get? id = some row → row.status = .queued →
      row.cancelRequested = false) (id : String) (row : RequestRow)
    (hrow : db'.requests.get? id = some row) (hqueued : row.status = .queued) :
    row.cancelRequested = false := by
  have hset : ∀ {j : String} {new : RequestRow},
      (new.status = .queued → new.cancelRequested = false) →
      (db.requests.set j new).get? id = some row → row.cancelRequested = false := by
    intro j new hnew hget
    rw [Dict.get?_set] at hget
    split at hget
    · cases hget
      exact hnew hqueued
    · exact hold id row hget hqueued
  cases h with
  | submit hsubmitted => exact hset (fun _ => hsubmitted.unflagged) hrow
  | claim => exact hset (fun hstatus => by cases hstatus) hrow
  | edit hget hedit =>
      exact hset (fun hstatus => hedit.unflagged hheeds hstatus (hold _ _ hget)) hrow
  | finish now hget hending hrecord =>
      rw [(materializeRecord_requests hrecord).1] at hrow
      refine hset (fun hstatus => ?_) hrow
      exact (terminal_of_status hstatus rfl hending.active.2).elim

theorem WorkEdit.unflagged (hheeds : rules.Heeding) {testId : String} {work work' : WorkRow}
    (h : WorkEdit rules db testId work work') (hwaiting : work'.state = .waiting)
    (hwork : work.state = .waiting → work.cancelRequested = false) :
    work'.cancelRequested = false := by
  cases h with
  | claim => cases hwaiting
  | cancel =>
      rw [cancelledWork] at hwaiting
      dsimp only at hwaiting
      split at hwaiting
      · cases hwaiting
      · next hne => exact absurd hwaiting hne
  | park hrunning hparks => exact hheeds.parks testId work hparks
  | status status =>
      rw [testWork] at hwaiting
      dsimp only at hwaiting
      split at hwaiting
      · cases hwaiting
      · exact hwork hwaiting

theorem Shift.unstranded (h : Shift rules db db') (hheeds : rules.Heeding)
    (hmirrored : Mirrored db) (hold : Unstranded db) : Unstranded db' := by
  have hset : ∀ {j id : String} {new work : WorkRow},
      (new.kind = .experiment → new.state = .waiting → new.cancelRequested = false) →
      (db.queue.set j new).get? id = some work → work.kind = .experiment →
      work.state = .waiting → work.cancelRequested = false := by
    intro j id new work hnew hget hkind hwaiting
    rw [Dict.get?_set] at hget
    split at hget
    · cases hget
      exact hnew hkind hwaiting
    · exact hold.tests id work hget hkind hwaiting
  cases h with
  | request hmove =>
      refine ⟨hmove.unstranded hheeds hold.requests, fun id work hwork => ?_⟩
      obtain ⟨_, _, _, hrewrites⟩ := hmove.rewrites hmirrored
      rw [hrewrites.queue] at hwork
      refine hset (fun hkind => ?_) hwork
      rw [hrewrites.mirrors.kind] at hkind
      cases hkind
  | own hwork =>
      have hold' := hold.tests _ _ hwork
      refine ⟨hold.requests, fun id work hget => hset ?_ hget⟩
      exact fun hkind hwaiting => hold' hkind hwaiting
  | enter input now hfree =>
      refine ⟨hold.requests, fun id work hget => hset ?_ hget⟩
      exact fun _ _ => rfl
  | work hwork hkind hedit =>
      exact ⟨hold.requests, fun id work hget => hset (fun _ hwaiting =>
        hedit.unflagged hheeds hwaiting (hold.tests _ _ hwork hkind)) hget⟩
  | recover serviceOwner claimedBy =>
      refine ⟨hold.requests, fun id work hget hkind hwaiting => ?_⟩
      rw [Db.recoverWork, Dict.get?_map, Option.map_eq_some_iff] at hget
      obtain ⟨old, hget, rfl⟩ := hget
      split at hwaiting
      · cases hwaiting
      · next hkept =>
          rw [if_neg hkept] at hkind ⊢
          exact hold.tests id old hget hkind hwaiting
  | beside hbeside =>
      exact ⟨by rw [hbeside.requests]; exact hold.requests,
        by rw [hbeside.queue]; exact hold.tests⟩

theorem Shifts.unstranded (h : Shifts rules db db') (hheeds : rules.Heeding)
    (hlaw : QueueLaw db) (hold : Unstranded db) : Unstranded db' := by
  have hboth : QueueLaw db' ∧ Unstranded db' := by
    induction h with
    | refl => exact ⟨hlaw, hold⟩
    | tail _ hshift ih =>
        exact ⟨hshift.lawful ih.1, hshift.unstranded hheeds ih.1.mirrored ih.2⟩
  exact hboth.2

/-! ## Steps that heed cancellations -/

/-- A start does not recover a running request that was cancelled, and a park
does not meet a test that was. -/
def Heeds (services : Services ι) (now : Stamp) (db : Db) : Step ι → Prop
  | .service k (.start ttl) =>
      Takes (services.leaseOwnerId k) ttl now db → ∀ id row,
        db.requests.get? id = some row → row.abandoned (services.claimOwnerId k) = true →
          row.cancelRequested = false
  | .service k (.park testId generation finished clean seen) =>
      Parks (services.lease k testId generation) finished clean now seen db →
        ∀ work, db.queue.get? testId = some work → work.cancelRequested = false
  | _ => True

def heedingRules (services : Services ι) (k : ι) : QueueRules :=
  { rulesOf services k with
    recovers := fun row => row.cancelRequested = false
    parks := fun _ work => work.cancelRequested = false }

theorem Step.after_unstranded {step : Step ι} (hheeds : Heeds services now db step)
    (hlaw : QueueLaw db) (hold : Unstranded db) :
    Unstranded (step.after services naming now db) := by
  rw [Step.after]
  split
  · next t h =>
      cases step with
      | service k step =>
          have hgrants : Grants services (heedingRules services k) k now db step := by
            refine ⟨rfl, rfl, fun _ _ => trivial, ?_, ?_⟩
            · rintro ttl rfl htakes
              exact hheeds htakes
            · rintro testId generation finished clean seen rfl work hwork hparks
              exact hheeds hparks work hwork
          exact (serviceReturns_shifts hlaw hgrants h).unstranded ⟨fun _ h => h, fun _ _ h => h⟩
            hlaw hold
      | client step =>
          have hshifts : Shifts clientRules db t := clientReturns_shifts h
          exact hshifts.unstranded ⟨fun _ => False.elim, fun _ _ => False.elim⟩ hlaw hold
  · exact hold

def HeedingRun (services : Services ι) (naming : Naming) : Db → Db → Prop :=
  Relation.ReflTransGen fun db db' => ∃ (step : Step ι) (now : Stamp),
    Heeds services now db step ∧ step.after services naming now db = db'

theorem HeedingRun.unstranded (h : HeedingRun services naming Db.empty db) :
    QueueLaw db ∧ Unstranded db := by
  induction h with
  | refl => exact ⟨.empty, fun _ _ hrow => absurd hrow no_request, fun _ _ hwork => absurd hwork no_work⟩
  | tail _ hstep ih =>
      obtain ⟨step, now, hheeds, rfl⟩ := hstep
      exact ⟨step.after_lawful now ih.1, Step.after_unstranded hheeds ih.1 ih.2⟩

/-- Where no recovery and no park overlooks a cancellation, none is stranded:
every cancelled row of the queue has ended, or is selected again. -/
theorem cancellations_never_stranded (services : Services ι) (naming : Naming) (db : Db)
    (h : HeedingRun services naming Db.empty db) :
    (∀ id row, db.requests.get? id = some row →
      ¬ (row.status = .queued ∧ row.cancelRequested = true)) ∧
    (∀ id work, db.queue.get? id = some work → work.kind = .experiment →
      ¬ (work.state = .waiting ∧ work.cancelRequested = true)) ∧
    ∀ id work, db.queue.get? id = some work → work.cancelRequested = true →
      work.state = .finished ∨ work.selectable = true := by
  obtain ⟨hlaw, hunstranded⟩ := h.unstranded
  have hrequests : ∀ id row, db.requests.get? id = some row →
      ¬ (row.status = .queued ∧ row.cancelRequested = true) := by
    rintro id row hrow ⟨hqueued, hflag⟩
    rw [hunstranded.requests id row hrow hqueued] at hflag
    cases hflag
  have htests : ∀ id work, db.queue.get? id = some work → work.kind = .experiment →
      ¬ (work.state = .waiting ∧ work.cancelRequested = true) := by
    rintro id work hwork hkind ⟨hwaiting, hflag⟩
    rw [hunstranded.tests id work hwork hkind hwaiting] at hflag
    cases hflag
  refine ⟨hrequests, htests, fun id work hwork hflag => ?_⟩
  cases hstate : work.state with
  | finished => exact Or.inl rfl
  | running => exact Or.inr (by simp [WorkRow.selectable, hstate])
  | queued =>
      cases hkind : work.kind with
      | experiment => exact Or.inr (by simp [WorkRow.selectable, hstate, hkind])
      | request =>
          obtain ⟨row, hrow, hmirrors⟩ := hlaw.mirrored.work id work hwork hkind
          have hqueued := hmirrors.state.symm.trans hstate
          refine absurd ⟨?_, hmirrors.flag.symm.trans hflag⟩ (hrequests id row hrow)
          cases hstatus : row.status <;> simp_all [RequestStatus.workState]
  | waiting =>
      cases hkind : work.kind with
      | experiment => exact absurd ⟨hstate, hflag⟩ (htests id work hwork hkind)
      | request =>
          obtain ⟨row, hrow, hmirrors⟩ := hlaw.mirrored.work id work hwork hkind
          have hwaiting := hmirrors.state.symm.trans hstate
          cases hstatus : row.status <;> simp_all [RequestStatus.workState]

def cancelledRun : Db :=
  runSteps twoServices plainNaming
    [(.client (.cancelRequest "request-manual"), second 22)] claimedManual

theorem cancelledRun_heeds : HeedingRun twoServices plainNaming Db.empty cancelledRun := by
  let submitted := runSteps twoServices plainNaming
    [(.client (.submit manualSubmission), second 10)] Db.empty
  have hqueued : ∀ e ∈ submitted.requests.entries,
      e.2.abandoned (twoServices.claimOwnerId false) = true → e.2.cancelRequested = false := by
    decide +kernel
  refine .tail (.tail (.tail (.single ⟨.client (.submit manualSubmission), second 10, trivial,
    rfl⟩) ⟨.service false (.start 30), second 20, fun _ id row hrow habandoned => ?_, rfl⟩)
    ⟨.service false (.tick 30), second 21, trivial, rfl⟩)
    ⟨.client (.cancelRequest "request-manual"), second 22, trivial, rfl⟩
  exact hqueued (id, row) (Dict.mem_entries.mpr hrow) habandoned

theorem cancellations_never_stranded_running :
    ∃ work, cancelledRun.queue.get? "request-manual" = some work ∧
      work.cancelRequested = true ∧ (work.state = .finished ∨ work.selectable = true) := by
  obtain ⟨work, hwork, hflag⟩ : ∃ work, cancelledRun.queue.get? "request-manual" = some work ∧
      work.cancelRequested = true := by
    have hsome : ((cancelledRun.queue.get? "request-manual").any WorkRow.cancelRequested)
        = true := by decide +kernel
    rwa [Option.any_eq_true] at hsome
  exact ⟨work, hwork, hflag, (cancellations_never_stranded twoServices plainNaming cancelledRun
    cancelledRun_heeds).2.2 _ work hwork hflag⟩

def strandedRequest : Db :=
  runSteps twoServices plainNaming [(.service true (.start 30), second 60)] cancelledRun

def evaluatingTest : Db :=
  let event (actionId : String) (target : Records.Status) : EventSpec :=
    ⟨"test", "", actionId, 0, "", some target⟩
  let admitted := runSteps twoServices plainNaming
    [(.client (.register "test" true), second 10),
      (.client (.commit (event "preflight" .preflight)), second 11),
      (.client (.commit (event "queue" .queued)), second 12),
      (.client (.enqueueFixture "test" "descriptor" true), second 13),
      (.service false (.start 30), second 20)] Db.empty
  runSteps twoServices plainNaming
    [(.service false (.claimExperiment "test" 60 admitted), second 21),
      (.service false (.commit (event "service-start" .running) 1), second 22),
      (.service false (.commit (event "service-evaluating" .evaluating) 1), second 23)] admitted

def strandedTest : Db :=
  runSteps twoServices plainNaming
    [(.client (.cancelExperiment "test"), second 24),
      (.service false (.park "test" 1 true true evaluatingTest), second 25)] evaluatingTest

/-- A cancelled request in the queue, which no service claims again, and a
cancelled test that waits for an evaluator. -/
theorem cancellations_stranded :
    (∃ db row, Run twoServices plainNaming Db.empty db ∧
      db.requests.get? "request-manual" = some row ∧ row.status = .queued ∧
      row.cancelRequested = true) ∧
    ∃ db work, Run twoServices plainNaming Db.empty db ∧ db.queue.get? "test" = some work ∧
      work.kind = .experiment ∧ work.state = .waiting ∧ work.cancelRequested = true := by
  have hrequest : (strandedRequest.requests.get? "request-manual").any (fun row =>
      decide (row.status = .queued ∧ row.cancelRequested = true)) = true := by decide +kernel
  have htest : (strandedTest.queue.get? "test").any (fun work => decide (work.kind = .experiment ∧
      work.state = .waiting ∧ work.cancelRequested = true)) = true := by decide +kernel
  rw [Option.any_eq_true] at hrequest htest
  obtain ⟨row, hrow, hstranded⟩ := hrequest
  obtain ⟨work, hwork, hwaiting⟩ := htest
  have hruns : Run twoServices plainNaming Db.empty strandedRequest :=
    (runSteps_run ..).trans ((runSteps_run ..).trans (runSteps_run ..))
  have hruns' : Run twoServices plainNaming Db.empty strandedTest :=
    (runSteps_run ..).trans ((runSteps_run ..).trans (runSteps_run ..))
  exact ⟨⟨_, row, hruns, hrow, of_decide_eq_true hstranded⟩,
    ⟨_, work, hruns', hwork, of_decide_eq_true hwaiting⟩⟩

end Ahunter.Research
