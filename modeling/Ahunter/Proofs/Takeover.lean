import Ahunter.Proofs.QueueLaw

/-!
# Taking over the research service

Services share the queue whatever their clocks show. Every step keeps the law of
the queue. When a service has started, nothing that runs is claimed by another,
and the lease is its own, so that another service cannot write any more: it is
`Deposed`, until it starts again.
-/

namespace Ahunter.Research

open Ahunter.Lib
open Ahunter.Sim (Instant Stamp)

variable {ι : Type} {services : Services ι} {naming : Naming} {db db' : Db} {now : Stamp}

/-! ## Steps are shifts -/

structure Grants (services : Services ι) (rules : QueueRules) (k : ι) (now : Stamp) (db : Db)
    (step : ServiceStep) : Prop where
  claims : rules.claims (services.claimOwnerId k)
  owns : rules.owns (services.leaseOwnerId k)
  bounds : ∀ row boundary, rules.bounds row boundary
  recovers : ∀ ttl, step = .start ttl → Takes (services.leaseOwnerId k) ttl now db →
    ∀ id row, db.requests.get? id = some row →
      row.abandoned (services.claimOwnerId k) = true → rules.recovers row
  parks : ∀ testId generation finished clean seen, step = .park testId generation finished clean seen →
    ∀ work, db.queue.get? testId = some work →
      Parks (services.lease k testId generation) finished clean now seen db →
        rules.parks testId work

theorem assertLease_experiment (hlaw : QueueLaw db) {lease : Records.Lease}
    (h : assertLease lease now db = .ok ()) :
    ∃ work, db.queue.get? lease.testId = some work ∧ work.kind = .experiment := by
  simp only [assertLease, bind_ok, need_ok] at h
  obtain ⟨test, htest, row, hrow, _⟩ := h
  exact hlaw.leased lease.testId test htest (by rw [hrow]; rfl)

variable {rules : QueueRules}

theorem commit_shifts {e : EventSpec} {lease : Option Records.Lease}
    (h : commitEvent e lease pure now db = .ok db') : Shifts rules db db' := by
  refine commitEvent_shifts (fun _ _ t ht => ?_) h
  cases ht
  exact .refl

theorem serviceReturns_shifts {k : ι} {step : ServiceStep}
    (hlaw : QueueLaw db) (hgrants : Grants services rules k now db step)
    (h : serviceReturns services naming k now db step = .ok db') : Shifts rules db db' := by
  have hbounding : ∀ {seen : Db} {id : String} {boundary : Stamp},
      Bounding rules.toRules seen db id boundary := ⟨fun _ _ _ _ _ => hgrants.bounds _ _⟩
  cases step with
  | start ttl =>
      simp only [serviceReturns, bind_ok, pure_ok] at h
      obtain ⟨started, hstarted, rfl⟩ := h
      cases started with
      | none => exact .refl
      | some t =>
          exact start_shifts hgrants.owns (hgrants.recovers ttl rfl (start_takes hstarted)) hstarted
  | tick ttl => exact tick_shifts hgrants.claims h
  | heartbeat ttl =>
      rw [serviceReturns, pure_ok] at h
      subst h
      cases hbeat : heartbeatServiceLease (services.leaseOwnerId k) now ttl db with
      | none => exact .refl
      | some t => exact .single (heartbeatServiceLease_shift hbeat).1
  | setBoundary id boundary seen =>
      obtain ⟨row, h⟩ := left_ok h
      exact (setRequestBoundary_moves (Or.inr rfl) hbounding h).shifts
  | updateProgress id p seen =>
      obtain ⟨row, h⟩ := left_ok h
      exact (updateRequestProgress_moves (Or.inr rfl) h).shifts
  | complete id c seen =>
      obtain ⟨row, h⟩ := left_ok h
      exact (completeRequest_moves h).shifts
  | claimExperiment testId seconds seen => exact claimExperiment_shifts hgrants.claims h
  | renew testId generation seconds => exact renewLease_shifts h
  | pulse testId generation ttl seconds => exact pulse_shifts h
  | commit e generation => exact commit_shifts h
  | park testId generation finished clean seen =>
      refine parkEvaluation_shifts (fun work hwork hlease => ?_)
        (hgrants.parks testId generation finished clean seen rfl) h
      obtain ⟨work', hwork', hkind⟩ := assertLease_experiment hlaw hlease
      rw [hwork] at hwork'
      cases hwork'
      exact hkind

theorem clientReturns_shifts {step : ClientStep}
    (h : clientReturns naming now db step = .ok db') : Shifts rules db db' := by
  cases step with
  | submit s =>
      obtain ⟨row, h⟩ := left_ok h
      exact (submitRequest_moves h).shifts
  | cancelRequest id =>
      obtain ⟨row, h⟩ := left_ok h
      exact Moves.shifts (cancelRounds_moves h)
  | register testId typed =>
      simp only [clientReturns, registerTest, bind_ok, refuse_ok, pure_ok] at h
      obtain ⟨_, _, rfl⟩ := h
      exact .single (.beside (.test nofun))
  | commit e => exact commit_shifts h
  | enqueueFixture testId descriptor fixture => exact enqueueFixture_shifts h
  | cancelExperiment testId => exact cancelExperiment_shifts h

/-! ## Runs -/

def rulesOf (services : Services ι) (k : ι) : QueueRules where
  claims owner := owner = services.claimOwnerId k
  recovers _ := True
  bounds _ _ := True
  owns owner := owner = services.leaseOwnerId k
  parks _ _ := True

def clientRules : QueueRules where
  claims _ := False
  recovers _ := False
  bounds _ _ := False
  owns _ := False
  parks _ _ := False

theorem Grants.rulesOf {k : ι} {step : ServiceStep} :
    Grants services (rulesOf services k) k now db step :=
  ⟨rfl, rfl, fun _ _ => trivial, fun _ _ _ _ _ _ _ => trivial,
    fun _ _ _ _ _ _ _ _ _ => trivial⟩

theorem Step.after_lawful (step : Step ι) (now : Stamp) (hlaw : QueueLaw db) :
    QueueLaw (step.after services naming now db) := by
  rw [Step.after]
  split
  · next t h =>
      cases step with
      | service k step => exact (serviceReturns_shifts hlaw Grants.rulesOf h).lawful hlaw
      | client step =>
          have hshifts : Shifts clientRules db t := clientReturns_shifts h
          exact hshifts.lawful hlaw
  · exact hlaw

def Run (services : Services ι) (naming : Naming) : Db → Db → Prop :=
  Relation.ReflTransGen fun db db' =>
    ∃ (step : Step ι) (now : Stamp), step.after services naming now db = db'

theorem Run.lawful (h : Run services naming Db.empty db) : QueueLaw db := by
  induction h with
  | refl => exact .empty
  | tail _ hstep ih =>
      obtain ⟨step, now, rfl⟩ := hstep
      exact step.after_lawful now ih

/-! ## Deposed services -/

structure Deposed (services : Services ι) (k : ι) (db : Db) : Prop where
  service : ∀ row, db.service = some row → row.ownerId ≠ services.leaseOwnerId k
  idle : ∀ id work, db.queue.get? id = some work → work.state = .running →
    work.claimedBy ≠ some (services.claimOwnerId k)

theorem recover_fold_get {l : List (String × RequestRow)} {id : String} {row : RequestRow}
    (h : (l.foldl (fun db e => db.setRequest e.1 (recoveredRequest now e.2)) db).requests.get? id
      = some row) :
    row.status = .queued ∨ (id ∉ l.map Prod.fst ∧ db.requests.get? id = some row) := by
  induction l generalizing db with
  | nil => exact Or.inr ⟨List.not_mem_nil, h⟩
  | cons e l ih =>
      rcases ih h with hqueued | ⟨hnot, hget⟩
      · exact Or.inl hqueued
      · rw [setRequest_requests, Dict.get?_set] at hget
        split at hget
        · cases hget
          exact Or.inl rfl
        · next hne =>
            refine Or.inr ⟨?_, hget⟩
            rw [List.map_cons, List.mem_cons, not_or]
            exact ⟨hne, hnot⟩

theorem recover_running {owner : String}
    (h : recoverInterruptedRequests owner now db = .ok ((), db')) {id : String}
    {row : RequestRow} (hrow : db'.requests.get? id = some row)
    (hrunning : row.status = .running) : row.claimedBy = some owner := by
  simp only [recoverInterruptedRequests, bind_ok, refuse_ok, pure_ok, Prod.mk.injEq,
    true_and] at h
  obtain ⟨_, _, rfl⟩ := h
  rcases recover_fold_get hrow with hqueued | ⟨hnot, hget⟩
  · rw [hrunning] at hqueued
    cases hqueued
  · by_contra hother
    refine hnot (List.mem_map.mpr ⟨(id, row), List.mem_filter.mpr
      ⟨Dict.mem_entries.mpr hget, ?_⟩, rfl⟩)
    exact decide_eq_true ⟨hrunning, hother⟩

theorem setRequest_fold_service (l : List (String × RequestRow)) (f : RequestRow → RequestRow) :
    (l.foldl (fun db e => db.setRequest e.1 (f e.2)) db).service = db.service := by
  induction l generalizing db with
  | nil => rfl
  | cons e l ih => exact ih

theorem Starts.deposes {k k' : ι} {ttl : ℕ} (hne : k ≠ k') (hlaw : QueueLaw db)
    (h : Starts services k' ttl now db db') : Deposed services k db' := by
  simp only [Starts, start, bind_ok] at h
  obtain ⟨taken, htaken, h⟩ := h
  split at h
  · cases h
  · simp only [bind_ok, pure_ok, Option.some.injEq] at h
    obtain ⟨⟨_, recovered⟩, hrecovered, _, hwork, rfl⟩ := h
    have howns : (rulesOf services k').owns (services.leaseOwnerId k') := rfl
    obtain ⟨hshift, rfl⟩ := acquireServiceLease_shift howns htaken
    have hmoves := (recoverInterruptedRequests_moves (fun _ _ _ _ => trivial) hrecovered :
      Moves (rulesOf services k').toRules _ _).shifts
    have hlaw' := hmoves.lawful (hshift.lawful hlaw)
    simp only [recoverExperimentWork, bind_ok, pure_ok] at hwork
    obtain ⟨_, _, rfl⟩ := hwork
    refine ⟨fun row hrow => ?_, fun id work hget hrunning => ?_⟩
    · simp only [recoverInterruptedRequests, bind_ok, refuse_ok, pure_ok, Prod.mk.injEq,
        true_and] at hrecovered
      obtain ⟨_, _, rfl⟩ := hrecovered
      dsimp only at hrow
      rw [setRequest_fold_service] at hrow
      cases hrow
      exact fun heq => hne (services.lease_injective heq).symm
    · rw [Dict.get?_map, Option.map_eq_some_iff] at hget
      obtain ⟨old, hold, rfl⟩ := hget
      have hclaimed : old.state = .running ∧ old.claimedBy = some (services.claimOwnerId k') ∧
          ¬ old.abandoned (services.leaseOwnerId k') (services.claimOwnerId k') = true := by
        split at hrunning
        · cases hrunning
        · next hkept =>
            refine ⟨hrunning, ?_, hkept⟩
            cases hkind : old.kind with
            | request =>
                obtain ⟨row, hrow, hmirrors⟩ := hlaw'.mirrored.work id old hold hkind
                rw [hmirrors.claimedBy]
                exact recover_running hrecovered hrow (hmirrors.running.mp hrunning)
            | experiment =>
                by_contra hother
                exact hkept (decide_eq_true ⟨hkind, hrunning, Or.inl hother⟩)
      rw [if_neg hclaimed.2.2, hclaimed.2.1]
      exact fun heq => hne (services.claim_injective (Option.some.inj heq)).symm

/-! ## A deposed service writes nothing -/

namespace Deposed

variable {k : ι}

theorem heartbeat (h : Deposed services k db) (ttl : ℕ) :
    heartbeatServiceLease (services.leaseOwnerId k) now ttl db = none := by
  rw [heartbeatServiceLease]
  split
  · next row hrow => exact if_neg (h.service row hrow)
  · rfl

variable {id : String} {row : RequestRow}

theorem held (h : Deposed services k db) (hlaw : QueueLaw db)
    (hrow : db.requests.get? id = some row) :
    ¬ (row.status = .running ∧ row.claimedBy = some (services.claimOwnerId k)) := by
  rintro ⟨hrunning, hclaimed⟩
  obtain ⟨work, hwork, hmirrors⟩ := hlaw.mirrored.row id row hrow
  exact h.idle id work hwork (hmirrors.running.mpr hrunning)
    (hmirrors.claimedBy.trans hclaimed)

theorem noLease (h : Deposed services k db) (hlaw : QueueLaw db) {testId : String}
    {generation : ℕ} : assertLease (services.lease k testId generation) now db ≠ .ok () := by
  intro hlease
  obtain ⟨work, hwork, hkind⟩ := assertLease_experiment hlaw hlease
  obtain ⟨hrunning, hclaimed⟩ := assertLease_work hlease hwork hkind
  exact h.idle _ work hwork hrunning hclaimed

theorem service_required (h : Deposed services k db) :
    requireService (services.leaseOwnerId k) now db ≠ .ok () := by
  intro hok
  rw [requireService, refuse_ok, not_not] at hok
  obtain ⟨row, hrow, howner, _⟩ := hok
  exact h.service row hrow howner

theorem setBoundary (h : Deposed services k db) (hlaw : QueueLaw db) {boundary : Stamp} {seen : Db}
    (hok : setRequestBoundary id boundary (some (services.claimOwnerId k)) now seen db
      = .ok (row, db')) : db' = db := by
  simp only [setRequestBoundary, bind_ok, refuse_ok] at hok
  obtain ⟨_, _, _, _, _, _, _, _, hok⟩ := hok
  split at hok
  · simp only [sameBoundary, bind_ok, refuse_ok, pure_ok, Prod.mk.injEq] at hok
    exact hok.choose_spec.2.2.symm
  · split at hok
    · next hupdate =>
        obtain ⟨old, hold, hp, _⟩ := updateRequest_some hupdate
        rw [Bool.and_eq_true, heldAs_some] at hp
        exact absurd hp.2 (h.held hlaw hold)
    · simp only [bind_ok] at hok
      obtain ⟨_, _, _, _, hok⟩ := hok
      split at hok
      · simp only [sameBoundary, bind_ok, refuse_ok, pure_ok, Prod.mk.injEq] at hok
        exact hok.choose_spec.2.2.symm
      · cases hok

theorem updateProgress (h : Deposed services k db) (hlaw : QueueLaw db) {p : Progress} {seen : Db}
    (hok : updateRequestProgress id p (some (services.claimOwnerId k)) now seen db
      = .ok (row, db')) : db' = db := by
  simp only [updateRequestProgress, bind_ok, refuse_ok] at hok
  obtain ⟨_, _, _, _, _, _, _, _, hok⟩ := hok
  split at hok
  · next hupdate =>
      obtain ⟨old, hold, hp, _⟩ := updateRequest_some hupdate
      exact absurd (heldAs_some.mp hp) (h.held hlaw hold)
  · simp only [bind_ok, reduceCtorEq, and_false, exists_false] at hok

theorem complete (h : Deposed services k db) (hlaw : QueueLaw db) {c : Completion} {seen : Db}
    (hok : completeRequest id c (some (services.claimOwnerId k)) now seen db
      = .ok (row, db')) : db' = db := by
  simp only [completeRequest, bind_ok, refuse_ok] at hok
  obtain ⟨_, _, _, _, hok⟩ := hok
  split at hok
  · simp only [completeTerminal, bind_ok, refuse_ok, pure_ok, Prod.mk.injEq] at hok
    exact hok.choose_spec.2.2.symm
  · simp only [bind_ok, refuse_ok] at hok
    obtain ⟨_, _, _, _, _, _, hok⟩ := hok
    rw [completeRunning] at hok
    split at hok
    · next hupdate =>
        obtain ⟨old, hold, hp, _⟩ := updateRequest_some hupdate
        simp only [Bool.and_eq_true, decide_eq_true_eq, RequestRow.claimedAs,
          Option.all_some] at hp
        exact absurd ⟨hp.1.1, hp.2⟩ (h.held hlaw hold)
    · split at hok
      · next hupdate =>
          obtain ⟨old, hold, hp, _⟩ := updateRequest_some hupdate
          simp only [Bool.and_eq_true, decide_eq_true_eq, RequestRow.claimedAs,
            Option.all_some] at hp
          exact absurd ⟨hp.1.1, hp.2⟩ (h.held hlaw hold)
      · exact completeMissed_same hok

theorem commit (h : Deposed services k db) (hlaw : QueueLaw db) {e : EventSpec}
    {generation : ℕ} {guard : Db → Attempt Db}
    (hok : commitEvent e (some (services.lease k e.testId generation)) guard now db = .ok db') :
    db' = db := by
  simp only [commitEvent, bind_ok] at hok
  obtain ⟨_, _, hok⟩ := hok
  split at hok
  · simp only [bind_ok, refuse_ok, pure_ok] at hok
    exact hok.choose_spec.2.symm
  · simp only [bind_ok, assertWriter] at hok
    obtain ⟨_, ⟨_, _, hlease⟩, _⟩ := hok
    exact absurd hlease (h.noLease hlaw)

theorem returns (h : Deposed services k db) (hlaw : QueueLaw db) {step : ServiceStep}
    (hstart : ∀ ttl t, step = .start ttl → ¬ Starts services k ttl now db t)
    (hok : serviceReturns services naming k now db step = .ok db') : db' = db := by
  cases step with
  | start ttl =>
      simp only [serviceReturns, bind_ok, pure_ok] at hok
      obtain ⟨started, hstarted, rfl⟩ := hok
      cases started with
      | none => rfl
      | some t => exact absurd hstarted (hstart ttl t rfl)
  | tick ttl =>
      simp only [serviceReturns, tick, h.heartbeat, pure_ok] at hok
      exact hok.symm
  | heartbeat ttl =>
      simp only [serviceReturns, h.heartbeat, pure_ok, Option.getD_none] at hok
      exact hok.symm
  | setBoundary id boundary seen =>
      obtain ⟨row, hok⟩ := left_ok hok
      exact h.setBoundary hlaw hok
  | updateProgress id p seen =>
      obtain ⟨row, hok⟩ := left_ok hok
      exact h.updateProgress hlaw hok
  | complete id c seen =>
      obtain ⟨row, hok⟩ := left_ok hok
      exact h.complete hlaw hok
  | claimExperiment testId seconds seen =>
      simp only [serviceReturns, claimExperiment, bind_ok, refuse_ok] at hok
      obtain ⟨work, _, _, _, _, _, _, _, hok⟩ := hok
      split at hok
      · cases hok
        rfl
      · simp only [bind_ok, refuse_ok, claimGuard] at hok
        obtain ⟨_, _, _, ⟨_, hservice, _⟩, _⟩ := hok
        exact absurd hservice h.service_required
  | renew testId generation seconds =>
      simp only [serviceReturns, renewLease, bind_ok, refuse_ok] at hok
      obtain ⟨_, _, _, hlease, _⟩ := hok
      exact absurd hlease (h.noLease hlaw)
  | pulse testId generation ttl seconds =>
      simp only [serviceReturns, pulse, h.heartbeat, pure_ok] at hok
      exact hok.symm
  | commit e generation => exact h.commit hlaw hok
  | park testId generation finished clean seen =>
      simp only [serviceReturns, parkEvaluation, bind_ok, refuse_ok] at hok
      obtain ⟨_, _, _, _, _, _, _, _, hok⟩ := hok
      exact h.commit (e := parkEvent _) hlaw hok

theorem shift {rules : QueueRules} (h : Deposed services k db) (hlaw : QueueLaw db)
    (hclaims : ∀ owner, rules.claims owner → owner ≠ services.claimOwnerId k)
    (howns : ∀ owner, rules.owns owner → owner ≠ services.leaseOwnerId k)
    (hshift : Shift rules db db') : Deposed services k db' where
  service row hrow := by
    have hkept : db'.service = db.service → row.ownerId ≠ services.leaseOwnerId k :=
      fun hsame => h.service row (hsame ▸ hrow)
    cases hshift with
    | request hmove =>
        obtain ⟨_, _, _, hrewrites⟩ := hmove.rewrites hlaw.mirrored
        exact hkept hrewrites.service
    | beside hbeside =>
        rcases hbeside.service row hrow with ⟨old, hold, howner⟩ | hown
        · rw [← howner]
          exact h.service old hold
        · exact howns _ hown
    | _ => exact hkept rfl
  idle id work hwork hrunning := by
    rcases hshift.running hlaw.mirrored hwork hrunning with
      ⟨old, hold, hstate, hclaim⟩ | ⟨_, owner, _, hclaim, hclaims'⟩
    · rw [← hclaim]
      exact h.idle id old hold hstate
    · rw [hclaim]
      exact fun heq => hclaims owner hclaims' (Option.some.inj heq)

theorem shifts {rules : QueueRules} (h : Deposed services k db) (hlaw : QueueLaw db)
    (hclaims : ∀ owner, rules.claims owner → owner ≠ services.claimOwnerId k)
    (howns : ∀ owner, rules.owns owner → owner ≠ services.leaseOwnerId k)
    (hshifts : Shifts rules db db') : Deposed services k db' := by
  have hboth : QueueLaw db' ∧ Deposed services k db' := by
    induction hshifts with
    | refl => exact ⟨hlaw, h⟩
    | tail _ hshift ih =>
        exact ⟨hshift.lawful ih.1, ih.2.shift ih.1 hclaims howns hshift⟩
  exact hboth.2

end Deposed

def Restarts (services : Services ι) (k : ι) (step : Step ι) (now : Stamp) (db : Db) : Prop :=
  ∃ ttl db', step = .service k (.start ttl) ∧ Starts services k ttl now db db'

theorem Deposed.after {k : ι} (h : Deposed services k db) (hlaw : QueueLaw db) {step : Step ι}
    (hstep : ¬ Restarts services k step now db) :
    Deposed services k (step.after services naming now db) := by
  rw [Step.after]
  split
  · next t hok =>
      cases step with
      | service k' step =>
          by_cases heq : k' = k
          · subst heq
            have hsame : t = db := h.returns hlaw
              (fun ttl t' hs hstarts => hstep ⟨ttl, t', by rw [hs], hstarts⟩) hok
            rw [hsame]
            exact h
          · refine h.shifts hlaw (fun owner howner heq' => heq ?_)
              (fun owner howner heq' => heq ?_) (serviceReturns_shifts hlaw Grants.rulesOf hok)
            · exact services.claim_injective (howner.symm.trans heq')
            · exact services.lease_injective (howner.symm.trans heq')
      | client step =>
          have hshifts : Shifts clientRules db t := clientReturns_shifts hok
          exact h.shifts hlaw (fun _ => False.elim) (fun _ => False.elim) hshifts
  · exact h

def RunWithout (services : Services ι) (naming : Naming) (k : ι) : Db → Db → Prop :=
  Relation.ReflTransGen fun db db' => ∃ (step : Step ι) (now : Stamp),
    ¬ Restarts services k step now db ∧ step.after services naming now db = db'

theorem Deposed.run {k : ι} (h : Deposed services k db) (hlaw : QueueLaw db)
    (hrun : RunWithout services naming k db db') : QueueLaw db' ∧ Deposed services k db' := by
  induction hrun with
  | refl => exact ⟨hlaw, h⟩
  | tail _ hstep ih =>
      obtain ⟨step, now, hstep, rfl⟩ := hstep
      exact ⟨step.after_lawful now ih.1, ih.2.after ih.1 hstep⟩

/-! ## Agreement -/

def HoldsLease (services : Services ι) (k : ι) (now : Stamp) (db : Db) : Prop :=
  ∃ row, db.service = some row ∧ row.ownerId = services.leaseOwnerId k ∧
    now.instant < row.expiresAt.instant

/-- In every state of every run of any number of services: one row of the queue
runs at most, one service holds an unexpired lease at most, the queue row of a
request mirrors it, and once a service has started, no step of another that does
not start it again changes anything. -/
theorem shared_queue_agreement (services : Services ι) (naming : Naming) (db : Db)
    (h : Run services naming Db.empty db) :
    (∀ i j wi wj, db.queue.get? i = some wi → db.queue.get? j = some wj →
      wi.state = .running → wj.state = .running → i = j) ∧
    (∀ now k k', HoldsLease services k now db → HoldsLease services k' now db → k = k') ∧
    (∀ id row, db.requests.get? id = some row → ∃ work, db.queue.get? id = some work ∧
      work.kind = .request ∧ work.state = row.status.workState ∧
      work.sourceStatus = .request row.status ∧ work.claimedBy = row.claimedBy ∧
      work.cancelRequested = row.cancelRequested) ∧
    (∀ k k' ttl now started, k ≠ k' → Starts services k' ttl now db started →
      ∀ later, RunWithout services naming k started later → ∀ (step : ServiceStep) now',
        ¬ Restarts services k (.service k step) now' later →
        (Step.service k step).after services naming now' later = later) := by
  have hlaw := h.lawful
  refine ⟨hlaw.one, ?_, fun id row hrow => ?_, ?_⟩
  · rintro now k k' ⟨row, hrow, howner, _⟩ ⟨row', hrow', howner', _⟩
    rw [hrow] at hrow'
    cases hrow'
    exact services.lease_injective (howner.symm.trans howner')
  · obtain ⟨work, hwork, hmirrors⟩ := hlaw.mirrored.row id row hrow
    exact ⟨work, hwork, hmirrors.kind, hmirrors.state, hmirrors.source, hmirrors.claimedBy,
      hmirrors.flag⟩
  · intro k k' ttl now started hne hstarts later hrun step now' hstep
    have hstarted : QueueLaw started := by
      have howns : (rulesOf services k').owns (services.leaseOwnerId k') := rfl
      have hshifts := start_shifts howns (fun _ _ _ _ => trivial) hstarts
      exact hshifts.lawful hlaw
    obtain ⟨hlaw', hdeposed⟩ := (hstarts.deposes hne hlaw).run hstarted hrun
    rw [Step.after]
    split
    · next t hok =>
        exact hdeposed.returns hlaw'
          (fun ttl t' hs hstarts' => hstep ⟨ttl, t', by rw [hs], hstarts'⟩) hok
    · rfl

def runSteps (services : Services ι) (naming : Naming) (steps : List (Step ι × Stamp)) (db : Db) :
    Db :=
  steps.foldl (fun db e => e.1.after services naming e.2 db) db

theorem runSteps_run (services : Services ι) (naming : Naming) (steps : List (Step ι × Stamp))
    (db : Db) : Run services naming db (runSteps services naming steps db) := by
  induction steps generalizing db with
  | nil => exact .refl
  | cons e steps ih => exact .head ⟨e.1, e.2, rfl⟩ (ih _)

def twoServices : Services Bool where
  leaseOwnerId b := if b then "research-lease-b" else "research-lease-a"
  claimOwnerId b := if b then "research-claim-b" else "research-claim-a"
  lease_injective := fun a b => by cases a <;> cases b <;> simp
  claim_injective := fun a b => by cases a <;> cases b <;> simp

def plainNaming : Naming := ⟨id, fun testId => "service-input-" ++ testId⟩

def second (n : ℤ) : Stamp := ⟨1000000 * n, ⟨0⟩⟩

def claimedManual : Db :=
  runSteps twoServices plainNaming [(.client (.submit manualSubmission), second 10),
    (.service false (.start 30), second 20), (.service false (.tick 30), second 21)] Db.empty

/-- The first service completes its request after the second has started. -/
theorem shared_queue_agreement_handover :
    ∃ started, Starts twoServices true 30 (second 60) claimedManual started ∧
      (Step.service false (.complete "request-manual"
        ⟨.blocked, .complete, none, none, none, none, none⟩ claimedManual)).after
          twoServices plainNaming (second 61) started = started := by
  have hrun : Run twoServices plainNaming Db.empty claimedManual := runSteps_run ..
  have hstarts : ∃ started, Starts twoServices true 30 (second 60) claimedManual started := by
    have htakes : ((start (twoServices.leaseOwnerId true) (twoServices.claimOwnerId true) 30
        (second 60) claimedManual).toOption.any Option.isSome) = true := by decide +kernel
    obtain ⟨taken, htaken, hsome⟩ := (Option.any_eq_true _ _).mp htakes
    obtain ⟨started, rfl⟩ := Option.isSome_iff_exists.mp hsome
    exact ⟨started, mem_toOption.mp htaken⟩
  obtain ⟨started, hstarts⟩ := hstarts
  refine ⟨started, hstarts, (shared_queue_agreement twoServices plainNaming claimedManual
    hrun).2.2.2 false true 30 (second 60) started Bool.false_ne_true hstarts started .refl _ (second 61) ?_⟩
  rintro ⟨ttl, t, hstep, _⟩
  cases hstep

end Ahunter.Research
