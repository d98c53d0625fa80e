import Ahunter.Proofs.RequestMoves

/-!
# The life of a research request

Along any run of calls, whoever makes them, a row only moves forward: once it is
terminal it does not change, a boundary that is set stays, and a cancellation
that was acknowledged keeps the request from being published. The record of a
request is written in the step that ends it and never again. All of it is a
preorder on rows, `Onward`, that every move respects, and the invariant
`Recorded` between the two tables.
-/

namespace Ahunter.Research

open Ahunter.Lib
open Ahunter.Sim (Instant Stamp)

/-! ## Rows move forward -/

variable {rules : Rules} {row' : RequestRow} {now : Stamp}

structure Doomed (row : RequestRow) : Prop where
  flagged : row.cancelRequested = true
  ended : row.status.terminal = true → row.status = .cancelled

structure Onward (row row' : RequestRow) : Prop where
  frozen : row.status.terminal = true → row' = row
  doomed : Doomed row → Doomed row'
  bounded : ∀ b, row.boundaryAt = some b → row'.boundaryAt = some b
  requested : row'.requestedAt = row.requestedAt
  origin : row'.origin = row.origin

theorem Onward.refl (row : RequestRow) : Onward row row :=
  ⟨fun _ => rfl, fun h => h, fun _ h => h, rfl, rfl⟩

theorem Onward.trans {a b c : RequestRow} (hab : Onward a b) (hbc : Onward b c) :
    Onward a c where
  frozen := by
    intro ha
    have hb := hab.frozen ha
    rw [hb] at hbc
    exact hbc.frozen ha
  doomed h := hbc.doomed (hab.doomed h)
  bounded x h := hbc.bounded x (hab.bounded x h)
  requested := hbc.requested.trans hab.requested
  origin := hbc.origin.trans hab.origin

variable {row : RequestRow}

theorem terminal_of_status {status : RequestStatus} (h : row.status = status)
    (hactive : status.terminal = false) (hterminal : row.status.terminal = true) : False := by
  rw [h, hactive] at hterminal
  cases hterminal

theorem Edit.active (h : Edit rules row row') :
    row.status.terminal = false ∧ row'.status.terminal = false := by
  cases h with
  | bound boundary now hactive => exact ⟨hactive, hactive⟩
  | progress p now hactive => exact ⟨hactive, hactive⟩
  | flag now hrunning => exact ⟨by rw [hrunning]; rfl, by rw [flaggedRequest, hrunning]; rfl⟩
  | recover now hrunning => exact ⟨by rw [hrunning]; rfl, rfl⟩

theorem Edit.onward (h : Edit rules row row') : Onward row row' := by
  obtain ⟨hactive, hactive'⟩ := h.active
  have hfrozen : row.status.terminal = true → row' = row := fun ht => by
    rw [hactive] at ht
    cases ht
  have hended : row'.status.terminal = true → row'.status = .cancelled := fun ht => by
    rw [hactive'] at ht
    cases ht
  cases h with
  | bound boundary now hactive hnone =>
      exact ⟨hfrozen, fun h => ⟨h.flagged, hended⟩,
        fun b hb => absurd (hnone.symm.trans hb) nofun, rfl, rfl⟩
  | progress p now hactive => exact ⟨hfrozen, fun h => ⟨h.flagged, hended⟩, fun _ h => h, rfl, rfl⟩
  | flag now hrunning => exact ⟨hfrozen, fun _ => ⟨rfl, hended⟩, fun _ h => h, rfl, rfl⟩
  | recover now hrunning => exact ⟨hfrozen, fun h => ⟨h.flagged, hended⟩, fun _ h => h, rfl, rfl⟩

theorem Ending.active (h : Ending row row') :
    row.status.terminal = false ∧ row'.status.terminal = true := by
  cases h with
  | cancelQueued now hqueued => exact ⟨by rw [hqueued]; rfl, rfl⟩
  | complete c now hrunning hterminal => exact ⟨by rw [hrunning]; rfl, hterminal⟩
  | cancelRunning c now hrunning => exact ⟨by rw [hrunning]; rfl, rfl⟩

theorem Ending.onward (h : Ending row row') : Onward row row' := by
  have hfrozen : row.status.terminal = true → row' = row := fun ht => by
    rw [h.active.1] at ht
    cases ht
  cases h with
  | cancelQueued now hqueued => exact ⟨hfrozen, fun _ => ⟨rfl, fun _ => rfl⟩, fun _ h => h, rfl, rfl⟩
  | complete c now hrunning hterminal hcancel =>
      refine ⟨hfrozen, fun hdoomed => ⟨hdoomed.flagged, fun _ => ?_⟩, fun _ h => h, rfl, rfl⟩
      rcases hcancel with hcancelled | hflag
      · exact hcancelled
      · rw [hdoomed.flagged] at hflag
        cases hflag
  | cancelRunning c now hrunning hflag =>
      exact ⟨hfrozen, fun _ => ⟨hflag, fun _ => rfl⟩, fun _ h => h, rfl, rfl⟩

variable {owner : String}

theorem claimedRequest_onward (hqueued : row.status = .queued)
    (hflag : row.cancelRequested = false) :
    Onward row (claimedRequest owner now row) where
  frozen ht := (terminal_of_status hqueued rfl ht).elim
  doomed h := by
    rw [h.flagged] at hflag
    cases hflag
  bounded _ h := h
  requested := rfl
  origin := rfl

/-! ## The record of an ended request -/

variable {requestId : String} {db db' : Db}

theorem materializeRecord_spec (h : materializeRecord requestId now db = .ok db') :
    ∃ row, db.requests.get? requestId = some row ∧ row.status.terminal = true ∧
      ((db.records.contains requestId = true ∧ db' = db) ∨ (db.records.get? requestId = none ∧
          db' = { db with records := db.records.set requestId (recordOf requestId row now) })) := by
  simp only [materializeRecord, bind_ok, refuse_ok, need_ok, Bool.not_eq_false] at h
  obtain ⟨row, hrow, _, hterminal, h⟩ := h
  refine ⟨row, hrow, hterminal, ?_⟩
  split at h
  · next hcontains =>
      rw [pure_ok] at h
      exact Or.inl ⟨hcontains, h.symm⟩
  · next hcontains =>
      simp only [bind_ok, refuse_ok, pure_ok] at h
      obtain ⟨_, _, rfl⟩ := h
      rw [Dict.contains, Bool.not_eq_true, Option.isSome_eq_false_iff,
        Option.isNone_iff_eq_none] at hcontains
      exact Or.inr ⟨hcontains, rfl⟩

theorem materializeRecord_requests (h : materializeRecord requestId now db = .ok db') :
    db'.requests = db.requests ∧ db'.queue = db.queue := by
  obtain ⟨_, _, _, ⟨_, rfl⟩ | ⟨_, rfl⟩⟩ := materializeRecord_spec h <;> exact ⟨rfl, rfl⟩

theorem Move.onward (h : Move rules db db') (hrow : db.requests.get? requestId = some row) :
    ∃ row', db'.requests.get? requestId = some row' ∧ Onward row row' := by
  have hset : ∀ {id : String} {old new : RequestRow}, db.requests.get? id = some old →
      Onward old new → ∃ row', (db.requests.set id new).get? requestId = some row' ∧
        Onward row row' := by
    intro id old new hold honward
    rw [Dict.get?_set]
    split
    · next heq =>
        subst heq
        rw [hrow] at hold
        cases hold
        exact ⟨new, rfl, honward⟩
    · exact ⟨row, hrow, .refl row⟩
  cases h with
  | @submit id new hsubmitted =>
      refine ⟨row, ?_, .refl row⟩
      have hne : requestId ≠ id := fun heq => by
        rw [heq, hsubmitted.fresh] at hrow
        cases hrow
      rw [Db.insertRequest, Dict.get?_set_of_ne hne, hrow]
  | claim now hold hhead hqueued hflag => exact hset hold (claimedRequest_onward hqueued hflag)
  | edit hold hedit => exact hset hold hedit.onward
  | finish now hold hending hrecord =>
      rw [(materializeRecord_requests hrecord).1]
      exact hset hold hending.onward

structure Recorded (db : Db) : Prop where
  ended : ∀ requestId row, db.requests.get? requestId = some row →
    row.status.terminal = true →
      ∃ createdAt, db.records.get? requestId = some (recordOf requestId row createdAt)
  record : ∀ requestId, db.records.contains requestId = true →
    ∃ row, db.requests.get? requestId = some row ∧ row.status.terminal = true

theorem no_request : ¬ Db.empty.requests.get? requestId = some row := by
  rw [Db.empty, Dict.get?_empty]
  nofun

theorem Recorded.empty : Recorded Db.empty where
  ended _ _ hrow := absurd hrow no_request
  record id h := by
    rw [Dict.contains, Db.empty, Dict.get?_empty] at h
    cases h

theorem Recorded.set_active (h : Recorded db) {new : RequestRow} {queue : Dict String WorkRow}
    (hnew : new.status.terminal = false)
    (hold : ∀ row, db.requests.get? requestId = some row → row.status.terminal = false) :
    Recorded { db with requests := db.requests.set requestId new, queue := queue } where
  ended id row hrow hterminal := by
    rw [Dict.get?_set] at hrow
    split at hrow
    · cases hrow
      rw [hnew] at hterminal
      cases hterminal
    · exact h.ended id row hrow hterminal
  record id hrecord := by
    obtain ⟨row, hrow, hterminal⟩ := h.record id hrecord
    refine ⟨row, ?_, hterminal⟩
    have hne : id ≠ requestId := fun heq => by
      rw [hold row (heq ▸ hrow)] at hterminal
      cases hterminal
    rw [Dict.get?_set_of_ne hne, hrow]

theorem Move.recorded (h : Move rules db db') (hrecorded : Recorded db) : Recorded db' := by
  have hactive : ∀ {id : String} {old : RequestRow}, db.requests.get? id = some old →
      old.status.terminal = false →
      ∀ row, db.requests.get? id = some row → row.status.terminal = false := by
    intro id old hold hfalse row hrow
    rw [hold] at hrow
    cases hrow
    exact hfalse
  cases h with
  | submit hsubmitted =>
      refine hrecorded.set_active (by rw [hsubmitted.queued]; rfl) fun row hrow => ?_
      rw [hsubmitted.fresh] at hrow
      cases hrow
  | claim now hold hhead hqueued hflag =>
      exact hrecorded.set_active rfl (hactive hold (by rw [hqueued]; rfl))
  | edit hold hedit => exact hrecorded.set_active hedit.active.2 (hactive hold hedit.active.1)
  | @finish requestId old new _ now hold hending hrecord =>
      have hnone : ¬ db.records.contains requestId = true := fun hcontains => by
        obtain ⟨row, hrow, hterminal⟩ := hrecorded.record requestId hcontains
        rw [hactive hold hending.active.1 row hrow] at hterminal
        cases hterminal
      obtain ⟨row, hrow, _, ⟨hcontains, _⟩ | ⟨_, rfl⟩⟩ := materializeRecord_spec hrecord
      · exact absurd hcontains hnone
      · rw [setRequest_requests, Dict.get?_set_self] at hrow
        cases hrow
        constructor
        · intro id row hrow hterminal
          simp only [setRequest_requests, Dict.get?_set] at hrow ⊢
          split at hrow
          · next heq =>
              cases hrow
              rw [if_pos heq, heq]
              exact ⟨now, rfl⟩
          · next hne =>
              rw [if_neg hne]
              exact hrecorded.ended id row hrow hterminal
        · intro id hcontains
          simp only [setRequest_requests, Dict.get?_set, Dict.contains] at hcontains ⊢
          by_cases heq : id = requestId
          · exact ⟨new, by rw [if_pos heq], hending.active.2⟩
          · rw [if_neg heq] at hcontains ⊢
            exact hrecorded.record id hcontains

/-! ## Boundaries -/

def Timely (row : RequestRow) : Prop :=
  ∀ b ∈ row.boundaryAt, row.requestedAt.instant ≤ b.instant ∨ row.origin = .legacy

theorem Edit.timely (h : Edit anyCaller row row') (ht : Timely row) : Timely row' := by
  cases h with
  | bound boundary now hactive hnone hbounds =>
      rintro b hb
      rw [boundedRequest, Option.mem_some_iff] at hb
      subst hb
      exact Or.inl hbounds
  | progress => exact ht
  | flag => exact ht
  | recover => exact ht

theorem Ending.timely (h : Ending row row') (ht : Timely row) : Timely row' := by
  cases h <;> exact ht

theorem Move.timely (h : Move anyCaller db db')
    (ht : ∀ id row, db.requests.get? id = some row → Timely row) (id : String) (row : RequestRow)
    (hrow : db'.requests.get? id = some row) : Timely row := by
  have hset : ∀ {id' : String} {new : RequestRow}, Timely new →
      (db.requests.set id' new).get? id = some row → Timely row := by
    intro id' new hnew hrow
    rw [Dict.get?_set] at hrow
    split at hrow
    · cases hrow
      exact hnew
    · exact ht id row hrow
  cases h with
  | submit hsubmitted => exact hset hsubmitted.bounded hrow
  | @claim id' owner old now hold hhead hqueued hflag =>
      have hold' : Timely old := ht _ _ hold
      exact hset (show Timely (claimedRequest owner now old) from hold') hrow
  | edit hold hedit => exact hset (hedit.timely (ht _ _ hold)) hrow
  | finish now hold hending hrecord =>
      rw [(materializeRecord_requests hrecord).1] at hrow
      exact hset (hending.timely (ht _ _ hold)) hrow

/-! ## Runs -/

theorem Moves.onward (h : Moves rules db db') (hrow : db.requests.get? requestId = some row) :
    ∃ row', db'.requests.get? requestId = some row' ∧ Onward row row' := by
  induction h with
  | refl => exact ⟨row, hrow, .refl row⟩
  | tail _ hmove ih =>
      obtain ⟨row', hrow', honward⟩ := ih
      obtain ⟨row'', hrow'', honward'⟩ := hmove.onward hrow'
      exact ⟨row'', hrow'', honward.trans honward'⟩

/-- What the calls keep of the tables. -/
structure Lawful (db : Db) : Prop where
  recorded : Recorded db
  timely : ∀ id row, db.requests.get? id = some row → Timely row

theorem Moves.lawful (h : Moves anyCaller db db') (hlawful : Lawful db) : Lawful db' := by
  induction h with
  | refl => exact hlawful
  | tail _ hmove ih => exact ⟨hmove.recorded ih.recorded, hmove.timely ih.timely⟩

def Calls (digest : String → String) : Db → Db → Prop :=
  Relation.ReflTransGen fun db db' => ∃ call now, RequestCall.after digest call now db = db'

variable {digest : String → String}

theorem Calls.moves (h : Calls digest db db') : Moves anyCaller db db' := by
  induction h with
  | refl => exact .refl
  | tail _ hcall ih =>
      obtain ⟨call, now, rfl⟩ := hcall
      exact ih.trans (RequestCall.after_moves digest call now _)

theorem Calls.lawful (h : Calls digest Db.empty db) : Lawful db :=
  h.moves.lawful ⟨.empty, fun _ _ hrow => absurd hrow no_request⟩

/-! ## Cancellations -/

theorem cancelRound_doomed {r : RequestRow × Db} (h : cancelRound requestId now db = .ok (some r)) :
    ∃ row, r.2.requests.get? requestId = some row ∧ Doomed row := by
  rw [cancelRound] at h
  split at h
  · next hupdate =>
      simp only [bind_ok, pure_ok, Option.some.injEq] at h
      obtain ⟨_, hrecord, rfl⟩ := h
      obtain ⟨old, _, _, rfl⟩ := updateRequest_some hupdate
      rw [(materializeRecord_requests (withRecord_ok hrecord)).1, setRequest_requests]
      exact ⟨_, Dict.get?_set_self .., rfl, fun _ => rfl⟩
  · split at h
    · next hupdate =>
        simp only [bind_ok, pure_ok, Option.some.injEq] at h
        obtain ⟨_, _, rfl⟩ := h
        obtain ⟨old, _, hp, rfl⟩ := updateRequest_some hupdate
        refine ⟨_, Dict.get?_set_self .., rfl, fun hterminal => ?_⟩
        exact (terminal_of_status (of_decide_eq_true hp) rfl hterminal).elim
    · simp only [bind_ok, refuse_ok, pure_ok, reduceCtorEq, and_false, exists_false] at h

theorem requestCancel_doomed {r : RequestRow × Db} (h : requestCancel requestId now db = .ok r) :
    ∃ row, r.2.requests.get? requestId = some row ∧ Doomed row := by
  rw [requestCancel] at h
  generalize 2 = n at h
  induction n with
  | zero => cases h
  | succ n ih =>
      simp only [cancelRounds, bind_ok] at h
      obtain ⟨round, hround, h⟩ := h
      split at h
      · rw [pure_ok] at h
        subst h
        exact cancelRound_doomed hround
      · exact ih h

theorem Doomed.unpublished (h : Doomed row) : row.status.published = false := by
  by_contra hpublished
  have hterminal : row.status.terminal = true := by
    cases hstatus : row.status <;> simp_all [RequestStatus.published, RequestStatus.terminal]
  rw [h.ended hterminal] at hpublished
  exact hpublished rfl

/-! ## Claims -/

theorem requireExpected_other
    (hrow : db.requests.get? requestId = some row) (hother : row.claimedBy ≠ some owner) :
    ∃ e, requireExpected requestId (some owner) db = .error e := by
  rcases h : requireExpected requestId (some owner) db with e | u
  · exact ⟨e, rfl⟩
  · simp only [requireExpected, requireRequestClaim, bind_ok, refuse_ok, getRequest_ok] at h
    obtain ⟨_, ⟨_, _, current, hcurrent, _, hclaim, _⟩, _⟩ := h
    rw [hrow] at hcurrent
    cases hcurrent
    exact absurd (fun h => hother h) fun hh => hclaim (Or.inr hother)

inductive ClaimCall
  | setBoundary (boundary : Stamp)
  | updateProgress (p : Progress)
  | complete (c : Completion)

def ClaimCall.call (requestId owner : String) : ClaimCall → RequestCall
  | .setBoundary boundary => .setBoundary requestId boundary (some owner)
  | .updateProgress p => .updateProgress requestId p (some owner)
  | .complete c => .complete requestId c (some owner)

theorem ClaimCall.after_other
    (hrow : db.requests.get? requestId = some row) (hother : row.claimedBy ≠ some owner)
    (call : ClaimCall) (now : Stamp) : (call.call requestId owner).after digest now db = db := by
  have hget : getRequest requestId db = .ok row := getRequest_ok.mpr hrow
  obtain ⟨e, he⟩ := requireExpected_other hrow hother
  rw [RequestCall.after]
  split
  · next db' h =>
      cases call with
      | setBoundary boundary =>
          obtain ⟨r, h⟩ := left_ok h
          rw [setRequestBoundary, hget] at h
          simp only [bind_ok, he, reduceCtorEq, false_and, and_false, exists_false] at h
      | updateProgress p =>
          obtain ⟨r, h⟩ := left_ok h
          rw [updateRequestProgress, hget] at h
          simp only [bind_ok, he, reduceCtorEq, false_and, and_false, exists_false] at h
      | complete c =>
          obtain ⟨r, h⟩ := left_ok h
          rw [completeRequest, hget] at h
          simp only [bind_ok, he] at h
          obtain ⟨_, _, current, hcurrent, h⟩ := h
          split at h
          · simp only [completeTerminal, bind_ok, refuse_ok, pure_ok, Prod.mk.injEq] at h
            exact h.choose_spec.2.2.symm
          · simp only [bind_ok, reduceCtorEq, false_and, exists_false] at h
  · rfl

/-! ## The life cycle -/

/-- Over every run of calls from an empty database, whoever makes them:

* a terminal request keeps its status, boundary and report hashes;
* one whose cancellation was acknowledged while it was active is never published;
* a boundary, once set, stays, and is not before the time of its request, an
  imported historical one apart;
* a terminal request has one record, which agrees with it;
* an owner that does not hold the claim changes nothing. -/
theorem research_request_lifecycle (digest : String → String) :
    ∀ db, Calls digest Db.empty db → ∀ id row, db.requests.get? id = some row →
      (row.status.terminal = true → ∀ db', Calls digest db db' →
        ∃ row', db'.requests.get? id = some row' ∧ row'.status = row.status ∧
          row'.boundaryAt = row.boundaryAt ∧ row'.reportJsonHash = row.reportJsonHash ∧
          row'.reportMarkdownHash = row.reportMarkdownHash) ∧
      (row.status.terminal = false → ∀ now r, requestCancel id now db = .ok r →
        ∀ db', Calls digest r.2 db' → ∀ row', db'.requests.get? id = some row' →
          row'.status.published = false) ∧
      (∀ b, row.boundaryAt = some b →
        (row.requestedAt.instant ≤ b.instant ∨ row.origin = .legacy) ∧
        ∀ db', Calls digest db db' →
          ∃ row', db'.requests.get? id = some row' ∧ row'.boundaryAt = some b) ∧
      (row.status.terminal = true → ∃! e, e ∈ db.records.entries ∧ e.1 = id ∧
        e.2.status = row.status ∧ e.2.reportJsonHash = row.reportJsonHash ∧
        e.2.reportMarkdownHash = row.reportMarkdownHash) ∧
      (∀ owner, row.claimedBy ≠ some owner → ∀ (call : ClaimCall) now,
        (call.call id owner).after digest now db = db) := by
  intro db hdb id row hrow
  have hlawful := hdb.lawful
  refine ⟨fun hterminal db' hrun => ?_, fun _ now r hcancel db' hrun row' hrow' => ?_,
    fun b hb => ⟨hlawful.timely id row hrow b hb, fun db' hrun => ?_⟩, fun hterminal => ?_,
    fun owner hother call now => ClaimCall.after_other hrow hother call now⟩
  · obtain ⟨row', hrow', honward⟩ := hrun.moves.onward hrow
    have hsame := honward.frozen hterminal
    subst hsame
    exact ⟨row', hrow', rfl, rfl, rfl, rfl⟩
  · obtain ⟨held, hheld, hdoomed⟩ := requestCancel_doomed hcancel
    obtain ⟨later, hlater, honward⟩ := hrun.moves.onward hheld
    rw [hrow'] at hlater
    cases hlater
    exact (honward.doomed hdoomed).unpublished
  · obtain ⟨row', hrow', honward⟩ := hrun.moves.onward hrow
    exact ⟨row', hrow', honward.bounded b hb⟩
  · obtain ⟨createdAt, hrecord⟩ := hlawful.recorded.ended id row hrow hterminal
    refine ⟨(id, recordOf id row createdAt), ⟨Dict.mem_entries.mpr hrecord, rfl, rfl, rfl, rfl⟩, ?_⟩
    rintro ⟨id', record⟩ ⟨hmem, rfl, _⟩
    have hsame := Dict.mem_entries.mp hmem
    rw [hrecord] at hsame
    exact Prod.ext rfl (Option.some.inj hsame).symm

def manualSubmission : Submission where
  team := ⟨"lagent", 1⟩
  subject := .market none
  origin := .cli
  identity := "manual"
  requestedAt := some ⟨1000000, ⟨0⟩⟩
  acceptedAt := none
  boundary := none
  rerunOf := none

def cancelledManual : Db :=
  (RequestCall.cancel "request-manual").after id ⟨3000000, ⟨0⟩⟩
    ((RequestCall.submit manualSubmission).after id ⟨2000000, ⟨0⟩⟩ Db.empty)

theorem research_request_lifecycle_cancelled :
    ∃ row, cancelledManual.requests.get? "request-manual" = some row ∧
      row.status = .cancelled ∧ ∃! e, e ∈ cancelledManual.records.entries ∧
        e.1 = "request-manual" ∧ e.2.status = row.status ∧
        e.2.reportJsonHash = row.reportJsonHash ∧
        e.2.reportMarkdownHash = row.reportMarkdownHash := by
  have hrun : Calls id Db.empty cancelledManual := .tail (.single ⟨_, _, rfl⟩) ⟨_, _, rfl⟩
  obtain ⟨row, hrow, hstatus⟩ : ∃ row, cancelledManual.requests.get? "request-manual" = some row ∧
      row.status = .cancelled :=
    ⟨cancelledQueued ⟨3000000, ⟨0⟩⟩ (newRequest "manual" manualSubmission ⟨1000000, ⟨0⟩⟩
      ⟨1000000, ⟨0⟩⟩ ⟨2000000, ⟨0⟩⟩), by decide +kernel, rfl⟩
  have hterminal : row.status.terminal = true := by rw [hstatus]; rfl
  exact ⟨row, hrow, hstatus,
    (research_request_lifecycle id cancelledManual hrun _ row hrow).2.2.2.1 hterminal⟩

def legacySubmission : Submission where
  team := ⟨"lagent", 1⟩
  subject := .market none
  origin := .legacy
  identity := "legacy"
  requestedAt := some ⟨2000000, ⟨0⟩⟩
  acceptedAt := none
  boundary := some ⟨1000000, ⟨0⟩⟩
  rerunOf := none

theorem legacy_boundary_earlier :
    ∃ db row b, Calls id Db.empty db ∧ db.requests.get? "request-legacy" = some row ∧
      row.boundaryAt = some b ∧ b.instant < row.requestedAt.instant := by
  have hrun : ∃ row, ((RequestCall.submit legacySubmission).after id ⟨3000000, ⟨0⟩⟩
      Db.empty).requests.get? "request-legacy" = some row ∧
      row.boundaryAt = some ⟨1000000, ⟨0⟩⟩ ∧ row.requestedAt = ⟨2000000, ⟨0⟩⟩ :=
    ⟨newRequest "legacy" legacySubmission ⟨2000000, ⟨0⟩⟩ ⟨2000000, ⟨0⟩⟩ ⟨3000000, ⟨0⟩⟩,
      by decide +kernel, by decide +kernel, by decide +kernel⟩
  obtain ⟨row, hrow, hboundary, hrequested⟩ := hrun
  refine ⟨_, row, _, .single ⟨_, _, rfl⟩, hrow, hboundary, ?_⟩
  rw [hrequested]
  decide

end Ahunter.Research
