import Ahunter.Research.Requests

/-!
# What a request operation does to the tables

Each operation is a run of moves: it inserts a new request, claims the head of
the queue, edits a row that stays active, or ends a row and writes its record.
Every law of the requests is then one case analysis over moves, and no proof
past this module opens an operation again.

What differs between callers is what they may do, `Rules`: who may claim, which
running rows may go back to the queue, and which boundaries may be set.
-/

namespace Ahunter.Research

open Ahunter.Lib
open Ahunter.Sim (Instant Stamp)

/-! ## The row update -/

@[simp] theorem setRequest_requests (db : Db) (requestId : String) (row : RequestRow) :
    (db.setRequest requestId row).requests = db.requests.set requestId row := rfl

@[simp] theorem setRequest_queue (db : Db) (requestId : String) (row : RequestRow) :
    (db.setRequest requestId row).queue = mirrorQueue requestId row db.queue := rfl

theorem updateRequest_some {db db' : Db} {requestId : String} {p : RequestRow → Bool}
    {f : RequestRow → RequestRow} (h : db.updateRequest requestId p f = some db') :
    ∃ row, db.requests.get? requestId = some row ∧ p row = true ∧
      db' = db.setRequest requestId (f row) := by
  rw [Db.updateRequest] at h
  split at h
  · next row hrow =>
      split at h
      · next hp => exact ⟨row, hrow, hp, (Option.some.inj h).symm⟩
      · cases h
  · cases h

/-! ## Moves -/

/-- What the callers of an operation may do. -/
structure Rules where
  claims : String → Prop
  recovers : RequestRow → Prop
  bounds : RequestRow → Stamp → Prop

inductive Edit (rules : Rules) (row : RequestRow) : RequestRow → Prop
  | bound (boundary now : Stamp) (hactive : row.status.terminal = false)
      (hnone : row.boundaryAt = none) (hbounds : rules.bounds row boundary) :
      Edit rules row (boundedRequest boundary now row)
  | progress (p : Progress) (now : Stamp) (hactive : row.status.terminal = false) :
      Edit rules row (progressedRequest p now row)
  | flag (now : Stamp) (hrunning : row.status = .running) :
      Edit rules row (flaggedRequest now row)
  | recover (now : Stamp) (hrunning : row.status = .running) (hrecovers : rules.recovers row) :
      Edit rules row (recoveredRequest now row)

inductive Ending (row : RequestRow) : RequestRow → Prop
  | cancelQueued (now : Stamp) (hqueued : row.status = .queued) :
      Ending row (cancelledQueued now row)
  | complete (c : Completion) (now : Stamp) (hrunning : row.status = .running)
      (hterminal : c.status.terminal = true)
      (hcancel : c.status = .cancelled ∨ row.cancelRequested = false) :
      Ending row (completedRequest c now row)
  | cancelRunning (c : Completion) (now : Stamp) (hrunning : row.status = .running)
      (hflag : row.cancelRequested = true) :
      Ending row (cancelledRunning c now row)

structure Head (db : Db) (requestId : String) : Prop where
  next : ∃ work, nextWork db = some (requestId, work) ∧ work.kind = .request ∧
    work.state = .queued

structure Submitted (rules : Rules) (db : Db) (requestId : String) (row : RequestRow) : Prop where
  fresh : db.requests.get? requestId = none
  free : db.queue.get? requestId = none
  queued : row.status = .queued
  unflagged : row.cancelRequested = false
  unclaimed : row.claimedBy = none
  bounded : ∀ b ∈ row.boundaryAt, row.requestedAt.instant ≤ b.instant ∨ row.origin = .legacy

def Db.insertRequest (db : Db) (requestId : String) (row : RequestRow) : Db :=
  { db with
    requests := db.requests.set requestId row
    queue := db.queue.set requestId (newWork row) }

/-- One change of the tables. -/
inductive Move (rules : Rules) (db : Db) : Db → Prop
  | submit {requestId : String} {row : RequestRow} (h : Submitted rules db requestId row) :
      Move rules db (db.insertRequest requestId row)
  | claim {requestId owner : String} {row : RequestRow} (now : Stamp)
      (hrow : db.requests.get? requestId = some row) (hhead : Head db requestId)
      (hqueued : row.status = .queued) (hflag : row.cancelRequested = false)
      (hclaims : rules.claims owner) :
      Move rules db (db.setRequest requestId (claimedRequest owner now row))
  | edit {requestId : String} {row row' : RequestRow}
      (hrow : db.requests.get? requestId = some row) (h : Edit rules row row') :
      Move rules db (db.setRequest requestId row')
  | finish {requestId : String} {row row' : RequestRow} {db' : Db} (now : Stamp)
      (hrow : db.requests.get? requestId = some row) (h : Ending row row')
      (hrecord : materializeRecord requestId now (db.setRequest requestId row') = .ok db') :
      Move rules db db'

abbrev Moves (rules : Rules) : Db → Db → Prop := Relation.ReflTransGen (Move rules)

variable {rules : Rules} {db db' seen : Db} {requestId : String} {now : Stamp}

/-! ## Submitting and claiming -/

theorem newRequest_bounded {key : String} {s : Submission} {requested accepted : Stamp}
    (h : ¬ ∃ b ∈ s.boundary, b.instant < requested.instant ∧ s.origin ≠ .legacy) :
    ∀ b ∈ (newRequest key s requested accepted now).boundaryAt,
      requested.instant ≤ b.instant ∨ s.origin = .legacy := by
  intro b hb
  rw [newRequest] at hb
  obtain ⟨b', hb', rfl⟩ := Option.mem_map.mp hb
  by_contra hno
  rw [not_or, not_le] at hno
  exact h ⟨b', hb', hno.1, hno.2⟩

variable {row : RequestRow}

theorem submitRequest_moves {digest : String → String} {s : Submission}
    (h : submitRequest digest s now db = .ok (row, db')) : Moves rules db db' := by
  simp only [submitRequest, bind_ok, refuse_ok] at h
  obtain ⟨_, _, _, _, _, hbounded, _, _, h⟩ := h
  split at h
  · simp only [bind_ok, refuse_ok, pure_ok, Prod.mk.injEq] at h
    obtain ⟨_, _, _, _, _, rfl⟩ := h
    exact .refl
  · simp only [bind_ok, refuse_ok, pure_ok, Prod.mk.injEq] at h
    obtain ⟨_, hfresh, _, hfree, rfl, rfl⟩ := h
    rw [Dict.contains, Bool.not_eq_true, Option.isSome_eq_false_iff, Option.isNone_iff_eq_none]
      at hfresh hfree
    exact .single (.submit ⟨hfresh, hfree, rfl, rfl, rfl, newRequest_bounded hbounded⟩)

variable {owner : String}

theorem claimNextRequest_moves {claimed : Option String} (hclaims : rules.claims owner)
    (h : claimNextRequest owner now db = .ok (claimed, db')) :
    (claimed = none ∧ db' = db) ∨ ∃ requestId row, claimed = some requestId ∧
      db.requests.get? requestId = some row ∧
      db' = db.setRequest requestId (claimedRequest owner now row) ∧ Move rules db db' := by
  simp only [claimNextRequest, bind_ok, refuse_ok] at h
  obtain ⟨_, _, h⟩ := h
  split at h
  · simp only [pure_ok, Prod.mk.injEq] at h
    exact Or.inl ⟨h.1.symm, h.2.symm⟩
  · next head hhead =>
      split at h
      · simp only [pure_ok, Prod.mk.injEq] at h
        exact Or.inl ⟨h.1.symm, h.2.symm⟩
      · next hqueued =>
          simp only [ne_eq, not_or, not_not] at hqueued
          split at h
          · simp only [pure_ok, Prod.mk.injEq] at h
            exact Or.inl ⟨h.1.symm, h.2.symm⟩
          · next hupdate =>
              simp only [pure_ok, Prod.mk.injEq] at h
              obtain ⟨rfl, rfl⟩ := h
              obtain ⟨row, hrow, hp, rfl⟩ := updateRequest_some hupdate
              simp only [Bool.and_eq_true, decide_eq_true_eq, Bool.not_eq_true'] at hp
              exact Or.inr ⟨head.1, row, rfl, hrow, rfl,
                .claim now hrow ⟨head.2, hhead, hqueued⟩ hp.1 hp.2 hclaims⟩

/-! ## Boundary and progress -/

variable {expected : Option String}

theorem getRequest_ok :
    getRequest requestId db = .ok row ↔ db.requests.get? requestId = some row := by
  rw [getRequest, need_ok]

theorem heldAs_some :
    row.heldAs (some owner) = true ↔ row.status = .running ∧ row.claimedBy = some owner := by
  simp [RequestRow.heldAs]

theorem active_of_held {row current : RequestRow} (hseen : seen = db ∨ expected.isSome = true)
    (hcurrent : seen.requests.get? requestId = some current)
    (hactive : current.status.terminal = false) (hrow : db.requests.get? requestId = some row)
    (hheld : row.heldAs expected = true) : row.status.terminal = false := by
  rcases hseen with rfl | hsome
  · rw [hrow] at hcurrent
    cases hcurrent
    exact hactive
  · obtain ⟨owner, rfl⟩ := Option.isSome_iff_exists.mp hsome
    rw [(heldAs_some.mp hheld).1]
    rfl

structure Bounding (rules : Rules) (seen db : Db) (requestId : String) (boundary : Stamp) :
    Prop where
  allows : ∀ current row, seen.requests.get? requestId = some current →
    db.requests.get? requestId = some row → current.requestedAt.instant ≤ boundary.instant →
    rules.bounds row (inZoneOf current.requestedAt boundary)

theorem setRequestBoundary_moves {boundary : Stamp} (hseen : seen = db ∨ expected.isSome = true)
    (hbounds : Bounding rules seen db requestId boundary)
    (h : setRequestBoundary requestId boundary expected now seen db = .ok (row, db')) :
    Moves rules db db' := by
  simp only [setRequestBoundary, bind_ok, refuse_ok, getRequest_ok] at h
  obtain ⟨current, hcurrent, _, _, _, hactive, _, htime, h⟩ := h
  rw [Bool.not_eq_true] at hactive
  rw [not_lt] at htime
  split at h
  · simp only [sameBoundary, bind_ok, refuse_ok, pure_ok, Prod.mk.injEq] at h
    obtain ⟨_, _, _, rfl⟩ := h
    exact .refl
  · split at h
    · next hupdate =>
        simp only [bind_ok, pure_ok, Prod.mk.injEq] at h
        obtain ⟨_, _, _, rfl⟩ := h
        obtain ⟨old, hold, hp, rfl⟩ := updateRequest_some hupdate
        rw [Bool.and_eq_true, Option.isNone_iff_eq_none] at hp
        exact .single (.edit hold (.bound _ now
          (active_of_held hseen hcurrent hactive hold hp.2) hp.1
          (hbounds.allows current old hcurrent hold htime)))
    · simp only [bind_ok] at h
      obtain ⟨_, _, _, _, h⟩ := h
      split at h
      · simp only [sameBoundary, bind_ok, refuse_ok, pure_ok, Prod.mk.injEq] at h
        obtain ⟨_, _, _, rfl⟩ := h
        exact .refl
      · cases h

theorem updateRequestProgress_moves {p : Progress} (hseen : seen = db ∨ expected.isSome = true)
    (h : updateRequestProgress requestId p expected now seen db = .ok (row, db')) :
    Moves rules db db' := by
  simp only [updateRequestProgress, bind_ok, refuse_ok, getRequest_ok] at h
  obtain ⟨current, hcurrent, _, _, _, hactive, _, _, h⟩ := h
  rw [Bool.not_eq_true] at hactive
  split at h
  · next hupdate =>
      simp only [bind_ok, pure_ok, Prod.mk.injEq] at h
      obtain ⟨_, _, _, rfl⟩ := h
      obtain ⟨old, hold, hp, rfl⟩ := updateRequest_some hupdate
      exact .single (.edit hold (.progress p now
        (active_of_held hseen hcurrent hactive hold hp)))
  · simp only [bind_ok, reduceCtorEq, and_false, exists_false] at h

/-! ## Ending -/

theorem withRecord_ok
    (h : withRecord requestId now db = .ok (row, db')) :
    materializeRecord requestId now db = .ok db' := by
  simp only [withRecord, bind_ok, pure_ok, Prod.mk.injEq] at h
  obtain ⟨_, _, _, hrecord, _, rfl⟩ := h
  exact hrecord

theorem cancelRound_moves {r : RequestRow × Db}
    (h : cancelRound requestId now db = .ok (some r)) : Moves rules db r.2 := by
  rw [cancelRound] at h
  split at h
  · next hupdate =>
      simp only [bind_ok, pure_ok, Option.some.injEq] at h
      obtain ⟨_, hrecord, rfl⟩ := h
      obtain ⟨old, hold, hp, rfl⟩ := updateRequest_some hupdate
      exact .single (.finish now hold (.cancelQueued now (of_decide_eq_true hp))
        (withRecord_ok hrecord))
  · split at h
    · next hupdate =>
        simp only [bind_ok, pure_ok, Option.some.injEq] at h
        obtain ⟨_, _, rfl⟩ := h
        obtain ⟨old, hold, hp, rfl⟩ := updateRequest_some hupdate
        exact .single (.edit hold (.flag now (of_decide_eq_true hp)))
    · simp only [bind_ok, refuse_ok, pure_ok, reduceCtorEq, and_false, exists_false] at h

theorem cancelRounds_moves {n : ℕ} {r : RequestRow × Db}
    (h : cancelRounds requestId now db n = .ok r) : Moves rules db r.2 := by
  induction n with
  | zero => cases h
  | succ n ih =>
      simp only [cancelRounds, bind_ok] at h
      obtain ⟨round, hround, h⟩ := h
      split at h
      · rw [pure_ok] at h
        subst h
        exact cancelRound_moves hround
      · exact ih h

variable {c : Completion}

theorem completeMissed_same
    (h : completeMissed requestId c expected db = .ok (row, db')) : db' = db := by
  simp only [completeMissed, bind_ok] at h
  obtain ⟨current, _, h⟩ := h
  split at h
  · simp only [pure_ok, Prod.mk.injEq] at h
    exact h.2.symm
  · simp only [bind_ok, refuse_ok, pure_ok, Prod.mk.injEq] at h
    obtain ⟨_, _, _, _, _, rfl⟩ := h
    rfl

theorem completeRunning_moves (hterminal : c.status.terminal = true)
    (h : completeRunning requestId c expected now db = .ok (row, db')) : Moves rules db db' := by
  rw [completeRunning] at h
  split at h
  · next hupdate =>
      obtain ⟨old, hold, hp, rfl⟩ := updateRequest_some hupdate
      simp only [Bool.and_eq_true, Bool.or_eq_true, decide_eq_true_eq, Bool.not_eq_true'] at hp
      exact .single (.finish now hold (.complete c now hp.1.1 hterminal hp.1.2)
        (withRecord_ok h))
  · split at h
    · next hupdate =>
        obtain ⟨old, hold, hp, rfl⟩ := updateRequest_some hupdate
        simp only [Bool.and_eq_true, decide_eq_true_eq] at hp
        exact .single (.finish now hold (.cancelRunning c now hp.1.1 hp.1.2) (withRecord_ok h))
    · rw [completeMissed_same h]

theorem completeRequest_moves
    (h : completeRequest requestId c expected now seen db = .ok (row, db')) :
    Moves rules db db' := by
  simp only [completeRequest, bind_ok, refuse_ok, Bool.not_eq_false] at h
  obtain ⟨_, hterminal, current, _, h⟩ := h
  split at h
  · simp only [completeTerminal, bind_ok, refuse_ok, pure_ok, Prod.mk.injEq] at h
    obtain ⟨_, _, _, rfl⟩ := h
    exact .refl
  · simp only [bind_ok, refuse_ok] at h
    obtain ⟨_, _, _, _, _, _, h⟩ := h
    exact completeRunning_moves hterminal h

/-! ## Recovering -/

theorem recover_fold (l : List (String × RequestRow)) (hnodup : (l.map Prod.fst).Nodup)
    (hl : ∀ e ∈ l, db.requests.get? e.1 = some e.2 ∧ e.2.status = .running ∧ rules.recovers e.2) :
    Moves rules db (l.foldl (fun db e => db.setRequest e.1 (recoveredRequest now e.2)) db) := by
  induction l generalizing db with
  | nil => exact .refl
  | cons e l ih =>
      rw [List.map_cons, List.nodup_cons] at hnodup
      obtain ⟨hrow, hrunning, hrecovers⟩ := hl e List.mem_cons_self
      refine .head (.edit hrow (.recover now hrunning hrecovers)) (ih hnodup.2 fun x hx => ?_)
      obtain ⟨hx', hrest⟩ := hl x (List.mem_cons_of_mem _ hx)
      refine ⟨?_, hrest⟩
      have hne : x.1 ≠ e.1 := fun heq => hnodup.1 (heq ▸ List.mem_map_of_mem hx)
      rw [setRequest_requests, Dict.get?_set_of_ne hne, hx']

theorem recoverInterruptedRequests_moves
    (hrecovers : ∀ requestId row, db.requests.get? requestId = some row →
      row.abandoned owner = true → rules.recovers row)
    (h : recoverInterruptedRequests owner now db = .ok ((), db')) : Moves rules db db' := by
  simp only [recoverInterruptedRequests, bind_ok, refuse_ok, pure_ok, Prod.mk.injEq,
    true_and] at h
  obtain ⟨_, _, rfl⟩ := h
  refine recover_fold _
    (List.Nodup.sublist (List.Sublist.map _ List.filter_sublist) db.requests.keys_nodup)
    fun e he => ?_
  rw [List.mem_filter] at he
  have hrow := Dict.mem_entries.mp he.1
  refine ⟨hrow, ?_, hrecovers _ _ hrow he.2⟩
  have habandoned := he.2
  rw [RequestRow.abandoned, decide_eq_true_eq] at habandoned
  exact habandoned.1

/-! ## Calls -/

def anyCaller : Rules where
  claims := fun _ => True
  recovers := fun _ => True
  bounds := fun row boundary => row.requestedAt.instant ≤ boundary.instant

theorem left_ok {α : Type} {x : Attempt (α × Db)} (h : left x = .ok db') :
    ∃ a, x = .ok (a, db') := by
  simp only [left, bind_ok, pure_ok] at h
  obtain ⟨⟨a, t⟩, hx, rfl⟩ := h
  exact ⟨a, hx⟩

theorem RequestCall.returns_moves {digest : String → String} {call : RequestCall}
    (h : call.returns digest now db = .ok db') : Moves anyCaller db db' := by
  cases call with
  | submit s =>
      obtain ⟨row, h⟩ := left_ok h
      exact submitRequest_moves h
  | claimNext owner =>
      obtain ⟨claimed, h⟩ := left_ok h
      have hclaims : anyCaller.claims owner := trivial
      rcases claimNextRequest_moves hclaims h with ⟨_, rfl⟩ | ⟨_, _, _, _, _, hmove⟩
      · exact .refl
      · exact .single hmove
  | cancel requestId =>
      obtain ⟨row, h⟩ := left_ok h
      exact cancelRounds_moves h
  | setBoundary requestId boundary expected =>
      obtain ⟨row, h⟩ := left_ok h
      refine setRequestBoundary_moves (Or.inl rfl) ⟨fun current row hcurrent hrow htime => ?_⟩ h
      rw [hcurrent] at hrow
      cases hrow
      exact htime
  | updateProgress requestId p expected =>
      obtain ⟨row, h⟩ := left_ok h
      exact updateRequestProgress_moves (Or.inl rfl) h
  | complete requestId c expected =>
      obtain ⟨row, h⟩ := left_ok h
      exact completeRequest_moves h
  | recover owner =>
      obtain ⟨u, h⟩ := left_ok h
      exact recoverInterruptedRequests_moves (fun _ _ _ _ => trivial) h

theorem RequestCall.after_moves (digest : String → String) (call : RequestCall) (now : Stamp)
    (db : Db) : Moves anyCaller db (call.after digest now db) := by
  rw [RequestCall.after]
  split
  · next h => exact RequestCall.returns_moves h
  · exact .refl

end Ahunter.Research
