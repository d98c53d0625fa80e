import Ahunter.Records.Commit
import Mathlib.Data.List.Infix

/-!
# What a write leaves

Every write goes through one transaction, so a call either leaves the
database it found or the one its body made (`transaction_cases`). Insertions
and commits are inverted once here: what they checked, and which tables they
touched.

The point of a revision number is `projection_stable`: a caller that read a
projection and later commits expecting the revision it read commits on top
of the value it read, whatever happened in between, because a revision is
the sequence of an event and events never change.
-/

namespace Ahunter.Records

open Ahunter.Lib

variable {R P V A α : Type}

theorem transaction_cases (host : Host A) (body : Body.Run R P V α) (db : Db R P V) :
    (transaction host body db).2 = db ∨
      ∃ a db', body db = .ok (a, db') ∧ (transaction host body db).2 = db' := by
  unfold transaction
  split
  · exact .inl rfl
  · next a db' hbody =>
      split
      · exact .inl rfl
      · split
        · exact .inr ⟨a, db', hbody, rfl⟩
        · exact .inr ⟨a, db', hbody, rfl⟩

theorem transaction_ok {host : Host A} {body : Body.Run R P V α}
    {db db' : Db R P V} {a : α} (h : transaction host body db = (.ok a, db')) :
    body db = .ok (a, db') := by
  unfold transaction at h
  split at h
  · cases h
  · next hbody =>
      split at h
      · cases h
      · split at h
        · cases h
        · cases h; exact hbody

/-! ## Sequences -/

theorem lt_nextSequence {l : List ℕ} {n : ℕ} (h : n ∈ l) : n < nextSequence l := by
  rw [nextSequence, Nat.lt_succ_iff]
  induction l with
  | nil => cases h
  | cons m ms ih =>
      rcases List.mem_cons.mp h with rfl | h
      · exact le_max_left _ _
      · exact (ih h).trans (le_max_right _ _)

/-! ## Insertions -/

namespace Db

variable {db : Db R P V} {db' : Db R P V}

theorem insert_cases [DecidableEq R] {host : Host A} {p : Prepared R}
    {r : Record R} (h : db.insert host p = .ok (r, db')) :
    r.toPrepared = p ∧ ((db' = db ∧ r ∈ db.records) ∨
        (db' = { db with records := db.records ++ [r] } ∧
          db.submitted p = none ∧ (∀ x ∈ db.records, x.recordId ≠ p.recordId) ∧
          r.sequence = nextSequence (db.records.map Record.sequence) ∧
          r.createdAt = host.now)) := by
  unfold insert at h
  split at h
  · next previous hprev =>
      simp only [bind_ok, refuse_ok, pure_ok, Prod.mk.injEq, not_not] at h
      obtain ⟨-, hsame, rfl, rfl⟩ := h
      exact ⟨hsame, .inl ⟨rfl, List.mem_of_find?_eq_some hprev⟩⟩
  · next hnone =>
      simp only [bind_ok, refuse_ok, pure_ok, Prod.mk.injEq, not_exists,
        not_and] at h
      obtain ⟨-, hids, -, -, -, -, -, -, -, -, -, -, rfl, rfl⟩ := h
      exact ⟨rfl, .inr ⟨rfl, hnone, hids, rfl, rfl⟩⟩

theorem put_cases [DecidableEq R] (host : Host A) (request : Prepared R) (db : Db R P V) :
    (db.put host request).2 = db ∨ ∃ p r, prepare host request = .ok p ∧ r.toPrepared = p ∧
        db.submitted p = none ∧ (∀ x ∈ db.records, x.recordId ≠ p.recordId) ∧
        (db.put host request).2 = { db with records := db.records ++ [r] } := by
  unfold put
  split
  · exact .inl rfl
  · next p hprepare =>
      rcases transaction_cases host (insert host p) db with
        hsame | ⟨r, db', hbody, hleft⟩
      · exact .inl hsame
      · rw [hleft]
        obtain ⟨hr, ⟨rfl, -⟩ | ⟨rfl, hnone, hids, -⟩⟩ := insert_cases hbody
        · exact .inl rfl
        · exact .inr ⟨p, r, hprepare, hr, hnone, hids, rfl⟩

/-! ## Projections -/

variable {sequence : ℕ} {testId : String} {updates : List (ProjectionUpdate V)}

def writeAll (sequence : ℕ) (testId : String)
    (projections : Dict ProjectionKey (Revision V))
    (updates : List (ProjectionUpdate V)) : Dict ProjectionKey (Revision V) :=
  updates.foldl (fun d u => d.set (projectionKey testId u.name) ⟨sequence, u.value⟩)
    projections

theorem projectionKey_inj {t t' n n' : String} :
    projectionKey t n = projectionKey t' n' ↔ t = t' ∧ n = n' := by
  rw [projectionKey, projectionKey, toLex_inj, Prod.mk.injEq]

variable {projections : Dict ProjectionKey (Revision V)}

theorem get?_writeAll_other {t n : String}
    (h : t ≠ testId ∨ n ∉ updates.map ProjectionUpdate.name) :
    (writeAll sequence testId projections updates).get? (projectionKey t n)
      = projections.get? (projectionKey t n) := by
  induction updates generalizing projections with
  | nil => rfl
  | cons u us ih =>
      have hne : projectionKey t n ≠ projectionKey testId u.name := by
        rw [Ne, projectionKey_inj]
        rintro ⟨rfl, rfl⟩
        simp at h
      rw [writeAll, List.foldl_cons]
      refine (ih (h.imp_right fun hn hmem => hn (List.mem_cons_of_mem _ hmem))).trans ?_
      rw [Dict.get?_set_of_ne hne]

theorem get?_writeAll_self
    {u : ProjectionUpdate V} (hnodup : (updates.map ProjectionUpdate.name).Nodup)
    (hu : u ∈ updates) :
    (writeAll sequence testId projections updates).get? (projectionKey testId u.name)
      = some ⟨sequence, u.value⟩ := by
  induction updates generalizing projections with
  | nil => cases hu
  | cons x xs ih =>
      rw [List.map_cons, List.nodup_cons] at hnodup
      rw [writeAll, List.foldl_cons]
      rcases List.mem_cons.mp hu with rfl | hu
      · exact (get?_writeAll_other (.inr hnodup.1)).trans (Dict.get?_set_self _ _ _)
      · exact ih hnodup.2 hu

theorem foldl_project :
    updates.foldl (project sequence testId) db = { db with
      projections := writeAll sequence testId db.projections updates
      work := updates.foldl (requeue testId) db.work } := by
  induction updates generalizing db with
  | nil => rfl
  | cons u us ih =>
      rw [List.foldl_cons, ih]
      rfl

theorem walk_enqueue {messages : List OutboxMessage}
    (h : walk (enqueue sequence) db messages = .ok db') :
    db' = { db with outbox :=
      db.outbox ++ messages.map fun m => ⟨sequence, m⟩ } := by
  induction messages generalizing db with
  | nil => cases h; simp
  | cons m ms ih =>
      obtain ⟨c, hone, hrest⟩ := walk_cons_ok.mp h
      simp only [enqueue, bind_ok, refuse_ok, pure_ok] at hone
      obtain ⟨-, -, -, -, rfl⟩ := hone
      rw [ih hrest]
      simp

/-! ## Identities -/

theorem event_earlier {r : Db R P V} (hr : r.events <+: db.events) {event : Event P V}
    (h : r.event sequence = .ok event) : db.event sequence = .ok event := by
  obtain ⟨rest, hrest⟩ := hr
  simp only [Db.event, need_ok] at h ⊢
  rw [← hrest, List.find?_append, h]
  rfl

/-! ## Leases -/

variable [DecidableEq V]

theorem renew_cases (host : Host A) (lease : Lease) (seconds : ℕ) (db : Db R P V) :
    (db.renew host lease seconds).2 = db ∨ ∃ row, db.assertLease host.now lease = .ok () ∧
        db.leases.get? lease.testId = some row ∧
        (db.renew host lease seconds).2 = { db with
          leases := db.leases.set lease.testId
            { row with expiresAt := leaseEnd host.now seconds } } := by
  unfold renew
  split
  · exact .inl rfl
  · rcases transaction_cases host (renewBody host lease seconds) db with
      hsame | ⟨_, db', hbody, hleft⟩
    · exact .inl hsame
    · rw [hleft]
      simp only [renewBody, bind_ok, need_ok, pure_ok, Prod.mk.injEq] at hbody
      obtain ⟨_, hassert, row, hrow, -, rfl⟩ := hbody
      exact .inr ⟨row, hassert, hrow, rfl⟩

/-! ## Commits -/

structure Committed (host : Host A) (c : Commit P V)
    (guard : Db R P V → Attempt (Db R P V)) (db db' : Db R P V)
    (event : Event P V) : Prop where
  checked : c.check = .ok ()
  absent : db.prior c.testId c.phaseId c.actionId c.attempt = none
  writable : db.writable host.now c = .ok ()
  updates : db.updatesOf c = .ok event.updates
  current : db.revisionsCurrent c.testId event.updates = .ok ()
  identity : event.testId = c.testId ∧ event.phaseId = c.phaseId ∧
    event.actionId = c.actionId ∧ event.attempt = c.attempt
  content : event.content = c.content
  generation : event.generation = (c.lease.map Lease.generation).getD 0
  actualAt : event.actualAt = host.now
  result : ∃ g, guard db = .ok g ∧
    event.sequence = nextSequence (g.events.map Event.sequence) ∧
    db' = { g with
      events := g.events ++ [event]
      projections := writeAll event.sequence c.testId g.projections event.updates
      outbox := g.outbox ++ c.content.outbox.map fun m => ⟨event.sequence, m⟩
      work := event.updates.foldl (requeue c.testId) g.work }

theorem commitBody_cases [DecidableEq P] {host : Host A} {c : Commit P V}
    {guard : Db R P V → Attempt (Db R P V)} {event : Event P V}
    (hcheck : c.check = .ok ()) (h : commitBody host c guard db = .ok (event, db')) :
    (db' = db ∧ db.prior c.testId c.phaseId c.actionId c.attempt = some event ∧
        event.content = c.content) ∨ Committed host c guard db db' event := by
  unfold commitBody at h
  obtain ⟨record, htest, h⟩ := bind_ok.mp h
  split at h
  · next prior hprior =>
      simp only [bind_ok, refuse_ok, pure_ok, Prod.mk.injEq, not_not] at h
      obtain ⟨-, hsame, rfl, rfl⟩ := h
      exact .inl ⟨rfl, hprior, hsame⟩
  · next hnone =>
      simp only [bind_ok, pure_ok, Prod.mk.injEq] at h
      obtain ⟨_, hwritable, updates, hupdates, _, hcurrent, _, -, g, hguard, _, -,
        _, -, o, houtbox, _, -, rfl, rfl⟩ := h
      rw [foldl_project] at houtbox
      exact .inr {
        checked := hcheck
        absent := hnone
        writable := hwritable
        updates := hupdates
        current := hcurrent
        identity := ⟨rfl, rfl, rfl, rfl⟩
        content := rfl
        generation := rfl
        actualAt := rfl
        result := ⟨g, hguard, rfl, walk_enqueue houtbox⟩ }

theorem commitWith_cases [DecidableEq P] (host : Host A) (c : Commit P V)
    (guard : Db R P V → Attempt (Db R P V)) (db : Db R P V) :
    (db.commitWith host c guard).2 = db ∨
      ∃ event, Committed host c guard db (db.commitWith host c guard).2 event := by
  unfold commitWith
  split
  · exact .inl rfl
  · next hcheck =>
      rcases transaction_cases host (commitBody host c guard) db with
        hsame | ⟨event, db', hbody, hleft⟩
      · exact .inl hsame
      · rw [hleft]
        rcases commitBody_cases hcheck hbody with ⟨rfl, -⟩ | hcommitted
        · exact .inl rfl
        · exact .inr ⟨event, hcommitted⟩

theorem commit_cases [DecidableEq P] (host : Host A) (c : Commit P V)
    (guard : Db R P V → Attempt (Db R P V)) (db : Db R P V) :
    (db.commit host c guard).2 = db ∨ (("status" ∉ c.content.updates.map ProjectionUpdate.name) ∧
        c.content.transitionTo = none ∧
        ∃ event, Committed host c guard db (db.commit host c guard).2 event) := by
  unfold commit
  split
  · exact .inl rfl
  · next hstatus =>
      rw [not_or, Bool.not_eq_true, Option.isSome_eq_false_iff,
        Option.isNone_iff_eq_none] at hstatus
      exact (commitWith_cases host c guard db).imp_right fun h => ⟨hstatus.1, hstatus.2, h⟩

theorem updatesOf_plain {c : Commit P V} (hc : c.content.transitionTo = none)
    (h : db.updatesOf c = .ok updates) : updates = c.content.updates := by
  simp only [updatesOf, hc] at h
  exact (pure_ok.mp h).symm

theorem revisionsCurrent_mem (h : db.revisionsCurrent testId updates = .ok ())
    {u : ProjectionUpdate V} (hu : u ∈ updates) :
    ∃ current, db.projection testId u.name = .ok current ∧
      current.map Revision.sequence = u.expectedSequence := by
  obtain ⟨_, _, hone⟩ := walk_mem h hu
  simp only [bind_ok, refuse_ok, not_not] at hone
  obtain ⟨current, hcurrent, hsame⟩ := hone
  exact ⟨current, hcurrent, hsame⟩

/-! ## Revisions -/

variable {name : String}

theorem projection_some {row : Revision V} (h : db.projection testId name = .ok (some row)) :
    db.projections.get? (projectionKey testId name) = some row ∧
      ∃ event, db.event row.sequence = .ok event ∧
        ∃ u ∈ event.updates, u.name = name ∧ u.value = row.value := by
  unfold projection at h
  split at h
  · simp only [bind_ok, pure_ok, reduceCtorEq, and_false, exists_false] at h
  · next row' hrow =>
      simp only [bind_ok, refuse_ok, pure_ok, Option.some.injEq, not_or, not_not] at h
      obtain ⟨-, -, event, hevent, -, ⟨-, hbacked⟩, rfl⟩ := h
      exact ⟨hrow, event, hevent, hbacked⟩

theorem projection_none (h : db.projection testId name = .ok none) :
    db.projections.get? (projectionKey testId name) = none := by
  unfold projection at h
  split at h
  · next hrow => exact hrow
  · simp only [bind_ok, pure_ok, reduceCtorEq, and_false, exists_false] at h

def WritesOnce (db : Db R P V) : Prop :=
  ∀ e ∈ db.events, (e.updates.map ProjectionUpdate.name).Nodup

theorem projection_stable {r : Db R P V} (hr : r.events <+: db.events) (honce : db.WritesOnce)
    {old new : Revision V} (hold : r.projection testId name = .ok (some old))
    (hnew : db.projection testId name = .ok (some new)) (hsequence : new.sequence = old.sequence) :
    new = old := by
  obtain ⟨-, e, he, u, hu, hname, hvalue⟩ := projection_some hold
  obtain ⟨-, e', he', u', hu', hname', hvalue'⟩ := projection_some hnew
  rw [hsequence, event_earlier hr he] at he'
  cases he'
  have hnodup := honce e (List.mem_of_find?_eq_some (need_ok.mp
    (event_earlier hr he)))
  have hsame : u = u' :=
    List.inj_on_of_nodup_map hnodup hu hu' (hname.trans hname'.symm)
  cases new; cases old
  simp_all

end Db

end Ahunter.Records
