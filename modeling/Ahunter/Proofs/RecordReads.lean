import Ahunter.Proofs.RecordLog

/-!
# Reading after a write

What a reader sees once an event has been appended: the projections it
wrote, at its sequence, and every other projection exactly as before. The
checks `projection` makes of the row against the log come out the same on
both sides, so these are equations between reads and need no invariant of
the store. A test that was terminal stays so, because a terminal status has
no next one.
-/

namespace Ahunter.Records.Db

open Ahunter.Lib

variable {R P V A : Type}

/-! ## Records -/

variable {db db' : Db R P V} {testId : String} {r : Record R}

theorem read_append {new : List (Record R)} (h : db'.records = db.records ++ new)
    {recordId : String} (hread : db.read recordId = .ok r) : db'.read recordId = .ok r := by
  simp only [read, need_ok] at hread ⊢
  rw [h, List.find?_append, hread]
  rfl

theorem test_append {new : List (Record R)} (h : db'.records = db.records ++ new)
    (htest : db.test testId = .ok r) : db'.test testId = .ok r := by
  simp only [test, bind_ok, pure_ok] at htest ⊢
  obtain ⟨record, hread, u, hkind, rfl⟩ := htest
  exact ⟨record, read_append h hread, u, hkind, rfl⟩

theorem test_ok (h : db.test testId = .ok r) : r ∈ db.records ∧ r.recordId = testId := by
  simp only [test, read, bind_ok, need_ok, pure_ok] at h
  obtain ⟨record, hfind, -, -, rfl⟩ := h
  exact ⟨List.mem_of_find?_eq_some hfind, by simpa using List.find?_some hfind⟩

/-! ## The same log -/

section

variable [DecidableEq V]

theorem projection_congr {db db' : Db R P V} {testId name : String}
    (hevents : db'.events = db.events) (hprojections : db'.projections = db.projections) :
    db'.projection testId name = db.projection testId name := by
  unfold projection latest event
  rw [hevents, hprojections]

theorem status_append {db db' : Db R P V} {testId : String} {s : Status}
    {new : List (Record R)} (hrecords : db'.records = db.records ++ new)
    (hevents : db'.events = db.events) (hprojections : db'.projections = db.projections)
    (hs : db.status testId = .ok s) : db'.status testId = .ok s := by
  rw [status, bind_ok] at hs ⊢
  obtain ⟨r, htest, hs⟩ := hs
  refine ⟨r, test_append hrecords htest, ?_⟩
  rwa [projection_congr hevents hprojections]

end

/-! ## Events -/

theorem latest_mem {name : String} {n : ℕ} (h : db.latest testId name = some n) :
    ∃ e, db.event n = .ok e := by
  have hmem := List.max?_mem h
  obtain ⟨e, he, hn⟩ := List.mem_map.mp hmem
  cases hfind : db.events.find? fun x => x.sequence = n with
  | some x => exact ⟨x, need_ok.mpr hfind⟩
  | none =>
      have := List.find?_eq_none.mp hfind e (List.mem_of_mem_filter he)
      simp [hn] at this

structure Appended (db db' : Db R P V) (event : Event P V) : Prop where
  events : db'.events = db.events ++ [event]
  fresh : ∀ e ∈ db.events, e.sequence < event.sequence
  projections : db'.projections
    = writeAll event.sequence event.testId db.projections event.updates
  records : ∃ new, db'.records = db.records ++ new
  once : (event.updates.map ProjectionUpdate.name).Nodup

namespace Appended

variable {db db' : Db R P V} {event : Event P V}

variable {testId : String}

theorem event_old (h : Appended db db' event) {n : ℕ} {e : Event P V}
    (he : db.event n = .ok e) : db'.event n = .ok e :=
  event_earlier ⟨[event], h.events.symm⟩ he

theorem event_new (h : Appended db db' event) : db'.event event.sequence = .ok event := by
  have hnone : (db.events.find? fun e => e.sequence = event.sequence) = none := by
    refine List.find?_eq_none.mpr fun e he => ?_
    simpa using (h.fresh e he).ne
  simp only [Db.event, need_ok]
  rw [h.events, List.find?_append, hnone]
  simp

variable {name : String}

theorem latest_other (h : Appended db db' event) (hother : writes testId name event = false) :
    db'.latest testId name = db.latest testId name := by
  rw [latest, latest, h.events, List.filter_append]
  simp [hother]

theorem latest_new (h : Appended db db' event) (hwrites : writes testId name event = true) :
    db'.latest testId name = some event.sequence := by
  rw [latest, h.events, List.filter_append, List.map_append,
    List.filter_cons_of_pos hwrites, List.max?_eq_some_iff]
  refine ⟨by simp, fun n hn => ?_⟩
  rcases List.mem_append.mp hn with hn | hn
  · obtain ⟨e, he, rfl⟩ := List.mem_map.mp hn
    exact (h.fresh e (List.mem_of_mem_filter he)).le
  · simp at hn
    exact hn.le

variable [DecidableEq V]

theorem projection_other (h : Appended db db' event)
    (hother : testId ≠ event.testId ∨ name ∉ event.updates.map ProjectionUpdate.name) :
    db'.projection testId name = db.projection testId name := by
  have hwrites : writes testId name event = false := by
    rw [writes, Bool.and_eq_false_iff]
    refine hother.imp (fun ht => beq_eq_false_iff_ne.mpr (Ne.symm ht)) fun hname => ?_
    rw [List.any_eq_false]
    intro u hu hn
    exact hname (List.mem_map.mpr ⟨u, hu, by simpa using hn⟩)
  rw [projection, projection, h.projections, get?_writeAll_other hother,
    h.latest_other hwrites]
  split
  · rfl
  · next row hrow =>
      by_cases hlatest : some row.sequence = db.latest testId name
      · obtain ⟨e, he⟩ := latest_mem hlatest.symm
        rw [h.event_old he, he]
      · have hrefused : ∀ e : Failure,
            refuse (some row.sequence ≠ db.latest testId name) e = .error e := fun e =>
          refuse_error.mpr ⟨hlatest, rfl⟩
        rw [hrefused]
        rfl

theorem projection_new (h : Appended db db' event) {u : ProjectionUpdate V}
    (hu : u ∈ event.updates) :
    db'.projection event.testId u.name = .ok (some ⟨event.sequence, u.value⟩) := by
  have hwrites : writes event.testId u.name event = true := by
    simp only [writes, beq_self_eq_true, Bool.true_and, List.any_eq_true]
    exact ⟨u, hu, by simp⟩
  rw [projection, h.projections, get?_writeAll_self h.once hu, h.latest_new hwrites]
  simp only [bind_ok, refuse_ok, pure_ok, not_or, not_not]
  exact ⟨(), trivial, event, h.event_new, (), ⟨rfl, u, hu, rfl, rfl⟩, trivial⟩

theorem status_other (h : Appended db db' event) {s : Status}
    (hother : testId ≠ event.testId ∨ "status" ∉ event.updates.map ProjectionUpdate.name)
    (hs : db.status testId = .ok s) : db'.status testId = .ok s := by
  obtain ⟨new, hnew⟩ := h.records
  rw [status, bind_ok] at hs ⊢
  obtain ⟨r, htest, hs⟩ := hs
  refine ⟨r, test_append hnew htest, ?_⟩
  rwa [h.projection_other hother]

end Appended

/-! ## Commits -/

def Restrained (guard : Db R P V → Attempt (Db R P V)) : Prop :=
  ∀ db g, guard db = .ok g → g.events = db.events ∧
    g.projections = db.projections ∧ ∃ new, g.records = db.records ++ new

theorem restrained_pure : Restrained (pure : Db R P V → Attempt (Db R P V)) := by
  intro db g hg
  cases pure_ok.mp hg
  exact ⟨rfl, rfl, [], by simp⟩

variable [DecidableEq V] {c : Commit P V} {guard : Db R P V → Attempt (Db R P V)}

theorem Committed.appended {host : Host A} {event : Event P V}
    (h : Committed host c guard db db' event) (hguard : Restrained guard) :
    Appended db db' event := by
  obtain ⟨g, hg, hsequence, hdb'⟩ := h.result
  obtain ⟨hevents, hprojections, hrecords⟩ := hguard db g hg
  have hchecked := h.checked
  simp only [Commit.check, bind_ok, refuse_ok, not_or, not_not] at hchecked
  obtain ⟨-, -, hnodup, -⟩ := hchecked
  refine ⟨by rw [hdb', hevents], fun e he => ?_, ?_, by rwa [hdb'], ?_⟩
  · rw [hsequence, hevents]
    exact lt_nextSequence (List.mem_map_of_mem he)
  · rw [hdb', hprojections, h.identity.1]
  · cases htarget : c.content.transitionTo with
    | none => rwa [updatesOf_plain htarget h.updates]
    | some target =>
        have hupdates := h.updates
        simp only [updatesOf, htarget, bind_ok, pure_ok] at hupdates
        obtain ⟨_, _, _, _, _, _, _, _, heq⟩ := hupdates
        rw [← heq]
        simp

theorem assertLease_live {now : Sim.Instant} {lease : Lease}
    (h : db.assertLease now lease = .ok ()) :
    ∃ s, db.status lease.testId = .ok s ∧ s.terminal = false := by
  simp only [assertLease, bind_ok, refuse_ok, Bool.not_eq_true] at h
  obtain ⟨row, -, -, -, s, hs, -, hlive, -⟩ := h
  exact ⟨s, hs, hlive⟩

theorem updatesOf_transition {target : Status}
    {updates : List (ProjectionUpdate V)} (hc : c.content.transitionTo = some target)
    (h : db.updatesOf c = .ok updates) : ∃ s, db.status c.testId = .ok s ∧ target ∈ s.next := by
  simp only [updatesOf, hc, bind_ok, refuse_ok, not_not] at h
  obtain ⟨s, hs, -, hnext, -⟩ := h
  exact ⟨s, hs, hnext⟩

theorem Committed.terminal {host : Host A} {event : Event P V}
    (h : Committed host c guard db db' event) (hguard : Restrained guard)
    (hstatus : "status" ∉ c.content.updates.map ProjectionUpdate.name) {s : Status}
    (hs : db.status testId = .ok s) (hterminal : s.terminal = true) :
    db'.status testId = .ok s := by
  refine (h.appended hguard).status_other ?_ hs
  cases htarget : c.content.transitionTo with
  | none =>
      rw [updatesOf_plain htarget h.updates]
      exact .inr hstatus
  | some target =>
      refine .inl fun heq => ?_
      obtain ⟨s', hs', hnext⟩ := updatesOf_transition htarget h.updates
      rw [← h.identity.1, ← heq, hs] at hs'
      cases hs'
      rw [Status.next_of_terminal hterminal] at hnext
      cases hnext

end Ahunter.Records.Db
