import Ahunter.Proofs.Reusing
import Ahunter.Records.Rebuild

/-!
# The projections are the replay of the log

A commit reads the revisions that its updates name before it writes, so the log
alone says what every projection holds. Whatever is lost of the rows of a test,
the worker that holds its lease puts back exactly what was there. The log also
answers a commit that is sent again, and closes a test that is over.
-/

namespace Ahunter.Records

open Ahunter.Lib

variable {R P V A : Type} {n : ℕ} {testId : String} {updates : List (ProjectionUpdate V)}
  {result : Dict String (Revision V)} {projections : Dict ProjectionKey (Revision V)}

def replayed (testId : String) (events : List (Event P V)) :
    Attempt (Dict String (Revision V)) :=
  walk (fun result (e : Event P V) => walk (replayUpdate e.sequence) result e.updates) Dict.empty
    (events.filter fun e => e.testId = testId)

namespace Db

theorem walk_replayUpdate (hnodup : (updates.map ProjectionUpdate.name).Nodup)
    (hsame : ∀ name, result.get? name = projections.get? (projectionKey testId name))
    (hcurrent : ∀ u ∈ updates, (result.get? u.name).map Revision.sequence = u.expectedSequence) :
    ∃ result', walk (replayUpdate n) result updates = .ok result' ∧ ∀ name, result'.get? name
        = (writeAll n testId projections updates).get? (projectionKey testId name) := by
  induction updates generalizing result projections with
  | nil => exact ⟨result, rfl, hsame⟩
  | cons u us ih =>
      rw [List.map_cons, List.nodup_cons] at hnodup
      have hsame' : ∀ name, (result.set u.name ⟨n, u.value⟩).get? name
          = (projections.set (projectionKey testId u.name) ⟨n, u.value⟩).get?
            (projectionKey testId name) := by
        intro name
        rcases eq_or_ne name u.name with rfl | hne
        · rw [Dict.get?_set_self, Dict.get?_set_self]
        · rw [Dict.get?_set_of_ne hne, hsame]
          exact (Dict.get?_set_of_ne fun h => hne (projectionKey_inj.mp h).2).symm
      obtain ⟨result', hrest, hall⟩ := ih hnodup.2 hsame' fun x hx => by
        have hne : x.name ≠ u.name := fun h => hnodup.1 (h ▸ List.mem_map_of_mem hx)
        rw [Dict.get?_set_of_ne hne]
        exact hcurrent x (List.mem_cons_of_mem _ hx)
      refine ⟨result', walk_cons_ok.mpr ⟨_, ?_, hrest⟩, hall⟩
      exact bind_ok.mpr ⟨(), refuse_ok.mpr (not_not.mpr (hcurrent u List.mem_cons_self)), rfl⟩

variable {db db' : Db R P V} [DecidableEq V]

structure Replays (db : Db R P V) : Prop where
  ordered : db.events.Pairwise fun e f => e.sequence < f.sequence
  replays : ∀ testId, ∃ result, replayed testId db.events = .ok result ∧
    ∀ name, result.get? name = db.projections.get? (projectionKey testId name)
  readable : ∀ testId name, db.projection testId name
    = .ok (db.projections.get? (projectionKey testId name))

theorem Replays.of_eq (h : Replays db) (hevents : db'.events = db.events)
    (hprojections : db'.projections = db.projections) : Replays db' where
  ordered := by rw [hevents]; exact h.ordered
  replays := by rw [hevents, hprojections]; exact h.replays
  readable testId name := by
    rw [projection_congr hevents hprojections, hprojections]
    exact h.readable testId name

theorem Replays.appended {event : Event P V} (h : Replays db) (ha : Appended db db' event)
    (hcurrent : db.revisionsCurrent event.testId event.updates = .ok ()) : Replays db' where
  ordered := by
    rw [ha.events, List.pairwise_append]
    exact ⟨h.ordered, List.pairwise_singleton _ _, fun e he f hf => by
      rw [List.mem_singleton.mp hf]
      exact ha.fresh e he⟩
  replays testId := by
    obtain ⟨result, hresult, hsame⟩ := h.replays testId
    rw [replayed, ha.events, List.filter_append, walk_append]
    by_cases htest : event.testId = testId
    · subst htest
      obtain ⟨result', hwalk, hall⟩ := walk_replayUpdate (n := event.sequence) ha.once hsame
        fun u hu => by
          obtain ⟨current, hread, hexpected⟩ := revisionsCurrent_mem hcurrent hu
          rw [h.readable, Except.ok.injEq] at hread
          rw [hsame, hread, hexpected]
      refine ⟨result', bind_ok.mpr ⟨result, hresult, ?_⟩, fun name => ?_⟩
      · rw [List.filter_cons_of_pos (by simp)]
        exact walk_cons_ok.mpr ⟨result', hwalk, rfl⟩
      · rw [hall, ha.projections]
    · refine ⟨result, bind_ok.mpr ⟨result, hresult, ?_⟩, fun name => ?_⟩
      · rw [List.filter_cons_of_neg (by simpa using htest)]
        rfl
      · rw [hsame, ha.projections, get?_writeAll_other (.inl (Ne.symm htest))]
  readable testId name := by
    by_cases hother : testId ≠ event.testId ∨ name ∉ event.updates.map ProjectionUpdate.name
    · rw [ha.projection_other hother, ha.projections, get?_writeAll_other hother]
      exact h.readable testId name
    · rw [not_or, not_not, not_not] at hother
      obtain ⟨rfl, hname⟩ := hother
      obtain ⟨u, hu, rfl⟩ := List.mem_map.mp hname
      rw [ha.projection_new hu, ha.projections, get?_writeAll_self ha.once hu]

theorem Replays.replay (h : Replays db) {r : Record R} (htest : db.test testId = .ok r) :
    db.replay testId = replayed testId db.events := by
  have hsorted : ((db.events.filter fun e => e.testId = testId).map Event.sequence).Pairwise
      (· ≤ ·) := by
    rw [List.pairwise_map]
    exact (h.ordered.sublist List.filter_sublist).imp fun hlt => hlt.le
  have hfound : ∀ e ∈ db.events, db.event e.sequence = .ok e := by
    intro e he
    obtain ⟨l, r, hsplit⟩ := List.append_of_mem he
    have hordered := h.ordered
    rw [hsplit, List.pairwise_append] at hordered
    rw [Db.event, need_ok, hsplit, List.find?_append, List.find?_eq_none.mpr fun f hf => by
      simpa using (hordered.2.2 f hf e List.mem_cons_self).ne]
    simp
  rw [Db.replay, htest]
  show walk _ _ _ = _
  rw [hsorted.insertionSort_eq, replayed]
  have hevents : ∀ e ∈ db.events.filter fun e => e.testId = testId, e ∈ db.events :=
    fun e he => List.mem_of_mem_filter he
  generalize db.events.filter (fun e => decide (e.testId = testId)) = l at hevents
  generalize (Dict.empty : Dict String (Revision V)) = result
  induction l generalizing result with
  | nil => rfl
  | cons e l ih =>
      have hstep : db.replayEvent result e.sequence
          = walk (replayUpdate e.sequence) result e.updates := by
        rw [replayEvent, hfound e (hevents e List.mem_cons_self)]
        rfl
      rw [List.map_cons, walk, walk, hstep]
      exact congrArg _ (funext fun c => ih (fun f hf => hevents f (List.mem_cons_of_mem _ hf)) c)

/-! ## Rebuilding -/

omit [DecidableEq V]

def restoredWork (testId : String) (result : Dict String (Revision V))
    (work : Dict String WorkRow) : Dict String WorkRow :=
  result.entries.foldl (fun work e => requeue testId work ⟨e.1, none, e.2.value⟩) work

theorem foldl_restore (entries : List (String × Revision V)) :
    entries.foldl (fun db e => project e.2.sequence testId db ⟨e.1, none, e.2.value⟩) db = { db with
      projections := db.projections.setAll (entries.map fun e => (projectionKey testId e.1, e.2))
      work := entries.foldl (fun work e => requeue testId work ⟨e.1, none, e.2.value⟩)
        db.work } := by
  induction entries generalizing db with
  | nil => rfl
  | cons e es ih =>
      rw [List.foldl_cons, ih]
      rfl

theorem restore_rows {damaged : Dict ProjectionKey (Revision V)}
    (hsame : ∀ name, result.get? name = projections.get? (projectionKey testId name))
    (hothers : ∀ t name, t ≠ testId →
      damaged.get? (projectionKey t name) = projections.get? (projectionKey t name)) :
    (damaged.filter fun key _ => (ofLex key).1 ≠ testId).setAll
      (result.entries.map fun e => (projectionKey testId e.1, e.2)) = projections := by
  have hkeys : (result.entries.map fun e => (projectionKey testId e.1, e.2)).map Prod.fst
      = result.keys.map (projectionKey testId) := by
    rw [List.map_map, Dict.keys, List.map_map]
    rfl
  refine Dict.ext_get? fun key => ?_
  obtain ⟨⟨t, name⟩, rfl⟩ := toLex.surjective key
  change Dict.get? _ (projectionKey t name) = projections.get? (projectionKey t name)
  rcases eq_or_ne t testId with rfl | hne
  · rw [← hsame]
    cases hname : result.get? name with
    | some revision =>
        refine Dict.get?_setAll_of_mem ?_ (List.mem_map.mpr
          ⟨(name, revision), Dict.mem_entries.mpr hname, rfl⟩)
        rw [hkeys]
        exact result.keys_nodup.map fun a b heq => (projectionKey_inj.mp heq).2
    | none =>
        rw [Dict.get?_setAll_of_notMem, Dict.get?_filter]
        · exact Option.filter_eq_none_iff.mpr fun _ _ => by simp [projectionKey]
        · rw [hkeys]
          intro hmem
          obtain ⟨k, hk, heq⟩ := List.mem_map.mp hmem
          obtain rfl := (projectionKey_inj.mp heq).2
          obtain ⟨revision, hrevision⟩ := Dict.mem_keys.mp hk
          cases hname.symm.trans hrevision
  · rw [Dict.get?_setAll_of_notMem, Dict.get?_filter, hothers t name hne]
    · cases projections.get? (projectionKey t name) with
      | none => rfl
      | some revision => simp [projectionKey, hne]
    · rw [hkeys]
      intro hmem
      obtain ⟨k, -, heq⟩ := List.mem_map.mp hmem
      exact hne (projectionKey_inj.mp heq).1.symm

theorem requeue_idle {work : Dict String WorkRow} {u : ProjectionUpdate V}
    (h : ∀ s reason, u.name = "status" → u.value = .status s reason → s.terminal = false) :
    requeue testId work u = work := by
  unfold requeue
  split
  · next s reason row hname hvalue hrow =>
      rw [h s reason hname hvalue]
      exact Dict.set_get?_self hrow
  · rfl

theorem restoredWork_idle {work : Dict String WorkRow}
    (h : ∀ revision, result.get? "status" = some revision → ∀ s reason,
      revision.value = .status s reason → s.terminal = false) :
    restoredWork testId result work = work := by
  have hentries : ∀ e ∈ result.entries, result.get? e.1 = some e.2 := fun e he =>
    Dict.mem_entries.mp he
  rw [restoredWork]
  generalize result.entries = l at hentries
  induction l with
  | nil => rfl
  | cons e l ih =>
      rw [List.foldl_cons, requeue_idle fun s reason hname hvalue => ?_]
      · exact ih fun x hx => hentries x (List.mem_cons_of_mem _ hx)
      · exact h e.2 (hname ▸ hentries e List.mem_cons_self) s reason hvalue

/-- A rebuild of a test whose log replays to `projections` puts them back. -/
theorem rebuild_ok {host : Host A} {lease : Lease} {row : LeaseRow}
    (hhost : ∀ point, host.faults point = false) (hrow : db.leases.get? lease.testId = some row)
    (hheld : row.workerId = lease.workerId ∧ row.generation = lease.generation)
    (hlive : host.now < row.expiresAt) (hreplay : db.replay lease.testId = .ok result)
    (hsame : ∀ name, result.get? name = projections.get? (projectionKey lease.testId name))
    (hothers : ∀ t name, t ≠ lease.testId →
      db.projections.get? (projectionKey t name) = projections.get? (projectionKey t name)) :
    db.rebuild host lease = (.ok result, { db with
      projections := projections, work := restoredWork lease.testId result db.work }) := by
  have hbody : rebuildBody host lease db = .ok (result, { db with
      projections := projections, work := restoredWork lease.testId result db.work }) := by
    refine bind_ok.mpr ⟨row, need_ok.mpr hrow, bind_ok.mpr ⟨(), refuse_ok.mpr ?_,
      bind_ok.mpr ⟨result, hreplay, ?_⟩⟩⟩
    · rw [not_or, not_or, not_not, not_not, not_le]
      exact ⟨hheld.1, hheld.2, hlive⟩
    · rw [← restore_rows hsame hothers]
      exact congrArg (fun left => Except.ok (result, left)) (foldl_restore result.entries)
  have hfault : ∀ point, host.fault point = .ok () := fun point => by
    rw [Host.fault, refuse_ok, hhost]
    exact Bool.false_ne_true
  rw [rebuild, transaction, hbody]
  dsimp only
  rw [hfault, hfault]

/-! ## Committing again -/

theorem transaction_result {α : Type} (host : Host A) (body : Body.Run R P V α) (db : Db R P V) :
    (∃ e, transaction host body db = (.error e, db)) ∨
      ∃ a db', body db = .ok (a, db') ∧ (transaction host body db).2 = db' ∧
        ((transaction host body db).1 = .ok a ∨ host.faults .afterCommit = true) := by
  unfold transaction
  split
  · next e hbody => exact .inl ⟨e, rfl⟩
  · next a db' hbody =>
      split
      · next e hbefore => exact .inl ⟨e, rfl⟩
      · split
        · next e hafter => exact .inr ⟨a, db', hbody, rfl, .inr (refuse_error.mp hafter).1⟩
        · exact .inr ⟨a, db', hbody, rfl, .inl rfl⟩

variable [DecidableEq P] [DecidableEq V]

theorem commit_again (host : Host A) {c : Commit P V} (guard : Db R P V → Attempt (Db R P V))
    {event : Event P V} {r : Record R} (htest : db.test c.testId = .ok r)
    (hprior : db.prior c.testId c.phaseId c.actionId c.attempt = some event) :
    (db.commit host c guard).2 = db ∧
      (event.content = c.content → c.check = .ok () → c.content.transitionTo = none →
        "status" ∉ c.content.updates.map ProjectionUpdate.name →
        (∀ point, host.faults point = false) → (db.commit host c guard).1 = .ok event) ∧
      (event.content ≠ c.content → ∃ e, (db.commit host c guard).1 = .error e) := by
  have hbody : commitBody host c guard db = (refuse (event.content ≠ c.content)
      (conflict "event identity has different content") >>= fun _ => pure (event, db)) := by
    unfold commitBody
    rw [htest]
    simp only [bind, Except.bind, hprior]
  unfold Db.commit
  split
  · next hstatus =>
      refine ⟨rfl, fun _ _ hplain hnames _ => ?_, fun _ => ⟨_, rfl⟩⟩
      rcases hstatus with hin | hsome
      · exact absurd hin hnames
      · rw [hplain] at hsome
        cases hsome
  · unfold commitWith
    split
    · next e hcheck =>
        refine ⟨rfl, fun _ hok => ?_, fun _ => ⟨e, rfl⟩⟩
        rw [hcheck] at hok
        cases hok
    · by_cases hsame : event.content = c.content
      · have hok : commitBody host c guard db = .ok (event, db) := by
          rw [hbody]
          exact bind_ok.mpr ⟨(), refuse_ok.mpr (not_not.mpr hsame), rfl⟩
        refine ⟨?_, fun _ _ _ _ hhost => ?_, fun hne => absurd hsame hne⟩
        · rcases transaction_result host (commitBody host c guard) db with
            ⟨e, h⟩ | ⟨a, db', h, hleft, -⟩
          · rw [h]
          · rw [hok] at h
            cases h
            exact hleft
        · have hfault : ∀ point, host.fault point = .ok () := fun point => by
            rw [Host.fault, refuse_ok, hhost]
            exact Bool.false_ne_true
          rw [transaction, hok]
          dsimp only
          rw [hfault, hfault]
      · have herror : commitBody host c guard db
            = .error (conflict "event identity has different content") := by
          rw [hbody]
          exact bind_error.mpr (.inl (refuse_error.mpr ⟨hsame, rfl⟩))
        rw [transaction, herror]
        exact ⟨rfl, fun h => absurd h hsame, fun _ => ⟨_, rfl⟩⟩

end Db

end Ahunter.Records

namespace Ahunter.Trials

open Ahunter.Lib Ahunter.Records

variable {X P V : Type} {g : Hashes X} {db : TrialDb X P V}

theorem Grown.events {t : TrialDb X P V} (h : Grown g db t) :
    ∃ new, t.events = db.events ++ new := by
  refine h.keeps (Q := fun t => ∃ new, t.events = db.events ++ new)
    (fun hchange hq => ?_) ⟨[], by simp⟩
  obtain ⟨new, hnew⟩ := hq
  cases hchange with
  | same _ hevents => exact ⟨new, hevents.trans hnew⟩
  | add _ _ hevents => exact ⟨new, hevents.trans hnew⟩
  | @event _ _ _ _ e hc =>
      refine ⟨new ++ [e], ?_⟩
      rw [(hc.appended Db.restrained_pure).events, hnew, List.append_assoc]

variable [DecidableEq X] [DecidableEq P] [d : DecidableEq V]

theorem Reached.replays (hdb : Reached g db) : Db.Replays db := by
  obtain ⟨experiments, hlater⟩ := hdb
  refine hlater.grown.keeps (fun hchange hq => ?_) ⟨List.Pairwise.nil,
    fun testId => ⟨Dict.empty, rfl, fun name => rfl⟩, fun testId name => rfl⟩
  cases hchange with
  | same _ hevents hprojections => exact hq.of_eq hevents hprojections
  | add _ _ hevents hprojections => exact hq.of_eq hevents hprojections
  | @event inst _ _ _ _ hc =>
      obtain rfl : inst = d := Subsingleton.elim _ _
      refine hq.appended (hc.appended Db.restrained_pure) ?_
      rw [hc.identity.1]
      exact hc.current

/-- Replaying the log of a test gives every projection of it, as it is read. -/
theorem replay_projects (hdb : Reached g db) {testId : String} {r : TrialRecord X}
    (htest : db.test testId = .ok r) :
    ∃ result, db.replay testId = .ok result ∧
      ∀ name, db.projection testId name = .ok (result.get? name) := by
  obtain ⟨result, hresult, hsame⟩ := hdb.replays.replays testId
  refine ⟨result, (hdb.replays.replay htest).trans hresult, fun name => ?_⟩
  rw [hdb.replays.readable, hsame]

/-- Whatever the rows of a test have become, the holder of its lease rebuilds
them as they were and touches nothing else, but for the queue when the test is
over. -/
theorem rebuild_restores (hdb : Reached g db) (host : TrialHost X) (lease : Lease)
    (damaged : Dict ProjectionKey (Revision V)) {row : LeaseRow}
    (hhost : ∀ point, host.faults point = false) {r : TrialRecord X}
    (htest : db.test lease.testId = .ok r) (hrow : db.leases.get? lease.testId = some row)
    (hheld : row.workerId = lease.workerId ∧ row.generation = lease.generation)
    (hlive : host.now < row.expiresAt)
    (hothers : ∀ t name, t ≠ lease.testId →
      damaged.get? (projectionKey t name) = db.projections.get? (projectionKey t name)) :
    ∃ result work, Db.rebuild host lease { db with projections := damaged }
        = (.ok result, { db with work := work }) ∧
      (∀ name, db.projection lease.testId name = .ok (result.get? name)) ∧
      (∀ s, db.status lease.testId = .ok s → s.terminal = false → work = db.work) := by
  obtain ⟨result, hresult, hsame⟩ := hdb.replays.replays lease.testId
  have hreplay : Db.replay { db with projections := damaged } lease.testId = .ok result :=
    (hdb.replays.replay htest).trans hresult
  refine ⟨result, _, Db.rebuild_ok hhost hrow hheld hlive hreplay hsame hothers, fun name => ?_,
    fun s hs hopen => Db.restoredWork_idle fun revision hrevision s' reason hvalue => ?_⟩
  · rw [hdb.replays.readable, hsame]
  · obtain ⟨_, -, hs⟩ := bind_ok.mp hs
    rw [hdb.replays.readable, ← hsame, hrevision] at hs
    obtain ⟨sequence, value⟩ := revision
    obtain rfl : value = .status s' reason := hvalue
    cases hs
    exact hopen

/-- A commit that does not leave the store as it was has answered for good: in
whatever the store becomes, the same commit yields its event, another one under
its identity is refused, and neither writes anything. It raises only by a
failure after the commit, which sending it again repairs. -/
theorem commit_answers_for_good (host : TrialHost X) (c : Commit P V) :
    (Db.commit host c pure db).2 = db ∨ ∃ event, event.content = c.content ∧
      ((Db.commit host c pure db).1 = .ok event ∨ host.faults .afterCommit = true) ∧
      ∀ t, Later g (Db.commit host c pure db).2 t → ∀ (host' : TrialHost X) (c' : Commit P V),
        c'.testId = c.testId → c'.phaseId = c.phaseId → c'.actionId = c.actionId →
        c'.attempt = c.attempt →
        (Db.commit host' c' pure t).2 = t ∧
          (c'.content = c.content → (∀ point, host'.faults point = false) →
            (Db.commit host' c' pure t).1 = .ok event) ∧
          (c'.content ≠ c.content → ∃ e, (Db.commit host' c' pure t).1 = .error e) := by
  rcases Db.commit_cases host c pure db with hsame | ⟨hnames, hplain, -⟩
  · exact .inl hsame
  have hwith : Db.commit host c pure db = Db.commitWith host c pure db :=
    if_neg (by rw [hplain]; exact not_or.mpr ⟨hnames, Bool.false_ne_true⟩)
  rw [hwith, Db.commitWith]
  split
  · exact .inl rfl
  next hcheck =>
  rcases Db.transaction_result host (Db.commitBody host c pure) db with
    ⟨e, h⟩ | ⟨event, db', hbody, hleft, hone⟩
  · exact .inl (congrArg Prod.snd h)
  rcases Db.commitBody_cases hcheck hbody with ⟨rfl, -⟩ | hc
  · exact .inl hleft
  refine .inr ⟨event, hc.content, hone, fun t hlater host' c' htest hphase haction hattempt => ?_⟩
  rw [hleft] at hlater
  obtain ⟨record, hrecord, -⟩ := bind_ok.mp hbody
  obtain ⟨new, hnew⟩ := hlater.grown.within
  obtain ⟨later, hevents⟩ := hlater.grown.events
  have happended := hc.appended Db.restrained_pure
  have hprior : t.prior c'.testId c'.phaseId c'.actionId c'.attempt = some event := by
    have habsent := hc.absent
    obtain ⟨h1, h2, h3, h4⟩ := hc.identity
    rw [Db.prior] at habsent ⊢
    rw [hevents, happended.events, List.append_assoc, List.find?_append, htest, hphase, haction,
      hattempt, habsent]
    simp [h1, h2, h3, h4]
  have hfound : t.test c'.testId = .ok record := by
    rw [htest]
    exact Db.test_append (hnew.trans (by rw [committed_records hc])) hrecord
  obtain ⟨hkept, hyields, hraises⟩ := Db.commit_again host' pure hfound hprior
  refine ⟨hkept, fun hcontent hhost => hyields (hc.content.trans hcontent.symm) ?_ ?_ ?_ hhost,
    fun hne => hraises fun heq => hne (heq.symm.trans hc.content)⟩
  · rw [← hcheck, Commit.check, Commit.check, hcontent, haction]
  · rw [hcontent, hplain]
  · rwa [hcontent]

/-! ## Tests that are over -/

/-- A test that is over keeps its status and its events in whatever the store
becomes, and nobody writes to it, with a lease or without one. -/
theorem finished_test_closed {t : TrialDb X P V} (hlater : Later g db t) {testId : String}
    {s : Status} (hs : db.status testId = .ok s) (hterminal : s.terminal = true) :
    t.status testId = .ok s ∧
      (t.events.filter fun e => e.testId = testId)
        = (db.events.filter fun e => e.testId = testId) ∧
      (∀ (host : TrialHost X) (c : Commit P V), c.testId = testId →
        (Db.commit host c pure t).2 = t) ∧
      ∀ (host : TrialHost X) target actionId lease reason,
        (Db.transition host testId target actionId lease reason t).2 = t := by
  obtain ⟨hstatus, hevents⟩ := hlater.grown.over hs hterminal
  have hclosed : ∀ (host : TrialHost X) (c : Commit P V) (u : TrialDb X P V) (e : Event P V),
      c.testId = testId → ¬ Db.Committed host c pure t u e := by
    rintro host c u e rfl hc
    obtain ⟨s', hs', hlive⟩ := writable_live hc.writable
    cases hstatus.symm.trans hs'
    rw [hterminal] at hlive
    cases hlive
  refine ⟨hstatus, hevents, fun host c hc => ?_, fun host target actionId lease reason => ?_⟩
  · rcases Db.commit_cases host c pure t with hsame | ⟨-, -, e, hcommitted⟩
    · exact hsame
    · exact absurd hcommitted (hclosed host c _ e hc)
  · rcases Db.commitWith_cases host _ pure t with hsame | ⟨e, hcommitted⟩
    · exact hsame
    · exact absurd hcommitted (hclosed host _ _ e rfl)

/-! ## The graph of records -/

def Linked (db : TrialDb X P V) (source target : TrialRecord X) : Prop :=
  source ∈ db.records ∧ target ∈ db.records ∧ ∃ l ∈ source.links, l.targetId = target.recordId

theorem Reached.linked_before (hdb : Reached g db) {r s : TrialRecord X} (h : Linked db r s) :
    s.sequence < r.sequence := by
  obtain ⟨hr, hs, l, hl, htarget⟩ := h
  obtain ⟨n, hn⟩ := List.mem_iff_getElem?.mp hr
  obtain ⟨u, hu, hadmitted⟩ := hdb.lawful.admitted n r hn
  obtain ⟨s', hs', -⟩ := hadmitted.linked l hl
  obtain ⟨m, -, -, hat⟩ := Lawful.before hu hs'
  obtain rfl := hdb.lawful.unique hat.1 hs (hat.2.trans htarget)
  exact hadmitted.later _ hs'.1

/-- Every link of a record can be followed within its experiment, and no chain
of links comes back to where it started. -/
theorem links_acyclic (hdb : Reached g db) :
    (∀ r ∈ db.records, ∀ l ∈ r.links, ∃ s, db.read l.targetId = .ok s ∧
      s.experimentId = r.experimentId ∧ Linked db r s) ∧
    ∀ r, ¬ Relation.TransGen (Linked db) r r := by
  constructor
  · intro r hr l hl
    obtain ⟨s, hs, hexperiment⟩ := hdb.lawful.linked hr hl
    exact ⟨s, hdb.lawful.read hs, hexperiment, hr, hs.1, l, hl, hs.2.symm⟩
  · intro r hcycle
    have hback : ∀ {a b : TrialRecord X}, Relation.TransGen (Linked db) a b →
        b.sequence < a.sequence := by
      intro a b h
      induction h with
      | single h => exact hdb.linked_before h
      | tail _ h ih => exact (hdb.linked_before h).trans ih
    exact lt_irrefl _ (hback hcycle)

/-! ## A claimed test -/

def queuedSample : TrialDb Unit Unit Unit :=
  let db := (Db.transition sampleTrialHost "e/test/1" .preflight "preflight" none none
    (sampleRegistered true)).2
  (Db.transition sampleTrialHost "e/test/1" .queued "queued" none none db).2

def claimedSample : TrialDb Unit Unit Unit :=
  (Db.claim sampleTrialHost "e/test/1" "w" 60 (some pure) false queuedSample).2

theorem claimedSample_reached : Reached sampleHashes claimedSample := by
  obtain ⟨experiments, h⟩ := sampleRegistered_reached true
  exact ⟨experiments, .next (.next (.next h (.transition _ _ _ _ _ _ _))
    (.transition _ _ _ _ _ _ _)) (.claim _ _ _ _ _ _)⟩

theorem claimedSample_test : ∃ r, claimedSample.test "e/test/1" = .ok r :=
  isOk_iff.mp (by decide +kernel)

theorem replay_projects_sample : ∃ result, claimedSample.replay "e/test/1" = .ok result ∧
    ∀ name, claimedSample.projection "e/test/1" name = .ok (result.get? name) := by
  obtain ⟨r, htest⟩ := claimedSample_test
  exact replay_projects claimedSample_reached htest

theorem links_acyclic_sample : (∃ r ∈ (sampleRun true).records, r.links ≠ []) ∧
    ∀ r, ¬ Relation.TransGen (Linked (sampleRun true)) r r :=
  ⟨by decide +kernel, (links_acyclic (sampleRun_reached true)).2⟩

theorem finished_test_closed_sample :
    (sampleRun true).status "e/test/1" = .ok .completed ∧
    ∀ (c : Commit Unit Unit), c.testId = "e/test/1" →
      (Db.commit sampleTrialHost c pure (sampleRun true)).2 = sampleRun true := by
  have hs : (sampleRun true).status "e/test/1" = .ok .completed := by decide +kernel
  exact ⟨hs, fun c hc => (finished_test_closed (.here : Later sampleHashes _ _) hs rfl).2.2.1
    sampleTrialHost c hc⟩

/-- The worker that has claimed the test rebuilds it when all its rows are
lost. -/
theorem rebuild_restores_sample : ∃ result,
    Db.rebuild sampleTrialHost ⟨"e/test/1", "w", 1⟩ { claimedSample with
      projections := claimedSample.projections.filter fun key _ => (ofLex key).1 ≠ "e/test/1" }
      = (.ok result, claimedSample) := by
  obtain ⟨r, htest⟩ := claimedSample_test
  have hrow : claimedSample.leases.get? "e/test/1"
      = some ⟨"w", 1, Db.leaseEnd sampleTrialHost.now 60⟩ := by decide +kernel
  obtain ⟨result, work, hrebuild, -, hwork⟩ := rebuild_restores claimedSample_reached
    sampleTrialHost ⟨"e/test/1", "w", 1⟩
    (claimedSample.projections.filter fun key _ => (ofLex key).1 ≠ "e/test/1")
    (fun _ => rfl) htest hrow ⟨rfl, rfl⟩ (by decide +kernel) fun t name hne => by
      rw [Dict.get?_filter]
      cases claimedSample.projections.get? (projectionKey t name) with
      | none => rfl
      | some revision => simp [projectionKey, hne]
  refine ⟨result, ?_⟩
  rw [hrebuild, hwork .queued (by decide +kernel) rfl]

end Ahunter.Trials
