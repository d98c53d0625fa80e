import Ahunter.Proofs.CollectorCounters
import Ahunter.Proofs.StoredReadable

/-!
# What a passed feed leaves out

A feed is passed on what the tables say of its window. Of a frame that could
not be decoded they say so only in the bucket of its hour, and only once the
failure is committed; of a frame that the queue had no room for they count it
under a kind that a feed does not read.

So a passed feed has every stored event of its window, and it is complete
exactly if the losses in the window are such as it sees: failed frames, not
dropped ones, whose hour begins in the window and whose failure is committed.
-/

namespace Ahunter.Mx

open Ahunter.Lib

variable {rt : Runtime} {affinity : String → Cell}

/-! ## Failures that are stored -/

def failureKey (payloadHash errorClass : String) (at_ : ℕ) : FailureKey :=
  toLex (payloadHash, toLex (errorClass, bucketStart at_))

def Store.Failed (store : Store) (key : FailureKey) : Prop :=
  ∃ n, store.decodeFailures.get? key = some n ∧ 0 < n

variable {store : Store} {key : FailureKey}

theorem failed_recordDecodeFailure {payloadHash errorClass : String} {at_ : ℕ}
    (h : store.Failed key ∨ key = failureKey payloadHash errorClass at_) :
    (store.recordDecodeFailure payloadHash errorClass at_).Failed key := by
  by_cases hkey : key = failureKey payloadHash errorClass at_
  · exact ⟨_, by rw [hkey]; exact Dict.get?_set_self _ _ _, Nat.succ_pos _⟩
  · obtain ⟨n, hn, hpos⟩ := h.resolve_right hkey
    exact ⟨n, (Dict.get?_set_of_ne hkey).trans hn, hpos⟩

theorem failed_of_same {store store' : Store}
    (hsame : store'.decodeFailures = store.decodeFailures) (h : store.Failed key) :
    store'.Failed key := by
  rw [Store.Failed, hsame]
  exact h

theorem commit_failed {write : Write} {store store' : Store} {runId : String} {more : List Write}
    (h : write.commit rt affinity runId store = .ok (store', more))
    (hkey : store.Failed key ∨ ∃ payloadHash errorClass at_,
      write = .decodeFailure payloadHash errorClass at_ ∧
        key = failureKey payloadHash errorClass at_) : store'.Failed key := by
  cases write with
  | decodeFailure payloadHash errorClass at_ =>
      cases h
      refine failed_recordDecodeFailure (hkey.imp_right ?_)
      rintro ⟨_, _, _, heq, rfl⟩
      cases heq
      rfl
  | insertEvent event =>
      obtain ⟨⟨inner, inserted⟩, hinsert, h⟩ := bind_ok.mp h
      cases h
      have hold := hkey.resolve_right (by rintro ⟨_, _, _, heq, -⟩; cases heq)
      obtain ⟨cell, -, hinsert⟩ := bind_ok.mp hinsert
      dsimp only at hinsert
      split at hinsert <;> cases hinsert <;> exact hold
  | count kind at_ =>
      cases h
      exact hkey.resolve_right (by rintro ⟨_, _, _, heq, -⟩; cases heq)
  | completeMediaJob eventId rid downloadedAt media =>
      obtain ⟨inner, hcomplete, h⟩ := bind_ok.mp h
      cases h
      have hold := hkey.resolve_right (by rintro ⟨_, _, _, heq, -⟩; cases heq)
      simp only [Store.completeMediaJob, Store.insertMedia, bind_ok, need_ok, refuse_ok,
        pure_ok] at hcomplete
      obtain ⟨inner, ⟨row, -, -, -, rfl⟩, job, -, rfl⟩ := hcomplete
      exact hold
  | failMediaJob eventId urlHash attempts nextAttemptAt =>
      cases h
      refine failed_of_same ?_ (hkey.resolve_right (by rintro ⟨_, _, _, heq, -⟩; cases heq))
      rw [Store.failMediaJob]
      split <;> rfl
  | purgeExpiredPayloads now =>
      cases h
      exact hkey.resolve_right (by rintro ⟨_, _, _, heq, -⟩; cases heq)

/-! ## Histories -/

def Listener.commits (rt : Runtime) (affinity : String → Cell) (l : Listener) :
    Action → Option Write
  | .commit => l.todo.head?.bind fun write =>
      match write.commit rt affinity l.runId l.store with
      | .ok _ => some write
      | .error _ => none
  | _ => none

def Listener.committed (rt : Runtime) (affinity : String → Cell) (l : Listener) :
    List Action → List Write
  | [] => []
  | action :: actions => (l.commits rt affinity action).toList ++
      match l.step rt affinity action with
      | some l' => l'.committed rt affinity actions
      | none => []

theorem step_failed {l l' : Listener} {action : Action} (h : l.step rt affinity action = some l')
    (hkey : l.store.Failed key ∨ ∃ payloadHash errorClass at_,
      l.commits rt affinity action = some (.decodeFailure payloadHash errorClass at_) ∧
        key = failureKey payloadHash errorClass at_) : l'.store.Failed key := by
  cases action with
  | turn turn =>
      have hold := hkey.resolve_right (by rintro ⟨_, _, _, heq, -⟩; cases heq)
      rw [Listener.step] at h
      split at h
      · cases h
        exact hold
      · cases h
  | crash runId =>
      have hold := hkey.resolve_right (by rintro ⟨_, _, _, heq, -⟩; cases heq)
      cases h
      exact hold
  | commit =>
      rw [Listener.step] at h
      rw [Listener.commits] at hkey
      split at h
      · cases h
      · next write todo htodo =>
          rw [htodo, List.head?_cons, Option.bind_some] at hkey
          split at h
          · next store more hcommit =>
              cases h
              rw [hcommit] at hkey
              refine commit_failed hcommit (hkey.imp_right ?_)
              rintro ⟨payloadHash, errorClass, at_, heq, rfl⟩
              exact ⟨payloadHash, errorClass, at_, Option.some.inj heq, rfl⟩
          · next error hcommit =>
              cases h
              rw [hcommit] at hkey
              exact hkey.resolve_right (by rintro ⟨_, _, _, heq, -⟩; cases heq)

theorem run_failed {l l' : Listener} {actions : List Action}
    (h : l.run rt affinity actions = some l')
    (hkey : l.store.Failed key ∨ ∃ payloadHash errorClass at_,
      .decodeFailure payloadHash errorClass at_ ∈ l.committed rt affinity actions ∧
        key = failureKey payloadHash errorClass at_) : l'.store.Failed key := by
  induction actions generalizing l with
  | nil =>
      cases h
      exact hkey.resolve_right (by rintro ⟨_, _, _, hmem, -⟩; cases hmem)
  | cons action actions ih =>
      rw [Listener.run] at h
      obtain ⟨next, hstep, hrun⟩ := Option.bind_eq_some_iff.mp h
      refine ih hrun ?_
      rcases hkey with hold | ⟨payloadHash, errorClass, at_, hmem, rfl⟩
      · exact .inl (step_failed hstep (.inl hold))
      · rw [Listener.committed, hstep, List.mem_append] at hmem
        rcases hmem with hfirst | hrest
        · exact .inl (step_failed hstep
            (.inr ⟨payloadHash, errorClass, at_, Option.mem_toList.mp hfirst, rfl⟩))
        · exact .inr ⟨payloadHash, errorClass, at_, hrest, rfl⟩

def Action.FailedFrame (rt : Runtime) (payloadHash errorClass : String) (at_ : ℕ) : Action → Prop
  | .turn (.frame allowedRids payloadData receivedAt) => receivedAt = at_ ∧
      roomPrefix.isPrefixOf payloadData = true ∧
      classifyFrame rt allowedRids payloadData receivedAt = .failed payloadHash errorClass
  | _ => False

def Action.LostAt (rt : Runtime) (at_ : ℕ) (action : Action) : Prop :=
  action = .turn (.overflow at_) ∨
    ∃ payloadHash errorClass, action.FailedFrame rt payloadHash errorClass at_

/-! ## Feeds -/

variable {endAt : ℕ}

structure CompleteFeed (rt : Runtime) (actions : List Action) (store : Store) (rid : ℤ)
    (startAt endAt : ℕ) (items : List FeedItem) : Prop where
  lossless : ∀ action ∈ actions, ∀ at_, within startAt endAt at_ = true → ¬ action.LostAt rt at_
  once : (items.map FeedItem.eventId).Nodup
  listed : ∀ eventId, .event eventId ∈ items.map FeedItem.eventId ↔
    ∃ row, store.events.get? eventId = some row ∧ row.rid = rid ∧
      within startAt endAt row.receivedAt = true
  created : ∀ eventId row, store.events.get? eventId = some row → row.rid = rid →
    within startAt endAt row.receivedAt = true → row.sourceCreatedAt.after endAt = false
  finished : ∀ eventId row, store.events.get? eventId = some row → row.rid = rid →
    within startAt endAt row.receivedAt = true → pendingCount store eventId = 0

structure LossesSeen (rt : Runtime) (actions : List Action) (committed : List Write)
    (startAt endAt : ℕ) : Prop where
  queue : ∀ at_, .turn (.overflow at_) ∈ actions → within startAt endAt at_ = false
  decode : ∀ action ∈ actions, ∀ payloadHash errorClass at_,
    action.FailedFrame rt payloadHash errorClass at_ → within startAt endAt at_ = true →
      startAt < bucketStart at_ ∧ .decodeFailure payloadHash errorClass at_ ∈ committed

theorem bucketStart_le (at_ : ℕ) : bucketStart at_ ≤ at_ := Nat.div_mul_le_self at_ hourMs

variable {e : String × EventRow}

theorem mem_feedRows {rid : ℤ} {startAt : ℕ} :
    e ∈ feedRows store rid startAt endAt ↔ store.events.get? e.1 = some e.2 ∧ e.2.rid = rid ∧
      within startAt endAt e.2.receivedAt = true := by
  rw [feedRows, List.mem_filter, mem_orderedEvents, Bool.and_eq_true, decide_eq_true_eq]

theorem feedRows_nodup (store : Store) (rid : ℤ) (startAt endAt : ℕ) :
    ((feedRows store rid startAt endAt).map Prod.fst).Nodup := by
  have hall : ((orderedEvents store).map Prod.fst).Nodup :=
    ((List.perm_insertionSort _ store.events.entries).map Prod.fst).nodup_iff.mpr
      store.events.keys_nodup
  exact hall.sublist (List.filter_sublist.map Prod.fst)

theorem anyM_false {ε α : Type} {p : α → Except ε Bool} {l : List α} :
    l.anyM p = .ok false ↔ ∀ a ∈ l, p a = .ok false := by
  induction l with
  | nil => simp [List.anyM, pure, Except.pure]
  | cons a l ih =>
      rw [List.anyM, List.forall_mem_cons, ← ih]
      cases p a with
      | error e => simp [bind, Except.bind]
      | ok b => cases b <;> simp [bind, Except.bind, pure, Except.pure]

theorem createdLater_false {created : Cell} (h : createdLater endAt created = .ok false) :
    created.after endAt = false := by
  cases created with
  | null => rfl
  | integer value =>
      simp only [createdLater, requireMillis, bind_ok, refuse_ok, pure_ok] at h
      obtain ⟨millis, ⟨_, hrange, rfl⟩, hle⟩ := h
      simp only [decide_eq_false_iff_not, not_lt] at hle
      rw [Cell.after, decide_eq_false_iff_not, not_lt]
      exact Int.toNat_le.mp hle
  | real value => simp [createdLater, requireMillis, bind, Except.bind] at h
  | text value => simp [createdLater, requireMillis, bind, Except.bind] at h

theorem unfinished_false (h : unfinished store e = .ok false) : pendingCount store e.1 = 0 := by
  simp only [unfinished, safeCount, bind_ok, refuse_ok, pure_ok] at h
  obtain ⟨pending, ⟨_, -, rfl⟩, hnone⟩ := h
  simpa using hnone

variable {reader : Reader} {allowed : List ℤ}

theorem feedItem_eventId {item : FeedItem}
    (h : ListedItem.feedItem <$> listedItem reader allowed store e = .ok item) :
    item.eventId = .event e.1 := by
  obtain ⟨listed, hlisted, rfl⟩ := map_ok.mp h
  simp only [listedItem, eventItem, requireEventId, bind_ok, pure_ok] at hlisted
  obtain ⟨item, ⟨eventId, ⟨_, -, rfl⟩, _, -, _, -, _, -, _, -, rfl⟩, _, -, _, -, rfl⟩ := hlisted
  rfl

theorem passed_rows {rid : ℤ} {startAt limit : ℕ} {feed : Feed}
    (h : readAcceptedRidFeed reader allowed store rid startAt endAt limit = .ok feed)
    (hpassed : feed.status = .passed) :
    globalFailure store startAt endAt = false ∧ (∀ e ∈ feedRows store rid startAt endAt,
        e.2.sourceCreatedAt.after endAt = false ∧ pendingCount store e.1 = 0) ∧
      List.Forall₂ (fun e item => ListedItem.feedItem <$> listedItem reader allowed store e
        = .ok item) (feedRows store rid startAt endAt) feed.items := by
  simp only [readAcceptedRidFeed, requireRid, requireMillis, bind_ok, refuse_ok, pure_ok,
    Int.toNat_natCast] at h
  obtain ⟨_, ⟨_, -, rfl⟩, _, ⟨_, -, rfl⟩, _, ⟨_, -, rfl⟩, _, -, h⟩ := h
  split at h
  · cases h
    cases hpassed
  split at h
  · cases h
    cases hpassed
  next hfailure =>
  split at h
  · cases h
    cases hpassed
  next hlimit =>
  have htake : (feedRows store rid startAt endAt).take (limit + 1)
      = feedRows store rid startAt endAt := by
    apply List.take_of_length_le
    rw [List.length_take] at hlimit
    omega
  rw [htake] at h
  obtain ⟨later, hlater, h⟩ := bind_ok.mp h
  split at h
  · cases h
    cases hpassed
  next hnotLater =>
  obtain ⟨pending, hpending, h⟩ := bind_ok.mp h
  split at h
  · cases h
    cases hpassed
  next hnotPending =>
  obtain ⟨items, hitems, h⟩ := bind_ok.mp h
  cases h
  rw [Bool.not_eq_true] at hfailure hnotLater hnotPending
  subst hnotLater hnotPending
  exact ⟨hfailure, fun e he => ⟨createdLater_false (anyM_false.mp hlater e he),
    unfinished_false (anyM_false.mp hpending e he)⟩, gather_ok.mp hitems⟩

theorem passed_items {rows} {items : List FeedItem}
    (h : List.Forall₂ (fun e item => ListedItem.feedItem <$> listedItem reader allowed store e
      = .ok item) rows items) : items.map FeedItem.eventId = rows.map fun e => Token.event e.1 := by
  induction h with
  | nil => rfl
  | cons hitem _ ih => rw [List.map_cons, List.map_cons, ih, feedItem_eventId hitem]

/-- A passed feed is complete exactly if the losses in its window are such as it
sees. -/
theorem passed_complete_iff {actions : List Action} {runId : String} {l : Listener}
    (hrun : (Listener.start runId).run rt affinity actions = some l) {reader : Reader}
    {allowed : List ℤ} {rid : ℤ} {startAt endAt limit : ℕ} {feed : Feed}
    (h : readAcceptedRidFeed reader allowed l.store rid startAt endAt limit = .ok feed)
    (hpassed : feed.status = .passed) :
    CompleteFeed rt actions l.store rid startAt endAt feed.items ↔
      LossesSeen rt actions ((Listener.start runId).committed rt affinity actions) startAt
        endAt := by
  obtain ⟨hfailure, hrows, hitems⟩ := passed_rows h hpassed
  have hids := passed_items hitems
  constructor
  · intro hcomplete
    refine ⟨fun at_ hmem => ?_, fun action hmem payloadHash errorClass at_ hfailed hin => ?_⟩
    · by_contra hin
      rw [Bool.not_eq_false] at hin
      exact hcomplete.lossless _ hmem at_ hin (.inl rfl)
    · exact absurd (.inr ⟨payloadHash, errorClass, hfailed⟩) (hcomplete.lossless _ hmem at_ hin)
  · intro hseen
    refine ⟨?_, ?_, fun eventId => ?_, fun eventId row hrow hrid hin => ?_,
      fun eventId row hrow hrid hin => ?_⟩
    · rintro action hmem at_ hin (rfl | ⟨payloadHash, errorClass, hfailed⟩)
      · rw [hseen.queue at_ hmem] at hin
        cases hin
      · obtain ⟨hstart, hcommitted⟩ := hseen.decode action hmem _ _ at_ hfailed hin
        obtain ⟨n, hn, hpos⟩ := run_failed hrun
          (.inr ⟨payloadHash, errorClass, at_, hcommitted, rfl⟩)
        have hend : bucketStart at_ ≤ endAt := by
          have := bucketStart_le at_
          simp only [within, Bool.and_eq_true, decide_eq_true_eq] at hin
          omega
        refine absurd hfailure (Bool.eq_false_iff.mp · (List.any_eq_true.mpr ?_))
        refine ⟨(failureKey payloadHash errorClass at_, n), Dict.mem_entries.mpr hn, ?_⟩
        simp [within, failureKey, hstart, hend, hpos]
    · rw [hids]
      have hnodup := feedRows_nodup l.store rid startAt endAt
      have hinjective : Function.Injective Token.event := fun _ _ heq => Token.event.inj heq
      have hmapped := hnodup.map hinjective
      rwa [List.map_map] at hmapped
    · rw [hids, List.mem_map]
      constructor
      · rintro ⟨e, he, heq⟩
        cases heq
        exact ⟨e.2, mem_feedRows.mp he⟩
      · rintro ⟨row, hrow⟩
        exact ⟨(eventId, row), mem_feedRows.mpr hrow, rfl⟩
    · exact (hrows (eventId, row) (mem_feedRows.mpr ⟨hrow, hrid, hin⟩)).1
    · exact (hrows (eventId, row) (mem_feedRows.mpr ⟨hrow, hrid, hin⟩)).2

/-! ## Samples -/

def sampleFeed (startAt endAt : ℕ) (l : Listener) : Option Feed :=
  (readAcceptedRidFeed plainReader [20025] l.store 20025 startAt endAt 5000).toOption

theorem read_of_sample {startAt : ℕ} {l : Listener} {feed : Feed}
    (h : sampleFeed startAt endAt l = some feed) :
    readAcceptedRidFeed plainReader [20025] l.store 20025 startAt endAt 5000 = .ok feed := by
  rw [sampleFeed] at h
  cases hread : readAcceptedRidFeed plainReader [20025] l.store 20025 startAt endAt 5000 with
  | error e =>
      rw [hread] at h
      cases h
  | ok feed' =>
      rw [hread] at h
      exact congrArg _ (Option.some.inj h)

/-- An accepted message is the one item of a passed feed. -/
theorem passed_complete_sample :
    ∃ (l : Listener) (feed : Feed), (Listener.start "r1").run (sampleRuntime .null) (fun text => .text text)
        [sampleTurn, .commit, .commit] = some l ∧ feed.items.length = 1 ∧
      (CompleteFeed (sampleRuntime .null) [sampleTurn, .commit, .commit] l.store 20025
          (sampleReceivedAt - 1) sampleReceivedAt feed.items ↔
        LossesSeen (sampleRuntime .null) [sampleTurn, .commit, .commit]
          ((Listener.start "r1").committed (sampleRuntime .null) (fun text => .text text)
            [sampleTurn, .commit, .commit]) (sampleReceivedAt - 1) sampleReceivedAt) := by
  have hfeed : ∃ l ∈ sampleRun [sampleTurn, .commit, .commit],
      ∃ feed ∈ sampleFeed (sampleReceivedAt - 1) sampleReceivedAt l,
        feed.status = .passed ∧ feed.items.length = 1 := by
    decide +kernel
  obtain ⟨l, hrun, feed, hfeed, hpassed, hlength⟩ := hfeed
  exact ⟨l, feed, hrun, hlength, passed_complete_iff hrun (read_of_sample hfeed) hpassed⟩

def undecodableFrame : String := "42/msg,[\"room_msg\",\"x\"]"

def undecodingRuntime : Runtime :=
  { sampleRuntime .null with
    sha256 := fun _ => "b9efa3afbdbedb1f1fb21f85c9334d95f0b216d2a4e3ce6ac2bf9c7185019dbe"
    decodeRoomFrame := fun _ _ => .error "Error" }

def undecodedTurn : Action := .turn (.frame [20025] undecodableFrame sampleReceivedAt)

/-- A feed of the last millisecond is passed although a frame was dropped in it,
and although a frame of it could not be decoded. -/
theorem passed_complete_counterexample :
    (∃ (l : Listener) (feed : Feed), (Listener.start "r1").run undecodingRuntime (fun text => .text text)
        [.turn (.overflow sampleReceivedAt), .commit] = some l ∧
      sampleFeed (sampleReceivedAt - 1) sampleReceivedAt l = some feed ∧
      feed.status = .passed ∧
      ¬ CompleteFeed undecodingRuntime [.turn (.overflow sampleReceivedAt), .commit] l.store
        20025 (sampleReceivedAt - 1) sampleReceivedAt feed.items) ∧
    ∃ (l : Listener) (feed : Feed), (Listener.start "r1").run undecodingRuntime (fun text => .text text)
        [undecodedTurn, .commit, .commit] = some l ∧
      sampleFeed (sampleReceivedAt - 1) sampleReceivedAt l = some feed ∧
      feed.status = .passed ∧
      ¬ CompleteFeed undecodingRuntime [undecodedTurn, .commit, .commit] l.store 20025
        (sampleReceivedAt - 1) sampleReceivedAt feed.items := by
  have hin : within (sampleReceivedAt - 1) sampleReceivedAt sampleReceivedAt = true := by decide
  constructor
  · refine ⟨_, _, rfl, rfl, rfl, fun h => ?_⟩
    exact h.lossless _ List.mem_cons_self sampleReceivedAt hin (.inl rfl)
  · have hfeed : ∃ l ∈ (Listener.start "r1").run undecodingRuntime (fun text => .text text)
        [undecodedTurn, .commit, .commit],
        ∃ feed ∈ sampleFeed (sampleReceivedAt - 1) sampleReceivedAt l, feed.status = .passed := by
      decide +kernel
    obtain ⟨l, hrun, feed, hfeed, hpassed⟩ := hfeed
    refine ⟨l, feed, hrun, hfeed, hpassed, fun h => ?_⟩
    exact h.lossless _ List.mem_cons_self sampleReceivedAt hin
      (.inr ⟨_, _, rfl, by decide +kernel, rfl⟩)

end Ahunter.Mx
