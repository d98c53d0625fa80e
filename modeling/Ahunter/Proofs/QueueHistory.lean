import Ahunter.Proofs.Books
import Ahunter.Lib.Timeline

/-!
# Histories of a stream

A capture is checked whole before any of it is replayed, but on its own: from
its snapshot, with the identities of the snapshot as the only ones used. The
replay itself goes on with the identities of every capture of the stream before
it. The two read the same book, so an event that the check has passed can only
fail the replay by entering an order under an identity that an earlier capture
has used.
-/

namespace Ahunter.Sim

open Ahunter.Lib

variable {spec : AccountSpec}

/-! ## Books and used identities -/

variable {b book : Book} {seen s : Seen} {ts : List QueueTick}

def QueueEvent.adds (e : QueueEvent) : Bool := e.eventType = .add

def BookWithin (b c : Book) : Prop :=
  ∀ k, (b.get? k).isSome = true → (c.get? k).isSome = true

theorem BookWithin.takeFrom {c : Book} (h : BookWithin b c) {key : String}
    (hkey : (c.get? key).isSome = true) (o : QueueOrder) (amount : ℤ) :
    BookWithin (takeFrom b o key amount) c := by
  intro k hk
  unfold Sim.takeFrom at hk
  split at hk
  · rw [Dict.get?_erase] at hk
    split at hk
    · cases hk
    · exact h k hk
  · rw [Dict.get?_set] at hk
    split at hk
    · next heq => rw [heq]; exact hkey
    · exact h k hk

theorem QueueEvent.adds_iff {e : QueueEvent} : e.adds = true ↔ e.eventType = .add := by
  rw [adds, decide_eq_true_eq]

def entered (book : Book) (seen : Seen) (e : QueueEvent) : Replayed :=
  ⟨book.set e.orderId ⟨e.orderId, e.side, e.price, e.quantity, e.sequence⟩,
    seen.set e.orderId (), none⟩

theorem historicalEvent_adds {e : QueueEvent} {r : Replayed} (h : e.adds = true) :
    historicalEvent book seen e = .ok r ↔
      seen.contains e.orderId = false ∧ r = entered book seen e := by
  simp only [historicalEvent, QueueEvent.adds_iff.mp h, bind_ok, refuse_ok, pure_ok,
    Bool.not_eq_true]
  exact ⟨fun ⟨_, hnew, hr⟩ => ⟨hnew, hr.symm⟩, fun ⟨hnew, hr⟩ => ⟨(), hnew, hr.symm⟩⟩

theorem historicalEvent_consumes {e : QueueEvent} {r : Replayed} (hadds : e.adds = false)
    (h : historicalEvent book seen e = .ok r) :
    r.seen = seen ∧ BookWithin r.book book ∧
      ∀ seen', historicalEvent book seen' e = .ok { r with seen := seen' } := by
  have hsame : BookWithin book book := fun _ hk => hk
  simp only [historicalEvent, historicalEvent.adequate] at h ⊢
  split at h
  · next htype =>
      rw [QueueEvent.adds_iff.mpr htype] at hadds
      cases hadds
  · next htype =>
      simp only [bind_ok, need_ok, refuse_ok, pure_ok] at h
      obtain ⟨old, ⟨_, hold, u1, hfit, rfl⟩, u2, hprice, rfl⟩ := h
      refine ⟨rfl, hsame.takeFrom (by rw [hold]; rfl) _ _, fun seen' => ?_⟩
      simp only [bind_ok, need_ok, refuse_ok, pure_ok]
      exact ⟨_, ⟨_, hold, u1, hfit, rfl⟩, u2, hprice, rfl⟩
  · next htype =>
      simp only [bind_ok, need_ok, refuse_ok, pure_ok] at h
      obtain ⟨old, ⟨_, hold, u1, hfit, rfl⟩, contraId, hid, contra, hcontra, u2, hcfit,
        u3, hprices, u4, hranks, rfl⟩ := h
      refine ⟨rfl, ?_, fun seen' => ?_⟩
      · exact (hsame.takeFrom (by rw [hcontra]; rfl) _ _).takeFrom (by rw [hold]; rfl) _ _
      · simp only [bind_ok, need_ok, refuse_ok, pure_ok]
        exact ⟨_, ⟨_, hold, u1, hfit, rfl⟩, contraId, hid, contra, hcontra, u2, hcfit,
          u3, hprices, u4, hranks, rfl⟩

theorem replayHistory_cons {t : QueueTick} :
    replayHistory book seen (t :: ts) = .ok (b, s) ↔
      ∃ r, historicalEvent book seen t.event = .ok r ∧
        replayHistory r.book r.seen ts = .ok (b, s) := by
  simp only [replayHistory, walk_cons_ok, bind_ok, pure_ok]
  constructor
  · rintro ⟨_, ⟨r, hr, rfl⟩, h⟩
    exact ⟨r, hr, h⟩
  · rintro ⟨r, hr, h⟩
    exact ⟨_, ⟨r, hr, rfl⟩, h⟩

theorem replayHistory_append {us : List QueueTick} :
    replayHistory book seen (ts ++ us) = .ok (b, s) ↔
      ∃ c r, replayHistory book seen ts = .ok (c, r) ∧ replayHistory c r us = .ok (b, s) := by
  simp only [replayHistory, walk_append, bind_ok, Prod.exists]

/-- The identities of one record are used in the other. -/
def SeenWithin (s t : Seen) : Prop :=
  ∀ k, s.contains k = true → t.contains k = true

def EntersNew (seen : Seen) (ts : List QueueTick) : Prop :=
  ∀ t ∈ ts, t.event.adds = true → seen.contains t.event.orderId = false

theorem contains_set {i k : String} :
    (s.set i ()).contains k = true ↔ k = i ∨ s.contains k = true := by
  rw [Dict.contains, Dict.get?_set, Dict.contains]
  split
  · next h => simp [h]
  · next h => simp [h]

theorem replayHistory_seen (h : replayHistory book seen ts = .ok (b, s)) (k : String) :
    s.contains k = true ↔ seen.contains k = true ∨
      ∃ t ∈ ts, t.event.adds = true ∧ t.event.orderId = k := by
  induction ts generalizing book seen with
  | nil =>
      cases h
      simp
  | cons t ts ih =>
      obtain ⟨r, hr, hrest⟩ := replayHistory_cons.mp h
      rw [ih hrest]
      cases hadds : t.event.adds with
      | false =>
          obtain ⟨hseen, -⟩ := historicalEvent_consumes hadds hr
          simp [hseen, hadds]
      | true =>
          obtain ⟨-, rfl⟩ := (historicalEvent_adds hadds).mp hr
          rw [show (entered book seen t.event).seen = seen.set t.event.orderId () from
            rfl, contains_set]
          simp only [List.mem_cons, exists_eq_or_imp, hadds, true_and]
          rw [eq_comm (a := k)]
          tauto

theorem replayHistory_enters (h : replayHistory book seen ts = .ok (b, s)) : EntersNew seen ts := by
  induction ts generalizing book seen with
  | nil => exact fun t ht => by cases ht
  | cons t ts ih =>
      obtain ⟨r, hr, hrest⟩ := replayHistory_cons.mp h
      intro u hu hadds
      rcases List.mem_cons.mp hu with rfl | hu
      · exact ((historicalEvent_adds hadds).mp hr).1
      · have hfree := ih hrest u hu hadds
        refine Bool.eq_false_iff.mpr fun hused => ?_
        have hkept : r.seen.contains u.event.orderId = true := by
          cases ht : t.event.adds with
          | false => rw [(historicalEvent_consumes ht hr).1]; exact hused
          | true =>
              obtain ⟨-, rfl⟩ := (historicalEvent_adds ht).mp hr
              exact contains_set.mpr (Or.inr hused)
        exact absurd (hfree.symm.trans hkept) Bool.false_ne_true

theorem replayHistory_wider {seen' : Seen} (h : replayHistory book seen ts = .ok (b, s))
    (hwithin : SeenWithin seen seen') (hnew : EntersNew seen' ts) :
    ∃ s', replayHistory book seen' ts = .ok (b, s') ∧ SeenWithin s s' := by
  induction ts generalizing book seen seen' with
  | nil =>
      cases h
      exact ⟨seen', rfl, hwithin⟩
  | cons t ts ih =>
      obtain ⟨r, hr, hrest⟩ := replayHistory_cons.mp h
      have htail : EntersNew seen' ts := fun u hu => hnew u (List.mem_cons_of_mem _ hu)
      cases hadds : t.event.adds with
      | false =>
          obtain ⟨hseen, -, hany⟩ := historicalEvent_consumes hadds hr
          rw [hseen] at hrest
          obtain ⟨s', hs', hw⟩ := ih hrest hwithin htail
          exact ⟨s', replayHistory_cons.mpr ⟨_, hany seen', hs'⟩, hw⟩
      | true =>
          obtain ⟨-, rfl⟩ := (historicalEvent_adds hadds).mp hr
          have hstep : SeenWithin (seen.set t.event.orderId ())
              (seen'.set t.event.orderId ()) := fun k hk =>
            contains_set.mpr ((contains_set.mp hk).imp_right (hwithin k))
          -- The check has entered the order too, so it sees a second entry.
          have hlater : EntersNew (seen'.set t.event.orderId ()) ts := by
            intro u hu hu'
            have hfree := replayHistory_enters hrest u hu hu'
            refine Bool.eq_false_iff.mpr fun hused => ?_
            rcases contains_set.mp hused with heq | hused
            · have hself : (seen.set t.event.orderId ()).contains u.event.orderId
                  = true := contains_set.mpr (Or.inl heq)
              exact absurd (hfree.symm.trans hself) Bool.false_ne_true
            · exact absurd ((htail u hu hu').symm.trans hused) Bool.false_ne_true
          obtain ⟨s', hs', hw⟩ := ih hrest hstep hlater
          exact ⟨s', replayHistory_cons.mpr ⟨_, (historicalEvent_adds hadds).mpr
            ⟨hnew t List.mem_cons_self hadds, rfl⟩, hs'⟩, hw⟩

/-- Every order that rests was entered under a used identity. -/
def BookSeen (book : Book) (seen : Seen) : Prop :=
  ∀ k, (book.get? k).isSome = true → seen.contains k = true

theorem replayHistory_bookSeen (h : replayHistory book seen ts = .ok (b, s))
    (hbook : BookSeen book seen) : BookSeen b s := by
  induction ts generalizing book seen with
  | nil =>
      cases h
      exact hbook
  | cons t ts ih =>
      obtain ⟨r, hr, hrest⟩ := replayHistory_cons.mp h
      refine ih hrest fun k hk => ?_
      cases hadds : t.event.adds with
      | false =>
          obtain ⟨hseen, hwithin, -⟩ := historicalEvent_consumes hadds hr
          rw [hseen]
          exact hbook k (hwithin k hk)
      | true =>
          obtain ⟨-, rfl⟩ := (historicalEvent_adds hadds).mp hr
          refine contains_set.mpr ?_
          rw [entered, Dict.get?_set] at hk
          split at hk
          · next heq => exact Or.inl heq
          · exact Or.inr (hbook k hk)

theorem seenOf_contains {k : String} : (seenOf book).contains k = (book.get? k).isSome := by
  rw [seenOf, Dict.contains, Dict.get?_map, Option.isSome_map]

/-! ## Cutting a capture -/

variable {e : QueueMarket}

def ticksThrough (e : QueueMarket) (sequence : ℤ) : List QueueTick :=
  e.events.filter fun t => t.event.sequence ≤ sequence

def ticksAfter (e : QueueMarket) (sequence : ℤ) : List QueueTick :=
  e.events.filter fun t => sequence < t.event.sequence

def Sequenced (ts : List QueueTick) : Prop :=
  ts.Pairwise fun t u => t.event.sequence < u.event.sequence

theorem Sequenced.settles (h : Sequenced ts) (a : ℤ) :
    Settles (fun t : QueueTick => t.event.sequence ≤ a) ts :=
  h.imp fun hlt hle => decide_eq_true (hlt.le.trans (of_decide_eq_true hle))

theorem ticks_cut (h : Sequenced e.events) (sequence : ℤ) :
    ticksThrough e sequence ++ ticksAfter e sequence = e.events := by
  have hcut := (h.settles sequence).cut
  rw [ticksThrough, ticksAfter]
  simpa only [← decide_not, not_le] using hcut

theorem ticks_pending (h : Sequenced e.events) {a b : ℤ} (hab : a ≤ b) :
    ticksThrough e a ++ pendingTicks e a b = ticksThrough e b := by
  have hcut := ((h.settles a).filter fun t => t.event.sequence ≤ b).cut
  rw [List.filter_filter, List.filter_filter] at hcut
  rw [ticksThrough, pendingTicks, ticksThrough, ← hcut]
  congr 1
  · refine List.filter_congr fun t _ => ?_
    rw [eq_comm, Bool.and_eq_left_iff_imp]
    exact fun hle => decide_eq_true ((of_decide_eq_true hle).trans hab)
  · refine List.filter_congr fun t _ => ?_
    simp only [← decide_not, not_le]

/-! ## Captures in a run -/

theorem validateCapture_ok {volumes : Volumes} (h : validateCapture spec e = .ok volumes) :
    Sequenced e.events ∧ ∀ t ∈ e.events, e.capture.startSequence ≤ t.event.sequence ∧
        t.event.sequence ≤ e.capture.endSequence := by
  simp only [validateCapture, bind_ok, refuse_ok, not_not] at h
  obtain ⟨-, -, -, -, -, -, -, -, -, -, -, -, -, hsequence, -⟩ := h
  have hnumbers : e.events.map (fun t => t.event.sequence)
      = (List.range (e.capture.endSequence + 1 - e.capture.startSequence).toNat).map
        fun i : ℕ => e.capture.startSequence + (i : ℤ) := by
    simpa [List.map_flatMap, List.flatMap_singleton', ← List.map_eq_flatMap,
      Function.comp_def] using hsequence
  constructor
  · have hmap : (e.events.map fun t => t.event.sequence).Pairwise (· < ·) := by
      rw [hnumbers, List.pairwise_map]
      exact List.pairwise_lt_range.imp fun hij => by omega
    rwa [List.pairwise_map] at hmap
  · intro t ht
    have hmem : t.event.sequence ∈ e.events.map fun t => t.event.sequence :=
      List.mem_map_of_mem ht
    rw [hnumbers, List.mem_map] at hmem
    obtain ⟨i, hi, heq⟩ := hmem
    rw [List.mem_range] at hi
    omega

theorem replayWalk_history {aid : String} {entrants : List QueueEntrant} {a b : QueueRun}
    (h : walk (replayTick spec aid e entrants) a ts = .ok b) :
    replayHistory a.book a.seen ts = .ok (b.book, b.seen) := by
  induction ts generalizing a with
  | nil =>
      cases h
      rfl
  | cons t ts ih =>
      obtain ⟨c, hone, hrest⟩ := walk_cons_ok.mp h
      have hrec := ih hrest
      simp only [replayTick, bind_ok] at hone
      obtain ⟨r, hr, hone⟩ := hone
      refine replayHistory_cons.mpr ⟨r, hr, ?_⟩
      split at hone
      · cases pure_ok.mp hone
        exact hrec
      · simp only [bind_ok, need_ok, pure_ok] at hone
        obtain ⟨start, -, capacity, -, reached, -, t, -, rfl⟩ := hone
        exact hrec

/-- The identities used before a capture was opened, and its history since. -/
structure Replaying (q : QueueState) (carried : Seen) : Prop where
  sequenced : Sequenced q.market.events
  opened : SeenWithin (seenOf (snapshotBook q.market.snapshot)) carried
  history : replayHistory (snapshotBook q.market.snapshot) carried
    (ticksThrough q.market q.lastSequence) = .ok (q.book, q.seen)

theorem Replaying.bookSeen {q : QueueState} {carried : Seen}
    (h : Replaying q carried) : BookSeen q.book q.seen :=
  replayHistory_bookSeen h.history fun k hk =>
    h.opened k (by rw [seenOf_contains]; exact hk)

def StreamsReplaying (w : World) : Prop :=
  ∀ k q, w.execution.queues.get? k = some q → ∃ carried, Replaying q carried

theorem replayStart_ok {old : Option QueueState} {at_ : Instant} {sequence : ℤ}
    {start : ReplayStart} (h : replayStart e old at_ sequence = .ok start)
    (hold : ∀ q ∈ old, ∃ carried, Replaying q carried)
    (hfirst : ∀ t ∈ e.events, e.capture.startSequence ≤ t.event.sequence)
    (hsequence : e.capture.startSequence - 1 ≤ sequence) :
    start.last ≤ sequence ∧ start.seen = ((old.map QueueState.seen).getD
        (seenOf (snapshotBook e.snapshot))) ∧
      ∃ carried, SeenWithin (seenOf (snapshotBook e.snapshot)) carried ∧
        replayHistory (snapshotBook e.snapshot) carried (ticksThrough e start.last)
          = .ok (start.book, start.seen) := by
  have hnone : ticksThrough e (e.capture.startSequence - 1) = [] :=
    List.filter_eq_nil_iff.mpr fun t ht => by
      have := hfirst t ht
      simp only [decide_eq_true_eq, not_le]
      omega
  unfold replayStart at h
  split at h
  · cases pure_ok.mp h
    refine ⟨hsequence, rfl, _, fun _ hk => hk, ?_⟩
    rw [hnone]
    rfl
  · next q =>
      obtain ⟨carried, hq⟩ := hold q rfl
      split at h
      · next hsame =>
          simp only [bind_ok, refuse_ok, pure_ok, not_or, not_lt] at h
          obtain ⟨-, ⟨hlast, -⟩, -, -, rfl⟩ := h
          refine ⟨hlast, rfl, carried, ?_, ?_⟩
          · rw [← hsame]
            exact hq.opened
          · rw [← hsame]
            exact hq.history
      · simp only [bind_ok, refuse_ok, pure_ok, not_or, not_not] at h
        obtain ⟨-, ⟨-, -, hbook⟩, rfl⟩ := h
        refine ⟨hsequence, rfl, q.seen, fun k hk => ?_, ?_⟩
        · rw [seenOf_contains, ← hbook] at hk
          exact hq.bookSeen k hk
        · rw [hnone]
          rfl

theorem prefixProven_ok {at_ : Instant} {sequence : ℤ}
    (h : prefixProven spec e at_ sequence = .ok ()) : e.capture.startSequence - 1 ≤ sequence := by
  simp only [prefixProven, bind_ok, refuse_ok, not_or, not_not] at h
  obtain ⟨-, ⟨⟨hfirst, -⟩, -⟩, -⟩ := h
  exact hfirst

theorem captureReplays_ok (h : captureReplays e = .ok ()) :
    ∃ b s, replayHistory (snapshotBook e.snapshot) (seenOf (snapshotBook e.snapshot))
      e.events = .ok (b, s) := by
  simp only [captureReplays, bind_ok] at h
  obtain ⟨⟨b, s⟩, hreplay, -⟩ := h
  exact ⟨b, s, hreplay⟩

section Replay

variable {w w' : World} {aid : String} {e : QueueEvidence} {at_ : Instant}
  {sequence : ℤ} {s : AccountState} {volumes : Volumes} {start : ReplayStart}
  {x1 x2 : ExecutionState} {entrants : List QueueEntrant} {run : QueueRun}
  {results : List QueueOutcome}

theorem QueueReplayed.replaying
    (h : QueueReplayed spec aid e at_ sequence w w' s volumes start x1 entrants x2 run
      results) (hw : StreamsReplaying w) :
    ∃ carried, Replaying (replayedTo e run sequence at_) carried := by
  obtain ⟨hsequenced, hrange⟩ := validateCapture_ok h.valid
  obtain ⟨hlast, -, carried, hopened, hstart⟩ := replayStart_ok h.started
    (fun q hq => hw _ q hq) (fun t ht => (hrange t ht).1) (prefixProven_ok h.proven)
  refine ⟨carried, hsequenced, hopened, ?_⟩
  have hrest := replayWalk_history h.replayed
  show replayHistory _ _ (ticksThrough e.toQueueMarket sequence) = _
  rw [← ticks_pending hsequenced hlast]
  exact replayHistory_append.mpr ⟨_, _, hstart, hrest⟩

theorem QueueReplayed.remaining_iff
    (h : QueueReplayed spec aid e at_ sequence w w' s volumes start x1 entrants x2 run
      results) (hw : StreamsReplaying w) :
    (∃ r, replayHistory run.book run.seen (ticksAfter e.toQueueMarket sequence) = .ok r) ↔
      EntersNew start.seen (ticksAfter e.toQueueMarket sequence) := by
  obtain ⟨hsequenced, hrange⟩ := validateCapture_ok h.valid
  obtain ⟨hlast, -, -⟩ := replayStart_ok h.started (fun q hq => hw _ q hq)
    (fun t ht => (hrange t ht).1) (prefixProven_ok h.proven)
  obtain ⟨carried, hreplaying⟩ := h.replaying hw
  have hpending := replayWalk_history h.replayed
  constructor
  · rintro ⟨⟨b, t⟩, hrest⟩ u hu hadds
    have hfree := replayHistory_enters hrest u hu hadds
    refine Bool.eq_false_iff.mpr fun hused => ?_
    have hkept := (replayHistory_seen hpending u.event.orderId).mpr (Or.inl hused)
    exact absurd (hfree.symm.trans hkept) Bool.false_ne_true
  · intro hnew
    obtain ⟨b, t, hcheck⟩ := captureReplays_ok h.replays
    rw [← ticks_cut hsequenced sequence] at hcheck
    obtain ⟨c, r, hthrough, hafter⟩ := replayHistory_append.mp hcheck
    -- The check and the replay reach the cut with one book.
    obtain ⟨t', hsame, hwithin⟩ := replayHistory_wider hthrough hreplaying.opened
      (replayHistory_enters hreplaying.history)
    obtain ⟨rfl, rfl⟩ := Prod.mk.inj (Except.ok.inj (hsame.symm.trans hreplaying.history))
    obtain ⟨s', hs', -⟩ := replayHistory_wider hafter hwithin fun u hu hadds => by
      refine Bool.eq_false_iff.mpr fun hused => ?_
      rcases (replayHistory_seen hpending u.event.orderId).mp hused with hused |
        ⟨v, hv, hvadds, hvid⟩
      · exact absurd ((hnew u hu hadds).symm.trans hused) Bool.false_ne_true
      · -- The check would have seen the second entry.
        have hvthrough : v ∈ ticksThrough e.toQueueMarket sequence := by
          rw [← ticks_pending hsequenced hlast]
          exact List.mem_append_right _ hv
        have hchecked := (replayHistory_seen hthrough u.event.orderId).mpr
          (Or.inr ⟨v, hvthrough, hvadds, hvid⟩)
        exact absurd ((replayHistory_enters hafter u hu hadds).symm.trans hchecked)
          Bool.false_ne_true
    exact ⟨_, hs'⟩

end Replay

theorem reachable_streamsReplaying {w : World} (h : Reachable spec w) : StreamsReplaying w := by
  refine h.invariant (fun k q hq => by cases hq) fun w c w' _ hw hstep _ => ?_
  cases step_market hstep with
  | same hsame =>
      intro k q hq
      rw [hsame.queues] at hq
      exact hw k q hq
  | minute hminute =>
      intro k q hq
      rw [hminute.queues] at hq
      exact hw k q hq
  | queue hqueue =>
      intro k q hq
      rw [hqueue.execution, Dict.get?_set] at hq
      split at hq
      · cases hq
        exact hqueue.replaying hw
      · rw [hqueue.streams.queues] at hq
        exact hw k q hq

/-! ## What a prefix can hide -/

structure PrefixSettled (w w' : World) (e : QueueEvidence) (sequence : ℤ) : Prop where
  committed : ∃ q, w'.execution.queues.get? e.streamKey = some q ∧
    q.market = e.toQueueMarket ∧ q.lastSequence = sequence ∧
    ((∃ r, replayHistory q.book q.seen (ticksAfter e.toQueueMarket sequence) = .ok r) ↔
      ∀ old, w.execution.queues.get? e.streamKey = some old →
        EntersNew old.seen (ticksAfter e.toQueueMarket sequence))

/-- A committed prefix hides no event that the rest of its capture fails on
exactly if the rest enters no order under an identity that the stream had used
before the call. -/
theorem committed_prefix_hides_iff {w w' : World} {aid : String} {e : QueueEvidence}
    {throughAt : Option Instant} {throughSequence : Option ℤ} (hw : Reachable spec w)
    (h : step spec w (.queueAdvance aid e throughAt throughSequence) = .ok w')
    (hnew : w' ≠ w) :
    PrefixSettled w w' e (throughSequence.getD e.capture.endSequence) := by
  have hstreams := reachable_streamsReplaying hw
  rcases queueAdvance_market h with rfl | ⟨s, volumes, start, x1, entrants, x2, run,
    results, hrun⟩
  · exact absurd rfl hnew
  · refine ⟨⟨replayedTo e run (throughSequence.getD e.capture.endSequence)
      (throughAt.getD e.capture.endAt), ?_, rfl, rfl, ?_⟩⟩
    · rw [hrun.execution]
      exact Dict.get?_set_self _ _ _
    · refine (hrun.remaining_iff hstreams).trans ?_
      obtain ⟨hsequenced, hrange⟩ := validateCapture_ok hrun.valid
      obtain ⟨-, hseen, -⟩ := replayStart_ok hrun.started (fun q hq => hstreams _ q hq)
        (fun t ht => (hrange t ht).1) (prefixProven_ok hrun.proven)
      rw [hseen]
      cases hold : w.execution.queues.get? e.streamKey with
      | some old => simp
      | none =>
          -- A first capture has only its own identities, which were checked.
          obtain ⟨b, t, hcheck⟩ := captureReplays_ok hrun.replays
          refine iff_of_true (fun u hu => replayHistory_enters hcheck u ?_) (by simp)
          exact (List.mem_filter.mp hu).1

def sampleTick (sequence minute : ℤ) (type : QueueEventType) (orderId : String) :
    QueueTick :=
  ⟨sampleAt 0 minute, ⟨sequence, .resume, type, orderId, .buy, 10, 100, none⟩, none⟩

def sampleCapture (start stop first : ℤ) (ticks : List QueueTick) : QueueEvidence where
  security := sampleSecurity
  streamId := "level2"
  marketRule := sampleRule
  priceBounds := noBounds
  capture := ⟨true, .resume, sampleAt 0 start, sampleAt 0 stop, first,
    first + ticks.length - 1⟩
  snapshot := ⟨true, .resume, first - 1, []⟩
  events := ticks
  volumes := []
  auction := some ⟨.resume, none, 0⟩
  routeReason := .resumptionAuction
  availability := ⟨sampleAt 0 stop, ""⟩
  sourceRefs := ["source"]
  sourceHash := "hash"
  corporateActionsComplete := true
  positions := []

def morningCapture : QueueEvidence :=
  sampleCapture 600 610 1 [sampleTick 1 601 .add "h1", sampleTick 2 602 .cancel "h1"]

def nextCapture (orderId : String) : QueueEvidence :=
  sampleCapture 610 620 3 [sampleTick 3 611 .add "h2", sampleTick 4 612 .add orderId]

def nextPrefix (orderId : String) : Command :=
  .queueAdvance "next" (nextCapture orderId) (some (sampleAt 0 611)) (some 3)

def morningReplay : List Command := [
  .opening "open" true,
  .queueAdvance "morning" morningCapture none none]

theorem morning_next (orderId : String) (test : World → World → Bool)
    (h : ((runs sampleSpec (fun _ _ _ => True) World.start morningReplay).any fun w =>
      match step sampleSpec w (nextPrefix orderId) with
      | .ok w' => w'.events.length ≠ w.events.length && test w w'
      | .error _ => false) = true) :
    ∃ w w', Reachable sampleSpec w ∧ step sampleSpec w (nextPrefix orderId) = .ok w' ∧
      w' ≠ w ∧ test w w' = true := by
  obtain ⟨w, hw, htest⟩ := (Option.any_eq_true _ _).mp h
  split at htest
  · next w' hstep =>
      obtain ⟨hlength, htest⟩ := (Bool.and_eq_true _ _).mp htest
      refine ⟨w, w', steps_of_runs hw, hstep, fun heq => ?_, htest⟩
      rw [heq] at hlength
      exact of_decide_eq_true hlength rfl
  · cases htest

theorem committed_prefix_hides_iff_sample : ∃ w w', Reachable sampleSpec w ∧
    step sampleSpec w (nextPrefix "h3") = .ok w' ∧ w' ≠ w ∧
    PrefixSettled w w' (nextCapture "h3") 3 := by
  obtain ⟨w, w', hw, hstep, hnew, -⟩ := morning_next "h3" (fun _ _ => true)
    (by decide +kernel)
  exact ⟨w, w', hw, hstep, hnew, committed_prefix_hides_iff hw hstep hnew⟩

def reuseHidden (w : World) : Bool :=
  (w.execution.queues.get? (nextCapture "h1").streamKey).any fun q =>
    q.lastSequence = (3 : ℤ) &&
    match replayHistory q.book q.seen (ticksAfter (nextCapture "h1").toQueueMarket 3) with
    | .ok _ => false
    | .error f => f = evidenceMissing "historical queue identity was reused"

/-- The first event of a capture is committed although the second one enters an
order under the identity of a cancelled one, and can never be replayed. -/
theorem committed_prefix_hides_reuse : ∃ w w', Reachable sampleSpec w ∧
    step sampleSpec w (nextPrefix "h1") = .ok w' ∧ w' ≠ w ∧
    ∃ q, w'.execution.queues.get? (nextCapture "h1").streamKey = some q ∧
      q.lastSequence = 3 ∧
      replayHistory q.book q.seen (ticksAfter (nextCapture "h1").toQueueMarket 3)
        = .error (evidenceMissing "historical queue identity was reused") := by
  obtain ⟨w, w', hw, hstep, hnew, htest⟩ := morning_next "h1"
    (fun _ w' => reuseHidden w') (by decide +kernel)
  obtain ⟨q, hq, htest⟩ := (Option.any_eq_true _ _).mp htest
  obtain ⟨hlast, hfails⟩ := (Bool.and_eq_true _ _).mp htest
  refine ⟨w, w', hw, hstep, hnew, q, hq, of_decide_eq_true hlast, ?_⟩
  split at hfails
  · cases hfails
  · next f hf => rw [hf, of_decide_eq_true hfails]

end Ahunter.Sim
