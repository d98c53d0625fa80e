import Ahunter.Proofs.QueueHistory

/-!
# The historical book

What the events of a capture may do to the book of a stream. Identities are the
keys of the book, so the ones that rest are different by construction as long as
an order is entered under its own key and never over a resting one. Priorities
come from two places, the snapshot and the sequence of the event that entered
the order; a valid capture numbers its events above every priority of its
snapshot, and the book never holds a priority above the last event it has seen.
-/

namespace Ahunter.Sim

open Ahunter.Lib

variable {spec : AccountSpec}

/-- What the contracts of the evidence promise of its quantities. -/
structure PositiveShares (e : QueueMarket) : Prop where
  resting : ∀ o ∈ e.snapshot.orders, 0 < o.quantity
  traded : ∀ t ∈ e.events, 0 < t.event.quantity

structure BookSound (b : Book) : Prop where
  named : ∀ k o, b.get? k = some o → o.orderId = k
  distinct : ∀ k o j p, b.get? k = some o → b.get? j = some p →
    o.priority = p.priority → k = j
  positive : ∀ k o, b.get? k = some o → 0 < o.quantity

def Through (b : Book) (n : ℤ) : Prop :=
  ∀ k o, b.get? k = some o → o.priority ≤ n

def sideTotal (b : Book) (side : Side) : ℤ :=
  b.sum fun _ o => if o.side = side then o.quantity else 0

/-! ## Entering and taking -/

variable {b : Book} {o : QueueOrder} {amount : ℤ} {e : QueueEvent} {n : ℤ}

theorem entered_sound (seen : Seen) (h : BookSound b) (hb : Through b n)
    (hn : n < e.sequence) (hq : 0 < e.quantity) :
    BookSound (entered b seen e).book ∧ Through (entered b seen e).book e.sequence := by
  have hget : ∀ k o, (entered b seen e).book.get? k = some o →
      (k = e.orderId ∧ o = ⟨e.orderId, e.side, e.price, e.quantity, e.sequence⟩) ∨
        (k ≠ e.orderId ∧ b.get? k = some o) := by
    intro k o ho
    rw [entered, Dict.get?_set] at ho
    split at ho
    · next hk => exact Or.inl ⟨hk, (Option.some_inj.mp ho).symm⟩
    · next hk => exact Or.inr ⟨hk, ho⟩
  refine ⟨⟨?_, ?_, ?_⟩, ?_⟩
  · intro k o ho
    rcases hget k o ho with ⟨rfl, rfl⟩ | ⟨-, ho⟩
    · rfl
    · exact h.named k o ho
  · intro k o j p ho hp heq
    rcases hget k o ho with ⟨rfl, rfl⟩ | ⟨-, ho⟩ <;>
      rcases hget j p hp with ⟨rfl, rfl⟩ | ⟨-, hp⟩
    · rfl
    · have hle := hb j p hp
      rw [← heq] at hle
      exact absurd hle (not_le.mpr hn)
    · have hle := hb k o ho
      rw [heq] at hle
      exact absurd hle (not_le.mpr hn)
    · exact h.distinct k o j p ho hp heq
  · intro k o ho
    rcases hget k o ho with ⟨rfl, rfl⟩ | ⟨-, ho⟩
    · exact hq
    · exact h.positive k o ho
  · intro k o ho
    rcases hget k o ho with ⟨rfl, rfl⟩ | ⟨-, ho⟩
    · exact le_rfl
    · exact (hb k o ho).trans hn.le

variable {key : String}

theorem takeFrom_get? {k : String} {p : QueueOrder} (hkey : b.get? key = some o)
    (hp : (takeFrom b o key amount).get? k = some p) :
    ∃ p', b.get? k = some p' ∧ p.orderId = p'.orderId ∧ p.priority = p'.priority ∧
      (p = p' ∨ k = key ∧ p.quantity = o.quantity - amount ∧ p.quantity ≠ 0) := by
  unfold takeFrom at hp
  split at hp
  · rw [Dict.get?_erase] at hp
    split at hp
    · cases hp
    · exact ⟨p, hp, rfl, rfl, Or.inl rfl⟩
  · next hleft =>
      rw [Dict.get?_set] at hp
      split at hp
      · next heq =>
          subst heq
          obtain rfl := Option.some_inj.mp hp
          exact ⟨o, hkey, rfl, rfl, Or.inr ⟨rfl, rfl, hleft⟩⟩
      · exact ⟨p, hp, rfl, rfl, Or.inl rfl⟩

theorem takeFrom_get?_ne {key k : String} (h : k ≠ key) :
    (takeFrom b o key amount).get? k = b.get? k := by
  unfold takeFrom
  split
  · rw [Dict.get?_erase, if_neg h]
  · exact Dict.get?_set_of_ne h

theorem takeFrom_sound (h : BookSound b) (hb : Through b n)
    (hkey : b.get? key = some o) (hamount : amount ≤ o.quantity) :
    BookSound (takeFrom b o key amount) ∧ Through (takeFrom b o key amount) n := by
  refine ⟨⟨?_, ?_, ?_⟩, ?_⟩
  · intro k p hp
    obtain ⟨p', hp', hname, -⟩ := takeFrom_get? hkey hp
    rw [hname]
    exact h.named k p' hp'
  · intro k p j q hp hq heq
    obtain ⟨p', hp', -, hpriority, -⟩ := takeFrom_get? hkey hp
    obtain ⟨q', hq', -, hpriority', -⟩ := takeFrom_get? hkey hq
    rw [hpriority, hpriority'] at heq
    exact h.distinct k p' j q' hp' hq' heq
  · intro k p hp
    obtain ⟨p', hp', -, -, rfl | ⟨-, hleft, hne⟩⟩ := takeFrom_get? hkey hp
    · exact h.positive k p hp'
    · omega
  · intro k p hp
    obtain ⟨p', hp', -, hpriority, -⟩ := takeFrom_get? hkey hp
    rw [hpriority]
    exact hb k p' hp'

theorem takeFrom_total (hkey : b.get? key = some o) (side : Side) :
    sideTotal (takeFrom b o key amount) side =
      sideTotal b side - if o.side = side then amount else 0 := by
  unfold takeFrom
  split
  · next hzero =>
      have hsum := b.sum_erase key fun _ p => if p.side = side then p.quantity else 0
      rw [hkey, Option.elim_some] at hsum
      rw [sideTotal, sideTotal, ← hsum]
      split
      · omega
      · omega
  · have hsum := Dict.sum_set_old (v := { o with quantity := o.quantity - amount })
      (f := fun _ (p : QueueOrder) => if p.side = side then p.quantity else 0) hkey
    rw [sideTotal, hsum, sideTotal]
    dsimp only
    split
    · omega
    · omega

/-! ## One event -/

structure BestClaim (b : Book) (price : ℚ) (o : QueueOrder) : Prop where
  rests : ∃ k, b.get? k = some o
  reaches : o.reaches price = true
  best : ∀ k p, b.get? k = some p → p.side = o.side → p.reaches price = true →
    p = o ∨ o.rank < p.rank

structure Accounted (b : Book) (e : QueueEvent) (r : Replayed) : Prop where
  entry : e.eventType = .add → r.matched = none ∧ ∀ side,
    sideTotal r.book side = sideTotal b side + if e.side = side then e.quantity else 0
  exit : e.eventType = .cancel → r.matched = none ∧ ∀ side,
    sideTotal r.book side = sideTotal b side - if e.side = side then e.quantity else 0
  trade : e.eventType = .trade → ∃ m, r.matched = some m ∧
    (∀ side, sideTotal r.book side = sideTotal b side - e.quantity) ∧
    ∀ side, (m.on side).side = side ∧ BestClaim b e.price (m.on side)

theorem adequate_ok (h : historicalEvent.adequate b e = .ok o) :
    b.get? e.orderId = some o ∧ o.side = e.side ∧ e.quantity ≤ o.quantity := by
  simp only [historicalEvent.adequate, bind_ok, need_ok, refuse_ok, pure_ok, not_or, not_not,
    not_lt] at h
  obtain ⟨old, hold, -, ⟨hside, hfits⟩, rfl⟩ := h
  exact ⟨hold, hside, hfits⟩

theorem rank_ne {p : QueueOrder} (h : o.priority ≠ p.priority) : o.rank ≠ p.rank := by
  intro heq
  have hrest := (Prod.mk.inj (toLex.injective heq)).2
  exact h (Prod.mk.inj (toLex.injective hrest)).1

theorem bestClaim_of_not_overtaken {k : String} {price : ℚ} (h : BookSound b)
    (hk : b.get? k = some o) (hreach : o.reaches price = true) (hfirst : ¬ overtaken b o price) :
    BestClaim b price o := by
  refine ⟨⟨k, hk⟩, hreach, fun j p hp hside hp' => ?_⟩
  have hle : o.rank ≤ p.rank := not_lt.mp fun hlt =>
    hfirst ⟨p, Dict.mem_values.mpr ⟨j, hp⟩, hside, hp', hlt⟩
  by_cases hsame : o.priority = p.priority
  · have hkeys := h.distinct k o j p hk hp hsame
    rw [← hkeys, hk] at hp
    exact Or.inl (Option.some_inj.mp hp).symm
  · exact Or.inr (lt_of_le_of_ne hle (rank_ne hsame))

theorem opposite_sides {s t : Side} (h : s ≠ t) (side : Side) :
    (if s = side then 1 else 0) + (if t = side then 1 else 0) = 1 := by
  revert h
  cases s <;> cases t <;> cases side <;> decide

def participants (old contra : QueueOrder) : Matched :=
  match old.side with
  | .buy => ⟨old, contra⟩
  | .sell => ⟨contra, old⟩

theorem participants_side {old contra : QueueOrder} (h : contra.side ≠ old.side) (side : Side) :
    ((participants old contra).on side).side = side := by
  unfold participants
  cases hold : old.side <;> cases hcontra : contra.side <;> rw [hold, hcontra] at h <;>
    first
      | exact absurd rfl h
      | cases side with
        | buy => first | exact hold | exact hcontra
        | sell => first | exact hold | exact hcontra

theorem matched_claims {k j : String} {old contra : QueueOrder} {price : ℚ} (h : BookSound b)
    (hk : b.get? k = some old) (hj : b.get? j = some contra) (hopposite : contra.side ≠ old.side)
    (hprices : (participants old contra).sell.price ≤ price ∧
      price ≤ (participants old contra).buy.price)
    (hfirst : ¬ overtaken b (participants old contra).buy price ∧
      ¬ overtaken b (participants old contra).sell price) (side : Side) :
    ((participants old contra).on side).side = side ∧
      BestClaim b price ((participants old contra).on side) := by
  have hbuy : ∀ o : QueueOrder, o.side = .buy → price ≤ o.price → o.reaches price = true :=
    fun o ho hle => by rw [QueueOrder.reaches, ho]; exact decide_eq_true hle
  have hsell : ∀ o : QueueOrder, o.side = .sell → o.price ≤ price → o.reaches price = true :=
    fun o ho hle => by rw [QueueOrder.reaches, ho]; exact decide_eq_true hle
  unfold participants at hprices hfirst ⊢
  cases hold : old.side with
  | buy =>
      have hcontra : contra.side = .sell := by
        rw [hold] at hopposite
        cases hc : contra.side with
        | buy => exact absurd hc hopposite
        | sell => rfl
      rw [hold] at hprices hfirst
      cases side with
      | buy => exact ⟨hold, bestClaim_of_not_overtaken h hk (hbuy _ hold hprices.2) hfirst.1⟩
      | sell =>
          exact ⟨hcontra, bestClaim_of_not_overtaken h hj (hsell _ hcontra hprices.1) hfirst.2⟩
  | sell =>
      have hcontra : contra.side = .buy := by
        rw [hold] at hopposite
        cases hc : contra.side with
        | buy => rfl
        | sell => exact absurd hc hopposite
      rw [hold] at hprices hfirst
      cases side with
      | buy =>
          exact ⟨hcontra, bestClaim_of_not_overtaken h hj (hbuy _ hcontra hprices.2) hfirst.1⟩
      | sell => exact ⟨hold, bestClaim_of_not_overtaken h hk (hsell _ hold hprices.1) hfirst.2⟩

theorem historicalEvent_sound {seen : Seen} {r : Replayed}
    (h : historicalEvent b seen e = .ok r) (hb : BookSound b) (hseen : BookSeen b seen)
    (hn : Through b n) (hlater : n < e.sequence) (hq : 0 < e.quantity) :
    BookSound r.book ∧ Through r.book e.sequence ∧ Accounted b e r := by
  have hweaken : ∀ {c : Book}, Through c n → Through c e.sequence := fun hc k o ho =>
    (hc k o ho).trans hlater.le
  cases htype : e.eventType with
  | add =>
      obtain ⟨hfree, rfl⟩ := (historicalEvent_adds (QueueEvent.adds_iff.mpr htype)).mp h
      obtain ⟨hsound, hthrough⟩ := entered_sound seen hb hn hlater hq
      have hnew : b.get? e.orderId = none := by
        rw [← Option.not_isSome_iff_eq_none]
        exact fun hrests => absurd (hfree.symm.trans (hseen _ hrests)) Bool.false_ne_true
      refine ⟨hsound, hthrough, ⟨fun _ => ⟨rfl, fun side => ?_⟩, ?_, ?_⟩⟩
      · exact Dict.sum_set_new hnew
      · intro h
        rw [htype] at h
        cases h
      · intro h
        rw [htype] at h
        cases h
  | cancel =>
      simp only [historicalEvent, htype, bind_ok, refuse_ok, pure_ok] at h
      obtain ⟨old, hold, -, -, rfl⟩ := h
      obtain ⟨hold, hside, hfits⟩ := adequate_ok hold
      obtain ⟨hsound, hthrough⟩ := takeFrom_sound hb hn hold hfits
      refine ⟨hsound, hweaken hthrough, ⟨?_, fun _ => ⟨rfl, fun side => ?_⟩, ?_⟩⟩
      · intro h
        rw [htype] at h
        cases h
      · rw [← hside]
        exact takeFrom_total hold side
      · intro h
        rw [htype] at h
        cases h
  | trade =>
      simp only [historicalEvent, htype, bind_ok, need_ok, refuse_ok, pure_ok] at h
      obtain ⟨old, hold, cid, -, contra, hcontra, -, hcfit, -, hprices, -, hfirst, rfl⟩ := h
      obtain ⟨hold, hside, hfits⟩ := adequate_ok hold
      rw [not_or, not_lt] at hcfit
      obtain ⟨hcside, hcfits⟩ := hcfit
      rw [not_or] at hfirst
      rw [not_not] at hprices
      have hne : e.orderId ≠ cid := by
        intro heq
        rw [heq, hcontra] at hold
        exact hcside (Option.some_inj.mp hold ▸ hside)
      have hold' : (takeFrom b contra cid e.quantity).get? e.orderId = some old := by
        rw [takeFrom_get?_ne hne, hold]
      obtain ⟨hsound, hthrough⟩ := takeFrom_sound hb hn hcontra hcfits
      obtain ⟨hsound, hthrough⟩ := takeFrom_sound hsound hthrough hold' hfits
      refine ⟨hsound, hweaken hthrough, ⟨?_, ?_, fun _ => ⟨_, rfl, fun side => ?_, ?_⟩⟩⟩
      · intro h
        rw [htype] at h
        cases h
      · intro h
        rw [htype] at h
        cases h
      · rw [takeFrom_total hold' side, takeFrom_total hcontra side]
        have hone := opposite_sides (hside ▸ hcside) side
        split_ifs at hone ⊢ <;> omega
      · exact matched_claims hb hold hcontra (hside ▸ hcside) hprices hfirst

/-! ## A capture's events -/

theorem replayHistory_sound {c : Book} {seen s : Seen} {ts : List QueueTick}
    (h : replayHistory b seen ts = .ok (c, s)) (hb : BookSound b) (hn : Through b n)
    (hseen : BookSeen b seen) (hsequenced : Sequenced ts)
    (hticks : ∀ t ∈ ts, n < t.event.sequence ∧ 0 < t.event.quantity) :
    BookSound c ∧ BookSeen c s ∧ ∀ m, n ≤ m → (∀ t ∈ ts, t.event.sequence ≤ m) → Through c m := by
  have hseen' := replayHistory_bookSeen h hseen
  suffices BookSound c ∧ ∀ m, n ≤ m → (∀ t ∈ ts, t.event.sequence ≤ m) → Through c m from
    ⟨this.1, hseen', this.2⟩
  induction ts generalizing b seen n with
  | nil =>
      cases h
      exact ⟨hb, fun m hm _ k o ho => (hn k o ho).trans hm⟩
  | cons t ts ih =>
      obtain ⟨r, hr, hrest⟩ := replayHistory_cons.mp h
      obtain ⟨hlater, hq⟩ := hticks t List.mem_cons_self
      obtain ⟨hsound, hthrough, -⟩ := historicalEvent_sound hr hb hseen hn hlater hq
      obtain ⟨hfirst, hsequenced⟩ := List.pairwise_cons.mp hsequenced
      have hone : replayHistory b seen [t] = .ok (r.book, r.seen) :=
        replayHistory_cons.mpr ⟨r, hr, rfl⟩
      obtain ⟨hc, hlast⟩ := ih hrest hsound hthrough (replayHistory_bookSeen hone hseen)
        hsequenced
        fun u hu => ⟨hfirst u hu, (hticks u (List.mem_cons_of_mem _ hu)).2⟩
      exact ⟨hc, fun m _ hm => hlast m (hm t List.mem_cons_self) fun u hu =>
        hm u (List.mem_cons_of_mem _ hu)⟩

structure SnapshotSound (s : QueueSnapshot) (start : ℤ) : Prop where
  named : (s.orders.map QueueOrder.orderId).Nodup
  ranked : (s.orders.map QueueOrder.priority).Nodup
  before : ∀ o ∈ s.orders, o.priority ≤ start - 1

theorem validateCapture_snapshot {e : QueueMarket} {volumes : Volumes}
    (h : validateCapture spec e = .ok volumes) :
    SnapshotSound e.snapshot e.capture.startSequence := by
  simp only [validateCapture, bind_ok, refuse_ok, not_or, not_not, not_exists, not_and] at h
  obtain ⟨-, ⟨-, -, -, -, hlast, -⟩, -, -, -, -, -, -, -, ⟨hnamed, hranked⟩, -, horders, -⟩ := h
  refine ⟨hnamed, hranked, fun o ho => ?_⟩
  rw [← hlast]
  exact not_lt.mp (horders o ho).1

theorem snapshotBook_sound {s : QueueSnapshot} {start : ℤ} (h : SnapshotSound s start)
    (hq : ∀ o ∈ s.orders, 0 < o.quantity) :
    BookSound (snapshotBook s) ∧ Through (snapshotBook s) (start - 1) := by
  have hget : ∀ k o, (snapshotBook s).get? k = some o → o ∈ s.orders ∧ o.orderId = k := by
    intro k o ho
    obtain ⟨p, hp, heq⟩ := List.mem_map.mp (Dict.get?_ofList ho)
    obtain ⟨rfl, rfl⟩ := Prod.mk.inj heq
    exact ⟨hp, rfl⟩
  refine ⟨⟨fun k o ho => (hget k o ho).2, ?_, fun k o ho => hq o (hget k o ho).1⟩,
    fun k o ho => h.before o (hget k o ho).1⟩
  intro k o j p ho hp heq
  obtain ⟨hmem, rfl⟩ := hget k o ho
  obtain ⟨hmem', rfl⟩ := hget j p hp
  rw [List.inj_on_of_nodup_map h.ranked hmem hmem' heq]

theorem capture_sound {e : QueueMarket} {volumes : Volumes}
    (h : validateCapture spec e = .ok volumes) (hpositive : PositiveShares e) {seen s : Seen}
    (hopened : SeenWithin (seenOf (snapshotBook e.snapshot)) seen) {ts : List QueueTick}
    (hts : ts.Sublist e.events)
    (hreplay : replayHistory (snapshotBook e.snapshot) seen ts = .ok (b, s)) :
    BookSound b ∧ BookSeen b s ∧
      ∀ m, e.capture.startSequence - 1 ≤ m → (∀ t ∈ ts, t.event.sequence ≤ m) → Through b m := by
  obtain ⟨hsequenced, hrange⟩ := validateCapture_ok h
  obtain ⟨hsound, hthrough⟩ :=
    snapshotBook_sound (validateCapture_snapshot h) hpositive.resting
  refine replayHistory_sound hreplay hsound hthrough ?_ (hsequenced.sublist hts) fun t ht => ?_
  · exact fun k hk => hopened k (by rw [seenOf_contains]; exact hk)
  · have hfirst := (hrange t (hts.subset ht)).1
    exact ⟨by omega, hpositive.traded t (hts.subset ht)⟩

/-! ## Streams -/

def StreamsValid (spec : AccountSpec) (w : World) : Prop :=
  ∀ k q, w.execution.queues.get? k = some q →
    ∃ volumes, validateCapture spec q.market = .ok volumes

theorem reachable_streamsValid {w : World} (h : Reachable spec w) : StreamsValid spec w := by
  refine h.invariant (fun k q hq => by cases hq) fun w c w' _ hw hstep _ => ?_
  cases step_market hstep with
  | same hsame =>
      intro k q hq
      rw [hsame.queues] at hq
      exact hw k q hq
  | minute hminute =>
      intro k q hq
      rw [hminute.queues] at hq
      exact hw k q hq
  | queue hqueue =>
      intro k q hq
      rw [hqueue.execution, Dict.get?_set] at hq
      split at hq
      · cases hq
        exact ⟨_, hqueue.valid⟩
      · rw [hqueue.streams.queues] at hq
        exact hw k q hq

/-- The historical book keeps its integrity. Whatever prefix of a valid capture
has been accepted, the orders that rest have identities and priorities of their
own and shares left; and the next event to be accepted enters or withdraws
exactly its shares on its side, or takes them from both sides and then trades
between the best claims to its price. The book every stream of a run has reached
is one of these. -/
theorem historical_book_integrity (spec : AccountSpec) :
    (∀ e volumes, validateCapture spec e = .ok volumes → PositiveShares e →
      ∀ seen, SeenWithin (seenOf (snapshotBook e.snapshot)) seen →
      ∀ ts, ts <+: e.events →
      ∀ b s, replayHistory (snapshotBook e.snapshot) seen ts = .ok (b, s) →
        BookSound b ∧
        ∀ t, ts ++ [t] <+: e.events → ∀ r, historicalEvent b s t.event = .ok r →
          BookSound r.book ∧ Accounted b t.event r) ∧
    ∀ w, Reachable spec w → ∀ k q, w.execution.queues.get? k = some q →
      PositiveShares q.market →
      BookSound q.book ∧ ∃ seen, SeenWithin (seenOf (snapshotBook q.market.snapshot)) seen ∧
        replayHistory (snapshotBook q.market.snapshot) seen
          (ticksThrough q.market q.lastSequence) = .ok (q.book, q.seen) := by
  constructor
  · intro e volumes hvalid hpositive seen hopened ts hts b s hreplay
    obtain ⟨hsound, hseen, hthrough⟩ :=
      capture_sound hvalid hpositive hopened hts.sublist hreplay
    refine ⟨hsound, fun t ht r hr => ?_⟩
    obtain ⟨hsequenced, hrange⟩ := validateCapture_ok hvalid
    have hmem : t ∈ e.events := ht.subset (List.mem_append_right _ List.mem_cons_self)
    -- The next event comes after all before it, so the book holds no priority like it.
    have hbefore : ∀ u ∈ ts, u.event.sequence < t.event.sequence := fun u hu =>
      (List.pairwise_append.mp (hsequenced.sublist ht.sublist)).2.2 u hu t List.mem_cons_self
    have hlast := hthrough (t.event.sequence - 1) (by have := (hrange t hmem).1; omega)
      fun u hu => by have := hbefore u hu; omega
    obtain ⟨hsound', -, haccounted⟩ := historicalEvent_sound hr hsound hseen hlast (by omega)
      (hpositive.traded t hmem)
    exact ⟨hsound', haccounted⟩
  · intro w hw k q hq hpositive
    obtain ⟨volumes, hvalid⟩ := reachable_streamsValid hw k q hq
    obtain ⟨seen, hreplaying⟩ := reachable_streamsReplaying hw k q hq
    exact ⟨(capture_sound hvalid hpositive hreplaying.opened List.filter_sublist
      hreplaying.history).1, seen, hreplaying.opened, hreplaying.history⟩

def tradedCapture : QueueMarket where
  security := sampleSecurity
  streamId := "level2"
  marketRule := sampleRule
  priceBounds := noBounds
  capture := ⟨true, .resume, sampleAt 0 600, sampleAt 0 610, 3, 4⟩
  snapshot := ⟨true, .resume, 2, [⟨"h1", .buy, 10, 100, 1⟩, ⟨"h2", .buy, 10, 50, 2⟩]⟩
  events := [
    ⟨sampleAt 0 601, ⟨3, .resume, .add, "h3", .sell, 10, 60, none⟩, none⟩,
    ⟨sampleAt 0 610, ⟨4, .resume, .trade, "h3", .sell, 10, 60, some "h1"⟩,
      some (sampleAt 0 609)⟩]
  volumes := [⟨sampleAt 0 609, sampleAt 0 610, 60, "hash", "source"⟩]
  auction := some ⟨.resume, some 10, 60⟩
  routeReason := .resumptionAuction
  availability := ⟨sampleAt 0 610, ""⟩
  sourceRefs := ["source"]
  sourceHash := "hash"
  corporateActionsComplete := true

def lastTrades (e : QueueMarket) (shares : ℤ) : Bool :=
  match replayHistory (snapshotBook e.snapshot) (seenOf (snapshotBook e.snapshot))
    e.events.dropLast, e.events.getLast? with
  | .ok (b, s), some t => sideTotal b .buy = shares && (historicalEvent b s t.event).isOk
  | _, _ => false

theorem historical_book_integrity_sample : ∃ b r, ∃ t ∈ tradedCapture.events,
    t.event.eventType = .trade ∧ BookSound b ∧ sideTotal b .buy = 150 ∧ BookSound r.book ∧
      Accounted b t.event r := by
  obtain ⟨volumes, hvalid⟩ :=
    isOk_iff.mp (by decide +kernel : (validateCapture sampleSpec tradedCapture).isOk = true)
  have hpositive : PositiveShares tradedCapture := ⟨by decide +kernel, by decide +kernel⟩
  have hlast : lastTrades tradedCapture 150 = true := by decide +kernel
  unfold lastTrades at hlast
  split at hlast
  · next b s t hreplay ht =>
      obtain ⟨htotal, hr⟩ := Bool.and_eq_true_iff.mp hlast
      obtain ⟨r, hr⟩ := isOk_iff.mp hr
      obtain rfl := Option.some_inj.mp ht
      obtain ⟨hsound, hnext⟩ := (historical_book_integrity sampleSpec).1 _ _ hvalid hpositive _
        (fun _ hk => hk) _ (List.dropLast_prefix _) _ _ hreplay
      obtain ⟨hsound', haccounted⟩ := hnext _ (List.prefix_refl _) r hr
      exact ⟨b, r, _, List.mem_cons_of_mem _ List.mem_cons_self, rfl, hsound,
        of_decide_eq_true htotal, hsound', haccounted⟩
  · cases hlast

end Ahunter.Sim
