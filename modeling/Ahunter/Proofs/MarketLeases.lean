import Ahunter.Proofs.MarketRuns

/-!
# Who may end an item

Workers claim items, renew their claims and mark items, each in transactions
of its own, and marking does not ask who marks. So that a worker ends only
what it holds is up to the worker: it has to go by what it was last granted.
The lease a worker was granted is its own knowledge, kept here beside the
tables, and as long as every worker goes by its own the tables agree with all
of them.
-/

namespace Ahunter.Market

open Ahunter.Lib
open Ahunter.Sim (Instant Stamp)

/-! ## Workers -/

/-- A call a worker makes at an instant. -/
structure Event where
  caller : String
  call : Call
  now : Stamp

/-- The tables, the time, and the end of the lease each worker was last
granted for an item and has not used up. -/
structure System where
  control : Control
  clock : Instant
  held : String → ItemKey → Option Instant

def System.start (clock : Instant) : System := ⟨Control.empty, clock, fun _ _ => none⟩

def Event.grant (e : Event) (c : Control) : Option (ItemKey × Instant) :=
  match e.call with
  | .claimItem runId code owner leaseSeconds =>
      match claimItem runId code owner e.now leaseSeconds c with
      | .ok (true, _) => some (itemKey (strip runId) code, (plusSeconds e.now leaseSeconds).instant)
      | _ => none
  | .renewItemClaim runId code owner leaseSeconds =>
      match renewItemClaim runId code owner e.now leaseSeconds c with
      | .ok (true, _) => some (itemKey (strip runId) code, (plusSeconds e.now leaseSeconds).instant)
      | _ => none
  | _ => none

def Event.ended (e : Event) (c : Control) : Option ItemKey :=
  match e.call with
  | .markItem runId code status source =>
      match markItem runId code status e.now source c with
      | .ok _ => if status.terminal then some (itemKey (strip runId) code) else none
      | .error _ => none
  | _ => none

def Event.holds (e : Event) (s : System) (w : String) (k : ItemKey) : Option Instant :=
  if w = e.caller then
    match e.grant s.control with
    | some (granted, t) => if k = granted then some t else s.held w k
    | none => if e.ended s.control = some k then none else s.held w k
  else s.held w k

def Event.after (digest : IdempotencyKey → String) (e : Event) (s : System) : System where
  control := e.call.after digest e.now s.control
  clock := e.now.instant
  held := e.holds s

structure Event.Allowed (e : Event) (s : System) : Prop where
  later : s.clock ≤ e.now.instant
  claims : ∀ runId code owner leaseSeconds,
    e.call = .claimItem runId code owner leaseSeconds → strip owner = e.caller
  renews : ∀ runId code owner leaseSeconds,
    e.call = .renewItemClaim runId code owner leaseSeconds → strip owner = e.caller

inductive Reaches (digest : IdempotencyKey → String) (P : Event → System → Prop) :
    System → Prop
  | start (clock : Instant) : Reaches digest P (System.start clock)
  | next {s : System} (h : Reaches digest P s) {e : Event} (hallowed : e.Allowed s)
      (hP : P e s) : Reaches digest P (e.after digest s)

def Holder (c : Control) (k : ItemKey) (w : String) (now : Stamp) : Prop :=
  ∃ item, c.items.get? k = some item ∧ item.status = .running ∧ item.claimedBy = some w ∧
    item.expired now = false

def Ends (c c' : Control) (k : ItemKey) : Prop :=
  ∃ item item', c.items.get? k = some item ∧ item.status.terminal = false ∧
    c'.items.get? k = some item' ∧ item'.status.terminal = true

def InLease (s : System) (w : String) (k : ItemKey) (now : Stamp) : Prop :=
  ∃ t, s.held w k = some t ∧ now.instant < t

/-- What keeps the claims fenced: a worker that ends an open item does so
within its own lease, and a recovery finds no unexpired claim in the runs it
puts back. -/
structure InTime (e : Event) (s : System) : Prop where
  marks : ∀ runId code status source run item, e.call = .markItem runId code status source →
    status.terminal = true → s.control.runs.get? (strip runId) = some run →
    run.status = .running → s.control.items.get? (itemKey (strip runId) code) = some item →
    item.status.terminal = false → InLease s e.caller (itemKey (strip runId) code) e.now
  recovers : ∀ leaseSeconds k item, e.call = .recoverExpiredWork leaseSeconds →
    s.control.stale e.now k.runId → s.control.items.get? k = some item →
    item.status = .running → item.expired e.now = true

/-! ## Leases and rows -/

variable {s : System}

structure ItemRow.HeldBy (item : ItemRow) (w : String) (t : Instant) : Prop where
  running : item.status = .running
  claimed : item.claimedBy = some w
  expires : ∃ at_, item.claimExpiresAt = some at_ ∧ at_.instant = t

theorem ItemRow.HeldBy.live {item : ItemRow} {w : String} {t : Instant}
    (h : item.HeldBy w t) {now : Stamp} (hnow : now.instant < t) : item.expired now = false := by
  obtain ⟨at_, hat, rfl⟩ := h.expires
  rw [ItemRow.expired, hat, Option.all_some, decide_eq_false_iff_not]
  exact not_le.mpr hnow

theorem ItemRow.HeldBy.holder {item : ItemRow} {w w' : String} {t : Instant}
    (h : item.HeldBy w t) (hclaimed : item.claimedBy = some w') : w' = w := by
  rw [h.claimed, Option.some.injEq] at hclaimed
  exact hclaimed.symm

structure Agree (s : System) : Prop where
  own : ∀ w k t, s.held w k = some t → s.clock < t →
    ∃ item, s.control.items.get? k = some item ∧ item.HeldBy w t
  granted : ∀ k item w, s.control.items.get? k = some item → item.claimedBy = some w →
    ∃ at_, item.claimExpiresAt = some at_ ∧ s.held w k = some at_.instant

theorem Agree.start (clock : Instant) : Agree (System.start clock) where
  own := fun w k t h => by cases h
  granted := fun k item w h => by cases h

theorem Agree.holder_iff (h : Agree s) {w : String} {k : ItemKey} {now : Stamp}
    (hnow : s.clock ≤ now.instant) : Holder s.control k w now ↔ InLease s w k now := by
  constructor
  · rintro ⟨item, hitem, -, hclaimed, hlive⟩
    obtain ⟨at_, hat, hheld⟩ := h.granted k item w hitem hclaimed
    refine ⟨at_.instant, hheld, ?_⟩
    rw [ItemRow.expired, hat, Option.all_some, decide_eq_false_iff_not, not_le] at hlive
    exact hlive
  · rintro ⟨t, hheld, ht⟩
    obtain ⟨item, hitem, hrow⟩ := h.own w k t hheld (lt_of_le_of_lt hnow ht)
    exact ⟨item, hitem, hrow.running, hrow.claimed, hrow.live ht⟩

section Steps

variable {digest : IdempotencyKey → String} {s : System} {e : Event}

theorem Event.holds_aside (hgrant : e.grant s.control = none)
    (hended : e.ended s.control = none) : e.holds s = s.held := by
  funext w k
  rw [Event.holds, hgrant, hended]
  simp

variable {k : ItemKey}

theorem Event.holds_granted {t : Instant} (hgrant : e.grant s.control = some (k, t))
    (w : String) (j : ItemKey) :
    e.holds s w j = if w = e.caller ∧ j = k then some t else s.held w j := by
  rw [Event.holds, hgrant]
  by_cases hw : w = e.caller <;> by_cases hj : j = k <;> simp [hw, hj]

theorem Event.holds_ended (hgrant : e.grant s.control = none)
    (hended : e.ended s.control = some k) (w : String) (j : ItemKey) :
    e.holds s w j = if w = e.caller ∧ j = k then none else s.held w j := by
  rw [Event.holds, hgrant, hended]
  by_cases hw : w = e.caller
  · by_cases hj : j = k
    · simp [hw, hj]
    · simp [hw, hj, Ne.symm hj]
  · simp [hw]

theorem Agree.keep (h : Agree s) (hlater : s.clock ≤ e.now.instant) (hheld : e.holds s = s.held)
    (hrows : ∀ k item, s.control.items.get? k = some item →
      item.status = .running → item.claimedBy ≠ none → item.expired e.now = false →
      ∃ item', (e.call.after digest e.now s.control).items.get? k = some item' ∧
        item'.status = .running ∧ item'.claimedBy = item.claimedBy ∧
        item'.claimExpiresAt = item.claimExpiresAt)
    (hback : ∀ k item', (e.call.after digest e.now s.control).items.get? k = some item' →
      item'.claimedBy ≠ none → ∃ item, s.control.items.get? k = some item ∧
        item'.claimedBy = item.claimedBy ∧ item'.claimExpiresAt = item.claimExpiresAt) :
    Agree (e.after digest s) where
  own := by
    intro w k t hw ht
    rw [show (e.after digest s).held = s.held from hheld] at hw
    obtain ⟨item, hitem, hrow⟩ := h.own w k t hw (lt_of_le_of_lt hlater ht)
    obtain ⟨item', hitem', hrunning, hclaimed, hexpires⟩ := hrows k item hitem hrow.running
      (by rw [hrow.claimed]; exact Option.some_ne_none w) (hrow.live ht)
    exact ⟨item', hitem', hrunning, by rw [hclaimed]; exact hrow.claimed,
      by rw [hexpires]; exact hrow.expires⟩
  granted := by
    intro k item' w hitem' hclaimed
    obtain ⟨item, hitem, hsame, hexpires⟩ := hback k item' hitem'
      (by rw [hclaimed]; exact Option.some_ne_none w)
    rw [hexpires, show (e.after digest s).held = s.held from hheld]
    exact h.granted k item w hitem (by rw [← hsame]; exact hclaimed)

theorem Agree.keep_items (h : Agree s) (hlater : s.clock ≤ e.now.instant)
    (hheld : e.holds s = s.held)
    (hitems : (e.call.after digest e.now s.control).items = s.control.items) :
    Agree (e.after digest s) := by
  refine h.keep hlater hheld (fun k item hitem hrunning _ _ => ?_) fun k item' hitem' _ => ?_
  · exact ⟨item, by rw [hitems]; exact hitem, hrunning, rfl, rfl⟩
  · exact ⟨item', by rw [← hitems]; exact hitem', rfl, rfl⟩

theorem Agree.grant (h : Agree s) (hlater : s.clock ≤ e.now.instant)
    {item row : ItemRow} {at_ : Stamp} (hitem : s.control.items.get? k = some item)
    (hgrant : e.grant s.control = some (k, at_.instant))
    (hitems : (e.call.after digest e.now s.control).items = s.control.items.set k row)
    (hfree : ∀ w t, item.HeldBy w t → e.now.instant < t → w = e.caller)
    (hrow : row.HeldBy e.caller at_.instant) (hat : row.claimExpiresAt = some at_) :
    Agree (e.after digest s) where
  own := by
    intro w j t hw ht
    rw [show (e.after digest s).held = e.holds s from rfl, Event.holds_granted hgrant] at hw
    show ∃ item, (e.call.after digest e.now s.control).items.get? j = some item ∧ _
    rw [hitems, Dict.get?_set]
    split at hw
    · next hown =>
        cases hw
        obtain ⟨rfl, rfl⟩ := hown
        rw [if_pos rfl]
        exact ⟨row, rfl, hrow⟩
    · next hother =>
        obtain ⟨item', hitem', hheld⟩ := h.own w j t hw (lt_of_le_of_lt hlater ht)
        have hj : j ≠ k := by
          rintro rfl
          rw [hitem, Option.some.injEq] at hitem'
          subst hitem'
          exact hother ⟨hfree w t hheld ht, rfl⟩
        rw [if_neg hj]
        exact ⟨item', hitem', hheld⟩
  granted := by
    intro j item' w hitem' hclaimed
    rw [show (e.after digest s).held = e.holds s from rfl, Event.holds_granted hgrant]
    rw [show (e.after digest s).control.items = s.control.items.set k row from hitems,
      Dict.get?_set] at hitem'
    split at hitem'
    · next hj =>
        cases hitem'
        have hw := hrow.holder hclaimed
        exact ⟨at_, hat, by rw [if_pos ⟨hw, hj⟩]⟩
    · next hj =>
        rw [if_neg fun hboth => hj hboth.2]
        exact h.granted j item' w hitem' hclaimed

theorem Agree.ended (h : Agree s) (hlater : s.clock ≤ e.now.instant)
    {item row : ItemRow} (hitem : s.control.items.get? k = some item)
    (hgrant : e.grant s.control = none) (hended : e.ended s.control = some k)
    (hfree : ∀ w t, item.HeldBy w t → e.now.instant < t → w = e.caller)
    (hrow : row.claimedBy = none)
    (hitems : (e.call.after digest e.now s.control).items = s.control.items.set k row) :
    Agree (e.after digest s) where
  own := by
    intro w j t hw ht
    rw [show (e.after digest s).held = e.holds s from rfl,
      Event.holds_ended hgrant hended] at hw
    split at hw
    · cases hw
    · next hother =>
        obtain ⟨item', hitem', hheld⟩ := h.own w j t hw (lt_of_le_of_lt hlater ht)
        have hj : j ≠ k := by
          rintro rfl
          rw [hitem, Option.some.injEq] at hitem'
          subst hitem'
          exact hother ⟨hfree w t hheld ht, rfl⟩
        refine ⟨item', ?_, hheld⟩
        show (e.call.after digest e.now s.control).items.get? j = some item'
        rw [hitems, Dict.get?_set_of_ne hj]
        exact hitem'
  granted := by
    intro j item' w hitem' hclaimed
    rw [show (e.after digest s).held = e.holds s from rfl, Event.holds_ended hgrant hended]
    rw [show (e.after digest s).control.items = s.control.items.set k row from hitems,
      Dict.get?_set] at hitem'
    split at hitem'
    · cases hitem'
      rw [hrow] at hclaimed
      cases hclaimed
    · next hj =>
        rw [if_neg fun hboth => hj hboth.2]
        exact h.granted j item' w hitem' hclaimed

theorem Agree.mark (h : Agree s) (hlater : s.clock ≤ e.now.instant) {runId code : String}
    {status : ItemStatus} {source : Option String}
    (hcall : e.call = .markItem runId code status source) (hin : InTime e s) :
    Agree (e.after digest s) := by
  have hgrant : e.grant s.control = none := by rw [Event.grant, hcall]
  cases hrun : markItem runId code status e.now source s.control with
  | error error =>
      have hsame : e.call.after digest e.now s.control = s.control := by
        rw [hcall, Call.after, Call.returns, hrun]
        rfl
      have hended : e.ended s.control = none := by rw [Event.ended, hcall]; dsimp only; rw [hrun]
      exact h.keep_items hlater (Event.holds_aside hgrant hended) (by rw [hsame])
  | ok result =>
      obtain ⟨u, c'⟩ := result
      have hafter : e.call.after digest e.now s.control = c' := by
        rw [hcall, Call.after, Call.returns, hrun]
        rfl
      obtain ⟨run, row, item, source', hget, hrunning, hitem, hopen, hstatus, -, hitems, -⟩ :=
        markItem_cases hrun
      by_cases hterminal : status.terminal = true
      · have hended : e.ended s.control = some (itemKey (strip runId) code) := by
          rw [Event.ended, hcall]
          dsimp only
          rw [hrun]
          exact if_pos hterminal
        refine h.ended hlater hitem hgrant hended (fun w t hheld ht => ?_) ?_
          (by rw [hafter]; exact hitems)
        · have hitemOpen : item.status.terminal = false := by rw [hheld.running]; rfl
          obtain ⟨t', hown, ht'⟩ := hin.marks runId code status source run item hcall hterminal
            hget hrunning hitem hitemOpen
          obtain ⟨item', hitem', hheld'⟩ := h.own _ _ t' hown (lt_of_le_of_lt hlater ht')
          rw [hitem, Option.some.injEq] at hitem'
          subst hitem'
          exact hheld'.holder hheld.claimed
        · rw [markedRow]
          exact if_pos hterminal
      · have hended : e.ended s.control = none := by
          rw [Event.ended, hcall]
          dsimp only
          rw [hrun]
          exact if_neg hterminal
        have hrunningStatus : status = .running := by
          cases status <;> simp_all [ItemStatus.terminal]
        refine h.keep hlater (Event.holds_aside hgrant hended) (fun k old hold hoping hc _ => ?_)
          fun k new hnew hc => ?_
        · rw [hafter, hitems, Dict.get?_set]
          split
          · next hk =>
              rw [hk, hitem, Option.some.injEq] at hold
              subst hold
              refine ⟨_, rfl, hrunningStatus, ?_, ?_⟩
              · rw [markedRow]
                exact if_neg hterminal
              · rw [markedRow]
                exact if_neg hterminal
          · exact ⟨old, hold, hoping, rfl, rfl⟩
        · rw [hafter, hitems, Dict.get?_set] at hnew
          split at hnew
          · next hk =>
              cases hnew
              refine ⟨item, by rw [hk]; exact hitem, ?_, ?_⟩
              · rw [markedRow]
                exact if_neg hterminal
              · rw [markedRow]
                exact if_neg hterminal
          · exact ⟨new, hnew, rfl, rfl⟩

theorem Agree.claim (h : Agree s) (hallowed : e.Allowed s) {runId code owner : String}
    {leaseSeconds : ℤ} (hcall : e.call = .claimItem runId code owner leaseSeconds) :
    Agree (e.after digest s) := by
  have hended : e.ended s.control = none := by rw [Event.ended, hcall]
  have howner := hallowed.claims runId code owner leaseSeconds hcall
  cases hrun : claimItem runId code owner e.now leaseSeconds s.control with
  | error error =>
      have hsame : e.call.after digest e.now s.control = s.control := by
        rw [hcall, Call.after, Call.returns, hrun]
        rfl
      have hgrant : e.grant s.control = none := by rw [Event.grant, hcall]; dsimp only; rw [hrun]
      exact h.keep_items hallowed.later (Event.holds_aside hgrant hended) (by rw [hsame])
  | ok result =>
      obtain ⟨granted, c'⟩ := result
      have hafter : e.call.after digest e.now s.control = c' := by
        rw [hcall, Call.after, Call.returns, hrun]
        rfl
      rcases claimItem_cases hrun with ⟨rfl, rfl⟩ |
        ⟨rfl, run, item, -, -, hitem, -, hfree, rfl⟩
      · have hgrant : e.grant s.control = none := by
          rw [Event.grant, hcall]
          dsimp only
          rw [hrun]
        exact h.keep_items hallowed.later (Event.holds_aside hgrant hended) (by rw [hafter])
      · have hgrant : e.grant s.control
            = some (itemKey (strip runId) code, (plusSeconds e.now leaseSeconds).instant) := by
          rw [Event.grant, hcall]
          dsimp only
          rw [hrun]
        refine h.grant hallowed.later hitem hgrant (by rw [hafter]; rfl)
          (fun w t hheld ht => ?_) ⟨rfl, by rw [← howner]; rfl, _, rfl, rfl⟩ rfl
        by_contra hne
        have hexpired := hfree hheld.running ⟨w, hheld.claimed, by rw [howner]; exact hne⟩
        rw [hheld.live ht] at hexpired
        cases hexpired

theorem Agree.renew (h : Agree s) (hallowed : e.Allowed s) {runId code owner : String}
    {leaseSeconds : ℤ} (hcall : e.call = .renewItemClaim runId code owner leaseSeconds) :
    Agree (e.after digest s) := by
  have hended : e.ended s.control = none := by rw [Event.ended, hcall]
  have howner := hallowed.renews runId code owner leaseSeconds hcall
  cases hrun : renewItemClaim runId code owner e.now leaseSeconds s.control with
  | error error =>
      have hsame : e.call.after digest e.now s.control = s.control := by
        rw [hcall, Call.after, Call.returns, hrun]
        rfl
      have hgrant : e.grant s.control = none := by rw [Event.grant, hcall]; dsimp only; rw [hrun]
      exact h.keep_items hallowed.later (Event.holds_aside hgrant hended) (by rw [hsame])
  | ok result =>
      obtain ⟨granted, c'⟩ := result
      have hafter : e.call.after digest e.now s.control = c' := by
        rw [hcall, Call.after, Call.returns, hrun]
        rfl
      rcases renewItemClaim_cases hrun with ⟨rfl, rfl⟩ |
        ⟨rfl, item, hitem, hrunning, hholder, -, rfl⟩
      · have hgrant : e.grant s.control = none := by
          rw [Event.grant, hcall]
          dsimp only
          rw [hrun]
        exact h.keep_items hallowed.later (Event.holds_aside hgrant hended) (by rw [hafter])
      · have hgrant : e.grant s.control
            = some (itemKey (strip runId) code, (plusSeconds e.now leaseSeconds).instant) := by
          rw [Event.grant, hcall]
          dsimp only
          rw [hrun]
        have hrow : (renewedRow item e.now leaseSeconds).HeldBy e.caller
            (plusSeconds e.now leaseSeconds).instant :=
          ⟨hrunning, by rw [← howner]; exact hholder, _, rfl, rfl⟩
        refine h.grant hallowed.later hitem hgrant (by rw [hafter]; rfl)
          (fun w t hheld _ => ?_) hrow rfl
        rw [← howner]
        exact (hheld.holder hholder).symm

theorem Agree.other (h : Agree s) (hlater : s.clock ≤ e.now.instant) (hin : InTime e s)
    (hmark : ∀ runId code status source, e.call ≠ .markItem runId code status source)
    (hclaim : ∀ runId code owner leaseSeconds, e.call ≠ .claimItem runId code owner leaseSeconds)
    (hrenew : ∀ runId code owner leaseSeconds,
      e.call ≠ .renewItemClaim runId code owner leaseSeconds) : Agree (e.after digest s) := by
  have hheld : e.holds s = s.held := by
    refine Event.holds_aside ?_ ?_
    · unfold Event.grant
      split
      · next runId code owner leaseSeconds hcall =>
          exact absurd hcall (hclaim runId code owner leaseSeconds)
      · next runId code owner leaseSeconds hcall =>
          exact absurd hcall (hrenew runId code owner leaseSeconds)
      · rfl
    · unfold Event.ended
      split
      · next runId code status source hcall =>
          exact absurd hcall (hmark runId code status source)
      · rfl
  rcases Call.after_cases digest e.call e.now s.control with hsame | heffect
  · exact h.keep_items hlater hheld (by rw [hsame])
  · generalize hcall : e.call = call at heffect
    cases heffect with
    | aside _ hitems => exact h.keep_items hlater hheld (by rw [hcall]; exact hitems)
    | started _ _ _ hitems => exact h.keep_items hlater hheld (by rw [hcall]; exact hitems)
    | finalized _ _ _ _ _ hitems =>
        exact h.keep_items hlater hheld (by rw [hcall]; exact hitems)
    | marked => exact absurd hcall (hmark _ _ _ _)
    | claimed => exact absurd hcall (hclaim _ _ _ _)
    | renewed => exact absurd hcall (hrenew _ _ _ _)
    | created _ hitems _ _ _ hadded =>
        refine h.keep hlater hheld (fun k item hitem hrunning _ _ => ?_)
          fun k item' hitem' hclaimed => ?_
        · refine ⟨item, ?_, hrunning, rfl, rfl⟩
          rw [hcall, hitems, Dict.get?_setAll_of_notMem, hitem]
          intro hmem
          obtain ⟨added, hadd, rfl⟩ := List.mem_map.mp hmem
          rw [(hadded added hadd).2.1] at hitem
          cases hitem
        · rw [hcall, hitems] at hitem'
          rcases Dict.get?_setAll hitem' with hnew | hold
          · exact absurd (hadded _ hnew).2.2.2 hclaimed
          · exact ⟨item', hold, rfl, rfl⟩
    | resumed _ _ _ hitems _ _ =>
        refine h.keep hlater hheld (fun k item hitem hrunning _ _ => ?_)
          fun k item' hitem' hclaimed => ?_
        · refine ⟨item, ?_, hrunning, rfl, rfl⟩
          rw [hcall, hitems, hitem, Option.map_some, if_neg]
          rintro ⟨-, hmissing⟩
          rw [hrunning] at hmissing
          cases hmissing
        · rw [hcall, hitems, Option.map_eq_some_iff] at hitem'
          obtain ⟨item, hitem, hrow⟩ := hitem'
          split at hrow
          · subst hrow
            exact absurd rfl hclaimed
          · subst hrow
            exact ⟨item, hitem, rfl, rfl⟩
    | recovered _ hitems =>
        refine h.keep hlater hheld (fun k item hitem hrunning _ hlive => ?_)
          fun k item' hitem' hclaimed => ?_
        · refine ⟨item, ?_, hrunning, rfl, rfl⟩
          rw [hcall, hitems, hitem, Option.map_some, if_neg]
          rintro ⟨hstale, -⟩
          rw [hin.recovers _ k item hcall hstale hitem hrunning] at hlive
          cases hlive
        · rw [hcall, hitems, Option.map_eq_some_iff] at hitem'
          obtain ⟨item, hitem, hrow⟩ := hitem'
          split at hrow
          · subst hrow
            exact absurd rfl hclaimed
          · subst hrow
            exact ⟨item, hitem, rfl, rfl⟩

theorem Agree.step (h : Agree s) (hallowed : e.Allowed s) (hin : InTime e s) :
    Agree (e.after digest s) := by
  by_cases hmark : ∃ runId code status source, e.call = .markItem runId code status source
  · obtain ⟨runId, code, status, source, hcall⟩ := hmark
    exact h.mark hallowed.later hcall hin
  by_cases hclaim : ∃ runId code owner leaseSeconds,
      e.call = .claimItem runId code owner leaseSeconds
  · obtain ⟨runId, code, owner, leaseSeconds, hcall⟩ := hclaim
    exact h.claim hallowed hcall
  by_cases hrenew : ∃ runId code owner leaseSeconds,
      e.call = .renewItemClaim runId code owner leaseSeconds
  · obtain ⟨runId, code, owner, leaseSeconds, hcall⟩ := hrenew
    exact h.renew hallowed hcall
  exact h.other hallowed.later hin (by simpa using hmark) (by simpa using hclaim)
    (by simpa using hrenew)

end Steps

theorem Reaches.agree {digest : IdempotencyKey → String} (h : Reaches digest InTime s) :
    Agree s := by
  induction h with
  | start clock => exact Agree.start clock
  | next h hallowed hin ih => exact ih.step hallowed hin

/-! ## The fence -/

theorem ends_marked {digest : IdempotencyKey → String} {e : Event} {c : Control} {k : ItemKey}
    (h : Ends c (e.call.after digest e.now c) k) :
    ∃ runId code status source run item, e.call = .markItem runId code status source ∧
      status.terminal = true ∧ k = itemKey (strip runId) code ∧
      c.runs.get? (strip runId) = some run ∧ run.status = .running ∧
      c.items.get? (itemKey (strip runId) code) = some item ∧ item.status.terminal = false := by
  obtain ⟨item, item', hitem, hopen, hitem', hterminal⟩ := h
  have hstays : ∀ row : ItemRow, row.status = item.status → row ≠ item' := by
    rintro row hrow rfl
    rw [hrow, hopen] at hterminal
    cases hterminal
  rcases Call.after_cases digest e.call e.now c with hsame | heffect
  · rw [hsame, hitem, Option.some.injEq] at hitem'
    exact absurd hitem' (hstays item rfl)
  · generalize hcall : e.call = call at heffect hitem'
    cases heffect with
    | aside _ hitems =>
        rw [hitems, hitem, Option.some.injEq] at hitem'
        exact absurd hitem' (hstays item rfl)
    | started _ _ _ hitems =>
        rw [hitems, hitem, Option.some.injEq] at hitem'
        exact absurd hitem' (hstays item rfl)
    | finalized _ _ _ _ _ hitems =>
        rw [hitems, hitem, Option.some.injEq] at hitem'
        exact absurd hitem' (hstays item rfl)
    | created _ hitems _ _ _ hadded =>
        rw [hitems] at hitem'
        rcases Dict.get?_setAll hitem' with hnew | hold
        · rw [(hadded _ hnew).2.2.1] at hterminal
          cases hterminal
        · rw [hitem, Option.some.injEq] at hold
          exact absurd hold (hstays item rfl)
    | resumed _ _ _ hitems _ _ =>
        rw [hitems, hitem, Option.map_some, Option.some.injEq] at hitem'
        split at hitem'
        · subst hitem'
          cases hterminal
        · exact absurd hitem' (hstays item rfl)
    | recovered _ hitems =>
        rw [hitems, hitem, Option.map_some, Option.some.injEq] at hitem'
        split at hitem'
        · subst hitem'
          cases hterminal
        · exact absurd hitem' (hstays item rfl)
    | @marked runId code status source _ run _ old hrun hrunning hold _ _ _ hitems _ _ =>
        rw [hitems, Dict.get?_set] at hitem'
        split at hitem'
        · next hk =>
            cases hitem'
            rw [hk, hold, Option.some.injEq] at hitem
            subst hitem
            exact ⟨runId, code, status, source, run, old, rfl, hterminal, hk, hrun, hrunning,
              hold, hopen⟩
        · rw [hitem, Option.some.injEq] at hitem'
          exact absurd hitem' (hstays item rfl)
    | @claimed runId code _ _ _ old _ _ _ _ _ _ hitems =>
        rw [hitems, Dict.get?_set] at hitem'
        split at hitem'
        · cases hitem'
          cases hterminal
        · rw [hitem, Option.some.injEq] at hitem'
          exact absurd hitem' (hstays item rfl)
    | @renewed runId code _ _ old hold hrunning _ _ _ hitems =>
        rw [hitems, Dict.get?_set] at hitem'
        split at hitem'
        · cases hitem'
          rw [renewedRow, hrunning] at hterminal
          cases hterminal
        · rw [hitem, Option.some.injEq] at hitem'
          exact absurd hitem' (hstays item rfl)

structure FenceLaw (digest : IdempotencyKey → String) (s : System) (e : Event) : Prop where
  exact : ∀ k, Ends s.control (e.after digest s).control k →
    (Holder s.control k e.caller e.now ↔ InLease s e.caller k e.now)
  fenced : InTime e s → ∀ k, Ends s.control (e.after digest s).control k →
    Holder s.control k e.caller e.now

/-- In every run whose calls are in time an item is ended by the worker that
holds its unexpired claim, and the first call to end one out of its lease is
by a worker that does not. -/
theorem item_claims_fenced {digest : IdempotencyKey → String} {s : System}
    (h : Reaches digest InTime s) {e : Event} (hallowed : e.Allowed s) :
    FenceLaw digest s e := by
  have hagree := h.agree
  refine ⟨fun k _ => hagree.holder_iff hallowed.later, fun hin k hends => ?_⟩
  obtain ⟨runId, code, status, source, run, item, hcall, hterminal, rfl, hrun, hrunning, hitem,
    hopen⟩ := ends_marked hends
  exact (hagree.holder_iff hallowed.later).mpr
    (hin.marks runId code status source run item hcall hterminal hrun hrunning hitem hopen)

/-! ## A worker that has lost its lease -/

def at_ (seconds : ℤ) : Stamp := ⟨1000000 * seconds, ⟨0⟩⟩

def event (caller : String) (call : Call) (seconds : ℤ) : Event := ⟨caller, call, at_ seconds⟩

def eventsFrom (s : System) (events : List Event) : System :=
  events.foldl (fun s e => e.after sampleDigest s) s

def claimEvents : List Event := [
  event "one" (.submitCatchUp 1 2 none) 0, event "one" (.claimNextRequest "one") 0,
  event "one" (.createRun "run" "mdreq-1" sampleHash [sampleSecurity] none) 0,
  event "one" (.startRun "run") 0, event "one" (.claimItem "run" "600519" "one" 300) 0]

def lateEvents : List Event := claimEvents ++ [
  event "two" (.claimItem "run" "600519" "two" 300) 300,
  event "one" (.renewItemClaim "run" "600519" "one" 300) 301]

def lateMark : Event := event "one" (.markItem "run" "600519" .sourceMissing none) 302

def sampleItem : ItemKey := itemKey "run" "600519"

def rowOf (c : Control) : Option (ItemStatus × Option String × Option Stamp) :=
  (c.items.get? sampleItem).map fun item => (item.status, item.claimedBy, item.claimExpiresAt)

def allowedFrom (clock : Instant) : List Event → Bool
  | [] => true
  | e :: rest => decide (clock ≤ e.now.instant) && (match e.call with
      | .claimItem _ _ owner _ | .renewItemClaim _ _ owner _ => decide (strip owner = e.caller)
      | _ => true) && allowedFrom e.now.instant rest

theorem Event.allowed_of {e : Event} {rest : List Event}
    (h : allowedFrom s.clock (e :: rest) = true) : e.Allowed s := by
  simp only [allowedFrom, Bool.and_eq_true, decide_eq_true_eq] at h
  obtain ⟨⟨hlater, hname⟩, -⟩ := h
  refine ⟨hlater, fun runId code owner leaseSeconds hcall => ?_,
    fun runId code owner leaseSeconds hcall => ?_⟩
  · rw [hcall] at hname
    exact of_decide_eq_true hname
  · rw [hcall] at hname
    exact of_decide_eq_true hname

theorem Reaches.events {P : Event → System → Prop} (h : Reaches sampleDigest P s)
    {events : List Event} (hallowed : allowedFrom s.clock events = true)
    (hP : ∀ before e after, events = before ++ e :: after → P e (eventsFrom s before)) :
    Reaches sampleDigest P (eventsFrom s events) := by
  induction events generalizing s with
  | nil => exact h
  | cons e rest ih =>
      have hstep := h.next (Event.allowed_of hallowed) (hP [] e rest rfl)
      refine ih hstep ?_ fun before e' after heq => ?_
      · simp only [allowedFrom, Bool.and_eq_true] at hallowed
        exact hallowed.2
      · exact hP (e :: before) e' after (by rw [heq]; rfl)

/-- The item of the other worker ends, and not by that worker. -/
theorem stale_worker_ends_item :
    let s := eventsFrom (System.start 0) lateEvents
    Reaches sampleDigest (fun _ _ => True) s ∧ lateMark.Allowed s ∧
      Holder s.control sampleItem "two" lateMark.now ∧
      Ends s.control (lateMark.after sampleDigest s).control sampleItem ∧
      ¬ Holder s.control sampleItem lateMark.caller lateMark.now := by
  have hbefore : rowOf (eventsFrom (System.start 0) lateEvents).control
      = some (.running, some "two", some (at_ 600)) := by decide +kernel
  have hafter : rowOf (lateMark.after sampleDigest
      (eventsFrom (System.start 0) lateEvents)).control = some (.sourceMissing, none, none) := by
    decide +kernel
  rw [rowOf, Option.map_eq_some_iff] at hbefore hafter
  obtain ⟨item, hitem, hrow⟩ := hbefore
  obtain ⟨item', hitem', hrow'⟩ := hafter
  rw [Prod.mk.injEq, Prod.mk.injEq] at hrow hrow'
  obtain ⟨hrunning, hclaimed, hexpires⟩ := hrow
  refine ⟨(Reaches.start 0).events (by decide +kernel) fun _ _ _ _ => trivial,
    Event.allowed_of (by decide +kernel : allowedFrom _ [_] = true), ⟨item, hitem, hrunning, hclaimed, ?_⟩,
    ⟨item, item', hitem, by rw [hrunning]; rfl, hitem', by rw [hrow'.1]; rfl⟩, ?_⟩
  · rw [ItemRow.expired, hexpires]
    decide
  · rintro ⟨other, hother, -, hone, -⟩
    rw [hitem, Option.some.injEq] at hother
    rw [← hother, hclaimed] at hone
    exact absurd hone (by decide)

def Call.quiet : Call → Bool
  | .markItem .. | .recoverExpiredWork .. => false
  | _ => true

theorem InTime.quiet {e : Event} (h : e.call.quiet = true) : InTime e s where
  marks := fun _ _ _ _ _ _ hcall => by rw [hcall] at h; cases h
  recovers := fun _ _ _ hcall => by rw [hcall] at h; cases h

theorem item_claims_fenced_sample :
    FenceLaw sampleDigest (eventsFrom (System.start 0) claimEvents)
      (event "one" (.markItem "run" "600519" .completed none) 10) := by
  have hquiet : ∀ e ∈ claimEvents, e.call.quiet = true := by decide +kernel
  refine item_claims_fenced ((Reaches.start 0).events (by decide +kernel) ?_)
    (Event.allowed_of (by decide +kernel : allowedFrom _ [_] = true))
  intro before e after heq
  exact InTime.quiet (hquiet e (by rw [heq]; simp))

end Ahunter.Market
