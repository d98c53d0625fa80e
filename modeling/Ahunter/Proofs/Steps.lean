import Ahunter.Proofs.Flows
import Ahunter.Proofs.Operations

/-!
# What a step does to the account

Whatever command a step is, what it does to the account's state is a
sequence of ledger steps: an operation performed and sealed, an order moved
by the exchange and sealed, a field of an order marked, or the state sealed
once more when a stage is published. `step_account` is that decomposition.
It is stated once, so that an invariant of the account is proved on ledger
steps and never on the commands.

What may happen in such a step is a parameter, the discipline: which
operations, and what the exchange may do to an order. Most invariants take
anything; the ones that do not say what they take.
-/

namespace Ahunter.Sim

open Ahunter.Lib

variable {s : AccountState}

/-- A step of a stage, with the identity it was taken under. -/
abbrev Act := String × StageRequest

/-- What may happen: the operations performed, the statuses the exchange moves
orders to, and the orders sent to it for acceptance. -/
structure Discipline where
  act : AccountRequest → Prop
  move : Order → OrderStatus → Prop
  send : Order → Prop

/-- Anything. -/
def Discipline.any : Discipline := ⟨fun _ => True, fun _ _ => True, fun _ => True⟩

/-- Only sales that hold their shares are moved. -/
def Discipline.strict : Discipline where
  act := fun _ => True
  move := fun o _ => o.side = .sell → o.status.held = true
  send := fun o => o.status = .reserved

/-- No order is moved, and only some operations are performed. -/
def Discipline.only (act : AccountRequest → Prop) : Discipline where
  act := act
  move := fun _ _ => False
  send := fun o => o.status = .reserved

/-- No order is moved. -/
def Discipline.still : Discipline := .only fun _ => True

/-- Fresh reservations may be sent to the exchange. -/
def Discipline.Sends (d : Discipline) : Prop :=
  ∀ o : Order, o.status = .reserved → d.send o

/-- Every operation may be performed, and fresh reservations sent. -/
structure Discipline.Open (d : Discipline) : Prop where
  acts : ∀ r, d.act r
  sends : d.Sends

theorem Discipline.any_open : any.Open := ⟨fun _ => trivial, fun _ _ => trivial⟩

theorem Discipline.strict_open : strict.Open := ⟨fun _ => trivial, fun _ h => h⟩

theorem Discipline.still_open : still.Open := ⟨fun _ => trivial, fun _ h => h⟩

inductive LedgerStep (spec : AccountSpec) (d : Discipline) :
    AccountState → List Act → List Entry → AccountState → Prop
  | account {aid : String} {r : AccountRequest} {s : AccountState}
      {o o' : Outcome} (hcheck : r.check = .ok ())
      (hrun : perform spec aid r s = .ok o)
      (hseal : prepareState spec r.operation o = .ok o') (hact : d.act r) :
      LedgerStep spec d s [(aid, .account r)] o'.entries o'.state
  | moved {aid id reason : String} {status : OrderStatus} {at_ vis : Instant}
      {s : AccountState} {order : Order} {o o' : Outcome}
      (horder : s.orders.get? id = some order) (hheld : status.held = true)
      (hmove : d.move order status)
      (hrun : orderMarketState id status at_ vis s = .ok o)
      (hseal : prepareState spec .other o = .ok o') :
      LedgerStep spec d s [(aid, .orderMarketState id status reason)]
        o'.entries o'.state
  | marked {id : String} {s : AccountState} {order : Order}
      {status : OrderStatus} {t : Option Instant}
      (horder : s.orders.get? id = some order)
      (hstatus : status = order.status ∨
        (status = .pendingAcceptance ∧ d.send order)) :
      LedgerStep spec d s [] []
        (s.setOrder id { order with status := status, cancelEffectiveAt := t })
  | resealed {s : AccountState} {at_ vis : Instant} {o' : Outcome}
      (hseal : prepareState spec .other ⟨s, at_, vis, []⟩ = .ok o') :
      LedgerStep spec d s [] o'.entries o'.state

inductive LedgerRun (spec : AccountSpec) (d : Discipline)
    (s : AccountState) : List Act → List Entry → AccountState → Prop
  | refl : LedgerRun spec d s [] [] s
  | tail {as bs : List Act} {es fs : List Entry} {t u : AccountState}
      (h : LedgerRun spec d s as es t) (hstep : LedgerStep spec d t bs fs u) :
      LedgerRun spec d s (as ++ bs) (es ++ fs) u

variable {spec : AccountSpec} {d : Discipline} {es : List Entry}

theorem LedgerRun.single {t : AccountState} {as : List Act}
    (h : LedgerStep spec d s as es t) : LedgerRun spec d s as es t := by
  have := LedgerRun.refl.tail h
  simpa using this

theorem LedgerRun.trans {t u : AccountState} {as bs : List Act} {es fs : List Entry}
    (h : LedgerRun spec d s as es t) (h' : LedgerRun spec d t bs fs u) :
    LedgerRun spec d s (as ++ bs) (es ++ fs) u := by
  induction h' with
  | refl => simpa using h
  | tail _ hstep ih =>
      rw [← List.append_assoc, ← List.append_assoc]
      exact ih.tail hstep

theorem LedgerRun.invariant {P : AccountState → Prop} {t : AccountState} {as : List Act}
    (h : LedgerRun spec d s as es t) (hs : P s)
    (hstep : ∀ a b acts entries, P a → LedgerStep spec d a acts entries b → P b) : P t := by
  induction h with
  | refl => exact hs
  | tail _ hlast ih => exact hstep _ _ _ _ ih hlast

/-! ## Stages -/

variable {st st' : Staged} {aid id : String}

def StageRun (spec : AccountSpec) (d : Discipline)
    (st st' : Staged) : Prop :=
  ∃ effects, st'.effects = st.effects ++ effects ∧
    LedgerRun spec d st.value
      (effects.map fun e => (e.actionId, e.request))
      (effects.flatMap Effect.entries) st'.value

theorem StageRun.refl (st : Staged) : StageRun spec d st st :=
  ⟨[], by simp, LedgerRun.refl⟩

theorem StageRun.trans {a b c : Staged} (h : StageRun spec d a b)
    (h' : StageRun spec d b c) : StageRun spec d a c := by
  obtain ⟨es, he, hrun⟩ := h
  obtain ⟨fs, hf, hrun'⟩ := h'
  refine ⟨es ++ fs, by rw [hf, he, List.append_assoc], ?_⟩
  simpa using hrun.trans hrun'

theorem Staged.commit_ok {r : StageRequest} {o : Outcome} :
    st.commit spec aid r o = .ok st' ↔ ∃ o', prepareState spec r.operation o = .ok o' ∧
        st' = ⟨o'.state, st.effects ++ [⟨aid, r, o'.at_, o'.visibleAt, o'.entries⟩]⟩ := by
  simp only [Staged.commit, bind_ok, pure_ok]
  exact ⟨fun ⟨o', h, e⟩ => ⟨o', h, e.symm⟩, fun ⟨o', h, e⟩ => ⟨o', h, e.symm⟩⟩

variable {r : AccountRequest}

theorem Staged.prior_ok {b : Bool} (h : st.prior aid r = .ok b) :
    b = true → ∃ e ∈ st.effects, e.actionId = aid ∧ e.request = .account r := by
  unfold Staged.prior at h
  split at h
  · cases pure_ok.mp h
    simp
  · next e hsome =>
      simp only [bind_ok, refuse_ok, pure_ok, not_not] at h
      obtain ⟨-, hreq, -⟩ := h
      have hmem := List.mem_of_find?_eq_some hsome
      exact fun _ => ⟨e, List.mem_reverse.mp hmem,
        by simpa using List.find?_some hsome, hreq⟩

theorem Staged.run_ok (h : st.run spec aid r = .ok st') :
    r.check = .ok () ∧ ((st' = st ∧ ∃ e ∈ st.effects, e.actionId = aid ∧ e.request = .account r) ∨
      ∃ o o', perform spec aid r st.value = .ok o ∧ prepareState spec r.operation o = .ok o' ∧
        st' = ⟨o'.state, st.effects ++ [⟨aid, .account r, o'.at_, o'.visibleAt, o'.entries⟩]⟩) := by
  simp only [Staged.run, bind_ok] at h
  obtain ⟨u, hcheck, prior, hprior, h⟩ := h
  refine ⟨hcheck, ?_⟩
  cases prior with
  | true => exact Or.inl ⟨(pure_ok.mp h).symm, Staged.prior_ok hprior rfl⟩
  | false =>
      simp only [Bool.false_eq_true, if_false, bind_ok] at h
      obtain ⟨o, hrun, hcommit⟩ := h
      obtain ⟨o', hseal, hst⟩ := Staged.commit_ok.mp hcommit
      exact Or.inr ⟨o, o', hrun, hseal, hst⟩

theorem StageRun.of_run (hact : d.act r) (h : st.run spec aid r = .ok st') :
    StageRun spec d st st' := by
  obtain ⟨hcheck, ⟨rfl, -⟩ | ⟨o, o', hrun, hseal, rfl⟩⟩ := Staged.run_ok h
  · exact StageRun.refl _
  · refine ⟨_, rfl, ?_⟩
    simpa using LedgerRun.single (LedgerStep.account hcheck hrun hseal hact)

theorem Staged.mark_ok {f : Order → Order} (h : st.mark id f = .ok st') :
    ∃ order, st.value.orders.get? id = some order ∧
      st' = { st with value := st.value.setOrder id (f order) } := by
  simp only [Staged.mark, bind_ok, need_ok, pure_ok] at h
  obtain ⟨order, horder, rfl⟩ := h
  exact ⟨order, horder, rfl⟩

theorem StageRun.of_mark_effective {t : Option Instant}
    (h : st.mark id (fun o => { o with cancelEffectiveAt := t }) = .ok st') :
    StageRun spec d st st' := by
  obtain ⟨order, horder, rfl⟩ := Staged.mark_ok h
  exact ⟨[], by simp, LedgerRun.single
    (LedgerStep.marked horder (Or.inl rfl))⟩

theorem StageRun.of_mark_pending
    (hsend : ∀ order, st.value.orders.get? id = some order → d.send order)
    (h : st.mark id (fun o => { o with status := .pendingAcceptance }) = .ok st') :
    StageRun spec d st st' := by
  obtain ⟨order, horder, rfl⟩ := Staged.mark_ok h
  exact ⟨[], by simp, LedgerRun.single (LedgerStep.marked horder
    (Or.inr ⟨rfl, hsend order horder⟩))⟩

variable {order : Order}

theorem StageRun.of_setOrderState {reason : String} {status : OrderStatus} {at_ vis : Instant}
    (horder : st.value.orders.get? id = some order) (hheld : status.held = true)
    (hmove : d.move order status) (h : setOrderState spec st id status at_ vis reason = .ok st') :
    StageRun spec d st st' := by
  simp only [setOrderState, bind_ok] at h
  obtain ⟨o, hrun, hcommit⟩ := h
  obtain ⟨o', hseal, rfl⟩ := Staged.commit_ok.mp hcommit
  refine ⟨_, rfl, ?_⟩
  simpa using LedgerRun.single (LedgerStep.moved horder hheld hmove hrun hseal)

theorem StageRun.of_walk {α : Type} {f : Staged → α → Attempt Staged} {as : List α}
    (h : walk f st as = .ok st') (hstep : ∀ a b x, x ∈ as → f a x = .ok b → StageRun spec d a b) :
    StageRun spec d st st' :=
  walk_induction h (StageRun.refl st) fun _ _ _ hx hrun hf =>
    hrun.trans (hstep _ _ _ hx hf)

/-! ## The composite commands -/

variable {entrants : List QueueEntrant}

def Discipline.Fills (d : Discipline) (orders : Dict String Order) : Prop :=
  ∀ id o, orders.get? id = some o → ∀ q p t, q % o.marketRule.fillIncrement = 0 →
    d.act (.fill id q p t)

theorem roundDown_emod (value increment : ℤ) : roundDown value increment % increment = 0 :=
  Int.mul_emod_left _ _

variable {e : MinuteEvidence}

theorem collectWalk_ok {x : ExecutionState} {orders : List MinuteOrder}
    (h : walk (collectOrder spec e x) [] s.orders.entries = .ok orders) :
    ∀ o ∈ orders, s.orders.get? o.orderId = some o.order ∧ o.order.marketRule = e.marketRule := by
  refine walk_induction (P := fun acc : List MinuteOrder => ∀ o ∈ acc,
    s.orders.get? o.orderId = some o.order ∧ o.order.marketRule = e.marketRule) h
    (fun _ hm => nomatch hm) fun acc entry acc' hentry hacc hone => ?_
  obtain ⟨identity, order⟩ := entry
  simp only [collectOrder] at hone
  split at hone
  · cases pure_ok.mp hone
    exact hacc
  · simp only [bind_ok, refuse_ok, pure_ok, not_not] at hone
    obtain ⟨accepted, -, _, -, _, hrule, _, -, _, -, rfl⟩ := hone
    intro o ho
    rcases List.mem_append.mp ho with ho | ho
    · exact hacc o ho
    · rw [List.mem_singleton.mp ho]
      exact ⟨Dict.mem_entries.mp hentry, hrule⟩

theorem minuteOne_run {a b : MinuteRun} {o : MinuteOrder}
    (hd : ∀ q p t, q % e.marketRule.fillIncrement = 0 → d.act (.fill o.orderId q p t))
    (h : minuteOne spec aid e a o = .ok b) : StageRun spec d a.stage b.stage := by
  simp only [minuteOne, bind_ok, need_ok] at h
  obtain ⟨capacity, -, h⟩ := h
  split at h
  · cases pure_ok.mp h
    exact StageRun.refl _
  · simp only [bind_ok, pure_ok] at h
    obtain ⟨st, hst, x, -, rfl⟩ := h
    exact StageRun.of_run (hd _ _ _ (roundDown_emod _ _)) hst

variable {at_ : Instant}

theorem pinWalk_ok {e : QueueEvidence} {key : String} {x x' : ExecutionState}
    (h : walk (pinPosition spec e key at_) (x, []) (activeOrders s e.security)
      = .ok (x', entrants)) :
    ∀ q ∈ entrants, ∃ o, s.orders.get? q.orderId = some o ∧ o.marketRule = e.marketRule := by
  refine walk_induction (P := fun acc : ExecutionState × List QueueEntrant => ∀ q ∈ acc.2,
    ∃ o, s.orders.get? q.orderId = some o ∧ o.marketRule = e.marketRule) h
    (fun _ hm => nomatch hm) fun acc entry acc' hentry hacc hone => ?_
  obtain ⟨identity, order⟩ := entry
  simp only [pinPosition, bind_ok, need_ok, refuse_ok, pure_ok, not_or, not_not] at hone
  obtain ⟨_, -, _, -, _, ⟨-, hrule⟩, _, -, _, -, _, -, rfl⟩ := hone
  intro q hq
  rcases List.mem_append.mp hq with hq | hq
  · exact hacc q hq
  · rw [List.mem_singleton.mp hq]
    exact ⟨order, Dict.mem_entries.mp (List.mem_filter.mp hentry).1, hrule⟩

def claimOf (s : AccountState) (tick : QueueTick) (m : Matched) (q : QueueEntrant) :
    Option (Rank ×ₗ String) :=
  match candidateRank s tick m q with
  | .ok (some r) => some (toLex (r, q.orderId))
  | _ => none

variable {tick : QueueTick}

theorem claimOf_some {m : Matched} {q : QueueEntrant} {c : Rank ×ₗ String} :
    claimOf s tick m q = some c ↔
      ∃ r, candidateRank s tick m q = .ok (some r) ∧ c = toLex (r, q.orderId) := by
  unfold claimOf
  split
  · next r hr =>
      simp only [hr, Option.some_inj, Except.ok.injEq, exists_eq_left']
      exact eq_comm
  · next hnone =>
      refine iff_of_false nofun ?_
      rintro ⟨r, hr, -⟩
      exact hnone r hr

variable {reached : List (Rank ×ₗ String)}

theorem candidates_eq {m : Matched} (h : candidates s tick m entrants = .ok reached) :
    reached = (entrants.filterMap (claimOf s tick m)).insertionSort (· ≤ ·) := by
  simp only [candidates, bind_ok, pure_ok] at h
  obtain ⟨found, hfound, rfl⟩ := h
  congr 1
  refine walk_filterMap hfound fun acc q acc' hone => ?_
  simp only [bind_ok] at hone
  obtain ⟨rank, hrank, hone⟩ := hone
  cases rank with
  | none =>
      cases pure_ok.mp hone
      rw [claimOf, hrank]
      exact (List.append_nil acc).symm
  | some r =>
      cases pure_ok.mp hone
      rw [claimOf_some.mpr ⟨r, hrank, rfl⟩]
      rfl

theorem mem_candidates {m : Matched}
    (h : candidates s tick m entrants = .ok reached) {c : Rank ×ₗ String} :
    c ∈ reached ↔ ∃ q ∈ entrants, ∃ r, candidateRank s tick m q = .ok (some r) ∧
      c = toLex (r, q.orderId) := by
  rw [candidates_eq h, (List.perm_insertionSort _ _).mem_iff, List.mem_filterMap]
  simp only [claimOf_some]

theorem fillCandidate_run {rule : MarketRule} {key : MinuteKey}
    {a b : TradeRun} (hd : ∀ q p t, q % rule.fillIncrement = 0 → d.act (.fill id q p t))
    (h : fillCandidate spec aid rule key tick a id = .ok b) : StageRun spec d a.stage b.stage := by
  simp only [fillCandidate, bind_ok, need_ok] at h
  obtain ⟨order, -, h⟩ := h
  split at h
  · cases pure_ok.mp h
    exact StageRun.refl _
  · simp only [bind_ok, pure_ok] at h
    obtain ⟨st, hst, x, -, rfl⟩ := h
    exact StageRun.of_run (hd _ _ _ (roundDown_emod _ _)) hst

theorem replayTick_run {e : QueueMarket} {a b : QueueRun}
    (hd : ∀ n ∈ entrants, ∀ q p t, q % e.marketRule.fillIncrement = 0 →
      d.act (.fill n.orderId q p t)) (h : replayTick spec aid e entrants a tick = .ok b) :
    StageRun spec d a.stage b.stage := by
  simp only [replayTick, bind_ok] at h
  obtain ⟨r, -, h⟩ := h
  split at h
  · cases pure_ok.mp h
    exact StageRun.refl _
  · simp only [bind_ok, need_ok, pure_ok] at h
    obtain ⟨start, -, capacity, -, reached, hreached, t, ht, rfl⟩ := h
    refine walk_induction (P := fun t => StageRun spec d a.stage t.stage) ht
      (StageRun.refl _) fun c id c' hid hrun hf => hrun.trans (fillCandidate_run ?_ hf)
    obtain ⟨found, hfound, rfl⟩ := List.mem_map.mp hid
    obtain ⟨n, hn, rank, -, rfl⟩ := (mem_candidates hreached).mp hfound
    exact hd n hn

/-! ### Plans -/

theorem prepareState_orders {operation : Operation} {o o' : Outcome}
    (h : prepareState spec operation o = .ok o') : o'.state.orders = o.state.orders := by
  obtain ⟨_, _, -, -, hstate⟩ := (prepareState_ok h).state
  rw [hstate]

variable {orders : List Reservation}

theorem Staged.run_reserved
    (hnew : ∀ e ∈ st.effects, e.request ≠ .account (.reserveBatch orders at_))
    (h : st.run spec aid (.reserveBatch orders at_) = .ok st') :
    (orders.map Reservation.orderId).Nodup ∧
      Reserved spec at_ st.value.orders orders st'.value.orders := by
  obtain ⟨hcheck, ⟨-, e, he, -, hreq⟩ | ⟨o, o', hrun, hseal, rfl⟩⟩ :=
    Staged.run_ok h
  · exact absurd hreq (hnew e he)
  · simp only [AccountRequest.check, batchAdmissible, bind_ok, refuse_ok] at hcheck
    obtain ⟨-, hnodup, -⟩ := hcheck
    push Not at hnodup
    refine ⟨hnodup.2, ?_⟩
    rw [prepareState_orders hseal]
    exact (reserveBatch_ok hrun).1

theorem markAll_run (hd : d.Sends) (hnodup : (orders.map Reservation.orderId).Nodup)
    (hstatus : ∀ r ∈ orders, ∀ o, st.value.orders.get? r.orderId = some o → o.status = .reserved)
    (h : walk (fun (st : Staged) (order : Reservation) =>
      st.mark order.orderId fun o => { o with status := .pendingAcceptance }) st
        orders = .ok st') : StageRun spec d st st' := by
  induction orders generalizing st with
  | nil =>
      cases h
      exact StageRun.refl _
  | cons r rs ih =>
      obtain ⟨mid, hmark, hrest⟩ := walk_cons_ok.mp h
      rw [List.map_cons, List.nodup_cons] at hnodup
      refine (StageRun.of_mark_pending
        (fun o ho => hd o (hstatus r List.mem_cons_self o ho)) hmark).trans
        (ih hnodup.2 (fun q hq o ho => ?_) hrest)
      obtain ⟨order, -, rfl⟩ := Staged.mark_ok hmark
      have hne : q.orderId ≠ r.orderId := fun heq =>
        hnodup.1 (heq ▸ List.mem_map_of_mem hq)
      rw [AccountState.setOrder_orders, Dict.get?_set_of_ne hne] at ho
      exact hstatus q (List.mem_cons_of_mem _ hq) o ho

theorem reserveNew_run (hact : d.act (.reserveBatch orders at_)) (hd : d.Sends)
    (h : reserveNew spec ⟨s, []⟩ aid orders at_ = .ok st') : StageRun spec d ⟨s, []⟩ st' := by
  simp only [reserveNew] at h
  split at h
  · cases pure_ok.mp h
    exact StageRun.refl _
  · simp only [bind_ok] at h
    obtain ⟨st1, hrun, hmarks⟩ := h
    obtain ⟨hnodup, hres⟩ := Staged.run_reserved (by simp) hrun
    refine (StageRun.of_run hact hrun).trans (markAll_run hd hnodup (fun r hr o ho => ?_)
      hmarks)
    obtain ⟨cash, stock, hstored⟩ := hres.stored r hr
    cases hstored.symm.trans ho
    rfl

theorem enterWorkflow_run {a b : Staged × Dict FlowKey Workflow} {f : Workflow}
    (hact : f.operation = .cancel → d.act (.cancelRequest f.orderId at_))
    (h : enterWorkflow spec at_ a f = .ok b) : StageRun spec d a.1 b.1 := by
  simp only [enterWorkflow] at h
  split at h
  · cases pure_ok.mp h
    exact StageRun.refl _
  · next hop =>
      simp only [bind_ok, pure_ok] at h
      obtain ⟨st, hrun, st', hmark, rfl⟩ := h
      exact (StageRun.of_run (hact hop) hrun).trans (StageRun.of_mark_effective hmark)

/-- No reservation of its replacement has been made in the stage of a
workflow that waits for its receipt. -/
def FlowRun.Unreplaced (run : FlowRun) : Prop :=
  run.flow.state ≠ .waitingMarket → run.flow.outcome = some .cancelConfirmed →
    ∀ oldId newId target price ht hp,
      run.flow.instruction = .replace oldId newId target price ht hp →
    ∀ e ∈ run.stage.effects, ∀ new at_, new.orderId = newId →
      e.request ≠ .account (.reserveBatch [new] at_)

structure MoveReady (d : Discipline) (run : FlowRun) (order : Order) : Prop where
  act : ∀ r, d.act r
  move : run.flow.state = .waitingMarket →
    (run.flow.operation = .cancel → order.status ≠ .filled) →
      ∀ status, d.move order status
  send : (∀ o, d.send o) ∨ (d.Sends ∧ run.Unreplaced)

theorem MoveReady.any (run : FlowRun) (order : Order) : MoveReady .any run order :=
  ⟨fun _ => trivial, fun _ _ _ => trivial, Or.inl fun _ => trivial⟩

theorem Staged.run_reserved_after {released reserved : Staged} {aid' : String}
    {reason : OrderStatus} {new : Reservation}
    (hrelease : st.run spec aid (.release id reason at_) = .ok released)
    (hnone : ∀ e ∈ st.effects, e.request ≠ .account (.reserveBatch [new] at_))
    (hreserve : released.run spec aid' (.reserveBatch [new] at_) = .ok reserved) :
    Reserved spec at_ released.value.orders [new] reserved.value.orders := by
  refine (Staged.run_reserved (fun e he => ?_) hreserve).2
  obtain ⟨-, ⟨rfl, -⟩ | ⟨out, out', -, -, rfl⟩⟩ := Staged.run_ok hrelease
  · exact hnone e he
  · rcases List.mem_append.mp he with he | he
    · exact hnone e he
    · cases List.mem_singleton.mp he
      simp

theorem FlowMove.run_of {a b : FlowRun} (h : FlowMove spec at_ order a b)
    (horder : a.stage.value.orders.get? a.flow.orderId = some order)
    (hrelease : ∀ id reason t, d.act (.release id reason t))
    (hreserve : ∀ rs t, d.act (.reserveBatch rs t))
    (hmove : a.flow.state = .waitingMarket →
      (a.flow.operation = .cancel → order.status ≠ .filled) → ∀ status, d.move order status)
    (hsend : (∀ o, d.send o) ∨ (d.Sends ∧ a.Unreplaced)) : StageRun spec d a.stage b.stage := by
  cases h with
  | accepted hstate hop hacc hset =>
      exact StageRun.of_setOrderState horder rfl (hmove hstate (by simp [hop]) _) hset
  | refused hstate hop hset =>
      exact StageRun.of_setOrderState horder rfl (hmove hstate (by simp [hop]) _) hset
  | tooLate hstate hop hfilled => exact StageRun.refl _
  | cancelRefused hstate hop hfilled hset =>
      exact StageRun.of_setOrderState horder (by split <;> rfl)
        (hmove hstate (fun _ => hfilled) _) hset
  | cancelled hstate hop hfilled hset =>
      exact StageRun.of_setOrderState horder rfl (hmove hstate (fun _ => hfilled) _) hset
  | ended hstate houtcome hreleased hfinal => exact StageRun.of_run (hrelease _ _ _) hreleased
  | @replaced released reserved stage old oldId newId target remaining price ht hp
      hq proof timing hstate hdate houtcome hinstruction hreleased hold hremaining hacc
      hreserved hmark =>
      refine ((StageRun.of_run (hrelease _ _ _) hreleased).trans
        (StageRun.of_run (hreserve _ _) hreserved)).trans
        (StageRun.of_mark_pending (fun o ho => ?_) hmark)
      rcases hsend with hany | ⟨hd, hstage⟩
      · exact hany o
      have hnone := hstage hstate houtcome _ _ _ _ _ _ hinstruction
      have hres := Staged.run_reserved_after hreleased
        (fun e he => hnone e he _ _ rfl) hreserved
      obtain ⟨cash, stock, hstored⟩ := hres.stored _ List.mem_cons_self
      cases hstored.symm.trans ho
      exact hd _ rfl

theorem FlowMove.run {a b : FlowRun} (h : FlowMove spec at_ order a b)
    (horder : a.stage.value.orders.get? a.flow.orderId = some order)
    (hready : MoveReady d a order) : StageRun spec d a.stage b.stage :=
  h.run_of horder (fun _ _ _ => hready.act _) (fun _ _ => hready.act _) hready.move hready.send

theorem expireWalk_run {live : List (String × Order)}
    (hact : ∀ e ∈ live, d.act (.release e.1 .dayExpired at_))
    (h : walk (fun (st : Staged) e => st.run spec (aid ++ ":" ++ e.1)
      (.release e.1 .dayExpired at_)) st live = .ok st') : StageRun spec d st st' :=
  StageRun.of_walk h fun _ _ _ he => StageRun.of_run (hact _ he)

/-! ## Events -/

variable {w w' : World}

theorem prepareState_entries {at_ vis : Instant} {o' : Outcome}
    (h : prepareState spec .other ⟨s, at_, vis, es⟩ = .ok o') :
    ∃ o'', prepareState spec .other ⟨s, at_, vis, []⟩ = .ok o'' ∧
      o''.state = o'.state ∧ o'.entries = es ++ o''.entries := by
  simp only [prepareState, bind_ok, refuse_ok, pure_ok] at h ⊢
  obtain ⟨u1, h1, u2, h2, u3, h3, ⟨s', c⟩, hrefresh, u4, h4, rfl⟩ := h
  refine ⟨_, ⟨u1, h1, u2, h2, u3, h3, (s', c), hrefresh, u4, h4, rfl⟩, rfl, ?_⟩
  split <;> simp

inductive SealedBy (spec : AccountSpec) (d : Discipline) (s : AccountState)
    (ev : AccountEvent) : Prop
  | performed {r : AccountRequest} {o : Outcome} (hrequest : ev.request = .account r)
      (hrun : perform spec ev.actionId r s = .ok o)
      (hseal : prepareState spec r.operation o
        = .ok ⟨ev.state, ev.simulatedAt, ev.visibleAt, ev.entries⟩)
  | staged {acts : List Act} {es fs : List Entry} {t : AccountState}
      {at_ vis : Instant}
      (hrequest : ev.request ≠ .opening ∧ ∀ r, ev.request ≠ .account r)
      (hrun : LedgerRun spec d s acts es t)
      (hseal : prepareState spec .other ⟨t, at_, vis, fs⟩
        = .ok ⟨ev.state, ev.simulatedAt, ev.visibleAt, ev.entries⟩)

def AccountEvent.acts (e : AccountEvent) : List Act :=
  match e.request with
  | .account r => [(e.actionId, .account r)]
  | _ => e.effects.map fun f => (f.actionId, f.request)

theorem AccountEvent.lotKeys_eq (e : AccountEvent) :
    e.lotKeys = e.acts.flatMap fun a => a.2.lotKeys a.1 e.state := by
  obtain ⟨aid, request, effects, entries, visibleAt, simulatedAt, state⟩ := e
  cases request with
  | account r => simp [AccountEvent.lotKeys, AccountEvent.acts, StageRequest.lotKeys]
  | _ => simp [AccountEvent.lotKeys, AccountEvent.acts, List.flatMap_map]

theorem AccountEvent.acts_staged {e : AccountEvent} (h : ∀ r, e.request ≠ .account r) :
    e.acts = e.effects.map fun f => (f.actionId, f.request) := by
  unfold AccountEvent.acts
  split
  · next r hr => exact absurd hr (h r)
  · rfl

inductive AccountChange (spec : AccountSpec) (d : Discipline) (w w' : World) : Prop
  | none (haccount : w'.account = w.account) (hevents : w'.events = w.events)
  | opened {o o' : Outcome} {ev : AccountEvent} (hnone : w.account = none)
      (hinit : initializeAccount spec = .ok o)
      (hseal : prepareState spec .opening o = .ok o')
      (haccount : w'.account = some ev.state)
      (hevents : w'.events = w.events ++ [ev]) (hstate : ev.state = o'.state)
      (hentries : ev.entries = o'.entries) (hkeys : ev.lotKeys = [])
      (hrequest : ev.request = .opening) (hat : o'.at_ = ev.simulatedAt)
      (hvisible : o'.visibleAt = ev.visibleAt) (hacts : ev.acts = [])
  | event {s : AccountState} {ev : AccountEvent} {acts : List Act}
      (hs : w.account = some s) (haccount : w'.account = some ev.state)
      (hevents : w'.events = w.events ++ [ev])
      (hkeys : ev.lotKeys = acts.flatMap fun a => a.2.lotKeys a.1 ev.state)
      (hrun : LedgerRun spec d s acts ev.entries ev.state)
      (hsealed : SealedBy spec d s ev) (hacts : ev.acts = acts)

theorem AccountChange.of_publish {request : Request} {x : ExecutionState} {p : PlansState}
    (hs : w.account = some s) (hrequest : request ≠ .opening ∧ ∀ r, request ≠ .account r)
    (hrun : StageRun spec d ⟨s, []⟩ st) (h : w.publish spec aid request st x p at_ = .ok w') :
    AccountChange spec d w w' := by
  obtain ⟨o', hseal, rfl⟩ := World.publish_ok h
  obtain ⟨effects, heffects, hrun⟩ := hrun
  obtain ⟨o'', hseal', hstate, hentries⟩ := prepareState_entries hseal
  rw [List.nil_append] at heffects
  have hall := hrun.tail (LedgerStep.resealed hseal')
  have hout : o'.entries = effects.flatMap Effect.entries ++ o''.entries := by
    rw [hentries, Staged.entries, heffects]
  rw [List.append_nil, hstate, ← hout] at hall
  have hacts := AccountEvent.acts_staged (e := ⟨aid, request, st.effects, o'.entries,
    o'.visibleAt, o'.at_, o'.state⟩) hrequest.2
  rw [show st.effects = effects from heffects] at hacts
  refine .event hs rfl rfl ?_ hall (.staged hrequest hrun hseal) ?_
  · rw [AccountEvent.lotKeys_eq]
    simp only [heffects]
    rw [hacts]
  · simp only [heffects]
    exact hacts

variable {proofs : List MarketActionEvidence}

theorem advanceWalk_run {due : List Workflow} {a b : AdvanceRun}
    (hrelease : ∀ id reason t, d.act (.release id reason t))
    (hreserve : ∀ rs t, d.act (.reserveBatch rs t)) (hmove : ∀ o status, d.move o status)
    (hsend : ∀ o, d.send o) (h : walk (advanceOne spec proofs at_) a due = .ok b) :
    StageRun spec d a.stage b.stage := by
  refine walk_induction (P := fun c => StageRun spec d a.stage c.stage) h
    (StageRun.refl _) fun c flow e _ hc hone => hc.trans ?_
  simp only [advanceOne, bind_ok, pure_ok] at hone
  obtain ⟨⟨run, history⟩, hloop, rfl⟩ := hone
  exact flowLoop_induction (P := fun r => StageRun spec d c.stage r.stage)
    hloop (StageRun.refl _) fun r r' order hr _ horder hstep =>
      hr.trans (hstep.run_of horder hrelease hreserve (fun _ _ _ => hmove _ _)
        (Or.inl fun _ => hsend _))

theorem acceptBatch_change {proofs : List AcceptanceEvidence}
    (hact : d.act (.reserveBatch orders at_))
    (h : acceptBatch spec w aid orders proofs at_ = .ok w') : AccountChange spec d w w' := by
  rcases acceptBatch_ok h with rfl | ⟨s, st, x, hs, -, -, hst, -, hpublish⟩
  · exact .none rfl rfl
  · exact .of_publish hs (by simp) (StageRun.of_run hact hst) hpublish

theorem advanceMinute_change
    (hd : ∀ s, w.account = some s → d.Fills s.orders) (h : advanceMinute spec w aid e = .ok w') :
    AccountChange spec d w w' := by
  rcases advanceMinute_ok h with rfl | ⟨s, orders, x, capacity, run, record, hs, -,
    -, -, hcollected, -, -, hrun, -, hpublish⟩
  · exact .none rfl rfl
  · refine .of_publish hs (by simp) ?_ hpublish
    refine walk_induction (P := fun r : MinuteRun =>
      StageRun spec d ⟨s, []⟩ r.stage) hrun (StageRun.refl _)
      fun _ o _ ho hr hone => hr.trans (minuteOne_run (fun q p t hq => ?_) hone)
    obtain ⟨horder, hrule⟩ :=
      collectWalk_ok hcollected o ((List.perm_insertionSort _ _).mem_iff.mp ho)
    exact hd s hs _ _ horder q p t (hrule ▸ hq)

theorem queueAdvance_change {e : QueueEvidence} {throughAt : Option Instant}
    {throughSequence : Option ℤ} (hd : ∀ s, w.account = some s → d.Fills s.orders)
    (h : queueAdvance spec w aid e throughAt throughSequence = .ok w') :
    AccountChange spec d w w' := by
  rcases queueAdvance_ok h with rfl | ⟨s, volumes, start, x1, entrants, x2, run,
    results, hs, -, -, -, -, -, -, hpin, -, hrun, -, hpublish⟩
  · exact .none rfl rfl
  · refine .of_publish hs (by simp) ?_ hpublish
    refine walk_induction (P := fun r : QueueRun =>
      StageRun spec d ⟨s, []⟩ r.stage) hrun (StageRun.refl _)
      fun _ _ _ _ hr hone => hr.trans (replayTick_run (fun n hn q p t hq => ?_) hone)
    obtain ⟨o, horder, hrule⟩ := pinWalk_ok hpin n hn
    exact hd s hs _ _ horder q p t (hrule ▸ hq)

theorem submit_change {session : Session} {plan : StagePlan} {proofs : List AcceptanceEvidence}
    (hreserves : ∀ rs t, d.act (.reserveBatch rs t))
    (hrequests : ∀ id t, d.act (.cancelRequest id t)) (hd : d.Sends)
    (h : submit spec w aid session plan proofs = .ok w') : AccountChange spec d w w' := by
  rcases submit_ok h with rfl | ⟨phase, at_, st, x, plans, record, -, -, -, hstage,
    -, hpublish⟩
  · exact .none rfl rfl
  · obtain ⟨s, day, scan, prepared, st1, workflows, hs, -, -, -, -, hreserve,
      henter, -⟩ := submitStage_ok hstage
    refine .of_publish hs (by simp) ?_ hpublish
    refine (reserveNew_run (hreserves _ _) hd hreserve).trans ?_
    exact walk_induction (P := fun a : Staged × Dict FlowKey Workflow =>
      StageRun spec d st1 a.1) henter (StageRun.refl _)
      fun _ _ _ _ ha hone => ha.trans (enterWorkflow_run (fun _ => hrequests _ _) hone)

def AdvanceRuns (spec : AccountSpec) (d : Discipline) (w : World) (at_ : Instant)
    (proofs : List MarketActionEvidence) : Prop :=
  ∀ s run, w.account = some s →
    walk (advanceOne spec proofs at_) ⟨⟨s, []⟩, w.execution, w.plans.workflows, []⟩
      (dueFlows w.plans.workflows at_) = .ok run →
    StageRun spec d ⟨s, []⟩ run.stage

theorem advance_change
    (hflows : AdvanceRuns spec d w at_ proofs) (h : advance spec w aid at_ proofs = .ok w') :
    AccountChange spec d w w' := by
  rcases advance_ok h with rfl | ⟨s, run, hs, -, -, -, hrun, hpublish⟩
  · exact .none rfl rfl
  · exact .of_publish hs (by simp) (hflows s run hs hrun) hpublish

theorem expireDay_change {day : Date} {cursors : Dict String MarketCursor} {rules : List MarketRule}
    (hact : ∀ s, w.account = some s → ∀ e ∈ liveOrders s day, d.act (.release e.1 .dayExpired at_))
    (h : expireDay spec w aid day cursors at_ rules = .ok w') : AccountChange spec d w w' := by
  rcases expireDay_ok h with rfl | ⟨s, st, hs, -, -, hst, hpublish⟩
  · exact .none rfl rfl
  · exact .of_publish hs (by simp) (expireWalk_run (hact s hs) hst) hpublish

theorem step_change {c : Command} (h : step spec w c = .ok w') (hd : d.Open)
    (hflows : ∀ aid at_ proofs, c = .advance aid at_ proofs → AdvanceRuns spec d w at_ proofs) :
    AccountChange spec d w w' := by
  cases c with
  | opening aid running =>
      rcases initializeAccount_ok h with rfl | ⟨hnone, -, o, hinit, hcommit⟩
      · exact .none rfl rfl
      · obtain ⟨o', hseal, rfl⟩ := World.commit_ok hcommit
        exact .opened hnone hinit hseal rfl rfl rfl rfl rfl rfl rfl rfl rfl
  | account aid r =>
      rcases direct_ok h with rfl | ⟨s, o, hs, -, hcheck, hrun, hcommit⟩
      · exact .none rfl rfl
      · obtain ⟨o', hseal, rfl⟩ := World.commit_ok hcommit
        refine .event hs rfl rfl ?_
          (LedgerRun.single (LedgerStep.account hcheck hrun hseal (hd.acts r)))
          (.performed rfl hrun hseal) rfl
        simp [AccountEvent.lotKeys, StageRequest.lotKeys]
  | acceptBatch aid orders proofs at_ => exact acceptBatch_change (hd.acts _) h
  | advanceMinute aid e =>
      exact advanceMinute_change (fun _ _ _ _ _ _ _ _ _ => hd.acts _) h
  | queueAdvance aid e throughAt throughSequence =>
      exact queueAdvance_change (fun _ _ _ _ _ _ _ _ _ => hd.acts _) h
  | submit aid session plan proofs => exact submit_change (fun _ _ => hd.acts _) (fun _ _ => hd.acts _) hd.sends h
  | advance aid at_ proofs => exact advance_change (hflows _ _ _ rfl) h
  | expireDay aid day cursors at_ rules => exact expireDay_change (fun _ _ _ _ => hd.acts _) h

/-- The same under the discipline that asks nothing. -/
theorem step_account {c : Command} (h : step spec w c = .ok w') : AccountChange spec .any w w' :=
  step_change h Discipline.any_open fun _ _ _ _ _ _ _ hrun =>
    advanceWalk_run (fun _ _ _ => trivial) (fun _ _ => trivial) (fun _ _ => trivial)
      (fun _ => trivial) hrun

end Ahunter.Sim
