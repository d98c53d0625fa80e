import Ahunter.Proofs.Entitlements
import Ahunter.Proofs.Steps

/-!
# The journal reconciles with the projection

The account event log carries two things that are written independently: the
journal entries of every operation and the state the operation left. Over any
run in which no lot key is used twice the two say the same: summed from the
beginning, the entries give the balances of the state after every event.

The argument is `perform_writes` for one operation, `LedgerRun.writes` for
what one command made of it, and an induction over the run.
-/

namespace Ahunter.Sim

open Ahunter.Lib

variable {spec : AccountSpec} {d : Discipline}

/-! ## Ledger steps -/

def RunWrites (s : AccountState) (as : List Act) (es : List Entry)
    (t : AccountState) : Prop :=
  ∃ keys, Writes s keys es t ∧
    ∀ u : AccountState, OrdersKept t.orders u.orders →
      ActionsKept t.corporateActions u.corporateActions →
      as.flatMap (fun a => a.2.lotKeys a.1 u) = keys

variable {s t : AccountState}

theorem LedgerStep.writes {as : List Act} {es : List Entry}
    (h : LedgerStep spec d s as es t) : RunWrites s as es t := by
  cases h with
  | account hcheck hrun hseal =>
      obtain ⟨keys, hw, hkeys⟩ := perform_writes hrun
      have hsealed := (prepareState_ok hseal).writes hw
      refine ⟨keys, hsealed, fun u ho ha => ?_⟩
      simpa [StageRequest.lotKeys] using
        hkeys u (hsealed.orders.trans ho) (hsealed.actions.trans ha)
  | moved horder hheld hmove hrun hseal =>
      obtain ⟨order, hget, rfl⟩ := orderMarketState_ok hrun
      exact ⟨[], (prepareState_ok hseal).writes (Writes.order hget rfl (by simp)),
        fun _ _ _ => by simp [StageRequest.lotKeys]⟩
  | marked horder hstatus =>
      exact ⟨[], Writes.order horder rfl (by simp), fun _ _ _ => rfl⟩
  | resealed hseal =>
      exact ⟨[], (prepareState_ok hseal).writes (Writes.refl s), fun _ _ _ => rfl⟩

theorem LedgerRun.writes {as : List Act} {es : List Entry}
    (h : LedgerRun spec d s as es t) : RunWrites s as es t := by
  induction h with
  | refl => exact ⟨[], Writes.refl s, fun _ _ _ => rfl⟩
  | tail _ hstep ih =>
      obtain ⟨ks, hw, hk⟩ := ih
      obtain ⟨js, hw', hj⟩ := hstep.writes
      refine ⟨ks ++ js, hw.trans hw', fun u ho ha => ?_⟩
      rw [List.flatMap_append, hk u (hw'.orders.trans ho) (hw'.actions.trans ha),
        hj u ho ha]

/-! ## The opening -/

def initialShares (spec : AccountSpec) (security : String) : ℤ :=
  ((spec.initialPositions.filter fun p => p.security = security).map
    Position.quantity).sum

structure Balanced (spec : AccountSpec) (es : List Entry) (s : AccountState) :
    Prop where
  cash : posted Entry.toCash es = cashTotal s
  payables : posted Entry.toPayables es = s.payables
  reserve : posted Entry.toReserve es = s.dividendTaxReserve
  liabilities : s.liabilities = s.dividendTaxReserve
  shares : ∀ security,
    posted (Entry.toShares security) es + initialShares spec security
      = sharesOver s.stockLots security

theorem Balanced.append {es fs : List Entry} (h : Balanced spec es s) (hr : Reconciles s fs t) :
    Balanced spec (es ++ fs) t where
  cash := by rw [posted_append, h.cash, hr.cash]
  payables := by rw [posted_append, h.payables, hr.payables]
  reserve := by rw [posted_append, h.reserve, hr.reserve]
  liabilities := by
    have := hr.liabilities
    rw [h.liabilities, sub_self] at this
    exact sub_eq_zero.mp this
  shares := fun sec => by
    rw [posted_append, hr.shares, ← h.shares]
    ring

theorem sum_filter_zipIdx (ps : List Position) (security : String) (n : ℕ) :
    ((ps.zipIdx n).map fun e => if e.1.security = security then e.1.quantity else 0).sum
      = ((ps.filter fun p => p.security = security).map Position.quantity).sum := by
  induction ps generalizing n with
  | nil => rfl
  | cons p ps ih =>
      rw [List.zipIdx_cons, List.map_cons, List.sum_cons, ih]
      by_cases h : p.security = security <;> simp [h]

theorem initialState_shares (opens : Date) (security : String) :
    sharesOver (initialState spec opens).stockLots security = initialShares spec security := by
  have hnodup : ((spec.initialPositions.zipIdx.map fun e =>
      ("initial:" ++ e.1.security, initialLot spec opens e.1 e.2)).map Prod.fst).Nodup := by
    rw [List.map_map]
    have hfst : (Prod.fst ∘ fun (e : Position × ℕ) =>
        ("initial:" ++ e.1.security, initialLot spec opens e.1 e.2))
        = (fun s => "initial:" ++ s) ∘ Position.security ∘ Prod.fst := rfl
    rw [hfst, ← List.map_map, ← List.map_map, List.zipIdx_map_fst]
    exact spec.positions_nodup.map fun a b h => (String.append_right_inj _).mp h
  rw [sharesOver, initialState, Dict.sum_ofList _ (by exact hnodup), List.map_map,
    initialShares, ← sum_filter_zipIdx _ _ 0]
  rfl

theorem opening_balanced {o o' : Outcome} (hinit : initializeAccount spec = .ok o)
    (hseal : prepareState spec .opening o = .ok o') :
    Balanced spec o'.entries o'.state ∧ Entitled o'.state := by
  simp only [initializeAccount, bind_ok, refuse_ok, pure_ok] at hinit
  obtain ⟨-, -, rfl⟩ := hinit
  set opens := spec.tradingDates.head spec.trading_ne
  -- The capital is the first change to an account without any.
  let empty := { initialState spec opens with cashLots := [] }
  have hcapital : Writes empty [] [.cash spec.initialCash (some "initial_capital")]
      (initialState spec opens) :=
    Writes.money (OrdersKept.refl _) (ActionsSame.refl _) rfl rfl rfl
      (by simp [cashTotal, Entry.toCash, initialState, empty])
      (by simp [Entry.toPayables, initialState, empty])
      (by simp [Entry.toReserve, Entry.toShares])
  have hempty : Balanced spec [] empty := {
    cash := rfl
    payables := rfl
    reserve := rfl
    liabilities := rfl
    shares := fun sec => by
      rw [posted_nil, zero_add]
      exact (initialState_shares opens sec).symm }
  have hentitled : Entitled empty := fun _ _ h => by cases h
  obtain ⟨hent, hr⟩ := ((prepareState_ok hseal).writes hcapital).effect
    ⟨by simp, by simp⟩ hentitled
  exact ⟨by simpa using hempty.append hr, hent⟩

/-! ## Runs -/

/-- Every event's state is what the entries up to it add up to, and the
projection is the state of the last event. -/
structure JournalSound (spec : AccountSpec) (w : World) : Prop where
  balanced : ∀ pre e post, w.events = pre ++ e :: post →
    Balanced spec ((pre ++ [e]).flatMap AccountEvent.entries) e.state
  projected : w.account = w.events.getLast?.map AccountEvent.state
  entitled : ∀ s, w.account = some s → Entitled s

theorem journal_last {w : World} {s : AccountState} (h : JournalSound spec w)
    (hs : w.account = some s) : Balanced spec w.journal s := by
  have hlast := h.projected
  rw [hs] at hlast
  obtain ⟨e, he, rfl⟩ := Option.map_eq_some_iff.mp hlast.symm
  obtain ⟨pre, hpre⟩ := List.getLast?_eq_some_iff.mp he
  rw [World.journal, hpre]
  exact h.balanced pre e [] hpre

theorem JournalSound.append {w w' : World} {ev : AccountEvent}
    (h : JournalSound spec w) (haccount : w'.account = some ev.state)
    (hevents : w'.events = w.events ++ [ev])
    (hbalanced : Balanced spec (w.journal ++ ev.entries) ev.state)
    (hentitled : Entitled ev.state) : JournalSound spec w' where
  balanced := fun pre e post heq => by
    rw [hevents] at heq
    rcases List.eq_nil_or_concat post with rfl | ⟨post', last, rfl⟩
    · obtain ⟨hpre, he⟩ := List.append_inj' heq rfl
      cases he
      rw [List.flatMap_append, ← hpre]
      simpa [World.journal] using hbalanced
    · have hsplit : w.events = pre ++ e :: post' := by
        have : w.events ++ [ev] = (pre ++ e :: post') ++ [last] := by
          simpa using heq
        exact (List.append_inj' this rfl).1
      exact h.balanced pre e post' hsplit
  projected := by rw [haccount, hevents]; simp
  entitled := fun s hs => by
    rw [haccount] at hs
    cases hs
    exact hentitled

theorem step_journalSound {w w' : World} {c : Command}
    (h : JournalSound spec w) (hstep : step spec w c = .ok w')
    (hfresh : FreshLots w c w') : JournalSound spec w' := by
  cases step_account hstep with
  | none haccount hevents =>
      exact ⟨by rw [hevents]; exact h.balanced,
        by rw [haccount, hevents]; exact h.projected,
        by rw [haccount]; exact h.entitled⟩
  | @opened o o' ev hnone hinit hseal haccount hevents hstate hentries hkeys =>
      obtain ⟨hbal, hent⟩ := opening_balanced hinit hseal
      have hempty : w.events = [] := by
        have := h.projected
        rw [hnone] at this
        simpa using this
      refine h.append haccount hevents ?_ (hstate ▸ hent)
      rw [World.journal, hempty, hstate, hentries]
      exact hbal
  | @event s ev acts hs haccount hevents hkeys hrun =>
      obtain ⟨keys, hw, hlater⟩ := hrun.writes
      have hfresh' : FreshKeys s keys := by
        have := hfresh s hs ev (by rw [hevents]; simp)
        rwa [hkeys, hlater _ (OrdersKept.refl _) (ActionsKept.refl _)] at this
      obtain ⟨hent, hr⟩ := hw.effect hfresh' (h.entitled s hs)
      exact h.append haccount hevents ((journal_last h hs).append hr) hent

theorem reachable_journalSound {w : World} (h : ReachableIf spec FreshLots w) :
    JournalSound spec w := by
  refine h.invariant ⟨fun pre e post heq => ?_, rfl, fun s hs => ?_⟩
    fun w c w' _ hw hstep hfresh => step_journalSound hw hstep hfresh
  · exact absurd heq (by simp [World.start])
  · cases hs

def sampleTrades : List Command := [
  .opening "open" true,
  .account "reserve" (.reserveBatch
    [sampleOrder "buy" .buy 200 11] (sampleAt 0 600)),
  .account "buy-1" (.fill "buy" 100 11 (sampleAt 0 601)),
  .account "buy-2" (.fill "buy" 100 (21 / 2) (sampleAt 0 602)),
  .account "offer" (.reserveBatch
    [sampleOrder "sell" .sell 150 10] (sampleAt 0 603)),
  .account "sell-1" (.fill "sell" 150 10 (sampleAt 0 604))]

end Ahunter.Sim
