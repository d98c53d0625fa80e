import Ahunter.Sim.Orders

/-!
# Runs

The simulated account as a transition system: a command is a call of one of
the entry points, a step is a call that succeeds, and a run is any sequence
of steps from the empty world. Which calls a host makes, in which order and
with which identities is left open; what a theorem needs of them it says as
a condition on the steps.
-/

namespace Ahunter.Sim

open Ahunter.Lib

/-- A call of one of the entry points. -/
inductive Command
  | opening (actionId : String) (running : Bool)
  | account (actionId : String) (r : AccountRequest)
  | acceptBatch (actionId : String) (orders : List Reservation)
      (proofs : List AcceptanceEvidence) (at_ : Instant)
  | advanceMinute (actionId : String) (e : MinuteEvidence)
  | queueAdvance (actionId : String) (e : QueueEvidence)
      (throughAt : Option Instant) (throughSequence : Option ℤ)
  | submit (actionId : String) (session : Session) (plan : StagePlan)
      (proofs : List AcceptanceEvidence)
  | advance (actionId : String) (at_ : Instant)
      (proofs : List MarketActionEvidence)
  | expireDay (actionId : String) (day : Date)
      (cursors : Dict String MarketCursor) (at_ : Instant)
      (rules : List MarketRule)

def step (spec : AccountSpec) (w : World) : Command → Attempt World
  | .opening actionId running => w.initializeAccount spec actionId running
  | .account actionId r => w.direct spec actionId r
  | .acceptBatch actionId orders proofs at_ =>
      acceptBatch spec w actionId orders proofs at_
  | .advanceMinute actionId e => advanceMinute spec w actionId e
  | .queueAdvance actionId e throughAt throughSequence =>
      queueAdvance spec w actionId e throughAt throughSequence
  | .submit actionId session plan proofs =>
      submit spec w actionId session plan proofs
  | .advance actionId at_ proofs => advance spec w actionId at_ proofs
  | .expireDay actionId day cursors at_ rules =>
      expireDay spec w actionId day cursors at_ rules

def StepIf (spec : AccountSpec) (ok : World → Command → World → Prop)
    (w w' : World) : Prop :=
  ∃ c, step spec w c = .ok w' ∧ ok w c w'

def ReachableIf (spec : AccountSpec) (ok : World → Command → World → Prop)
    (w : World) : Prop :=
  Relation.ReflTransGen (StepIf spec ok) World.start w

def Reachable (spec : AccountSpec) (w : World) : Prop :=
  ReachableIf spec (fun _ _ _ => True) w

variable {spec : AccountSpec} {ok : World → Command → World → Prop}

theorem ReachableIf.invariant {P : World → Prop} {w : World}
    (h : ReachableIf spec ok w) (hstart : P World.start)
    (hstep : ∀ w c w', ReachableIf spec ok w → P w →
      step spec w c = .ok w' → ok w c w' → P w') : P w := by
  induction h with
  | refl => exact hstart
  | tail hw hs ih =>
      obtain ⟨c, hc, hok⟩ := hs
      exact hstep _ c _ hw ih hc hok

theorem ReachableIf.reachable {w : World} (h : ReachableIf spec ok w) : Reachable spec w := by
  induction h with
  | refl => exact Relation.ReflTransGen.refl
  | tail _ hs ih =>
      obtain ⟨c, hc, -⟩ := hs
      exact ih.tail ⟨c, hc, trivial⟩

def runs (spec : AccountSpec) (ok : World → Command → World → Prop)
    [∀ w c w', Decidable (ok w c w')] (w : World) : List Command → Option World
  | [] => some w
  | c :: cs =>
      match step spec w c with
      | .error _ => none
      | .ok w' => if ok w c w' then runs spec ok w' cs else none

theorem steps_of_runs [∀ w c w', Decidable (ok w c w')] {cs : List Command} {w w' : World}
    (h : runs spec ok w cs = some w') : Relation.ReflTransGen (StepIf spec ok) w w' := by
  induction cs generalizing w with
  | nil =>
      cases h
      exact Relation.ReflTransGen.refl
  | cons c cs ih =>
      rw [runs] at h
      split at h
      · cases h
      · next next hstep =>
          split at h
          · next hok => exact (ih h).head ⟨c, hstep, hok⟩
          · cases h

theorem ReachableIf.of_check (spec : AccountSpec)
    (ok : World → Command → World → Prop) [∀ w c w', Decidable (ok w c w')]
    (cs : List Command) (test : World → Bool) (h : (runs spec ok World.start cs).any test = true) :
    ∃ w, ReachableIf spec ok w ∧ test w = true := by
  rw [Option.any_eq_true] at h
  obtain ⟨w, hw, htest⟩ := h
  exact ⟨w, steps_of_runs hw, htest⟩

/-! ## Lot keys -/

def AccountRequest.lotKeys (actionId : String) (s : AccountState) :
    AccountRequest → List String
  | .fill orderId _ _ _ =>
      match s.orders.get? orderId with
      | some order => if order.side = .buy then [actionId] else []
      | none => []
  | .corporateApply corporateId _ =>
      match s.corporateActions.get? corporateId with
      | some item =>
          if item.terms.action.kind = .bonus then
            item.entitlements.map fun e => bonusLotId corporateId e.lotId
          else []
      | none => []
  | .specialSettlement terms _ =>
      (terms.allocations.filter fun a => a.replacementQuantity ≠ 0).map fun a =>
        replacementLotId terms.settlementId a.lotId
  | _ => []

def StageRequest.lotKeys (actionId : String) (s : AccountState) :
    StageRequest → List String
  | .account r => r.lotKeys actionId s
  | .orderMarketState .. => []

def AccountEvent.lotKeys (e : AccountEvent) : List String :=
  match e.request with
  | .account r => r.lotKeys e.actionId e.state
  | _ => e.effects.flatMap fun f => f.request.lotKeys f.actionId e.state

def FreshKeys (s : AccountState) (keys : List String) : Prop :=
  keys.Nodup ∧ ∀ k ∈ keys, s.stockLots.get? k = none

def FreshLots (w : World) (_ : Command) (w' : World) : Prop :=
  ∀ s, w.account = some s →
    ∀ e ∈ w'.events.drop w.events.length, FreshKeys s e.lotKeys

instance (s : AccountState) (keys : List String) : Decidable (FreshKeys s keys) :=
  inferInstanceAs (Decidable (_ ∧ _))

instance (w : World) (c : Command) (w' : World) : Decidable (FreshLots w c w') :=
  inferInstanceAs (Decidable (∀ s, s ∈ w.account → _))

/-! ## A sample market

One board, one fee schedule and an account with a single position, for the
runs that later modules exhibit. -/

def minuteMicros : ℤ := 60000000

def sampleAt (day minutes : ℤ) : Instant :=
  day * dayMicros + minutes * minuteMicros - 8 * 60 * minuteMicros

def sampleSpan (start stop : ℤ) : Interval :=
  ⟨start * minuteMicros, stop * minuteMicros⟩

def sampleRule : MarketRule where
  exchange := "SH"
  board := .main
  st := false
  effectiveFrom := -100
  effectiveTo := 100
  tick := 1 / 100
  buyMinimum := 100
  buyIncrement := 100
  maximumOrderQuantity := 1000000
  fillIncrement := 1
  priceLimitFraction := none
  priceCageFraction := none
  priceCageTicks := none
  boughtSharesSellLag := 1
  soldCashReuseLag := 0
  soldCashWithdrawLag := 1
  continuous := [sampleSpan 570 690, sampleSpan 780 897]
  openingAuction := sampleSpan 555 565
  closingAuction := sampleSpan 897 900
  acceptOrders := [sampleSpan 555 565, sampleSpan 570 690, sampleSpan 780 900]
  cancelForbidden := []
  minuteSeconds := 60
  tick_pos := by norm_num
  buyIncrement_pos := by norm_num
  fillIncrement_pos := by norm_num

def sampleFees : FeeSchedule := ⟨"SH", -100, 100, []⟩

def sampleExecution : ExecutionSettings where
  participationRate := 1 / 10
  minuteSlippageTicks := 0
  queueSlippageTicks := 0
  orderLatencyMs := 0
  cancelLatencyMs := 0
  receiptLatencyMs := 0
  commissionRate := 3 / 10000
  minimumCommission := 5
  commissionIncludesExchangeFees := false
  feeQuantum := 1 / 100
  participation_pos := by norm_num
  participation_le := by norm_num
  commissionRate_nonneg := by norm_num
  minimumCommission_nonneg := by norm_num

def sampleSecurity : String := "SH600000"

def sampleSpec : AccountSpec where
  zone := ⟨8 * 60 * minuteMicros⟩
  sessions := [0, 1, 2, 3]
  tradingDates := [0, 1]
  initialAsOf := sampleAt 0 480
  initialCash := 100000
  initialPositions := [⟨sampleSecurity, 150, -10, 10, by norm_num, by norm_num⟩]
  entitlements := [.board .main]
  voluntarySubscription := false
  execution := sampleExecution
  schedule := [⟨"morning", .auction, some 0, ⟨sampleAt 0 490, sampleAt 0 490⟩,
    some (sampleAt 0 500)⟩]
  mainActorId := "main"
  visible := fun a b => a.eventAt ≤ b.eventCutoff
  queueFillId := fun action sequence order =>
    "queue-fill:" ++ action ++ ":" ++ toString sequence ++ ":" ++ order
  orderStateId := fun order _ at_ reason =>
    "state:" ++ order ++ ":" ++ toString at_ ++ ":" ++ reason
  sessions_sorted := by decide
  trading_subset := by decide
  trading_ne := by decide
  initialCash_nonneg := by norm_num
  positions_nodup := by decide

def sampleOrder (id : String) (side : Side) (quantity : ℤ) (price : ℚ) : Reservation where
  orderId := id
  security := sampleSecurity
  side := side
  quantity := if 0 < quantity then quantity else 1
  limitPrice := if 0 < price then price else 1
  marketRule := sampleRule
  feeSchedule := sampleFees
  quantity_pos := by split <;> omega
  limitPrice_pos := by split <;> first | assumption | norm_num

def noBounds : PriceBounds := ⟨none, none, rfl, by simp⟩

def sampleEvidence (policy : RemainderPolicy) (at_ : Instant) : AcceptanceEvidence where
  security := sampleSecurity
  at_ := at_
  availability := ⟨at_, ""⟩
  sourceRefs := ["source"]
  sourceHash := "hash"
  priceBounds := noBounds
  buyCageUpper := none
  sellCageLower := none
  sellMinimum := 100
  sellIncrement := 100
  sellRemainderPolicy := policy
  sellMinimum_pos := by norm_num
  sellIncrement_pos := by norm_num

def sampleMinute (minute : ℤ) : MinuteEvidence where
  security := sampleSecurity
  marketRule := sampleRule
  bar := ⟨sampleAt 0 minute, sampleAt 0 (minute + 1), 10, 10, 10, 10, 10000⟩
  priceBounds := noBounds
  availability := ⟨sampleAt 0 (minute + 1), ""⟩
  sourceRefs := ["source"]
  sourceHash := "hash"
  trading := .active
  corporateActionsComplete := true
  queueRequiredReasons := []

end Ahunter.Sim
