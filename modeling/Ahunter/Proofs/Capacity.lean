import Ahunter.Proofs.Priority
import Ahunter.Proofs.Retries

/-!
# The shared capacity of a minute

What the simulation may take of a minute's historical volume is a budget that
two executors draw on. Its `used` count is kept on the side; here it is shown
to be the shares that the records of minutes and replays say were filled,
never more than the volume allows, and drawn by one executor only. The shares
filled against one historical match stay within it, over every replay of its
stream.
-/

namespace Ahunter.Sim

open Ahunter.Lib

variable {spec : AccountSpec} {aid : String} {w w' : World} {x x' : ExecutionState}
  {key k : MinuteKey}

/-! ## What was filled -/

def MinuteRecord.filled (r : MinuteRecord) : ℤ := (r.results.map MinuteResult.quantity).sum

def QueueMarket.minuteOf (e : QueueMarket) (sequence : ℤ) : Option MinuteKey :=
  (e.events.find? fun t => t.event.sequence = sequence).bind fun t =>
    t.capacityStart.map (minuteKey e.security)

def filledIn (e : QueueMarket) (key : MinuteKey) (fills : List QueueFill) : ℤ :=
  ((fills.filter fun f => e.minuteOf f.sequence = some key).map QueueFill.quantity).sum

def filledAt (sequence : ℤ) (fills : List QueueFill) : ℤ :=
  ((fills.filter fun f => f.sequence = sequence).map QueueFill.quantity).sum

def ExecutionState.filled (x : ExecutionState) (key : MinuteKey) : ℤ :=
  (x.minutes.get? key).elim 0 MinuteRecord.filled +
    x.queueResults.sum fun _ r => filledIn r.market key r.fills

def ExecutionState.usedOf (x : ExecutionState) (key : MinuteKey) : ℤ :=
  (x.liquidity.get? key).elim 0 Capacity.used

theorem filledIn_append (e : QueueMarket) (key : MinuteKey) (fs gs : List QueueFill) :
    filledIn e key (fs ++ gs) = filledIn e key fs + filledIn e key gs := by
  simp only [filledIn, List.filter_append, List.map_append, List.sum_append]

theorem filledAt_append (n : ℤ) (fs gs : List QueueFill) :
    filledAt n (fs ++ gs) = filledAt n fs + filledAt n gs := by
  simp only [filledAt, List.filter_append, List.map_append, List.sum_append]

variable {fills : List QueueFill}

theorem filledAt_of_ne {n : ℤ} (h : ∀ f ∈ fills, f.sequence ≠ n) : filledAt n fills = 0 := by
  rw [filledAt, List.filter_eq_nil_iff.mpr fun f hf => by simpa using h f hf]
  rfl

theorem filledAt_of_eq {n : ℤ} (h : ∀ f ∈ fills, f.sequence = n) :
    filledAt n fills = (fills.map QueueFill.quantity).sum := by
  rw [filledAt, List.filter_eq_self.mpr fun f hf => by simpa using h f hf]

theorem filledIn_of_eq {e : QueueMarket} {n : ℤ}
    (h : ∀ f ∈ fills, f.sequence = n) (hkey : e.minuteOf n = some key) (k : MinuteKey) :
    filledIn e k fills = if k = key then (fills.map QueueFill.quantity).sum else 0 := by
  split
  · next heq =>
      rw [filledIn, List.filter_eq_self.mpr fun f hf => by rw [h f hf, hkey, heq]; simp]
  · next hne =>
      rw [filledIn, List.filter_eq_nil_iff.mpr fun f hf => by
        rw [h f hf, hkey]
        simpa using Ne.symm hne]
      rfl

/-! ## Drawing on a budget -/

/-- No budget is overdrawn, or larger than its minute allows. -/
def Capped (spec : AccountSpec) (x : ExecutionState) : Prop :=
  ∀ key c, x.liquidity.get? key = some c → 0 ≤ c.used ∧ c.used ≤ c.total ∧
    (c.total : ℚ) ≤ spec.execution.participationRate * c.historicalVolume

theorem capacityTotal_bounds (rule : MarketRule) (volume : ℕ) {rate : ℚ} (hrate : 0 ≤ rate) :
    0 ≤ capacityTotal rule volume rate ∧ (capacityTotal rule volume rate : ℚ) ≤ rate * volume := by
  have hinc : (0 : ℚ) < rule.fillIncrement := by exact_mod_cast rule.fillIncrement_pos
  have hshare : 0 ≤ volume * rate / (rule.fillIncrement : ℚ) := by positivity
  constructor
  · exact mul_nonneg (Int.floor_nonneg.mpr hshare) rule.fillIncrement_pos.le
  · rw [capacityTotal, Int.cast_mul]
    calc ((⌊volume * rate / (rule.fillIncrement : ℚ)⌋ : ℤ) : ℚ) * rule.fillIncrement
        ≤ volume * rate / rule.fillIncrement * rule.fillIncrement :=
          mul_le_mul_of_nonneg_right (Int.floor_le _) hinc.le
      _ = rate * volume := by rw [div_mul_cancel₀ _ hinc.ne', mul_comm]

theorem roundDown_le {value increment : ℤ} (h : 0 < increment) :
    roundDown value increment ≤ value := Int.ediv_mul_le _ h.ne'

theorem capacityFor_draws {security sourceHash : String} {start : Instant} {volume : ℕ}
    {rule : MarketRule} {c : Capacity} (hcap : Capped spec x)
    (h : capacityFor x security start volume rule spec.execution.participationRate sourceHash
      = .ok (x', c)) : Capped spec x' ∧ ∀ k, x'.usedOf k = x.usedOf k := by
  obtain ⟨hc, hvolume, htotal, -, rfl⟩ := capacityFor_ok h
  have hfresh := capacityTotal_bounds rule volume spec.execution.participation_pos.le
  have hone : 0 ≤ c.used ∧ c.used ≤ c.total ∧
      (c.total : ℚ) ≤ spec.execution.participationRate * c.historicalVolume := by
    cases hold : x.liquidity.get? (minuteKey security start) with
    | none =>
        rw [hold, Option.getD_none] at hc
        rw [hc]
        exact ⟨le_rfl, hfresh.1, hfresh.2⟩
    | some d =>
        rw [hold, Option.getD_some] at hc
        rw [hc]
        exact hcap _ d hold
  constructor
  · intro key d hd
    rcases eq_or_ne key (minuteKey security start) with rfl | hne
    · rw [Dict.get?_set_self, Option.some_inj] at hd
      rw [← hd]
      exact hone
    · rw [Dict.get?_set_of_ne hne] at hd
      exact hcap key d hd
  · intro k
    rcases eq_or_ne k (minuteKey security start) with rfl | hne
    · rw [ExecutionState.usedOf, Dict.get?_set_self, ExecutionState.usedOf]
      cases hold : x.liquidity.get? (minuteKey security start) with
      | none =>
          rw [hold, Option.getD_none] at hc
          rw [hc]
          rfl
      | some d =>
          rw [hold, Option.getD_some] at hc
          rw [hc]
    · rw [ExecutionState.usedOf, Dict.get?_set_of_ne hne, ExecutionState.usedOf]

theorem consume_draws {c : Capacity} {quantity : ℤ} (hcap : Capped spec x)
    (h : x.consume key quantity = .ok x') (hc : x.liquidity.get? key = some c)
    (hnonneg : 0 ≤ quantity) (hleft : quantity ≤ c.total - c.used) :
    Capped spec x' ∧ (∀ k, x'.usedOf k = x.usedOf k + if k = key then quantity else 0) ∧
      x'.routes = x.routes ∧
      ∃ d, x'.liquidity.get? key = some d ∧ d.total - d.used = c.total - c.used - quantity := by
  obtain ⟨d, hd, rfl⟩ := consume_ok h
  obtain rfl : d = c := Option.some.inj (hd.symm.trans hc)
  obtain ⟨hused, -, htotal⟩ := hcap key d hd
  refine ⟨fun k b hb => ?_, fun k => ?_, rfl, _, Dict.get?_set_self _ _ _, sub_add_eq_sub_sub ..⟩
  · rcases eq_or_ne k key with rfl | hne
    · rw [Dict.get?_set_self, Option.some_inj] at hb
      rw [← hb]
      exact ⟨add_nonneg hused hnonneg, by dsimp only; omega, htotal⟩
    · rw [Dict.get?_set_of_ne hne] at hb
      exact hcap k b hb
  · rcases eq_or_ne k key with rfl | hne
    · rw [if_pos rfl, ExecutionState.usedOf, Dict.get?_set_self, ExecutionState.usedOf, hd]
      rfl
    · rw [if_neg hne, add_zero, ExecutionState.usedOf, Dict.get?_set_of_ne hne,
        ExecutionState.usedOf]

theorem run_fill_pos {st st' : Staged} {id orderId : String} {quantity : ℤ} {price : ℚ}
    {at_ : Instant} (h : st.run spec id (.fill orderId quantity price at_) = .ok st') :
    0 < quantity := by
  have hcheck := (Staged.run_ok h).1
  simp only [AccountRequest.check, refuse_ok, not_or, not_le] at hcheck
  exact hcheck.1

/-! ## A minute -/

theorem minuteOne_draws {e : MinuteEvidence} {a b : MinuteRun} {o : MinuteOrder}
    (hcap : Capped spec a.execution) (h : minuteOne spec aid e a o = .ok b) :
    Capped spec b.execution ∧ b.execution.routes = a.execution.routes ∧
      ∃ n, (b.results.map MinuteResult.quantity).sum
          = (a.results.map MinuteResult.quantity).sum + n ∧
        ∀ k, b.execution.usedOf k = a.execution.usedOf k +
          if k = minuteKey e.security e.bar.intervalStart then n else 0 := by
  simp only [minuteOne, bind_ok, need_ok] at h
  obtain ⟨c, hc, h⟩ := h
  split at h
  · cases pure_ok.mp h
    exact ⟨hcap, rfl, 0, by simp, fun k => by simp⟩
  · simp only [bind_ok, pure_ok] at h
    obtain ⟨st, hst, x, hx, rfl⟩ := h
    have hle := (roundDown_le e.marketRule.fillIncrement_pos).trans
      (min_le_right o.order.remaining (c.total - c.used))
    obtain ⟨hcap', hused, hroutes, -⟩ := consume_draws hcap hx hc (run_fill_pos hst).le hle
    exact ⟨hcap', hroutes, _, by simp, hused⟩

theorem MinuteExecuted.draws {e : MinuteEvidence} {s : AccountState}
    {orders : List MinuteOrder} {capacity : Capacity} {run : MinuteRun}
    (h : MinuteExecuted spec aid e w w' s orders x capacity run) (hcap : Capped spec w.execution) :
    Capped spec w'.execution ∧ w'.execution.routes
        = w.execution.routes.set (minuteKey e.security e.bar.intervalStart) .minute ∧
      ∀ k, w'.execution.usedOf k = w.execution.usedOf k +
        if k = minuteKey e.security e.bar.intervalStart then
          (run.results.map MinuteResult.quantity).sum else 0 := by
  obtain ⟨hcap', hsame⟩ := capacityFor_draws hcap h.opened
  obtain ⟨-, -, -, -, hx⟩ := capacityFor_ok h.opened
  rw [h.execution]
  refine walk_induction (P := fun r : MinuteRun => Capped spec r.execution ∧
    r.execution.routes
      = w.execution.routes.set (minuteKey e.security e.bar.intervalStart) .minute ∧
    ∀ k, r.execution.usedOf k = w.execution.usedOf k +
      if k = minuteKey e.security e.bar.intervalStart then
        (r.results.map MinuteResult.quantity).sum else 0) h.filled
    ⟨hcap', by rw [hx], fun k => ?_⟩ fun a o b _ hp hone => ?_
  · rw [List.map_nil, List.sum_nil, ite_self, add_zero]
    exact hsame k
  · obtain ⟨ha, hroutes, hused⟩ := hp
    obtain ⟨hb, hkeep, n, hn, hmore⟩ := minuteOne_draws ha hone
    refine ⟨hb, hkeep.trans hroutes, fun k => ?_⟩
    rw [hmore, hused, hn]
    split <;> omega

/-! ## A match -/

structure MatchTaken (spec : AccountSpec) (key : MinuteKey) (n : ℤ) (a b : TradeRun) : Prop where
  capped : Capped spec b.execution
  routes : b.execution.routes = a.execution.routes
  left : ∃ c, b.execution.liquidity.get? key = some c ∧ b.available ≤ c.total - c.used
  fills : ∃ new, b.fills = a.fills ++ new ∧ (∀ f ∈ new, f.sequence = n) ∧
    b.available = a.available - (new.map QueueFill.quantity).sum ∧ (new = [] ∨ 0 ≤ b.available) ∧
    ∀ k, b.execution.usedOf k = a.execution.usedOf k +
      if k = key then (new.map QueueFill.quantity).sum else 0

theorem MatchTaken.fill {rule : MarketRule} {tick : QueueTick} {a b c : TradeRun} {id : String}
    (hab : MatchTaken spec key tick.event.sequence a b)
    (h : fillCandidate spec aid rule key tick b id = .ok c) :
    MatchTaken spec key tick.event.sequence a c := by
  simp only [fillCandidate, bind_ok, need_ok] at h
  obtain ⟨order, -, h⟩ := h
  split at h
  · cases pure_ok.mp h
    exact hab
  · simp only [bind_ok, pure_ok] at h
    obtain ⟨st, hst, x, hx, rfl⟩ := h
    obtain ⟨hcap, hroutes, ⟨d, hd, hleft⟩, new, hnew, hsame, havailable, -, hused⟩ := hab
    have hle := (roundDown_le rule.fillIncrement_pos).trans
      (min_le_left b.available order.remaining)
    obtain ⟨hcap', hmore, hkeep, d', hd', hrest⟩ :=
      consume_draws hcap hx hd (run_fill_pos hst).le (hle.trans hleft)
    refine ⟨hcap', hkeep.trans hroutes, ⟨d', hd', by rw [hrest]; dsimp only; omega⟩,
      new ++ [_], by rw [hnew, List.append_assoc], ?_, ?_, .inr (by dsimp only; omega), fun k => ?_⟩
    · intro f hf
      rcases List.mem_append.mp hf with hf | hf
      · exact hsame f hf
      · rw [List.mem_singleton.mp hf]
    · simp only [List.map_append, List.sum_append, List.map_cons, List.map_nil, List.sum_cons,
        List.sum_nil, add_zero, havailable]
      omega
    · rw [hmore, hused]
      simp only [List.map_append, List.sum_append, List.map_cons, List.map_nil, List.sum_cons,
        List.sum_nil, add_zero]
      split <;> omega

/-! ## A replay -/

theorem minuteOf_eq {e : QueueMarket} (h : Sequenced e.events) {t : QueueTick} (ht : t ∈ e.events)
    {start : Instant} (hs : t.capacityStart = some start) :
    e.minuteOf t.event.sequence = some (minuteKey e.security start) := by
  have hfind : e.events.find? (fun u => u.event.sequence = t.event.sequence) = some t := by
    obtain ⟨l, r, hsplit⟩ := List.append_of_mem ht
    rw [Sequenced, hsplit, List.pairwise_append] at h
    rw [hsplit, List.find?_append, List.find?_eq_none.mpr fun u hu => by
      simpa using (h.2.2 u hu t List.mem_cons_self).ne]
    simp
  rw [QueueMarket.minuteOf, hfind, Option.bind_some, hs]
  rfl

theorem Sequenced.unique {ts : List QueueTick} (h : Sequenced ts) {t u : QueueTick} (ht : t ∈ ts)
    (hu : u ∈ ts) (heq : t.event.sequence = u.event.sequence) : t = u :=
  List.inj_on_of_nodup_map (List.pairwise_map.mpr (h.imp fun hlt => hlt.ne)) ht hu heq

/-- What a replay has taken of its minutes and matches so far, from where they
were opened. -/
structure Drawn (spec : AccountSpec) (e : QueueMarket) (x : ExecutionState) (r : QueueRun) :
    Prop where
  capped : Capped spec r.execution
  routes : r.execution.routes = x.routes
  used : ∀ k, r.execution.usedOf k = x.usedOf k + filledIn e k r.fills
  routed : ∀ f ∈ r.fills, ∃ key, e.minuteOf f.sequence = some key ∧
    x.routes.get? key = some .queue
  matched : ∀ f ∈ r.fills, ∀ t ∈ e.events, t.event.sequence = f.sequence →
    filledAt f.sequence r.fills ≤ t.event.quantity

theorem Drawn.tick {e : QueueMarket} {entrants : List QueueEntrant} {a b : QueueRun}
    {t : QueueTick} (ha : Drawn spec e x a) (hsequenced : Sequenced e.events) (ht : t ∈ e.events)
    (hopened : ∀ start, t.capacityStart = some start →
      x.routes.get? (minuteKey e.security start) = some .queue)
    (hfresh : ∀ f ∈ a.fills, f.sequence ≠ t.event.sequence)
    (h : replayTick spec aid e entrants a t = .ok b) :
    Drawn spec e x b ∧ ∀ f ∈ b.fills, f ∈ a.fills ∨ f.sequence = t.event.sequence := by
  simp only [replayTick, bind_ok] at h
  obtain ⟨r, -, h⟩ := h
  split at h
  · cases pure_ok.mp h
    exact ⟨⟨ha.capped, ha.routes, ha.used, ha.routed, ha.matched⟩, fun f hf => .inl hf⟩
  · simp only [bind_ok, need_ok, pure_ok] at h
    obtain ⟨start, hstart, c, hc, reached, -, u, hu, rfl⟩ := h
    have hminute := minuteOf_eq hsequenced ht hstart
    have htrading := walk_induction (P := MatchTaken spec (minuteKey e.security start)
      t.event.sequence ⟨a.stage, a.execution, min t.event.quantity (c.total - c.used), a.fills⟩)
      hu ⟨ha.capped, rfl, ⟨c, hc, min_le_right _ _⟩, [], by simp, by simp, by simp, .inl rfl,
        fun k => by simp⟩ fun _ _ _ _ hp hone => hp.fill hone
    obtain ⟨hcap, hroutes, -, new, hnew, hsame, havailable, hrest, hused⟩ := htrading
    have hmatch : new = [] ∨ (new.map QueueFill.quantity).sum ≤ t.event.quantity :=
      hrest.imp_right fun hnonneg => by
        have := min_le_left t.event.quantity (c.total - c.used)
        dsimp only at havailable
        omega
    constructor
    · refine ⟨hcap, hroutes.trans ha.routes, fun k => ?_, fun f hf => ?_, fun f hf v hv heq => ?_⟩
      · show u.execution.usedOf k = x.usedOf k + filledIn e k u.fills
        rw [hused, ha.used, hnew, filledIn_append, filledIn_of_eq hsame hminute, add_assoc]
      · replace hf : f ∈ u.fills := hf
        rw [hnew] at hf
        rcases List.mem_append.mp hf with hf | hf
        · exact ha.routed f hf
        · exact ⟨_, by rw [hsame f hf]; exact hminute, hopened start hstart⟩
      · replace hf : f ∈ u.fills := hf
        show filledAt f.sequence u.fills ≤ _
        rw [hnew, filledAt_append]
        rw [hnew] at hf
        rcases List.mem_append.mp hf with hf | hf
        · have hother : filledAt f.sequence new = 0 :=
            filledAt_of_ne fun g hg => by rw [hsame g hg]; exact (hfresh f hf).symm
          rw [hother, add_zero]
          exact ha.matched f hf v hv heq
        · rcases hmatch with rfl | hle
          · cases hf
          · have hv' : v = t := hsequenced.unique hv ht (heq.trans (hsame f hf))
            rw [hsame f hf, filledAt_of_ne hfresh, zero_add, filledAt_of_eq hsame, hv']
            exact hle
    · intro f hf
      replace hf : f ∈ u.fills := hf
      rw [hnew] at hf
      exact (List.mem_append.mp hf).imp_right (hsame f)

theorem validateCapture_window {e : QueueMarket} {volumes : Volumes}
    (h : validateCapture spec e = .ok volumes) {t : QueueTick} (ht : t ∈ e.events)
    {start : Instant} (hs : t.capacityStart = some start) :
    ∃ v, volumes.get? start = some v ∧ start ≤ t.at_ := by
  simp only [validateCapture, bind_ok, refuse_ok, pure_ok] at h
  obtain ⟨-, -, -, -, -, -, -, -, -, -, -, -, -, -, volumes', -, scan, hscan, -, -, -, -, -, -,
    rfl⟩ := h
  obtain ⟨c, c', hone⟩ := walk_mem hscan ht
  simp only [scanTick, bind_ok, refuse_ok] at hone
  obtain ⟨-, -, hone⟩ := hone
  split at hone
  · simp only [bind_ok, need_ok, refuse_ok, not_not, hs, Option.some.injEq] at hone
    obtain ⟨_, rfl, v, hv, -, hwithin, -⟩ := hone
    exact ⟨v, hv, hwithin.1⟩
  · simp only [bind_ok, refuse_ok, hs, Option.isSome_some, true_or, not_true, false_and,
      exists_false] at hone

theorem openMinute_draws {e : QueueMarket} {entry : ℤ × QueueVolume} (hcap : Capped spec x)
    (h : openMinute spec e x entry = .ok x') :
    Capped spec x' ∧ (∀ k, x'.usedOf k = x.usedOf k) ∧
      x'.routes = x.routes.set (minuteKey e.security entry.1) .queue ∧
      (x.routes.get? (minuteKey e.security entry.1)).getD .queue = .queue := by
  simp only [openMinute, bind_ok, refuse_ok, pure_ok, not_or, not_not] at h
  obtain ⟨⟨y, c⟩, hc, _, ⟨hroute, -⟩, rfl⟩ := h
  obtain ⟨hcap', hused⟩ := capacityFor_draws hcap hc
  obtain ⟨-, -, -, -, rfl⟩ := capacityFor_ok hc
  exact ⟨hcap', hused, rfl, hroute⟩

def RoutesKept (x y : ExecutionState) : Prop :=
  ∀ k r, x.routes.get? k = some r → y.routes.get? k = some r

theorem RoutesKept.set {route : Route} (h : x'.routes = x.routes.set key route)
    (hold : (x.routes.get? key).getD route = route) : RoutesKept x x' := by
  intro k r hr
  rw [h]
  rcases eq_or_ne k key with rfl | hne
  · rw [hr, Option.getD_some] at hold
    rw [Dict.get?_set_self, hold]
  · rwa [Dict.get?_set_of_ne hne]

theorem openWalk_draws {e : QueueMarket} {entries : List (ℤ × QueueVolume)} (hcap : Capped spec x)
    (h : walk (openMinute spec e) x entries = .ok x') :
    Capped spec x' ∧ (∀ k, x'.usedOf k = x.usedOf k) ∧ RoutesKept x x' ∧
      ∀ v ∈ entries, x'.routes.get? (minuteKey e.security v.1) = some .queue := by
  induction entries generalizing x with
  | nil =>
      cases h
      exact ⟨hcap, fun _ => rfl, fun _ _ hr => hr, by simp⟩
  | cons v entries ih =>
      obtain ⟨y, hone, hrest⟩ := walk_cons_ok.mp h
      obtain ⟨hy, hused, hroutes, hfree⟩ := openMinute_draws hcap hone
      obtain ⟨hx', hsame, hkept, hopened⟩ := ih hy hrest
      refine ⟨hx', fun k => (hsame k).trans (hused k),
        fun k r hr => hkept k r (RoutesKept.set hroutes hfree k r hr), fun u hu => ?_⟩
      rcases List.mem_cons.mp hu with rfl | hu
      · exact hkept _ _ (by rw [hroutes, Dict.get?_set_self])
      · exact hopened u hu

theorem Drawn.walk {e : QueueMarket} {entrants : List QueueEntrant} {ts : List QueueTick}
    {a b : QueueRun} (ha : Drawn spec e x a) (hsequenced : Sequenced e.events)
    (hts : ts.Sublist e.events)
    (hopened : ∀ t ∈ ts, ∀ start, t.capacityStart = some start →
      x.routes.get? (minuteKey e.security start) = some .queue)
    (hfresh : ∀ f ∈ a.fills, ∀ t ∈ ts, f.sequence ≠ t.event.sequence)
    (h : walk (replayTick spec aid e entrants) a ts = .ok b) :
    Drawn spec e x b ∧ ∀ f ∈ b.fills, f ∈ a.fills ∨ ∃ t ∈ ts, f.sequence = t.event.sequence := by
  induction ts generalizing a with
  | nil =>
      cases h
      exact ⟨ha, fun f hf => .inl hf⟩
  | cons t ts ih =>
      obtain ⟨c, hone, hrest⟩ := walk_cons_ok.mp h
      have hlater := List.pairwise_cons.mp (hsequenced.sublist hts)
      obtain ⟨hc, hnew⟩ := ha.tick hsequenced (hts.subset List.mem_cons_self)
        (hopened t List.mem_cons_self) (fun f hf => hfresh f hf t List.mem_cons_self) hone
      obtain ⟨hb, hfills⟩ := ih hc (List.sublist_of_cons_sublist hts)
        (fun u hu => hopened u (List.mem_cons_of_mem _ hu)) (fun f hf u hu => by
          rcases hnew f hf with hf | heq
          · exact hfresh f hf u (List.mem_cons_of_mem _ hu)
          · rw [heq]
            exact (hlater.1 u hu).ne) hrest
      refine ⟨hb, fun f hf => ?_⟩
      rcases hfills f hf with hf | ⟨u, hu, heq⟩
      · exact (hnew f hf).imp_right fun heq => ⟨t, List.mem_cons_self, heq⟩
      · exact .inr ⟨u, List.mem_cons_of_mem _ hu, heq⟩

/-! ## Runs -/

structure SharedCapacity (spec : AccountSpec) (w : World) : Prop where
  capped : Capped spec w.execution
  used : ∀ k, w.execution.usedOf k = w.execution.filled k
  minutes : ∀ k r, w.execution.minutes.get? k = some r →
    w.execution.routes.get? k = some .minute
  routed : ∀ id r, w.execution.queueResults.get? id = some r → ∀ f ∈ r.fills,
    ∃ key, r.market.minuteOf f.sequence = some key ∧ w.execution.routes.get? key = some .queue
  matched : ∀ id r, w.execution.queueResults.get? id = some r → ∀ f ∈ r.fills,
    ∀ t ∈ r.market.events, t.event.sequence = f.sequence →
      filledAt f.sequence r.fills ≤ t.event.quantity
  behind : ∀ id r, w.execution.queueResults.get? id = some r →
    ∃ q, w.execution.queues.get? r.market.streamKey = some q ∧
      ∀ f ∈ r.fills, f.sequence ≤ q.lastSequence
  once : ∀ id r, w.execution.queueResults.get? id = some r →
    ∀ id' r', w.execution.queueResults.get? id' = some r' → id ≠ id' →
      r.market.streamKey = r'.market.streamKey →
      ∀ f ∈ r.fills, ∀ g ∈ r'.fills, f.sequence ≠ g.sequence
  named : ∀ id r, w.execution.queueResults.get? id = some r → ¬ w.Unused id

theorem SharedCapacity.minute {e : MinuteEvidence} {s : AccountState}
    {orders : List MinuteOrder} {capacity : Capacity} {run : MinuteRun} (hw : SharedCapacity spec w)
    (h : MinuteExecuted spec aid e w w' s orders x capacity run)
    (hnamed : ∀ id, ¬ w.Unused id → ¬ w'.Unused id) : SharedCapacity spec w' := by
  obtain ⟨hcap, hroutes, hused⟩ := h.draws hw.capped
  have hqueues := h.queues
  have hresults : w'.execution.queueResults = w.execution.queueResults := by
    rw [h.execution]
    exact h.streams.queueResults
  have hminutes : w'.execution.minutes = w.execution.minutes.set
      (minuteKey e.security e.bar.intervalStart) ⟨e, aid, run.results, false⟩ := by
    rw [h.execution, ← h.streams.minutes]
  have hroute := h.route
  rw [(capacityFor_ok h.opened).2.2.2.2] at hroute
  have hkept : RoutesKept w.execution w'.execution := .set hroutes hroute
  refine ⟨hcap, fun k => ?_, fun k r hr => ?_, fun id r hr f hf => ?_, ?_, ?_, ?_, ?_⟩
  · rw [hused, hw.used, ExecutionState.filled, ExecutionState.filled, hresults, hminutes]
    rcases eq_or_ne k (minuteKey e.security e.bar.intervalStart) with rfl | hne
    · rw [if_pos rfl, Dict.get?_set_self, h.fresh]
      simp only [Option.elim_none, Option.elim_some, MinuteRecord.filled]
      omega
    · rw [if_neg hne, Dict.get?_set_of_ne hne, add_zero]
  · rw [hminutes] at hr
    rcases eq_or_ne k (minuteKey e.security e.bar.intervalStart) with rfl | hne
    · rw [hroutes, Dict.get?_set_self]
    · rw [Dict.get?_set_of_ne hne] at hr
      exact hkept k _ (hw.minutes k r hr)
  · rw [hresults] at hr
    obtain ⟨key, hkey, hqueue⟩ := hw.routed id r hr f hf
    exact ⟨key, hkey, hkept key _ hqueue⟩
  · rw [hresults]
    exact hw.matched
  · rw [hresults, hqueues]
    exact hw.behind
  · rw [hresults]
    exact hw.once
  · rw [hresults]
    exact fun id r hr => hnamed id (hw.named id r hr)

theorem replayStart_last {e : QueueMarket} {old : Option QueueState} {at_ : Instant} {sequence : ℤ}
    {start : ReplayStart} (h : replayStart e old at_ sequence = .ok start)
    (hfirst : e.capture.startSequence - 1 ≤ sequence) {q : QueueState} (hq : old = some q) :
    start.last = q.lastSequence ∧ q.lastSequence ≤ sequence := by
  subst hq
  unfold replayStart at h
  dsimp only at h
  split at h
  · simp only [bind_ok, refuse_ok, pure_ok, not_or, not_lt] at h
    obtain ⟨-, ⟨hlast, -⟩, -, -, rfl⟩ := h
    exact ⟨rfl, hlast⟩
  · simp only [bind_ok, refuse_ok, pure_ok, not_or, not_not] at h
    obtain ⟨-, ⟨-, hlast, -⟩, rfl⟩ := h
    exact ⟨hlast.symm, hlast.trans_le hfirst⟩

section Replay

variable {e : QueueEvidence} {at_ : Instant} {sequence : ℤ} {s : AccountState} {volumes : Volumes}
  {start : ReplayStart} {x1 x2 : ExecutionState} {entrants : List QueueEntrant} {run : QueueRun}
  {results : List QueueOutcome}

theorem QueueReplayed.drawn
    (h : QueueReplayed spec aid e at_ sequence w w' s volumes start x1 entrants x2 run results)
    (hcap : Capped spec w.execution) :
    Drawn spec e.toQueueMarket x2 run ∧ (∀ k, x2.usedOf k = w.execution.usedOf k) ∧
      RoutesKept w.execution x2 ∧
        ∀ f ∈ run.fills, start.last < f.sequence ∧ f.sequence ≤ sequence := by
  obtain ⟨hsequenced, -⟩ := validateCapture_ok h.valid
  have hsame : SameMarket w.execution x1 :=
    walk_induction (P := fun y : ExecutionState × List QueueEntrant =>
      SameMarket w.execution y.1) h.pinned (.refl _)
      fun _ _ _ _ hc hone => hc.trans (pinPosition_market hone)
  have hcap1 : Capped spec x1 := by rwa [Capped, hsame.liquidity]
  obtain ⟨hcap2, hused, hkept, hopened⟩ := openWalk_draws hcap1 h.opened
  have hprefix := h.proven
  simp only [prefixProven, bind_ok, refuse_ok, not_exists, not_and, not_or, not_lt] at hprefix
  obtain ⟨-, -, -, htimes, -⟩ := hprefix
  obtain ⟨hdrawn, hfills⟩ := Drawn.walk (a := ⟨⟨s, []⟩, x2, start.book, start.seen, [], []⟩)
    ⟨hcap2, rfl, fun k => (add_zero _).symm, by simp, by simp⟩ hsequenced List.filter_sublist
    (fun t ht first hfirst => by
      obtain ⟨hmem, hpending⟩ := List.mem_filter.mp ht
      rw [Bool.and_eq_true, decide_eq_true_eq, decide_eq_true_eq] at hpending
      obtain ⟨v, hv, hle⟩ := validateCapture_window h.valid hmem hfirst
      refine hopened (first, v) (List.mem_filter.mpr ⟨Dict.mem_entries.mpr hv, ?_⟩)
      exact decide_eq_true (hle.trans ((htimes t hmem).1 hpending.2))) (by simp) h.replayed
  refine ⟨hdrawn, fun k => ?_, fun k r hr => hkept k r (by rwa [hsame.routes]), fun f hf => ?_⟩
  · rw [hused, ExecutionState.usedOf, hsame.liquidity, ExecutionState.usedOf]
  · rcases hfills f hf with hf | ⟨t, ht, heq⟩
    · cases hf
    · have hpending := (List.mem_filter.mp ht).2
      rw [Bool.and_eq_true, decide_eq_true_eq, decide_eq_true_eq] at hpending
      rw [heq]
      exact hpending

theorem SharedCapacity.queue (hw : SharedCapacity spec w)
    (h : QueueReplayed spec aid e at_ sequence w w' s volumes start x1 entrants x2 run results)
    (hnamed : ∀ id, ¬ w.Unused id → ¬ w'.Unused id) (hnew : ¬ w'.Unused aid) :
    SharedCapacity spec w' := by
  obtain ⟨hdrawn, hused, hkept, hrange⟩ := h.drawn hw.capped
  have hstreams := h.streams
  have hfree : w.execution.queueResults.get? aid = none := by
    cases hold : w.execution.queueResults.get? aid with
    | none => rfl
    | some r => exact absurd h.unused (hw.named aid r hold)
  have hroutes : w'.execution.routes = x2.routes := by
    rw [h.execution]
    exact hdrawn.routes
  have hminutes : w'.execution.minutes = w.execution.minutes := by
    rw [h.execution]
    exact hstreams.minutes
  have hqueues : w'.execution.queues = w.execution.queues.set e.streamKey
      (replayedTo e run sequence at_) := by
    rw [h.execution, ← hstreams.queues]
  have hresults : w'.execution.queueResults = w.execution.queueResults.set aid
      ⟨run.fills, results, run.audit, e.toQueueMarket, false⟩ := by
    rw [h.execution, ← hstreams.queueResults]
  -- What held of each replay so far, and holds of this one, holds of all.
  have heach : ∀ P : String → QueueResult → Prop,
      P aid ⟨run.fills, results, run.audit, e.toQueueMarket, false⟩ →
      (∀ id r, id ≠ aid → w.execution.queueResults.get? id = some r → P id r) →
      ∀ id r, w'.execution.queueResults.get? id = some r → P id r := by
    intro P hthis hold id r hr
    rw [hresults] at hr
    rcases eq_or_ne id aid with rfl | hne
    · rw [Dict.get?_set_self, Option.some_inj] at hr
      exact hr ▸ hthis
    · rw [Dict.get?_set_of_ne hne] at hr
      exact hold id r hne hr
  have hahead : ∀ id r, w.execution.queueResults.get? id = some r →
      r.market.streamKey = e.streamKey → ∀ f ∈ r.fills, f.sequence ≤ start.last ∧
        start.last ≤ sequence := by
    intro id r hr hkey f hf
    obtain ⟨q, hq, hlast⟩ := hw.behind id r hr
    rw [hkey] at hq
    obtain ⟨heq, hle⟩ := replayStart_last h.started (prefixProven_ok h.proven) hq
    exact ⟨heq ▸ hlast f hf, heq ▸ hle⟩
  constructor
  · rw [h.execution]
    exact hdrawn.capped
  · intro k
    have hall : w'.execution.usedOf k
        = w.execution.usedOf k + filledIn e.toQueueMarket k run.fills := by
      rw [h.execution, ← hused]
      exact hdrawn.used k
    rw [hall, hw.used, ExecutionState.filled, ExecutionState.filled, hminutes, hresults,
      Dict.sum_set_new hfree, add_assoc]
  · rw [hminutes, hroutes]
    exact fun k r hr => hkept k _ (hw.minutes k r hr)
  · rw [hroutes]
    exact heach _ hdrawn.routed fun id r _ hr f hf => (hw.routed id r hr f hf).imp
      fun key => And.imp_right (hkept key _)
  · exact heach _ hdrawn.matched fun id r _ hr => hw.matched id r hr
  · rw [hqueues]
    refine heach _ ⟨_, Dict.get?_set_self _ _ _, fun f hf => (hrange f hf).2⟩ fun id r _ hr => ?_
    rcases eq_or_ne r.market.streamKey e.streamKey with heq | hne
    · rw [heq, Dict.get?_set_self]
      exact ⟨_, rfl, fun f hf => (hahead id r hr heq f hf).1.trans (hahead id r hr heq f hf).2⟩
    · rw [Dict.get?_set_of_ne hne]
      exact hw.behind id r hr
  · have hthis : ∀ id r, id ≠ aid → w.execution.queueResults.get? id = some r →
        r.market.streamKey = e.streamKey → ∀ f ∈ r.fills, ∀ g ∈ run.fills,
          f.sequence ≠ g.sequence := fun id r _ hr hkey f hf g hg =>
      ((hahead id r hr hkey f hf).1.trans_lt (hrange g hg).1).ne
    refine heach _ (heach _ (fun hne => absurd rfl hne) fun id r hne hr _ hkey f hf g hg =>
      (hthis id r hne hr hkey.symm g hg f hf).symm) fun id r hne hr => heach _
        (fun _ => hthis id r hne hr) fun id' r' _ hr' => hw.once id r hr id' r' hr'
  · exact heach _ hnew fun id r _ hr => hnamed id (hw.named id r hr)

end Replay

theorem SharedCapacity.same (hw : SharedCapacity spec w)
    (h : SameMarket w.execution w'.execution) (hnamed : ∀ id, ¬ w.Unused id → ¬ w'.Unused id) :
    SharedCapacity spec w' where
  capped := by simpa only [Capped, h.liquidity] using hw.capped
  used := by
    simpa only [ExecutionState.usedOf, ExecutionState.filled, h.liquidity, h.minutes,
      h.queueResults] using hw.used
  minutes := by simpa only [h.minutes, h.routes] using hw.minutes
  routed := by simpa only [h.queueResults, h.routes] using hw.routed
  matched := by simpa only [h.queueResults] using hw.matched
  behind := by simpa only [h.queueResults, h.queues] using hw.behind
  once := by simpa only [h.queueResults] using hw.once
  named := by
    rw [h.queueResults]
    exact fun id r hr => hnamed id (hw.named id r hr)

theorem step_sharedCapacity {c : Command} (h : step spec w c = .ok w')
    (hw : SharedCapacity spec w) : SharedCapacity spec w' := by
  have hnamed : ∀ id, ¬ w.Unused id → ¬ w'.Unused id := fun id hused hfree =>
    hused fun e he => hfree e ((step_events h).subset he)
  cases step_market h with
  | same hsame => exact hw.same hsame hnamed
  | minute hminute => exact hw.minute hminute hnamed
  | queue hqueue =>
      refine hw.queue hqueue hnamed fun hfree => ?_
      obtain ⟨r, -, ⟨rfl, hknown⟩ | hrecorded⟩ := step_answer h
      · cases hknown with
        | logged hlogged => exact hlogged.used hfree
        | planned hc => cases hc
      · exact hrecorded.logged.used hfree

theorem SharedCapacity.start : SharedCapacity spec World.start where
  capped _ _ h := by cases h
  used key := by
    simp only [ExecutionState.usedOf, ExecutionState.filled, World.start, emptyExecution,
      Dict.get?_empty, Option.elim_none, Dict.sum_empty, add_zero]
  minutes _ _ h := by cases h
  routed _ _ h := by cases h
  matched _ _ h := by cases h
  behind _ _ h := by cases h
  once _ _ h := by cases h
  named _ _ h := by cases h

theorem reachable_sharedCapacity (h : Reachable spec w) : SharedCapacity spec w :=
  h.invariant .start fun _ _ _ _ hw hstep _ => step_sharedCapacity hstep hw

/-! ## What a minute and a match give -/

/-- A historical match gives the replays of its stream, all together, at most
its own quantity. -/
theorem match_filled_once (h : Reachable spec w) {id : String} {r : QueueResult}
    (hr : w.execution.queueResults.get? id = some r) {f : QueueFill} (hf : f ∈ r.fills) :
    ∃ t ∈ r.market.events, t.event.sequence = f.sequence ∧
      (w.execution.queueResults.sum fun _ s =>
        if s.market.streamKey = r.market.streamKey then filledAt f.sequence s.fills else 0)
        ≤ t.event.quantity := by
  have hw := reachable_sharedCapacity h
  obtain ⟨key, hkey, -⟩ := hw.routed id r hr f hf
  obtain ⟨t, ht, -⟩ := Option.bind_eq_some_iff.mp hkey
  have hsequence : t.event.sequence = f.sequence := by simpa using List.find?_some ht
  have hmem := List.mem_of_find?_eq_some ht
  refine ⟨t, hmem, hsequence, ?_⟩
  have hone : (w.execution.queueResults.sum fun _ s =>
      if s.market.streamKey = r.market.streamKey then filledAt f.sequence s.fills else 0)
        = filledAt f.sequence r.fills := by
    rw [← Dict.sum_single (fun _ s => filledAt f.sequence s.fills) hr]
    refine Dict.sum_congr fun id' s hs => ?_
    by_cases hid : id = id'
    · subst hid
      rw [Option.some.inj (hs.symm.trans hr), if_pos rfl, if_pos rfl]
    · rw [if_neg hid]
      split
      · next hstream =>
          exact filledAt_of_ne fun g hg heq =>
            hw.once id r hr id' s hs hid hstream.symm f hf g hg heq.symm
      · rfl
  rw [hone]
  exact hw.matched id r hr f hf t hmem hsequence

def bidReplay : List Command :=
  twoBids ++ [.queueAdvance "auction" bidCapture none none]

theorem match_filled_once_sample : ∃ w r f, Reachable sampleSpec w ∧
    w.execution.queueResults.get? "auction" = some r ∧ f ∈ r.fills ∧
    ∃ t ∈ r.market.events, t.event.sequence = f.sequence ∧
      (w.execution.queueResults.sum fun _ s =>
        if s.market.streamKey = r.market.streamKey then filledAt f.sequence s.fills else 0)
        ≤ t.event.quantity := by
  obtain ⟨w, hw, htest⟩ := ReachableIf.of_check sampleSpec (fun _ _ _ => True) bidReplay
    (fun w => (w.execution.queueResults.get? "auction").any fun r => r.fills ≠ [])
    (by decide +kernel)
  obtain ⟨r, hr, hfills⟩ := (Option.any_eq_true _ _).mp htest
  obtain ⟨f, hf⟩ := List.exists_mem_of_ne_nil _ (of_decide_eq_true hfills)
  exact ⟨w, r, f, hw, hr, hf, match_filled_once hw hr hf⟩

end Ahunter.Sim
