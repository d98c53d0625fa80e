import Ahunter.Sim.System

/-!
# The time of an ingress

An instruction reaches the exchange at the earliest instant that its latency
and the acceptance intervals leave. The scan over the intervals stops at the
first one that is still open when the instruction arrives; because the
intervals stand in order, what the later ones would have given is no earlier.
From that the rest follows: receiving an instruction later, or being slower,
can only move the ingress on or lose it.
-/

namespace Ahunter.Sim

open Ahunter.Lib

variable {z : Zone} {day : Date} {received later : Instant} {ms ms' : ℕ}

def arrival (z : Zone) (day : Date) (received : Instant) (ms : ℕ) (i : Interval) : Instant :=
  plusMillis (max received (z.combine day i.start)) ms

def Arrives (z : Zone) (day : Date) (received : Instant) (ms : ℕ) (intervals : List Interval) :
    Set Instant :=
  { t | ∃ i ∈ intervals, t = arrival z day received ms i ∧ t < z.combine day i.stop }

/-! ## The scan -/

variable {is : List Interval}

theorem arrival_mono {i : Interval} (h : received ≤ later) (hms : ms ≤ ms') :
    arrival z day received ms i ≤ arrival z day later ms' i := by
  have hmax : max received (z.combine day i.start) ≤ max later (z.combine day i.start) :=
    max_le_max_right _ h
  have hdelay : (1000 * ms : ℤ) ≤ 1000 * ms' := by omega
  rw [arrival, arrival, plusMillis, plusMillis]
  exact add_le_add hmax hdelay

theorem le_arrival (i : Interval) : plusMillis received ms ≤ arrival z day received ms i := by
  have hmax : received ≤ max received (z.combine day i.start) := le_max_left _ _
  rw [arrival, plusMillis, plusMillis]
  exact add_le_add hmax le_rfl

theorem start_le_arrival (i : Interval) : z.combine day i.start ≤ arrival z day received ms i :=
  (le_max_right _ _).trans (le_plusMillis _ _)

theorem ingressAt_cons {i : Interval} :
    ingressAt z day received ms (i :: is) =
      if arrival z day received ms i < z.combine day i.stop then some (arrival z day received ms i)
      else ingressAt z day received ms is := by
  simp only [ingressAt, List.findSome?_cons]
  by_cases hopen : arrival z day received ms i < z.combine day i.stop
  · rw [if_pos hopen]
    rw [arrival] at hopen
    rw [if_pos hopen, arrival]
  · rw [if_neg hopen]
    rw [arrival] at hopen
    rw [if_neg hopen]

theorem ingressAt_none :
    ingressAt z day received ms is = none ↔ Arrives z day received ms is = ∅ := by
  induction is with
  | nil => simp [ingressAt, Arrives]
  | cons i is ih =>
      rw [ingressAt_cons, Set.eq_empty_iff_forall_notMem]
      split
      · next hopen => exact iff_of_false nofun fun h => h _ ⟨i, List.mem_cons_self, rfl, hopen⟩
      · next hclosed =>
          rw [ih, Set.eq_empty_iff_forall_notMem]
          refine forall_congr' fun t => not_congr ?_
          constructor
          · rintro ⟨j, hj, ht⟩
            exact ⟨j, List.mem_cons_of_mem _ hj, ht⟩
          · rintro ⟨j, hj, rfl, hopen⟩
            rcases List.mem_cons.mp hj with rfl | hj
            · exact absurd hopen hclosed
            · exact ⟨j, hj, rfl, hopen⟩

def InOrder (is : List Interval) : Prop :=
  (∀ i ∈ is, i.start < i.stop) ∧ is.Pairwise fun i j => i.stop ≤ j.start

theorem inOrder_of_adjacent (hne : ∀ i ∈ is, i.start < i.stop)
    (h : ¬ ∃ p ∈ is.zip is.tail, p.1.stop > p.2.start) : InOrder is := by
  refine ⟨hne, ?_⟩
  induction is with
  | nil => exact .nil
  | cons i is ih =>
      have hrest : is.Pairwise fun i j => i.stop ≤ j.start := by
        refine ih (fun j hj => hne j (List.mem_cons_of_mem _ hj)) fun ⟨p, hp, hlate⟩ => ?_
        cases is with
        | nil => cases hp
        | cons j js => exact h ⟨p, List.mem_cons_of_mem _ hp, hlate⟩
      refine .cons (fun j hj => ?_) hrest
      cases is with
      | nil => cases hj
      | cons k ks =>
          have hnext : i.stop ≤ k.start :=
            not_lt.mp fun hlate => h ⟨(i, k), List.mem_cons_self, hlate⟩
          rcases List.mem_cons.mp hj with rfl | hj
          · exact hnext
          · have hk := hne k (List.mem_cons_of_mem _ List.mem_cons_self)
            exact hnext.trans (hk.le.trans (List.rel_of_pairwise_cons hrest hj))

theorem arrival_later {i j : Interval} (hi : i.start < i.stop) (h : i.stop ≤ j.start) :
    arrival z day received ms i ≤ arrival z day received ms j := by
  have hstart : z.combine day i.start ≤ z.combine day j.start := by
    have hclock : i.start ≤ j.start := hi.le.trans h
    rw [Zone.combine, Zone.combine]
    linarith
  rw [arrival, arrival, plusMillis, plusMillis]
  exact add_le_add (max_le_max_left received hstart) le_rfl

theorem ingressAt_least {t : Instant} (h : InOrder is)
    (hfound : ingressAt z day received ms is = some t) :
    IsLeast (Arrives z day received ms is) t := by
  induction is with
  | nil => cases hfound
  | cons i is ih =>
      obtain ⟨hne, horder⟩ := h
      obtain ⟨hfirst, hrest⟩ := List.pairwise_cons.mp horder
      rw [ingressAt_cons] at hfound
      split at hfound
      · next hopen =>
          cases hfound
          refine ⟨⟨i, List.mem_cons_self, rfl, hopen⟩, ?_⟩
          rintro t ⟨j, hj, rfl, -⟩
          rcases List.mem_cons.mp hj with rfl | hj
          · exact le_rfl
          · exact arrival_later (hne i List.mem_cons_self) (hfirst j hj)
      · next hclosed =>
          obtain ⟨⟨j, hj, hin⟩, hleast⟩ :=
            ih ⟨fun j hj => hne j (List.mem_cons_of_mem _ hj), hrest⟩ hfound
          refine ⟨⟨j, List.mem_cons_of_mem _ hj, hin⟩, ?_⟩
          rintro u ⟨k, hk, rfl, hopen⟩
          rcases List.mem_cons.mp hk with rfl | hk
          · exact absurd hopen hclosed
          · exact hleast ⟨k, hk, rfl, hopen⟩

theorem arrives_earlier {t : Instant} (h : received ≤ later) (hms : ms ≤ ms')
    (ht : t ∈ Arrives z day later ms' is) : ∃ u ∈ Arrives z day received ms is, u ≤ t := by
  obtain ⟨i, hi, rfl, hopen⟩ := ht
  have hle : arrival z day received ms i ≤ arrival z day later ms' i := arrival_mono h hms
  exact ⟨_, ⟨i, hi, rfl, hle.trans_lt hopen⟩, hle⟩

/-! ## Submission timing -/

variable {spec : AccountSpec} {phase : PhaseDefinition} {rule : MarketRule} {receiptMs : ℕ}
  {operation : FlowOperation}

/-- What an answer with times has been checked for. -/
structure Ingress (spec : AccountSpec) (phase : PhaseDefinition) (rule : MarketRule) (ms : ℕ)
    (received : Instant) (day : Date) : Prop where
  received : phase.planReceivedAt = some received
  day : phase.tradingDate = some day
  ordered : ¬ ∃ p ∈ rule.acceptOrders.zip rule.acceptOrders.tail, p.1.stop > p.2.start

theorem submissionTiming_timed {t : Timing}
    (h : submissionTiming spec phase rule ms receiptMs operation = .timed t) :
    ∃ received day, Ingress spec phase rule ms received day ∧
      ingressAt spec.zone day received ms rule.acceptOrders = some t.exchangeReceivedAt := by
  unfold submissionTiming at h
  split at h
  · next received day hreceived hday =>
      dsimp only at h
      split at h
      · cases h
      split at h
      · cases h
      split at h
      · cases h
      split at h
      · cases h
      · next hordered =>
          split at h
          · cases h
          · next accepted hfound =>
              cases h
              exact ⟨received, day, ⟨hreceived, hday, hordered⟩, hfound⟩
  · cases h

theorem submissionTiming_noWindow
    (h : submissionTiming spec phase rule ms receiptMs operation
      = .blocked "no_market_acceptance_window") :
    ∃ received day, Ingress spec phase rule ms received day ∧
      ingressAt spec.zone day received ms rule.acceptOrders = none := by
  unfold submissionTiming at h
  split at h
  · next received day hreceived hday =>
      dsimp only at h
      split at h
      · exact absurd (TimingAnswer.blocked.inj h) (by decide)
      split at h
      · exact absurd (TimingAnswer.blocked.inj h) (by decide)
      split at h
      · exact absurd (TimingAnswer.blocked.inj h) (by decide)
      split at h
      · exact absurd (TimingAnswer.blocked.inj h) (by decide)
      · next hordered =>
          split at h
          · next hnone => exact ⟨received, day, ⟨hreceived, hday, hordered⟩, hnone⟩
          · cases h
  · cases h

def samplePhase : PhaseDefinition :=
  ⟨"morning", .auction, some 0, ⟨sampleAt 0 490, sampleAt 0 490⟩, some (sampleAt 0 500)⟩

end Ahunter.Sim
