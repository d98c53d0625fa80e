import Ahunter.Proofs.Clock
import Ahunter.Proofs.Journal
import Ahunter.Sim.Observe

/-!
# What the past shows

Along the log neither time of the events goes back, so the events that a
boundary can observe are a prefix of it, and an observation is answered from
the end of that prefix. Nothing is committed into a sealed interval, so what a
valuation reads at a sealed cutoff is what every later valuation reads there.
-/

namespace Ahunter.Sim

open Ahunter.Lib

variable {spec : AccountSpec} {w w' : World}

/-! ## Observations -/

theorem AccountEvent.observable_iff {b : Boundary} {e : AccountEvent} :
    e.observable b = true ↔ e.simulatedAt ≤ b.eventCutoff ∧ e.visibleAt ≤ b.snapshotAt := by
  rw [AccountEvent.observable, Bool.and_eq_true, decide_eq_true_eq, decide_eq_true_eq]

theorem LogOrdered.settles (h : LogOrdered w) (b : Boundary) :
    Settles (AccountEvent.observable b) w.events := by
  refine h.ordered.imp fun hfollows hobservable => ?_
  obtain ⟨hcutoff, hsnapshot⟩ := AccountEvent.observable_iff.mp hobservable
  exact AccountEvent.observable_iff.mpr
    ⟨hfollows.simulated.trans hcutoff, hfollows.visible.trans hsnapshot⟩

def World.shown (w : World) (b : Boundary) : List AccountEvent :=
  w.events.takeWhile (AccountEvent.observable b)

def answerOf (spec : AccountSpec) (b : Boundary) (shown : List AccountEvent) :
    Attempt Balances := do
  refuse (b.snapshotAt < b.eventCutoff)
    (invalidValue "account snapshot precedes its event cutoff")
  let e ← need shown.getLast? (accountUnavailable
    "account has no confirmed snapshot at the boundary")
  pure (balancesOf spec.zone e.state b.snapshotAt)

theorem LogOrdered.balances_eq (h : LogOrdered w) (b : Boundary) :
    w.balances spec b.eventCutoff true (some b.snapshotAt) = answerOf spec b (w.shown b) := by
  have hlast : lastThat (AccountEvent.observable b) w.events = (w.shown b).getLast? :=
    (h.settles b).lastThat_eq
  simp only [World.balances, World.readState, Option.getD_some, if_true, answerOf,
    hlast, bind_assoc, pure_bind]

structure ObservesPast (spec : AccountSpec) (w : World) (b : Boundary) : Prop where
  /-- What had happened by the cutoff and was visible by the snapshot is a
  prefix of the log. -/
  past : w.events.filter (AccountEvent.observable b) = w.shown b ∧
    w.shown b <+: w.events
  /-- The balances are those of the state its last event left. -/
  balances : w.balances spec b.eventCutoff true (some b.snapshotAt)
    = answerOf spec b (w.shown b)
  observe : w.observe spec b true = answerOf spec b (w.shown b)
  /-- Runs that agree on the prefix agree on the observation. -/
  agree : ∀ w' : World, Reachable spec w' → w'.shown b = w.shown b →
    (∀ sameZone, w'.observe spec b sameZone = w.observe spec b sameZone) ∧
      w'.balances spec b.eventCutoff true (some b.snapshotAt)
        = w.balances spec b.eventCutoff true (some b.snapshotAt)
  /-- A later boundary shows no less of the log. -/
  widen : ∀ b' : Boundary, b.eventCutoff ≤ b'.eventCutoff →
    b.snapshotAt ≤ b'.snapshotAt → w.shown b <+: w.shown b'

theorem observation_never_looks_ahead (h : Reachable spec w) (b : Boundary) :
    ObservesPast spec w b := by
  have hw := reachable_logOrdered h
  refine ⟨⟨(hw.settles b).filter_eq, List.takeWhile_prefix _⟩, hw.balances_eq b, ?_,
    fun w' hw' hshown => ?_, fun b' hcutoff hsnapshot => ?_⟩
  · simp only [World.observe, hw.balances_eq b]
    rfl
  · have hsame : w'.balances spec b.eventCutoff true (some b.snapshotAt)
        = w.balances spec b.eventCutoff true (some b.snapshotAt) := by
      rw [(reachable_logOrdered hw').balances_eq b, hw.balances_eq b, hshown]
    exact ⟨fun sameZone => by simp only [World.observe, hsame], hsame⟩
  · refine takeWhile_prefix_of_le (fun e he => ?_) w.events
    obtain ⟨h1, h2⟩ := AccountEvent.observable_iff.mp he
    exact AccountEvent.observable_iff.mpr ⟨h1.trans hcutoff, h2.trans hsnapshot⟩

/-- A purchase and its fills, and a boundary between the two fills. -/
theorem observation_never_looks_ahead_sample : ∃ w : World,
    (w.shown ⟨sampleAt 0 601, sampleAt 0 601⟩).length = 3 ∧ w.events.length = 6 ∧
    ObservesPast sampleSpec w ⟨sampleAt 0 601, sampleAt 0 601⟩ := by
  obtain ⟨w, hw, htest⟩ := ReachableIf.of_check sampleSpec (fun _ _ _ => True)
    sampleTrades (fun w => (w.shown ⟨sampleAt 0 601, sampleAt 0 601⟩).length = 3 ∧
      w.events.length = 6) (by decide +kernel)
  obtain ⟨hshown, hlength⟩ := of_decide_eq_true htest
  exact ⟨w, hshown, hlength, observation_never_looks_ahead hw _⟩

/-! ## Sealed intervals -/

theorem later_events (h : Relation.ReflTransGen (StepIf spec fun _ _ _ => True) w w') :
    w.events <+: w'.events := by
  induction h with
  | refl => exact List.prefix_rfl
  | tail _ hstep ih =>
      obtain ⟨c, hc, -⟩ := hstep
      exact ih.trans (step_events hc)

theorem LogOrdered.after_seal (h : LogOrdered w) {pre post : List AccountEvent}
    {e f : AccountEvent} (hevents : w.events = pre ++ e :: post)
    (hseals : e.seals = true) (hf : f ∈ post) : e.simulatedAt < f.simulatedAt := by
  have hordered := h.ordered
  rw [hevents, List.pairwise_append] at hordered
  have hfollows := (List.pairwise_cons.mp hordered.2.1).1 f hf
  refine hfollows.unsealed _ ((h.timed e ?_).seals hseals)
  rw [hevents]
  exact List.mem_append_right _ (List.mem_cons_self ..)

/-- From a seal on, nothing happens in the sealed interval and nothing changes
what is valued there. -/
theorem sealed_intervals_stay_sealed (h : Reachable spec w)
    (hrun : Relation.ReflTransGen (StepIf spec fun _ _ _ => True) w w')
    {pre post : List AccountEvent} {e : AccountEvent}
    (hevents : w.events = pre ++ e :: post) (hseals : e.seals = true) :
    (∃ later, w'.events = pre ++ e :: (post ++ later) ∧
      ∀ f ∈ post ++ later, e.simulatedAt < f.simulatedAt) ∧
    ∀ cutoff ≤ e.simulatedAt, w'.financialState cutoff = w.financialState cutoff := by
  have hw' := reachable_logOrdered (Relation.ReflTransGen.trans h hrun)
  obtain ⟨later, hlater⟩ := later_events hrun
  have hevents' : w'.events = pre ++ e :: (post ++ later) := by
    rw [← hlater, hevents, List.append_assoc, List.cons_append]
  have hafter : ∀ f ∈ post ++ later, e.simulatedAt < f.simulatedAt :=
    fun f hf => hw'.after_seal hevents' hseals hf
  refine ⟨⟨later, hevents', hafter⟩, fun cutoff hcutoff => ?_⟩
  rw [World.financialState, World.financialState, ← hlater,
    lastThat_append fun f hf => ?_]
  have hlate := hafter f (List.mem_append_right _ hf)
  exact decide_eq_false (not_le.mpr (hcutoff.trans_lt hlate))

/-- An account sealed at its opening, and a run that goes on from there. -/
theorem sealed_intervals_stay_sealed_sample : ∃ (w w' : World) (e : AccountEvent),
    w.events = [] ++ e :: [] ∧ e.seals = true ∧ w'.events.length = 6 ∧
    (∃ later, w'.events = [] ++ e :: ([] ++ later) ∧
      ∀ f ∈ [] ++ later, e.simulatedAt < f.simulatedAt) ∧
    ∀ cutoff ≤ e.simulatedAt, w'.financialState cutoff = w.financialState cutoff := by
  have hruns : ((runs sampleSpec (fun _ _ _ => True) World.start (sampleTrades.take 1)).any
      fun w => w.events.length = 1 ∧ w.events.all AccountEvent.seals ∧
        (runs sampleSpec (fun _ _ _ => True) w (sampleTrades.drop 1)).any
          fun w' => w'.events.length = 6) = true := by decide +kernel
  obtain ⟨w, hw, htest⟩ := (Option.any_eq_true _ _).mp hruns
  obtain ⟨hlength, hall, hlater⟩ := of_decide_eq_true htest
  obtain ⟨w', hw', hlength'⟩ := (Option.any_eq_true _ _).mp hlater
  obtain ⟨e, he⟩ := List.length_eq_one_iff.mp hlength
  have hseals : e.seals = true := List.all_eq_true.mp hall e (by rw [he]; simp)
  exact ⟨w, w', e, he, hseals, of_decide_eq_true hlength',
    sealed_intervals_stay_sealed (steps_of_runs hw) (steps_of_runs hw') he hseals⟩

end Ahunter.Sim
