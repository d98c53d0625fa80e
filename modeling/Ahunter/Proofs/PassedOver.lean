import Ahunter.Proofs.SessionGaps

/-!
# Daily catch-ups

Cold starts, catch-ups, resumes and everything that engines and services do to
the tables, one after the other in any order and at any time. When a catch-up
finds nothing to plan, every trading day since the cold start is stored and
covered, unless a pause was longer than the look-back and a trading day was
passed over.
-/

namespace Ahunter.Market

open Ahunter.Lib
open Ahunter.Sim (Date Stamp)

section Runs

variable (p : Providers) (digests : Digests) (digest : IdempotencyKey → String)

/-- What may happen next: a workflow is called, whatever comes of it, a call
reaches the control plane that creates no run, or the facts change. -/
inductive Happens : World → World → Prop
  | planDue (w : World) (exchanges : Attempt UniverseSnapshot) (now : Stamp) :
      Happens w ((Market.planDue p digests exchanges now).leaves w)
  | submitDue (w : World) (exchanges : Attempt UniverseSnapshot) (now : Stamp) :
      Happens w ((Market.submitDue p digests exchanges now digest).leaves w)
  | catchUpClaimed (w : World) (exchanges : Attempt UniverseSnapshot) (now : Stamp)
      (runId requestId owner : String) :
      Happens w ((Market.catchUpClaimed p digests exchanges now runId requestId owner).leaves w)
  | coldStartClaimed (w : World) (exchanges : Attempt UniverseSnapshot) (now : Stamp)
      (runId requestId : String) :
      Happens w ((Market.coldStartClaimed p digests exchanges now runId requestId).leaves w)
  | resumePartial (w : World) (now : Stamp) (runType : RequestType) (incomplete : String) :
      Happens w ((Market.resumePartial now runType incomplete).leaves w)
  | control (w : World) (call : Call) (now : Stamp) (h : call.CreatesNone) :
      Happens w { w with
        store := { w.store with control := call.after digest now w.store.control } }
  | facts (w : World) (facts : Facts) :
      Happens w { w with store := { w.store with facts := facts } }

abbrev World.Reached (w : World) : Prop :=
  Relation.ReflTransGen (Happens p digests digest) World.start w

end Runs

section Law

variable {p : Providers} {traded : Date → Bool} {digests : Digests}
  {digest : IdempotencyKey → String} {exchanges : Attempt UniverseSnapshot} {now : Stamp}

theorem Happens.observed (hexact : p.Exact traded) {w w' : World}
    (h : Happens p digests digest w w') (hw : Observed p traded w) : Observed p traded w' := by
  cases h with
  | planDue exchanges now => exact (planDue_observed hexact).leaves hw
  | submitDue exchanges now => exact (submitDue_observed hexact).leaves hw
  | catchUpClaimed exchanges now runId requestId owner =>
      exact (catchUpClaimed_observed hexact).leaves hw
  | coldStartClaimed exchanges now runId requestId =>
      exact (coldStartClaimed_observed hexact).leaves hw
  | resumePartial now runType incomplete => exact resumePartial_observed.leaves hw
  | control call now h => exact hw.control (call.after_scopes digest now _ h)
  | facts facts => exact ⟨hw.sourced, hw.stored, hw.baselines⟩

theorem World.Reached.observed (hexact : p.Exact traded) {w : World}
    (h : w.Reached p digests digest) : Observed p traded w := by
  induction h with
  | refl => exact Observed.start
  | tail _ hstep ih => exact hstep.observed hexact ih

/-! ## Plans -/

theorem planDue_none (hexact : p.Exact traded) {w w' : World} (hw : Observed p traded w)
    (h : planDue p digests exchanges now w = (.ok none, w')) :
    ∃ baseline target, completeBaseline w = .ok baseline ∧ readyAt ≤ shanghai.time now.instant ∧
        w'.refreshed = (probeStart now baseline, now.date) :: w.refreshed ∧
          latestCompletedSession now w'.sessions = .ok target ∧
            buildPlan digests exchanges target baseline.startDate w'.sessions w'.store.facts
              = .ok none := by
  have hfetched : Flow.Holds (fun v => v = w) (planDue p digests exchanges now)
      (fun plan v => plan = none → ∃ baseline target, completeBaseline w = .ok baseline ∧
        readyAt ≤ shanghai.time now.instant ∧
          v.refreshed = (probeStart now baseline, now.date) :: w.refreshed ∧
            latestCompletedSession now v.sessions = .ok target ∧
              buildPlan digests exchanges target baseline.startDate v.sessions v.store.facts
                = .ok none) (fun _ => True) := by
    unfold planDue
    refine Flow.Holds.bind (R := fun baseline v => v = w ∧ completeBaseline w = .ok baseline)
      (.read (fun baseline v hb hv => ⟨hv, hv ▸ hb⟩) fun _ _ => trivial) fun baseline => ?_
    refine Flow.Holds.bind (R := fun _ v => completeBaseline w = .ok baseline ∧
      readyAt ≤ shanghai.time now.instant ∧
        v.refreshed = (probeStart now baseline, now.date) :: w.refreshed) ⟨?_⟩ fun _ => ?_
    · rintro v ⟨rfl, hbaseline⟩
      rw [Workflow.refresh]
      cases hobserved : observeBoth p (probeStart now baseline) now.date now with
      | error e =>
          rw [refresh, hobserved]
          trivial
      | ok days =>
          have htime : readyAt ≤ shanghai.time now.instant := by
            simp only [observeBoth, bind_ok, refuse_ok, not_lt] at hobserved
            exact hobserved.choose_spec.2.choose_spec.1
          have hcases := @refresh_cases p traded now (probeStart now baseline) now.date hexact
            _ hw.sourced
          rcases hcases with ⟨e, he⟩ | ⟨t, ht, _, _⟩
          · rw [he]
            trivial
          · rw [ht]
            exact ⟨hbaseline, htime, rfl⟩
    · refine Flow.Holds.bind (.read (Q := fun target v => (completeBaseline w = .ok baseline ∧
          readyAt ≤ shanghai.time now.instant ∧
            v.refreshed = (probeStart now baseline, now.date) :: w.refreshed) ∧
              latestCompletedSession now v.sessions = .ok target)
        (fun target v hv hsame => ⟨hsame, hv⟩) fun _ _ => trivial) fun target => ?_
      refine .read (fun plan v hplan hv hnone => ?_) fun _ _ => trivial
      obtain ⟨⟨hbaseline, htime, hwins⟩, htarget⟩ := hv
      exact ⟨baseline, target, hbaseline, htime, hwins, htarget, hnone ▸ hplan⟩
  exact hfetched.ok rfl h rfl

theorem latestCompletedSession_ok (htime : readyAt ≤ shanghai.time now.instant) {t : Sessions}
    {target : Date} (h : latestCompletedSession now t = .ok target) :
    t.contains target = true ∧ target ≤ marketDate now ∧
      ∀ day, t.contains day = true → day ≤ marketDate now → day ≤ target := by
  rw [latestCompletedSession, need_ok, if_pos htime, latestSessionOnOrBefore] at h
  have hmem : ∀ day, day ∈ t.keys.filter (fun day => decide (day ≤ marketDate now)) ↔
      t.contains day = true ∧ day ≤ marketDate now := by
    intro day
    rw [List.mem_filter, decide_eq_true_eq, Dict.mem_keys, Dict.contains_iff]
  obtain ⟨hstored, hle⟩ := (hmem target).mp (List.mem_of_getLast? h)
  refine ⟨hstored, hle, fun day hday hdayle => ?_⟩
  exact le_getLast? (t.keys_sorted.filter _) h ((hmem day).mpr ⟨hday, hdayle⟩)

/-! ## The law -/

structure NoGap (traded : Date → Bool) (snapshot : UniverseSnapshot) (start target : Date)
    (w : World) : Prop where
  stored : ∀ day, traded day = true → start ≤ day → day ≤ target →
    w.sessions.contains day = true
  covered : ∀ day, traded day = true → start ≤ day → day ≤ target →
    ∀ security ∈ snapshot.securities, security.listDate ≤ day →
      (∀ last ∈ security.delistDate, day ≤ last) → w.store.facts.Covered security.code day

def World.Sees (w : World) (now : Stamp) (baseline : RunRow) (day : Date) : Prop :=
  w.LookedAt day ∨ (probeStart now baseline ≤ day ∧ day ≤ now.date)

def NothingPassedOver (traded : Date → Bool) (now : Stamp) (baseline : RunRow) (w : World) :
    Prop :=
  ∀ day later, traded day = true → traded later = true → baseline.endDate < day →
    day ≤ later → later ≤ marketDate now → w.Sees now baseline later → w.Sees now baseline day

theorem completeBaseline_run {w : World} {baseline : RunRow}
    (h : completeBaseline w = .ok baseline) :
    ∃ r, w.store.control.runs.get? r = some baseline ∧ baseline.runType = .coldStart := by
  simp only [completeBaseline, bind_ok, need_ok, pure_ok] at h
  obtain ⟨⟨r, run⟩, hlatest, rfl⟩ := h
  have hmem := firstBy_mem hlatest
  rw [List.mem_filter, Bool.and_eq_true, decide_eq_true_eq, decide_eq_true_eq] at hmem
  exact ⟨r, Dict.mem_entries.mp hmem.1, hmem.2.1⟩

/-- When a catch-up finds nothing to plan, every trading day since the cold
start is stored and covered exactly when none has been passed over. -/
theorem no_silent_session_gap (hexact : p.Exact traded) {w w' : World}
    (hw : w.Reached p digests digest)
    (h : planDue p digests exchanges now w = (.ok none, w')) :
    ∃ baseline target snapshot, completeBaseline w = .ok baseline ∧
      latestCompletedSession now w'.sessions = .ok target ∧ exchanges = .ok snapshot ∧
        (NoGap traded snapshot baseline.startDate target w' ↔
          NothingPassedOver traded now baseline w) := by
  have hobserved := hw.observed hexact
  have hobserved' : Observed p traded w' := (planDue_observed hexact).ok hobserved h
  obtain ⟨baseline, target, hbaseline, htime, hwins, htarget, hplan⟩ :=
    planDue_none hexact hobserved h
  obtain ⟨_, snapshot, _, _, hsnapshot, _, _⟩ := buildPlan_ok hplan
  obtain ⟨htargetStored, htargetLe, hlast⟩ := latestCompletedSession_ok htime htarget
  obtain ⟨r, hget, hcold⟩ := completeBaseline_run hbaseline
  obtain ⟨hle, win, hwin, hstart, hend⟩ := hobserved.baselines r baseline hget hcold
  -- What the catch-up sees is what has been looked at once it has refreshed.
  have hsees : ∀ day, w'.LookedAt day ↔ w.Sees now baseline day := by
    intro day
    rw [World.LookedAt, hwins]
    simp only [List.mem_cons, exists_eq_or_imp]
    exact or_comm
  refine ⟨baseline, target, snapshot, hbaseline, htarget, hsnapshot, ?_, ?_⟩
  · intro hgap day later htraded hlater hafter hdayle hlaterle hseen
    have hstored := (hobserved'.stored later).mpr ⟨hlater, (hsees later).mpr hseen⟩
    have hdayTarget : day ≤ target := hdayle.trans (hlast later hstored hlaterle)
    have hday := hgap.stored day htraded (hle.trans hafter.le) hdayTarget
    exact (hsees day).mp ((hobserved'.stored day).mp hday).2
  · intro hpassed
    have hstored : ∀ day, traded day = true → baseline.startDate ≤ day → day ≤ target →
        w'.sessions.contains day = true := by
      intro day htraded hge hdayle
      refine (hobserved'.stored day).mpr ⟨htraded, (hsees day).mpr ?_⟩
      by_cases hbefore : day ≤ baseline.endDate
      · exact Or.inl ⟨win, hwin, hstart.trans hge, hbefore.trans hend⟩
      · obtain ⟨htargetTraded, hseen⟩ := (hobserved'.stored target).mp htargetStored
        exact hpassed day target htraded htargetTraded (not_le.mp hbefore) hdayle htargetLe
          ((hsees target).mp hseen)
    refine ⟨hstored, fun day htraded hge hdayle security hsecurity hlisted hdelisted => ?_⟩
    exact covered_of_no_plan hplan hsnapshot hsecurity (hstored day htraded hge hdayle) hge hdayle
      hlisted hdelisted

end Law

/-! ## A pause of thirty days -/

def sampleTraded (day : Date) : Bool := decide (day = 19000 ∨ day = 19005 ∨ day = 19030)

def sampleProviders : Providers where
  primarySource := "primary"
  fallbackSource := "fallback"
  primary start finish := .ok (tradingDays sampleTraded start finish)
  fallback start finish := .ok (tradingDays sampleTraded start finish)
  primaryText := by decide
  fallbackText := by decide
  distinct := by decide

theorem sampleProviders_exact : sampleProviders.Exact sampleTraded := ⟨fun _ _ => rfl, fun _ _ => rfl⟩

def sampleDigests : Digests := ⟨fun _ => sampleHash, fun _ _ _ => sampleHash⟩

def evening (day : Date) : Stamp := ⟨shanghai.combine day 78300000000, shanghai⟩

def delistedSecurity : RunSecurity := ⟨"600519", 18000, some 19000, sampleCode, by simp⟩

def sampleUniverse : UniverseSnapshot := ⟨[delistedSecurity], by simp, by simp⟩

def lastAbsence : Fetched MarketAbsence :=
  ⟨⟨"600519", 19000, "exchange", evening 19000, sampleCode, by decide +kernel, exchange_isText⟩,
    evening 19000⟩

def World.calls (now : Stamp) (calls : List Call) (w : World) : World :=
  { w with store := { w.store with control := callsAt sampleDigest now calls w.store.control } }

theorem World.Reached.calls {w : World}
    (h : w.Reached sampleProviders sampleDigests sampleDigest) (now : Stamp) (calls : List Call)
    (hcalls : ∀ call ∈ calls, call.CreatesNone) :
    (w.calls now calls).Reached sampleProviders sampleDigests sampleDigest := by
  induction calls generalizing w with
  | nil => exact h
  | cons call calls ih =>
      exact ih (h.tail (.control w call now (hcalls call List.mem_cons_self)))
        fun c hc => hcalls c (List.mem_cons_of_mem call hc)

def askingCalls : List Call := [.submitColdStartIntent, .claimNextRequest "w"]

def workingCalls : List Call := [
  .startRun "run", .claimItem "run" "600519" "w" 300, .markItem "run" "600519" .completed none,
  .finalizeRun "run"]

def frozenWorld : World :=
  (coldStartClaimed sampleProviders sampleDigests (.ok sampleUniverse) (evening 19000) "run"
    "mdreq-1").leaves (World.start.calls (evening 19000) askingCalls)

def workedWorld : World := frozenWorld.calls (evening 19000) workingCalls

def coldWorld : World :=
  { workedWorld with store := { workedWorld.store with
      facts := (FactCall.recordAbsence lastAbsence).after Facts.empty } }

theorem coldWorld_reached : coldWorld.Reached sampleProviders sampleDigests sampleDigest := by
  have hasked := World.Reached.calls (w := World.start) .refl (evening 19000) askingCalls (by
    intro call hcall
    simp only [askingCalls, List.mem_cons, List.not_mem_nil, or_false] at hcall
    rcases hcall with rfl | rfl <;> exact fun _ _ _ _ _ => nofun)
  have hfrozen : frozenWorld.Reached sampleProviders sampleDigests sampleDigest :=
    hasked.tail (.coldStartClaimed _ (.ok sampleUniverse) (evening 19000) "run" "mdreq-1")
  have hworked := hfrozen.calls (evening 19000) workingCalls (by
    intro call hcall
    simp only [workingCalls, List.mem_cons, List.not_mem_nil, or_false] at hcall
    rcases hcall with rfl | rfl | rfl | rfl <;> exact fun _ _ _ _ _ => nofun)
  exact hworked.tail (.facts workedWorld _)

def lateCatchUp : Attempt (Option CatchUpPlan) × World :=
  planDue sampleProviders sampleDigests (.ok sampleUniverse) (evening 19030) coldWorld

theorem lateCatchUp_none : planDue sampleProviders sampleDigests (.ok sampleUniverse)
    (evening 19030) coldWorld = (.ok none, lateCatchUp.2) := by
  have hnone : (lateCatchUp.1.toOption.any Option.isNone) = true := by decide +kernel
  have hplan : lateCatchUp.1 = .ok none := by
    cases h : lateCatchUp.1 with
    | ok plan =>
        rw [h] at hnone
        exact congrArg Except.ok (Option.isNone_iff_eq_none.mp hnone)
    | error e =>
        rw [h] at hnone
        cases hnone
  show lateCatchUp = (.ok none, lateCatchUp.2)
  rw [← hplan]

/-- A cold start, a pause of thirty days, and a catch-up that finds nothing to
plan: the trading day in between, which is before its target, is not there. -/
theorem session_passed_over :
    coldWorld.Reached sampleProviders sampleDigests sampleDigest ∧
      planDue sampleProviders sampleDigests (.ok sampleUniverse) (evening 19030) coldWorld
        = (.ok none, lateCatchUp.2) ∧
        (completeBaseline coldWorld).toOption.map (fun run => (run.startDate, run.endDate))
          = some (19000, 19000) ∧
          (latestCompletedSession (evening 19030) lateCatchUp.2.sessions).toOption = some 19030 ∧
            sampleTraded 19005 = true ∧ lateCatchUp.2.sessions.contains 19005 = false :=
  ⟨coldWorld_reached, lateCatchUp_none, by decide +kernel, by decide +kernel, by decide,
    by decide +kernel⟩

theorem no_silent_session_gap_pause :
    ∃ baseline target snapshot, completeBaseline coldWorld = .ok baseline ∧
      latestCompletedSession (evening 19030) lateCatchUp.2.sessions = .ok target ∧
        Except.ok sampleUniverse = (.ok snapshot : Attempt UniverseSnapshot) ∧
          (NoGap sampleTraded snapshot baseline.startDate target lateCatchUp.2 ↔
            NothingPassedOver sampleTraded (evening 19030) baseline coldWorld) :=
  no_silent_session_gap sampleProviders_exact coldWorld_reached lateCatchUp_none

end Ahunter.Market
