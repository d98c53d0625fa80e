import Ahunter.Proofs.MarketRuns
import Ahunter.Proofs.Planning

/-!
# Sessions that were passed over

What is stored is what has been looked at: when both sources report the trading
days as they were, the stored sessions are the trading days of the windows that
have been refreshed. The window of every cold start is one of them. A catch-up
only looks back a few days, so a trading day between the cold start and its
look-back window is there when an earlier catch-up has looked at it. A plan
takes what is stored for all there was.
-/

namespace Ahunter.Market

open Ahunter.Lib
open Ahunter.Sim (Date Stamp)

/-! ## Sources that report what was -/

def daysFrom (start finish : ℤ) : List ℤ :=
  (List.range (finish + 1 - start).toNat).map fun n : ℕ => start + n

theorem mem_daysFrom {start finish day : ℤ} :
    day ∈ daysFrom start finish ↔ start ≤ day ∧ day ≤ finish := by
  rw [daysFrom, List.mem_map]
  constructor
  · rintro ⟨n, hn, rfl⟩
    rw [List.mem_range] at hn
    omega
  · rintro ⟨hstart, hfinish⟩
    exact ⟨(day - start).toNat, List.mem_range.mpr (by omega), by omega⟩

def tradingDays (traded : Date → Bool) (start finish : Date) : List Date :=
  (daysFrom start finish).filter traded

theorem mem_tradingDays {traded : Date → Bool} {start finish day : Date} :
    day ∈ tradingDays traded start finish ↔ traded day = true ∧ start ≤ day ∧ day ≤ finish := by
  rw [tradingDays, List.mem_filter, mem_daysFrom, and_comm]

structure Providers.Exact (p : Providers) (traded : Date → Bool) : Prop where
  primary : ∀ start finish, p.primary start finish = .ok (tradingDays traded start finish)
  fallback : ∀ start finish, p.fallback start finish = .ok (tradingDays traded start finish)

def Sourced (p : Providers) (t : Sessions) : Prop :=
  ∀ day row, t.get? day = some row →
    row.primarySource = p.primarySource ∧ row.fallbackSource = p.fallbackSource

section Refreshing

variable {p : Providers} {traded : Date → Bool} {asOf : Stamp} {start finish : Date}

theorem observedSession_ok {day : Date} (h : day ≤ marketDate asOf) :
    ∃ session, observedSession p asOf day = .ok session ∧ session.tradeDate = day ∧
      session.primarySource = p.primarySource ∧ session.fallbackSource = p.fallbackSource := by
  rw [observedSession, dif_pos (show day ≤ marketDate ⟨asOf.instant, shanghai⟩ from h)]
  exact ⟨_, rfl, rfl, rfl, rfl⟩

theorem upsertSession_ok {t : Sessions} (hsourced : Sourced p t)
    {session : ObservedTradingSession} (hprimary : session.primarySource = p.primarySource)
    (hfallback : session.fallbackSource = p.fallbackSource) :
    ∃ r, upsertSession session t = .ok r ∧ Sourced p r.2 ∧
      ∀ day, r.2.contains day = true ↔ t.contains day = true ∨ day = session.tradeDate := by
  rw [upsertSession]
  cases hold : t.get? session.tradeDate with
  | some existing =>
      obtain ⟨hp, hf⟩ := hsourced _ _ hold
      refine ⟨(.unchanged, t), ?_, hsourced, fun day => ?_⟩
      · dsimp only
        rw [refuse, if_neg (by rw [hp, hf, hprimary, hfallback]; simp)]
        rfl
      · constructor
        · exact Or.inl
        · rintro (h | rfl)
          · exact h
          · exact Dict.contains_iff.mpr ⟨existing, hold⟩
  | none =>
      refine ⟨(.inserted, t.set session.tradeDate session), rfl, fun day row hget => ?_,
        fun day => ?_⟩
      · rw [Dict.get?_set] at hget
        split at hget
        · cases hget
          exact ⟨hprimary, hfallback⟩
        · exact hsourced day row hget
      · rw [Dict.contains_iff, Dict.contains_iff, Dict.get?_set]
        by_cases hday : day = session.tradeDate
        · rw [if_pos hday]
          exact ⟨fun _ => Or.inr hday, fun _ => ⟨session, rfl⟩⟩
        · rw [if_neg hday]
          exact ⟨Or.inl, fun h => h.resolve_right hday⟩

theorem storeSessions_ok {days : List Date} {t : Sessions} (hsourced : Sourced p t)
    (hdays : ∀ day ∈ days, day ≤ marketDate asOf) :
    ∃ t', storeSessions p asOf days t = (.ok (), t') ∧ Sourced p t' ∧
      ∀ day, t'.contains day = true ↔ t.contains day = true ∨ day ∈ days := by
  induction days generalizing t with
  | nil => exact ⟨t, rfl, hsourced, fun day => by simp⟩
  | cons day days ih =>
      obtain ⟨session, hsession, hday, hprimary, hfallback⟩ :=
        observedSession_ok (p := p) (hdays day List.mem_cons_self)
      obtain ⟨r, hr, hsourced', hcontains⟩ := upsertSession_ok hsourced hprimary hfallback
      obtain ⟨t', hrest, hsourced'', hstored⟩ := ih hsourced'
        fun d hd => hdays d (List.mem_cons_of_mem day hd)
      refine ⟨t', ?_, hsourced'', fun d => ?_⟩
      · have hput : ((.ok session : Attempt ObservedTradingSession) >>= fun session =>
            upsertSession session t) = .ok r := hr
        rw [storeSessions, hsession, hput]
        exact hrest
      · rw [hstored, hcontains, hday, List.mem_cons, or_assoc]

theorem observeBoth_ok {days : List Date} (hexact : p.Exact traded)
    (h : observeBoth p start finish asOf = .ok days) :
    days = tradingDays traded start finish ∧ ∀ day ∈ days, day ≤ marketDate asOf := by
  simp only [observeBoth, hexact.primary, hexact.fallback, observe, validateDates, bind_ok,
    refuse_ok, pure_ok, not_exists, not_and, not_or, not_lt, Except.ok.injEq] at h
  obtain ⟨_, _, _, _, _, rfl, _, ⟨_, _, _, hin, rfl⟩, _, rfl, _, _, _, _, rfl⟩ := h
  exact ⟨rfl, fun day hday => (hin day hday).2.2⟩

theorem refresh_cases (hexact : p.Exact traded) {t : Sessions} (hsourced : Sourced p t) :
    (∃ e, refresh p start finish asOf t = (.error e, t)) ∨
      ∃ t', refresh p start finish asOf t = (.ok (), t') ∧ Sourced p t' ∧
        ∀ day, t'.contains day = true ↔ t.contains day = true ∨
          traded day = true ∧ start ≤ day ∧ day ≤ finish := by
  rw [refresh]
  cases hobserved : observeBoth p start finish asOf with
  | error e => exact Or.inl ⟨e, rfl⟩
  | ok days =>
      obtain ⟨rfl, hin⟩ := observeBoth_ok hexact hobserved
      obtain ⟨t', ht', hsourced', hstored⟩ := storeSessions_ok hsourced hin
      refine Or.inr ⟨t', ht', hsourced', fun day => ?_⟩
      rw [hstored, mem_tradingDays]

end Refreshing

/-! ## Runs keep what they are about -/

variable {c c' : Control}

def RunRow.scope (run : RunRow) : RequestType × Date × Date :=
  (run.runType, run.startDate, run.endDate)

def SameScopes (c c' : Control) : Prop :=
  ∀ r, (c'.runs.get? r).map RunRow.scope = (c.runs.get? r).map RunRow.scope

theorem SameScopes.refl (c : Control) : SameScopes c c := fun _ => rfl

theorem SameScopes.of_runs (h : c'.runs = c.runs) : SameScopes c c' :=
  fun r => by rw [h]

theorem SameScopes.set {runId : String} {run row : RunRow}
    (hruns : c'.runs = c.runs.set runId row) (hrun : c.runs.get? runId = some run)
    (hscope : row.scope = run.scope) : SameScopes c c' := by
  intro r
  rw [hruns, Dict.get?_set]
  split
  · next hr => rw [hr, hrun, Option.map_some, Option.map_some, hscope]
  · rfl

theorem SameScopes.map {f : String → RunRow → RunRow}
    (hruns : ∀ r, c'.runs.get? r = (c.runs.get? r).map (f r))
    (hscope : ∀ r run, (f r run).scope = run.scope) : SameScopes c c' := by
  intro r
  rw [hruns, Option.map_map]
  exact Option.map_congr fun run _ => hscope r run

variable {now : Stamp}

theorem resumePartialRun_scopes {runId : String} {u : Unit}
    (h : resumePartialRun runId now c = .ok (u, c')) : SameScopes c c' := by
  simp only [resumePartialRun, bind_ok, requireText_ok, need_ok, refuse_ok, not_not, pure_ok,
    Prod.mk.injEq] at h
  obtain ⟨_, ⟨_, rfl⟩, run, hrun, _, _, _, rfl⟩ := h
  intro r
  rw [refreshRunProgress_run, setRun_runs, Dict.get?_set]
  by_cases hr : r = strip runId
  · simp only [hr, if_true, Option.map_some, hrun]
    rfl
  · simp only [hr, if_false, requeue_runs, Option.map_id']

theorem markItem_scopes {runId code : String} {status : ItemStatus}
    {source : Option String} {u : Unit}
    (h : markItem runId code status now source c = .ok (u, c')) : SameScopes c c' := by
  simp only [markItem, bind_ok, requireText_ok, refuse_ok, pure_ok, Prod.mk.injEq] at h
  obtain ⟨_, ⟨_, rfl⟩, _, _, _, _, _, _, pair, _, _, _, _, _, _, rfl⟩ := h
  split
  · intro r
    rw [refreshRunProgress_run, setItem_runs, Option.map_map]
    refine Option.map_congr fun run _ => ?_
    rw [Function.comp_apply]
    split <;> rfl
  · exact SameScopes.refl c

def Call.CreatesNone (call : Call) : Prop :=
  ∀ runId requestId universeHash securities ranges,
    call ≠ .createRun runId requestId universeHash securities ranges

theorem Effect.scopes {call : Call} (h : Effect now c c' call)
    (hcreate : call.CreatesNone) (hresume : ∀ runId, call ≠ .resumePartialRun runId)
    (hmark : ∀ runId code status source, call ≠ .markItem runId code status source) :
    SameScopes c c' := by
  cases h with
  | aside hruns _ => exact .of_runs hruns
  | created => exact absurd rfl (hcreate _ _ _ _ _)
  | started hrun _ hruns _ => exact .set hruns hrun rfl
  | resumed => exact absurd rfl (hresume _)
  | marked => exact absurd rfl (hmark _ _ _ _)
  | claimed _ _ _ _ _ hruns _ => exact .of_runs hruns
  | renewed _ _ _ _ hruns _ => exact .of_runs hruns
  | finalized hrun _ _ hrow hruns _ => exact .set hruns hrun (by rw [hrow]; rfl)
  | recovered hruns _ =>
      refine .map hruns fun r run => ?_
      split <;> rfl

theorem Call.after_scopes (digest : IdempotencyKey → String) {call : Call} (now : Stamp)
    (c : Control) (hcreate : call.CreatesNone) : SameScopes c (call.after digest now c) := by
  rw [Call.after]
  split
  · next c' h =>
      cases call with
      | createRun => exact absurd rfl (hcreate _ _ _ _ _)
      | resumePartialRun runId => exact resumePartialRun_scopes (left_ok.mp h).choose_spec
      | markItem runId code status source => exact markItem_scopes (left_ok.mp h).choose_spec
      | _ => exact (Call.effect h).scopes hcreate (fun _ h => by cases h)
              fun _ _ _ _ h => by cases h
  · exact SameScopes.refl c

theorem createRun_scope {runId requestId universeHash : String} {securities : List RunSecurity}
    {ranges : Option ItemRanges} {r : String}
    (h : createRun runId requestId universeHash securities ranges now c = .ok (r, c')) :
    c' = c ∨ ∃ request row, c.requests.get? (strip requestId) = some request ∧
      c'.runs = c.runs.set runId row ∧ row.runType = request.requestType ∧
        request.startDate = some row.startDate ∧ request.endDate = some row.endDate := by
  simp only [createRun, bind_ok, requireText_ok, need_ok] at h
  obtain ⟨_, ⟨_, rfl⟩, _, _, _, _, _, _, _, _, request, hrequest, _, _, h⟩ := h
  split at h
  · cases h
    exact Or.inl rfl
  · simp only [insertRun, bind_ok, need_ok, pure_ok, Prod.mk.injEq] at h
    obtain ⟨target, _, start, hstart, finish, hfinish, _, _, _, _, _, _, _, _, _, rfl⟩ := h
    exact Or.inr ⟨request, _, hrequest, rfl, rfl, hstart, hfinish⟩

/-! ## What is stored is what has been looked at -/

def World.LookedAt (w : World) (day : Date) : Prop :=
  ∃ win ∈ w.refreshed, win.1 ≤ day ∧ day ≤ win.2

structure Observed (p : Providers) (traded : Date → Bool) (w : World) : Prop where
  sourced : Sourced p w.sessions
  stored : ∀ day, w.sessions.contains day = true ↔ traded day = true ∧ w.LookedAt day
  baselines : ∀ r run, w.store.control.runs.get? r = some run → run.runType = .coldStart →
    run.startDate ≤ run.endDate ∧
      ∃ win ∈ w.refreshed, win.1 ≤ run.startDate ∧ run.endDate ≤ win.2

section Workflows

variable {p : Providers} {traded : Date → Bool} {digests : Digests}
  {exchanges : Attempt UniverseSnapshot} {now : Stamp}

theorem Observed.start : Observed p traded World.start where
  sourced _ _ h := by cases h
  stored day := by
    constructor
    · intro h
      cases h
    · rintro ⟨_, win, hwin, _⟩
      cases hwin
  baselines _ _ h := by cases h

theorem Observed.control {w : World} (h : Observed p traded w) {c : Control}
    (hscopes : SameScopes w.store.control c) :
    Observed p traded { w with store := { w.store with control := c } } where
  sourced := h.sourced
  stored := h.stored
  baselines r run hget hcold := by
    have hscope := hscopes r
    rw [show c.runs.get? r = some run from hget, Option.map_some] at hscope
    obtain ⟨old, hold, hsame⟩ := Option.map_eq_some_iff.mp hscope.symm
    simp only [RunRow.scope, Prod.mk.injEq] at hsame
    rw [← hsame.2.1, ← hsame.2.2]
    exact h.baselines r old hold (hsame.1.trans hcold)

variable {I : World → Prop}

theorem control_holds {α : Type} {f : Control → Attempt (α × Control)}
    (hI : ∀ w c, I w → SameScopes w.store.control c →
      I { w with store := { w.store with control := c } })
    (hf : ∀ c a c', f c = .ok (a, c') → SameScopes c c') :
    Flow.Holds I (Workflow.control f) (fun _ => I) I := by
  refine Flow.Holds.transact (fun w a w' hw h => ?_) fun _ hw => hw
  obtain ⟨r, hr, hpair⟩ := bind_ok.mp h
  cases hpair
  exact hI w r.2 hw (hf _ _ _ hr)

theorem observed_control {α : Type} {f : Control → Attempt (α × Control)}
    (hf : ∀ c a c', f c = .ok (a, c') → SameScopes c c') :
    Flow.Holds (Observed p traded) (Workflow.control f) (fun _ => Observed p traded)
      (Observed p traded) :=
  control_holds (fun _ _ hw => hw.control) hf

theorem refresh_holds (hexact : p.Exact traded) {start finish : Date}
    (hobserved : ∀ w, I w → Observed p traded w)
    {J : World → Prop} (hJ : ∀ w w', I w → Observed p traded w' →
      w'.store = w.store → w'.refreshed = (start, finish) :: w.refreshed → J w') :
    Flow.Holds I (Workflow.refresh p start finish now) (fun _ => J) (Observed p traded) := by
  refine ⟨fun w hw => ?_⟩
  have hw' := hobserved w hw
  rw [Workflow.refresh]
  have hcases := @refresh_cases p traded now start finish hexact _ hw'.sourced
  rcases hcases with ⟨e, he⟩ | ⟨t, ht, hsourced, hstored⟩
  · rw [he]
    exact hw'
  · rw [ht]
    refine hJ w _ hw ⟨hsourced, fun day => ?_, fun r run hget hcold => ?_⟩ rfl rfl
    · rw [hstored, hw'.stored]
      constructor
      · rintro (⟨htraded, win, hwin, hin⟩ | ⟨htraded, hin⟩)
        · exact ⟨htraded, win, List.mem_cons_of_mem _ hwin, hin⟩
        · exact ⟨htraded, (start, finish), List.mem_cons_self, hin⟩
      · rintro ⟨htraded, win, hwin, hin⟩
        rcases List.mem_cons.mp hwin with rfl | hwin
        · exact Or.inr ⟨htraded, hin⟩
        · exact Or.inl ⟨htraded, win, hwin, hin⟩
    · obtain ⟨hle, win, hwin, hin⟩ := hw'.baselines r run hget hcold
      exact ⟨hle, win, List.mem_cons_of_mem _ hwin, hin⟩

theorem refresh_observed (hexact : p.Exact traded) {start finish : Date} :
    Flow.Holds (Observed p traded) (Workflow.refresh p start finish now)
      (fun _ => Observed p traded) (Observed p traded) :=
  refresh_holds hexact (fun _ hw => hw) fun _ _ _ h _ _ => h

theorem read_keeps {α : Type} (hI : ∀ w, I w → Observed p traded w) {f : World → Attempt α} :
    Flow.Holds I (Flow.read f) (fun a w => I w ∧ f w = .ok a) (Observed p traded) :=
  .read (fun _ _ h hw => ⟨hw, h⟩) hI

theorem lift_keeps {α : Type} (hI : ∀ w, I w → Observed p traded w) {x : Attempt α} :
    Flow.Holds I (Flow.lift x : Workflow α) (fun a w => I w ∧ x = .ok a) (Observed p traded) :=
  .lift (fun _ h _ hw => ⟨hw, h⟩) hI

/-! ## Catch-up -/

variable {requestId : String}

theorem planDue_observed (hexact : p.Exact traded) :
    Flow.Holds (Observed p traded) (planDue p digests exchanges now)
      (fun _ => Observed p traded) (Observed p traded) := by
  unfold planDue
  refine (read_keeps fun _ h => h).bind fun baseline => ?_
  refine ((refresh_observed hexact).weaken (fun _ h => h.1) fun _ _ h => h).bind fun _ => ?_
  refine (read_keeps fun _ h => h).bind fun target => ?_
  exact (read_keeps fun _ h => h.1).weaken (fun _ h => h) fun _ _ h => h.1.1

theorem submitCatchUp_scopes {digest : IdempotencyKey → String} {start finish : Date}
    {scope : Option String} {c : Control} {a : String} {c' : Control}
    (h : submitCatchUp digest start finish now scope c = .ok (a, c')) : SameScopes c c' :=
  .of_runs ((submitCatchUp_keeps digest start finish now scope c).tables a c' h).1

theorem submitDue_observed {digest : IdempotencyKey → String} (hexact : p.Exact traded) :
    Flow.Holds (Observed p traded) (submitDue p digests exchanges now digest)
      (fun _ => Observed p traded) (Observed p traded) := by
  unfold submitDue
  refine (planDue_observed hexact).bind fun plan => ?_
  cases plan with
  | none => exact .pure fun _ h => h
  | some plan =>
      refine (observed_control fun _ _ _ h => submitCatchUp_scopes h).bind fun _ => ?_
      exact .pure fun _ h => h

variable {runId : String}

theorem resume_observed :
    Flow.Holds (Observed p traded) (Workflow.control (resumePartialRun runId now))
      (fun _ => Observed p traded) (Observed p traded) :=
  observed_control fun _ _ _ h => resumePartialRun_scopes h

theorem resumeIf_observed {run : RunRow} :
    Flow.Holds (Observed p traded) (resumeIfPartial now runId run) (fun _ => Observed p traded)
      (Observed p traded) :=
  .ite (fun _ => resume_observed) fun _ => .pure fun _ h => h

theorem reopen_observed :
    Flow.Holds (Observed p traded) (reopen now runId) (fun _ => Observed p traded)
      (Observed p traded) := by
  unfold reopen
  refine (read_keeps fun _ h => h).bind fun run => ?_
  refine .ite (fun _ => .pure fun _ h => h.1) fun _ => ?_
  refine Flow.Holds.bind (resumeIf_observed.weaken (fun _ h => h.1) fun _ _ h => h) fun _ => ?_
  refine (read_keeps fun _ h => h).bind fun run => ?_
  exact .pure fun _ h => h.1

def CatchingUp (p : Providers) (traded : Date → Bool) (requestId : String) (w : World) : Prop :=
  Observed p traded w ∧ ∃ request, w.store.control.requests.get? (strip requestId) = some request ∧
    request.requestType = .catchUp

variable {request : RequestRow}

theorem requestOf_ok {w : World} (h : requestOf requestId w = .ok request) :
    w.store.control.requests.get? (strip requestId) = some request := by
  simp only [requestOf, bind_ok, requireText_ok, need_ok] at h
  obtain ⟨_, ⟨_, rfl⟩, h⟩ := h
  exact h

theorem createCatchUp_observed {runId universeHash : String} {securities : List RunSecurity}
    {ranges : Option ItemRanges} :
    Flow.Holds (CatchingUp p traded requestId)
      (Workflow.control (createRun runId requestId universeHash securities ranges now))
      (fun _ => Observed p traded) (Observed p traded) := by
  refine Flow.Holds.transact (fun w a w' hw h => ?_) fun _ hw => hw.1
  obtain ⟨hobserved, request, hrequest, htype⟩ := hw
  obtain ⟨⟨r, c⟩, hr, hpair⟩ := bind_ok.mp h
  cases hpair
  rcases createRun_scope hr with rfl | ⟨request', row, hrequest', hruns, hrow, _, _⟩
  · exact hobserved
  · cases hrequest'.symm.trans hrequest
    refine ⟨hobserved.sourced, hobserved.stored, fun j run hget hcold => ?_⟩
    rw [show (World.mk ⟨c, w.store.facts⟩ w.sessions w.refreshed).store.control.runs = _
      from hruns, Dict.get?_set] at hget
    split at hget
    · cases hget
      rw [hrow, htype] at hcold
      cases hcold
    · exact hobserved.baselines j run hget hcold

theorem executePlan_observed {sessions : List Date} {plan : CatchUpPlan} :
    Flow.Holds (CatchingUp p traded requestId)
      (executePlan now runId requestId request sessions plan) (fun _ => Observed p traded)
      (Observed p traded) := by
  unfold executePlan
  refine (lift_keeps fun _ h => h.1).bind fun _ => ?_
  refine (createCatchUp_observed.weaken (fun _ h => h.1) fun _ _ h => h).bind fun runId => ?_
  refine reopen_observed.bind fun run => ?_
  exact .pure fun _ h => h

theorem completeClaimed_scopes {owner : String} {c : Control} {u : Unit} {c' : Control}
    (h : completeClaimedRequest requestId owner now c = .ok (u, c')) : SameScopes c c' :=
  .of_runs ((completeClaimedRequest_keeps requestId owner now c).tables u c' h).1

theorem catchUpClaimed_observed (hexact : p.Exact traded) {runId owner : String} :
    Flow.Holds (Observed p traded) (catchUpClaimed p digests exchanges now runId requestId owner)
      (fun _ => Observed p traded) (Observed p traded) := by
  unfold catchUpClaimed
  refine (read_keeps fun _ h => h).bind fun request => ?_
  refine (lift_keeps fun _ h => h.1).bind fun _ => ?_
  -- From here on the request is known to be one of a catch-up.
  refine Flow.Holds.bind ((read_keeps (I := CatchingUp p traded requestId) fun _ h => h.1).weaken
    (fun w h => ?_) fun _ _ h => h) fun baseline => ?_
  · obtain ⟨⟨hw, hrequest⟩, hrefuse⟩ := h
    rw [refuse_ok, not_or, not_not, not_not] at hrefuse
    exact ⟨hw, request, requestOf_ok hrequest, hrefuse.1⟩
  refine (lift_keeps fun _ h => h.1.1).bind fun target => ?_
  refine Flow.Holds.bind (R := fun _ => CatchingUp p traded requestId)
    (refresh_holds hexact (fun _ h => h.1.1.1) fun w w' h hw' hstore _ => ?_) fun _ => ?_
  · exact ⟨hw', hstore ▸ h.1.1.2⟩
  refine (read_keeps fun _ h => h.1).bind fun sessions => ?_
  refine (lift_keeps fun _ h => h.1.1).bind fun _ => ?_
  refine (read_keeps fun _ h => h.1.1.1).bind fun plan => ?_
  cases plan with
  | none =>
      refine Flow.Holds.bind ((observed_control fun _ _ _ h => completeClaimed_scopes h).weaken
        (fun _ h => h.1.1.1.1) fun _ _ h => h) fun _ => ?_
      exact .pure fun _ h => h
  | some plan => exact executePlan_observed.weaken (fun _ h => h.1.1.1) fun _ _ h => h

theorem resumePartial_observed {runType : RequestType} {incomplete : String} :
    Flow.Holds (Observed p traded) (resumePartial now runType incomplete)
      (fun _ => Observed p traded) (Observed p traded) := by
  unfold resumePartial
  refine (read_keeps fun _ h => h).bind fun latest => ?_
  match latest with
  | none => exact .pure fun _ h => h.1
  | some (runId, run) =>
      refine (read_keeps fun _ h => h.1).bind fun sessions => ?_
      refine (lift_keeps fun _ h => h.1.1).bind fun _ => ?_
      refine Flow.Holds.bind (resumeIf_observed.weaken (fun _ h => h.1.1.1) fun _ _ h => h)
        fun _ => ?_
      exact .pure fun _ h => h

/-! ## Cold start -/

def ColdStarting (p : Providers) (traded : Date → Bool) (requestId : String) (w : World) : Prop :=
  Observed p traded w ∧ ∃ request start finish,
    w.store.control.requests.get? (strip requestId) = some request ∧
      request.startDate = some start ∧ request.endDate = some finish ∧ start ≤ finish ∧
        ∃ win ∈ w.refreshed, win.1 ≤ start ∧ finish ≤ win.2

theorem createColdStart_observed {runId universeHash : String} {securities : List RunSecurity}
    {ranges : Option ItemRanges} :
    Flow.Holds (ColdStarting p traded requestId)
      (Workflow.control (createRun runId requestId universeHash securities ranges now))
      (fun _ => Observed p traded) (Observed p traded) := by
  refine Flow.Holds.transact (fun w a w' hw h => ?_) fun _ hw => hw.1
  obtain ⟨hobserved, request, start, finish, hrequest, hstart, hfinish, hwin⟩ := hw
  obtain ⟨⟨r, c⟩, hr, hpair⟩ := bind_ok.mp h
  cases hpair
  rcases createRun_scope hr with rfl | ⟨request', row, hrequest', hruns, _, hrowStart, hrowEnd⟩
  · exact hobserved
  · cases hrequest'.symm.trans hrequest
    cases hrowStart.symm.trans hstart
    cases hrowEnd.symm.trans hfinish
    refine ⟨hobserved.sourced, hobserved.stored, fun j run hget hcold => ?_⟩
    rw [show (World.mk ⟨c, w.store.facts⟩ w.sessions w.refreshed).store.control.runs = _
      from hruns, Dict.get?_set] at hget
    split at hget
    · cases hget
      exact hwin
    · exact hobserved.baselines j run hget hcold

theorem configure_coldStarting {target start : Date} (win : Date × Date) (hstart : win.1 ≤ start)
    (hend : target ≤ win.2) :
    Flow.Holds (fun w => Observed p traded w ∧ win ∈ w.refreshed)
      (Workflow.control (configureClaimedRequest requestId target start target))
      (fun _ => ColdStarting p traded requestId) (Observed p traded) := by
  refine Flow.Holds.transact (fun w a w' hw h => ?_) fun _ hw => hw.1
  obtain ⟨hobserved, hwin⟩ := hw
  obtain ⟨⟨u, c⟩, hu, hpair⟩ := bind_ok.mp h
  cases hpair
  refine ⟨hobserved.control (.of_runs
    ((configureClaimedRequest_keeps requestId target start target _).tables u c hu).1), ?_⟩
  simp only [configureClaimedRequest, bind_ok, requireText_ok, refuse_ok, need_ok, pure_ok,
    not_or, not_lt, Prod.mk.injEq] at hu
  obtain ⟨_, ⟨_, rfl⟩, _, ⟨hle, _⟩, row, hrow, _, _, _, _, _, rfl⟩ := hu
  exact ⟨_, start, target, Dict.get?_set_self _ _ _, rfl, rfl, hle, win, hwin, hstart, hend⟩

theorem coldStartTarget_observed (hexact : p.Exact traded) :
    Flow.Holds (Observed p traded) (coldStartTarget p now request) (fun _ => Observed p traded)
      (Observed p traded) := by
  rw [coldStartTarget]
  split
  · exact .pure fun _ h => h
  · refine (refresh_observed hexact).bind fun _ => ?_
    exact (read_keeps fun _ h => h).weaken (fun _ h => h) fun _ _ h => h.1

theorem prepareClaimed_observed (hexact : p.Exact traded) :
    Flow.Holds (Observed p traded) (prepareClaimed p digests exchanges now runId requestId)
      (fun _ => Observed p traded) (Observed p traded) := by
  unfold prepareClaimed
  refine (read_keeps fun _ h => h).bind fun request => ?_
  refine (lift_keeps fun _ h => h.1).bind fun _ => ?_
  refine ((coldStartTarget_observed hexact).weaken (fun _ h => h.1.1) fun _ _ h => h).bind
    fun target => ?_
  refine Flow.Holds.bind (R := fun _ w => Observed p traded w ∧
      (calendarYearsBefore target 5, target) ∈ w.refreshed)
    (refresh_holds hexact (fun _ h => h) fun w w' _ hw' _ hwins => ?_) fun _ => ?_
  · exact ⟨hw', hwins ▸ List.mem_cons_self⟩
  refine (read_keeps fun _ h => h.1).bind fun sessions => ?_
  refine (lift_keeps fun _ h => h.1.1).bind fun start => ?_
  refine (lift_keeps fun _ h => h.1.1.1).bind fun _ => ?_
  -- The window begins at the first stored session, which is in the refreshed one.
  refine Flow.Holds.given (φ := calendarYearsBefore target 5 ≤ start) (fun w h => ?_) fun hle => ?_
  · obtain ⟨⟨⟨_, hsessions⟩, hstart⟩, _⟩ := h
    exact ((mem_sessionsFor hsessions).mp (List.mem_of_head? (need_ok.mp hstart))).2.1
  refine Flow.Holds.bind ((configure_coldStarting
    (calendarYearsBefore target 5, target) hle le_rfl).weaken
      (fun _ h => h.1.1.1) fun _ _ h => h) fun _ => ?_
  refine (lift_keeps fun _ h => h.1).bind fun snapshot => ?_
  refine (lift_keeps fun _ h => h.1.1).bind fun eligible => ?_
  refine (lift_keeps fun _ h => h.1.1.1).bind fun _ => ?_
  refine Flow.Holds.bind (createColdStart_observed.weaken (fun _ h => h.1.1.1) fun _ _ h => h)
    fun _ => ?_
  exact .pure fun _ h => h

theorem coldStartClaimed_observed (hexact : p.Exact traded) :
    Flow.Holds (Observed p traded) (coldStartClaimed p digests exchanges now runId requestId)
      (fun _ => Observed p traded) (Observed p traded) := by
  unfold coldStartClaimed
  refine (prepareClaimed_observed hexact).bind fun prepared => ?_
  refine reopen_observed.bind fun run => ?_
  cases run with
  | none => exact .pure fun _ h => h
  | some run =>
      refine (lift_keeps fun _ h => h).bind fun _ => ?_
      exact .pure fun _ h => h.1

end Workflows

end Ahunter.Market
