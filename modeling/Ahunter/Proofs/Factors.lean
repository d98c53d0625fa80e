import Ahunter.Market.Research
import Ahunter.Proofs.Readiness

/-!
# Factors of one scale

A fetch of factors is scaled to its own last date, and what is stored keeps no
trace of which fetch it came from. So the factors of a code have one scale
exactly as long as the fetches they came from end on days of one price level.
An engine commits nothing but what it fetched, and only when the fetch reached
the last date it asked for, which is what ties the scale of a row to the
request.
-/

namespace Ahunter.Market

open Ahunter.Lib
open Ahunter.Sim (Date Stamp)

/-! ## True histories -/

/-- How the raw prices of each code are to be scaled, day by day, for its
corporate actions to leave no jump. Only the ratios of levels mean anything. -/
structure PriceHistory where
  level : String → Date → ℚ
  positive : ∀ code day, 0 < level code day

def PriceHistory.Reports (h : PriceHistory) (code : String) (start finish : Date)
    (received : List (Fetched AdjustmentFactor)) : Prop :=
  ∃ raw scale source sourceAt fetchedAt version, (0 : ℚ) < scale ∧
    (∀ e ∈ raw, (start ≤ e.1 ∧ e.1 ≤ finish) ∧ e.2 = scale * h.level code e.1) ∧
    normalizeForwardFactors code raw source sourceAt fetchedAt version = .ok received

def PriceHistory.Answers (h : PriceHistory) (c : EngineCall)
    (r : Except MarketError c.Answer) : Prop :=
  match c, r with
  | .fetchAdjustmentFactors code start finish, .ok received =>
      h.Reports code start finish received
  | _, _ => True

def PriceHistory.EndsAt (h : PriceHistory) (code : String) (anchor : Date) : EngineCall → Prop
  | .fetchAdjustmentFactors other _ finish =>
      other = code → h.level code finish = h.level code anchor
  | _ => True

def PriceHistory.At (h : PriceHistory) (code : String) (anchor : Date)
    (f : Fetched AdjustmentFactor) : Prop :=
  f.content.code = code →
    f.content.factor = h.level code f.content.tradeDate / h.level code anchor

/-! ## Fetches -/

variable {received : List (Fetched AdjustmentFactor)} {factors : List (Fetched AdjustmentFactor)}

theorem normalizeForwardFactors_ok {code : String} {raw : List (Date × ℚ)} {source : String}
    {sourceAt fetchedAt : Stamp} {version : String}
    (hn : normalizeForwardFactors code raw source sourceAt fetchedAt version = .ok factors) :
    ∃ last ∈ raw, (∀ e ∈ raw, e.1 ≤ last.1) ∧ ∀ f ∈ factors, f.content.code = code ∧
      ∃ e ∈ raw, f.content.tradeDate = e.1 ∧ f.content.factor = e.2 / last.2 := by
  simp only [normalizeForwardFactors, bind_ok, need_ok, refuse_ok, not_not, pure_ok] at hn
  obtain ⟨last, hlast, -, -, -, hdates, rows, hgather, -, -, rfl⟩ := hn
  refine ⟨last, List.mem_of_getLast? hlast, fun e he => ?_, fun f hf => ?_⟩
  · refine le_getLast? hdates ?_ (List.mem_map_of_mem he)
    rw [List.getLast?_map, hlast, Option.map_some]
  · obtain ⟨row, hrow, rfl⟩ := List.mem_map.mp hf
    obtain ⟨e, he, hmade⟩ := gather_from hgather hrow
    obtain ⟨hcode, hday, hfactor⟩ := adjustmentFactor_ok hmade
    exact ⟨hcode, e, he, hday, hfactor⟩

theorem PriceHistory.Reports.scaled {h : PriceHistory} {code : String} {start finish : Date}
    (hr : h.Reports code start finish received) :
    ∃ last ≤ finish, ∀ f ∈ received, f.content.code = code ∧ f.content.tradeDate ≤ last ∧
      f.content.factor = h.level code f.content.tradeDate / h.level code last := by
  obtain ⟨raw, scale, source, sourceAt, fetchedAt, version, hscale, hraw, hn⟩ := hr
  obtain ⟨last, hlast, hle, hfactors⟩ := normalizeForwardFactors_ok hn
  refine ⟨last.1, (hraw last hlast).1.2, fun f hf => ?_⟩
  obtain ⟨hcode, e, he, hday, hfactor⟩ := hfactors f hf
  refine ⟨hcode, hday ▸ hle e he, ?_⟩
  rw [hfactor, hday, (hraw e he).2, (hraw last hlast).2, mul_div_mul_left _ _ hscale.ne']

theorem PriceHistory.Reports.at {h : PriceHistory} {code other : String} {start finish : Date}
    {anchor : Date} (hr : h.Reports other start finish received)
    (hend : other = code → h.level code finish = h.level code anchor)
    (hreached : ∃ f ∈ received, f.content.tradeDate = finish) :
    ∀ f ∈ received, h.At code anchor f := by
  obtain ⟨last, hlast, hscaled⟩ := hr.scaled
  obtain ⟨g, hg, hday⟩ := hreached
  have hsame : last = finish := le_antisymm hlast (hday ▸ (hscaled g hg).2.1)
  intro f hf hcode
  obtain ⟨hother, -, hfactor⟩ := hscaled f hf
  have hcodes : other = code := hother.symm.trans hcode
  rw [hfactor, hsame, hcodes, hend hcodes]

theorem factorsByDate_mem {code : String} {day : Date} {f : Fetched AdjustmentFactor}
    (h : (factorsByDate code received).get? day = some f) :
    f ∈ received ∧ f.content.tradeDate = day := by
  obtain ⟨g, hg, heq⟩ := List.mem_map.mp (Dict.get?_ofList h)
  cases heq
  exact ⟨(List.mem_filter.mp hg).1, rfl⟩

theorem gather_byDate {α : Type} {code : String}
    {items : List α} {day : α → Date} {e : α → MarketError}
    (h : gather (fun a => need ((factorsByDate code received).get? (day a)) (e a)) items
      = .ok factors) :
    (∀ f ∈ factors, f ∈ received) ∧ ∀ a ∈ items, ∃ f ∈ received, f.content.tradeDate = day a := by
  constructor
  · intro f hf
    obtain ⟨a, -, hget⟩ := gather_from h hf
    exact (factorsByDate_mem (need_ok.mp hget)).1
  · intro a ha
    obtain ⟨f, -, hget⟩ := gather_mem h ha
    exact ⟨f, factorsByDate_mem (need_ok.mp hget)⟩

/-! ## What an engine commits -/

def Commits (P : Fetched AdjustmentFactor → Prop) : EngineCall → Prop
  | .commitSecurityObservations _ factors _ => ∀ f ∈ factors, P f
  | _ => True

section Steady

variable (h : PriceHistory) (code : String) (anchor : Date)

variable {last : Date} {expected : List Date}

def PriceHistory.Steady (c : EngineCall) (r : Except MarketError c.Answer) : Prop :=
  h.Answers c r ∧ h.EndsAt code anchor c

abbrev Scaled {α : Type} (Q : α → Prop) (p : Engine α) : Prop :=
  Heeds (h.Steady code anchor) (Commits (h.At code anchor)) Q p

variable {h code anchor} {cfg : EngineConfig} {runId other owner : String} {now : Stamp}

theorem workNow_scaled : Scaled h code anchor (fun _ => True) (workNow cfg now) := by
  refine Safe.ite (fun _ => ?_) fun _ => Safe.done fun _ _ => trivial
  refine (Heeds.ask (c := EngineCall.clock) trivial).bind fun moment _ _ _ => ?_
  exact (Heeds.lift _).any

theorem beat_scaled : Scaled h code anchor (fun _ => True) (beat cfg owner) :=
  Safe.ite (fun _ => (Heeds.ask (c := EngineCall.heartbeat owner) trivial).any) fun _ =>
    Safe.done fun _ _ => trivial

theorem notify_scaled : Scaled h code anchor (fun _ => True) (notify cfg other) :=
  Safe.ite (fun _ => (Heeds.ask (c := EngineCall.afterCommit other) trivial).any) fun _ =>
    Safe.done fun _ _ => trivial

theorem renewWorkLease_scaled :
    Scaled h code anchor (fun _ => True) (renewWorkLease cfg runId other owner now) := by
  refine workNow_scaled.bind fun moment _ _ _ => ?_
  refine beat_scaled.bind fun _ _ _ _ => ?_
  refine (Heeds.ask (c := EngineCall.renewItemClaim runId other owner moment
    cfg.itemLeaseSeconds) trivial).bind fun renewed _ _ _ => ?_
  exact (Heeds.lift _).any

theorem mark_scaled {status : ItemStatus} {source : Option String} :
    Scaled h code anchor (fun _ => True) (mark cfg runId other now status source) := by
  refine workNow_scaled.bind fun moment _ _ _ => ?_
  exact (Heeds.ask (c := EngineCall.markItem runId other status moment source) trivial).any

theorem fetchFactors_scaled {bars : List (Fetched CanonicalDailyBar)} :
    Scaled h code anchor (fun factors => ∀ f ∈ factors, h.At code anchor f)
      (fetchFactors other bars) := by
  rw [fetchFactors]
  split
  · next first last hfirst hlast =>
      refine (Heeds.ask (c := EngineCall.fetchAdjustmentFactors other first.content.tradeDate
        last.content.tradeDate) trivial).bind fun received _ _ hanswer => ?_
      obtain ⟨hreport, hend⟩ := hanswer
      refine (Heeds.lift _).weaken (fun factors _ _ hmatched => ?_) fun _ _ _ _ => trivial
      simp only [matchFactors, bind_ok] at hmatched
      obtain ⟨-, -, hgather⟩ := hmatched
      obtain ⟨hfrom, hdates⟩ := gather_byDate hgather
      have hreached := hdates last (List.mem_of_getLast? hlast)
      exact fun f hf => hreport.at hend hreached f (hfrom f hf)
  · exact Safe.done fun _ _ f hf => by cases hf

variable {first : Date}

theorem ensureFactorCoverage_scaled :
    Scaled h code anchor (fun _ => True)
      (ensureFactorCoverage cfg runId other owner now first last) := by
  refine (Heeds.ask (c := EngineCall.barsFor other first last) trivial).bind
    fun (rawBars : List (Fetched CanonicalDailyBar)) _ _ _ => ?_
  refine Safe.ite (fun _ => Safe.done fun _ _ => trivial) fun _ => ?_
  refine (Heeds.ask (c := EngineCall.factorDates other first last) trivial).bind
    fun existing _ _ _ => ?_
  dsimp only
  split
  · next start finish hstart hfinish =>
      refine (Safe.attempt (P := fun r _ => ∀ received, r = .ok received →
          h.Steady code anchor (.fetchAdjustmentFactors other start finish) (.ok received))
        ?_).bind fun received _ _ hanswer => ?_
      · refine Safe.weaken (Q := fun received _ =>
          h.Steady code anchor (.fetchAdjustmentFactors other start finish) (.ok received))
          (E := fun _ _ => True) ?_ (fun _ _ _ hanswer received heq => by cases heq; exact hanswer)
          fun _ _ _ _ _ heq => by cases heq
        exact renewWorkLease_scaled.bind fun _ _ _ _ =>
          Heeds.ask (c := EngineCall.fetchAdjustmentFactors other start finish) trivial
      · split
        · exact Safe.done fun _ _ => trivial
        · next factors hfactors =>
            obtain ⟨answered, heq, hon⟩ := bind_ok.mp hfactors
            obtain ⟨hreport, hend⟩ := hanswer answered heq
            obtain ⟨hfrom, hdates⟩ := gather_byDate hon
            have hreached := hdates finish (List.mem_of_getLast? hfinish)
            have hmay : Commits (h.At code anchor)
                (.commitSecurityObservations [] factors []) :=
              fun f hf => hreport.at hend hreached f (hfrom f hf)
            exact (Heeds.ask hmay).bind fun _ _ _ _ => Safe.done fun _ _ => trivial
  · exact Safe.done fun _ _ => trivial

theorem fetchMissing_scaled {missing : List Date} :
    Scaled h code anchor (fun _ => True)
      (fetchMissing cfg runId owner now other expected missing first last) := by
  refine renewWorkLease_scaled.bind fun _ _ _ _ => ?_
  refine (Heeds.ask (c := EngineCall.fetchDailyBars other first last) trivial).bind
    fun observation _ _ _ => ?_
  refine (Heeds.lift _).bind fun bars _ _ _ => ?_
  refine renewWorkLease_scaled.bind fun _ _ _ _ => ?_
  refine workNow_scaled.bind fun moment _ _ _ => ?_
  refine (Heeds.ask (c := EngineCall.absencesFor other _ moment) trivial).bind
    fun reported _ _ _ => ?_
  refine (Heeds.lift _).bind fun absences _ _ _ => ?_
  refine renewWorkLease_scaled.bind fun _ _ _ _ => ?_
  refine workNow_scaled.bind fun _ _ _ _ => ?_
  refine fetchFactors_scaled.bind fun factors _ _ hfactors => ?_
  have hmay : Commits (h.At code anchor) (.commitSecurityObservations bars factors absences) :=
    hfactors
  refine (Heeds.ask hmay).bind fun (result : SecurityCommitResult) _ _ _ => ?_
  refine Safe.ite (fun _ => Safe.done fun _ _ => trivial) fun _ => ?_
  refine notify_scaled.bind fun _ _ _ _ => ?_
  exact Safe.ite (fun _ => Safe.done fun _ _ => trivial) fun _ => Safe.done fun _ _ => trivial

theorem finishItem_scaled {source : Option String} :
    Scaled h code anchor (fun _ => True)
      (finishItem cfg runId owner now other expected first last source) := by
  refine ensureFactorCoverage_scaled.bind fun factorStatus _ _ _ => ?_
  cases factorStatus with
  | some e => exact mark_scaled.bind fun _ _ _ _ => Safe.done fun _ _ => trivial
  | none => exact mark_scaled.bind fun _ _ _ _ => Safe.done fun _ _ => trivial

theorem concludeItem_scaled {coveredBefore : ℕ} (fetching : Fetching) :
    Scaled h code anchor (fun _ => True)
      (concludeItem cfg runId owner now other expected first last coveredBefore fetching) := by
  cases fetching with
  | conflicted source => exact mark_scaled.bind fun _ _ _ _ => Safe.done fun _ _ => trivial
  | unresolved source count =>
      exact mark_scaled.bind fun _ _ _ _ => Safe.done fun _ _ => trivial
  | complete source => exact finishItem_scaled

theorem fetchAll_scaled {missing : List Date} :
    Scaled h code anchor (fun _ => True) (fetchAll cfg runId owner now other expected missing) := by
  rw [fetchAll]
  split
  · exact fetchMissing_scaled
  · exact Safe.done fun _ _ => trivial

theorem ingestExpected_scaled :
    Scaled h code anchor (fun _ => True)
      (ingestExpected cfg runId owner now other expected first last) := by
  refine (Heeds.ask (c := EngineCall.coveredDates other first last) trivial).bind
    fun covered _ _ _ => ?_
  exact fetchAll_scaled.bind fun fetching _ _ _ => concludeItem_scaled fetching

variable {sessions : List Date}

theorem ingestSecurityInterval_scaled {security : RunSecurity} :
    Scaled h code anchor (fun _ => True)
      (ingestSecurityInterval cfg runId owner now security sessions) := by
  refine workNow_scaled.bind fun claimNow _ _ _ => ?_
  refine (Heeds.ask (c := EngineCall.claimItem runId security.code owner claimNow
    cfg.itemLeaseSeconds) trivial).bind fun (claimed : Bool) _ _ _ => ?_
  refine Safe.ite (fun _ => ?_) fun _ => ?_
  · exact (Heeds.ask (c := EngineCall.item runId security.code) trivial).bind fun _ _ _ _ =>
      Safe.done fun _ _ => trivial
  refine (Heeds.ask (c := EngineCall.run runId) trivial).bind fun run _ _ _ => ?_
  refine (Heeds.ask (c := EngineCall.item runId security.code) trivial).bind
    fun item _ _ _ => ?_
  dsimp only
  split
  · refine Safe.handle (P := fun _ _ => True) ingestExpected_scaled fun e _ _ _ => ?_
    refine Safe.ite (fun _ => ?_) fun _ => Safe.fail fun _ _ => trivial
    exact mark_scaled.bind fun _ _ _ _ => Safe.done fun _ _ => trivial
  · exact mark_scaled.bind fun _ _ _ _ => Safe.done fun _ _ => trivial

theorem ingestNext_scaled {security : RunSecurity} :
    Scaled h code anchor (fun _ => True) (ingestNext cfg runId owner now sessions security) := by
  refine beat_scaled.bind fun _ _ _ _ => ?_
  refine (Heeds.ask (c := EngineCall.item runId security.code) trivial).bind
    fun item _ _ _ => ?_
  refine Safe.ite (fun _ => Safe.done fun _ _ => trivial) fun _ => ?_
  exact ingestSecurityInterval_scaled.bind fun _ _ _ _ => beat_scaled

theorem executeRun_scaled :
    Scaled h code anchor (fun _ => True) (executeRun cfg runId owner now sessions) := by
  refine (Heeds.ask (c := EngineCall.run runId) trivial).bind fun run _ _ _ => ?_
  refine Safe.bind (P := fun _ _ => True) (Safe.ite (fun _ => ?_) fun _ =>
    Safe.done fun _ _ => trivial) fun run _ _ _ => ?_
  · refine workNow_scaled.bind fun moment _ _ _ => ?_
    exact (Heeds.ask (c := EngineCall.startRun runId moment) trivial).any
  refine (Heeds.lift _).bind fun _ _ _ _ => ?_
  refine (Heeds.lift _).bind fun valid _ _ _ => ?_
  refine (Heeds.ask (c := EngineCall.runSecurities runId) trivial).bind
    fun securities _ _ _ => ?_
  refine Safe.bind (P := fun _ _ => True) (Safe.each fun security _ _ _ => ingestNext_scaled)
    fun _ _ _ _ => ?_
  refine workNow_scaled.bind fun moment _ _ _ => ?_
  exact (Heeds.ask (c := EngineCall.finalizeRun runId moment) trivial).any

end Steady

end Ahunter.Market
