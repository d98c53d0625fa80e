import Ahunter.Proofs.Factors

/-!
# Research prices across ingestion windows

The research prices of a window are the raw ones at the stored factors, and two
factors of one scale cancel in a ratio. So prices stored by different runs fit
together exactly when the rows that are read have one scale, which they have
when no corporate action falls between the ends of the fetches they came from.
-/

namespace Ahunter.Market

open Ahunter.Lib
open Ahunter.Sim (Date Stamp)

/-! ## Ratios -/

variable {bars : List (Fetched CanonicalDailyBar)}

structure SameRatios (s t : ResearchPriceSeries) : Prop where
  dates : s.bars.map ResearchPriceBar.tradeDate = t.bars.map ResearchPriceBar.tradeDate
  ratios : ∀ x ∈ s.bars, ∀ y ∈ s.bars, ∀ x' ∈ t.bars, ∀ y' ∈ t.bars,
    x.tradeDate = x'.tradeDate → y.tradeDate = y'.tradeDate →
      (x.opening / y.opening = x'.opening / y'.opening ∧ x.high / y.high = x'.high / y'.high) ∧
        x.low / y.low = x'.low / y'.low ∧ x.close / y.close = x'.close / y'.close

instance (s t : ResearchPriceSeries) : Decidable (SameRatios s t) :=
  decidable_of_iff (_ ∧ _) ⟨fun h => ⟨h.1, h.2⟩, fun h => ⟨h.dates, h.ratios⟩⟩

def AdjustedBy (factor : Date → ℚ) (bars : List (Fetched CanonicalDailyBar))
    (series : ResearchPriceSeries) : Prop :=
  ∃ code, series.bars = bars.map fun b =>
    adjustedBar code b.content (factor b.content.tradeDate)

variable {series : ResearchPriceSeries}

theorem AdjustedBy.dates {factor : Date → ℚ} (h : AdjustedBy factor bars series) :
    series.bars.map ResearchPriceBar.tradeDate = barDates bars := by
  obtain ⟨code, hbars⟩ := h
  rw [hbars, List.map_map]
  rfl

theorem ratio_iff {p q f g f' g' : ℚ} (hp : p ≠ 0) (hq : q ≠ 0) (hg : g ≠ 0) (hg' : g' ≠ 0) :
    p * f / (q * g) = p * f' / (q * g') ↔ f * g' = f' * g := by
  rw [div_eq_div_iff (mul_ne_zero hq hg) (mul_ne_zero hq hg')]
  constructor
  · intro h
    refine mul_left_cancel₀ (mul_ne_zero hp hq) ?_
    linarith
  · intro h
    calc p * f * (q * g') = p * q * (f * g') := by ring
      _ = p * q * (f' * g) := by rw [h]
      _ = p * f' * (q * g) := by ring

theorem sameRatios_iff {f g : Date → ℚ} {s t : ResearchPriceSeries} (hs : AdjustedBy f bars s)
    (ht : AdjustedBy g bars t) (hf : ∀ day ∈ barDates bars, f day ≠ 0)
    (hg : ∀ day ∈ barDates bars, g day ≠ 0) :
    SameRatios s t ↔ ∀ d ∈ barDates bars, ∀ e ∈ barDates bars, f d * g e = g d * f e := by
  have hascending := s.ascending
  rw [hs.dates] at hascending
  have hnodup : (barDates bars).Nodup := hascending.imp fun h => h.ne
  obtain ⟨c, hsbars⟩ := hs
  obtain ⟨c', htbars⟩ := ht
  constructor
  · intro h d hd e he
    obtain ⟨b, hb, rfl⟩ := List.mem_map.mp hd
    obtain ⟨b', hb', rfl⟩ := List.mem_map.mp he
    have hsin : ∀ b ∈ bars, adjustedBar c b.content (f b.content.tradeDate) ∈ s.bars := by
      intro b hb
      rw [hsbars]
      exact List.mem_map_of_mem hb
    have htin : ∀ b ∈ bars, adjustedBar c' b.content (g b.content.tradeDate) ∈ t.bars := by
      intro b hb
      rw [htbars]
      exact List.mem_map_of_mem hb
    have hclose := (h.ratios _ (hsin b hb) _ (hsin b' hb') _ (htin b hb) _ (htin b' hb')
      rfl rfl).2.2
    exact (ratio_iff b.content.pricesPositive.2.2.2.ne' b'.content.pricesPositive.2.2.2.ne'
      (hf _ he) (hg _ he)).mp hclose
  · intro h
    refine ⟨?_, fun x hx y hy x' hx' y' hy' hxx hyy => ?_⟩
    · rw [hsbars, htbars, List.map_map, List.map_map]
      rfl
    rw [hsbars] at hx hy
    rw [htbars] at hx' hy'
    obtain ⟨a, ha, rfl⟩ := List.mem_map.mp hx
    obtain ⟨b, hb, rfl⟩ := List.mem_map.mp hy
    obtain ⟨a', ha', rfl⟩ := List.mem_map.mp hx'
    obtain ⟨b', hb', rfl⟩ := List.mem_map.mp hy'
    -- Bars of one date are one bar.
    have hsame := List.inj_on_of_nodup_map hnodup ha ha' hxx
    have hsame' := List.inj_on_of_nodup_map hnodup hb hb' hyy
    subst hsame hsame'
    have hda : a.content.tradeDate ∈ barDates bars := List.mem_map_of_mem ha
    have hdb : b.content.tradeDate ∈ barDates bars := List.mem_map_of_mem hb
    have hcross := h _ hda _ hdb
    obtain ⟨hopen, hhigh, hlow, hclose⟩ := a.content.pricesPositive
    obtain ⟨hopen', hhigh', hlow', hclose'⟩ := b.content.pricesPositive
    have hfb := hf _ hdb
    have hgb := hg _ hdb
    exact ⟨⟨(ratio_iff hopen.ne' hopen'.ne' hfb hgb).mpr hcross,
      (ratio_iff hhigh.ne' hhigh'.ne' hfb hgb).mpr hcross⟩,
      (ratio_iff hlow.ne' hlow'.ne' hfb hgb).mpr hcross,
      (ratio_iff hclose.ne' hclose'.ne' hfb hgb).mpr hcross⟩

/-! ## Deriving -/

variable {factors : List (Fetched AdjustmentFactor)} {code : String}

theorem deriveForwardAdjustedPrices_ok {factor : Date → ℚ}
    (h : deriveForwardAdjustedPrices bars factors = .ok series)
    (hcode : ∀ b ∈ bars, b.content.code = code)
    (hfactor : ∀ f ∈ factors, f.content.code = code →
      f.content.factor = factor f.content.tradeDate) : AdjustedBy factor bars series := by
  simp only [deriveForwardAdjustedPrices, bind_ok, need_ok, refuse_ok] at h
  obtain ⟨first, hfirst, -, -, -, -, -, -, research, hgather, hseries⟩ := h
  have hfirstCode : first.content.code = code := hcode first (List.mem_of_mem_head? hfirst)
  refine ⟨code, ?_⟩
  rw [researchPriceSeries_ok hseries]
  have hrows := gather_ok.mp hgather
  clear hgather hfirst hseries
  induction hrows with
  | nil => rfl
  | @cons b r bars rest hone _ ih =>
      rw [List.map_cons, ih fun b hb => hcode b (List.mem_cons_of_mem _ hb)]
      simp only [deriveBar, bind_ok, need_ok, refuse_ok, not_not, pure_ok] at hone
      obtain ⟨f, hget, -, hsame, -, -, rfl⟩ := hone
      obtain ⟨g, hg, heq⟩ := List.mem_map.mp (Dict.get?_ofList hget)
      obtain ⟨hday, rfl⟩ := Prod.mk.inj heq
      rw [← hday, hfactor g hg (hsame.trans hfirstCode), hfirstCode]

/-! ## Reading -/

variable {h : PriceHistory} {anchor : Date}

def Facts.At (h : PriceHistory) (code : String) (anchor : Date) (facts : Facts) : Prop :=
  ∀ k f, facts.factors.get? k = some f → h.At code anchor f

variable {boundary : Stamp} {facts : Facts}

theorem readWindow_ok {expected : List Date} {first last : Date}
    {r : List (Fetched CanonicalDailyBar) × List (Fetched AdjustmentFactor) ×
      ResearchPriceSeries}
    (hread : readWindow code expected first last boundary facts = .ok r) :
    r.1 = visibleBars code first last boundary facts ∧
      (∀ f ∈ r.2.1, ∃ k, facts.factors.get? k = some f) ∧
      deriveForwardAdjustedPrices r.1 r.2.1 = .ok r.2.2 := by
  simp only [readWindow, bind_ok, need_ok, refuse_ok, pure_ok] at hread
  obtain ⟨-, -, -, -, start, -, finish, -, factors, hvisible, series, hderive, rfl⟩ := hread
  refine ⟨rfl, fun f hf => ?_, hderive⟩
  simp only [visibleFactors, bind_ok, refuse_ok] at hvisible
  obtain ⟨-, -, hgather⟩ := hvisible
  obtain ⟨b, -, hget⟩ := gather_from hgather hf
  obtain ⟨g, hg, heq⟩ := List.mem_map.mp (Dict.get?_ofList (need_ok.mp hget))
  obtain ⟨-, rfl⟩ := Prod.mk.inj heq
  obtain ⟨⟨day, row⟩, hrow, rfl⟩ := List.mem_map.mp (List.mem_filter.mp hg).1
  exact ⟨_, (mem_rowsBetween.mp hrow).1⟩

theorem visibleBars_code {first last : Date}
    (hk : facts.Keyed) : ∀ b ∈ visibleBars code first last boundary facts,
      b.content.code = code := by
  intro b hb
  obtain ⟨⟨day, row⟩, hrow, rfl⟩ := List.mem_map.mp (List.mem_filter.mp hb).1
  have hkey := hk _ row (mem_rowsBetween.mp hrow).1
  exact congrArg (fun k : FactKey => (ofLex k).1) hkey

theorem readCompleteSecurityWindow_ok {calendar : Calendar} {s : Store} {view : SecurityWindow}
    (hread : readCompleteSecurityWindow calendar code boundary s = .ok view) (hk : s.facts.Keyed)
    (hat : s.facts.At h code anchor) :
    (∀ b ∈ view.rawBars, b.content.code = code) ∧
      AdjustedBy (fun day => h.level code day / h.level code anchor) view.rawBars view.series := by
  simp only [readCompleteSecurityWindow, bind_ok, need_ok, pure_ok] at hread
  obtain ⟨_, -, _, -, _, -, _, -, first, -, last, -, ⟨rawBars, factors, series⟩, hwindow, _, -,
    rfl⟩ := hread
  obtain ⟨hbars, hfactors, hderive⟩ := readWindow_ok hwindow
  have hcode : ∀ b ∈ rawBars, b.content.code = code := by
    rw [show rawBars = _ from hbars]
    exact visibleBars_code hk
  refine ⟨hcode, deriveForwardAdjustedPrices_ok hderive hcode fun f hf hsame => ?_⟩
  obtain ⟨k, hget⟩ := hfactors f hf
  exact hat k f hget hsame

/-! ## What is stored -/

variable {f : Fetched AdjustmentFactor} {k : FactKey}

theorem upsertFactor_get? {factor : Fetched AdjustmentFactor}
    (hget : (upsertFactor factor facts).2.factors.get? k = some f) :
    f = factor ∨ facts.factors.get? k = some f := by
  rw [upsertFactor, upsertRow] at hget
  have hset : ∀ {d : Dict FactKey (Fetched AdjustmentFactor)} {j : FactKey},
      (d.set j factor).get? k = some f → f = factor ∨ d.get? k = some f := by
    intro d j h
    rw [Dict.get?_set] at h
    split at h
    · exact Or.inl (Option.some.inj h).symm
    · exact Or.inr h
  split at hget
  next outcome factors hrow =>
    split at hrow
    · split at hrow
      · cases hrow
        exact Or.inr hget
      · cases hrow
        exact hset hget
    · cases hrow
      exact hset hget

theorem eachFact_upsert_get?
    (hget : (eachFact upsertFactor factors facts).2.factors.get? k = some f) :
    f ∈ factors ∨ facts.factors.get? k = some f := by
  induction factors generalizing facts with
  | nil => exact Or.inr hget
  | cons factor rest ih =>
      rcases ih hget with hmem | hold
      · exact Or.inl (List.mem_cons_of_mem _ hmem)
      · rcases upsertFactor_get? hold with rfl | hold
        · exact Or.inl List.mem_cons_self
        · exact Or.inr hold

theorem eachFact_factors {α : Type} {f : α → Facts → Outcome × Facts}
    (h : ∀ a facts, (f a facts).2.factors = facts.factors) (l : List α) (facts : Facts) :
    (eachFact f l facts).2.factors = facts.factors := by
  induction l generalizing facts with
  | nil => rfl
  | cons a l ih => exact (ih (f a facts).2).trans (h a facts)

theorem commit_factors {absences : List (Fetched MarketAbsence)} {r : SecurityCommitResult × Facts}
    (h : commitSecurityObservations bars factors absences facts = .ok r)
    (hget : r.2.factors.get? k = some f) : f ∈ factors ∨ facts.factors.get? k = some f := by
  obtain ⟨-, hfacts⟩ := commit_ok h
  rw [hfacts] at hget
  rcases eachFact_upsert_get? hget with hmem | hold
  · exact Or.inl hmem
  · rw [eachFact_factors (fun _ _ => rfl), eachFact_factors (fun _ _ => rfl)] at hold
    exact Or.inr hold

def FactCall.WritesNoFactor : FactCall → Prop
  | .upsertFactor _ => False
  | .commitSecurityObservations _ factors _ => factors = []
  | .insertBar _ => True
  | .recordAbsence _ => True
  | .repairBar _ _ => True

theorem FactCall.after_factors {call : FactCall} (h : call.WritesNoFactor)
    (hget : (call.after facts).factors.get? k = some f) : facts.factors.get? k = some f := by
  cases call with
  | insertBar bar => exact hget
  | recordAbsence absence => exact hget
  | upsertFactor factor => cases h
  | commitSecurityObservations bars factors absences =>
      cases h
      rw [FactCall.after] at hget
      split at hget
      · next r hr =>
          rcases commit_factors hr hget with hmem | hold
          · cases hmem
          · exact hold
      · exact hget
  | repairBar bar reason =>
      rw [FactCall.after] at hget
      split at hget
      · next r hr =>
          simp only [Market.repairBar, bind_ok, need_ok] at hr
          obtain ⟨-, -, old, -, hr⟩ := hr
          split at hr
          · cases pure_ok.mp hr
            exact hget
          · cases pure_ok.mp hr
            exact hget
      · exact hget

theorem perform_facts {c : EngineCall} {s t : Store} {a : c.Answer}
    (h : c.perform s = some (.ok (a, t))) :
    t.facts = s.facts ∨ ∃ bars factors absences result,
      c = .commitSecurityObservations bars factors absences ∧
        commitSecurityObservations bars factors absences s.facts = .ok (result, t.facts) := by
  cases c with
  | run runId =>
      simp only [EngineCall.perform, Option.some.injEq, bind_ok, pure_ok] at h
      obtain ⟨_, -, -, rfl⟩ := h
      exact Or.inl rfl
  | startRun runId now =>
      simp only [EngineCall.perform, Option.some.injEq, bind_ok, pure_ok] at h
      obtain ⟨_, -, _, -, -, rfl⟩ := h
      exact Or.inl rfl
  | runSecurities runId =>
      simp only [EngineCall.perform, Option.some.injEq, bind_ok, pure_ok] at h
      obtain ⟨_, -, -, rfl⟩ := h
      exact Or.inl rfl
  | item runId code =>
      simp only [EngineCall.perform, Option.some.injEq, bind_ok, pure_ok] at h
      obtain ⟨_, -, -, rfl⟩ := h
      exact Or.inl rfl
  | claimItem runId code owner now leaseSeconds =>
      simp only [EngineCall.perform, Option.some.injEq, bind_ok, pure_ok] at h
      obtain ⟨_, -, -, rfl⟩ := h
      exact Or.inl rfl
  | renewItemClaim runId code owner now leaseSeconds =>
      simp only [EngineCall.perform, Option.some.injEq, bind_ok, pure_ok] at h
      obtain ⟨_, -, -, rfl⟩ := h
      exact Or.inl rfl
  | markItem runId code status now source =>
      simp only [EngineCall.perform, Option.some.injEq, bind_ok, pure_ok] at h
      obtain ⟨_, -, -, rfl⟩ := h
      exact Or.inl rfl
  | finalizeRun runId now =>
      simp only [EngineCall.perform, Option.some.injEq, bind_ok, pure_ok] at h
      obtain ⟨_, -, -, rfl⟩ := h
      exact Or.inl rfl
  | coveredDates code start finish =>
      cases h
      exact Or.inl rfl
  | barsFor code start finish =>
      cases h
      exact Or.inl rfl
  | factorDates code start finish =>
      cases h
      exact Or.inl rfl
  | commitSecurityObservations bars factors absences =>
      simp only [EngineCall.perform, Option.some.injEq, bind_ok, pure_ok] at h
      obtain ⟨⟨result, facts⟩, hcommit, -, rfl⟩ := h
      exact Or.inr ⟨bars, factors, absences, result, rfl, hcommit⟩
  | fetchDailyBars code start finish => cases h
  | absencesFor code sessions now => cases h
  | fetchAdjustmentFactors code start finish => cases h
  | clock => cases h
  | heartbeat owner => cases h
  | afterCommit code => cases h

/-! ## Ingestion -/

/-- What happens besides engines: any call to the control plane, and any to the
repository that writes no factor. -/
inductive Bystanding (digest : IdempotencyKey → String) : Store → Store → Prop
  | control (s : Store) (call : Call) (now : Stamp) :
      Bystanding digest s { s with control := call.after digest now s.control }
  | facts (s : Store) (call : FactCall) (h : call.WritesNoFactor) :
      Bystanding digest s { s with facts := call.after s.facts }

abbrev Engines.Told (h : PriceHistory) (met : EngineCall → Prop)
    (digest : IdempotencyKey → String) (p q : Engines) : Prop :=
  Pool.Later (fun c s r t => c.exec s r t ∧ h.Answers c r ∧ met c) Job.program
    (Bystanding digest) p q

structure Store.Level (h : PriceHistory) (code : String) (anchor : Date) (s : Store) : Prop where
  keyed : s.facts.Keyed
  factors : s.facts.At h code anchor

theorem exec_level {c : EngineCall} {s t : Store}
    {r : Except MarketError c.Answer} (hexec : c.exec s r t) (hmay : Commits (h.At code anchor) c)
    (hs : s.Level h code anchor) : t.Level h code anchor := by
  rcases exec_cases hexec with rfl | ⟨a, hperform⟩
  · exact hs
  rcases perform_facts hperform with hfacts | ⟨bars, factors, absences, result, rfl, hcommit⟩
  · exact ⟨hfacts ▸ hs.keyed, fun k f hget => hs.factors k f (hfacts ▸ hget)⟩
  · refine ⟨commit_keyed hcommit hs.keyed, fun k f hget => ?_⟩
    rcases commit_factors hcommit hget with hmem | hold
    · exact hmay f hmem
    · exact hs.factors k f hold

variable {digest : IdempotencyKey → String}

theorem Bystanding.level {s t : Store}
    (hside : Bystanding digest s t) (hs : s.Level h code anchor) : t.Level h code anchor := by
  cases hside with
  | control call now => exact ⟨hs.keyed, hs.factors⟩
  | facts call hcall =>
      exact ⟨call.after_keyed hs.keyed, fun k f hget =>
        hs.factors k f (FactCall.after_factors hcall hget)⟩

theorem Engines.Told.level {q : Engines}
    (hq : Engines.start.Told h (h.EndsAt code anchor) digest q) : q.state.Level h code anchor :=
  (Pool.Later.keeps hq
    (fun c _ r _ hstep => ⟨⟨hstep.2.1, hstep.2.2⟩, exec_level hstep.1⟩)
    (fun _ _ => Bystanding.level) (fun _ => executeRun_scaled)
    (fun _ htask => by cases htask)
    ⟨Facts.Keyed.empty, fun _ _ hget => by cases hget⟩).1

/-- Whatever runs and windows stored the bars and the factors of a code, and in
whatever order, when no corporate action falls between the last dates of its
factor fetches a study gets prices with the ratios that one fetch over all the
windows would give. -/
theorem research_prices_consistent {h : PriceHistory} {code : String} {anchor : Date}
    {digest : IdempotencyKey → String} {q : Engines}
    (hq : Engines.start.Told h (h.EndsAt code anchor) digest q)
    {calendar : Calendar} {boundary : Stamp} {view : SecurityWindow}
    (hread : readCompleteSecurityWindow calendar code boundary q.state = .ok view)
    {start finish : Date} {received factors : List (Fetched AdjustmentFactor)}
    {other : ResearchPriceSeries} (hfetch : h.Reports code start finish received)
    (hfactors : factorsOn code received (barDates view.rawBars) = .ok factors)
    (hother : deriveForwardAdjustedPrices view.rawBars factors = .ok other) :
    SameRatios view.series other := by
  have hlevel := hq.level
  obtain ⟨hcode, hseries⟩ := readCompleteSecurityWindow_ok hread hlevel.keyed hlevel.factors
  obtain ⟨last, -, hscaled⟩ := hfetch.scaled
  have hunion : AdjustedBy (fun day => h.level code day / h.level code last) view.rawBars
      other := by
    refine deriveForwardAdjustedPrices_ok hother hcode fun f hf _ => ?_
    exact (hscaled f ((gather_byDate hfactors).1 f hf)).2.2
  refine (sameRatios_iff hseries hunion (fun day _ => ?_) fun day _ => ?_).mpr
    fun d _ e _ => ?_
  · exact (div_pos (h.positive code day) (h.positive code anchor)).ne'
  · exact (div_pos (h.positive code day) (h.positive code last)).ne'
  · rw [div_mul_div_comm, div_mul_div_comm, mul_comm (h.level code last)]

/-! ## Two windows -/

def windowDigest : IdempotencyKey → String
  | .intent => "intent"
  | .window .coldStart _ _ _ _ => "cold"
  | .window .catchUp _ _ _ _ => "catch"

def flatHistory : PriceHistory := ⟨fun _ _ => 1, fun _ _ => one_pos⟩

theorem flatHistory_endsAt (code : String) (anchor : Date) (c : EngineCall) :
    flatHistory.EndsAt code anchor c := by
  cases c with
  | fetchAdjustmentFactors other start finish => exact fun _ => rfl
  | _ => trivial

def bonusHistory : PriceHistory :=
  ⟨fun _ day => if day < 2 then 1 / 2 else 1, fun _ day => by
    split <;> norm_num⟩

def PriceHistory.fetch (h : PriceHistory) (code : String) (start finish : Date) :
    Attempt (List (Fetched AdjustmentFactor)) :=
  normalizeForwardFactors code
    ((([1, 2] : List Date).filter fun day => decide (start ≤ day ∧ day ≤ finish)).map
      fun day => (day, h.level code day)) "sina" sampleStamp sampleStamp "sina@1"

theorem PriceHistory.fetch_reports {start finish : Date}
    {received : List (Fetched AdjustmentFactor)} (hf : h.fetch code start finish = .ok received) :
    h.Reports code start finish received := by
  refine ⟨_, 1, "sina", sampleStamp, sampleStamp, "sina@1", one_pos, fun e he => ?_, hf⟩
  obtain ⟨day, hday, rfl⟩ := List.mem_map.mp he
  exact ⟨of_decide_eq_true (List.mem_filter.mp hday).2, (one_mul _).symm⟩

def windowBars : List (Fetched CanonicalDailyBar) := [
  ⟨⟨"600519", 1, 10, 10, 10, 10, 100, none, "tdx", sampleStamp, 1, sampleCode,
    by decide +kernel, by norm_num, by norm_num, noAmount_nonneg, by decide +kernel⟩, sampleStamp⟩,
  ⟨⟨"600519", 2, 5, 5, 5, 5, 100, none, "tdx", sampleStamp, 2, sampleCode,
    by decide +kernel, by norm_num, by norm_num, noAmount_nonneg, by decide +kernel⟩, sampleStamp⟩]

def PriceHistory.source (h : PriceHistory) : (c : EngineCall) → Except MarketError c.Answer
  | .fetchDailyBars _ start finish => .ok ⟨"tdx", windowBars.filter fun b =>
      decide (start ≤ b.content.tradeDate ∧ b.content.tradeDate ≤ finish)⟩
  | .absencesFor _ _ _ => .ok []
  | .fetchAdjustmentFactors code start finish => h.fetch code start finish
  | .clock => .ok none
  | .heartbeat _ => .ok ()
  | .afterCommit _ => .ok ()
  | _ => .error (valueError "not a source")

def PriceHistory.attend (h : PriceHistory) (c : EngineCall) (s : Store) :
    Except MarketError c.Answer × Store :=
  match c.perform s with
  | none => (h.source c, s)
  | some (.ok (a, t)) => (.ok a, t)
  | some (.error e) => (.error e, s)

theorem PriceHistory.attend_exec (h : PriceHistory) (c : EngineCall) (s : Store) :
    c.exec s (h.attend c s).1 (h.attend c s).2 := by
  rw [attend, EngineCall.exec]
  cases c.perform s with
  | none => rfl
  | some x =>
      cases x with
      | ok r => exact ⟨rfl, rfl⟩
      | error e => exact ⟨rfl, rfl⟩

theorem PriceHistory.attend_answers (h : PriceHistory) (c : EngineCall) (s : Store) :
    h.Answers c (h.attend c s).1 := by
  cases c with
  | fetchAdjustmentFactors code start finish =>
      have hsource : (h.attend (.fetchAdjustmentFactors code start finish) s).1
          = h.fetch code start finish := rfl
      rw [hsource]
      cases hfetch : h.fetch code start finish with
      | ok received => exact fetch_reports hfetch
      | error e => trivial
  | _ => trivial

def PriceHistory.ingest (h : PriceHistory) (calls : List Call) (runId : String) (day : Date)
    (s : Store) : Store :=
  (Proc.run h.attend (executeRun sampleJob.cfg runId "w" sampleStamp
    [day]) { s with control := callsAt windowDigest sampleStamp calls s.control }).2

def coldCalls : List Call := [
  .submitColdStart 1 1, .claimNextRequest "w", .createRun "one" "cold" sampleHash
    [sampleSecurity] none]

def catchCalls : List Call := [
  .submitCatchUp 2 2 none, .claimNextRequest "w", .createRun "two" "catch" sampleHash
    [sampleSecurity] none]

def PriceHistory.windows (h : PriceHistory) : Store :=
  h.ingest catchCalls "two" 2 (h.ingest coldCalls "one" 1 ⟨Control.empty, Facts.empty⟩)

def windowCalendar : Calendar :=
  ⟨Dict.ofList [("600519", ⟨some 0, none⟩)],
    Dict.ofList [(1, ⟨sampleHash, sampleStamp⟩), (2, ⟨sampleHash, sampleStamp⟩)]⟩

theorem callsAt_told {met : EngineCall → Prop} (calls : List Call) (s : Store)
    (tasks : List (Job × Engine Unit)) :
    Engines.Told h met windowDigest ⟨s, tasks⟩
      ⟨{ s with control := callsAt windowDigest sampleStamp calls s.control }, tasks⟩ := by
  induction calls generalizing s with
  | nil => exact .refl
  | cons call calls ih =>
      refine (ih { s with control := call.after windowDigest sampleStamp s.control }).head ?_
      exact PoolStep.other tasks (.control s call sampleStamp)

theorem PriceHistory.ingest_told {met : EngineCall → Prop} (hmet : ∀ c, met c) (calls : List Call)
    (runId : String) (day : Date) (s : Store) (tasks : List (Job × Engine Unit)) :
    ∃ tasks', Engines.Told h met windowDigest ⟨s, tasks⟩ ⟨h.ingest calls runId day s, tasks'⟩ := by
  let job : Job := ⟨sampleJob.cfg, runId, "w", sampleStamp, [day]⟩
  let t : Store := { s with control := callsAt windowDigest sampleStamp calls s.control }
  have halone : ∃ p', Engines.Told h met windowDigest ⟨t, tasks ++ [(job, job.program)]⟩
      ⟨(job.program.run h.attend t).2, tasks ++ [(job, p')]⟩ :=
    Pool.Later.alone (fun c s => ⟨h.attend_exec c s, h.attend_answers c s, hmet c⟩) tasks job
      job.program t
  obtain ⟨p', hrun⟩ := halone
  refine ⟨tasks ++ [(job, p')], ((callsAt_told calls s tasks).tail ?_).trans hrun⟩
  exact PoolStep.spawn _ tasks job

theorem PriceHistory.windows_told (h : PriceHistory) (met : EngineCall → Prop) (hmet : ∀ c, met c) :
    ∃ tasks, Engines.start.Told h met windowDigest ⟨h.windows, tasks⟩ := by
  obtain ⟨tasks, hcold⟩ := ingest_told hmet coldCalls "one" 1 ⟨Control.empty, Facts.empty⟩ []
  obtain ⟨tasks', hcatch⟩ := ingest_told hmet catchCalls "two" 2 _ tasks
  exact ⟨tasks', hcold.trans hcatch⟩

def PriceHistory.compare (h : PriceHistory) : Attempt Bool := do
  let view ← readCompleteSecurityWindow windowCalendar "600519" sampleStamp h.windows
  let received ← h.fetch "600519" 1 2
  let factors ← factorsOn "600519" received (barDates view.rawBars)
  let other ← deriveForwardAdjustedPrices view.rawBars factors
  pure (decide (SameRatios view.series other))

/-- A bonus issue between two windows of one day each. Both days are stored
with the factor one, so the raw jump from 10 to 5 stays in the research prices,
where one fetch over both days has none. -/
theorem research_prices_jump :
    ∃ (q : Engines) (view : SecurityWindow) (received factors : List (Fetched AdjustmentFactor))
      (other : ResearchPriceSeries),
      Engines.start.Told bonusHistory (fun _ => True) windowDigest q ∧
      readCompleteSecurityWindow windowCalendar "600519" sampleStamp q.state = .ok view ∧
      bonusHistory.Reports "600519" 1 2 received ∧
      factorsOn "600519" received (barDates view.rawBars) = .ok factors ∧
      deriveForwardAdjustedPrices view.rawBars factors = .ok other ∧
      ¬ SameRatios view.series other := by
  have hcompare : bonusHistory.compare = .ok false := by decide +kernel
  simp only [PriceHistory.compare, bind_ok, pure_ok] at hcompare
  obtain ⟨view, hread, received, hfetch, factors, hfactors, other, hother, hratios⟩ := hcompare
  obtain ⟨tasks, htold⟩ := bonusHistory.windows_told (fun _ => True) fun _ => trivial
  exact ⟨_, view, received, factors, other, htold, hread, PriceHistory.fetch_reports hfetch,
    hfactors, hother, of_decide_eq_false hratios⟩

/-- The same windows without the bonus issue. -/
theorem research_prices_consistent_flat :
    ∃ (view : SecurityWindow) (other : ResearchPriceSeries),
      readCompleteSecurityWindow windowCalendar "600519" sampleStamp flatHistory.windows
        = .ok view ∧
      SameRatios view.series other := by
  have hcompare : flatHistory.compare = .ok true := by decide +kernel
  simp only [PriceHistory.compare, bind_ok, pure_ok] at hcompare
  obtain ⟨view, hread, received, hfetch, factors, hfactors, other, hother, -⟩ := hcompare
  obtain ⟨tasks, htold⟩ := flatHistory.windows_told (flatHistory.EndsAt "600519" 1)
    (flatHistory_endsAt "600519" 1)
  exact ⟨view, other, hread, research_prices_consistent htold hread
    (PriceHistory.fetch_reports hfetch) hfactors hother⟩

end Ahunter.Market
