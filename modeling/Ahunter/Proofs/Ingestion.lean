import Ahunter.Proofs.Coverage

/-!
# What an engine may do

Between two calls of an engine the tables are anybody's, so it can only go by
what everybody keeps: windows stay, facts stay, and no bar is added without
its factor. The engine does its part of that, as it commits no bar without a
factor, and it ends an item as done only when the window of the item is
ready. Both are said of each call, in the state in which it is made.
-/

namespace Ahunter.Market

open Ahunter.Lib
open Ahunter.Sim (Date Stamp)

/-! ## Later states -/

/-- What every state of the tables satisfies. -/
structure Store.Sound (s : Store) : Prop where
  windowed : Windowed s.control
  keyed : s.facts.Keyed

/-- What may come after a sound state. -/
structure Store.Later (s t : Store) : Prop where
  sound : t.Sound
  windows : WindowsKept s.control t.control
  facts : Grown s.facts t.facts

instance : Preorder Store where
  le s t := s.Sound → s.Later t
  le_refl s hs := ⟨hs, WindowsKept.refl _, Grown.refl _⟩
  le_trans s t u hst htu hs :=
    have h := hst hs
    have h' := htu h.sound
    ⟨h'.sound, h.windows.trans h'.windows, h.facts.trans h'.facts⟩

def Checkable (known : List Date) (item : ItemRow) (sessions : List Date) : Prop :=
  sessions = known ∨ (sessions ≠ [] ∧ sessions.Pairwise (· < ·) ∧
    ∀ day ∈ sessions, item.startDate ≤ day → day ≤ item.endDate → day ∈ known)

def Ready (known : List Date) (runId code : String) (s : Store) : Prop :=
  ∃ item security, s.control.items.get? (itemKey (strip runId) code) = some item ∧
    s.control.securities.get? (itemKey (strip runId) code) = some security ∧
    ∀ sessions, Checkable known item sessions →
      (securityReadiness security sessions item.startDate item.endDate s.facts).ready = true

def May (known : List Date) (c : EngineCall) (s : Store) : Prop :=
  match c with
  | .markItem runId code status _ _ => status.done = true → s.Sound → Ready known runId code s
  | .commitSecurityObservations bars factors _ =>
      ∀ b ∈ bars, ∃ f ∈ factors, f.content.key = b.content.key
  | _ => True

/-! ## What calls do -/

variable {c : EngineCall}

theorem exec_ok {s t : Store} {a : c.Answer}
    (h : c.exec s (.ok a) t) {x : Attempt (c.Answer × Store)} (hx : c.perform s = some x) :
    x = .ok (a, t) := by
  rw [EngineCall.exec, hx] at h
  split at h
  · next y hy => cases hy
  · next b u hb =>
      cases hb
      obtain ⟨ha, rfl⟩ := h
      cases ha
      rfl
  · next e he =>
      cases h.1

variable {r : Except MarketError c.Answer}

theorem exec_cases {s t : Store}
    (h : c.exec s r t) : t = s ∨ ∃ a, c.perform s = some (.ok (a, t)) := by
  rw [EngineCall.exec] at h
  split at h
  · exact Or.inl h
  · next a u hp =>
      obtain ⟨-, rfl⟩ := h
      exact Or.inr ⟨a, hp⟩
  · exact Or.inl h.2

theorem Store.le_control {s : Store} {control : Control} (h : SameWindows s.control control) :
    s ≤ { s with control := control } := fun hs =>
  ⟨⟨h.windowed hs.windowed, hs.keyed⟩, h.kept, Grown.refl _⟩

theorem Store.le_facts {s : Store} {facts : Facts} (hgrown : Grown s.facts facts)
    (hkeyed : s.facts.Keyed → facts.Keyed) : s ≤ { s with facts := facts } := fun hs =>
  ⟨⟨hs.windowed, hkeyed hs.keyed⟩, WindowsKept.refl _, hgrown⟩

theorem exec_le {known : List Date} {s t : Store}
    (hmay : May known c s) (h : c.exec s r t) : s ≤ t := by
  rcases exec_cases h with rfl | ⟨a, ha⟩
  · exact le_rfl
  cases c with
  | run runId =>
      simp only [EngineCall.perform, Option.some.injEq, bind_ok, pure_ok] at ha
      obtain ⟨_, -, -, rfl⟩ := ha
      exact le_rfl
  | startRun runId now =>
      simp only [EngineCall.perform, Option.some.injEq, bind_ok, pure_ok] at ha
      obtain ⟨⟨u, control⟩, hstart, row, -, -, rfl⟩ := ha
      exact Store.le_control ((startRun_frames now s.control runId).same u control hstart)
  | runSecurities runId =>
      simp only [EngineCall.perform, Option.some.injEq, bind_ok, pure_ok] at ha
      obtain ⟨_, -, -, rfl⟩ := ha
      exact le_rfl
  | item runId code =>
      simp only [EngineCall.perform, Option.some.injEq, bind_ok, pure_ok] at ha
      obtain ⟨_, -, -, rfl⟩ := ha
      exact le_rfl
  | claimItem runId code owner now leaseSeconds =>
      simp only [EngineCall.perform, Option.some.injEq, bind_ok, pure_ok] at ha
      obtain ⟨⟨u, control⟩, hclaim, -, rfl⟩ := ha
      exact Store.le_control
        ((claimItem_frames now s.control runId code owner leaseSeconds).same u control hclaim)
  | renewItemClaim runId code owner now leaseSeconds =>
      simp only [EngineCall.perform, Option.some.injEq, bind_ok, pure_ok] at ha
      obtain ⟨⟨u, control⟩, hrenew, -, rfl⟩ := ha
      exact Store.le_control ((renewItemClaim_frames now s.control runId code owner
        leaseSeconds).same u control hrenew)
  | markItem runId code status now source =>
      simp only [EngineCall.perform, Option.some.injEq, bind_ok, pure_ok] at ha
      obtain ⟨⟨u, control⟩, hmark, -, rfl⟩ := ha
      exact Store.le_control
        ((markItem_frames now s.control runId code status source).same u control hmark)
  | finalizeRun runId now =>
      simp only [EngineCall.perform, Option.some.injEq, bind_ok, pure_ok] at ha
      obtain ⟨⟨u, control⟩, hfinal, -, rfl⟩ := ha
      exact Store.le_control ((finalizeRun_frames now s.control runId).same u control hfinal)
  | coveredDates code start finish =>
      cases ha
      exact le_rfl
  | barsFor code start finish =>
      cases ha
      exact le_rfl
  | factorDates code start finish =>
      cases ha
      exact le_rfl
  | commitSecurityObservations bars factors absences =>
      simp only [EngineCall.perform, Option.some.injEq, bind_ok, pure_ok] at ha
      obtain ⟨⟨result, facts⟩, hcommit, -, rfl⟩ := ha
      refine Store.le_facts ((commit_wrote hcommit).grown fun k hk => ?_) (commit_keyed hcommit)
      obtain ⟨b, hb, rfl⟩ := List.mem_map.mp hk
      obtain ⟨f, hf, hkey⟩ := hmay b hb
      exact hkey ▸ List.mem_map_of_mem hf
  | fetchDailyBars code start finish => cases ha
  | absencesFor code sessions now => cases ha
  | fetchAdjustmentFactors code start finish => cases ha
  | clock => cases ha
  | heartbeat owner => cases ha
  | afterCommit code => cases ha

/-! ## The small programs -/

abbrev Works {α : Type} (known : List Date) (Q : α → Store → Prop) (p : Engine α)
    (s : Store) : Prop :=
  Lib.Safe EngineCall.exec (May known) Q (fun _ _ => True) p s

section Small

variable {known : List Date} {s : Store} {cfg : EngineConfig} {runId code owner : String}
  {now : Stamp} {c : EngineCall}

theorem Works.ask (h : ∀ t, May known c t) : Works known (fun _ _ => True) (Proc.ask c) s :=
  Safe.ask (fun t _ => h t) (fun _ _ _ _ _ _ _ _ => trivial) fun _ _ _ => trivial

theorem Works.lift {α : Type} (x : Attempt α) :
    Works known (fun a _ => x = .ok a) (Proc.lift x) s :=
  Safe.lift (fun _ ha _ _ => ha) fun _ _ _ => trivial

theorem Works.read {x : Store → c.Answer}
    (hmay : ∀ t, May known c t) (hx : ∀ t, c.perform t = some (pure (x t, t))) :
    Works known (fun a u => ∃ t, s ≤ t ∧ t ≤ u ∧ a = x t) (Proc.ask c) s := by
  refine Safe.ask (fun t _ => hmay t) (fun a t u hst hexec htu v huv => ?_) fun _ _ _ => trivial
  have h := exec_ok hexec (hx t)
  cases h
  exact ⟨t, hst, huv, rfl⟩

theorem Works.query {x : Store → Attempt c.Answer} (hmay : ∀ t, May known c t)
    (hx : ∀ t, c.perform t = some (x t >>= fun a => pure (a, t))) :
    Works known (fun a u => ∃ t, s ≤ t ∧ t ≤ u ∧ x t = .ok a) (Proc.ask c) s := by
  refine Safe.ask (fun t _ => hmay t) (fun a t u hst hexec htu v huv => ?_) fun _ _ _ => trivial
  obtain ⟨b, hb, hpair⟩ := bind_ok.mp (exec_ok hexec (hx t))
  cases hpair
  exact ⟨t, hst, huv, hb⟩

theorem workNow_works : Works known (fun _ _ => True) (workNow cfg now) s := by
  refine Safe.ite (fun _ => ?_) fun _ => Safe.done fun _ _ => trivial
  refine (Works.ask (c := EngineCall.clock) fun _ => trivial).bind fun moment t _ _ => ?_
  exact (Works.lift _).weaken (fun _ _ _ _ => trivial) fun _ _ _ _ => trivial

theorem beat_works : Works known (fun _ _ => True) (beat cfg owner) s :=
  Safe.ite (fun _ => Works.ask (c := EngineCall.heartbeat owner) fun _ => trivial) fun _ => Safe.done fun _ _ => trivial

theorem notify_works : Works known (fun _ _ => True) (notify cfg code) s :=
  Safe.ite (fun _ => Works.ask (c := EngineCall.afterCommit code) fun _ => trivial) fun _ =>
    Safe.done fun _ _ => trivial

theorem renewWorkLease_works :
    Works known (fun _ _ => True) (renewWorkLease cfg runId code owner now) s := by
  refine workNow_works.bind fun moment t _ _ => ?_
  refine beat_works.bind fun _ t _ _ => ?_
  refine (Works.ask (c := EngineCall.renewItemClaim runId code owner moment
    cfg.itemLeaseSeconds) fun _ => trivial).bind fun renewed t _ _ => ?_
  exact (Works.lift _).weaken (fun _ _ _ _ => trivial) fun _ _ _ _ => trivial

theorem mark_works {status : ItemStatus} {source : Option String}
    (h : ∀ t, s ≤ t → status.done = true → t.Sound → Ready known runId code t) :
    Works known (fun _ _ => True) (mark cfg runId code now status source) s := by
  refine workNow_works.bind fun moment t hst _ => ?_
  refine Safe.ask (fun u htu => ?_) (fun _ _ _ _ _ _ _ _ => trivial) fun _ _ _ => trivial
  exact fun hdone hu => h u (hst.trans htu) hdone hu

end Small

/-! ## What the sources return -/

theorem selectExpectedBars_code {bars selected : List (Fetched CanonicalDailyBar)}
    {code : String} {expected missing : List Date}
    (h : selectExpectedBars bars code expected missing = .ok selected) :
    ∀ b ∈ selected, b.content.code = code := by
  simp only [selectExpectedBars, bind_ok, pure_ok] at h
  obtain ⟨seen, hwalk, rfl⟩ := h
  intro b hb
  rw [sortedFacts, List.mem_mergeSort, List.mem_filter] at hb
  obtain ⟨c, c', hone⟩ := walk_mem hwalk hb.1
  simp only [checkBar, bind_ok, refuse_ok, not_not] at hone
  obtain ⟨-, hcode, -⟩ := hone
  exact hcode

theorem validateAbsences_code {absences sorted : List (Fetched MarketAbsence)}
    {code : String} {unresolved : List Date}
    (h : validateAbsences absences code unresolved = .ok sorted) :
    ∀ a ∈ sorted, a.content.code = code := by
  simp only [validateAbsences, bind_ok, pure_ok] at h
  obtain ⟨seen, hwalk, rfl⟩ := h
  intro a ha
  rw [sortedFacts, List.mem_mergeSort] at ha
  obtain ⟨c, c', hone⟩ := walk_mem hwalk ha
  simp only [checkAbsence, bind_ok, refuse_ok, not_or, not_not] at hone
  obtain ⟨-, hcode, -⟩ := hone
  exact hcode.1

theorem factorsByDate_key {code : String} {received : List (Fetched AdjustmentFactor)}
    {day : Date} {f : Fetched AdjustmentFactor}
    (h : (factorsByDate code received).get? day = some f) : f.content.key = factKey code day := by
  obtain ⟨g, hg, heq⟩ := List.mem_map.mp (Dict.get?_ofList h)
  cases heq
  rw [AdjustmentFactor.key, of_decide_eq_true (List.mem_filter.mp hg).2]

variable {received factors : List (Fetched AdjustmentFactor)}

theorem matchFactors_key {code : String} {bars : List (Fetched CanonicalDailyBar)}
    (h : matchFactors code bars received = .ok factors)
    (hcode : ∀ b ∈ bars, b.content.code = code) :
    ∀ b ∈ bars, ∃ f ∈ factors, f.content.key = b.content.key := by
  simp only [matchFactors, bind_ok] at h
  obtain ⟨-, -, hgather⟩ := h
  intro b hb
  obtain ⟨f, hf, hget⟩ := gather_mem hgather hb
  refine ⟨f, hf, ?_⟩
  rw [factorsByDate_key (need_ok.mp hget), CanonicalDailyBar.key, hcode b hb]

theorem factorsOn_key {code : String}
    {dates : List Date} (h : factorsOn code received dates = .ok factors) :
    ∀ day ∈ dates, ∃ f ∈ factors, f.content.key = factKey code day := by
  intro day hday
  obtain ⟨f, hf, hget⟩ := gather_mem h hday
  exact ⟨f, hf, factorsByDate_key (need_ok.mp hget)⟩

theorem mem_sortedDates {dates : List Date} {day : Date} :
    day ∈ sortedDates dates ↔ day ∈ dates := by
  rw [sortedDates, Finset.mem_sort, List.mem_toFinset]

/-! ## Fetching -/

section Fetching

variable {known : List Date} {s : Store} {cfg : EngineConfig} {runId code owner : String}
  {now : Stamp}

theorem fetchFactors_works {bars : List (Fetched CanonicalDailyBar)}
    (hcode : ∀ b ∈ bars, b.content.code = code) :
    Works known (fun factors _ => ∀ b ∈ bars, ∃ f ∈ factors, f.content.key = b.content.key)
      (fetchFactors code bars) s := by
  rw [fetchFactors]
  split
  · next first last hfirst hlast =>
    refine (Works.ask (c := EngineCall.fetchAdjustmentFactors code first.content.tradeDate
      last.content.tradeDate) fun _ => trivial).bind fun received t _ _ => ?_
    exact (Works.lift _).weaken (fun factors _ _ h => matchFactors_key h hcode)
      fun _ _ _ _ => trivial
  · next hnone =>
      refine Safe.done fun t _ b hb => ?_
      obtain ⟨first, last, hfirst, hlast⟩ := ends_of_mem hb
      exact absurd hlast (hnone first last hfirst)

theorem commit_works (bars : List (Fetched CanonicalDailyBar))
    {factors : List (Fetched AdjustmentFactor)} (absences : List (Fetched MarketAbsence))
    (hs : s.Sound) (hbacked : ∀ b ∈ bars, ∃ f ∈ factors, f.content.key = b.content.key) :
    Works known (fun _ t => (∀ b ∈ bars, t.facts.bars.contains b.content.key = true) ∧
        (∀ a ∈ absences, t.facts.absences.contains a.content.key = true) ∧
        ∀ f ∈ factors, t.facts.factors.contains f.content.key = true)
      (Ask.commitSecurityObservations bars factors absences) s := by
  refine Safe.ask (fun _ _ => hbacked) (fun result t u hst hexec htu v huv => ?_)
    fun _ _ _ => trivial
  have hperform := exec_ok hexec rfl
  simp only [bind_ok, pure_ok] at hperform
  obtain ⟨⟨r, facts⟩, hcommit, hpair⟩ := hperform
  cases hpair
  have hwrote := commit_wrote hcommit
  have hlater := (huv (htu (hst hs).sound).sound).facts
  refine ⟨fun b hb => hlater.bars _ ((hwrote.bars _).mpr (Or.inr (List.mem_map_of_mem hb))),
    fun a ha => hlater.absences _ ((hwrote.absences _).mpr (Or.inr (List.mem_map_of_mem ha))),
    fun f hf => hlater.factors _ ((hwrote.factors _).mpr (Or.inr (List.mem_map_of_mem hf)))⟩

theorem fetchMissing_works {expected missing : List Date} {first last : Date} (hs : s.Sound) :
    Works known (fun r t => ∀ source, r = .complete source →
        ∀ day ∈ missing, t.facts.Covered code day)
      (fetchMissing cfg runId owner now code expected missing first last) s := by
  refine renewWorkLease_works.bind fun _ t h1 _ => ?_
  refine (Works.ask (c := EngineCall.fetchDailyBars code first last) fun _ => trivial).bind
    fun observation t h2 _ => ?_
  refine (Works.lift _).bind fun bars t h3 hbars => ?_
  refine renewWorkLease_works.bind fun _ t h4 _ => ?_
  refine workNow_works.bind fun moment t h5 _ => ?_
  refine (Works.ask (c := EngineCall.absencesFor code _ moment) fun _ => trivial).bind
    fun reported t h6 _ => ?_
  refine (Works.lift _).bind fun absences t h7 habsences => ?_
  refine renewWorkLease_works.bind fun _ t h8 _ => ?_
  refine workNow_works.bind fun _ t h9 _ => ?_
  have hcode := selectExpectedBars_code hbars
  have habsent := validateAbsences_code habsences
  refine (fetchFactors_works hcode).bind fun factors t h10 hfactors => ?_
  have hle : s ≤ t := ((((((((h1.trans h2).trans h3).trans h4).trans h5).trans h6).trans
    h7).trans h8).trans h9).trans h10
  refine (commit_works bars absences (hle hs).sound hfactors).bind
    fun result u htu hstored => ?_
  obtain ⟨htraded, hsuspended, -⟩ := hstored
  have hu : u.Sound := (hle.trans htu hs).sound
  refine Safe.ite (fun _ => Safe.done fun _ _ source h => by cases h) fun _ => ?_
  refine notify_works.bind fun _ v huv _ => ?_
  refine Safe.ite (fun hresolved => ?_) fun _ => Safe.done fun _ _ source h => by cases h
  refine Safe.done fun w hvw source _ day hday => ?_
  have hgrown := (huv.trans hvw hu).facts
  rw [List.filter_eq_nil_iff] at hresolved
  by_cases hreceived : day ∈ bars.map fun b => b.content.tradeDate
  · obtain ⟨b, hb, rfl⟩ := List.mem_map.mp hreceived
    have hkey := hgrown.bars _ (htraded b hb)
    rw [CanonicalDailyBar.key, hcode b hb] at hkey
    exact Or.inl hkey
  · have hmem := hresolved day (List.mem_filter.mpr ⟨hday, decide_eq_true hreceived⟩)
    rw [decide_eq_true_eq, not_not] at hmem
    obtain ⟨a, ha, rfl⟩ := List.mem_map.mp hmem
    have hkey := hgrown.absences _ (hsuspended a ha)
    rw [MarketAbsence.key, habsent a ha] at hkey
    exact Or.inr hkey

theorem ensureFactorCoverage_works {first last : Date} (hs : s.Sound) :
    Works known (fun r t => r = none → ∀ day, first ≤ day → day ≤ last →
        t.facts.bars.contains (factKey code day) = true →
          t.facts.factors.contains (factKey code day) = true)
      (ensureFactorCoverage cfg runId code owner now first last) s := by
  refine (Works.read (c := EngineCall.barsFor code first last) (fun _ => trivial)
    fun _ => rfl).bind fun rawBars t hst hread => ?_
  obtain ⟨t0, hst0, ht0t, rfl⟩ := hread
  have ht0 : t0.Sound := (hst0 hs).sound
  -- A bar that a later state has is one of those read, or came with a factor.
  have hlater : ∀ u, t0 ≤ u → (∀ day ∈ (barsFor code first last t0.facts).map
        (fun b => b.content.tradeDate), u.facts.factors.contains (factKey code day) = true) →
      ∀ day, first ≤ day → day ≤ last → u.facts.bars.contains (factKey code day) = true →
        u.facts.factors.contains (factKey code day) = true := by
    intro u hu hfactored day hfirst hlast hbar
    rcases (hu ht0).facts.fresh _ hbar with hold | hfactor
    · exact hfactored day ((mem_barDates ht0.keyed).mpr ⟨hold, hfirst, hlast⟩)
    · exact hfactor
  refine Safe.ite (fun hnil => ?_) fun _ => ?_
  · refine Safe.done fun u htu _ => hlater u (ht0t.trans htu) fun day hday => ?_
    rw [hnil] at hday
    cases hday
  refine (Works.read (c := EngineCall.factorDates code first last) (fun _ => trivial)
    fun _ => rfl).bind fun existing u htu hread => ?_
  obtain ⟨u0, htu0, hu0u, rfl⟩ := hread
  -- What is not missing had its factor when the factors were read.
  have hexisting : ∀ v, u ≤ v → ∀ day, day ∈ factorDates code first last u0.facts →
      v.facts.factors.contains (factKey code day) = true := by
    intro v huv day hday
    have hu0 : u0.Sound := (ht0t.trans htu0 ht0).sound
    exact (hu0u.trans huv hu0).facts.factors _ (mem_factorDates.mp hday).1
  have hle : ∀ v, u ≤ v → t0 ≤ v := fun v huv => (ht0t.trans htu).trans huv
  dsimp only
  split
  · next start finish hstart hfinish =>
      refine (Safe.attempt (P := fun _ _ => True) ?_).bind fun received v huv _ => ?_
      · refine renewWorkLease_works.bind fun _ v _ _ => ?_
        exact Works.ask (c := EngineCall.fetchAdjustmentFactors code start finish)
          fun _ => trivial
      · split
        · exact Safe.done fun _ _ h => by cases h
        · next factors hfactors =>
            obtain ⟨answered, -, hon⟩ := bind_ok.mp hfactors
            have hv : v.Sound := (hle v huv ht0).sound
            refine (commit_works [] [] hv (by simp)).bind
              fun _ w hvw hstored => ?_
            refine Safe.done fun x hwx _ => hlater x (hle x ((huv.trans hvw).trans hwx))
              fun day hday => ?_
            by_cases hmissing : day ∈ factorDates code first last u0.facts
            · exact hexisting x ((huv.trans hvw).trans hwx) day hmissing
            · obtain ⟨f, hf, hkey⟩ := factorsOn_key hon day (mem_sortedDates.mpr
                (List.mem_filter.mpr ⟨hday, decide_eq_true hmissing⟩))
              rw [← hkey]
              exact (hwx ((hvw hv).sound)).facts.factors _ (hstored.2.2 f hf)
  · next hnone =>
      refine Safe.done fun v huv _ => hlater v (hle v huv) fun day hday => ?_
      by_cases hmissing : day ∈ factorDates code first last u0.facts
      · exact hexisting v huv day hmissing
      · exfalso
        have hmem : day ∈ sortedDates (((barsFor code first last t0.facts).map
            fun b => b.content.tradeDate).filter
              fun day => decide (day ∉ factorDates code first last u0.facts)) :=
          mem_sortedDates.mpr (List.mem_filter.mpr ⟨hday, decide_eq_true hmissing⟩)
        obtain ⟨a, b, ha, hb⟩ := ends_of_mem hmem
        exact hnone a b ha hb

end Fetching

/-! ## One security -/

section Security

variable {known : List Date} {s : Store} {cfg : EngineConfig} {runId code owner : String}
  {now : Stamp} {expected : List Date} {security : RunSecurity} {first last : Date}

theorem finishItem_works {source : Option String} (hs : s.Sound)
    (hcovered : ∀ day ∈ expected, s.facts.Covered code day)
    (hready : ∀ t, s ≤ t → t.Sound → Backed code expected first last t.facts →
      Ready known runId code t) :
    Works known (fun _ _ => True) (finishItem cfg runId owner now code expected first last source)
      s := by
  refine (ensureFactorCoverage_works hs).bind fun factorStatus t hst hfactored => ?_
  cases factorStatus with
  | some e =>
      refine (mark_works fun _ _ h => by cases h).bind fun _ u _ _ => ?_
      exact Safe.done fun _ _ => trivial
  | none =>
      refine Safe.bind (P := fun _ _ => True) (mark_works fun u htu _ hu => ?_) fun _ v _ _ =>
        Safe.done fun _ _ => trivial
      have hgrown := (hst.trans htu hs).facts
      have hbacked : Backed code expected first last t.facts :=
        ⟨fun day hday => (hst hs).facts.covered (hcovered day hday), hfactored rfl⟩
      exact hready u (hst.trans htu) hu (hbacked.grown (htu (hst hs).sound).facts)

theorem concludeItem_works {coveredBefore : ℕ} {fetching : Fetching} (hs : s.Sound)
    (hcovered : ∀ source, fetching = .complete source → ∀ day ∈ expected, s.facts.Covered code day)
    (hready : ∀ t, s ≤ t → t.Sound → Backed code expected first last t.facts →
      Ready known runId code t) :
    Works known (fun _ _ => True)
      (concludeItem cfg runId owner now code expected first last coveredBefore fetching) s := by
  cases fetching with
  | conflicted source =>
      refine Safe.bind (P := fun _ _ => True) (mark_works fun _ _ h => by cases h) ?_
      exact fun _ _ _ _ => Safe.done fun _ _ => trivial
  | unresolved source count =>
      refine Safe.bind (P := fun _ _ => True) (mark_works fun _ _ h => by cases h) ?_
      exact fun _ _ _ _ => Safe.done fun _ _ => trivial
  | complete source => exact finishItem_works hs (hcovered source rfl) hready

theorem fetchAll_works {missing : List Date} (hs : s.Sound) :
    Works known (fun r t => ∀ source, r = .complete source →
        ∀ day ∈ missing, t.facts.Covered code day)
      (fetchAll cfg runId owner now code expected missing) s := by
  rw [fetchAll]
  split
  · exact fetchMissing_works hs
  · next hnone =>
      refine Safe.done fun t _ source _ day hday => ?_
      obtain ⟨a, b, ha, hb⟩ := ends_of_mem hday
      exact absurd hb (hnone a b ha)

theorem ingestExpected_works (hs : s.Sound)
    (hready : ∀ t, s ≤ t → t.Sound → Backed code expected first last t.facts →
      Ready known runId code t) :
    Works known (fun _ _ => True) (ingestExpected cfg runId owner now code expected first last)
      s := by
  refine (Works.read (c := EngineCall.coveredDates code first last) (fun _ => trivial)
    fun _ => rfl).bind fun covered t hst hread => ?_
  obtain ⟨t0, hst0, ht0t, rfl⟩ := hread
  refine (fetchAll_works (hst hs).sound).bind fun fetching u htu hcomplete => ?_
  have hsu : s ≤ u := hst.trans htu
  refine concludeItem_works (hsu hs).sound (fun source hsource day hday => ?_)
    fun v huv => hready v (hsu.trans huv)
  by_cases hmissing : day ∈ coveredDates code first last t0.facts
  · have hgrown := (ht0t.trans htu (hst0 hs).sound).facts
    exact hgrown.covered (mem_coveredDates.mp hmissing).1
  · exact hcomplete source hsource day
      (List.mem_filter.mpr ⟨hday, decide_eq_true hmissing⟩)

def FrozenWith (runId : String) (security : RunSecurity) (s : Store) : Prop :=
  s.control.securities.get? (itemKey (strip runId) security.code) = some security

theorem ready_of_window {run : RunRow} {item : ItemRow} (hs : s.Sound) (hne : known ≠ [])
    (hsorted : known.Pairwise (· < ·)) (hfrozen : FrozenWith runId security s)
    (hrun : ∃ row, s.control.runs.get? (strip runId) = some row ∧ row.window = run.window)
    (hitem : ∃ row, s.control.items.get? (itemKey (strip runId) security.code) = some row ∧
      row.window = item.window) {t : Store} (hst : s ≤ t) (ht : t.Sound)
    (hbacked : ∀ first last,
      (expectedSessions security known (max run.startDate item.startDate)
        (min run.endDate item.endDate)).head? = some first →
      (expectedSessions security known (max run.startDate item.startDate)
        (min run.endDate item.endDate)).getLast? = some last →
      Backed security.code (expectedSessions security known
        (max run.startDate item.startDate) (min run.endDate item.endDate)) first last t.facts) :
    Ready known runId security.code t := by
  have hkept := (hst hs).windows
  obtain ⟨row, hrow, hrowWindow⟩ := hitem
  obtain ⟨row', hrow', hrowWindow'⟩ := hkept.items _ row hrow
  obtain ⟨runRow, hrunRow, hrunWindow⟩ := hrun
  obtain ⟨runRow', hrunRow', hle, hge⟩ := hs.windowed.within _ row hrow
  cases hrunRow'.symm.trans hrunRow
  have hwindow := hrowWindow'.trans hrowWindow
  simp only [ItemRow.window, RunRow.window, Prod.mk.injEq] at hwindow hrunWindow hrowWindow
  rw [hrunWindow.1, hrowWindow.1] at hle
  rw [hrunWindow.2, hrowWindow.2] at hge
  rw [max_eq_right hle, min_eq_right hge, ← hwindow.1, ← hwindow.2] at hbacked
  refine ⟨row', security, hrow', hkept.securities _ security hfrozen, fun sessions h => ?_⟩
  rcases h with rfl | ⟨hneSessions, hsortedSessions, hknown⟩
  · exact ready_of_backed ht.keyed hne hsorted (fun _ hday _ _ => hday) hsorted hbacked
  · exact ready_of_backed ht.keyed hneSessions hsortedSessions hknown hsorted hbacked

theorem readRun_ok {runId : String} {c : Control} {run : RunRow} (h : readRun runId c = .ok run) :
    c.runs.get? (strip runId) = some run := by
  simp only [readRun, bind_ok, requireText_ok, need_ok] at h
  obtain ⟨_, ⟨-, rfl⟩, hrun⟩ := h
  exact hrun

theorem readItem_ok {runId code : String} {c : Control} {item : ItemRow}
    (h : readItem runId code c = .ok item) :
    c.items.get? (itemKey (strip runId) code) = some item := by
  simp only [readItem, bind_ok, requireText_ok, need_ok] at h
  obtain ⟨_, ⟨-, rfl⟩, hitem⟩ := h
  exact hitem

theorem runSecurities_ok {runId : String} {c : Control} {securities : List RunSecurity}
    (h : runSecurities runId c = .ok securities) (hw : Windowed c) :
    ∀ security ∈ securities,
      c.securities.get? (itemKey (strip runId) security.code) = some security := by
  simp only [runSecurities, bind_ok, requireText_ok, pure_ok] at h
  obtain ⟨_, ⟨-, rfl⟩, rfl⟩ := h
  intro security hsecurity
  obtain ⟨⟨k, row⟩, hmem, rfl⟩ := List.mem_map.mp hsecurity
  obtain ⟨hentry, hrun⟩ := List.mem_filter.mp hmem
  have hget := Dict.mem_entries.mp hentry
  rw [← of_decide_eq_true hrun, ← hw.coded k row hget]
  exact hget

theorem FrozenWith.later {t : Store} (h : FrozenWith runId security s) (hs : s.Sound)
    (hst : s ≤ t) : FrozenWith runId security t :=
  (hst hs).windows.securities _ security h

theorem ingestSecurityInterval_works (hs : s.Sound) (hne : known ≠ [])
    (hsorted : known.Pairwise (· < ·)) (hfrozen : FrozenWith runId security s) :
    Works known (fun _ _ => True)
      (ingestSecurityInterval cfg runId owner now security known) s := by
  refine workNow_works.bind fun claimNow t h1 _ => ?_
  refine (Works.ask (c := EngineCall.claimItem runId security.code owner claimNow
    cfg.itemLeaseSeconds) fun _ => trivial).bind fun (claimed : Bool) t h2 _ => ?_
  refine Safe.ite (fun _ => ?_) fun _ => ?_
  · refine (Works.ask (c := EngineCall.item runId security.code) fun _ => trivial).bind ?_
    exact fun _ _ _ _ => Safe.done fun _ _ => trivial
  refine (Works.query (c := EngineCall.run runId) (x := fun t => readRun runId t.control)
    (fun _ => trivial) fun _ => rfl).bind fun run t3 h3 hrun => ?_
  obtain ⟨t0, ht0, ht03, hrun⟩ := hrun
  refine (Works.query (c := EngineCall.item runId security.code)
    (x := fun t => readItem runId security.code t.control) (fun _ => trivial)
    fun _ => rfl).bind fun item t4 h4 hitem => ?_
  obtain ⟨t0', ht0', ht04, hitem⟩ := hitem
  have hle : s ≤ t4 := ((h1.trans h2).trans h3).trans h4
  have h0 : t0.Sound := ((h1.trans h2).trans ht0 hs).sound
  have h0' : t0'.Sound := (((h1.trans h2).trans h3).trans ht0' hs).sound
  have h4s : t4.Sound := (hle hs).sound
  -- What was read of the run and the item still holds of their windows.
  have hrow := (ht03.trans h4 h0).windows.runs _ run (readRun_ok hrun)
  have hrow' := (ht04 h0').windows.items _ item (readItem_ok hitem)
  have hready := fun {t : Store} => @ready_of_window known t4 runId security run item h4s hne hsorted
    (hfrozen.later hs hle) hrow hrow' t
  dsimp only
  split
  · next first last hfirst hlast =>
      refine Safe.handle (P := fun _ _ => True) (ingestExpected_works h4s
        fun t h4t ht hbacked => hready h4t ht fun a b ha hb => ?_) fun e t h4t _ => ?_
      · cases hfirst.symm.trans ha
        cases hlast.symm.trans hb
        exact hbacked
      · refine Safe.ite (fun _ => ?_) fun _ => Safe.fail fun _ _ => trivial
        refine Safe.bind (P := fun _ _ => True) (mark_works fun _ _ h => by cases h) ?_
        exact fun _ _ _ _ => Safe.done fun _ _ => trivial
  · next hnone =>
      refine Safe.bind (P := fun _ _ => True) (mark_works fun t h4t _ ht => ?_) ?_
      · exact hready h4t ht fun a b ha hb => absurd hb (hnone a b ha)
      · exact fun _ _ _ _ => Safe.done fun _ _ => trivial

theorem ingestNext_works (hs : s.Sound) (hne : known ≠ []) (hsorted : known.Pairwise (· < ·))
    (hfrozen : FrozenWith runId security s) :
    Works known (fun _ _ => True) (ingestNext cfg runId owner now known security) s := by
  refine beat_works.bind fun _ t h1 _ => ?_
  refine (Works.ask (c := EngineCall.item runId security.code) fun _ => trivial).bind
    fun item t h2 _ => ?_
  refine Safe.ite (fun _ => Safe.done fun _ _ => trivial) fun _ => ?_
  have hst := h1.trans h2
  refine (ingestSecurityInterval_works (hst hs).sound hne hsorted (hfrozen.later hs hst)).bind ?_
  exact fun _ _ _ _ => beat_works

theorem validateSessions_ok {sessions valid : List Date} {start finish : Date}
    (h : validateSessions sessions start finish = .ok valid) :
    valid = sessions ∧ sessions ≠ [] ∧ sessions.Pairwise (· < ·) := by
  simp only [validateSessions, bind_ok, refuse_ok, not_not, pure_ok] at h
  obtain ⟨-, hne, -, hsorted, -, -, rfl⟩ := h
  exact ⟨rfl, hne, hsorted⟩

theorem executeRun_works {sessions : List Date} (hs : s.Sound) :
    Works sessions (fun _ _ => True) (executeRun cfg runId owner now sessions) s := by
  refine (Works.ask (c := EngineCall.run runId) fun _ => trivial).bind fun run t h1 _ => ?_
  refine Safe.bind (P := fun _ _ => True) (Safe.ite (fun _ => ?_) fun _ =>
    Safe.done fun _ _ => trivial) fun run t h2 _ => ?_
  · refine workNow_works.bind fun moment t _ _ => ?_
    exact Works.ask (c := EngineCall.startRun runId moment) fun _ => trivial
  refine (Works.lift _).bind fun _ t h3 _ => ?_
  refine (Works.lift _).bind fun valid t h4 hvalid => ?_
  obtain ⟨rfl, hne, hsorted⟩ := validateSessions_ok hvalid
  refine (Works.query (c := EngineCall.runSecurities runId)
    (x := fun t => runSecurities runId t.control) (fun _ => trivial)
    fun _ => rfl).bind fun securities t h5 hread => ?_
  obtain ⟨t0, ht0, ht05, hread⟩ := hread
  have h0 : t0.Sound := ((((h1.trans h2).trans h3).trans h4).trans ht0 hs).sound
  have hfrozen := runSecurities_ok hread h0.windowed
  refine Safe.bind (P := fun _ _ => True) (Safe.each fun security hmem u htu => ?_)
    fun _ u _ _ => ?_
  · have h0u := ht05.trans htu
    exact ingestNext_works (h0u h0).sound hne hsorted
      (FrozenWith.later (s := t0) (hfrozen security hmem) h0 h0u)
  · refine workNow_works.bind fun moment t _ _ => ?_
    exact Works.ask (c := EngineCall.finalizeRun runId moment) fun _ => trivial

end Security

end Ahunter.Market
