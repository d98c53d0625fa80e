import Ahunter.Proofs.DoneItems
import Ahunter.Proofs.Planning

/-!
# Catch-up converges

A plan asks for a range of every security of which a session is missing, and
the run that is created from it has an item for each. The engine computes what
it expects of an item anew, from the run, the item and the sessions it is
called with. What it expects begins and ends with the item's own dates and
holds whatever the plan found missing, so once the run is complete nothing is
missing any more.
-/

namespace Ahunter.Market

open Ahunter.Lib
open Ahunter.Sim (Date Stamp)

/-! ## Ranges of a plan -/

theorem ofDict_get? (d : Dict String (Date × Date)) (code : String) :
    (ItemRanges.ofDict d).get? code = d.get? code := by
  rw [ItemRanges.get?]
  have hentries : (ItemRanges.ofDict d).entries = d.entries := rfl
  rw [hentries]
  cases hfind : d.entries.find? fun e => decide (e.1 = code) with
  | some e =>
      have hcode := List.find?_some hfind
      have hentry : d.get? e.1 = some e.2 := Dict.mem_entries.mp (List.mem_of_find?_eq_some hfind)
      rw [Option.map_some, ← hentry, of_decide_eq_true hcode]
  | none =>
      cases hget : d.get? code with
      | some range =>
          have hmem : (code, range) ∈ d.entries := Dict.mem_entries.mpr hget
          exact absurd (decide_eq_true rfl) (List.find?_eq_none.mp hfind (code, range) hmem)
      | none => rfl

section Plans

variable {sessions : List Date} {facts : Facts} {eligible : List RunSecurity}

theorem gaps_codes (hcodes : (eligible.map RunSecurity.code).Nodup) :
    ((gaps sessions facts eligible).map fun e => e.1.code).Nodup := by
  have hsub : ((gaps sessions facts eligible).map fun e => e.1.code).Sublist
      (eligible.map RunSecurity.code) := by
    induction eligible with
    | nil => exact List.Sublist.refl _
    | cons s eligible ih =>
        have ih := ih (List.nodup_cons.mp hcodes).2
        rw [gaps, List.filterMap_cons, List.map_cons]
        cases missingRange sessions facts s with
        | none => exact ih.cons _
        | some range => exact ih.cons_cons _
  exact hcodes.sublist hsub

theorem rangesOf_get? (hcodes : (eligible.map RunSecurity.code).Nodup) {security : RunSecurity}
    {range : Date × Date} (h : (security, range) ∈ gaps sessions facts eligible) :
    (rangesOf (gaps sessions facts eligible)).get? security.code = some range := by
  refine Dict.get?_setAll_of_mem ?_ (List.mem_map.mpr ⟨(security, range), h, rfl⟩)
  rw [List.map_map]
  exact gaps_codes hcodes

theorem planFor_some {digests : Digests} {target : Date}
    {missing : List (RunSecurity × Date × Date)} {plan : CatchUpPlan}
    (h : planFor digests target sessions missing = some plan) :
    plan.securities = missing.map Prod.fst ∧ plan.itemRanges = .ofDict (rangesOf missing) := by
  rw [planFor] at h
  split at h
  · cases h
  · cases h
    exact ⟨rfl, rfl⟩

end Plans

/-! ## What an item covers -/

theorem ready_covers {security : RunSecurity} {sessions : List Date} {start finish : Date}
    {facts : Facts} (hk : facts.Keyed) (hsorted : sessions.Pairwise (· < ·))
    (h : (securityReadiness security sessions start finish facts).ready = true)
    {first last : Date} (hfirst : first ∈ expectedSessions security sessions start finish)
    (hlast : last ∈ expectedSessions security sessions start finish) :
    Backed security.code (expectedSessions security sessions start finish) first last facts := by
  have hexpected : (expectedSessions security sessions start finish).Pairwise (· < ·) :=
    hsorted.filter _
  rw [securityReadiness] at h
  split at h
  · cases h
  · dsimp only at h
    split at h
    · next a b ha hb =>
        obtain ⟨hbacked, _⟩ := (coverage_ready_iff hk).mp h
        refine ⟨hbacked.covered, fun day hge hle => hbacked.factored day ?_ ?_⟩
        · exact (head?_le hexpected ha hfirst).trans hge
        · exact hle.trans (le_getLast? hexpected hb hlast)
    · next hnone =>
        obtain ⟨a, b, ha, hb⟩ := ends_of_mem hfirst
        exact absurd hb (hnone a b ha)

theorem missing_expected {security : RunSecurity} {sessions : List Date} {facts : Facts}
    (hsorted : sessions.Pairwise (· < ·)) {range : Date × Date}
    (hrange : missingRange sessions facts security = some range) {day : Date}
    (hday : day ∈ missingSessions sessions facts security) :
    day ∈ expectedSessions security sessions range.1 range.2 := by
  obtain ⟨_, hlast, hin⟩ := missingRange_some hsorted hrange
  obtain ⟨hmem, hlisted, hdelisted⟩ := mem_sessionsIn.mp ((mem_missingSessions hsorted).mp hday).1
  refine mem_expectedSessions.mpr ⟨hmem, ⟨(hin day hday).1, hlisted⟩, ?_⟩
  rw [RunSecurity.lastDay]
  cases hd : security.delistDate with
  | none => exact (hin day hday).2
  | some d => exact le_min (hin day hday).2 (hdelisted d (by rw [hd]; exact rfl))

/-! ## A run that is created from a plan -/

variable {securities : List RunSecurity}

structure Serves (runId : String) (securities : List RunSecurity) (ranges : ItemRanges)
    (c : Control) : Prop where
  frozen : ∀ s ∈ securities, c.securities.get? (itemKey runId s.code) = some s
  ranged : ∀ s ∈ securities, ∃ item, c.items.get? (itemKey runId s.code) = some item ∧
    ranges.get? s.code = some item.window
  only : ∀ k item, c.items.get? k = some item → k.runId = runId →
    ∃ s ∈ securities, k = itemKey runId s.code

variable {runId : String}

theorem itemKeys_nodup {α : Type}
    (hcodes : (securities.map RunSecurity.code).Nodup) (f : RunSecurity → α) :
    ((securities.map fun s => (itemKey runId s.code, f s)).map Prod.fst).Nodup := by
  rw [List.map_map, show (Prod.fst ∘ fun s : RunSecurity => (itemKey runId s.code, f s)) =
    (fun code => itemKey runId code) ∘ RunSecurity.code from rfl, ← List.map_map]
  refine hcodes.map fun a b hab => ?_
  simpa [itemKey] using hab

variable {ranges : ItemRanges} {c c' : Control}

theorem createRun_serves {runId requestId universeHash : String} {now : Stamp}
    (h : createRun runId requestId universeHash securities (some ranges) now c = .ok (runId, c'))
    (hnew : c.runs.get? runId = none) (hw : Windowed c)
    (hranges : ∀ s ∈ securities, ∃ range, ranges.get? s.code = some range) :
    Serves runId securities ranges c' := by
  simp only [createRun, bind_ok, requireText_ok, refuse_ok, need_ok, not_not] at h
  obtain ⟨_, ⟨_, rfl⟩, _, _, _, _, _, hcodes, _, _, request, _, _, _, h⟩ := h
  split at h
  · next e hfor =>
      cases h
      have hmem := (List.mem_filter.mp (firstBy_mem hfor)).1
      rw [Dict.mem_entries.mp hmem] at hnew
      cases hnew
  simp only [insertRun, bind_ok, refuse_ok, need_ok, pure_ok, Prod.mk.injEq, true_and] at h
  obtain ⟨target, _, start, _, finish, _, _, _, _, _, _, _, _, _, rfl⟩ := h
  refine ⟨fun s hs => ?_, fun s hs => ?_, fun k item hitem hrun => ?_⟩
  · exact Dict.get?_setAll_of_mem (itemKeys_nodup hcodes id)
      (List.mem_map_of_mem (f := fun s => (itemKey runId s.code, s)) hs)
  · obtain ⟨range, hrange⟩ := hranges s hs
    refine ⟨newItem range now, ?_, hrange⟩
    refine Dict.get?_setAll_of_mem (itemKeys_nodup hcodes _) (List.mem_map.mpr ⟨s, hs, ?_⟩)
    rw [Option.bind_some, hrange, Option.getD_some]
  · rcases Dict.get?_setAll hitem with hmem | hold
    · obtain ⟨s, hs, hpair⟩ := List.mem_map.mp hmem
      cases hpair
      exact ⟨s, hs, rfl⟩
    · -- An item of before would be of a run of before.
      obtain ⟨run, hget, _⟩ := hw.within k item hold
      rw [hrun, hnew] at hget
      cases hget

theorem createRun_there {runId requestId universeHash r : String} {ranges : Option ItemRanges}
    {now : Stamp}
    (h : createRun runId requestId universeHash securities ranges now c = .ok (r, c')) :
    ∃ row, c'.runs.get? r = some row := by
  simp only [createRun, bind_ok, requireText_ok, refuse_ok, need_ok, not_not] at h
  obtain ⟨_, ⟨_, rfl⟩, _, _, _, _, _, _, _, _, request, _, _, _, h⟩ := h
  split at h
  · next e hfor =>
      cases h
      exact ⟨e.2, Dict.mem_entries.mp (List.mem_filter.mp (firstBy_mem hfor)).1⟩
  · simp only [insertRun, bind_ok, refuse_ok, need_ok, pure_ok, Prod.mk.injEq] at h
    obtain ⟨target, _, start, _, finish, _, _, _, _, _, _, _, _, _, rfl, rfl⟩ := h
    exact ⟨_, Dict.get?_set_self _ _ _⟩

variable {run : RunRow}

theorem Effect.item_back {now : Stamp} {call : Call}
    (h : Effect now c c' call) {k : ItemKey} {item' : ItemRow} (hget : c'.items.get? k = some item')
    (hrun : c.runs.get? k.runId = some run) : ∃ item, c.items.get? k = some item := by
  cases h with
  | aside _ hitems => exact ⟨item', hitems ▸ hget⟩
  | created _ hitems hnew _ _ hadded =>
      rw [hitems] at hget
      rcases Dict.get?_setAll hget with hmem | hold
      · rw [(hadded _ hmem).1, hnew] at hrun
        cases hrun
      · exact ⟨item', hold⟩
  | started _ _ _ hitems => exact ⟨item', hitems ▸ hget⟩
  | resumed _ _ _ hitems _ _ =>
      obtain ⟨item, hitem, _⟩ := Option.map_eq_some_iff.mp ((hitems k).symm.trans hget)
      exact ⟨item, hitem⟩
  | marked _ _ hitem _ _ _ hitems _ _ =>
      rw [hitems, Dict.get?_set] at hget
      split at hget
      · next hk => exact ⟨_, hk ▸ hitem⟩
      · exact ⟨item', hget⟩
  | claimed _ _ hitem _ _ _ hitems =>
      rw [hitems, Dict.get?_set] at hget
      split at hget
      · next hk => exact ⟨_, hk ▸ hitem⟩
      · exact ⟨item', hget⟩
  | renewed hitem _ _ _ _ hitems =>
      rw [hitems, Dict.get?_set] at hget
      split at hget
      · next hk => exact ⟨_, hk ▸ hitem⟩
      · exact ⟨item', hget⟩
  | finalized _ _ _ _ _ hitems => exact ⟨item', hitems ▸ hget⟩
  | recovered _ hitems =>
      obtain ⟨item, hitem, _⟩ := Option.map_eq_some_iff.mp ((hitems k).symm.trans hget)
      exact ⟨item, hitem⟩

theorem Serves.later (h : Serves runId securities ranges c) (hkept : WindowsKept c c')
    (honly : ∀ k item', c'.items.get? k = some item' → k.runId = runId →
      ∃ item, c.items.get? k = some item) : Serves runId securities ranges c' where
  frozen s hs := hkept.securities _ s (h.frozen s hs)
  ranged s hs := by
    obtain ⟨item, hitem, hwindow⟩ := h.ranged s hs
    obtain ⟨item', hitem', hsame⟩ := hkept.items _ item hitem
    exact ⟨item', hitem', hsame ▸ hwindow⟩
  only k item' hitem' hrun := by
    obtain ⟨item, hitem⟩ := honly k item' hitem' hrun
    exact h.only k item hitem hrun

/-! ## Until the run is complete -/

theorem PoolStep.item_back {digest : IdempotencyKey → String} {p q : Engines}
    (hstep : PoolStep EngineCall.exec Job.program (Beside digest) p q) {k : ItemKey}
    {item' : ItemRow} (hget : q.state.control.items.get? k = some item')
    (hrun : p.state.control.runs.get? k.runId = some run) :
    ∃ item, p.state.control.items.get? k = some item := by
  cases hstep with
  | spawn s tasks l => exact ⟨item', hget⟩
  | call us vs l c next r hexec =>
      rcases exec_control hexec with hsame | ⟨call, now, _, heffect⟩
      · exact ⟨item', hsame ▸ hget⟩
      · exact heffect.item_back hget hrun
  | other tasks hbeside =>
      rcases hbeside.effect with hsame | ⟨call, now, _, heffect⟩
      · exact ⟨item', hsame ▸ hget⟩
      · exact heffect.item_back hget hrun

theorem Serves.working {digest : IdempotencyKey → String} {p q : Engines} (hp : p.Lawful)
    (hq : p.Working digest q) (h : Serves runId securities ranges p.state.control)
    (hrun : p.state.control.runs.get? runId = some run) :
    Serves runId securities ranges q.state.control := by
  induction hq with
  | refl => exact h
  | @tail m q hm hstep ih =>
      obtain ⟨hlawful, hle⟩ := hp.working hm
      obtain ⟨_, hle'⟩ := hlawful.step hstep
      obtain ⟨run', hrun', _⟩ := (hle hp.sound).windows.runs runId run hrun
      refine ih.later (hle' hlawful.sound).windows fun k item' hget hk => ?_
      exact PoolStep.item_back hstep hget (hk ▸ hrun')

def CalledWith (baseStart target : Date) (t : Sessions) (run : RunRow) (sessions : List Date) :
    Prop :=
  (∃ stored, sessionsFor baseStart target t = .ok stored ∧ sessions = runSessions stored run) ∨
    sessionsFor run.startDate run.endDate t = .ok sessions

variable {baseStart target : Date} {t : Sessions}

theorem CalledWith.knows
    {sessions stored : List Date} (h : CalledWith baseStart target t run sessions)
    (hstored : sessionsFor baseStart target t = .ok stored) {day : Date} (hday : day ∈ stored)
    (hstart : run.startDate ≤ day) (hend : day ≤ run.endDate) : day ∈ sessions := by
  rcases h with ⟨same, hsame, rfl⟩ | hsessions
  · cases hstored.symm.trans hsame
    exact List.mem_filter.mpr ⟨hday, decide_eq_true ⟨hstart, hend⟩⟩
  · exact (mem_sessionsFor hsessions).mpr
      ⟨((mem_sessionsFor hstored).mp hday).1, hstart, hend⟩

theorem Engines.Lawful.covers {q : Engines} (hq : q.Lawful)
    (hrun : q.state.control.runs.get? runId = some run) (hcomplete : run.status = .complete)
    {stored : List Date} (hstored : sessionsFor baseStart target t = .ok stored)
    (hjobs : ∀ task ∈ q.tasks, strip task.1.runId = runId →
      CalledWith baseStart target t run task.1.sessions) {security : RunSecurity} {item : ItemRow}
    (hsecurity : q.state.control.securities.get? (itemKey runId security.code) = some security)
    (hitem : q.state.control.items.get? (itemKey runId security.code) = some item)
    {facts : Facts} (hrange : missingRange stored facts security = some item.window) :
    Backed security.code (expectedSessions security stored item.startDate item.endDate)
      item.startDate item.endDate q.state.facts := by
  have hsorted := sessionsFor_sorted hstored
  have hdone := hq.accounted.done hrun hcomplete hitem rfl
  obtain ⟨task, htask, hown, item', security', hitem', hsecurity', hready⟩ :=
    hq.vouched _ item hitem hdone
  have hkey : itemKey (strip task.1.runId) security.code = itemKey runId security.code := by
    rw [hown]
    rfl
  obtain rfl := Option.some.inj (hitem.symm.trans (hkey ▸ hitem'))
  obtain rfl := Option.some.inj (hsecurity.symm.trans (hkey ▸ hsecurity'))
  -- The range begins and ends with a missing session, which the check expects.
  obtain ⟨hfirst, hlast, _⟩ := missingRange_some hsorted hrange
  have hfirst' := missing_expected hsorted hrange hfirst
  have hlast' := missing_expected hsorted hrange hlast
  obtain ⟨run', hrun', hge, hle⟩ := hq.sound.windowed.within _ item hitem
  obtain rfl := Option.some.inj (hrun.symm.trans hrun')
  have hcheckable : Checkable task.1.sessions item stored := by
    refine Or.inr ⟨?_, hsorted, fun day hday hstart hend => ?_⟩
    · exact List.ne_nil_of_mem (mem_expectedSessions.mp hfirst').1
    · exact (hjobs task htask hown).knows hstored hday (hge.trans hstart) (hend.trans hle)
  exact ready_covers hq.sound.keyed hsorted (hready stored hcheckable) hfirst' hlast'

theorem Serves.nothing_missing {q : Engines} (hq : q.Lawful)
    (hrun : q.state.control.runs.get? runId = some run) (hcomplete : run.status = .complete)
    {stored : List Date} (hstored : sessionsFor baseStart target t = .ok stored)
    (hjobs : ∀ task ∈ q.tasks, strip task.1.runId = runId →
      CalledWith baseStart target t run task.1.sessions)
    {facts : Facts} (hgrown : Grown facts q.state.facts) {eligible : List RunSecurity}
    (hcodes : (eligible.map RunSecurity.code).Nodup)
    (h : Serves runId ((gaps stored facts eligible).map Prod.fst)
      (.ofDict (rangesOf (gaps stored facts eligible))) q.state.control) :
    gaps stored q.state.facts eligible = [] := by
  have hsorted := sessionsFor_sorted hstored
  refine List.eq_nil_iff_forall_not_mem.mpr fun e he => ?_
  obtain ⟨security, range'⟩ := e
  obtain ⟨heligible, hrange'⟩ := mem_gaps.mp he
  -- A session that is missing now was missing before.
  obtain ⟨hfirst, _, _⟩ := missingRange_some hsorted hrange'
  obtain ⟨hin, hopen⟩ := (mem_missingSessions hsorted).mp hfirst
  have hbefore : range'.1 ∈ missingSessions stored facts security :=
    (mem_missingSessions hsorted).mpr ⟨hin, fun hcovered => hopen (hgrown.covered hcovered)⟩
  obtain ⟨range, hrange⟩ := missingRange_isSome hbefore
  have hgap := mem_gaps.mpr ⟨heligible, hrange⟩
  have hmem := List.mem_map_of_mem (f := Prod.fst) hgap
  obtain ⟨item, hitem, hwindow⟩ := h.ranged security hmem
  rw [ofDict_get?, rangesOf_get? hcodes hgap] at hwindow
  obtain rfl := Option.some.inj hwindow
  have hbacked := hq.covers hrun hcomplete hstored hjobs (h.frozen security hmem) hitem hrange
  exact hopen (hbacked.covered _ (missing_expected hsorted hrange hbefore))

/-! ## Convergence -/

section Convergence

variable {digest : IdempotencyKey → String} {digests : Digests}
  {exchanges : Attempt UniverseSnapshot} {target baseStart : Date} {t : Sessions} {facts : Facts}

theorem buildPlan_some {plan : CatchUpPlan}
    (h : buildPlan digests exchanges target baseStart t facts = .ok (some plan)) :
    ∃ stored eligible, sessionsFor baseStart target t = .ok stored ∧
      (eligible.map RunSecurity.code).Nodup ∧
      plan.securities = (gaps stored facts eligible).map Prod.fst ∧
      plan.itemRanges = .ofDict (rangesOf (gaps stored facts eligible)) ∧
      ∀ facts', gaps stored facts' eligible = [] →
        buildPlan digests exchanges target baseStart t facts' = .ok none := by
  obtain ⟨stored, snapshot, hstored, hlast, hsnapshot, hle, hplan⟩ := buildPlan_ok h
  obtain ⟨hsecurities, hranges⟩ := planFor_some hplan.symm
  refine ⟨stored, _, hstored, ?_, hsecurities, hranges, fun facts' hnone => ?_⟩
  · have hnodup : (snapshot.securities.map RunSecurity.code).Nodup :=
      snapshot.ordered.imp fun hab => hab.ne
    exact hnodup.sublist (List.filter_sublist.map _)
  · simp only [buildPlan, UniverseSnapshot.forWindow, bind_ok, refuse_ok, pure_ok, not_not, not_lt]
    refine ⟨stored, hstored, (), hlast, snapshot, hsnapshot, _, ⟨(), hle, rfl⟩, ?_⟩
    rw [hnone]
    rfl

/-- Engines and services go on from any facts, and at some point a plan is
built. Later a run is created from it, which engines then work on with the
sessions that a catch-up calls them with, interrupted and resumed in any way,
beside any others. Once the run is complete nothing is to be planned any more,
and every bar in the interval of an item of the run has its factor. -/
theorem catch_up_converges (hk : facts.Keyed) {p p' q : Engines} {plan : CatchUpPlan}
    (hp : Engines.Working digest ⟨⟨Control.empty, facts⟩, []⟩ p)
    (hplan : buildPlan digests exchanges target baseStart t p.state.facts = .ok (some plan))
    (hp' : p.Working digest p') {runId requestId : String} {now : Stamp} {c : Control}
    (hcreate : createRun runId requestId plan.universeHash plan.securities (some plan.itemRanges)
      now p'.state.control = .ok (runId, c))
    (hnew : p'.state.control.runs.get? runId = none)
    (hq : Engines.Working digest ⟨{ p'.state with control := c }, p'.tasks⟩ q) {run : RunRow}
    (hrun : q.state.control.runs.get? runId = some run) (hcomplete : run.status = .complete)
    (hjobs : ∀ task ∈ q.tasks, strip task.1.runId = runId →
      CalledWith baseStart target t run task.1.sessions) :
    buildPlan digests exchanges target baseStart t q.state.facts = .ok none ∧
      ∀ code item, q.state.control.items.get? (itemKey runId code) = some item →
        ∀ day, item.startDate ≤ day → day ≤ item.endDate →
          q.state.facts.bars.contains (factKey code day) = true →
            q.state.facts.factors.contains (factKey code day) = true := by
  obtain ⟨hlawful, _⟩ := (Engines.Lawful.idle hk).working hp
  obtain ⟨hlawful', hle⟩ := hlawful.working hp'
  -- To create the run is one more call to the control plane.
  have hcall : (Call.createRun runId requestId plan.universeHash plan.securities
      (some plan.itemRanges)).after digest now p'.state.control = c := by
    rw [Call.after, Call.returns, left_ok.mpr ⟨runId, hcreate⟩]
  have hbeside : Beside digest p'.state { p'.state with control := c } := by
    have h : Beside digest p'.state _ := .control p'.state (.createRun runId requestId
      plan.universeHash plan.securities (some plan.itemRanges)) now
      (fun _ _ _ _ h => by cases h)
    rwa [hcall] at h
  obtain ⟨hlawful1, hle1⟩ := hlawful'.step (PoolStep.other p'.tasks hbeside)
  obtain ⟨hlawful2, hle2⟩ := hlawful1.working hq
  obtain ⟨stored, eligible, hstored, hcodes, hsecurities, hranges, hagain⟩ := buildPlan_some hplan
  have hserves : Serves runId plan.securities plan.itemRanges c := by
    refine createRun_serves hcreate hnew hlawful'.sound.windowed fun s hs => ?_
    rw [hsecurities] at hs
    obtain ⟨⟨s, range⟩, hgap, rfl⟩ := List.mem_map.mp hs
    exact ⟨range, by rw [hranges, ofDict_get?, rangesOf_get? hcodes hgap]⟩
  have hthere : ∃ row, c.runs.get? runId = some row := createRun_there hcreate
  obtain ⟨row, hrow⟩ := hthere
  have hserves' := hserves.working hlawful1 hq hrow
  rw [hsecurities, hranges] at hserves'
  have hgrown : Grown p.state.facts q.state.facts :=
    (((hle.trans hle1).trans hle2) hlawful.sound).facts
  refine ⟨hagain _ (hserves'.nothing_missing hlawful2 hrun hcomplete hstored hjobs hgrown hcodes),
    fun code item hitem => ?_⟩
  obtain ⟨s, hs, hkey⟩ := hserves'.only _ item hitem rfl
  obtain rfl : code = s.code := by simpa [itemKey] using hkey
  obtain ⟨⟨s, range⟩, hgap, rfl⟩ := List.mem_map.mp hs
  obtain ⟨item', hitem', hwindow⟩ := hserves'.ranged s hs
  obtain rfl := Option.some.inj (hitem.symm.trans hitem')
  rw [ofDict_get?, rangesOf_get? hcodes hgap] at hwindow
  obtain rfl := Option.some.inj hwindow
  exact (hlawful2.covers hrun hcomplete hstored hjobs (hserves'.frozen s hs) hitem
    (mem_gaps.mp hgap).2).factored

end Convergence

/-! ## A suspended security -/

def oneHash : Digests := ⟨fun _ => sampleHash, fun _ _ _ => sampleHash⟩

def converging : UniverseSnapshot := ⟨[sampleSecurity], by simp, by simp⟩

def oneSession : Sessions :=
  Dict.empty.set 1 ⟨1, "a", "b", sampleStamp, sampleStamp, sampleStamp, by decide +kernel,
    by decide +kernel, by decide, by decide +kernel⟩

def convergingPlan : CatchUpPlan :=
  ⟨1, 1, [1], sampleHash, [sampleSecurity], .ofDict (rangesOf [(sampleSecurity, 1, 1)]), sampleHash⟩

def claimedStore : Store :=
  ⟨callsAt sampleDigest sampleNow [.submitCatchUp 1 1 none, .claimNextRequest "w"] Control.empty,
    Facts.empty⟩

def createdRun : Attempt (String × Control) :=
  createRun "run" "mdreq-1" convergingPlan.universeHash convergingPlan.securities
    (some convergingPlan.itemRanges) sampleNow claimedStore.control

def servedStore (c : Control) : Store :=
  ⟨c, (FactCall.recordAbsence suspended).after Facts.empty⟩

def finished (c : Control) : Engine Unit × Store := alone 20 sampleJob.program (servedStore c)

theorem claimedStore_working : Engines.Working sampleDigest ⟨⟨Control.empty, Facts.empty⟩, []⟩
    ⟨claimedStore, []⟩ := by
  refine (Relation.ReflTransGen.single (PoolStep.other [] (.control _ (.submitCatchUp 1 1 none)
    sampleNow nofun))).tail ?_
  exact PoolStep.other [] (.control _ (.claimNextRequest "w") sampleNow nofun)

theorem finished_working (c : Control) : Engines.Working sampleDigest
    ⟨{ claimedStore with control := c }, []⟩ ⟨(finished c).2, [(sampleJob, (finished c).1)]⟩ := by
  have hfact : PoolStep EngineCall.exec Job.program (Beside sampleDigest)
      ⟨{ claimedStore with control := c }, []⟩ ⟨servedStore c, []⟩ :=
    PoolStep.other [] (.facts _ (.recordAbsence suspended) trivial)
  have hspawn : PoolStep EngineCall.exec Job.program (Beside sampleDigest)
      ⟨servedStore c, []⟩ ⟨servedStore c, [(sampleJob, sampleJob.program)]⟩ :=
    PoolStep.spawn (servedStore c) [] sampleJob
  exact ((Relation.ReflTransGen.single hfact).tail hspawn).trans
    (alone_later _ sampleJob 20 sampleJob.program (servedStore c))

theorem convergingPlan_built :
    buildPlan oneHash (.ok converging) 1 1 oneSession claimedStore.facts
      = .ok (some convergingPlan) := by
  have hsessions : sessionsFor 1 1 oneSession = .ok [1] := by decide +kernel
  have hgaps : gaps [1] claimedStore.facts [sampleSecurity] = [(sampleSecurity, 1, 1)] := by
    decide +kernel
  have hwindow : converging.forWindow 1 1 = .ok [sampleSecurity] := by decide +kernel
  rw [buildPlan, hsessions]
  simp only [bind_ok, refuse_ok, pure_ok]
  refine ⟨_, rfl, (), by simp, _, rfl, _, hwindow, ?_⟩
  rw [hgaps]
  rfl

/-- The range of the security is all there is to it, and it is covered in the end. -/
theorem catch_up_converges_sample : ∃ c, createdRun = .ok ("run", c) ∧
    buildPlan oneHash (.ok converging) 1 1 oneSession (finished c).2.facts = .ok none := by
  have hcreated : createdRun.toOption.map (fun r => (r.1, ((finished r.2).2.control.runs.get?
      "run").map fun run => (run.status, run.startDate, run.endDate)))
      = some ("run", some (.complete, 1, 1)) := by
    decide +kernel
  obtain ⟨⟨r, c⟩, hr, hpair⟩ := Option.map_eq_some_iff.mp hcreated
  obtain ⟨rfl, hfinished⟩ := Prod.mk.inj hpair
  obtain ⟨run, hrun, hrow⟩ := Option.map_eq_some_iff.mp hfinished
  simp only [Prod.mk.injEq] at hrow
  obtain ⟨hcomplete, hstart, hend⟩ := hrow
  have hcreate : createdRun = .ok ("run", c) := by
    cases hx : createdRun with
    | ok x =>
        rw [hx] at hr
        cases hr
        rfl
    | error e =>
        rw [hx] at hr
        cases hr
  refine ⟨c, hcreate, (catch_up_converges Facts.Keyed.empty claimedStore_working
    convergingPlan_built .refl hcreate (by decide +kernel) (finished_working c) hrun hcomplete
    fun task htask _ => Or.inr ?_).1⟩
  rw [List.mem_singleton.mp htask, hstart, hend]
  show sessionsFor 1 1 oneSession = .ok [1]
  decide +kernel

end Ahunter.Market
