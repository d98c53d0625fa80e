import Ahunter.Proofs.Snapshots

/-!
# Reused baselines

What a cohort was qualified by does not change: its records stay, its tests
are over, and the first assessment of a test stays the first. So a plan that
reuses its baseline is validated whenever it is validated, as long as the
artifacts that records link permanently can be read; the same request finds
the plan again; and no test it reuses is created or run a second time.
-/

namespace Ahunter.Trials

open Ahunter.Lib Ahunter.Records

variable {X P V : Type} {g : Hashes X} {db t u : TrialDb X P V} {host host' : TrialHost X}

/-! ## Tests that are over -/

theorem writable_live [DecidableEq V] {now : Sim.Instant} {c : Commit P V}
    (h : db.writable now c = .ok ()) : ∃ s, db.status c.testId = .ok s ∧ s.terminal = false := by
  rw [Db.writable] at h
  split at h
  · next lease _ =>
      obtain ⟨_, hown, hlease⟩ := bind_ok.mp h
      rw [refuse_ok, not_not] at hown
      rw [← hown]
      exact Db.assertLease_live hlease
  · obtain ⟨s, hs, hactive⟩ := bind_ok.mp h
    rw [refuse_ok, not_not] at hactive
    refine ⟨s, hs, ?_⟩
    simp only [List.mem_cons, List.not_mem_nil, or_false] at hactive
    rcases hactive with rfl | rfl | rfl <;> rfl

theorem Grown.over [d : DecidableEq V] (h : Grown g db t) {testId : String} {s : Status}
    (hs : db.status testId = .ok s) (hterminal : s.terminal = true) :
    t.status testId = .ok s ∧ (t.events.filter fun e => e.testId = testId)
        = db.events.filter fun e => e.testId = testId := by
  refine h.keeps (Q := fun t => t.status testId = .ok s ∧
    (t.events.filter fun e => e.testId = testId)
      = db.events.filter fun e => e.testId = testId) (fun {t u} hchange ht => ?_) ⟨hs, rfl⟩
  obtain ⟨hstatus, hevents⟩ := ht
  cases hchange with
  | same hrecords hlog hprojections =>
      have hnone := hrecords.trans (List.append_nil _).symm
      refine ⟨Db.status_append hnone hlog hprojections hstatus, ?_⟩
      rw [hlog, hevents]
  | add _ hrecords hlog hprojections =>
      refine ⟨Db.status_append hrecords hlog hprojections hstatus, ?_⟩
      rw [hlog, hevents]
  | @event inst _ host c e hc hplain =>
      obtain rfl : inst = d := Subsingleton.elim _ _
      refine ⟨hc.terminal Db.restrained_pure hplain hstatus hterminal, ?_⟩
      have hother : e.testId ≠ testId := by
        intro heq
        obtain ⟨s', hs', hlive⟩ := writable_live hc.writable
        rw [← hc.identity.1, heq, hstatus] at hs'
        cases hs'
        rw [hterminal] at hlive
        cases hlive
      rw [(hc.appended Db.restrained_pure).events, List.filter_append,
        List.filter_cons_of_neg (by simpa using hother), List.filter_nil, List.append_nil, hevents]

theorem firstAssessment_later (h : Within db t) {testId : String} {r : TrialRecord X}
    {a : Assessment} (hfirst : firstAssessment db testId = some (r, a)) :
    firstAssessment t testId = some (r, a) := by
  obtain ⟨new, hnew⟩ := h
  rw [firstAssessment] at hfirst ⊢
  rw [hnew, List.filterMap_append, List.head?_append, hfirst]
  rfl

/-! ## Cohorts -/

/-- The artifacts that records link permanently can be read. -/
def Keeps (host : TrialHost X) (db : TrialDb X P V) : Prop :=
  ∀ r ∈ db.records, ∀ h ∈ r.artifactHashes, (host.artifacts h).isSome = true

theorem runtimeConditions_ok {A : Type} {host : Host A} {sealed : ResolvedSpecification}
    {plan : TestPlan} {supplied : Dict String TaskComparisonConditions}
    {found : RuntimeConditions × List String} :
    runtimeConditions g host sealed plan supplied = .ok found ↔
      SameElements supplied.keys (plan.tests.map PlannedTest.taskId) ∧
      (∀ h ∈ supplied.values.flatMap TaskComparisonConditions.hashes,
        (host.artifacts h).isSome = true) ∧
      found = (⟨sealed.specificationHash, g.plan plan, supplied⟩,
        supplied.values.flatMap TaskComparisonConditions.hashes) := by
  have hread : ∀ h, (host.readJson h >>= fun _ => pure () : Attempt Unit) = .ok () ↔
      (host.artifacts h).isSome = true := by
    intro h
    simp only [Host.readJson, bind_ok, need_ok, pure_ok, and_true]
    exact Option.isSome_iff_exists.symm
  simp only [runtimeConditions, bind_ok, refuse_ok, not_not, pure_ok, walk_unit, hread]
  constructor
  · rintro ⟨-, hsame, -, hartifacts, rfl⟩
    exact ⟨hsame, hartifacts, rfl⟩
  · rintro ⟨hsame, hartifacts, rfl⟩
    exact ⟨(), hsame, (), hartifacts, rfl⟩

section Stable

variable [DecidableEq V]

theorem Proven.later (hgrown : Grown g db t) {source planRecord : TrialRecord X}
    {definitionId experimentId packageHash : String} {runtime : RuntimeConditions}
    {sample : PlannedTest} {testId : String} {proof : ReuseProof} {record first : TrialRecord X}
    {test : TestEntry} {assessment : Assessment} {conditions : TaskComparisonConditions}
    (h : Proven g db source planRecord definitionId experimentId packageHash runtime sample testId
      proof record first test assessment conditions) :
    Proven g t source planRecord definitionId experimentId packageHash runtime sample testId proof
      record first test assessment conditions := by
  obtain ⟨new, hnew⟩ := hgrown.within
  exact { h with
    read := Db.test_append hnew h.read
    completed := (hgrown.over h.completed rfl).1
    earliest := firstAssessment_later hgrown.within h.earliest }

omit [DecidableEq V] in
theorem definitionSpecification_later (hgrown : Grown g db t) {id : String}
    {found : TrialRecord X × ResolvedSpecification}
    (h : definitionSpecification db id = .ok found) : definitionSpecification t id = .ok found := by
  simp only [definitionSpecification, bind_ok] at h ⊢
  obtain ⟨r, hread, hrest⟩ := h
  exact ⟨r, hgrown.above.read hread, hrest⟩

theorem Sourced.later (hgrown : Grown g db t) {source : TrialRecord X} {w w' : Wanted}
    {cohort : Cohort} {pair : Pair} {pinned : RuntimeConditions}
    {planRecord definition : TrialRecord X} {plan : PlanEntry} {sealed : ResolvedSpecification}
    {proofs : List (String × ReuseProof)}
    (h : Sourced g host db source w cohort pair pinned planRecord definition plan sealed proofs)
    (hexperiment : w'.experimentId = w.experimentId) (hbaseline : w'.baseline = w.baseline)
    (hpackage : w'.packageHash = w.packageHash) (hpurpose : w'.purpose = w.purpose)
    (hspecification : w'.specificationHash = w.specificationHash)
    (hseeds : w'.requested.seedSupport = w.requested.seedSupport)
    (htasks : w'.conditions.tasks = w.conditions.tasks)
    (hsealed : w'.conditions.specificationHash = w.conditions.specificationHash)
    (hkeys : (w'.requested.samplesOf w.baseline).map PlannedTest.repeatKey
      = (w.requested.samplesOf w.baseline).map PlannedTest.repeatKey)
    (hartifacts : ∀ h ∈ w.conditions.tasks.values.flatMap TaskComparisonConditions.hashes,
      (host'.artifacts h).isSome = true) :
    Sourced g host' t source w' cohort pair pinned planRecord definition plan sealed proofs where
  frozen := h.frozen
  runtimePinned := h.runtimePinned
  admits := by
    obtain ⟨hsource, hselection, hruntime, hpackages⟩ := h.admits
    exact ⟨hsource.trans hexperiment.symm, hselection, hruntime,
      by rw [hbaseline, hpackage]; exact hpackages⟩
  read := hgrown.above.read h.read
  typed := h.typed
  experiment := h.experiment.trans hexperiment.symm
  planHash := h.planHash
  purpose := h.purpose.trans hpurpose.symm
  seeds := h.seeds.trans hseeds.symm
  specification := h.specification.trans hspecification.symm
  defined := definitionSpecification_later hgrown h.defined
  tasks := h.tasks.trans htasks.symm
  runtime := by
    obtain ⟨artifacts, hconditions⟩ := h.runtime
    obtain ⟨hsame, -, hfound⟩ := runtimeConditions_ok.mp hconditions
    refine ⟨artifacts, runtimeConditions_ok.mpr ⟨hsame, ?_, hfound⟩⟩
    rw [h.tasks]
    exact hartifacts
  runtimeHash := h.runtimeHash.trans hsealed.symm
  size := by rw [hbaseline, hkeys]; exact h.size
  keys := by rw [hbaseline, hkeys]; exact h.keys
  proven := by
    rw [hbaseline, hexperiment, hpackage, sampleProofs_ok]
    refine (sampleProofs_ok.mp h.proven).imp fun s proof hone => ?_
    obtain ⟨testId, proof⟩ := proof
    obtain ⟨record, first, test, assessment, conditions, hproven⟩ := sampleProof_ok.mp hone
    exact sampleProof_ok.mpr ⟨record, first, test, assessment, conditions, hproven.later hgrown⟩
  found := by rw [hbaseline]; exact h.found

end Stable

/-! ## Slots -/

variable {template resolved : TestPlan}

theorem resolvePlan_ok {baseline : String} {cohort : Cohort}
    (hbaseline : ∀ s ∈ cohort.samples, s.proposalId = baseline)
    (h : resolvePlan template baseline cohort = .ok resolved) :
    resolved.planId = template.planId ∧ resolved.seedSupport = template.seedSupport ∧
      List.Forall₂ (fun s r => r ∈ cohort.samples ∧ r.repeatKey = s.repeatKey)
        (template.samplesOf baseline) (resolved.samplesOf baseline) := by
  simp only [resolvePlan, bind_ok, pure_ok] at h
  obtain ⟨tests, htests, rfl⟩ := h
  refine ⟨rfl, rfl, ?_⟩
  have hslot : List.Forall₂ (fun s r => r.proposalId = s.proposalId ∧
      (s.proposalId = baseline → r ∈ cohort.samples ∧ r.repeatKey = s.repeatKey))
      template.tests tests := by
    refine (gather_ok.mp htests).imp fun s r hone => ?_
    split at hone
    · next hproposal =>
        rw [need_ok] at hone
        have hmem := List.mem_reverse.mp (List.mem_of_find?_eq_some hone)
        have hkey : r.repeatKey = s.repeatKey := by simpa using List.find?_some hone
        exact ⟨(hbaseline r hmem).trans hproposal.symm, fun _ => ⟨hmem, hkey⟩⟩
    · next hproposal =>
        rw [pure_ok] at hone
        subst hone
        exact ⟨rfl, fun h => absurd h hproposal⟩
  have hfiltered := filter_rel (p := fun s => decide (s.proposalId = baseline))
    (q := fun r => decide (r.proposalId = baseline)) hslot fun s r hone => by rw [hone.1]
  have hmine : ∀ s ∈ template.samplesOf baseline, s.proposalId = baseline :=
    fun s hs => of_decide_eq_true (List.mem_filter.mp hs).2
  exact ((List.forall₂_and_left _ _).mpr ⟨hmine, hfiltered⟩).imp
    fun s r hone => hone.2.2 hone.1

theorem resolvePlan_perm {baseline : String} {cohort : Cohort}
    (hvalid : template.Valid) (hbaseline : ∀ s ∈ cohort.samples, s.proposalId = baseline)
    (hsize : cohort.samples.length
      = ((template.samplesOf baseline).map PlannedTest.repeatKey).dedup.length)
    (h : resolvePlan template baseline cohort = .ok resolved) :
    (resolved.samplesOf baseline).Perm cohort.samples := by
  obtain ⟨-, -, hslots⟩ := resolvePlan_ok hbaseline h
  have hkeys : (resolved.samplesOf baseline).map PlannedTest.repeatKey
      = (template.samplesOf baseline).map PlannedTest.repeatKey :=
    (map_rel hslots fun s r hone => hone.2.symm).symm
  -- A plan runs a candidate once on each repeat of a task.
  have hunique : ((template.samplesOf baseline).map PlannedTest.repeatKey).Nodup := by
    refine List.Nodup.map_on (fun s hs r hr hkey => ?_) (hvalid.ids_unique.of_map.filter _)
    have hproposal : s.proposalId = r.proposalId :=
      (of_decide_eq_true (List.mem_filter.mp hs).2).trans
        (of_decide_eq_true (List.mem_filter.mp hr).2).symm
    refine List.inj_on_of_nodup_map hvalid.slots_unique (List.mem_of_mem_filter hs)
      (List.mem_of_mem_filter hr) ?_
    simp only [PlannedTest.repeatKey, Prod.mk.injEq] at hkey
    rw [PlannedTest.slot, PlannedTest.slot, hproposal, hkey.1, hkey.2.1]
  have hnodup : (resolved.samplesOf baseline).Nodup := (hkeys ▸ hunique).of_map
  have hwithin : resolved.samplesOf baseline ⊆ cohort.samples := fun r hr => by
    obtain ⟨s, -, hmem, -⟩ := forall₂_from hslots hr
    exact hmem
  refine (hnodup.subperm hwithin).perm_of_length_le ?_
  rw [hsize, hunique.dedup, List.length_map, hslots.length_eq]

/-! ## Registering -/

section Registering

variable [DecidableEq X]

theorem insertAll_within {prepared : List (Prepared (Entry X))}
    (h : insertAll host prepared db = .ok ((), u)) : Within db u := by
  simp only [insertAll, bind_ok, pure_ok, Prod.mk.injEq, true_and] at h
  obtain ⟨v, hwalk, rfl⟩ := h
  induction prepared generalizing db with
  | nil =>
      cases hwalk
      exact .refl _
  | cons p rest ih =>
      obtain ⟨c, hone, hrest⟩ := walk_cons_ok.mp hwalk
      simp only [bind_ok, pure_ok] at hone
      obtain ⟨⟨r, c'⟩, hinsert, rfl⟩ := hone
      refine Within.trans ?_ (ih hrest)
      obtain ⟨-, ⟨rfl, -⟩ | ⟨rfl, -⟩⟩ := Db.insert_cases hinsert
      · exact .refl _
      · exact ⟨[r], rfl⟩

theorem insertAll_first {first : Prepared (Entry X)} {rest : List (Prepared (Entry X))}
    (h : insertAll host (first :: rest) db = .ok ((), u)) :
    ∃ r ∈ u.records, r.toPrepared = first := by
  have hwhole := h
  simp only [insertAll, bind_ok, pure_ok, Prod.mk.injEq, true_and] at h
  obtain ⟨v, hwalk, rfl⟩ := h
  obtain ⟨c, hone, hrest⟩ := walk_cons_ok.mp hwalk
  simp only [bind_ok, pure_ok] at hone
  obtain ⟨⟨r, c'⟩, hinsert, rfl⟩ := hone
  have hw : Within c' v := by
    have hall : insertAll host rest c' = .ok ((), v) := by
      simp only [insertAll, bind_ok, pure_ok, Prod.mk.injEq, true_and]
      exact ⟨v, hrest, rfl⟩
    exact insertAll_within hall
  obtain ⟨new, hnew⟩ := hw
  obtain ⟨hr, ⟨rfl, hmem⟩ | ⟨rfl, -⟩⟩ := Db.insert_cases hinsert
  · exact ⟨r, hnew ▸ List.mem_append_left _ hmem, hr⟩
  · exact ⟨r, hnew ▸ List.mem_append_left _ (List.mem_append_right _ List.mem_cons_self), hr⟩

omit [DecidableEq X] in
theorem prepare_artifacts {q p : Prepared (Entry X)} (h : prepare host q = .ok p) :
    p.artifactHashes = sortedSet q.artifactHashes := by
  simp only [prepare, bind_ok, pure_ok] at h
  obtain ⟨-, -, -, -, -, -, rfl⟩ := h
  rfl

variable [DecidableEq V]

omit [DecidableEq X] in
theorem firstCohort_some {f : TrialRecord X → Attempt (Option Cohort)}
    {l : List (TrialRecord X)} {source : TrialRecord X} {cohort : Cohort}
    (h : firstCohort f l = .ok (some (source, cohort))) :
    ∃ before after, l = before ++ source :: after ∧ (∀ s ∈ before, f s = .ok none) ∧
      f source = .ok (some cohort) := by
  induction l with
  | nil => cases h
  | cons s rest ih =>
      obtain ⟨found, hfound, h⟩ := bind_ok.mp h
      cases found with
      | some c =>
          cases h
          exact ⟨[], rest, rfl, by simp, hfound⟩
      | none =>
          obtain ⟨before, after, rfl, hbefore, hsource⟩ := ih h
          refine ⟨s :: before, after, rfl, fun r hr => ?_, hsource⟩
          rcases List.mem_cons.mp hr with rfl | hr
          · exact hfound
          · exact hbefore r hr

/-- What a registration asked a cohort for. -/
def wantedOf (experimentId : String) (sealed : ResolvedSpecification) (request : ReuseRequest)
    (baseline : CandidateProposal) (runtime : RuntimeConditions) (revised : Revised) : Wanted where
  experimentId := experimentId
  specificationHash := sealed.specificationHash
  requested := request.inputPlan
  baseline := baseline.proposalId
  purpose := request.purpose
  conditions := runtime
  packageHash := revised.currentPackageHash

structure Registration (g : Hashes X) (host : TrialHost X) (db u : TrialDb X P V)
    (experimentId : String) (request : ReuseRequest) (r : Reused X)
    (definition current baselineRecord source : TrialRecord X) (sealed : ResolvedSpecification)
    (runtime : RuntimeConditions) (artifacts : List String) (revised : Revised)
    (baseline : CandidateProposal) (cohort : Cohort) (resolved : TestPlan) : Prop where
  valid : request.inputPlan.Valid
  settled : reuseRequest g host db experimentId request = .ok (sealed, runtime, artifacts)
  defined : definitionSpecification db request.definitionId = .ok (definition, sealed)
  conditions : runtimeConditions g host sealed request.inputPlan request.runtimeConditions
    = .ok (runtime, artifacts)
  selected : currentSelection db experimentId = some (current, revised)
  expected : current.recordId = request.expectedSelectionId
  baselineRead : db.read revised.currentBaselineId = .ok baselineRecord
  proposal : proposal? baselineRecord = some baseline
  found : firstCohort (fun source => sourceCohort g host db source
    (wantedOf experimentId sealed request baseline runtime revised))
    (frozenPairs db experimentId) = .ok (some (source, cohort))
  resolves : resolvePlan request.inputPlan baseline.proposalId cohort = .ok resolved
  stored : At u (g.identity experimentId "plan" request.inputPlan.planId) r.plan
  experiment : r.plan.experimentId = experimentId
  typed : plan? r.plan = some ⟨request.definitionId, request.purpose, resolved, none,
    some ⟨request, source.recordId, cohort.proofs⟩⟩
  linked : ∀ h ∈ artifacts, h ∈ r.plan.artifactHashes
  result : reuseResult g u r.plan = .ok r

omit [DecidableEq X] [DecidableEq V] in
theorem reuseResult_plan {record : TrialRecord X} {r : Reused X}
    (h : reuseResult g db record = .ok r) : r.plan = record := by
  simp only [reuseResult, bind_ok, pure_ok] at h
  obtain ⟨-, -, -, -, rfl⟩ := h
  rfl

omit [DecidableEq X] [DecidableEq V] in
theorem transaction_left {α : Type} {body : Body.Run (Entry X) P V α} :
    (transaction host body db).2 = db ∨ ∃ a, body db = .ok (a, (transaction host body db).2) ∧
        ∀ a', (transaction host body db).1 = .ok a' → a' = a := by
  rcases transaction_cases host body db with h | ⟨a, db', hbody, h⟩
  · exact .inl h
  · refine .inr ⟨a, h ▸ hbody, fun a' ha' => ?_⟩
    have hok := transaction_ok (Prod.ext ha' rfl :
      transaction host body db = (.ok a', (transaction host body db).2))
    rw [hbody] at hok
    cases hok
    rfl

theorem register_new (h : Lawful g db) {experimentId : String} {request : ReuseRequest}
    (hnew : ¬ hasRecord db (g.identity experimentId "plan" request.inputPlan.planId))
    (hthere : hasRecord (register g host experimentId request db).2
      (g.identity experimentId "plan" request.inputPlan.planId)) :
    ∃ r definition current baselineRecord source sealed runtime artifacts revised baseline cohort
      resolved, Registration g host db (register g host experimentId request db).2 experimentId
        request r definition current baselineRecord source sealed runtime artifacts revised baseline
        cohort resolved ∧ ∀ r', (register g host experimentId request db).1 = .ok r' → r' = r := by
  have hgrown : Grown g db (register g host experimentId request db).2 :=
    register_grown host experimentId request
  have hu := h.grown hgrown
  rw [register] at hthere hu ⊢
  cases hsettled : reuseRequest g host db experimentId request with
  | error e =>
      rw [hsettled] at hthere
      exact absurd hthere hnew
  | ok settled =>
      obtain ⟨sealed, runtime, artifacts⟩ := settled
      rw [hsettled] at hthere hu
      dsimp only at hthere hu ⊢
      rcases transaction_left with hleft | ⟨r, hbody, hreturned⟩
      · rw [hleft] at hthere
        exact absurd hthere hnew
      generalize transaction host _ db = x at hthere hu hbody hreturned ⊢
      obtain ⟨result, u⟩ := x
      dsimp only at hthere hu hbody hreturned ⊢
      have hrequest := hsettled
      simp only [reuseRequest, bind_ok, refuse_ok, not_not, pure_ok, Prod.mk.injEq] at hrequest
      obtain ⟨-, -, -, -, -, hvalid, ⟨definition, sealed'⟩, htyped, ⟨runtime', artifacts'⟩,
        hconditions, rfl, rfl, rfl⟩ := hrequest
      rw [if_neg hnew] at hbody
      simp only [registerReuse, bind_ok, need_ok, refuse_ok, not_or, not_not, pure_ok,
        Prod.mk.injEq] at hbody
      obtain ⟨⟨current, revised⟩, hcurrent, -, ⟨hexpected, -⟩, -, -, baselineRecord, hbaseline,
        baseline, hproposal, -, -, other, -, -, -, found, hfound, ⟨source, cohort⟩, hsome,
        resolved, hresolved, ⟨requests, host'⟩, hrequests, prepared, hprepared, ⟨_, db''⟩,
        hinsert, record, hrecord, result, hresult, hr, hu'⟩ := hbody
      subst hsome hr hu'
      obtain ⟨definition', sealed'', spec, request', tests, rfl, hdefinition', -, -, -, hkind,
        hexperiment, hidentity, hvalue, -⟩ := preparePlan_ok hrequests
      have hplanId : resolved.planId = request.inputPlan.planId := by
        simp only [resolvePlan, bind_ok, pure_ok] at hresolved
        obtain ⟨-, -, rfl⟩ := hresolved
        rfl
      rw [hplanId] at hidentity
      obtain ⟨first, rest, hfirst, hrest, rfl⟩ :=
        List.forall₂_cons_left_iff.mp (gather_ok.mp hprepared)
      obtain ⟨stored, hstored, hsame⟩ := insertAll_first hinsert
      have hprepare := prepare_same hfirst
      rw [← hsame] at hprepare
      have hat : At db'' (g.identity experimentId "plan" request.inputPlan.planId) stored :=
        ⟨hstored, hprepare.recordId.trans hidentity⟩
      obtain rfl : stored = record := hu.at_unique hat (.read hrecord)
      have hplan := reuseResult_plan hresult
      obtain ⟨hdefined, htyped', hdefinedExperiment⟩ := At.typed htyped
      refine ⟨result, definition, current, baselineRecord, source, sealed', runtime', artifacts',
        revised, baseline, cohort, resolved, {
          valid := hvalid
          settled := hsettled
          defined := ?_
          conditions := hconditions
          selected := hcurrent
          expected := hexpected
          baselineRead := hbaseline
          proposal := hproposal
          found := hfound
          resolves := hresolved
          stored := hplan ▸ hat
          experiment := ?_
          typed := ?_
          linked := ?_
          result := hplan ▸ hresult }, hreturned⟩
      · rw [definitionSpecification, h.read hdefined, bind_ok]
        exact ⟨definition, rfl, bind_ok.mpr ⟨sealed', need_ok.mpr htyped', rfl⟩⟩
      · rw [hplan]
        exact hprepare.experimentId.trans hexperiment
      · rw [hplan, plan?, hprepare.kind.trans hkind, hprepare.value.trans hvalue]
      · intro hash hhash
        rw [hplan, show stored.artifactHashes = first.artifactHashes from hsame ▸ rfl,
          prepare_artifacts hfirst, mem_sortedSet]
        exact List.mem_append_right _ hhash

end Registering

/-! ## What stays -/

def RuntimeConditions.Of (c : RuntimeConditions) (sealed : ResolvedSpecification)
    (request : ReuseRequest) : Prop :=
  c.tasks = request.runtimeConditions ∧ c.specificationHash = sealed.specificationHash

section Kept

variable [DecidableEq V] {experimentId : String} {request : ReuseRequest} {r : Reused X}
  {definition current baselineRecord source : TrialRecord X} {sealed : ResolvedSpecification}
  {runtime : RuntimeConditions} {artifacts : List String} {revised : Revised}
  {baseline : CandidateProposal} {cohort : Cohort} {resolved : TestPlan}

theorem Registration.sourced
    (hr : Registration g host db u experimentId request r definition current baselineRecord source
      sealed runtime artifacts revised baseline cohort resolved) :
    At db source.recordId source ∧ ∃ pair pinned planRecord definition' plan sealed' proofs,
      Sourced g host db source (wantedOf experimentId sealed request baseline runtime revised)
        cohort pair pinned planRecord definition' plan sealed' proofs := by
  obtain ⟨before, after, hpairs, -, hcohort⟩ := firstCohort_some hr.found
  have hmem : source ∈ frozenPairs db experimentId := by
    rw [hpairs]
    exact List.mem_append_right _ List.mem_cons_self
  exact ⟨⟨List.mem_of_mem_filter hmem, rfl⟩, sourceCohort_ok.mp hcohort⟩

theorem Registration.runtime_ok
    (hr : Registration g host db u experimentId request r definition current baselineRecord source
      sealed runtime artifacts revised baseline cohort resolved) :
    runtime.tasks = request.runtimeConditions ∧
      runtime.specificationHash = sealed.specificationHash ∧
      artifacts = request.runtimeConditions.values.flatMap TaskComparisonConditions.hashes := by
  obtain ⟨-, -, hfound⟩ := runtimeConditions_ok.mp hr.conditions
  obtain ⟨rfl, rfl⟩ := Prod.mk.inj hfound
  exact ⟨rfl, rfl, rfl⟩

theorem Registration.kept
    (hr : Registration g host db u experimentId request r definition current baselineRecord source
      sealed runtime artifacts revised baseline cohort resolved) (hgrown : Grown g u t)
    (hkeeps : Keeps host' t) :
    ∀ h ∈ request.runtimeConditions.values.flatMap TaskComparisonConditions.hashes,
      (host'.artifacts h).isSome = true := by
  obtain ⟨-, -, hartifacts⟩ := hr.runtime_ok
  intro hash hhash
  rw [← hartifacts] at hhash
  exact hkeeps r.plan (hr.stored.within hgrown.within).1 hash (hr.linked hash hhash)

theorem Registration.validates (h : Lawful g db) (hdb : Grown g db u)
    (hr : Registration g host db u experimentId request r definition current baselineRecord source
      sealed runtime artifacts revised baseline cohort resolved) (hgrown : Grown g u t)
    (hkeeps : Keeps host' t) {plan : PlanEntry} (hplan : plan? r.plan = some plan)
    {conditions : RuntimeConditions} (hconditions : conditions.Of sealed request) :
    validateReusedPlan g host' t r.plan plan (some request.expectedSelectionId) (some conditions)
      = .ok () := by
  have hgrown' : Grown g db t := hdb.trans hgrown
  have ht := h.grown hgrown'
  obtain rfl := Option.some_inj.mp (hr.typed.symm.trans hplan)
  obtain ⟨hsource, pair, pinned, planRecord, definition', sourcePlan, sealed', proofs, hsourced⟩ :=
    hr.sourced
  obtain ⟨htasks, hsealed, -⟩ := hr.runtime_ok
  obtain ⟨hselected, -, hrevised⟩ := currentSelection_some hr.selected
  have hbaseline : ∀ s ∈ cohort.samples, s.proposalId = baseline.proposalId := by
    obtain rfl := hsourced.found
    exact fun s hs => of_decide_eq_true (List.mem_filter.mp hs).2
  have hsize := hsourced.size
  have hsamples : cohort.samples = sourcePlan.plan.samplesOf baseline.proposalId := by
    rw [hsourced.found]
    rfl
  obtain ⟨-, hseeds, hslots⟩ := resolvePlan_ok hbaseline hr.resolves
  have hperm := resolvePlan_perm hr.valid hbaseline (hsamples ▸ hsize) hr.resolves
  refine (validateReusedPlan_ok rfl).mpr ⟨conditions, current, baselineRecord, source, revised,
    baseline, definition, sealed, cohort, {
      selection := rfl
      pinned := rfl
      tasks := hconditions.1
      chosen := ht.read (At.within ⟨hselected, hr.expected⟩ hgrown'.within)
      revision := hrevised
      current := hgrown'.above.read hr.baselineRead
      proposal := hr.proposal
      defined := definitionSpecification_later hgrown' hr.defined
      original := ht.read (hsource.within hgrown'.within)
      found := ?_
      sources := rfl
      samples := List.isPerm_iff.mpr hperm }⟩
  refine sourceCohort_ok.mpr ⟨pair, pinned, planRecord, definition', sourcePlan, sealed', proofs,
    hsourced.later hgrown' hr.experiment rfl rfl rfl rfl hseeds ?_ ?_ ?_ ?_⟩
  · exact hconditions.1.trans htasks.symm
  · exact hconditions.2.trans hsealed.symm
  · exact (map_rel hslots fun s r hone => hone.2.symm).symm
  · rw [show (wantedOf experimentId sealed request baseline runtime revised).conditions.tasks
      = request.runtimeConditions from htasks]
    exact hr.kept hgrown hkeeps

end Kept

/-! ## The same request -/

section Again

variable [DecidableEq X] [DecidableEq V] {experimentId : String} {request : ReuseRequest}
  {r : Reused X} {definition current baselineRecord source : TrialRecord X}
  {sealed : ResolvedSpecification} {runtime : RuntimeConditions} {artifacts : List String}
  {revised : Revised} {baseline : CandidateProposal} {cohort : Cohort} {resolved : TestPlan}

omit [DecidableEq X] [DecidableEq V] in
theorem reuseResult_later (hgrown : Grown g u t) {record : TrialRecord X}
    (h : reuseResult g u record = .ok r) : reuseResult g t record = .ok r := by
  simp only [reuseResult, bind_ok] at h ⊢
  obtain ⟨plan, hplan, tests, htests, hrest⟩ := h
  exact ⟨plan, hplan, tests, gather_ok.mpr ((gather_ok.mp htests).imp
    fun s test hread => hgrown.above.read hread), hrest⟩

omit [DecidableEq X] [DecidableEq V] in
theorem transaction_quiet {α : Type} {body : Body.Run (Entry X) P V α} {a : α}
    (hquiet : ∀ point, host.faults point = false) (h : body db = .ok (a, u)) :
    transaction host body db = (.ok a, u) := by
  rw [transaction, h]
  simp [Host.fault, refuse, hquiet]

theorem Registration.again (h : Lawful g db) (hdb : Grown g db u)
    (hr : Registration g host db u experimentId request r definition current baselineRecord source
      sealed runtime artifacts revised baseline cohort resolved) (hgrown : Grown g u t)
    (hkeeps : Keeps host' t) (hquiet : ∀ point, host'.faults point = false) :
    register g host' experimentId request t = (.ok r, t) := by
  have ht := (h.grown hdb).grown hgrown
  have hthere := hr.stored.within hgrown.within
  have hsettled : reuseRequest g host' t experimentId request
      = .ok (sealed, runtime, artifacts) := by
    have hrequest := hr.settled
    simp only [reuseRequest, bind_ok] at hrequest ⊢
    obtain ⟨_, hpurpose, _, hidentity, _, hvalid, ⟨definition', sealed'⟩, htyped, found, hfound,
      hrest⟩ := hrequest
    obtain ⟨hsame, -, hconditions⟩ := runtimeConditions_ok.mp hfound
    refine ⟨(), hpurpose, (), hidentity, (), hvalid, (definition', sealed'), ?_, found,
      runtimeConditions_ok.mpr ⟨hsame, hr.kept hgrown hkeeps, hconditions⟩, hrest⟩
    simp only [Trials.typed, bind_ok] at htyped ⊢
    obtain ⟨record, hread, htyped⟩ := htyped
    exact ⟨record, (hdb.trans hgrown).above.read hread, htyped⟩
  rw [register, hsettled]
  refine transaction_quiet hquiet ?_
  have hhas : hasRecord t (g.identity experimentId "plan" request.inputPlan.planId) :=
    ⟨r.plan, hthere⟩
  dsimp only
  rw [if_pos hhas]
  simp only [bind_ok, refuse_ok, not_not, pure_ok]
  refine ⟨r.plan, ht.read hthere, (), ?_, r, reuseResult_later hgrown hr.result, rfl⟩
  rw [hr.typed]
  rfl

omit [DecidableEq X] in
theorem Registration.reused
    (hr : Registration g host db u experimentId request r definition current baselineRecord source
      sealed runtime artifacts revised baseline cohort resolved) :
    r.reusedTestIds = cohort.proofs.keys ∧ ∀ id ∈ r.reusedTestIds, ∃ sample ∈ cohort.samples,
      id = g.identity experimentId "test" sample.testId ∧ ∃ test, db.test id = .ok test ∧
        db.status id = .ok .completed := by
  have hkeys : r.reusedTestIds = cohort.proofs.keys := by
    have hresult := hr.result
    simp only [reuseResult, bind_ok, need_ok, pure_ok] at hresult
    obtain ⟨plan, hplan, tests, -, hresult⟩ := hresult
    obtain rfl := Option.some_inj.mp (hr.typed.symm.trans hplan)
    rw [← hresult]
    rfl
  refine ⟨hkeys, fun id hid => ?_⟩
  obtain ⟨-, pair, pinned, planRecord, definition', plan, sealed', proofs, hsourced⟩ := hr.sourced
  rw [hkeys, Dict.mem_keys] at hid
  obtain ⟨proof, hproof⟩ := hid
  obtain ⟨sample, hsample, record, first, test, assessment, conditions, hproven⟩ :=
    hsourced.proof hproof
  exact ⟨sample, hsample, hproven.identity, record, hproven.read, hproven.completed⟩

omit [DecidableEq X] in
theorem Registration.not_new
    (hr : Registration g host db u experimentId request r definition current baselineRecord source
      sealed runtime artifacts revised baseline cohort resolved) {id : String}
    (hid : id ∈ r.reusedTestIds) : id ∉ r.newTestIds := by
  have hresult := hr.result
  simp only [reuseResult, bind_ok, need_ok, pure_ok] at hresult
  obtain ⟨plan, -, tests, -, hresult⟩ := hresult
  rw [← hresult] at hid ⊢
  intro hnew
  have hcontains : plan.sources.contains id = true :=
    Dict.contains_iff.mpr (Dict.mem_keys.mp hid)
  rw [List.mem_filter, hcontains] at hnew
  exact absurd hnew.2 (by decide)

omit [DecidableEq X] in
theorem Registration.slots
    (hr : Registration g host db u experimentId request r definition current baselineRecord source
      sealed runtime artifacts revised baseline cohort resolved) :
    (resolved.samplesOf baseline.proposalId).Perm cohort.samples := by
  obtain ⟨-, pair, pinned, planRecord, definition', plan, sealed', proofs, hsourced⟩ := hr.sourced
  have hsize := hsourced.size
  obtain rfl := hsourced.found
  exact resolvePlan_perm hr.valid
    (fun s hs => of_decide_eq_true (List.mem_filter.mp hs).2) hsize hr.resolves

end Again

end Ahunter.Trials
