import Ahunter.Proofs.TrialLog

/-!
# What a cohort proves

A cohort is found when every check on the way passed, and its proofs are
those of its samples. Each of these is an equivalence, so that a cohort that
was found once can be found again wherever the checks still pass.
-/

namespace Ahunter.Trials

open Ahunter.Lib Ahunter.Records

variable {X P V : Type} [DecidableEq V] {g : Hashes X} {db : TrialDb X P V}

/-! ## Samples -/

structure Proven (g : Hashes X) (db : TrialDb X P V) (source planRecord : TrialRecord X)
    (definitionId experimentId packageHash : String) (runtime : RuntimeConditions)
    (sample : PlannedTest) (testId : String) (proof : ReuseProof) (record first : TrialRecord X)
    (test : TestEntry) (assessment : Assessment) (conditions : TaskComparisonConditions) :
    Prop where
  identity : testId = g.identity experimentId "test" sample.testId
  read : db.test testId = .ok record
  typed : test? record = some test
  plan : test.planId = planRecord.recordId
  planned : test.sample = sample
  definition : test.definitionId = definitionId
  original : test.rerunOf = none
  completed : db.status testId = .ok .completed
  earliest : firstAssessment db testId = some (first, assessment)
  experiment : first.experimentId = experimentId
  linked : ⟨"test", testId⟩ ∈ first.links
  frozen : runtime.tasks.get? sample.taskId = some conditions
  conforms : MatchesConditions g assessment sample runtime.specificationHash conditions packageHash
  shown : proof = {
    sourcePlanId := planRecord.recordId
    sourcePlanHash := g.content planRecord.value
    sourceComparisonId := source.recordId
    sourceComparisonHash := g.content source.value
    testHash := g.content record.value
    assessmentId := first.recordId
    assessmentHash := g.content first.value }

theorem sampleProof_ok {source planRecord : TrialRecord X}
    {definitionId experimentId packageHash : String} {runtime : RuntimeConditions}
    {sample : PlannedTest} {testId : String} {proof : ReuseProof} :
    sampleProof g db source planRecord definitionId experimentId packageHash runtime sample
        = .ok (some (testId, proof)) ↔
      ∃ record first test assessment conditions, Proven g db source planRecord definitionId
        experimentId packageHash runtime sample testId proof record first test assessment
        conditions := by
  constructor
  · intro h
    simp only [sampleProof, bind_ok] at h
    obtain ⟨record, hrecord, h⟩ := h
    split at h
    · cases h
    · next test htest =>
        split at h
        · cases h
        · next hbound =>
            simp only [not_or, not_not] at hbound
            obtain ⟨status, hstatus, h⟩ := bind_ok.mp h
            split at h
            · cases h
            · next hcompleted =>
                rw [not_not] at hcompleted
                split at h
                · cases h
                · next first assessment hfirst =>
                    simp only [bind_ok, refuse_ok, need_ok, not_or, not_not] at h
                    obtain ⟨-, hscope, conditions, hconditions, h⟩ := h
                    split at h
                    · cases h
                    · next hmatch =>
                        rw [not_not] at hmatch
                        cases h
                        exact ⟨record, first, test, assessment, conditions, {
                          identity := rfl
                          read := hrecord
                          typed := htest
                          plan := hbound.1
                          planned := hbound.2.1
                          definition := hbound.2.2.1
                          original := hbound.2.2.2
                          completed := hcompleted ▸ hstatus
                          earliest := hfirst
                          experiment := hscope.1
                          linked := hscope.2
                          frozen := hconditions
                          conforms := hmatch
                          shown := rfl }⟩
  · rintro ⟨record, first, test, assessment, conditions, h⟩
    obtain rfl := h.identity
    simp only [sampleProof, bind_ok]
    refine ⟨record, h.read, ?_⟩
    rw [h.typed]
    dsimp only
    rw [if_neg (by simp [h.plan, h.planned, h.definition, h.original])]
    refine bind_ok.mpr ⟨.completed, h.completed, ?_⟩
    rw [if_neg (by simp), h.earliest]
    simp only [bind_ok, refuse_ok, need_ok, not_or, not_not]
    refine ⟨(), ⟨h.experiment, h.linked⟩, conditions, h.frozen, ?_⟩
    rw [if_neg (by simpa using h.conforms), h.shown]
    rfl

theorem sampleProofs_ok {f : PlannedTest → Attempt (Option (String × ReuseProof))}
    {samples : List PlannedTest} {proofs : List (String × ReuseProof)} :
    sampleProofs f samples = .ok (some proofs) ↔
      List.Forall₂ (fun s proof => f s = .ok (some proof)) samples proofs := by
  induction samples generalizing proofs with
  | nil =>
      rw [List.forall₂_nil_left_iff, sampleProofs, pure_ok, Option.some.injEq, eq_comm]
  | cons s rest ih =>
      rw [List.forall₂_cons_left_iff]
      simp only [sampleProofs, bind_ok]
      constructor
      · rintro ⟨o, hs, h⟩
        cases o with
        | none => cases h
        | some proof =>
            obtain ⟨o', hrest, h⟩ := bind_ok.mp h
            cases o' with
            | none => cases h
            | some proofs' =>
                cases h
                exact ⟨proof, proofs', hs, ih.mp hrest, rfl⟩
      · rintro ⟨proof, proofs', hs, hrest, rfl⟩
        exact ⟨some proof, hs, bind_ok.mpr ⟨some proofs', ih.mpr hrest, rfl⟩⟩

/-! ## Cohorts -/

structure Sourced (g : Hashes X) (host : TrialHost X) (db : TrialDb X P V)
    (source : TrialRecord X) (w : Wanted) (cohort : Cohort) (pair : Pair)
    (pinned : RuntimeConditions) (planRecord definition : TrialRecord X) (plan : PlanEntry)
    (sealed : ResolvedSpecification) (proofs : List (String × ReuseProof)) : Prop where
  frozen : pair? source = some pair
  runtimePinned : pair.runtime = some (pinned, g.runtime pinned pair.packages)
  admits : w.Admits source pair
  read : db.read pair.planId = .ok planRecord
  typed : plan? planRecord = some plan
  experiment : planRecord.experimentId = w.experimentId
  planHash : g.content planRecord.value = pair.planHash
  purpose : plan.purpose = w.purpose
  seeds : plan.plan.seedSupport = w.requested.seedSupport
  specification : pair.specificationHash = w.specificationHash
  defined : definitionSpecification db plan.definitionId = .ok (definition, sealed)
  tasks : pinned.tasks = w.conditions.tasks
  runtime : ∃ artifacts, runtimeConditions g host sealed plan.plan pinned.tasks
    = .ok (pinned, artifacts)
  runtimeHash : pinned.specificationHash = w.conditions.specificationHash
  size : (plan.plan.samplesOf w.baseline).length
    = ((w.requested.samplesOf w.baseline).map PlannedTest.repeatKey).dedup.length
  keys : SameElements ((plan.plan.samplesOf w.baseline).map PlannedTest.repeatKey)
    ((w.requested.samplesOf w.baseline).map PlannedTest.repeatKey)
  proven : sampleProofs (sampleProof g db source planRecord plan.definitionId w.experimentId
    w.packageHash pinned) (plan.plan.samplesOf w.baseline) = .ok (some proofs)
  found : cohort = ⟨plan.plan.samplesOf w.baseline, Dict.ofList proofs⟩

variable {host : TrialHost X}

theorem sourceCohort_ok {source : TrialRecord X} {w : Wanted} {cohort : Cohort} :
    sourceCohort g host db source w = .ok (some cohort) ↔
      ∃ pair pinned planRecord definition plan sealed proofs,
        Sourced g host db source w cohort pair pinned planRecord definition plan sealed
          proofs := by
  constructor
  · intro h
    unfold sourceCohort at h
    split at h
    · cases h
    · next pair hpair =>
        split at h
        · cases h
        · next pinned fingerprint hruntime =>
            split at h
            · cases h
            · next hadmits =>
                rw [not_not] at hadmits
                simp only [bind_ok, need_ok, refuse_ok, not_or, not_not] at h
                obtain ⟨planRecord, hread, plan, hplan, -, ⟨hexperiment, hhash⟩, h⟩ := h
                split at h
                · cases h
                · next hshape =>
                    simp only [not_or, not_not] at hshape
                    rw [bind_ok] at h
                    obtain ⟨⟨definition, sealed⟩, hdefinition, h⟩ := h
                    split at h
                    · cases h
                    · next htasks =>
                        rw [not_not] at htasks
                        rw [bind_ok] at h
                        obtain ⟨⟨runtime, artifacts⟩, hconditions, h⟩ := h
                        simp only [bind_ok, refuse_ok, not_or, not_not] at h
                        obtain ⟨-, ⟨hpinned, hfingerprint⟩, h⟩ := h
                        subst hpinned
                        split at h
                        · cases h
                        · next hkeys =>
                            simp only [not_or, not_not] at hkeys
                            obtain ⟨o, hproofs, h⟩ := bind_ok.mp h
                            cases o with
                            | none => cases h
                            | some proofs =>
                                cases h
                                exact ⟨pair, _, planRecord, definition, plan, sealed, proofs, {
                                  frozen := hpair
                                  runtimePinned := hfingerprint ▸ hruntime
                                  admits := hadmits
                                  read := hread
                                  typed := hplan
                                  experiment := hexperiment
                                  planHash := hhash
                                  purpose := hshape.1
                                  seeds := hshape.2.1
                                  specification := hshape.2.2
                                  defined := hdefinition
                                  tasks := htasks
                                  runtime := ⟨artifacts, hconditions⟩
                                  runtimeHash := hkeys.1
                                  size := hkeys.2.1
                                  keys := hkeys.2.2
                                  proven := hproofs
                                  found := rfl }⟩
  · rintro ⟨pair, pinned, planRecord, definition, plan, sealed, proofs, h⟩
    obtain ⟨artifacts, hconditions⟩ := h.runtime
    rw [sourceCohort, h.frozen]
    dsimp only
    rw [h.runtimePinned]
    dsimp only
    rw [if_neg (by simpa using h.admits)]
    simp only [bind_ok, need_ok, refuse_ok, not_or, not_not]
    refine ⟨planRecord, h.read, plan, h.typed, (), ⟨h.experiment, h.planHash⟩, ?_⟩
    rw [if_neg (by simp [h.purpose, h.seeds, h.specification])]
    refine bind_ok.mpr ⟨(definition, sealed), h.defined, ?_⟩
    rw [if_neg (by simp [h.tasks])]
    refine bind_ok.mpr ⟨(pinned, artifacts), hconditions, ?_⟩
    refine bind_ok.mpr ⟨(), refuse_ok.mpr (by simp), ?_⟩
    rw [if_neg (by simp [h.runtimeHash, h.size, h.keys])]
    refine bind_ok.mpr ⟨some proofs, h.proven, ?_⟩
    rw [h.found]
    rfl

theorem Sourced.proof {source : TrialRecord X} {w : Wanted}
    {cohort : Cohort} {pair : Pair} {pinned : RuntimeConditions}
    {planRecord definition : TrialRecord X} {plan : PlanEntry} {sealed : ResolvedSpecification}
    {proofs : List (String × ReuseProof)}
    (h : Sourced g host db source w cohort pair pinned planRecord definition plan sealed proofs)
    {testId : String} {proof : ReuseProof} (hproof : cohort.proofs.get? testId = some proof) :
    ∃ sample ∈ cohort.samples, ∃ record first test assessment conditions,
      Proven g db source planRecord plan.definitionId w.experimentId w.packageHash pinned sample
        testId proof record first test assessment conditions := by
  obtain rfl := h.found
  have hmem := Dict.get?_ofList hproof
  obtain ⟨sample, hsample, hone⟩ := forall₂_from (sampleProofs_ok.mp h.proven) hmem
  exact ⟨sample, hsample, sampleProof_ok.mp hone⟩

/-! ## Plans -/

structure Validated (g : Hashes X) (host : TrialHost X) (db : TrialDb X P V)
    (planRecord : TrialRecord X) (plan : PlanEntry) (selectionId : Option String)
    (runtime : Option RuntimeConditions) (reuse : Reuse) (conditions : RuntimeConditions)
    (selected baselineRecord source : TrialRecord X) (revised : Revised)
    (baseline : CandidateProposal) (definition : TrialRecord X) (sealed : ResolvedSpecification)
    (cohort : Cohort) : Prop where
  selection : selectionId = some reuse.request.expectedSelectionId
  pinned : runtime = some conditions
  tasks : conditions.tasks = reuse.request.runtimeConditions
  chosen : db.read reuse.request.expectedSelectionId = .ok selected
  revision : revised? selected = some revised
  current : db.read revised.currentBaselineId = .ok baselineRecord
  proposal : proposal? baselineRecord = some baseline
  defined : definitionSpecification db plan.definitionId = .ok (definition, sealed)
  original : db.read reuse.sourceComparisonId = .ok source
  found : sourceCohort g host db source {
    experimentId := planRecord.experimentId
    specificationHash := sealed.specificationHash
    requested := plan.plan
    baseline := baseline.proposalId
    purpose := plan.purpose
    conditions := conditions
    packageHash := revised.currentPackageHash } = .ok (some cohort)
  sources : cohort.proofs = reuse.sources
  samples : (plan.plan.samplesOf baseline.proposalId).isPerm cohort.samples = true

theorem validateReusedPlan_ok {planRecord : TrialRecord X} {plan : PlanEntry}
    {selectionId : Option String} {runtime : Option RuntimeConditions} {reuse : Reuse}
    (hreuse : plan.reuse = some reuse) :
    validateReusedPlan g host db planRecord plan selectionId runtime = .ok () ↔
      ∃ conditions selected baselineRecord source revised baseline definition sealed cohort,
        Validated g host db planRecord plan selectionId runtime reuse conditions selected
          baselineRecord source revised baseline definition sealed cohort := by
  rw [validateReusedPlan, hreuse]
  simp only [bind_ok, refuse_ok, need_ok, not_not]
  constructor
  · rintro ⟨-, hselection, conditions, hruntime, -, htasks, selected, hselected, revised,
      hrevised, baselineRecord, hcurrent, baseline, hproposal, ⟨definition, sealed⟩, hdefined,
      source, horiginal, found, hfound, cohort, rfl, -, hsources, hsamples⟩
    exact ⟨conditions, selected, baselineRecord, source, revised, baseline, definition, sealed,
      cohort, hselection, hruntime, htasks, hselected, hrevised, hcurrent, hproposal, hdefined,
      horiginal, hfound, hsources, by simpa using hsamples⟩
  · rintro ⟨conditions, selected, baselineRecord, source, revised, baseline, definition, sealed,
      cohort, h⟩
    exact ⟨(), h.selection, conditions, h.pinned, (), h.tasks, selected, h.chosen, revised,
      h.revision, baselineRecord, h.current, baseline, h.proposal, (definition, sealed),
      h.defined, source, h.original, some cohort, h.found, cohort, rfl, (), h.sources,
      by simpa using h.samples⟩

end Ahunter.Trials
