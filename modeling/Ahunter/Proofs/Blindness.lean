import Ahunter.Proofs.Reusing

/-!
# The choice of a cohort

Two stores that differ only in the terminal values of assessments, in the
hashes made from them and in what was reduced from them, choose the same
cohort: what qualifies a sample reads no value. So registering a plan comes
to the same in both, down to the tests it reuses.
-/

namespace Ahunter.Trials

open Ahunter.Lib Ahunter.Records

variable {X P V : Type} {g : Hashes X} {db db' : TrialDb X P V} {host host' : TrialHost X}

/-! ## Stores that differ in values -/

def Assessment.blur (a : Assessment) : Assessment :=
  { a with navDiagnostic := a.navDiagnostic.map fun nav => { nav with terminalNav := none } }

def ReuseProof.blur (p : ReuseProof) : ReuseProof :=
  { p with
    sourcePlanHash := ""
    sourceComparisonHash := ""
    testHash := ""
    assessmentHash := "" }

def PlanEntry.blur (p : PlanEntry) : PlanEntry :=
  { p with reuse := p.reuse.map fun r => { r with sources := r.sources.map fun _ q => q.blur } }

def Pair.blur (c : Pair) : Pair :=
  { c with
    planHash := ""
    selection := c.selection.map fun s => (s.1, "")
    registrationFingerprint := "" }

def Revised.blur (r : Revised) : Revised := { r with previousSelectionHash := none }

def SelectionEntry.blur (s : SelectionEntry) : SelectionEntry where
  decided := s.decided.map fun d => { d with
    comparisonHash := ""
    observedSelectionHash := "" }
  revised := s.revised.map Revised.blur

inductive SameValue : Entry X → Entry X → Prop
  | same (v : Entry X) : SameValue v v
  | evaluation {a a' : Assessment} (h : a.blur = a'.blur) :
      SameValue (.evaluation a) (.evaluation a')
  | testPlan {p p' : PlanEntry} (h : p.blur = p'.blur) : SameValue (.testPlan p) (.testPlan p')
  | comparisonPlan {c c' : Pair} (h : c.blur = c'.blur) :
      SameValue (.comparisonPlan c) (.comparisonPlan c')
  | comparisonResult (c c' : ComparisonResult) :
      SameValue (.comparisonResult c) (.comparisonResult c')
  | selection {s s' : SelectionEntry} (h : s.blur = s'.blur) :
      SameValue (.selection s) (.selection s')
  | exposure {r r' : Release} (h : { r with targetHash := "" } = { r' with targetHash := "" }) :
      SameValue (.exposure (.released r)) (.exposure (.released r'))

inductive SameBody : Body (Entry X) → Body (Entry X) → Prop
  | attempt (lease : Lease) : SameBody (.attempt lease) (.attempt lease)
  | data {v v' : Entry X} (h : SameValue v v') : SameBody (.data v) (.data v')

/-- Two requests, or two records, that differ so. -/
structure SamePrepared (p p' : Prepared (Entry X)) : Prop where
  experimentId : p.experimentId = p'.experimentId
  kind : p.kind = p'.kind
  recordId : p.recordId = p'.recordId
  submissionIdentity : p.submissionIdentity = p'.submissionIdentity
  links : p.links = p'.links
  sourcePolicyHashes : p.sourcePolicyHashes = p'.sourcePolicyHashes
  value : SameBody p.value p'.value
  artifactHashes : p.value = p'.value → p.artifactHashes = p'.artifactHashes

structure Twin (r r' : TrialRecord X) : Prop extends SamePrepared r.toPrepared r'.toPrepared where
  sequence : r.sequence = r'.sequence
  createdAt : r.createdAt = r'.createdAt

/-- Two stores whose records differ so, and nothing else does. -/
structure Twins (db db' : TrialDb X P V) : Prop where
  experiments : db.experiments = db'.experiments
  events : db.events = db'.events
  projections : db.projections = db'.projections
  records : List.Forall₂ Twin db.records db'.records

/-! ## What is read -/

namespace Twin

variable {r r' : TrialRecord X}

theorem view {α : Type} {view : TrialRecord X → Option α} {R : α → α → Prop}
    (hview : ∀ k v v', SameValue v v' → ∀ s s' : TrialRecord X, s.kind = k → s'.kind = k →
      s.value = .data v → s'.value = .data v' → Option.Rel R (view s) (view s'))
    (hattempt : ∀ s lease, s.value = .attempt lease → view s = none) (h : Twin r r') :
    Option.Rel R (view r) (view r') := by
  cases hv : r.value with
  | attempt lease =>
      have hbody := h.value
      rw [hv] at hbody
      cases hv' : r'.value with
      | attempt lease' => rw [hattempt _ _ hv, hattempt _ _ hv']; exact .none
      | data v' => rw [hv'] at hbody; cases hbody
  | data v =>
      have hbody := h.value
      rw [hv] at hbody
      cases hv' : r'.value with
      | attempt lease' => rw [hv'] at hbody; cases hbody
      | data v' =>
          rw [hv'] at hbody
          cases hbody with
          | data hsame => exact hview _ v v' hsame r r' rfl h.kind.symm hv hv'

theorem plan? (h : Twin r r') :
    Option.Rel (fun p p' : PlanEntry => p.blur = p'.blur) (Trials.plan? r) (Trials.plan? r') := by
  refine h.view (fun k v v' hsame s s' hk hk' hv hv' => ?_) fun s lease hv => ?_
  · rw [Trials.plan?, Trials.plan?, hk, hk', hv, hv']
    cases hsame with
    | same v => split <;> first | exact .some rfl | exact .none
    | testPlan h => cases k <;> first | exact .some h | exact .none
    | _ => cases k <;> exact .none
  · rw [Trials.plan?, hv]
    cases s.kind <;> rfl

theorem pair? (h : Twin r r') :
    Option.Rel (fun c c' : Pair => c.blur = c'.blur) (Trials.pair? r) (Trials.pair? r') := by
  refine h.view (fun k v v' hsame s s' hk hk' hv hv' => ?_) fun s lease hv => ?_
  · rw [Trials.pair?, Trials.pair?, hk, hk', hv, hv']
    cases hsame with
    | same v => split <;> first | exact .some rfl | exact .none
    | comparisonPlan h => cases k <;> first | exact .some h | exact .none
    | _ => cases k <;> exact .none
  · rw [Trials.pair?, hv]
    cases s.kind <;> rfl

theorem assessment? (h : Twin r r') :
    Option.Rel (fun a a' : Assessment => a.blur = a'.blur) (Trials.assessment? r)
      (Trials.assessment? r') := by
  refine h.view (fun k v v' hsame s s' hk hk' hv hv' => ?_) fun s lease hv => ?_
  · rw [Trials.assessment?, Trials.assessment?, hk, hk', hv, hv']
    cases hsame with
    | same v => split <;> first | exact .some rfl | exact .none
    | evaluation h => cases k <;> first | exact .some h | exact .none
    | _ => cases k <;> exact .none
  · rw [Trials.assessment?, hv]
    cases s.kind <;> rfl

theorem selection? (h : Twin r r') :
    Option.Rel (fun s s' : SelectionEntry => s.blur = s'.blur) (Trials.selection? r)
      (Trials.selection? r') := by
  refine h.view (fun k v v' hsame s s' hk hk' hv hv' => ?_) fun s lease hv => ?_
  · rw [Trials.selection?, Trials.selection?, hk, hk', hv, hv']
    cases hsame with
    | same v => split <;> first | exact .some rfl | exact .none
    | selection h => cases k <;> first | exact .some h | exact .none
    | _ => cases k <;> exact .none
  · rw [Trials.selection?, hv]
    cases s.kind <;> rfl

theorem test? (h : Twin r r') : Option.Rel Eq (Trials.test? r) (Trials.test? r') := by
  refine h.view (fun k v v' hsame s s' hk hk' hv hv' => ?_) fun s lease hv => ?_
  · rw [Trials.test?, Trials.test?, hk, hk', hv, hv']
    cases hsame with
    | same v => split <;> first | exact .some rfl | exact .none
    | _ => cases k <;> exact .none
  · rw [Trials.test?, hv]
    cases s.kind <;> rfl

theorem specification? (h : Twin r r') :
    Option.Rel Eq (Trials.specification? r) (Trials.specification? r') := by
  refine h.view (fun k v v' hsame s s' hk hk' hv hv' => ?_) fun s lease hv => ?_
  · rw [Trials.specification?, Trials.specification?, hk, hk', hv, hv']
    cases hsame with
    | same v => split <;> first | exact .some rfl | exact .none
    | _ => cases k <;> exact .none
  · rw [Trials.specification?, hv]
    cases s.kind <;> rfl

theorem proposal? (h : Twin r r') : Option.Rel Eq (Trials.proposal? r) (Trials.proposal? r') := by
  refine h.view (fun k v v' hsame s s' hk hk' hv hv' => ?_) fun s lease hv => ?_
  · rw [Trials.proposal?, Trials.proposal?, hk, hk', hv, hv']
    cases hsame with
    | same v => split <;> first | exact .some rfl | exact .none
    | _ => cases k <;> exact .none
  · rw [Trials.proposal?, hv]
    cases s.kind <;> rfl

theorem revised? (h : Twin r r') :
    Option.Rel (fun e e' : Revised => e.blur = e'.blur) (Trials.revised? r)
      (Trials.revised? r') := by
  have hselection := h.selection?
  rw [Trials.revised?, Trials.revised?]
  generalize Trials.selection? r = s at hselection ⊢
  generalize Trials.selection? r' = s' at hselection ⊢
  cases hselection with
  | none => exact .none
  | @some e e' hone =>
      have hrevised : e.revised.map Revised.blur = e'.revised.map Revised.blur :=
        congrArg SelectionEntry.revised hone
      rw [Option.bind_some, Option.bind_some]
      cases he : e.revised with
      | none =>
          rw [he, Option.map_none, eq_comm, Option.map_eq_none_iff] at hrevised
          rw [hrevised]
          exact .none
      | some x =>
          rw [he, Option.map_some, eq_comm, Option.map_eq_some_iff] at hrevised
          obtain ⟨x', hx', hsame⟩ := hrevised
          rw [hx']
          exact .some hsame.symm

end Twin

theorem rel_eq {α : Type} {a b : Option α} (h : Option.Rel Eq a b) : a = b := by
  cases h with
  | none => rfl
  | some h => rw [h]

namespace Twins

variable (h : Twins db db')

include h

theorem find (id : String) : Option.Rel Twin (db.records.find? fun r => r.recordId = id)
    (db'.records.find? fun r => r.recordId = id) :=
  find_rel h.records fun r r' htwin => by rw [htwin.recordId]

theorem read (id : String) : Matched Twin (db.read id) (db'.read id) := .need (h.find id)

theorem test (id : String) : Matched Twin (db.test id) (db'.test id) := by
  refine (h.read id).bind fun r r' htwin => ?_
  exact (Matched.refuse (by rw [htwin.kind])).bind fun _ _ _ => .pure htwin

theorem status [DecidableEq V] (id : String) : db.status id = db'.status id := by
  have htest := h.test id
  rw [Db.status, Db.status, Db.projection_congr h.events h.projections]
  generalize db.test id = x at htest ⊢
  generalize db'.test id = y at htest ⊢
  cases htest with
  | ok _ => rfl
  | error e => rfl

theorem has (id : String) : hasRecord db id ↔ hasRecord db' id := by
  have hany := any_rel (p := fun r => decide (r.recordId = id))
    (q := fun r => decide (r.recordId = id)) h.records fun r r' htwin => by rw [htwin.recordId]
  simpa [hasRecord] using Bool.eq_iff_iff.mp hany

theorem typed {α : Type} {view : TrialRecord X → Option α} {R : α → α → Prop}
    (hview : ∀ r r', Twin r r' → Option.Rel R (view r) (view r')) (experimentId id : String) :
    Matched (fun x x' => Twin x.1 x'.1 ∧ R x.2 x'.2) (Trials.typed view experimentId db id)
      (Trials.typed view experimentId db' id) := by
  refine (h.read id).bind fun r r' htwin => ?_
  refine (Matched.need (hview r r' htwin)).bind fun a a' ha => ?_
  exact (Matched.refuse (by rw [htwin.experimentId])).bind fun _ _ _ => .pure ⟨htwin, ha⟩

theorem definitionSpecification (id : String) :
    Matched (fun x x' => Twin x.1 x'.1 ∧ x.2 = x'.2) (Trials.definitionSpecification db id)
      (Trials.definitionSpecification db' id) := by
  refine (h.read id).bind fun r r' htwin => ?_
  exact (Matched.need htwin.specification?).bind fun s s' hs => .pure ⟨htwin, hs⟩

theorem firstAssessment (id : String) :
    Option.Rel (fun x x' => Twin x.1 x'.1 ∧ x.2.blur = x'.2.blur)
      (Trials.firstAssessment db id) (Trials.firstAssessment db' id) := by
  refine head_rel (List.rel_filterMap (fun r r' htwin => ?_) h.records)
  have hassessment := htwin.assessment?
  generalize Trials.assessment? r = a at hassessment ⊢
  generalize Trials.assessment? r' = a' at hassessment ⊢
  cases hassessment with
  | none => exact .none
  | @some a a' hone =>
      have htest : a.testId = a'.testId :=
        (congrArg Assessment.testId hone : a.blur.testId = a'.blur.testId)
      rw [Option.bind_some, Option.bind_some, htest]
      split
      · exact .some ⟨htwin, hone⟩
      · exact .none

theorem currentSelection (experimentId : String) :
    Option.Rel (fun x x' => Twin x.1 x'.1 ∧ x.2.blur = x'.2.blur)
      (Trials.currentSelection db experimentId) (Trials.currentSelection db' experimentId) := by
  refine getLast_rel (List.rel_filterMap (fun r r' htwin => ?_) h.records)
  have hrevised := htwin.revised?
  rw [← htwin.experimentId]
  generalize Trials.revised? r = e at hrevised ⊢
  generalize Trials.revised? r' = e' at hrevised ⊢
  split
  · cases hrevised with
    | none => exact .none
    | some hone => exact .some ⟨htwin, hone⟩
  · exact .none

end Twins

/-! ## Cohorts -/

structure SameCohort (c c' : Cohort) : Prop where
  samples : c.samples = c'.samples
  proofs : (c.proofs.map fun _ p => p.blur) = c'.proofs.map fun _ p => p.blur

theorem matches_blur {a a' : Assessment} (h : a.blur = a'.blur) {planned : PlannedTest}
    {specificationHash packageHash : String} {conditions : TaskComparisonConditions} :
    MatchesConditions g a planned specificationHash conditions packageHash
      ↔ MatchesConditions g a' planned specificationHash conditions packageHash := by
  have hnav : (∃ nav ∈ a.navDiagnostic, nav.formalScore = true)
      ↔ ∃ nav ∈ a'.navDiagnostic, nav.formalScore = true := by
    have hblur := congrArg Assessment.navDiagnostic h
    cases hn : a.navDiagnostic with
    | none =>
        simp only [Assessment.blur, hn, Option.map_none] at hblur
        rw [Option.map_eq_none_iff.mp hblur.symm]
    | some n =>
        simp only [Assessment.blur, hn, Option.map_some] at hblur
        obtain ⟨n', hn', hsame⟩ := Option.map_eq_some_iff.mp hblur.symm
        simp only [NavDiagnostic.mk.injEq] at hsame
        have hscore : n.formalScore = n'.formalScore := hsame.2.2.symm
        rw [hn']
        simp [hscore]
  simp only [Assessment.blur, Assessment.mk.injEq] at h
  obtain ⟨-, -, hvalid, hreasons, hready, -, hsample, hspecification, hruntime, hpackage⟩ := h
  rw [MatchesConditions, MatchesConditions, hnav, hvalid, hreasons, hready, hsample,
    hspecification, hruntime, hpackage]

section Cohorts

variable [DecidableEq V]

theorem Twins.sampleProof (h : Twins db db') {source source' planRecord planRecord' : TrialRecord X}
    (hsource : Twin source source') (hplan : Twin planRecord planRecord')
    {definitionId experimentId packageHash : String} {runtime : RuntimeConditions}
    {sample : PlannedTest} :
    Matched (Option.Rel fun x x' : String × ReuseProof => x.1 = x'.1 ∧ x.2.blur = x'.2.blur)
      (Trials.sampleProof g db source planRecord definitionId experimentId packageHash runtime
        sample)
      (Trials.sampleProof g db' source' planRecord' definitionId experimentId packageHash runtime
        sample) := by
  refine (h.test _).bind fun record record' hrecord => ?_
  rw [rel_eq hrecord.test?]
  split
  · exact .pure .none
  · next test _ =>
      rw [hplan.recordId, ← h.status]
      split
      · exact .pure .none
      · refine (Matched.of_eq rfl).bind fun status _ hstatus => ?_
        subst hstatus
        split
        · exact .pure .none
        · have hfirst := h.firstAssessment (g.identity experimentId "test" sample.testId)
          generalize Trials.firstAssessment db _ = a at hfirst ⊢
          generalize Trials.firstAssessment db' _ = a' at hfirst ⊢
          cases hfirst with
          | none => exact .pure .none
          | @some x x' hone =>
              obtain ⟨first, assessment⟩ := x
              obtain ⟨first', assessment'⟩ := x'
              obtain ⟨htwin, hblur⟩ := hone
              dsimp only at htwin hblur ⊢
              refine (Matched.refuse (by rw [htwin.experimentId, htwin.links])).bind fun _ _ _ => ?_
              refine (Matched.of_eq rfl).bind fun conditions _ hconditions => ?_
              subst hconditions
              simp only [matches_blur hblur]
              split
              · exact .pure .none
              · refine .pure (.some ⟨rfl, ?_⟩)
                simp [ReuseProof.blur, hsource.recordId, htwin.recordId]

omit [DecidableEq V] in
theorem sampleProofs_matched {R : String × ReuseProof → String × ReuseProof → Prop}
    {f f' : PlannedTest → Attempt (Option (String × ReuseProof))}
    (hone : ∀ s, Matched (Option.Rel R) (f s) (f' s)) (samples : List PlannedTest) :
    Matched (Option.Rel (List.Forall₂ R)) (sampleProofs f samples) (sampleProofs f' samples) := by
  induction samples with
  | nil => exact .pure (.some .nil)
  | cons s rest ih =>
      refine (hone s).bind fun a a' ha => ?_
      cases ha with
      | none => exact .pure .none
      | some ha =>
          refine ih.bind fun b b' hb => ?_
          cases hb with
          | none => exact .pure .none
          | some hb => exact .pure (.some (.cons ha hb))

omit [DecidableEq V] in
theorem proofs_blur {l l' : List (String × ReuseProof)}
    (h : List.Forall₂ (fun x x' => x.1 = x'.1 ∧ x.2.blur = x'.2.blur) l l') :
    ((Dict.ofList l).map fun _ p => p.blur) = (Dict.ofList l').map fun _ p => p.blur := by
  have hfold : ∀ d d' : Dict String ReuseProof,
      (d.map fun _ p => p.blur) = (d'.map fun _ p => p.blur) →
      ((d.setAll l).map fun _ p => p.blur) = (d'.setAll l').map fun _ p => p.blur := by
    induction h with
    | nil => exact fun d d' hd => hd
    | @cons x x' l l' hone _ ih =>
        intro d d' hd
        refine ih (d.set x.1 x.2) (d'.set x'.1 x'.2) ?_
        rw [Dict.map_set, Dict.map_set, hd, hone.1, hone.2]
  exact hfold Dict.empty Dict.empty rfl

omit [DecidableEq V] in
theorem Lawful.planHash (h : Lawful g db) {r planRecord : TrialRecord X} {c : Pair}
    (hr : r ∈ db.records) (hc : pair? r = some c) (hread : db.read c.planId = .ok planRecord) :
    g.content planRecord.value = c.planHash := by
  obtain ⟨planRecord', p, hpaired⟩ := (h.facts hr).pair c hc
  obtain rfl := h.at_unique (.read hread) hpaired.here
  exact hpaired.hash.symm

theorem Twins.sourceCohort (h : Twins db db') (hdb : Lawful g db) (hdb' : Lawful g db')
    {source source' : TrialRecord X} (hsource : Twin source source') (hmem : source ∈ db.records)
    (hmem' : source' ∈ db'.records) (w : Wanted) :
    Matched (Option.Rel SameCohort) (Trials.sourceCohort g host db source w)
      (Trials.sourceCohort g host db' source' w) := by
  have hpair := hsource.pair?
  rw [Trials.sourceCohort, Trials.sourceCohort]
  cases hc : Trials.pair? source with
  | none =>
      rw [hc] at hpair
      cases hc' : Trials.pair? source' with
      | none => exact .pure .none
      | some c' => rw [hc'] at hpair; cases hpair
  | some c =>
      rw [hc] at hpair
      cases hc' : Trials.pair? source' with
      | none => rw [hc'] at hpair; cases hpair
      | some c' =>
          rw [hc'] at hpair
          cases hpair with
          | some hblur =>
              have hfields := hblur
              simp only [Pair.blur, Pair.mk.injEq] at hfields
              obtain ⟨hplanId, -, -, -, -, hspecification, -, hpackages, -, hruntime, hselection,
                -⟩ := hfields
              have hselected : c.selection ≠ none ↔ c'.selection ≠ none := by
                have hnone := congrArg Option.isSome hselection
                rw [Option.isSome_map, Option.isSome_map] at hnone
                rw [Option.ne_none_iff_isSome, Option.ne_none_iff_isSome, hnone]
              have hadmits : w.Admits source c ↔ w.Admits source' c' := by
                rw [Wanted.Admits, Wanted.Admits, hsource.experimentId, hruntime, hpackages,
                  hselected]
              dsimp only
              rw [hruntime]
              split
              · exact .pure .none
              · next pinned fingerprint _ =>
                  simp only [hadmits, hplanId, hspecification, hpackages]
                  split
                  · exact .pure .none
                  · have hread := h.read c'.planId
                    generalize hone : db.read c'.planId = x at hread
                    generalize hother : db'.read c'.planId = y at hread
                    cases hread with
                    | error e => exact .error e
                    | @ok planRecord planRecord' htwin =>
                        refine (Matched.need htwin.plan?).bind fun plan plan' hplan => ?_
                        have hbound := hdb.planHash hmem hc (hplanId ▸ hone)
                        have hbound' := hdb'.planHash hmem' hc' hother
                        refine (Matched.refuse (by simp [htwin.experimentId, hbound, hbound'])).bind
                          fun _ _ _ => ?_
                        simp only [PlanEntry.blur, PlanEntry.mk.injEq] at hplan
                        obtain ⟨hdefinition, hpurpose, hsamples, -, -⟩ := hplan
                        rw [hdefinition, hpurpose, hsamples]
                        split
                        · exact .pure .none
                        · refine (h.definitionSpecification _).bind fun d d' hd => ?_
                          obtain ⟨definition, sealed⟩ := d
                          obtain ⟨definition', sealed'⟩ := d'
                          obtain ⟨-, hsealed⟩ := hd
                          dsimp only at hsealed ⊢
                          subst hsealed
                          split
                          · exact .pure .none
                          · refine (Matched.of_eq rfl).bind fun found _ hfound => ?_
                            subst hfound
                            obtain ⟨runtime, artifacts⟩ := found
                            refine (Matched.of_eq rfl).bind fun _ _ _ => ?_
                            split
                            · exact .pure .none
                            · refine (sampleProofs_matched (fun s =>
                                h.sampleProof hsource htwin) _).bind
                                  fun proofs proofs' hproofs => ?_
                              cases hproofs with
                              | none => exact .pure .none
                              | some hproofs => exact .pure (.some ⟨rfl, proofs_blur hproofs⟩)

omit [DecidableEq V] in
theorem Twins.frozenPairs (h : Twins db db') (experimentId : String) :
    List.Forall₂ Twin (Trials.frozenPairs db experimentId)
      (Trials.frozenPairs db' experimentId) := by
  refine filter_rel h.records fun r r' htwin => ?_
  have hpair := htwin.pair?
  rw [htwin.experimentId]
  generalize Trials.pair? r = c at hpair ⊢
  generalize Trials.pair? r' = c' at hpair ⊢
  cases hpair <;> rfl

omit [DecidableEq V] in
theorem firstCohort_matched {f f' : TrialRecord X → Attempt (Option Cohort)}
    {l l' : List (TrialRecord X)} (h : List.Forall₂ Twin l l')
    (hf : ∀ r ∈ l, ∀ r' ∈ l', Twin r r' → Matched (Option.Rel SameCohort) (f r) (f' r')) :
    Matched (Option.Rel fun x x' => Twin x.1 x'.1 ∧ SameCohort x.2 x'.2) (firstCohort f l)
      (firstCohort f' l') := by
  induction h with
  | nil => exact .pure .none
  | @cons r r' l l' htwin _ ih =>
      refine (hf r List.mem_cons_self r' List.mem_cons_self htwin).bind fun c c' hc => ?_
      cases hc with
      | some hc => exact .pure (.some ⟨htwin, hc⟩)
      | none =>
          exact ih fun s hs s' hs' =>
            hf s (List.mem_cons_of_mem _ hs) s' (List.mem_cons_of_mem _ hs')

theorem Twins.firstCohort (h : Twins db db') (hdb : Lawful g db) (hdb' : Lawful g db')
    (experimentId : String) (w : Wanted) :
    Matched (Option.Rel fun x x' => Twin x.1 x'.1 ∧ SameCohort x.2 x'.2)
      (Trials.firstCohort (fun source => Trials.sourceCohort g host db source w)
        (Trials.frozenPairs db experimentId))
      (Trials.firstCohort (fun source => Trials.sourceCohort g host db' source w)
        (Trials.frozenPairs db' experimentId)) :=
  firstCohort_matched (h.frozenPairs experimentId) fun _ hr _ hr' htwin =>
    h.sourceCohort hdb hdb' htwin (List.mem_of_mem_filter hr) (List.mem_of_mem_filter hr') w

end Cohorts

/-! ## Requests -/

variable {d d' : Dict String ReuseProof}

theorem blur_keys
    (h : (d.map fun _ p => p.blur) = d'.map fun _ p => p.blur) : d.keys = d'.keys := by
  have hkeys := congrArg Dict.keys h
  simpa [Dict.keys, Dict.map, Function.comp_def] using hkeys

theorem blur_contains (h : (d.map fun _ p => p.blur) = d'.map fun _ p => p.blur) (k : String) :
    d.contains k = d'.contains k := by
  rw [Bool.eq_iff_iff, Dict.contains_iff, Dict.contains_iff, ← Dict.mem_keys, ← Dict.mem_keys,
    blur_keys h]

/-- A value that no other value differs from so. -/
def Settled (v : Body (Entry X)) : Prop :=
  ∀ v', SameBody v v' ∨ SameBody v' v → v' = v

theorem settled_test (e : TestEntry) : Settled (.data (.test e) : Body (Entry X)) := by
  rintro v' (h | h)
  · cases h with
    | data h => cases h; rfl
  · cases h with
    | data h => cases h; rfl

structure PlanRequests (g : Hashes X) (host : TrialHost X) (p p' : Prepared (Entry X))
    (tests : List (Prepared (Entry X))) (x x' : List (Prepared (Entry X)) × TrialHost X) :
    Prop where
  here : x.1 = p :: tests
  here' : x'.1 = p' :: tests
  plan : SamePrepared p p'
  artifacts : p.artifactHashes = [g.content p.value]
  artifacts' : p'.artifactHashes = [g.content p'.value]
  policies : p.sourcePolicyHashes = []
  stored : x.2 = putBytes host (g.content p.value) (.document p.value)
  stored' : x'.2 = putBytes host (g.content p'.value) (.document p'.value)
  settled : ∀ t ∈ tests, Settled t.value ∧ t.artifactHashes = [] ∧ t.sourcePolicyHashes = []

namespace Twins

variable (h : Twins db db')

include h

theorem candidateRecords (experimentId : String) (plan : TestPlan) :
    Matched (List.Forall₂ fun x x' => x.1 = x'.1 ∧ Twin x.2.1 x'.2.1 ∧ x.2.2 = x'.2.2)
      (Trials.candidateRecords g db experimentId plan)
      (Trials.candidateRecords g db' experimentId plan) := by
  refine Matched.gather (List.forall₂_same.mpr fun _ _ => rfl) fun name _ hname => ?_
  subst hname
  exact (h.typed (fun _ _ => Twin.proposal?) _ _).bind fun x x' hx => .pure ⟨rfl, hx.1, hx.2⟩

theorem preparePlan {experimentId definitionId submissionIdentity : String} {plan : TestPlan}
    {purpose : Purpose} {selectionId : Option String} (reuse reuse' : Reuse)
    (hrequest : reuse.request = reuse'.request)
    (hsource : reuse.sourceComparisonId = reuse'.sourceComparisonId)
    (hproofs : (reuse.sources.map fun _ p => p.blur) = reuse'.sources.map fun _ p => p.blur) :
    Matched (fun x x' => ∃ p p' tests, PlanRequests g host p p' tests x x' ∧
        p.recordId = g.identity experimentId "plan" plan.planId)
      (Trials.preparePlan g host db experimentId definitionId plan submissionIdentity purpose
        selectionId (some reuse))
      (Trials.preparePlan g host db' experimentId definitionId plan submissionIdentity purpose
        selectionId (some reuse')) := by
  refine (Matched.refuse .rfl).bind fun _ _ _ => ?_
  refine (Matched.refuse .rfl).bind fun _ _ _ => ?_
  refine (h.typed (fun _ _ => Twin.specification?) _ _).bind fun d d' hd => ?_
  obtain ⟨definition, sealed⟩ := d
  obtain ⟨definition', sealed'⟩ := d'
  obtain ⟨-, hsealed⟩ := hd
  dsimp only at hsealed ⊢
  subst hsealed
  refine (Matched.of_eq rfl).bind fun spec _ hspec => ?_
  subst hspec
  refine (h.candidateRecords experimentId plan).bind fun candidates candidates' hcandidates => ?_
  have hread : walk (fun _ c => readCandidate host c.2.2.packageHash >>= fun _ => pure ()) ()
        candidates
      = walk (fun _ c => readCandidate host c.2.2.packageHash >>= fun _ => pure ()) ()
        candidates' :=
    (Matched.walk hcandidates (fun _ _ _ c c' hc => .of_eq (by rw [hc.2.2])) rfl).eq
  have hlinks : candidates.map (fun c => (⟨"candidate", c.2.1.recordId⟩ : Link))
      = candidates'.map fun c => ⟨"candidate", c.2.1.recordId⟩ :=
    map_rel hcandidates fun c c' hc => by rw [hc.2.1.recordId]
  refine (Matched.of_eq hread).bind fun _ _ _ => ?_
  simp only [PlanEntry.sources, blur_contains hproofs, blur_keys hproofs, hlinks]
  generalize hgather : gather (fun s : PlannedTest × ℕ =>
      testRequest g spec experimentId definitionId (g.identity experimentId "plan" plan.planId)
        purpose selectionId s.2 s.1) (plan.tests.zipIdx.filter fun s =>
        !reuse'.sources.contains (g.identity experimentId "test" s.1.testId)) = gathered
  cases gathered with
  | error e => exact .error e
  | ok tests =>
      refine .pure ⟨_, _, tests, {
        here := rfl
        here' := rfl
        plan := {
          experimentId := rfl
          kind := rfl
          recordId := rfl
          submissionIdentity := rfl
          links := rfl
          sourcePolicyHashes := rfl
          value := .data (.testPlan ?_)
          artifactHashes := fun hvalue => congrArg (fun v => [g.content v]) hvalue }
        artifacts := rfl
        artifacts' := rfl
        policies := rfl
        stored := rfl
        stored' := rfl
        settled := fun t ht => ?_ }, rfl⟩
      · simp [PlanEntry.blur, hrequest, hsource, hproofs]
      · obtain ⟨s, -, hs⟩ := gather_from hgather ht
        simp only [testRequest, bind_ok, pure_ok] at hs
        obtain ⟨task, -, rfl⟩ := hs
        exact ⟨settled_test _, rfl, rfl⟩

end Twins

/-! ## Writing -/

variable {p p' : Prepared (Entry X)}

structure SameHost (host host' : TrialHost X) : Prop where
  faults : host.faults = host'.faults
  now : host.now = host'.now

def Readable (host : TrialHost X) (p : Prepared (Entry X)) : Prop :=
  (∀ h ∈ p.artifactHashes, (host.artifacts h).isSome = true) ∧ p.sourcePolicyHashes = []

theorem readable_walk (h : Readable host p) :
    walk (fun _ h => host.readJson h >>= fun _ => pure ()) ()
      (p.artifactHashes ++ p.sourcePolicyHashes) = (.ok () : Attempt Unit) := by
  rw [h.2, List.append_nil, walk_unit]
  intro hash hhash
  obtain ⟨a, ha⟩ := Option.isSome_iff_exists.mp (h.1 hash hhash)
  rw [Host.readJson, ha]
  rfl

theorem SamePrepared.prepare (h : SamePrepared p p') (hread : Readable host p)
    (hread' : Readable host' p') :
    Matched (fun q q' => SamePrepared q q' ∧ Readable host q ∧ Readable host' q' ∧
        q.value = p.value ∧ q.recordId = p.recordId)
      (Records.prepare host p) (Records.prepare host' p') := by
  refine (Matched.refuse (by rw [h.recordId, h.submissionIdentity])).bind fun _ _ _ => ?_
  dsimp only
  have hsorted : sortedSet ([] : List String) = [] := rfl
  rw [hread.2, hread'.2, hsorted]
  refine (Matched.refuse (by simp)).bind fun _ _ _ => ?_
  have hall : Readable host { p with
      artifactHashes := sortedSet p.artifactHashes, sourcePolicyHashes := [] } :=
    ⟨fun hash hhash => hread.1 hash (mem_sortedSet.mp hhash), rfl⟩
  have hall' : Readable host' { p' with
      artifactHashes := sortedSet p'.artifactHashes, sourcePolicyHashes := [] } :=
    ⟨fun hash hhash => hread'.1 hash (mem_sortedSet.mp hhash), rfl⟩
  have hwalk := readable_walk hall
  have hwalk' := readable_walk hall'
  dsimp only at hwalk hwalk'
  rw [hwalk, hwalk']
  refine (Matched.of_eq rfl).bind fun _ _ _ => .pure ⟨{ h with
    links := by rw [h.links]
    sourcePolicyHashes := rfl
    artifactHashes := fun hvalue => by rw [h.artifactHashes hvalue] }, ?_, ?_, rfl, rfl⟩
  · exact ⟨hall.1, rfl⟩
  · exact ⟨hall'.1, rfl⟩

theorem SameBody.refl (v : Body (Entry X)) : SameBody v v := by
  cases v with
  | attempt lease => exact .attempt lease
  | data v => exact .data (.same v)

theorem SamePrepared.refl (p : Prepared (Entry X)) : SamePrepared p p :=
  ⟨rfl, rfl, rfl, rfl, rfl, rfl, .refl _, fun _ => rfl⟩

theorem SamePrepared.withArtifacts (h : SamePrepared p p') (artifacts : List String) :
    SamePrepared { p with artifactHashes := p.artifactHashes ++ artifacts }
      { p' with artifactHashes := p'.artifactHashes ++ artifacts } :=
  { h with artifactHashes := fun hvalue => by rw [h.artifactHashes hvalue] }

theorem putBytes_readable {hash contentHash : String} {a : Artifact X}
    (h : hash = contentHash ∨ (host.artifacts hash).isSome = true) :
    ((putBytes host contentHash a).artifacts hash).isSome = true := by
  rw [putBytes]
  dsimp only
  split
  · rfl
  · next hne => exact h.resolve_left hne

theorem SamePrepared.eq (h : SamePrepared p p') (hvalue : p.value = p'.value) : p = p' := by
  have hartifacts := h.artifactHashes hvalue
  obtain ⟨h₁, h₂, h₃, h₄, h₅, h₆, -, -⟩ := h
  cases p
  cases p'
  simp_all

theorem SamePrepared.submitted {q q' : Prepared (Entry X)} (h : SamePrepared p p')
    (hq : SamePrepared q q') (hsettled : Settled p.value) : q = p ↔ q' = p' := by
  obtain rfl := h.eq (hsettled _ (.inl h.value)).symm
  constructor
  · rintro rfl
    exact (hq.eq (hsettled _ (.inl hq.value)).symm).symm
  · rintro rfl
    exact hq.eq (hsettled _ (.inr hq.value))

namespace Twins

theorem insert [DecidableEq X] (h : Twins db db') (hhost : SameHost host host')
    {p p' : Prepared (Entry X)} (hp : SamePrepared p p') (hread : Readable host p)
    (hread' : Readable host' p') (hnew : Settled p.value ∨ ¬ hasRecord db p.recordId) :
    Matched (fun x x' => Twin x.1 x'.1 ∧ Twins x.2 x'.2) (Db.insert host p db)
      (Db.insert host' p' db') := by
  have hsubmitted : Option.Rel Twin (db.submitted p) (db'.submitted p') :=
    find_rel h.records fun r r' htwin => by
      rw [htwin.experimentId, htwin.kind, htwin.submissionIdentity, hp.experimentId, hp.kind,
        hp.submissionIdentity]
  rw [Db.insert, Db.insert]
  generalize hold : db.submitted p = previous at hsubmitted ⊢
  generalize hold' : db'.submitted p' = previous' at hsubmitted ⊢
  cases hsubmitted with
  | @some previous previous' htwin =>
      have hsame : previous.toPrepared ≠ p ↔ previous'.toPrepared ≠ p' := by
        rcases hnew with hsettled | hnew
        · exact (hp.submitted htwin.toSamePrepared hsettled).not
        · have hnew' : ¬ hasRecord db' p'.recordId := by rwa [← hp.recordId, ← h.has]
          refine iff_of_true (fun heq => hnew ⟨previous, ?_⟩)
            fun heq => hnew' ⟨previous', ?_⟩
          · exact ⟨List.mem_of_find?_eq_some hold, by rw [← heq]⟩
          · exact ⟨List.mem_of_find?_eq_some hold', by rw [← heq]⟩
      exact (Matched.refuse hsame).bind fun _ _ _ => .pure ⟨htwin, h⟩
  | none =>
      have hlink : (fun (_ : Unit) link => db.linkable p.experimentId link)
          = fun _ link => db'.linkable p'.experimentId link := by
        funext _ link
        refine ((Matched.refuse .rfl).bind fun _ _ _ => ?_).eq
        refine (h.read link.targetId).bind fun r r' htwin => ?_
        exact .refuse (by rw [htwin.experimentId, hp.experimentId])
      have hsequence : nextSequence (db.records.map Record.sequence)
          = nextSequence (db'.records.map Record.sequence) := by
        rw [map_rel h.records fun r r' htwin => htwin.sequence]
      dsimp only
      rw [hlink, hp.links, hsequence, hhost.now, readable_walk hread, readable_walk hread']
      refine (Matched.refuse ?_).bind fun _ _ _ => ?_
      · rw [← hp.recordId]
        exact h.has p.recordId
      refine (Matched.of_eq rfl).bind fun _ _ _ => ?_
      refine (Matched.refuse (by rw [hp.experimentId, h.experiments])).bind fun _ _ _ => ?_
      refine (Matched.of_eq (by rw [Host.fault, Host.fault, hhost.faults])).bind fun _ _ _ => ?_
      refine (Matched.of_eq rfl).bind fun _ _ _ => ?_
      refine (Matched.of_eq (by rw [Host.fault, Host.fault, hhost.faults])).bind fun _ _ _ => ?_
      refine .pure ⟨⟨hp, rfl, rfl⟩, { h with records := ?_ }⟩
      exact List.rel_append h.records (.cons ⟨hp, rfl, rfl⟩ .nil)

theorem insertSettled [DecidableEq X] (h : Twins db db') (hhost : SameHost host host')
    {l l' : List (Prepared (Entry X))} (hl : List.Forall₂ (fun p p' => SamePrepared p p' ∧
      Readable host p ∧ Readable host' p' ∧ Settled p.value) l l') :
    Matched Twins (walk (fun db p => Db.insert host p db >>= fun x => pure x.2) db l)
      (walk (fun db p => Db.insert host' p db >>= fun x => pure x.2) db' l') := by
  refine Matched.walk hl (fun t t' ht p p' hp => ?_) h
  obtain ⟨hsame, hread, hread', hsettled⟩ := hp
  exact (ht.insert hhost hsame hread hread' (.inl hsettled)).bind fun x x' hx => .pure hx.2

end Twins

structure SameBatch (db : TrialDb X P V) (host host' : TrialHost X)
    (l l' : List (Prepared (Entry X))) : Prop where
  split : ∃ q q' rest rest', l = q :: rest ∧ l' = q' :: rest' ∧ SamePrepared q q' ∧
    Readable host q ∧ Readable host' q' ∧ ¬ hasRecord db q.recordId ∧
    List.Forall₂ (fun p p' => SamePrepared p p' ∧ Readable host p ∧ Readable host' p' ∧
      Settled p.value) rest rest'

theorem PlanRequests.prepared {tests : List (Prepared (Entry X))}
    {x x' : List (Prepared (Entry X)) × TrialHost X} (h : PlanRequests g host p p' tests x x')
    {artifacts : List String} (hartifacts : ∀ hash ∈ artifacts, (host.artifacts hash).isSome = true)
    (hnew : ¬ hasRecord db p.recordId) :
    Matched (SameBatch db (putBytes host (g.content p.value) (.document p.value))
        (putBytes host (g.content p'.value) (.document p'.value)))
      (gather (Records.prepare (putBytes host (g.content p.value) (.document p.value)))
        ({ p with artifactHashes := p.artifactHashes ++ artifacts } :: tests))
      (gather (Records.prepare (putBytes host (g.content p'.value) (.document p'.value)))
        ({ p' with artifactHashes := p'.artifactHashes ++ artifacts } :: tests)) := by
  have hreadable : ∀ q : Prepared (Entry X), q.artifactHashes = [g.content q.value] →
      q.sourcePolicyHashes = [] →
      Readable (putBytes host (g.content q.value) (.document q.value))
        { q with artifactHashes := q.artifactHashes ++ artifacts } := by
    refine fun q hq hpolicies => ⟨fun hash hhash => ?_, hpolicies⟩
    dsimp only at hhash
    rw [hq, List.mem_append, List.mem_singleton] at hhash
    exact putBytes_readable (hhash.imp_right fun hmem => hartifacts hash hmem)
  refine Matched.bind (SamePrepared.prepare (h.plan.withArtifacts artifacts)
    (hreadable p h.artifacts h.policies)
    (hreadable p' h.artifacts' (h.plan.sourcePolicyHashes ▸ h.policies))) fun q q' hq => ?_
  obtain ⟨hsame, hread, hread', -, hidentity⟩ := hq
  have htests : List.Forall₂ (fun t t' => t = t' ∧ Settled t.value ∧ t.artifactHashes = [] ∧
      t.sourcePolicyHashes = []) tests tests :=
    List.forall₂_same.mpr fun t ht => ⟨rfl, h.settled t ht⟩
  refine (Matched.gather htests fun t t' ht => ?_).bind fun rest rest' hrest =>
    .pure ⟨q, q', rest, rest', rfl, rfl, hsame, hread, hread', hidentity ▸ hnew, hrest⟩
  obtain ⟨rfl, hsettled, hnone, hpolicies⟩ := ht
  refine (SamePrepared.prepare (SamePrepared.refl t) ⟨?_, hpolicies⟩ ⟨?_, hpolicies⟩).mono
    fun s s' hs => ⟨hs.1, hs.2.1, hs.2.2.1, by rw [hs.2.2.2.1]; exact hsettled⟩
  · simp [hnone]
  · simp [hnone]

theorem Twins.insertBatch [DecidableEq X] (h : Twins db db') {v v' : Body (Entry X)}
    {hash hash' : String} {l l' : List (Prepared (Entry X))}
    (hl : SameBatch db (putBytes host hash (.document v)) (putBytes host hash' (.document v'))
      l l') :
    Matched (fun x x' => Twins x.2 x'.2) (Trials.insertAll (putBytes host hash (.document v)) l db)
      (Trials.insertAll (putBytes host hash' (.document v')) l' db') := by
  obtain ⟨q, q', rest, rest', rfl, rfl, hq, hread, hread', hfresh, hrest⟩ := hl.split
  have hhost : SameHost (putBytes host hash (.document v)) (putBytes host hash' (.document v')) :=
    ⟨rfl, rfl⟩
  have hfirst := (h.insert hhost hq hread hread' (.inr hfresh)).bind
    fun x x' hx => Matched.pure hx.2
  exact (hfirst.bind fun t t' ht => ht.insertSettled hhost hrest).bind fun t t' ht => .pure ht

/-! ## Registering alike -/

theorem Twin.reuseRequest {r r' : TrialRecord X} (h : Twin r r') :
    ((Trials.plan? r).bind PlanEntry.reuse).map Reuse.request
      = ((Trials.plan? r').bind PlanEntry.reuse).map Reuse.request := by
  have hplan := h.plan?
  generalize Trials.plan? r = p at hplan ⊢
  generalize Trials.plan? r' = p' at hplan ⊢
  cases hplan with
  | none => rfl
  | @some p p' hblur =>
      have hreuse := congrArg (fun q : PlanEntry => q.reuse.map Reuse.request) hblur
      simpa [PlanEntry.blur, Function.comp_def] using hreuse

structure SameReused (r r' : Reused X) : Prop where
  plan : Twin r.plan r'.plan
  reusedTestIds : r.reusedTestIds = r'.reusedTestIds
  newTestIds : r.newTestIds = r'.newTestIds

namespace Twins

theorem reuseResult (h : Twins db db') {record record' : TrialRecord X}
    (hrecord : Twin record record') :
    Matched SameReused (Trials.reuseResult g db record) (Trials.reuseResult g db' record') := by
  refine (Matched.need hrecord.plan?).bind fun plan plan' hplan => ?_
  simp only [PlanEntry.blur, PlanEntry.mk.injEq] at hplan
  obtain ⟨-, -, htests, -, hreuse⟩ := hplan
  have hsources : (plan.sources.map fun _ p => p.blur) = plan'.sources.map fun _ p => p.blur := by
    rw [PlanEntry.sources, PlanEntry.sources]
    cases hr : plan.reuse with
    | none =>
        rw [hr, Option.map_none, eq_comm, Option.map_eq_none_iff] at hreuse
        rw [hreuse]
    | some reuse =>
        rw [hr, Option.map_some, eq_comm, Option.map_eq_some_iff] at hreuse
        obtain ⟨reuse', hr', hsame⟩ := hreuse
        simp only [Reuse.mk.injEq] at hsame
        rw [hr']
        exact hsame.2.2.symm
  rw [← htests]
  refine (Matched.gather (R := Eq) (S := Twin) (List.forall₂_same.mpr fun _ _ => rfl)
    fun s _ hs => ?_).bind fun tests tests' hread => .pure ⟨hrecord, blur_keys hsources, ?_⟩
  · subst hs
    rw [hrecord.experimentId]
    exact h.read _
  · rw [map_rel hread fun t t' htwin => htwin.recordId]
    simp only [blur_contains hsources]

theorem requireSelectionOpen (h : Twins db db') (experimentId : String) :
    Matched Eq (Trials.requireSelectionOpen db experimentId)
      (Trials.requireSelectionOpen db' experimentId) := by
  refine .refuse ?_
  have hcurrent := h.currentSelection experimentId
  generalize Trials.currentSelection db experimentId = c at hcurrent ⊢
  generalize Trials.currentSelection db' experimentId = c' at hcurrent ⊢
  cases hcurrent with
  | none => simp
  | @some c c' hc =>
      have hoperation : c.2.operation = c'.2.operation :=
        (congrArg Revised.operation hc.2 : c.2.blur.operation = c'.2.blur.operation)
      simp [hoperation]

variable [DecidableEq X] [DecidableEq V]

theorem registerReuse (h : Twins db db') (hdb : Lawful g db) (hdb' : Lawful g db')
    {experimentId : String} {sealed : ResolvedSpecification} {runtime : RuntimeConditions}
    {artifacts : List String} {request : ReuseRequest}
    (hartifacts : ∀ hash ∈ artifacts, (host.artifacts hash).isSome = true)
    (hnew : ¬ hasRecord db (g.identity experimentId "plan" request.inputPlan.planId)) :
    Matched (fun x x' => SameReused x.1 x'.1 ∧ Twins x.2 x'.2)
      (Trials.registerReuse g host experimentId sealed runtime artifacts request db)
      (Trials.registerReuse g host experimentId sealed runtime artifacts request db') := by
  rw [Trials.registerReuse, Trials.registerReuse]
  refine (Matched.need (h.currentSelection experimentId)).bind fun c c' hc => ?_
  obtain ⟨current, revised⟩ := c
  obtain ⟨current', revised'⟩ := c'
  obtain ⟨htwin, hrevised⟩ := hc
  simp only [Revised.blur, Revised.mk.injEq] at hrevised
  obtain ⟨-, hdefinition, -, hbaseline, -, hpackage, -, -⟩ := hrevised
  dsimp only at htwin ⊢
  rw [htwin.recordId, hdefinition, hbaseline, hpackage]
  refine (Matched.of_eq rfl).bind fun _ _ _ => ?_
  refine (h.requireSelectionOpen experimentId).bind fun _ _ _ => ?_
  refine (h.read _).bind fun baselineRecord baselineRecord' hrecord => ?_
  refine (Matched.need hrecord.proposal?).bind fun baseline _ hone => ?_
  subst hone
  refine (Matched.of_eq rfl).bind fun _ _ _ => ?_
  refine (Matched.of_eq rfl).bind fun other _ hother => ?_
  subst hother
  refine (Matched.of_eq rfl).bind fun _ _ _ => ?_
  refine (h.firstCohort hdb hdb' experimentId _).bind fun found found' hfound => ?_
  refine (Matched.need hfound).bind fun x x' hx => ?_
  obtain ⟨source, cohort⟩ := x
  obtain ⟨source', cohort'⟩ := x'
  obtain ⟨hsource, hcohort⟩ := hx
  dsimp only at hsource hcohort ⊢
  rw [show Trials.resolvePlan request.inputPlan baseline.proposalId cohort
    = Trials.resolvePlan request.inputPlan baseline.proposalId cohort' by
      rw [resolvePlan, resolvePlan, hcohort.samples]]
  generalize hresolve : Trials.resolvePlan request.inputPlan baseline.proposalId cohort' = resolved
  cases resolved with
  | error e => exact .error e
  | ok resolved =>
      have hplanId : resolved.planId = request.inputPlan.planId := by
        simp only [resolvePlan, bind_ok, pure_ok] at hresolve
        obtain ⟨-, -, rfl⟩ := hresolve
        rfl
      refine (h.preparePlan ⟨request, source.recordId, cohort.proofs⟩
        ⟨request, source'.recordId, cohort'.proofs⟩ rfl hsource.recordId
        hcohort.proofs).bind fun y y' hy => ?_
      obtain ⟨requests, stored⟩ := y
      obtain ⟨requests', stored'⟩ := y'
      obtain ⟨p, p', tests, hrequests, hidentity⟩ := hy
      obtain rfl := hrequests.here
      obtain rfl := hrequests.here'
      obtain rfl := hrequests.stored
      obtain rfl := hrequests.stored'
      rw [hplanId] at hidentity
      dsimp only
      have hfresh : ¬ hasRecord db p.recordId := by rwa [hidentity]
      refine (hrequests.prepared hartifacts hfresh).bind fun l l' hl => ?_
      refine (h.insertBatch hl).bind fun z z' hz => ?_
      refine (hz.read _).bind fun record record' hrecord => ?_
      exact (hz.reuseResult hrecord).bind fun r r' hr => .pure ⟨hr, hz⟩

omit [DecidableEq X] [DecidableEq V] in
theorem reuseRequest (h : Twins db db') (experimentId : String) (request : ReuseRequest) :
    Trials.reuseRequest g host db experimentId request
      = Trials.reuseRequest g host db' experimentId request := by
  refine ((Matched.of_eq rfl).bind fun _ _ _ => ?_).eq
  refine (Matched.of_eq rfl).bind fun _ _ _ => ?_
  refine (Matched.of_eq rfl).bind fun _ _ _ => ?_
  refine (h.typed (fun _ _ => Twin.specification?) _ _).bind fun d d' hd => ?_
  obtain ⟨definition, sealed⟩ := d
  obtain ⟨definition', sealed'⟩ := d'
  obtain ⟨-, hsealed⟩ := hd
  dsimp only at hsealed ⊢
  subst hsealed
  exact .of_eq rfl

omit [DecidableEq X] [DecidableEq V] in
theorem transaction (h : Twins db db') {α : Type} {S : α → α → Prop}
    {body : Body.Run (Entry X) P V α}
    (hbody : Matched (fun x x' => S x.1 x'.1 ∧ Twins x.2 x'.2) (body db) (body db')) :
    Matched S (Records.transaction host body db).1 (Records.transaction host body db').1 ∧
      Twins (Records.transaction host body db).2 (Records.transaction host body db').2 := by
  rw [Records.transaction, Records.transaction]
  generalize body db = x at hbody ⊢
  generalize body db' = x' at hbody ⊢
  cases hbody with
  | error e => exact ⟨.error e, h⟩
  | @ok x x' hx =>
      dsimp only
      cases host.fault .beforeCommit with
      | error e => exact ⟨.error e, h⟩
      | ok _ =>
          cases host.fault .afterCommit with
          | error e => exact ⟨.error e, hx.2⟩
          | ok _ => exact ⟨.ok hx.1, hx.2⟩

theorem register (h : Twins db db') (hdb : Lawful g db) (hdb' : Lawful g db')
    (host : TrialHost X) (experimentId : String) (request : ReuseRequest) :
    Matched SameReused (Trials.register g host experimentId request db).1
        (Trials.register g host experimentId request db').1 ∧
      Twins (Trials.register g host experimentId request db).2
        (Trials.register g host experimentId request db').2 := by
  rw [Trials.register, Trials.register, ← h.reuseRequest]
  cases hrequest : Trials.reuseRequest g host db experimentId request with
  | error e => exact ⟨.error e, h⟩
  | ok settled =>
      obtain ⟨sealed, runtime, artifacts⟩ := settled
      refine h.transaction ?_
      dsimp only
      by_cases hhas : hasRecord db (g.identity experimentId "plan" request.inputPlan.planId)
      · rw [if_pos hhas, if_pos ((h.has _).mp hhas)]
        refine (h.read _).bind fun existing existing' htwin => ?_
        refine (Matched.refuse (by rw [htwin.reuseRequest])).bind fun _ _ _ => ?_
        exact (h.reuseResult htwin).bind fun r r' hr => .pure ⟨hr, h⟩
      · rw [if_neg hhas, if_neg ((h.has _).not.mp hhas)]
        refine h.registerReuse hdb hdb' ?_ hhas
        simp only [Trials.reuseRequest, bind_ok, pure_ok] at hrequest
        obtain ⟨-, -, -, -, -, -, ⟨_, _⟩, -, found, hconditions, hfound⟩ := hrequest
        obtain ⟨-, hartifacts, rfl⟩ := runtimeConditions_ok.mp hconditions
        cases hfound
        exact hartifacts

end Twins

/-! ## Reuse -/

theorem SameReused.slots {r r' : Reused X} (h : SameReused r r') {p : PlanEntry} {reuse : Reuse}
    (hp : plan? r.plan = some p) (hreuse : p.reuse = some reuse) :
    ∃ p' reuse', plan? r'.plan = some p' ∧ p'.reuse = some reuse' ∧ p'.plan = p.plan ∧
      reuse'.sourceComparisonId = reuse.sourceComparisonId ∧
      reuse'.sources.keys = reuse.sources.keys ∧ r'.reusedTestIds = r.reusedTestIds ∧
      r'.newTestIds = r.newTestIds := by
  have hplan := h.plan.plan?
  rw [hp] at hplan
  generalize hp' : plan? r'.plan = q at hplan
  cases hplan with
  | @some _ p' hblur =>
      simp only [PlanEntry.blur, PlanEntry.mk.injEq, hreuse, Option.map_some] at hblur
      obtain ⟨-, -, hslots, -, hsources⟩ := hblur
      obtain ⟨reuse', hreuse', hsame⟩ := Option.map_eq_some_iff.mp hsources.symm
      simp only [Reuse.mk.injEq] at hsame
      exact ⟨p', reuse', rfl, hreuse', hslots.symm, hsame.2.1, blur_keys hsame.2.2,
        h.reusedTestIds.symm, h.newTestIds.symm⟩

/-- Reusing a baseline is blind to outcomes, and stable.

In a store that differs in terminal values alone the registration comes to
the same: the same failure, or the same slots from the same source and the
same tests. What a registration takes is the cohort of the first frozen pair
that has one; and whatever is written later, as long as the artifacts that
records link can be read, the same request finds the plan, the plan is
validated under its selection and conditions, and the tests it reuses, which
were over before, are still the ones there were, with no event more. -/
theorem reuse_blind_and_stable [DecidableEq X] [DecidableEq P] [DecidableEq V] (h : Reached g db)
    (host : TrialHost X) (experimentId : String) (request : ReuseRequest) :
    let u := (register g host experimentId request db).2
    let planId := g.identity experimentId "plan" request.inputPlan.planId
    (∀ db' : TrialDb X P V, Reached g db' → Twins db db' →
      Matched (fun r r' => SameReused r r' ∧ ∀ p reuse, plan? r.plan = some p →
          p.reuse = some reuse → ∃ p' reuse', plan? r'.plan = some p' ∧
            p'.reuse = some reuse' ∧ p'.plan = p.plan ∧
            reuse'.sourceComparisonId = reuse.sourceComparisonId ∧
            reuse'.sources.keys = reuse.sources.keys)
        (register g host experimentId request db).1 (register g host experimentId request db').1 ∧
      Twins u (register g host experimentId request db').2) ∧
    (¬ hasRecord db planId → hasRecord u planId →
      ∃ r p reuse source cohort sealed baseline runtime revised before after,
        (∀ r', (register g host experimentId request db).1 = .ok r' → r' = r) ∧
        r.plan ∈ u.records ∧ r.plan.recordId = planId ∧
        plan? r.plan = some p ∧ p.reuse = some reuse ∧ reuse.request = request ∧
        -- The source is the first frozen pair with a cohort.
        (∃ current, currentSelection db experimentId = some (current, revised) ∧
          current.recordId = request.expectedSelectionId) ∧
        frozenPairs db experimentId = before ++ source :: after ∧
        (∀ s ∈ before, sourceCohort g host db s
          (wantedOf experimentId sealed request baseline runtime revised) = .ok none) ∧
        sourceCohort g host db source
          (wantedOf experimentId sealed request baseline runtime revised) = .ok (some cohort) ∧
        reuse.sourceComparisonId = source.recordId ∧ reuse.sources = cohort.proofs ∧
        (p.plan.samplesOf baseline.proposalId).Perm cohort.samples ∧
        r.reusedTestIds = cohort.proofs.keys ∧
        ∀ t, Later g u t → ∀ host', Keeps host' t →
          ((∀ point, host'.faults point = false) →
            register g host' experimentId request t = (.ok r, t)) ∧
          (∀ conditions : RuntimeConditions, conditions.Of sealed request →
            validateReusedPlan g host' t r.plan p (some request.expectedSelectionId)
              (some conditions) = .ok ()) ∧
          ∀ id ∈ r.reusedTestIds, id ∉ r.newTestIds ∧ (∃ test, db.test id = .ok test ∧
              ∀ s ∈ t.records, s.recordId = id → s = test) ∧
            t.status id = .ok .completed ∧
            (t.events.filter fun e => e.testId = id)
              = db.events.filter fun e => e.testId = id) := by
  have hdb := h.lawful
  intro u planId
  constructor
  · intro db' h' htwins
    obtain ⟨hsame, hleft⟩ := htwins.register hdb h'.lawful host experimentId request
    refine ⟨hsame.mono fun r r' hr => ⟨hr, fun p reuse hp hreuse => ?_⟩, hleft⟩
    obtain ⟨p', reuse', hp', hreuse', hslots, hsource, hkeys, -⟩ := hr.slots hp hreuse
    exact ⟨p', reuse', hp', hreuse', hslots, hsource, hkeys⟩
  · intro hnew hthere
    obtain ⟨r, definition, current, baselineRecord, source, sealed, runtime, artifacts, revised,
      baseline, cohort, resolved, hr, hreturned⟩ := register_new hdb hnew hthere
    have hgrown : Grown g db u := register_grown host experimentId request
    obtain ⟨before, after, hpairs, hbefore, hcohort⟩ := firstCohort_some hr.found
    obtain ⟨hkeys, hreused⟩ := hr.reused
    refine ⟨r, _, _, source, cohort, sealed, baseline, runtime, revised, before, after, hreturned,
      hr.stored.1, hr.stored.2, hr.typed, rfl, rfl, ⟨current, hr.selected, hr.expected⟩, hpairs,
      hbefore, hcohort, rfl, rfl, hr.slots, hkeys, fun t hlater host' hkeeps =>
      ⟨hr.again hdb hgrown hlater.grown hkeeps, fun conditions hconditions =>
        hr.validates hdb hgrown hlater.grown hkeeps hr.typed hconditions, fun id hid => ?_⟩⟩
    have ht := (hdb.grown hgrown).grown hlater.grown
    obtain ⟨sample, -, -, test, htest, hcompleted⟩ := hreused id hid
    obtain ⟨hstatus, hevents⟩ := (hgrown.trans hlater.grown).over hcompleted rfl
    refine ⟨hr.not_new hid, ⟨test, htest, fun s hs hidentity => ?_⟩, hstatus, hevents⟩
    obtain ⟨hmem, hrecord⟩ := Db.test_ok htest
    exact ht.at_unique ⟨hs, hidentity⟩
      (At.within ⟨hmem, hrecord⟩ (hgrown.trans hlater.grown).within)

/-! ## A reused baseline -/

section Sample

def reuseConditions : TaskComparisonConditions where
  dataCorpusHash := "b"
  dataCorpusGeneration := ""
  searchPolicyHash := "b"
  actualModelId := ""
  actualReasoningEffort := ""
  executorHash := "b"
  feeScheduleHash := "b"
  priceTableHash := "b"
  budgetHash := "b"

def reuseTasks : Dict String TaskComparisonConditions :=
  Dict.ofList [("day", reuseConditions), ("days", reuseConditions)]

def reuseFrozen : TrialDb Unit Unit Unit :=
  let db := (definition sampleHashes sampleTrialHost "e" (sampleSealed true) "d"
    (emptyStore ["e"])).2
  let db := (candidate sampleHashes sampleTrialHost "e" (sampleProposal "b") "b" db).2
  let db := (candidate sampleHashes sampleTrialHost "e" (sampleProposal "c") "c" db).2
  let db := (initializeSelection sampleHashes sampleTrialHost "e" "e/definition/d" "e/candidate/b"
    db).2
  let db := (testPlan sampleHashes sampleTrialHost "e" "e/definition/d" samplePlan "p" .tuning none
    db).2
  (freeze sampleHashes sampleTrialHost
    ⟨"e/plan/p", "b", "c", "f", none, some "e/selection/initial", some reuseTasks⟩ db).2

def formalAssessment (nav : ℕ) (s : PlannedTest) : Prepared (Entry Unit) where
  experimentId := "e"
  kind := .evaluation
  recordId := "assessment/" ++ s.testId
  submissionIdentity := s.testId
  value := .data (.evaluation {
    testId := "e/test/" ++ s.testId
    rescoreOf := none
    valid := true
    reasons := []
    formalReady := true
    navDiagnostic := some ⟨some ⟨false, 100, 0⟩, some ⟨false, nav, 0⟩, true⟩
    sample := s
    specificationHash := "specification"
    runtimeConditionsHash := some "b"
    packageHash := some s.proposalId })
  links := [⟨"test", "e/test/" ++ s.testId⟩]
  artifactHashes := []
  sourcePolicyHashes := []

def runFormal (nav : ℕ) (db : TrialDb Unit Unit Unit) (s : PlannedTest) :
    TrialDb Unit Unit Unit :=
  let testId := "e/test/" ++ s.testId
  let lease := some ⟨testId, "w", 1⟩
  let db := (Db.transition sampleTrialHost testId .preflight "preflight" none none db).2
  let db := (Db.transition sampleTrialHost testId .queued "queued" none none db).2
  let db := (Db.claim sampleTrialHost testId "w" 60 (some pure) false db).2
  let db := (Db.transition sampleTrialHost testId .running "running" lease none db).2
  let db := (Db.transition sampleTrialHost testId .evaluating "evaluating" lease none db).2
  let db := (Db.transition sampleTrialHost testId .completed "completed" lease none db).2
  (Db.put sampleTrialHost (formalAssessment nav s) db).2

def reuseRun (nav : ℕ) : TrialDb Unit Unit Unit :=
  samplePlan.tests.foldl (runFormal nav) reuseFrozen

def reuseSample : ReuseRequest where
  definitionId := "e/definition/d"
  inputPlan := { samplePlan with
    planId := "q"
    tests := [sampleTest "5" "b" "day", sampleTest "6" "c" "day", sampleTest "7" "b" "days",
      sampleTest "8" "c" "days"] }
  expectedSelectionId := "e/selection/initial"
  runtimeConditions := reuseTasks
  submissionIdentity := "q"
  purpose := .tuning

example : ((register sampleHashes sampleTrialHost "e" reuseSample (reuseRun 110)).1.toOption.map
    fun r => (r.reusedTestIds, r.newTestIds))
      = some (["e/test/1", "e/test/3"], ["e/test/6", "e/test/8"]) := by decide +kernel

theorem runFormal_later {nav : ℕ} {db : TrialDb Unit Unit Unit} {s : PlannedTest}
    (h : SampleThere db s) : Later sampleHashes db (runFormal nav db s) := by
  rw [runFormal]
  have hrun : ∀ t, Later sampleHashes db t →
      Later sampleHashes db (Db.put sampleTrialHost (formalAssessment nav s) t).2 := by
    intro t ht
    exact .next ht (.assess _ _ _ _ ⟨rfl, rfl, h.within ht.grown.within, List.mem_cons_self,
      fun l hl => .inl (List.mem_singleton.mp hl)⟩)
  apply hrun
  exact .next (.next (.next (.next (.next (.next .here (.transition _ _ _ _ _ _ _))
    (.transition _ _ _ _ _ _ _)) (.claim _ _ _ _ _ _)) (.transition _ _ _ _ _ _ _))
    (.transition _ _ _ _ _ _ _)) (.transition _ _ _ _ _ _ _)

theorem runFormals_later {nav : ℕ} {ss : List PlannedTest} {db : TrialDb Unit Unit Unit}
    (h : ∀ s ∈ ss, SampleThere db s) : Later sampleHashes db (ss.foldl (runFormal nav) db) := by
  induction ss generalizing db with
  | nil => exact .here
  | cons s ss ih =>
      have hfirst : Later sampleHashes db (runFormal nav db s) :=
        runFormal_later (h s List.mem_cons_self)
      refine hfirst.trans (ih fun u hu => ?_)
      exact (h u (List.mem_cons_of_mem _ hu)).within hfirst.grown.within

theorem reuseFrozen_reached : Reached sampleHashes reuseFrozen := by
  refine ⟨["e"], ?_⟩
  rw [reuseFrozen]
  exact .next (.next (.next (.next (.next (.next .here (.definition _ _ _ _ _))
    (.candidate _ _ _ _ _)) (.candidate _ _ _ _ _)) (.initial _ _ _ _ _))
    (.testPlan _ _ _ _ _ _ _ _)) (.freeze _ _ _)

theorem reuseRun_reached (nav : ℕ) : Reached sampleHashes (reuseRun nav) := by
  obtain ⟨experiments, h⟩ := reuseFrozen_reached
  exact ⟨experiments, h.trans (runFormals_later (by decide +kernel))⟩

def unvalued : Body (Entry Unit) → Body (Entry Unit)
  | .data (.evaluation a) => .data (.evaluation a.blur)
  | v => v

theorem SameBody.of_unvalued {v v' : Body (Entry Unit)} (h : unvalued v = unvalued v') :
    SameBody v v' := by
  unfold unvalued at h
  split at h
  · next a =>
      split at h
      · next a' =>
          rw [Body.data.injEq, Entry.evaluation.injEq] at h
          exact .data (.evaluation h)
      · next hne => exact absurd h.symm (hne _)
  · next hne =>
      split at h
      · exact absurd h (hne _)
      · subst h
        exact .refl _

theorem Twin.of_unvalued {r r' : TrialRecord Unit}
    (h : { r with value := unvalued r.value } = { r' with value := unvalued r'.value }) :
    Twin r r' := by
  obtain ⟨⟨_, _, _, _, v, _, _, _⟩, _, _⟩ := r
  obtain ⟨⟨_, _, _, _, v', _, _, _⟩, _, _⟩ := r'
  simp only [Record.mk.injEq, Prepared.mk.injEq] at h
  obtain ⟨⟨rfl, rfl, rfl, rfl, hvalue, rfl, rfl, rfl⟩, rfl, rfl⟩ := h
  exact ⟨⟨rfl, rfl, rfl, rfl, rfl, rfl, .of_unvalued hvalue, fun _ => rfl⟩, rfl, rfl⟩

theorem reuseRun_twins (nav nav' : ℕ)
    (h : ((reuseRun nav).records.map fun r => { r with value := unvalued r.value })
      = (reuseRun nav').records.map fun r => { r with value := unvalued r.value })
    (hrest : (reuseRun nav).experiments = (reuseRun nav').experiments ∧
      (reuseRun nav).events = (reuseRun nav').events ∧
      (reuseRun nav).projections = (reuseRun nav').projections) :
    Twins (reuseRun nav) (reuseRun nav') := by
  refine ⟨hrest.1, hrest.2.1, hrest.2.2, ?_⟩
  rw [← List.forall₂_eq_eq_eq, List.forall₂_map_left_iff, List.forall₂_map_right_iff] at h
  exact h.imp fun r r' => Twin.of_unvalued

/-- The plan reuses two tests, whatever they came to, and keeps them. -/
theorem reuse_blind_and_stable_sample :
    Matched SameReused (register sampleHashes sampleTrialHost "e" reuseSample (reuseRun 110)).1
        (register sampleHashes sampleTrialHost "e" reuseSample (reuseRun 120)).1 ∧
      ∃ r : Reused Unit, r.reusedTestIds = ["e/test/1", "e/test/3"] ∧
        register sampleHashes (putBytes sampleTrialHost "content" (.manifest ⟨"", []⟩)) "e"
            reuseSample (register sampleHashes sampleTrialHost "e" reuseSample (reuseRun 110)).2
          = (.ok r, (register sampleHashes sampleTrialHost "e" reuseSample (reuseRun 110)).2) := by
  have htwins : Twins (reuseRun 110) (reuseRun 120) :=
    reuseRun_twins 110 120 (by decide +kernel) (by decide +kernel)
  have hregistered : ¬ hasRecord (reuseRun 110) "e/plan/q" ∧
      hasRecord (register sampleHashes sampleTrialHost "e" reuseSample (reuseRun 110)).2
        "e/plan/q" ∧
      ∃ r ∈ (register sampleHashes sampleTrialHost "e" reuseSample (reuseRun 110)).1.toOption,
        r.reusedTestIds = ["e/test/1", "e/test/3"] := by decide +kernel
  have hkeeps : Keeps (putBytes sampleTrialHost "content" (.manifest ⟨"", []⟩))
      (register sampleHashes sampleTrialHost "e" reuseSample (reuseRun 110)).2 := by
    unfold Keeps
    decide +kernel
  obtain ⟨hnew, hthere, r', hr', hids⟩ := hregistered
  obtain ⟨hblind, hstable⟩ :=
    reuse_blind_and_stable (reuseRun_reached 110) sampleTrialHost "e" reuseSample
  obtain ⟨r, _, _, _, _, _, _, _, _, _, _, hreturned, _, _, _, _, _, _, _, _, _, _, _, _, _,
    hlater⟩ := hstable hnew hthere
  obtain rfl := hreturned r' (mem_toOption.mp hr')
  refine ⟨(hblind _ (reuseRun_reached 120) htwins).1.mono fun r r' hr => hr.1, r', hids, ?_⟩
  exact (hlater _ .here _ hkeeps).1 fun _ => rfl

end Sample

end Ahunter.Trials
