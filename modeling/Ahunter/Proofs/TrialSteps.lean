import Ahunter.Proofs.Cohorts

/-!
# Every step grows the store

One lemma for each call, and then one for the step: whatever is called, the
records of the store grow by admitted records.
-/

namespace Ahunter.Trials

open Ahunter.Lib Ahunter.Records

variable {X P V : Type} {g : Hashes X} {db db' t : TrialDb X P V}

/-! ## Facts last -/

variable {r : TrialRecord X}

theorem AssessmentLink.within {a : Assessment} {l : Link} (h : AssessmentLink db a l)
    (hw : Within db t) : AssessmentLink t a l := by
  obtain ⟨new, hnew⟩ := hw
  have hmem : ∀ r, r ∈ db.records → r ∈ t.records := fun r hr => by
    rw [hnew]
    exact List.mem_append_left _ hr
  rcases h with h | ⟨hrelation, r, hr, hid, b, hb, htest⟩ | ⟨hrelation, r, hr, hid, hkind, hlinks⟩
  · exact .inl h
  · exact .inr (.inl ⟨hrelation, r, hmem r hr, hid, b, hb, htest⟩)
  · exact .inr (.inr ⟨hrelation, r, hmem r hr, hid, hkind, hlinks⟩)

theorem Planned.within {p : PlanEntry} (h : Planned g db r p) (hw : Within db t) :
    Planned g t r p := by
  obtain ⟨definition, sealed, spec, hat, hrest⟩ := h
  exact ⟨definition, sealed, spec, hat.within hw, hrest⟩

theorem Tested.within {e : TestEntry} (h : Tested g db r e) (hw : Within db t) :
    Tested g t r e := by
  rcases h with ⟨planRecord, p, h⟩ | ⟨original, o, reason, hat, hrest⟩
  · exact .inl ⟨planRecord, p, { h with here := h.here.within hw }⟩
  · exact .inr ⟨original, o, reason, hat.within hw, hrest⟩

theorem PairTest.within {p : PlanEntry} {c : Pair} {testId : String}
    (h : PairTest db p c testId) (hw : Within db t) : PairTest t p c testId := by
  obtain ⟨r, e, hat, htest, h⟩ := h
  refine ⟨r, e, hat.within hw, htest, h.imp_right ?_⟩
  rintro ⟨proof, planRecord, q, hproof, hplan, hrest⟩
  exact ⟨proof, planRecord, q, hproof, hplan.within hw, hrest⟩

theorem Paired.within {planRecord : TrialRecord X} {c : Pair} {p : PlanEntry}
    (h : Paired g db r c planRecord p) (hw : Within db t) : Paired g t r c planRecord p :=
  { h with
    here := h.here.within hw
    tests := fun id hid => (h.tests id hid).within hw
    links := fun l hl hr => (h.links l hl hr).imp_right fun h => h.imp_right
      fun ⟨s, d, hs, hd⟩ => ⟨s, d, hs.within hw, hd⟩ }

theorem Resulted.within {frozen : TrialRecord X} {c : ComparisonResult} {pair : Pair}
    (h : Resulted g db r c frozen pair) (hw : Within db t) : Resulted g t r c frozen pair :=
  { h with
    here := h.here.within hw
    links := fun l hl => (h.links l hl).imp_right fun h => h.imp_right
      fun ⟨id, hid, s, a, hs, ha⟩ => ⟨id, hid, s, a, hs.within hw, ha⟩ }

theorem Chosen.within {s : SelectionEntry} (h : Chosen db s) (hw : Within db t) :
    Chosen t s := fun d hd => by
  rcases h d hd with ⟨r, c, hat, hc⟩ | ⟨r, e, hat, he⟩
  · exact .inl ⟨r, c, hat.within hw, hc⟩
  · exact .inr ⟨r, e, hat.within hw, he⟩

theorem Facts.within (h : Facts g db r) (hw : Within db t) : Facts g t r where
  definition := h.definition
  plan p hp := (h.plan p hp).within hw
  test e he := (h.test e he).within hw
  pair c hc := by
    obtain ⟨planRecord, p, hpaired⟩ := h.pair c hc
    exact ⟨planRecord, p, hpaired.within hw⟩
  result c hc := by
    obtain ⟨frozen, pair, hresulted⟩ := h.result c hc
    exact ⟨frozen, pair, hresulted.within hw⟩
  assessment a ha := ⟨(h.assessment a ha).1, fun l hl => ((h.assessment a ha).2 l hl).within hw⟩
  selection s hs := (h.selection s hs).within hw

/-! ## Insertions -/

section Insertions

variable [DecidableEq X]

theorem insert_grown {host : TrialHost X} {p : Prepared (Entry X)} {r : TrialRecord X}
    (h : db.insert host p = .ok (r, db'))
    (hfacts : ¬ hasRecord db p.recordId → ∀ r : TrialRecord X, r.toPrepared = p → Facts g db r) :
    Grown g db db' ∧ r.toPrepared = p ∧ r ∈ db'.records := by
  obtain ⟨hr, ⟨rfl, hmem⟩ | ⟨rfl, hnone, hids, hsequence, -⟩⟩ := Db.insert_cases h
  · exact ⟨.refl, hr, hmem⟩
  · refine ⟨.single (.add ?_ rfl rfl rfl), hr, List.mem_append_right _ (by simp)⟩
    have hfields : r.recordId = p.recordId ∧ r.links = p.links
        ∧ r.experimentId = p.experimentId := by rw [← hr]; exact ⟨rfl, rfl, rfl⟩
    have hfresh : ¬ hasRecord db p.recordId := fun ⟨s, hs, heq⟩ => hids s hs heq
    refine { hfacts hfresh r hr with fresh := fun s hs => ?_, next := hsequence, linked := ?_ }
    · rw [hfields.1]
      exact hids s hs
    · intro l hl
      rw [hfields.2.1] at hl
      obtain ⟨s, hs, hexperiment⟩ := insert_linked h hnone hl
      exact ⟨s, .read hs, hexperiment.trans hfields.2.2.symm⟩

omit [DecidableEq X] in
theorem transaction_grown {α : Type} {host : TrialHost X} {body : Body.Run (Entry X) P V α}
    (h : ∀ a db', body db = .ok (a, db') → Grown g db db') :
    Grown g db (transaction host body db).2 := by
  rcases transaction_cases host body db with hsame | ⟨a, db', hbody, hleft⟩
  · rw [hsame]
    exact .refl
  · rw [hleft]
    exact h a db' hbody

theorem put_grown {host : TrialHost X} {q : Prepared (Entry X)}
    (hfacts : ∀ p, SameRequest p q → ∀ r : TrialRecord X, r.toPrepared = p → Facts g db r) :
    Grown g db (db.put host q).2 := by
  unfold Db.put
  split
  · exact .refl
  · next p hp =>
      exact transaction_grown fun a db' hbody =>
        (insert_grown hbody fun _ => hfacts p (prepare_same hp)).1

omit [DecidableEq X] in
theorem SameRequest.facts {p q : Prepared (Entry X)} (h : SameRequest p q)
    (hq : q.kind ∉ [RecordKind.definition, .testPlan, .test, .comparison, .evaluation, .selection])
    {r : TrialRecord X} (hr : r.toPrepared = p) : Facts g db r := by
  refine .of_kind ?_
  rwa [show r.kind = p.kind from hr ▸ rfl, h.kind]

theorem insertAll_grown {host : TrialHost X} {prepared : List (Prepared (Entry X))}
    (h : insertAll host prepared db = .ok ((), db'))
    (hfacts : ∀ p ∈ prepared, ∀ t, Within db t → ∀ r : TrialRecord X, r.toPrepared = p →
      Facts g t r) : Grown g db db' := by
  simp only [insertAll, bind_ok, pure_ok, Prod.mk.injEq, true_and] at h
  obtain ⟨u, hwalk, rfl⟩ := h
  induction prepared generalizing db with
  | nil =>
      cases hwalk
      exact .refl
  | cons p rest ih =>
      obtain ⟨c, hone, hrest⟩ := walk_cons_ok.mp hwalk
      simp only [bind_ok, pure_ok] at hone
      obtain ⟨⟨r, c'⟩, hinsert, rfl⟩ := hone
      have hgrown := (insert_grown hinsert fun _ r hr =>
        hfacts p List.mem_cons_self db (.refl db) r hr).1
      refine hgrown.trans (ih (fun q hq t ht r hr => ?_) hrest)
      exact hfacts q (List.mem_cons_of_mem _ hq) t (hgrown.within.trans ht) r hr

theorem insertAll_first_grown {host : TrialHost X} {first : Prepared (Entry X)}
    {rest : List (Prepared (Entry X))} (h : insertAll host (first :: rest) db = .ok ((), db'))
    (hfirst : ∀ r : TrialRecord X, r.toPrepared = first → Facts g db r)
    (hrest : ∀ p ∈ rest, ∀ t : TrialDb X P V, (∃ s ∈ t.records, s.toPrepared = first) →
      ∀ r : TrialRecord X, r.toPrepared = p → Facts g t r) : Grown g db db' := by
  simp only [insertAll, bind_ok, pure_ok, Prod.mk.injEq, true_and] at h
  obtain ⟨u, hwalk, rfl⟩ := h
  obtain ⟨c, hone, hwalk⟩ := walk_cons_ok.mp hwalk
  simp only [bind_ok, pure_ok] at hone
  obtain ⟨⟨r, c'⟩, hinsert, rfl⟩ := hone
  obtain ⟨hgrown, hr, hmem⟩ := insert_grown hinsert fun _ => hfirst
  refine hgrown.trans (@insertAll_grown _ _ _ g _ _ _ host rest ?_ fun p hp t ht => ?_)
  · simp only [insertAll, bind_ok, pure_ok, Prod.mk.injEq, true_and]
    exact ⟨_, hwalk, rfl⟩
  · obtain ⟨new, hnew⟩ := ht
    exact hrest p hp t ⟨r, hnew ▸ List.mem_append_left _ hmem, hr⟩

end Insertions

/-! ## Views of a request -/

theorem specification?_some {sealed : ResolvedSpecification} (h : specification? r = some sealed) :
    r.kind = .definition ∧ r.value = .data (.definition sealed) := by
  simp only [specification?] at h
  split at h
  · next hkind hvalue =>
      cases h
      exact ⟨hkind, hvalue⟩
  · cases h

theorem plan?_some {p : PlanEntry} (h : plan? r = some p) :
    r.kind = .testPlan ∧ r.value = .data (.testPlan p) := by
  simp only [plan?] at h
  split at h
  · next hkind hvalue =>
      cases h
      exact ⟨hkind, hvalue⟩
  · cases h

theorem test?_some {t : TestEntry} (h : test? r = some t) :
    r.kind = .test ∧ r.value = .data (.test t) := by
  simp only [test?] at h
  split at h
  · next hkind hvalue =>
      cases h
      exact ⟨hkind, hvalue⟩
  · cases h

theorem pair?_some {c : Pair} (h : pair? r = some c) :
    r.kind = .comparison ∧ r.value = .data (.comparisonPlan c) := by
  simp only [pair?] at h
  split at h
  · next hkind hvalue =>
      cases h
      exact ⟨hkind, hvalue⟩
  · cases h

theorem result?_some {c : ComparisonResult} (h : result? r = some c) :
    r.kind = .comparison ∧ r.value = .data (.comparisonResult c) := by
  simp only [result?] at h
  split at h
  · next hkind hvalue =>
      cases h
      exact ⟨hkind, hvalue⟩
  · cases h

theorem assessment?_some {a : Assessment} (h : assessment? r = some a) :
    r.kind = .evaluation ∧ r.value = .data (.evaluation a) := by
  simp only [assessment?] at h
  split at h
  · next hkind hvalue =>
      cases h
      exact ⟨hkind, hvalue⟩
  · cases h

theorem selection?_some {s : SelectionEntry} (h : selection? r = some s) :
    r.kind = .selection ∧ r.value = .data (.selection s) := by
  simp only [selection?] at h
  split at h
  · next hkind hvalue =>
      cases h
      exact ⟨hkind, hvalue⟩
  · cases h

theorem Facts.of_value
    (hdefinition : ∀ sealed, r.value = .data (.definition sealed) →
      verifySpecification g sealed = .ok sealed.effective)
    (hplan : ∀ p, r.value = .data (.testPlan p) → Planned g db r p)
    (htest : ∀ t, r.value = .data (.test t) → Tested g db r t)
    (hpair : ∀ c, r.value = .data (.comparisonPlan c) →
      ∃ planRecord p, Paired g db r c planRecord p)
    (hresult : ∀ c, r.value = .data (.comparisonResult c) →
      ∃ frozen pair, Resulted g db r c frozen pair)
    (hassessment : ∀ a, r.value = .data (.evaluation a) → ⟨"test", a.testId⟩ ∈ r.links ∧
      ∀ l ∈ r.links, AssessmentLink db a l)
    (hselection : ∀ s, r.value = .data (.selection s) → Chosen db s) : Facts g db r where
  definition s hs := hdefinition s (specification?_some hs).2
  plan p hp := hplan p (plan?_some hp).2
  test t ht := htest t (test?_some ht).2
  pair c hc := hpair c (pair?_some hc).2
  result c hc := hresult c (result?_some hc).2
  assessment a ha := hassessment a (assessment?_some ha).2
  selection s hs := hselection s (selection?_some hs).2

theorem Facts.of_selection {s : SelectionEntry} (hvalue : r.value = .data (.selection s))
    (h : Chosen db s) : Facts g db r := by
  refine .of_value ?_ ?_ ?_ ?_ ?_ ?_ ?_ <;> intro e he <;> rw [hvalue] at he <;> cases he
  exact h

theorem currentSelection_some {experimentId : String} {revised : Revised}
    (h : currentSelection db experimentId = some (r, revised)) :
    r ∈ db.records ∧ r.experimentId = experimentId ∧ revised? r = some revised := by
  obtain ⟨s, hs, hsome⟩ := List.mem_filterMap.mp (List.mem_of_getLast? h)
  split at hsome
  · next hexperiment =>
      obtain ⟨a, ha, heq⟩ := Option.map_eq_some_iff.mp hsome
      cases heq
      exact ⟨hs, hexperiment, ha⟩
  · cases hsome

/-! ## Registrations -/

theorem verifySpecification_ok {sealed : ResolvedSpecification} {spec : ExperimentDraft}
    (h : verifySpecification g sealed = .ok spec) : spec = sealed.effective := by
  simp only [verifySpecification, bind_ok, pure_ok] at h
  obtain ⟨-, -, rfl⟩ := h
  rfl

section Calls

variable [DecidableEq X]

variable {experimentId : String}

theorem definition_grown (host : TrialHost X) (experimentId : String)
    (sealed : ResolvedSpecification) (submissionIdentity : String) :
    Grown g db (definition g host experimentId sealed submissionIdentity db).2 := by
  unfold definition
  split
  · exact .refl
  · next p hp =>
      simp only [prepareDefinition, bind_ok] at hp
      obtain ⟨spec, hverify, hprepare⟩ := hp
      have hsame := prepare_same hprepare
      refine transaction_grown fun a db' hbody => (insert_grown hbody fun _ r hr => ?_).1
      subst hr
      refine .of_value ?_ ?_ ?_ ?_ ?_ ?_ ?_ <;> intro e he <;> rw [hsame.value] at he <;> cases he
      have heq := verifySpecification_ok hverify
      rwa [heq] at hverify

theorem candidate_grown (host : TrialHost X) (experimentId : String)
    (proposal : CandidateProposal) (submissionIdentity : String) :
    Grown g db (candidate g host experimentId proposal submissionIdentity db).2 := by
  unfold candidate
  split
  · exact .refl
  · next prepared hprepared =>
      refine transaction_grown fun a db' hbody => ?_
      simp only [bind_ok] at hbody
      obtain ⟨-, -, hbody⟩ := hbody
      simp only [prepareCandidate, bind_ok] at hprepared
      obtain ⟨-, -, package, -, parent, -, hgather⟩ := hprepared
      refine insertAll_grown hbody fun p hp t _ r hr => ?_
      obtain ⟨q, hq, hprepare⟩ := gather_from hgather hp
      refine (prepare_same hprepare).facts ?_ hr
      rcases List.mem_pair.mp hq with rfl | rfl <;> simp

omit [DecidableEq X] in
/-- What `_prepare_plan` checked, and the requests it made. -/
theorem preparePlan_ok {host host' : TrialHost X} {definitionId : String} {plan : TestPlan}
    {submissionIdentity : String} {purpose : Purpose} {selectionId : Option String}
    {reuse : Option Reuse} {requests : List (Prepared (Entry X))}
    (h : preparePlan g host db experimentId definitionId plan submissionIdentity purpose
      selectionId reuse = .ok (requests, host')) :
    ∃ definition sealed spec request tests, requests = request :: tests ∧
      At db definitionId definition ∧ specification? definition = some sealed ∧
      definition.experimentId = experimentId ∧ checkPlan g sealed plan purpose = .ok spec ∧
      request.kind = .testPlan ∧ request.experimentId = experimentId ∧
      request.recordId = g.identity experimentId "plan" plan.planId ∧
      request.value = .data (.testPlan ⟨definitionId, purpose, plan, selectionId, reuse⟩) ∧
      ∀ q ∈ tests, ∃ order sample, sample ∈ plan.tests ∧
        (PlanEntry.sources ⟨definitionId, purpose, plan, selectionId, reuse⟩).contains
          (g.identity experimentId "test" sample.testId) = false ∧
        testRequest g spec experimentId definitionId request.recordId purpose selectionId order
          sample = .ok q := by
  simp only [preparePlan, bind_ok, pure_ok, Prod.mk.injEq] at h
  obtain ⟨-, -, -, -, ⟨definition, sealed⟩, htyped, spec, hspec, candidates, -, -, -, tests,
    htests, rfl, -⟩ := h
  obtain ⟨hat, hsealed, hexperiment⟩ := At.typed htyped
  refine ⟨definition, sealed, spec, _, tests, rfl, hat, hsealed, hexperiment, hspec, rfl, rfl,
    rfl, rfl, fun q hq => ?_⟩
  obtain ⟨⟨sample, order⟩, hmem, hrequest⟩ := gather_from htests hq
  rw [List.mem_filter] at hmem
  refine ⟨order, sample, ?_, by simpa using hmem.2, hrequest⟩
  obtain ⟨-, -, hget⟩ := List.mem_zipIdx hmem.1
  rw [hget]
  exact List.getElem_mem _

theorem planRequests_grown {host host' : TrialHost X} {definitionId : String} {plan : TestPlan}
    {submissionIdentity : String} {purpose : Purpose} {selectionId : Option String}
    {reuse : Option Reuse} {requests : List (Prepared (Entry X))}
    (h : preparePlan g host db experimentId definitionId plan submissionIdentity purpose
      selectionId reuse = .ok (requests, host')) {prepared : List (Prepared (Entry X))}
    (hprepared : List.Forall₂ (fun q p => SameRequest p q) requests prepared) (hw : Within db t)
    (hinsert : insertAll host' prepared t = .ok ((), db')) : Grown g t db' := by
  obtain ⟨definition, sealed, spec, request, tests, rfl, hat, hsealed, hexperiment, hspec, hkind,
    hrequestExperiment, hidentity, hvalue, htests⟩ := preparePlan_ok h
  obtain ⟨first, rest, hfirst, hrest, rfl⟩ := List.forall₂_cons_left_iff.mp hprepared
  refine insertAll_first_grown hinsert (fun r hr => ?_) fun p hp u hthere r hr => ?_
  · subst hr
    have hrvalue := hfirst.value.trans hvalue
    refine .of_value ?_ ?_ ?_ ?_ ?_ ?_ ?_ <;> intro e he <;> rw [hrvalue] at he <;> cases he
    exact ⟨definition, sealed, spec, hat.within hw, hsealed,
      hexperiment.trans (hfirst.experimentId.trans hrequestExperiment).symm, hspec⟩
  · obtain ⟨s, hs, rfl⟩ := hthere
    have hsplan : plan? s = some ⟨definitionId, purpose, plan, selectionId, reuse⟩ := by
      rw [plan?, hfirst.kind.trans hkind, hfirst.value.trans hvalue]
    obtain ⟨q, hq, hqp⟩ := forall₂_from hrest hp
    obtain ⟨order, sample, hsample, hown, htest⟩ := htests q hq
    simp only [testRequest, bind_ok, pure_ok] at htest
    obtain ⟨task, -, rfl⟩ := htest
    subst hr
    refine .of_value ?_ ?_ ?_ ?_ ?_ ?_ ?_ <;> intro e he <;> rw [hqp.value] at he <;> cases he
    refine .inl ⟨s, ⟨definitionId, purpose, plan, selectionId, reuse⟩, ?_⟩
    exact {
      here := ⟨hs, hfirst.recordId⟩
      typed := hsplan
      experiment := hqp.experimentId.trans (hfirst.experimentId.trans hrequestExperiment).symm
      definition := rfl
      purpose := rfl
      sample := hsample
      task := rfl
      identity := by rw [hqp.recordId, hqp.experimentId]
      original := rfl
      own := by rw [hqp.recordId]; exact hown }

theorem testPlan_grown (host : TrialHost X) (experimentId definitionId : String)
    (plan : TestPlan) (submissionIdentity : String) (purpose : Purpose)
    (selectionId : Option String) :
    Grown g db (testPlan g host experimentId definitionId plan submissionIdentity purpose
      selectionId db).2 := by
  unfold testPlan
  split
  · exact .refl
  · next prepared host' h =>
      simp only [bind_ok, pure_ok, Prod.mk.injEq] at h
      obtain ⟨⟨requests, host''⟩, hrequests, prepared', hprepared, rfl, rfl⟩ := h
      refine transaction_grown fun a db' hbody => ?_
      obtain ⟨-, -, hinsert⟩ := bind_ok.mp hbody
      exact planRequests_grown hrequests ((gather_ok.mp hprepared).imp fun _ _ => prepare_same)
        (.refl db) hinsert

omit [DecidableEq X] in
theorem prepareRerun_ok [DecidableEq V] {host : TrialHost X}
    {testId rerunIdentity reason : String} {p : Prepared (Entry X)}
    (h : prepareRerun g host db experimentId testId rerunIdentity reason = .ok p) :
    ∃ original test q, At db testId original ∧ test? original = some test ∧
      original.experimentId = experimentId ∧ SameRequest p q ∧
      q.experimentId = experimentId ∧ q.kind = .test ∧
      q.value = .data (.test { test with rerunOf := some testId, rerunReason := some reason }) := by
  simp only [prepareRerun, bind_ok] at h
  obtain ⟨-, -, ⟨original, test⟩, htyped, -, -, status, -, -, -, hprepare⟩ := h
  obtain ⟨hat, htest, hexperiment⟩ := At.typed htyped
  exact ⟨original, test, _, hat, htest, hexperiment, prepare_same hprepare, rfl, rfl, rfl⟩

theorem rerun_grown [DecidableEq V] (host : TrialHost X)
    (experimentId testId rerunIdentity reason : String) :
    Grown g db (rerun g host experimentId testId rerunIdentity reason db).2 := by
  unfold rerun
  split
  · exact .refl
  · next p hp =>
      obtain ⟨original, test, q, hat, htest, hexperiment, hsame, hq, -, hvalue⟩ :=
        prepareRerun_ok hp
      refine transaction_grown fun a db' hbody => ?_
      obtain ⟨-, -, hinsert⟩ := bind_ok.mp hbody
      refine (insert_grown hinsert fun _ r hr => ?_).1
      subst hr
      have hrvalue := hsame.value.trans hvalue
      refine .of_value ?_ ?_ ?_ ?_ ?_ ?_ ?_ <;> intro e he <;> rw [hrvalue] at he <;> cases he
      obtain ⟨hmem, rfl⟩ := hat
      exact .inr ⟨original, test, reason, ⟨hmem, rfl⟩, htest,
        hexperiment.trans (hsame.experimentId.trans hq).symm, rfl⟩

/-! ## Comparisons -/

omit [DecidableEq X] in
theorem firstAssessment_some {testId : String} {r : TrialRecord X} {a : Assessment}
    (h : firstAssessment db testId = some (r, a)) :
    r ∈ db.records ∧ assessment? r = some a ∧ a.testId = testId := by
  have hmem := List.mem_of_head? h
  obtain ⟨s, hs, hsome⟩ := List.mem_filterMap.mp hmem
  obtain ⟨b, hb, hif⟩ := Option.bind_eq_some_iff.mp hsome
  split at hif
  · next htest =>
      cases hif
      exact ⟨hs, hb, htest⟩
  · cases hif

theorem mem_zip_map {α β : Type} {f : α → β} {l : List α} {a : α} (h : a ∈ l) :
    (f a, a) ∈ (l.map f).zip l := by
  induction l with
  | nil => cases h
  | cons b l ih =>
      rw [List.map_cons, List.zip_cons_cons]
      rcases List.mem_cons.mp h with rfl | h
      · exact List.mem_cons_self
      · exact List.mem_cons_of_mem _ (ih h)

section Comparing

variable [DecidableEq V]

omit [DecidableEq X] in
theorem pairTest_ok {host : TrialHost X} {planRecord : TrialRecord X} {p : PlanEntry} {c : Pair}
    (hreuse : checkReuse g host db planRecord p c.selectionId c.runtimeConditions = .ok ())
    {tests : List (String × PlannedTest)} (htests : unstarted db p c.planId tests = .ok ())
    {e : String × PlannedTest} (he : e ∈ tests) : PairTest db p c e.1 := by
  have hone := walk_unit.mp htests e he
  split at hone
  · next hcontains =>
      obtain ⟨proof, hproof⟩ := Dict.contains_iff.mp hcontains
      cases hr : p.reuse with
      | none =>
          rw [PlanEntry.sources, hr] at hproof
          cases hproof
      | some reuse =>
          have hsources : p.sources = reuse.sources := by rw [PlanEntry.sources, hr]
          rw [checkReuse, if_neg] at hreuse
          · obtain ⟨conditions, selected, baselineRecord, source, revised, baseline, definition,
              sealed, cohort, hvalid⟩ := (validateReusedPlan_ok hr).mp hreuse
            obtain ⟨pair, pinned, planRecord', definition', plan', sealed', proofs, hsourced⟩ :=
              sourceCohort_ok.mp hvalid.found
            have hget : cohort.proofs.get? e.1 = some proof := by
              rw [hvalid.sources, ← hsources]
              exact hproof
            obtain ⟨sample, -, record, first, test, assessment, cond, hproven⟩ :=
              hsourced.proof hget
            obtain ⟨hmem, hid⟩ := Db.test_ok hproven.read
            have hat := At.read hsourced.read
            refine ⟨record, test, ⟨hmem, hid⟩, hproven.typed, .inr ⟨proof, planRecord', plan',
              hproof, ?_, hsourced.typed, hsourced.purpose⟩⟩
            exact ⟨hat.1, hproven.plan.symm⟩
          · intro hempty
            have := Dict.mem_entries.mpr hproof
            rw [hempty] at this
            cases this
  · simp only [bind_ok, need_ok, refuse_ok, not_or, not_not] at hone
    obtain ⟨record, hrecord, test, htest, -, ⟨hplan, -⟩, -⟩ := hone
    exact ⟨record, test, Db.test_ok hrecord, htest, .inl hplan⟩

omit [DecidableEq X] in
/-- What `freeze` prepared. -/
structure FreezeReady (g : Hashes X) (host : TrialHost X) (db : TrialDb X P V)
    (request : FreezeRequest) (f : Freezing X) (definition : TrialRecord X)
    (sealed : ResolvedSpecification) (q : Prepared (Entry X)) : Prop where
  plan : At db request.planId f.planRecord
  typed : plan? f.planRecord = some f.plan
  purpose : f.plan.purpose ∈ [Purpose.tuning, .selectionValidation]
  defined : definitionSpecification db f.plan.definitionId = .ok (definition, sealed)
  tried : ∃ r, compareReturns g sealed f.plan.plan Dict.empty request.baseline request.candidate
    = .ok r
  pairPlan : f.pair.planId = request.planId
  pairDefinition : f.pair.definitionId = f.plan.definitionId
  pairHash : f.pair.planHash = g.content f.planRecord.value
  pairTests : f.pair.testIds
    = f.plan.plan.tests.map fun s => g.identity f.planRecord.experimentId "test" s.testId
  prepared : SameRequest f.prepared q
  experiment : q.experimentId = f.planRecord.experimentId
  value : q.value = .data (.comparisonPlan f.pair)
  planLink : ⟨"plan", request.planId⟩ ∈ q.links
  links : ∀ l ∈ q.links, inheritedRelations.contains l.relation = true →
    l.targetId = request.planId ∨ l.targetId ∈ f.pair.testIds ∨
      ∃ s d, At db l.targetId s ∧ result? s = some d

omit [DecidableEq X] [DecidableEq V] in
theorem repairLink_ok {experimentId planId : String} {previous : Option String}
    {links : List Link} (h : repairLink db experimentId planId previous = .ok links) {l : Link}
    (hl : l ∈ links) : ∃ s d, At db l.targetId s ∧ result? s = some d := by
  cases previous with
  | none =>
      rw [repairLink, pure_ok] at h
      subst h
      cases hl
  | some id =>
      simp only [repairLink, bind_ok, need_ok, pure_ok] at h
      obtain ⟨s, hs, d, hd, -, -, rfl⟩ := h
      obtain rfl := List.mem_singleton.mp hl
      exact ⟨s, d, .read hs, hd⟩

omit [DecidableEq X] [DecidableEq V] in
theorem prepareFreeze_ok {host : TrialHost X} {request : FreezeRequest} {f : Freezing X}
    (h : prepareFreeze g host db request = .ok f) :
    ∃ definition sealed q, FreezeReady g host db request f definition sealed q := by
  simp only [prepareFreeze, bind_ok, need_ok, refuse_ok, pure_ok, not_not] at h
  obtain ⟨-, -, planRecord, hread, plan, hplan, -, hpurpose, ⟨definition, sealed⟩, hdefined, tried,
    htried, named, -, repaired, hrepaired, ⟨runtime, artifacts⟩, -, selection, -, prepared,
    hprepared, rfl⟩ := h
  have hid := (At.definition hdefined).1.2
  refine ⟨definition, sealed, _, {
    plan := .read hread
    typed := hplan
    purpose := hpurpose
    defined := hdefined
    tried := ⟨tried, htried⟩
    pairPlan := rfl
    pairDefinition := hid
    pairHash := rfl
    pairTests := rfl
    prepared := prepare_same hprepared
    experiment := rfl
    value := rfl
    planLink := List.mem_cons_self
    links := fun l hl hr => ?_ }⟩
  simp only [List.cons_append, List.mem_cons, List.mem_append, List.mem_map] at hl
  rcases hl with rfl | ((⟨t, ht, rfl⟩ | ⟨n, -, rfl⟩) | hl) | ⟨s, -, rfl⟩
  · exact .inl rfl
  · exact .inr (.inl (List.mem_map.mpr ht))
  · exact absurd (show inheritedRelations.contains "candidate" = true from hr) (by decide)
  · exact .inr (.inr (repairLink_ok hrepaired hl))
  · exact absurd (show inheritedRelations.contains "selection" = true from hr) (by decide)

theorem freeze_grown (host : TrialHost X) (request : FreezeRequest) :
    Grown g db (freeze g host request db).2 := by
  unfold freeze
  split
  · exact .refl
  · next f hf =>
      obtain ⟨definition, sealed, q, h⟩ := prepareFreeze_ok hf
      refine transaction_grown fun a db' hbody => ?_
      simp only [freezeBody, bind_ok] at hbody
      obtain ⟨_, hreuse, _, hallowed, hinsert⟩ := hbody
      refine (insert_grown hinsert fun hfresh r hr => ?_).1
      rw [unlessRegistered, if_neg hfresh] at hallowed
      obtain ⟨_, -, htests⟩ := bind_ok.mp hallowed
      have hsame : SameRequest r.toPrepared q := hr ▸ h.prepared
      have hrvalue := hsame.value.trans h.value
      refine .of_value ?_ ?_ ?_ ?_ ?_ ?_ ?_ <;> intro e he <;> rw [hrvalue] at he <;> cases he
      have hexperiment := hsame.experimentId.trans h.experiment
      have htestIds := h.pairTests
      rw [← hexperiment] at htestIds
      exact ⟨f.planRecord, f.plan, {
        here := h.pairPlan ▸ h.plan
        typed := h.typed
        experiment := hexperiment
        purpose := h.purpose
        definitionId := h.pairDefinition
        hash := h.pairHash
        testIds := htestIds
        tests := fun id hid => by
          rw [h.pairTests] at hid htests
          obtain ⟨s, hs, rfl⟩ := List.mem_map.mp hid
          refine pairTest_ok hreuse htests (e := (_, s)) ?_
          exact mem_zip_map hs
        planLink := by
          rw [h.pairPlan]
          exact (hsame.links _).mpr h.planLink
        links := fun l hl hr => by
          rw [h.pairPlan]
          exact h.links l ((hsame.links l).mp hl) hr }⟩

omit [DecidableEq X] in
theorem sampleItem_ok {experimentId testId : String} {item : SampleItem}
    (h : sampleItem g db experimentId testId = .ok item) :
    item.testId = testId ∧ db.status testId = .ok item.status ∧
      item.assessment = (firstAssessment db testId).map fun f =>
        (f.1.recordId, g.content f.1.value) := by
  simp only [sampleItem, bind_ok] at h
  obtain ⟨status, hstatus, h⟩ := h
  split at h
  · next hnone =>
      cases h
      exact ⟨rfl, hstatus, by rw [hnone]; rfl⟩
  · next r a hsome =>
      simp only [bind_ok, pure_ok] at h
      obtain ⟨-, -, rfl⟩ := h
      exact ⟨rfl, hstatus, by rw [hsome]; rfl⟩

theorem completeBody_ok {host : TrialHost X} {frozen : TrialRecord X} {pair : Pair}
    {requireTerminal : Bool} {r : TrialRecord X}
    (h : completeBody g host frozen pair requireTerminal db = .ok (r, db')) :
    ∃ samples result qualified p,
      gather (sampleItem g db frozen.experimentId) pair.testIds = .ok samples ∧
      qualifiedComparison g host db frozen pair samples = .ok (result, qualified) ∧
      SameRequest p (resultRequest g frozen pair samples result qualified) ∧
      db.insert host p = .ok (r, db') := by
  simp only [completeBody, bind_ok] at h
  obtain ⟨-, -, -, -, -, -, samples, hsamples, ⟨result, qualified⟩, hreduced, p, hprepare,
    hinsert⟩ := h
  exact ⟨samples, result, qualified, p, hsamples, hreduced, prepare_same hprepare, hinsert⟩

theorem complete_grown (host : TrialHost X) (comparisonId : String) (requireTerminal : Bool) :
    Grown g db (complete g host comparisonId requireTerminal db).2 := by
  unfold complete
  split
  · exact .refl
  · next frozen hread =>
      split
      · exact .refl
      · next pair hpair =>
          refine transaction_grown fun a db' hbody => ?_
          dsimp only at hbody
          split at hbody
          · simp only [bind_ok, pure_ok, Prod.mk.injEq] at hbody
            obtain ⟨-, -, -, rfl⟩ := hbody
            exact .refl
          · obtain ⟨samples, result, qualified, p, hsamples, -, hsame, hinsert⟩ :=
              completeBody_ok hbody
            refine (insert_grown hinsert fun _ r hr => ?_).1
            subst hr
            have hplace := At.read hread
            refine .of_value ?_ ?_ ?_ ?_ ?_ ?_ ?_ <;> intro e he <;> rw [hsame.value] at he <;>
              cases he
            exact ⟨frozen, pair, {
              here := ⟨hplace.1, rfl⟩
              typed := hpair
              identity := hsame.recordId
              experiment := hsame.experimentId
              planId := rfl
              frozenLink := (hsame.links _).mpr List.mem_cons_self
              links := fun l hl => by
                have hl' := (hsame.links l).mp hl
                simp only [resultRequest, List.mem_cons, List.mem_filterMap] at hl'
                rcases hl' with rfl | rfl | ⟨item, hitem, hlink⟩
                · exact .inl rfl
                · exact .inr (.inl rfl)
                · obtain ⟨t, ht, hone⟩ := gather_from hsamples hitem
                  obtain ⟨-, -, hassessment⟩ := sampleItem_ok hone
                  obtain ⟨⟨id, hash⟩, hsome, rfl⟩ := Option.map_eq_some_iff.mp hlink
                  rw [hassessment] at hsome
                  obtain ⟨⟨s, b⟩, hfirst, heq⟩ := Option.map_eq_some_iff.mp hsome
                  cases heq
                  obtain ⟨hs, hb, htest⟩ := firstAssessment_some hfirst
                  exact .inr (.inr ⟨t, ht, s, b, ⟨hs, rfl⟩, hb, htest⟩) }⟩

/-! ## Reuse -/

theorem register_grown (host : TrialHost X) (experimentId : String) (request : ReuseRequest) :
    Grown g db (register g host experimentId request db).2 := by
  unfold register
  split
  · exact .refl
  · next sealed runtime artifacts _ =>
      refine transaction_grown fun a db' hbody => ?_
      dsimp only at hbody
      split at hbody
      · simp only [bind_ok, pure_ok, Prod.mk.injEq] at hbody
        obtain ⟨-, -, -, -, -, -, -, rfl⟩ := hbody
        exact .refl
      · simp only [registerReuse, bind_ok, pure_ok, Prod.mk.injEq] at hbody
        obtain ⟨-, -, -, -, -, -, -, -, baseline, -, -, -, other, -, -, -, found, -,
          ⟨source, cohort⟩, -, resolved, -, ⟨requests, host'⟩, hrequests, prepared, hprepared,
          ⟨_, db''⟩, hinsert, record, -, result, -, rfl, rfl⟩ := hbody
        obtain ⟨definition, sealed', spec, request', tests, rfl, -⟩ := preparePlan_ok hrequests
        refine planRequests_grown hrequests ?_ (.refl db) hinsert
        obtain ⟨first, rest, hfirst, hrest, rfl⟩ :=
          List.forall₂_cons_left_iff.mp (gather_ok.mp hprepared)
        have hsame := prepare_same hfirst
        exact .cons ⟨hsame.experimentId, hsame.kind, hsame.recordId, hsame.value, hsame.links⟩
          (hrest.imp fun _ _ => prepare_same)

/-! ## Selections -/

theorem initializeSelection_grown (host : TrialHost X)
    (experimentId definitionId baselineId : String) :
    Grown g db (initializeSelection g host experimentId definitionId baselineId db).2 := by
  unfold initializeSelection
  split
  · exact .refl
  · next p hp =>
      simp only [prepareInitial, bind_ok] at hp
      obtain ⟨-, -, -, -, -, -, proposal, -, -, -, -, -, -, -, hprepare⟩ := hp
      refine transaction_grown fun a db' hbody => ?_
      obtain ⟨-, -, hinsert⟩ := bind_ok.mp hbody
      refine (insert_grown hinsert fun _ r hr => ?_).1
      subst hr
      exact .of_selection (prepare_same hprepare).value (by simp [Chosen])

theorem applyComparison_grown (host : TrialHost X)
    (comparisonId expectedSelectionId submissionIdentity : String) :
    Grown g db
      (applyComparison g host comparisonId expectedSelectionId submissionIdentity db).2 := by
  unfold applyComparison
  split
  · exact .refl
  · next comparison c hprepared =>
    refine transaction_grown fun a db' hbody => ?_
    dsimp only at hbody
    split at hbody
    · simp only [bind_ok, pure_ok, Prod.mk.injEq] at hbody
      obtain ⟨-, -, -, -, -, -, -, -, -, rfl⟩ := hbody
      exact .refl
    · simp only [decideSelection, bind_ok] at hbody
      obtain ⟨-, -, pair, -, -, -, -, -, ⟨current, revised⟩, -, ⟨result, qualified⟩, -, -, -,
        ⟨decision, reason⟩, -, ⟨promoted, links⟩, -, p, hprepare, hinsert⟩ := hbody
      simp only [bind_ok, need_ok, pure_ok, Prod.mk.injEq] at hprepared
      obtain ⟨-, -, r, hread, c', hc, rfl, rfl⟩ := hprepared
      refine (insert_grown hinsert fun _ s hs => ?_).1
      subst hs
      refine .of_selection (prepare_same hprepare).value fun d hd => ?_
      obtain rfl := Option.mem_some_iff.mp hd
      exact .inl ⟨r, c', ⟨(At.read hread).1, rfl⟩, hc⟩

theorem finalize_grown (busy : V → Bool) (host : TrialHost X)
    (experimentId expectedSelectionId submissionIdentity : String) :
    Grown g db (finalize g busy host experimentId expectedSelectionId submissionIdentity db).2 := by
  unfold finalize
  split
  · exact .refl
  · refine transaction_grown fun a db' hbody => ?_
    dsimp only at hbody
    split at hbody
    · simp only [bind_ok, pure_ok, Prod.mk.injEq] at hbody
      obtain ⟨-, -, -, -, -, -, -, rfl⟩ := hbody
      exact .refl
    · simp only [freezeSelection, bind_ok, need_ok] at hbody
      obtain ⟨⟨current, revised⟩, hcurrent, -, -, -, -, -, -, report, -, -, -, -, -, -, -, p,
        hprepare, hinsert⟩ := hbody
      obtain ⟨hmem, -, hrevised⟩ := currentSelection_some hcurrent
      obtain ⟨entry, hentry, -⟩ := Option.bind_eq_some_iff.mp hrevised
      refine (insert_grown hinsert fun _ s hs => ?_).1
      subst hs
      refine .of_selection (prepare_same hprepare).value fun d hd => ?_
      dsimp only at hd
      rw [hentry, Option.bind_some, Option.mem_map] at hd
      obtain ⟨d', hd', rfl⟩ := hd
      exact .inr ⟨current, entry, ⟨hmem, rfl⟩, hentry, d', hd', rfl⟩

end Comparing

/-! ## Views -/

theorem authorize_grown (host : TrialHost X) (viewer : Viewer) (recordId : String)
    (auditIdentity : Option String) (action : Action) :
    Grown g db (authorize g host viewer recordId auditIdentity action db).2 := by
  unfold authorize
  split
  · exact .refl
  · next found _ =>
      split
      · exact .refl
      · split
        · exact .refl
        · split
          · exact .refl
          · exact .refl
          · next _ audit _ =>
              split
              · exact .refl
              · next target _ =>
                  have h : Grown g db
                      (db.put host (exposureRequest g target audit action found)).2 :=
                    put_grown fun p hp r hr => hp.facts (by simp [exposureRequest]) hr
                  split <;> next heq => rwa [heq] at h

theorem declareExposure_grown (host : TrialHost X) (viewer : Viewer)
    (experimentId submissionIdentity : String) (periods : List (Sim.Date × Sim.Date))
    (note : String) :
    Grown g db
      (declareExposure g host viewer experimentId submissionIdentity periods note db).2 := by
  unfold declareExposure
  split
  · exact .refl
  · split
    · exact .refl
    · split
      · exact .refl
      · exact put_grown fun p hp r hr => hp.facts (by simp) hr

/-! ## Facts about tests -/

theorem assess_grown (host : TrialHost X) {q : Prepared (Entry X)} {a : Assessment}
    (h : AssessmentRequest db q a) : Grown g db (db.put host q).2 := by
  refine put_grown fun p hp r hr => ?_
  subst hr
  have hvalue := hp.value.trans h.value
  refine .of_value ?_ ?_ ?_ ?_ ?_ ?_ ?_ <;> intro e he <;> rw [hvalue] at he <;> cases he
  exact ⟨(hp.links _).mpr h.linked, fun l hl => h.links l ((hp.links l).mp hl)⟩

theorem fact_grown (host : TrialHost X) {q : Prepared (Entry X)} (h : FactRequest q) :
    Grown g db (db.put host q).2 := by
  refine put_grown fun p hp r hr => hp.facts (fun hmem => ?_) hr
  have hkind := h.kind
  simp only [factKinds, List.mem_cons, List.not_mem_nil, or_false] at hkind hmem
  grind

/-! ## Leases and events -/

omit [DecidableEq X] in
theorem claim_grown [DecidableEq V] (host : TrialHost X) (testId workerId : String)
    (seconds : ℕ) (supersede : Bool) :
    Grown g db (db.claim host testId workerId seconds (some pure) supersede).2 := by
  unfold Db.claim
  split
  · exact .refl
  · refine transaction_grown fun a db' hbody => ?_
    simp only [Db.claimBody, Db.guarded, bind_ok, pure_ok, refuse_ok, Prod.mk.injEq, not_exists,
      not_and, not_or] at hbody
    obtain ⟨-, -, t, rfl, -, -, -, -, -, -, -, -, test, htest, -, hfresh, -, rfl⟩ := hbody
    refine .single (.add ?_ rfl rfl rfl)
    refine { Facts.of_kind (by simp) with
      fresh := fun s hs => ((hfresh s hs).1 : _)
      next := rfl
      linked := fun l hl => ?_ }
    obtain rfl := List.mem_singleton.mp hl
    exact ⟨test, Db.test_ok htest, rfl⟩

omit [DecidableEq X] in
theorem renew_grown [DecidableEq V] (host : TrialHost X) (lease : Lease) (seconds : ℕ) :
    Grown g db (db.renew host lease seconds).2 := by
  rcases Db.renew_cases host lease seconds db with hsame | ⟨row, -, -, hleft⟩
  · rw [hsame]
    exact .refl
  · rw [hleft]
    exact .same rfl rfl rfl

omit [DecidableEq X] in
theorem commit_grown [DecidableEq P] [DecidableEq V] (host : TrialHost X) (c : Commit P V) :
    Grown g db (db.commit host c pure).2 := by
  rcases Db.commit_cases host c pure db with hsame | ⟨hplain, -, event, hc⟩
  · rw [hsame]
    exact .refl
  · exact .single (.event hc hplain)

omit [DecidableEq X] in
theorem transition_grown [DecidableEq P] [DecidableEq V] (host : TrialHost X) (testId : String)
    (target : Status) (actionId : String) (lease : Option Lease) (reason : Option String) :
    Grown g db (db.transition host testId target actionId lease reason).2 := by
  rw [Db.transition]
  rcases Db.commitWith_cases host _ pure db with hsame | ⟨event, hc⟩
  · rw [hsame]
    exact .refl
  · exact .single (.event hc (by simp))

/-! ## Steps -/

variable [DecidableEq P] [DecidableEq V]

theorem Step.grown (h : Step g db db') : Grown g db db' := by
  cases h with
  | definition host => exact definition_grown host _ _ _
  | candidate host => exact candidate_grown host _ _ _
  | testPlan host => exact testPlan_grown host _ _ _ _ _ _
  | rerun host => exact rerun_grown host _ _ _ _
  | register host => exact register_grown host _ _
  | freeze host request => exact freeze_grown host request
  | complete host => exact complete_grown host _ _
  | initial host => exact initializeSelection_grown host _ _ _
  | applyComparison host => exact applyComparison_grown host _ _ _
  | finalize host busy => exact finalize_grown busy host _ _ _
  | authorize host => exact authorize_grown host _ _ _ _
  | declareExposure host => exact declareExposure_grown host _ _ _ _ _
  | assess host p a h => exact assess_grown host h
  | fact host p h => exact fact_grown host h
  | cancel host =>
      exact put_grown fun p hp r hr => hp.facts (by simp [cancellationRequest]) hr
  | source host => exact put_grown fun p hp r hr => hp.facts (by simp [sourceRequest]) hr
  | expire host => exact put_grown fun p hp r hr => hp.facts (by simp [expirationRequest]) hr
  | commit host c => exact commit_grown host c
  | transition host => exact transition_grown host _ _ _ _ _
  | claim host => exact claim_grown host _ _ _ _
  | renew host => exact renew_grown host _ _
  | service => exact .same rfl rfl rfl

theorem Later.trans (h : Later g db db') (h' : Later g db' t) : Later g db t := by
  induction h' with
  | here => exact h
  | next _ step ih => exact .next ih step

theorem Later.grown (h : Later g db db') : Grown g db db' := by
  induction h with
  | here => exact .refl
  | next _ step ih => exact ih.trans step.grown

end Calls

end Ahunter.Trials
