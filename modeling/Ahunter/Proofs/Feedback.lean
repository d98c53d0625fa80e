import Ahunter.Proofs.OpenScopes

/-!
# What is completed and what can be read

A reduction writes a public summary, and the reader of feedback checks it
again, field by field, against a list of its own. The two differ in one
case: a complete tuning pair over tasks of different lengths that may not be
mixed has a decision and no numbers, and the reader accepts missing numbers
for what is inconclusive alone.
-/

namespace Ahunter.Trials

open Ahunter.Lib Ahunter.Records

variable {X P V : Type} {g : Hashes X} {db t : TrialDb X P V}

/-! ## Reductions -/

variable {plan : TestPlan} {spec : ExperimentDraft} {decision : Decision}

structure Reduced (g : Hashes X) (sealed : ResolvedSpecification) (plan : TestPlan)
    (outcomes : Dict String Outcome) (baseline candidate : String) (spec : ExperimentDraft)
    (role : Role) (r : Reduction) : Prop where
  pair : checkPair g sealed plan baseline candidate = .ok (spec, role)
  repeats : r.plannedRepeats = spec.evaluate.repeats
  reduced : (invalidSamples plan outcomes ≠ [] ∧ r.decision = .inconclusive ∧ r.summary = none) ∨
    (invalidSamples plan outcomes = [] ∧ ∃ values groups,
      gather (reduceGroup spec sealed values baseline candidate) (taskGroups spec sealed plan)
        = .ok groups ∧ conclude role groups = (r.decision, r.reason, r.summary))

theorem compareReturns_ok {sealed : ResolvedSpecification} {outcomes : Dict String Outcome}
    {baseline candidate : String} {r : Reduction}
    (h : compareReturns g sealed plan outcomes baseline candidate = .ok r) :
    ∃ spec role, Reduced g sealed plan outcomes baseline candidate spec role r := by
  simp only [compareReturns, bind_ok] at h
  obtain ⟨⟨spec, role⟩, hpair, -, -, values, -, h⟩ := h
  split at h
  · next hinvalid =>
      rw [pure_ok] at h
      subst h
      exact ⟨spec, role, hpair, rfl, .inl ⟨hinvalid, rfl, rfl⟩⟩
  · next hvalid =>
      simp only [bind_ok, pure_ok] at h
      obtain ⟨-, -, groups, hgroups, rfl⟩ := h
      exact ⟨spec, role, hpair, rfl, .inr ⟨not_not.mp hvalid, values, groups, hgroups, rfl⟩⟩

theorem summarize_repeats {s : EvaluationSettings} {weights : List (String × Decimal)}
    {values : List ((String × String × ℕ) × ℚ)} {baseline candidate : String} {summary : Summary}
    (h : summarize s weights values baseline candidate = .ok summary) :
    summary.plannedRepeats = s.repeats ∧ summary.positiveRepeats ≤ s.repeats ∧
      summary.decision ∈ [Decision.notImproved, .unstable, .eligible] := by
  simp only [summarize, bind_ok, pure_ok] at h
  obtain ⟨old, hold, new, -, worst, -, rfl⟩ := h
  refine ⟨rfl, ?_, ?_⟩
  · refine List.countP_le_length.trans ?_
    rw [List.length_zipWith, ← (gather_ok.mp hold).length_eq, List.length_range]
    exact Nat.min_le_left _ _
  · simp only [groupDecision]
    split
    · simp
    · split <;> simp

theorem reduceGroup_repeats {sealed : ResolvedSpecification}
    {values : List ((String × String × ℕ) × ℚ)} {baseline candidate : String}
    {tasks : List String} {group : Group}
    (h : reduceGroup spec sealed values baseline candidate tasks = .ok group) :
    group.summary.plannedRepeats = spec.evaluate.repeats ∧
      group.summary.positiveRepeats ≤ spec.evaluate.repeats ∧
      group.summary.decision ∈ [Decision.notImproved, .unstable, .eligible] := by
  simp only [reduceGroup, bind_ok, pure_ok] at h
  obtain ⟨weights, -, summary, hsummary, rfl⟩ := h
  exact summarize_repeats hsummary

theorem conclude_summary {role : Role} {groups : List Group} {reason : Reason}
    {summary : Option Summary} (h : conclude role groups = (decision, reason, summary)) :
    summary = none ∧ groups.length ≠ 1 ∨ ∃ only, groups = [only] ∧ summary = some only.summary := by
  have hlength : ∀ l : List Group, (∀ only, l = [only] → False) → l.length ≠ 1 := by
    intro l hl hone
    obtain ⟨only, rfl⟩ := List.length_eq_one_iff.mp hone
    exact hl only rfl
  unfold conclude at h
  split at h <;> cases h
  · exact .inr ⟨_, rfl, rfl⟩
  · next hmany => exact .inl ⟨rfl, hlength _ hmany⟩
  · exact .inr ⟨_, rfl, rfl⟩
  · next hmany => exact .inl ⟨rfl, hlength _ hmany⟩
  · exact .inr ⟨_, rfl, rfl⟩
  · next hmany => exact .inl ⟨rfl, hlength _ hmany⟩

theorem conclude_decision {role : Role} {groups : List Group} {reason : Reason}
    {summary : Option Summary} (h : conclude role groups = (decision, reason, summary))
    (hrole : role ≠ .finalHoldout) :
    (role = .tuning ∧ decision = .tuningOnly) ∨ (role = .selectionValidation ∧
      ((∃ only, groups = [only] ∧ decision = only.summary.decision) ∨
        (groups.length ≠ 1 ∧ decision = .inconclusive))) := by
  unfold conclude at h
  split at h <;> cases h
  · exact .inl ⟨rfl, rfl⟩
  · exact .inl ⟨rfl, rfl⟩
  · exact absurd rfl hrole
  · exact absurd rfl hrole
  · exact .inr ⟨rfl, .inl ⟨_, rfl, rfl⟩⟩
  · next hmany =>
      refine .inr ⟨rfl, .inr ⟨fun hone => ?_, rfl⟩⟩
      obtain ⟨only, rfl⟩ := List.length_eq_one_iff.mp hone
      exact hmany only rfl

def MixedDurations (sealed : ResolvedSpecification) (plan : TestPlan) : Prop :=
  ∃ s ∈ plan.tests, ∃ u ∈ plan.tests,
    (durations sealed).get? s.taskId ≠ (durations sealed).get? u.taskId

theorem taskGroups_length {sealed : ResolvedSpecification} (hne : plan.tests ≠ [])
    (hknown : ∀ id ∈ plan.taskIds, ∃ n, (durations sealed).get? id = some n) :
    (taskGroups spec sealed plan).length = 1 ↔
      spec.evaluate.allowMixedDurations = true ∨ ¬ MixedDurations sealed plan := by
  rw [taskGroups]
  split
  · next hmixed => simp [hmixed]
  · next hmixed =>
      rw [or_iff_right hmixed, List.length_map, List.length_insertionSort]
      have hids : ∀ id, id ∈ plan.taskIds ↔ ∃ s ∈ plan.tests, s.taskId = id := by
        intro id
        rw [TestPlan.taskIds, mem_sortedSet, List.mem_map]
      have hcounts : ∀ n, n ∈ (plan.taskIds.filterMap (durations sealed).get?).dedup ↔
          ∃ s ∈ plan.tests, (durations sealed).get? s.taskId = some n := by
        intro n
        rw [List.mem_dedup, List.mem_filterMap]
        constructor
        · rintro ⟨id, hid, hn⟩
          obtain ⟨s, hs, rfl⟩ := (hids id).mp hid
          exact ⟨s, hs, hn⟩
        · rintro ⟨s, hs, hn⟩
          exact ⟨s.taskId, (hids _).mpr ⟨s, hs, rfl⟩, hn⟩
      have hnodup := List.nodup_dedup (plan.taskIds.filterMap (durations sealed).get?)
      generalize (plan.taskIds.filterMap (durations sealed).get?).dedup = counts at hcounts hnodup
      constructor
      · rintro hone ⟨s, hs, u, hu, hdiffer⟩
        obtain ⟨n, rfl⟩ := List.length_eq_one_iff.mp hone
        obtain ⟨a, ha⟩ := hknown _ ((hids _).mpr ⟨s, hs, rfl⟩)
        obtain ⟨b, hb⟩ := hknown _ ((hids _).mpr ⟨u, hu, rfl⟩)
        have han := List.mem_singleton.mp ((hcounts a).mpr ⟨s, hs, ha⟩)
        have hbn := List.mem_singleton.mp ((hcounts b).mpr ⟨u, hu, hb⟩)
        exact hdiffer (by rw [ha, hb, han, hbn])
      · intro hsame
        obtain ⟨s, rest, hs⟩ := List.exists_cons_of_ne_nil hne
        have hmem : s ∈ plan.tests := by rw [hs]; exact List.mem_cons_self
        obtain ⟨n, hn⟩ := hknown _ ((hids _).mpr ⟨s, hmem, rfl⟩)
        have hin : n ∈ counts := (hcounts n).mpr ⟨s, hmem, hn⟩
        have hall : counts ⊆ [n] := by
          intro m hm
          obtain ⟨u, hu, hum⟩ := (hcounts m).mp hm
          by_contra hother
          refine hsame ⟨s, hmem, u, hu, fun heq => hother ?_⟩
          rw [hn, hum, Option.some_inj] at heq
          rw [heq]
          exact List.mem_singleton_self m
        have hle := (hnodup.subperm hall).length_le
        have hpos := List.length_pos_of_mem hin
        rw [List.length_singleton] at hle
        omega

/-! ## The reader of feedback -/

theorem numberField_number (decision : Decision) (d : Decimal) :
    numberField decision (.number d) = .ok (some d) := by
  rw [numberField, if_neg (by simp)]
  rfl

theorem count_int (n : ℕ) : Field.count? (.int n) = some n := by
  rw [Field.count?, if_pos (Int.natCast_nonneg n), Int.toNat_natCast]

theorem positiveField_int (decision : Decision) (n : ℕ) :
    positiveField decision (.int n) = .ok (some n) := by
  rw [positiveField, if_neg (by simp), count_int]
  rfl

theorem numberField_null {a : Option Decimal} :
    numberField decision .null = .ok a ↔ decision = .inconclusive ∧ a = none := by
  rw [numberField]
  by_cases h : decision = .inconclusive
  · rw [if_pos ⟨rfl, h⟩, pure_ok]
    exact ⟨fun ha => ⟨h, ha.symm⟩, fun ha => ha.2.symm⟩
  · rw [if_neg fun hand => h hand.2]
    exact ⟨nofun, fun hand => absurd hand.1 h⟩

theorem positiveField_null {a : Option ℕ} :
    positiveField decision .null = .ok a ↔ decision = .inconclusive ∧ a = none := by
  rw [positiveField]
  by_cases h : decision = .inconclusive
  · rw [if_pos ⟨rfl, h⟩, pure_ok]
    exact ⟨fun ha => ⟨h, ha.symm⟩, fun ha => ha.2.symm⟩
  · rw [if_neg fun hand => h hand.2]
    exact ⟨nofun, fun hand => absurd hand.1 h⟩

theorem parseSummary_public {recordId : String} {r : Reduction}
    (hdecision : r.decision ∈ feedbackDecisions) (hplanned : 0 < r.plannedRepeats)
    (hsummary : ∀ s ∈ r.summary, 0 < s.plannedRepeats ∧ s.positiveRepeats ≤ s.plannedRepeats) :
    (parseSummary recordId (publicSummary r)).isOk = true ↔
      (r.summary = none → r.decision = .inconclusive) := by
  rw [isOk_iff]
  cases hs : r.summary with
  | some s =>
      obtain ⟨hpos, hle⟩ := hsummary s hs
      simp only [publicSummary, hs, parseSummary, bind_ok, need_ok, refuse_ok, pure_ok]
      refine ⟨fun _ h => absurd h (Option.some_ne_none s), fun _ => ?_⟩
      refine ⟨_, r.decision, rfl, (), not_not.mpr hdecision, _, numberField_number _ _, _,
        numberField_number _ _, _, numberField_number _ _, _, numberField_number _ _, _,
        positiveField_int _ _, s.plannedRepeats, count_int _, (), ?_, rfl⟩
      rintro (hzero | ⟨n, hn, hlt⟩)
      · omega
      · rw [Option.mem_some_iff] at hn
        omega
  | none =>
      simp only [publicSummary, hs, parseSummary, bind_ok, need_ok, refuse_ok, pure_ok,
        numberField_null, true_implies]
      constructor
      · rintro ⟨_, decision, hsame, _, -, _, ⟨hinconclusive, -⟩, -⟩
        exact (Option.some_inj.mp hsame).trans hinconclusive
      · intro hinconclusive
        refine ⟨_, r.decision, rfl, (), not_not.mpr hdecision, none, ⟨hinconclusive, rfl⟩, none,
          ⟨hinconclusive, rfl⟩, none, ⟨hinconclusive, rfl⟩, none, ⟨hinconclusive, rfl⟩, none,
          positiveField_null.mpr ⟨hinconclusive, rfl⟩, r.plannedRepeats, count_int _, (), ?_, rfl⟩
        rintro (hzero | ⟨n, hn, -⟩)
        · omega
        · cases hn

/-! ## Samples that count -/

variable [DecidableEq V]

def Counts (db : TrialDb X P V) (testId : String) : Prop :=
  db.status testId = .ok .completed ∧ ∃ f ∈ firstAssessment db testId, f.2.valid = true

omit [DecidableEq V] in
theorem invalidReason_none {o : Outcome} :
    invalidReason (some o) = none ↔ o.status = .completed ∧ o.valid = true := by
  simp only [invalidReason]
  split
  · next h => simp [h]
  · next h =>
      rw [not_not] at h
      cases hvalid : o.valid <;> simp [h]

theorem sampleOutcome_counts (h : Lawful g db) {frozen planRecord : TrialRecord X}
    {p : PlanEntry} {pair : Pair} {item : SampleItem} {s : PlannedTest}
    {o : Option (String × Outcome) × Bool}
    (hone : sampleOutcome g db frozen planRecord p pair item s = .ok o)
    (hitem : sampleItem g db frozen.experimentId item.testId = .ok item) :
    item.testId = g.identity frozen.experimentId "test" s.testId ∧ (∀ e ∈ o.1, e.1 = s.testId) ∧
      (invalidReason (o.1.map Prod.snd) = none ↔ Counts db item.testId) := by
  obtain ⟨-, hstatus, hassessment⟩ := sampleItem_ok hitem
  simp only [sampleOutcome, bind_ok, need_ok, refuse_ok, not_or, not_not] at hone
  obtain ⟨record, -, test, -, -, ⟨hid, -⟩, hone⟩ := hone
  refine ⟨hid, ?_⟩
  split at hone
  · next hnone =>
      rw [pure_ok] at hone
      subst hone
      rw [hnone] at hassessment
      refine ⟨by simp, by simp [invalidReason], ?_⟩
      rintro ⟨-, f, hf, -⟩
      rw [Option.mem_def.mp hf] at hassessment
      cases hassessment
  · next assessmentId assessmentHash hsome =>
      simp only [bind_ok, need_ok, refuse_ok, not_or, not_not] at hone
      obtain ⟨assessment, hread, a, ha, -, -, -, hfirst, hone⟩ := hone
      rw [← hid] at hfirst
      obtain ⟨⟨f, b⟩, hf, hsame⟩ := Option.map_eq_some_iff.mp hfirst
      obtain ⟨hmem, hb, -⟩ := firstAssessment_some hf
      obtain rfl := h.unique hmem (At.read hread).1 hsame
      obtain rfl : b = a := Option.some_inj.mp (hb.symm.trans ha)
      have hcounts : Counts db item.testId ↔ item.status = .completed ∧ b.valid = true := by
        rw [Counts, hstatus, hf]
        simp
      -- Whatever its conditions are, it contributes the same outcome.
      obtain ⟨outcome, hfound, hsame⟩ : ∃ outcome : Outcome, o.1 = some (s.testId, outcome) ∧
          outcome.status = item.status ∧ outcome.valid = b.valid := by
        split at hone
        · rw [pure_ok] at hone
          subst hone
          exact ⟨_, rfl, rfl, rfl⟩
        · simp only [bind_ok] at hone
          obtain ⟨conditions, -, packageHash, -, hone⟩ := hone
          split at hone
          · rw [pure_ok] at hone
            subst hone
            exact ⟨_, rfl, rfl, rfl⟩
          · simp only [bind_ok, pure_ok] at hone
            obtain ⟨status, -, rfl⟩ := hone
            exact ⟨_, rfl, rfl, rfl⟩
      rw [hfound]
      refine ⟨by simp, ?_⟩
      rw [Option.map_some, invalidReason_none, hcounts, hsame.1, hsame.2]

/-! ## Outcomes by name -/

section Named

omit [DecidableEq V]

variable {ss : List PlannedTest} {os : List (Option (String × Outcome) × Bool)}

theorem named_sublist (h : List.Forall₂ (fun s o => ∀ e ∈ o.1, e.1 = PlannedTest.testId s) ss os) :
    (os.filterMap Prod.fst |>.map Prod.fst).Sublist (ss.map PlannedTest.testId) := by
  induction h with
  | nil => exact List.Sublist.refl _
  | @cons s o ss os hone _ ih =>
      rw [List.map_cons, List.filterMap_cons]
      cases ho : o.1 with
      | none => exact ih.cons _
      | some e =>
          rw [List.map_cons, hone e (by rw [ho]; rfl)]
          exact ih.cons_cons _

theorem named_absent (hnodup : (ss.map PlannedTest.testId).Nodup)
    (h : List.Forall₂ (fun s o => ∀ e ∈ o.1, e.1 = PlannedTest.testId s) ss os)
    {s : PlannedTest} {o : Option (String × Outcome) × Bool} (hmem : (s, o) ∈ ss.zip os)
    (hnone : o.1 = none) : s.testId ∉ (os.filterMap Prod.fst).map Prod.fst := by
  induction h with
  | nil => cases hmem
  | @cons u o' ss os hone hrest ih =>
      rw [List.map_cons, List.nodup_cons] at hnodup
      rw [List.filterMap_cons]
      rw [List.zip_cons_cons, List.mem_cons] at hmem
      rcases hmem with heq | hmem
      · cases heq
        rw [hnone]
        exact fun hin => hnodup.1 ((named_sublist hrest).subset hin)
      · have habsent := ih hnodup.2 hmem
        have hs := (List.of_mem_zip hmem).1
        cases ho : o'.1 with
        | none => exact habsent
        | some e =>
            rw [List.map_cons, List.mem_cons, not_or]
            refine ⟨fun heq => hnodup.1 ?_, habsent⟩
            rw [← hone e (by rw [ho]; rfl), ← heq]
            exact List.mem_map_of_mem hs

theorem get?_named (hnodup : (ss.map PlannedTest.testId).Nodup)
    (h : List.Forall₂ (fun s o => ∀ e ∈ o.1, e.1 = PlannedTest.testId s) ss os)
    {s : PlannedTest} {o : Option (String × Outcome) × Bool} (hmem : (s, o) ∈ ss.zip os) :
    (Dict.ofList (os.filterMap Prod.fst)).get? s.testId = o.1.map Prod.snd := by
  cases ho : o.1 with
  | none =>
      have habsent := named_absent hnodup h hmem ho
      cases hget : (Dict.ofList (os.filterMap Prod.fst)).get? s.testId with
      | none => rfl
      | some v => exact absurd (List.mem_map_of_mem (Dict.get?_ofList hget)) habsent
  | some e =>
      have hname := List.forall₂_zip h hmem e (by rw [ho]; rfl)
      refine Dict.get?_setAll_of_mem ((named_sublist h).nodup hnodup) ?_
      rw [← hname]
      exact List.mem_filterMap.mpr ⟨o, (List.of_mem_zip hmem).2, ho⟩

theorem invalidSamples_named {plan : TestPlan} {C : PlannedTest → Prop} (hvalid : plan.Valid)
    (hnames : List.Forall₂ (fun s o => ∀ e ∈ o.1, e.1 = PlannedTest.testId s) plan.tests os)
    (hcounts : List.Forall₂ (fun s o => invalidReason (o.1.map Prod.snd) = none ↔ C s)
      plan.tests os) :
    invalidSamples plan (Dict.ofList (os.filterMap Prod.fst)) = [] ↔ ∀ s ∈ plan.tests, C s := by
  rw [invalidSamples, List.filterMap_eq_nil_iff]
  refine forall₂_congr fun s hs => ?_
  obtain ⟨n, hn, rfl⟩ := List.getElem_of_mem hs
  have hlen := hnames.length_eq
  have hmem : (plan.tests[n], os[n]) ∈ plan.tests.zip os := by
    rw [← List.getElem_zip (h := by simp; omega)]
    exact List.getElem_mem _
  rw [Option.map_eq_none_iff, get?_named hvalid.ids_unique hnames hmem]
  exact List.forall₂_zip hcounts hmem

end Named

/-! ## Qualification -/

structure Concluded (g : Hashes X) (db : TrialDb X P V) (pair : Pair)
    (planRecord definition : TrialRecord X) (p : PlanEntry) (sealed : ResolvedSpecification)
    (outcomes : Dict String Outcome) (spec : ExperimentDraft) (role : Role) (reduction : Reduction) :
    Prop where
  here : At db pair.planId planRecord
  typed : plan? planRecord = some p
  defined : At db pair.definitionId definition
  specified : specification? definition = some sealed
  reduced : Reduced g sealed p.plan outcomes pair.baseline pair.candidate spec role reduction
  valid : p.plan.Valid
  complete : invalidSamples p.plan outcomes = [] ↔ ∀ id ∈ pair.testIds, Counts db id

theorem checkPair_valid {sealed : ResolvedSpecification} {baseline candidate : String}
    {role : Role} (h : checkPair g sealed plan baseline candidate = .ok (spec, role)) :
    spec = sealed.effective ∧ plan.Valid ∧
      ∃ id ∈ plan.taskIds, ((taskMap spec).get? id).map Task.role = some role := by
  simp only [checkPair, bind_ok, need_ok, refuse_ok, not_not, pure_ok, Prod.mk.injEq] at h
  obtain ⟨spec, hverify, -, -, -, hvalid, -, -, -, -, -, -, -, -, role, hrole, -, -, -, -, -, -,
    rfl, rfl⟩ := h
  refine ⟨verifySpecification_ok hverify, hvalid, ?_⟩
  have hmem := List.mem_dedup.mp (List.mem_of_head? hrole)
  obtain ⟨id, hid, hrole⟩ := List.mem_filterMap.mp hmem
  exact ⟨id, hid, hrole⟩

theorem qualifiedComparison_ok (h : Lawful g db) {host : TrialHost X}
    {frozen : TrialRecord X} {pair : Pair} {samples : List SampleItem} {result : Reduction}
    {qualified : Bool}
    (hsamples : gather (sampleItem g db frozen.experimentId) pair.testIds = .ok samples)
    (hreduced : qualifiedComparison g host db frozen pair samples = .ok (result, qualified)) :
    ∃ planRecord definition p sealed outcomes spec role reduction,
      Concluded g db pair planRecord definition p sealed outcomes spec role reduction ∧
        result = reduction.withheld qualified := by
  simp only [qualifiedComparison, bind_ok, need_ok, refuse_ok, not_or, not_not, pure_ok,
    Prod.mk.injEq] at hreduced
  obtain ⟨planRecord, hread, ⟨definition, sealed⟩, hdefined, p, hp, -, -, -, -, -, ⟨hids, hlen⟩,
    -, -, os, hos, reduction, hreduction, rfl, rfl⟩ := hreduced
  obtain ⟨hdefinition, hsealed⟩ := At.definition hdefined
  obtain ⟨spec, role, hr⟩ := compareReturns_ok hreduction
  obtain ⟨-, hvalid, -⟩ := checkPair_valid hr.pair
  refine ⟨planRecord, definition, p, sealed, Dict.ofList (os.filterMap Prod.fst), spec, role,
    reduction, ?_, rfl⟩
  refine ⟨.read hread, hp, hdefinition, hsealed, hr, hvalid, ?_⟩
  -- Each sample is the item of its test.
  have hitem : ∀ item ∈ samples, sampleItem g db frozen.experimentId item.testId = .ok item := by
    intro item hmem
    obtain ⟨id, -, hone⟩ := gather_from hsamples hmem
    rwa [(sampleItem_ok hone).1]
  have hzip : p.plan.tests = (samples.zip p.plan.tests).map Prod.snd :=
    (List.map_snd_zip hlen.ge).symm
  have hfacts : List.Forall₂ (fun (e : SampleItem × PlannedTest) o =>
      e.1.testId = g.identity frozen.experimentId "test" e.2.testId ∧
        (∀ e' ∈ o.1, e'.1 = e.2.testId) ∧
        (invalidReason (o.1.map Prod.snd) = none ↔ Counts db e.1.testId))
      (samples.zip p.plan.tests) os := by
    rw [List.forall₂_iff_zip]
    refine ⟨(gather_ok.mp hos).length_eq, fun {e o} hmem => ?_⟩
    have hone := List.forall₂_zip (gather_ok.mp hos) hmem
    obtain ⟨item, s⟩ := e
    exact sampleOutcome_counts h hone (hitem item (List.of_mem_zip (List.of_mem_zip hmem).1).1)
  have hnames : List.Forall₂ (fun s o => ∀ e ∈ o.1, e.1 = PlannedTest.testId s) p.plan.tests os := by
    rw [hzip, List.forall₂_map_left_iff]
    exact hfacts.imp fun e o hone => hone.2.1
  have hcounts : List.Forall₂ (fun s o => invalidReason (o.1.map Prod.snd) = none ↔
      Counts db (g.identity frozen.experimentId "test" (PlannedTest.testId s)))
      p.plan.tests os := by
    rw [hzip, List.forall₂_map_left_iff]
    exact hfacts.imp fun e o hone => hone.1 ▸ hone.2.2
  rw [invalidSamples_named hvalid hnames hcounts]
  have hnamed : pair.testIds = p.plan.tests.map fun s =>
      g.identity frozen.experimentId "test" s.testId := by
    rw [← hids]
    conv_rhs => rw [hzip]
    conv_lhs => rw [← List.map_fst_zip hlen.le]
    rw [List.map_map, List.map_map]
    refine List.map_congr_left fun e he => ?_
    obtain ⟨n, hn, rfl⟩ := List.getElem_of_mem he
    have hlength := hfacts.length_eq
    have hmem : ((samples.zip p.plan.tests)[n], os[n]) ∈ (samples.zip p.plan.tests).zip os := by
      rw [← List.getElem_zip (h := by simp [List.length_zip] at hn hlength ⊢; omega)]
      exact List.getElem_mem _
    exact (List.forall₂_zip hfacts hmem).1
  rw [hnamed, List.forall_mem_map]

/-! ## What a reader finds -/

omit [DecidableEq V] in
theorem withheld_decision (r : Reduction) (qualified : Bool) :
    (r.withheld qualified).decision = r.decision ∨
      (r.decision = .eligible ∧ (r.withheld qualified).decision = .inconclusive) := by
  rw [Reduction.withheld]
  split
  · next h => exact .inr ⟨h.1, rfl⟩
  · exact .inl rfl

omit [DecidableEq V] in
theorem withheld_shown (r : Reduction) (qualified : Bool) :
    (r.withheld qualified).summary = r.summary ∧
      (r.withheld qualified).plannedRepeats = r.plannedRepeats := by
  rw [Reduction.withheld]
  split <;> exact ⟨rfl, rfl⟩

omit [DecidableEq V] in
theorem Reduced.readable {sealed : ResolvedSpecification} {outcomes : Dict String Outcome}
    {baseline candidate recordId : String} {role : Role} {r : Reduction}
    (h : Reduced g sealed plan outcomes baseline candidate spec role r)
    (hrole : role ≠ .finalHoldout) (qualified : Bool) :
    (parseSummary recordId (publicSummary (r.withheld qualified))).isOk = true ↔
      ¬ (role = .tuning ∧ invalidSamples plan outcomes = [] ∧
        (taskGroups spec sealed plan).length ≠ 1) := by
  obtain ⟨hsummary, hplanned⟩ := withheld_shown r qualified
  have hrepeats := spec.evaluate.repeats_pos
  have hpositive : 0 < (r.withheld qualified).plannedRepeats := by
    rw [hplanned, h.repeats]
    exact hrepeats
  have hdecision := withheld_decision r qualified
  rcases h.reduced with ⟨hinvalid, hd, hs⟩ | ⟨hvalid, values, groups, hgroups, hconclude⟩
  · rw [hd] at hdecision
    have hstays : (r.withheld qualified).decision = .inconclusive := by
      rcases hdecision with hsame | ⟨-, hsame⟩ <;> exact hsame
    have hknown : (r.withheld qualified).decision ∈ feedbackDecisions := by
      rw [hstays]
      decide
    have hcounts : ∀ s ∈ (r.withheld qualified).summary,
        0 < s.plannedRepeats ∧ s.positiveRepeats ≤ s.plannedRepeats := by
      intro s hsome
      rw [hsummary, hs] at hsome
      cases hsome
    rw [parseSummary_public hknown hpositive hcounts]
    exact ⟨fun _ hand => hinvalid hand.2.1, fun _ _ => hstays⟩
  · have hlength := (gather_ok.mp hgroups).length_eq
    have hshown := conclude_summary hconclude
    have hgroup : ∀ only, groups = [only] →
        only.summary.plannedRepeats = spec.evaluate.repeats ∧
          only.summary.positiveRepeats ≤ spec.evaluate.repeats ∧
          only.summary.decision ∈ [Decision.notImproved, .unstable, .eligible] := by
      rintro only rfl
      obtain ⟨tasks, -, hone⟩ := gather_from hgroups List.mem_cons_self
      exact reduceGroup_repeats hone
    have hcounts : ∀ s ∈ (r.withheld qualified).summary,
        0 < s.plannedRepeats ∧ s.positiveRepeats ≤ s.plannedRepeats := by
      intro s hs
      rw [hsummary] at hs
      rcases hshown with ⟨hnone, -⟩ | ⟨only, hone, hsome⟩
      · rw [hnone] at hs
        cases hs
      · rw [hsome, Option.mem_some_iff] at hs
        subst hs
        obtain ⟨hpos, hle, -⟩ := hgroup only hone
        omega
    have hnone : (r.withheld qualified).summary = none ↔ groups.length ≠ 1 := by
      rw [hsummary]
      rcases hshown with ⟨hnone, hmany⟩ | ⟨only, rfl, hsome⟩
      · exact ⟨fun _ => hmany, fun _ => hnone⟩
      · rw [hsome]
        exact ⟨nofun, fun hmany => absurd rfl hmany⟩
    have hknown : (r.withheld qualified).decision ∈ feedbackDecisions := by
      rcases conclude_decision hconclude hrole with ⟨-, hd⟩ | ⟨-, ⟨only, hone, hd⟩ | ⟨-, hd⟩⟩ <;>
        rw [hd] at hdecision
      · rcases hdecision with hsame | ⟨-, hsame⟩ <;> rw [hsame] <;> decide
      · have hmem := (hgroup only hone).2.2
        simp only [List.mem_cons, List.not_mem_nil, or_false] at hmem
        rcases hdecision with hsame | ⟨-, hsame⟩
        · rw [hsame]
          rcases hmem with hmem | hmem | hmem <;> rw [hmem] <;> decide
        · rw [hsame]
          decide
      · rcases hdecision with hsame | ⟨-, hsame⟩ <;> rw [hsame] <;> decide
    rw [parseSummary_public hknown hpositive hcounts, hnone, hlength]
    rcases conclude_decision hconclude hrole with ⟨htuning, hd⟩ | ⟨hselection, hd⟩
    · rw [hd] at hdecision
      have hstays : (r.withheld qualified).decision = .tuningOnly := by
        rcases hdecision with hsame | ⟨heligible, -⟩
        · exact hsame
        · cases heligible
      rw [hstays]
      constructor
      · rintro hread ⟨-, -, hmany⟩
        cases hread hmany
      · intro hread hmany
        exact absurd ⟨htuning, hvalid, hmany⟩ hread
    · constructor
      · rintro - ⟨htuning, -⟩
        rw [hselection] at htuning
        cases htuning
      · intro _ hmany
        rcases hd with ⟨only, rfl, -⟩ | ⟨-, hd⟩
        · exact absurd rfl hmany
        · rw [hd] at hdecision
          rcases hdecision with hsame | ⟨-, hsame⟩ <;> exact hsame

/-! ## Completed comparisons -/

variable [DecidableEq X]

omit [DecidableEq V] [DecidableEq X] in
theorem transaction_stored {α : Type} {host : TrialHost X} {body : Body.Run (Entry X) P V α}
    {r : TrialRecord X} (hstored : r ∈ (transaction host body db).2.records)
    (hnew : r ∉ db.records) : ∃ a db', body db = .ok (a, db') ∧ r ∈ db'.records := by
  rcases transaction_cases host body db with hsame | ⟨a, db', hrun, hleft⟩
  · rw [hsame] at hstored
    exact absurd hstored hnew
  · rw [hleft] at hstored
    exact ⟨a, db', hrun, hstored⟩

/-- What `complete` found when it stored a record. -/
theorem complete_stored {host : TrialHost X} {comparisonId : String} {requireTerminal : Bool}
    {r : TrialRecord X} (hstored : r ∈ (complete g host comparisonId requireTerminal db).2.records)
    (hnew : r ∉ db.records) :
    ∃ frozen pair samples result qualified, At db comparisonId frozen ∧ pair? frozen = some pair ∧
      gather (sampleItem g db frozen.experimentId) pair.testIds = .ok samples ∧
      qualifiedComparison g host db frozen pair samples = .ok (result, qualified) ∧
      SameRequest r.toPrepared (resultRequest g frozen pair samples result qualified) := by
  unfold complete at hstored
  split at hstored
  · exact absurd hstored hnew
  · next frozen hread =>
      split at hstored
      · exact absurd hstored hnew
      · next pair hpair =>
          obtain ⟨a, db', hrun, hin⟩ := transaction_stored hstored hnew
          dsimp only at hrun
          split at hrun
          · simp only [bind_ok, pure_ok, Prod.mk.injEq] at hrun
            obtain ⟨-, -, -, rfl⟩ := hrun
            exact absurd hin hnew
          · obtain ⟨samples, result, qualified, p, hsamples, hreduced, hprepared, hinsert⟩ :=
              completeBody_ok hrun
            obtain ⟨ha, ⟨rfl, -⟩ | ⟨rfl, -⟩⟩ := Db.insert_cases hinsert
            · exact absurd hin hnew
            · rcases List.mem_append.mp hin with hold | hlast
              · exact absurd hold hnew
              · obtain rfl := List.mem_singleton.mp hlast
                exact ⟨frozen, pair, samples, result, qualified, .read hread, hpair, hsamples,
                  hreduced, ha ▸ hprepared⟩

omit [DecidableEq V] [DecidableEq X] in
theorem requireComparisonScope_ok (h : Lawful g t) {r : TrialRecord X} (hr : r ∈ t.records)
    (hkind : r.kind = .comparison) (hplain : Plain t r) :
    requireComparisonScope g t r.recordId = .ok r := by
  obtain ⟨found, hfound, hne, hroles⟩ := scopes_open h hr hplain
  simp only [requireComparisonScope, bind_ok, refuse_ok, not_not, pure_ok]
  refine ⟨r, h.read ⟨hr, rfl⟩, (), hkind, found, hfound, (), ?_, rfl⟩
  rintro (hnil | ⟨s, hs, hother⟩)
  · exact hne hnil
  · exact hother (hroles s hs)

omit [DecidableEq V] [DecidableEq X] in
theorem comparisonFeedback_stored (h : Lawful g t) {r : TrialRecord X} (hr : r ∈ t.records)
    {c : ComparisonResult} (hc : result? r = some c) :
    comparisonFeedback g t r.recordId = parseSummary r.recordId c.publicSummary := by
  obtain ⟨hkind, hvalue⟩ := result?_some hc
  have hsummary : completedSummary r = .ok c.publicSummary := by
    rw [completedSummary, hkind, hvalue]
    rfl
  rw [comparisonFeedback, requireComparisonScope_ok h hr hkind (.result c hc)]
  show (completedSummary r >>= fun summary => parseSummary r.recordId summary) = _
  rw [hsummary]
  rfl

def MixedTuning (db : TrialDb X P V) (comparisonId : String) : Prop :=
  ∃ frozen pair planRecord p definition sealed, At db comparisonId frozen ∧
    pair? frozen = some pair ∧ At db pair.planId planRecord ∧ plan? planRecord = some p ∧
    At db pair.definitionId definition ∧ specification? definition = some sealed ∧
    p.purpose = .tuning ∧ sealed.effective.evaluate.allowMixedDurations = false ∧
    MixedDurations sealed p.plan ∧ ∀ id ∈ pair.testIds, Counts db id

omit [DecidableEq X] in
theorem Concluded.mixed (h : Lawful g db) {frozen planRecord definition : TrialRecord X}
    {pair : Pair} {p : PlanEntry} {sealed : ResolvedSpecification}
    {outcomes : Dict String Outcome} {role : Role} {reduction : Reduction}
    (hfrozen : frozen ∈ db.records) (hpair : pair? frozen = some pair)
    (hc : Concluded g db pair planRecord definition p sealed outcomes spec role reduction) :
    role = p.purpose.role ∧ p.purpose.Open ∧ spec = sealed.effective ∧
      ((taskGroups spec sealed p.plan).length = 1 ↔
        spec.evaluate.allowMixedDurations = true ∨ ¬ MixedDurations sealed p.plan) := by
  obtain ⟨planRecord', p', hpaired⟩ := (h.facts hfrozen).pair pair hpair
  obtain rfl := h.at_unique hc.here hpaired.here
  obtain rfl : p = p' := Option.some_inj.mp (hc.typed.symm.trans hpaired.typed)
  obtain ⟨definition', sealed', spec', hdefinition, hsealed, -, hcheck⟩ :=
    (h.facts hc.here.1).plan p hc.typed
  rw [← hpaired.definitionId] at hdefinition
  obtain rfl := h.at_unique hc.defined hdefinition
  obtain rfl : sealed = sealed' := Option.some_inj.mp (hc.specified.symm.trans hsealed)
  obtain ⟨rfl, hvalid, id, hid, hrole⟩ := checkPair_valid hc.reduced.pair
  simp only [checkPlan, bind_ok, refuse_ok, not_exists, not_and, not_not, pure_ok] at hcheck
  obtain ⟨spec'', hverify, -, -, -, -, -, hroles, -⟩ := hcheck
  obtain rfl := verifySpecification_ok hverify
  refine ⟨Option.some_inj.mp (hrole.symm.trans (hroles id hid)), hpaired.purpose, rfl,
    taskGroups_length hvalid.tests_ne fun id hid => ?_⟩
  obtain ⟨task, htask, -⟩ := Option.map_eq_some_iff.mp (hroles id hid)
  obtain ⟨hmem, rfl⟩ := taskMap_mem htask
  obtain ⟨dates, hdates⟩ := taskDates_some hmem
  exact ⟨dates.length, by rw [durations, Dict.get?_map, hdates]; rfl⟩

/-- A completed comparison can be read, whenever it is read, unless it is a
mixed tuning pair. -/
theorem completed_readable [DecidableEq P] (hdb : Reached g db) {host : TrialHost X}
    {comparisonId : String} {requireTerminal : Bool} {r : TrialRecord X}
    (hstored : r ∈ (complete g host comparisonId requireTerminal db).2.records)
    (hnew : r ∉ db.records)
    (hlater : Later g (complete g host comparisonId requireTerminal db).2 t) :
    (comparisonFeedback g t r.recordId).isOk = true ↔ ¬ MixedTuning db comparisonId := by
  have h := hdb.lawful
  have hgrown : Grown g db (complete g host comparisonId requireTerminal db).2 :=
    complete_grown host comparisonId requireTerminal
  have ht : Lawful g t := (h.grown hgrown).later hlater
  obtain ⟨new, hnewer⟩ := hlater.grown.within
  have hr : r ∈ t.records := by
    rw [hnewer]
    exact List.mem_append_left _ hstored
  obtain ⟨frozen, pair, samples, result, qualified, hfrozen, hpair, hsamples, hreduced, hsame⟩ :=
    complete_stored hstored hnew
  obtain ⟨planRecord, definition, p, sealed, outcomes, spec, role, reduction, hc, rfl⟩ :=
    qualifiedComparison_ok h hsamples hreduced
  obtain ⟨rfl, hopen, rfl, hgroups⟩ := hc.mixed h hfrozen.1 hpair
  have hrole : p.purpose.role ≠ .finalHoldout := by
    simp only [Purpose.Open, List.mem_cons, List.not_mem_nil, or_false] at hopen
    rcases hopen with hp | hp <;> rw [hp] <;> decide
  obtain ⟨c, hvalue, hsummary⟩ : ∃ c, (resultRequest g frozen pair samples
      (reduction.withheld qualified) qualified).value = .data (.comparisonResult c) ∧
        c.publicSummary = publicSummary (reduction.withheld qualified) := ⟨_, rfl, rfl⟩
  have hresult : result? r = some c := by
    rw [result?, hsame.kind, hsame.value, hvalue]
    rfl
  rw [comparisonFeedback_stored ht hr hresult, hsummary, hc.reduced.readable hrole qualified,
    hc.complete, not_congr]
  rw [Ne, hgroups]
  constructor
  · rintro ⟨htuning, hcounts, hmixed⟩
    rw [not_or, not_not] at hmixed
    refine ⟨frozen, pair, planRecord, p, definition, sealed, hfrozen, hpair, hc.here, hc.typed,
      hc.defined, hc.specified, ?_, by simpa using hmixed.1, hmixed.2, hcounts⟩
    simp only [Purpose.Open, List.mem_cons, List.not_mem_nil, or_false] at hopen
    rcases hopen with hp | hp
    · exact hp
    · rw [hp] at htuning
      cases htuning
  · rintro ⟨frozen', pair', planRecord', p', definition', sealed', hfrozen', hpair', hplan, hp,
      hdefinition, hsealed, htuning, hallow, hmixed, hcounts⟩
    obtain rfl := h.at_unique hfrozen hfrozen'
    obtain rfl : pair = pair' := Option.some_inj.mp (hpair.symm.trans hpair')
    obtain rfl := h.at_unique hc.here hplan
    obtain rfl : p = p' := Option.some_inj.mp (hc.typed.symm.trans hp)
    obtain rfl := h.at_unique hc.defined hdefinition
    obtain rfl : sealed = sealed' := Option.some_inj.mp (hc.specified.symm.trans hsealed)
    refine ⟨by rw [htuning]; rfl, hcounts, ?_⟩
    rw [not_or, not_not]
    exact ⟨by simp [hallow], hmixed⟩

/-! ## A mixed pair -/

section Sample

def sampleHashes : Hashes Unit where
  content := fun _ => "content"
  identity := fun experiment kind id => experiment ++ "/" ++ kind ++ "/" ++ id
  specification := fun _ _ => "specification"
  scope := fun s => s.taskId.getD ""
  plan := TestPlan.planId
  conditions := TaskComparisonConditions.dataCorpusHash
  runtime := fun _ _ => "runtime"
  registration := Pair.planId

def sampleTrialHost : TrialHost Unit where
  now := 0
  artifacts := fun hash => if hash = "b" ∨ hash = "c" then some (.manifest ⟨hash, []⟩) else none
  faults := fun _ => false

def sampleDraft (mixed : Bool) : ExperimentDraft where
  tasks := [⟨"day", .tuning, ⟨false, 1, 0⟩, fullWeight_pos⟩,
    ⟨"days", .tuning, ⟨false, 1, 0⟩, fullWeight_pos⟩]
  calibrationRepeats := 1
  evaluate := sampleSettings mixed
  tasks_ne := by decide
  tasks_unique := by decide

def sampleSealed (mixed : Bool) : ResolvedSpecification where
  specificationHash := "specification"
  effective := sampleDraft mixed
  tasks := [⟨"day", [1], oneDay_ne⟩, ⟨"days", [1, 2], by decide⟩]
  tasks_resolved := rfl

def sampleProposal (name : String) : CandidateProposal := ⟨name, name, none, "", "", none⟩

def sampleTest (testId proposalId taskId : String) : PlannedTest :=
  ⟨testId, proposalId, taskId, "repeat", 0, none⟩

def samplePlan : TestPlan where
  planId := "p"
  specificationHash := "specification"
  tests := [sampleTest "1" "b" "day", sampleTest "2" "c" "day", sampleTest "3" "b" "days",
    sampleTest "4" "c" "days"]
  seedSupport := .unsupported

def sampleRegistered (mixed : Bool) : TrialDb Unit Unit Unit :=
  let db := (definition sampleHashes sampleTrialHost "e" (sampleSealed mixed) "d"
    (emptyStore ["e"])).2
  let db := (candidate sampleHashes sampleTrialHost "e" (sampleProposal "b") "b" db).2
  let db := (candidate sampleHashes sampleTrialHost "e" (sampleProposal "c") "c" db).2
  let db := (testPlan sampleHashes sampleTrialHost "e" "e/definition/d" samplePlan "p" .tuning none
    db).2
  (freeze sampleHashes sampleTrialHost ⟨"e/plan/p", "b", "c", "f", none, none, none⟩ db).2

def sampleAssessment (s : PlannedTest) : Prepared (Entry Unit) where
  experimentId := "e"
  kind := .evaluation
  recordId := "assessment/" ++ s.testId
  submissionIdentity := s.testId
  value := .data (.evaluation {
    testId := "e/test/" ++ s.testId
    rescoreOf := none
    valid := true
    reasons := []
    formalReady := false
    navDiagnostic := some ⟨some ⟨false, 100, 0⟩, some ⟨false, 110, 0⟩, false⟩
    sample := s
    specificationHash := "specification"
    runtimeConditionsHash := none
    packageHash := none })
  links := [⟨"test", "e/test/" ++ s.testId⟩]
  artifactHashes := []
  sourcePolicyHashes := []

def runSample (db : TrialDb Unit Unit Unit) (s : PlannedTest) : TrialDb Unit Unit Unit :=
  let testId := "e/test/" ++ s.testId
  let lease := some ⟨testId, "w", 1⟩
  let db := (Db.transition sampleTrialHost testId .preflight "preflight" none none db).2
  let db := (Db.transition sampleTrialHost testId .queued "queued" none none db).2
  let db := (Db.claim sampleTrialHost testId "w" 60 (some pure) false db).2
  let db := (Db.transition sampleTrialHost testId .running "running" lease none db).2
  let db := (Db.transition sampleTrialHost testId .evaluating "evaluating" lease none db).2
  let db := (Db.transition sampleTrialHost testId .completed "completed" lease none db).2
  (Db.put sampleTrialHost (sampleAssessment s) db).2

def sampleRun (mixed : Bool) : TrialDb Unit Unit Unit :=
  samplePlan.tests.foldl runSample (sampleRegistered mixed)

def sampleCompleted (mixed : Bool) : TrialDb Unit Unit Unit :=
  (complete sampleHashes sampleTrialHost "e/comparison-plan/f" true (sampleRun mixed)).2

def SampleThere (db : TrialDb Unit Unit Unit) (s : PlannedTest) : Prop :=
  ∃ r ∈ db.records, r.recordId = "e/test/" ++ s.testId ∧ (test? r).isSome = true

instance (db : TrialDb Unit Unit Unit) (s : PlannedTest) : Decidable (SampleThere db s) :=
  inferInstanceAs (Decidable (∃ r ∈ db.records, _))

theorem SampleThere.within {db t : TrialDb Unit Unit Unit} {s : PlannedTest}
    (h : SampleThere db s) (hw : Within db t) : SampleThere t s := by
  obtain ⟨r, hr, h⟩ := h
  obtain ⟨new, hnew⟩ := hw
  exact ⟨r, hnew ▸ List.mem_append_left _ hr, h⟩

theorem sampleRegistered_reached (mixed : Bool) : Reached sampleHashes (sampleRegistered mixed) := by
  refine ⟨["e"], ?_⟩
  rw [sampleRegistered]
  exact .next (.next (.next (.next (.next .here (.definition _ _ _ _ _)) (.candidate _ _ _ _ _))
    (.candidate _ _ _ _ _)) (.testPlan _ _ _ _ _ _ _ _)) (.freeze _ _ _)

theorem runSample_later {db : TrialDb Unit Unit Unit} {s : PlannedTest} (h : SampleThere db s) :
    Later sampleHashes db (runSample db s) := by
  rw [runSample]
  have hrun : ∀ t, Later sampleHashes db t →
      Later sampleHashes db (Db.put sampleTrialHost (sampleAssessment s) t).2 := by
    intro t ht
    exact .next ht (.assess _ _ _ _ ⟨rfl, rfl, h.within ht.grown.within, List.mem_cons_self,
      fun l hl => .inl (List.mem_singleton.mp hl)⟩)
  apply hrun
  exact .next (.next (.next (.next (.next (.next .here (.transition _ _ _ _ _ _ _))
    (.transition _ _ _ _ _ _ _)) (.claim _ _ _ _ _ _)) (.transition _ _ _ _ _ _ _))
    (.transition _ _ _ _ _ _ _)) (.transition _ _ _ _ _ _ _)

theorem runSamples_later {ss : List PlannedTest} {db : TrialDb Unit Unit Unit}
    (h : ∀ s ∈ ss, SampleThere db s) : Later sampleHashes db (ss.foldl runSample db) := by
  induction ss generalizing db with
  | nil => exact .here
  | cons s ss ih =>
      have hfirst := runSample_later (h s List.mem_cons_self)
      refine hfirst.trans (ih fun u hu => ?_)
      exact (h u (List.mem_cons_of_mem _ hu)).within hfirst.grown.within

theorem sampleRun_reached (mixed : Bool) : Reached sampleHashes (sampleRun mixed) := by
  obtain ⟨experiments, h⟩ := sampleRegistered_reached mixed
  refine ⟨experiments, h.trans (runSamples_later ?_)⟩
  cases mixed <;> decide +kernel

/-- A pair of mixed durations that may not be mixed completes, and cannot be
read. -/
theorem mixed_pair_unreadable : ¬ ∀ (db : TrialDb Unit Unit Unit) (host : TrialHost Unit)
    (comparisonId : String) (requireTerminal : Bool), Reached sampleHashes db →
    ∀ r ∈ (complete sampleHashes host comparisonId requireTerminal db).2.records,
      r ∉ db.records → (comparisonFeedback sampleHashes
        (complete sampleHashes host comparisonId requireTerminal db).2 r.recordId).isOk = true := by
  intro h
  have hread := h _ sampleTrialHost "e/comparison-plan/f" true (sampleRun_reached false)
  have hfails : ∃ r ∈ (sampleCompleted false).records, r ∉ (sampleRun false).records ∧
      (comparisonFeedback sampleHashes (sampleCompleted false) r.recordId).isOk = false := by
    decide +kernel
  obtain ⟨r, hr, hnew, hfails⟩ := hfails
  rw [sampleCompleted] at hr hfails
  have hok := hread r hr hnew
  rw [hfails] at hok
  cases hok

/-- The same pair can be read when durations may be mixed. -/
theorem completed_readable_sample : ∃ r ∈ (sampleCompleted true).records,
    (comparisonFeedback sampleHashes (sampleCompleted true) r.recordId).isOk = true ∧
      ¬ MixedTuning (sampleRun true) "e/comparison-plan/f" := by
  have hreads : ∃ r ∈ (sampleCompleted true).records, r ∉ (sampleRun true).records ∧
      (comparisonFeedback sampleHashes (sampleCompleted true) r.recordId).isOk = true := by
    decide +kernel
  obtain ⟨r, hr, hnew, hreads⟩ := hreads
  refine ⟨r, hr, hreads, ?_⟩
  rw [sampleCompleted] at hr hreads
  exact (completed_readable (sampleRun_reached true) hr hnew .here).mp hreads

end Sample

end Ahunter.Trials
