import Ahunter.Lib.Related
import Ahunter.Proofs.TrialLog

/-!
# The comparison is fair

A comparison reads the return of every slot of its plan and nothing else of the
outcomes, so that what it concludes is a function of the returns by slot: of
weighted means, of their differences in each repeat, and of the mean, the least
and the number of positive ones among these. Every statement below is about this
function or about what the returns are read from. A mean grows with the returns
it is of, does not see a common factor of the weights, and the difference of two
changes its sign when they are exchanged; the returns do not see a common factor
of two values of one sample; and the slots do not see the order of the plan.
-/

namespace Ahunter.Trials

open Ahunter.Lib Ahunter.Records

/-! ## The summary of returns -/

variable {weights : List (String × Decimal)} {repeats : ℕ} {s : EvaluationSettings}

abbrev Slot := String × String × ℕ

def meanOf (weights : List (String × Decimal)) (ret : Slot → ℚ) (name : String) (index : ℕ) : ℚ :=
  (weights.map fun w => w.2.toRat * ret (name, w.1, index)).sum /
    (weights.map fun w => w.2.toRat).sum

def meanReturn (repeats : ℕ) (weights : List (String × Decimal)) (ret : Slot → ℚ)
    (name : String) : ℚ :=
  ((List.range repeats).map (meanOf weights ret name)).sum / repeats

/-- The paired differences. -/
def gains (repeats : ℕ) (weights : List (String × Decimal)) (ret : Slot → ℚ)
    (baseline candidate : String) : List ℚ :=
  (List.range repeats).map fun index =>
    meanOf weights ret candidate index - meanOf weights ret baseline index

def worstGain (repeats : ℕ) (weights : List (String × Decimal)) (ret : Slot → ℚ)
    (baseline candidate : String) : ℚ :=
  (gains repeats weights ret baseline candidate).min?.getD 0

/-- `summarize`, of the returns by slot -/
def summaryOf (s : EvaluationSettings) (weights : List (String × Decimal)) (ret : Slot → ℚ)
    (baseline candidate : String) : Summary :=
  let old := meanReturn s.repeats weights ret baseline
  let new := meanReturn s.repeats weights ret candidate
  let differences := gains s.repeats weights ret baseline candidate
  let worst := worstGain s.repeats weights ret baseline candidate
  let positives := differences.countP fun d => 0 < d
  { baselineMeanReturn := render old
    candidateMeanReturn := render new
    meanImprovement := render (new - old)
    worstPairedDifference := render worst
    exact := (old, new, new - old, worst)
    positiveRepeats := positives
    plannedRepeats := s.repeats
    decision := groupDecision s (new - old) worst positives
    pairedDifferences := differences.map render
    pairedDifferencesExact := differences }

def returnAt (values : List (Slot × ℚ)) (slot : Slot) : ℚ := (values.lookup slot).getD 0

/-- Every return that a mean of a candidate needs is there. -/
def Covers (values : List (Slot × ℚ)) (weights : List (String × Decimal)) (repeats : ℕ)
    (name : String) : Prop :=
  ∀ index < repeats, ∀ w ∈ weights, (values.lookup (name, w.1, index)).isSome = true

variable {values : List (Slot × ℚ)} {name : String}

theorem repeatReturn_iff {index : ℕ} {x : ℚ} :
    repeatReturn weights values name index = .ok x ↔
      (∀ w ∈ weights, (values.lookup (name, w.1, index)).isSome = true) ∧
        x = meanOf weights (returnAt values) name index := by
  simp only [repeatReturn, bind_ok, pure_ok]
  constructor
  · rintro ⟨terms, hterms, rfl⟩
    refine ⟨fun w hw => ?_, ?_⟩
    · obtain ⟨_, -, hterm⟩ := gather_mem hterms hw
      obtain ⟨value, hvalue, -⟩ := bind_ok.mp hterm
      rw [need_ok.mp hvalue]
      rfl
    · have hmap : terms.map id =
          weights.map fun w => w.2.toRat * returnAt values (name, w.1, index) :=
        gather_map hterms fun w _ term hterm => by
          obtain ⟨value, hvalue, hterm⟩ := bind_ok.mp hterm
          rw [id_eq, ← pure_ok.mp hterm, returnAt, need_ok.mp hvalue]
          rfl
      rw [List.map_id] at hmap
      rw [hmap, meanOf]
  · rintro ⟨hsome, rfl⟩
    refine ⟨weights.map fun w => w.2.toRat * returnAt values (name, w.1, index), ?_, rfl⟩
    rw [gather_ok, List.forall₂_map_right_iff, List.forall₂_same]
    intro w hw
    obtain ⟨value, hvalue⟩ := Option.isSome_iff_exists.mp (hsome w hw)
    exact bind_ok.mpr ⟨value, need_ok.mpr hvalue, by rw [returnAt, hvalue]; rfl⟩

theorem gather_repeats {xs : List ℚ} :
    gather (repeatReturn weights values name) (List.range repeats) = .ok xs ↔
      Covers values weights repeats name ∧
        xs = (List.range repeats).map (meanOf weights (returnAt values) name) := by
  constructor
  · intro h
    refine ⟨fun index hindex w hw => ?_, ?_⟩
    · obtain ⟨x, -, hx⟩ := gather_mem h (List.mem_range.mpr hindex)
      exact (repeatReturn_iff.mp hx).1 w hw
    · have hmap := gather_map (k := id) h fun index _ x hx => (repeatReturn_iff.mp hx).2
      rwa [List.map_id] at hmap
  · rintro ⟨hcovers, rfl⟩
    rw [gather_ok, List.forall₂_map_right_iff, List.forall₂_same]
    exact fun index hindex =>
      repeatReturn_iff.mpr ⟨hcovers index (List.mem_range.mp hindex), rfl⟩

theorem gains_ne (weights : List (String × Decimal)) (ret : Slot → ℚ)
    (baseline candidate : String) : gains s.repeats weights ret baseline candidate ≠ [] := by
  intro hnil
  have hlength := congrArg List.length hnil
  rw [gains, List.length_map, List.length_range, List.length_nil] at hlength
  exact absurd hlength (Nat.pos_iff_ne_zero.mp s.repeats_pos)

variable {baseline candidate : String}

theorem summarize_iff {summary : Summary} :
    summarize s weights values baseline candidate = .ok summary ↔
      Covers values weights s.repeats baseline ∧ Covers values weights s.repeats candidate ∧
        summary = summaryOf s weights (returnAt values) baseline candidate := by
  have hzip : ∀ f f' : ℕ → ℚ, List.zipWith (fun b c => c - b)
      ((List.range s.repeats).map f) ((List.range s.repeats).map f') =
        (List.range s.repeats).map fun index => f' index - f index := by
    intro f f'
    rw [List.zipWith_map, List.zipWith_self]
  obtain ⟨worst, hworst⟩ := Option.ne_none_iff_exists'.mp
    (mt List.min?_eq_none_iff.mp (gains_ne (s := s) weights (returnAt values) baseline candidate))
  have hgetD : worstGain s.repeats weights (returnAt values) baseline candidate = worst := by
    rw [worstGain, hworst, Option.getD_some]
  simp only [summarize, bind_ok, pure_ok, gather_repeats, need_ok]
  constructor
  · rintro ⟨_, ⟨hold, rfl⟩, _, ⟨hnew, rfl⟩, worst', hworst', rfl⟩
    refine ⟨hold, hnew, ?_⟩
    rw [hzip] at hworst' ⊢
    cases hworst.symm.trans hworst'
    rw [summaryOf, hgetD]
    rfl
  · rintro ⟨hold, hnew, rfl⟩
    refine ⟨_, ⟨hold, rfl⟩, _, ⟨hnew, rfl⟩, worst, ?_, ?_⟩
    · rw [hzip]
      exact hworst
    · rw [hzip, summaryOf, hgetD]
      rfl

/-! ## Better returns -/

variable {ret : Slot → ℚ}

def Favours (weights : List (String × Decimal)) (repeats : ℕ) (baseline candidate : String)
    (ret ret' : Slot → ℚ) : Prop :=
  ∀ index < repeats, ∀ w ∈ weights,
    ret (candidate, w.1, index) ≤ ret' (candidate, w.1, index) ∧
      ret' (baseline, w.1, index) ≤ ret (baseline, w.1, index)

theorem meanOf_le (hpos : ∀ w ∈ weights, 0 < w.2.toRat) {ret' : Slot → ℚ} {name : String}
    {index : ℕ} (h : ∀ w ∈ weights, ret (name, w.1, index) ≤ ret' (name, w.1, index)) :
    meanOf weights ret name index ≤ meanOf weights ret' name index := by
  have htotal : 0 ≤ (weights.map fun w => w.2.toRat).sum := by
    refine List.sum_nonneg fun x hx => ?_
    obtain ⟨w, hw, rfl⟩ := List.mem_map.mp hx
    exact (hpos w hw).le
  refine div_le_div_of_nonneg_right ?_ htotal
  exact List.sum_le_sum fun w hw => mul_le_mul_of_nonneg_left (h w hw) (hpos w hw).le

theorem meanReturn_le {ret' : Slot → ℚ}
    (h : ∀ index < repeats, meanOf weights ret name index ≤ meanOf weights ret' name index) :
    meanReturn repeats weights ret name ≤ meanReturn repeats weights ret' name := by
  refine div_le_div_of_nonneg_right ?_ (Nat.cast_nonneg _)
  exact List.sum_le_sum fun index hindex => h index (List.mem_range.mp hindex)

theorem worstGain_le {d : ℚ} (hd : d ∈ gains s.repeats weights ret baseline candidate) :
    worstGain s.repeats weights ret baseline candidate ≤ d := by
  obtain ⟨worst, hworst⟩ := Option.ne_none_iff_exists'.mp
    (mt List.min?_eq_none_iff.mp (gains_ne (s := s) weights ret baseline candidate))
  rw [worstGain, hworst, Option.getD_some]
  exact (List.min?_eq_some_iff.mp hworst).2 d hd

theorem worstGain_mem (weights : List (String × Decimal)) (ret : Slot → ℚ)
    (baseline candidate : String) :
    worstGain s.repeats weights ret baseline candidate ∈
      gains s.repeats weights ret baseline candidate := by
  obtain ⟨worst, hworst⟩ := Option.ne_none_iff_exists'.mp
    (mt List.min?_eq_none_iff.mp (gains_ne (s := s) weights ret baseline candidate))
  rw [worstGain, hworst, Option.getD_some]
  exact (List.min?_eq_some_iff.mp hworst).1

theorem groupDecision_eligible {improvement worst : ℚ} {positives : ℕ} :
    groupDecision s improvement worst positives = .eligible ↔
      (0 < improvement ∧ s.minimumImprovement.toRat ≤ improvement) ∧
        s.repeats * s.positiveNumerator ≤ positives * s.positiveDenominator ∧
          s.worstRepeatRegression.toRat ≤ worst := by
  rw [groupDecision]
  split
  · next h =>
      refine iff_of_false (fun h => by cases h) fun hall => ?_
      rcases h with h | h
      · exact absurd hall.1.1 (not_lt.mpr h)
      · exact absurd hall.1.2 (not_le.mpr h)
  · next h =>
      rw [not_or, not_le, not_lt] at h
      split
      · next h' =>
          refine iff_of_false (fun h => by cases h) fun hall => ?_
          rcases h' with h' | h'
          · exact absurd hall.2.1 (not_le.mpr h')
          · exact absurd hall.2.2 (not_le.mpr h')
      · next h' =>
          rw [not_or, not_lt, not_lt] at h'
          exact iff_of_true rfl ⟨h, h'⟩

theorem summaryOf_favours (hpos : ∀ w ∈ weights, 0 < w.2.toRat) {baseline candidate : String}
    {ret' : Slot → ℚ} (h : Favours weights s.repeats baseline candidate ret ret')
    (heligible : (summaryOf s weights ret baseline candidate).decision = .eligible) :
    (summaryOf s weights ret' baseline candidate).decision = .eligible := by
  have hnew : ∀ index < s.repeats,
      meanOf weights ret candidate index ≤ meanOf weights ret' candidate index :=
    fun index hindex => meanOf_le hpos fun w hw => (h index hindex w hw).1
  have hold : ∀ index < s.repeats,
      meanOf weights ret' baseline index ≤ meanOf weights ret baseline index :=
    fun index hindex => meanOf_le hpos fun w hw => (h index hindex w hw).2
  have hmeans := sub_le_sub (meanReturn_le hnew) (meanReturn_le hold)
  have hworst : worstGain s.repeats weights ret baseline candidate ≤
      worstGain s.repeats weights ret' baseline candidate := by
    obtain ⟨index, hindex, heq⟩ :=
      List.mem_map.mp (worstGain_mem (s := s) weights ret' baseline candidate)
    rw [List.mem_range] at hindex
    calc worstGain s.repeats weights ret baseline candidate
        ≤ meanOf weights ret candidate index - meanOf weights ret baseline index :=
          worstGain_le (List.mem_map.mpr ⟨index, List.mem_range.mpr hindex, rfl⟩)
      _ ≤ meanOf weights ret' candidate index - meanOf weights ret' baseline index :=
          sub_le_sub (hnew index hindex) (hold index hindex)
      _ = worstGain s.repeats weights ret' baseline candidate := heq
  have hcount : (gains s.repeats weights ret baseline candidate).countP (fun d => 0 < d) ≤
      (gains s.repeats weights ret' baseline candidate).countP (fun d => 0 < d) := by
    rw [gains, gains, List.countP_map, List.countP_map]
    refine List.countP_mono_left fun index hindex hgain => ?_
    rw [List.mem_range] at hindex
    rw [Function.comp_apply, decide_eq_true_iff] at hgain ⊢
    exact hgain.trans_le (sub_le_sub (hnew index hindex) (hold index hindex))
  obtain ⟨⟨himproved, hminimum⟩, hpositives, hregression⟩ := groupDecision_eligible.mp heligible
  refine groupDecision_eligible.mpr ⟨⟨himproved.trans_le hmeans, hminimum.trans hmeans⟩,
    hpositives.trans (Nat.mul_le_mul_right _ hcount), hregression.trans hworst⟩

theorem summaryOf_swap {s' : EvaluationSettings} (hs : s'.repeats = s.repeats)
    (h : (summaryOf s weights ret baseline candidate).decision = .eligible) :
    (summaryOf s' weights ret candidate baseline).decision ≠ .eligible := by
  intro h'
  have hforth := (groupDecision_eligible.mp h).1.1
  have hback := (groupDecision_eligible.mp h').1.1
  rw [hs] at hback
  linarith

/-! ## Weights with a common factor -/

variable {k : ℚ} {weights' : List (String × Decimal)}

def Reweighed (k : ℚ) (weights weights' : List (String × Decimal)) : Prop :=
  List.Forall₂ (fun w w' => w'.1 = w.1 ∧ w'.2.toRat = k * w.2.toRat) weights weights'

theorem sum_reweighed (h : Reweighed k weights weights') (f : String → ℚ) :
    (weights'.map fun w => w.2.toRat * f w.1).sum =
      k * (weights.map fun w => w.2.toRat * f w.1).sum := by
  induction h with
  | nil => simp
  | cons hone _ ih =>
      rw [List.map_cons, List.map_cons, List.sum_cons, List.sum_cons, ih, hone.1, hone.2]
      ring

theorem meanOf_reweighed (hk : 0 < k) (h : Reweighed k weights weights') (ret : Slot → ℚ)
    (name : String) (index : ℕ) :
    meanOf weights' ret name index = meanOf weights ret name index := by
  have htotal := sum_reweighed h fun _ => 1
  simp only [mul_one] at htotal
  rw [meanOf, meanOf, sum_reweighed h fun t => ret (name, t, index), htotal,
    mul_div_mul_left _ _ hk.ne']

theorem summaryOf_reweighed (hk : 0 < k) (h : Reweighed k weights weights') (ret : Slot → ℚ)
    (baseline candidate : String) :
    summaryOf s weights' ret baseline candidate = summaryOf s weights ret baseline candidate := by
  have hmean : meanOf weights' ret = meanOf weights ret :=
    funext fun name => funext fun index => meanOf_reweighed hk h ret name index
  simp only [summaryOf, meanReturn, gains, worstGain, hmean]

theorem covers_reweighed (h : Reweighed k weights weights') :
    Covers values weights' repeats name ↔ Covers values weights repeats name := by
  have htasks : weights'.map Prod.fst = weights.map Prod.fst := by
    induction h with
    | nil => rfl
    | cons hone _ ih => rw [List.map_cons, List.map_cons, hone.1, ih]
  have hcovers : ∀ ws : List (String × Decimal), Covers values ws repeats name ↔
      ∀ index < repeats, ∀ t ∈ ws.map Prod.fst, (values.lookup (name, t, index)).isSome = true :=
    fun ws => by simp only [Covers, List.forall_mem_map]
  rw [hcovers, hcovers, htasks]

/-! ## Groups -/

variable {spec : ExperimentDraft} {group : List String}

theorem groupWeights_pos (h : groupWeights spec group = .ok weights) :
    ∀ w ∈ weights, 0 < w.2.toRat := by
  intro w hw
  obtain ⟨t, -, hweight⟩ := gather_from h hw
  obtain ⟨task, -, heq⟩ := bind_ok.mp hweight
  rw [← pure_ok.mp heq]
  exact task.weight_pos

def groupOf (sealed : ResolvedSpecification) (group : List String)
    (weights : List (String × Decimal)) (summary : Summary) : Group where
  taskIds := group
  tradingDayCounts := (group.filterMap (durations sealed).get?).dedup.insertionSort (· ≤ ·)
  weights := weights
  summary := summary

theorem reduceGroup_iff {sealed : ResolvedSpecification} {r : Group} :
    reduceGroup spec sealed values baseline candidate group = .ok r ↔
      ∃ weights, groupWeights spec group = .ok weights ∧
        (Covers values weights spec.evaluate.repeats baseline ∧
          Covers values weights spec.evaluate.repeats candidate) ∧ r = groupOf sealed group weights
          (summaryOf spec.evaluate weights (returnAt values) baseline candidate) := by
  simp only [reduceGroup, bind_ok, pure_ok, summarize_iff]
  constructor
  · rintro ⟨weights, hweights, _, ⟨hold, hnew, rfl⟩, rfl⟩
    exact ⟨weights, hweights, ⟨hold, hnew⟩, rfl⟩
  · rintro ⟨weights, hweights, ⟨hold, hnew⟩, rfl⟩
    exact ⟨weights, hweights, _, ⟨hold, hnew, rfl⟩, rfl⟩

theorem conclude_congr (role : Role) {groups groups' : List Group}
    (h : groups'.map Group.summary = groups.map Group.summary) :
    conclude role groups' = conclude role groups := by
  rcases groups with _ | ⟨only, _ | ⟨_, _⟩⟩ <;> rcases groups' with _ | ⟨only', _ | ⟨_, _⟩⟩ <;>
    simp only [List.map_cons, List.map_nil, List.cons.injEq, reduceCtorEq, and_false] at h
  · rfl
  · cases role <;> simp only [conclude, h.1]
  · cases role <;> rfl

variable {role : Role}

theorem conclude_eligible {groups : List Group} (h : (conclude role groups).1 = .eligible) :
    role = .selectionValidation ∧ ∃ only, groups = [only] ∧ only.summary.decision = .eligible := by
  cases role with
  | tuning =>
      rcases groups with _ | ⟨only, _ | ⟨_, _⟩⟩ <;> cases h
  | finalHoldout =>
      rcases groups with _ | ⟨only, _ | ⟨_, _⟩⟩ <;> cases h
  | selectionValidation =>
      rcases groups with _ | ⟨only, _ | ⟨_, _⟩⟩
      · cases h
      · exact ⟨rfl, only, rfl, h⟩
      · cases h

/-! ## The checks of a pair -/

structure Checked {X : Type} (g : Hashes X) (sealed : ResolvedSpecification) (plan : TestPlan)
    (baseline candidate : String) (spec : ExperimentDraft) (role : Role) : Prop where
  hash : g.specification sealed.effective sealed.tasks = sealed.specificationHash
  effective : spec = sealed.effective
  policy : spec.evaluate.stabilityPolicyRef = "paired_repeat_threshold_v1"
  valid : plan.Valid
  bound : plan.specificationHash = sealed.specificationHash
  distinct : baseline ≠ candidate
  proposals : SameElements plan.proposals [baseline, candidate]
  known : ¬ ∃ t ∈ plan.taskIds, (taskMap spec).contains t = false
  one : (plan.taskIds.filterMap fun t => ((taskMap spec).get? t).map Task.role).dedup.length = 1
  chosen : (plan.taskIds.filterMap fun t => ((taskMap spec).get? t).map Task.role).dedup.head? =
    some role
  selected : ¬(role = .selectionValidation ∧ ¬SameElements plan.taskIds
    ((spec.tasks.filter fun t => t.role = role).map Task.taskId))
  complete : SameElements (plan.tests.map PlannedTest.slot)
    (matrix [baseline, candidate] plan.taskIds spec.evaluate.repeats)
  paired : ¬ ∃ b ∈ blocks 2 plan.tests.length plan.tests, ¬Interleaved [baseline, candidate] b

variable {X : Type} {g : Hashes X} {sealed : ResolvedSpecification} {plan : TestPlan}
  {baseline candidate : String}

theorem checkPair_iff :
    checkPair g sealed plan baseline candidate = .ok (spec, role) ↔
      Checked g sealed plan baseline candidate spec role := by
  simp only [checkPair, verifySpecification, bind_ok, need_ok, refuse_ok, not_not, pure_ok,
    Prod.mk.injEq, not_or]
  constructor
  · rintro ⟨_, ⟨-, hhash, rfl⟩, -, hpolicy, -, hvalid, -, hbound, -, ⟨hdistinct, hproposals⟩, -,
      hknown, -, hone, _, hrole, -, hselected, -, hcomplete, -, hpaired, rfl, rfl⟩
    exact ⟨hhash, rfl, hpolicy, hvalid, hbound, hdistinct, hproposals, hknown, hone, hrole,
      hselected, hcomplete, hpaired⟩
  · intro h
    obtain rfl := h.effective
    exact ⟨_, ⟨(), h.hash, rfl⟩, (), h.policy, (), h.valid, (), h.bound, (),
      ⟨h.distinct, h.proposals⟩, (), h.known, (), h.one, role, h.chosen, (), h.selected, (),
      h.complete, (), h.paired, rfl, rfl⟩

/-! ## Comparisons -/

variable {outcomes : Dict String Outcome} {r : Reduction}

def reductionOf (plan : TestPlan) (outcomes : Dict String Outcome) (spec : ExperimentDraft)
    (role : Role) (groups : List Group) (conclusion : Decision × Reason × Option Summary) :
    Reduction where
  role := role
  plannedRepeats := spec.evaluate.repeats
  seedSupport := plan.seedSupport
  invalidSamples := invalidSamples plan outcomes
  decision := conclusion.1
  reason := conclusion.2.1
  groups := groups
  summary := conclusion.2.2

/-- What a comparison reads before it looks at the groups. -/
structure Read {X : Type} (g : Hashes X) (sealed : ResolvedSpecification) (plan : TestPlan)
    (outcomes : Dict String Outcome) (baseline candidate : String) (spec : ExperimentDraft)
    (role : Role) (values : List (Slot × ℚ)) : Prop where
  pair : Checked g sealed plan baseline candidate spec role
  planned : outcomes.keys ⊆ plan.tests.map PlannedTest.testId
  returns : sampleReturns plan outcomes = .ok values

structure Scored {X : Type} (g : Hashes X) (sealed : ResolvedSpecification) (plan : TestPlan)
    (outcomes : Dict String Outcome) (baseline candidate : String) (spec : ExperimentDraft)
    (role : Role) (values : List (Slot × ℚ)) (groups : List Group) : Prop extends
    Read g sealed plan outcomes baseline candidate spec role values where
  count : invalidSamples plan outcomes = []
  resolved : ¬ ∃ t ∈ plan.taskIds, (durations sealed).contains t = false
  reduced : gather (reduceGroup spec sealed values baseline candidate)
    (taskGroups spec sealed plan) = .ok groups

theorem compareReturns_iff :
    compareReturns g sealed plan outcomes baseline candidate = .ok r ↔
      ∃ spec role values, Read g sealed plan outcomes baseline candidate spec role values ∧
        (invalidSamples plan outcomes ≠ [] ∧ r = reductionOf plan outcomes spec role []
            (.inconclusive, .requiredSamplesInvalid, none) ∨
          ∃ groups, Scored g sealed plan outcomes baseline candidate spec role values groups ∧
            r = reductionOf plan outcomes spec role groups (conclude role groups)) := by
  simp only [compareReturns, bind_ok, refuse_ok, not_not]
  constructor
  · rintro ⟨⟨spec, role⟩, hpair, -, hplanned, values, hvalues, h⟩
    have hread : Read g sealed plan outcomes baseline candidate spec role values :=
      ⟨checkPair_iff.mp hpair, hplanned, hvalues⟩
    refine ⟨spec, role, values, hread, ?_⟩
    split at h
    · next hinvalid => exact .inl ⟨hinvalid, (pure_ok.mp h).symm⟩
    · next hvalid =>
        simp only [bind_ok, refuse_ok, pure_ok] at h
        obtain ⟨-, hresolved, groups, hgroups, rfl⟩ := h
        exact .inr ⟨groups, ⟨hread, not_not.mp hvalid, hresolved, hgroups⟩, rfl⟩
  · rintro ⟨spec, role, values, hread, h⟩
    refine ⟨(spec, role), checkPair_iff.mpr hread.pair, (), hread.planned, values, hread.returns,
      ?_⟩
    rcases h with ⟨hinvalid, rfl⟩ | ⟨groups, hscored, rfl⟩
    · rw [if_pos hinvalid]
      rfl
    · rw [if_neg (not_not.mpr hscored.count)]
      simp only [bind_ok, refuse_ok, pure_ok]
      exact ⟨(), hscored.resolved, groups, hscored.reduced, rfl⟩

theorem compareReturns_eligible
    (h : compareReturns g sealed plan outcomes baseline candidate = .ok r)
    (heligible : r.decision = .eligible) :
    ∃ spec values only, Scored g sealed plan outcomes baseline candidate spec
      .selectionValidation values [only] ∧ only.summary.decision = .eligible := by
  obtain ⟨spec, role, values, -, h⟩ := compareReturns_iff.mp h
  rcases h with ⟨-, rfl⟩ | ⟨groups, hscored, rfl⟩
  · cases heligible
  · obtain ⟨rfl, only, rfl, honly⟩ := conclude_eligible heligible
    exact ⟨spec, values, only, hscored, honly⟩

/-! ## What is read of the outcomes -/

variable {Q : Slot → ℚ → ℚ → Prop} {values' : List (Slot × ℚ)} {outcomes' : Dict String Outcome}

def Aligned (Q : Slot → ℚ → ℚ → Prop) : List (Slot × ℚ) → List (Slot × ℚ) → Prop :=
  List.Forall₂ fun v v' => v'.1 = v.1 ∧ Q v.1 v.2 v'.2

theorem lookup_aligned (h : Aligned Q values values') (slot : Slot) :
    values.lookup slot = none ∧ values'.lookup slot = none ∨
      ∃ x x', values.lookup slot = some x ∧ values'.lookup slot = some x' ∧ Q slot x x' := by
  induction h with
  | nil => exact .inl ⟨rfl, rfl⟩
  | @cons v v' values values' hone _ ih =>
      obtain ⟨key, x⟩ := v
      obtain ⟨key', x'⟩ := v'
      obtain ⟨rfl : key' = key, hQ⟩ := hone
      rw [List.lookup_cons, List.lookup_cons]
      by_cases hkey : slot = key'
      · subst hkey
        exact .inr ⟨x, x', by simp, by simp, hQ⟩
      · have hne : (slot == key') = false := beq_eq_false_iff_ne.mpr hkey
        simpa only [hne] using ih

theorem covers_aligned (h : Aligned Q values values')
    (hcovers : Covers values weights repeats name) : Covers values' weights repeats name := by
  intro index hindex w hw
  have hsome := hcovers index hindex w hw
  rcases lookup_aligned h (name, w.1, index) with ⟨hnone, -⟩ | ⟨_, _, -, hsome', -⟩
  · rw [hnone] at hsome
    cases hsome
  · rw [hsome']
    rfl

theorem returnAt_aligned (h : Aligned Q values values') {slot : Slot}
    (hsome : (values.lookup slot).isSome = true) :
    Q slot (returnAt values slot) (returnAt values' slot) := by
  rcases lookup_aligned h slot with ⟨hnone, -⟩ | ⟨_, _, hx, hx', hQ⟩
  · rw [hnone] at hsome
    cases hsome
  · rw [returnAt, returnAt, hx, hx']
    exact hQ

theorem gather_aligned {f : PlannedTest → Attempt (Slot × ℚ)}
    (f' : PlannedTest → Attempt (Slot × ℚ)) {tests : List PlannedTest}
    (h : gather f tests = .ok values)
    (hone : ∀ s ∈ tests, ∀ v, f s = .ok v → ∃ v', f' s = .ok v' ∧ v'.1 = v.1 ∧ Q v.1 v.2 v'.2) :
    ∃ values', gather f' tests = .ok values' ∧ Aligned Q values values' := by
  simp only [gather_ok] at h ⊢
  induction h with
  | nil => exact ⟨[], .nil, .nil⟩
  | @cons s v tests values hs _ ih =>
      obtain ⟨v', hs', hv'⟩ := hone s List.mem_cons_self v hs
      obtain ⟨values', hvalues, haligned⟩ := ih fun s hs => hone s (List.mem_cons_of_mem _ hs)
      exact ⟨v' :: values', .cons hs' hvalues, .cons hv' haligned⟩

variable {v : Slot × ℚ}

theorem sampleReturn_iff {s : PlannedTest} :
    sampleReturn outcomes s = .ok v ↔
      ∃ o initial terminal, outcomes.get? s.testId = some o ∧ o.initialNav = some initial ∧
        o.terminalNav = some terminal ∧ 0 < initial.toRat ∧
          v = (s.slot, terminal.toRat / initial.toRat - 1) := by
  simp only [sampleReturn, terminalReturn, number, bind_ok, need_ok, refuse_ok, pure_ok,
    Option.map_eq_some_iff, not_le]
  constructor
  · rintro ⟨o, ho, _, ⟨_, ⟨initial, hinitial, rfl⟩, _, ⟨terminal, hterminal, rfl⟩, -, hpos, rfl⟩,
      rfl⟩
    exact ⟨o, initial, terminal, ho, hinitial, hterminal, hpos, rfl⟩
  · rintro ⟨o, initial, terminal, ho, hinitial, hterminal, hpos, rfl⟩
    exact ⟨o, ho, _, ⟨_, ⟨initial, hinitial, rfl⟩, _, ⟨terminal, hterminal, rfl⟩, (), hpos, rfl⟩,
      rfl⟩

theorem invalidSamples_nil :
    invalidSamples plan outcomes = [] ↔
      ∀ s ∈ plan.tests, invalidReason (outcomes.get? s.testId) = none := by
  rw [invalidSamples, List.filterMap_eq_nil_iff]
  simp only [Option.map_eq_none_iff]

theorem invalidSamples_congr
    (h : ∀ s ∈ plan.tests,
      invalidReason (outcomes'.get? s.testId) = invalidReason (outcomes.get? s.testId)) :
    invalidSamples plan outcomes' = invalidSamples plan outcomes := by
  refine List.filterMap_congr fun s hs => ?_
  rw [h s hs]

theorem sampleReturns_congr
    (h : ∀ s ∈ plan.tests,
      invalidReason (outcomes'.get? s.testId) = invalidReason (outcomes.get? s.testId)) :
    sampleReturns plan outcomes' = gather (sampleReturn outcomes')
      (plan.tests.filter fun s => (invalidReason (outcomes.get? s.testId)).isNone) := by
  rw [sampleReturns]
  refine congrArg _ (List.filter_congr fun s hs => ?_)
  rw [h s hs]

/-! ## Raised and lowered values -/

/-- The same sample with a terminal value that is not less. -/
structure Outcome.Raised (o o' : Outcome) : Prop where
  status : o'.status = o.status
  valid : o'.valid = o.valid
  initial : o'.initialNav = o.initialNav
  terminal : ∃ x x', o.terminalNav = some x ∧ o'.terminalNav = some x' ∧ x.toRat ≤ x'.toRat

structure Raises (plan : TestPlan) (candidate : String) (outcomes outcomes' : Dict String Outcome) :
    Prop where
  keys : outcomes'.keys = outcomes.keys
  samples : ∀ s ∈ plan.tests, ∀ o, outcomes.get? s.testId = some o →
    ∃ o', outcomes'.get? s.testId = some o' ∧
      if s.proposalId = candidate then o.Raised o' else o'.Raised o

theorem invalidReason_congr {o o' : Outcome} (hstatus : o'.status = o.status)
    (hvalid : o'.valid = o.valid) : invalidReason (some o') = invalidReason (some o) := by
  simp only [invalidReason, hstatus, hvalid]

theorem Raises.reason {candidate : String} (h : Raises plan candidate outcomes outcomes')
    (hcount : invalidSamples plan outcomes = []) {s : PlannedTest} (hs : s ∈ plan.tests) :
    invalidReason (outcomes'.get? s.testId) = invalidReason (outcomes.get? s.testId) := by
  cases ho : outcomes.get? s.testId with
  | none =>
      have hnone := invalidSamples_nil.mp hcount s hs
      rw [ho] at hnone
      cases hnone
  | some o =>
      obtain ⟨o', ho', hraised⟩ := h.samples s hs o ho
      rw [ho']
      split at hraised
      · exact invalidReason_congr hraised.status hraised.valid
      · exact (invalidReason_congr hraised.status hraised.valid).symm

theorem Raises.sampleReturn {candidate : String} (h : Raises plan candidate outcomes outcomes')
    {s : PlannedTest} (hs : s ∈ plan.tests) (hv : sampleReturn outcomes s = .ok v) :
    ∃ v', sampleReturn outcomes' s = .ok v' ∧ v'.1 = v.1 ∧
      if v.1.1 = candidate then v.2 ≤ v'.2 else v'.2 ≤ v.2 := by
  obtain ⟨o, initial, terminal, ho, hinitial, hterminal, hpos, rfl⟩ := sampleReturn_iff.mp hv
  obtain ⟨o', ho', hraised⟩ := h.samples s hs o ho
  show ∃ v', _ ∧ _ ∧ if s.proposalId = candidate then _ else _
  split at hraised
  · next hname =>
      obtain ⟨x, terminal', hx, hterminal', hle⟩ := hraised.terminal
      cases hterminal.symm.trans hx
      refine ⟨(s.slot, terminal'.toRat / initial.toRat - 1), sampleReturn_iff.mpr
        ⟨o', initial, terminal', ho', hraised.initial.trans hinitial, hterminal', hpos, rfl⟩,
        rfl, ?_⟩
      rw [if_pos hname]
      exact sub_le_sub_right (div_le_div_of_nonneg_right hle hpos.le) 1
  · next hname =>
      obtain ⟨terminal', x, hterminal', hx, hle⟩ := hraised.terminal
      cases hterminal.symm.trans hx
      refine ⟨(s.slot, terminal'.toRat / initial.toRat - 1), sampleReturn_iff.mpr
        ⟨o', initial, terminal', ho', hraised.initial.symm.trans hinitial, hterminal', hpos, rfl⟩,
        rfl, ?_⟩
      rw [if_neg hname]
      exact sub_le_sub_right (div_le_div_of_nonneg_right hle hpos.le) 1

theorem compare_raised (h : compareReturns g sealed plan outcomes baseline candidate = .ok r)
    (heligible : r.decision = .eligible) (hraises : Raises plan candidate outcomes outcomes') :
    ∃ r', compareReturns g sealed plan outcomes' baseline candidate = .ok r' ∧
      r'.decision = .eligible := by
  obtain ⟨spec, values, only, hscored, honly⟩ := compareReturns_eligible h heligible
  have hreason : ∀ s ∈ plan.tests,
      invalidReason (outcomes'.get? s.testId) = invalidReason (outcomes.get? s.testId) :=
    fun s hs => hraises.reason hscored.count hs
  obtain ⟨values', hvalues', haligned⟩ := gather_aligned (sampleReturn outcomes')
    (Q := fun slot x x' => if slot.1 = candidate then x ≤ x' else x' ≤ x) hscored.returns
    fun s hs v hv => hraises.sampleReturn (List.mem_filter.mp hs).1 hv
  rw [← sampleReturns_congr hreason] at hvalues'
  obtain ⟨group, rest, hgroup, hrest, htaskGroups⟩ :=
    List.forall₂_cons_right_iff.mp (gather_ok.mp hscored.reduced)
  cases hrest
  obtain ⟨weights, hweights, ⟨hold, hnew⟩, rfl⟩ := reduceGroup_iff.mp hgroup
  have hfavours : Favours weights spec.evaluate.repeats baseline candidate (returnAt values)
      (returnAt values') := by
    intro index hindex w hw
    have hcandidate := returnAt_aligned haligned (hnew index hindex w hw)
    have hbaseline := returnAt_aligned haligned (hold index hindex w hw)
    rw [if_pos rfl] at hcandidate
    rw [if_neg hscored.pair.distinct] at hbaseline
    exact ⟨hcandidate, hbaseline⟩
  have hsummary := summaryOf_favours (groupWeights_pos hweights) hfavours honly
  have hread : Read g sealed plan outcomes' baseline candidate spec .selectionValidation values' :=
    ⟨hscored.pair, hraises.keys ▸ hscored.planned, hvalues'⟩
  refine ⟨_, compareReturns_iff.mpr ⟨spec, _, values', hread,
    .inr ⟨[groupOf sealed group weights
      (summaryOf spec.evaluate weights (returnAt values') baseline candidate)],
      ⟨hread, ?_, hscored.resolved, ?_⟩, rfl⟩⟩, hsummary⟩
  · rw [invalidSamples_congr hreason, hscored.count]
  · rw [htaskGroups, gather_ok]
    exact .cons (reduceGroup_iff.mpr ⟨weights, hweights,
      ⟨covers_aligned haligned hold, covers_aligned haligned hnew⟩, rfl⟩) .nil

/-! ## Scaled values -/

/-- The same sample with both its values multiplied. -/
structure Outcome.Scaled (o o' : Outcome) : Prop where
  status : o'.status = o.status
  valid : o'.valid = o.valid
  values : ∃ k : ℚ, 0 < k ∧
    o'.initialNav.map Decimal.toRat = (o.initialNav.map Decimal.toRat).map (k * ·) ∧
    o'.terminalNav.map Decimal.toRat = (o.terminalNav.map Decimal.toRat).map (k * ·)

/-- The same samples, each with both its values multiplied by a number of its own. -/
structure Scales (plan : TestPlan) (outcomes outcomes' : Dict String Outcome) : Prop where
  keys : outcomes'.keys = outcomes.keys
  samples : ∀ s ∈ plan.tests, ∀ o, outcomes.get? s.testId = some o →
    ∃ o', outcomes'.get? s.testId = some o' ∧ o.Scaled o'

theorem Scales.reason (h : Scales plan outcomes outcomes') {s : PlannedTest} (hs : s ∈ plan.tests) :
    invalidReason (outcomes'.get? s.testId) = invalidReason (outcomes.get? s.testId) := by
  cases ho : outcomes.get? s.testId with
  | none =>
      cases ho' : outcomes'.get? s.testId with
      | none => rfl
      | some o' =>
          have hmem : s.testId ∈ outcomes.keys := h.keys ▸ Dict.mem_keys.mpr ⟨o', ho'⟩
          obtain ⟨o, hsome⟩ := Dict.mem_keys.mp hmem
          cases ho.symm.trans hsome
  | some o =>
      obtain ⟨o', ho', hscaled⟩ := h.samples s hs o ho
      rw [ho']
      exact invalidReason_congr hscaled.status hscaled.valid

theorem Scales.sampleReturn (h : Scales plan outcomes outcomes') {s : PlannedTest}
    (hs : s ∈ plan.tests) (hv : sampleReturn outcomes s = .ok v) :
    sampleReturn outcomes' s = .ok v := by
  obtain ⟨o, initial, terminal, ho, hinitial, hterminal, hpos, rfl⟩ := sampleReturn_iff.mp hv
  obtain ⟨o', ho', hscaled⟩ := h.samples s hs o ho
  obtain ⟨k, hk, hinitial', hterminal'⟩ := hscaled.values
  rw [hinitial, Option.map_some, Option.map_some, Option.map_eq_some_iff] at hinitial'
  rw [hterminal, Option.map_some, Option.map_some, Option.map_eq_some_iff] at hterminal'
  obtain ⟨initial', hinitial', hi⟩ := hinitial'
  obtain ⟨terminal', hterminal', ht⟩ := hterminal'
  refine sampleReturn_iff.mpr ⟨o', initial', terminal', ho', hinitial', hterminal', ?_, ?_⟩
  · rw [hi]
    exact mul_pos hk hpos
  · rw [hi, ht, mul_div_mul_left _ _ hk.ne']

theorem compare_scaled (h : compareReturns g sealed plan outcomes baseline candidate = .ok r)
    (hscales : Scales plan outcomes outcomes') :
    compareReturns g sealed plan outcomes' baseline candidate = .ok r := by
  have hreason : ∀ s ∈ plan.tests,
      invalidReason (outcomes'.get? s.testId) = invalidReason (outcomes.get? s.testId) :=
    fun s hs => hscales.reason hs
  have hinvalid := invalidSamples_congr hreason
  obtain ⟨spec, role, values, hread, h⟩ := compareReturns_iff.mp h
  have hvalues : sampleReturns plan outcomes' = .ok values := by
    rw [sampleReturns_congr hreason, gather_ok]
    have hall := gather_ok.mp hread.returns
    rw [List.forall₂_iff_get] at hall ⊢
    refine ⟨hall.1, fun i hi hi' => ?_⟩
    exact hscales.sampleReturn (List.mem_filter.mp (List.get_mem _ _)).1 (hall.2 i hi hi')
  have hread' : Read g sealed plan outcomes' baseline candidate spec role values :=
    ⟨hread.pair, hscales.keys ▸ hread.planned, hvalues⟩
  have hsame : ∀ groups conclusion, reductionOf plan outcomes' spec role groups conclusion =
      reductionOf plan outcomes spec role groups conclusion := by
    intro groups conclusion
    rw [reductionOf, reductionOf, hinvalid]
  refine compareReturns_iff.mpr ⟨spec, role, values, hread', ?_⟩
  rcases h with ⟨hne, rfl⟩ | ⟨groups, hscored, rfl⟩
  · exact .inl ⟨hinvalid ▸ hne, (hsame _ _).symm⟩
  · exact .inr ⟨groups, ⟨hread', hinvalid.trans hscored.count, hscored.resolved, hscored.reduced⟩,
      (hsame _ _).symm⟩

/-! ## Exchanged roles -/

theorem compare_swapped {r' : Reduction}
    (h : compareReturns g sealed plan outcomes baseline candidate = .ok r)
    (h' : compareReturns g sealed plan outcomes candidate baseline = .ok r') :
    ¬(r.decision = .eligible ∧ r'.decision = .eligible) := by
  rintro ⟨heligible, heligible'⟩
  obtain ⟨spec, values, only, hscored, honly⟩ := compareReturns_eligible h heligible
  obtain ⟨spec', values', only', hscored', honly'⟩ := compareReturns_eligible h' heligible'
  obtain rfl : spec = spec' := hscored.pair.effective.trans hscored'.pair.effective.symm
  cases hscored.returns.symm.trans hscored'.returns
  obtain ⟨group, rest, hgroup, hrest, htaskGroups⟩ :=
    List.forall₂_cons_right_iff.mp (gather_ok.mp hscored.reduced)
  obtain ⟨group', rest', hgroup', hrest', htaskGroups'⟩ :=
    List.forall₂_cons_right_iff.mp (gather_ok.mp hscored'.reduced)
  cases htaskGroups.symm.trans htaskGroups'
  obtain ⟨weights, hweights, -, rfl⟩ := reduceGroup_iff.mp hgroup
  obtain ⟨weights', hweights', -, rfl⟩ := reduceGroup_iff.mp hgroup'
  cases hweights.symm.trans hweights'
  exact summaryOf_swap rfl honly honly'

/-! ## Samples that do not count -/

/-- Every sample that counts has its values. -/
def Quoted (plan : TestPlan) (outcomes : Dict String Outcome) : Prop :=
  ∀ s ∈ plan.tests, ∀ o, outcomes.get? s.testId = some o → invalidReason (some o) = none →
    ∃ initial terminal, o.initialNav = some initial ∧ o.terminalNav = some terminal ∧
      0 < initial.toRat

theorem compare_invalid (hpair : Checked g sealed plan baseline candidate spec role)
    (hplanned : outcomes.keys ⊆ plan.tests.map PlannedTest.testId)
    (hreadable : Quoted plan outcomes)
    (hinvalid : ∃ s ∈ plan.tests, invalidReason (outcomes.get? s.testId) ≠ none) :
    ∃ r, compareReturns g sealed plan outcomes baseline candidate = .ok r ∧
      r.decision = .inconclusive ∧ r.groups = [] ∧ r.summary = none := by
  have hread : ∀ s ∈ plan.tests.filter fun s => (invalidReason (outcomes.get? s.testId)).isNone,
      ∃ v, sampleReturn outcomes s = .ok v ∧ True := by
    intro s hs
    obtain ⟨hs, hcounts⟩ := List.mem_filter.mp hs
    rw [Option.isNone_iff_eq_none] at hcounts
    cases ho : outcomes.get? s.testId with
    | none =>
        rw [ho] at hcounts
        cases hcounts
    | some o =>
        rw [ho] at hcounts
        obtain ⟨initial, terminal, hinitial, hterminal, hpos⟩ := hreadable s hs o ho hcounts
        exact ⟨_, sampleReturn_iff.mpr
          ⟨o, initial, terminal, ho, hinitial, hterminal, hpos, rfl⟩, trivial⟩
  obtain ⟨values, hvalues, -⟩ := gather_all hread
  have hne : invalidSamples plan outcomes ≠ [] := by
    obtain ⟨s, hs, hreason⟩ := hinvalid
    exact fun hnil => hreason (invalidSamples_nil.mp hnil s hs)
  exact ⟨_, compareReturns_iff.mpr ⟨spec, role, values, ⟨hpair, hplanned, hvalues⟩,
    .inl ⟨hne, rfl⟩⟩, rfl, rfl, rfl⟩

/-! ## Blocks in another order -/

variable {bs : List (List PlannedTest)}

def Rearranged (tests tests' : List PlannedTest) : Prop :=
  ∃ bs bs' m : List (List PlannedTest), (∀ b ∈ bs, b.length = 2) ∧ tests = bs.flatten ∧
    tests' = bs'.flatten ∧ bs.Perm m ∧ List.Forall₂ List.Perm m bs'

variable {bs' : List (List PlannedTest)}

theorem flatten_perm (h : List.Forall₂ List.Perm bs bs') : bs.flatten.Perm bs'.flatten := by
  induction h with
  | nil => exact .refl _
  | cons hone _ ih =>
      rw [List.flatten_cons, List.flatten_cons]
      exact hone.append ih

theorem Rearranged.perm {tests tests' : List PlannedTest} (h : Rearranged tests tests') :
    tests.Perm tests' := by
  obtain ⟨bs, bs', m, -, rfl, rfl, hperm, hblocks⟩ := h
  exact hperm.flatten.trans (flatten_perm hblocks)

theorem blocks_flatten (h : ∀ b ∈ bs, b.length = 2) :
    ∀ fuel, bs.length ≤ fuel → blocks 2 fuel bs.flatten = bs := by
  induction bs with
  | nil =>
      intro fuel _
      cases fuel <;> rfl
  | cons b bs ih =>
      intro fuel hfuel
      obtain ⟨x, y, rfl⟩ := List.length_eq_two.mp (h b List.mem_cons_self)
      cases fuel with
      | zero => cases hfuel
      | succ fuel =>
          have hrest := ih (fun b hb => h b (List.mem_cons_of_mem _ hb)) fuel
            (Nat.le_of_succ_le_succ hfuel)
          show [x, y] :: blocks 2 fuel bs.flatten = _
          rw [hrest]

theorem length_le_flatten (h : ∀ b ∈ bs, b.length = 2) : bs.length ≤ bs.flatten.length := by
  induction bs with
  | nil => exact Nat.le_refl _
  | cons b bs ih =>
      have hlength := ih fun b hb => h b (List.mem_cons_of_mem _ hb)
      have htwo := h b List.mem_cons_self
      rw [List.flatten_cons, List.length_append, List.length_cons]
      omega

theorem exists_block (h : List.Forall₂ List.Perm bs bs')
    {b' : List PlannedTest} (hb : b' ∈ bs') : ∃ b ∈ bs, b.Perm b' := by
  induction h with
  | nil => cases hb
  | cons hone _ ih =>
      rcases List.mem_cons.mp hb with rfl | hb
      · exact ⟨_, List.mem_cons_self, hone⟩
      · obtain ⟨b, hmem, hperm⟩ := ih hb
        exact ⟨b, List.mem_cons_of_mem _ hmem, hperm⟩

theorem sameElements_perm {α : Type} {l l' m : List α} (hperm : l.Perm l')
    (h : SameElements l m) : SameElements l' m :=
  ⟨List.Subset.trans hperm.symm.subset h.1, List.Subset.trans h.2 hperm.subset⟩

theorem interleaved_perm {proposals : List String} {b b' : List PlannedTest} (hperm : b.Perm b')
    (h : Interleaved proposals b) : Interleaved proposals b' := by
  refine ⟨?_, sameElements_perm (hperm.map _) h.2⟩
  rw [← h.1]
  exact (hperm.map _).dedup.length_eq.symm

theorem sortedSet_perm {l l' : List String} (h : l.Perm l') : sortedSet l = sortedSet l' := by
  have hperm : (sortedSet l).Perm (sortedSet l') :=
    (List.perm_insertionSort _ _).trans (h.dedup.trans (List.perm_insertionSort _ _).symm)
  exact hperm.eq_of_pairwise (fun a b _ _ hab hba => le_antisymm hab hba)
    (List.pairwise_insertionSort _ _) (List.pairwise_insertionSort _ _)

theorem Checked.rearranged {tests' : List PlannedTest}
    (h : Checked g sealed plan baseline candidate spec role)
    (htests : Rearranged plan.tests tests') :
    Checked g sealed { plan with tests := tests' } baseline candidate spec role := by
  have hperm := htests.perm
  have htasks : TestPlan.taskIds { plan with tests := tests' } = plan.taskIds :=
    (sortedSet_perm (hperm.map _)).symm
  have hproposals : TestPlan.proposals { plan with tests := tests' } = plan.proposals :=
    (sortedSet_perm (hperm.map _)).symm
  have hmem : ∀ s, s ∈ tests' ↔ s ∈ plan.tests := fun s => hperm.mem_iff.symm
  refine ⟨h.hash, h.effective, h.policy, ?_, h.bound, h.distinct, ?_, ?_, ?_, ?_, ?_, ?_, ?_⟩
  · exact {
      tests_ne := fun hnil => h.valid.tests_ne (List.perm_nil.mp (hnil ▸ hperm))
      ids_unique := (hperm.map _).nodup_iff.mp h.valid.ids_unique
      slots_unique := (hperm.map _).nodup_iff.mp h.valid.slots_unique
      repeats := fun s hs t ht => h.valid.repeats s ((hmem s).mp hs) t ((hmem t).mp ht)
      seeds := fun s hs t ht => h.valid.seeds s ((hmem s).mp hs) t ((hmem t).mp ht)
      supported := fun s hs => h.valid.supported s ((hmem s).mp hs) }
  · rw [hproposals]
    exact h.proposals
  · rw [htasks]
    exact h.known
  · rw [htasks]
    exact h.one
  · rw [htasks]
    exact h.chosen
  · rw [htasks]
    exact h.selected
  · rw [htasks]
    exact sameElements_perm (hperm.map _) h.complete
  · obtain ⟨bs, bs', m, hlength, htests, rfl, hbs, hblocks⟩ := htests
    have hpaired := h.paired
    have hlength' : ∀ b ∈ bs', b.length = 2 := by
      intro b hb
      obtain ⟨c, hc, hcb⟩ := exists_block hblocks hb
      rw [← hcb.length_eq]
      exact hlength c (hbs.mem_iff.mpr hc)
    rw [htests, blocks_flatten hlength _ (length_le_flatten hlength)] at hpaired
    dsimp only
    rw [blocks_flatten hlength' _ (length_le_flatten hlength')]
    rintro ⟨b, hb, hnot⟩
    obtain ⟨c, hc, hcb⟩ := exists_block hblocks hb
    refine hpaired ⟨c, hbs.mem_iff.mpr hc, fun hinterleaved => hnot ?_⟩
    exact interleaved_perm hcb hinterleaved

theorem lookup_iff (h : (values.map Prod.fst).Nodup) {slot : Slot}
    {x : ℚ} : values.lookup slot = some x ↔ (slot, x) ∈ values := by
  induction values with
  | nil => exact iff_of_false (by simp) List.not_mem_nil
  | cons v values ih =>
      obtain ⟨key, y⟩ := v
      rw [List.map_cons, List.nodup_cons] at h
      rw [List.lookup_cons, List.mem_cons, Prod.mk.injEq]
      by_cases hkey : slot = key
      · subst hkey
        rw [beq_self_eq_true]
        constructor
        · intro heq
          exact .inl ⟨rfl, (Option.some.inj heq).symm⟩
        · rintro (⟨-, rfl⟩ | hmem)
          · rfl
          · exact absurd (List.mem_map_of_mem hmem) h.1
      · rw [beq_eq_false_iff_ne.mpr hkey]
        exact (ih h.2).trans (or_iff_right fun heq => hkey heq.1).symm

theorem lookup_perm (h : (values.map Prod.fst).Nodup)
    (hperm : values.Perm values') (slot : Slot) : values'.lookup slot = values.lookup slot := by
  refine Option.ext fun x => ?_
  rw [lookup_iff h, lookup_iff ((hperm.map _).nodup_iff.mp h), hperm.mem_iff]

theorem reduceGroup_lookup (h : ∀ slot, values'.lookup slot = values.lookup slot) :
    reduceGroup spec sealed values' baseline candidate =
      reduceGroup spec sealed values baseline candidate := by
  have hreturn : ∀ weights, repeatReturn weights values' = repeatReturn weights values := by
    intro weights
    funext name index
    simp only [repeatReturn, h]
  funext group
  simp only [reduceGroup, summarize, hreturn]

theorem slots_of_returns {tests : List PlannedTest}
    (h : gather (sampleReturn outcomes) tests = .ok values) :
    values.map Prod.fst = tests.map PlannedTest.slot :=
  gather_map h fun s _ v hv => by
    obtain ⟨_, _, _, -, -, -, -, rfl⟩ := sampleReturn_iff.mp hv
    rfl

/-- The order of the blocks, and that in a block, does not matter. -/
theorem compare_rearranged (h : compareReturns g sealed plan outcomes baseline candidate = .ok r)
    {tests' : List PlannedTest} (htests : Rearranged plan.tests tests') :
    ∃ r', compareReturns g sealed { plan with tests := tests' } outcomes baseline candidate
        = .ok r' ∧
      r'.decision = r.decision ∧ r'.groups = r.groups ∧ r'.summary = r.summary := by
  have hperm := htests.perm
  obtain ⟨spec, role, values, hread, h⟩ := compareReturns_iff.mp h
  obtain ⟨values', hvalues', hsame⟩ := List.perm_comp_forall₂ (hperm.filter _).symm
    (gather_ok.mp hread.returns)
  have hread' : Read g sealed { plan with tests := tests' } outcomes baseline candidate spec role
      values' :=
    ⟨hread.pair.rearranged htests, List.Subset.trans hread.planned (hperm.map _).subset,
      gather_ok.mpr hvalues'⟩
  have hinvalid : invalidSamples { plan with tests := tests' } outcomes = [] ↔
      invalidSamples plan outcomes = [] := by
    rw [invalidSamples_nil, invalidSamples_nil]
    exact forall_congr' fun s => imp_congr_left hperm.mem_iff.symm
  rcases h with ⟨hne, rfl⟩ | ⟨groups, hscored, rfl⟩
  · exact ⟨_, compareReturns_iff.mpr ⟨spec, role, values', hread', .inl ⟨mt hinvalid.mp hne, rfl⟩⟩,
      rfl, rfl, rfl⟩
  · have htasks : TestPlan.taskIds { plan with tests := tests' } = plan.taskIds :=
      (sortedSet_perm (hperm.map _)).symm
    have hgroups : taskGroups spec sealed { plan with tests := tests' } =
        taskGroups spec sealed plan := by
      simp only [taskGroups, htasks]
    have hnodup : (values.map Prod.fst).Nodup := by
      rw [slots_of_returns hread.returns]
      exact hread.pair.valid.slots_unique.sublist (List.filter_sublist.map _)
    refine ⟨_, compareReturns_iff.mpr ⟨spec, role, values', hread', .inr ⟨groups,
      ⟨hread', hinvalid.mpr hscored.count, ?_, ?_⟩, rfl⟩⟩, rfl, rfl, rfl⟩
    · rw [htasks]
      exact hscored.resolved
    · rw [hgroups, reduceGroup_lookup (lookup_perm hnodup hsame.symm)]
      exact hscored.reduced

/-! ## Weights with a common factor, in a specification -/

variable {spec' : ExperimentDraft}

structure ExperimentDraft.Reweighed (k : ℚ) (spec spec' : ExperimentDraft) : Prop where
  evaluate : spec'.evaluate = spec.evaluate
  tasks : List.Forall₂ (fun t t' => t'.taskId = t.taskId ∧ t'.role = t.role ∧
    t'.weight.toRat = k * t.weight.toRat) spec.tasks spec'.tasks

theorem taskMap_reweighed (h : spec.Reweighed k spec') (id : String) :
    (taskMap spec).get? id = none ∧ (taskMap spec').get? id = none ∨
      ∃ t t', (taskMap spec).get? id = some t ∧ (taskMap spec').get? id = some t' ∧
        t'.role = t.role ∧ t'.weight.toRat = k * t.weight.toRat := by
  have hall : ∀ d d' : Dict String Task,
      (d.get? id = none ∧ d'.get? id = none ∨ ∃ t t', d.get? id = some t ∧ d'.get? id = some t' ∧
        t'.role = t.role ∧ t'.weight.toRat = k * t.weight.toRat) →
      ((d.setAll (spec.tasks.map fun t => (t.taskId, t))).get? id = none ∧
          (d'.setAll (spec'.tasks.map fun t => (t.taskId, t))).get? id = none ∨
        ∃ t t', (d.setAll (spec.tasks.map fun t => (t.taskId, t))).get? id = some t ∧
          (d'.setAll (spec'.tasks.map fun t => (t.taskId, t))).get? id = some t' ∧
          t'.role = t.role ∧ t'.weight.toRat = k * t.weight.toRat) := by
    have htasks := h.tasks
    generalize spec.tasks = l at htasks
    generalize spec'.tasks = l' at htasks
    induction htasks with
    | nil => exact fun _ _ hd => hd
    | @cons t t' tasks tasks' hone _ ih =>
        intro d d' hd
        refine ih (d.set t.taskId t) (d'.set t'.taskId t') ?_
        rw [hone.1, Dict.get?_set, Dict.get?_set]
        split
        · exact .inr ⟨t, t', rfl, rfl, hone.2⟩
        · exact hd
  exact hall Dict.empty Dict.empty (.inl ⟨rfl, rfl⟩)

theorem role_reweighed (h : spec.Reweighed k spec') (id : String) :
    ((taskMap spec').get? id).map Task.role = ((taskMap spec).get? id).map Task.role := by
  rcases taskMap_reweighed h id with ⟨hnone, hnone'⟩ | ⟨t, t', ht, ht', hrole, -⟩
  · rw [hnone, hnone']
  · rw [ht, ht', Option.map_some, Option.map_some, hrole]

theorem known_reweighed (h : spec.Reweighed k spec') (id : String) :
    (taskMap spec').contains id = (taskMap spec).contains id := by
  rw [Dict.contains, Dict.contains]
  rcases taskMap_reweighed h id with ⟨hnone, hnone'⟩ | ⟨t, t', ht, ht', -⟩
  · rw [hnone, hnone']
  · rw [ht, ht']
    rfl

theorem selected_reweighed (h : spec.Reweighed k spec') (role : Role) :
    (spec'.tasks.filter fun t => t.role = role).map Task.taskId =
      (spec.tasks.filter fun t => t.role = role).map Task.taskId := by
  have htasks := h.tasks
  generalize spec.tasks = l at htasks
  generalize spec'.tasks = l' at htasks
  induction htasks with
  | nil => rfl
  | @cons t t' tasks tasks' hone _ ih =>
      rw [List.filter_cons, List.filter_cons, hone.2.1]
      split
      · rw [List.map_cons, List.map_cons, ih, hone.1]
      · exact ih

variable {sealed' : ResolvedSpecification}

theorem Checked.reweighed (h : Checked g sealed plan baseline candidate spec role)
    (hspec : sealed.effective.Reweighed k sealed'.effective)
    (hhash : g.specification sealed'.effective sealed'.tasks = sealed'.specificationHash) :
    Checked g sealed' { plan with specificationHash := sealed'.specificationHash } baseline
      candidate sealed'.effective role := by
  obtain rfl := h.effective
  refine ⟨hhash, rfl, hspec.evaluate ▸ h.policy, ?_, rfl, h.distinct, h.proposals, ?_, ?_, ?_, ?_,
    ?_, h.paired⟩
  · exact {
      tests_ne := h.valid.tests_ne
      ids_unique := h.valid.ids_unique
      slots_unique := h.valid.slots_unique
      repeats := h.valid.repeats
      seeds := h.valid.seeds
      supported := h.valid.supported }
  · simp only [known_reweighed hspec]
    exact h.known
  · simp only [role_reweighed hspec]
    exact h.one
  · simp only [role_reweighed hspec]
    exact h.chosen
  · rw [selected_reweighed hspec]
    exact h.selected
  · rw [hspec.evaluate]
    exact h.complete

theorem groupWeights_reweighed (h : spec.Reweighed k spec')
    (hweights : groupWeights spec group = .ok weights) :
    ∃ weights', groupWeights spec' group = .ok weights' ∧ Trials.Reweighed k weights weights' := by
  simp only [groupWeights, gather_ok] at hweights ⊢
  induction hweights with
  | nil => exact ⟨[], .nil, .nil⟩
  | @cons id w group weights hone _ ih =>
      obtain ⟨weights', hweights', hrest⟩ := ih
      simp only [bind_ok, need_ok, pure_ok] at hone
      obtain ⟨t, ht, rfl⟩ := hone
      rcases taskMap_reweighed h id with ⟨hnone, -⟩ | ⟨_, t', hsome, ht', -, hweight⟩
      · cases ht.symm.trans hnone
      · cases ht.symm.trans hsome
        refine ⟨(id, t'.weight) :: weights', .cons ?_ hweights', .cons ⟨rfl, hweight⟩ hrest⟩
        exact bind_ok.mpr ⟨t', need_ok.mpr ht', rfl⟩

theorem reduce_reweighed (hk : 0 < k) (h : spec.Reweighed k spec') {lists : List (List String)}
    {groups : List Group}
    (hgroups : gather (reduceGroup spec sealed values baseline candidate) lists = .ok groups) :
    ∃ groups', gather (reduceGroup spec' sealed' values baseline candidate) lists = .ok groups' ∧
      groups'.map Group.summary = groups.map Group.summary := by
  simp only [gather_ok] at hgroups ⊢
  induction hgroups with
  | nil => exact ⟨[], .nil, rfl⟩
  | @cons group reduced lists groups hone _ ih =>
      obtain ⟨groups', hgroups', hsummaries⟩ := ih
      obtain ⟨weights, hweights, ⟨hold, hnew⟩, rfl⟩ := reduceGroup_iff.mp hone
      obtain ⟨weights', hweights', hre⟩ := groupWeights_reweighed h hweights
      refine ⟨groupOf sealed' group weights'
        (summaryOf spec'.evaluate weights' (returnAt values) baseline candidate) :: groups',
        .cons (reduceGroup_iff.mpr ⟨weights', hweights', ?_, rfl⟩) hgroups', ?_⟩
      · rw [h.evaluate]
        exact ⟨(covers_reweighed hre).mpr hold, (covers_reweighed hre).mpr hnew⟩
      · rw [List.map_cons, List.map_cons, hsummaries, h.evaluate, summaryOf_reweighed hk hre]
        rfl

/-- A common factor of the weights does not matter. -/
theorem compare_reweighed (h : compareReturns g sealed plan outcomes baseline candidate = .ok r)
    (hk : 0 < k) (htasks : sealed'.tasks = sealed.tasks)
    (hspec : sealed.effective.Reweighed k sealed'.effective)
    (hhash : g.specification sealed'.effective sealed'.tasks = sealed'.specificationHash) :
    ∃ r', compareReturns g sealed' { plan with specificationHash := sealed'.specificationHash }
        outcomes baseline candidate = .ok r' ∧
      r'.decision = r.decision ∧ r'.summary = r.summary ∧
        r'.groups.map Group.summary = r.groups.map Group.summary := by
  obtain ⟨spec, role, values, hread, h⟩ := compareReturns_iff.mp h
  have hread' : Read g sealed' { plan with specificationHash := sealed'.specificationHash }
      outcomes baseline candidate sealed'.effective role values :=
    ⟨hread.pair.reweighed hspec hhash, hread.planned, hread.returns⟩
  obtain rfl := hread.pair.effective
  have hdurations : durations sealed' = durations sealed := by
    rw [durations, durations, taskDates, taskDates, htasks]
  rcases h with ⟨hne, rfl⟩ | ⟨groups, hscored, rfl⟩
  · exact ⟨_, compareReturns_iff.mpr ⟨_, role, values, hread', .inl ⟨hne, rfl⟩⟩, rfl, rfl, rfl⟩
  · have hgroups : taskGroups sealed'.effective sealed'
        { plan with specificationHash := sealed'.specificationHash } =
          taskGroups sealed.effective sealed plan := by
      simp only [taskGroups, hspec.evaluate, hdurations]
      rfl
    have hreduced : ∃ groups', gather (reduceGroup sealed'.effective sealed' values baseline
        candidate) (taskGroups sealed.effective sealed plan) = .ok groups' ∧
          groups'.map Group.summary = groups.map Group.summary :=
      reduce_reweighed hk hspec hscored.reduced
    obtain ⟨groups', hgroups', hsummaries⟩ := hreduced
    have hconclude := conclude_congr role hsummaries
    refine ⟨_, compareReturns_iff.mpr ⟨_, role, values, hread', .inr ⟨groups',
      ⟨hread', hscored.count, ?_, ?_⟩, rfl⟩⟩, ?_, ?_, hsummaries⟩
    · rw [hdurations]
      exact hscored.resolved
    · rw [hgroups]
      exact hgroups'
    · exact congrArg Prod.fst hconclude
    · exact congrArg (fun c => c.2.2) hconclude

/-! ## Fairness -/

/-- A comparison that returns a result is fair to its two candidates. An eligible result stays
eligible when values of the candidate are raised and values of the baseline lowered; the
decision and the scores do not depend on the order of the blocks and in them, on a common
factor of the weights, or on the scale of a sample; of two candidates at most one is eligible
over the other; and with a sample that is invalid or missing there is no score. -/
theorem compareReturns_fair {outcomes : Dict String Outcome} {r : Reduction}
    (h : compareReturns g sealed plan outcomes baseline candidate = .ok r) :
    (r.decision = .eligible → ∀ outcomes', Raises plan candidate outcomes outcomes' →
      ∃ r', compareReturns g sealed plan outcomes' baseline candidate = .ok r' ∧
        r'.decision = .eligible) ∧
    (∀ tests', Rearranged plan.tests tests' →
      ∃ r', compareReturns g sealed { plan with tests := tests' } outcomes baseline candidate
          = .ok r' ∧
        r'.decision = r.decision ∧ r'.groups = r.groups ∧ r'.summary = r.summary) ∧
    (∀ (sealed' : ResolvedSpecification) (k : ℚ), 0 < k → sealed'.tasks = sealed.tasks →
      sealed.effective.Reweighed k sealed'.effective →
      g.specification sealed'.effective sealed'.tasks = sealed'.specificationHash →
      ∃ r', compareReturns g sealed' { plan with specificationHash := sealed'.specificationHash }
          outcomes baseline candidate = .ok r' ∧
        r'.decision = r.decision ∧ r'.summary = r.summary ∧
          r'.groups.map Group.summary = r.groups.map Group.summary) ∧
    (∀ outcomes', Scales plan outcomes outcomes' →
      compareReturns g sealed plan outcomes' baseline candidate = .ok r) ∧
    (∀ r', compareReturns g sealed plan outcomes candidate baseline = .ok r' →
      ¬(r.decision = .eligible ∧ r'.decision = .eligible)) ∧
    ∀ outcomes' : Dict String Outcome, outcomes'.keys ⊆ plan.tests.map PlannedTest.testId →
      Quoted plan outcomes' →
      (∃ s ∈ plan.tests, invalidReason (outcomes'.get? s.testId) ≠ none) →
      ∃ r', compareReturns g sealed plan outcomes' baseline candidate = .ok r' ∧
        r'.decision = .inconclusive ∧ r'.groups = [] ∧ r'.summary = none := by
  refine ⟨fun heligible _ hraises => compare_raised h heligible hraises,
    fun _ htests => compare_rearranged h htests,
    fun _ _ hk htasks hspec hhash => compare_reweighed h hk htasks hspec hhash,
    fun _ hscales => compare_scaled h hscales, fun _ h' => compare_swapped h h',
    fun _ hplanned hreadable hinvalid => ?_⟩
  obtain ⟨spec, role, values, hread, -⟩ := compareReturns_iff.mp h
  exact compare_invalid hread.pair hplanned hreadable hinvalid

def fairHashes : Hashes Unit :=
  ⟨fun _ => "", fun _ _ _ => "", fun _ _ => "spec", fun _ => "", fun _ => "", fun _ => "",
    fun _ _ => "", fun _ => ""⟩

def fairSpecification : ResolvedSpecification where
  specificationHash := "spec"
  effective := {
    tasks := [⟨"t", .selectionValidation, ⟨false, 1, 0⟩, fullWeight_pos⟩]
    calibrationRepeats := 0
    evaluate := sampleSettings false
    tasks_ne := by decide
    tasks_unique := by decide }
  tasks := [⟨"t", [1], oneDay_ne⟩]
  tasks_resolved := rfl

def fairPlan : TestPlan where
  planId := "plan"
  specificationHash := "spec"
  tests := [⟨"old", "b", "t", "r0", 0, none⟩, ⟨"new", "c", "t", "r0", 0, none⟩]
  seedSupport := .unsupported

def fairOutcome (terminal : ℕ) : Outcome :=
  ⟨.completed, true, some ⟨false, 100, 0⟩, some ⟨false, terminal, 0⟩⟩

def fairOutcomes (terminal : ℕ) : Dict String Outcome :=
  Dict.ofList [("old", fairOutcome 100), ("new", fairOutcome terminal)]

theorem compareReturns_fair_sample :
    ∃ r, compareReturns fairHashes fairSpecification fairPlan (fairOutcomes 110) "b" "c" = .ok r ∧
      ∃ r', compareReturns fairHashes fairSpecification fairPlan (fairOutcomes 120) "b" "c" =
        .ok r' ∧ r'.decision = .eligible := by
  have heligible : (compareReturns fairHashes fairSpecification fairPlan (fairOutcomes 110) "b"
      "c").toOption.any (fun r => r.decision = .eligible) = true := by
    decide +kernel
  obtain ⟨r, hr, hdecision⟩ := (Option.any_eq_true _ _).mp heligible
  have h := mem_toOption.mp hr
  refine ⟨r, h, (compareReturns_fair h).1 (of_decide_eq_true hdecision) _ ⟨by decide +kernel, ?_⟩⟩
  intro s hs o ho
  rcases List.mem_pair.mp hs with rfl | rfl
  · obtain rfl : fairOutcome 100 = o := Option.some.inj (Eq.trans (by decide +kernel) ho)
    exact ⟨fairOutcome 100, by decide +kernel, rfl, rfl, rfl, _, _, rfl, rfl, le_refl _⟩
  · obtain rfl : fairOutcome 110 = o := Option.some.inj (Eq.trans (by decide +kernel) ho)
    exact ⟨fairOutcome 120, by decide +kernel, rfl, rfl, rfl, _, _, rfl, rfl, by decide +kernel⟩

end Ahunter.Trials
