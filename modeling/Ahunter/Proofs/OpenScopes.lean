import Ahunter.Proofs.TrialLaws

/-!
# What comparisons show

The scopes of a comparison are those of its plan and of its tests, which are
for tuning or for selection. That they are found at all is an induction over
the log: what a record inherits from stands before it, so the walk comes to
no record twice and ends before its bound.
-/

namespace Ahunter.Trials

open Ahunter.Lib Ahunter.Records

variable {X P V : Type} {g : Hashes X} {db t : TrialDb X P V}

/-! ## Open scopes -/

def Purpose.Open (p : Purpose) : Prop := p ∈ [Purpose.tuning, .selectionValidation]

def OpenScopes (found : List Scope) : Prop :=
  found ≠ [] ∧ ∀ s ∈ found, s.role ∈ [some Role.tuning, some .selectionValidation]

theorem OpenScopes.merge {found : List Scope} (h : OpenScopes found) :
    OpenScopes (mergeScopes g found) := by
  rw [mergeScopes, if_neg h.1]
  have hvalues : ∀ s ∈ (Dict.ofList (found.map fun s => (g.scope s, s))).values, s ∈ found := by
    intro s hs
    obtain ⟨k, hk⟩ := Dict.mem_values.mp hs
    obtain ⟨r, hr, heq⟩ := List.mem_map.mp (Dict.get?_ofList hk)
    cases heq
    exact hr
  refine ⟨fun hnil => ?_, fun s hs => h.2 s (hvalues s hs)⟩
  obtain ⟨s, rest, rfl⟩ := List.exists_cons_of_ne_nil h.1
  obtain ⟨v, hv⟩ : ∃ v, (Dict.ofList ((s :: rest).map fun s => (g.scope s, s))).get? (g.scope s)
      = some v := Dict.mem_keys_ofList.mpr (by simp)
  have := Dict.mem_values.mpr ⟨_, hv⟩
  rw [hnil] at this
  cases this

theorem OpenScopes.flatten {all : List (List Scope)} (hne : all ≠ [])
    (h : ∀ found ∈ all, OpenScopes found) : OpenScopes all.flatten := by
  constructor
  · intro hnil
    obtain ⟨first, rest, rfl⟩ := List.exists_cons_of_ne_nil hne
    exact (h first List.mem_cons_self).1 (List.append_eq_nil_iff.mp hnil).1
  · intro s hs
    obtain ⟨found, hfound, hmem⟩ := List.mem_flatten.mp hs
    exact (h found hfound).2 s hmem

/-! ## Bound scopes -/

variable {r : TrialRecord X} {sealed : ResolvedSpecification}

theorem taskDates_some {task : Task}
    (h : task ∈ sealed.effective.tasks) : ∃ dates, (taskDates sealed).get? task.taskId = some dates := by
  have hid : task.taskId ∈ sealed.tasks.map ResolvedTask.taskId := by
    rw [sealed.tasks_resolved]
    exact List.mem_map_of_mem h
  obtain ⟨resolved, hresolved, heq⟩ := List.mem_map.mp hid
  rw [taskDates, Dict.mem_keys_ofList, ← heq]
  exact List.mem_map_of_mem (List.mem_map_of_mem hresolved)

theorem taskMap_mem {spec : ExperimentDraft} {id : String} {task : Task}
    (h : (taskMap spec).get? id = some task) : task ∈ spec.tasks ∧ task.taskId = id := by
  obtain ⟨a, ha, heq⟩ := List.mem_map.mp (Dict.get?_ofList h)
  cases heq
  exact ⟨ha, rfl⟩

theorem taskScopes_open {spec : ExperimentDraft}
    {plan : TestPlan} {purpose : Purpose} (h : checkPlan g sealed plan purpose = .ok spec)
    (hpurpose : purpose.Open) {selected : List String} (hne : selected ≠ [])
    (hselected : selected ⊆ plan.tests.map PlannedTest.taskId) :
    ∃ found, taskScopes g sealed (fun _ => selected) = .ok found ∧ OpenScopes found := by
  simp only [checkPlan, bind_ok, refuse_ok, not_exists, not_and, not_not, pure_ok] at h
  obtain ⟨spec, hverify, -, hvalid, -, -, -, hroles, -⟩ := h
  obtain rfl := verifySpecification_ok hverify
  have htask : ∀ id ∈ selected, ∃ task ∈ sealed.effective.tasks, task.taskId = id ∧
      task.role = purpose.role := by
    intro id hid
    have hrole := hroles id (mem_sortedSet.mpr (hselected hid))
    obtain ⟨task, htask, hrole⟩ := Option.map_eq_some_iff.mp hrole
    obtain ⟨hmem, hid⟩ := taskMap_mem htask
    exact ⟨task, hmem, hid, hrole⟩
  have hopen : some purpose.role ∈ [some Role.tuning, some Role.selectionValidation] := by
    simp only [Purpose.Open, List.mem_cons, List.not_mem_nil, or_false] at hpurpose
    rcases hpurpose with rfl | rfl <;> simp [Purpose.role]
  -- The ids of a specification are different, so what is selected is what was checked.
  have hunique : ∀ task ∈ sealed.effective.tasks, task.taskId ∈ selected →
      task.role = purpose.role := by
    intro task hmem hid
    obtain ⟨other, hother, hsame, hrole⟩ := htask _ hid
    rw [List.inj_on_of_nodup_map sealed.effective.tasks_unique hmem hother hsame.symm]
    exact hrole
  refine ⟨(sealed.effective.tasks.filter fun task => selected.contains task.taskId).map
    fun task => ⟨some task.role, some task.taskId,
      ((taskDates sealed).get? task.taskId).getD [], some sealed.specificationHash⟩, ?_, ?_, ?_⟩
  · rw [taskScopes, bind_ok]
    refine ⟨sealed.effective, hverify, bind_ok.mpr ⟨(), refuse_ok.mpr (not_not.mpr ?_), ?_⟩⟩
    · intro id hid
      obtain ⟨task, hmem, rfl, -⟩ := htask id hid
      exact List.mem_map_of_mem hmem
    · rw [gather_ok, List.forall₂_map_right_iff, List.forall₂_same]
      intro task hmem
      obtain ⟨dates, hdates⟩ := taskDates_some (List.mem_of_mem_filter hmem)
      rw [hdates, bind_ok]
      exact ⟨dates, need_ok.mpr rfl, rfl⟩
  · obtain ⟨id, rest, rfl⟩ := List.exists_cons_of_ne_nil hne
    obtain ⟨task, hmem, hid, -⟩ := htask id List.mem_cons_self
    intro hnil
    rw [List.map_eq_nil_iff, List.filter_eq_nil_iff] at hnil
    exact hnil task hmem (by simp [hid])
  · intro s hs
    obtain ⟨task, htask, rfl⟩ := List.mem_map.mp hs
    rw [List.mem_filter, List.contains_iff_mem] at htask
    show some task.role ∈ _
    rw [hunique task htask.1 htask.2]
    exact hopen

theorem boundScopes_open (h : Lawful g db) {planRecord : TrialRecord X} {p : PlanEntry}
    (hat : planRecord ∈ db.records) (hp : plan? planRecord = some p) (hpurpose : p.purpose.Open)
    (hexperiment : planRecord.experimentId = r.experimentId) {selected : List String}
    (hne : selected ≠ []) (hselected : selected ⊆ p.plan.tests.map PlannedTest.taskId) :
    ∃ found, boundScopes g db r p.definitionId selected = .ok found ∧ OpenScopes found := by
  obtain ⟨definition, sealed, spec, hdefinition, hsealed, hsame, hcheck⟩ := (h.facts hat).plan p hp
  obtain ⟨found, hfound, hopen⟩ := taskScopes_open hcheck hpurpose hne hselected
  refine ⟨found, ?_, hopen⟩
  simp only [boundScopes, bind_ok, need_ok, refuse_ok, not_not]
  exact ⟨definition, h.read hdefinition, sealed, hsealed, (), hsame.trans hexperiment, hfound⟩

/-! ## Records of comparisons -/

def OpenTest (db : TrialDb X P V) (id : String) : Prop :=
  ∃ r e, At db id r ∧ test? r = some e ∧ e.purpose.Open

inductive Plain (db : TrialDb X P V) (r : TrialRecord X) : Prop
  | plan (p : PlanEntry) (h : plan? r = some p) (hopen : p.purpose.Open)
  | test (h : OpenTest db r.recordId)
  | assessment (a : Assessment) (h : assessment? r = some a) (hopen : OpenTest db a.testId)
  | fact (id : String) (hkind : r.kind ∈ factKinds) (hlinks : r.links = [⟨"test", id⟩])
      (hopen : OpenTest db id)
  | pair (c : Pair) (h : pair? r = some c)
  | result (c : ComparisonResult) (h : result? r = some c)

theorem pair_tests (h : Lawful g db) {planRecord : TrialRecord X} {c : Pair} {p : PlanEntry}
    (hpaired : Paired g db r c planRecord p) {id : String} (hid : id ∈ c.testIds) :
    OpenTest db id := by
  obtain ⟨record, e, hat, he, hplan⟩ := hpaired.tests id hid
  obtain ⟨own, q, hown, hq, hpurpose, -⟩ := h.planOf hat.1 he
  refine ⟨record, e, hat, he, ?_⟩
  rw [← hpurpose]
  rcases hplan with hplan | ⟨proof, other, q', hproof, hother, hq', hsame⟩
  · rw [hplan] at hown
    obtain rfl := h.at_unique hown hpaired.here
    rw [hpaired.typed, Option.some_inj] at hq
    rw [← hq]
    exact hpaired.purpose
  · obtain rfl := h.at_unique hown hother
    rw [hq', Option.some_inj] at hq
    rw [← hq, hsame]
    exact hpaired.purpose

theorem plain_inherits (h : Lawful g db) (hr : r ∈ db.records) (hplain : Plain db r)
    (hown : ownScopes g db r = none) :
    inheritedFrom r ≠ [] ∧ ∀ id ∈ inheritedFrom r, ∃ s, At db id s ∧ Plain db s := by
  have hinherits : ∀ l ∈ r.links, inheritedRelations.contains l.relation = true →
      inheritedFrom r ≠ [] := by
    intro l hl hrelation hnil
    rw [inheritedFrom, List.map_eq_nil_iff, List.filter_eq_nil_iff] at hnil
    exact hnil l hl hrelation
  have hfrom : ∀ id ∈ inheritedFrom r, ∃ l ∈ r.links, l.targetId = id ∧
      inheritedRelations.contains l.relation = true := by
    intro id hid
    obtain ⟨l, hl, rfl⟩ := List.mem_map.mp hid
    rw [List.mem_filter] at hl
    exact ⟨l, hl.1, rfl, hl.2⟩
  have htest : ∀ id, OpenTest db id → ∃ s, At db id s ∧ Plain db s := by
    intro id hopen
    obtain ⟨s, e, hat, he, hpurpose⟩ := hopen
    exact ⟨s, hat, .test ⟨s, e, ⟨hat.1, rfl⟩, he, hpurpose⟩⟩
  have hfacts := h.facts hr
  cases hplain with
  | plan p hp =>
      obtain ⟨hkind, hvalue⟩ := plan?_some hp
      rw [ownScopes, hkind, hvalue] at hown
      cases hown
  | test hopen =>
      obtain ⟨s, e, hat, he, -⟩ := hopen
      obtain rfl := h.unique hr hat.1 hat.2.symm
      obtain ⟨hkind, hvalue⟩ := test?_some he
      rw [ownScopes, hkind, hvalue] at hown
      cases hown
  | assessment a ha hopen =>
      obtain ⟨hlink, hlinks⟩ := hfacts.assessment a ha
      refine ⟨hinherits _ hlink rfl, fun id hid => ?_⟩
      obtain ⟨l, hl, rfl, -⟩ := hfrom id hid
      rcases hlinks l hl with rfl | ⟨-, s, hs, hid, b, hb, hsame⟩ | ⟨-, s, hs, hid, hkind, hone⟩
      · exact htest _ hopen
      · exact ⟨s, ⟨hs, hid⟩, .assessment b hb (hsame ▸ hopen)⟩
      · exact ⟨s, ⟨hs, hid⟩, .fact a.testId hkind hone hopen⟩
  | fact id hkind hlinks hopen =>
      refine ⟨hinherits ⟨"test", id⟩ (by rw [hlinks]; exact List.mem_cons_self) rfl,
        fun id' hid => ?_⟩
      obtain ⟨l, hl, rfl, -⟩ := hfrom id' hid
      rw [hlinks] at hl
      obtain rfl := List.mem_singleton.mp hl
      exact htest id hopen
  | pair c hc =>
      obtain ⟨planRecord, p, hpaired⟩ := hfacts.pair c hc
      refine ⟨hinherits _ hpaired.planLink rfl, fun id hid => ?_⟩
      obtain ⟨l, hl, rfl, hrelation⟩ := hfrom id hid
      rcases hpaired.links l hl hrelation with hplan | htests | ⟨s, d, hs, hd⟩
      · exact ⟨planRecord, hplan ▸ hpaired.here, .plan p hpaired.typed hpaired.purpose⟩
      · exact htest _ (pair_tests h hpaired htests)
      · exact ⟨s, hs, .result d hd⟩
  | result c hc =>
      obtain ⟨frozen, pair, hresulted⟩ := hfacts.result c hc
      obtain ⟨planRecord, p, hpaired⟩ := (h.facts hresulted.here.1).pair pair hresulted.typed
      refine ⟨hinherits _ hresulted.frozenLink rfl, fun id hid => ?_⟩
      obtain ⟨l, hl, rfl, -⟩ := hfrom id hid
      rcases hresulted.links l hl with hpair | hplan | ⟨testId, htestId, s, a, hs, ha, hsame⟩
      · exact ⟨frozen, hpair ▸ hresulted.here, .pair pair hresulted.typed⟩
      · rw [hplan, hresulted.planId]
        exact ⟨planRecord, hpaired.here, .plan p hpaired.typed hpaired.purpose⟩
      · exact ⟨s, hs, .assessment a ha (hsame ▸ pair_tests h hpaired htestId)⟩

theorem inherits_before (h : Lawful g db) {n : ℕ} (hr : db.records[n]? = some r) {id : String}
    (hid : id ∈ inheritedFrom r) : ∃ m < n, ∃ s, db.records[m]? = some s ∧ s.recordId = id := by
  obtain ⟨l, hl, rfl⟩ := List.mem_map.mp hid
  obtain ⟨u, hu, hadmitted⟩ := h.admitted n r hr
  obtain ⟨s, hs, -⟩ := hadmitted.linked l (List.mem_of_mem_filter hl)
  obtain ⟨m, hm, hget, -⟩ := Lawful.before hu hs
  exact ⟨m, hm, s, hget, hs.2⟩

theorem position_unique (h : Lawful g db) {n m : ℕ} {s : TrialRecord X}
    (hr : db.records[n]? = some r) (hs : db.records[m]? = some s) (hid : r.recordId = s.recordId) :
    n = m := by
  obtain ⟨hn, rfl⟩ := List.getElem?_eq_some_iff.mp hr
  obtain ⟨hm, rfl⟩ := List.getElem?_eq_some_iff.mp hs
  have hpairs := List.pairwise_iff_getElem.mp h.ordered
  rcases Nat.lt_trichotomy n m with hlt | heq | hgt
  · exact absurd hid (hpairs n m hn hm hlt).1
  · exact heq
  · exact absurd hid.symm (hpairs m n hm hn hgt).1

theorem scopesFrom_open (h : Lawful g db) : ∀ n r, db.records[n]? = some r → Plain db r →
    ∀ fuel, n < fuel → ∀ seen : List String,
      (∀ id ∈ seen, ∃ m s, n < m ∧ db.records[m]? = some s ∧ s.recordId = id) →
      ∃ found, scopesFrom g db fuel seen r.recordId = .ok found ∧ OpenScopes found := by
  refine h.induction (C := fun n r => Plain db r → ∀ fuel, n < fuel → ∀ seen : List String,
      (∀ id ∈ seen, ∃ m s, n < m ∧ db.records[m]? = some s ∧ s.recordId = id) →
      ∃ found, scopesFrom g db fuel seen r.recordId = .ok found ∧ OpenScopes found) ?_
  intro n r u hn hu hadmitted ih hplain fuel hfuel seen hseen
  have hmem := List.mem_of_getElem? hn
  obtain ⟨fuel, rfl⟩ : ∃ f, fuel = f + 1 := ⟨fuel - 1, by omega⟩
  have hunseen : r.recordId ∉ seen := by
    intro hin
    obtain ⟨m, s, hm, hs, hid⟩ := hseen _ hin
    have := position_unique h hn hs hid.symm
    omega
  have hread := h.read ⟨hmem, rfl⟩
  cases hown : ownScopes g db r with
  | some own =>
      suffices ∃ found, own = .ok found ∧ OpenScopes found by
        obtain ⟨found, hfound, hopen⟩ := this
        refine ⟨found, ?_, hopen⟩
        rw [scopesFrom]
        refine bind_ok.mpr ⟨(), refuse_ok.mpr hunseen, bind_ok.mpr ⟨r, hread, ?_⟩⟩
        rw [hown]
        exact hfound
      cases hplain with
      | plan p hp hopen =>
          obtain ⟨hkind, hvalue⟩ := plan?_some hp
          rw [ownScopes, hkind, hvalue, Option.some_inj] at hown
          obtain ⟨_, _, _, -, -, -, hcheck⟩ := (h.facts hmem).plan p hp
          have hvalid : p.plan.tests ≠ [] := by
            simp only [checkPlan, bind_ok, refuse_ok, not_not] at hcheck
            obtain ⟨-, -, -, hvalid, -⟩ := hcheck
            exact hvalid.tests_ne
          rw [← hown]
          exact boundScopes_open h hmem hp hopen rfl
            (fun hnil => hvalid (List.map_eq_nil_iff.mp hnil)) (List.Subset.refl _)
      | test hopen =>
          obtain ⟨s, e, hat, he, hopen⟩ := hopen
          obtain rfl := h.unique hmem hat.1 hat.2.symm
          obtain ⟨hkind, hvalue⟩ := test?_some he
          rw [ownScopes, hkind, hvalue, Option.some_inj] at hown
          obtain ⟨planRecord, p, hplan, hp, hpurpose, hdefinition, hexperiment, htask⟩ :=
            h.planOf hmem he
          rw [← hown, ← hdefinition]
          refine boundScopes_open h hplan.1 hp (hpurpose ▸ hopen) hexperiment
            (List.cons_ne_nil _ _) ?_
          simpa using htask
      | assessment a ha =>
          obtain ⟨hkind, hvalue⟩ := assessment?_some ha
          rw [ownScopes, hkind, hvalue] at hown
          cases hown
      | fact id hkind =>
          simp only [ownScopes] at hown
          split at hown <;> simp_all [factKinds]
      | pair c hc =>
          obtain ⟨hkind, hvalue⟩ := pair?_some hc
          rw [ownScopes, hkind, hvalue] at hown
          cases hown
      | result c hc =>
          obtain ⟨hkind, hvalue⟩ := result?_some hc
          rw [ownScopes, hkind, hvalue] at hown
          cases hown
  | none =>
      obtain ⟨hne, hplains⟩ := plain_inherits h hmem hplain hown
      have hone : ∀ id ∈ inheritedFrom r, ∃ found,
          scopesFrom g db fuel (r.recordId :: seen) id = .ok found ∧ OpenScopes found := by
        intro id hid
        obtain ⟨m, hm, s, hs, rfl⟩ := inherits_before h hn hid
        obtain ⟨s', hs', hplain'⟩ := hplains _ hid
        obtain rfl := h.unique hs'.1 (List.mem_of_getElem? hs) hs'.2
        refine ih m s' hm hs hplain' fuel (by omega) _ fun id hid => ?_
        rcases List.mem_cons.mp hid with rfl | hid
        · exact ⟨n, r, hm, hn, rfl⟩
        · obtain ⟨k, b, hk, hb, hbid⟩ := hseen id hid
          exact ⟨k, b, by omega, hb, hbid⟩
      obtain ⟨all, hall, hopen⟩ := gather_all hone
      refine ⟨mergeScopes g all.flatten, ?_, (OpenScopes.flatten ?_ hopen).merge⟩
      · rw [scopesFrom]
        refine bind_ok.mpr ⟨(), refuse_ok.mpr hunseen, bind_ok.mpr ⟨r, hread, ?_⟩⟩
        rw [hown]
        exact bind_ok.mpr ⟨all, hall, rfl⟩
      intro hnil
      have := (gather_ok.mp hall).length_eq
      rw [hnil, List.length_nil, List.length_eq_zero_iff] at this
      exact hne this

theorem scopes_open (h : Lawful g db) (hr : r ∈ db.records) (hplain : Plain db r) :
    ∃ found, scopes g db r.recordId = .ok found ∧ OpenScopes found := by
  obtain ⟨n, hn⟩ := List.mem_iff_getElem?.mp hr
  have hlt := (List.getElem?_eq_some_iff.mp hn).1
  exact scopesFrom_open h n r hn hplain _ (by omega) [] (by simp)

end Ahunter.Trials
