import Ahunter.Proofs.RecordReads
import Ahunter.Trials.System

/-!
# What a step adds to the store

A step adds records to the end of the log and changes no record that is
there. What it knows of a record it adds is said once (`Facts`), for each
kind of record that something is read back from; every law of the store is
read off that, and never off the calls.
-/

namespace Ahunter.Trials

open Ahunter.Lib Ahunter.Records

variable {X P V : Type}

/-! ## Preparing and inserting -/

variable {db : TrialDb X P V} {r : TrialRecord X}

theorem forall₂_from {α β : Type} {R : α → β → Prop} {as : List α} {bs : List β}
    (h : List.Forall₂ R as bs) {b : β} (hb : b ∈ bs) : ∃ a ∈ as, R a b := by
  induction h with
  | nil => cases hb
  | cons hone _ ih =>
      rcases List.mem_cons.mp hb with rfl | hb
      · exact ⟨_, List.mem_cons_self, hone⟩
      · obtain ⟨a, ha, hR⟩ := ih hb
        exact ⟨a, List.mem_cons_of_mem _ ha, hR⟩

theorem mem_sortedLinks {l : Link} {links : List Link} : l ∈ sortedLinks links ↔ l ∈ links := by
  rw [sortedLinks, List.mem_insertionSort, List.mem_dedup]

theorem mem_sortedSet {s : String} {l : List String} : s ∈ sortedSet l ↔ s ∈ l := by
  rw [sortedSet, List.mem_insertionSort, List.mem_dedup]

/-- `prepare` changes the order of a request and nothing else. -/
structure SameRequest (p q : Prepared (Entry X)) : Prop where
  experimentId : p.experimentId = q.experimentId
  kind : p.kind = q.kind
  recordId : p.recordId = q.recordId
  value : p.value = q.value
  links : ∀ l, l ∈ p.links ↔ l ∈ q.links

variable {host : TrialHost X}

theorem prepare_same {q p : Prepared (Entry X)} (h : prepare host q = .ok p) : SameRequest p q := by
  simp only [prepare, bind_ok, pure_ok] at h
  obtain ⟨-, -, -, -, -, -, rfl⟩ := h
  exact ⟨rfl, rfl, rfl, rfl, fun l => mem_sortedLinks⟩

variable {db' : TrialDb X P V}

theorem insert_linked [DecidableEq X] {p : Prepared (Entry X)}
    (h : db.insert host p = .ok (r, db')) (hnew : db.submitted p = none)
    {l : Link} (hl : l ∈ p.links) :
    ∃ s, db.read l.targetId = .ok s ∧ s.experimentId = p.experimentId := by
  unfold Db.insert at h
  rw [hnew] at h
  simp only [bind_ok] at h
  obtain ⟨-, -, _, hlinks, -⟩ := h
  have hone := walk_unit.mp hlinks l hl
  simp only [Db.linkable, bind_ok, refuse_ok, not_not] at hone
  obtain ⟨-, -, s, hs, hexperiment⟩ := hone
  exact ⟨s, hs, hexperiment⟩

/-! ## Records in the store -/

def At (db : TrialDb X P V) (recordId : String) (r : TrialRecord X) : Prop :=
  r ∈ db.records ∧ r.recordId = recordId

variable {recordId : String}

theorem At.read (h : db.read recordId = .ok r) : At db recordId r := by
  rw [Db.read, need_ok] at h
  exact ⟨List.mem_of_find?_eq_some h, by simpa using List.find?_some h⟩

theorem At.typed {α : Type} {view : TrialRecord X → Option α} {experimentId recordId : String}
    {a : α} (h : typed view experimentId db recordId = .ok (r, a)) :
    At db recordId r ∧ view r = some a ∧ r.experimentId = experimentId := by
  simp only [Trials.typed, bind_ok, need_ok, refuse_ok, pure_ok, Prod.mk.injEq, not_not] at h
  obtain ⟨s, hs, b, hb, -, he, rfl, rfl⟩ := h
  exact ⟨.read hs, hb, he⟩

theorem At.definition {sealed : ResolvedSpecification}
    (h : definitionSpecification db recordId = .ok (r, sealed)) :
    At db recordId r ∧ specification? r = some sealed := by
  simp only [definitionSpecification, bind_ok, need_ok, pure_ok, Prod.mk.injEq] at h
  obtain ⟨s, hs, b, hb, rfl, rfl⟩ := h
  exact ⟨.read hs, hb⟩

/-- The records of a store are among those of another. -/
def Within (db db' : TrialDb X P V) : Prop := ∃ new, db'.records = db.records ++ new

theorem Within.refl (db : TrialDb X P V) : Within db db := ⟨[], by simp⟩

theorem Within.of_eq (h : db'.records = db.records) : Within db db' :=
  ⟨[], by simp [h]⟩

theorem Within.trans {t u : TrialDb X P V} (h : Within db t) (h' : Within t u) : Within db u := by
  obtain ⟨new, hnew⟩ := h
  obtain ⟨new', hnew'⟩ := h'
  exact ⟨new ++ new', by rw [hnew', hnew, List.append_assoc]⟩

theorem At.within (h : At db recordId r) (hw : Within db db') : At db' recordId r := by
  obtain ⟨new, hnew⟩ := hw
  exact ⟨hnew ▸ List.mem_append_left _ h.1, h.2⟩

/-! ## What is known of a new record -/

def Planned (g : Hashes X) (db : TrialDb X P V) (r : TrialRecord X) (p : PlanEntry) : Prop :=
  ∃ definition sealed spec, At db p.definitionId definition ∧
    specification? definition = some sealed ∧ definition.experimentId = r.experimentId ∧
    checkPlan g sealed p.plan p.purpose = .ok spec

structure Registered (g : Hashes X) (db : TrialDb X P V) (r : TrialRecord X) (t : TestEntry)
    (planRecord : TrialRecord X) (p : PlanEntry) : Prop where
  here : At db t.planId planRecord
  typed : plan? planRecord = some p
  experiment : r.experimentId = planRecord.experimentId
  definition : p.definitionId = t.definitionId
  purpose : p.purpose = t.purpose
  sample : t.sample ∈ p.plan.tests
  task : t.taskId = t.sample.taskId
  identity : r.recordId = g.identity r.experimentId "test" t.sample.testId
  original : t.rerunOf = none
  own : p.sources.contains r.recordId = false

def Tested (g : Hashes X) (db : TrialDb X P V) (r : TrialRecord X) (t : TestEntry) : Prop :=
  (∃ planRecord p, Registered g db r t planRecord p) ∨
    ∃ original o reason, At db original.recordId original ∧ test? original = some o ∧
      original.experimentId = r.experimentId ∧
      t = { o with rerunOf := some original.recordId, rerunReason := some reason }

def PairTest (db : TrialDb X P V) (p : PlanEntry) (c : Pair) (testId : String) : Prop :=
  ∃ r t, At db testId r ∧ test? r = some t ∧
    (t.planId = c.planId ∨ ∃ proof planRecord q, p.sources.get? testId = some proof ∧
      At db t.planId planRecord ∧ plan? planRecord = some q ∧ q.purpose = p.purpose)

structure Paired (g : Hashes X) (db : TrialDb X P V) (r : TrialRecord X) (c : Pair)
    (planRecord : TrialRecord X) (p : PlanEntry) : Prop where
  here : At db c.planId planRecord
  typed : plan? planRecord = some p
  experiment : r.experimentId = planRecord.experimentId
  purpose : p.purpose ∈ [Purpose.tuning, .selectionValidation]
  definitionId : c.definitionId = p.definitionId
  hash : c.planHash = g.content planRecord.value
  testIds : c.testIds = p.plan.tests.map fun s => g.identity r.experimentId "test" s.testId
  tests : ∀ t ∈ c.testIds, PairTest db p c t
  planLink : ⟨"plan", c.planId⟩ ∈ r.links
  links : ∀ l ∈ r.links, inheritedRelations.contains l.relation = true →
    l.targetId = c.planId ∨ l.targetId ∈ c.testIds ∨
      ∃ s d, At db l.targetId s ∧ result? s = some d

structure Resulted (g : Hashes X) (db : TrialDb X P V) (r : TrialRecord X) (c : ComparisonResult)
    (frozen : TrialRecord X) (pair : Pair) : Prop where
  here : At db c.comparisonId frozen
  typed : pair? frozen = some pair
  identity : r.recordId = g.identity frozen.experimentId "comparison-result" frozen.recordId
  experiment : r.experimentId = frozen.experimentId
  planId : c.planId = pair.planId
  frozenLink : ⟨"comparison", c.comparisonId⟩ ∈ r.links
  links : ∀ l ∈ r.links, l.targetId = c.comparisonId ∨ l.targetId = c.planId ∨
    ∃ t ∈ pair.testIds, ∃ s a, At db l.targetId s ∧ assessment? s = some a ∧ a.testId = t

def Chosen (db : TrialDb X P V) (s : SelectionEntry) : Prop :=
  ∀ d ∈ s.decided, (∃ r c, At db d.comparisonId r ∧ result? r = some c) ∨
    ∃ r e, At db r.recordId r ∧ selection? r = some e ∧
      ∃ d' ∈ e.decided, d'.comparisonId = d.comparisonId

structure Facts (g : Hashes X) (db : TrialDb X P V) (r : TrialRecord X) : Prop where
  definition : ∀ sealed ∈ specification? r, verifySpecification g sealed = .ok sealed.effective
  plan : ∀ p ∈ plan? r, Planned g db r p
  test : ∀ t ∈ test? r, Tested g db r t
  pair : ∀ c ∈ pair? r, ∃ planRecord p, Paired g db r c planRecord p
  result : ∀ c ∈ result? r, ∃ frozen pair, Resulted g db r c frozen pair
  assessment : ∀ a ∈ assessment? r, ⟨"test", a.testId⟩ ∈ r.links ∧
    ∀ l ∈ r.links, AssessmentLink db a l
  selection : ∀ s ∈ selection? r, Chosen db s

theorem Facts.of_kind {g : Hashes X}
    (h : r.kind ∉ [RecordKind.definition, .testPlan, .test, .comparison, .evaluation, .selection]) :
    Facts g db r := by
  simp only [List.mem_cons, List.not_mem_nil, or_false, not_or] at h
  obtain ⟨hdefinition, hplan, htest, hcomparison, hevaluation, hselection⟩ := h
  constructor
  · intro s hs
    simp only [specification?, Option.mem_def] at hs
    split at hs <;> simp_all
  · intro s hs
    simp only [plan?, Option.mem_def] at hs
    split at hs <;> simp_all
  · intro s hs
    simp only [test?, Option.mem_def] at hs
    split at hs <;> simp_all
  · intro s hs
    simp only [pair?, Option.mem_def] at hs
    split at hs <;> simp_all
  · intro s hs
    simp only [result?, Option.mem_def] at hs
    split at hs <;> simp_all
  · intro s hs
    simp only [assessment?, Option.mem_def] at hs
    split at hs <;> simp_all
  · intro s hs
    simp only [selection?, Option.mem_def] at hs
    split at hs <;> simp_all

/-! ## Growing -/

structure Admitted (g : Hashes X) (db : TrialDb X P V) (r : TrialRecord X) : Prop
    extends Facts g db r where
  fresh : ∀ s ∈ db.records, s.recordId ≠ r.recordId
  next : r.sequence = nextSequence (db.records.map Record.sequence)
  linked : ∀ l ∈ r.links, ∃ s, At db l.targetId s ∧ s.experimentId = r.experimentId

theorem Admitted.later {g : Hashes X} (h : Admitted g db r) :
    ∀ s ∈ db.records, s.sequence < r.sequence := fun s hs => by
  rw [h.next]
  exact lt_nextSequence (List.mem_map_of_mem hs)

/-- One change of a store: none to its records and events, an admitted record,
or a committed event. What else a store holds (leases, the work queue, the
outbox) may change with any of them. -/
inductive Growth (g : Hashes X) (db : TrialDb X P V) : TrialDb X P V → Prop
  | same {t : TrialDb X P V} (hrecords : t.records = db.records) (hevents : t.events = db.events)
      (hprojections : t.projections = db.projections) : Growth g db t
  | add {t : TrialDb X P V} {r : TrialRecord X} (hr : Admitted g db r)
      (hrecords : t.records = db.records ++ [r]) (hevents : t.events = db.events)
      (hprojections : t.projections = db.projections) : Growth g db t
  | event [DecidableEq V] {t : TrialDb X P V} {host : TrialHost X} {c : Commit P V}
      {e : Event P V} (hc : Db.Committed host c pure db t e)
      (hplain : "status" ∉ c.content.updates.map ProjectionUpdate.name) : Growth g db t

/-- What a store becomes, one change at a time. -/
def Grown (g : Hashes X) : TrialDb X P V → TrialDb X P V → Prop :=
  Relation.ReflTransGen (Growth g)

namespace Grown

variable {g : Hashes X} {db t u : TrialDb X P V}

theorem same (hrecords : t.records = db.records) (hevents : t.events = db.events)
    (hprojections : t.projections = db.projections) : Grown g db t :=
  .single (.same hrecords hevents hprojections)

theorem refl : Grown g db db := Relation.ReflTransGen.refl

theorem trans (h : Grown g db t) (h' : Grown g t u) : Grown g db u :=
  Relation.ReflTransGen.trans h h'

theorem keeps {Q : TrialDb X P V → Prop} (h : Grown g db t)
    (step : ∀ {t u : TrialDb X P V}, Growth g t u → Q t → Q u) (hq : Q db) : Q t := by
  induction h with
  | refl => exact hq
  | tail _ hchange ih => exact step hchange ih

end Grown

theorem committed_records [DecidableEq V] {c : Commit P V} {e : Event P V}
    {t : TrialDb X P V} (h : Db.Committed host c pure db t e) : t.records = db.records := by
  obtain ⟨u, hguard, -, hleft⟩ := h.result
  rw [pure_ok] at hguard
  rw [hleft, ← hguard]

theorem Growth.within {g : Hashes X} {t : TrialDb X P V} (h : Growth g db t) : Within db t := by
  cases h with
  | same h => exact .of_eq h
  | add _ h => exact ⟨_, h⟩
  | event hc => exact .of_eq (committed_records hc)

theorem Grown.within {g : Hashes X} {t : TrialDb X P V} (h : Grown g db t) : Within db t :=
  h.keeps (fun hchange hw => hw.trans hchange.within) (.refl db)

end Ahunter.Trials
