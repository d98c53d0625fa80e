import Ahunter.Proofs.TrialSteps

/-!
# The laws of the experiment store

In a store that can be, every record was admitted to the store of the
records before it (`Lawful`). So identities are unique, what a record refers
to stands before it, and a law of all records is an induction over the log.
-/

namespace Ahunter.Trials

open Ahunter.Lib Ahunter.Records

variable {X P V : Type} {g : Hashes X} {db t : TrialDb X P V}

/-- A store each of whose records was admitted after those before it. -/
structure Lawful (g : Hashes X) (db : TrialDb X P V) : Prop where
  ordered : db.records.Pairwise fun r s => r.recordId ≠ s.recordId ∧ r.sequence < s.sequence
  admitted : ∀ n r, db.records[n]? = some r →
    ∃ u : TrialDb X P V, u.records = db.records.take n ∧ Admitted g u r

namespace Lawful

variable {r : TrialRecord X}

theorem of_records (h : Lawful g db) (hsame : t.records = db.records) : Lawful g t := by
  constructor
  · rw [hsame]
    exact h.ordered
  · rw [hsame]
    exact h.admitted

theorem empty {experiments : List String} : Lawful g (emptyStore experiments : TrialDb X P V) :=
  ⟨List.Pairwise.nil, fun n r h => by simp [emptyStore] at h⟩

theorem add (h : Lawful g db) (hr : Admitted g db r) (ht : t.records = db.records ++ [r]) :
    Lawful g t := by
  constructor
  · rw [ht, List.pairwise_append]
    refine ⟨h.ordered, List.pairwise_singleton _ _, fun s hs b hb => ?_⟩
    rw [List.mem_singleton.mp hb]
    exact ⟨hr.fresh s hs, hr.later s hs⟩
  · intro n s hs
    rw [ht] at hs ⊢
    rcases Nat.lt_or_ge n db.records.length with hn | hn
    · rw [List.getElem?_append_left hn] at hs
      rw [List.take_append_of_le_length hn.le]
      exact h.admitted n s hs
    · have hlast : n = db.records.length := by
        have := (List.getElem?_eq_some_iff.mp hs).1
        simp only [List.length_append, List.length_singleton] at this
        omega
      subst hlast
      rw [List.getElem?_concat_length, Option.some_inj] at hs
      rw [List.take_left, ← hs]
      exact ⟨db, rfl, hr⟩

theorem grown (h : Lawful g db) (hgrown : Grown g db t) : Lawful g t := by
  refine hgrown.keeps (fun hchange hlawful => ?_) h
  cases hchange with
  | same hsame => exact hlawful.of_records hsame
  | add hr hrecords => exact hlawful.add hr hrecords
  | event hc => exact hlawful.of_records (committed_records hc)

theorem later [DecidableEq X] [DecidableEq P] [DecidableEq V] (h : Lawful g db)
    (hlater : Later g db t) : Lawful g t := h.grown hlater.grown

/-! ## Reading -/

variable {s : TrialRecord X}

theorem unique (h : Lawful g db) (hr : r ∈ db.records) (hs : s ∈ db.records)
    (hid : r.recordId = s.recordId) : r = s := by
  by_contra hne
  obtain ⟨n, hn, rfl⟩ := List.getElem_of_mem hr
  obtain ⟨m, hm, rfl⟩ := List.getElem_of_mem hs
  have hpairs := List.pairwise_iff_getElem.mp h.ordered
  rcases Nat.lt_trichotomy n m with hlt | heq | hgt
  · exact (hpairs n m hn hm hlt).1 hid
  · subst heq
    exact hne rfl
  · exact (hpairs m n hm hn hgt).1 hid.symm

theorem at_unique (h : Lawful g db) {id : String} (hr : At db id r)
    (hs : At db id s) : r = s := h.unique hr.1 hs.1 (hr.2.trans hs.2.symm)

theorem read (h : Lawful g db) {id : String} (hr : At db id r) : db.read id = .ok r := by
  obtain ⟨hmem, rfl⟩ := hr
  rw [Db.read, need_ok]
  cases hfind : db.records.find? fun s => s.recordId = r.recordId with
  | none => exact absurd (List.find?_eq_none.mp hfind r hmem) (by simp)
  | some s =>
      have hid : s.recordId = r.recordId := by simpa using List.find?_some hfind
      rw [h.unique (List.mem_of_find?_eq_some hfind) hmem hid]

/-! ## Induction over the log -/

theorem induction {C : ℕ → TrialRecord X → Prop} (h : Lawful g db)
    (step : ∀ n r u, db.records[n]? = some r → u.records = db.records.take n →
      Admitted g (u : TrialDb X P V) r → (∀ m s, m < n → db.records[m]? = some s → C m s) → C n r) :
    ∀ n r, db.records[n]? = some r → C n r := by
  intro n
  induction n using Nat.strong_induction_on with
  | _ n ih =>
      intro r hr
      obtain ⟨u, hu, hadmitted⟩ := h.admitted n r hr
      exact step n r u hr hu hadmitted fun m s hm hs => ih m hm s hs

theorem before {u : TrialDb X P V} {n : ℕ} {id : String}
    (hu : u.records = db.records.take n) (hs : At u id s) :
    ∃ m < n, db.records[m]? = some s ∧ At db id s := by
  obtain ⟨hmem, hid⟩ := hs
  rw [hu] at hmem
  obtain ⟨m, hm, rfl⟩ := List.mem_take_iff_getElem.mp hmem
  refine ⟨m, by omega, List.getElem?_eq_getElem _, List.getElem_mem _, hid⟩

theorem within {u : TrialDb X P V} {n : ℕ} (hu : u.records = db.records.take n) :
    Within u db := ⟨db.records.drop n, by rw [hu, List.take_append_drop]⟩

theorem facts (h : Lawful g db) (hr : r ∈ db.records) : Facts g db r := by
  obtain ⟨n, hn⟩ := List.mem_iff_getElem?.mp hr
  obtain ⟨u, hu, hadmitted⟩ := h.admitted n r hn
  exact hadmitted.toFacts.within (within hu)

theorem linked (h : Lawful g db) (hr : r ∈ db.records) {l : Link} (hl : l ∈ r.links) :
    ∃ s, At db l.targetId s ∧ s.experimentId = r.experimentId := by
  obtain ⟨n, hn⟩ := List.mem_iff_getElem?.mp hr
  obtain ⟨u, hu, hadmitted⟩ := h.admitted n r hn
  obtain ⟨s, hs, hexperiment⟩ := hadmitted.linked l hl
  exact ⟨s, hs.within (within hu), hexperiment⟩

theorem planOf (h : Lawful g db) {e : TestEntry} (hr : r ∈ db.records) (he : test? r = some e) :
    ∃ planRecord p, At db e.planId planRecord ∧
      plan? planRecord = some p ∧ p.purpose = e.purpose ∧ p.definitionId = e.definitionId ∧
      planRecord.experimentId = r.experimentId ∧
      e.taskId ∈ p.plan.tests.map PlannedTest.taskId := by
  obtain ⟨n, hn⟩ := List.mem_iff_getElem?.mp hr
  refine h.induction (C := fun _ r => ∀ e, test? r = some e → ∃ planRecord p,
    At db e.planId planRecord ∧ plan? planRecord = some p ∧ p.purpose = e.purpose ∧
      p.definitionId = e.definitionId ∧ planRecord.experimentId = r.experimentId ∧
      e.taskId ∈ p.plan.tests.map PlannedTest.taskId) ?_ n r hn e he
  intro n r u hn hu hadmitted ih e he
  rcases hadmitted.test e he with ⟨planRecord, p, hplan⟩ | ⟨original, o, reason, hat, ho, hsame, rfl⟩
  · refine ⟨planRecord, p, hplan.here.within (within hu), hplan.typed, hplan.purpose,
      hplan.definition, hplan.experiment.symm, ?_⟩
    rw [hplan.task]
    exact List.mem_map_of_mem hplan.sample
  · obtain ⟨m, hm, hget, -⟩ := before hu hat
    obtain ⟨planRecord, p, hplanAt, hp, hpurpose, hdefinition, hexperiment, htask⟩ :=
      ih m original hm hget o ho
    exact ⟨planRecord, p, hplanAt, hp, hpurpose, hdefinition, hexperiment.trans hsame, htask⟩

theorem chosen (h : Lawful g db) {e : SelectionEntry} {d : Decided} (hr : r ∈ db.records)
    (he : selection? r = some e) (hd : e.decided = some d) :
    ∃ s c, At db d.comparisonId s ∧ result? s = some c := by
  obtain ⟨n, hn⟩ := List.mem_iff_getElem?.mp hr
  refine h.induction (C := fun _ r => ∀ e d, selection? r = some e → e.decided = some d →
    ∃ s c, At db d.comparisonId s ∧ result? s = some c) ?_ n r hn e d he hd
  intro n r u hn hu hadmitted ih e d he hd
  rcases hadmitted.selection e he d hd with ⟨s, c, hat, hc⟩ | ⟨s, e', hat, he', d', hd', hsame⟩
  · exact ⟨s, c, hat.within (within hu), hc⟩
  · obtain ⟨m, hm, hget, -⟩ := before hu hat
    rw [← hsame]
    exact ih m s hm hget e' d' he' hd'

end Lawful

theorem Reached.lawful [DecidableEq X] [DecidableEq P] [DecidableEq V] (h : Reached g db) :
    Lawful g db := by
  obtain ⟨experiments, hlater⟩ := h
  exact Lawful.empty.later hlater

end Ahunter.Trials
