import Ahunter.Lib.Paging
import Ahunter.Lib.Related
import Ahunter.Proofs.Feedback
import Ahunter.Trials.Evolution

/-!
# Listings as of a snapshot

A cursor carries the ceilings of the store it was issued on, and everything
a store gains later stands above them. So each row of each view has the same
line on a later store as on the one of the snapshot, and the pages of one
listing are the slices of one list, whatever is written between them.
-/

namespace Ahunter.Trials

open Ahunter.Lib Ahunter.Records

variable {X P V : Type} {g : Hashes X} {db t : TrialDb X P V}

/-! ## Ceilings -/

theorem le_ceiling {l : List ℕ} {n : ℕ} (h : n ∈ l) : n ≤ l.foldr max 0 := by
  have := lt_nextSequence h
  rw [nextSequence] at this
  omega

theorem ceiling_append (l m : List ℕ) : l.foldr max 0 ≤ (l ++ m).foldr max 0 := by
  induction l with
  | nil => exact Nat.zero_le _
  | cons a l ih => exact max_le_max le_rfl ih

structure Above (db t : TrialDb X P V) : Prop where
  records : ∃ new, t.records = db.records ++ new ∧
    ∀ r ∈ new, (db.records.map Record.sequence).foldr max 0 < r.sequence
  events : ∃ new, t.events = db.events ++ new ∧
    ∀ e ∈ new, (db.events.map Event.sequence).foldr max 0 < e.sequence

theorem Above.refl (db : TrialDb X P V) : Above db db :=
  ⟨⟨[], by simp, by simp⟩, [], by simp, by simp⟩

theorem Grown.above (h : Grown g db t) : Above db t := by
  refine h.keeps (fun {t u} hchange habove => ?_) (.refl db)
  obtain ⟨⟨rs, hrs, hrabove⟩, es, hes, heabove⟩ := habove
  cases hchange with
  | same hrecords hevents =>
      exact ⟨⟨rs, hrecords.trans hrs, hrabove⟩, es, hevents.trans hes, heabove⟩
  | @add _ r hr hrecords hevents =>
      refine ⟨⟨rs ++ [r], by rw [hrecords, hrs, List.append_assoc], ?_⟩, es, hevents.trans hes,
        heabove⟩
      intro s hs
      rcases List.mem_append.mp hs with hs | hs
      · exact hrabove s hs
      · rw [List.mem_singleton.mp hs, hr.next, nextSequence, Nat.lt_succ_iff, hrs, List.map_append]
        exact ceiling_append _ _
  | @event _ _ host c e hc =>
      obtain ⟨v, hguard, hsequence, hleft⟩ := hc.result
      rw [pure_ok] at hguard
      subst hguard
      refine ⟨⟨rs, by rw [committed_records hc, hrs], hrabove⟩, es ++ [e], ?_, ?_⟩
      · rw [hleft, ← List.append_assoc, ← hes]
      · intro x hx
        rcases List.mem_append.mp hx with hx | hx
        · exact heabove x hx
        · rw [List.mem_singleton.mp hx, hsequence, nextSequence, Nat.lt_succ_iff, hes,
            List.map_append]
          exact ceiling_append _ _

namespace Above

variable (h : Above db t)

include h

theorem within : Within db t := by
  obtain ⟨new, hnew, -⟩ := h.records
  exact ⟨new, hnew⟩

theorem read {id : String} {r : TrialRecord X} (hread : db.read id = .ok r) :
    t.read id = .ok r := by
  obtain ⟨new, hnew, -⟩ := h.records
  exact Db.read_append hnew hread

/-! ## What ceilings cut off -/

variable {experimentId : String} {through : ℕ}

theorem filter_records
    (hle : through ≤ (db.records.map Record.sequence).foldr max 0) {q : TrialRecord X → Bool}
    (hq : ∀ r, q r = true → r.sequence ≤ through) : t.records.filter q = db.records.filter q := by
  obtain ⟨new, hnew, habove⟩ := h.records
  have hnil : new.filter q = [] := by
    rw [List.filter_eq_nil_iff]
    intro r hr hqr
    have hbelow := hq r hqr
    have := habove r hr
    omega
  rw [hnew, List.filter_append, hnil, List.append_nil]

variable {candidateId : Option String}

theorem recordsWithin {kind : RecordKind}
    (hle : through ≤ (db.records.map Record.sequence).foldr max 0) :
    Trials.recordsWithin t experimentId kind through candidateId
      = Trials.recordsWithin db experimentId kind through candidateId := by
  refine h.filter_records hle fun r hr => ?_
  simp only [decide_eq_true_eq] at hr
  exact hr.2.2.1

theorem viewRows {view : EvolutionView}
    (hle : through ≤ (db.records.map Record.sequence).foldr max 0) :
    Trials.viewRows t experimentId view through candidateId
      = Trials.viewRows db experimentId view through candidateId := by
  rw [Trials.viewRows, Trials.viewRows, h.recordsWithin hle]

theorem selectionWithin (hle : through ≤ (db.records.map Record.sequence).foldr max 0) :
    Trials.selectionWithin t experimentId through
      = Trials.selectionWithin db experimentId through := by
  rw [Trials.selectionWithin, Trials.selectionWithin, h.filter_records hle]
  intro r hr
  simp only [decide_eq_true_eq] at hr
  exact hr.2.2

theorem statusThrough {testId : String}
    (hle : through ≤ (db.events.map Event.sequence).foldr max 0) :
    Trials.statusThrough t testId through = Trials.statusThrough db testId through := by
  obtain ⟨new, hnew, habove⟩ := h.events
  have hfilter : t.events.filter (statusEvent testId through)
      = db.events.filter (statusEvent testId through) := by
    have hnil : new.filter (statusEvent testId through) = [] := by
      rw [List.filter_eq_nil_iff]
      intro e he hstatus
      simp only [statusEvent, Bool.and_eq_true, decide_eq_true_eq] at hstatus
      have := habove e he
      omega
    rw [hnew, List.filter_append, hnil, List.append_nil]
  rw [Trials.statusThrough, Trials.statusThrough, hfilter]
  split
  · rfl
  · next sequence hmax =>
      obtain ⟨e, he, hsequence⟩ := List.mem_map.mp (List.max?_mem hmax)
      cases hfind : db.events.find? fun x => x.sequence = sequence with
      | none =>
          have := List.find?_eq_none.mp hfind e (List.mem_of_mem_filter he)
          simp [hsequence] at this
      | some x =>
          have hevent : db.event sequence = .ok x := need_ok.mpr hfind
          rw [hevent, Db.event_earlier ⟨new, hnew.symm⟩ hevent]

end Above

/-! ## Lines -/

structure Bound.Within (b : Bound) (db : TrialDb X P V) : Prop where
  records : b.recordsThrough ≤ (db.records.map Record.sequence).foldr max 0
  events : b.eventsThrough ≤ (db.events.map Event.sequence).foldr max 0

section Lines

variable (h : Lawful g db) (ht : Lawful g t) (habove : Above db t)

variable {r : TrialRecord X} {experimentId : String}

include h ht habove

variable {id : String}

theorem read_same (hr : At db id r) : t.read id = db.read id := by
  rw [h.read hr, ht.read (hr.within habove.within)]

omit ht habove in
theorem scopes_definition {sealed : ResolvedSpecification} (hr : At db id r)
    (hs : specification? r = some sealed) :
    scopes g db id = taskScopes g sealed fun spec => spec.tasks.map Task.taskId := by
  obtain ⟨hkind, hvalue⟩ := specification?_some hs
  have hown : ownScopes g db r
      = some (taskScopes g sealed fun spec => spec.tasks.map Task.taskId) := by
    rw [ownScopes, hkind, hvalue]
  simp only [scopes, scopesFrom, h.read hr, refuse, List.not_mem_nil, if_false, bind, Except.bind,
    hown]

variable {through : ℕ}

theorem testLine_same (hr : r ∈ db.records) {candidateId : String}
    (hle : through ≤ (db.events.map Event.sequence).foldr max 0) :
    testLine g t experimentId r candidateId through
      = testLine g db experimentId r candidateId through := by
  rw [testLine, testLine]
  cases htest : test? r with
  | none => rfl
  | some e =>
      obtain ⟨planRecord, p, hplan, hp, -, hdefinition, -⟩ := h.planOf hr htest
      obtain ⟨definition, sealed, spec, hat, hsealed, -⟩ := (h.facts hplan.1).plan p hp
      rw [hdefinition] at hat
      have hscopes : definitionScopes g t experimentId e.definitionId
          = definitionScopes g db experimentId e.definitionId := by
        rw [definitionScopes, definitionScopes, read_same h ht habove hat,
          scopes_definition h hat hsealed,
          scopes_definition ht (hat.within habove.within) hsealed]
      simp only [need, bind, Except.bind, hscopes, habove.statusThrough hle]

theorem feedback_same (hr : r ∈ db.records) {c : ComparisonResult} (hc : result? r = some c) :
    comparisonFeedback g t r.recordId = comparisonFeedback g db r.recordId := by
  have hlater : r ∈ t.records := (At.within ⟨hr, rfl⟩ habove.within : At t r.recordId r).1
  rw [comparisonFeedback_stored h hr hc, comparisonFeedback_stored ht hlater hc]

theorem resultWithin_same {pair : Pair}
    (hle : through ≤ (db.records.map Record.sequence).foldr max 0) :
    resultWithin g t experimentId r pair through
      = resultWithin g db experimentId r pair through := by
  have hfind : ∀ id : String, t.records.find? (fun s => s.recordId = id ∧ s.sequence ≤ through)
      = db.records.find? fun s => s.recordId = id ∧ s.sequence ≤ through := by
    intro id
    rw [← List.head?_filter, ← List.head?_filter, habove.filter_records hle]
    intro s hs
    simp only [decide_eq_true_eq] at hs
    exact hs.2
  rw [resultWithin, resultWithin]
  dsimp only
  rw [hfind]
  split
  · rfl
  · next s hs =>
      have hid : s.recordId = g.identity experimentId "comparison-result" r.recordId := by
        have := List.find?_some hs
        simp only [decide_eq_true_eq] at this
        exact this.1
      have hmem := List.mem_of_find?_eq_some hs
      rw [← hid, read_same h ht habove ⟨hmem, rfl⟩, h.read ⟨hmem, rfl⟩]
      cases hresult : result? s with
      | none => simp only [need, bind, Except.bind, hresult]
      | some c =>
          simp only [need, bind, Except.bind, hresult, feedback_same h ht habove hmem hresult]

theorem comparisonLine_same (hr : r ∈ db.records)
    (hle : through ≤ (db.records.map Record.sequence).foldr max 0) :
    comparisonLine g t experimentId r through = comparisonLine g db experimentId r through := by
  rw [comparisonLine, comparisonLine]
  cases hpair : pair? r with
  | none => rfl
  | some pair =>
      obtain ⟨hkind, -⟩ := pair?_some hpair
      have hlater : r ∈ t.records := (At.within ⟨hr, rfl⟩ habove.within : At t r.recordId r).1
      rw [requireComparisonScope_ok h hr hkind (.pair pair hpair),
        requireComparisonScope_ok ht hlater hkind (.pair pair hpair)]
      simp only [need, bind, Except.bind, resultWithin_same h ht habove hle]

theorem selectionLine_same (hr : r ∈ db.records) :
    selectionLine g t experimentId r = selectionLine g db experimentId r := by
  rw [selectionLine, selectionLine]
  cases hentry : selection? r with
  | none => rfl
  | some e =>
      have hdecided : decidedLine g t e.decided = decidedLine g db e.decided := by
        cases hd : e.decided with
        | none => rfl
        | some d =>
            obtain ⟨s, c, hat, hc⟩ := h.chosen hr hentry hd
            obtain ⟨hmem, hid⟩ := hat
            rw [decidedLine, decidedLine, ← hid, feedback_same h ht habove hmem hc]
      simp only [need, bind, Except.bind, hdecided]

theorem currentLine_same (hle : through ≤ (db.records.map Record.sequence).foldr max 0) :
    currentLine g t experimentId through = currentLine g db experimentId through := by
  rw [currentLine, currentLine, habove.selectionWithin hle]
  split
  · rfl
  · next r hr =>
      have hmem := List.mem_of_mem_filter (List.mem_of_getLast? hr)
      rw [read_same h ht habove ⟨hmem, rfl⟩, h.read ⟨hmem, rfl⟩]
      simp only [bind, Except.bind, selectionLine_same h ht habove hmem]

/-! ## Candidates -/

omit h ht in
theorem candidateProposal_later {found : TrialRecord X × CandidateProposal}
    (hok : candidateProposal db experimentId id = .ok found) :
    candidateProposal t experimentId id = .ok found := by
  simp only [candidateProposal, bind_ok] at hok ⊢
  obtain ⟨r, hread, hrest⟩ := hok
  exact ⟨r, habove.read hread, hrest⟩

omit h ht in
theorem lineage_later {p : CandidateProposal} {found : List Link × Option String}
    (hok : lineage g db experimentId r p = .ok found) :
    lineage g t experimentId r p = .ok found := by
  rw [lineage] at hok ⊢
  dsimp only at hok ⊢
  split at hok
  · exact hok
  · exact hok
  · simp only [bind_ok] at hok ⊢
    obtain ⟨ancestor, hancestor, hrest⟩ := hok
    exact ⟨ancestor, candidateProposal_later habove hancestor, hrest⟩

theorem boundCandidate_same (hr : At db id r)
    {found : TrialRecord X × CandidateProposal × Option String} :
    boundCandidate g t experimentId id through = .ok found
      ↔ boundCandidate g db experimentId id through = .ok found := by
  simp only [boundCandidate, bind_ok, pure_ok, refuse_ok, not_not]
  constructor
  · rintro ⟨⟨s, p⟩, hs, u, hsequence, u', hid, ⟨expected, parent⟩, hlineage, u'', hlinks, rfl⟩
    have hcandidate : candidateProposal db experimentId id = .ok (s, p) := by
      rw [candidateProposal, read_same h ht habove hr] at hs
      exact hs
    refine ⟨(s, p), hcandidate, u, hsequence, u', hid, (expected, parent), ?_, u'', hlinks, rfl⟩
    have hsame : s = r := by
      simp only [candidateProposal, bind_ok, need_ok, refuse_ok, pure_ok, Prod.mk.injEq,
        not_not, h.read hr] at hcandidate
      obtain ⟨a, ha, -, -, -, -, rfl, -⟩ := hcandidate
      exact (Except.ok.inj ha).symm
    subst hsame
    -- The parent is linked, so it was there when the proposal was.
    rw [lineage] at hlineage ⊢
    dsimp only at hlineage ⊢
    split at hlineage
    · exact hlineage
    · exact hlineage
    · next name _ _ =>
        simp only [bind_ok, refuse_ok, pure_ok, Prod.mk.injEq] at hlineage ⊢
        obtain ⟨⟨ancestor, q⟩, hancestor, v, hprecedes, rfl, rfl⟩ := hlineage
        have hlink : ⟨"parent", g.identity experimentId "candidate" name⟩ ∈ s.links := by
          rw [hlinks]
          simp
        obtain ⟨b, hbat, -⟩ := h.linked hr.1 hlink
        refine ⟨(ancestor, q), ?_, v, hprecedes, rfl, rfl⟩
        rw [candidateProposal, read_same h ht habove hbat] at hancestor
        exact hancestor
  · rintro ⟨⟨s, p⟩, hs, u, hsequence, u', hid, found', hlineage, hrest⟩
    exact ⟨(s, p), candidateProposal_later habove hs, u, hsequence, u', hid, found',
      lineage_later habove hlineage, hrest⟩

/-! ## Rows -/

variable {selection : Option SelectionLine}

theorem treeLine_same {b : Bound} (hb : b.Within db) (hr : r ∈ db.records) {line : TreeLine} :
    treeLine g t experimentId r.recordId b selection = .ok line
      ↔ treeLine g db experimentId r.recordId b selection = .ok line := by
  have htests : gather (fun s => do
        let test ← t.read s.recordId
        testLine g t experimentId test r.recordId b.eventsThrough)
      (recordsWithin t experimentId .test b.recordsThrough (some r.recordId))
      = gather (fun s => do
        let test ← db.read s.recordId
        testLine g db experimentId test r.recordId b.eventsThrough)
      (recordsWithin db experimentId .test b.recordsThrough (some r.recordId)) := by
    rw [habove.recordsWithin hb.records]
    refine gather_congr fun s hs => ?_
    have hmem : s ∈ db.records := List.mem_of_mem_filter hs
    rw [read_same h ht habove ⟨hmem, rfl⟩, h.read ⟨hmem, rfl⟩]
    exact testLine_same h ht habove hmem hb.events
  simp only [treeLine, bind_ok, htests, boundCandidate_same h ht habove ⟨hr, rfl⟩]

theorem viewLine_same {b : Bound} (hb : b.Within db) (hr : r ∈ db.records)
    {candidateId : Option String} {line : EvolutionLine} :
    viewLine g t experimentId candidateId b selection r = .ok line
      ↔ viewLine g db experimentId candidateId b selection r = .ok line := by
  rw [viewLine, viewLine, read_same h ht habove ⟨hr, rfl⟩, h.read ⟨hr, rfl⟩]
  simp only [bind, Except.bind]
  cases b.view with
  | tree =>
      rw [map_ok, map_ok]
      exact exists_congr fun line => and_congr_left' (treeLine_same h ht habove hb hr)
  | tests => rw [testLine_same h ht habove hr hb.events]
  | comparisons => rw [comparisonLine_same h ht habove hr hb.records]
  | selection => rw [selectionLine_same h ht habove hr]

end Lines

/-! ## Pages -/

variable {experimentId : String} {proposalId cand : Option String} {limit : ℕ}
  {cursor : Option Bound} {b : Bound} {through : ℕ}

theorem viewCandidate_ok (hok : viewCandidate g db experimentId proposalId through = .ok cand) :
    cand = proposalId.map (g.identity experimentId "candidate") := by
  cases proposalId with
  | none => exact (pure_ok.mp hok).symm
  | some name =>
      simp only [viewCandidate, bind_ok, pure_ok] at hok
      obtain ⟨-, -, rfl⟩ := hok
      rfl

structure Paged (g : Hashes X) (db : TrialDb X P V) (experimentId : String) (view : EvolutionView)
    (limit : ℕ) (proposalId : Option String) (cursor : Option Bound) (b : Bound)
    (cand : Option String) (sel : Option SelectionLine) (items : List EvolutionLine)
    (page : EvolutionPage) : Prop where
  limits : 1 ≤ limit ∧ limit ≤ 200
  node : view ∈ [EvolutionView.tests, .comparisons] ↔ proposalId ≠ none
  bound : bounds db experimentId view proposalId cursor = .ok b
  candidate : viewCandidate g db experimentId proposalId b.recordsThrough = .ok cand
  current : currentLine g db experimentId b.recordsThrough = .ok sel
  lines : gather (viewLine g db experimentId cand b sel)
    ((afterKey Record.sequence (viewRows db experimentId view b.recordsThrough cand)
      b.after).take limit) = .ok items
  shown : page.items = items
  total : page.total = (viewRows db experimentId view b.recordsThrough cand).length
  next : page.nextCursor =
    if limit < (afterKey Record.sequence (viewRows db experimentId view b.recordsThrough cand)
      b.after).length then
      ((afterKey Record.sequence (viewRows db experimentId view b.recordsThrough cand)
        b.after)[limit - 1]?).map fun r => { b with after := r.sequence }
    else none
  selection : page.selection = sel
  snapshot : page.recordsThrough = b.recordsThrough ∧ page.eventsThrough = b.eventsThrough

variable {view : EvolutionView} {page : EvolutionPage}

theorem evolutionPage_ok :
    evolutionPage g db experimentId view limit proposalId cursor = .ok page ↔ ∃ b cand sel items,
        Paged g db experimentId view limit proposalId cursor b cand sel items page := by
  have hnext : ∀ (l : List (TrialRecord X)) (b : Bound), 1 ≤ limit →
      (if (l.take (limit + 1)).length > limit then
        ((l.take (limit + 1))[limit - 1]?).map fun r => { b with after := r.sequence } else none)
      = if limit < l.length then
        (l[limit - 1]?).map fun r => { b with after := r.sequence } else none := by
    intro l b hpos
    rw [List.length_take, List.getElem?_take_of_lt (by omega)]
    by_cases hmore : limit < l.length
    · rw [if_pos hmore, if_pos (by omega)]
    · rw [if_neg hmore, if_neg (by omega)]
  have htake : ∀ l : List (TrialRecord X), (l.take (limit + 1)).take limit = l.take limit := by
    intro l
    rw [List.take_take, Nat.min_eq_left (Nat.le_succ _)]
  simp only [evolutionPage, bind_ok, refuse_ok, not_not, pure_ok]
  constructor
  · rintro ⟨-, hlimits, -, hnode, b, hb, cand, hcand, sel, hsel, items, hitems, rfl⟩
    rw [htake] at hitems
    exact ⟨b, cand, sel, items, hlimits, hnode, hb, hcand, hsel, hitems, rfl, rfl,
      hnext _ _ hlimits.1, rfl, rfl, rfl⟩
  · rintro ⟨b, cand, sel, items, h⟩
    refine ⟨(), h.limits, (), h.node, b, h.bound, cand, h.candidate, sel, h.current, items, ?_, ?_⟩
    · rw [htake]
      exact h.lines
    · obtain ⟨hrecords, hevents⟩ := h.snapshot
      cases page
      simp only [EvolutionPage.mk.injEq]
      exact ⟨h.shown.symm, h.total.symm, (hnext _ _ h.limits.1).trans h.next.symm,
        h.selection.symm, hrecords.symm, hevents.symm⟩

theorem bounds_ok (hok : bounds db experimentId view proposalId cursor = .ok b) :
    b.Within db ∧ b.view = view ∧ ∀ c ∈ cursor, b = c := by
  cases cursor with
  | none =>
      obtain rfl := pure_ok.mp hok
      exact ⟨⟨le_rfl, le_rfl⟩, rfl, by simp⟩
  | some c =>
      simp only [bounds, bind_ok, refuse_ok, pure_ok, not_or, not_not] at hok
      obtain ⟨-, ⟨-, hview, -, hrecords, hevents⟩, rfl⟩ := hok
      exact ⟨⟨hrecords.2, hevents⟩, hview, by simp⟩

variable {c : Bound}

theorem bounds_later (habove : Above db t)
    (hok : bounds db experimentId view proposalId (some c) = .ok c) :
    bounds t experimentId view proposalId (some c) = .ok c := by
  simp only [bounds, bind_ok, refuse_ok, pure_ok, not_or, not_not] at hok ⊢
  obtain ⟨u, ⟨hexperiment, hview, hproposal, ⟨hafter, hrecords⟩, hevents⟩, -⟩ := hok
  obtain ⟨⟨rs, hrs, -⟩, es, hes, -⟩ := habove
  refine ⟨u, ⟨hexperiment, hview, hproposal, ⟨hafter, hrecords.trans ?_⟩, hevents.trans ?_⟩, trivial⟩
  · rw [hrs, List.map_append]
    exact ceiling_append _ _
  · rw [hes, List.map_append]
    exact ceiling_append _ _

theorem viewCandidate_same (h : Lawful g db) (ht : Lawful g t) (habove : Above db t)
    (hthere : ∀ name ∈ proposalId, ∃ r, At db (g.identity experimentId "candidate" name) r) :
    viewCandidate g t experimentId proposalId through = .ok cand
      ↔ viewCandidate g db experimentId proposalId through = .ok cand := by
  cases proposalId with
  | none => exact Iff.rfl
  | some name =>
      obtain ⟨r, hr⟩ := hthere name rfl
      simp only [viewCandidate, bind_ok, boundCandidate_same h ht habove hr]

theorem viewCandidate_there (hok : viewCandidate g db experimentId proposalId through = .ok cand) :
    ∀ name ∈ proposalId, ∃ r, At db (g.identity experimentId "candidate" name) r := by
  intro name hname
  rw [Option.mem_def.mp hname] at hok
  simp only [viewCandidate, boundCandidate, candidateProposal, bind_ok] at hok
  obtain ⟨-, ⟨-, ⟨r, hread, -⟩, -⟩, -⟩ := hok
  exact ⟨r, .read hread⟩

theorem viewRows_mem {r : TrialRecord X}
    (hr : r ∈ viewRows db experimentId view through cand) : r ∈ db.records :=
  List.mem_of_mem_filter (List.mem_of_mem_filter hr)

theorem evolutionPage_same (h : Lawful g db) (ht : Lawful g t) (habove : Above db t)
    (hc : bounds db experimentId view proposalId (some c) = .ok c)
    (hthere : ∀ name ∈ proposalId, ∃ r, At db (g.identity experimentId "candidate" name) r)
    {page : EvolutionPage} :
    evolutionPage g t experimentId view limit proposalId (some c) = .ok page
      ↔ evolutionPage g db experimentId view limit proposalId (some c) = .ok page := by
  have hb : c.Within db := (bounds_ok hc).1
  have hct := bounds_later habove hc
  have hcandidate : ∀ cand,
      viewCandidate g t experimentId proposalId c.recordsThrough = .ok cand
        ↔ viewCandidate g db experimentId proposalId c.recordsThrough = .ok cand :=
    fun _ => viewCandidate_same h ht habove hthere
  have hrows : ∀ cand, viewRows t experimentId view c.recordsThrough cand
      = viewRows db experimentId view c.recordsThrough cand := fun _ => habove.viewRows hb.records
  have hcurrent : currentLine g t experimentId c.recordsThrough
      = currentLine g db experimentId c.recordsThrough := currentLine_same h ht habove hb.records
  simp only [evolutionPage, bind_ok, hc, hct, Except.ok.injEq, exists_eq_left', hcandidate, hrows,
    hcurrent]
  refine exists_congr fun _ => and_congr_right fun _ => exists_congr fun _ =>
    and_congr_right fun _ => exists_congr fun cand => and_congr_right fun _ =>
    exists_congr fun sel => and_congr_right fun _ => exists_congr fun items =>
    and_congr_left' (gather_ok_congr fun r hr line => viewLine_same h ht habove hb ?_)
  exact viewRows_mem (List.mem_of_mem_filter (List.mem_of_mem_take (List.mem_of_mem_take hr)))

/-! ## Following a listing -/

variable {sel : Option SelectionLine}

inductive Listed [DecidableEq X] [DecidableEq P] [DecidableEq V] (g : Hashes X)
    (experimentId : String) (view : EvolutionView) (proposalId : Option String) :
    Option Bound → TrialDb X P V → List EvolutionPage → Prop
  | last {db : TrialDb X P V} {cursor : Option Bound} {limit : ℕ} {page : EvolutionPage}
      (h : evolutionPage g db experimentId view limit proposalId cursor = .ok page)
      (hend : page.nextCursor = none) : Listed g experimentId view proposalId cursor db [page]
  | more {db t : TrialDb X P V} {cursor : Option Bound} {limit : ℕ} {page : EvolutionPage}
      {next : Bound} {pages : List EvolutionPage}
      (h : evolutionPage g db experimentId view limit proposalId cursor = .ok page)
      (hnext : page.nextCursor = some next) (hlater : Later g db t)
      (rest : Listed g experimentId view proposalId (some next) t pages) :
      Listed g experimentId view proposalId cursor db (page :: pages)

def startBound (db : TrialDb X P V) (experimentId : String) (view : EvolutionView)
    (proposalId : Option String) : Bound :=
  ⟨experimentId, view, proposalId, 0, (db.records.map Record.sequence).foldr max 0,
    (db.events.map Event.sequence).foldr max 0⟩

theorem viewRows_ordered (h : Lawful g db) :
    (viewRows db experimentId view through cand).Pairwise fun r s => r.sequence < s.sequence :=
  ((h.ordered.imp And.right).filter _).filter _

theorem Paged.snapshot_lines (h : Lawful g db) (hgrown : Grown g db t)
    (hc : c.Within db) {sel' : Option SelectionLine} {items : List EvolutionLine}
    (hp : Paged g t experimentId view limit proposalId (some c) b cand sel' items page)
    (hsel : currentLine g db experimentId c.recordsThrough = .ok sel) :
    b = c ∧ cand = proposalId.map (g.identity experimentId "candidate") ∧ sel' = sel ∧
      gather (viewLine g db experimentId cand c sel)
        ((afterKey Record.sequence (viewRows db experimentId view c.recordsThrough cand)
          c.after).take limit) = .ok items ∧ viewRows t experimentId view c.recordsThrough cand
        = viewRows db experimentId view c.recordsThrough cand := by
  have habove := hgrown.above
  have ht := h.grown hgrown
  obtain ⟨-, -, hsame⟩ := bounds_ok hp.bound
  obtain rfl := hsame c rfl
  have hrows : viewRows t experimentId view b.recordsThrough cand
      = viewRows db experimentId view b.recordsThrough cand := habove.viewRows hc.records
  have hcurrent : sel' = sel := by
    have := hp.current
    rw [currentLine_same h ht habove hc.records, hsel] at this
    exact (Except.ok.inj this).symm
  refine ⟨rfl, viewCandidate_ok hp.candidate, hcurrent, ?_, hrows⟩
  have hlines := hp.lines
  rw [hrows, hcurrent] at hlines
  rwa [gather_ok_congr fun r hr line => viewLine_same h ht habove hc ?_] at hlines
  exact viewRows_mem (List.mem_of_mem_filter (List.mem_of_mem_take hr))

variable {pages : List EvolutionPage}

theorem listed_rest [DecidableEq X] [DecidableEq P] [DecidableEq V] (h : Lawful g db)
    (hc : c.Within db)
    (hl : Listed g experimentId view proposalId (some c) t pages) (hgrown : Grown g db t)
    (hsel : currentLine g db experimentId c.recordsThrough = .ok sel) :
    gather (viewLine g db experimentId (proposalId.map (g.identity experimentId "candidate")) c sel)
        (afterKey Record.sequence (viewRows db experimentId view c.recordsThrough
          (proposalId.map (g.identity experimentId "candidate"))) c.after)
        = .ok (pages.flatMap EvolutionPage.items) ∧
      ∀ p ∈ pages, p.total = (viewRows db experimentId view c.recordsThrough
          (proposalId.map (g.identity experimentId "candidate"))).length ∧
        p.selection = sel ∧ p.recordsThrough = c.recordsThrough ∧
        p.eventsThrough = c.eventsThrough := by
  generalize hcursor : some c = cursor at hl
  induction hl generalizing c with
  | @last t cursor limit page hpage hend =>
      subst hcursor
      obtain ⟨b, cand, sel', items, hp⟩ := evolutionPage_ok.mp hpage
      obtain ⟨rfl, rfl, rfl, hlines, hrows⟩ := hp.snapshot_lines h hgrown hc hsel
      have hnext := hp.next
      rw [hend, hrows] at hnext
      have hshort : ¬ limit < (afterKey Record.sequence (viewRows db experimentId view
          b.recordsThrough (proposalId.map (g.identity experimentId "candidate"))) b.after).length := by
        intro hmore
        rw [if_pos hmore, List.getElem?_eq_getElem (by omega)] at hnext
        exact absurd hnext nofun
      rw [List.take_of_length_le (by omega)] at hlines
      refine ⟨by simpa [hp.shown] using hlines, ?_⟩
      intro p hmem
      rw [List.mem_singleton.mp hmem, hp.total, hrows]
      exact ⟨rfl, hp.selection, hp.snapshot⟩
  | @more t u cursor limit page next pages hpage hnext hlater rest ih =>
      subst hcursor
      obtain ⟨b, cand, sel', items, hp⟩ := evolutionPage_ok.mp hpage
      obtain ⟨rfl, rfl, rfl, hlines, hrows⟩ := hp.snapshot_lines h hgrown hc hsel
      have hpos := hp.limits.1
      have hcut := hp.next
      rw [hnext, hrows] at hcut
      split at hcut
      · next hmore =>
          rw [List.getElem?_eq_getElem (by omega), Option.map_some, Option.some_inj] at hcut
          obtain ⟨hrest, hpages⟩ := ih (c := next) (by rw [hcut]; exact ⟨hc.records, hc.events⟩)
            (hgrown.trans hlater.grown) (by rw [hcut]; exact hsel) rfl
          subst hcut
          have hlast : limit - 1 < (afterKey Record.sequence (viewRows db experimentId view
              b.recordsThrough (proposalId.map (g.identity experimentId "candidate")))
              b.after).length := by omega
          have hleft := afterKey_next (viewRows_ordered h) (List.getElem?_eq_getElem hlast)
          rw [Nat.sub_add_cancel hpos] at hleft
          rw [hleft] at hrest
          refine ⟨?_, ?_⟩
          · rw [← List.take_append_drop limit (afterKey _ _ b.after), List.flatMap_cons, hp.shown,
              gather_ok]
            exact List.rel_append (gather_ok.mp hlines) (gather_ok.mp hrest)
          · intro p hmem
            rcases List.mem_cons.mp hmem with rfl | hmem
            · rw [hp.total, hrows]
              exact ⟨rfl, hp.selection, hp.snapshot⟩
            · exact hpages p hmem
      · exact absurd hcut nofun

/-! ## Listing from the start -/

theorem bounds_start :
    bounds db experimentId view proposalId (some (startBound db experimentId view proposalId))
      = bounds db experimentId view proposalId none := by
  simp [bounds, startBound, refuse, bind, Except.bind, pure, Except.pure]

theorem listed_start [DecidableEq X] [DecidableEq P] [DecidableEq V]
    (hl : Listed g experimentId view proposalId none db pages) :
    Listed g experimentId view proposalId (some (startBound db experimentId view proposalId)) db
      pages := by
  have hsame : ∀ limit, evolutionPage g db experimentId view limit proposalId
        (some (startBound db experimentId view proposalId))
      = evolutionPage g db experimentId view limit proposalId none := by
    intro limit
    rw [evolutionPage, evolutionPage, bounds_start]
  cases hl with
  | last hpage hend => exact .last ((hsame _).trans hpage) hend
  | more hpage hnext hlater rest => exact .more ((hsame _).trans hpage) hnext hlater rest

theorem sequence_pos (h : Lawful g db) {r : TrialRecord X} (hr : r ∈ db.records) :
    0 < r.sequence := by
  obtain ⟨n, hn⟩ := List.mem_iff_getElem?.mp hr
  obtain ⟨u, -, hadmitted⟩ := h.admitted n r hn
  rw [hadmitted.next, nextSequence]
  exact Nat.succ_pos _

theorem afterKey_start (h : Lawful g db) :
    afterKey Record.sequence (viewRows db experimentId view through cand) 0
      = viewRows db experimentId view through cand :=
  List.filter_eq_self.mpr fun r hr => by simpa using sequence_pos h (viewRows_mem hr)

/-! ## The moment of a snapshot -/

theorem Grown.once (h : Grown g db t) (honce : db.WritesOnce) : t.WritesOnce := by
  refine h.keeps (fun {t u} hchange ht => ?_) honce
  cases hchange with
  | same _ hevents =>
      intro e he
      exact ht e (hevents ▸ he)
  | add _ _ hevents =>
      intro e he
      exact ht e (hevents ▸ he)
  | event hc =>
      have happended := hc.appended Db.restrained_pure
      intro e he
      rw [happended.events] at he
      rcases List.mem_append.mp he with he | he
      · exact ht e he
      · rw [List.mem_singleton.mp he]
        exact happended.once

theorem Reached.once [DecidableEq X] [DecidableEq P] [DecidableEq V] (h : Reached g db) :
    db.WritesOnce := by
  obtain ⟨experiments, hlater⟩ := h
  exact hlater.grown.once fun e he => absurd he List.not_mem_nil

theorem updates_named {updates : List (ProjectionUpdate V)}
    (h : (updates.map ProjectionUpdate.name).Nodup) {u : ProjectionUpdate V} (hu : u ∈ updates) :
    updates.filter (fun x => x.name == u.name) = [u] := by
  induction updates with
  | nil => cases hu
  | cons v l ih =>
      obtain ⟨hv, hl⟩ := List.nodup_cons.mp h
      rcases List.mem_cons.mp hu with rfl | hu
      · have hnil : l.filter (fun x => x.name == u.name) = [] := by
          rw [List.filter_eq_nil_iff]
          intro x hx heq
          exact hv (List.mem_map.mpr ⟨x, hx, by simpa using heq⟩)
        rw [List.filter_cons_of_pos (by simp), hnil]
      · have hne : v.name ≠ u.name := fun heq => hv (List.mem_map.mpr ⟨u, hu, heq.symm⟩)
        rw [List.filter_cons_of_neg (by simpa using hne), ih hl hu]

theorem statusThrough_now [DecidableEq V] (honce : db.WritesOnce) {testId : String} {s : Status}
    (hs : db.status testId = .ok s) :
    statusThrough db testId ((db.events.map Event.sequence).foldr max 0) = .ok s := by
  have hfilter : db.events.filter (statusEvent testId ((db.events.map Event.sequence).foldr max 0))
      = db.events.filter (Db.writes testId "status") := by
    refine List.filter_congr fun e he => ?_
    have := le_ceiling (List.mem_map_of_mem (f := Event.sequence) he)
    simp [statusEvent, Db.writes, this]
  have hlatest : ((db.events.filter (Db.writes testId "status")).map Event.sequence).max?
      = db.latest testId "status" := rfl
  rw [statusThrough, hfilter, hlatest]
  simp only [Db.status, bind_ok] at hs
  obtain ⟨-, -, projection, hprojection, hvalue⟩ := hs
  unfold Db.projection at hprojection
  split at hprojection
  · simp only [bind_ok, refuse_ok, pure_ok, Option.not_isSome_iff_eq_none] at hprojection
    obtain ⟨-, hnone, rfl⟩ := hprojection
    rw [hnone]
    exact hvalue
  · next row _ =>
      simp only [bind_ok, refuse_ok, pure_ok, not_or, not_not] at hprojection
      obtain ⟨-, hsequence, e, he, -, ⟨htest, u, hu, hname, hstatus⟩, rfl⟩ := hprojection
      rw [← hsequence]
      obtain ⟨sequence, value⟩ := row
      dsimp only at he hstatus ⊢
      subst hstatus
      have honly := updates_named (honce e (List.mem_of_find?_eq_some (need_ok.mp he))) hu
      rw [hname] at honly
      obtain ⟨name, expected, value⟩ := u
      cases value with
      | data _ => cases hvalue
      | status s' reason =>
          simp only [he, honly, bind, Except.bind]
          rw [refuse, if_neg (by simpa using htest)]
          exact hvalue

/-! ## What a line is of -/

def EvolutionLine.identity : EvolutionLine → RecordIdentity
  | .tree line => line.identity
  | .test line => line.identity
  | .comparison line => line.identity
  | .selection line => line.identity

theorem viewLine_identity (h : Lawful g db) {r : TrialRecord X} (hr : r ∈ db.records)
    {line : EvolutionLine} (hline : viewLine g db experimentId cand b sel r = .ok line) :
    line.identity = identityOf g r := by
  rw [viewLine, h.read ⟨hr, rfl⟩] at hline
  simp only [bind, Except.bind] at hline
  split at hline
  · obtain ⟨l, hl, rfl⟩ := map_ok.mp hline
    simp only [treeLine, boundCandidate, candidateProposal, h.read ⟨hr, rfl⟩, bind_ok, need_ok,
      refuse_ok, pure_ok, Except.ok.injEq, exists_eq_left'] at hl
    obtain ⟨⟨s, p, parent⟩, ⟨⟨s', p'⟩, ⟨_, _, q, _, hs'⟩, _, _, _, _, _, _, _, _, hs⟩, _, _, rfl⟩ :=
      hl
    simp only [Prod.mk.injEq] at hs' hs
    rw [← hs.1, ← hs'.1]
    rfl
  · obtain ⟨l, hl, rfl⟩ := map_ok.mp hline
    simp only [testLine, bind_ok, pure_ok] at hl
    obtain ⟨_, _, _, _, _, _, _, _, _, _, _, _, rfl⟩ := hl
    rfl
  · obtain ⟨l, hl, rfl⟩ := map_ok.mp hline
    simp only [comparisonLine, bind_ok, pure_ok] at hl
    obtain ⟨_, _, _, _, _, _, _, _, rfl⟩ := hl
    rfl
  · obtain ⟨l, hl, rfl⟩ := map_ok.mp hline
    simp only [selectionLine, bind_ok, pure_ok] at hl
    obtain ⟨_, _, _, _, _, _, _, _, rfl⟩ := hl
    rfl

/-! ## Issued cursors -/

theorem bounds_request (hok : bounds db experimentId view proposalId (some c) = .ok b) :
    c.experimentId = experimentId ∧ c.view = view ∧ c.proposalId = proposalId := by
  simp only [bounds, bind_ok, refuse_ok, not_or, not_not] at hok
  obtain ⟨-, ⟨hexperiment, hview, hproposal, -⟩, -⟩ := hok
  exact ⟨hexperiment, hview, hproposal⟩

theorem Paged.issued {next : Bound} {items : List EvolutionLine}
    (hp : Paged g db experimentId view limit proposalId cursor b cand sel items page)
    (hnext : page.nextCursor = some next) :
    ∃ after, after ≤ b.recordsThrough ∧ next = { b with after := after } := by
  have hcut := hp.next
  rw [hnext] at hcut
  split at hcut
  · obtain ⟨r, hr, hcursor⟩ := Option.map_eq_some_iff.mp hcut.symm
    refine ⟨r.sequence, ?_, hcursor.symm⟩
    have hrow := List.mem_of_mem_filter (List.mem_of_getElem? hr)
    have hwithin := (List.mem_filter.mp (List.mem_of_mem_filter hrow)).2
    simp only [decide_eq_true_eq] at hwithin
    exact hwithin.2.2.1
  · exact absurd hcut nofun

theorem bounds_issued {after : ℕ} (hok : bounds db experimentId view proposalId cursor = .ok b)
    (hafter : after ≤ b.recordsThrough) :
    bounds db experimentId view proposalId (some { b with after := after })
      = .ok { b with after := after } := by
  obtain ⟨hb, -, -⟩ := bounds_ok hok
  have hrequest : b.experimentId = experimentId ∧ b.view = view ∧ b.proposalId = proposalId := by
    cases cursor with
    | none =>
        obtain rfl := pure_ok.mp hok
        exact ⟨rfl, rfl, rfl⟩
    | some c =>
        obtain ⟨-, -, hsame⟩ := bounds_ok hok
        rw [hsame c rfl]
        exact bounds_request hok
  obtain ⟨hexperiment, hview, hproposal⟩ := hrequest
  simp only [bounds, bind_ok, refuse_ok, pure_ok, not_or, not_not]
  exact ⟨(), ⟨hexperiment, hview, hproposal, ⟨hafter, hb.records⟩, hb.events⟩, trivial⟩

/-! ## Snapshots -/

theorem listed_current [DecidableEq X] [DecidableEq P] [DecidableEq V]
    (hl : Listed g experimentId view proposalId none db pages) :
    ∃ sel, currentLine g db experimentId ((db.records.map Record.sequence).foldr max 0)
      = .ok sel := by
  have hpage : ∃ limit page,
      evolutionPage g db experimentId view limit proposalId none = .ok page := by
    cases hl with
    | last hpage => exact ⟨_, _, hpage⟩
    | more hpage => exact ⟨_, _, hpage⟩
  obtain ⟨limit, page, hpage⟩ := hpage
  obtain ⟨b, _, sel, _, hp⟩ := evolutionPage_ok.mp hpage
  have hcurrent := hp.current
  rw [← pure_ok.mp hp.bound] at hcurrent
  exact ⟨sel, hcurrent⟩

/-- A cursor that a store issued shows the same on every store it becomes.
The pages of one listing, whatever is written between them, are together the
lines of the rows of the store the listing started on, in the order of the
records: with the statuses, the results and the selection of that store. -/
theorem evolution_pages_snapshot [DecidableEq X] [DecidableEq P] [DecidableEq V]
    (h : Reached g db) (experimentId : String) (view : EvolutionView)
    (proposalId : Option String) :
    (∀ limit cursor page next,
      evolutionPage g db experimentId view limit proposalId cursor = .ok page →
      page.nextCursor = some next → ∀ t, Later g db t →
      ∀ experimentId' view' limit' proposalId' shown,
        evolutionPage g t experimentId' view' limit' proposalId' (some next) = .ok shown ↔
          evolutionPage g db experimentId' view' limit' proposalId' (some next) = .ok shown) ∧
    (∀ pages, Listed g experimentId view proposalId none db pages →
      let start := startBound db experimentId view proposalId
      let cand := proposalId.map (g.identity experimentId "candidate")
      let rows := viewRows db experimentId view start.recordsThrough cand
      ∃ sel, currentLine g db experimentId start.recordsThrough = .ok sel ∧
        gather (viewLine g db experimentId cand start sel) rows
          = .ok (pages.flatMap EvolutionPage.items) ∧
        (pages.flatMap EvolutionPage.items).map EvolutionLine.identity
          = rows.map (identityOf g) ∧
        rows.Pairwise (fun r s => r.sequence < s.sequence) ∧
        (∀ t, Later g db t → viewRows t experimentId view start.recordsThrough cand = rows) ∧
        (∀ testId s, db.status testId = .ok s →
          statusThrough db testId start.eventsThrough = .ok s) ∧
        ∀ p ∈ pages, p.total = rows.length ∧ p.selection = sel ∧
          p.recordsThrough = start.recordsThrough ∧ p.eventsThrough = start.eventsThrough) := by
  have hlawful := h.lawful
  constructor
  · intro limit cursor page next hpage hnext t hlater experimentId' view' limit' proposalId' shown
    have habove := hlater.grown.above
    have ht := hlawful.later hlater
    obtain ⟨b, cand, sel, items, hp⟩ := evolutionPage_ok.mp hpage
    have hthere := viewCandidate_there hp.candidate
    obtain ⟨after, hafter, rfl⟩ := hp.issued hnext
    have hissued := bounds_issued hp.bound hafter
    obtain ⟨rfl, rfl, rfl⟩ := bounds_request hissued
    -- A request the cursor was not issued for is refused.
    have hmatch : ∀ {u : TrialDb X P V}, evolutionPage g u experimentId' view' limit' proposalId'
        (some { b with after := after }) = .ok shown →
        b.experimentId = experimentId' ∧ b.view = view' ∧ b.proposalId = proposalId' := by
      intro u hu
      obtain ⟨_, _, _, _, hp'⟩ := evolutionPage_ok.mp hu
      exact bounds_request (c := { b with after := after }) hp'.bound
    have hsame : evolutionPage g t b.experimentId b.view limit' b.proposalId
          (some { b with after := after }) = .ok shown
        ↔ evolutionPage g db b.experimentId b.view limit' b.proposalId
          (some { b with after := after }) = .ok shown :=
      evolutionPage_same hlawful ht habove hissued hthere
    constructor
    · intro hshown
      obtain ⟨rfl, rfl, rfl⟩ := hmatch hshown
      exact hsame.mp hshown
    · intro hshown
      obtain ⟨rfl, rfl, rfl⟩ := hmatch hshown
      exact hsame.mpr hshown
  · intro pages hl start cand rows
    have hstart : start.Within db := ⟨le_rfl, le_rfl⟩
    obtain ⟨sel, hsel⟩ := listed_current hl
    obtain ⟨hlines, hpages⟩ := listed_rest hlawful hstart (listed_start hl) .refl hsel
    have hafter : start.after = 0 := rfl
    rw [hafter, afterKey_start hlawful] at hlines
    refine ⟨sel, hsel, hlines, ?_, viewRows_ordered hlawful,
      fun t hlater => hlater.grown.above.viewRows le_rfl,
      fun testId s hs => statusThrough_now h.once hs, hpages⟩
    exact gather_map hlines fun r hr line hline => viewLine_identity hlawful (viewRows_mem hr) hline

/-- The tests of a proposal, listed one at a time while they are run. -/
theorem evolution_pages_snapshot_sample :
    ∃ next, ((evolutionPage sampleHashes (sampleRegistered true) "e" .tests 1 (some "b")
        none).toOption.bind EvolutionPage.nextCursor) = some next ∧
      ∀ shown, evolutionPage sampleHashes (sampleRun true) "e" .tests 1 (some "b") (some next)
          = .ok shown ↔
        evolutionPage sampleHashes (sampleRegistered true) "e" .tests 1 (some "b") (some next)
          = .ok shown := by
  have hfirst : ((evolutionPage sampleHashes (sampleRegistered true) "e" .tests 1 (some "b")
      none).toOption.bind EvolutionPage.nextCursor).isSome = true := by decide +kernel
  have hrun : Later sampleHashes (sampleRegistered true) (sampleRun true) :=
    runSamples_later (by decide +kernel)
  obtain ⟨next, hnext⟩ := Option.isSome_iff_exists.mp hfirst
  refine ⟨next, hnext, fun shown => ?_⟩
  obtain ⟨page, hpage, hissued⟩ := Option.bind_eq_some_iff.mp hnext
  exact (evolution_pages_snapshot (sampleRegistered_reached true) "e" .tests (some "b")).1 1 none
    page next (mem_toOption.mp hpage) hissued _ hrun _ _ _ _ _

end Ahunter.Trials
