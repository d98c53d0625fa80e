import Ahunter.Proofs.Snapshots

/-!
# Hidden detail

What an optimizer is given depends on what hidden records hold only through
the roles they show: two stores that agree on everything else give the same
answers (`Alike`, `SameRoles`). An owner is given hidden detail from a store
that already holds the exposure record of the release, and a holdout that
was exposed once stays exposed.
-/

namespace Ahunter.Trials

open Ahunter.Lib Ahunter.Records
open Ahunter.Sim (Date)

variable {X P V : Type} {g : Hashes X} {db db' t : TrialDb X P V} {host host' : TrialHost X}

/-! ## Roles -/

variable {found : List Scope}

theorem mem_scopeRoles {role : Option Role} :
    role ∈ scopeRoles found ↔ ∃ s ∈ found, s.role = role := by
  rw [scopeRoles, List.mem_filter, List.any_eq_true]
  simp only [beq_iff_eq]
  refine and_iff_right_of_imp fun _ => ?_
  rcases role with - | role
  · simp
  · cases role <;> simp

theorem hidden_roles : hidden found = (scopeRoles found).any fun role => role != some .tuning := by
  rw [Bool.eq_iff_iff, hidden, List.any_eq_true, List.any_eq_true]
  constructor
  · rintro ⟨s, hs, hrole⟩
    exact ⟨s.role, mem_scopeRoles.mpr ⟨s, hs, rfl⟩, hrole⟩
  · rintro ⟨role, hmem, hrole⟩
    obtain ⟨s, hs, rfl⟩ := mem_scopeRoles.mp hmem
    exact ⟨s, hs, hrole⟩

theorem scopeRoles_nil : found = [] ↔ scopeRoles found = [] := by
  constructor
  · rintro rfl
    rfl
  · intro h
    by_contra hne
    obtain ⟨s, rest, rfl⟩ := List.exists_cons_of_ne_nil hne
    have hmem : s.role ∈ scopeRoles (s :: rest) := mem_scopeRoles.mpr ⟨s, List.mem_cons_self, rfl⟩
    rw [h] at hmem
    cases hmem

theorem closed_roles :
    (found = [] ∨ ∃ s ∈ found, s.role ∉ [some Role.tuning, some .selectionValidation])
      ↔ scopeRoles found = [] ∨
        ∃ role ∈ scopeRoles found, role ∉ [some Role.tuning, some .selectionValidation] := by
  refine or_congr scopeRoles_nil ⟨?_, ?_⟩
  · rintro ⟨s, hs, hrole⟩
    exact ⟨s.role, mem_scopeRoles.mpr ⟨s, hs, rfl⟩, hrole⟩
  · rintro ⟨role, hmem, hrole⟩
    obtain ⟨s, hs, rfl⟩ := mem_scopeRoles.mp hmem
    exact ⟨s, hs, hrole⟩

/-! ## Stores that differ in what is hidden -/

def hiddenRecord (g : Hashes X) (db : TrialDb X P V) (recordId : String) : Bool :=
  match scopes g db recordId with
  | .ok found => hidden found
  | .error _ => false

def artifactsOf (r : TrialRecord X) : List String :=
  r.artifactHashes ++ r.sourcePolicyHashes ++ match r.value with
    | .data (.sourceDocument document) => [document.contentHash]
    | _ => []

structure SameRow (g : Hashes X) (db db' : TrialDb X P V) (r r' : TrialRecord X) : Prop where
  recordId : r.recordId = r'.recordId
  experimentId : r.experimentId = r'.experimentId
  kind : r.kind = r'.kind
  links : r.links = r'.links
  sequence : r.sequence = r'.sequence
  createdAt : r.createdAt = r'.createdAt
  summary : completedSummary r = completedSummary r'
  shown : hiddenRecord g db r.recordId = false ∨ hiddenRecord g db' r.recordId = false → r = r'

/-- Two worlds that differ only in the contents, events and artifact bytes of
hidden records. -/
structure Alike (g : Hashes X) (host host' : TrialHost X) (db db' : TrialDb X P V)
    [DecidableEq V] : Prop where
  records : List.Forall₂ (SameRow g db db') db.records db'.records
  now : host.now = host'.now
  status : ∀ r ∈ db.records, r.kind = .test → db.status r.recordId = db'.status r.recordId
  events : ∀ r ∈ db.records,
    hiddenRecord g db r.recordId = false ∨ hiddenRecord g db' r.recordId = false →
      (db.events.filter fun e => e.testId = r.recordId)
        = db'.events.filter fun e => e.testId = r.recordId
  artifacts : ∀ r ∈ db.records,
    hiddenRecord g db r.recordId = false ∨ hiddenRecord g db' r.recordId = false →
      ∀ h ∈ artifactsOf r, host.artifacts h = host'.artifacts h

def SameRoles (g : Hashes X) (db db' : TrialDb X P V) : Prop :=
  ∀ r ∈ db.records, scopeRoles <$> scopes g db r.recordId = scopeRoles <$> scopes g db' r.recordId

variable {id : String}

theorem scopes_missing {e : Failure} (h : db.read id = .error e) : scopes g db id = .error e := by
  rw [scopes, scopesFrom, h]
  rfl

namespace Alike

variable [DecidableEq V]

theorem read (h : Alike g host host' db db') (id : String) :
    (∃ e, db.read id = .error e ∧ db'.read id = .error e) ∨
      ∃ r r', db.read id = .ok r ∧ db'.read id = .ok r' ∧ r ∈ db.records ∧ r.recordId = id ∧
        SameRow g db db' r r' := by
  have hfind := find_rel (p := fun r => decide (r.recordId = id))
    (q := fun r => decide (r.recordId = id)) h.records fun r r' hrow => by rw [hrow.recordId]
  rw [Db.read, Db.read]
  cases hdb : db.records.find? fun r => decide (r.recordId = id) with
  | none =>
      rw [hdb] at hfind
      cases hdb' : db'.records.find? fun r => decide (r.recordId = id) with
      | none => exact .inl ⟨_, rfl, rfl⟩
      | some r' => rw [hdb'] at hfind; cases hfind
  | some r =>
      rw [hdb] at hfind
      cases hdb' : db'.records.find? fun r => decide (r.recordId = id) with
      | none => rw [hdb'] at hfind; cases hfind
      | some r' =>
          rw [hdb'] at hfind
          cases hfind with
          | some hrow =>
              exact .inr ⟨r, r', rfl, rfl, List.mem_of_find?_eq_some hdb,
                by simpa using List.find?_some hdb, hrow⟩

theorem scopes (h : Alike g host host' db db') (hroles : SameRoles g db db') (id : String) :
    (∃ e, Trials.scopes g db id = .error e ∧ Trials.scopes g db' id = .error e) ∨
      ∃ found found', Trials.scopes g db id = .ok found ∧ Trials.scopes g db' id = .ok found' ∧
        scopeRoles found = scopeRoles found' := by
  rcases h.read id with ⟨e, hr, hr'⟩ | ⟨r, r', -, -, hmem, rfl, -⟩
  · exact .inl ⟨e, scopes_missing hr, scopes_missing hr'⟩
  · have hsame := hroles r hmem
    cases hdb : Trials.scopes g db r.recordId with
    | error e =>
        rw [hdb] at hsame
        cases hdb' : Trials.scopes g db' r.recordId with
        | error e' => rw [hdb'] at hsame; cases hsame; exact .inl ⟨e, rfl, rfl⟩
        | ok found' => rw [hdb'] at hsame; cases hsame
    | ok found =>
        rw [hdb] at hsame
        cases hdb' : Trials.scopes g db' r.recordId with
        | error e' => rw [hdb'] at hsame; cases hsame
        | ok found' =>
            rw [hdb'] at hsame
            exact .inr ⟨found, found', rfl, rfl, Except.ok.inj hsame⟩

end Alike

/-! ## What an optimizer is given -/

namespace Alike

variable [DecidableEq V]

theorem shown (h : Alike g host host' db db') {id : String}
    (hshown : hiddenRecord g db id = false) : db.read id = db'.read id := by
  rcases h.read id with ⟨e, hr, hr'⟩ | ⟨r, r', hr, hr', -, rfl, hrow⟩
  · rw [hr, hr']
  · rw [hr, hr', hrow.shown (.inl hshown)]

section Optimizer

variable [DecidableEq X]

theorem released (h : Alike g host host' db db') (hroles : SameRoles g db db') {α : Type}
    {id : String} {audit : Option String} {action : Action} {read read' : TrialDb X P V → Attempt α}
    (hread : ∀ r ∈ db.records, r.recordId = id → hiddenRecord g db id = false →
      db.read id = .ok r → db'.read id = .ok r → read db = read' db') :
    (Trials.released (authorize g host .optimizer id audit action) read db).1
      = (Trials.released (authorize g host' .optimizer id audit action) read' db').1 := by
  rw [Trials.released, Trials.released, authorize, authorize]
  rcases h.scopes hroles id with ⟨e, hs, hs'⟩ | ⟨found, found', hs, hs', hsame⟩
  · rw [hs, hs']
  · have hhidden : hidden found' = hidden found := by rw [hidden_roles, hidden_roles, hsame]
    rw [hs, hs']
    dsimp only
    rw [hhidden]
    by_cases hcase : hidden found = false
    · rw [if_pos hcase, if_pos hcase]
      rcases h.read id with ⟨e, hr, -⟩ | ⟨r, r', hr, hr', hmem, hid, hrow⟩
      · rw [scopes_missing hr] at hs
        cases hs
      · have hshown : hiddenRecord g db id = false := by rw [hiddenRecord, hs]; exact hcase
        have hequal : r = r' := hrow.shown (.inl (hid ▸ hshown))
        subst hequal
        exact hread r hmem hid hshown hr hr'
    · rw [if_neg hcase, if_neg hcase, if_pos (by decide), if_pos (by decide)]

end Optimizer

theorem describeSource (h : Alike g host host' db db') {r : TrialRecord X} (hmem : r ∈ db.records)
    (hshown : hiddenRecord g db r.recordId = false) (hr : db.read r.recordId = .ok r)
    (hr' : db'.read r.recordId = .ok r) :
    Trials.describeSource host db r.recordId = Trials.describeSource host' db' r.recordId := by
  have hgone : (db.records.any fun s =>
        s.kind == .sourceExpiration && s.links.contains ⟨"source", r.recordId⟩)
      = db'.records.any fun s =>
        s.kind == .sourceExpiration && s.links.contains ⟨"source", r.recordId⟩ :=
    any_rel h.records fun a b hrow => by rw [hrow.kind, hrow.links]
  rw [Trials.describeSource, Trials.describeSource, hr, hr', hgone, h.now]
  simp only [bind, Except.bind]
  cases hvalue : r.value with
  | attempt _ => rfl
  | data entry =>
      cases entry with
      | sourceDocument document =>
          have hbytes : host.artifacts document.contentHash
              = host'.artifacts document.contentHash := by
            refine h.artifacts r hmem (.inl hshown) _ ?_
            rw [artifactsOf, hvalue]
            simp
          simp only [hbytes]
      | _ => rfl

theorem readSource (h : Alike g host host' db db') {r : TrialRecord X} (hmem : r ∈ db.records)
    (hshown : hiddenRecord g db r.recordId = false) (hr : db.read r.recordId = .ok r)
    (hr' : db'.read r.recordId = .ok r) :
    Trials.readSource host db r.recordId = Trials.readSource host' db' r.recordId := by
  rw [Trials.readSource, Trials.readSource, ← h.describeSource hmem hshown hr hr']
  cases hview : Trials.describeSource host db r.recordId with
  | error e => rfl
  | ok view =>
      have hbytes : host.artifacts view.document.contentHash
          = host'.artifacts view.document.contentHash := by
        refine h.artifacts r hmem (.inl hshown) _ ?_
        simp only [Trials.describeSource, hr, bind_ok, refuse_ok, Except.ok.injEq,
          exists_eq_left'] at hview
        obtain ⟨-, -, hview⟩ := hview
        split at hview
        · next document hvalue =>
            rw [← pure_ok.mp hview, artifactsOf, hvalue]
            simp
        · cases hview
      simp only [Host.readJson, hbytes, bind, Except.bind]

variable [DecidableEq X]

theorem detail_same (h : Alike g host host' db db') (hroles : SameRoles g db db') (id : String)
    (audit : Option String) :
    (Trials.detail g host .optimizer id audit db).1
      = (Trials.detail g host' .optimizer id audit db').1 := by
  refine h.released hroles fun r hmem hid hshown hr hr' => ?_
  subst hid
  rw [hr, hr']
  simp only [bind, Except.bind, h.describeSource hmem hshown hr hr']

theorem events_same (h : Alike g host host' db db') (hroles : SameRoles g db db') (id : String)
    (after limit : ℕ) (audit : Option String) :
    (Trials.events g host .optimizer id after limit audit db).1
      = (Trials.events g host' .optimizer id after limit audit db').1 := by
  refine h.released hroles fun r hmem hid hshown hr hr' => ?_
  subst hid
  have hevents : (db.events.filter fun e => e.testId = r.recordId ∧ after < e.sequence)
      = db'.events.filter fun e => e.testId = r.recordId ∧ after < e.sequence := by
    have hsplit : ∀ l : List (Event P V),
        (l.filter fun e => e.testId = r.recordId ∧ after < e.sequence)
          = (l.filter fun e => e.testId = r.recordId).filter fun e => after < e.sequence := by
      intro l
      rw [List.filter_filter]
      exact List.filter_congr fun e _ => by rw [Bool.and_comm, Bool.decide_and]
    rw [hsplit, hsplit, h.events r hmem (.inl hshown)]
  rw [eventPage, eventPage, Db.test, Db.test, hr, hr', hevents]

omit [DecidableEq X] in
theorem hidden_same (h : Alike g host host' db db') (hroles : SameRoles g db db') (id : String) :
    hiddenRecord g db' id = hiddenRecord g db id := by
  rw [hiddenRecord, hiddenRecord]
  rcases h.scopes hroles id with ⟨e, hs, hs'⟩ | ⟨found, found', hs, hs', hsame⟩
  · rw [hs, hs']
  · rw [hs, hs']
    dsimp only
    rw [hidden_roles, hidden_roles, hsame]

omit [DecidableEq V] in
theorem artifact_refused {id contentHash : String} {audit : Option String}
    (hhidden : hiddenRecord g db id = true) (x : Artifact X) :
    (Trials.artifact g host .optimizer id contentHash audit db).1 ≠ .ok x := by
  rw [Trials.artifact]
  split
  · exact nofun
  · rw [Trials.released, authorize]
    rw [hiddenRecord] at hhidden
    cases hs : Trials.scopes g db id with
    | error e => exact nofun
    | ok found =>
        rw [hs] at hhidden
        dsimp only at hhidden ⊢
        rw [if_neg (by rw [hhidden]; decide), if_pos (by decide)]
        exact nofun

theorem artifact_same (h : Alike g host host' db db') (hroles : SameRoles g db db')
    (id contentHash : String) (audit : Option String) :
    (Trials.artifact g host .optimizer id contentHash audit db).1
        = (Trials.artifact g host' .optimizer id contentHash audit db').1 ∨
      (∀ x, (Trials.artifact g host .optimizer id contentHash audit db).1 ≠ .ok x) ∧
        ∀ x, (Trials.artifact g host' .optimizer id contentHash audit db').1 ≠ .ok x := by
  cases hhidden : hiddenRecord g db id with
  | true =>
      exact .inr ⟨artifact_refused hhidden,
        artifact_refused ((h.hidden_same hroles id).trans hhidden)⟩
  | false =>
      left
      have hfind := h.shown hhidden
      rw [Db.read, Db.read] at hfind
      have hsame : (db.records.find? fun r => r.recordId = id)
          = db'.records.find? fun r => r.recordId = id := by
        cases hdb : db.records.find? fun r => r.recordId = id with
        | none =>
            rw [hdb] at hfind
            cases hdb' : db'.records.find? fun r => r.recordId = id with
            | none => rfl
            | some r' => rw [hdb'] at hfind; cases hfind
        | some r =>
            rw [hdb] at hfind
            exact (need_ok.mp hfind.symm).symm
      rw [Trials.artifact, Trials.artifact, ← hsame]
      split
      · rfl
      · next retention hfound =>
          refine h.released hroles fun r hmem hid hshown hr hr' => ?_
          subst hid
          have hlinked : contentHash ∈ artifactsOf r := by
            rw [need_ok.mp hr, Option.bind_some, retention?] at hfound
            rw [artifactsOf, List.mem_append, List.mem_append]
            split at hfound
            · next hmem => exact .inl (.inl hmem)
            · split at hfound
              · next hmem => exact .inl (.inr hmem)
              · cases hfound
          rw [h.readSource hmem hshown hr hr', Host.readJson, Host.readJson,
            h.artifacts r hmem (.inl hshown) _ hlinked]

theorem export_same (h : Alike g host host' db db') (hroles : SameRoles g db db') (id : String)
    (audit : Option String) :
    (exportView g host .optimizer id audit db).1
      = (exportView g host' .optimizer id audit db').1 := by
  refine h.released hroles fun r hmem hid hshown hr hr' => ?_
  subst hid
  have hentry : ∀ entry ∈ (r.artifactHashes.map (fun hash => (hash, "permanent"))
        ++ r.sourcePolicyHashes.map fun hash => (hash, "source_policy")).insertionSort
          (fun a b => a.1 ≤ b.1),
      availability host db r.recordId entry = availability host' db' r.recordId entry := by
    intro entry hentry
    rw [List.mem_insertionSort, List.mem_append, List.mem_map, List.mem_map] at hentry
    have hlinked : entry.1 ∈ artifactsOf r := by
      rw [artifactsOf, List.mem_append, List.mem_append]
      rcases hentry with ⟨hash, hhash, rfl⟩ | ⟨hash, hhash, rfl⟩
      · exact .inl (.inl hhash)
      · exact .inl (.inr hhash)
    rw [availability, availability, h.describeSource hmem hshown hr hr',
      h.artifacts r hmem (.inl hshown) _ hlinked]
  rw [exportRecord, exportRecord, hr, hr']
  simp only [bind, Except.bind, gather_congr hentry]

/-! ## Listings -/

omit [DecidableEq X] in
theorem sequences_same (h : Alike g host host' db db') :
    db.records.map Record.sequence = db'.records.map Record.sequence :=
  map_rel h.records fun _ _ hrow => hrow.sequence

omit [DecidableEq X] in
theorem recordPage_same (h : Alike g host host' db db') (experimentId : String)
    (kind : Option RecordKind) (limit : ℕ) (cursor : Option Cursor) :
    (∃ e, recordPage db experimentId kind limit cursor = .error e ∧
        recordPage db' experimentId kind limit cursor = .error e) ∨
      ∃ page page', recordPage db experimentId kind limit cursor = .ok page ∧
        recordPage db' experimentId kind limit cursor = .ok page' ∧
        List.Forall₂ (fun r r' => r ∈ db.records ∧ SameRow g db db' r r') page.items page'.items ∧
        page.nextCursor = page'.nextCursor := by
  have hstart : listingStart db experimentId kind cursor
      = listingStart db' experimentId kind cursor := by
    cases cursor with
    | none => rw [listingStart, listingStart, h.sequences_same]
    | some c => rfl
  rw [recordPage, recordPage, hstart]
  rcases Decidable.em (limit = 0) with hlimit | hlimit
  · simp only [refuse, if_pos hlimit, bind, Except.bind]
    exact .inl ⟨_, rfl, rfl⟩
  · simp only [refuse, if_neg hlimit, bind, Except.bind]
    cases listingStart db' experimentId kind cursor with
    | error e => exact .inl ⟨e, rfl, rfl⟩
    | ok start =>
        have hall := (List.forall₂_and_left _ _).mpr ⟨fun r hr => hr, h.records⟩
        have hrows := List.forall₂_take (limit + 1) (filter_rel
          (p := fun r => decide (r.experimentId = experimentId ∧ (∀ k ∈ kind, r.kind = k)
            ∧ start.after < r.sequence ∧ r.sequence ≤ start.ceiling))
          (q := fun r => decide (r.experimentId = experimentId ∧ (∀ k ∈ kind, r.kind = k)
            ∧ start.after < r.sequence ∧ r.sequence ≤ start.ceiling)) hall fun a b hrow => by
              rw [hrow.2.experimentId, hrow.2.kind, hrow.2.sequence])
        refine .inr ⟨_, _, rfl, rfl, List.forall₂_take _ hrows, ?_⟩
        have hafter := map_rel (k := fun r => { start with after := r.sequence })
          (j := fun r => { start with after := r.sequence }) hrows fun a b hrow => by
            rw [hrow.2.sequence]
        dsimp only
        rw [hrows.length_eq, ← List.getElem?_map, ← List.getElem?_map, hafter]

omit [DecidableEq X] in
theorem overview_same (h : Alike g host host' db db') (hroles : SameRoles g db db')
    {r r' : TrialRecord X} (hmem : r ∈ db.records) (hrow : SameRow g db db' r r') :
    overview g db r = overview g db' r' := by
  have hstatus : r.kind = .test → db.status r.recordId = db'.status r.recordId := h.status r hmem
  rw [overview, overview, ← hrow.recordId, ← hrow.sequence, ← hrow.kind, ← hrow.createdAt]
  rcases h.scopes hroles r.recordId with ⟨e, hs, hs'⟩ | ⟨found, found', hs, hs', hsame⟩
  · rw [hs, hs']
    rfl
  · have hhidden : hidden found' = hidden found := by rw [hidden_roles, hidden_roles, hsame]
    rw [hs, hs']
    simp only [bind, Except.bind]
    by_cases htest : r.kind = .test
    · rw [if_pos htest, if_pos htest, hstatus htest, hsame, hhidden]
    · rw [if_neg htest, if_neg htest, hsame, hhidden]

omit [DecidableEq X] in
theorem page_same (h : Alike g host host' db db') (hroles : SameRoles g db db')
    (experimentId : String) (kind : RecordKind) (limit : ℕ) (cursor : Option Cursor) :
    page g db experimentId kind limit cursor = page g db' experimentId kind limit cursor := by
  rw [page, page]
  rcases h.recordPage_same experimentId (some kind) limit cursor with
    ⟨e, hp, hp'⟩ | ⟨found, found', hp, hp', hrows, hnext⟩
  · rw [hp, hp']
    rfl
  · rw [hp, hp']
    simp only [bind, Except.bind]
    rw [gather_rel hrows fun r r' hrow => h.overview_same hroles hrow.1 hrow.2, hnext]

/-! ## Feedback -/

omit [DecidableEq X] in
theorem comparisonFeedback_same (h : Alike g host host' db db') (hroles : SameRoles g db db')
    (id : String) : comparisonFeedback g db id = comparisonFeedback g db' id := by
  rw [comparisonFeedback, comparisonFeedback, requireComparisonScope, requireComparisonScope]
  rcases h.read id with ⟨e, hr, hr'⟩ | ⟨r, r', hr, hr', hmem, rfl, hrow⟩
  · rw [hr, hr']
    rfl
  · rw [hr, hr']
    simp only [bind, Except.bind]
    rw [hrow.kind]
    rcases Decidable.em (r'.kind ≠ .comparison) with hkind | hkind
    · simp only [refuse, if_pos hkind]
    · simp only [refuse, if_neg hkind]
      rcases h.scopes hroles r.recordId with ⟨e, hs, hs'⟩ | ⟨found, found', hs, hs', hsame⟩
      · rw [hs, hs']
      · have hclosed : (found = [] ∨ ∃ s ∈ found, s.role ∉ [some .tuning, some .selectionValidation])
            ↔ found' = [] ∨ ∃ s ∈ found', s.role ∉ [some .tuning, some .selectionValidation] := by
          rw [closed_roles, closed_roles, hsame]
        rw [hs, hs']
        simp only [hclosed]
        by_cases hcase : found' = [] ∨ ∃ s ∈ found', s.role ∉ [some .tuning, some .selectionValidation]
        · rw [if_pos hcase]
        · rw [if_neg hcase]
          simp only [pure, Except.pure, hrow.summary]

end Alike

/-! ## Releases -/

variable {action : Action}

def Exposes (r : TrialRecord X) (release : Release) : Prop :=
  exposure? r = some (.released release)

theorem put_stored [DecidableEq X] {q : Prepared (Entry X)} {r : TrialRecord X}
    (h : Db.put host q db = (.ok r, t)) : r ∈ t.records ∧ SameRequest r.toPrepared q := by
  unfold Db.put at h
  split at h
  · cases h
  · next p hprepare =>
      obtain ⟨hr, hleft⟩ := Db.insert_cases (transaction_ok h)
      refine ⟨?_, hr ▸ prepare_same hprepare⟩
      rcases hleft with ⟨rfl, hmem⟩ | ⟨rfl, -⟩
      · exact hmem
      · exact List.mem_append_right _ List.mem_cons_self

variable {viewer : Viewer} {audit : Option String}

theorem released_exposed [DecidableEq X] {α : Type} {read : TrialDb X P V → Attempt α} {a : α}
    (h : released (authorize g host viewer id audit action) read db = (.ok a, t))
    (hfound : scopes g db id = .ok found) (hhidden : hidden found = true) :
    viewer = .owner ∧ read t = .ok a ∧ ∃ r ∈ t.records, ∃ hash,
      Exposes r ⟨action, id, hash, found⟩ := by
  rw [released, authorize, hfound] at h
  dsimp only at h
  rw [if_neg (by rw [hhidden]; decide)] at h
  by_cases hviewer : viewer = .owner
  · rw [if_neg (not_not.mpr hviewer)] at h
    refine ⟨hviewer, ?_⟩
    split at h
    · cases h
    · next u hrelease =>
        obtain ⟨hread, rfl⟩ := Prod.mk.inj h
        refine ⟨hread, ?_⟩
        split at hrelease
        · cases hrelease
        · cases hrelease
        · split at hrelease
          · cases hrelease
          · next target htarget =>
              split at hrelease
              · cases hrelease
              · next r _ hput =>
                  obtain ⟨-, rfl⟩ := Prod.mk.inj hrelease
                  obtain ⟨hmem, hsame⟩ := put_stored hput
                  refine ⟨r, hmem, g.content target.value, ?_⟩
                  rw [Exposes, exposure?, hsame.kind, hsame.value, ← (At.read htarget).2]
                  rfl
  · rw [if_pos hviewer] at h
    cases h

/-! ## Reports -/

theorem gather_prefix {ε α β : Type} {f f' : α → Except ε β} {as as' : List α} {bs bs' : List β}
    (h : gather f as = .ok bs) (h' : gather f' (as ++ as') = .ok bs')
    (hf : ∀ a ∈ as, ∀ b, f a = .ok b → f' a = .ok b) : ∃ more, bs' = bs ++ more := by
  induction as generalizing bs bs' with
  | nil =>
      rw [gather_ok, List.forall₂_nil_left_iff] at h
      subst h
      exact ⟨bs', rfl⟩
  | cons a as ih =>
      simp only [gather, List.cons_append, bind_ok, pure_ok] at h h'
      obtain ⟨b, hb, rest, hrest, rfl⟩ := h
      obtain ⟨b', hb', rest', hrest', rfl⟩ := h'
      rw [hf a List.mem_cons_self b hb] at hb'
      cases hb'
      obtain ⟨more, rfl⟩ := ih hrest hrest' fun a ha => hf a (List.mem_cons_of_mem _ ha)
      exact ⟨more, rfl⟩

structure Reported (g : Hashes X) (db : TrialDb X P V) (definitionId : String)
    (definition : TrialRecord X) (sealed : ResolvedSpecification) (days rest : List Date)
    (weighed : List (TrialRecord X × Seen)) (tests : List (String × List Date))
    (report : HoldoutReport) : Prop where
  read : db.read definitionId = .ok definition
  typed : specification? definition = some sealed
  holdout : roleDates sealed.effective sealed (· == .finalHoldout) = .ok days
  others : roleDates sealed.effective sealed (· != .finalHoldout) = .ok rest
  seen : gather (fun e : TrialRecord X × Exposure => do
    let s ← weigh db days e.2
    pure (e.1, s)) (exposureRecords db) = .ok weighed
  trained : gather (fun testId => do
    let dates ← trainedOn g db days testId
    pure (testId, dates)) (startedTests db) = .ok tests
  dates : report.holdoutDates = days
  unseen : report.unseen = true ↔ (∀ d ∈ days, d ∉ rest) ∧
    (∀ s ∈ weighed, ∀ matched, s.2 = .dates matched → matched = []) ∧
    (∀ s ∈ weighed, s.2 ≠ .unresolved) ∧ ∀ t ∈ tests, t.2 = []

theorem holdoutExposure_ok {definitionId : String} {report : HoldoutReport}
    (h : holdoutExposure g db definitionId = .ok report) :
    ∃ definition sealed days rest weighed tests,
      Reported g db definitionId definition sealed days rest weighed tests report := by
  simp only [holdoutExposure, bind_ok, need_ok, refuse_ok, pure_ok] at h
  obtain ⟨definition, hread, sealed, htyped, spec, hverify, days, hdays, -, -, rest, hrest,
    weighed, hweighed, tests, htests, rfl⟩ := h
  obtain rfl := verifySpecification_ok hverify
  refine ⟨definition, sealed, days, rest, weighed, tests, hread, htyped, hdays, hrest, hweighed,
    htests, rfl, ?_⟩
  simp only [HoldoutReport.unseen, Bool.and_eq_true, List.isEmpty_iff, List.filter_eq_nil_iff,
    List.filterMap_eq_nil_iff, and_assoc, List.contains_iff_mem, Bool.not_eq_true',
    Bool.not_eq_false]
  refine and_congr_right fun _ => and_congr ?_ (and_congr ?_ ?_)
  · refine forall_congr' fun s => imp_congr_right fun _ => ?_
    cases s.2 with
    | metadata => simp
    | unresolved => simp
    | dates matched => simp
  · simp
  · simp

/-! ## What stays -/

section Stays

variable (habove : Above db t)

include habove

theorem cancellationMetadata_later {r : TrialRecord X} {b : Bool}
    (hok : cancellationMetadata db r = .ok b) : cancellationMetadata t r = .ok b := by
  rw [cancellationMetadata] at hok ⊢
  split at hok
  · split at hok
    · next hplain =>
        rw [if_pos hplain]
        exact hok
    · next hplain =>
        rw [if_neg hplain]
        simp only [bind_ok] at hok ⊢
        obtain ⟨test, htest, hrest⟩ := hok
        exact ⟨test, habove.read htest, hrest⟩
  · exact hok

theorem weigh_later {days : List Date} {e : Exposure} {s : Seen} (hok : weigh db days e = .ok s) :
    weigh t days e = .ok s := by
  have hmetadata : ∀ b, metadataRead db e = .ok b → metadataRead t e = .ok b := by
    intro b hb
    cases e with
    | declared periods note => exact hb
    | released release =>
        rw [metadataRead] at hb ⊢
        split at hb
        · next hreads =>
            rw [if_pos hreads]
            simp only [bind_ok] at hb ⊢
            obtain ⟨target, htarget, c, hc, hrest⟩ := hb
            exact ⟨target, habove.read htarget, c, cancellationMetadata_later habove hc, hrest⟩
        · next hreads =>
            rw [if_neg hreads]
            exact hb
  simp only [weigh, bind_ok] at hok ⊢
  obtain ⟨b, hb, hrest⟩ := hok
  exact ⟨b, hmetadata b hb, hrest⟩

theorem trainedOn_later {days dates : List Date} {testId : String}
    (hok : trainedOn g db days testId = .ok dates) : trainedOn g t days testId = .ok dates := by
  simp only [trainedOn, Db.test, definitionSpecification, bind_ok] at hok ⊢
  obtain ⟨r, ⟨r', hr', hkind⟩, hrest⟩ := hok
  refine ⟨r, ⟨r', habove.read hr', hkind⟩, ?_⟩
  split at hrest
  · exact hrest
  · simp only [bind_ok] at hrest ⊢
    obtain ⟨found, ⟨definition, hread, hsealed⟩, hlast⟩ := hrest
    exact ⟨found, ⟨definition, habove.read hread, hsealed⟩, hlast⟩

theorem exposureRecords_later : ∃ more, exposureRecords t = exposureRecords db ++ more := by
  obtain ⟨new, hnew, -⟩ := habove.records
  rw [exposureRecords, exposureRecords, hnew, List.filterMap_append]
  exact ⟨_, rfl⟩

theorem startedTests_later {testId : String} (hstarted : testId ∈ startedTests db) :
    testId ∈ startedTests t := by
  obtain ⟨new, hnew, -⟩ := habove.events
  rw [startedTests, List.mem_dedup] at hstarted ⊢
  rw [hnew, List.filter_append, List.map_append]
  exact List.mem_append_left _ hstarted

theorem seen_later {definitionId : String} {report report' : HoldoutReport}
    (hreport : holdoutExposure g db definitionId = .ok report)
    (hreport' : holdoutExposure g t definitionId = .ok report')
    (hseen : report.unseen = false) : report'.unseen = false := by
  obtain ⟨definition, sealed, days, rest, weighed, tests, hr⟩ := holdoutExposure_ok hreport
  obtain ⟨definition', sealed', days', rest', weighed', tests', hr'⟩ := holdoutExposure_ok hreport'
  obtain rfl : definition = definition' :=
    Except.ok.inj ((habove.read hr.read).symm.trans hr'.read)
  obtain rfl : sealed = sealed' := Option.some_inj.mp (hr.typed.symm.trans hr'.typed)
  obtain rfl : days = days' := Except.ok.inj (hr.holdout.symm.trans hr'.holdout)
  obtain rfl : rest = rest' := Except.ok.inj (hr.others.symm.trans hr'.others)
  rw [← Bool.not_eq_true, hr.unseen] at hseen
  rw [← Bool.not_eq_true, hr'.unseen]
  obtain ⟨more, hmore⟩ := exposureRecords_later habove
  have hweighed := hr'.seen
  rw [hmore] at hweighed
  obtain ⟨later, rfl⟩ := gather_prefix hr.seen hweighed fun e _ b hb => by
    simp only [bind_ok] at hb ⊢
    obtain ⟨s, hs, hb⟩ := hb
    exact ⟨s, weigh_later habove hs, hb⟩
  have htests : ∀ x ∈ tests, x ∈ tests' := by
    intro x hx
    obtain ⟨testId, hstarted, hx⟩ := gather_from hr.trained hx
    obtain ⟨y, hy, hlater⟩ := gather_mem hr'.trained (startedTests_later habove hstarted)
    simp only [bind_ok, pure_ok] at hx hlater
    obtain ⟨dates, hdates, rfl⟩ := hx
    obtain ⟨dates', hdates', rfl⟩ := hlater
    rw [trainedOn_later habove hdates] at hdates'
    cases hdates'
    exact hy
  rintro ⟨hoverlap, hdates, hresolved, htrained⟩
  exact hseen ⟨hoverlap, fun s hs => hdates s (List.mem_append_left _ hs),
    fun s hs => hresolved s (List.mem_append_left _ hs), fun x hx => htrained x (htests x hx)⟩

end Stays

/-! ## What a release leaves -/

def MetadataRelease (db : TrialDb X P V) (target : TrialRecord X) (action : Action) : Prop :=
  action.reads = true ∧ (typedRegistration target = true ∨ (revised? target).isSome = true ∨
    cancellationMetadata db target = .ok true)

theorem MetadataRelease.earlier (h : Lawful g db) (ht : Lawful g t) (habove : Above db t)
    {target : TrialRecord X} (hmem : target ∈ db.records)
    (hmetadata : MetadataRelease t target action) : MetadataRelease db target action := by
  have hsame : cancellationMetadata t target = cancellationMetadata db target := by
    rw [cancellationMetadata, cancellationMetadata]
    split
    · split
      · rfl
      · next hplain =>
          obtain ⟨hlinks, -⟩ := not_or.mp hplain
          rw [not_not] at hlinks
          obtain ⟨test, htest, -⟩ := h.linked hmem (hlinks ▸ List.mem_singleton_self _)
          rw [read_same h ht habove htest]
    · rfl
  rw [MetadataRelease, hsame] at hmetadata
  exact hmetadata

theorem exposed_seen {r target : TrialRecord X} (hr : r ∈ db.records) {release : Release}
    (hexposes : Exposes r release) (htarget : db.read release.targetId = .ok target)
    (hcontent : ¬ MetadataRelease db target release.action) {definitionId : String}
    {report : HoldoutReport} (hreport : holdoutExposure g db definitionId = .ok report)
    {d : Date} (hd : d ∈ report.holdoutDates) {s : Scope} (hs : s ∈ release.scopes)
    (hshown : d ∈ s.tradingDates) : report.unseen = false := by
  obtain ⟨definition, sealed, days, rest, weighed, tests, hrep⟩ := holdoutExposure_ok hreport
  have hmem : (r, Exposure.released release) ∈ exposureRecords db :=
    List.mem_filterMap.mpr ⟨r, hr, by rw [hexposes]; rfl⟩
  obtain ⟨x, hx, hweigh⟩ := gather_mem hrep.seen hmem
  simp only [bind_ok, pure_ok] at hweigh
  obtain ⟨w, hw, rfl⟩ := hweigh
  have hmetadata : ∀ b, metadataRead db (.released release) = .ok b → b = false := by
    intro b hb
    rw [metadataRead] at hb
    split at hb
    · next hreads =>
        simp only [bind_ok, pure_ok, htarget, Except.ok.injEq, exists_eq_left'] at hb
        obtain ⟨c, hc, rfl⟩ := hb
        rw [← Bool.not_eq_true]
        intro htrue
        simp only [Bool.or_eq_true, or_assoc] at htrue
        refine hcontent ⟨hreads, ?_⟩
        rcases htrue with h | h | h
        · exact .inl h
        · exact .inr (.inl h)
        · exact .inr (.inr (h ▸ hc))
    · exact (pure_ok.mp hb).symm
  have hdated : (Exposure.released release).dated = true := by
    rw [Exposure.dated, List.any_eq_true]
    exact ⟨s, hs, by simpa using List.ne_nil_of_mem hshown⟩
  have hmatched : d ∈ (Exposure.released release).matched days := by
    rw [Exposure.matched, List.mem_filter, List.any_eq_true]
    exact ⟨hrep.dates ▸ hd, s, hs, by simpa using hshown⟩
  have hdates : w = .dates ((Exposure.released release).matched days) := by
    simp only [weigh, bind_ok] at hw
    obtain ⟨b, hb, hw⟩ := hw
    rw [hmetadata b hb, if_neg (by decide), if_pos hdated] at hw
    exact (pure_ok.mp hw).symm
  rw [← Bool.not_eq_true, hrep.unseen]
  rintro ⟨-, hempty, -⟩
  have hnil := hempty _ hx _ hdates
  rw [hnil] at hmatched
  cases hmatched

inductive Given [DecidableEq X] (g : Hashes X) (host : TrialHost X) (viewer : Viewer) (id : String)
    (audit : Option String) (db t : TrialDb X P V) : Action → Prop
  | detail {x : TrialRecord X × Option SourceView}
      (h : detail g host viewer id audit db = (.ok x, t)) : Given g host viewer id audit db t .recordDetail
  | events {after limit : ℕ} {x : EventPage P V}
      (h : events g host viewer id after limit audit db = (.ok x, t)) :
      Given g host viewer id audit db t (.events after limit)
  | artifact {contentHash : String} {x : Artifact X}
      (h : artifact g host viewer id contentHash audit db = (.ok x, t)) :
      Given g host viewer id audit db t (.artifact contentHash)
  | exported {x : Export X} (h : exportView g host viewer id audit db = (.ok x, t)) :
      Given g host viewer id audit db t .recordExport

theorem Given.exposed [DecidableEq X]
    (h : Given g host viewer id audit db t action) (hfound : scopes g db id = .ok found)
    (hhidden : hidden found = true) :
    viewer = .owner ∧ ∃ r ∈ t.records, ∃ hash, Exposes r ⟨action, id, hash, found⟩ := by
  cases h with
  | detail h =>
      obtain ⟨hviewer, -, hexposed⟩ := released_exposed h hfound hhidden
      exact ⟨hviewer, hexposed⟩
  | events h =>
      obtain ⟨hviewer, -, hexposed⟩ := released_exposed h hfound hhidden
      exact ⟨hviewer, hexposed⟩
  | artifact h =>
      rw [Trials.artifact] at h
      split at h
      · cases h
      · obtain ⟨hviewer, -, hexposed⟩ := released_exposed h hfound hhidden
        exact ⟨hviewer, hexposed⟩
  | exported h =>
      obtain ⟨hviewer, -, hexposed⟩ := released_exposed h hfound hhidden
      exact ⟨hviewer, hexposed⟩

theorem Given.grown [DecidableEq X]
    (h : Given g host viewer id audit db t action) : Grown g db t := by
  have hreleased : ∀ {α : Type} {read : TrialDb X P V → Attempt α} {a : α},
      released (authorize g host viewer id audit action) read db = (.ok a, t) → Grown g db t := by
    intro α read a hcall
    have hgrown : Grown g db (authorize g host viewer id audit action db).2 :=
      authorize_grown host viewer id audit action
    rw [released] at hcall
    split at hcall
    · cases hcall
    · next heq =>
        obtain ⟨-, rfl⟩ := Prod.mk.inj hcall
        rwa [heq] at hgrown
  cases h with
  | detail h => exact hreleased h
  | events h => exact hreleased h
  | artifact h =>
      rw [Trials.artifact] at h
      split at h
      · cases h
      · exact hreleased h
  | exported h => exact hreleased h

/-! ## The three laws -/

/-- Two stores that differ only in what hidden records hold, and show the same
roles, give an optimizer the same. What an owner is given of a hidden record
is read from a store that holds the record of its release. A holdout that was
not unseen stays so, and one whose dates a release of hidden content showed is
not unseen. -/
theorem hidden_detail_exposed [DecidableEq X] [DecidableEq P] [DecidableEq V] (g : Hashes X) :
    (∀ (host host' : TrialHost X) (db db' : TrialDb X P V), Alike g host host' db db' →
      SameRoles g db db' →
      (∀ id audit, (detail g host .optimizer id audit db).1
        = (detail g host' .optimizer id audit db').1) ∧
      (∀ id after limit audit, (events g host .optimizer id after limit audit db).1
        = (events g host' .optimizer id after limit audit db').1) ∧
      (∀ id contentHash audit, (artifact g host .optimizer id contentHash audit db).1
          = (artifact g host' .optimizer id contentHash audit db').1 ∨
        (∀ x, (artifact g host .optimizer id contentHash audit db).1 ≠ .ok x) ∧
          ∀ x, (artifact g host' .optimizer id contentHash audit db').1 ≠ .ok x) ∧
      (∀ id audit, (exportView g host .optimizer id audit db).1
        = (exportView g host' .optimizer id audit db').1) ∧
      (∀ experimentId kind limit cursor,
        page g db experimentId kind limit cursor = page g db' experimentId kind limit cursor) ∧
      ∀ id, comparisonFeedback g db id = comparisonFeedback g db' id) ∧
    (∀ (host : TrialHost X) (db t : TrialDb X P V) viewer id audit found,
      scopes g db id = .ok found → hidden found = true →
      (∀ action, Given g host viewer id audit db t action →
        viewer = .owner ∧ ∃ r ∈ t.records, ∃ hash, Exposes r ⟨action, id, hash, found⟩) ∧
      (∀ x, detail g host viewer id audit db = (.ok x, t) → t.read id = .ok x.1) ∧
      (∀ after limit x, events g host viewer id after limit audit db = (.ok x, t) →
        eventPage t id after limit = .ok x) ∧
      (∀ contentHash x, artifact g host viewer id contentHash audit db = (.ok x, t) →
        readSource host t id = .ok x ∨ host.readJson contentHash = .ok x) ∧
      ∀ x, exportView g host viewer id audit db = (.ok x, t) → exportRecord host t id = .ok x) ∧
    ∀ (db : TrialDb X P V), Reached g db →
      (∀ t, Later g db t → ∀ definitionId report report',
        holdoutExposure g db definitionId = .ok report → report.unseen = false →
        holdoutExposure g t definitionId = .ok report' → report'.unseen = false) ∧
      ∀ (host : TrialHost X) viewer id audit action found target u,
        scopes g db id = .ok found → hidden found = true → db.read id = .ok target →
        ¬ MetadataRelease db target action → Given g host viewer id audit db u action →
        ∀ t, Later g u t → ∀ definitionId report, holdoutExposure g t definitionId = .ok report →
          (∃ d ∈ report.holdoutDates, ∃ s ∈ found, d ∈ s.tradingDates) →
          report.unseen = false := by
  refine ⟨fun host host' db db' h hroles => ⟨h.detail_same hroles, h.events_same hroles,
    h.artifact_same hroles, h.export_same hroles, h.page_same hroles,
    h.comparisonFeedback_same hroles⟩, fun host db t viewer id audit found hfound hhidden =>
      ⟨fun action h => h.exposed hfound hhidden, ?_, ?_, ?_, ?_⟩, fun db hdb => ⟨?_, ?_⟩⟩
  · intro x h
    obtain ⟨-, hread, -⟩ := released_exposed h hfound hhidden
    simp only [bind_ok] at hread
    obtain ⟨r, hr, hread⟩ := hread
    split at hread
    · simp only [bind_ok, pure_ok] at hread
      obtain ⟨-, -, rfl⟩ := hread
      exact hr
    · rw [← pure_ok.mp hread]
      exact hr
  · intro after limit x h
    obtain ⟨-, hread, -⟩ := released_exposed h hfound hhidden
    exact hread
  · intro contentHash x h
    rw [artifact] at h
    split at h
    · cases h
    · obtain ⟨-, hread, -⟩ := released_exposed h hfound hhidden
      split at hread
      · exact .inl hread
      · exact .inr hread
  · intro x h
    obtain ⟨-, hread, -⟩ := released_exposed h hfound hhidden
    exact hread
  · intro t hlater definitionId report report' hreport hseen hreport'
    exact seen_later hlater.grown.above hreport hreport' hseen
  · intro host viewer id audit action found target u hfound hhidden htarget hcontent hgiven t
      hlater definitionId report hreport ⟨d, hd, s, hs, hshown⟩
    obtain ⟨-, r, hr, hash, hexposes⟩ := hgiven.exposed hfound hhidden
    have h := hdb.lawful
    have hgrown : Grown g db t := hgiven.grown.trans hlater.grown
    obtain ⟨new, hnew, -⟩ := hlater.grown.above.records
    have hrt : r ∈ t.records := by rw [hnew]; exact List.mem_append_left _ hr
    refine exposed_seen hrt hexposes (hgrown.above.read htarget) ?_ hreport hd hs hshown
    exact fun hmetadata => hcontent
      (hmetadata.earlier h (h.grown hgrown) hgrown.above (At.read htarget).1)

/-! ## Worlds in which it fails -/

def laterDraft (role : Role) : ExperimentDraft where
  tasks := [⟨"now", .tuning, ⟨false, 1, 0⟩, fullWeight_pos⟩,
    ⟨"then", role, ⟨false, 1, 0⟩, fullWeight_pos⟩]
  calibrationRepeats := 1
  evaluate := (sampleDraft true).evaluate
  tasks_ne := List.cons_ne_nil _ _
  tasks_unique := by
    show ["now", "then"].Nodup
    decide

def laterHashes : Hashes Unit := { sampleHashes with
  content := fun value => match value with
    | .data (.definition s) => "definition of " ++ s.specificationHash
    | _ => "content"
  specification := fun draft _ =>
    if draft.tasks.any fun t => t.role == .finalHoldout then "holdout" else "validation" }

def laterSealed (role : Role) : ResolvedSpecification where
  specificationHash := if role = .finalHoldout then "holdout" else "validation"
  effective := laterDraft role
  tasks := [⟨"now", [3], by decide⟩, ⟨"then", [2], by decide⟩]
  tasks_resolved := rfl

def laterStore (role : Role) : TrialDb Unit Unit Unit :=
  (definition laterHashes sampleTrialHost "e" (laterSealed role) "later" (emptyStore ["e"])).2

theorem laterStore_reached (role : Role) : Reached laterHashes (laterStore role) :=
  ⟨["e"], .next .here (.definition _ _ _ _ _)⟩

def laterRecord (role : Role) : TrialRecord Unit where
  experimentId := "e"
  kind := .definition
  recordId := "e/definition/later"
  submissionIdentity := "later"
  value := .data (.definition (laterSealed role))
  links := []
  artifactHashes := [laterHashes.content (.data (.definition (laterSealed role)))]
  sourcePolicyHashes := []
  sequence := 1
  createdAt := 0

theorem laterStore_holdout : (laterStore .finalHoldout).records = [laterRecord .finalHoldout] ∧
    (laterStore .finalHoldout).events = [] := by decide +kernel

theorem laterStore_validation :
    (laterStore .selectionValidation).records = [laterRecord .selectionValidation] ∧
      (laterStore .selectionValidation).events = [] := by decide +kernel

theorem laterStore_alike : Alike laterHashes sampleTrialHost sampleTrialHost
    (laterStore .finalHoldout) (laterStore .selectionValidation) := by
  have hholdout : hiddenRecord laterHashes (laterStore .finalHoldout) "e/definition/later"
      = true := by decide +kernel
  have hvalidation : hiddenRecord laterHashes (laterStore .selectionValidation)
      "e/definition/later" = true := by decide +kernel
  obtain ⟨hrecords, hevents⟩ := laterStore_holdout
  obtain ⟨hrecords', hevents'⟩ := laterStore_validation
  constructor
  · rw [hrecords, hrecords']
    refine .cons ⟨rfl, rfl, rfl, rfl, rfl, rfl, rfl, ?_⟩ .nil
    rintro (h | h)
    · exact absurd (hholdout.symm.trans h) (by decide)
    · exact absurd (hvalidation.symm.trans h) (by decide)
  · rfl
  · rw [hrecords]
    intro r hr htest
    rw [List.mem_singleton.mp hr] at htest
    cases htest
  · intro r _ _
    rw [hevents, hevents']
  · intro r _ _ _ _
    rfl

def laterSample : TrialDb Unit Unit Unit :=
  (definition sampleHashes sampleTrialHost "e"
    { laterSealed .finalHoldout with specificationHash := "specification" } "later"
    (sampleRegistered true)).2

theorem laterSample_reached : Reached sampleHashes laterSample := by
  obtain ⟨experiments, h⟩ := sampleRegistered_reached true
  exact ⟨experiments, .next h (.definition _ _ _ _ _)⟩

/-- A listing shows the roles of a hidden definition, which its content
decides, and an artifact query tells whether a hidden record links the
artifact. Tuning detail that is not hidden is given without an exposure
record: the holdout stays unseen although its dates were shown. -/
theorem roles_listed_and_tuning_unrecorded :
    (¬ ∀ (host host' : TrialHost Unit) (db db' : TrialDb Unit Unit Unit),
      Reached laterHashes db → Reached laterHashes db' → Alike laterHashes host host' db db' →
      ∀ experimentId kind limit cursor, page laterHashes db experimentId kind limit cursor
        = page laterHashes db' experimentId kind limit cursor) ∧
    (¬ ∀ (host host' : TrialHost Unit) (db db' : TrialDb Unit Unit Unit),
      Reached laterHashes db → Reached laterHashes db' → Alike laterHashes host host' db db' →
      ∀ id contentHash audit, (artifact laterHashes host .optimizer id contentHash audit db).1
        = (artifact laterHashes host' .optimizer id contentHash audit db').1) ∧
    ¬ ∀ (db : TrialDb Unit Unit Unit) (host : TrialHost Unit) id audit action found target u,
      Reached sampleHashes db → scopes sampleHashes db id = .ok found → db.read id = .ok target →
      ¬ MetadataRelease db target action →
      Given sampleHashes host .owner id audit db u action →
      ∀ definitionId report, holdoutExposure sampleHashes u definitionId = .ok report →
        (∃ d ∈ report.holdoutDates, ∃ s ∈ found, d ∈ s.tradingDates) → report.unseen = false := by
  refine ⟨fun h => ?_, fun h => ?_, fun h => ?_⟩
  · have hpage := h _ _ _ _ (laterStore_reached _) (laterStore_reached _) laterStore_alike "e"
      .definition 1 none
    have hdiffers : page laterHashes (laterStore .finalHoldout) "e" .definition 1 none
        ≠ page laterHashes (laterStore .selectionValidation) "e" .definition 1 none := by
      decide +kernel
    exact hdiffers hpage
  · have hartifact := h _ _ _ _ (laterStore_reached _) (laterStore_reached _) laterStore_alike
      "e/definition/later" "definition of holdout" none
    have hdiffers : (artifact laterHashes sampleTrialHost .optimizer "e/definition/later"
          "definition of holdout" none (laterStore .finalHoldout)).1
        ≠ (artifact laterHashes sampleTrialHost .optimizer "e/definition/later"
          "definition of holdout" none (laterStore .selectionValidation)).1 := by
      decide +kernel
    exact hdiffers hartifact
  · have hcall : ∃ x ∈ (detail sampleHashes sampleTrialHost .owner "e/comparison-plan/f" none
        laterSample).1.toOption, x.2 = none := by decide +kernel
    have hread : ∃ target ∈ (laterSample.read "e/comparison-plan/f").toOption,
        typedRegistration target = false ∧ (revised? target).isSome = false ∧
          cancellationMetadata laterSample target = .ok false := by decide +kernel
    have hshown : ∃ found ∈ (scopes sampleHashes laterSample "e/comparison-plan/f").toOption,
        ∃ report ∈ (holdoutExposure sampleHashes (detail sampleHashes sampleTrialHost .owner
          "e/comparison-plan/f" none laterSample).2 "e/definition/later").toOption,
          (∃ d ∈ report.holdoutDates, ∃ s ∈ found, d ∈ s.tradingDates) ∧ report.unseen = true := by
      decide +kernel
    obtain ⟨x, hx, -⟩ := hcall
    obtain ⟨target, htarget, hregistration, hrevised, hcancellation⟩ := hread
    obtain ⟨found, hfound, report, hreport, hdates, hunseen⟩ := hshown
    have hseen := h laterSample sampleTrialHost "e/comparison-plan/f" none .recordDetail found target
      _ laterSample_reached (mem_toOption.mp hfound) (mem_toOption.mp htarget) (by
        rintro ⟨-, hmetadata⟩
        rw [hregistration, hrevised, hcancellation] at hmetadata
        exact absurd hmetadata (by decide))
      (.detail (Prod.ext (mem_toOption.mp hx) rfl)) _ report (mem_toOption.mp hreport) hdates
    exact absurd (hunseen.symm.trans hseen) (by decide)

def hiddenFact : Prepared (Entry Unit) where
  experimentId := "e"
  kind := .snapshot
  recordId := "snapshot"
  submissionIdentity := "snapshot"
  value := .data (.other ())
  links := [⟨"source", "e/definition/later"⟩]
  artifactHashes := []
  sourcePolicyHashes := []

def hiddenSample : TrialDb Unit Unit Unit := (Db.put sampleTrialHost hiddenFact laterSample).2

theorem hiddenSample_reached : Reached sampleHashes hiddenSample := by
  obtain ⟨experiments, h⟩ := laterSample_reached
  exact ⟨experiments, .next h (.fact _ _ _ ⟨by decide, (), rfl⟩)⟩

/-- An owner reads it, and the holdout is not unseen any more. -/
theorem hidden_detail_exposed_sample :
    ∃ report, holdoutExposure sampleHashes (detail sampleHashes sampleTrialHost .owner "snapshot"
        (some "audit") hiddenSample).2 "e/definition/later" = .ok report ∧
      report.unseen = false := by
  have hcall : ∃ x ∈ (detail sampleHashes sampleTrialHost .owner "snapshot" (some "audit")
      hiddenSample).1.toOption, x.2 = none := by decide +kernel
  have hread : ∃ target ∈ (hiddenSample.read "snapshot").toOption,
      typedRegistration target = false ∧ (revised? target).isSome = false ∧
        cancellationMetadata hiddenSample target = .ok false := by decide +kernel
  have hshown : ∃ found ∈ (scopes sampleHashes hiddenSample "snapshot").toOption,
      ∃ report ∈ (holdoutExposure sampleHashes (detail sampleHashes sampleTrialHost .owner
        "snapshot" (some "audit") hiddenSample).2 "e/definition/later").toOption,
        hidden found = true ∧ ∃ d ∈ report.holdoutDates, ∃ s ∈ found, d ∈ s.tradingDates := by
    decide +kernel
  obtain ⟨x, hx, -⟩ := hcall
  obtain ⟨target, htarget, hregistration, hrevised, hcancellation⟩ := hread
  obtain ⟨found, hfound, report, hreport, hhidden, hdates⟩ := hshown
  refine ⟨report, mem_toOption.mp hreport, ?_⟩
  refine ((hidden_detail_exposed sampleHashes).2.2 hiddenSample hiddenSample_reached).2
    sampleTrialHost .owner "snapshot" (some "audit") .recordDetail found target _
    (mem_toOption.mp hfound) hhidden (mem_toOption.mp htarget) ?_
    (.detail (Prod.ext (mem_toOption.mp hx) rfl)) _ .here _ report (mem_toOption.mp hreport) hdates
  rintro ⟨-, hmetadata⟩
  rw [hregistration, hrevised, hcancellation] at hmetadata
  exact absurd hmetadata (by decide)

end Ahunter.Trials
