import Ahunter.Proofs.LedgerImport

/-!
# Imports one after the other

A run of imports adds their rows to the ledger in whatever batches they come,
and keeps the positions at what the rows of each account fold to. The rows
alone decide the fold, so any other way of bringing the same rows in leaves
the same positions, and so does a replay. A snapshot is different: it is of
the rows up to the date of the import that wrote it.
-/

namespace Ahunter.Ledger

open Ahunter.Lib
open Ahunter.Sim (Date Stamp)

/-! ## Stores that imports build -/

variable {i : Import} {db db' : Db} {a : String}

theorem StoreSound.fresh (closes : List Close) : StoreSound (Db.fresh closes) where
  ids := List.nodup_nil
  accepted := fun r hr => by cases hr
  room := Nat.zero_le _
  folded := fun a => ⟨LedgerState.new, rfl, fun _ => ⟨rfl, rfl⟩, fun _ _ h => by cases h⟩

theorem Imported.rowsOf (h : Imported i db db') (a : String) : db'.rowsOf a = rowsAfter i db a := by
  rw [← rowsOf_insertEntries, Db.rowsOf, h.transactions]
  rfl

variable {l : List (String × LedgerTransaction)}

theorem entriesOf_eq_nil (h : a ∉ l.map Prod.fst) : entriesOf a l = [] := by
  rw [entriesOf, List.map_eq_nil_iff, List.filter_eq_nil_iff]
  intro e he hea
  rw [decide_eq_true_eq] at hea
  exact h (List.mem_map.mpr ⟨e, he, hea⟩)

theorem Imported.rowsOf_other (h : Imported i db db') (ha : a ∉ i.accounts) :
    db'.rowsOf a = db.rowsOf a := by
  have hnot : a ∉ (orderedEntries i.entries).map Prod.fst := by
    rwa [((orderedEntries_perm i.entries).map Prod.fst).mem_iff]
  rw [h.rowsOf, rowsAfter, entriesOf_eq_nil hnot, List.append_nil]

theorem StoreSound.imported (hdb : StoreSound db) (h : Imported i db db') : StoreSound db' := by
  obtain ⟨limit, hcheck, hroom⟩ := h.check
  obtain ⟨hlimit, hnodup, -, haccepted⟩ := Import.check_ok hcheck
  have hperm := orderedEntries_perm i.entries
  refine ⟨?_, fun r hr => ?_, ?_, fun a => ?_⟩
  · have hnew : ((orderedEntries i.entries).map i.stored).map
        (fun r => r.transaction.transactionId) = entryIds (orderedEntries i.entries) := by
      rw [List.map_map]
      rfl
    rw [h.transactions, List.map_append, hnew, List.nodup_append]
    refine ⟨hdb.ids, (hperm.map _).nodup_iff.mpr hnodup, fun x hx y hy hxy => ?_⟩
    subst hxy
    obtain ⟨r, hr, rfl⟩ := List.mem_map.mp hx
    exact h.fresh r hr ((hperm.map _).mem_iff.mp hy)
  · rw [h.transactions, List.mem_append] at hr
    rcases hr with hr | hr
    · exact hdb.accepted r hr
    · obtain ⟨e, he, rfl⟩ := List.mem_map.mp hr
      obtain ⟨haccount, hvalid, -⟩ := haccepted e (hperm.mem_iff.mp he)
      exact ⟨haccount, hvalid⟩
  · rw [h.transactions, List.length_append, List.length_map, hperm.length_eq]
    exact hroom.trans hlimit
  · by_cases ha : a ∈ i.accounts
    · obtain ⟨p, hp, hwritten⟩ := h.written a ha
      exact ⟨p.fullState, hp.full, hwritten.holds, hwritten.fits⟩
    · obtain ⟨s, hs, hholds, hfits⟩ := hdb.folded a
      rw [h.rowsOf_other ha]
      refine ⟨s, hs, fun code => ?_, hfits⟩
      rw [h.positions a code ha]
      exact hholds code

theorem StoreSound.rowIds (h : StoreSound db) (a : String) :
    (Ledger.rowIds (db.rowsOf a)).Nodup := by
  rw [Ledger.rowIds, Db.rowsOf, List.map_map]
  exact h.ids.sublist (List.filter_sublist.map _)

/-! ## Runs -/

variable {is : List Import}

inductive Imports : Db → List Import → Db → Prop
  | done (db : Db) : Imports db [] db
  | next {i : Import} {is : List Import} {db db' : Db} {results : List ImportResult}
      (hone : (importLedgerEntries i db).1 = .ok results)
      (hrest : Imports (importLedgerEntries i db).2 is db') : Imports db (i :: is) db'

theorem Imports.sound (h : Imports db is db') (hdb : StoreSound db) : StoreSound db' := by
  induction h with
  | done db => exact hdb
  | next hone hrest ih => exact ih (hdb.imported (importLedgerEntries_ok hdb hone))

def batchEntries (is : List Import) : List (String × LedgerTransaction) :=
  is.flatMap Import.entries

theorem batchEntries_cons (i : Import) (is : List Import) :
    batchEntries (i :: is) = i.entries ++ batchEntries is :=
  List.flatMap_cons

theorem Imports.entries (h : Imports db is db') (hdb : StoreSound db) :
    (db'.transactions.map StoredRow.entry).Perm
      (db.transactions.map StoredRow.entry ++ batchEntries is) := by
  induction h with
  | done db => rw [batchEntries, List.flatMap_nil, List.append_nil]
  | @next i is db db' results hone hrest ih =>
      have himported := importLedgerEntries_ok hdb hone
      have hnew : ((orderedEntries i.entries).map i.stored).map StoredRow.entry
          = orderedEntries i.entries := by
        rw [List.map_map]
        exact List.map_id _
      refine (ih (hdb.imported himported)).trans ?_
      rw [himported.transactions, List.map_append, hnew, batchEntries_cons,
        List.append_assoc]
      exact ((orderedEntries_perm i.entries).append_right _).append_left _

theorem rowsOf_eq (db : Db) (a : String) :
    db.rowsOf a = entriesOf a (db.transactions.map StoredRow.entry) := by
  rw [entriesOf_rows, Db.rowsOf]

theorem Imports.rowsOf (h : Imports db is db') (hdb : StoreSound db) (a : String) :
    (db'.rowsOf a).Perm (db.rowsOf a ++ entriesOf a (batchEntries is)) := by
  rw [rowsOf_eq, rowsOf_eq, ← entriesOf_append]
  exact entriesOf_perm (h.entries hdb) a

/-! ## Snapshots -/

inductive LastBatch (a : String) (i : Import) : List Import → Prop
  | here {is : List Import} (ha : a ∈ i.accounts) (hlast : ∀ j ∈ is, a ∉ j.accounts) :
      LastBatch a i (i :: is)
  | later {j : Import} {is : List Import} (h : LastBatch a i is) : LastBatch a i (j :: is)

def SnapshotOf (db : Db) (a : String) (asOf : Stamp) (s : LedgerState) : Prop :=
  ∃ row, db.snapshots.get? (snapshotId a asOf none) = some row ∧ row.cash = s.cash ∧
    row.realizedPnl = s.realizedPnl

theorem Imports.untouched (h : Imports db is db') (hdb : StoreSound db)
    (ha : ∀ i ∈ is, a ∉ i.accounts) :
    db'.rowsOf a = db.rowsOf a ∧ ∀ asOf source, db'.snapshots.get? (snapshotId a asOf source)
        = db.snapshots.get? (snapshotId a asOf source) := by
  induction h with
  | done db => exact ⟨rfl, fun _ _ => rfl⟩
  | @next i is db db' results hone hrest ih =>
      have himported := importLedgerEntries_ok hdb hone
      have hnot := ha i List.mem_cons_self
      obtain ⟨hrows, hsnapshots⟩ := ih (hdb.imported himported)
        fun j hj => ha j (List.mem_cons_of_mem i hj)
      refine ⟨hrows.trans (himported.rowsOf_other hnot), fun asOf source => ?_⟩
      rw [hsnapshots, himported.snapshots]
      intro b hb heq
      rw [← snapshotId_account heq] at hb
      exact hnot hb

theorem Imported.snapshot (h : Imported i db db') (ha : a ∈ i.accounts) :
    ∃ s, applyTransactions (upTo i.asOf.date (db'.rowsOf a)) = .ok s ∧
      SnapshotOf db' a i.asOf s := by
  obtain ⟨p, hp, hwritten⟩ := h.written a ha
  exact ⟨p.snapshotState, hp.snapshot, _, hwritten.snapshot, rfl, rfl⟩

theorem Imports.snapshot (h : Imports db is db') (hdb : StoreSound db) (hlast : LastBatch a i is) :
    ∃ s, applyTransactions (upTo i.asOf.date (db'.rowsOf a)) = .ok s ∧
      SnapshotOf db' a i.asOf s := by
  induction h with
  | done db => cases hlast
  | next hone hrest ih =>
      have himported := importLedgerEntries_ok hdb hone
      cases hlast with
      | here ha hlast =>
          obtain ⟨hrows, hsnapshots⟩ := hrest.untouched (hdb.imported himported) hlast
          obtain ⟨s, hs, hsnapshot⟩ := himported.snapshot ha
          rw [hrows]
          refine ⟨s, hs, ?_⟩
          rw [SnapshotOf, hsnapshots]
          exact hsnapshot
      | later hlast => exact ih (hdb.imported himported) hlast

theorem upTo_congr {d d' : Date} {l : List LedgerTransaction}
    (h : ∀ t ∈ l, t.tradeDate ≤ d ↔ t.tradeDate ≤ d') : upTo d l = upTo d' l := by
  rw [upTo, upTo]
  refine List.filter_congr fun t ht => ?_
  exact decide_eq_decide.mpr (h t ((sortedTransactions_perm l).mem_iff.mp ht))

theorem upTo_all {d : Date} {l : List LedgerTransaction} (h : ∀ t ∈ l, t.tradeDate ≤ d) :
    upTo d l = sortedTransactions l := by
  rw [upTo, List.filter_eq_self]
  intro t ht
  rw [decide_eq_true_eq]
  exact h t ((sortedTransactions_perm l).mem_iff.mp ht)

/-! ## Replays -/

def Replays (db : Db) (states : Dict String LedgerState) : Prop :=
  ∀ a, (db.rowsOf a = [] ∧ states.get? a = none) ∨
    (db.rowsOf a ≠ [] ∧ ∃ s, states.get? a = some s ∧
      applyTransactions (sortedTransactions (db.rowsOf a)) = .ok s)

theorem replay_isOk (hdb : StoreSound db) {maxRows : Option ℤ} {limit : ℕ}
    (hlimit : validateLedgerReplayLimit maxRows = .ok limit)
    (hroom : db.transactions.length ≤ limit) :
    ∃ states, replay maxRows db = .ok states ∧ Replays db states := by
  have hperm := storedRows_perm db
  let grouped : Grouped := (db.storedRows.map StoredRow.entry).foldl addTo Dict.empty
  have hwalk : walk (fun grouped (row : StoredRow) => do
      validateLedgerTransaction row.transaction
      pure (addTo grouped (row.accountId, row.transaction))) Dict.empty db.storedRows
      = .ok grouped := by
    refine walk_addTo_isOk (fun g r hr => ?_) Dict.empty
    obtain ⟨-, hvalid⟩ := hdb.accepted r (hperm.mem_iff.mp hr)
    exact bind_ok.mpr ⟨(), hvalid, rfl⟩
  have hrows : ∀ a, ((grouped.get? a).getD []).Perm (db.rowsOf a) := by
    intro a
    show (((db.storedRows.map StoredRow.entry).foldl addTo Dict.empty).get? a).getD []
      |>.Perm (db.rowsOf a)
    rw [foldl_addTo, Dict.get?_empty, Option.getD_none, List.nil_append, rowsOf_eq]
    exact entriesOf_perm (hperm.map _) a
  have hfold : ∀ e ∈ grouped.entries, ∃ s,
      applyTransactions (sortedTransactions e.2) = .ok s ∧
        applyTransactions (sortedTransactions (db.rowsOf e.1)) = .ok s := by
    intro e he
    obtain ⟨s, hs, -, -⟩ := hdb.folded e.1
    have hsame := hrows e.1
    rw [Dict.mem_entries.mp he, Option.getD_some] at hsame
    exact ⟨s, by rw [← sortedTransactions_unique hsame.symm (hdb.rowIds e.1)]; exact hs, hs⟩
  obtain ⟨states, hstates⟩ : ∃ states, Dict.assignAll Prod.fst
      (fun e : String × List LedgerTransaction => applyTransactions (sortedTransactions e.2))
      Dict.empty grouped.entries = .ok states :=
    Dict.assignAll_isOk (fun e he => (hfold e he).imp fun _ hs => hs.1) Dict.empty
  refine ⟨states, ?_, fun a => ?_⟩
  · simp only [replay, bind_ok, refuse_ok, not_lt]
    refine ⟨limit, hlimit, (), ?_, grouped, hwalk, hstates⟩
    rw [hperm.length_eq]
    exact hroom
  · obtain ⟨hdone, hothers⟩ := Dict.assignAll_ok hstates grouped.keys_nodup
    cases hget : grouped.get? a with
    | none =>
        left
        have hempty := hrows a
        rw [hget, Option.getD_none] at hempty
        refine ⟨hempty.symm.eq_nil, ?_⟩
        rw [hothers a fun hmem => ?_]
        · rfl
        · obtain ⟨v, hv⟩ := Dict.mem_keys.mp hmem
          rw [hget] at hv
          cases hv
    | some l =>
        right
        have hmem : (a, l) ∈ grouped.entries := Dict.mem_entries.mpr hget
        obtain ⟨s, hs, hstate⟩ := hdone (a, l) hmem
        obtain ⟨s', hs', hrun⟩ := hfold (a, l) hmem
        rw [hs] at hs'
        cases hs'
        refine ⟨fun hnil => ?_, s, hstate, hrun⟩
        have hsome : a ∈ (db.storedRows.map StoredRow.entry).map Prod.fst := by
          have hisSome := (foldl_addTo_isSome (db.storedRows.map StoredRow.entry)
            Dict.empty a).mp (by
              show (grouped.get? a).isSome = true
              rw [hget]
              rfl)
          rcases hisSome with h | h
          · cases h
          · exact h
        rw [List.map_map] at hsome
        obtain ⟨r, hr, rfl⟩ := List.mem_map.mp hsome
        have hrow : r.transaction ∈ db.rowsOf r.accountId :=
          List.mem_map.mpr ⟨r, List.mem_filter.mpr ⟨hperm.mem_iff.mp hr, by simp⟩, rfl⟩
        have hnil' : db.rowsOf r.accountId = [] := hnil
        rw [hnil'] at hrow
        cases hrow

theorem replays_unique (hdb : StoreSound db) (hrows : ∀ a, (db.rowsOf a).Perm (db'.rowsOf a))
    {states states' : Dict String LedgerState} (h : Replays db states) (h' : Replays db' states') :
    states = states' := by
  refine Dict.ext_get? fun a => ?_
  have hsame := sortedTransactions_unique (hrows a) (hdb.rowIds a)
  rcases h a with ⟨hnil, hnone⟩ | ⟨hne, s, hsome, hs⟩
  · rcases h' a with ⟨-, hnone'⟩ | ⟨hne', -⟩
    · rw [hnone, hnone']
    · have hperm := hrows a
      rw [hnil] at hperm
      exact absurd hperm.symm.eq_nil hne'
  · rcases h' a with ⟨hnil', -⟩ | ⟨-, s', hsome', hs'⟩
    · have hperm := hrows a
      rw [hnil'] at hperm
      exact absurd hperm.eq_nil hne
    · rw [hsame, hs'] at hs
      cases hs
      rw [hsome, hsome']

theorem Replays.holds (hdb : StoreSound db) {states : Dict String LedgerState}
    (h : Replays db states) (a : String) : Holds db a ((states.get? a).getD LedgerState.new) := by
  obtain ⟨s, hs, hholds, -⟩ := hdb.folded a
  rcases h a with ⟨hnil, hnone⟩ | ⟨-, s', hsome, hs'⟩
  · rw [hnil] at hs
    cases hs
    rw [hnone]
    exact hholds
  · rw [hs] at hs'
    cases hs'
    rw [hsome]
    exact hholds

/-! ## Batching -/

def SamePositions (db db' : Db) : Prop :=
  ∀ a code,
    (db.positions.get? (positionKey a code)).map PositionRow.quantity
        = (db'.positions.get? (positionKey a code)).map PositionRow.quantity ∧
      (db.positions.get? (positionKey a code)).map PositionRow.costBasis
        = (db'.positions.get? (positionKey a code)).map PositionRow.costBasis

structure BatchLaw (db : Db) (batches : List Import) (db' : Db) : Prop where
  whole : ∀ w limit, w.entries.Perm (batchEntries batches) → w.check = .ok limit →
    db.transactions.length + w.entries.length ≤ limit →
    ∃ results all, importLedgerEntries w db = (.ok results, all) ∧ SamePositions db' all ∧
      (∀ maxRows n, validateLedgerReplayLimit maxRows = .ok n → db'.transactions.length ≤ n →
        ∃ states, replay maxRows db' = .ok states ∧ replay maxRows all = .ok states) ∧
      ∀ a i, LastBatch a i batches →
        (∀ t ∈ db'.rowsOf a, t.tradeDate ≤ i.asOf.date ↔ t.tradeDate ≤ w.asOf.date) →
        ∃ s, SnapshotOf db' a i.asOf s ∧ SnapshotOf all a w.asOf s
  replayed : ∀ maxRows n, validateLedgerReplayLimit maxRows = .ok n →
    db'.transactions.length ≤ n → ∃ states, replay maxRows db' = .ok states ∧
      (∀ a, Holds db' a ((states.get? a).getD LedgerState.new)) ∧
      ∀ a i, LastBatch a i batches → (∀ t ∈ db'.rowsOf a, t.tradeDate ≤ i.asOf.date) →
        ∃ s, states.get? a = some s ∧ SnapshotOf db' a i.asOf s
  snapshot : ∀ a i, LastBatch a i batches →
    ∃ s, applyTransactions (upTo i.asOf.date (db'.rowsOf a)) = .ok s ∧
      SnapshotOf db' a i.asOf s
  repeated : ∀ i, i.entries = [] ∨ (∃ e ∈ i.entries, ∃ r ∈ db'.transactions,
      r.transaction.transactionId = e.2.transactionId) →
    ∃ e, importLedgerEntries i db' = (.error e, db')
  failed : ∀ i e, (importLedgerEntries i db').1 = .error e →
    (importLedgerEntries i db').2 = db'

theorem importLedgerEntries_failed {e : LedgerError} (h : (importLedgerEntries i db).1 = .error e) :
    importLedgerEntries i db = (.error e, db) := by
  unfold importLedgerEntries at h ⊢
  split at h
  · cases h
    rfl
  · split at h
    · cases h
      rfl
    · cases h

theorem importLedgerEntries_repeated (hdb : StoreSound db)
    (h : i.entries = [] ∨ ∃ e ∈ i.entries, ∃ r ∈ db.transactions,
      r.transaction.transactionId = e.2.transactionId) :
    ∃ e, importLedgerEntries i db = (.error e, db) := by
  cases hrun : (importLedgerEntries i db).1 with
  | error e => exact ⟨e, importLedgerEntries_failed hrun⟩
  | ok results =>
      exfalso
      have himported := importLedgerEntries_ok hdb hrun
      obtain ⟨limit, hcheck, -⟩ := himported.check
      obtain ⟨-, -, hne, -⟩ := Import.check_ok hcheck
      rcases h with hnil | ⟨e, he, r, hr, hid⟩
      · exact hne hnil
      · refine himported.fresh r hr ?_
        rw [hid]
        exact List.mem_map.mpr ⟨e, he, rfl⟩

theorem LastBatch.mem (h : LastBatch a i is) : a ∈ (batchEntries is).map Prod.fst := by
  induction h with
  | here ha hlast =>
      rw [batchEntries_cons, List.map_append]
      exact List.mem_append_left _ ha
  | later h ih =>
      rw [batchEntries_cons, List.map_append]
      exact List.mem_append_right _ ih

theorem mem_entriesOf (h : a ∈ l.map Prod.fst) : entriesOf a l ≠ [] := by
  obtain ⟨e, he, rfl⟩ := List.mem_map.mp h
  have hmem : e.2 ∈ entriesOf e.1 l :=
    List.mem_map.mpr ⟨e, List.mem_filter.mpr ⟨he, by simp⟩, rfl⟩
  exact List.ne_nil_of_mem hmem

/-- Batches of imports, from any store imports have built, come to what
one import of all of them does. -/
theorem imports_batch {closes : List Close} {before batches : List Import} {db db' : Db}
    (hstart : Imports (Db.fresh closes) before db) (h : Imports db batches db') :
    BatchLaw db batches db' := by
  have hdb := hstart.sound (StoreSound.fresh closes)
  have hdb' := h.sound hdb
  have hsnapshot := fun a i (hlast : LastBatch a i batches) => h.snapshot hdb hlast
  refine ⟨fun w limit hperm hcheck hroom => ?_, fun maxRows n hn hroom => ?_, hsnapshot,
    fun i hi => importLedgerEntries_repeated hdb' hi, fun i e he => ?_⟩
  · -- The rows a whole import folds are those the batches have left.
    have hrows : ∀ a, (rowsAfter w db a).Perm (db'.rowsOf a) := by
      intro a
      refine List.Perm.trans ?_ (h.rowsOf hdb a).symm
      exact (entriesOf_perm ((orderedEntries_perm w.entries).trans hperm) a).append_left _
    have hstored := h.entries hdb
    have hfresh : ∀ r ∈ db.transactions,
        r.transaction.transactionId ∉ entryIds w.entries := by
      have hids : ((db'.transactions.map StoredRow.entry).map
          fun e => e.2.transactionId).Nodup := by
        rw [List.map_map]
        exact hdb'.ids
      rw [(hstored.map _).nodup_iff, List.map_append, List.nodup_append] at hids
      intro r hr hmem
      refine hids.2.2 _ (List.mem_map.mpr ⟨r.entry, List.mem_map.mpr ⟨r, hr, rfl⟩, rfl⟩) _
        ?_ rfl
      exact (hperm.map _).mem_iff.mp hmem
    obtain ⟨results, hresults⟩ := importLedgerEntries_isOk hdb hcheck hroom hfresh
      fun a ha => by
        obtain ⟨s, hs, -, hfits⟩ := hdb'.folded a
        refine ⟨s, ?_, hfits⟩
        rw [sortedTransactions_unique (hrows a) (rowsAfter_ids hdb hcheck hfresh a)]
        exact hs
    have himported := importLedgerEntries_ok hdb hresults
    have hall := hdb.imported himported
    have hsame : ∀ a, (db'.rowsOf a).Perm ((importLedgerEntries w db).2.rowsOf a) := by
      intro a
      rw [himported.rowsOf]
      exact (hrows a).symm
    have hcount : (importLedgerEntries w db).2.transactions.length
        = db'.transactions.length := by
      have hlength := hstored.length_eq
      rw [List.length_map, List.length_append, List.length_map] at hlength
      rw [himported.transactions, List.length_append, List.length_map,
        (orderedEntries_perm w.entries).length_eq, hperm.length_eq, hlength]
    refine ⟨results, (importLedgerEntries w db).2, Prod.ext hresults rfl, fun a code => ?_,
      fun maxRows n hn hroom' => ?_, fun a i hlast hcut => ?_⟩
    · obtain ⟨s, hs, hholds, -⟩ := hdb'.folded a
      obtain ⟨s', hs', hholds', -⟩ := hall.folded a
      rw [← sortedTransactions_unique (hsame a) (hdb'.rowIds a), hs] at hs'
      cases hs'
      rw [(hholds code).1, (hholds code).2, (hholds' code).1, (hholds' code).2]
      exact ⟨rfl, rfl⟩
    · obtain ⟨states, hstates, hreplays⟩ := replay_isOk hdb' hn hroom'
      obtain ⟨states', hstates', hreplays'⟩ := replay_isOk hall hn (by rwa [hcount])
      rw [← replays_unique hdb' hsame hreplays hreplays'] at hstates'
      exact ⟨states, hstates, hstates'⟩
    · obtain ⟨s, hs, hof⟩ := hsnapshot a i hlast
      have ha : a ∈ w.accounts := (hperm.map _).mem_iff.mpr hlast.mem
      obtain ⟨s', hs', hof'⟩ := himported.snapshot ha
      rw [upTo_congr hcut, upTo, sortedTransactions_unique (hsame a) (hdb'.rowIds a),
        ← upTo, hs'] at hs
      cases hs
      exact ⟨s, hof, hof'⟩
  · obtain ⟨states, hstates, hreplays⟩ := replay_isOk hdb' hn hroom
    refine ⟨states, hstates, hreplays.holds hdb', fun a i hlast hall => ?_⟩
    obtain ⟨s, hs, hof⟩ := hsnapshot a i hlast
    rw [upTo_all hall] at hs
    rcases hreplays a with ⟨hnil, -⟩ | ⟨-, s', hsome, hs'⟩
    · have hrows := h.rowsOf hdb a
      rw [hnil] at hrows
      have hempty := List.append_eq_nil_iff.mp hrows.symm.eq_nil
      exact absurd hempty.2 (mem_entriesOf hlast.mem)
    · rw [hs] at hs'
      cases hs'
      exact ⟨s, hsome, hof⟩
  · rw [importLedgerEntries_failed he]

/-! ## Two deposits in two batches -/

def deposit (transactionId : String) (tradeDate : Date) (amount : ℚ) : LedgerTransaction :=
  ⟨transactionId, tradeDate, .cashDeposit, none, 0, 0, amount, 0⟩

def depositBatch (entries : List (String × LedgerTransaction)) (asOf : Date) : Import :=
  ⟨entries, Dict.empty, "import", ⟨asOf * Sim.dayMicros, ⟨0⟩⟩, none⟩

def lateBatch : Import := depositBatch [("main", deposit "t1" 10 100)] 10
def earlyBatch : Import := depositBatch [("main", deposit "t2" 5 1)] 5
def wholeBatch : Import :=
  depositBatch [("main", deposit "t1" 10 100), ("main", deposit "t2" 5 1)] 10

def afterLate : Db := (importLedgerEntries lateBatch (Db.fresh [])).2
def afterBoth : Db := (importLedgerEntries earlyBatch afterLate).2
def afterWhole : Db := (importLedgerEntries wholeBatch (Db.fresh [])).2

def cashOf (db : Db) (asOf : Stamp) : Option ℚ :=
  (db.snapshots.get? (snapshotId "main" asOf none)).map SnapshotRow.cash

/-- The batches and the whole go through with the same rows, and the cash of
the last batch is neither that of the whole nor that of a replay. -/
theorem snapshot_of_early_batch :
    wholeBatch.entries = batchEntries [lateBatch, earlyBatch] ∧
      (importLedgerEntries lateBatch (Db.fresh [])).1.isOk = true ∧
      (importLedgerEntries earlyBatch afterLate).1.isOk = true ∧
      (importLedgerEntries wholeBatch (Db.fresh [])).1.isOk = true ∧
      cashOf afterBoth earlyBatch.asOf = some 1 ∧
      cashOf afterWhole wholeBatch.asOf = some 101 ∧
      ((replay none afterBoth).toOption.bind fun d => d.get? "main").map LedgerState.cash
        = some 101 ∧
      (∀ row ∈ afterBoth.snapshots.values, row.cash ≠ 101) := by
  decide +kernel

theorem imports_batch_sample : BatchLaw (Db.fresh []) [lateBatch, earlyBatch] afterBoth := by
  have hlate : (importLedgerEntries lateBatch (Db.fresh [])).1.isOk = true := by
    decide +kernel
  have hearly : (importLedgerEntries earlyBatch afterLate).1.isOk = true := by
    decide +kernel
  obtain ⟨results, hone⟩ := isOk_iff.mp hlate
  obtain ⟨results', htwo⟩ := isOk_iff.mp hearly
  exact imports_batch (.done _) (.next hone (.next htwo (.done _)))

end Ahunter.Ledger
