import Ahunter.Ledger.Store
import Ahunter.Proofs.LedgerFold

/-!
# What an import leaves

An import folds each account it touches from its first row, so what it leaves
of an account is a function of the account's rows alone: the order of a
ledger is a total one, and any two lists of the same rows sort to the same
list. The rest of the tables it leaves as they were.
-/

namespace Ahunter.Ledger

open Ahunter.Lib
open Ahunter.Sim (Date Stamp)

/-! ## Rows in order -/

variable {l : List LedgerTransaction}

def Db.rowsOf (db : Db) (accountId : String) : List LedgerTransaction :=
  (db.transactions.filter fun r => r.accountId = accountId).map StoredRow.transaction

def entriesOf (accountId : String) (l : List (String × LedgerTransaction)) :
    List LedgerTransaction :=
  (l.filter fun e => e.1 = accountId).map Prod.snd

def rowIds (l : List LedgerTransaction) : List String :=
  l.map LedgerTransaction.transactionId

theorem sortedTransactions_perm (l : List LedgerTransaction) : (sortedTransactions l).Perm l :=
  List.perm_insertionSort _ _

theorem sortedTransactions_sorted (l : List LedgerTransaction) :
    (sortedTransactions l).Pairwise fun a b =>
      ledgerTransactionSortKey a ≤ ledgerTransactionSortKey b :=
  List.pairwise_insertionSort _ _

theorem sortedTransactions_unique {m : List LedgerTransaction} (h : l.Perm m)
    (hids : (rowIds l).Nodup) : sortedTransactions l = sortedTransactions m := by
  have hperm : (sortedTransactions l).Perm (sortedTransactions m) :=
    (sortedTransactions_perm l).trans (h.trans (sortedTransactions_perm m).symm)
  refine hperm.eq_of_pairwise (fun a b ha hb hab hba => ?_) (sortedTransactions_sorted l)
    (sortedTransactions_sorted m)
  have hkey := le_antisymm hab hba
  have hid : a.transactionId = b.transactionId :=
    congrArg (fun k : SortKey => (ofLex k).2) hkey
  have hbl : b ∈ l := h.mem_iff.mpr ((sortedTransactions_perm m).mem_iff.mp hb)
  exact List.inj_on_of_nodup_map hids ((sortedTransactions_perm l).mem_iff.mp ha) hbl hid

theorem entriesOf_perm {l m : List (String × LedgerTransaction)} (h : l.Perm m)
    (accountId : String) : (entriesOf accountId l).Perm (entriesOf accountId m) :=
  (h.filter _).map _

theorem entriesOf_append (l m : List (String × LedgerTransaction)) (accountId : String) :
    entriesOf accountId (l ++ m) = entriesOf accountId l ++ entriesOf accountId m := by
  rw [entriesOf, List.filter_append, List.map_append]
  rfl

theorem orderedEntries_perm (l : List (String × LedgerTransaction)) : (orderedEntries l).Perm l :=
  List.perm_insertionSort _ _

theorem storedRows_perm (db : Db) : db.storedRows.Perm db.transactions :=
  List.perm_insertionSort _ _

theorem Valid.sorted (h : ∀ t ∈ l, Valid t) : ∀ t ∈ sortedTransactions l, Valid t :=
  fun t ht => h t ((sortedTransactions_perm l).mem_iff.mp ht)

/-! ## Grouping -/

theorem foldl_addTo (l : List (String × LedgerTransaction)) (g : Grouped) (a : String) :
    ((l.foldl addTo g).get? a).getD [] = (g.get? a).getD [] ++ entriesOf a l := by
  induction l generalizing g with
  | nil => simp [entriesOf]
  | cons e l ih =>
      rw [List.foldl_cons, ih, addTo, Dict.get?_set]
      by_cases ha : a = e.1
      · subst ha
        simp [entriesOf]
      · have hne : ¬ e.1 = a := Ne.symm ha
        simp [entriesOf, ha, hne]

theorem foldl_addTo_isSome (l : List (String × LedgerTransaction)) (g : Grouped) (a : String) :
    ((l.foldl addTo g).get? a).isSome = true ↔ (g.get? a).isSome = true ∨ a ∈ l.map Prod.fst := by
  induction l generalizing g with
  | nil => simp
  | cons e l ih =>
      rw [List.foldl_cons, ih, addTo, Dict.get?_set, List.map_cons, List.mem_cons]
      by_cases ha : a = e.1
      · simp [ha]
      · simp [ha]

def StoredRow.entry (r : StoredRow) : String × LedgerTransaction :=
  (r.accountId, r.transaction)

def StoredRow.Accepted (r : StoredRow) : Prop :=
  accountIdMatches r.accountId = true ∧ Valid r.transaction

variable {f : Grouped → StoredRow → Attempt Grouped}

theorem walk_addTo_ok (hf : ∀ g r g', f g r = .ok g' → g' = addTo g r.entry) {rows : List StoredRow}
    {start g : Grouped} (h : walk f start rows = .ok g) :
    g = (rows.map StoredRow.entry).foldl addTo start := by
  induction rows generalizing start with
  | nil => cases h; rfl
  | cons r rows ih =>
      obtain ⟨c, hone, hrest⟩ := walk_cons_ok.mp h
      rw [hf start r c hone] at hrest
      exact ih hrest

variable {rows : List StoredRow}

theorem walk_addTo_isOk (hf : ∀ g, ∀ r ∈ rows, f g r = .ok (addTo g r.entry)) (start : Grouped) :
    walk f start rows = .ok ((rows.map StoredRow.entry).foldl addTo start) := by
  induction rows generalizing start with
  | nil => rfl
  | cons r rows ih =>
      exact walk_cons_ok.mpr ⟨_, hf start r List.mem_cons_self,
        ih (fun g x hx => hf g x (List.mem_cons_of_mem r hx)) _⟩

theorem groupStored_ok {g : Grouped} (h : groupStoredTransactions rows = .ok g) :
    g = (rows.map StoredRow.entry).foldl addTo Dict.empty := by
  refine walk_addTo_ok (fun g r g' hone => ?_) h
  simp only [bind_ok, pure_ok] at hone
  obtain ⟨-, -, -, -, rfl⟩ := hone
  rfl

theorem groupStored_isOk (h : ∀ r ∈ rows, r.Accepted) :
    ∃ g, groupStoredTransactions rows = .ok g := by
  refine ⟨_, walk_addTo_isOk (fun g r hr => ?_) Dict.empty⟩
  obtain ⟨haccount, hvalid⟩ := h r hr
  simp only [bind_ok, refuse_ok, pure_ok]
  exact ⟨(), by simp [haccount], (), hvalid, rfl⟩

theorem entriesOf_rows (rows : List StoredRow) (a : String) :
    entriesOf a (rows.map StoredRow.entry)
      = (rows.filter fun r => r.accountId = a).map StoredRow.transaction := by
  rw [entriesOf, List.filter_map, List.map_map]
  rfl

/-! ## States -/

variable {s : LedgerState}

theorem exists_latest (h : l ≠ []) : ∃ t ∈ l, ∀ x ∈ l, x.tradeDate ≤ t.tradeDate := by
  induction l with
  | nil => exact absurd rfl h
  | cons t l ih =>
      by_cases hl : l = []
      · subst hl
        exact ⟨t, List.mem_cons_self, fun x hx => by rw [List.mem_singleton.mp hx]⟩
      · obtain ⟨u, hu, hlatest⟩ := ih hl
        rcases le_total t.tradeDate u.tradeDate with htu | hut
        · refine ⟨u, List.mem_cons_of_mem t hu, fun x hx => ?_⟩
          rcases List.mem_cons.mp hx with rfl | hx
          · exact htu
          · exact hlatest x hx
        · refine ⟨t, List.mem_cons_self, fun x hx => ?_⟩
          rcases List.mem_cons.mp hx with rfl | hx
          · exact le_refl _
          · exact (hlatest x hx).trans hut

theorem applyTransactions_cut (hvalid : ∀ t ∈ l, Valid t)
    (hsorted : l.Pairwise fun a b => ledgerTransactionSortKey a ≤ ledgerTransactionSortKey b)
    (h : applyTransactions l = .ok s) (cutoff : Date) :
    ∃ s', applyTransactions (l.filter fun t => t.tradeDate ≤ cutoff) = .ok s' := by
  have hcovered := (ledger_fold_exact hvalid hsorted).succeeds.mp ⟨s, h⟩
  have hcut := ledger_fold_exact
    (fun t ht => hvalid t (List.mem_of_mem_filter ht))
    (hsorted.sublist (List.filter_sublist (p := fun t => t.tradeDate ≤ cutoff)))
  have hday : ∀ d, d ≤ cutoff →
      onDay d (l.filter fun t => t.tradeDate ≤ cutoff) = onDay d l ∧
        beforeDay d (l.filter fun t => t.tradeDate ≤ cutoff) = beforeDay d l := by
    intro d hd
    constructor
    · rw [onDay, onDay, List.filter_filter]
      refine List.filter_congr fun t _ => ?_
      by_cases ht : t.tradeDate = d
      · simp [ht, hd]
      · simp [ht]
    · rw [beforeDay, beforeDay, List.filter_filter]
      refine List.filter_congr fun t _ => ?_
      by_cases ht : t.tradeDate < d
      · simp [ht, ht.le.trans hd]
      · simp [ht]
  refine hcut.succeeds.mpr fun d code => ?_
  by_cases hd : d ≤ cutoff
  · rw [(hday d hd).1, (hday d hd).2]
    exact hcovered d code
  -- Past the cut nothing is sold, and what is held is what its last day left.
  have hlate : cutoff < d := not_le.mp hd
  have hempty : onDay d (l.filter fun t => t.tradeDate ≤ cutoff) = [] := by
    refine List.filter_eq_nil_iff.mpr fun t ht => ?_
    have hle : t.tradeDate ≤ cutoff := by simpa using List.of_mem_filter ht
    rw [decide_eq_true_eq]
    rintro rfl
    exact hd hle
  have hall : beforeDay d (l.filter fun t => t.tradeDate ≤ cutoff)
      = l.filter fun t => t.tradeDate ≤ cutoff := by
    refine List.filter_eq_self.mpr fun t ht => ?_
    have hle : t.tradeDate ≤ cutoff := by simpa using List.of_mem_filter ht
    simpa using hle.trans_lt hlate
  rw [hempty, hall, moved_nil, moved_nil, add_zero]
  by_cases hnil : (l.filter fun t => t.tradeDate ≤ cutoff) = []
  · rw [hnil]
    exact le_refl 0
  · obtain ⟨t, ht, hlatest⟩ := exists_latest hnil
    have hle : t.tradeDate ≤ cutoff := by simpa using List.of_mem_filter ht
    have hcode := hcovered t.tradeDate code
    rw [← (hday _ hle).1, ← (hday _ hle).2] at hcode
    have hsplit : (beforeDay t.tradeDate (l.filter fun t => t.tradeDate ≤ cutoff)
        ++ onDay t.tradeDate (l.filter fun t => t.tradeDate ≤ cutoff)).Perm
        (l.filter fun t => t.tradeDate ≤ cutoff) := by
      have hlast : onDay t.tradeDate (l.filter fun t => t.tradeDate ≤ cutoff)
          = (l.filter fun t => t.tradeDate ≤ cutoff).filter
            fun x => !decide (x.tradeDate < t.tradeDate) := by
        refine List.filter_congr fun x hx => ?_
        rcases (hlatest x hx).lt_or_eq with hlt | heq
        · simp [hlt, hlt.ne]
        · simp [heq]
      rw [hlast]
      exact List.filter_append_perm _ _
    have hmoved : ∀ type, moved type code (l.filter fun t => t.tradeDate ≤ cutoff)
        = moved type code (beforeDay t.tradeDate (l.filter fun t => t.tradeDate ≤ cutoff))
          + moved type code (onDay t.tradeDate (l.filter fun t => t.tradeDate ≤ cutoff)) := by
      intro type
      rw [← moved_append, moved_perm hsplit]
    rw [net, hmoved .buy, hmoved .sell]
    rw [net] at hcode
    omega

def Holds (db : Db) (accountId : String) (s : LedgerState) : Prop :=
  ∀ code, (db.positions.get? (positionKey accountId code)).map PositionRow.quantity
      = s.positions.get? code ∧
    (db.positions.get? (positionKey accountId code)).map PositionRow.costBasis
      = s.costBasis.get? code

def Fits (s : LedgerState) : Prop :=
  ∀ code q, s.positions.get? code = some q → q ≤ maxSqliteInteger

theorem positionKey_inj {a a' c c' : String} :
    positionKey a c = positionKey a' c' ↔ a = a' ∧ c = c' := by
  rw [positionKey, positionKey, toLex_inj, Prod.mk.injEq]

theorem costOf_isOk (hs : Sound s) {e : String × ℤ} (he : e ∈ s.positions.entries) :
    ∃ cost, costOf s e.1 = .ok cost := by
  have hget := Dict.mem_entries.mp he
  have hkeys := hs.keys e.1
  rw [hget, Option.isSome_some, Option.isSome_iff_exists] at hkeys
  obtain ⟨cost, hcost⟩ := hkeys
  exact ⟨cost, need_ok.mpr hcost⟩

theorem exposureForPositions_isOk (hs : Sound s) (closes : List Close) (cutoff : Date) :
    ∃ d, exposureForPositions closes s cutoff = .ok d := by
  refine Dict.assignAll_isOk (fun e he => ?_) _
  obtain ⟨cost, hcost⟩ := costOf_isOk hs he
  exact ⟨_, bind_ok.mpr ⟨cost, hcost, rfl⟩⟩

theorem positionKeys_nodup (s : LedgerState) (accountId : String) :
    (s.positions.entries.map fun e => positionKey accountId e.1).Nodup := by
  have hkeys : (s.positions.entries.map Prod.fst).Nodup := s.positions.keys_nodup
  rw [show (fun e : String × ℤ => positionKey accountId e.1)
      = positionKey accountId ∘ Prod.fst from rfl, ← List.map_map]
  exact hkeys.map fun c c' h => (positionKey_inj.mp h).2

theorem replacePositions_isOk (hs : Sound s) (hfits : Fits s)
    (positions : Dict PositionKey PositionRow) (accountId : String) (at_ : Stamp) :
    ∃ d, replacePositions positions accountId s at_ = .ok d := by
  refine Dict.assignAll_isOk (fun e he => ?_) _
  obtain ⟨cost, hcost⟩ := costOf_isOk hs he
  have hle := hfits e.1 e.2 (Dict.mem_entries.mp he)
  simp only [bind_ok, refuse_ok, pure_ok, not_lt]
  exact ⟨_, cost, hcost, (), hle, rfl⟩

variable {accountId : String}

theorem replacePositions_ok (hs : Sound s) {positions d : Dict PositionKey PositionRow}
    {at_ : Stamp} (h : replacePositions positions accountId s at_ = .ok d) :
    (∀ code, (d.get? (positionKey accountId code)).map PositionRow.quantity
        = s.positions.get? code ∧ (d.get? (positionKey accountId code)).map PositionRow.costBasis
        = s.costBasis.get? code) ∧ (∀ a code, a ≠ accountId →
        d.get? (positionKey a code) = positions.get? (positionKey a code)) ∧ Fits s := by
  obtain ⟨hassigned, hothers⟩ := Dict.assignAll_ok h (positionKeys_nodup s accountId)
  refine ⟨fun code => ?_, fun a code ha => ?_, fun code q hget => ?_⟩
  · cases hget : s.positions.get? code with
    | some q =>
        obtain ⟨row, hrow, hd⟩ := hassigned (code, q) (Dict.mem_entries.mpr hget)
        simp only [bind_ok, refuse_ok, pure_ok] at hrow
        obtain ⟨cost, hcost, -, -, rfl⟩ := hrow
        rw [hd]
        exact ⟨rfl, (need_ok.mp hcost).symm⟩
    | none =>
        have hnone : s.costBasis.get? code = none := by
          have hkeys := hs.keys code
          rw [hget, Option.isSome_none] at hkeys
          simpa using hkeys
        have hgone : d.get? (positionKey accountId code) = none := by
          rw [hothers, Dict.get?_filter]
          · cases positions.get? (positionKey accountId code) <;>
              simp [positionKey]
          · intro hmem
            obtain ⟨e, he, hkey⟩ := List.mem_map.mp hmem
            have hcode := (positionKey_inj.mp hkey).2
            rw [← hcode, Dict.mem_entries.mp he] at hget
            cases hget
        rw [hgone, hnone]
        exact ⟨rfl, rfl⟩
  · rw [hothers, Dict.get?_filter]
    · cases positions.get? (positionKey a code) <;> simp [positionKey, ha]
    · intro hmem
      obtain ⟨e, -, hkey⟩ := List.mem_map.mp hmem
      exact ha (positionKey_inj.mp hkey).1.symm
  · obtain ⟨row, hrow, -⟩ := hassigned (code, q) (Dict.mem_entries.mpr hget)
    simp only [bind_ok, refuse_ok, pure_ok, not_lt] at hrow
    obtain ⟨-, -, -, hle, -⟩ := hrow
    exact hle

/-! ## Materializing -/

variable {asOf : Stamp} {db : Db}

def upTo (cutoff : Date) (l : List LedgerTransaction) : List LedgerTransaction :=
  (sortedTransactions l).filter fun t => t.tradeDate ≤ cutoff

theorem applied_sound (hvalid : ∀ t ∈ l, Valid t)
    (h : applyTransactions (sortedTransactions l) = .ok s) : Sound s := by
  have hdates : (sortedTransactions l).Pairwise fun a b => a.tradeDate ≤ b.tradeDate :=
    (sortedTransactions_sorted l).imp fun {a b} hab => by
      rcases Prod.Lex.toLex_le_toLex.mp hab with hlt | ⟨heq, -⟩
      · exact hlt.le
      · exact heq.le
  rcases applyTransactions_spec (Valid.sorted hvalid) hdates with
    ⟨-, s', hrun, hfolds⟩ | ⟨-, e, hrun⟩
  · rw [h] at hrun
    cases hrun
    exact hfolds.sound
  · rw [h] at hrun
    cases hrun

theorem sortedTransactions_idem (l : List LedgerTransaction) :
    sortedTransactions (sortedTransactions l) = sortedTransactions l :=
  List.Pairwise.insertionSort_eq (sortedTransactions_sorted l)

structure PreparedOf (l : List LedgerTransaction) (asOf : Stamp) (p : Prepared) : Prop where
  full : applyTransactions (sortedTransactions l) = .ok p.fullState
  snapshot : applyTransactions (upTo asOf.date l) = .ok p.snapshotState

variable {grouped : Grouped}

theorem prepareAccount_ok {closes : List Close}
    {p : Prepared} (h : prepareAccount closes asOf grouped accountId = .ok p) :
    PreparedOf ((grouped.get? accountId).getD []) asOf p := by
  simp only [prepareAccount, bind_ok, need_ok, pure_ok] at h
  obtain ⟨l, hl, full, hfull, snapshot, hsnapshot, -, -, rfl⟩ := h
  rw [hl, Option.getD_some]
  rw [sortedTransactions_idem] at hsnapshot
  exact ⟨hfull, hsnapshot⟩

theorem prepareAccount_isOk {closes : List Close}
    (hl : grouped.get? accountId = some l) (hvalid : ∀ t ∈ l, Valid t)
    (hs : applyTransactions (sortedTransactions l) = .ok s) :
    ∃ p, prepareAccount closes asOf grouped accountId = .ok p := by
  obtain ⟨snapshot, hsnapshot⟩ := applyTransactions_cut (Valid.sorted hvalid)
    (sortedTransactions_sorted l) hs asOf.date
  have hvalidCut : ∀ t ∈ upTo asOf.date l, Valid t := fun t ht =>
    Valid.sorted hvalid t (List.mem_of_mem_filter ht)
  have hsortedCut : sortedTransactions (upTo asOf.date l) = upTo asOf.date l :=
    List.Pairwise.insertionSort_eq
      ((sortedTransactions_sorted l).sublist List.filter_sublist)
  have hsound : Sound snapshot := applied_sound hvalidCut (by rw [hsortedCut]; exact hsnapshot)
  obtain ⟨exposure, hexposure⟩ := exposureForPositions_isOk hsound closes asOf.date
  refine ⟨⟨s, snapshot, ledgerQualityFlags (upTo asOf.date l), exposure⟩, ?_⟩
  simp only [prepareAccount, bind_ok, need_ok, pure_ok]
  refine ⟨l, hl, s, hs, snapshot, ?_, exposure, hexposure, ?_⟩
  · rw [sortedTransactions_idem]
    exact hsnapshot
  · rw [sortedTransactions_idem]
    rfl

structure Written (db : Db) (accountId : String) (asOf : Stamp) (p : Prepared) : Prop where
  holds : Holds db accountId p.fullState
  fits : Fits p.fullState
  snapshot : db.snapshots.get? (snapshotId accountId asOf none)
    = some (snapshotRow accountId asOf p)

structure Untouched (accountIds : List String) (asOf : Stamp) (db db' : Db) : Prop where
  transactions : db'.transactions = db.transactions
  marketDaily : db'.marketDaily = db.marketDaily
  positions : ∀ a code, a ∉ accountIds →
    db'.positions.get? (positionKey a code) = db.positions.get? (positionKey a code)
  snapshots : ∀ id, (∀ a ∈ accountIds, id ≠ snapshotId a asOf none) →
    db'.snapshots.get? id = db.snapshots.get? id

theorem snapshotId_account {a a' : String} {asOf' : Stamp} {source source' : Option String}
    (h : snapshotId a asOf source = snapshotId a' asOf' source') : a = a' :=
  congrArg (fun id : SnapshotId => (ofLex id).1) h

variable {prepared : Dict String Prepared}

theorem persistWalk_ok {accountIds : List String} {db' : Db}
    (hsound : ∀ a p, prepared.get? a = some p → Sound p.fullState)
    (h : walk (persistAccount asOf prepared) db accountIds = .ok db') (hnodup : accountIds.Nodup) :
    (∀ a ∈ accountIds, ∃ p, prepared.get? a = some p ∧ Written db' a asOf p) ∧
      Untouched accountIds asOf db db' := by
  induction accountIds generalizing db with
  | nil =>
      cases h
      exact ⟨by simp, ⟨rfl, rfl, fun _ _ _ => rfl, fun _ _ => rfl⟩⟩
  | cons a rest ih =>
      obtain ⟨next, hone, hrest⟩ := walk_cons_ok.mp h
      obtain ⟨ha, hnodup⟩ := List.nodup_cons.mp hnodup
      obtain ⟨hwritten, huntouched⟩ := ih hrest hnodup
      simp only [persistAccount, bind_ok, need_ok, pure_ok] at hone
      obtain ⟨p, hp, positions, hpositions, rfl⟩ := hone
      obtain ⟨hholds, hothers, hfits⟩ := replacePositions_ok (hsound a p hp) hpositions
      refine ⟨fun a' ha' => ?_, huntouched.transactions, huntouched.marketDaily,
        fun a' code ha' => ?_, fun id hid => ?_⟩
      · rcases List.mem_cons.mp ha' with rfl | ha'
        · refine ⟨p, hp, fun code => ?_, hfits, ?_⟩
          · rw [huntouched.positions a' code ha]
            exact hholds code
          · rw [huntouched.snapshots _ fun b hb heq =>
              ha (by rw [snapshotId_account heq]; exact hb)]
            exact Dict.get?_set_self _ _ _
        · exact hwritten a' ha'
      · rw [List.mem_cons, not_or] at ha'
        rw [huntouched.positions a' code ha'.2]
        exact hothers a' code ha'.1
      · rw [huntouched.snapshots id fun b hb => hid b (List.mem_cons_of_mem a hb)]
        exact Dict.get?_set_of_ne (hid a List.mem_cons_self)

theorem persistWalk_isOk {accountIds : List String}
    (h : ∀ a ∈ accountIds, ∃ p, prepared.get? a = some p ∧ Sound p.fullState ∧ Fits p.fullState)
    (db : Db) : ∃ db', walk (persistAccount asOf prepared) db accountIds = .ok db' := by
  induction accountIds generalizing db with
  | nil => exact ⟨db, rfl⟩
  | cons a rest ih =>
      obtain ⟨p, hp, hsound, hfits⟩ := h a List.mem_cons_self
      obtain ⟨positions, hpositions⟩ :=
        replacePositions_isOk hsound hfits db.positions a asOf
      obtain ⟨db', hdb'⟩ := ih (fun b hb => h b (List.mem_cons_of_mem a hb))
        { db with
          positions := positions
          snapshots := db.snapshots.set (snapshotId a asOf none) (snapshotRow a asOf p) }
      refine ⟨db', walk_cons_ok.mpr ⟨_, ?_, hdb'⟩⟩
      simp only [persistAccount, bind_ok, need_ok, pure_ok]
      exact ⟨p, hp, positions, hpositions, rfl⟩

/-! ## The import -/

variable {i : Import} {limit : ℕ}

/-- A database whose positions are those its rows fold to. -/
structure StoreSound (db : Db) : Prop where
  ids : (db.transactions.map fun r => r.transaction.transactionId).Nodup
  accepted : ∀ r ∈ db.transactions, r.Accepted
  room : db.transactions.length ≤ maxLedgerRows.toNat
  folded : ∀ a, ∃ s, applyTransactions (sortedTransactions (db.rowsOf a)) = .ok s ∧
    Holds db a s ∧ Fits s

def Import.accounts (i : Import) : List String := i.entries.map Prod.fst

def rowsAfter (i : Import) (db : Db) (accountId : String) : List LedgerTransaction :=
  db.rowsOf accountId ++ entriesOf accountId (orderedEntries i.entries)

structure Imported (i : Import) (db db' : Db) : Prop where
  check : ∃ limit, i.check = .ok limit ∧ db.transactions.length + i.entries.length ≤ limit
  fresh : ∀ r ∈ db.transactions, r.transaction.transactionId ∉ entryIds i.entries
  transactions : db'.transactions
    = db.transactions ++ (orderedEntries i.entries).map i.stored
  marketDaily : db'.marketDaily = db.marketDaily
  written : ∀ a ∈ i.accounts, ∃ p, PreparedOf (db'.rowsOf a) i.asOf p ∧
    Written db' a i.asOf p
  positions : ∀ a code, a ∉ i.accounts →
    db'.positions.get? (positionKey a code) = db.positions.get? (positionKey a code)
  snapshots : ∀ id, (∀ a ∈ i.accounts, id ≠ snapshotId a i.asOf none) →
    db'.snapshots.get? id = db.snapshots.get? id

theorem mem_affectedAccounts {a : String} :
    a ∈ affectedAccounts (orderedEntries i.entries) ↔ a ∈ i.accounts := by
  rw [affectedAccounts, List.mem_insertionSort, List.mem_dedup, Import.accounts,
    ((orderedEntries_perm i.entries).map Prod.fst).mem_iff]

theorem affectedAccounts_nodup (l : List (String × LedgerTransaction)) :
    (affectedAccounts l).Nodup :=
  (List.perm_insertionSort _ _).nodup_iff.mpr (List.nodup_dedup _)

theorem Import.check_ok (h : i.check = .ok limit) :
    limit ≤ maxLedgerRows.toNat ∧ (entryIds i.entries).Nodup ∧ i.entries ≠ [] ∧
      ∀ e ∈ i.entries, accountIdMatches e.1 = true ∧ Valid e.2 ∧ e.2.tradeDate ≤ i.asOf.date := by
  unfold Import.check at h
  obtain ⟨n, hn, h⟩ := bind_ok.mp h
  simp only [bind_ok, refuse_ok, pure_ok, not_lt, not_not, walk_unit] at h
  obtain ⟨-, hne, -, -, -, hnodup, -, hwalk, rfl⟩ := h
  simp only [validateLedgerReplayLimit, bind_ok, refuse_ok, pure_ok, not_or, not_lt] at hn
  obtain ⟨-, ⟨-, hlimit⟩, rfl⟩ := hn
  have hperm := orderedEntries_perm i.entries
  refine ⟨Int.toNat_le_toNat hlimit, (hperm.map _).nodup_iff.mp hnodup, hne, fun e he => ?_⟩
  have hone := hwalk e (hperm.mem_iff.mpr he)
  simp only [validateImportRequest, bind_ok, refuse_ok, Bool.not_eq_false, not_lt] at hone
  obtain ⟨-, haccount, -, -, -, -, _, hvalid, hdate⟩ := hone
  exact ⟨haccount, hvalid, hdate⟩

theorem rowsOf_insertEntries (i : Import) (db : Db) (a : String) :
    (insertEntries i db).rowsOf a = rowsAfter i db a := by
  rw [rowsAfter, Db.rowsOf, insertEntries, List.filter_append, List.map_append,
    List.filter_map, List.map_map]
  rfl

theorem importGroups_ok (h : importGroups i limit db = .ok grouped) :
    db.transactions.length + i.entries.length ≤ limit ∧
      (∀ r ∈ db.transactions, r.transaction.transactionId ∉ entryIds i.entries) ∧
      (∀ a, ((grouped.get? a).getD []).Perm (rowsAfter i db a)) ∧
      ∀ a ∈ i.accounts, (grouped.get? a).isSome = true := by
  simp only [importGroups, bind_ok, refuse_ok, pure_ok, not_or, not_lt, not_exists,
    not_and] at h
  obtain ⟨-, ⟨-, hroom⟩, -, hfresh, g, hg, rfl⟩ := h
  have hperm := storedRows_perm db
  have hordered := orderedEntries_perm i.entries
  refine ⟨?_, fun r hr => ?_, fun a => ?_, fun a ha => ?_⟩
  · rw [← hperm.length_eq, ← hordered.length_eq]
    exact hroom
  · have hnot := hfresh r (hperm.mem_iff.mpr hr)
    rwa [entryIds, (hordered.map _).mem_iff] at hnot
  · rw [groupStored_ok hg, foldl_addTo, foldl_addTo, Dict.get?_empty, Option.getD_none,
      List.nil_append, entriesOf_rows, rowsAfter]
    exact ((hperm.filter _).map _).append_right _
  · rw [foldl_addTo_isSome]
    right
    rwa [(hordered.map _).mem_iff]

theorem importGroups_isOk (hdb : StoreSound db)
    (hroom : db.transactions.length + i.entries.length ≤ limit)
    (hfresh : ∀ r ∈ db.transactions, r.transaction.transactionId ∉ entryIds i.entries) :
    ∃ grouped, importGroups i limit db = .ok grouped := by
  have hperm := storedRows_perm db
  have hordered := orderedEntries_perm i.entries
  obtain ⟨g, hg⟩ : ∃ g, groupStoredTransactions db.storedRows = .ok g :=
    groupStored_isOk fun r hr => hdb.accepted r (hperm.mem_iff.mp hr)
  refine ⟨(orderedEntries i.entries).foldl addTo g, ?_⟩
  simp only [importGroups, bind_ok, refuse_ok, pure_ok, not_or, not_lt, not_exists, not_and]
  refine ⟨(), ?_, (), fun r hr => ?_, g, hg, rfl⟩
  · rw [hperm.length_eq, hordered.length_eq]
    exact ⟨(Nat.le_add_right _ _).trans hroom, hroom⟩
  · rw [entryIds, (hordered.map _).mem_iff]
    exact hfresh r (hperm.mem_iff.mp hr)

theorem rowsAfter_ids (hdb : StoreSound db) (hcheck : i.check = .ok limit)
    (hfresh : ∀ r ∈ db.transactions, r.transaction.transactionId ∉ entryIds i.entries)
    (a : String) : (rowIds (rowsAfter i db a)).Nodup := by
  obtain ⟨-, hentries, -, -⟩ := Import.check_ok hcheck
  rw [rowIds, rowsAfter, List.map_append, List.nodup_append]
  refine ⟨?_, ?_, ?_⟩
  · rw [Db.rowsOf, List.map_map]
    exact hdb.ids.sublist (List.filter_sublist.map _)
  · have hordered : (entryIds (orderedEntries i.entries)).Nodup :=
      ((orderedEntries_perm i.entries).map _).nodup_iff.mpr hentries
    rw [entriesOf, List.map_map]
    exact hordered.sublist (List.filter_sublist.map _)
  · intro x hx y hy hxy
    subst hxy
    obtain ⟨t, ht, rfl⟩ := List.mem_map.mp hx
    obtain ⟨r, hr, rfl⟩ := List.mem_map.mp ht
    obtain ⟨u, hu, hid⟩ := List.mem_map.mp hy
    obtain ⟨e, he, rfl⟩ := List.mem_map.mp hu
    refine hfresh r (List.mem_of_mem_filter hr) ?_
    rw [← hid]
    exact List.mem_map.mpr ⟨e,
      (orderedEntries_perm i.entries).mem_iff.mp (List.mem_of_mem_filter he), rfl⟩

theorem rowsAfter_valid (hdb : StoreSound db) (hcheck : i.check = .ok limit) (a : String) :
    ∀ t ∈ rowsAfter i db a, Valid t := by
  obtain ⟨-, -, -, haccepted⟩ := Import.check_ok hcheck
  intro t ht
  rcases List.mem_append.mp ht with ht | ht
  · obtain ⟨r, hr, rfl⟩ := List.mem_map.mp ht
    exact (hdb.accepted r (List.mem_of_mem_filter hr)).2
  · obtain ⟨e, he, rfl⟩ := List.mem_map.mp ht
    exact (haccepted e ((orderedEntries_perm i.entries).mem_iff.mp
      (List.mem_of_mem_filter he))).2.1

theorem importLedgerEntries_ok {results : List ImportResult} (hdb : StoreSound db)
    (h : (importLedgerEntries i db).1 = .ok results) :
    Imported i db (importLedgerEntries i db).2 := by
  unfold importLedgerEntries at h ⊢
  split at h
  · cases h
  · next limit hcheck =>
      split at h
      · cases h
      · next db' hbody =>
          simp only [importBody, bind_ok] at hbody
          obtain ⟨grouped, hgrouped, -, -, hbody⟩ := hbody
          simp only [materializeGroupedAccounts, bind_ok] at hbody
          obtain ⟨prepared, hprepared, hpersist⟩ := hbody
          obtain ⟨hroom, hfresh, hgroup, -⟩ := importGroups_ok hgrouped
          have hnodup := affectedAccounts_nodup (orderedEntries i.entries)
          obtain ⟨hdone, hothers⟩ := Dict.assignAll_ok hprepared (by simpa using hnodup)
          -- A group sorts to what the rows of its account sort to.
          have hsorted : ∀ a, sortedTransactions ((grouped.get? a).getD [])
              = sortedTransactions (rowsAfter i db a) := fun a =>
            (sortedTransactions_unique (hgroup a).symm
              (rowsAfter_ids hdb hcheck hfresh a)).symm
          have hof : ∀ a p, prepared.get? a = some p →
              PreparedOf (rowsAfter i db a) i.asOf p := by
            intro a p hp
            have hmem : a ∈ (affectedAccounts (orderedEntries i.entries)).map id := by
              by_contra hnot
              rw [hothers a hnot] at hp
              cases hp
            rw [List.map_id] at hmem
            obtain ⟨p', hp', hget⟩ := hdone a hmem
            rw [id, hp, Option.some.injEq] at hget
            subst hget
            have hprep := prepareAccount_ok hp'
            exact ⟨by rw [← hsorted a]; exact hprep.full,
              by rw [upTo, ← hsorted a]; exact hprep.snapshot⟩
          obtain ⟨hwritten, huntouched⟩ := persistWalk_ok
            (fun a p hp => applied_sound (rowsAfter_valid hdb hcheck a) (hof a p hp).full)
            hpersist hnodup
          have hrows : ∀ a, db'.rowsOf a = rowsAfter i db a := fun a => by
            rw [← rowsOf_insertEntries, Db.rowsOf, huntouched.transactions, Db.rowsOf]
          refine ⟨⟨limit, hcheck, hroom⟩, hfresh, huntouched.transactions,
            huntouched.marketDaily, fun a ha => ?_, fun a code ha => ?_, fun id hid => ?_⟩
          · obtain ⟨p, hp, hone⟩ := hwritten a (mem_affectedAccounts.mpr ha)
            refine ⟨p, ?_, hone⟩
            rw [hrows]
            exact hof a p hp
          · exact huntouched.positions a code fun h => ha (mem_affectedAccounts.mp h)
          · exact huntouched.snapshots id fun a ha => hid a (mem_affectedAccounts.mp ha)

theorem importLedgerEntries_isOk (hdb : StoreSound db) (hcheck : i.check = .ok limit)
    (hroom : db.transactions.length + i.entries.length ≤ limit)
    (hfresh : ∀ r ∈ db.transactions, r.transaction.transactionId ∉ entryIds i.entries)
    (hfold : ∀ a ∈ i.accounts, ∃ s,
      applyTransactions (sortedTransactions (rowsAfter i db a)) = .ok s ∧ Fits s) :
    ∃ results, (importLedgerEntries i db).1 = .ok results := by
  obtain ⟨grouped, hgrouped⟩ := importGroups_isOk hdb hroom hfresh
  obtain ⟨-, -, hgroup, hsome⟩ := importGroups_ok hgrouped
  have hsorted : ∀ a, sortedTransactions ((grouped.get? a).getD [])
      = sortedTransactions (rowsAfter i db a) := fun a =>
    (sortedTransactions_unique (hgroup a).symm (rowsAfter_ids hdb hcheck hfresh a)).symm
  have hlist : ∀ a ∈ affectedAccounts (orderedEntries i.entries), ∃ l s,
      grouped.get? a = some l ∧ (∀ t ∈ l, Valid t) ∧
        applyTransactions (sortedTransactions l) = .ok s ∧ Fits s := by
    intro a ha
    have ha' := mem_affectedAccounts.mp ha
    obtain ⟨l, hl⟩ := Option.isSome_iff_exists.mp (hsome a ha')
    obtain ⟨s, hs, hfits⟩ := hfold a ha'
    have hsame := hsorted a
    have hperm := hgroup a
    rw [hl, Option.getD_some] at hsame hperm
    exact ⟨l, s, hl, fun t ht => rowsAfter_valid hdb hcheck a t (hperm.mem_iff.mp ht),
      by rw [hsame]; exact hs, hfits⟩
  obtain ⟨prepared, hprepared⟩ : ∃ prepared, Dict.assignAll id
      (prepareAccount db.marketDaily i.asOf grouped) Dict.empty
      (affectedAccounts (orderedEntries i.entries)) = .ok prepared := by
    refine Dict.assignAll_isOk (fun a ha => ?_) Dict.empty
    obtain ⟨l, s, hl, hvalid, hs, -⟩ := hlist a ha
    exact prepareAccount_isOk hl hvalid hs
  obtain ⟨hdone, -⟩ := Dict.assignAll_ok hprepared
    (by simpa using affectedAccounts_nodup (orderedEntries i.entries))
  obtain ⟨db', hpersist⟩ : ∃ db', walk (persistAccount i.asOf prepared)
      (insertEntries i db) (affectedAccounts (orderedEntries i.entries)) = .ok db' := by
    refine persistWalk_isOk (fun a ha => ?_) _
    obtain ⟨l, s, hl, hvalid, hs, hfits⟩ := hlist a ha
    obtain ⟨p, hp, hget⟩ := hdone a ha
    have hfull := (prepareAccount_ok hp).full
    rw [hl, Option.getD_some, hs] at hfull
    cases hfull
    exact ⟨p, hget, applied_sound hvalid hs, hfits⟩
  have hbody : importBody i limit db = .ok db' := by
    simp only [importBody, bind_ok, materializeGroupedAccounts]
    refine ⟨grouped, hgrouped, (), ?_, prepared, hprepared, hpersist⟩
    refine walk_unit.mpr fun a ha => ?_
    obtain ⟨l, s, hl, -, hs, -⟩ := hlist a ha
    simp only [bind_ok, need_ok, pure_ok]
    exact ⟨l, hl, s, hs, trivial⟩
  unfold importLedgerEntries
  rw [hcheck]
  dsimp only
  rw [hbody]
  exact ⟨_, rfl⟩

end Ahunter.Ledger
