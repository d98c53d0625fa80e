import Ahunter.Ledger.Model
import Ahunter.Lib.Text
import Mathlib.Data.List.Dedup

/-!
# Importing into a ledger

An import validates its rows, checks them against what is stored, folds each
account it touches from its first transaction, and then writes the accounts,
the rows, the positions and a snapshot in one transaction. Positions are
those of the whole account, and a snapshot is of the account as of the date
of the import.
-/

namespace Ahunter.Ledger

open Ahunter.Lib
open Ahunter.Sim (Date Stamp Instant)

/-! ## Tables -/

structure AccountRow where
  name : String
  createdAt : Stamp
deriving DecidableEq

/-- A row of `ledger_transactions`. -/
structure StoredRow where
  accountId : String
  transaction : LedgerTransaction
  source : String
  createdAt : Stamp
deriving DecidableEq

structure PositionRow where
  quantity : ℤ
  costBasis : ℚ
  updatedAt : Stamp
deriving DecidableEq

/-- A row of `market_daily`, as far as a valuation reads it. -/
structure Close where
  code : String
  tradeDate : Date
  close : ℚ
  passed : Bool
deriving DecidableEq

inductive LedgerFlag
  | aShareLotSize
  | aShareTPlusOne
deriving DecidableEq, Repr

structure QualityFlag where
  flag : LedgerFlag
  transactionId : String
  code : String
  tradeDate : Date
  quantity : ℤ
deriving DecidableEq

inductive PricingStatus
  | passed
  | missingPrice
deriving DecidableEq, Repr

structure Exposure where
  quantity : ℤ
  costBasis : ℚ
  marketPrice : Option ℚ
  marketValue : ℚ
  unrealizedPnl : ℚ
  pricingStatus : PricingStatus
deriving DecidableEq

abbrev SnapshotId := String ×ₗ ℤ ×ₗ ℤ ×ₗ String

def snapshotId (accountId : String) (asOf : Stamp) (source : Option String) : SnapshotId :=
  toLex (accountId, toLex (asOf.instant, toLex (asOf.zone.offset, source.getD "")))

structure SnapshotRow where
  accountId : String
  asOf : Stamp
  cash : ℚ
  marketValue : ℚ
  realizedPnl : ℚ
  unrealizedPnl : ℚ
  exposure : Dict String Exposure
  pricingStatus : PricingStatus
  qualityFlags : List QualityFlag
deriving DecidableEq

abbrev PositionKey := String ×ₗ String

def positionKey (accountId code : String) : PositionKey := toLex (accountId, code)

structure Db where
  accounts : Dict String AccountRow
  transactions : List StoredRow
  positions : Dict PositionKey PositionRow
  snapshots : Dict SnapshotId SnapshotRow
  marketDaily : List Close
deriving DecidableEq

/-! ## Requests -/

structure Import where
  entries : List (String × LedgerTransaction)
  accountNames : Dict String String
  source : String
  asOf : Stamp
  maxRows : Option ℤ
deriving DecidableEq

structure ImportResult where
  accountId : String
  importedCount : ℕ
  snapshotId : SnapshotId
  asOf : Stamp
  qualityFlags : List QualityFlag
deriving DecidableEq

/-- `MAX_LEDGER_ROWS` -/
def maxLedgerRows : ℤ := 10000

/-- `validate_ledger_replay_limit(max_rows)` -/
def validateLedgerReplayLimit (maxRows : Option ℤ) : Attempt ℕ := do
  let limit := maxRows.getD maxLedgerRows
  refuse (limit ≤ 0 ∨ maxLedgerRows < limit) (.value "invalid ledger replay limit")
  pure limit.toNat

/-- `_ACCOUNT_ID_RE.fullmatch(text)` -/
def accountIdMatches : String → Bool := nameMatches ['_', '-'] 63

/-- `_SOURCE_RE.fullmatch(text)` -/
def sourceMatches : String → Bool := nameMatches ['.', '_', ':', '-'] 127

def accountNameValid (name : String) : Bool :=
  !name.toList.all isSpace && decide (name.length ≤ 256)

/-- `_validate_import_request([transaction], account_id, account_name, source,
as_of)` -/
def validateImportRequest (i : Import) (entry : String × LedgerTransaction) :
    Attempt Unit := do
  refuse (accountIdMatches entry.1 = false) (.value "invalid account id")
  refuse (∃ name ∈ i.accountNames.get? entry.1, accountNameValid name = false)
    (.value "invalid account name")
  refuse (sourceMatches i.source = false) (.value "invalid source")
  validateLedgerTransaction entry.2
  refuse (i.asOf.date < entry.2.tradeDate)
    (.value "transaction trade_date is after as_of")

/-- `sorted(entries, key=lambda item: (item[0], ledger_transaction_sort_key(item[1])))` -/
def orderedEntries (entries : List (String × LedgerTransaction)) :
    List (String × LedgerTransaction) :=
  entries.insertionSort fun a b =>
    (toLex (a.1, ledgerTransactionSortKey a.2) : String ×ₗ SortKey)
      ≤ toLex (b.1, ledgerTransactionSortKey b.2)

def entryIds (entries : List (String × LedgerTransaction)) : List String :=
  entries.map fun e => e.2.transactionId

def Import.check (i : Import) : Attempt ℕ := do
  let limit ← validateLedgerReplayLimit i.maxRows
  refuse (i.entries = []) (.value "transactions are required")
  refuse (limit < i.entries.length) (.capacity "ledger import exceeds row limit")
  refuse (¬ (entryIds (orderedEntries i.entries)).Nodup) (.value "duplicate transaction id")
  walk (fun _ e => validateImportRequest i e) () (orderedEntries i.entries)
  pure limit

/-! ## Grouping -/

abbrev Grouped := Dict String (List LedgerTransaction)

/-- `grouped.setdefault(account_id, []).append(transaction)` -/
def addTo (grouped : Grouped) (entry : String × LedgerTransaction) : Grouped :=
  grouped.set entry.1 ((grouped.get? entry.1).getD [] ++ [entry.2])

def Db.storedRows (db : Db) : List StoredRow :=
  db.transactions.insertionSort fun a b =>
    (toLex (a.accountId, ledgerTransactionSortKey a.transaction) : String ×ₗ SortKey)
      ≤ toLex (b.accountId, ledgerTransactionSortKey b.transaction)

/-- `_group_stored_transactions(rows)` -/
def groupStoredTransactions (rows : List StoredRow) : Attempt Grouped :=
  walk (fun grouped row => do
    refuse (accountIdMatches row.accountId = false) (.value "invalid stored ledger account")
    validateLedgerTransaction row.transaction
    pure (addTo grouped (row.accountId, row.transaction))) Dict.empty rows

/-! ## Valuation -/

def lastClose (closes : List Close) (code : String) (cutoff : Date) : Option ℚ :=
  ((closes.filter fun c => c.code = code ∧ c.passed = true ∧ c.tradeDate ≤ cutoff).foldl
    (fun (best : Option Close) c =>
      if ∀ b ∈ best, b.tradeDate < c.tradeDate then some c else best) none).map Close.close

/-- One entry of `_exposure_for_positions`. -/
def exposureOf (price : Option ℚ) (quantity : ℤ) (costBasis : ℚ) : Exposure :=
  let marketValue := price.elim 0 fun p => quantity * p
  { quantity := quantity
    costBasis := costBasis
    marketPrice := price
    marketValue := marketValue
    unrealizedPnl := price.elim 0 fun _ => marketValue - costBasis
    pricingStatus := if price.isSome then .passed else .missingPrice }

/-- `state.cost_basis[code]` -/
def costOf (s : LedgerState) (code : String) : Attempt ℚ :=
  need (s.costBasis.get? code) (.missingKey code)

/-- `_exposure_for_positions(connection, rows, cutoff)` for the positions of a
state. -/
def exposureForPositions (closes : List Close) (s : LedgerState) (cutoff : Date) :
    Attempt (Dict String Exposure) :=
  Dict.assignAll Prod.fst (fun e => do
    let cost ← costOf s e.1
    pure (exposureOf (lastClose closes e.1 cutoff) e.2 cost))
    Dict.empty s.positions.entries

/-- What `_ledger_quality_flags` carries from one transaction to the next. -/
structure QualityState where
  flags : List QualityFlag
  positions : Dict String ℤ
  activeDate : Option Date
  openingPositions : Dict String ℤ
  soldToday : Dict String ℤ

def QualityState.start : QualityState := ⟨[], Dict.empty, none, Dict.empty, Dict.empty⟩

def QualityState.raise (q : QualityState) (flag : LedgerFlag) (t : LedgerTransaction)
    (code : String) : QualityState :=
  { q with flags := q.flags ++ [⟨flag, t.transactionId, code, t.tradeDate, t.quantity⟩] }

/-- `counts.get(code, 0)` -/
def countOf (d : Dict String ℤ) (code : String) : ℤ := (d.get? code).getD 0

/-- A new date opens with what is held and nothing sold. -/
def QualityState.turn (q : QualityState) (t : LedgerTransaction) : QualityState :=
  if some t.tradeDate = q.activeDate then q
  else { q with
    activeDate := some t.tradeDate
    openingPositions := q.positions
    soldToday := Dict.empty }

def QualityState.buy (q : QualityState) (t : LedgerTransaction) (code : String) :
    QualityState :=
  let q := if t.quantity % 100 ≠ 0 then q.raise .aShareLotSize t code else q
  { q with positions := q.positions.set code (countOf q.positions code + t.quantity) }

def QualityState.sell (q : QualityState) (t : LedgerTransaction) (code : String) :
    QualityState :=
  let sold := countOf q.soldToday code + t.quantity
  let q := { q with soldToday := q.soldToday.set code sold }
  let q := if countOf q.openingPositions code < sold then q.raise .aShareTPlusOne t code
    else q
  { q with positions := q.positions.set code (countOf q.positions code - t.quantity) }

def QualityState.next (q : QualityState) (t : LedgerTransaction) : QualityState :=
  let q := q.turn t
  match t.transactionType, t.code with
  | .buy, some code => q.buy t code
  | .sell, some code => q.sell t code
  | _, _ => q

/-- `_ledger_quality_flags(transactions)` -/
def ledgerQualityFlags (l : List LedgerTransaction) : List QualityFlag :=
  (l.foldl QualityState.next QualityState.start).flags

/-! ## Materializing -/

structure Prepared where
  fullState : LedgerState
  snapshotState : LedgerState
  qualityFlags : List QualityFlag
  exposure : Dict String Exposure

/-- The first loop of `_materialize_grouped_accounts`. -/
def prepareAccount (closes : List Close) (asOf : Stamp) (grouped : Grouped)
    (accountId : String) : Attempt Prepared := do
  let stored ← need (grouped.get? accountId) (.missingKey accountId)
  let transactions := sortedTransactions stored
  let fullState ← applyTransactions transactions
  let snapshotTransactions := (sortedTransactions transactions).filter
    fun t => t.tradeDate ≤ asOf.date
  let snapshotState ← applyTransactions snapshotTransactions
  let exposure ← exposureForPositions closes snapshotState asOf.date
  pure ⟨fullState, snapshotState, ledgerQualityFlags snapshotTransactions, exposure⟩

/-- `_replace_positions(connection, account_id, state, updated_at)` -/
def replacePositions (positions : Dict PositionKey PositionRow) (accountId : String)
    (s : LedgerState) (updatedAt : Stamp) : Attempt (Dict PositionKey PositionRow) :=
  Dict.assignAll (fun e => positionKey accountId e.1) (fun e => do
    let cost ← costOf s e.1
    refuse (maxSqliteInteger < e.2) .overflow
    pure ⟨e.2, cost, updatedAt⟩)
    (positions.filter fun k _ => (ofLex k).1 ≠ accountId) s.positions.entries

/-- `_persist_snapshot(…)` -/
def snapshotRow (accountId : String) (asOf : Stamp) (p : Prepared) : SnapshotRow where
  accountId := accountId
  asOf := asOf
  cash := p.snapshotState.cash
  marketValue := p.exposure.sum fun _ e => e.marketValue
  realizedPnl := p.snapshotState.realizedPnl
  unrealizedPnl := p.exposure.sum fun _ e => e.unrealizedPnl
  exposure := p.exposure
  pricingStatus :=
    if p.exposure.values.all (fun e => decide (e.pricingStatus = .passed)) then .passed
    else .missingPrice
  qualityFlags := p.qualityFlags

/-- One round of the second loop of `_materialize_grouped_accounts`. -/
def persistAccount (asOf : Stamp) (prepared : Dict String Prepared) (db : Db)
    (accountId : String) : Attempt Db := do
  let p ← need (prepared.get? accountId) (.missingKey accountId)
  let positions ← replacePositions db.positions accountId p.fullState asOf
  pure { db with
    positions := positions
    snapshots := db.snapshots.set (snapshotId accountId asOf none)
      (snapshotRow accountId asOf p) }

/-- `_materialize_grouped_accounts(connection, grouped, account_ids, as_of)` -/
def materializeGroupedAccounts (grouped : Grouped) (accountIds : List String)
    (asOf : Stamp) (db : Db) : Attempt Db := do
  let prepared ← Dict.assignAll id (prepareAccount db.marketDaily asOf grouped)
    Dict.empty accountIds
  walk (persistAccount asOf prepared) db accountIds

/-! ## The import -/

/-- `tuple(sorted({account_id for account_id, _ in ordered_entries}))` -/
def affectedAccounts (entries : List (String × LedgerTransaction)) : List String :=
  (entries.map Prod.fst).dedup.insertionSort (· ≤ ·)

/-- `INSERT INTO ledger_accounts … ON CONFLICT(account_id) DO NOTHING` -/
def addAccount (i : Import) (accounts : Dict String AccountRow) (accountId : String) :
    Dict String AccountRow :=
  if accounts.contains accountId then accounts
  else accounts.set accountId ⟨(i.accountNames.get? accountId).getD accountId, i.asOf⟩

def Import.stored (i : Import) (entry : String × LedgerTransaction) : StoredRow :=
  ⟨entry.1, entry.2, i.source, i.asOf⟩

def importGroups (i : Import) (limit : ℕ) (db : Db) : Attempt Grouped := do
  let ordered := orderedEntries i.entries
  let existing := db.storedRows
  refuse (limit < existing.length ∨ limit < existing.length + ordered.length)
    (.capacity "ledger history exceeds replay limit")
  refuse (∃ row ∈ existing, row.transaction.transactionId ∈ entryIds ordered)
    (.conflict "duplicate transaction id")
  let grouped ← groupStoredTransactions existing
  pure (ordered.foldl addTo grouped)

def insertEntries (i : Import) (db : Db) : Db :=
  { db with
    accounts := (affectedAccounts (orderedEntries i.entries)).foldl (addAccount i) db.accounts
    transactions := db.transactions ++ (orderedEntries i.entries).map i.stored }

/-- The transaction of `import_ledger_entries(…)`. -/
def importBody (i : Import) (limit : ℕ) (db : Db) : Attempt Db := do
  let grouped ← importGroups i limit db
  let affected := affectedAccounts (orderedEntries i.entries)
  walk (fun _ a => do
    let l ← need (grouped.get? a) (.missingKey a)
    let _ ← applyTransactions (sortedTransactions l)
    pure ()) () affected
  materializeGroupedAccounts grouped affected i.asOf (insertEntries i db)

def Import.result (i : Import) (db : Db) (accountId : String) : ImportResult where
  accountId := accountId
  importedCount := (i.entries.filter fun e => e.1 = accountId).length
  snapshotId := snapshotId accountId i.asOf none
  asOf := i.asOf
  qualityFlags := ((db.snapshots.get? (snapshotId accountId i.asOf none)).map
    SnapshotRow.qualityFlags).getD []

/-- `import_ledger_entries(entries, …)`: a transaction that raises is rolled
back. -/
def importLedgerEntries (i : Import) (db : Db) : Attempt (List ImportResult) × Db :=
  match i.check with
  | .error e => (.error e, db)
  | .ok limit =>
      match importBody i limit db with
      | .error e => (.error e, db)
      | .ok db' => (.ok ((affectedAccounts (orderedEntries i.entries)).map (i.result db')), db')

/-- `LedgerStore.replay(max_rows=…)` -/
def replay (maxRows : Option ℤ) (db : Db) : Attempt (Dict String LedgerState) := do
  let limit ← validateLedgerReplayLimit maxRows
  refuse (limit < db.storedRows.length) (.capacity "ledger history exceeds replay limit")
  let grouped ← walk (fun grouped (row : StoredRow) => do
    validateLedgerTransaction row.transaction
    pure (addTo grouped (row.accountId, row.transaction))) Dict.empty db.storedRows
  Dict.assignAll Prod.fst (fun e => applyTransactions (sortedTransactions e.2))
    Dict.empty grouped.entries

/-- A database without a ledger. -/
def Db.fresh (marketDaily : List Close) : Db :=
  ⟨Dict.empty, [], Dict.empty, Dict.empty, marketDaily⟩

end Ahunter.Ledger
