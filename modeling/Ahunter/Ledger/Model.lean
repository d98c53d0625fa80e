import Ahunter.Lib.Dict
import Ahunter.Sim.Time
import Mathlib.Data.String.Basic

/-!
# The ledger of an account

Transactions in date order, folded into what the account holds: cash, the
shares of each code, what they cost, and what selling them has realized.
Amounts are exact rationals, so every check that a number is finite holds.

The fold mutates the state it is given, and an operation that raises may
have mutated it before. A step is therefore from a state to a verdict and
the state it leaves, and the copies the source takes before a day are what
keeps a failed day from being seen.
-/

namespace Ahunter.Ledger

open Ahunter.Lib
open Ahunter.Sim (Date)

/-! ## Transactions -/

inductive LedgerError
  | value (message : String)
  | zeroDivision
  | missingKey (key : String)
  | overflow
  | capacity (message : String)
  | conflict (message : String)
deriving DecidableEq, Repr

abbrev Attempt (α : Type) := Except LedgerError α

inductive TransactionType
  | cashDeposit
  | cashWithdrawal
  | buy
  | sell
  | fee
  | tax
deriving DecidableEq, Repr

structure LedgerTransaction where
  transactionId : String
  tradeDate : Date
  transactionType : TransactionType
  code : Option String
  quantity : ℤ
  price : ℚ
  amount : ℚ
  fees : ℚ
deriving DecidableEq

/-- `_MAX_SQLITE_INTEGER` -/
def maxSqliteInteger : ℤ := 2 ^ 63 - 1

/-- The zero of each run of ten decimal digits `\d` matches. -/
def decimalZeros : List ℕ := [
  0x30, 0x660, 0x6F0, 0x7C0, 0x966, 0x9E6, 0xA66, 0xAE6, 0xB66, 0xBE6, 0xC66, 0xCE6,
  0xD66, 0xDE6, 0xE50, 0xED0, 0xF20, 0x1040, 0x1090, 0x17E0, 0x1810, 0x1946, 0x19D0,
  0x1A80, 0x1A90, 0x1B50, 0x1BB0, 0x1C40, 0x1C50, 0xA620, 0xA8D0, 0xA900, 0xA9D0,
  0xA9F0, 0xAA50, 0xABF0, 0xFF10, 0x104A0, 0x10D30, 0x11066, 0x110F0, 0x11136, 0x111D0,
  0x112F0, 0x11450, 0x114D0, 0x11650, 0x116C0, 0x11730, 0x118E0, 0x11950, 0x11C50,
  0x11D50, 0x11DA0, 0x11F50, 0x16A60, 0x16AC0, 0x16B50, 0x1D7CE, 0x1D7D8, 0x1D7E2,
  0x1D7EC, 0x1D7F6, 0x1E140, 0x1E2F0, 0x1E4F0, 0x1E950, 0x1FBF0]

def isDecimal (c : Char) : Bool :=
  decimalZeros.any fun z => decide (z ≤ c.toNat ∧ c.toNat < z + 10)

/-- `_CODE_RE.fullmatch(text)` -/
def codeMatches (text : String) : Bool :=
  match text.toList with
  | c :: rest => "03468".toList.contains c && rest.length == 5 && rest.all isDecimal
  | [] => false

/-- A letter or digit followed by at most `most` characters of a set, as the
identifier patterns have it. -/
def nameMatches (extra : List Char) (most : ℕ) (text : String) : Bool :=
  match text.toList with
  | c :: rest => c.isAlphanum && decide (rest.length ≤ most)
      && rest.all fun c => c.isAlphanum || extra.contains c
  | [] => false

/-- `_TRANSACTION_ID_RE.fullmatch(text)` -/
def transactionIdMatches : String → Bool := nameMatches ['.', '_', ':', '-'] 127

/-- `math.isclose(a, b, rel_tol=1e-9, abs_tol=1e-6)` -/
def isClose (a b : ℚ) : Bool :=
  decide (|a - b| ≤ max (1 / 1000000000 * max |a| |b|) (1 / 1000000))

def isTrade : TransactionType → Bool
  | .buy | .sell => true
  | _ => false

def validateTrade (t : LedgerTransaction) : Attempt Unit := do
  refuse (¬ ∃ c ∈ t.code, codeMatches c = true)
    (.value "trade requires valid stock code")
  refuse (t.quantity ≤ 0 ∨ t.price ≤ 0 ∨ t.fees < 0)
    (.value "invalid trade quantity, price, or fees")
  refuse (t.transactionType = .buy ∧ 0 ≤ t.amount)
    (.value "buy amount must be negative")
  refuse (t.transactionType = .sell ∧ t.amount ≤ 0)
    (.value "sell amount must be positive")
  refuse (isClose |t.amount| (t.quantity * t.price) = false)
    (.value "trade amount does not match quantity and price")

def validateCash (t : LedgerTransaction) : Attempt Unit := do
  refuse (t.code ≠ none ∨ t.quantity ≠ 0 ∨ t.price ≠ 0 ∨ t.fees ≠ 0)
    (.value "invalid cash transaction")
  refuse (t.transactionType = .cashDeposit ∧ t.amount ≤ 0)
    (.value "cash deposit must be positive")
  refuse (t.transactionType ≠ .cashDeposit ∧ 0 ≤ t.amount)
    (.value "cash outflow must be negative")

/-- `validate_ledger_transaction(transaction)` -/
def validateLedgerTransaction (t : LedgerTransaction) : Attempt Unit := do
  refuse (transactionIdMatches t.transactionId = false) (.value "invalid transaction id")
  refuse (¬ (0 ≤ t.quantity ∧ t.quantity ≤ maxSqliteInteger)) (.value "invalid quantity")
  if isTrade t.transactionType then validateTrade t else validateCash t

/-- The order of a ledger, by trade date and then by identity. -/
abbrev SortKey := Date ×ₗ String

/-- `ledger_transaction_sort_key(transaction)` -/
def ledgerTransactionSortKey (t : LedgerTransaction) : SortKey :=
  toLex (t.tradeDate, t.transactionId)

/-- `sorted(transactions, key=ledger_transaction_sort_key)` -/
def sortedTransactions (l : List LedgerTransaction) : List LedgerTransaction :=
  l.insertionSort fun a b => ledgerTransactionSortKey a ≤ ledgerTransactionSortKey b

/-! ## States -/

structure LedgerState where
  cash : ℚ
  positions : Dict String ℤ
  costBasis : Dict String ℚ
  realizedPnl : ℚ
deriving DecidableEq

/-- `LedgerState()` -/
def LedgerState.new : LedgerState := ⟨0, Dict.empty, Dict.empty, 0⟩

/-- A statement that may raise: its verdict and the state it leaves. -/
abbrev Mutation := LedgerState → Attempt Unit × LedgerState

def TransactionType.text : TransactionType → String
  | .cashDeposit => "cash_deposit"
  | .cashWithdrawal => "cash_withdrawal"
  | .buy => "buy"
  | .sell => "sell"
  | .fee => "fee"
  | .tax => "tax"

/-- `_require_code(tx)` -/
def requireCode (t : LedgerTransaction) : Attempt String :=
  need t.code (.value s!"{t.transactionType.text} transaction requires code")

/-- `positions.get(code, 0)` -/
def LedgerState.held (s : LedgerState) (code : String) : ℤ :=
  (s.positions.get? code).getD 0

/-- `cost_basis.get(code, 0.0)` -/
def LedgerState.cost (s : LedgerState) (code : String) : ℚ :=
  (s.costBasis.get? code).getD 0

/-- A purchase. -/
def LedgerState.bought (s : LedgerState) (code : String) (t : LedgerTransaction) :
    LedgerState where
  cash := s.cash + (t.amount - t.fees)
  positions := s.positions.set code (s.held code + t.quantity)
  costBasis := s.costBasis.set code (s.cost code + |t.amount| + t.fees)
  realizedPnl := s.realizedPnl

def LedgerState.soldCost (s : LedgerState) (code : String) (t : LedgerTransaction) : ℚ :=
  s.cost code * (t.quantity / s.held code)

/-- A sale, of everything or of a part. -/
def LedgerState.sold (s : LedgerState) (code : String) (t : LedgerTransaction) :
    LedgerState where
  cash := s.cash + (t.amount - t.fees)
  positions :=
    if s.held code - t.quantity = 0 then s.positions.erase code
    else s.positions.set code (s.held code - t.quantity)
  costBasis :=
    if s.held code - t.quantity = 0 then s.costBasis.erase code
    else s.costBasis.set code (s.cost code - s.soldCost code t)
  realizedPnl := s.realizedPnl + (t.amount - t.fees - s.soldCost code t)

def applied (s : LedgerState) (t : LedgerTransaction) : Attempt LedgerState :=
  match t.transactionType with
  | .cashDeposit | .cashWithdrawal | .fee | .tax =>
      .ok { s with cash := s.cash + t.amount }
  | .buy => do
      let code ← requireCode t
      pure (s.bought code t)
  | .sell => do
      let code ← requireCode t
      refuse (s.held code < t.quantity) (.value
        s!"cannot sell {t.quantity} shares of {code}; only {s.held code} held")
      refuse (s.held code = 0) .zeroDivision
      pure (s.sold code t)

/-- `_apply_single_transaction(state, tx)`. Everything it can raise it raises
before it has written anything. -/
def applySingleTransaction (t : LedgerTransaction) : Mutation := fun s =>
  match applied s t with
  | .ok s' => (.ok (), s')
  | .error e => (.error e, s)

/-- `for tx in transactions: _apply_single_transaction(state, tx)` -/
def applyEach : List LedgerTransaction → Mutation
  | [] => fun s => (.ok (), s)
  | t :: rest => fun s =>
      match applySingleTransaction t s with
      | (.ok (), s') => applyEach rest s'
      | (.error e, s') => (.error e, s')

/-! ## Days -/

def tallied (type : TransactionType) :
    Dict String ℤ → LedgerTransaction → Attempt (Dict String ℤ) := fun d t =>
  if t.transactionType = type then do
    let code ← requireCode t
    pure (d.set code ((d.get? code).getD 0 + t.quantity))
  else .ok d

/-- `_same_day_net_available(opening_state, transactions)` -/
def sameDayNetAvailable (opening : LedgerState) (day : List LedgerTransaction) :
    Attempt Bool := do
  let buys ← walk (tallied .buy) Dict.empty day
  let sells ← walk (tallied .sell) Dict.empty day
  pure (sells.entries.all fun e =>
    decide (e.2 ≤ opening.held e.1 + (buys.get? e.1).getD 0))

def fallbackOrder (day : List LedgerTransaction) : List LedgerTransaction :=
  day.insertionSort fun a b =>
    (toLex (decide (a.transactionType = .sell), a.transactionId) : Bool ×ₗ String)
      ≤ toLex (decide (b.transactionType = .sell), b.transactionId)

def applyFallback (day : List LedgerTransaction) : Mutation := fun s =>
  match applyEach (fallbackOrder day) s with
  | (.ok (), fallback) => (.ok (), fallback)
  | (.error e, _) => (.error e, s)

/-- `_apply_same_day_transactions(state, transactions)` -/
def applySameDayTransactions (day : List LedgerTransaction) : Mutation := fun s =>
  match applyEach day s with
  | (.ok (), candidate) => (.ok (), candidate)
  | (.error (.value message), _) =>
      match sameDayNetAvailable s day with
      | .error e => (.error e, s)
      | .ok false => (.error (.value message), s)
      | .ok true => applyFallback day s
  | (.error e, _) => (.error e, s)

/-! ## The fold -/

/-- The loop of `apply_transactions(transactions)`, with its open day. -/
def applyDays (active : Option Date) (day : List LedgerTransaction) :
    List LedgerTransaction → Mutation
  | [] => fun s => if day = [] then (.ok (), s) else applySameDayTransactions day s
  | t :: rest => fun s =>
      if active.getD t.tradeDate = t.tradeDate then
        applyDays (some (active.getD t.tradeDate)) (day ++ [t]) rest s
      else
        match applySameDayTransactions day s with
        | (.ok (), s') => applyDays (some t.tradeDate) [t] rest s'
        | (.error e, s') => (.error e, s')

/-- `apply_transactions(transactions)` -/
def applyTransactions (l : List LedgerTransaction) : Attempt LedgerState :=
  match applyDays none [] l LedgerState.new with
  | (.ok (), s) => .ok s
  | (.error e, _) => .error e

end Ahunter.Ledger
