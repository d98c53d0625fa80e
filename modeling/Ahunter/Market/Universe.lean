import Ahunter.Lib.Greatest
import Ahunter.Market.Research
import Ahunter.Market.Sessions
import Ahunter.Research.Requests

/-!
# Sealing a universe

The exchanges list a security on several pages: as traded, as suspended, as
delisted. The builder groups the records by code, refuses a code whose records
contradict one another, and keeps one record of each: the one of the latest
status, then of the latest source time as a text, then of the last source.

The hash of a universe is a function of its securities and is left out.
-/

namespace Ahunter.Market

open Ahunter.Lib
open Ahunter.Sim (Date Stamp)

inductive SecurityStatus
  | active
  | suspended
  | delisted
deriving DecidableEq, Repr

/-- The content of a `MarketSecurity`; the proofs are its `__post_init__`. -/
@[ext] structure MarketSecurity where
  code : String
  name : String
  exchange : Exchange
  listDate : Date
  delistDate : Option Date
  status : SecurityStatus
  isSt : Bool
  source : String
  sourceAt : Stamp
  codeValid : isCode code = true
  notReceipt : code.startsWith "689" = false
  exchangeOf : exchangeForCode code = .ok exchange
  interval : ∀ d ∈ delistDate, listDate ≤ d
  ended : status = .delisted → delistDate ≠ none
  nameText : strip name = name ∧ name ≠ "" ∧ name.length ≤ 256
  sourceText : IsText source

instance : DecidableEq MarketSecurity := fun _ _ => decidable_of_iff _ MarketSecurity.ext_iff.symm

/-- `UniverseError(message)` -/
def universeError (message : String) : MarketError := ⟨.other, message⟩

/-- `MarketContractError(message)` -/
def contractError (message : String) : MarketError := ⟨.value, message⟩

/-- `_STATUS_PRIORITY[status]` -/
def SecurityStatus.priority : SecurityStatus → ℕ
  | .active => 0
  | .suspended => 1
  | .delisted => 2

/-- `ExchangeSecurity`; the proofs are its `__post_init__`. -/
@[ext] structure ExchangeSecurity where
  code : String
  name : String
  exchange : Exchange
  listDate : Date
  delistDate : Option Date
  status : SecurityStatus
  source : String
  sourceAt : Stamp
  fetchedAt : Stamp
  isSt : Bool
  codeValid : isCode code = true
  notReceipt : code.startsWith "689" = false
  exchangeOf : exchangeForCode code = .ok exchange
  interval : ∀ d ∈ delistDate, listDate ≤ d
  ended : status = .delisted → delistDate ≠ none
  named : name ≠ "" ∧ source ≠ ""

instance : DecidableEq ExchangeSecurity := fun _ _ => decidable_of_iff _ ExchangeSecurity.ext_iff.symm

/-- A `MarketSecurity` with what its content leaves out: its source as it was
given, and when it was fetched. -/
structure SealedSecurity where
  content : MarketSecurity
  source : String
  fetchedAt : Stamp
deriving DecidableEq

/-- `_require_text(value, field_name, maximum)`, of which the text is kept. -/
def contractTextOf (value field : String) (maximum : ℕ) :
    Attempt {text : String // strip text = text ∧ text ≠ "" ∧ text.length ≤ maximum} :=
  if h : strip value ≠ "" ∧ value.length ≤ maximum then
    .ok ⟨strip value, strip_strip value, h.1, (length_strip value).trans h.2⟩
  else .error (contractError s!"{field} must be non-empty text")

/-- `to_market_security()`; what else the contract checks, the record was
checked for. -/
def ExchangeSecurity.toMarketSecurity (r : ExchangeSecurity) : Attempt SealedSecurity := do
  let name ← contractTextOf r.name "name" 256
  let source ← contractTextOf r.source "source" 128
  pure ⟨⟨r.code, name.1, r.exchange, r.listDate, r.delistDate, r.status, r.isSt, source.1,
    r.sourceAt, r.codeValid, r.notReceipt, r.exchangeOf, r.interval, r.ended, name.2,
    source.2⟩, r.source, r.fetchedAt⟩

def ExchangeSecurity.key (r : ExchangeSecurity) :
    ℕ ×ₗ (ℤ ×ₗ Bool ×ₗ ℤ) ×ₗ String :=
  toLex (r.status.priority, toLex (isoKey r.sourceAt, r.source))

/-- `known_delist_dates` -/
def knownDelistDates (records : List ExchangeSecurity) : Finset Date :=
  (records.filterMap fun r => r.delistDate).toFinset

def checkCandidate (code : String) (first candidate : ExchangeSecurity) : Attempt Unit := do
  refuse (candidate.exchange ≠ first.exchange) (universeError s!"{code} 的交易所信息冲突")
  refuse (candidate.listDate ≠ first.listDate) (universeError s!"{code} 的上市区间信息冲突")
  refuse (candidate.name ≠ first.name) (universeError s!"{code} 的证券简称信息冲突")

def sealCode (code : String) : List ExchangeSecurity → Attempt SealedSecurity
  | [] => .error (universeError "交易所没有返回可用普通 A 股")
  | first :: rest => do
      refuse (1 < (knownDelistDates (first :: rest)).card)
        (universeError s!"{code} 的上市区间信息冲突")
      walk (fun _ candidate => checkCandidate code first candidate) () rest
      (greatest ExchangeSecurity.key first rest).toMarketSecurity

/-- `sorted(grouped)` -/
def codesOf (records : List ExchangeSecurity) : List String :=
  (Dict.ofList (records.map fun r => (r.code, ()))).keys

/-- `grouped[code]` -/
def recordsFor (records : List ExchangeSecurity) (code : String) : List ExchangeSecurity :=
  records.filter fun r => r.code = code

/-- `seal(records)`: the securities of the snapshot, which come in the order of
their codes. -/
def sealUniverse (records : List ExchangeSecurity) : Attempt (List SealedSecurity) := do
  refuse (records = []) (universeError "交易所没有返回可用普通 A 股")
  gather (fun code => sealCode code (recordsFor records code)) (codesOf records)

end Ahunter.Market
