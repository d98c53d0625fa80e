import Ahunter.Market.Control

/-!
# The repository of market facts

Daily bars, proven absences and adjustment factors, each kept under the code
and the date it is about. A bar and an absence are never rewritten by a later
source, a factor is. Every operation is one transaction.

A content hash covers everything of a fact but the time it was fetched, so a
fact is a content and that time, and two hashes agree when the contents do.
Every row that the operations write has passed quality, which leaves the
column out of the model.
-/

namespace Ahunter.Market

open Ahunter.Lib
open Ahunter.Sim (Date Stamp Zone civil)

def valueError (message : String) : MarketError := ⟨.value, message⟩

/-- The text of `KeyError((code, trade_date))`. -/
def keyError (code : String) (day : Date) : MarketError :=
  let (y, m, d) := civil day
  ⟨.key, "(\x27" ++ code ++ s!"\x27, datetime.date({y}, {m}, {d}))"⟩

/-! ## Facts -/

structure Fetched (α : Type) where
  content : α
  fetchedAt : Stamp
deriving DecidableEq

def shanghai : Zone := ⟨28800000000⟩

/-- `_market_date(value)` -/
def marketDate (at_ : Stamp) : Date := shanghai.date at_.instant

/-- What `_require_text(value, field_name, maximum=128)` returns. -/
def IsText (value : String) : Prop :=
  strip value = value ∧ value ≠ "" ∧ value.length ≤ 128

instance (value : String) : Decidable (IsText value) :=
  inferInstanceAs (Decidable (_ ∧ _))

/-- The content of a `CanonicalDailyBar`; the proofs are its `__post_init__`. -/
@[ext] structure CanonicalDailyBar where
  code : String
  tradeDate : Date
  opening : ℚ
  high : ℚ
  low : ℚ
  close : ℚ
  volume : ℕ
  amount : Option ℚ
  source : String
  sourceAt : Stamp
  asOfDate : Date
  codeValid : isCode code = true
  observed : tradeDate ≤ asOfDate ∧ asOfDate ≤ marketDate sourceAt
  pricesPositive : 0 < opening ∧ 0 < high ∧ 0 < low ∧ 0 < close
  bounds : (low ≤ opening ∧ opening ≤ high) ∧ low ≤ close ∧ close ≤ high
  amountNonneg : ∀ a ∈ amount, 0 ≤ a
  sourceText : IsText source

instance : DecidableEq CanonicalDailyBar := fun _ _ => decidable_of_iff _ CanonicalDailyBar.ext_iff.symm

/-- The content of a `MarketAbsence`, whose reason is always "suspended". -/
@[ext] structure MarketAbsence where
  code : String
  tradeDate : Date
  source : String
  sourceAt : Stamp
  codeValid : isCode code = true
  observed : tradeDate ≤ marketDate sourceAt
  sourceText : IsText source

instance : DecidableEq MarketAbsence := fun _ _ => decidable_of_iff _ MarketAbsence.ext_iff.symm

/-- The content of an `AdjustmentFactor`. -/
@[ext] structure AdjustmentFactor where
  code : String
  tradeDate : Date
  factor : ℚ
  source : String
  sourceAt : Stamp
  algorithmVersion : String
  codeValid : isCode code = true
  positive : 0 < factor
  observed : tradeDate ≤ marketDate sourceAt
  sourceText : IsText source
  versionText : IsText algorithmVersion

instance : DecidableEq AdjustmentFactor := fun _ _ => decidable_of_iff _ AdjustmentFactor.ext_iff.symm

abbrev FactKey := String ×ₗ Date

def factKey (code : String) (day : Date) : FactKey := toLex (code, day)

def CanonicalDailyBar.key (b : CanonicalDailyBar) : FactKey := factKey b.code b.tradeDate

def MarketAbsence.key (a : MarketAbsence) : FactKey := factKey a.code a.tradeDate

def AdjustmentFactor.key (f : AdjustmentFactor) : FactKey := factKey f.code f.tradeDate

/-- A row of `market_daily_repairs`. -/
structure RepairRow where
  key : FactKey
  previous : CanonicalDailyBar
  replacement : CanonicalDailyBar
  reason : String
  repairedAt : Stamp
deriving DecidableEq

structure Facts where
  bars : Dict FactKey (Fetched CanonicalDailyBar)
  absences : Dict FactKey (Fetched MarketAbsence)
  factors : Dict FactKey (Fetched AdjustmentFactor)
  repairs : List RepairRow
deriving DecidableEq

def Facts.empty : Facts := ⟨Dict.empty, Dict.empty, Dict.empty, []⟩

/-! ## Insertions -/

inductive Outcome
  | inserted
  | updated
  | unchanged
  | conflicted
deriving DecidableEq, Repr

section Rows

variable {α : Type} [DecidableEq α]

def insertRow (k : FactKey) (fact : Fetched α) (d : Dict FactKey (Fetched α)) :
    Outcome × Dict FactKey (Fetched α) :=
  match d.get? k with
  | some old => (if old.content = fact.content then .unchanged else .conflicted, d)
  | none => (.inserted, d.set k fact)

def upsertRow (k : FactKey) (fact : Fetched α) (d : Dict FactKey (Fetched α)) :
    Outcome × Dict FactKey (Fetched α) :=
  match d.get? k with
  | some old => if old.content = fact.content then (.unchanged, d) else (.updated, d.set k fact)
  | none => (.inserted, d.set k fact)

end Rows

theorem noAmount_nonneg : ∀ a ∈ (none : Option ℚ), 0 ≤ a := by simp

/-- `insert_bar(bar)`, which is `_insert_bar` in a transaction of its own -/
def insertBar (bar : Fetched CanonicalDailyBar) (facts : Facts) : Outcome × Facts :=
  let (outcome, bars) := insertRow bar.content.key bar facts.bars
  (outcome, { facts with bars := bars })

/-- `record_absence(absence)` -/
def recordAbsence (absence : Fetched MarketAbsence) (facts : Facts) : Outcome × Facts :=
  let (outcome, absences) := insertRow absence.content.key absence facts.absences
  (outcome, { facts with absences := absences })

/-- `upsert_factor(factor)` -/
def upsertFactor (factor : Fetched AdjustmentFactor) (facts : Facts) : Outcome × Facts :=
  let (outcome, factors) := upsertRow factor.content.key factor facts.factors
  (outcome, { facts with factors := factors })

/-- One operation after the other, with what each returned. -/
def eachFact {α : Type} (f : α → Facts → Outcome × Facts) :
    List α → Facts → List Outcome × Facts
  | [], facts => ([], facts)
  | a :: as, facts =>
      let (outcome, facts) := f a facts
      let (outcomes, facts) := eachFact f as facts
      (outcome :: outcomes, facts)

structure SecurityCommitResult where
  insertedBars : ℕ
  unchangedBars : ℕ
  conflictedBars : ℕ
  insertedAbsences : ℕ
  unchangedAbsences : ℕ
  conflictedAbsences : ℕ
  insertedFactors : ℕ
  updatedFactors : ℕ
  unchangedFactors : ℕ
deriving DecidableEq, Repr

def batchCodes (bars : List (Fetched CanonicalDailyBar))
    (factors : List (Fetched AdjustmentFactor)) (absences : List (Fetched MarketAbsence)) :
    List String :=
  bars.map (fun b => b.content.code) ++ factors.map (fun f => f.content.code)
    ++ absences.map fun a => a.content.code

/-- What `commit_security_observations` checks of a batch. -/
def checkBatch (bars : List (Fetched CanonicalDailyBar))
    (factors : List (Fetched AdjustmentFactor)) (absences : List (Fetched MarketAbsence)) :
    Attempt Unit := do
  let barKeys : List FactKey := bars.map fun b => b.content.key
  let absenceKeys : List FactKey := absences.map fun a => a.content.key
  refuse (bars = [] ∧ absences = [] ∧ factors = [])
    (valueError "a security batch cannot be empty")
  refuse ((batchCodes bars factors absences).dedup.length ≠ 1)
    (valueError "a security batch must contain exactly one code")
  refuse (¬ barKeys.Nodup ∨ ¬ absenceKeys.Nodup)
    (valueError "a security batch cannot contain duplicate dates")
  refuse (∃ k ∈ barKeys, k ∈ absenceKeys)
    (valueError "one date cannot be both traded and suspended")

/-- `commit_security_observations(bars, factors, absences)` -/
def commitSecurityObservations (bars : List (Fetched CanonicalDailyBar))
    (factors : List (Fetched AdjustmentFactor)) (absences : List (Fetched MarketAbsence))
    (facts : Facts) : Attempt (SecurityCommitResult × Facts) := do
  checkBatch bars factors absences
  let (b, facts) := eachFact insertBar bars facts
  let (a, facts) := eachFact recordAbsence absences facts
  let (f, facts) := eachFact upsertFactor factors facts
  pure (⟨b.count .inserted, b.count .unchanged, b.count .conflicted,
    a.count .inserted, a.count .unchanged, a.count .conflicted,
    f.count .inserted, f.count .updated, f.count .unchanged⟩, facts)

/-- `repair_bar(bar, reason)`, with "repaired" as an update -/
def repairBar (bar : Fetched CanonicalDailyBar) (reason : String) (facts : Facts) :
    Attempt (Outcome × Facts) := do
  refuse (strip reason = "" ∨ 512 < (strip reason).length)
    (valueError "repair reason must be non-empty")
  let old ← need (facts.bars.get? bar.content.key) (keyError bar.content.code bar.content.tradeDate)
  if old.content = bar.content then pure (.unchanged, facts)
  else pure (.updated, { facts with
    bars := facts.bars.set bar.content.key bar
    repairs := facts.repairs ++
      [⟨bar.content.key, old.content, bar.content, strip reason, bar.fetchedAt⟩] })

/-! ## Queries -/

def rowsBetween {α : Type} (d : Dict FactKey α) (code : String) (start finish : Date) :
    List (Date × α) :=
  d.entries.filterMap fun e =>
    if (ofLex e.1).1 = code ∧ start ≤ (ofLex e.1).2 ∧ (ofLex e.1).2 ≤ finish then
      some ((ofLex e.1).2, e.2)
    else none

/-- `covered_dates(code, start, end)`, as the set it is sorted from -/
def coveredDates (code : String) (start finish : Date) (facts : Facts) : List Date :=
  (rowsBetween facts.bars code start finish).map Prod.fst
    ++ (rowsBetween facts.absences code start finish).map Prod.fst

/-- `bars_for(code, start, end)` -/
def barsFor (code : String) (start finish : Date) (facts : Facts) :
    List (Fetched CanonicalDailyBar) :=
  (rowsBetween facts.bars code start finish).map Prod.snd

/-- `factor_dates(code, start, end)` -/
def factorDates (code : String) (start finish : Date) (facts : Facts) : List Date :=
  (rowsBetween facts.factors code start finish).map Prod.fst

/-! ## Calls -/

inductive FactCall
  | insertBar (bar : Fetched CanonicalDailyBar)
  | recordAbsence (absence : Fetched MarketAbsence)
  | upsertFactor (factor : Fetched AdjustmentFactor)
  | commitSecurityObservations (bars : List (Fetched CanonicalDailyBar))
      (factors : List (Fetched AdjustmentFactor)) (absences : List (Fetched MarketAbsence))
  | repairBar (bar : Fetched CanonicalDailyBar) (reason : String)

def FactCall.after (facts : Facts) : FactCall → Facts
  | .insertBar bar => (Market.insertBar bar facts).2
  | .recordAbsence absence => (Market.recordAbsence absence facts).2
  | .upsertFactor factor => (Market.upsertFactor factor facts).2
  | .commitSecurityObservations bars factors absences =>
      match Market.commitSecurityObservations bars factors absences facts with
      | .ok r => r.2
      | .error _ => facts
  | .repairBar bar reason =>
      match Market.repairBar bar reason facts with
      | .ok r => r.2
      | .error _ => facts

end Ahunter.Market
