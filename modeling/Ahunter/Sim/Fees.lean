import Ahunter.Sim.Market

/-!
# Cumulative order fees

An order is charged on its cumulative turnover: what a fill costs is the
difference of two cumulative tables, so that a minimum is charged once
however the order is filled. Both tables have the same rows, one for the
broker commission and one for each item of the schedule, and every row is
monotone in the turnover (`OrderFees.total_mono`), which is why a fill never
gives money back and a reserve taken at the limit price covers the fees of
any fills inside it.
-/

namespace Ahunter.Sim

open Ahunter.Lib

def cent : ℚ := 1 / 100

/-- `rounded(value, Decimal("0.01"))` -/
def rounded (value : ℚ) : ℚ := roundTo cent value

theorem cent_pos : 0 < cent := by norm_num [cent]

theorem rounded_mono {x y : ℚ} (h : x ≤ y) : rounded x ≤ rounded y :=
  roundTo_mono cent_pos h

theorem rounded_nonneg {x : ℚ} (h : 0 ≤ x) : 0 ≤ rounded x :=
  roundTo_nonneg cent_pos h

@[simp] theorem rounded_zero : rounded 0 = 0 := roundTo_zero cent

structure OrderFees where
  execution : ExecutionSettings
  schedule : FeeSchedule

def feeUnavailable (message : String) : Failure := ⟨.feeUnavailable, message⟩

/-- `OrderFees(execution, schedule, trade_date=…, exchange=…)` -/
def OrderFees.of (execution : ExecutionSettings) (schedule : FeeSchedule)
    (tradeDate : Date) (exchange : String) : Attempt OrderFees := do
  refuse (schedule.exchange ≠ exchange ∨
      ¬ (schedule.effectiveFrom ≤ tradeDate ∧ tradeDate ≤ schedule.effectiveTo))
    (feeUnavailable "fee schedule does not cover the market/date")
  refuse (∃ i ∈ schedule.items, i.feeId = "commission")
    (feeUnavailable "broker commission must be separate from statutory items")
  refuse (execution.feeQuantum ≠ cent ∨ ∃ i ∈ schedule.items, i.quantum ≠ cent)
    (feeUnavailable "cash_equity_v1 requires currency-cent fee rounding")
  refuse (∃ i ∈ schedule.items, i.includedInCommission = true ∧
      execution.commissionIncludesExchangeFees = false)
    (feeUnavailable "fee inclusion conflicts with broker commission assumptions")
  refuse (∃ i ∈ schedule.items,
      i.feeId ∈ ["exchange_fee", "handling_fee", "regulatory_fee"] ∧
        i.includedInCommission = false ∧
        execution.commissionIncludesExchangeFees = true)
    (feeUnavailable "exchange fee inclusion must match the commission assumption")
  refuse (∃ i ∈ schedule.items, i.includedInCommission = true ∧
      i.feeId ∈ ["stamp_duty", "transfer_fee"])
    (feeUnavailable "statutory tax/transfer charge cannot be hidden inside commission")
  pure ⟨execution, schedule⟩

def FeeItem.charge (i : FeeItem) (side : Side) (turnover : ℚ) : ℚ :=
  if i.includedInCommission || !i.side.covers side then 0
  else rounded (max (turnover * i.rate) i.minimum)

def OrderFees.commission (f : OrderFees) (turnover : ℚ) : ℚ :=
  rounded (max (turnover * f.execution.commissionRate)
    f.execution.minimumCommission)

def feeTable (commission : ℚ) (row : FeeItem → ℚ) (items : List FeeItem) :
    Dict String ℚ :=
  items.foldl (fun d i => d.set i.feeId (row i))
    (Dict.empty.set "commission" commission)

/-- `cumulative(side, turnover)` -/
def OrderFees.cumulative (f : OrderFees) (side : Side) (turnover : ℚ) :
    Dict String ℚ :=
  if turnover = 0 then feeTable 0 (fun _ => 0) f.schedule.items
  else feeTable (f.commission turnover) (fun i => i.charge side turnover)
    f.schedule.items

/-- `incremental(side, before, after)` -/
def OrderFees.incremental (f : OrderFees) (side : Side) (before after : ℚ) :
    Dict String ℚ :=
  let prior := f.cumulative side before
  (f.cumulative side after).map fun key value =>
    value - (prior.get? key).getD 0

/-- `total(side, turnover)` -/
def OrderFees.total (f : OrderFees) (side : Side) (turnover : ℚ) : ℚ :=
  (f.cumulative side turnover).sum fun _ value => value

/-! ## The tables row by row -/

/-- Which row a key of the table holds: `none` is the commission. -/
def feeRows (items : List FeeItem) : Dict String (Option FeeItem) :=
  items.foldl (fun d i => d.set i.feeId (some i))
    (Dict.empty.set "commission" none)

theorem feeTable_eq_map (c : ℚ) (row : FeeItem → ℚ) (items : List FeeItem) :
    feeTable c row items = (feeRows items).map fun _ r => r.elim c row := by
  have hgen : ∀ d : Dict String (Option FeeItem),
      items.foldl (fun d i => d.set i.feeId (row i))
          (d.map fun _ r => r.elim c row)
        = (items.foldl (fun d i => d.set i.feeId (some i)) d).map
            fun _ r => r.elim c row := by
    induction items with
    | nil => intro d; rfl
    | cons i is ih =>
        intro d
        rw [List.foldl_cons, List.foldl_cons, ← ih, Dict.map_set]
        rfl
  rw [feeTable, feeRows, ← hgen, Dict.map_set]
  rfl

def OrderFees.row (f : OrderFees) (side : Side) (turnover : ℚ)
    (r : Option FeeItem) : ℚ :=
  if turnover = 0 then 0
  else r.elim (f.commission turnover) fun i => i.charge side turnover

theorem OrderFees.cumulative_eq (f : OrderFees) (side : Side) (turnover : ℚ) :
    f.cumulative side turnover
      = (feeRows f.schedule.items).map fun _ r => f.row side turnover r := by
  unfold cumulative row
  split
  · rw [feeTable_eq_map]
    congr
    funext _ r
    cases r <;> rfl
  · rw [feeTable_eq_map]

theorem FeeItem.charge_nonneg (i : FeeItem) (side : Side) (t : ℚ) : 0 ≤ i.charge side t := by
  unfold FeeItem.charge
  split
  · exact le_rfl
  · exact rounded_nonneg (i.minimum_nonneg.trans (le_max_right _ _))

variable {s t : ℚ}

theorem FeeItem.charge_mono (i : FeeItem) (side : Side)
    (h : s ≤ t) : i.charge side s ≤ i.charge side t := by
  unfold FeeItem.charge
  split
  · exact le_rfl
  · exact rounded_mono (max_le_max_right _
      (mul_le_mul_of_nonneg_right h i.rate_nonneg))

theorem OrderFees.commission_nonneg (f : OrderFees) (t : ℚ) : 0 ≤ f.commission t :=
  rounded_nonneg
    (f.execution.minimumCommission_nonneg.trans (le_max_right _ _))

theorem OrderFees.commission_mono (f : OrderFees) (h : s ≤ t) : f.commission s ≤ f.commission t :=
  rounded_mono (max_le_max_right _
    (mul_le_mul_of_nonneg_right h f.execution.commissionRate_nonneg))

theorem OrderFees.row_nonneg (f : OrderFees) (side : Side) (t : ℚ)
    (r : Option FeeItem) : 0 ≤ f.row side t r := by
  unfold row
  split
  · exact le_rfl
  · cases r with
    | none => exact f.commission_nonneg t
    | some i => exact i.charge_nonneg side t

theorem OrderFees.row_mono (f : OrderFees) (side : Side)
    (hs : 0 ≤ s) (h : s ≤ t) (r : Option FeeItem) : f.row side s r ≤ f.row side t r := by
  by_cases hs0 : s = 0
  · rw [row, if_pos hs0]
    exact f.row_nonneg side t r
  · have ht0 : t ≠ 0 := fun h0 => hs0 (le_antisymm (h0 ▸ h) hs)
    rw [row, row, if_neg hs0, if_neg ht0]
    cases r with
    | none => exact f.commission_mono h
    | some i => exact i.charge_mono side h

theorem OrderFees.total_mono (f : OrderFees) (side : Side)
    (hs : 0 ≤ s) (h : s ≤ t) : f.total side s ≤ f.total side t := by
  rw [total, total, cumulative_eq, cumulative_eq, Dict.sum_map, Dict.sum_map]
  exact Dict.sum_le_sum fun _ r _ => f.row_mono side hs h r

theorem OrderFees.incremental_sum (f : OrderFees) (side : Side) (before after : ℚ) :
    (f.incremental side before after).sum (fun _ v => v)
      = f.total side after - f.total side before := by
  simp only [incremental, total, f.cumulative_eq, Dict.sum_map]
  rw [eq_sub_iff_add_eq, ← Dict.sum_add]
  refine Dict.sum_congr fun k r hk => ?_
  simp [hk]

end Ahunter.Sim
