import Ahunter.Costs.Reconciliation
import Ahunter.Proofs.BudgetLaw

/-!
# Settling in any order, by either route

A worker settles an invocation by rewriting the projection, and after the
test has ended a reconciliation settles it by a fact laid over the
projection. Either way the budget that is read moves by the same function of
the invocation and its receipt (`CostBudget.settled`), and touches nothing
another settlement reads. So what a set of settlements comes to is, at each
invocation, what the budget they started from and its own receipt say
(`SettledFrom`), and neither the order nor the route is in it.
-/

namespace Ahunter.Costs

open Ahunter.Lib
open Ahunter.Records

/-! ## What a set of settlements comes to -/

variable {artifacts : String → Option Evidence} {receipts : Dict String UsageReceipt}

def readerOf (artifacts : String → Option Evidence) : CostHost where
  now := 0
  artifacts := artifacts
  faults := fun _ => false

structure SettledFrom (artifacts : String → Option Evidence)
    (receipts : Dict String UsageReceipt) (u v : BudgetValue) : Prop where
  table : v.table = u.table
  invocations : ∀ k, v.invocations.get? k = u.invocations.get? k ∨
    ∃ i receipt amount exceeded by_, u.invocations.get? k = some i ∧
      receipts.get? k = some receipt ∧
      pricedReceipt (readerOf artifacts) u.table i receipt = .ok (amount, exceeded) ∧
      v.invocations.get? k = some { i with status := .settled receipt amount by_ }
  failures : ∀ f, f ∈ v.failures ↔ f ∈ u.failures ∨
    ∃ i receipt amount by_, u.invocations.get? f.invocationId = some i ∧
      receipts.get? f.invocationId = some receipt ∧
      pricedReceipt (readerOf artifacts) u.table i receipt = .ok (amount, true) ∧
      v.invocations.get? f.invocationId
        = some { i with status := .settled receipt amount by_ } ∧
      f.code = FailureCode.of i.bound.bucket

theorem SettledFrom.refl (u : BudgetValue) :
    SettledFrom artifacts receipts u u where
  table := rfl
  invocations := fun _ => .inl rfl
  failures := by
    intro f
    refine ⟨.inl, fun h => h.elim id ?_⟩
    rintro ⟨i, receipt, amount, by_, hi, -, hpriced, hsettled, -⟩
    have hpending := (pricedReceipt_ok hpriced).1
    rw [hi, Option.some.injEq] at hsettled
    rw [hsettled] at hpending
    cases hpending

theorem SettledFrom.settle {u v : BudgetValue} (h : SettledFrom artifacts receipts u v)
    {k : String} {i : Invocation} {receipt : UsageReceipt} {amount : Decimal} {exceeded : Bool}
    {by_ : SettledBy} (hget : v.invocations.get? k = some i)
    (hreceipt : receipts.get? k = some receipt)
    (hpriced : pricedReceipt (readerOf artifacts) v.table i receipt = .ok (amount, exceeded)) :
    SettledFrom artifacts receipts u (CostBudget.settled v k i receipt amount exceeded by_) := by
  have hpending := (pricedReceipt_ok hpriced).1
  rw [h.table] at hpriced
  -- A settled invocation is not pending, so this one is still as it began.
  have hbegan : u.invocations.get? k = some i := by
    rcases h.invocations k with hsame | ⟨_, _, _, _, _, _, _, _, hsettled⟩
    · rw [← hsame, hget]
    · rw [hget, Option.some.injEq] at hsettled
      rw [hsettled] at hpending
      cases hpending
  constructor
  · exact h.table
  · intro j
    simp only [CostBudget.settled, BudgetValue.assign, Dict.get?_set]
    split
    · next hj =>
        subst hj
        exact .inr ⟨i, receipt, amount, exceeded, by_, hbegan, hreceipt, hpriced, rfl⟩
    · exact h.invocations j
  · intro f
    simp only [CostBudget.settled, BudgetValue.assign, Dict.get?_set]
    by_cases hf : f.invocationId = k
    · have hold : f ∈ v.failures ↔ f ∈ u.failures := by
        rw [h.failures, or_iff_left]
        rintro ⟨_, _, _, _, _, _, _, hsettled, -⟩
        rw [hf, hget, Option.some.injEq] at hsettled
        rw [hsettled] at hpending
        cases hpending
      rw [if_pos hf]
      constructor
      · intro hmem
        cases exceeded with
        | false => exact .inl (hold.mp hmem)
        | true =>
            rcases List.mem_append.mp hmem with hmem | hmem
            · exact .inl (hold.mp hmem)
            · rw [List.mem_singleton] at hmem
              exact .inr ⟨i, receipt, amount, by_, hf ▸ hbegan, hf ▸ hreceipt, hpriced,
                rfl, by rw [hmem]⟩
      · rintro (hmem | ⟨i', receipt', amount', _, hi', hreceipt', hpriced', -, hcode⟩)
        · split
          · exact List.mem_append_left _ (hold.mpr hmem)
          · exact hold.mpr hmem
        · rw [hf, hbegan] at hi'
          rw [hf, hreceipt] at hreceipt'
          cases hi'
          cases hreceipt'
          rw [hpriced] at hpriced'
          cases hpriced'
          refine List.mem_append_right _ (List.mem_singleton.mpr ?_)
          cases f
          simp_all
    · rw [if_neg hf, ← h.failures]
      split
      · rw [List.mem_append, List.mem_singleton, or_iff_left]
        rintro rfl
        exact hf rfl
      · exact Iff.rfl

/-! ## Two complete sets -/

def Invocation.unmarked (i : Invocation) : Invocation :=
  match i.status with
  | .settled receipt costUsd _ => { i with status := .settled receipt costUsd (.action "") }
  | _ => i

def Invocation.hold (i : Invocation) : Option Decimal :=
  match i.status with
  | .settled .. | .releasedUnstarted => none
  | _ => some i.maximumCostUsd

def BudgetValue.hold (v : BudgetValue) (k : String) : Option Decimal :=
  (v.invocations.get? k).bind Invocation.hold

def AllSettled (receipts : Dict String UsageReceipt) (v : BudgetValue) : Prop :=
  ∀ k ∈ receipts.keys, ∃ i ∈ v.invocations.get? k, i.status.isSettled = true

structure SameCosts (v w : BudgetValue) : Prop where
  totals : ∀ bucket, totals v bucket = totals w bucket
  holds : ∀ k, v.hold k = w.hold k
  failures : ∀ f, f ∈ v.failures ↔ f ∈ w.failures

theorem Totals.add_unmarked (t : Totals) (i : Invocation) : t.add i.unmarked = t.add i := by
  unfold Invocation.unmarked
  split
  · next hs => simp only [add, hs]
  · rfl

theorem Invocation.bound_unmarked (i : Invocation) : i.unmarked.bound = i.bound := by
  unfold unmarked
  split <;> rfl

theorem Invocation.hold_unmarked (i : Invocation) : i.unmarked.hold = i.hold := by
  unfold unmarked
  split
  · next hs => simp only [hold, hs]
  · rfl

theorem totals_unmarked (v : BudgetValue) (bucket : Bucket) :
    totals v bucket = (((v.invocations.map fun _ i => i.unmarked).values.filter
          fun i => i.bound.bucket = bucket).foldl Totals.add ⟨Decimal.zero, Decimal.zero, 0⟩) := by
  have hvalues : (v.invocations.map fun _ i => i.unmarked).values
      = v.invocations.values.map Invocation.unmarked := by
    simp only [Dict.values, Dict.map, List.map_map]
    rfl
  have hfilter : ((fun i : Invocation => decide (i.bound.bucket = bucket))
      ∘ Invocation.unmarked) = fun i => decide (i.bound.bucket = bucket) :=
    funext fun i => by rw [Function.comp_apply, i.bound_unmarked]
  rw [hvalues, List.filter_map, hfilter, List.foldl_map, totals]
  congr 1
  funext t i
  exact (t.add_unmarked i).symm

theorem SettledFrom.determined {u v : BudgetValue} (hv : SettledFrom artifacts receipts u v)
    (hall : AllSettled receipts v) {k : String} {i : Invocation} {receipt : UsageReceipt}
    {amount : Decimal} {exceeded : Bool} (hi : u.invocations.get? k = some i)
    (hreceipt : receipts.get? k = some receipt)
    (hpriced : pricedReceipt (readerOf artifacts) u.table i receipt = .ok (amount, exceeded)) :
    ∃ by', v.invocations.get? k
      = some { i with status := .settled receipt amount by' } := by
  rcases hv.invocations k with hsame | ⟨i', receipt', amount', exceeded', by', hi',
    hreceipt', hpriced', hv'⟩
  · obtain ⟨x, hx, hsettled⟩ := hall k (Dict.mem_keys.mpr ⟨receipt, hreceipt⟩)
    rw [hsame, hi, Option.mem_def, Option.some.injEq] at hx
    have hpending := (pricedReceipt_ok hpriced).1
    rw [hx] at hpending
    cases hs : x.status <;>
      simp_all [InvocationStatus.pending, InvocationStatus.isSettled]
  · rw [hi] at hi'
    rw [hreceipt] at hreceipt'
    cases hi'
    cases hreceipt'
    rw [hpriced] at hpriced'
    cases hpriced'
    exact ⟨by', hv'⟩

theorem SettledFrom.unmarked {u v w : BudgetValue} (hv : SettledFrom artifacts receipts u v)
    (hw : SettledFrom artifacts receipts u w) (hallv : AllSettled receipts v)
    (hallw : AllSettled receipts w) (k : String) :
    (v.invocations.get? k).map Invocation.unmarked
      = (w.invocations.get? k).map Invocation.unmarked := by
  rcases hv.invocations k with hsame | ⟨i, receipt, amount, exceeded, by_, hi,
    hreceipt, hpriced, hsettled⟩
  · rcases hw.invocations k with hsame' | ⟨i, receipt, amount, exceeded, by_, hi,
      hreceipt, hpriced, hsettled⟩
    · rw [hsame, hsame']
    · obtain ⟨by', hv'⟩ := hv.determined hallv hi hreceipt hpriced
      rw [hv', hsettled]
      rfl
  · obtain ⟨by', hw'⟩ := hw.determined hallw hi hreceipt hpriced
    rw [hw', hsettled]
    rfl

theorem SettledFrom.same {u v w : BudgetValue} (hv : SettledFrom artifacts receipts u v)
    (hw : SettledFrom artifacts receipts u w) (hallv : AllSettled receipts v)
    (hallw : AllSettled receipts w) : SameCosts v w := by
  have hunmarked := hv.unmarked hw hallv hallw
  constructor
  · intro bucket
    have hmap : (v.invocations.map fun _ i => i.unmarked)
        = w.invocations.map fun _ i => i.unmarked :=
      Dict.ext_get? fun k => by
        rw [Dict.get?_map, Dict.get?_map]
        exact hunmarked k
    rw [totals_unmarked, totals_unmarked, hmap]
  · intro k
    have hbind : ∀ o : Option Invocation,
        o.bind Invocation.hold = (o.map Invocation.unmarked).bind Invocation.hold := by
      intro o
      cases o with
      | none => rfl
      | some i => exact i.hold_unmarked.symm
    rw [BudgetValue.hold, BudgetValue.hold, hbind, hunmarked k, ← hbind]
  · intro f
    rw [hv.failures, hw.failures]
    refine or_congr_right ⟨?_, ?_⟩
    · rintro ⟨i, receipt, amount, by_, hi, hreceipt, hpriced, -, hcode⟩
      obtain ⟨by', hw'⟩ := hw.determined hallw hi hreceipt hpriced
      exact ⟨i, receipt, amount, by', hi, hreceipt, hpriced, hw', hcode⟩
    · rintro ⟨i, receipt, amount, by_, hi, hreceipt, hpriced, -, hcode⟩
      obtain ⟨by', hv'⟩ := hv.determined hallv hi hreceipt hpriced
      exact ⟨i, receipt, amount, by', hi, hreceipt, hpriced, hv', hcode⟩

end Ahunter.Costs
