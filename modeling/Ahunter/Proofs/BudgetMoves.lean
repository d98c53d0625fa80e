import Ahunter.Costs.Budget

/-!
# What one operation does to a budget

Everything an operation can do to the projection is one of five moves
(`Move`). Each invocation charges its bucket with its hold, then with its
cost; what the limit bounds is the charge with an overrun cut off at the
invocation's own maximum (`Invocation.capped`), because that never grows
when a hold is settled. The rest of a charge is its overrun, and an overrun
is always on record.
-/

namespace Ahunter.Costs

open Ahunter.Lib
open Ahunter.Records

/-! ## Charges -/

variable {v : BudgetValue} {k : String} {i : Invocation}

def Invocation.charge (i : Invocation) : ℚ :=
  match i.status with
  | .settled _ costUsd _ => costUsd.toRat
  | .releasedUnstarted => 0
  | _ => i.maximumCostUsd.toRat

def Invocation.overrun (i : Invocation) : ℚ :=
  match i.status with
  | .settled _ costUsd _ => max 0 (costUsd.toRat - i.maximumCostUsd.toRat)
  | _ => 0

def Invocation.capped (i : Invocation) : ℚ := i.charge - i.overrun

theorem Invocation.overrun_nonneg (i : Invocation) : 0 ≤ i.overrun := by
  unfold overrun
  split
  · exact le_max_left _ _
  · exact le_refl 0

def within (bucket : Bucket) (f : Invocation → ℚ) (i : Invocation) : ℚ :=
  if i.bound.bucket = bucket then f i else 0

def BudgetValue.sumOf (v : BudgetValue) (bucket : Bucket) (f : Invocation → ℚ) : ℚ :=
  v.invocations.sum fun _ i => within bucket f i

variable {w : BudgetValue}

theorem BudgetValue.sumOf_set (bucket : Bucket) (f : Invocation → ℚ)
    (hw : w.invocations = v.invocations.set k i) :
    w.sumOf bucket f + (v.invocations.get? k).elim 0 (within bucket f)
      = v.sumOf bucket f + within bucket f i := by
  rw [sumOf, sumOf, hw]
  exact Dict.sum_set v.invocations k i fun _ i => within bucket f i

/-! ## Totals -/

def Invocation.settledCharge (i : Invocation) : ℚ :=
  if i.status.isSettled then i.charge else 0

def Invocation.heldCharge (i : Invocation) : ℚ :=
  if i.status.isSettled then 0 else i.charge

theorem Invocation.charge_eq (i : Invocation) : i.settledCharge + i.heldCharge = i.charge := by
  unfold settledCharge heldCharge
  split <;> simp

theorem Totals.toRat_add (t : Totals) (i : Invocation) :
    (t.add i).settled.toRat = t.settled.toRat + i.settledCharge ∧
      (t.add i).held.toRat = t.held.toRat + i.heldCharge := by
  unfold add Invocation.settledCharge Invocation.heldCharge Invocation.charge
  cases i.status <;>
    simp [InvocationStatus.isSettled, Decimal.toRat_sum]

theorem Totals.toRat_foldl (is : List Invocation) (t : Totals) :
    (is.foldl Totals.add t).settled.toRat
        = t.settled.toRat + (is.map Invocation.settledCharge).sum ∧
      (is.foldl Totals.add t).held.toRat = t.held.toRat + (is.map Invocation.heldCharge).sum := by
  induction is generalizing t with
  | nil => simp
  | cons i is ih =>
      obtain ⟨hsettled, hheld⟩ := ih (t.add i)
      obtain ⟨hs, hh⟩ := t.toRat_add i
      simp only [List.foldl_cons, List.map_cons, List.sum_cons]
      constructor
      · rw [hsettled, hs, add_assoc]
      · rw [hheld, hh, add_assoc]

theorem sumOf_eq_filter (v : BudgetValue) (bucket : Bucket) (f : Invocation → ℚ) :
    v.sumOf bucket f
      = ((v.invocations.values.filter fun i => i.bound.bucket = bucket).map f).sum := by
  rw [BudgetValue.sumOf, Dict.sum, Dict.values, List.filter_map, List.map_map]
  induction v.invocations.entries with
  | nil => rfl
  | cons e es ih =>
      rw [List.map_cons, List.sum_cons, ih, List.filter_cons, within]
      by_cases h : e.2.bound.bucket = bucket <;> simp [h]

theorem totals_settled (v : BudgetValue) (bucket : Bucket) :
    (totals v bucket).settled.toRat = v.sumOf bucket Invocation.settledCharge := by
  rw [totals, (Totals.toRat_foldl _ _).1, sumOf_eq_filter]
  simp

theorem totals_held (v : BudgetValue) (bucket : Bucket) :
    (totals v bucket).held.toRat = v.sumOf bucket Invocation.heldCharge := by
  rw [totals, (Totals.toRat_foldl _ _).2, sumOf_eq_filter]
  simp

theorem sumOf_add (v : BudgetValue) (bucket : Bucket) (f g : Invocation → ℚ) :
    v.sumOf bucket (fun i => f i + g i) = v.sumOf bucket f + v.sumOf bucket g := by
  rw [BudgetValue.sumOf, BudgetValue.sumOf, BudgetValue.sumOf, ← Dict.sum_add]
  refine Dict.sum_congr fun _ i _ => ?_
  unfold within
  split <;> simp

theorem totals_charge (v : BudgetValue) (bucket : Bucket) :
    (totals v bucket).settled.toRat + (totals v bucket).held.toRat
      = v.sumOf bucket Invocation.charge := by
  rw [totals_settled, totals_held, ← sumOf_add]
  exact congrArg (v.sumOf bucket) (funext Invocation.charge_eq)

/-! ## Moves -/

variable {amount : Decimal}

def Exceeds (i : Invocation) (receipt : UsageReceipt) (amount : Decimal) : Prop :=
  i.maximumCostUsd < amount ∨
    ∃ e ∈ receipt.units.entries, (unitsOf i.bound.maximumUnits e.1).val < e.2.val

inductive Move : Option BudgetValue → BudgetRequest → BudgetResponse →
    BudgetValue → Prop
  | opened {v table envelope campaignId resultId} (hlimits : v.limits.AddUp v.totalLimit)
      (hinvocations : v.invocations = Dict.empty) (hfailures : v.failures = []) :
      Move none (.opening table envelope campaignId resultId) .opened v
  | denied {v bound response}
      (hresponse : response = .accountingInvalid ∨
        ∃ rest amount, response = .insufficient rest amount) :
      Move (some v) (.reserve bound) response v
  | reserved {v bound amount actionId}
      (hnew : v.invocations.get? bound.invocationId = none)
      (hamount : 0 ≤ amount.toRat)
      (hfits : ∀ limit, v.limits.of bound.bucket = some limit →
        v.sumOf bound.bucket Invocation.charge + amount.toRat ≤ limit.toRat) :
      Move (some v) (.reserve bound) (.reserved bound.invocationId amount)
        (v.assign bound.invocationId ⟨bound, amount, .reserved, actionId⟩)
  | changed {v operation k i status extra} (hget : v.invocations.get? k = some i)
      (htarget : ChangeOperation.target operation i.status = some status) :
      Move (some v) (.change operation k extra) (.changed operation k)
        (v.assign k { i with status := status })
  | settled {v k i receipt amount exceeded by_} (hget : v.invocations.get? k = some i)
      (hpending : i.status.pending = true) (hamount : 0 ≤ amount.toRat)
      (hexceeded : exceeded = true ↔ Exceeds i receipt amount) :
      Move (some v) (.settle k receipt) (.settled k amount exceeded)
        (CostBudget.settled v k i receipt amount exceeded by_)

variable {receipt : UsageReceipt}

theorem pricedReceipt_ok {host : CostHost} {table : PriceTable}
    {exceeded : Bool} (h : pricedReceipt host table i receipt = .ok (amount, exceeded)) :
    i.status.pending = true ∧ 0 ≤ amount.toRat ∧ (exceeded = true ↔ Exceeds i receipt amount) := by
  simp only [pricedReceipt, bind_ok, refuse_ok, need_ok, pure_ok, Prod.mk.injEq,
    Host.readJson, Bool.not_eq_false] at h
  obtain ⟨-, hpending, -, -, -, -, -, -, _, hprice, rfl, rfl⟩ := h
  exact ⟨hpending, price_nonneg hprice, decide_eq_true_iff⟩

/-! ## Sound budgets -/

variable {u : BudgetValue}

def Overran (i : Invocation) : Prop :=
  ∃ receipt amount by_, i.status = .settled receipt amount by_ ∧
    Exceeds i receipt amount

def BudgetValue.Recorded (v : BudgetValue) (k : String) : Prop :=
  ∃ f ∈ v.failures, f.invocationId = k

structure Sound (v : BudgetValue) : Prop where
  addUp : v.limits.AddUp v.totalLimit
  maximum_nonneg : ∀ k i, v.invocations.get? k = some i → 0 ≤ i.maximumCostUsd.toRat
  cost_nonneg : ∀ k i receipt amount by_, v.invocations.get? k = some i →
    i.status = .settled receipt amount by_ → 0 ≤ amount.toRat
  recorded : ∀ k, v.Recorded k ↔ ∃ i, v.invocations.get? k = some i ∧ Overran i
  failures_nodup : (v.failures.map CostFailure.invocationId).Nodup
  bounded : ∀ bucket limit, v.limits.of bucket = some limit → 0 ≤ limit.toRat →
    v.sumOf bucket Invocation.capped ≤ limit.toRat

theorem Sound.assign (hu : Sound u) {j : Invocation}
    (hlimits : w.limits = u.limits) (htotal : w.totalLimit = u.totalLimit)
    (hset : w.invocations = u.invocations.set k j) (hmaximum : 0 ≤ j.maximumCostUsd.toRat)
    (hcost : ∀ receipt amount by_, j.status = .settled receipt amount by_ → 0 ≤ amount.toRat)
    (hself : w.Recorded k ↔ Overran j) (hothers : ∀ k', k' ≠ k → (w.Recorded k' ↔ u.Recorded k'))
    (hnodup : (w.failures.map CostFailure.invocationId).Nodup)
    (hbounded : ∀ bucket limit, u.limits.of bucket = some limit → 0 ≤ limit.toRat →
      w.sumOf bucket Invocation.capped ≤ limit.toRat) : Sound w where
  addUp := by rw [hlimits, htotal]; exact hu.addUp
  maximum_nonneg := by
    intro k' i hi
    rw [hset, Dict.get?_set] at hi
    split at hi
    · cases hi; exact hmaximum
    · exact hu.maximum_nonneg k' i hi
  cost_nonneg := by
    intro k' i receipt amount by_ hi hs
    rw [hset, Dict.get?_set] at hi
    split at hi
    · cases hi; exact hcost receipt amount by_ hs
    · exact hu.cost_nonneg k' i receipt amount by_ hi hs
  recorded := by
    intro k'
    rw [hset, Dict.get?_set]
    split
    · next hk => rw [hk, hself]; simp
    · next hk => rw [hothers k' hk, hu.recorded]
  failures_nodup := hnodup
  bounded := by rw [hlimits]; exact hbounded

theorem not_overran (h : i.status.isSettled = false) : ¬ Overran i := by
  rintro ⟨receipt, amount, by_, hs, -⟩
  rw [hs] at h
  cases h

theorem Sound.unrecorded (hu : Sound u)
    (h : ∀ i, u.invocations.get? k = some i → i.status.isSettled = false) : ¬ u.Recorded k := by
  rw [hu.recorded]
  rintro ⟨i, hi, hover⟩
  exact not_overran (h i hi) hover

theorem Invocation.capped_settled {by_ : SettledBy} (h : i.status = .settled receipt amount by_) :
    i.capped = min amount.toRat i.maximumCostUsd.toRat := by
  simp only [capped, charge, overrun, h]
  rcases le_total amount.toRat i.maximumCostUsd.toRat with hle | hle
  · rw [min_eq_left hle, max_eq_left (by linarith), sub_zero]
  · rw [min_eq_right hle, max_eq_right (by linarith)]
    ring

theorem Invocation.overrun_held (h : i.status.isSettled = false) : i.overrun = 0 := by
  unfold overrun
  cases hs : i.status <;> simp_all [InvocationStatus.isSettled]

theorem Invocation.capped_held (h : i.status.isSettled = false) : i.capped = i.charge := by
  rw [capped, overrun_held h, sub_zero]

variable {operation : ChangeOperation}

theorem ChangeOperation.target_held
    {before after : InvocationStatus} (h : operation.target before = some after) :
    before.isSettled = false ∧ after.isSettled = false ∧ before ≠ .releasedUnstarted := by
  cases operation <;> cases before <;> simp [target] at h <;>
    subst h <;> simp [InvocationStatus.isSettled]

theorem sumOf_capped_le {j : Invocation} (hget : v.invocations.get? k = some i)
    (hw : w.invocations = v.invocations.set k j) (hbound : j.bound = i.bound)
    (hcapped : j.capped ≤ i.capped) (bucket : Bucket) :
    w.sumOf bucket Invocation.capped ≤ v.sumOf bucket Invocation.capped := by
  have hsum := BudgetValue.sumOf_set bucket Invocation.capped hw
  rw [hget, Option.elim_some, within, within, hbound] at hsum
  split at hsum <;> linarith

theorem sumOf_capped_le_charge (v : BudgetValue) (bucket : Bucket) :
    v.sumOf bucket Invocation.capped ≤ v.sumOf bucket Invocation.charge := by
  refine Dict.sum_le_sum fun _ i _ => ?_
  unfold within
  split
  · exact sub_le_self _ i.overrun_nonneg
  · exact le_refl 0

theorem Sound.reserved (hu : Sound u) {bound : CallBound} {actionId : String}
    (hnew : u.invocations.get? bound.invocationId = none) (hamount : 0 ≤ amount.toRat)
    (hfits : ∀ limit, u.limits.of bound.bucket = some limit →
      u.sumOf bound.bucket Invocation.charge + amount.toRat ≤ limit.toRat) :
    Sound (u.assign bound.invocationId ⟨bound, amount, .reserved, actionId⟩) := by
  have hfree : ¬ u.Recorded bound.invocationId :=
    hu.unrecorded fun i hi => by rw [hnew] at hi; cases hi
  refine hu.assign rfl rfl rfl hamount (fun _ _ _ hs => by cases hs)
    (iff_of_false hfree (not_overran rfl)) (fun _ _ => Iff.rfl) hu.failures_nodup ?_
  intro bucket limit hlimit hnonneg
  have hset : (u.assign bound.invocationId ⟨bound, amount, .reserved, actionId⟩).invocations
      = u.invocations.set bound.invocationId ⟨bound, amount, .reserved, actionId⟩ := rfl
  have hsum := BudgetValue.sumOf_set bucket Invocation.capped hset
  rw [hnew, Option.elim_none, add_zero] at hsum
  rw [hsum, within]
  split
  · next hb =>
      have hcapped : Invocation.capped ⟨bound, amount, .reserved, actionId⟩
          = amount.toRat := Invocation.capped_held rfl
      have hle := sumOf_capped_le_charge u bucket
      have hfit := hfits limit ((show bound.bucket = bucket from hb) ▸ hlimit)
      rw [show bound.bucket = bucket from hb] at hfit
      rw [hcapped]
      linarith
  · rw [add_zero]
    exact hu.bounded bucket limit hlimit hnonneg

theorem Sound.changed (hu : Sound u) {status : InvocationStatus}
    (hget : u.invocations.get? k = some i) (htarget : operation.target i.status = some status) :
    Sound (u.assign k { i with status := status }) := by
  obtain ⟨hbefore, hafter, hheld⟩ := ChangeOperation.target_held htarget
  have hfree : ¬ u.Recorded k := hu.unrecorded fun x hx => by
    rw [hget] at hx
    cases hx
    exact hbefore
  refine hu.assign rfl rfl rfl (hu.maximum_nonneg k i hget)
    (fun _ _ _ hs => ?_) (iff_of_false hfree (not_overran hafter))
    (fun _ _ => Iff.rfl) hu.failures_nodup ?_
  · rw [show status = _ from hs] at hafter
    cases hafter
  · intro bucket limit hlimit hnonneg
    refine (sumOf_capped_le (j := { i with status := status }) hget rfl rfl ?_
      bucket).trans (hu.bounded bucket limit hlimit hnonneg)
    have hmax := hu.maximum_nonneg k i hget
    rw [Invocation.capped_held hbefore,
      Invocation.capped_held (i := { i with status := status }) hafter]
    unfold Invocation.charge
    cases hs : i.status <;> cases status <;>
      simp_all [InvocationStatus.isSettled]

theorem Sound.settled (hu : Sound u) {exceeded : Bool} {by_ : SettledBy}
    (hget : u.invocations.get? k = some i) (hpending : i.status.pending = true)
    (hamount : 0 ≤ amount.toRat) (hexceeded : exceeded = true ↔ Exceeds i receipt amount) :
    Sound (CostBudget.settled u k i receipt amount exceeded by_) := by
  have hheld : i.status.isSettled = false := by
    cases hs : i.status <;>
      simp_all [InvocationStatus.pending, InvocationStatus.isSettled]
  have hfree : ¬ u.Recorded k := hu.unrecorded fun x hx => by
    rw [hget] at hx
    cases hx
    exact hheld
  refine hu.assign (j := { i with status := .settled receipt amount by_ }) rfl rfl rfl
    (hu.maximum_nonneg k i hget) ?_ ?_ ?_ ?_ ?_
  · intro _ _ _ hs
    cases hs
    exact hamount
  · constructor
    · intro hrecorded
      refine ⟨receipt, amount, by_, rfl, hexceeded.mp ?_⟩
      by_contra hne
      rw [Bool.not_eq_true] at hne
      rw [BudgetValue.Recorded, CostBudget.settled, hne] at hrecorded
      exact hfree hrecorded
    · rintro ⟨_, _, _, hs, hexceeds⟩
      cases hs
      refine ⟨⟨k, FailureCode.of i.bound.bucket⟩, ?_, rfl⟩
      rw [CostBudget.settled, hexceeded.mpr hexceeds]
      exact List.mem_append_right _ List.mem_cons_self
  · intro k' hk'
    rw [BudgetValue.Recorded, BudgetValue.Recorded, CostBudget.settled]
    refine exists_congr fun f => and_congr_left fun hf => ?_
    split
    · rw [List.mem_append, List.mem_singleton, or_iff_left]
      rintro rfl
      exact hk' hf.symm
    · exact Iff.rfl
  · rw [CostBudget.settled]
    split
    · rw [List.map_append, List.nodup_append]
      refine ⟨hu.failures_nodup, by simp, fun a ha b hb => ?_⟩
      obtain ⟨f, hf, rfl⟩ := List.mem_map.mp ha
      rw [List.map_singleton, List.mem_singleton] at hb
      rw [hb]
      exact fun hfk => hfree ⟨f, hf, hfk⟩
    · exact hu.failures_nodup
  · intro bucket limit hlimit hnonneg
    refine (sumOf_capped_le (j := { i with status := .settled receipt amount by_ })
      hget rfl rfl ?_ bucket).trans (hu.bounded bucket limit hlimit hnonneg)
    rw [Invocation.capped_settled rfl, Invocation.capped_held hheld]
    refine (min_le_right _ _).trans ?_
    unfold Invocation.charge
    cases hs : i.status <;> simp_all [InvocationStatus.pending]

theorem Move.sound {old : Option BudgetValue} {request : BudgetRequest}
    {response : BudgetResponse} (h : Move old request response v)
    (hold : ∀ u, old = some u → Sound u) : Sound v := by
  cases h with
  | opened hlimits hinvocations hfailures =>
      have hnone : ∀ k, v.invocations.get? k = none := fun k => by
        rw [hinvocations, Dict.get?_empty]
      exact {
        addUp := hlimits
        maximum_nonneg := fun k i hi => by simp [hnone] at hi
        cost_nonneg := fun k i _ _ _ hi => by simp [hnone] at hi
        recorded := fun k => by simp [hnone, BudgetValue.Recorded, hfailures]
        failures_nodup := by simp [hfailures]
        bounded := fun bucket limit _ hlimit => by
          rw [BudgetValue.sumOf, hinvocations]
          exact hlimit }
  | denied => exact hold _ rfl
  | reserved hnew hamount hfits => exact (hold _ rfl).reserved hnew hamount hfits
  | changed hget htarget => exact (hold _ rfl).changed hget htarget
  | settled hget hpending hamount hexceeded =>
      exact (hold _ rfl).settled hget hpending hamount hexceeded

def BudgetValue.recordedOverrun (v : BudgetValue) : ℚ :=
  (v.failures.map fun f =>
    (v.invocations.get? f.invocationId).elim 0 Invocation.overrun).sum

theorem Invocation.overrun_of_not_overran (h : ¬ Overran i) : i.overrun = 0 := by
  unfold overrun
  split
  · next receipt costUsd by_ hs =>
      refine max_eq_left (sub_nonpos.mpr (not_lt.mp fun hlt => h ?_))
      exact ⟨receipt, costUsd, by_, hs, .inl hlt⟩
  · rfl

theorem Sound.overrun_recorded (h : Sound v) :
    (v.invocations.sum fun _ i => i.overrun) = v.recordedOverrun := by
  have hids : v.recordedOverrun = ((v.failures.map CostFailure.invocationId).map
      fun k => (v.invocations.get? k).elim 0 Invocation.overrun).sum := by
    rw [List.map_map]
    rfl
  rw [hids, ← Dict.sum_keys _ _ h.failures_nodup]
  refine Dict.sum_congr fun k i hi => ?_
  split
  · rfl
  · next hk =>
      refine Invocation.overrun_of_not_overran fun hover => hk ?_
      obtain ⟨f, hf, hfk⟩ := (h.recorded k).mpr ⟨i, hi, hover⟩
      exact hfk ▸ List.mem_map_of_mem hf

theorem sumOf_overrun_le (v : BudgetValue) (bucket : Bucket) :
    v.sumOf bucket Invocation.overrun ≤ v.invocations.sum fun _ i => i.overrun := by
  refine Dict.sum_le_sum fun _ i _ => ?_
  unfold within
  split
  · exact le_refl _
  · exact i.overrun_nonneg

theorem Sound.within_limit (h : Sound v) {bucket : Bucket} {limit : Decimal}
    (hlimit : v.limits.of bucket = some limit) (hnonneg : 0 ≤ limit.toRat) :
    (totals v bucket).settled.toRat + (totals v bucket).held.toRat
      ≤ limit.toRat + v.recordedOverrun := by
  have hbounded := h.bounded bucket limit hlimit hnonneg
  have hover := sumOf_overrun_le v bucket
  rw [h.overrun_recorded] at hover
  have hsplit : v.sumOf bucket Invocation.charge
      = v.sumOf bucket Invocation.capped + v.sumOf bucket Invocation.overrun := by
    rw [← sumOf_add]
    exact congrArg (v.sumOf bucket)
      (funext fun i => (sub_add_cancel i.charge i.overrun).symm)
  rw [totals_charge, hsplit]
  linarith

end Ahunter.Costs
