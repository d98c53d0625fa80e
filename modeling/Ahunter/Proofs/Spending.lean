import Ahunter.Sim.Account

/-!
# Spending cash

`spendCash` visits the lots in an order of its own and puts them back in
their places. Neither permutation shows in a sum, so what it does is said in
sums: over any class of lots that contains every lot it may touch, the total
goes down by exactly the amount (`spendCash_cashIn`). It succeeds whenever
the spendable lots hold the amount (`spendCash_isOk`).
-/

namespace Ahunter.Sim

open Ahunter.Lib

variable {z : Zone} {at_ : Instant}

variable {p : CashLot → Bool}

def AmountBlind (p : CashLot → Bool) : Prop :=
  ∀ (l : CashLot) (a : ℚ), p { l with amount := a } = p l

theorem eligibleCash_blind (z : Zone) (at_ : Instant) :
    AmountBlind (eligibleCash z at_) := fun _ _ => rfl
@[simp] theorem cashIn_nil (p : CashLot → Bool) : cashIn p [] = 0 := rfl

theorem cashIn_cons (p : CashLot → Bool) (l : CashLot) (ls : List CashLot) :
    cashIn p (l :: ls) = (if p l then l.amount else 0) + cashIn p ls := by
  unfold cashIn
  by_cases h : p l <;> simp [h]

theorem cashIn_append (p : CashLot → Bool) (ls ms : List CashLot) :
    cashIn p (ls ++ ms) = cashIn p ls + cashIn p ms := by
  simp [cashIn]

theorem cashIn_perm {ls ms : List CashLot} (h : ls.Perm ms) : cashIn p ls = cashIn p ms :=
  ((h.filter p).map _).sum_eq

theorem cashIn_nonneg {ls : List CashLot} (h : ∀ l ∈ ls, 0 ≤ l.amount) : 0 ≤ cashIn p ls := by
  refine List.sum_nonneg fun a ha => ?_
  obtain ⟨l, hl, rfl⟩ := List.mem_map.mp ha
  exact h l (List.mem_filter.mp hl).1

theorem cashIn_true (ls : List CashLot) :
    cashIn (fun _ => true) ls = (ls.map CashLot.amount).sum := by
  simp [cashIn]

theorem cashIn_mono {q : CashLot → Bool} {ls : List CashLot} (h : ∀ l ∈ ls, 0 ≤ l.amount)
    (hpq : ∀ l ∈ ls, p l = true → q l = true) : cashIn p ls ≤ cashIn q ls := by
  induction ls with
  | nil => simp
  | cons l ls ih =>
      have ih := ih (fun m hm => h m (List.mem_cons_of_mem _ hm))
        fun m hm => hpq m (List.mem_cons_of_mem _ hm)
      have hl := h l List.mem_cons_self
      have hpl := hpq l List.mem_cons_self
      rw [cashIn_cons, cashIn_cons]
      by_cases hp : p l
      · rw [if_pos hp, if_pos (hpl hp)]
        exact add_le_add_right ih _
      · rw [if_neg hp]
        split <;> linarith

/-! ## The loop -/

theorem spendLoop_cashIn (hp : AmountBlind p)
    (hpe : ∀ l, eligibleCash z at_ l = true → p l = true) (r : ℚ) (ls : List (CashLot × ℕ)) :
    cashIn p ((spendLoop z at_ r ls).1.map Prod.fst)
      = cashIn p (ls.map Prod.fst) - (r - (spendLoop z at_ r ls).2) := by
  induction ls generalizing r with
  | nil => simp [spendLoop]
  | cons x rest ih =>
      obtain ⟨lot, i⟩ := x
      by_cases he : eligibleCash z at_ lot
      · simp only [spendLoop, he, if_true, List.map_cons, cashIn_cons]
        split
        · next hdone =>
            rw [List.map_cons, cashIn_cons, hp, hpe lot he, if_pos rfl,
              if_pos rfl]
            linarith
        · rw [List.map_cons, cashIn_cons, hp, hpe lot he, if_pos rfl,
            if_pos rfl, ih]
          ring
      · simp only [spendLoop, he, if_false, List.map_cons, cashIn_cons,
          Bool.false_eq_true]
        rw [ih]
        ring

theorem spendLoop_left {r : ℚ} {ls : List (CashLot × ℕ)} (hr : 0 ≤ r)
    (hls : ∀ l ∈ ls, 0 ≤ l.1.amount) :
    (spendLoop z at_ r ls).2 = r - min r (cashIn (eligibleCash z at_) (ls.map Prod.fst)) := by
  induction ls generalizing r with
  | nil => simp [spendLoop, hr]
  | cons x rest ih =>
      obtain ⟨lot, i⟩ := x
      have hrest : ∀ l ∈ rest, 0 ≤ l.1.amount := fun l hl =>
        hls l (List.mem_cons_of_mem _ hl)
      have hcash : 0 ≤ cashIn (eligibleCash z at_) (rest.map Prod.fst) :=
        cashIn_nonneg fun l hl => by
          obtain ⟨e, he, rfl⟩ := List.mem_map.mp hl
          exact hrest e he
      by_cases he : eligibleCash z at_ lot
      · simp only [spendLoop, he, if_true, List.map_cons, cashIn_cons]
        split
        · next hdone =>
            -- The loop breaks here: this lot holds all that is still needed.
            have hle : r ≤ lot.amount := min_eq_right_iff.mp (by linarith)
            rw [min_eq_left (hle.trans (le_add_of_nonneg_right hcash)), sub_self]
        · next hmore =>
            have hle : lot.amount ≤ r := by
              by_contra hlt
              rw [min_eq_right (not_le.mp hlt).le, sub_self] at hmore
              exact hmore rfl
            rw [ih (sub_nonneg.mpr (min_le_right _ _)) hrest, min_eq_left hle,
              sub_sub, ← min_add_add_left, add_sub_cancel]
      · simp only [spendLoop, he, if_false, List.map_cons, cashIn_cons,
          zero_add, Bool.false_eq_true]
        exact ih hr hrest

/-! ## The whole -/

theorem zipIdx_fst (ls : List CashLot) : ls.zipIdx.map Prod.fst = ls := by
  simp

theorem visited_perm (ls : List CashLot) :
    ((ls.zipIdx.insertionSort (spendBefore z at_)).map Prod.fst).Perm ls := by
  have h := (List.perm_insertionSort (spendBefore z at_) ls.zipIdx).map Prod.fst
  rwa [zipIdx_fst] at h

variable {amount : ℚ}

theorem spendCash_cashIn {lots lots' : List CashLot}
    (h : spendCash z lots amount at_ = .ok lots') (hp : AmountBlind p)
    (hpe : ∀ l, eligibleCash z at_ l = true → p l = true) :
    cashIn p lots' = cashIn p lots - amount := by
  simp only [spendCash, bind_ok, refuse_ok, pure_ok, not_not] at h
  obtain ⟨-, hleft, rfl⟩ := h
  have hback := (List.perm_insertionSort (fun a b : CashLot × ℕ => a.2 ≤ b.2)
    (spendLoop z at_ amount
      (lots.zipIdx.insertionSort (spendBefore z at_))).1).map Prod.fst
  rw [cashIn_perm hback, spendLoop_cashIn hp hpe,
    cashIn_perm (visited_perm lots), hleft, sub_zero]

theorem spendCash_total {lots lots' : List CashLot} (h : spendCash z lots amount at_ = .ok lots') :
    (lots'.map CashLot.amount).sum = (lots.map CashLot.amount).sum - amount := by
  have := spendCash_cashIn h (p := fun _ => true) (fun _ _ => rfl)
    fun _ _ => rfl
  rwa [cashIn_true, cashIn_true] at this

theorem spendCash_isOk {lots : List CashLot} (hamount : 0 ≤ amount)
    (hlots : ∀ l ∈ lots, 0 ≤ l.amount) (henough : amount ≤ cashIn (eligibleCash z at_) lots) :
    ∃ lots', spendCash z lots amount at_ = .ok lots' := by
  set visited := lots.zipIdx.insertionSort (spendBefore z at_) with hvisited
  have hperm : (visited.map Prod.fst).Perm lots := visited_perm lots
  have hnn : ∀ l ∈ visited, 0 ≤ l.1.amount := fun l hl =>
    hlots _ (hperm.subset (List.mem_map_of_mem hl))
  have hleft := @spendLoop_left z at_ _ _ hamount hnn
  rw [cashIn_perm hperm, min_eq_left henough, sub_self] at hleft
  refine ⟨((spendLoop z at_ amount visited).1.insertionSort
    fun a b => a.2 ≤ b.2).map Prod.fst, ?_⟩
  simp only [spendCash, bind_ok, refuse_ok, pure_ok, not_not]
  exact ⟨(), hleft, rfl⟩

end Ahunter.Sim
