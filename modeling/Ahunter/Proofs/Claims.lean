import Ahunter.Proofs.Fifo

/-!
# Claims on lots

A sell order's claims are what freezes shares. Claims are never negative and
the claims on a lot never exceed what it holds; a reservation keeps that
because it takes from each lot at most what no other order has frozen there.
-/

namespace Ahunter.Sim

open Ahunter.Lib

variable {usable : StockLot → Bool} {frozen : String → ℤ}

def claimOn (claims : List (String × ℤ)) (lotId : String) : ℤ :=
  ((claims.filter fun e => e.1 = lotId).map Prod.snd).sum

theorem Order.frozenOn_eq (o : Order) (lotId : String) :
    o.frozenOn lotId = claimOn o.stockReserved lotId := rfl
@[simp] theorem claimOn_nil (lotId : String) : claimOn [] lotId = 0 := rfl

theorem claimOn_cons (e : String × ℤ) (claims : List (String × ℤ))
    (lotId : String) : claimOn (e :: claims) lotId
      = (if e.1 = lotId then e.2 else 0) + claimOn claims lotId := by
  unfold claimOn
  by_cases h : e.1 = lotId <;> simp [h]

variable {claims : List (String × ℤ)}

theorem claimOn_nonneg (h : ∀ e ∈ claims, 0 ≤ e.2) (lotId : String) : 0 ≤ claimOn claims lotId := by
  refine List.sum_nonneg fun q hq => ?_
  obtain ⟨e, he, rfl⟩ := List.mem_map.mp hq
  exact h e (List.mem_filter.mp he).1

theorem claimOn_absent {lotId : String}
    (h : lotId ∉ claims.map Prod.fst) : claimOn claims lotId = 0 := by
  induction claims with
  | nil => rfl
  | cons e claims ih =>
      rw [List.map_cons, List.mem_cons, not_or] at h
      rw [claimOn_cons, if_neg (Ne.symm h.1), ih h.2, add_zero]

theorem claimOn_of_mem {e : String × ℤ} (hnodup : (claims.map Prod.fst).Nodup) (he : e ∈ claims) :
    claimOn claims e.1 = e.2 := by
  induction claims with
  | nil => cases he
  | cons x claims ih =>
      rw [List.map_cons, List.nodup_cons] at hnodup
      rw [claimOn_cons]
      rcases List.mem_cons.mp he with rfl | he
      · rw [if_pos rfl, claimOn_absent hnodup.1, add_zero]
      · have hne : x.1 ≠ e.1 := fun h => hnodup.1 (h ▸ List.mem_map_of_mem he)
        rw [if_neg hne, zero_add, ih hnodup.2 he]

theorem claimOn_filter (claims : List (String × ℤ)) (lotId : String) :
    claimOn (claims.filter fun e => e.2 ≠ 0) lotId = claimOn claims lotId := by
  induction claims with
  | nil => rfl
  | cons e claims ih =>
      by_cases h : e.2 = 0
      · rw [List.filter_cons_of_neg (by simp [h]), ih, claimOn_cons, h]
        split <;> simp
      · rw [List.filter_cons_of_pos (by simp [h]), claimOn_cons, claimOn_cons, ih]

/-! ## Claims over a class of lots -/

variable {lots : Dict String StockLot}

def claimsOver (lots : Dict String StockLot) (p : StockLot → Bool)
    (claims : List (String × ℤ)) : ℤ :=
  lots.sum fun k l => if p l then claimOn claims k else 0

theorem claimsOver_cons (lots : Dict String StockLot) (p : StockLot → Bool)
    (e : String × ℤ) (claims : List (String × ℤ)) :
    claimsOver lots p (e :: claims)
      = lots.sum (fun k l => if e.1 = k then (if p l then e.2 else 0) else 0)
        + claimsOver lots p claims := by
  rw [claimsOver, claimsOver, ← Dict.sum_add]
  refine Dict.sum_congr fun k l _ => ?_
  rw [claimOn_cons]
  by_cases hp : p l <;> by_cases hk : e.1 = k <;> simp [hp, hk]

theorem claimsOver_all {p : StockLot → Bool}
    (h : ∀ e ∈ claims, ∃ l, lots.get? e.1 = some l ∧ p l = true) :
    claimsOver lots p claims = (claims.map Prod.snd).sum := by
  induction claims with
  | nil => exact Dict.sum_zero fun k l _ => by split <;> rfl
  | cons e claims ih =>
      obtain ⟨l, hl, hp⟩ := h e List.mem_cons_self
      have hone := Dict.sum_single (fun _ l => if p l then e.2 else 0) hl
      rw [claimsOver_cons, hone, if_pos hp, List.map_cons, List.sum_cons,
        ih fun f hf => h f (List.mem_cons_of_mem _ hf)]

theorem claimsOver_none {p : StockLot → Bool}
    (h : ∀ e ∈ claims, ∀ l, lots.get? e.1 = some l → p l = false) :
    claimsOver lots p claims = 0 := by
  refine Dict.sum_zero fun k l hl => ?_
  by_cases hk : k ∈ claims.map Prod.fst
  · obtain ⟨e, he, rfl⟩ := List.mem_map.mp hk
    rw [h e he l hl]
    rfl
  · rw [claimOn_absent hk]
    split <;> rfl

/-! ## What a reservation takes -/

theorem takeFifo_keys (r : ℤ) (ls : List (String × StockLot)) :
    ((takeFifo usable frozen r ls).1.map Prod.fst).Sublist (ls.map Prod.fst) := by
  induction ls generalizing r with
  | nil => exact List.Sublist.refl _
  | cons x rest ih =>
      obtain ⟨k, lot⟩ := x
      rw [takeFifo]
      split
      · simp only []
        split
        · exact List.Sublist.cons_cons _ (List.nil_sublist _)
        · exact List.Sublist.cons_cons _ (ih _)
      · exact List.Sublist.cons _ (ih r)

variable {r : ℤ} {ls : List (String × StockLot)}

theorem takeFifo_le {e : String × ℤ} (h : e ∈ (takeFifo usable frozen r ls).1) :
    ∃ lot, (e.1, lot) ∈ ls ∧ e.2 ≤ lot.quantity - frozen e.1 := by
  induction ls generalizing r with
  | nil => simp [takeFifo] at h
  | cons x rest ih =>
      obtain ⟨k, lot⟩ := x
      have hhead : ∃ l, (k, l) ∈ (k, lot) :: rest ∧
          min r (lot.quantity - frozen k) ≤ l.quantity - frozen k :=
        ⟨lot, List.mem_cons_self, min_le_right _ _⟩
      have htail : ∀ {r' : ℤ}, e ∈ (takeFifo usable frozen r' rest).1 →
          ∃ l, (e.1, l) ∈ (k, lot) :: rest ∧ e.2 ≤ l.quantity - frozen e.1 := by
        intro r' hmem
        obtain ⟨l, hl, hle⟩ := ih hmem
        exact ⟨l, List.mem_cons_of_mem _ hl, hle⟩
      rw [takeFifo] at h
      split at h
      · simp only [] at h
        split at h
        · cases List.mem_singleton.mp h
          exact hhead
        · rcases List.mem_cons.mp h with rfl | h
          · exact hhead
          · exact htail h
      · exact htail h

theorem takeFifo_nonneg (hr : 0 ≤ r) (hcap : ∀ e ∈ ls, frozen e.1 ≤ e.2.quantity) :
    ∀ e ∈ (takeFifo usable frozen r ls).1, 0 ≤ e.2 := by
  induction ls generalizing r with
  | nil => simp [takeFifo]
  | cons x rest ih =>
      obtain ⟨k, lot⟩ := x
      have hfree : 0 ≤ lot.quantity - frozen k :=
        sub_nonneg.mpr (hcap (k, lot) List.mem_cons_self)
      have hrest : ∀ e ∈ rest, frozen e.1 ≤ e.2.quantity := fun e he =>
        hcap e (List.mem_cons_of_mem _ he)
      intro e he
      rw [takeFifo] at he
      split at he
      · simp only [] at he
        split at he
        · cases List.mem_singleton.mp he
          exact le_min hr hfree
        · rcases List.mem_cons.mp he with rfl | he
          · exact le_min hr hfree
          · exact ih (sub_nonneg.mpr (min_le_left _ _)) hrest e he
      · exact ih hr hrest e he

theorem fifoLots_keys_nodup (lots : Dict String StockLot) :
    ((fifoLots lots).map Prod.fst).Nodup := by
  have hperm := (List.perm_insertionSort
    (fun a b : String × StockLot => fifoKey a ≤ fifoKey b) lots.entries).map
    Prod.fst
  exact hperm.nodup_iff.mpr lots.keys_nodup

/-! ## Frozen shares -/

variable {orders : Dict String Order}

theorem stockFrozen_set_new {id : String} {o : Order} (h : orders.get? id = none) (lotId : String) :
    stockFrozen (orders.set id o) lotId = stockFrozen orders lotId + o.frozenOn lotId :=
  Dict.sum_set_new h

theorem stockFrozen_set {id : String} {o o' : Order}
    (h : orders.get? id = some o) (lotId : String) :
    stockFrozen (orders.set id o') lotId
      = stockFrozen orders lotId + (o'.frozenOn lotId - o.frozenOn lotId) :=
  Dict.sum_set_old h

def ClaimsNonneg (orders : Dict String Order) : Prop :=
  ∀ id o, orders.get? id = some o → ∀ e ∈ o.stockReserved, 0 ≤ e.2

def ClaimsWithin (orders : Dict String Order) (lots : Dict String StockLot) :
    Prop :=
  ∀ k l, lots.get? k = some l → stockFrozen orders k ≤ l.quantity

theorem ClaimsNonneg.stockFrozen (h : ClaimsNonneg orders)
    (lotId : String) : 0 ≤ Sim.stockFrozen orders lotId :=
  Dict.sum_nonneg fun id o ho => claimOn_nonneg (h id o ho) lotId

theorem ClaimsWithin.lot_nonneg (h : ClaimsWithin orders lots)
    (hn : ClaimsNonneg orders) {k : String} {l : StockLot} (hl : lots.get? k = some l) :
    0 ≤ l.quantity :=
  (hn.stockFrozen k).trans (h k l hl)

structure Taken (usable : StockLot → Bool) (orders : Dict String Order)
    (lots : Dict String StockLot) (r : ℤ) (claims : List (String × ℤ)) : Prop where
  nonneg : ∀ e ∈ claims, 0 ≤ e.2
  free : ∀ k l, lots.get? k = some l →
    stockFrozen orders k + claimOn claims k ≤ l.quantity

theorem taken_of_takeFifo (hr : 0 ≤ r) (hw : ClaimsWithin orders lots) :
    Taken usable orders lots r (takeFifo usable (stockFrozen orders) r (fifoLots lots)).1 := by
  have hcap : ∀ e ∈ fifoLots lots, stockFrozen orders e.1 ≤ e.2.quantity :=
    fun e he => hw e.1 e.2 (mem_fifoLots.mp he)
  refine ⟨takeFifo_nonneg hr hcap, fun k l hl => ?_⟩
  set claims := (takeFifo usable (stockFrozen orders) r (fifoLots lots)).1
    with hclaims
  have hnodup : (claims.map Prod.fst).Nodup :=
    (fifoLots_keys_nodup lots).sublist (takeFifo_keys _ _)
  by_cases hk : k ∈ claims.map Prod.fst
  · obtain ⟨e, he, rfl⟩ := List.mem_map.mp hk
    obtain ⟨lot, hlot, hle⟩ := takeFifo_le he
    rw [claimOn_of_mem hnodup he]
    have heq : l = lot := Option.some.inj (hl.symm.trans (mem_fifoLots.mp hlot))
    subst heq
    omega
  · rw [claimOn_absent hk, add_zero]
    exact hw k l hl

theorem Taken.filter (h : Taken usable orders lots r claims) :
    Taken usable orders lots r (claims.filter fun e => e.2 ≠ 0) where
  nonneg := fun e he => h.nonneg e (List.mem_filter.mp he).1
  free := fun k l hl => by
    rw [claimOn_filter]
    exact h.free k l hl

theorem ClaimsWithin.take {id : String} {o : Order}
    (hn : ClaimsNonneg orders) (ht : Taken usable orders lots r o.stockReserved) :
    ClaimsWithin (orders.set id o) lots := by
  intro k l hl
  have hfree := ht.free k l hl
  rw [← Order.frozenOn_eq] at hfree
  cases hget : orders.get? id with
  | none =>
      rw [stockFrozen_set_new hget]
      exact hfree
  | some old =>
      have hold : 0 ≤ old.frozenOn k := claimOn_nonneg (hn id old hget) k
      rw [stockFrozen_set hget]
      omega

end Ahunter.Sim
