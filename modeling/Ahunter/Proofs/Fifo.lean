import Ahunter.Lib.Greedy
import Ahunter.Sim.Account

/-!
# Taking shares in order

`takeFifo` is a greedy allotment over the usable lots, cut off where the
amount is found (`takeFifo_allot`). Reassigning a security's sell orders
drops their claims on lots and takes them anew, the executing order first;
everything else about every order stays (`reallocateSellFifo_core`).
-/

namespace Ahunter.Sim

open Ahunter.Lib

variable {usable : StockLot → Bool} {frozen : String → ℤ}

def usableLots (usable : StockLot → Bool) (ls : List (String × StockLot)) :
    List (String × StockLot) :=
  ls.filter fun e => usable e.2

/-- What each of them has left. -/
def freeShares (frozen : String → ℤ) (ls : List (String × StockLot)) : List ℤ :=
  ls.map fun e => e.2.quantity - frozen e.1

variable {ls : List (String × StockLot)}

theorem takeFifo_mem {r : ℤ} {e : String × ℤ} (h : e ∈ (takeFifo usable frozen r ls).1) :
    ∃ lot, (e.1, lot) ∈ ls ∧ usable lot = true := by
  induction ls generalizing r with
  | nil => simp [takeFifo] at h
  | cons x rest ih =>
      obtain ⟨k, lot⟩ := x
      rw [takeFifo] at h
      split at h
      · next hu =>
          have hhead : ∃ l, (k, l) ∈ (k, lot) :: rest ∧ usable l = true :=
            ⟨lot, List.mem_cons_self, hu⟩
          simp only [] at h
          split at h
          · cases List.mem_singleton.mp h
            exact hhead
          · rcases List.mem_cons.mp h with rfl | h
            · exact hhead
            · obtain ⟨l, hl, hul⟩ := ih h
              exact ⟨l, List.mem_cons_of_mem _ hl, hul⟩
      · obtain ⟨l, hl, hul⟩ := ih h
        exact ⟨l, List.mem_cons_of_mem _ hl, hul⟩

theorem takeFifo_sum (r : ℤ) (ls : List (String × StockLot)) :
    ((takeFifo usable frozen r ls).1.map Prod.snd).sum = r - (takeFifo usable frozen r ls).2 := by
  induction ls generalizing r with
  | nil => simp [takeFifo]
  | cons x rest ih =>
      obtain ⟨k, lot⟩ := x
      rw [takeFifo]
      split
      · simp only []
        split
        · next h0 => simp; omega
        · rw [List.map_cons, List.sum_cons, ih]
          omega
      · exact ih r

theorem takeFifo_allot {r : ℤ} (hr : 0 ≤ r)
    (hcap : ∀ e ∈ usableLots usable ls, frozen e.1 ≤ e.2.quantity) :
    ∃ rest, (takeFifo usable frozen r ls).1 ++ rest = ((usableLots usable ls).map Prod.fst).zip
            (allot r (freeShares frozen (usableLots usable ls))) ∧ ∀ e ∈ rest, e.2 = 0 := by
  induction ls generalizing r with
  | nil => exact ⟨[], rfl, by simp⟩
  | cons x ls ih =>
      obtain ⟨k, lot⟩ := x
      by_cases hu : usable lot
      · have hlots : usableLots usable ((k, lot) :: ls)
            = (k, lot) :: usableLots usable ls := by
          simp [usableLots, hu]
        rw [hlots] at hcap ⊢
        have hcap' : ∀ e ∈ usableLots usable ls, frozen e.1 ≤ e.2.quantity :=
          fun e he => hcap e (List.mem_cons_of_mem _ he)
        simp only [takeFifo, hu, if_true, List.map_cons, freeShares, allot,
          List.zip_cons_cons]
        split
        · next h0 =>
            -- The break: everything after this lot is allotted nothing.
            refine ⟨_, rfl, fun e he => ?_⟩
            have hz : ∀ u ∈ allot 0 (freeShares frozen (usableLots usable ls)),
                u = 0 := allot_zero fun c hc => by
              obtain ⟨f, hf, rfl⟩ := List.mem_map.mp hc
              exact sub_nonneg.mpr (hcap' f hf)
            rw [h0] at he
            exact hz e.2 (List.of_mem_zip he).2
        · obtain ⟨rest, hrest, hzero⟩ :=
            ih (sub_nonneg.mpr (min_le_left r (lot.quantity - frozen k))) hcap'
          exact ⟨rest, by rw [List.cons_append, hrest]; rfl, hzero⟩
      · have hlots : usableLots usable ((k, lot) :: ls) = usableLots usable ls := by
          simp [usableLots, hu]
        rw [hlots] at hcap ⊢
        obtain ⟨rest, hrest, hzero⟩ := ih hr hcap
        exact ⟨rest, by simpa [takeFifo, hu] using hrest, hzero⟩

theorem takeFifo_left {r : ℤ} (hr : 0 ≤ r)
    (hcap : ∀ e ∈ usableLots usable ls, frozen e.1 ≤ e.2.quantity) :
    (takeFifo usable frozen r ls).2 = r - min r (freeShares frozen (usableLots usable ls)).sum := by
  obtain ⟨rest, hrest, hzero⟩ := takeFifo_allot hr hcap
  have hfree : ∀ c ∈ freeShares frozen (usableLots usable ls), 0 ≤ c :=
    fun c hc => by
      obtain ⟨f, hf, rfl⟩ := List.mem_map.mp hc
      exact sub_nonneg.mpr (hcap f hf)
  have hsum := congrArg (fun l => (l.map Prod.snd).sum) hrest
  simp only [List.map_append, List.sum_append] at hsum
  rw [List.map_snd_zip (by simp [freeShares]), allot_sum hr hfree,
    takeFifo_sum, List.sum_eq_zero (by
      intro c hc
      obtain ⟨e, he, rfl⟩ := List.mem_map.mp hc
      exact hzero e he)] at hsum
  omega

/-! ## Reassigning claims -/

variable {a b : Dict String Order} {id : String}

def Order.core (o : Order) : Order := { o with stockReserved := [] }

theorem Order.core_eq {o p : Order} (h : o.core = p.core) :
    o.toReservation = p.toReservation ∧ o.status = p.status ∧
      o.filledQuantity = p.filledQuantity ∧ o.tradeDate = p.tradeDate ∧
      o.cashReserved = p.cashReserved ∧ o.turnover = p.turnover := by
  simp only [Order.core, Order.mk.injEq] at h
  tauto

/-- Orders that differ in nothing but their claims on lots. -/
def SameCore (a b : Dict String Order) : Prop :=
  ∀ id, (b.get? id).map Order.core = (a.get? id).map Order.core

theorem SameCore.get (h : SameCore a b) {o : Order} (ho : a.get? id = some o) :
    ∃ o', b.get? id = some o' ∧ o'.core = o.core := by
  have := h id
  rw [ho, Option.map_some, Option.map_eq_some_iff] at this
  exact this

theorem SameCore.set (h : SameCore a b) {o o' : Order} (ho : b.get? id = some o)
    (hc : o'.core = o.core) : SameCore a (b.set id o') := fun j => by
  rw [Dict.get?_set]
  split
  · next hj => rw [hj, ← h id, ho, Option.map_some, Option.map_some, hc]
  · exact h j

theorem clearStock_core (h : SameCore a b) (id : String) : SameCore a (clearStock b id) := by
  unfold clearStock
  split
  · exact h
  · next o ho => exact h.set ho rfl

theorem clearStock_foldl_core (h : SameCore a b) (ids : List String) :
    SameCore a (ids.foldl clearStock b) := by
  induction ids generalizing b with
  | nil => exact h
  | cons id ids ih => exact ih (clearStock_core h id)

variable {z : Zone} {at_ : Instant}

theorem reassign_ok {lots : List (String × StockLot)} (h : reassign z at_ lots a id = .ok b) :
    ∃ order, a.get? id = some order ∧ (takeFifo (disposable z at_ order.security) (stockFrozen a)
        order.remaining lots).2 = 0 ∧
      b = a.set id { order with stockReserved :=
        (takeFifo (disposable z at_ order.security) (stockFrozen a)
          order.remaining lots).1.filter fun e => e.2 ≠ 0 } := by
  simp only [reassign, bind_ok, need_ok, refuse_ok, pure_ok, not_not] at h
  obtain ⟨order, horder, -, hleft, rfl⟩ := h
  exact ⟨order, horder, hleft, rfl⟩

variable {s s' : AccountState}

theorem reallocateSellFifo_ok (h : reallocateSellFifo z s id at_ = .ok s') :
    ∃ executing orders, s.orders.get? id = some executing ∧
      walk (reassign z at_ (fifoLots s.stockLots))
        ((reallocated s.orders executing id).foldl clearStock s.orders)
        (reallocated s.orders executing id) = .ok orders ∧
      s' = { s with orders := orders } := by
  simp only [reallocateSellFifo, bind_ok, need_ok, pure_ok] at h
  obtain ⟨executing, hexec, orders, hwalk, rfl⟩ := h
  exact ⟨executing, orders, hexec, hwalk, rfl⟩

/-- Reassignment moves nothing but claims on lots. -/
theorem reallocateSellFifo_core (h : reallocateSellFifo z s id at_ = .ok s') :
    SameCore s.orders s'.orders ∧ s' = { s with orders := s'.orders } := by
  obtain ⟨executing, orders, -, hwalk, rfl⟩ := reallocateSellFifo_ok h
  refine ⟨?_, rfl⟩
  refine walk_induction (P := fun o => SameCore s.orders o) hwalk
    (clearStock_foldl_core (fun _ => rfl) _) fun a j b _ ha hb => ?_
  obtain ⟨order, horder, -, rfl⟩ := reassign_ok hb
  exact ha.set horder rfl

theorem mem_fifoLots {lots : Dict String StockLot} {e : String × StockLot} :
    e ∈ fifoLots lots ↔ lots.get? e.1 = some e.2 := by
  rw [fifoLots, (List.perm_insertionSort _ _).mem_iff]
  exact Dict.mem_entries

theorem reallocateSellFifo_claims (h : reallocateSellFifo z s id at_ = .ok s') {order : Order}
    (ho : s'.orders.get? id = some order) :
    ∀ e ∈ order.stockReserved, ∃ lot, s.stockLots.get? e.1 = some lot ∧
      disposable z at_ order.security lot = true := by
  obtain ⟨executing, orders, hexec, hwalk, rfl⟩ := reallocateSellFifo_ok h
  have hclaims : ∀ (o : Order), orders.get? id = some o →
      ∀ e ∈ o.stockReserved, ∃ lot, s.stockLots.get? e.1 = some lot ∧
        disposable z at_ o.security lot = true := by
    refine walk_induction (P := fun d : Dict String Order => ∀ (o : Order),
      d.get? id = some o → ∀ e ∈ o.stockReserved, ∃ lot,
        s.stockLots.get? e.1 = some lot ∧
          disposable z at_ o.security lot = true) hwalk ?_ ?_
    · -- The executing order is the first to be cleared.
      intro o hget e he
      have hclear : ∀ (ids : List String) (d : Dict String Order),
          (∀ p, d.get? id = some p → p.stockReserved = []) →
          ∀ p, (ids.foldl clearStock d).get? id = some p →
            p.stockReserved = [] := by
        intro ids
        induction ids with
        | nil => exact fun d hd => hd
        | cons j js ih =>
            intro d hd
            refine ih _ fun p hp => ?_
            unfold clearStock at hp
            split at hp
            · exact hd p hp
            · rw [Dict.get?_set] at hp
              split at hp
              · cases hp; rfl
              · exact hd p hp
      have hnil : o.stockReserved = [] := by
        refine hclear _ (clearStock s.orders id) (fun p hp => ?_) o hget
        unfold clearStock at hp
        rw [hexec] at hp
        simp only [Dict.get?_set_self, Option.some.injEq] at hp
        rw [← hp]
      rw [hnil] at he
      cases he
    · intro a j b _ ha hb o hget e he
      obtain ⟨p, hp, -, rfl⟩ := reassign_ok hb
      rw [Dict.get?_set] at hget
      split at hget
      · cases hget
        obtain ⟨lot, hlot, hu⟩ := takeFifo_mem (List.mem_filter.mp he).1
        exact ⟨lot, mem_fifoLots.mp hlot, hu⟩
      · exact ha o hget e he
  exact hclaims order ho

end Ahunter.Sim
