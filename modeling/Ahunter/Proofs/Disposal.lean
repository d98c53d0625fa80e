import Ahunter.Proofs.ShareReservations

/-!
# Disposal in order

Reassigning a security's live sales always finds their shares: dropping their
claims frees at least what they ask for, and each takes no more than its part
(`reallocateSellFifo_isOk`). The executing order is served first, from lots
nobody else has claims on, so what a fill consumes is the first shares of the
eligible lots in their order (`fill_sold`). That depends on the quantity and
nothing else, and consecutive fills consume what one fill of their sum would
(`lotsLess_add`), whichever orders they are fills of.
-/

namespace Ahunter.Sim

open Ahunter.Lib

variable {spec : AccountSpec} {z : Zone} {at_ : Instant}

/-! ## What a class of lots has free -/

variable {id : String} {o : Order} {lots : Dict String StockLot}

def freeOver (lots : Dict String StockLot) (p : StockLot → Bool)
    (orders : Dict String Order) : ℤ :=
  lots.sum fun k l => if p l then l.quantity - stockFrozen orders k else 0

theorem sum_filter_ite {α : Type} (p : α → Bool) (f : α → ℤ) (l : List α) :
    ((l.filter p).map f).sum = (l.map fun a => if p a then f a else 0).sum := by
  induction l with
  | nil => rfl
  | cons a l ih => by_cases h : p a <;> simp [h, ih]

theorem freeOver_eq (lots : Dict String StockLot) (p : StockLot → Bool)
    (orders : Dict String Order) :
    (freeShares (stockFrozen orders) (usableLots p (fifoLots lots))).sum
      = freeOver lots p orders := by
  have hperm : (fifoLots lots).Perm lots.entries := List.perm_insertionSort _ _
  rw [freeShares, usableLots]
  refine (sum_filter_ite (fun e : String × StockLot => p e.2) _ _).trans ?_
  exact (hperm.map _).sum_eq

variable {orders : Dict String Order}

theorem freeOver_set (lots : Dict String StockLot) (p : StockLot → Bool)
    (h : orders.get? id = some o) (o' : Order) :
    freeOver lots p (orders.set id o') + claimsOver lots p o'.stockReserved
      = freeOver lots p orders + claimsOver lots p o.stockReserved := by
  simp only [freeOver, claimsOver]
  rw [← Dict.sum_add, ← Dict.sum_add]
  refine Dict.sum_congr fun k l _ => ?_
  rw [stockFrozen_set h, Order.frozenOn_eq, Order.frozenOn_eq]
  split <;> omega

theorem freeOver_nonneg {p : StockLot → Bool} (h : ClaimsWithin orders lots) :
    0 ≤ freeOver lots p orders :=
  Dict.sum_nonneg fun k l hl => by
    have := h k l hl
    split <;> omega

/-! ## Reassignment finds its shares -/

variable {s : AccountState} {executing : Order}

def remainingOf (orders : Dict String Order) (id : String) : ℤ :=
  ((orders.get? id).map Order.remaining).getD 0

theorem remainingOf_some (h : orders.get? id = some o) : remainingOf orders id = o.remaining := by
  rw [remainingOf, h]
  rfl

theorem clearStock_get (h : orders.get? id = some o) :
    clearStock orders id = orders.set id { o with stockReserved := [] } := by
  rw [clearStock, h]

variable {ids : List String}

theorem clearAll_get {j : String} (hj : j ∈ ids) (ho : orders.get? j = some o) :
    (ids.foldl clearStock orders).get? j = some { o with stockReserved := [] } := by
  induction ids generalizing orders o with
  | nil => cases hj
  | cons id ids ih =>
      rw [List.foldl_cons]
      have hone : (clearStock orders j).get? j
          = some { o with stockReserved := [] } := by
        rw [clearStock_get ho, Dict.get?_set_self]
      by_cases hin : j ∈ ids
      · by_cases heq : id = j
        · subst heq
          have := ih hin hone
          exact this
        · refine ih hin ?_
          have hother : ([id].foldl clearStock orders).get? j = orders.get? j :=
            clearStock_other (by simpa using Ne.symm heq)
          rw [← ho]
          exact hother
      · rcases List.mem_cons.mp hj with rfl | hj
        · rw [clearStock_other hin, hone]
        · exact absurd hj hin

theorem clearAll_free (lots : Dict String StockLot) (p : StockLot → Bool) (hnodup : ids.Nodup)
    (h : ∀ id ∈ ids, ∃ o, orders.get? id = some o ∧
      claimsOver lots p o.stockReserved = o.remaining) :
    freeOver lots p (ids.foldl clearStock orders)
      = freeOver lots p orders + (ids.map (remainingOf orders)).sum := by
  induction ids generalizing orders with
  | nil => simp
  | cons id ids ih =>
      rw [List.nodup_cons] at hnodup
      obtain ⟨o, ho, hclaims⟩ := h id List.mem_cons_self
      have hother : ∀ j ∈ ids, (clearStock orders id).get? j = orders.get? j := by
        intro j hj
        rw [clearStock_get ho, Dict.get?_set_of_ne]
        exact fun heq => hnodup.1 (heq ▸ hj)
      have hrest := ih hnodup.2 fun j hj => by
        rw [hother j hj]
        exact h j (List.mem_cons_of_mem _ hj)
      have hsame : ids.map (remainingOf (clearStock orders id))
          = ids.map (remainingOf orders) :=
        List.map_congr_left fun j hj => by rw [remainingOf, remainingOf, hother j hj]
      have hone := freeOver_set lots p ho { o with stockReserved := [] }
      have hnil : claimsOver lots p [] = 0 := claimsOver_none (by simp)
      rw [← clearStock_get ho] at hone
      rw [List.foldl_cons, hrest, hsame, List.map_cons, List.sum_cons,
        remainingOf_some ho]
      simp only [hnil, hclaims] at hone
      omega

theorem reassign_isOk (z : Zone) (at_ : Instant) {a : Dict String Order}
    (ha : OrdersWithin lots a) (ho : a.get? id = some o) (hclear : o.stockReserved = [])
    (henough : o.remaining ≤ freeOver lots (disposable z at_ o.security) a) :
    ∃ b, reassign z at_ (fifoLots lots) a id = .ok b ∧ (∀ j, j ≠ id → b.get? j = a.get? j) ∧
      freeOver lots (disposable z at_ o.security) b
        = freeOver lots (disposable z at_ o.security) a - o.remaining := by
  have hcap : ∀ e ∈ usableLots (disposable z at_ o.security) (fifoLots lots),
      stockFrozen a e.1 ≤ e.2.quantity := fun e he =>
    ha.within e.1 e.2 (mem_fifoLots.mp (List.mem_filter.mp he).1)
  have hleft := takeFifo_left (ha.sound id o ho).remaining hcap
  rw [freeOver_eq, min_eq_left henough, sub_self] at hleft
  set taken := (takeFifo (disposable z at_ o.security) (stockFrozen a) o.remaining
    (fifoLots lots)).1 with htaken
  have hsum : claimed taken = o.remaining := by
    rw [claimed, htaken, takeFifo_sum, hleft, sub_zero]
  have hmem : ∀ e ∈ taken.filter fun e => e.2 ≠ 0, ∃ l, lots.get? e.1 = some l ∧
      disposable z at_ o.security l = true := fun e he => by
    obtain ⟨l, hl, hu⟩ := takeFifo_mem (List.mem_filter.mp he).1
    exact ⟨l, mem_fifoLots.mp hl, hu⟩
  refine ⟨a.set id { o with stockReserved := taken.filter fun e => e.2 ≠ 0 }, ?_,
    fun j hj => Dict.get?_set_of_ne hj, ?_⟩
  · simp only [reassign, bind_ok, need_ok, refuse_ok, pure_ok, not_not]
    exact ⟨o, ho, (), hleft, rfl⟩
  · have hset := freeOver_set lots (disposable z at_ o.security) ho
      { o with stockReserved := taken.filter fun e => e.2 ≠ 0 }
    have hold : claimsOver lots (disposable z at_ o.security) o.stockReserved = 0 :=
      claimsOver_none (by simp [hclear])
    have hnew : claimsOver lots (disposable z at_ o.security)
        (taken.filter fun e => e.2 ≠ 0) = o.remaining := by
      rw [claimsOver_all hmem]
      exact (claimed_filter taken).trans hsum
    simp only [hold, hnew] at hset
    omega

theorem reassignAll_isOk (z : Zone) (at_ : Instant) (sec : String)
    {a : Dict String Order} (hnodup : ids.Nodup) (ha : OrdersWithin lots a)
    (hids : ∀ id ∈ ids, ∃ o, a.get? id = some o ∧ o.security = sec ∧ o.stockReserved = [])
    (henough : (ids.map (remainingOf a)).sum ≤ freeOver lots (disposable z at_ sec) a) :
    ∃ b, walk (reassign z at_ (fifoLots lots)) a ids = .ok b := by
  induction ids generalizing a with
  | nil => exact ⟨a, rfl⟩
  | cons id ids ih =>
      rw [List.nodup_cons] at hnodup
      obtain ⟨o, ho, rfl, hclear⟩ := hids id List.mem_cons_self
      rw [List.map_cons, List.sum_cons, remainingOf_some ho] at henough
      have hrest : 0 ≤ (ids.map (remainingOf a)).sum := by
        refine List.sum_nonneg fun q hq => ?_
        obtain ⟨j, hj, rfl⟩ := List.mem_map.mp hq
        obtain ⟨p, hp, -⟩ := hids j (List.mem_cons_of_mem _ hj)
        rw [remainingOf_some hp]
        exact (ha.sound j p hp).remaining
      obtain ⟨b, hb, hother, hfree⟩ := reassign_isOk z at_ ha ho hclear (by omega)
      have hne : ∀ j ∈ ids, b.get? j = a.get? j := fun j hj =>
        hother j fun heq => hnodup.1 (heq ▸ hj)
      have hsame : ids.map (remainingOf b) = ids.map (remainingOf a) :=
        List.map_congr_left fun j hj => by rw [remainingOf, remainingOf, hne j hj]
      obtain ⟨c, hc⟩ := ih hnodup.2 (reassign_within hb ha)
        (fun j hj => by rw [hne j hj]; exact hids j (List.mem_cons_of_mem _ hj))
        (by rw [hsame]; omega)
      exact ⟨c, walk_cons_ok.mpr ⟨b, hb, hc⟩⟩

/-- From a state whose sales claim what they should, reassignment succeeds. -/
theorem reallocateSellFifo_isOk (hs : Sound s) (hv : Valid s)
    (hb : Bound z at_ s.stockLots s.orders) (hexec : s.orders.get? id = some executing)
    (hselling : executing.selling = true) : ∃ s', reallocateSellFifo z s id at_ = .ok s' := by
  have hids : ∀ j ∈ reallocated s.orders executing id, ∃ o,
      s.orders.get? j = some o ∧ o.security = executing.security ∧
        SaleBound z at_ s.stockLots o := fun j hj => by
    obtain ⟨o, ho, hsec, hsell⟩ := (mem_reallocated hexec hselling).mp hj
    exact ⟨o, ho, hsec, (hb j o ho).sale hsell⟩
  have hnodup : (reallocated s.orders executing id).Nodup := reallocated_nodup
  have hfree := clearAll_free s.stockLots (disposable z at_ executing.security)
    hnodup fun j hj => by
      obtain ⟨o, ho, hsec, hsale⟩ := hids j hj
      exact ⟨o, ho, (claimsOver_all (hsec ▸ hsale.lots)).trans hsale.total⟩
  have hwithin : OrdersWithin s.stockLots
      ((reallocated s.orders executing id).foldl clearStock s.orders) :=
    List.foldlRecOn _ clearStock ⟨hs.orders, hv.within⟩ fun d hd j _ =>
      clearStock_within hd j
  have hsame : (reallocated s.orders executing id).map (remainingOf
      ((reallocated s.orders executing id).foldl clearStock s.orders))
      = (reallocated s.orders executing id).map (remainingOf s.orders) := by
    refine List.map_congr_left fun j hj => ?_
    obtain ⟨o, ho, -⟩ := hids j hj
    rw [remainingOf_some (clearAll_get hj ho), remainingOf_some ho]
    rfl
  obtain ⟨orders, hwalk⟩ := reassignAll_isOk z at_ executing.security hnodup hwithin
    (fun j hj => by
      obtain ⟨o, ho, hsec, -⟩ := hids j hj
      exact ⟨_, clearAll_get hj ho, hsec, rfl⟩)
    (by
      rw [hsame, hfree]
      have := freeOver_nonneg (p := disposable z at_ executing.security) hv.within
      omega)
  refine ⟨{ s with orders := orders }, ?_⟩
  simp only [reallocateSellFifo, bind_ok, need_ok, pure_ok]
  exact ⟨executing, hexec, orders, hwalk, rfl⟩

theorem reallocateSellFifo_totals {s' : AccountState} (h : reallocateSellFifo z s id at_ = .ok s')
    (hexec : s.orders.get? id = some executing) (hselling : executing.selling = true)
    (hb : Bound z at_ s.stockLots s.orders) {j : String} (ho : s.orders.get? j = some o) :
    ∃ o', s'.orders.get? j = some o' ∧ o'.core = o.core ∧
      claimed o'.stockReserved = claimed o.stockReserved := by
  obtain ⟨o', ho', hcore⟩ := (reallocateSellFifo_core h).1.get ho
  have hafter := reallocateSellFifo_bound h hexec hselling hb j o' ho'
  have hbefore := hb j o ho
  obtain ⟨hres, hstatus, hfilled, -⟩ := Order.core_eq hcore
  have hsame : o'.selling = o.selling := by
    rw [Order.selling, Order.selling, hres, hstatus]
  refine ⟨o', ho', hcore, ?_⟩
  by_cases hs : o.selling = true
  · rw [(hafter.sale (hsame ▸ hs)).total, (hbefore.sale hs).total, Order.remaining,
      Order.remaining, hres, hfilled]
  · rw [ClaimBound, hsame, if_neg hs] at hafter
    rw [ClaimBound, if_neg hs] at hbefore
    rw [hafter, hbefore]

/-! ## The first shares of the eligible lots -/

variable {security : String}

def eligibleLots (z : Zone) (at_ : Instant) (security : String)
    (lots : Dict String StockLot) : List (String × StockLot) :=
  usableLots (disposable z at_ security) (fifoLots lots)

/-- What they hold. -/
def eligibleShares (z : Zone) (at_ : Instant) (security : String)
    (lots : Dict String StockLot) : List ℤ :=
  (eligibleLots z at_ security lots).map fun e => e.2.quantity

/-- The first `quantity` shares of them, lot by lot. -/
def fifoPrefix (z : Zone) (at_ : Instant) (security : String) (quantity : ℤ)
    (lots : Dict String StockLot) : List (String × ℤ) :=
  ((eligibleLots z at_ security lots).map Prod.fst).zip
    (allot quantity (eligibleShares z at_ security lots))

def lotsLess (lots : Dict String StockLot) (taken : List (String × ℤ)) :
    Dict String StockLot :=
  lots.map fun k l => { l with quantity := l.quantity - claimOn taken k }

variable {quantity : ℤ}

theorem fifoPrefix_eligible {z : Zone} :
    ∀ e ∈ fifoPrefix z at_ security quantity lots, ∃ l, lots.get? e.1 = some l ∧
      l.security = security ∧ l.availableAt ≤ at_ ∧ l.sellableOn ≤ z.date at_ := by
  intro e he
  obtain ⟨x, hx, hkey⟩ := List.mem_map.mp (List.of_mem_zip he).1
  obtain ⟨hmem, hd⟩ := List.mem_filter.mp hx
  refine ⟨x.2, hkey ▸ mem_fifoLots.mp hmem, ?_⟩
  simpa [disposable, stockEligible, and_assoc] using hd

theorem takeFifo_congr {usable : StockLot → Bool} {f g : String → ℤ}
    {ls : List (String × StockLot)} (h : ∀ e ∈ ls, usable e.2 = true → f e.1 = g e.1)
    (r : ℤ) : takeFifo usable f r ls = takeFifo usable g r ls := by
  induction ls generalizing r with
  | nil => rfl
  | cons x ls ih =>
      obtain ⟨k, l⟩ := x
      have hrest := ih fun e he => h e (List.mem_cons_of_mem _ he)
      by_cases hu : usable l
      · have hk : f k = g k := h (k, l) List.mem_cons_self hu
        simp only [takeFifo, hu, if_true, hk, hrest]
      · simp only [takeFifo, hu, if_false, Bool.false_eq_true, hrest]

variable {claims : List (String × ℤ)}

theorem claimOn_le_claimed
    (h : ∀ e ∈ claims, 0 ≤ e.2) (k : String) : claimOn claims k ≤ claimed claims := by
  induction claims with
  | nil => exact le_rfl
  | cons e claims ih =>
      have hrest := ih fun f hf => h f (List.mem_cons_of_mem _ hf)
      have he := h e List.mem_cons_self
      rw [claimOn_cons]
      simp only [claimed, List.map_cons, List.sum_cons] at hrest ⊢
      split <;> omega

theorem cleared_unclaimed {k : String} {l : StockLot} (hs : Sound s)
    (hb : Bound z at_ s.stockLots s.orders) (hexec : s.orders.get? id = some executing)
    (hselling : executing.selling = true) (hl : s.stockLots.get? k = some l)
    (hsec : l.security = executing.security) :
    stockFrozen ((reallocated s.orders executing id).foldl clearStock s.orders) k = 0 := by
  refine Dict.sum_zero fun j o ho => ?_
  rw [Order.frozenOn_eq]
  by_cases hj : j ∈ reallocated s.orders executing id
  · obtain ⟨p, hp, -⟩ := (mem_reallocated hexec hselling).mp hj
    rw [clearAll_get hj hp] at ho
    cases ho
    rfl
  rw [clearStock_other hj] at ho
  have hbound := hb j o ho
  have hnonneg := (hs.orders j o ho).claims
  by_cases hsell : o.selling = true
  · -- A live sale of another security has its claims elsewhere.
    refine claimOn_absent fun hmem => ?_
    obtain ⟨e, he, rfl⟩ := List.mem_map.mp hmem
    obtain ⟨l', hl', hd⟩ := (hbound.sale hsell).lots e he
    cases hl.symm.trans hl'
    simp only [disposable, Bool.and_eq_true, decide_eq_true_eq] at hd
    exact hj ((mem_reallocated hexec hselling).mpr
      ⟨o, ho, hd.1.symm.trans hsec, hsell⟩)
  · rw [ClaimBound, if_neg hsell] at hbound
    have hle := claimOn_le_claimed hnonneg k
    have hge := claimOn_nonneg hnonneg k
    omega

theorem reallocateSellFifo_prefix {s' : AccountState} (h : reallocateSellFifo z s id at_ = .ok s')
    (hs : Sound s) (hv : Valid s) (hb : Bound z at_ s.stockLots s.orders)
    (hexec : s.orders.get? id = some executing) (hselling : executing.selling = true) :
    executing.remaining ≤ (eligibleShares z at_ executing.security s.stockLots).sum ∧
      ∃ order, s'.orders.get? id = some order ∧ order.stockReserved
        = (fifoPrefix z at_ executing.security executing.remaining s.stockLots).filter
            fun e => e.2 ≠ 0 := by
  obtain ⟨executing', orders, hexec', hwalk, rfl⟩ := reallocateSellFifo_ok h
  cases hexec.symm.trans hexec'
  have hin : id ∈ reallocated s.orders executing id := List.mem_cons_self
  have hnodup : (reallocated s.orders executing id).Nodup := reallocated_nodup
  -- The executing order is the first to be served.
  have hfirst : reallocated s.orders executing id
      = id :: (reallocated s.orders executing id).tail := rfl
  have hget := clearAll_get hin hexec
  set cleared := (reallocated s.orders executing id).foldl clearStock s.orders
    with hcleared
  rw [hfirst, List.nodup_cons] at hnodup
  rw [hfirst] at hwalk
  obtain ⟨served, hone, hrest⟩ := walk_cons_ok.mp hwalk
  obtain ⟨order, horder, hleft, rfl⟩ := reassign_ok hone
  cases hget.symm.trans horder
  have hzero : ∀ e ∈ fifoLots s.stockLots,
      disposable z at_ executing.security e.2 = true →
        stockFrozen cleared e.1 = (fun _ => 0 : String → ℤ) e.1 := by
    intro e he hd
    simp only [disposable, Bool.and_eq_true, decide_eq_true_eq] at hd
    exact cleared_unclaimed hs hb hexec hselling (mem_fifoLots.mp he) hd.1
  have hquantities : ∀ e ∈ usableLots (disposable z at_ executing.security)
      (fifoLots s.stockLots), (fun _ => 0 : String → ℤ) e.1 ≤ e.2.quantity := fun e he =>
    hv.within.lot_nonneg hs.claims (mem_fifoLots.mp (List.mem_filter.mp he).1)
  have hremaining : 0 ≤ executing.remaining := (hs.orders id executing hexec).remaining
  have hfree : freeShares (fun _ => 0)
      (usableLots (disposable z at_ executing.security) (fifoLots s.stockLots))
      = eligibleShares z at_ executing.security s.stockLots := by
    simp only [freeShares, eligibleShares, eligibleLots, sub_zero]
  have hsame : takeFifo (disposable z at_ executing.security) (stockFrozen cleared)
      executing.remaining (fifoLots s.stockLots)
      = takeFifo (disposable z at_ executing.security) (fun _ => 0)
        executing.remaining (fifoLots s.stockLots) := takeFifo_congr hzero _
  obtain ⟨rest, hallot, hnone⟩ := @takeFifo_allot
    (disposable z at_ executing.security) (fun _ => 0) _ _ hremaining hquantities
  have hfound := @takeFifo_left
    (disposable z at_ executing.security) (fun _ => 0) _ _ hremaining hquantities
  rw [hfree] at hallot hfound
  have hserved := (reassignAll_ok hnodup.2 hrest).1 id hnodup.1
  refine ⟨?_, _, hserved.trans (Dict.get?_set_self _ _ _), ?_⟩
  · have hdone : (takeFifo (disposable z at_ executing.security) (stockFrozen cleared)
        executing.remaining (fifoLots s.stockLots)).2 = 0 := hleft
    rw [hsame, hfound] at hdone
    omega
  · show List.filter _ (takeFifo (disposable z at_ executing.security)
      (stockFrozen cleared) executing.remaining (fifoLots s.stockLots)).1 = _
    have hdrop : rest.filter (fun e => e.2 ≠ 0) = [] :=
      List.filter_eq_nil_iff.mpr fun e he => by simp [hnone e he]
    rw [hsame, fifoPrefix, eligibleLots, ← hallot, List.filter_append, hdrop,
      List.append_nil]

/-! ## What a fill consumes -/

def spent (quantity : ℤ) (claims : List (String × ℤ)) : List (String × ℤ) :=
  (claims.map Prod.fst).zip (allot quantity (claims.map Prod.snd))

theorem spent_cons (q : ℤ) (e : String × ℤ) (claims : List (String × ℤ)) :
    spent q (e :: claims) = (e.1, min q e.2) :: spent (q - min q e.2) claims := rfl

theorem claimOn_zero (h : ∀ e ∈ claims, e.2 = 0) (k : String) : claimOn claims k = 0 := by
  refine List.sum_eq_zero fun q hq => ?_
  obtain ⟨e, he, rfl⟩ := List.mem_map.mp hq
  exact h e (List.mem_filter.mp he).1

theorem spent_filter {q : ℤ} (hq : 0 ≤ q) (hclaims : ∀ e ∈ claims, 0 ≤ e.2) (k : String) :
    claimOn (spent q (claims.filter fun e => e.2 ≠ 0)) k = claimOn (spent q claims) k := by
  induction claims generalizing q with
  | nil => rfl
  | cons e claims ih =>
      have hrest : ∀ f ∈ claims, 0 ≤ f.2 := fun f hf =>
        hclaims f (List.mem_cons_of_mem _ hf)
      by_cases h : e.2 = 0
      · have hmin : min q e.2 = 0 := by rw [h, min_eq_right hq]
        rw [List.filter_cons_of_neg (by simp [h]), ih hq hrest, spent_cons, hmin,
          claimOn_cons, sub_zero]
        simp
      · have hnonneg : 0 ≤ q - min q e.2 := sub_nonneg.mpr (min_le_left _ _)
        rw [List.filter_cons_of_pos (by simp [h]), spent_cons, spent_cons,
          claimOn_cons, claimOn_cons, ih hnonneg hrest]

theorem disposeLots_lots {pending : ℤ} {d : Disposal}
    (h : disposeLots z at_ pending claims s = .ok d) (hclaims : ∀ e ∈ claims, 0 ≤ e.2) :
    d.state.stockLots = lotsLess s.stockLots (spent pending claims) := by
  induction claims generalizing pending s d with
  | nil =>
      cases pure_ok.mp h
      refine Dict.ext_get? fun k => ?_
      simp [lotsLess, spent]
  | cons x rest ih =>
      obtain ⟨k, reserved⟩ := x
      have hrest : ∀ e ∈ rest, 0 ≤ e.2 := fun e he =>
        hclaims e (List.mem_cons_of_mem _ he)
      simp only [disposeLots, bind_ok, need_ok] at h
      obtain ⟨⟨s1, tax, es⟩, hassess, lot, hlot, h⟩ := h
      obtain ⟨-, -, hlots⟩ := assessDisposal_writes hassess
      have hlots' : s1.stockLots = s.stockLots := hlots
      rw [hlots'] at hlot h
      -- One claim first, then the rest of them.
      have hsplit : lotsLess (s.stockLots.set k
          { lot with quantity := lot.quantity - min pending reserved })
            (spent (pending - min pending reserved) rest)
          = lotsLess s.stockLots (spent pending ((k, reserved) :: rest)) := by
        refine Dict.ext_get? fun j => ?_
        simp only [lotsLess, Dict.get?_map, spent_cons, claimOn_cons]
        by_cases hj : j = k
        · subst hj
          rw [Dict.get?_set_self, hlot, Option.map_some, Option.map_some, if_pos rfl,
            sub_sub]
        · rw [Dict.get?_set_of_ne hj]
          simp only [if_neg (Ne.symm hj), zero_add]
      rw [← hsplit]
      split at h
      · next hdone =>
          cases pure_ok.mp h
          have hnone : ∀ j, claimOn (spent 0 rest) j = 0 := by
            refine claimOn_zero fun e he => ?_
            refine allot_zero (fun c hc => ?_) e.2 (List.of_mem_zip he).2
            obtain ⟨f, hf, rfl⟩ := List.mem_map.mp hc
            exact hrest f hf
          rw [hdone]
          refine Dict.ext_get? fun j => ?_
          simp [lotsLess, hnone]
      · simp only [bind_ok, pure_ok] at h
        obtain ⟨d', hloop, rfl⟩ := h
        exact ih hloop hrest

theorem lotsLess_congr {a b : List (String × ℤ)} (h : ∀ k, claimOn a k = claimOn b k) :
    lotsLess lots a = lotsLess lots b := by
  refine Dict.ext_get? fun k => ?_
  simp only [lotsLess, Dict.get?_map, h k]

theorem spent_prefix {q r : ℤ} (hq : 0 ≤ q) (hqr : q ≤ r)
    (hlots : ∀ c ∈ eligibleShares z at_ security lots, 0 ≤ c) :
    spent q (fifoPrefix z at_ security r lots) = fifoPrefix z at_ security q lots := by
  have hlen : ((eligibleLots z at_ security lots).map Prod.fst).length
      = (allot r (eligibleShares z at_ security lots)).length := by
    rw [allot_length, eligibleShares, List.length_map, List.length_map]
  rw [spent, fifoPrefix, List.map_fst_zip hlen.le, List.map_snd_zip hlen.ge,
    allot_allot hq hqr hlots]
  rfl

theorem eligibleShares_nonneg (hs : Sound s) (hv : Valid s) (z : Zone) (at_ : Instant)
    (security : String) : ∀ c ∈ eligibleShares z at_ security s.stockLots, 0 ≤ c := by
  intro c hc
  obtain ⟨e, he, rfl⟩ := List.mem_map.mp hc
  exact hv.within.lot_nonneg hs.claims (mem_fifoLots.mp (List.mem_filter.mp he).1)

theorem fill_sold {aid : String} {price : ℚ} {o : Outcome} {order : Order}
    (h : fill spec aid id quantity price at_ s = .ok o) (hq : 0 ≤ quantity) (hs : Sound s)
    (hv : Valid s) (hb : Bound spec.zone at_ s.stockLots s.orders)
    (horder : s.orders.get? id = some order) (hside : order.side = .sell) :
    quantity ≤ (eligibleShares spec.zone at_ order.security s.stockLots).sum ∧
      o.state.stockLots = lotsLess s.stockLots
        (fifoPrefix spec.zone at_ order.security quantity s.stockLots) := by
  obtain ⟨t, s1, es, order1, hterms, hbranch, -, rfl⟩ := fill_ok h
  obtain ⟨horder', hexec, -, hle, -, -, hid, hquantity, hat, -⟩ := fillTerms_ok hterms
  cases horder.symm.trans horder'
  have hselling : t.order.selling = true :=
    Order.selling_iff.mpr ⟨hside, OrderStatus.held_of_executable hexec⟩
  simp only [fillSide, hside] at hbranch
  obtain ⟨s2, order2, d, es2, hrealloc, hget, hdispose, -, hsettle, -⟩ :=
    fillSell_ok hbranch
  rw [hid, hat] at hrealloc
  rw [hid] at hget
  rw [hat, hquantity] at hdispose
  obtain ⟨henough, order3, hget3, hclaims⟩ :=
    reallocateSellFifo_prefix hrealloc hs hv hb horder hselling
  cases hget.symm.trans hget3
  have hnonneg := eligibleShares_nonneg hs hv spec.zone at_ t.order.security
  refine ⟨hle.trans henough, ?_⟩
  show s1.stockLots = _
  rw [(settleProceeds_stock hsettle).1]
  show d.state.stockLots = _
  obtain ⟨-, hsame⟩ := reallocateSellFifo_core hrealloc
  have hlots : s2.stockLots = s.stockLots := by rw [hsame]
  have hpos : ∀ e ∈ fifoPrefix spec.zone at_ t.order.security t.order.remaining
      s.stockLots, 0 ≤ e.2 := fun e he =>
    allot_nonneg (hq.trans hle) hnonneg e.2 (List.of_mem_zip he).2
  rw [disposeLots_lots hdispose fun e he => by
    rw [hclaims] at he
    exact hpos e (List.mem_filter.mp he).1, hlots, hclaims]
  refine lotsLess_congr fun k => ?_
  rw [spent_filter hq hpos, spent_prefix hq hle hnonneg]

/-! ## One fill after the other -/

theorem claimOn_zip {keys : List String} {us : List ℤ} (hnodup : keys.Nodup)
    (hlen : us.length = keys.length) : keys.map (claimOn (keys.zip us)) = us := by
  induction keys generalizing us with
  | nil => exact (List.length_eq_zero_iff.mp hlen).symm
  | cons k keys ih =>
      obtain ⟨u, us, rfl⟩ := List.exists_cons_of_length_eq_add_one hlen
      rw [List.nodup_cons] at hnodup
      have hlen' : us.length = keys.length := by simpa using hlen
      have habsent : claimOn (keys.zip us) k = 0 := claimOn_absent fun hk => by
        rw [List.map_fst_zip hlen'.ge] at hk
        exact hnodup.1 hk
      rw [List.zip_cons_cons, List.map_cons, claimOn_cons, if_pos rfl, habsent, add_zero]
      congr 1
      rw [← ih hnodup.2 hlen']
      refine List.map_congr_left fun j hj => ?_
      have hne : k ≠ j := fun h => hnodup.1 (h ▸ hj)
      rw [claimOn_cons, if_neg hne, zero_add, ih hnodup.2 hlen']

theorem claimOn_zip_add (keys : List String) (us vs : List ℤ)
    (hu : us.length = keys.length) (hv : vs.length = keys.length) (k : String) :
    claimOn (keys.zip us) k + claimOn (keys.zip vs) k
      = claimOn (keys.zip (List.zipWith (· + ·) us vs)) k := by
  induction keys generalizing us vs with
  | nil => simp
  | cons j keys ih =>
      obtain ⟨u, us, rfl⟩ := List.exists_cons_of_length_eq_add_one hu
      obtain ⟨v, vs, rfl⟩ := List.exists_cons_of_length_eq_add_one hv
      have hrest := ih us vs (by simpa using hu) (by simpa using hv)
      simp only [List.zipWith_cons_cons, List.zip_cons_cons, claimOn_cons]
      split <;> omega

theorem eligibleLots_lotsLess (z : Zone) (at_ : Instant) (security : String)
    (lots : Dict String StockLot) (taken : List (String × ℤ)) :
    eligibleLots z at_ security (lotsLess lots taken)
      = (eligibleLots z at_ security lots).map fun e =>
        (e.1, { e.2 with quantity := e.2.quantity - claimOn taken e.1 }) := by
  have hsorted : fifoLots (lotsLess lots taken) = (fifoLots lots).map fun e =>
      (e.1, { e.2 with quantity := e.2.quantity - claimOn taken e.1 }) := by
    refine (List.map_insertionSort _ _ _ _ fun a _ b _ => ?_).symm
    exact Iff.rfl
  rw [eligibleLots, eligibleLots, usableLots, usableLots, hsorted, List.filter_map]
  rfl

theorem eligibleLots_keys_nodup (z : Zone) (at_ : Instant) (security : String)
    (lots : Dict String StockLot) : ((eligibleLots z at_ security lots).map Prod.fst).Nodup :=
  (fifoLots_keys_nodup lots).sublist (List.Sublist.map _ List.filter_sublist)

theorem eligibleShares_lotsLess (z : Zone) (at_ : Instant) (security : String)
    (q : ℤ) (lots : Dict String StockLot) :
    eligibleShares z at_ security (lotsLess lots (fifoPrefix z at_ security q lots))
      = leftOver (eligibleShares z at_ security lots)
        (allot q (eligibleShares z at_ security lots)) := by
  set taken := fifoPrefix z at_ security q lots with htaken
  have hlen : (allot q (eligibleShares z at_ security lots)).length
      = ((eligibleLots z at_ security lots).map Prod.fst).length := by
    rw [allot_length, eligibleShares, List.length_map, List.length_map]
  have hamounts := claimOn_zip (eligibleLots_keys_nodup z at_ security lots) hlen
  rw [← hamounts, ← fifoPrefix, ← htaken, eligibleShares, eligibleLots_lotsLess,
    List.map_map, leftOver, eligibleShares, List.map_map, List.zipWith_map,
    List.zipWith_self]
  rfl

theorem lotsLess_add {a b : ℤ} (ha : 0 ≤ a) (hb : 0 ≤ b)
    (hlots : ∀ c ∈ eligibleShares z at_ security lots, 0 ≤ c) :
    lotsLess (lotsLess lots (fifoPrefix z at_ security a lots)) (fifoPrefix z at_ security b
          (lotsLess lots (fifoPrefix z at_ security a lots)))
      = lotsLess lots (fifoPrefix z at_ security (a + b) lots) := by
  set shares := eligibleShares z at_ security lots with hshares
  set keys := (eligibleLots z at_ security lots).map Prod.fst with hkeys
  have hlen : shares.length = keys.length := by
    rw [hshares, eligibleShares, hkeys, List.length_map, List.length_map]
  have hsecond : fifoPrefix z at_ security b
      (lotsLess lots (fifoPrefix z at_ security a lots))
      = keys.zip (allot b (leftOver shares (allot a shares))) := by
    rw [fifoPrefix, eligibleShares_lotsLess, eligibleLots_lotsLess, List.map_map]
    rfl
  have hleft : (leftOver shares (allot a shares)).length = keys.length := by
    rw [leftOver, List.length_zipWith, allot_length, min_self, hlen]
  refine Dict.ext_get? fun k => ?_
  rw [hsecond]
  simp only [lotsLess, Dict.get?_map, Option.map_map]
  refine congrFun (congrArg Option.map (funext fun l => ?_)) _
  have hadd := claimOn_zip_add keys (allot a shares)
    (allot b (leftOver shares (allot a shares)))
    ((allot_length _ _).trans hlen) ((allot_length _ _).trans hleft) k
  rw [allot_add ha hb hlots] at hadd
  simp only [Function.comp, StockLot.mk.injEq, and_true, true_and]
  simp only [fifoPrefix, ← hkeys, ← hshares, ← hadd]
  omega

/-- Fills of sales of one security one after the other, with whatever happens
between them that leaves the lots alone, while the same lots are eligible. -/
inductive SaleRun (spec : AccountSpec) (at_ : Instant) (security : String)
    (s : AccountState) : ℤ → AccountState → Prop
  | refl : SaleRun spec at_ security s 0 s
  | sale {quantity q : ℤ} {t u : AccountState} {aid id : String} {price : ℚ}
      {now : Instant} {order : Order} {es : List Entry}
      (h : SaleRun spec at_ security s quantity t)
      (horder : t.orders.get? id = some order) (hside : order.side = .sell)
      (hsecurity : order.security = security)
      (heligible : ∀ k l, t.stockLots.get? k = some l →
        disposable spec.zone now security l = disposable spec.zone at_ security l)
      (hstep : LedgerStep spec .strict t [(aid, .account (.fill id q price now))]
        es u) : SaleRun spec at_ security s (quantity + q) u
  | between {quantity : ℤ} {t u : AccountState} {as : List Act} {es : List Entry}
      (h : SaleRun spec at_ security s quantity t)
      (hstep : LedgerStep spec .strict t as es u)
      (hfresh : FreshKeys t (as.flatMap fun a => a.2.lotKeys a.1 u))
      (hlots : u.stockLots = t.stockLots) : SaleRun spec at_ security s quantity u

theorem eligibleLots_congr {t u : Instant}
    (h : ∀ k l, lots.get? k = some l → disposable z t security l = disposable z u security l) :
    eligibleLots z t security lots = eligibleLots z u security lots :=
  List.filter_congr fun e he => by rw [h e.1 e.2 (mem_fifoLots.mp he)]

theorem SaleRun.sold {t : AccountState}
    (h : SaleRun spec at_ security s quantity t) (hs : ShareSound spec s) :
    ShareSound spec t ∧ 0 ≤ quantity ∧ t.stockLots = lotsLess s.stockLots
        (fifoPrefix spec.zone at_ security quantity s.stockLots) := by
  have hnonneg := eligibleShares_nonneg hs.funded.sound hs.funded.valid spec.zone at_
    security
  induction h with
  | refl =>
      refine ⟨hs, le_rfl, ?_⟩
      have hnone : ∀ k, claimOn (fifoPrefix spec.zone at_ security 0 s.stockLots) k = 0 :=
        claimOn_zero fun e he => allot_zero hnonneg e.2 (List.of_mem_zip he).2
      refine Dict.ext_get? fun k => ?_
      simp [lotsLess, hnone]
  | between h hstep hfresh hlots ih =>
      obtain ⟨ht, hq, hsold⟩ := ih
      exact ⟨hstep.shareSound hfresh ht, hq, hlots.trans hsold⟩
  | @sale quantity q t u aid id price now order es h horder hside hsecurity heligible
      hstep ih =>
      obtain ⟨ht, hq, hsold⟩ := ih
      subst hsecurity
      have hkept := hstep.writes
      obtain ⟨keys, hw, -⟩ := hkept
      obtain ⟨order', horder', hres⟩ := hw.orders id order horder
      have hfresh : FreshKeys t
          (([(aid, .account (.fill id q price now))] : List Act).flatMap
            fun a => a.2.lotKeys a.1 u) := by
        have hside' : order'.side = .sell := by rw [hres, hside]
        simp [StageRequest.lotKeys, AccountRequest.lotKeys, horder', hside', FreshKeys]
      refine ⟨hstep.shareSound hfresh ht, ?_⟩
      cases hstep with
      | account hcheck hrun hseal =>
          have hsealed := prepareState_ok hseal
          simp only [AccountRequest.check, refuse_ok, not_or, not_le] at hcheck
          have hlast := perform_lastEventAt (by
            simp only [AccountRequest.check, refuse_ok, not_or, not_le]
            exact hcheck) hrun ht.funded.sound ht.funded.valid
          obtain ⟨_, _, _, _, -, -, -, ho⟩ := fill_ok hrun
          have hat := congrArg Outcome.at_ ho
          have hordered := hsealed.ordered
          rw [hlast, hat] at hordered
          obtain ⟨-, hfilled⟩ := fill_sold hrun hcheck.1.le ht.funded.sound
            ht.funded.valid (ht.boundAt hordered) horder hside
          refine ⟨add_nonneg hq hcheck.1.le, ?_⟩
          obtain ⟨_, _, -, -, hstate⟩ := hsealed.state
          rw [hstate]
          refine hfilled.trans ?_
          rw [fifoPrefix, eligibleShares, eligibleLots_congr heligible,
            ← eligibleShares, ← fifoPrefix, hsold]
          exact lotsLess_add hq hcheck.1.le hnonneg

end Ahunter.Sim
