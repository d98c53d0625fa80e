import Ahunter.Proofs.Spending
import Ahunter.Sim.System

/-!
# Operations and the entries they write

Every ledger operation changes the state by hand and writes its journal
entries by hand. `Writes s keys entries s'` says that the two agree: each
journal account's entries add up to the change of the balance it stands for,
provided the stock-lot keys the operation writes were free. It also says what
every operation leaves standing, which is what lets the keys of a whole
sequence of operations be read off the state at its end.

The relation composes (`Writes.trans`), so the loops inside the operations
and the sequences of operations inside a stage both come down to one lemma
for each single change.
-/

namespace Ahunter.Sim

open Ahunter.Lib

/-! ## Postings -/

/-- What an entry posts to `cash`. -/
def Entry.toCash : Entry → ℚ
  | .cash amount _ => amount
  | _ => 0

/-- What an entry posts to `payables`. -/
def Entry.toPayables : Entry → ℚ
  | .payables amount _ => amount
  | _ => 0

/-- What an entry posts to `dividend_tax_reserve`. -/
def Entry.toReserve : Entry → ℚ
  | .dividendTaxReserve amount => amount
  | _ => 0

def Entry.toShares (security : String) : Entry → ℤ
  | .shares s quantity _ => if s = security then quantity else 0
  | _ => 0

def Entry.silent : Entry → Bool
  | .cash .. | .shares .. | .payables .. | .dividendTaxReserve .. => false
  | _ => true

def posted {M : Type} [AddCommMonoid M] (f : Entry → M) (es : List Entry) : M :=
  (es.map f).sum

section Posted

variable {M : Type} [AddCommMonoid M] (f : Entry → M)

@[simp] theorem posted_nil : posted f [] = 0 := rfl

@[simp] theorem posted_cons (e : Entry) (es : List Entry) :
    posted f (e :: es) = f e + posted f es := by
  simp [posted]

@[simp] theorem posted_append (es es' : List Entry) :
    posted f (es ++ es') = posted f es + posted f es' := by
  simp [posted]

theorem posted_zero {es : List Entry} (h : ∀ e ∈ es, f e = 0) : posted f es = 0 := by
  induction es with
  | nil => rfl
  | cons e es ih =>
      rw [posted_cons, h e List.mem_cons_self, zero_add]
      exact ih fun e he => h e (List.mem_cons_of_mem _ he)

end Posted

variable {es fs : List Entry} {s : AccountState}

theorem posted_silent (h : ∀ e ∈ es, e.silent = true) :
    posted Entry.toCash es = 0 ∧ posted Entry.toPayables es = 0 ∧ posted Entry.toReserve es = 0 ∧
      ∀ security, posted (Entry.toShares security) es = 0 := by
  refine ⟨posted_zero _ ?_, posted_zero _ ?_, posted_zero _ ?_,
    fun _ => posted_zero _ ?_⟩
  all_goals
    intro e he
    have := h e he
    cases e <;> first | rfl | exact absurd this Bool.false_ne_true

def sharesOver (lots : Dict String StockLot) (security : String) : ℤ :=
  lots.sum fun _ l => if l.security = security then l.quantity else 0

structure Reconciles (s : AccountState) (es : List Entry) (s' : AccountState) :
    Prop where
  cash : cashTotal s' = cashTotal s + posted Entry.toCash es
  payables : s'.payables = s.payables + posted Entry.toPayables es
  reserve : s'.dividendTaxReserve
    = s.dividendTaxReserve + posted Entry.toReserve es
  liabilities : s'.liabilities - s'.dividendTaxReserve
    = s.liabilities - s.dividendTaxReserve
  shares : ∀ security, sharesOver s'.stockLots security
    = sharesOver s.stockLots security + posted (Entry.toShares security) es

variable {t u : AccountState}

theorem Reconciles.trans (h : Reconciles s es t) (h' : Reconciles t fs u) :
    Reconciles s (es ++ fs) u where
  cash := by rw [h'.cash, h.cash, posted_append, add_assoc]
  payables := by rw [h'.payables, h.payables, posted_append, add_assoc]
  reserve := by rw [h'.reserve, h.reserve, posted_append, add_assoc]
  liabilities := h'.liabilities.trans h.liabilities
  shares := fun sec => by
    rw [h'.shares, h.shares, posted_append, add_assoc]

/-! ## What an operation leaves standing -/

variable {id k : String} {a : Dict String CorporateItem} {ks js : List String} {l l' : StockLot}

def OrdersKept (a b : Dict String Order) : Prop :=
  ∀ id o, a.get? id = some o →
    ∃ o', b.get? id = some o' ∧ o'.toReservation = o.toReservation

def ActionsKept (a b : Dict String CorporateItem) : Prop :=
  ∀ id i, a.get? id = some i → ∃ i', b.get? id = some i' ∧
    i'.terms = i.terms ∧ i'.entitlements = i.entitlements

def ActionsSame (a b : Dict String CorporateItem) : Prop :=
  ActionsKept a b ∧ ActionsKept b a

def LotsWithin (a : Dict String StockLot) (keys : List String)
    (b : Dict String StockLot) : Prop :=
  (∀ k l, a.get? k = some l → ∃ l', b.get? k = some l') ∧
    ∀ k l, b.get? k = some l → a.get? k = none → k ∈ keys

theorem OrdersKept.refl (a : Dict String Order) : OrdersKept a a :=
  fun _ o h => ⟨o, h, rfl⟩

theorem OrdersKept.trans {a b c : Dict String Order} (h : OrdersKept a b)
    (h' : OrdersKept b c) : OrdersKept a c := fun id o ho => by
  obtain ⟨o', ho', hr⟩ := h id o ho
  obtain ⟨o'', ho'', hr'⟩ := h' id o' ho'
  exact ⟨o'', ho'', hr'.trans hr⟩

theorem OrdersKept.set {a : Dict String Order} {o o' : Order} (h : a.get? id = some o)
    (hr : o'.toReservation = o.toReservation) : OrdersKept a (a.set id o') := fun j p hp => by
  by_cases hj : j = id
  · subst hj
    cases h.symm.trans hp
    exact ⟨o', Dict.get?_set_self _ _ _, hr⟩
  · exact ⟨p, by rw [Dict.get?_set_of_ne hj, hp], rfl⟩

theorem OrdersKept.set_new {a : Dict String Order} {o' : Order} (h : a.get? id = none) :
    OrdersKept a (a.set id o') := fun j p hp => by
  have hj : j ≠ id := fun hj => by rw [hj, h] at hp; cases hp
  exact ⟨p, by rw [Dict.get?_set_of_ne hj, hp], rfl⟩

theorem ActionsKept.refl (a : Dict String CorporateItem) : ActionsKept a a :=
  fun _ i h => ⟨i, h, rfl, rfl⟩

theorem ActionsKept.trans {b c : Dict String CorporateItem} (h : ActionsKept a b)
    (h' : ActionsKept b c) : ActionsKept a c :=
  fun id i hi => by
    obtain ⟨i', hi', ht, he⟩ := h id i hi
    obtain ⟨i'', hi'', ht', he'⟩ := h' id i' hi'
    exact ⟨i'', hi'', ht'.trans ht, he'.trans he⟩

theorem ActionsSame.refl (a : Dict String CorporateItem) : ActionsSame a a :=
  ⟨ActionsKept.refl a, ActionsKept.refl a⟩

theorem ActionsSame.set {i i' : CorporateItem} (h : a.get? id = some i) (ht : i'.terms = i.terms)
    (he : i'.entitlements = i.entitlements) : ActionsSame a (a.set id i') := by
  constructor
  · intro j p hp
    by_cases hj : j = id
    · subst hj
      cases h.symm.trans hp
      exact ⟨i', Dict.get?_set_self _ _ _, ht, he⟩
    · exact ⟨p, by rw [Dict.get?_set_of_ne hj, hp], rfl, rfl⟩
  · intro j p hp
    rw [Dict.get?_set] at hp
    split at hp
    · next hj =>
        cases hp
        exact ⟨i, hj ▸ h, ht.symm, he.symm⟩
    · exact ⟨p, hp, rfl, rfl⟩

theorem ActionsKept.set {i i' : CorporateItem} (h : a.get? id = some i) (ht : i'.terms = i.terms)
    (he : i'.entitlements = i.entitlements) : ActionsKept a (a.set id i') :=
  (ActionsSame.set h ht he).1

theorem ActionsKept.set_new {i' : CorporateItem} (h : a.get? id = none) :
    ActionsKept a (a.set id i') :=
  fun j p hp => by
    have hj : j ≠ id := fun hj => by rw [hj, h] at hp; cases hp
    exact ⟨p, by rw [Dict.get?_set_of_ne hj, hp], rfl, rfl⟩

theorem LotsWithin.refl (a : Dict String StockLot) : LotsWithin a [] a :=
  ⟨fun _ l h => ⟨l, h⟩, fun k l h hn => by rw [hn] at h; cases h⟩

theorem LotsWithin.trans {a b c : Dict String StockLot} (h : LotsWithin a ks b)
    (h' : LotsWithin b js c) : LotsWithin a (ks ++ js) c := by
  constructor
  · intro k l hl
    obtain ⟨l', hl'⟩ := h.1 k l hl
    exact h'.1 k l' hl'
  · intro k l hl hn
    cases hb : b.get? k with
    | none => exact List.mem_append_right _ (h'.2 k l hl hb)
    | some l' => exact List.mem_append_left _ (h.2 k l' hb hn)

theorem LotsWithin.set_old {a : Dict String StockLot} (h : a.get? k = some l) :
    LotsWithin a [] (a.set k l') := by
  constructor
  · intro j m hm
    by_cases hj : j = k
    · exact ⟨l', by rw [hj, Dict.get?_set_self]⟩
    · exact ⟨m, by rw [Dict.get?_set_of_ne hj, hm]⟩
  · intro j m hm hn
    by_cases hj : j = k
    · rw [hj, h] at hn; cases hn
    · rw [Dict.get?_set_of_ne hj, hn] at hm; cases hm

theorem LotsWithin.set_new (a : Dict String StockLot) (k : String)
    (l' : StockLot) : LotsWithin a [k] (a.set k l') := by
  constructor
  · intro j m hm
    by_cases hj : j = k
    · exact ⟨l', by rw [hj, Dict.get?_set_self]⟩
    · exact ⟨m, by rw [Dict.get?_set_of_ne hj, hm]⟩
  · intro j m hm hn
    by_cases hj : j = k
    · simp [hj]
    · rw [Dict.get?_set_of_ne hj, hn] at hm; cases hm

/-! ## Entitled lots -/

variable {s' : AccountState}

def Entitled (s : AccountState) : Prop :=
  ∀ id i, s.corporateActions.get? id = some i → ∀ e ∈ i.entitlements,
    ∃ l, s.stockLots.get? e.lotId = some l ∧ l.security = i.terms.security

def LotsKept (a b : Dict String StockLot) : Prop :=
  ∀ k l, a.get? k = some l → ∃ l', b.get? k = some l' ∧ l'.security = l.security

theorem LotsKept.refl (a : Dict String StockLot) : LotsKept a a :=
  fun _ l h => ⟨l, h, rfl⟩

theorem LotsKept.set_old {a : Dict String StockLot} (h : a.get? k = some l)
    (hs : l'.security = l.security) : LotsKept a (a.set k l') := fun j m hm => by
  by_cases hj : j = k
  · subst hj
    cases h.symm.trans hm
    exact ⟨l', Dict.get?_set_self _ _ _, hs⟩
  · exact ⟨m, by rw [Dict.get?_set_of_ne hj, hm], rfl⟩

theorem LotsKept.set_new {a : Dict String StockLot} (h : a.get? k = none) :
    LotsKept a (a.set k l') :=
  fun j m hm => by
    have hj : j ≠ k := fun hj => by rw [hj, h] at hm; cases hm
    exact ⟨m, by rw [Dict.get?_set_of_ne hj, hm], rfl⟩

theorem Entitled.of (h : Entitled s) (hactions : ActionsSame s.corporateActions s'.corporateActions)
    (hlots : LotsKept s.stockLots s'.stockLots) : Entitled s' := by
  intro id i' hi' e he
  obtain ⟨i, hi, ht, hent⟩ := hactions.2 id i' hi'
  obtain ⟨l, hl, hsec⟩ := h id i hi e (hent ▸ he)
  obtain ⟨l', hl', hsec'⟩ := hlots e.lotId l hl
  exact ⟨l', hl', by rw [hsec', hsec, ht]⟩

/-! ## The relation -/

/-- What every operation leaves standing. -/
structure Keeps (s : AccountState) (keys : List String) (s' : AccountState) :
    Prop where
  orders : OrdersKept s.orders s'.orders
  actions : ActionsKept s.corporateActions s'.corporateActions
  lots : LotsWithin s.stockLots keys s'.stockLots

structure Writes (s : AccountState) (keys : List String) (es : List Entry)
    (s' : AccountState) : Prop extends Keeps s keys s' where
  effect : FreshKeys s keys → Entitled s → Entitled s' ∧ Reconciles s es s'

theorem Keeps.refl (s : AccountState) : Keeps s [] s :=
  ⟨OrdersKept.refl _, ActionsKept.refl _, LotsWithin.refl _⟩

theorem Keeps.stock (h : s.stockLots.get? k = some l) (l' : StockLot) :
    Keeps s [] { s with stockLots := s.stockLots.set k l' } :=
  ⟨OrdersKept.refl _, ActionsKept.refl _, LotsWithin.set_old h⟩

theorem Keeps.trans (h : Keeps s ks t) (h' : Keeps t js u) :
    Keeps s (ks ++ js) u where
  orders := h.orders.trans h'.orders
  actions := h.actions.trans h'.actions
  lots := h.lots.trans h'.lots

theorem FreshKeys.split {t : AccountState} (h : FreshKeys s (ks ++ js))
    (hlots : LotsWithin s.stockLots ks t.stockLots) : FreshKeys s ks ∧ FreshKeys t js := by
  obtain ⟨hnodup, hfree⟩ := h
  obtain ⟨hks, hjs, hdisj⟩ := List.nodup_append.mp hnodup
  refine ⟨⟨hks, fun k hk => hfree k (List.mem_append_left _ hk)⟩, hjs, ?_⟩
  intro k hk
  cases ht : t.stockLots.get? k with
  | none => rfl
  | some l =>
      have hin := hlots.2 k l ht (hfree k (List.mem_append_right _ hk))
      exact absurd rfl (hdisj k hin k hk)

theorem Writes.trans (h : Writes s ks es t) (h' : Writes t js fs u) :
    Writes s (ks ++ js) (es ++ fs) u where
  toKeeps := h.toKeeps.trans h'.toKeeps
  effect := fun hfresh hent => by
    obtain ⟨hk, hj⟩ := hfresh.split h.lots
    obtain ⟨hent', hr⟩ := h.effect hk hent
    obtain ⟨hent'', hr'⟩ := h'.effect hj hent'
    exact ⟨hent'', hr.trans hr'⟩

/-- A change of cash and payables, and the entries for both. -/
theorem Writes.money (horders : OrdersKept s.orders s'.orders)
    (hactions : ActionsSame s.corporateActions s'.corporateActions)
    (hlots : s'.stockLots = s.stockLots) (hreserve : s'.dividendTaxReserve = s.dividendTaxReserve)
    (hliabilities : s'.liabilities = s.liabilities)
    (hcash : cashTotal s' = cashTotal s + posted Entry.toCash es)
    (hpayables : s'.payables = s.payables + posted Entry.toPayables es)
    (hes : ∀ e ∈ es, e.toReserve = 0 ∧ ∀ security, e.toShares security = 0) :
    Writes s [] es s' where
  orders := horders
  actions := hactions.1
  lots := hlots ▸ LotsWithin.refl _
  effect := fun _ hent => by
    refine ⟨hent.of hactions (hlots ▸ LotsKept.refl _), ?_⟩
    exact {
      cash := hcash
      payables := hpayables
      reserve := by
        rw [posted_zero _ fun e he => (hes e he).1, add_zero, hreserve]
      liabilities := by rw [hliabilities, hreserve]
      shares := fun sec => by
        rw [posted_zero _ fun e he => (hes e he).2 sec, add_zero, hlots] }

/-- A change that no balance of the journal can see. -/
theorem Writes.quiet (horders : OrdersKept s.orders s'.orders)
    (hactions : ActionsSame s.corporateActions s'.corporateActions)
    (hlots : s'.stockLots = s.stockLots) (hcash : s'.cashLots = s.cashLots)
    (hpayables : s'.payables = s.payables) (hreserve : s'.dividendTaxReserve = s.dividendTaxReserve)
    (hliabilities : s'.liabilities = s.liabilities) (hes : ∀ e ∈ es, e.silent = true) :
    Writes s [] es s' := by
  obtain ⟨hc, hp, -, -⟩ := posted_silent hes
  refine Writes.money horders hactions hlots hreserve hliabilities
    (by rw [hc, add_zero, cashTotal, cashTotal, hcash])
    (by rw [hp, add_zero, hpayables]) fun e he => ?_
  have := hes e he
  cases e <;> first
    | exact ⟨rfl, fun _ => rfl⟩
    | exact absurd this Bool.false_ne_true

theorem Writes.refl (s : AccountState) : Writes s [] [] s :=
  Writes.quiet (OrdersKept.refl _) (ActionsSame.refl _) rfl rfl rfl rfl rfl
    (by simp)

theorem Writes.order {o o' : Order} (h : s.orders.get? id = some o)
    (hr : o'.toReservation = o.toReservation) (hes : ∀ e ∈ es, e.silent = true) :
    Writes s [] es (s.setOrder id o') :=
  Writes.quiet (OrdersKept.set h hr) (ActionsSame.refl _) rfl rfl rfl rfl rfl hes

theorem Writes.append (h : Writes s ks es s') (hfs : ∀ e ∈ fs, e.silent = true) :
    Writes s ks (es ++ fs) s' := by
  have hq : Writes s' [] fs s' := Writes.quiet (OrdersKept.refl _)
    (ActionsSame.refl _) rfl rfl rfl rfl rfl hfs
  simpa using h.trans hq

structure SamePostings (es fs : List Entry) : Prop where
  cash : posted Entry.toCash fs = posted Entry.toCash es
  payables : posted Entry.toPayables fs = posted Entry.toPayables es
  reserve : posted Entry.toReserve fs = posted Entry.toReserve es
  shares : ∀ security,
    posted (Entry.toShares security) fs = posted (Entry.toShares security) es

theorem Reconciles.regroup (h : Reconciles s es s') (hp : SamePostings es fs) :
    Reconciles s fs s' where
  cash := hp.cash ▸ h.cash
  payables := hp.payables ▸ h.payables
  reserve := hp.reserve ▸ h.reserve
  liabilities := h.liabilities
  shares := fun sec => hp.shares sec ▸ h.shares sec

theorem Writes.regroup (h : Writes s ks es s') (hp : SamePostings es fs) :
    Writes s ks fs s' where
  toKeeps := h.toKeeps
  effect := fun hfresh hent =>
    (h.effect hfresh hent).imp id fun hr => hr.regroup hp

/-! ## Loops -/

theorem Writes.of_walk {β α : Type} {f : β → α → Attempt β}
    (st : β → AccountState) (out : β → List Entry) (keys : α → List String)
    (pending : β → List α → Prop) (hkeep : ∀ c a c', f c a = .ok c' → Keeps (st c) (keys a) (st c'))
    (hstep : ∀ c a as c', f c a = .ok c' → pending c (a :: as) →
      FreshKeys (st c) (keys a) → Entitled (st c) → pending c' as ∧ Entitled (st c') ∧
        ∃ es, out c' = out c ++ es ∧ Reconciles (st c) es (st c'))
    {as : List α} {b b' : β} (h : walk f b as = .ok b') :
    Keeps (st b) (as.flatMap keys) (st b') ∧
      (FreshKeys (st b) (as.flatMap keys) → pending b as → Entitled (st b) → Entitled (st b') ∧
          ∃ es, out b' = out b ++ es ∧ Reconciles (st b) es (st b')) := by
  induction as generalizing b with
  | nil =>
      cases h
      exact ⟨Keeps.refl _, fun _ _ hent => ⟨hent, [], by simp, by
        constructor <;> simp⟩⟩
  | cons a as ih =>
      obtain ⟨c, hc, hrest⟩ := walk_cons_ok.mp h
      obtain ⟨hkeeps, heffect⟩ := ih hrest
      rw [List.flatMap_cons]
      refine ⟨(hkeep _ _ _ hc).trans hkeeps, fun hfresh hpending hent => ?_⟩
      obtain ⟨hk, hj⟩ := hfresh.split (hkeep _ _ _ hc).lots
      obtain ⟨hpending', hent', es, hout, hr⟩ := hstep _ _ _ _ hc hpending hk hent
      obtain ⟨hent'', fs, hout', hr'⟩ := heffect hj hpending' hent'
      exact ⟨hent'', es ++ fs, by rw [hout', hout, List.append_assoc],
        hr.trans hr'⟩

/-! ## Sums over lots -/

variable {lots : Dict String StockLot}

theorem sharesOver_set (h : lots.get? k = some l) (security : String) :
    sharesOver (lots.set k l') security = sharesOver lots security
      + ((if l'.security = security then l'.quantity else 0)
        - (if l.security = security then l.quantity else 0)) :=
  Dict.sum_set_old h

theorem sharesOver_set_new (h : lots.get? k = none) (security : String) :
    sharesOver (lots.set k l') security = sharesOver lots security
      + (if l'.security = security then l'.quantity else 0) :=
  Dict.sum_set_new h

theorem Reconciles.stock {sec : String} (h : s.stockLots.get? k = some l)
    (hsec : l.security = sec) (l' : StockLot) (hsec' : l'.security = sec) (ref : Option String) :
    Reconciles s [.shares sec (l'.quantity - l.quantity) ref]
      { s with stockLots := s.stockLots.set k l' } where
  cash := by simp [cashTotal, Entry.toCash]
  payables := by simp [Entry.toPayables]
  reserve := by simp [Entry.toReserve]
  liabilities := rfl
  shares := fun sec' => by
    rw [sharesOver_set h, hsec, hsec']
    simp only [posted_cons, posted_nil, Entry.toShares]
    split <;> omega

theorem Writes.stock {sec : String} (h : s.stockLots.get? k = some l) (hsec : l.security = sec)
    (l' : StockLot) (hsec' : l'.security = sec) (ref : Option String) :
    Writes s [] [.shares sec (l'.quantity - l.quantity) ref]
      { s with stockLots := s.stockLots.set k l' } where
  orders := OrdersKept.refl _
  actions := ActionsKept.refl _
  lots := LotsWithin.set_old h
  effect := fun _ hent =>
    ⟨hent.of (ActionsSame.refl _) (LotsKept.set_old h (hsec'.trans hsec.symm)),
      Reconciles.stock h hsec l' hsec' ref⟩

theorem Writes.stock_new (s : AccountState) (k : String) (l : StockLot) (ref : Option String) :
    Writes s [k] [.shares l.security l.quantity ref]
      { s with stockLots := s.stockLots.set k l } where
  orders := OrdersKept.refl _
  actions := ActionsKept.refl _
  lots := LotsWithin.set_new _ _ _
  effect := fun hfresh hent => by
    have hfree := hfresh.2 k List.mem_cons_self
    refine ⟨hent.of (ActionsSame.refl _) (LotsKept.set_new hfree), ?_⟩
    exact {
      cash := by simp [cashTotal, Entry.toCash]
      payables := by simp [Entry.toPayables]
      reserve := by simp [Entry.toReserve]
      liabilities := rfl
      shares := fun sec => by
        simp [sharesOver_set_new hfree, Entry.toShares] }

end Ahunter.Sim
