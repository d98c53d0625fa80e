import Ahunter.Proofs.Operations

/-!
# Corporate entitlements and settlements

The operations that create and retire lots. What they enter is only right
about the lots their terms name, which are lots of the right security by
`Entitled` for a corporate action and by the snapshot for a settlement. With
these every operation of the ledger accounts for itself (`perform_writes`).
-/

namespace Ahunter.Sim

open Ahunter.Lib

variable {spec : AccountSpec} {z : Zone}

/-! ## Corporate entitlements -/

variable {s s' : AccountState} {o : Outcome} {e : Entitlement} {lot : StockLot} {ratio : ℚ}
  {tradable : Stamp} {id : String} {es : List Entry} {at_ : Instant}

theorem corporateRegister_ok {terms : CorporateTerms}
    (h : corporateRegister spec terms at_ s = .ok o) :
    s.corporateActions.get? terms.action.actionId = none ∧ ∃ item receivables obligations entries,
        o = ⟨{ s with
            corporateActions :=
              s.corporateActions.set terms.action.actionId item
            receivables := receivables
            dividendObligations := obligations }, at_, at_, entries⟩ ∧
        (item.terms = terms ∧
          item.entitlements = entitlementsOf s terms.security ∧
          item.deferredTax = 0 ∧
          (terms.action.kind ≠ .rights → item.distributed = false)) ∧
        (receivables = s.receivables ∨
          receivables = s.receivables.set terms.action.actionId
            (dividendReceivable terms
              (dividendAmount terms (entitlementsOf s terms.security)))) ∧
        (obligations = s.dividendObligations ∨
          (terms.action.kind ≠ .rights ∧ terms.taxablePerOldShare ≠ 0 ∧
            ∃ policy, obligations = obligationsWith s.dividendObligations terms
              policy (entitlementsOf s terms.security))) ∧
        ∀ e ∈ entries, e.silent = true := by
  simp only [corporateRegister, bind_ok, refuse_ok] at h
  obtain ⟨-, hnew, h⟩ := h
  have hnone : s.corporateActions.get? terms.action.actionId = none := by
    rw [Dict.contains_iff] at hnew
    exact Option.eq_none_iff_forall_not_mem.mpr fun i hi => hnew ⟨i, hi⟩
  refine ⟨hnone, ?_⟩
  split at h
  · next hkind =>
      simp only [bind_ok, refuse_ok, pure_ok] at h
      obtain ⟨-, -, rfl⟩ := h
      exact ⟨_, _, _, _, rfl, ⟨rfl, rfl, rfl, fun hne => absurd hkind hne⟩,
        Or.inl rfl, Or.inl rfl, by simp⟩
  · next hkind =>
      have hreceivables : ∀ kind : CorporateKind, ∀ r,
          (if kind = .dividend then s.receivables.set terms.action.actionId r
            else s.receivables) = s.receivables ∨
          (if kind = .dividend then s.receivables.set terms.action.actionId r
            else s.receivables)
            = s.receivables.set terms.action.actionId r := by
        intro kind r
        split <;> simp
      have hentries : ∀ kind : CorporateKind, ∀ amount : ℚ, ∀ e ∈
          (if kind = .dividend then
            [Entry.dividendEntitlement amount terms.action.actionId] else []),
          e.silent = true := by
        intro kind amount
        split <;> simp [Entry.silent]
      split at h
      · cases h
        exact ⟨_, _, _, _, rfl, ⟨rfl, rfl, rfl, fun _ => rfl⟩, hreceivables _ _,
          Or.inl rfl, hentries _ _⟩
      · next htax =>
          simp only [bind_ok, need_ok, pure_ok] at h
          obtain ⟨policy, -, -, rfl, rfl⟩ := h
          exact ⟨_, _, _, _, rfl, ⟨rfl, rfl, rfl, fun _ => rfl⟩, hreceivables _ _,
            Or.inr ⟨hkind, htax, policy, rfl⟩, hentries _ _⟩

theorem corporateRegister_writes {terms : CorporateTerms}
    (h : corporateRegister spec terms at_ s = .ok o) : Writes s [] o.entries o.state := by
  obtain ⟨hnew, item, receivables, obligations, entries, rfl,
    ⟨hterms, hentitled, -⟩, -, -, hsilent⟩ := corporateRegister_ok h
  obtain ⟨hc, hp, hr, hs⟩ := posted_silent hsilent
  refine ⟨⟨OrdersKept.refl _, ActionsKept.set_new hnew, LotsWithin.refl _⟩,
    fun _ hent => ⟨?_, ?_⟩⟩
  · intro id i hi e he
    simp only [Dict.get?_set] at hi
    split at hi
    · cases hi
      rw [hentitled] at he
      simp only [entitlementsOf, List.mem_map, List.mem_filter,
        Bool.and_eq_true, decide_eq_true_eq] at he
      obtain ⟨⟨k, l⟩, ⟨hmem, hsec, -⟩, rfl⟩ := he
      exact ⟨l, Dict.mem_entries.mp hmem, hsec.trans (by rw [hterms])⟩
    · exact hent id i hi e he
  · exact ⟨by simp [hc, cashTotal], by simp [hp], by simp [hr], rfl,
      fun sec => by simp [hs sec]⟩

theorem entitledLot_ok :
    entitledLot s e = .ok lot ↔
      s.stockLots.get? e.lotId = some lot ∧ lot.quantity = e.quantity := by
  simp only [entitledLot, bind_ok, need_ok, refuse_ok, pure_ok, ne_eq, not_not]
  constructor
  · rintro ⟨l, hl, _, hq, rfl⟩
    exact ⟨hl, hq⟩
  · rintro ⟨hl, hq⟩
    exact ⟨lot, hl, (), hq, rfl⟩

def EntitledIn (security : String) (s : AccountState)
    (es : List Entitlement) : Prop :=
  ∀ e ∈ es, ∃ l, s.stockLots.get? e.lotId = some l ∧ l.security = security

theorem EntitledIn.set {security k : String} {es : List Entitlement}
    (h : EntitledIn security s es) {l : StockLot} (hl : l.security = security) {t : AccountState}
    (ht : t.stockLots = s.stockLots.set k l) : EntitledIn security t es := by
  intro e he
  rw [ht, Dict.get?_set]
  split
  · exact ⟨l, rfl, hl⟩
  · exact h e he

theorem splitOne_ok {terms : CorporateTerms} {acc acc' : AccountState × List Entry}
    (h : splitOne spec terms ratio tradable at_ acc e = .ok acc') :
    ∃ (lot : StockLot) (quantity : ℤ) (obligations : Dict String Obligation),
      acc.1.stockLots.get? e.lotId = some lot ∧ lot.quantity = e.quantity ∧ 0 < quantity ∧
      walk (splitObligation e.lotId (quantity / e.quantity))
        acc.1.dividendObligations acc.1.dividendObligations.entries = .ok obligations ∧
      acc' = ({ acc.1 with
          stockLots := acc.1.stockLots.set e.lotId
            (splitLot spec terms at_ tradable quantity e.quantity lot)
          dividendObligations := obligations },
        acc.2 ++ [.shares terms.security (quantity - e.quantity)
          (some terms.action.actionId)]) := by
  simp only [splitOne, bind_ok, entitledLot_ok, refuse_ok, pure_ok, not_le] at h
  obtain ⟨lot, ⟨hlot, hq⟩, quantity, -, -, hpos, obligations, hwalk, rfl⟩ := h
  exact ⟨lot, quantity, obligations, hlot, hq, hpos, hwalk, rfl⟩

theorem bonusOne_ok {corporateId : String} {terms : CorporateTerms}
    {acc acc' : AccountState × List Entry}
    (h : bonusOne spec corporateId terms ratio tradable at_ acc e = .ok acc') :
    ∃ (lot bonus : StockLot) (basis : ℚ),
      acc' = ({ acc.1 with
          stockLots := (acc.1.stockLots.set e.lotId
            { lot with costBasis := basis }).set
              (bonusLotId corporateId e.lotId) bonus
          nextLotSequence := acc.1.nextLotSequence + 1 },
        acc.2 ++ [.shares terms.security bonus.quantity (some corporateId)]) ∧
      acc.1.stockLots.get? e.lotId = some lot ∧ lot.quantity = e.quantity ∧
      bonus.security = terms.security ∧ bonus.sellableOn = tradable.date ∧
      bonus.availableAt = tradable.instant ∧
      targetShares e.quantity ratio = .ok bonus.quantity ∧
      basis = lot.costBasis * e.quantity / (e.quantity + bonus.quantity) ∧
      bonus.costBasis = basis := by
  simp only [bonusOne, bind_ok, entitledLot_ok, pure_ok] at h
  obtain ⟨lot, ⟨hlot, hq⟩, quantity, htarget, rfl⟩ := h
  exact ⟨lot, _, _, rfl, hlot, hq, rfl, rfl, rfl, htarget, rfl, rfl⟩

theorem splitOne_keeps {terms : CorporateTerms} {acc acc' : AccountState × List Entry}
    (h : splitOne spec terms ratio tradable at_ acc e = .ok acc') : Keeps acc.1 [] acc'.1 := by
  obtain ⟨lot, quantity, obligations, hlot, -, -, -, rfl⟩ := splitOne_ok h
  exact ⟨OrdersKept.refl _, ActionsKept.refl _, LotsWithin.set_old hlot⟩

theorem bonusOne_keeps {terms : CorporateTerms} {acc acc' : AccountState × List Entry}
    (h : bonusOne spec id terms ratio tradable at_ acc e = .ok acc') :
    Keeps acc.1 [bonusLotId id e.lotId] acc'.1 := by
  obtain ⟨lot, bonus, basis, rfl, hlot, -⟩ := bonusOne_ok h
  exact ⟨OrdersKept.refl _, ActionsKept.refl _,
    (LotsWithin.set_old hlot).trans (LotsWithin.set_new _ _ _)⟩

theorem splits_writes {terms : CorporateTerms} {es : List Entitlement} {entries : List Entry}
    (h : walk (splitOne spec terms ratio tradable at_) (s, []) es = .ok (s', entries)) :
    Keeps s [] s' ∧ (EntitledIn terms.security s es → Entitled s →
      Entitled s' ∧ Reconciles s entries s') := by
  have hnil : es.flatMap (fun _ => ([] : List String)) = [] := by simp
  have hloop := Writes.of_walk Prod.fst Prod.snd (fun _ => [])
    (fun acc es => EntitledIn terms.security acc.1 es)
    (fun _ _ _ => splitOne_keeps) (fun acc e es acc' hone hin _ hent => ?_) h
  · rw [hnil] at hloop
    refine ⟨hloop.1, fun hin hent => ?_⟩
    obtain ⟨hent', es', hout, hr⟩ := hloop.2 ⟨by simp, by simp⟩ hin hent
    simp only [List.nil_append] at hout
    subst hout
    exact ⟨hent', hr⟩
  · obtain ⟨lot, quantity, obligations, hlot, hq, -, -, rfl⟩ := splitOne_ok hone
    obtain ⟨lot', hlot', hsec⟩ := hin e List.mem_cons_self
    cases hlot.symm.trans hlot'
    set new := splitLot spec terms at_ tradable quantity e.quantity lot with hnew
    have hsec' : new.security = terms.security := hsec
    refine ⟨EntitledIn.set (fun e he => hin e (List.mem_cons_of_mem _ he)) hsec'
      rfl, hent.of (ActionsSame.refl _)
        (LotsKept.set_old hlot (hsec'.trans hsec.symm)), _, rfl, ?_⟩
    have hr := Reconciles.stock hlot hsec new hsec' (some terms.action.actionId)
    rw [← hq]
    exact ⟨hr.cash, hr.payables, hr.reserve, hr.liabilities, hr.shares⟩

theorem bonuses_writes {terms : CorporateTerms} {es : List Entitlement} {entries : List Entry}
    (h : walk (bonusOne spec id terms ratio tradable at_) (s, []) es = .ok (s', entries)) :
    Keeps s (es.map fun e => bonusLotId id e.lotId) s' ∧
      (FreshKeys s (es.map fun e => bonusLotId id e.lotId) →
        EntitledIn terms.security s es → Entitled s → Entitled s' ∧ Reconciles s entries s') := by
  rw [List.map_eq_flatMap]
  have hloop := Writes.of_walk Prod.fst Prod.snd
    (fun e : Entitlement => [bonusLotId id e.lotId])
    (fun acc es => EntitledIn terms.security acc.1 es)
    (fun _ _ _ => bonusOne_keeps) (fun acc e es acc' hone hin hfresh hent => ?_) h
  · refine ⟨hloop.1, fun hfresh hin hent => ?_⟩
    obtain ⟨hent', es', hout, hr⟩ := hloop.2 hfresh hin hent
    simp only [List.nil_append] at hout
    subst hout
    exact ⟨hent', hr⟩
  · obtain ⟨lot, bonus, basis, rfl, hlot, -, hsecb, -⟩ := bonusOne_ok hone
    obtain ⟨lot', hlot', hsec⟩ := hin e List.mem_cons_self
    cases hlot.symm.trans hlot'
    have hfree := hfresh.2 _ List.mem_cons_self
    have hne : bonusLotId id e.lotId ≠ e.lotId := fun heq => by
      rw [heq, hlot] at hfree
      cases hfree
    -- The old lot changes its basis only; the new one is entered in full.
    have hold := Reconciles.stock hlot hsec { lot with costBasis := basis } hsec none
    have hnew : (acc.1.stockLots.set e.lotId { lot with costBasis := basis }).get?
        (bonusLotId id e.lotId) = none := by
      rw [Dict.get?_set_of_ne hne, hfree]
    have hin1 : EntitledIn terms.security { acc.1 with
        stockLots := acc.1.stockLots.set e.lotId { lot with costBasis := basis } }
        es := EntitledIn.set (fun e he => hin e (List.mem_cons_of_mem _ he))
          (l := { lot with costBasis := basis }) hsec rfl
    have hent1 : Entitled { acc.1 with
        stockLots := acc.1.stockLots.set e.lotId { lot with costBasis := basis } } :=
      hent.of (ActionsSame.refl _) (LotsKept.set_old hlot rfl)
    refine ⟨hin1.set hsecb rfl, hent1.of (ActionsSame.refl _)
      (LotsKept.set_new hnew), _, rfl, ?_⟩
    exact {
      cash := by simp [cashTotal, Entry.toCash]
      payables := by simp [Entry.toPayables]
      reserve := by simp [Entry.toReserve]
      liabilities := rfl
      shares := fun sec => by
        have := hold.shares sec
        simp only [posted_cons, posted_nil, Entry.toShares, sub_self, ite_self,
          add_zero] at this
        simp only [sharesOver_set_new hnew, this, hsecb, posted_cons, posted_nil,
          Entry.toShares, add_zero] }

def CorporateItem.lotKeys (corporateId : String) (item : CorporateItem) :
    List String :=
  if item.terms.action.kind = .bonus then
    item.entitlements.map fun e => bonusLotId corporateId e.lotId
  else []

theorem applyKind_writes {item : CorporateItem} (h : applyKind spec id item at_ s = .ok (s', es)) :
    Keeps s (item.lotKeys id) s' ∧ (FreshKeys s (item.lotKeys id) →
        EntitledIn item.terms.security s item.entitlements → Entitled s →
        Entitled s' ∧ Reconciles s es s') := by
  simp only [applyKind] at h
  split at h
  · next hkind =>
      have hkeys : item.lotKeys id = [] := if_neg (by rw [hkind]; decide)
      simp only [bind_ok, need_ok, pure_ok, Prod.mk.injEq] at h
      obtain ⟨receivable, -, rfl, rfl⟩ := h
      have hw : ∀ rs, Writes s [] [] { s with receivables := rs } := fun rs =>
        Writes.quiet (OrdersKept.refl _) (ActionsSame.refl _) rfl rfl rfl rfl rfl
          (by simp)
      rw [hkeys]
      exact ⟨(hw _).toKeeps, fun hfresh _ hent => (hw _).effect hfresh hent⟩
  · next hkind =>
      have hkeys : item.lotKeys id = [] := if_neg (by rw [hkind]; decide)
      simp only [bind_ok, need_ok] at h
      obtain ⟨ratio, -, tradable, -, hwalk⟩ := h
      obtain ⟨hkeep, heffect⟩ := splits_writes hwalk
      rw [hkeys]
      exact ⟨hkeep, fun _ => heffect⟩
  · next hkind =>
      have hkeys : item.lotKeys id
          = item.entitlements.map fun e => bonusLotId id e.lotId := if_pos hkind
      simp only [bind_ok, need_ok, refuse_ok] at h
      obtain ⟨-, -, ratio, -, tradable, -, hwalk⟩ := h
      rw [hkeys]
      exact bonuses_writes hwalk
  · cases h

theorem corporateApply_ok (h : corporateApply spec id at_ s = .ok o) :
    ∃ item s1 es item',
      o = ⟨{ s1 with corporateActions := s1.corporateActions.set id item' },
        at_, at_, es⟩ ∧
      s.corporateActions.get? id = some item ∧
      item.applied = false ∧ at_ = item.terms.effectiveAt.instant ∧
      (∀ i ord, s.orders.get? i = some ord → ord.security = item.terms.security →
        ord.status.held = false) ∧
      applyKind spec id item at_ s = .ok (s1, es) ∧
      item'.terms = item.terms ∧ item'.entitlements = item.entitlements ∧
      item'.deferredTax = item.deferredTax ∧
      item'.distributed = (item.distributed ||
        item.terms.action.kind ≠ .dividend) := by
  simp only [corporateApply, bind_ok, need_ok, refuse_ok, pure_ok] at h
  obtain ⟨item, hitem, -, happlied, -, htime, -, hheld, ⟨s1, es⟩, hkind, rfl⟩ := h
  push Not at hheld
  refine ⟨item, s1, es, _, rfl, hitem, by simpa using happlied,
    by by_contra hne; exact htime (Or.inl hne), fun i ord hord hsec => ?_, hkind,
    rfl, rfl, rfl, rfl⟩
  have := hheld ord (Dict.mem_values.mpr ⟨i, hord⟩) hsec
  simpa using this

theorem corporateApply_writes (h : corporateApply spec id at_ s = .ok o) :
    ∃ item, s.corporateActions.get? id = some item ∧
      Writes s (item.lotKeys id) o.entries o.state := by
  obtain ⟨item, s1, es, item', rfl, hitem, -, -, -, hkind, hterms, hents, -, -⟩ :=
    corporateApply_ok h
  obtain ⟨hkeep, heffect⟩ := applyKind_writes hkind
  refine ⟨item, hitem, ?_⟩
  obtain ⟨item1, hitem1, hterms1, hents1⟩ := hkeep.actions id item hitem
  have hw : Writes s (item.lotKeys id) es s1 :=
    ⟨hkeep, fun hfresh hent => heffect hfresh (hent id item hitem) hent⟩
  have hset : Writes s1 [] []
      { s1 with corporateActions := s1.corporateActions.set id item' } :=
    Writes.quiet (OrdersKept.refl _)
      (ActionsSame.set hitem1 (hterms.trans hterms1.symm)
        (hents.trans hents1.symm)) rfl rfl rfl rfl rfl (by simp)
  simpa using hw.trans hset

theorem corporatePay_ok (h : corporatePay spec id at_ s = .ok o) :
    ∃ item receivable item' receivable',
      o = ⟨{ s with
          payables := s.payables - item.deferredTax
          deferredDividendTax := s.deferredDividendTax - item.deferredTax
          cashLots := s.cashLots ++ [⟨"dividend:" ++ id,
            receivable.amount - item.deferredTax, at_, spec.zone.date at_,
            spec.zone.date at_⟩]
          receivables := s.receivables.set id receivable'
          corporateActions := s.corporateActions.set id item' }, at_, at_,
        [.cash (receivable.amount - item.deferredTax) none,
          .receivables (-receivable.amount) none,
          .payables (-item.deferredTax) none]⟩ ∧
      s.corporateActions.get? id = some item ∧
      item.distributed = false ∧ s.receivables.get? id = some receivable ∧
      item.deferredTax ≤ receivable.amount ∧
      item'.terms = item.terms ∧ item'.entitlements = item.entitlements ∧
      item'.deferredTax = 0 ∧ item'.distributed = true ∧
      receivable'.amount = 0 := by
  simp only [corporatePay, bind_ok, need_ok, refuse_ok, pure_ok] at h
  obtain ⟨item, hitem, -, hopen, -, -, receivable, hrec, -, htax, rfl⟩ := h
  push Not at hopen htax
  exact ⟨item, receivable, _, _, rfl, hitem, by simpa using hopen.2, hrec, htax,
    rfl, rfl, rfl, rfl, rfl⟩

theorem corporatePay_writes (h : corporatePay spec id at_ s = .ok o) :
    Writes s [] o.entries o.state := by
  obtain ⟨item, receivable, item', receivable', rfl, hitem, -, -, -, hterms,
    hents, -⟩ := corporatePay_ok h
  exact Writes.money (OrdersKept.refl _) (ActionsSame.set hitem hterms hents) rfl
    rfl rfl (by simp [cashTotal, Entry.toCash]) (by simp [Entry.toPayables]; ring)
    (by simp [Entry.toReserve, Entry.toShares])

/-! ## Special settlements -/

variable {terms : SettlementTerms} {a : LotConsideration} {acc acc' : Conversion}

theorem treatTax_writes {tax : ℚ} (h : treatTax spec terms at_ a s = .ok (s', tax, es)) :
    Writes s [] es s' ∧ s'.stockLots = s.stockLots ∧ s'.orders = s.orders := by
  simp only [treatTax] at h
  split at h
  · simp only [bind_ok, refuse_ok, pure_ok, Prod.mk.injEq] at h
    obtain ⟨-, -, rfl, -, rfl⟩ := h
    exact ⟨Writes.refl s, rfl, rfl⟩
  · obtain ⟨hw, horders, hlots⟩ := assessDisposal_writes h
    exact ⟨hw, hlots, horders⟩
  · simp only [bind_ok, refuse_ok, pure_ok, Prod.mk.injEq] at h
    obtain ⟨-, -, obligations, -, rfl, -, rfl⟩ := h
    exact ⟨Writes.quiet (OrdersKept.refl _) (ActionsSame.refl _) rfl rfl rfl rfl
      rfl (by simp), rfl, rfl⟩

def LotConsideration.newKeys (settlementId : String) (a : LotConsideration) :
    List String :=
  if a.replacementQuantity ≠ 0 then [replacementLotId settlementId a.lotId]
  else []

structure Replaces (terms : SettlementTerms) (a : LotConsideration)
    (old new : StockLot) : Prop where
  security : terms.replacementSecurity = some new.security
  quantity : new.quantity = a.replacementQuantity
  costBasis : a.replacementCostBasis = some new.costBasis
  within : quantizeCents (new.costBasis * new.quantity)
    ≤ quantizeCents (old.costBasis * a.oldQuantity)
  preserved : a.cashAmount = 0 → quantizeCents (new.costBasis * new.quantity)
    = quantizeCents (old.costBasis * a.oldQuantity)

variable {created : List String}

theorem replaceLot_ok (h : replaceLot spec terms at_ a lot s = .ok (s', es, created)) :
    (a.replacementQuantity = 0 ∧ s' = s ∧ es = []) ∨
      (a.replacementQuantity ≠ 0 ∧ ∃ (new : StockLot) (next : ℕ),
        s' = { s with
          stockLots := s.stockLots.set (replacementLotId terms.settlementId a.lotId)
            new
          nextLotSequence := next } ∧
        es = [.shares new.security new.quantity none] ∧
        Replaces terms a lot new) := by
  simp only [replaceLot] at h
  split at h
  · next hnone =>
      cases h
      refine Or.inl ⟨?_, rfl, rfl⟩
      by_contra hne
      have := a.basis_iff.mp hne
      rw [hnone] at this
      cases this
  · next basis hsome =>
      simp only [bind_ok, refuse_ok, need_ok, pure_ok, Prod.mk.injEq, not_or, not_lt,
        not_and, not_not] at h
      obtain ⟨-, ⟨hwithin, hpreserved⟩, security, hsec, tradable, -, rfl, rfl, -⟩ := h
      exact Or.inr ⟨a.basis_iff.mpr (by rw [hsome]; rfl), _, _, rfl, rfl,
        hsec, rfl, hsome, hwithin, hpreserved⟩

theorem replaceLot_writes (h : replaceLot spec terms at_ a lot s = .ok (s', es, created)) :
    Writes s (a.newKeys terms.settlementId) es s' := by
  rcases replaceLot_ok h with ⟨h0, rfl, rfl⟩ | ⟨h0, new, next, rfl, rfl, -, -⟩
  · rw [LotConsideration.newKeys, if_neg (not_not.mpr h0)]
    exact Writes.refl _
  · rw [LotConsideration.newKeys, if_pos h0]
    exact (Writes.stock_new s _ new none).trans
      (show Writes _ [] [] _ from Writes.quiet (OrdersKept.refl _)
        (ActionsSame.refl _) rfl rfl rfl rfl rfl (by simp))

theorem replaceLot_kept (h : replaceLot spec terms at_ a lot s = .ok (s', es, created))
    (hfresh : ∀ k ∈ a.newKeys terms.settlementId, s.stockLots.get? k = none) {k : String}
    {l : StockLot} (hl : s.stockLots.get? k = some l) : s'.stockLots.get? k = some l := by
  rcases replaceLot_ok h with ⟨-, rfl, -⟩ | ⟨h0, new, next, rfl, -⟩
  · exact hl
  · have hfree := hfresh (replacementLotId terms.settlementId a.lotId)
      (by rw [LotConsideration.newKeys, if_pos h0]; exact List.mem_cons_self)
    have hne : k ≠ replacementLotId terms.settlementId a.lotId := fun hk => by
      rw [← hk, hl] at hfree
      cases hfree
    rw [Dict.get?_set_of_ne hne, hl]

theorem convertOne_ok (h : convertOne spec terms at_ acc a = .ok acc') :
    ∃ lot s1 tax es1 s2 es2 created retired,
      let left := { retired with quantity := 0 }
      acc' = ⟨{ s2 with stockLots := s2.stockLots.set a.lotId left },
        acc.grossCash + a.cashAmount,
        acc.tax + tax, acc.entries ++ es1 ++ es2 ++
          [.shares terms.security (-a.oldQuantity) none],
        acc.created ++ created⟩ ∧
      acc.state.stockLots.get? a.lotId = some lot ∧
      treatTax spec terms at_ a acc.state = .ok (s1, tax, es1) ∧
      replaceLot spec terms at_ a lot s1 = .ok (s2, es2, created) ∧
      s2.stockLots.get? a.lotId = some retired := by
  simp only [convertOne, bind_ok, need_ok, pure_ok] at h
  obtain ⟨lot, hlot, ⟨s1, tax, es1⟩, htax, ⟨s2, es2, created⟩, hreplace, retired,
    hretired, rfl⟩ := h
  exact ⟨lot, s1, tax, es1, s2, es2, created, retired, rfl, hlot, htax, hreplace,
    hretired⟩

theorem convertOne_keeps (h : convertOne spec terms at_ acc a = .ok acc') :
    Keeps acc.state (a.newKeys terms.settlementId) acc'.state := by
  obtain ⟨lot, s1, tax, es1, s2, es2, created, retired, rfl, hlot, htax, hreplace,
    hretired⟩ := convertOne_ok h
  have hw := (treatTax_writes htax).1.trans (replaceLot_writes hreplace)
  simpa using hw.toKeeps.trans (Keeps.stock hretired { retired with quantity := 0 })

theorem convertOne_lots (h : convertOne spec terms at_ acc a = .ok acc')
    (hlot : acc.state.stockLots.get? a.lotId = some lot)
    (hfresh : FreshKeys acc.state (a.newKeys terms.settlementId)) :
    acc'.state.stockLots.get? a.lotId = some { lot with quantity := 0 } ∧
      (∀ k l, k ≠ a.lotId → acc.state.stockLots.get? k = some l →
        acc'.state.stockLots.get? k = some l) ∧
      (a.replacementQuantity ≠ 0 → ∃ new, acc'.state.stockLots.get?
        (replacementLotId terms.settlementId a.lotId) = some new ∧
          Replaces terms a lot new) := by
  obtain ⟨lot', s1, tax, es1, s2, es2, created, retired, rfl, hlot', htax, hreplace,
    hretired⟩ := convertOne_ok h
  cases hlot.symm.trans hlot'
  obtain ⟨-, hlots1, -⟩ := treatTax_writes htax
  have hkept : ∀ k l, acc.state.stockLots.get? k = some l →
      s2.stockLots.get? k = some l := fun k l hl =>
    replaceLot_kept hreplace (hlots1 ▸ hfresh.2) (hlots1 ▸ hl)
  cases hretired.symm.trans (hkept _ _ hlot)
  refine ⟨Dict.get?_set_self _ _ _, fun k l hk hl => ?_, fun hne => ?_⟩
  · rw [Dict.get?_set_of_ne hk, hkept k l hl]
  · rcases replaceLot_ok hreplace with ⟨h0, -⟩ | ⟨h0, new, next, rfl, -, hnew⟩
    · exact absurd h0 hne
    · have hfree := hfresh.2 (replacementLotId terms.settlementId a.lotId)
        (by rw [LotConsideration.newKeys, if_pos h0]; exact List.mem_cons_self)
      have hapart : replacementLotId terms.settlementId a.lotId ≠ a.lotId := fun hk => by
        rw [hk, hlot] at hfree
        cases hfree
      exact ⟨new, by rw [Dict.get?_set_of_ne hapart, Dict.get?_set_self], hnew⟩

def Unconverted (terms : SettlementTerms) (s : AccountState)
    (as : List LotConsideration) : Prop :=
  (as.map LotConsideration.lotId).Nodup ∧ ∀ a ∈ as, ∃ lot,
    s.stockLots.get? a.lotId = some lot ∧ lot.quantity = a.oldQuantity ∧
      lot.security = terms.security

theorem Unconverted.next {as : List LotConsideration} (h : Unconverted terms acc.state (a :: as))
    (hone : convertOne spec terms at_ acc a = .ok acc')
    (hfresh : FreshKeys acc.state (a.newKeys terms.settlementId)) :
    Unconverted terms acc'.state as := by
  obtain ⟨hnodup, hlots⟩ := h
  obtain ⟨hnotin, hnodup'⟩ := List.nodup_cons.mp hnodup
  obtain ⟨lot, hlot, -⟩ := hlots a List.mem_cons_self
  obtain ⟨-, hothers, -⟩ := convertOne_lots hone hlot hfresh
  refine ⟨hnodup', fun b hb => ?_⟩
  obtain ⟨l, hl, hlq, hls⟩ := hlots b (List.mem_cons_of_mem _ hb)
  have hne : b.lotId ≠ a.lotId := fun heq =>
    hnotin (heq ▸ List.mem_map_of_mem hb)
  exact ⟨l, hothers _ l hne hl, hlq, hls⟩

theorem convertOne_effect {as : List LotConsideration}
    (h : convertOne spec terms at_ acc a = .ok acc')
    (hpending : Unconverted terms acc.state (a :: as))
    (hfresh : FreshKeys acc.state (a.newKeys terms.settlementId)) (hent : Entitled acc.state) :
    Unconverted terms acc'.state as ∧ Entitled acc'.state ∧ ∃ es, acc'.entries = acc.entries ++ es ∧
        Reconciles acc.state es acc'.state := by
  have hnext := hpending.next h hfresh
  obtain ⟨lot, hlot, hq, hsec⟩ := hpending.2 a List.mem_cons_self
  obtain ⟨lot', s1, tax, es1, s2, es2, created, retired, rfl, hlot', htax, hreplace,
    hretired⟩ := convertOne_ok h
  cases hlot.symm.trans hlot'
  obtain ⟨hw1, hlots1, -⟩ := treatTax_writes htax
  have hw2 := replaceLot_writes hreplace
  have hkept := replaceLot_kept hreplace (hlots1 ▸ hfresh.2) (hlots1 ▸ hlot)
  cases hretired.symm.trans hkept
  have hw3 := Writes.stock hretired hsec { lot with quantity := 0 } hsec none
  have hw := (hw1.trans hw2).trans hw3
  simp only [List.nil_append, List.append_nil] at hw
  obtain ⟨hent', hr⟩ := hw.effect hfresh hent
  exact ⟨hnext, hent', _, by simp [hq], hr⟩

theorem entitlementSnapshot_get {security k : String} {owned : OwnedLot}
    (h : (entitlementSnapshot s security).get? k = some owned) :
    ∃ l, s.stockLots.get? k = some l ∧ l.security = security ∧
      owned = ⟨l.quantity, l.acquiredOn, l.costBasis, l.acquiredSequence⟩ := by
  have hmem := Dict.get?_ofList h
  simp only [List.mem_map, List.mem_filter, Bool.and_eq_true,
    decide_eq_true_eq, Prod.mk.injEq] at hmem
  obtain ⟨⟨j, l⟩, ⟨hget, hsec, -⟩, rfl, rfl⟩ := hmem
  exact ⟨l, Dict.mem_entries.mp hget, hsec, rfl⟩

theorem settlementMatches_ok (h : settlementMatches terms s = .ok ()) :
    Unconverted terms s terms.allocations ∧
      (∀ id o, s.orders.get? id = some o → o.security = terms.security → o.status.held = false) ∧
      ∀ id item, s.corporateActions.get? id = some item →
        item.terms.security = terms.security → item.applied = true := by
  simp only [settlementMatches, bind_ok, refuse_ok] at h
  obtain ⟨-, -, -, -, -, hlots, -, hheld, hregistered⟩ := h
  push Not at hlots hheld hregistered
  refine ⟨⟨terms.lots_nodup, fun a ha => ?_⟩, fun id o ho hsec => ?_,
    fun id item hitem hsec => ?_⟩
  · have hget := hlots.2.2 a ha
    simp only [Option.map_eq_some_iff] at hget
    obtain ⟨owned, howned, hq⟩ := hget
    obtain ⟨l, hl, hsec, rfl⟩ := entitlementSnapshot_get howned
    exact ⟨l, hl, hq, hsec⟩
  · simpa using hheld o (Dict.mem_values.mpr ⟨id, ho⟩) hsec
  · simpa using hregistered item (Dict.mem_values.mpr ⟨id, hitem⟩) hsec

theorem specialSettlement_ok (h : specialSettlement spec terms at_ s = .ok o) :
    settlementMatches terms s = .ok () ∧ ∃ c receivables item claim,
      walk (convertOne spec terms at_) ⟨s, 0, 0, [], []⟩ terms.allocations
        = .ok c ∧ c.tax ≤ c.grossCash ∧ (receivables = c.state.receivables ∨
        receivables = c.state.receivables.set (settlementReceivableId terms.settlementId)
          (settlementReceivable terms c.grossCash c.tax)) ∧ (∀ e ∈ claim, e.silent = true) ∧
      o = ⟨{ c.state with
          receivables := receivables
          specialSettlements :=
            c.state.specialSettlements.set terms.settlementId item },
        at_, at_, c.entries ++ claim⟩ := by
  simp only [specialSettlement, bind_ok, refuse_ok, pure_ok, not_lt] at h
  obtain ⟨_, hmatch, c, hwalk, -, htax, rfl⟩ := h
  refine ⟨hmatch, c, _, _, _, hwalk, htax, ?_, ?_, rfl⟩
  · split
    · exact Or.inl rfl
    · exact Or.inr rfl
  · split <;> simp [Entry.silent]

def SettlementTerms.newKeys (terms : SettlementTerms) : List String :=
  terms.allocations.flatMap fun a => a.newKeys terms.settlementId

theorem specialSettlement_writes (h : specialSettlement spec terms at_ s = .ok o) :
    Writes s terms.newKeys o.entries o.state := by
  obtain ⟨hmatch, c, receivables, item, claim, hwalk, -, -, hsilent, rfl⟩ :=
    specialSettlement_ok h
  obtain ⟨hkeep, heffect⟩ := Writes.of_walk Conversion.state Conversion.entries
    (fun a => a.newKeys terms.settlementId)
    (fun c as => Unconverted terms c.state as) (fun _ _ _ => convertOne_keeps)
    (fun _ _ _ _ => convertOne_effect) hwalk
  have hw : Writes s terms.newKeys c.entries c.state :=
    ⟨hkeep, fun hfresh hent => by
      obtain ⟨hent', es, hout, hr⟩ :=
        heffect hfresh (settlementMatches_ok hmatch).1 hent
      rw [List.nil_append] at hout
      exact ⟨hent', hout ▸ hr⟩⟩
  have hlast : Writes c.state [] claim { c.state with
      receivables := receivables
      specialSettlements :=
        c.state.specialSettlements.set terms.settlementId item } :=
    Writes.quiet (OrdersKept.refl _) (ActionsSame.refl _) rfl rfl rfl rfl rfl
      hsilent
  simpa using hw.trans hlast

theorem specialSettlementPay_ok (h : specialSettlementPay spec id at_ s = .ok o) :
    ∃ item rid receivable receivable' item',
      o = ⟨{ s with
          cashLots := s.cashLots ++ [⟨rid, receivable.amount, at_,
            spec.zone.date at_, spec.zone.date at_⟩]
          receivables := s.receivables.set rid receivable'
          specialSettlements := s.specialSettlements.set id item' }, at_, at_,
        [.cash receivable.amount none, .receivables (-receivable.amount) none]⟩ ∧
      s.specialSettlements.get? id = some item ∧
      s.receivables.get? rid = some receivable ∧ receivable'.amount = 0 ∧
      item'.terms = item.terms := by
  simp only [specialSettlementPay, bind_ok, need_ok, refuse_ok, pure_ok] at h
  obtain ⟨item, hitem, -, -, -, -, rid, -, receivable, hrec, rfl⟩ := h
  exact ⟨item, rid, receivable, _, _, rfl, hitem, hrec, rfl, rfl⟩

theorem specialSettlementPay_writes (h : specialSettlementPay spec id at_ s = .ok o) :
    Writes s [] o.entries o.state := by
  obtain ⟨item, rid, receivable, receivable', item', rfl, -⟩ :=
    specialSettlementPay_ok h
  exact Writes.money (OrdersKept.refl _) (ActionsSame.refl _) rfl rfl rfl
    (by simp [cashTotal, Entry.toCash]) (by simp [Entry.toPayables])
    (by simp [Entry.toReserve, Entry.toShares])

/-! ## Every operation -/

theorem filter_map_flatMap {α β : Type} (p : α → Prop) [DecidablePred p] (f : α → β) (l : List α) :
    (l.filter p).map f = l.flatMap fun a => if p a then [f a] else [] := by
  induction l with
  | nil => rfl
  | cons a l ih =>
      by_cases h : p a <;> simp [h, ih]

theorem perform_writes {aid : String} {r : AccountRequest} (h : perform spec aid r s = .ok o) :
    ∃ keys, Writes s keys o.entries o.state ∧
      ∀ t : AccountState, OrdersKept s.orders t.orders →
        ActionsKept s.corporateActions t.corporateActions → r.lotKeys aid t = keys := by
  cases r with
  | reserveBatch orders at_ =>
      exact ⟨[], reserveBatch_writes h, fun _ _ _ => rfl⟩
  | fill orderId quantity price at_ =>
      obtain ⟨order, horder, hw⟩ := fill_writes h
      refine ⟨_, hw, fun t ht _ => ?_⟩
      obtain ⟨order', horder', hr⟩ := ht _ _ horder
      simp only [AccountRequest.lotKeys, horder', hr]
  | cancelRequest orderId at_ =>
      obtain ⟨order, horder, -, rfl⟩ := cancelRequest_ok h
      exact ⟨[], Writes.order horder rfl (by simp), fun _ _ _ => rfl⟩
  | release orderId reason at_ =>
      obtain ⟨order, horder, -, -, rfl⟩ := release_ok h
      exact ⟨[], Writes.order horder rfl (by simp [Entry.silent]),
        fun _ _ _ => rfl⟩
  | checkpoint at_ =>
      cases h
      exact ⟨[], Writes.refl s, fun _ _ _ => rfl⟩
  | settlePayables at_ =>
      exact ⟨[], settlePayables_writes h, fun _ _ _ => rfl⟩
  | corporateRegister terms at_ =>
      simp only [perform, bind_ok] at h
      obtain ⟨_, -, h⟩ := h
      exact ⟨[], corporateRegister_writes h, fun _ _ _ => rfl⟩
  | corporateApply id at_ =>
      obtain ⟨item, hitem, hw⟩ := corporateApply_writes h
      refine ⟨_, hw, fun t _ ht => ?_⟩
      obtain ⟨item', hitem', hterms, hents⟩ := ht _ _ hitem
      simp only [AccountRequest.lotKeys, hitem', CorporateItem.lotKeys, hterms,
        hents]
  | corporatePay id at_ =>
      exact ⟨[], corporatePay_writes h, fun _ _ _ => rfl⟩
  | specialSettlement terms at_ =>
      simp only [perform, bind_ok] at h
      obtain ⟨_, -, h⟩ := h
      refine ⟨_, specialSettlement_writes h, fun _ _ _ => ?_⟩
      exact filter_map_flatMap _ _ _
  | specialSettlementPay id at_ =>
      exact ⟨[], specialSettlementPay_writes h, fun _ _ _ => rfl⟩

end Ahunter.Sim
