import Ahunter.Proofs.Disposal

/-!
# Where a lot comes from

Every lot an operation leaves was there before, is bought, or is written on
account of a lot that was there: less what was sold of it, split, given a
share of its basis, retired or replaced. `perform_lots` says so once, as an
induction rule: what bought lots have and every such change keeps holds of all
lots. It needs the sales' claims in order, since a sale is of lots of its own
security only then.
-/

namespace Ahunter.Sim

open Ahunter.Lib

variable {spec : AccountSpec} {at_ : Instant}

/-! ## Changes of a lot -/

variable {P : StockLot → Prop}

inductive LotFrom (spec : AccountSpec) (s : AccountState) :
    AccountRequest → StockLot → StockLot → Prop
  | sold {id : String} {q n : ℤ} {price : ℚ} {at_ : Instant} {o : Order} {l : StockLot}
      (horder : s.orders.get? id = some o) (hexec : o.status.executable = true)
      (hsec : l.security = o.security) (hn : 0 ≤ n) :
      LotFrom spec s (.fill id q price at_) l { l with quantity := n }
  | divided {id : String} {at_ : Instant} {terms : CorporateTerms} {l : StockLot}
      {quantity : ℤ} {tradable : Stamp} (hold : l.quantity ≠ 0) (hq : 0 < quantity) :
      LotFrom spec s (.corporateApply id at_) l
        (splitLot spec terms at_ tradable quantity l.quantity l)
  | rebased {id : String} {at_ : Instant} {l : StockLot} {basis : ℚ}
      (hbasis : 0 ≤ l.quantity → 0 ≤ l.costBasis → 0 ≤ basis) :
      LotFrom spec s (.corporateApply id at_) l { l with costBasis := basis }
  | bonus {id : String} {at_ : Instant} {l l' : StockLot}
      (hsec : l'.security = l.security) (hnone : l.quantity = 0 → l'.quantity = 0)
      (hnonneg : 0 ≤ l.quantity → 0 ≤ l.costBasis →
        0 ≤ l'.quantity ∧ 0 ≤ l'.costBasis) :
      LotFrom spec s (.corporateApply id at_) l l'
  | retired {terms : SettlementTerms} {at_ : Instant} {l : StockLot} :
      LotFrom spec s (.specialSettlement terms at_) l { l with quantity := 0 }
  | replaced {terms : SettlementTerms} {at_ : Instant} {a : LotConsideration}
      {l l' : StockLot} (hmatch : settlementMatches terms s = .ok ())
      (hnew : Replaces terms a l l') :
      LotFrom spec s (.specialSettlement terms at_) l l'

structure Bought (s : AccountState) (id : String) (l : StockLot) : Prop where
  order : ∃ o, s.orders.get? id = some o ∧ o.status.executable = true ∧
    l.security = o.security
  quantity : 0 ≤ l.quantity
  costBasis : 0 ≤ l.costBasis

def AllLots (P : StockLot → Prop) (lots : Dict String StockLot) : Prop :=
  ∀ k l, lots.get? k = some l → P l

theorem AllLots.set {lots : Dict String StockLot} (h : AllLots P lots) {k : String} {l : StockLot}
    (hl : P l) : AllLots P (lots.set k l) := by
  intro j m hm
  rw [Dict.get?_set] at hm
  split at hm
  · cases hm
    exact hl
  · exact h j m hm

/-! ## Fills -/

variable {s : AccountState}

theorem fillBuy_bought {t : FillTerms} {s' : AccountState} {es : List Entry}
    (h : fillBuy spec t s = .ok (s', es)) (ht : FillSound t)
    (horder : s.orders.get? t.orderId = some t.order) (hexec : t.order.status.executable = true) :
    ∃ new, s'.stockLots = s.stockLots.set t.actionId new ∧ Bought s t.orderId new := by
  simp only [fillBuy, bind_ok, refuse_ok, pure_ok, Prod.mk.injEq] at h
  obtain ⟨-, -, lots, -, sellable, -, rfl, -⟩ := h
  have hq : (0 : ℚ) < t.quantity := by exact_mod_cast ht.quantity
  refine ⟨_, rfl, ⟨t.order, horder, hexec, rfl⟩, ht.quantity.le, ?_⟩
  exact div_nonneg (add_nonneg ht.gross ht.charge) hq.le

variable {o : Outcome}

theorem fill_lots {aid id : String} {quantity : ℤ} {price : ℚ}
    (h : fill spec aid id quantity price at_ s = .ok o) (hq : 0 < quantity) (hp : 0 < price)
    (hs : Sound s) (hv : Valid s) (hb : Bound spec.zone at_ s.stockLots s.orders)
    (hnonneg : AllLots (fun l => 0 ≤ l.quantity) o.state.stockLots)
    (hfrom : ∀ l l', P l → LotFrom spec s (.fill id quantity price at_) l l' → P l')
    (hbought : ∀ l, Bought s id l → P l) (hP : AllLots P s.stockLots) :
    AllLots P o.state.stockLots := by
  have hfill := h
  obtain ⟨t, s1, es, order, hterms, hbranch, -, rfl⟩ := fill_ok h
  obtain ⟨horder, hexec, -, -, -, -, hid, -⟩ := fillTerms_ok hterms
  have ht := fillTerms_sound hterms hq hp hs
  cases hside : t.order.side with
  | buy =>
      simp only [fillSide, hside] at hbranch
      obtain ⟨new, hlots, hnew⟩ := fillBuy_bought hbranch ht (hid ▸ horder) hexec
      show AllLots P s1.stockLots
      rw [hlots]
      exact hP.set (hbought new (hid ▸ hnew))
  | sell =>
      obtain ⟨-, hlots⟩ := fill_sold hfill hq.le hs hv hb horder hside
      intro k l' hl'
      have hn := hnonneg k l' hl'
      rw [hlots, lotsLess, Dict.get?_map, Option.map_eq_some_iff] at hl'
      obtain ⟨l, hl, rfl⟩ := hl'
      -- Only lots of the order's security are in the prefix it takes.
      by_cases hk : k ∈ (fifoPrefix spec.zone at_ t.order.security quantity
          s.stockLots).map Prod.fst
      · obtain ⟨e, he, rfl⟩ := List.mem_map.mp hk
        obtain ⟨m, hm, hsec, -⟩ := fifoPrefix_eligible e he
        cases hl.symm.trans hm
        exact hfrom l _ (hP _ l hl) (.sold horder hexec hsec hn)
      · rw [claimOn_absent hk, sub_zero]
        exact hP k l hl

/-! ## Corporate actions -/

variable {ratio : ℚ}

theorem targetShares_ok {quantity target : ℤ} (h : targetShares quantity ratio = .ok target)
    (hratio : 0 ≤ ratio) : (quantity = 0 → target = 0) ∧ (0 ≤ quantity → 0 ≤ target) := by
  simp only [targetShares, bind_ok, refuse_ok, pure_ok] at h
  obtain ⟨-, -, rfl⟩ := h
  refine ⟨?_, fun hq => Int.floor_nonneg.mpr (mul_nonneg (by exact_mod_cast hq) hratio)⟩
  rintro rfl
  simp

variable {terms : CorporateTerms} {tradable : Stamp} {acc acc' : AccountState × List Entry}

theorem splitOne_shares {e : Entitlement}
    (h : splitOne spec terms ratio tradable at_ acc e = .ok acc') : e.quantity ≠ 0 := by
  simp only [splitOne, targetShares, bind_ok, refuse_ok, pure_ok] at h
  obtain ⟨lot, -, quantity, ⟨-, -, rfl⟩, -, hpos, -⟩ := h
  intro hzero
  simp [hzero] at hpos

theorem splits_lots {id : String} {es : List Entitlement}
    (h : walk (splitOne spec terms ratio tradable at_) acc es = .ok acc')
    (hfrom : ∀ l l', P l → LotFrom spec s (.corporateApply id at_) l l' → P l')
    (hP : AllLots P acc.1.stockLots) : AllLots P acc'.1.stockLots := by
  refine walk_induction (P := fun acc : AccountState × List Entry =>
    AllLots P acc.1.stockLots) h hP fun acc e acc' _ hacc hone => ?_
  have hsome := splitOne_shares hone
  obtain ⟨lot, quantity, obligations, hlot, hq, hpos, -, rfl⟩ := splitOne_ok hone
  rw [← hq] at hsome ⊢
  exact hacc.set (hfrom lot _ (hacc _ _ hlot) (.divided hsome hpos))

theorem bonuses_lots {id : String} {es : List Entitlement}
    (h : walk (bonusOne spec id terms ratio tradable at_) acc es = .ok acc') (hratio : 0 ≤ ratio)
    (hin : EntitledIn terms.security acc.1 es)
    (hfrom : ∀ l l', P l → LotFrom spec s (.corporateApply id at_) l l' → P l')
    (hP : AllLots P acc.1.stockLots) : AllLots P acc'.1.stockLots := by
  refine (walk_induction (P := fun acc : AccountState × List Entry =>
    AllLots P acc.1.stockLots ∧ EntitledIn terms.security acc.1 es) h ⟨hP, hin⟩
    fun acc e acc' he hacc hone => ?_).1
  obtain ⟨hlots, hin⟩ := hacc
  obtain ⟨lot, bonus, basis, rfl, hlot, hq, hsec, -, -, htarget, hbasis, hsame⟩ :=
    bonusOne_ok hone
  obtain ⟨lot', hlot', hlotSec⟩ := hin e he
  cases hlot.symm.trans hlot'
  have hlotP := hlots _ _ hlot
  obtain ⟨hnone, hmore⟩ := targetShares_ok htarget hratio
  rw [← hq] at hnone hmore hbasis
  have hshare : 0 ≤ lot.quantity → 0 ≤ lot.costBasis → 0 ≤ basis := by
    intro hn hb
    have hnew : (0 : ℚ) ≤ bonus.quantity := by exact_mod_cast hmore hn
    have hold : (0 : ℚ) ≤ lot.quantity := by exact_mod_cast hn
    rw [hbasis]
    exact div_nonneg (mul_nonneg hb hold) (add_nonneg hold hnew)
  have hnew : LotFrom spec s (.corporateApply id at_) lot bonus :=
    .bonus (hsec.trans hlotSec.symm) hnone fun hn hb => ⟨hmore hn, hsame ▸ hshare hn hb⟩
  constructor
  · exact (hlots.set (hfrom lot _ hlotP (.rebased hshare))).set (hfrom lot _ hlotP hnew)
  · have hold : EntitledIn terms.security { acc.1 with
        stockLots := acc.1.stockLots.set e.lotId { lot with costBasis := basis } } es :=
      hin.set (l := { lot with costBasis := basis }) hlotSec rfl
    exact hold.set hsec rfl

theorem corporateApply_lots {id : String} {t : Instant}
    (h : corporateApply spec id t s = .ok o) (hent : Entitled s)
    (hfrom : ∀ l l', P l → LotFrom spec s (.corporateApply id t) l l' → P l')
    (hP : AllLots P s.stockLots) : AllLots P o.state.stockLots := by
  obtain ⟨item, s1, es, item', rfl, hitem, -, -, -, hkind, -⟩ := corporateApply_ok h
  show AllLots P s1.stockLots
  simp only [applyKind] at hkind
  split at hkind
  · simp only [bind_ok, need_ok, pure_ok, Prod.mk.injEq] at hkind
    obtain ⟨receivable, -, rfl, -⟩ := hkind
    exact hP
  · simp only [bind_ok, need_ok] at hkind
    obtain ⟨ratio, -, tradable, -, hwalk⟩ := hkind
    exact splits_lots hwalk hfrom hP
  · next hbonus =>
      simp only [bind_ok, need_ok, refuse_ok] at hkind
      obtain ⟨-, -, ratio, hratio, tradable, -, hwalk⟩ := hkind
      obtain ⟨⟨r, hr, hpos⟩, -⟩ := item.terms.share_terms (Or.inl hbonus)
      cases hratio.symm.trans hr
      exact bonuses_lots hwalk hpos.le (hent id item hitem) hfrom hP
  · cases hkind

/-! ## Settlements -/

theorem specialSettlement_lots {terms : SettlementTerms} {t : Instant}
    (h : specialSettlement spec terms t s = .ok o)
    (hfrom : ∀ l l', P l → LotFrom spec s (.specialSettlement terms t) l l' → P l')
    (hP : AllLots P s.stockLots) : AllLots P o.state.stockLots := by
  obtain ⟨hmatch, c, receivables, item, claim, hwalk, -, -, -, rfl⟩ :=
    specialSettlement_ok h
  refine walk_induction (P := fun acc : Conversion => AllLots P acc.state.stockLots)
    hwalk hP fun acc a acc' _ hacc hone => ?_
  obtain ⟨lot, s1, tax, es1, s2, es2, created, retired, rfl, hlot, htax, hreplace,
    hretired⟩ := convertOne_ok hone
  obtain ⟨-, hlots1, -⟩ := treatTax_writes htax
  have hall : AllLots P s2.stockLots := by
    rcases replaceLot_ok hreplace with ⟨-, rfl, -⟩ | ⟨-, new, next, rfl, -, hnew⟩
    · rw [hlots1]
      exact hacc
    · show AllLots P (s1.stockLots.set _ new)
      rw [hlots1]
      exact hacc.set (hfrom lot new (hacc _ _ hlot) (.replaced hmatch hnew))
  exact hall.set (hfrom retired _ (hall _ _ hretired) .retired)

/-! ## Every operation -/

theorem perform_lots {aid : String} {r : AccountRequest} (hcheck : r.check = .ok ())
    (h : perform spec aid r s = .ok o) (hs : Sound s) (hv : Valid s) (hent : Entitled s)
    (hb : Bound spec.zone o.at_ s.stockLots s.orders)
    (hnonneg : AllLots (fun l => 0 ≤ l.quantity) o.state.stockLots)
    (hfrom : ∀ l l', P l → LotFrom spec s r l l' → P l') (hbought : ∀ id l, Bought s id l → P l)
    (hP : AllLots P s.stockLots) : AllLots P o.state.stockLots := by
  cases r with
  | fill id quantity price at_ =>
      obtain ⟨t, s1, es, order, -, -, -, ho⟩ := fill_ok h
      have hat : o.at_ = at_ := congrArg Outcome.at_ ho
      simp only [AccountRequest.check, refuse_ok, not_or, not_le] at hcheck
      exact fill_lots h hcheck.1 hcheck.2 hs hv (hat ▸ hb) hnonneg hfrom (hbought id) hP
  | corporateApply id at_ => exact corporateApply_lots h hent hfrom hP
  | specialSettlement terms at_ =>
      simp only [perform, bind_ok] at h
      obtain ⟨_, -, h⟩ := h
      exact specialSettlement_lots h hfrom hP
  | reserveBatch orders at_ =>
      obtain ⟨-, hsame, -⟩ := reserveBatch_ok h
      rw [hsame]
      exact hP
  | cancelRequest id at_ =>
      obtain ⟨order, -, -, rfl⟩ := cancelRequest_ok h
      exact hP
  | release id reason at_ =>
      obtain ⟨order, -, -, -, rfl⟩ := release_ok h
      exact hP
  | checkpoint at_ =>
      cases h
      exact hP
  | settlePayables at_ =>
      obtain ⟨lots, -, rfl⟩ := settlePayables_ok h
      exact hP
  | corporateRegister terms at_ =>
      simp only [perform, bind_ok] at h
      obtain ⟨_, -, h⟩ := h
      obtain ⟨-, item, receivables, obligations, entries, rfl, -⟩ :=
        corporateRegister_ok h
      exact hP
  | corporatePay id at_ =>
      obtain ⟨item, receivable, item', receivable', rfl, -⟩ := corporatePay_ok h
      exact hP
  | specialSettlementPay id at_ =>
      obtain ⟨item, rid, receivable, receivable', item', rfl, -⟩ :=
        specialSettlementPay_ok h
      exact hP

def StockLot.Priced (l : StockLot) : Prop := 0 ≤ l.quantity ∧ 0 ≤ l.costBasis

theorem LotFrom.priced {r : AccountRequest} {l l' : StockLot} (h : LotFrom spec s r l l')
    (hl : l.Priced) : l'.Priced := by
  obtain ⟨hquantity, hbasis⟩ := hl
  cases h with
  | sold horder hexec hsec hn => exact ⟨hn, hbasis⟩
  | @divided _ _ _ l quantity tradable hold hq =>
      have hnew : (0 : ℚ) ≤ quantity := by exact_mod_cast hq.le
      have hbefore : (0 : ℚ) ≤ l.quantity := by exact_mod_cast hquantity
      exact ⟨hq.le, div_nonneg hbasis (div_nonneg hnew hbefore)⟩
  | rebased hrebased => exact ⟨hquantity, hrebased hquantity hbasis⟩
  | bonus hsec hnone hnonneg => exact hnonneg hquantity hbasis
  | retired => exact ⟨le_rfl, hbasis⟩
  | @replaced _ _ a _ _ hmatch hnew =>
      exact ⟨hnew.quantity ▸ a.replacement_nonneg, a.basis_nonneg _ hnew.costBasis⟩

end Ahunter.Sim
