import Ahunter.Proofs.Retirement

/-!
# What a settlement gives for the lots it retires

Allocation by allocation: the lot is emptied, its replacement gets at most its
basis and exactly that where no cash is paid, and what was outstanding on it
is carried to the replacement or assessed in full. Since the allocations name
distinct lots and the replacements go to new keys, no allocation undoes what
another did, and the whole settlement does to each lot and each obligation
what its own allocation does.
-/

namespace Ahunter.Sim

open Ahunter.Lib

variable {spec : AccountSpec} {z : Zone} {at_ : Instant}

/-! ## Obligations -/

variable {terms : SettlementTerms}

inductive Ends (z : Zone) (terms : SettlementTerms) (at_ : Instant)
    (a : LotConsideration) (o p : Obligation) : Prop
  | carried (hreplaced : a.replacementQuantity ≠ 0)
      (hcore : p.core = Obligation.core { o with
        lotId := replacementLotId terms.settlementId a.lotId
        sharesRemaining := a.replacementQuantity })
  | assessed {rate : ℚ} (hrate : o.policy.rate o.acquiredOn (z.date at_) = .ok rate)
      (hcore : p.core = Obligation.core { o with
        basisRemaining := 0
        sharesRemaining := 0
        taxExact := o.taxExact + o.basisRemaining * rate
        assessed := rounded (o.taxExact + o.basisRemaining * rate) })

structure ObligationSettled (z : Zone) (terms : SettlementTerms) (at_ : Instant)
    (as : List LotConsideration) (o p : Obligation) : Prop where
  other : (∀ a ∈ as, o.lotId ≠ a.lotId) → p.core = o.core
  outstanding : ∀ a ∈ as, o.lotId = a.lotId → 0 < o.basisRemaining →
    Ends z terms at_ a o p

variable {a : LotConsideration}

theorem Treats.other_lot {o o' : Obligation}
    (h : Treats z terms at_ a o o') (hne : o.lotId ≠ a.lotId) : o' = o := by
  cases h with
  | clear => rfl
  | disposed htreat hassess =>
      rwa [Assesses, if_neg fun hboth => hne hboth.1] at hassess
  | carried htreat hlot => exact absurd hlot hne
  | other => rfl

theorem Treats.ends {o o' : Obligation} (h : Treats z terms at_ a o o')
    (hlot : o.lotId = a.lotId) (hbasis : 0 < o.basisRemaining)
    (hunits : o.sharesRemaining = a.oldQuantity) :
    Ends z terms at_ a o o' ∧ (o'.lotId = a.lotId ∨ (a.replacementQuantity ≠ 0 ∧
        o'.lotId = replacementLotId terms.settlementId a.lotId)) := by
  cases h with
  | clear htreat hclear => exact absurd hbasis (not_lt.mpr (hclear hlot))
  | disposed htreat hassess =>
      obtain ⟨rate, hrate, rfl⟩ := hassess.complete hlot hunits a.oldQuantity_pos
      exact ⟨.assessed hrate rfl, Or.inl hlot⟩
  | carried htreat hlot' hbasis' hreplaced hunits' =>
      exact ⟨.carried hreplaced rfl, Or.inr ⟨hreplaced, rfl⟩⟩
  | other htreat hother => exact absurd ⟨hlot, hbasis⟩ hother

variable {acc acc' : Conversion} {as : List LotConsideration}

theorem conversions_obligations (h : walk (convertOne spec terms at_) acc as = .ok acc')
    (hpending : Unconverted terms acc.state as)
    (hfresh : FreshKeys acc.state (as.flatMap fun a => a.newKeys terms.settlementId))
    (hs : acc.state.Units) :
    EachChanges (ObligationSettled spec.zone terms at_ as)
      acc.state.dividendObligations acc'.state.dividendObligations := by
  induction as generalizing acc with
  | nil =>
      cases h
      exact ⟨fun _ hk => hk, fun k o ho => ⟨o, ho, fun _ => rfl, by simp⟩⟩
  | cons a as ih =>
      obtain ⟨mid, hone, hrest⟩ := walk_cons_ok.mp h
      rw [List.flatMap_cons] at hfresh
      obtain ⟨hnew, hlater⟩ := hfresh.split (convertOne_keeps hone).lots
      obtain ⟨hnone1, hsome1⟩ := convertOne_obligations hone
      obtain ⟨hnone2, hsome2⟩ := ih hrest (hpending.next hone hnew) hlater
        (convertOne_units hone hpending hnew hs)
      refine ⟨fun k hk => hnone2 k (hnone1 k hk), fun k o ho => ?_⟩
      obtain ⟨o1, ho1, htreat⟩ := hsome1 k o ho
      obtain ⟨p, hp, hsettled⟩ := hsome2 k o1 ho1
      refine ⟨p, hp, fun hother => ?_, fun b hb hlot hbasis => ?_⟩
      · have hsame := htreat.other_lot (hother a List.mem_cons_self)
        subst hsame
        exact hsettled.other fun b hb => hother b (List.mem_cons_of_mem _ hb)
      obtain ⟨hnotin, -⟩ := List.nodup_cons.mp hpending.1
      by_cases hhere : o.lotId = a.lotId
      · have hba : b = a := by
          rcases List.mem_cons.mp hb with rfl | hb
          · rfl
          · exact absurd (List.mem_map.mpr ⟨b, hb, hlot.symm.trans hhere⟩) hnotin
        subst hba
        obtain ⟨l, hl, hq, -⟩ := hpending.2 b List.mem_cons_self
        obtain ⟨-, m, hm, hunits⟩ := hs k o ho hbasis
        rw [hhere, hl] at hm
        cases hm
        obtain ⟨hends, hmoved⟩ := htreat.ends hhere hbasis (hunits.symm.trans hq)
        have hdone : p.core = o1.core := hsettled.other fun c hc heq => by
          rcases hmoved with hstays | ⟨h0, hmoves⟩
          · exact hnotin (List.mem_map.mpr ⟨c, hc, heq.symm.trans hstays⟩)
          · obtain ⟨n, hn, -⟩ := hpending.2 c (List.mem_cons_of_mem _ hc)
            have hfree := hnew.2 (replacementLotId terms.settlementId b.lotId)
              (by rw [LotConsideration.newKeys, if_pos h0]; exact List.mem_cons_self)
            rw [← hmoves, heq, hn] at hfree
            cases hfree
        cases hends with
        | carried hreplaced hcore => exact .carried hreplaced (hdone.trans hcore)
        | assessed hrate hcore => exact .assessed hrate (hdone.trans hcore)
      · have hsame := htreat.other_lot hhere
        subst hsame
        rcases List.mem_cons.mp hb with rfl | hb
        · exact absurd hlot hhere
        · exact hsettled.outstanding b hb hlot hbasis

/-! ## Lots -/

def LotReplaced (terms : SettlementTerms) (a : LotConsideration)
    (before after : Dict String StockLot) : Prop :=
  ∃ old new, before.get? a.lotId = some old ∧ old.quantity = a.oldQuantity ∧
    after.get? (replacementLotId terms.settlementId a.lotId) = some new ∧
    Replaces terms a old new

structure LotsConverted (terms : SettlementTerms) (as : List LotConsideration)
    (before after : Dict String StockLot) : Prop where
  others : ∀ k l, k ∉ as.map LotConsideration.lotId → before.get? k = some l →
    after.get? k = some l
  emptied : ∀ a ∈ as, ∃ l, before.get? a.lotId = some l ∧
    after.get? a.lotId = some { l with quantity := 0 }
  replaced : ∀ a ∈ as, a.replacementQuantity ≠ 0 → LotReplaced terms a before after

theorem conversions_lots (h : walk (convertOne spec terms at_) acc as = .ok acc')
    (hpending : Unconverted terms acc.state as)
    (hfresh : FreshKeys acc.state (as.flatMap fun a => a.newKeys terms.settlementId)) :
    LotsConverted terms as acc.state.stockLots acc'.state.stockLots := by
  induction as generalizing acc with
  | nil =>
      cases h
      exact ⟨fun _ _ _ hl => hl, by simp, by simp⟩
  | cons a as ih =>
      obtain ⟨mid, hone, hrest⟩ := walk_cons_ok.mp h
      rw [List.flatMap_cons] at hfresh
      obtain ⟨hnew, hlater⟩ := hfresh.split (convertOne_keeps hone).lots
      obtain ⟨hothers, hemptied, hdone⟩ := ih hrest (hpending.next hone hnew) hlater
      obtain ⟨hnotin, -⟩ := List.nodup_cons.mp hpending.1
      obtain ⟨lot, hlot, hq, -⟩ := hpending.2 a List.mem_cons_self
      obtain ⟨hself, hkept, hreplaced⟩ := convertOne_lots hone hlot hnew
      -- A lot still to be converted is untouched so far.
      have hlater : ∀ b ∈ as, ∀ l, mid.state.stockLots.get? b.lotId = some l →
          acc.state.stockLots.get? b.lotId = some l := by
        intro b hb l hl
        obtain ⟨m, hm, -⟩ := hpending.2 b (List.mem_cons_of_mem _ hb)
        have hne : b.lotId ≠ a.lotId := fun heq =>
          hnotin (heq ▸ List.mem_map_of_mem hb)
        rwa [(hkept _ m hne hm).symm.trans hl] at hm
      refine ⟨fun k l hk hl => ?_, fun b hb => ?_, fun b hb h0 => ?_⟩
      · rw [List.map_cons, List.mem_cons, not_or] at hk
        exact hothers k l hk.2 (hkept k l hk.1 hl)
      · rcases List.mem_cons.mp hb with rfl | hb
        · exact ⟨lot, hlot, hothers _ _ hnotin hself⟩
        · obtain ⟨l, hl, hzero⟩ := hemptied b hb
          exact ⟨l, hlater b hb l hl, hzero⟩
      · rcases List.mem_cons.mp hb with rfl | hb
        · obtain ⟨new, hget, hrep⟩ := hreplaced h0
          refine ⟨lot, new, hlot, hq, hothers _ new (fun hmem => ?_) hget, hrep⟩
          -- The replacement's key is new, the allocated lots are there.
          obtain ⟨c, hc, heq⟩ := List.mem_map.mp hmem
          obtain ⟨n, hn, -⟩ := hpending.2 c (List.mem_cons_of_mem _ hc)
          have hfree := hnew.2 (replacementLotId terms.settlementId b.lotId)
            (by rw [LotConsideration.newKeys, if_pos h0]; exact List.mem_cons_self)
          rw [← heq, hn] at hfree
          cases hfree
        · obtain ⟨old, new, hold, hold', hget, hrep⟩ := hdone b hb h0
          exact ⟨old, new, hlater b hb old hold, hold', hget, hrep⟩

theorem conversions_gross (h : walk (convertOne spec terms at_) acc as = .ok acc') :
    acc'.grossCash = acc.grossCash + (as.map LotConsideration.cashAmount).sum := by
  induction as generalizing acc with
  | nil =>
      cases h
      simp
  | cons a as ih =>
      obtain ⟨mid, hone, hrest⟩ := walk_cons_ok.mp h
      obtain ⟨_, _, _, _, _, _, _, _, rfl, -⟩ := convertOne_ok hone
      rw [ih hrest, List.map_cons, List.sum_cons, add_assoc]

/-! ## Basis -/

variable {s : AccountState}

def lotBasis (lots : Dict String StockLot) (k : String) : ℚ :=
  match lots.get? k with
  | some l => quantizeCents (l.costBasis * l.quantity)
  | none => 0

def retiredBasis (terms : SettlementTerms) (s : AccountState) : ℚ :=
  (terms.allocations.map fun a => lotBasis s.stockLots a.lotId).sum

def replacedBasis (terms : SettlementTerms) (s : AccountState) : ℚ :=
  (terms.allocations.map fun a =>
    if a.replacementQuantity = 0 then 0 else lotBasis s.stockLots a.lotId).sum

def replacementBasis (terms : SettlementTerms) (s : AccountState) : ℚ :=
  (terms.allocations.map fun a =>
    if a.replacementQuantity = 0 then 0
    else lotBasis s.stockLots (replacementLotId terms.settlementId a.lotId)).sum

theorem lotBasis_nonneg {lots : Dict String StockLot}
    (h : AllLots StockLot.Priced lots) (k : String) : 0 ≤ lotBasis lots k := by
  unfold lotBasis
  split
  · next l hl =>
      obtain ⟨hquantity, hbasis⟩ := h k l hl
      have hq : (0 : ℚ) ≤ l.quantity := by exact_mod_cast hquantity
      have hcent : (0 : ℚ) ≤ cent := by norm_num [cent]
      refine mul_nonneg ?_ hcent
      exact_mod_cast halfEven_nonneg (div_nonneg (mul_nonneg hbasis hq) hcent)
  · exact le_rfl

theorem LotReplaced.basis {before after : Dict String StockLot}
    (h : LotReplaced terms a before after) :
    lotBasis after (replacementLotId terms.settlementId a.lotId) ≤ lotBasis before a.lotId ∧
      (a.cashAmount = 0 → lotBasis after (replacementLotId terms.settlementId a.lotId)
          = lotBasis before a.lotId) := by
  obtain ⟨old, new, hold, hq, hnew, hrep⟩ := h
  simp only [lotBasis, hold, hnew, hq]
  exact ⟨hrep.within, hrep.preserved⟩

theorem replacedBasis_le (h : AllLots StockLot.Priced s.stockLots) :
    replacedBasis terms s ≤ retiredBasis terms s := by
  refine List.sum_le_sum fun a _ => ?_
  split
  · exact lotBasis_nonneg h _
  · exact le_rfl

theorem replacementBasis_le {t : AccountState}
    (h : ∀ a ∈ terms.allocations, a.replacementQuantity ≠ 0 →
      LotReplaced terms a s.stockLots t.stockLots) :
    replacementBasis terms t ≤ replacedBasis terms s := by
  refine List.sum_le_sum fun a ha => ?_
  split
  · exact le_rfl
  · next h0 => exact (h a ha h0).basis.1

theorem replacementBasis_eq {t : AccountState}
    (h : ∀ a ∈ terms.allocations, a.replacementQuantity ≠ 0 →
      LotReplaced terms a s.stockLots t.stockLots)
    (hpure : ∀ a ∈ terms.allocations, a.cashAmount = 0) :
    replacementBasis terms t = replacedBasis terms s := by
  refine congrArg List.sum (List.map_congr_left fun a ha => ?_)
  split
  · rfl
  · next h0 => exact (h a ha h0).basis.2 (hpure a ha)

/-! ## The whole settlement -/

structure Retirement (spec : AccountSpec) (terms : SettlementTerms) (at_ : Instant)
    (s s' : AccountState) : Prop where
  /-- Every lot of the security is allocated, in full. -/
  named : ∀ k l, s.stockLots.get? k = some l → l.security = terms.security →
    l.quantity ≠ 0 → ∃ a ∈ terms.allocations, a.lotId = k ∧ a.oldQuantity = l.quantity
  /-- Every allocated lot is emptied, and replaced if it gets shares. -/
  lots : LotsConverted terms terms.allocations s.stockLots s'.stockLots
  /-- The cash is claimed, less the tax that is due now. -/
  cash : (terms.allocations.map LotConsideration.cashAmount).sum ≠ 0 → ∃ tax,
    tax ≤ (terms.allocations.map LotConsideration.cashAmount).sum ∧
      s'.receivables.get? (settlementReceivableId terms.settlementId)
        = some (settlementReceivable terms
          (terms.allocations.map LotConsideration.cashAmount).sum tax)
  /-- The replacements have at most the basis of the lots retired. -/
  basis : replacementBasis terms s' ≤ retiredBasis terms s
  /-- Without cash they have the basis of the lots they replace. -/
  pure : (∀ a ∈ terms.allocations, a.cashAmount = 0) →
    replacementBasis terms s' = replacedBasis terms s
  /-- No obligation is lost or added; those outstanding on a retired lot end and
  those of other lots stay. -/
  obligations : EachChanges
    (ObligationSettled spec.zone terms at_ terms.allocations)
    s.dividendObligations s'.dividendObligations

theorem specialSettlement_receivable {o : Outcome} (h : specialSettlement spec terms at_ s = .ok o)
    (hcash : (terms.allocations.map LotConsideration.cashAmount).sum ≠ 0) :
    ∃ tax, tax ≤ (terms.allocations.map LotConsideration.cashAmount).sum ∧
      o.state.receivables.get? (settlementReceivableId terms.settlementId)
        = some (settlementReceivable terms
          (terms.allocations.map LotConsideration.cashAmount).sum tax) := by
  simp only [specialSettlement, bind_ok, refuse_ok, pure_ok, not_lt] at h
  obtain ⟨_, -, c, hwalk, -, htax, rfl⟩ := h
  have hgross := conversions_gross hwalk
  rw [zero_add] at hgross
  rw [← hgross] at hcash ⊢
  refine ⟨c.tax, htax, ?_⟩
  simp only [if_neg hcash, Dict.get?_set_self]

theorem specialSettlement_retirement {o o' : Outcome} {operation : Operation}
    (h : specialSettlement spec terms at_ s = .ok o)
    (hseal : prepareState spec operation o = .ok o') (hfresh : FreshKeys s terms.newKeys)
    (hs : SettledSound spec s) : Retirement spec terms at_ s o'.state := by
  have hreceivable := specialSettlement_receivable h
  have hall := (settlementMatches_ok (specialSettlement_ok h).1).1
  obtain ⟨hmatch, c, receivables, item, claim, hwalk, -, -, -, rfl⟩ :=
    specialSettlement_ok h
  obtain ⟨obligations, total, hrenewed, -, hstate⟩ := (prepareState_ok hseal).state
  have hlots := conversions_lots hwalk hall hfresh
  have hsettled := conversions_obligations hwalk hall hfresh hs.units
  rw [hstate]
  refine ⟨fun k l hl hsec hne => ?_, hlots, hreceivable, ?_, ?_, ?_⟩
  · obtain ⟨a, ha, rfl⟩ := List.mem_map.mp (settlementMatches_covers hmatch hl hsec hne)
    obtain ⟨m, hm, hq, -⟩ := hall.2 a ha
    cases hl.symm.trans hm
    exact ⟨a, ha, rfl, hq.symm⟩
  · exact (replacementBasis_le hlots.replaced).trans (replacedBasis_le hs.priced)
  · exact replacementBasis_eq hlots.replaced
  · refine ⟨fun k hk => ?_, fun k ob hob => ?_⟩
    · have hsame := hrenewed.same k
      rwa [hsettled.1 k hk, Option.map_none, Option.map_eq_none_iff] at hsame
    · obtain ⟨p, hp, hdone⟩ := hsettled.2 k ob hob
      have hsame := hrenewed.same k
      rw [hp, Option.map_some, Option.map_eq_some_iff] at hsame
      obtain ⟨p', hp', hcore⟩ := hsame
      refine ⟨p', hp', fun hother => hcore.trans (hdone.other hother),
        fun a ha hlot hbasis => ?_⟩
      cases hdone.outstanding a ha hlot hbasis with
      | carried hreplaced hended => exact .carried hreplaced (hcore.trans hended)
      | assessed hrate hended => exact .assessed hrate (hcore.trans hended)

structure Gone (spec : AccountSpec) (security : String) (u : AccountState) : Prop where
  shares : sharesOver u.stockLots security = 0
  lots : AllLots (fun l => l.security = security → l.quantity = 0) u.stockLots
  refused : ∀ orders t o, (∃ r ∈ orders, r.security = security) →
    reserveBatch spec orders t u ≠ .ok o

theorem RetiredIn.gone {security : String} {u : AccountState} (h : RetiredIn security u)
    (hitem : ∃ item ∈ u.specialSettlements.values, item.terms.security = security) :
    Gone spec security u := by
  refine ⟨Dict.sum_zero fun k l hl => ?_, h.lots, ?_⟩
  · split
    · next hsec => exact h.lots k l hl hsec
    · rfl
  · rintro orders t o ⟨r, hr, rfl⟩ hok
    obtain ⟨item, hmem, hsec⟩ := hitem
    exact reserveBatch_open hok r hr item hmem hsec

/-- A settlement is applied as a whole or not at all, and retires its security
for good. -/
theorem settlement_retires {w w' : World} {aid : String} {terms : SettlementTerms}
    (hw : ReachableIf spec Careful w)
    (hstep : step spec w (.account aid (.specialSettlement terms at_)) = .ok w')
    (hok : Careful w (.account aid (.specialSettlement terms at_)) w') :
    w' = w ∨ ∃ s s', w.account = some s ∧ w'.account = some s' ∧
      Retirement spec terms at_ s s' ∧
      ∀ u, Onward spec w' u → Gone spec terms.security u := by
  have hw' : ReachableIf spec Careful w' := hw.tail ⟨_, hstep, hok⟩
  rcases direct_ok hstep with hsame | ⟨s, o, hs, -, hcheck, hrun, hcommit⟩
  · exact Or.inl hsame
  obtain ⟨o', hseal, rfl⟩ := World.commit_ok hcommit
  have hfresh : FreshKeys s terms.newKeys := by
    have hkeys := hok.1 s hs ⟨aid, .account (.specialSettlement terms at_), [],
      o'.entries, o'.visibleAt, o'.at_, o'.state⟩ (by simp)
    have hread := perform_fresh hrun hseal
      (by simpa [AccountEvent.lotKeys_eq, AccountEvent.acts] using hkeys)
    rwa [show (AccountRequest.specialSettlement terms at_).lotKeys aid s
      = terms.newKeys from filter_map_flatMap _ _ _] at hread
  have hsettled := hrun
  simp only [perform, bind_ok] at hsettled
  obtain ⟨_, -, hsettled⟩ := hsettled
  refine Or.inr ⟨s, o'.state, hs, rfl, specialSettlement_retirement hsettled hseal hfresh
    (reachable_settledSound hw hs), fun u hu => ?_⟩
  obtain ⟨item, hterms, hset⟩ := specialSettlement_items hsettled
  have hitem : o'.state.specialSettlements.get? terms.settlementId = some item := by
    rw [prepareState_settlements hseal, hset, Dict.get?_set_self]
  obtain ⟨hretired, item', hitem', hterms'⟩ := hu.retired hw' rfl hitem
  rw [hterms] at hretired hterms'
  exact hretired.gone ⟨item', Dict.mem_values.mpr ⟨_, hitem'⟩, by rw [hterms']⟩

/-! ## Settlements of the sample market -/

def dividendTerms : CorporateTerms where
  security := sampleSecurity
  action := ⟨"dividend", .dividend, 0, 1, some 1, none, some (1 / 10), none⟩
  sourceRefs := ["source"]
  availability := ⟨sampleAt 0 540, ""⟩
  marketRule := sampleRule
  recordAt := ⟨sampleAt 0 900, ⟨8 * 60 * minuteMicros⟩⟩
  effectiveAt := ⟨sampleAt 1 540, ⟨8 * 60 * minuteMicros⟩⟩
  paymentAt := some ⟨sampleAt 1 1000, ⟨8 * 60 * minuteMicros⟩⟩
  tradableAt := none
  taxablePerOldShare := 1 / 10
  taxPolicy := some {
    policyRef := "policy"
    effectiveFrom := -100
    effectiveTo := 100
    availability := ⟨sampleAt 0 540, ""⟩
    bands := [⟨some 1, 1 / 5, by norm_num, by norm_num⟩, ⟨none, 0, le_rfl, by norm_num⟩]
    ordered := by decide
    finite := by decide
    unlimited := by decide }
  newShareHoldingStart := none
  sourceRefs_ne := by simp
  taxable_nonneg := by norm_num
  dates_agree := by decide
  optional_dates_agree := by decide
  payment_after := by decide
  tradable_after := by decide
  dividend_terms := by simp
  share_terms := by simp
  taxed_has_policy := by simp

theorem held_pos : (0 : ℤ) < 150 := by norm_num

theorem bought_pos : (0 : ℤ) < 100 := by norm_num

theorem noBasis_nonneg : ∀ b ∈ (none : Option ℚ), 0 ≤ b := by simp

def mergerTerms : SettlementTerms where
  settlementId := "merger"
  kind := .merger
  security := sampleSecurity
  effectiveAt := sampleAt 1 720
  sourceRefs := ["source"]
  availability := ⟨sampleAt 0 540, ""⟩
  entitlementSnapshot := Dict.ofList [("initial:SH600000", ⟨150, -10, 10, 0⟩)]
  allocations := [⟨"initial:SH600000", 150, 0, 300, some 5, held_pos, le_rfl,
    by norm_num, by simp, by simp⟩]
  cashPaymentAt := none
  replacementSecurity := some "SH600001"
  replacementTradableAt := some (sampleAt 2 570)
  holdingStart := .inherit
  dividendTaxTreatment := .carry
  sourceRefs_ne := by simp
  allocations_ne := by simp
  canonical := by decide
  payment_after := by simp
  tradable_after := by decide
  lots_nodup := by decide
  cash_iff := by simp
  shares_iff := by decide
  unused := by decide
  retires := by decide
  cents := by simp
  carry_pure := by simp
  dispose_cash := by decide

def taxedHolding : List Command := [
  .opening "open" true,
  .account "register" (.corporateRegister dividendTerms (sampleAt 0 900)),
  .account "detach" (.corporateApply "dividend" (sampleAt 1 540))]

def mergerStep : Command :=
  .account "merge" (.specialSettlement mergerTerms (sampleAt 1 720))

theorem settlement_retires_sample : ∃ w w' s s', w.account = some s ∧
    w'.account = some s' ∧ step sampleSpec w mergerStep = .ok w' ∧
    sharesOver s.stockLots sampleSecurity = 150 ∧
    s.dividendObligations.keys = ["dividend:initial:SH600000"] ∧
    Retirement sampleSpec mergerTerms (sampleAt 1 720) s s' ∧
    ∀ u, Onward sampleSpec w' u → Gone sampleSpec sampleSecurity u := by
  obtain ⟨w, hw, htest⟩ := ReachableIf.of_check sampleSpec Careful taxedHolding
    (fun w => (step sampleSpec w mergerStep).toOption.any fun w' =>
      decide (Careful w mergerStep w' ∧ w.events.length < w'.events.length ∧
        ∀ s ∈ w.account, sharesOver s.stockLots sampleSecurity = 150 ∧
          s.dividendObligations.keys = ["dividend:initial:SH600000"]))
    (by decide +kernel)
  obtain ⟨w', hstep, htest⟩ := (Option.any_eq_true _ _).mp htest
  have hstep := mem_toOption.mp hstep
  obtain ⟨hok, hmore, hfacts⟩ := of_decide_eq_true htest
  rcases settlement_retires hw hstep hok with rfl | ⟨s, s', hs, hs', hretire, hgone⟩
  · exact absurd hmore (lt_irrefl _)
  · exact ⟨w, w', s, s', hs, hs', hstep, (hfacts s hs).1, (hfacts s hs).2, hretire, hgone⟩

def lapseTerms : SettlementTerms where
  settlementId := "merger"
  kind := .merger
  security := sampleSecurity
  effectiveAt := sampleAt 0 720
  sourceRefs := ["source"]
  availability := ⟨sampleAt 0 540, ""⟩
  entitlementSnapshot := Dict.ofList [
    ("initial:SH600000", ⟨150, -10, 10, 0⟩), ("bought", ⟨100, 0, 1005 / 100, 1⟩)]
  allocations := [
    ⟨"initial:SH600000", 150, 0, 150, some 10, held_pos, le_rfl, by norm_num,
      by simp, by simp⟩,
    ⟨"bought", 100, 0, 0, none, bought_pos, le_rfl, le_rfl, by simp, noBasis_nonneg⟩]
  cashPaymentAt := none
  replacementSecurity := some "SH600001"
  replacementTradableAt := some (sampleAt 1 570)
  holdingStart := .inherit
  dividendTaxTreatment := .noOutstandingObligations
  sourceRefs_ne := by simp
  allocations_ne := by simp
  canonical := by decide
  payment_after := by simp
  tradable_after := by decide
  lots_nodup := by decide
  cash_iff := by simp
  shares_iff := by decide
  unused := by decide
  retires := by decide
  cents := by simp
  carry_pure := by decide
  dispose_cash := by decide

def twoLots : List Command := [
  .opening "open" true,
  .account "offer" (.reserveBatch
    [sampleOrder "buy" .buy 100 10] (sampleAt 0 600)),
  .account "bought" (.fill "buy" 100 10 (sampleAt 0 601))]

def lapseStep : Command :=
  .account "merge" (.specialSettlement lapseTerms (sampleAt 0 720))

/-- A pure share conversion after which part of the basis is gone. -/
theorem settlement_basis_lapses : ∃ w w' s s', ReachableIf sampleSpec Careful w ∧
    w.account = some s ∧ step sampleSpec w lapseStep = .ok w' ∧
    Careful w lapseStep w' ∧ w'.account = some s' ∧
    (∀ a ∈ lapseTerms.allocations, a.cashAmount = 0) ∧
    replacementBasis lapseTerms s' = 1500 ∧ retiredBasis lapseTerms s = 2505 := by
  obtain ⟨w, hw, htest⟩ := ReachableIf.of_check sampleSpec Careful twoLots
    (fun w => (step sampleSpec w lapseStep).toOption.any fun w' =>
      w.account.any fun s => w'.account.any fun s' =>
        decide (Careful w lapseStep w' ∧ replacementBasis lapseTerms s' = 1500 ∧
          retiredBasis lapseTerms s = 2505))
    (by decide +kernel)
  obtain ⟨w', hstep, htest⟩ := (Option.any_eq_true _ _).mp htest
  have hstep := mem_toOption.mp hstep
  obtain ⟨s, hs, htest⟩ := (Option.any_eq_true _ _).mp htest
  obtain ⟨s', hs', htest⟩ := (Option.any_eq_true _ _).mp htest
  obtain ⟨hok, hnew, hold⟩ := of_decide_eq_true htest
  exact ⟨w, w', s, s', hw, hs, hstep, hok, hs', by simp [lapseTerms], hnew, hold⟩

end Ahunter.Sim
