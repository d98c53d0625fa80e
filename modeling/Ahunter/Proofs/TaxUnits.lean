import Ahunter.Proofs.ShareReservations

/-!
# Tax units

A dividend's tax obligation counts the shares it still stands for. They are
the shares of its lot: a disposal takes the same number off both, a split
multiplies both, a conversion moves both to the replacement. This needs every
lot key to be used once, since a lot written over another leaves the other's
obligations behind.
-/

namespace Ahunter.Sim

open Ahunter.Lib

variable {spec : AccountSpec} {z : Zone} {at_ : Instant}

/-! ## Obligations under a disposal -/

variable {lotId : String} {quantity : ℤ} {s : AccountState}

/-- An obligation after `quantity` of its shares were disposed of at a rate. -/
def Obligation.disposedOf (o : Obligation) (quantity : ℤ) (rate : ℚ) :
    Obligation :=
  let basis := o.basisRemaining * quantity / o.sharesRemaining
  { o with
    basisRemaining := o.basisRemaining - basis
    sharesRemaining := o.sharesRemaining - quantity
    taxExact := o.taxExact + basis * rate
    assessed := rounded (o.taxExact + basis * rate) }

def Assesses (z : Zone) (at_ : Instant) (lotId : String) (quantity : ℤ)
    (o o' : Obligation) : Prop :=
  if o.lotId = lotId ∧ 0 < o.sharesRemaining then
    quantity ≤ o.sharesRemaining ∧ ∃ rate,
      o.policy.rate o.acquiredOn (z.date at_) = .ok rate ∧
        o' = o.disposedOf quantity rate
  else o' = o

theorem Assesses.outstanding {o o' : Obligation} (h : Assesses z at_ lotId quantity o o')
    (hbasis : 0 < o'.basisRemaining) :
    0 < o.basisRemaining ∧
      (o.lotId = lotId → 0 < o.sharesRemaining → quantity < o.sharesRemaining) := by
  unfold Assesses at h
  split at h
  · next hlot =>
      obtain ⟨hle, rate, -, rfl⟩ := h
      have hshares : (0 : ℚ) < o.sharesRemaining := by exact_mod_cast hlot.2
      have hleft : (0 : ℚ) ≤ o.sharesRemaining - quantity := by
        exact_mod_cast sub_nonneg.mpr hle
      -- What is left of the basis is the part of the shares that are left.
      have hrest : (o.disposedOf quantity rate).basisRemaining
          = o.basisRemaining * (o.sharesRemaining - quantity) / o.sharesRemaining := by
        simp only [Obligation.disposedOf]
        field_simp
      rw [hrest] at hbasis
      have hprod : 0 < o.basisRemaining * (o.sharesRemaining - quantity) :=
        (div_pos_iff_of_pos_right hshares).mp hbasis
      have hbefore : 0 < o.basisRemaining := pos_of_mul_pos_left hprod hleft
      refine ⟨hbefore, fun _ _ => ?_⟩
      have hmore : (0 : ℚ) < o.sharesRemaining - quantity :=
        (mul_pos_iff_of_pos_left hbefore).mp hprod
      exact_mod_cast sub_pos.mp hmore
  · next hskip =>
      subst h
      exact ⟨hbasis, fun hlot hpos => absurd ⟨hlot, hpos⟩ hskip⟩

theorem Assesses.complete {o o' : Obligation} (h : Assesses z at_ lotId quantity o o')
    (hlot : o.lotId = lotId) (hunits : o.sharesRemaining = quantity) (hpos : 0 < quantity) :
    ∃ rate, o.policy.rate o.acquiredOn (z.date at_) = .ok rate ∧
      o' = { o with
        basisRemaining := 0
        sharesRemaining := 0
        taxExact := o.taxExact + o.basisRemaining * rate
        assessed := rounded (o.taxExact + o.basisRemaining * rate) } := by
  rw [Assesses, if_pos ⟨hlot, hunits ▸ hpos⟩] at h
  obtain ⟨-, rate, hrate, rfl⟩ := h
  have hne : (quantity : ℚ) ≠ 0 := by exact_mod_cast hpos.ne'
  have hall : o.basisRemaining * quantity / quantity = o.basisRemaining :=
    mul_div_cancel_right₀ _ hne
  refine ⟨rate, hrate, ?_⟩
  simp only [Obligation.disposedOf, hunits, hall, sub_self]

def EachChanges (R : Obligation → Obligation → Prop) (a b : Dict String Obligation) :
    Prop :=
  (∀ k, a.get? k = none → b.get? k = none) ∧
    ∀ k o, a.get? k = some o → ∃ o', b.get? k = some o' ∧ R o o'

variable {R : Obligation → Obligation → Prop}

theorem EachChanges.back {a b : Dict String Obligation} (h : EachChanges R a b) {k : String}
    {o' : Obligation} (ho' : b.get? k = some o') : ∃ o, a.get? k = some o ∧ R o o' := by
  cases ho : a.get? k with
  | none =>
      rw [h.1 k ho] at ho'
      cases ho'
  | some o =>
      obtain ⟨p, hp, hR⟩ := h.2 k o ho
      cases hp.symm.trans ho'
      exact ⟨o, rfl, hR⟩

theorem EachChanges.of_filter {β : Type}
    {f : β → String × Obligation → Attempt β} {g : β → Dict String Obligation}
    {b b' : β} {p : String × Obligation → Bool} (h : walk f b ((g b).entries.filter p) = .ok b')
    (hskip : ∀ k o, p (k, o) = false → R o o)
    (hstep : ∀ c k o c', p (k, o) = true → (g c).get? k = some o →
      f c (k, o) = .ok c' → (g c' = g c ∧ R o o) ∨ ∃ o', R o o' ∧ g c' = (g c).set k o') :
    EachChanges R (g b) (g b') := by
  obtain ⟨hdone, hothers⟩ := walk_each (g := fun c k => (g c).get? k)
    (R := fun e v => R e.2 v) h
    ((g b).keys_nodup.sublist (List.Sublist.map _ List.filter_sublist))
    (fun e he => Dict.mem_entries.mp (List.mem_filter.mp he).1)
    fun c e c' he hget hone => by
      rcases hstep c e.1 e.2 c' (List.mem_filter.mp he).2 hget hone with
        ⟨hsame, hR⟩ | ⟨o', hR, hset⟩
      · refine ⟨e.2, hR, fun k => ?_⟩
        rw [hsame]
        split
        · next hk => rw [hk, hget]
        · rfl
      · exact ⟨o', hR, fun k => by rw [hset, Dict.get?_set]⟩
  have hother : ∀ k, (∀ o, (g b).get? k = some o → p (k, o) = false) →
      (g b').get? k = (g b).get? k := by
    intro k hk
    refine hothers k fun hmem => ?_
    obtain ⟨⟨j, o⟩, he, rfl⟩ := List.mem_map.mp hmem
    obtain ⟨hget, hp⟩ := List.mem_filter.mp he
    rw [hk o (Dict.mem_entries.mp hget)] at hp
    cases hp
  refine ⟨fun k hk => ?_, fun k o ho => ?_⟩
  · rw [hother k fun o ho => ?_, hk]
    rw [hk] at ho
    cases ho
  · cases hp : p (k, o) with
    | true =>
        obtain ⟨v, hR, hv⟩ := hdone (k, o)
          (List.mem_filter.mpr ⟨Dict.mem_entries.mpr ho, hp⟩)
        exact ⟨v, hv, hR⟩
    | false =>
        refine ⟨o, ?_, hskip k o hp⟩
        rw [hother k fun o' ho' => ?_, ho]
        cases ho.symm.trans ho'
        exact hp

theorem EachChanges.of_walk {β : Type}
    {f : β → String × Obligation → Attempt β} {g : β → Dict String Obligation}
    {b b' : β} (h : walk f b (g b).entries = .ok b')
    (hstep : ∀ c k o c', (g c).get? k = some o → f c (k, o) = .ok c' →
      (g c' = g c ∧ R o o) ∨ ∃ o', R o o' ∧ g c' = (g c).set k o') : EachChanges R (g b) (g b') :=
  EachChanges.of_filter (p := fun _ => true)
    (by rwa [List.filter_eq_self.mpr fun _ _ => rfl]) (fun _ _ hp => nomatch hp)
    fun c k o c' _ => hstep c k o c'

theorem assessOne_obligation {acc acc' : Assessment} {key : String} {o : Obligation}
    (h : assessOne z lotId quantity at_ acc (key, o) = .ok acc') :
    (acc'.state.dividendObligations = acc.state.dividendObligations ∧
        Assesses z at_ lotId quantity o o) ∨ ∃ o', Assesses z at_ lotId quantity o o' ∧
        acc'.state.dividendObligations = acc.state.dividendObligations.set key o' := by
  simp only [assessOne] at h
  split at h
  · next hskip =>
      cases pure_ok.mp h
      refine Or.inl ⟨rfl, ?_⟩
      rw [Assesses, if_neg]
      rintro ⟨hlot, hshares⟩
      rcases hskip with hne | hle
      · exact hne hlot
      · exact absurd hshares (not_lt.mpr hle)
  · next hlot =>
      push Not at hlot
      simp only [bind_ok, refuse_ok, need_ok] at h
      obtain ⟨-, hle, -, -, rate, hrate, action, -, h⟩ := h
      refine Or.inr ⟨o.disposedOf quantity rate, ?_, ?_⟩
      · rw [Assesses, if_pos hlot]
        exact ⟨not_lt.mp hle, rate, hrate, rfl⟩
      · split at h
        · cases pure_ok.mp h
          rfl
        · cases pure_ok.mp h
          rfl

theorem assessDisposal_obligations {s' : AccountState} {tax : ℚ} {es : List Entry}
    (h : assessDisposal z s lotId quantity at_ = .ok (s', tax, es)) :
    EachChanges (Assesses z at_ lotId quantity) s.dividendObligations s'.dividendObligations := by
  obtain ⟨a, fees, hwalk, rfl, -, -⟩ := assessDisposal_ok h
  exact EachChanges.of_walk (g := fun a : Assessment => a.state.dividendObligations)
    hwalk fun _ _ _ _ _ hone => assessOne_obligation hone

/-! ## The invariant -/

def UnitsMatch (lots : Dict String StockLot) (obligations : Dict String Obligation) :
    Prop :=
  ∀ k o, obligations.get? k = some o → 0 < o.basisRemaining →
    0 < o.sharesRemaining ∧
      ∃ l, lots.get? o.lotId = some l ∧ l.quantity = o.sharesRemaining

section

variable {lots : Dict String StockLot} {obligations : Dict String Obligation}

theorem UnitsMatch.set_new (h : UnitsMatch lots obligations) {k : String}
    {l : StockLot} (hk : lots.get? k = none) : UnitsMatch (lots.set k l) obligations := by
  intro j o ho hbasis
  obtain ⟨hpos, m, hm, hq⟩ := h j o ho hbasis
  refine ⟨hpos, m, ?_, hq⟩
  rw [Dict.get?_set_of_ne fun heq => ?_, hm]
  rw [heq, hk] at hm
  cases hm

theorem UnitsMatch.set_same (h : UnitsMatch lots obligations) {k : String}
    {l l' : StockLot} (hl : lots.get? k = some l) (hq : l'.quantity = l.quantity) :
    UnitsMatch (lots.set k l') obligations := by
  intro j o ho hbasis
  obtain ⟨hpos, m, hm, hm'⟩ := h j o ho hbasis
  refine ⟨hpos, ?_⟩
  rw [Dict.get?_set]
  split
  · next heq =>
      rw [heq, hl] at hm
      cases hm
      exact ⟨l', rfl, hq.trans hm'⟩
  · exact ⟨m, hm, hm'⟩

theorem UnitsMatch.disposed {after : Dict String Obligation} {lotId : String}
    {quantity : ℤ} {l : StockLot} (h : UnitsMatch lots obligations) (hl : lots.get? lotId = some l)
    (hassess : EachChanges (Assesses z at_ lotId quantity) obligations after) :
    UnitsMatch (lots.set lotId { l with quantity := l.quantity - quantity }) after := by
  intro k o' ho' hbasis'
  obtain ⟨o, ho, hR⟩ := hassess.back ho'
  obtain ⟨hbasis, hless⟩ := hR.outstanding hbasis'
  obtain ⟨hpos, m, hm, hq⟩ := h k o ho hbasis
  by_cases hlot : o.lotId = lotId
  · have hmore := hless hlot hpos
    rw [Assesses, if_pos ⟨hlot, hpos⟩] at hR
    obtain ⟨-, rate, -, rfl⟩ := hR
    rw [hlot, hl] at hm
    cases hm
    refine ⟨sub_pos.mpr hmore, { l with quantity := l.quantity - quantity }, ?_, ?_⟩
    · show (lots.set lotId _).get? o.lotId = _
      rw [hlot, Dict.get?_set_self]
    · show l.quantity - quantity = o.sharesRemaining - quantity
      rw [hq]
  · rw [Assesses, if_neg fun hboth => hlot hboth.1] at hR
    subst hR
    exact ⟨hpos, m, by rw [Dict.get?_set_of_ne hlot, hm], hq⟩

theorem UnitsMatch.renewed {after : Dict String Obligation} {total : ℚ}
    (h : UnitsMatch lots obligations) (hr : Renewed obligations after total) :
    UnitsMatch lots after := by
  intro k o' ho' hbasis
  have hsame := hr.same k
  rw [ho', Option.map_some] at hsame
  obtain ⟨o, ho, hcore⟩ := Option.map_eq_some_iff.mp hsame.symm
  simp only [Obligation.core, Obligation.mk.injEq] at hcore
  obtain ⟨-, hlot, -, hshares, hbasis', -⟩ := hcore
  rw [← hlot, ← hshares]
  exact h k o ho (hbasis' ▸ hbasis)

end

/-! ## Operations -/

variable {o : Outcome}

def AccountState.Units (s : AccountState) : Prop :=
  UnitsMatch s.stockLots s.dividendObligations

theorem disposeLots_units {pending : ℤ} {claims : List (String × ℤ)} {d : Disposal}
    (h : disposeLots z at_ pending claims s = .ok d) (hs : s.Units) :
    d.state.Units := by
  induction claims generalizing pending s d with
  | nil =>
      cases pure_ok.mp h
      exact hs
  | cons x rest ih =>
      obtain ⟨k, reserved⟩ := x
      simp only [disposeLots, bind_ok, need_ok] at h
      obtain ⟨⟨s1, tax, es⟩, hassess, lot, hlot, h⟩ := h
      obtain ⟨-, -, hlots⟩ := assessDisposal_writes hassess
      have hlots' : s1.stockLots = s.stockLots := hlots
      have hcut : UnitsMatch (s1.stockLots.set k
          { lot with quantity := lot.quantity - min pending reserved })
          s1.dividendObligations := by
        rw [hlots'] at hlot ⊢
        exact UnitsMatch.disposed hs hlot (assessDisposal_obligations hassess)
      split at h
      · cases pure_ok.mp h
        exact hcut
      · simp only [bind_ok, pure_ok] at h
        obtain ⟨d', hrest, rfl⟩ := h
        have hnext := ih hrest
        exact hnext hcut

theorem fill_units {aid id : String} {price : ℚ} (h : fill spec aid id quantity price at_ s = .ok o)
    (hfresh : FreshKeys s ((AccountRequest.fill id quantity price at_).lotKeys aid s))
    (hs : s.Units) : o.state.Units := by
  obtain ⟨t, s1, es, order, hterms, hbranch, -, rfl⟩ := fill_ok h
  obtain ⟨horder, -, -, -, -, haid, -⟩ := fillTerms_ok hterms
  show s1.Units
  simp only [fillSide] at hbranch
  split at hbranch
  · next hside =>
      simp only [AccountRequest.lotKeys, horder, hside, if_true] at hfresh
      have hfree := hfresh.2 aid List.mem_cons_self
      simp only [fillBuy, bind_ok, refuse_ok, pure_ok, Prod.mk.injEq] at hbranch
      obtain ⟨-, -, lots, -, sellable, -, rfl, -⟩ := hbranch
      exact UnitsMatch.set_new hs (haid ▸ hfree)
  · obtain ⟨s2, order2, d, es2, hrealloc, -, hdispose, -, hsettle, -⟩ :=
      fillSell_ok hbranch
    obtain ⟨-, heq⟩ := reallocateSellFifo_core hrealloc
    have hs2 : s2.Units := by
      rw [heq]
      exact hs
    have hd : d.state.Units := disposeLots_units hdispose hs2
    rcases settleProceeds_ok hsettle with ⟨-, paid, lots, -, -, rfl, -⟩ | ⟨-, rfl, -⟩ |
      ⟨-, lot, -, rfl, -⟩
    · exact hd
    · exact hd
    · exact hd

theorem corporateRegister_units {terms : CorporateTerms}
    (h : corporateRegister spec terms at_ s = .ok o) (hsound : Sound s) (hv : Valid s)
    (hs : s.Units) : o.state.Units := by
  obtain ⟨-, item, receivables, obligations, entries, rfl, -, -, hobligations, -⟩ :=
    corporateRegister_ok h
  intro k ob hob hbasis
  rcases hobligations with rfl | ⟨-, -, policy, rfl⟩
  · exact hs k ob hob hbasis
  rcases obligationsWith_get hob with hold | ⟨e, he, rfl⟩
  · exact hs k ob hold hbasis
  -- An entitled lot has shares, and the obligation counts them all.
  simp only [entitlementsOf, List.mem_map, List.mem_filter, Bool.and_eq_true,
    decide_eq_true_eq] at he
  obtain ⟨⟨j, l⟩, ⟨hmem, -, hne⟩, rfl⟩ := he
  have hl : s.stockLots.get? j = some l := Dict.mem_entries.mp hmem
  have hq : 0 ≤ l.quantity := hv.within.lot_nonneg hsound.claims hl
  exact ⟨lt_of_le_of_ne hq (Ne.symm hne), l, hl, rfl⟩

def SplitUnits (lotId : String) (factor : ℚ) (o o' : Obligation) : Prop :=
  if o.lotId = lotId then
    (⌊o.sharesRemaining * factor⌋ : ℚ) = o.sharesRemaining * factor ∧
      o' = { o with sharesRemaining := ⌊o.sharesRemaining * factor⌋ }
  else o' = o

theorem splitObligations_units {factor : ℚ} {a b : Dict String Obligation}
    (h : walk (splitObligation lotId factor) a a.entries = .ok b) :
    EachChanges (SplitUnits lotId factor) a b := by
  refine EachChanges.of_walk (g := id) h fun c k o c' _ hone => ?_
  simp only [splitObligation] at hone
  split at hone
  · next hne =>
      cases pure_ok.mp hone
      exact Or.inl ⟨rfl, by rw [SplitUnits, if_neg hne]⟩
  · next hlot =>
      simp only [bind_ok, refuse_ok, pure_ok, not_not] at hone hlot
      obtain ⟨-, hwhole, rfl⟩ := hone
      exact Or.inr ⟨_, by rw [SplitUnits, if_pos hlot]; exact ⟨hwhole, rfl⟩, rfl⟩

theorem splitOne_units {terms : CorporateTerms} {ratio : ℚ} {tradable : Stamp}
    {acc acc' : AccountState × List Entry} {e : Entitlement}
    (h : splitOne spec terms ratio tradable at_ acc e = .ok acc')
    (hs : acc.1.Units) : acc'.1.Units := by
  obtain ⟨lot, quantity, obligations, hlot, hq, hpos, hwalk, rfl⟩ := splitOne_ok h
  intro k o' ho' hbasis
  obtain ⟨o, ho, hR⟩ := (splitObligations_units hwalk).back ho'
  unfold SplitUnits at hR
  split at hR
  · next hid =>
      obtain ⟨hwhole, rfl⟩ := hR
      obtain ⟨hshares, l, hl, hlq⟩ := hs k o ho hbasis
      rw [hid, hlot] at hl
      cases hl
      -- All units of the lot are the obligation's, so they become the new quantity.
      have hunits : ⌊(o.sharesRemaining : ℚ) * (quantity / e.quantity)⌋ = quantity := by
        have hne : (e.quantity : ℚ) ≠ 0 := by
          rw [← hq, hlq]
          exact_mod_cast hshares.ne'
        rw [← hlq, hq, mul_div_cancel₀ _ hne, Int.floor_intCast]
      refine ⟨?_, splitLot spec terms at_ tradable quantity e.quantity lot, ?_, ?_⟩
      · show 0 < ⌊(o.sharesRemaining : ℚ) * (quantity / e.quantity)⌋
        rw [hunits]
        exact hpos
      · show (acc.1.stockLots.set e.lotId _).get? o.lotId = _
        rw [hid, Dict.get?_set_self]
      · exact hunits.symm
  · next hid =>
      subst hR
      obtain ⟨hshares, l, hl, hlq⟩ := hs k o' ho hbasis
      exact ⟨hshares, l, by rw [Dict.get?_set_of_ne hid, hl], hlq⟩

theorem bonuses_units {id : String} {terms : CorporateTerms} {ratio : ℚ}
    {tradable : Stamp} {acc acc' : AccountState × List Entry} {es : List Entitlement}
    (h : walk (bonusOne spec id terms ratio tradable at_) acc es = .ok acc')
    (hfresh : FreshKeys acc.1 (es.map fun e => bonusLotId id e.lotId))
    (hs : acc.1.Units) : acc'.1.Units := by
  induction es generalizing acc with
  | nil =>
      cases h
      exact hs
  | cons e es ih =>
      obtain ⟨mid, hone, hrest⟩ := walk_cons_ok.mp h
      rw [List.map_cons, ← List.singleton_append] at hfresh
      obtain ⟨hnew, hlater⟩ := hfresh.split (bonusOne_keeps hone).lots
      refine ih hrest hlater ?_
      obtain ⟨lot, bonus, basis, rfl, hlot, -⟩ := bonusOne_ok hone
      have hfree := hnew.2 _ List.mem_cons_self
      have hne : bonusLotId id e.lotId ≠ e.lotId := fun heq => by
        rw [heq, hlot] at hfree
        cases hfree
      have hold : UnitsMatch (acc.1.stockLots.set e.lotId
          { lot with costBasis := basis }) acc.1.dividendObligations :=
        UnitsMatch.set_same hs hlot rfl
      exact hold.set_new (by rw [Dict.get?_set_of_ne hne, hfree])

theorem corporateApply_units {aid id : String} {t : Instant}
    (h : corporateApply spec id t s = .ok o)
    (hfresh : FreshKeys s ((AccountRequest.corporateApply id t).lotKeys aid s)) (hs : s.Units) :
    o.state.Units := by
  obtain ⟨item, s1, es, item', rfl, hitem, -, -, -, hkind, -⟩ := corporateApply_ok h
  show s1.Units
  simp only [applyKind] at hkind
  split at hkind
  · simp only [bind_ok, need_ok, pure_ok, Prod.mk.injEq] at hkind
    obtain ⟨receivable, -, rfl, -⟩ := hkind
    exact hs
  · simp only [bind_ok, need_ok] at hkind
    obtain ⟨ratio, -, tradable, -, hwalk⟩ := hkind
    exact walk_induction (P := fun acc : AccountState × List Entry => acc.1.Units)
      hwalk hs fun _ _ _ _ hacc hone => splitOne_units hone hacc
  · next hbonus =>
      simp only [bind_ok, need_ok, refuse_ok] at hkind
      obtain ⟨-, -, ratio, -, tradable, -, hwalk⟩ := hkind
      simp only [AccountRequest.lotKeys, hitem, hbonus, if_true] at hfresh
      exact bonuses_units hwalk hfresh hs
  · cases hkind

/-! ## Settlements -/

variable {terms : SettlementTerms}

inductive Treats (z : Zone) (terms : SettlementTerms) (at_ : Instant)
    (a : LotConsideration) (o : Obligation) : Obligation → Prop
  | clear (htreat : terms.dividendTaxTreatment = .noOutstandingObligations)
      (hclear : o.lotId = a.lotId → o.basisRemaining ≤ 0) :
      Treats z terms at_ a o o
  | disposed {o' : Obligation} (htreat : terms.dividendTaxTreatment = .dispose)
      (hassess : Assesses z at_ a.lotId a.oldQuantity o o') :
      Treats z terms at_ a o o'
  | carried (htreat : terms.dividendTaxTreatment = .carry)
      (hlot : o.lotId = a.lotId) (hbasis : 0 < o.basisRemaining)
      (hreplaced : a.replacementQuantity ≠ 0)
      (hunits : o.sharesRemaining = a.oldQuantity) :
      Treats z terms at_ a o { o with
        lotId := replacementLotId terms.settlementId a.lotId
        sharesRemaining := a.replacementQuantity }
  | other (htreat : terms.dividendTaxTreatment = .carry)
      (hother : ¬ (o.lotId = a.lotId ∧ 0 < o.basisRemaining)) :
      Treats z terms at_ a o o

variable {a : LotConsideration}

theorem treatTax_obligations {s' : AccountState} {tax : ℚ}
    {es : List Entry} (h : treatTax spec terms at_ a s = .ok (s', tax, es)) :
    EachChanges (Treats spec.zone terms at_ a) s.dividendObligations s'.dividendObligations := by
  simp only [treatTax] at h
  split at h
  · next htreat =>
      simp only [bind_ok, refuse_ok, pure_ok, Prod.mk.injEq] at h
      obtain ⟨-, hnone, rfl, -, -⟩ := h
      refine ⟨fun _ hk => hk, fun k o ho => ⟨o, ho, .clear htreat fun hlot => ?_⟩⟩
      by_contra hbasis
      refine hnone (List.ne_nil_of_mem (a := (k, o)) (List.mem_filter.mpr
        ⟨Dict.mem_entries.mpr ho, ?_⟩))
      simpa using ⟨hlot, not_le.mp hbasis⟩
  · next htreat =>
      obtain ⟨hnone, hsome⟩ := assessDisposal_obligations h
      refine ⟨hnone, fun k o ho => ?_⟩
      obtain ⟨o', ho', hassess⟩ := hsome k o ho
      exact ⟨o', ho', .disposed htreat hassess⟩
  · next htreat =>
      simp only [bind_ok, refuse_ok, pure_ok, Prod.mk.injEq] at h
      obtain ⟨-, hsome, obligations, hwalk, rfl, -, -⟩ := h
      refine EachChanges.of_filter (g := id) hwalk
        (fun k o hp => .other htreat (by simpa using hp))
        fun c k o c' hp _ hone => Or.inr ?_
      have hout : o.lotId = a.lotId ∧ 0 < o.basisRemaining := by simpa using hp
      simp only [carryOne, bind_ok, refuse_ok, pure_ok, not_not] at hone
      obtain ⟨-, hunits, rfl⟩ := hone
      exact ⟨_, .carried htreat hout.1 hout.2 hsome hunits, rfl⟩

variable {acc acc' : Conversion}

theorem convertOne_obligations (h : convertOne spec terms at_ acc a = .ok acc') :
    EachChanges (Treats spec.zone terms at_ a) acc.state.dividendObligations
      acc'.state.dividendObligations := by
  obtain ⟨lot, s1, tax, es1, s2, es2, created, retired, rfl, -, htax, hreplace, -⟩ :=
    convertOne_ok h
  have hchanges := treatTax_obligations htax
  rcases replaceLot_ok hreplace with ⟨-, rfl, -⟩ | ⟨-, new, next, rfl, -⟩
  · exact hchanges
  · exact hchanges

theorem convertOne_units
    {as : List LotConsideration} (h : convertOne spec terms at_ acc a = .ok acc')
    (hpending : Unconverted terms acc.state (a :: as))
    (hfresh : FreshKeys acc.state (a.newKeys terms.settlementId)) (hs : acc.state.Units) :
    acc'.state.Units := by
  obtain ⟨lot, hlot, hq, -⟩ := hpending.2 a List.mem_cons_self
  obtain ⟨hself, hothers, hnew⟩ := convertOne_lots h hlot hfresh
  intro k o' ho' hbasis'
  obtain ⟨o, ho, htreat⟩ := (convertOne_obligations h).back ho'
  -- An obligation of another lot is as it was, and so is its lot.
  have hother : o' = o → o.lotId ≠ a.lotId → 0 < o'.sharesRemaining ∧
      ∃ l, acc'.state.stockLots.get? o'.lotId = some l ∧
        l.quantity = o'.sharesRemaining := by
    rintro rfl hne
    obtain ⟨hpos, l, hl, hlq⟩ := hs k o' ho hbasis'
    exact ⟨hpos, l, hothers _ l hne hl, hlq⟩
  cases htreat with
  | clear htreat hclear =>
      exact hother rfl fun hlot => absurd hbasis' (not_lt.mpr (hclear hlot))
  | disposed htreat hassess =>
      by_cases hlotId : o.lotId = a.lotId
      · have hbasis := (hassess.outstanding hbasis').1
        obtain ⟨-, l, hl, hlq⟩ := hs k o ho hbasis
        rw [hlotId, hlot] at hl
        cases hl
        obtain ⟨rate, -, rfl⟩ :=
          hassess.complete hlotId (hlq.symm.trans hq) a.oldQuantity_pos
        exact absurd hbasis' (lt_irrefl 0)
      · rw [Assesses, if_neg fun hboth => hlotId hboth.1] at hassess
        exact hother hassess hlotId
  | carried htreat hlotId hbasis hreplaced hunits =>
      obtain ⟨new, hget, hrep⟩ := hnew hreplaced
      refine ⟨?_, new, hget, hrep.quantity⟩
      exact lt_of_le_of_ne a.replacement_nonneg hreplaced.symm
  | other htreat hout => exact hother rfl fun hlotId => hout ⟨hlotId, hbasis'⟩

theorem conversions_units {as : List LotConsideration}
    (h : walk (convertOne spec terms at_) acc as = .ok acc')
    (hpending : Unconverted terms acc.state as)
    (hfresh : FreshKeys acc.state (as.flatMap fun a => a.newKeys terms.settlementId))
    (hs : acc.state.Units) : acc'.state.Units := by
  induction as generalizing acc with
  | nil =>
      cases h
      exact hs
  | cons a as ih =>
      obtain ⟨mid, hone, hrest⟩ := walk_cons_ok.mp h
      rw [List.flatMap_cons] at hfresh
      obtain ⟨hnew, hlater⟩ := hfresh.split (convertOne_keeps hone).lots
      exact ih hrest (hpending.next hone hnew) hlater
        (convertOne_units hone hpending hnew hs)

theorem specialSettlement_units (h : specialSettlement spec terms at_ s = .ok o)
    (hfresh : FreshKeys s terms.newKeys) (hs : s.Units) : o.state.Units := by
  obtain ⟨hmatch, c, receivables, item, claim, hwalk, -, -, -, rfl⟩ :=
    specialSettlement_ok h
  exact conversions_units hwalk (settlementMatches_ok hmatch).1 hfresh hs

/-! ## Every operation -/

theorem perform_units {aid : String} {r : AccountRequest} (h : perform spec aid r s = .ok o)
    (hsound : Sound s) (hv : Valid s) (hfresh : FreshKeys s (r.lotKeys aid s)) (hs : s.Units) :
    o.state.Units := by
  cases r with
  | fill id quantity price at_ => exact fill_units h hfresh hs
  | corporateRegister terms at_ =>
      simp only [perform, bind_ok] at h
      obtain ⟨_, -, h⟩ := h
      exact corporateRegister_units h hsound hv hs
  | corporateApply id at_ => exact corporateApply_units h hfresh hs
  | specialSettlement terms at_ =>
      simp only [perform, bind_ok] at h
      obtain ⟨_, -, h⟩ := h
      have hkeys : (AccountRequest.specialSettlement terms at_).lotKeys aid s
          = terms.newKeys := filter_map_flatMap _ _ _
      rw [hkeys] at hfresh
      exact specialSettlement_units h hfresh hs
  | reserveBatch orders at_ =>
      obtain ⟨-, hsame, -⟩ := reserveBatch_ok h
      rw [hsame]
      exact hs
  | cancelRequest id at_ =>
      obtain ⟨order, -, -, rfl⟩ := cancelRequest_ok h
      exact hs
  | release id reason at_ =>
      obtain ⟨order, -, -, -, rfl⟩ := release_ok h
      exact hs
  | checkpoint at_ =>
      cases h
      exact hs
  | settlePayables at_ =>
      obtain ⟨lots, -, rfl⟩ := settlePayables_ok h
      exact hs
  | corporatePay id at_ =>
      obtain ⟨item, receivable, item', receivable', rfl, -⟩ := corporatePay_ok h
      exact hs
  | specialSettlementPay id at_ =>
      obtain ⟨item, rid, receivable, receivable', item', rfl, -⟩ :=
        specialSettlementPay_ok h
      exact hs

end Ahunter.Sim
