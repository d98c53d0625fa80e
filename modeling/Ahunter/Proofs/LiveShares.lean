import Ahunter.Proofs.Consideration

/-!
# The shares of live obligations

An obligation that still counts shares has a basis left, whatever sales, splits
and settlements have made of it. So the shares it counts are those of its lot,
as long as no lot is written over another.
-/

namespace Ahunter.Sim

open Ahunter.Lib

variable {spec : AccountSpec} {z : Zone} {at_ : Instant}

/-! ## What an obligation can become -/

variable {s : AccountState} {o : Outcome}

inductive Becomes (z : Zone) (o : Obligation) : Obligation → Prop
  | disposed {o' : Obligation} {at_ : Instant} {lotId : String} {quantity : ℤ}
      (h : Assesses z at_ lotId quantity o o') : Becomes z o o'
  | split {o' : Obligation} {lotId : String} {factor : ℚ} (hfactor : 0 ≤ factor)
      (h : SplitUnits lotId factor o o') : Becomes z o o'
  | carried {lotId : String} {quantity : ℤ} (hbasis : 0 < o.basisRemaining) :
      Becomes z o { o with lotId := lotId, sharesRemaining := quantity }

def Descends (z : Zone) (d d' : Dict String Obligation) : Prop :=
  ∀ k o', d'.get? k = some o' →
    ∃ o, d.get? k = some o ∧ Relation.ReflTransGen (Becomes z) o o'

theorem Descends.refl (d : Dict String Obligation) : Descends z d d :=
  fun _ o' ho' => ⟨o', ho', .refl⟩

theorem Descends.trans {a b c : Dict String Obligation} (h : Descends z a b)
    (h' : Descends z b c) : Descends z a c := by
  intro k o ho
  obtain ⟨p, hp, hlast⟩ := h' k o ho
  obtain ⟨q, hq, hfirst⟩ := h k p hp
  exact ⟨q, hq, hfirst.trans hlast⟩

theorem EachChanges.descends {R : Obligation → Obligation → Prop}
    {a b : Dict String Obligation} (h : EachChanges R a b)
    (hR : ∀ o o', R o o' → Relation.ReflTransGen (Becomes z) o o') : Descends z a b := by
  intro k o' ho'
  obtain ⟨o, ho, hone⟩ := h.back ho'
  exact ⟨o, ho, hR o o' hone⟩

variable {quantity : ℤ} {es : List Entry}

theorem assessDisposal_descends {s' : AccountState} {lotId : String} {tax : ℚ}
    (h : assessDisposal z s lotId quantity at_ = .ok (s', tax, es)) :
    Descends z s.dividendObligations s'.dividendObligations :=
  (assessDisposal_obligations h).descends fun _ _ hone => .single (.disposed hone)

theorem disposeLots_descends {pending : ℤ} {claims : List (String × ℤ)} {d : Disposal}
    (h : disposeLots z at_ pending claims s = .ok d) :
    Descends z s.dividendObligations d.state.dividendObligations := by
  induction claims generalizing pending s d with
  | nil =>
      cases pure_ok.mp h
      exact .refl _
  | cons x rest ih =>
      simp only [disposeLots, bind_ok, need_ok] at h
      obtain ⟨⟨s1, tax, es⟩, hassess, lot, -, h⟩ := h
      have hfirst := assessDisposal_descends hassess
      split at h
      · cases pure_ok.mp h
        exact hfirst
      · simp only [bind_ok, pure_ok] at h
        obtain ⟨d', hrest, rfl⟩ := h
        have hlater := ih hrest
        exact hfirst.trans hlater

theorem fill_descends {aid id : String} {price : ℚ}
    (h : fill spec aid id quantity price at_ s = .ok o) :
    Descends spec.zone s.dividendObligations o.state.dividendObligations := by
  obtain ⟨t, s1, es, order, -, hbranch, -, rfl⟩ := fill_ok h
  show Descends spec.zone _ s1.dividendObligations
  simp only [fillSide] at hbranch
  split at hbranch
  · simp only [fillBuy, bind_ok, refuse_ok, pure_ok, Prod.mk.injEq] at hbranch
    obtain ⟨-, -, lots, -, sellable, -, rfl, -⟩ := hbranch
    exact .refl _
  · obtain ⟨s2, order2, d, es2, hrealloc, -, hdispose, -, hsettle, -⟩ :=
      fillSell_ok hbranch
    obtain ⟨-, heq⟩ := reallocateSellFifo_core hrealloc
    have hsold : Descends spec.zone s.dividendObligations d.state.dividendObligations := by
      have hdisposed := disposeLots_descends hdispose
      rw [heq] at hdisposed
      exact hdisposed
    rcases settleProceeds_ok hsettle with ⟨-, paid, lots, -, -, rfl, -⟩ | ⟨-, rfl, -⟩ |
      ⟨-, lot, -, rfl, -⟩
    · exact hsold
    · exact hsold
    · exact hsold

theorem splitOne_descends {terms : CorporateTerms} {ratio : ℚ} {tradable : Stamp}
    {acc acc' : AccountState × List Entry} {e : Entitlement}
    (h : splitOne spec terms ratio tradable at_ acc e = .ok acc')
    (hlots : AllLots (fun l => 0 ≤ l.quantity) acc.1.stockLots) :
    AllLots (fun l => 0 ≤ l.quantity) acc'.1.stockLots ∧
      Descends z acc.1.dividendObligations acc'.1.dividendObligations := by
  obtain ⟨lot, quantity, obligations, hlot, hq, hpos, hwalk, rfl⟩ := splitOne_ok h
  refine ⟨fun k l hl => ?_, (splitObligations_units hwalk).descends fun o o' hone =>
    .single (.split (div_nonneg ?_ ?_) hone)⟩
  · rw [Dict.get?_set] at hl
    split at hl
    · cases hl
      exact hpos.le
    · exact hlots k l hl
  · exact_mod_cast hpos.le
  · rw [← hq]
    exact_mod_cast hlots _ lot hlot

theorem corporateApply_descends {id : String} {t : Instant} (h : corporateApply spec id t s = .ok o)
    (hlots : AllLots (fun l => 0 ≤ l.quantity) s.stockLots) :
    Descends z s.dividendObligations o.state.dividendObligations := by
  obtain ⟨item, s1, es, item', rfl, -, -, -, -, hkind, -⟩ := corporateApply_ok h
  show Descends z s.dividendObligations s1.dividendObligations
  simp only [applyKind] at hkind
  split at hkind
  · simp only [bind_ok, need_ok, pure_ok, Prod.mk.injEq] at hkind
    obtain ⟨receivable, -, rfl, -⟩ := hkind
    exact .refl _
  · simp only [bind_ok, need_ok] at hkind
    obtain ⟨ratio, -, tradable, -, hwalk⟩ := hkind
    exact (walk_induction (P := fun acc : AccountState × List Entry =>
        AllLots (fun l => 0 ≤ l.quantity) acc.1.stockLots ∧
          Descends z s.dividendObligations acc.1.dividendObligations)
      hwalk ⟨hlots, .refl _⟩ fun _ _ _ _ hacc hone =>
        have hnext := splitOne_descends hone hacc.1
        ⟨hnext.1, hacc.2.trans hnext.2⟩).2
  · simp only [bind_ok, need_ok, refuse_ok] at hkind
    obtain ⟨-, -, ratio, -, tradable, -, hwalk⟩ := hkind
    refine walk_induction (P := fun acc : AccountState × List Entry =>
      Descends z s.dividendObligations acc.1.dividendObligations) hwalk (.refl _)
      fun acc e acc' _ hacc hone => ?_
    obtain ⟨lot, bonus, basis, rfl, -⟩ := bonusOne_ok hone
    exact hacc
  · cases hkind

theorem convertOne_descends {terms : SettlementTerms} {acc acc' : Conversion}
    {a : LotConsideration} (h : convertOne spec terms at_ acc a = .ok acc') :
    Descends spec.zone acc.state.dividendObligations acc'.state.dividendObligations := by
  refine (convertOne_obligations h).descends fun o o' hone => ?_
  cases hone with
  | clear => exact .refl
  | disposed _ hassess => exact .single (.disposed hassess)
  | carried _ _ hbasis => exact .single (.carried hbasis)
  | other => exact .refl

theorem perform_descends {aid : String} {r : AccountRequest} (h : perform spec aid r s = .ok o)
    (hsound : Sound s) (hv : Valid s) {k : String} {ob : Obligation}
    (hob : o.state.dividendObligations.get? k = some ob) :
    (∃ p, s.dividendObligations.get? k = some p ∧ Relation.ReflTransGen (Becomes spec.zone) p ob) ∨
      ∃ terms policy e, 0 < terms.taxablePerOldShare ∧ 0 < e.quantity ∧
        ob = newObligation terms policy e := by
  have hlots : AllLots (fun l => 0 ≤ l.quantity) s.stockLots := fun _ _ hl =>
    hv.within.lot_nonneg hsound.claims hl
  cases r with
  | corporateRegister terms at_ =>
      simp only [perform, bind_ok] at h
      obtain ⟨_, -, h⟩ := h
      obtain ⟨-, item, receivables, obligations, entries, rfl, -, -, hobligations, -⟩ :=
        corporateRegister_ok h
      rcases hobligations with rfl | ⟨-, htaxable, policy, rfl⟩
      · exact .inl ⟨ob, hob, .refl⟩
      rcases obligationsWith_get hob with hold | ⟨e, he, rfl⟩
      · exact .inl ⟨ob, hold, .refl⟩
      simp only [entitlementsOf, List.mem_map, List.mem_filter, Bool.and_eq_true,
        decide_eq_true_eq] at he
      obtain ⟨⟨j, l⟩, ⟨hmem, -, hne⟩, rfl⟩ := he
      have hq : 0 ≤ l.quantity := hlots j l (Dict.mem_entries.mp hmem)
      exact .inr ⟨terms, policy, _, lt_of_le_of_ne terms.taxable_nonneg (Ne.symm htaxable),
        lt_of_le_of_ne hq (Ne.symm hne), rfl⟩
  | fill id quantity price at_ => exact .inl (fill_descends h k ob hob)
  | corporateApply id at_ => exact .inl (corporateApply_descends h hlots k ob hob)
  | specialSettlement terms at_ =>
      simp only [perform, bind_ok] at h
      obtain ⟨_, -, h⟩ := h
      obtain ⟨-, c, receivables, item, claim, hwalk, -, -, -, rfl⟩ := specialSettlement_ok h
      exact .inl (walk_induction (P := fun acc : Conversion =>
          Descends spec.zone s.dividendObligations acc.state.dividendObligations)
        hwalk (.refl _) (fun _ _ _ _ hacc hone => hacc.trans (convertOne_descends hone))
        k ob hob)
  | reserveBatch orders at_ =>
      obtain ⟨-, hsame, -⟩ := reserveBatch_ok h
      rw [hsame] at hob
      exact .inl ⟨ob, hob, .refl⟩
  | cancelRequest id at_ =>
      obtain ⟨order, -, -, rfl⟩ := cancelRequest_ok h
      exact .inl ⟨ob, hob, .refl⟩
  | release id reason at_ =>
      obtain ⟨order, -, -, -, rfl⟩ := release_ok h
      exact .inl ⟨ob, hob, .refl⟩
  | checkpoint at_ =>
      cases h
      exact .inl ⟨ob, hob, .refl⟩
  | settlePayables at_ =>
      obtain ⟨lots, -, rfl⟩ := settlePayables_ok h
      exact .inl ⟨ob, hob, .refl⟩
  | corporatePay id at_ =>
      obtain ⟨item, receivable, item', receivable', rfl, -⟩ := corporatePay_ok h
      exact .inl ⟨ob, hob, .refl⟩
  | specialSettlementPay id at_ =>
      obtain ⟨item, rid, receivable, receivable', item', rfl, -⟩ :=
        specialSettlementPay_ok h
      exact .inl ⟨ob, hob, .refl⟩

/-! ## Live obligations -/

/-- What still counts shares has a basis left. -/
def Obligation.Taxed (o : Obligation) : Prop :=
  0 < o.sharesRemaining → 0 < o.basisRemaining

theorem Assesses.taxed {lotId : String} {o o' : Obligation}
    (h : Assesses z at_ lotId quantity o o') (ho : o.Taxed) : o'.Taxed := by
  unfold Assesses at h
  split at h
  next hlot =>
    obtain ⟨-, rate, -, rfl⟩ := h
    intro hshares
    have hmore : (0 : ℚ) < o.sharesRemaining - quantity := by exact_mod_cast hshares
    have hpos : (0 : ℚ) < o.sharesRemaining := by exact_mod_cast hlot.2
    have hbasis := ho hlot.2
    have hrest : (o.disposedOf quantity rate).basisRemaining
        = o.basisRemaining * (o.sharesRemaining - quantity) / o.sharesRemaining := by
      simp only [Obligation.disposedOf]
      field_simp
    rw [hrest]
    positivity
  next =>
    rw [h]
    exact ho

theorem Becomes.taxed {o o' : Obligation} (h : Becomes z o o') (ho : o.Taxed) : o'.Taxed := by
  cases h with
  | disposed hassess => exact hassess.taxed ho
  | carried hbasis => exact fun _ => hbasis
  | @split _ lotId factor hfactor hsplit =>
      unfold SplitUnits at hsplit
      split at hsplit
      next =>
        obtain ⟨hwhole, rfl⟩ := hsplit
        intro hshares
        have hmany : (0 : ℚ) < (⌊o.sharesRemaining * factor⌋ : ℚ) := by exact_mod_cast hshares
        rw [hwhole] at hmany
        have hbefore : (0 : ℚ) < o.sharesRemaining := pos_of_mul_pos_left hmany hfactor
        exact ho (by exact_mod_cast hbefore)
      next =>
        rw [hsplit]
        exact ho

theorem descended_taxed {o o' : Obligation} (h : Relation.ReflTransGen (Becomes z) o o')
    (ho : o.Taxed) : o'.Taxed := by
  induction h with
  | refl => exact ho
  | tail _ hlast ih => exact hlast.taxed ih

theorem newObligation_taxed {terms : CorporateTerms} {policy : DividendTaxPolicy}
    {e : Entitlement} (htaxable : 0 < terms.taxablePerOldShare) (he : 0 < e.quantity) :
    (newObligation terms policy e).Taxed := by
  intro _
  have hq : (0 : ℚ) < e.quantity := by exact_mod_cast he
  exact mul_pos hq htaxable

def AccountState.Taxed (s : AccountState) : Prop :=
  ∀ k o, s.dividendObligations.get? k = some o → o.Taxed

theorem perform_taxed {aid : String} {r : AccountRequest} (h : perform spec aid r s = .ok o)
    (hsound : Sound s) (hv : Valid s) (hs : s.Taxed) : o.state.Taxed := by
  intro k ob hob
  rcases perform_descends h hsound hv hob with ⟨p, hp, hrun⟩ |
    ⟨terms, policy, e, htaxable, he, rfl⟩
  · exact descended_taxed hrun (hs k p hp)
  · exact newObligation_taxed htaxable he

theorem SealedAs.taxed {operation : Operation} {o' : Outcome} (h : SealedAs operation o o')
    (hs : o.state.Taxed) : o'.state.Taxed := by
  obtain ⟨obligations, total, hrenewed, -, hstate⟩ := h.state
  rw [hstate]
  intro k ob hob
  have hsame := hrenewed.same k
  rw [hob, Option.map_some] at hsame
  obtain ⟨old, hold, hcore⟩ := Option.map_eq_some_iff.mp hsame.symm
  have htaxed := hs k old hold
  simp only [Obligation.core, Obligation.mk.injEq] at hcore
  obtain ⟨-, -, -, hshares, hbasis, -⟩ := hcore
  rw [Obligation.Taxed, hshares, hbasis] at htaxed
  exact htaxed

/-! ## Units through fresh runs -/

/-- What a run that writes each lot key once keeps of the obligations. -/
structure TaxSound (spec : AccountSpec) (s : AccountState) : Prop where
  funded : Funded spec.zone s
  units : s.Units
  taxed : s.Taxed

theorem SealedAs.taxSound {operation : Operation} {o' : Outcome} (h : SealedAs operation o o')
    (hfunded : Funded spec.zone o'.state) (hu : o.state.Units) (ht : o.state.Taxed) :
    TaxSound spec o'.state :=
  ⟨hfunded, h.units hu, h.taxed ht⟩

variable {t : AccountState}

theorem LedgerStep.taxSound {as : List Act} (h : LedgerStep spec .any s as es t)
    (hfresh : FreshKeys s (as.flatMap fun a => a.2.lotKeys a.1 t)) (hs : TaxSound spec s) :
    TaxSound spec t := by
  have hfunded := h.funded hs.funded
  have hsound := hs.funded.sound
  have hvalid := hs.funded.valid
  cases h with
  | account hcheck hrun hseal =>
      exact (prepareState_ok hseal).taxSound hfunded
        (perform_units hrun hsound hvalid (perform_fresh hrun hseal hfresh) hs.units)
        (perform_taxed hrun hsound hvalid hs.taxed)
  | moved horder hheld hmove hrun hseal =>
      obtain ⟨order', -, rfl⟩ := orderMarketState_ok hrun
      exact (prepareState_ok hseal).taxSound hfunded hs.units hs.taxed
  | marked horder hstatus => exact ⟨hfunded, hs.units, hs.taxed⟩
  | resealed hseal => exact (prepareState_ok hseal).taxSound hfunded hs.units hs.taxed

theorem LedgerRun.taxSound {as : List Act} (h : LedgerRun spec .any s as es t)
    (hfresh : FreshKeys s (as.flatMap fun a => a.2.lotKeys a.1 t)) (hs : TaxSound spec s) :
    TaxSound spec t :=
  h.fresh_invariant hfresh hs fun _ _ _ _ ha hstep hkeys => hstep.taxSound hkeys ha

theorem opening_taxSound {o' : Outcome} (hinit : initializeAccount spec = .ok o)
    (hseal : prepareState spec .opening o = .ok o') : TaxSound spec o'.state := by
  have hfunded := opening_funded hinit hseal
  simp only [initializeAccount, bind_ok, refuse_ok, pure_ok] at hinit
  obtain ⟨-, -, rfl⟩ := hinit
  refine (prepareState_ok hseal).taxSound hfunded (fun k ob hob => ?_) fun k ob hob => ?_
  · simp [initialState] at hob
  · simp [initialState] at hob

theorem reachable_taxSound {w : World} (h : ReachableIf spec FreshLots w)
    (hs : w.account = some s) : TaxSound spec s := by
  refine h.invariant (P := fun w => ∀ s, w.account = some s → TaxSound spec s)
    (by simp [World.start]) (fun w c w' _ hw hstep hok t ht => ?_) s hs
  cases step_account hstep with
  | none haccount => exact hw t (haccount ▸ ht)
  | opened hnone hinit hseal haccount hevents hstate =>
      cases haccount.symm.trans ht
      rw [hstate]
      exact opening_taxSound hinit hseal
  | @event s ev acts hs haccount hevents hkeys hrun =>
      cases haccount.symm.trans ht
      refine hrun.taxSound ?_ (hw s hs)
      rw [← hkeys]
      refine hok s hs ev ?_
      rw [hevents, List.drop_left]
      exact List.mem_singleton.mpr rfl

def FreshState (spec : AccountSpec) (t : AccountState) : Prop :=
  ∃ w s acts es, ReachableIf spec FreshLots w ∧ w.account = some s ∧
    LedgerRun spec .any s acts es t ∧
    FreshKeys s (acts.flatMap fun a => a.2.lotKeys a.1 t)

theorem FreshState.taxSound (h : FreshState spec t) : TaxSound spec t := by
  obtain ⟨w, s, acts, es, hw, hs, hrun, hfresh⟩ := h
  exact hrun.taxSound hfresh (reachable_taxSound hw hs)

theorem TaxSound.live_units (h : TaxSound spec s) {k : String} {o : Obligation}
    (ho : s.dividendObligations.get? k = some o) (hlive : 0 < o.sharesRemaining) :
    ∃ l, s.stockLots.get? o.lotId = some l ∧ l.quantity = o.sharesRemaining :=
  (h.units k o ho (h.taxed k o ho hlive)).2

end Ahunter.Sim
