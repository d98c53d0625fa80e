import Ahunter.Proofs.Writes

/-!
# Taxes and sealing

The two things that happen to a state besides the operation itself: every
seal renews the dividend tax reserve, and every disposal assesses the tax of
the shares it takes. Each gets one inversion lemma that says everything it
can change, and from it that its entries account for the change.
-/

namespace Ahunter.Sim

open Ahunter.Lib

variable {spec : AccountSpec} {z : Zone}

/-! ## The reserve -/

variable {s : AccountState}

def Obligation.core (o : Obligation) : Obligation := { o with reserved := 0 }

structure Renewed (d d' : Dict String Obligation) (total : ℚ) : Prop where
  same : ∀ k, (d'.get? k).map Obligation.core = (d.get? k).map Obligation.core
  nonneg : (∀ k o, d.get? k = some o → 0 ≤ o.basisRemaining) → 0 ≤ total

theorem reserveRate_nonneg {p : DividendTaxPolicy} {a d : Date} {r : ℚ}
    (h : p.reserveRate a d = .ok r) : 0 ≤ r := by
  simp only [DividendTaxPolicy.reserveRate, bind_ok, pure_ok] at h
  obtain ⟨i, -, rfl⟩ := h
  have hfold : ∀ (bs : List TaxBand) (m : ℚ), m ≤
      bs.foldl (fun m b => max m b.rate) m := by
    intro bs
    induction bs with
    | nil => exact fun m => le_rfl
    | cons b bs ih => exact fun m => (le_max_left m b.rate).trans (ih _)
  exact hfold _ 0

variable {at_ : Instant}

theorem refreshOne_ok {acc acc' : Dict String Obligation × ℚ}
    {e : String × Obligation} (h : refreshOne z at_ acc e = .ok acc') :
    ∃ rate, 0 ≤ rate ∧ acc'.2 = acc.2 + rounded (e.2.basisRemaining * rate) ∧
      acc'.1 = acc.1.set e.1 { e.2 with
        reserved := rounded (e.2.basisRemaining * rate) } := by
  simp only [refreshOne, bind_ok, refuse_ok, pure_ok] at h
  obtain ⟨-, -, rate, hrate, rfl⟩ := h
  exact ⟨rate, reserveRate_nonneg hrate, rfl, rfl⟩

variable {s' : AccountState}

theorem refreshTaxReserves_ok {c : ℚ} (h : refreshTaxReserves z s at_ = .ok (s', c)) :
    ∃ obligations total, Renewed s.dividendObligations obligations total ∧
      c = total - s.dividendTaxReserve ∧
      s' = { s with
        dividendObligations := obligations
        liabilities := s.liabilities + total - s.dividendTaxReserve
        dividendTaxReserve := total } := by
  simp only [refreshTaxReserves, bind_ok] at h
  obtain ⟨⟨obligations, total⟩, hwalk, h⟩ := h
  cases pure_ok.mp h
  refine ⟨obligations, total, ?_, rfl, rfl⟩
  have hkeep : (∀ k, (obligations.get? k).map Obligation.core
        = (s.dividendObligations.get? k).map Obligation.core) ∧
      ((∀ k o, s.dividendObligations.get? k = some o → 0 ≤ o.basisRemaining) →
        0 ≤ total) := by
    refine walk_induction (P := fun acc : Dict String Obligation × ℚ =>
      (∀ k, (acc.1.get? k).map Obligation.core
        = (s.dividendObligations.get? k).map Obligation.core) ∧
      ((∀ k o, s.dividendObligations.get? k = some o → 0 ≤ o.basisRemaining) →
        0 ≤ acc.2)) hwalk ⟨fun _ => rfl, fun _ => le_rfl⟩ ?_
    intro acc e acc' he ⟨hsame, hnn⟩ hone
    obtain ⟨rate, hrate, htotal, hset⟩ := refreshOne_ok hone
    have hget : s.dividendObligations.get? e.1 = some e.2 :=
      Dict.mem_entries.mp he
    constructor
    · intro k
      rw [hset, Dict.get?_set]
      split
      · next hk => rw [hk, hget]; rfl
      · exact hsame k
    · intro hbasis
      rw [htotal]
      exact add_nonneg (hnn hbasis)
        (rounded_nonneg (mul_nonneg (hbasis _ _ hget) hrate))
  exact ⟨hkeep.1, hkeep.2⟩

/-! ## Sealing -/

structure SealedAs (operation : Operation) (o o' : Outcome) : Prop where
  at_ : o'.at_ = o.at_
  ordered : ∀ t ∈ o.state.lastEventAt, t ≤ o.at_
  unsealed : ∀ t ∈ o.state.sealedThrough, t < o.at_
  shown : ∀ t ∈ o.state.visibleAt, t ≤ o'.visibleAt
  valid : validate o'.state o.at_ = .ok ()
  state : ∃ obligations total,
    Renewed o.state.dividendObligations obligations total ∧
    o'.entries = (if total - o.state.dividendTaxReserve = 0 then o.entries
      else o.entries ++
        [.dividendTaxReserve (total - o.state.dividendTaxReserve)]) ∧
    o'.state = { o.state with
      sealedThrough := if operation = .other then o.state.sealedThrough
        else some o.at_
      lastEventAt := some o.at_
      visibleAt := some o'.visibleAt
      dividendObligations := obligations
      liabilities := o.state.liabilities + total - o.state.dividendTaxReserve
      dividendTaxReserve := total }

theorem prepareState_ok {operation : Operation} {o o' : Outcome}
    (h : prepareState spec operation o = .ok o') : SealedAs operation o o' := by
  simp only [prepareState, bind_ok, refuse_ok, pure_ok] at h
  obtain ⟨-, -, -, hunsealed, -, hordered, ⟨s', c⟩, hrefresh, h⟩ := h
  obtain ⟨u, hvalid, rfl⟩ := h
  obtain ⟨obligations, total, hrenewed, rfl, rfl⟩ := refreshTaxReserves_ok hrefresh
  push Not at hunsealed hordered
  exact {
    at_ := rfl
    ordered := fun t ht => hordered t ht
    unsealed := fun t ht => hunsealed t ht
    shown := fun t ht => by
      rw [Option.mem_def] at ht
      simp [ht]
    valid := hvalid
    state := ⟨obligations, total, hrenewed, rfl, rfl⟩ }

theorem SealedAs.writes {operation : Operation} {o o' : Outcome} (h : SealedAs operation o o')
    {keys : List String} (hw : Writes s keys o.entries o.state) :
    Writes s keys o'.entries o'.state := by
  obtain ⟨obligations, total, -, hentries, hstate⟩ := h.state
  have hseal : Writes o.state []
      (if total - o.state.dividendTaxReserve = 0 then []
        else [.dividendTaxReserve (total - o.state.dividendTaxReserve)])
      o'.state := {
    orders := by rw [hstate]; exact OrdersKept.refl _
    actions := by rw [hstate]; exact ActionsKept.refl _
    lots := by rw [hstate]; exact LotsWithin.refl _
    effect := fun _ hent => by
      refine ⟨by rw [hstate]; exact hent, ?_⟩
      split
      · next h0 =>
          rw [hstate]
          exact ⟨by simp [cashTotal], by simp, by simp; linarith, by simp; linarith,
            by simp⟩
      · rw [hstate]
        exact ⟨by simp [cashTotal, Entry.toCash], by simp [Entry.toPayables],
          by simp [Entry.toReserve], by simp; ring, by simp [Entry.toShares]⟩ }
  have := hw.trans hseal
  rw [List.append_nil] at this
  rw [hentries]
  split
  · next h0 => rwa [if_pos h0, List.append_nil] at this
  · next h0 => rwa [if_neg h0] at this

/-! ## Assessments -/

variable {lotId : String} {quantity : ℤ}

theorem taxRate_nonneg {p : DividendTaxPolicy} {a d : Date} {r : ℚ}
    (h : p.rate a d = .ok r) : 0 ≤ r := by
  simp only [DividendTaxPolicy.rate, bind_ok, need_ok, pure_ok] at h
  obtain ⟨i, -, band, -, rfl⟩ := h
  exact band.rate_nonneg

theorem assessOne_ok {acc acc' : Assessment} {key : String} {o : Obligation}
    (h : assessOne z lotId quantity at_ acc (key, o) = .ok acc') :
    acc' = acc ∨ ∃ rate action, 0 ≤ rate ∧ o.lotId = lotId ∧
      0 < o.sharesRemaining ∧ quantity ≤ o.sharesRemaining ∧
      acc.state.corporateActions.get? o.actionId = some action ∧
      let basis := o.basisRemaining * quantity / o.sharesRemaining
      let exactTax := o.taxExact + basis * rate
      let increment := rounded exactTax - o.assessed
      let s := { acc.state with
        dividendObligations := acc.state.dividendObligations.set key { o with
          basisRemaining := o.basisRemaining - basis
          sharesRemaining := o.sharesRemaining - quantity
          taxExact := exactTax
          assessed := rounded exactTax } }
      (action.distributed = true ∧ acc' = ⟨s, acc.collectible + increment,
          acc.assessed + increment,
          acc.entries ++ [.dividendTaxAssessed increment key]⟩) ∨
        (action.distributed = false ∧ acc' = ⟨{ s with
            corporateActions := s.corporateActions.set o.actionId
              { action with deferredTax := action.deferredTax + increment }
            deferredDividendTax := s.deferredDividendTax + increment
            payables := s.payables + increment }, acc.collectible,
          acc.assessed + increment, acc.entries ++
            [.payables increment (some "dividend_tax_not_yet_distributed"),
              .dividendTaxAssessed increment key]⟩) := by
  simp only [assessOne] at h
  split at h
  · exact Or.inl (pure_ok.mp h).symm
  · next hlot =>
      push Not at hlot
      simp only [bind_ok, refuse_ok, need_ok] at h
      obtain ⟨-, hle, -, -, rate, hrate, action, haction, h⟩ := h
      refine Or.inr ⟨rate, action, taxRate_nonneg hrate, hlot.1, hlot.2,
        not_lt.mp hle, haction, ?_⟩
      split at h
      · next hd => exact Or.inl ⟨hd, (pure_ok.mp h).symm⟩
      · next hd =>
          exact Or.inr ⟨by simpa using hd, (pure_ok.mp h).symm⟩

theorem assessOne_writes {acc acc' : Assessment} {e : String × Obligation}
    (h : assessOne z lotId quantity at_ acc e = .ok acc') (hw : Writes s [] acc.entries acc.state) :
    Writes s [] acc'.entries acc'.state := by
  obtain ⟨key, o⟩ := e
  rcases assessOne_ok h with rfl | ⟨rate, action, -, -, -, -, haction, hcase⟩
  · exact hw
  · rcases hcase with ⟨-, rfl⟩ | ⟨-, rfl⟩
    · refine Writes.trans hw (Writes.quiet (OrdersKept.refl _)
        (ActionsSame.refl _) rfl rfl rfl rfl rfl ?_)
      simp [Entry.silent]
    · refine Writes.trans hw {
        orders := OrdersKept.refl _
        actions := ActionsKept.set haction rfl rfl
        lots := LotsWithin.refl _
        effect := fun _ hent => ⟨hent.of (ActionsSame.set haction rfl rfl)
          (LotsKept.refl _), ?_⟩ }
      exact ⟨by simp [cashTotal, Entry.toCash], by simp [Entry.toPayables],
        by simp [Entry.toReserve], rfl, by simp [Entry.toShares]⟩

theorem assessDisposal_ok {tax : ℚ} {es : List Entry}
    (h : assessDisposal z s lotId quantity at_ = .ok (s', tax, es)) :
    ∃ a fees, walk (assessOne z lotId quantity at_) ⟨s, 0, 0, []⟩
        s.dividendObligations.entries = .ok a ∧
      s' = { a.state with feesAssessed := fees } ∧ tax = a.collectible ∧
      es = a.entries := by
  simp only [assessDisposal, bind_ok] at h
  obtain ⟨a, hwalk, h⟩ := h
  cases pure_ok.mp h
  by_cases h0 : a.assessed = 0
  · exact ⟨a, a.state.feesAssessed, hwalk, if_pos h0, rfl, rfl⟩
  · exact ⟨a, _, hwalk, if_neg h0, rfl, rfl⟩

theorem assessDisposal_writes {tax : ℚ} {es : List Entry}
    (h : assessDisposal z s lotId quantity at_ = .ok (s', tax, es)) :
    Writes s [] es s' ∧ s'.orders = s.orders ∧ s'.stockLots = s.stockLots := by
  obtain ⟨a, fees, hwalk, rfl, -, rfl⟩ := assessDisposal_ok h
  have hkeep := walk_induction (P := fun a : Assessment =>
      Writes s [] a.entries a.state ∧ a.state.orders = s.orders ∧
        a.state.stockLots = s.stockLots) hwalk ⟨Writes.refl s, rfl, rfl⟩
    fun acc e acc' _ ⟨hw, ho, hl⟩ hone => ?_
  · obtain ⟨hw, ho, hl⟩ := hkeep
    refine ⟨?_, ho, hl⟩
    have hq : Writes a.state [] [] { a.state with feesAssessed := fees } :=
      Writes.quiet (OrdersKept.refl _) (ActionsSame.refl _) rfl rfl rfl rfl rfl
        (by simp)
    simpa using hw.trans hq
  · refine ⟨assessOne_writes hone hw, ?_⟩
    obtain ⟨key, o⟩ := e
    rcases assessOne_ok hone with rfl | ⟨rate, action, -, -, -, -, -, hcase⟩
    · exact ⟨ho, hl⟩
    · rcases hcase with ⟨-, rfl⟩ | ⟨-, rfl⟩ <;> exact ⟨ho, hl⟩

end Ahunter.Sim
