import Ahunter.Proofs.Consideration

/-!
# The reserve covers the tax

The band of a holding only moves forward as the day of disposal does, since a
later day is inside fewer bands. The reserve rate is the highest of the bands
from today's on, so it covers every later rate and only falls. Every seal
renews the reserves at the day it seals, so what is kept for an obligation
covers what a later disposal of all its shares assesses, but for the one cent
that two roundings can differ from one.
-/

namespace Ahunter.Sim

open Ahunter.Lib

variable {spec : AccountSpec} {z : Zone} {at_ : Instant}

/-! ## Bands -/

variable {acquiredOn : Date}

theorem TaxBand.covers_earlier {b : TaxBand} {early late : Date} (hdates : early ≤ late)
    (h : b.covers acquiredOn late = true) : b.covers acquiredOn early = true := by
  unfold TaxBand.covers at h ⊢
  split
  next => rfl
  next months hmonths =>
    rw [hmonths] at h
    exact decide_eq_true (le_trans hdates (of_decide_eq_true h))

theorem bandIndex_mono (bands : List TaxBand) (acquiredOn : Date) {early late : Date}
    (hdates : early ≤ late) :
    bands.findIdx (fun b => b.covers acquiredOn early) ≤
      bands.findIdx fun b => b.covers acquiredOn late := by
  by_contra hless
  rw [not_le] at hless
  have hlength := lt_of_lt_of_le hless List.findIdx_le_length
  have hlate : (bands.get ⟨bands.findIdx fun b => b.covers acquiredOn late, hlength⟩).covers
      acquiredOn late = true :=
    List.findIdx_getElem (p := fun b : TaxBand => b.covers acquiredOn late) (w := hlength)
  have hearly : (bands.get ⟨bands.findIdx fun b => b.covers acquiredOn late, hlength⟩).covers
      acquiredOn early = false :=
    List.not_of_lt_findIdx hless
  rw [TaxBand.covers_earlier hdates hlate] at hearly
  cases hearly

theorem DividendTaxPolicy.index_lt (p : DividendTaxPolicy) (acquiredOn day : Date) :
    p.bands.findIdx (fun b => b.covers acquiredOn day) < p.bands.length := by
  obtain ⟨b, hlast, hnone⟩ := Option.map_eq_some_iff.mp p.unlimited
  refine List.findIdx_lt_length_of_exists ⟨b, List.mem_of_getLast? hlast, ?_⟩
  rw [TaxBand.covers, hnone]

theorem DividendTaxPolicy.rate_of_held (p : DividendTaxPolicy) {day : Date} (h : acquiredOn ≤ day) :
    ∃ band, p.bands[p.bands.findIdx fun b => b.covers acquiredOn day]? = some band ∧
      p.rate acquiredOn day = .ok band.rate := by
  have hlt := p.index_lt acquiredOn day
  have hband := List.getElem?_eq_getElem hlt
  refine ⟨_, hband, ?_⟩
  simp only [rate, bandIndex, refuse, if_neg (not_lt.mpr h), bind_ok, need_ok, pure_ok]
  exact ⟨_, ⟨(), trivial, rfl⟩, _, hband, rfl⟩

def highestRate (bands : List TaxBand) : ℚ := bands.foldl (fun m b => max m b.rate) 0

theorem le_foldl_max (bands : List TaxBand) (m : ℚ) :
    m ≤ bands.foldl (fun m b => max m b.rate) m := by
  induction bands generalizing m with
  | nil => exact le_rfl
  | cons b bands ih => exact (le_max_left m b.rate).trans (ih _)

theorem foldl_max_le {bands : List TaxBand} {m c : ℚ} (hm : m ≤ c)
    (h : ∀ b ∈ bands, b.rate ≤ c) : bands.foldl (fun m b => max m b.rate) m ≤ c := by
  induction bands generalizing m with
  | nil => exact hm
  | cons b bands ih =>
      exact ih (max_le hm (h b List.mem_cons_self)) fun x hx => h x (List.mem_cons_of_mem _ hx)

theorem le_highestRate {bands : List TaxBand} {b : TaxBand} (h : b ∈ bands) :
    b.rate ≤ highestRate bands := by
  obtain ⟨before, after, rfl⟩ := List.append_of_mem h
  rw [highestRate, List.foldl_append, List.foldl_cons]
  exact (le_max_right _ _).trans (le_foldl_max after _)

theorem highestRate_nonneg (bands : List TaxBand) : 0 ≤ highestRate bands :=
  le_foldl_max bands 0

theorem highestRate_mono {few many : List TaxBand} (h : few ⊆ many) :
    highestRate few ≤ highestRate many :=
  foldl_max_le (highestRate_nonneg many) fun _ hb => le_highestRate (h hb)

theorem DividendTaxPolicy.reserveRate_of_held (p : DividendTaxPolicy) {day : Date}
    (h : acquiredOn ≤ day) :
    p.reserveRate acquiredOn day = .ok (highestRate
      (p.bands.drop (p.bands.findIdx fun b => b.covers acquiredOn day))) := by
  simp only [reserveRate, bandIndex, refuse, if_neg (not_lt.mpr h)]
  rfl

theorem reserveRate_covers (p : DividendTaxPolicy) {asOf day : Date} (hheld : acquiredOn ≤ asOf)
    (hlater : asOf ≤ day) :
    ∃ reserve rate later, p.reserveRate acquiredOn asOf = .ok reserve ∧
      p.rate acquiredOn day = .ok rate ∧ p.reserveRate acquiredOn day = .ok later ∧
      rate ≤ reserve ∧ later ≤ reserve := by
  obtain ⟨band, hband, hrate⟩ := p.rate_of_held (hheld.trans hlater)
  have hindex := bandIndex_mono p.bands acquiredOn hlater
  obtain ⟨more, hmore⟩ := Nat.exists_eq_add_of_le hindex
  rw [hmore] at hband
  refine ⟨_, _, _, p.reserveRate_of_held hheld, hrate,
    p.reserveRate_of_held (hheld.trans hlater), ?_, ?_⟩
  · exact le_highestRate (List.mem_of_getElem? (List.getElem?_drop.trans hband))
  · refine highestRate_mono fun b hb => ?_
    rw [hmore, ← List.drop_drop] at hb
    exact List.mem_of_mem_drop hb

/-! ## Rounding apart -/

theorem halfUp_near (x : ℚ) : |halfUp x - x| ≤ 1 / 2 := by
  unfold halfUp
  rw [abs_le]
  split
  next =>
    have hle := Int.floor_le (x + 1 / 2)
    have hlt := Int.lt_floor_add_one (x + 1 / 2)
    constructor
    · linarith
    · linarith
  next =>
    have hle := Int.floor_le (-x + 1 / 2)
    have hlt := Int.lt_floor_add_one (-x + 1 / 2)
    push_cast
    constructor
    · linarith
    · linarith

theorem halfUp_add_le (x y : ℚ) : halfUp (x + y) ≤ halfUp x + halfUp y + 1 := by
  have hx := abs_le.mp (halfUp_near x)
  have hy := abs_le.mp (halfUp_near y)
  have hsum := abs_le.mp (halfUp_near (x + y))
  have hlt : (halfUp (x + y) : ℚ) < halfUp x + halfUp y + 2 := by linarith
  have hint : halfUp (x + y) < halfUp x + halfUp y + 2 := by exact_mod_cast hlt
  omega

theorem rounded_add_le_cent (x y : ℚ) : rounded (x + y) ≤ rounded x + rounded y + cent := by
  have hcents : (halfUp (x / cent + y / cent) : ℚ) ≤
      halfUp (x / cent) + halfUp (y / cent) + 1 := by
    exact_mod_cast halfUp_add_le (x / cent) (y / cent)
  have hscaled := mul_le_mul_of_nonneg_right hcents cent_pos.le
  rw [← add_div] at hscaled
  show halfUp ((x + y) / cent) * cent ≤ _
  refine hscaled.trans (le_of_eq ?_)
  rw [rounded, rounded, roundTo, roundTo]
  ring

/-! ## Renewed reserves -/

def ReservedOn (day : Date) (o : Obligation) : Prop :=
  o.acquiredOn ≤ day ∧ ∃ rate, o.policy.reserveRate o.acquiredOn day = .ok rate ∧
    o.reserved = rounded (o.basisRemaining * rate)

def ReservesRenewed (z : Zone) (s : AccountState) : Prop :=
  ∃ last, s.lastEventAt = some last ∧
    ∀ k o, s.dividendObligations.get? k = some o → ReservedOn (z.date last) o

variable {o : Obligation}

theorem refreshOne_reserved {acc acc' : Dict String Obligation × ℚ} {k : String}
    (h : refreshOne z at_ acc (k, o) = .ok acc') :
    ∃ o', ReservedOn (z.date at_) o' ∧ acc'.1 = acc.1.set k o' := by
  simp only [refreshOne, bind_ok, refuse_ok, pure_ok] at h
  obtain ⟨-, -, rate, hrate, rfl⟩ := h
  have hheld : o.acquiredOn ≤ z.date at_ := by
    simp only [DividendTaxPolicy.reserveRate, DividendTaxPolicy.bandIndex, bind_ok,
      refuse_ok] at hrate
    obtain ⟨-, ⟨-, hle, -⟩, -⟩ := hrate
    exact not_lt.mp hle
  exact ⟨{ o with reserved := rounded (o.basisRemaining * rate) },
    ⟨hheld, rate, hrate, rfl⟩, rfl⟩

theorem prepareState_renewed {operation : Operation} {o o' : Outcome}
    (h : prepareState spec operation o = .ok o') : ReservesRenewed spec.zone o'.state := by
  simp only [prepareState, bind_ok, refuse_ok, pure_ok] at h
  obtain ⟨-, -, -, -, -, -, ⟨s', c⟩, hrefresh, u, -, rfl⟩ := h
  simp only [refreshTaxReserves, bind_ok] at hrefresh
  obtain ⟨⟨obligations, total⟩, hwalk, hs'⟩ := hrefresh
  cases pure_ok.mp hs'
  refine ⟨o.at_, rfl, fun k ob hob => ?_⟩
  have hchanges : EachChanges (fun _ o' => ReservedOn (spec.zone.date o.at_) o')
      o.state.dividendObligations obligations :=
    EachChanges.of_walk (g := fun acc : Dict String Obligation × ℚ => acc.1) hwalk
      fun c j p c' _ hone => Or.inr (refreshOne_reserved hone)
  obtain ⟨-, -, hreserved⟩ := hchanges.back hob
  exact hreserved

theorem LedgerStep.renewed {d : Discipline} {s t : AccountState} {as : List Act}
    {es : List Entry} (h : LedgerStep spec d s as es t)
    (hs : ReservesRenewed spec.zone s) : ReservesRenewed spec.zone t := by
  cases h with
  | account hcheck hrun hseal => exact prepareState_renewed hseal
  | moved horder hheld hmove hrun hseal => exact prepareState_renewed hseal
  | marked horder hstatus => exact hs
  | resealed hseal => exact prepareState_renewed hseal

theorem AccountReachable.renewed {t : AccountState} (h : AccountReachable spec t) :
    ReservesRenewed spec.zone t :=
  h.invariant (fun _ _ _ hseal => prepareState_renewed hseal)
    fun _ _ _ _ ha hone => hone.renewed ha

/-! ## What a disposal still assesses -/

variable {actions : Dict String CorporateItem}

theorem ReservedOn.covers
    {asOf day : Date} (h : ReservedOn asOf o) (hsound : ObligationSound actions o)
    (hlater : asOf ≤ day) {rate : ℚ} (hrate : o.policy.rate o.acquiredOn day = .ok rate) :
    rounded (o.taxExact + o.basisRemaining * rate) - o.assessed ≤ o.reserved + cent := by
  obtain ⟨hheld, reserve, hreserve, hreserved⟩ := h
  obtain ⟨r, r', -, hr, hr', -, hle, -⟩ := reserveRate_covers o.policy hheld hlater
  cases hreserve.symm.trans hr
  cases hrate.symm.trans hr'
  have hbasis : rounded (o.basisRemaining * rate) ≤ rounded (o.basisRemaining * reserve) :=
    rounded_mono (mul_le_mul_of_nonneg_left hle hsound.basis)
  have hapart := rounded_add_le_cent o.taxExact (o.basisRemaining * rate)
  rw [hreserved, hsound.assessed]
  linarith

theorem ReservedOn.disposal
    {asOf : Date} (h : ReservedOn asOf o) (hsound : ObligationSound actions o)
    (hlater : asOf ≤ z.date at_) {u u' : AccountState} {key : String} {tax : ℚ}
    {es : List Entry} (ho : u.dividendObligations.get? key = some o)
    (hdisposal : assessDisposal z u o.lotId o.sharesRemaining at_ = .ok (u', tax, es)) :
    ∃ o', u'.dividendObligations.get? key = some o' ∧
      o'.assessed - o.assessed ≤ o.reserved + cent := by
  obtain ⟨o', ho', hassess⟩ := (assessDisposal_obligations hdisposal).2 key o ho
  refine ⟨o', ho', ?_⟩
  by_cases hshares : 0 < o.sharesRemaining
  · obtain ⟨rate, hrate, rfl⟩ := hassess.complete rfl rfl hshares
    exact h.covers hsound hlater hrate
  · rw [Assesses, if_neg fun hboth => hshares hboth.2] at hassess
    obtain ⟨-, rate, hrate, hreserved⟩ := h
    have hnonneg : 0 ≤ o.reserved := by
      rw [hreserved]
      exact rounded_nonneg (mul_nonneg hsound.basis (reserveRate_nonneg hrate))
    rw [hassess, sub_self]
    exact add_nonneg hnonneg cent_pos.le

/-- The reserve rate covers every later rate and does not rise; and in every
reachable state what is reserved for an obligation covers, up to a cent, what
disposing of all its shares at any later time assesses. -/
theorem reserve_covers_tax :
    (∀ (p : DividendTaxPolicy) (acquiredOn asOf day : Date),
      acquiredOn ≤ asOf → asOf ≤ day →
        ∃ reserve rate later, p.reserveRate acquiredOn asOf = .ok reserve ∧
          p.rate acquiredOn day = .ok rate ∧ p.reserveRate acquiredOn day = .ok later ∧
          rate ≤ reserve ∧ later ≤ reserve) ∧
      ∀ (spec : AccountSpec) (t : AccountState), AccountReachable spec t →
        ∀ key o, t.dividendObligations.get? key = some o →
        ∀ u at_, u.dividendObligations.get? key = some o →
          (∀ last ∈ t.lastEventAt, last ≤ at_) →
        ∀ u' tax es, assessDisposal spec.zone u o.lotId o.sharesRemaining at_
            = .ok (u', tax, es) →
          ∃ o', u'.dividendObligations.get? key = some o' ∧
            o'.assessed - o.assessed ≤ o.reserved + cent := by
  refine ⟨fun p _ _ _ => reserveRate_covers p, fun spec t ht key o ho u at_ hu hlater => ?_⟩
  intro u' tax es hdisposal
  obtain ⟨last, hlast, hrenewed⟩ := ht.renewed
  have hsound := ht.funded.sound.obligations key o ho
  exact (hrenewed key o ho).disposal hsound (Zone.date_mono _ (hlater last hlast)) hu hdisposal

theorem reserve_covers_tax_sample : ∃ t o, AccountReachable sampleSpec t ∧
    t.dividendObligations.get? "dividend:initial:SH600000" = some o ∧
    o.sharesRemaining = 150 ∧ ∃ u' tax es o',
      assessDisposal sampleSpec.zone t o.lotId o.sharesRemaining (sampleAt 1 600)
        = .ok (u', tax, es) ∧
      u'.dividendObligations.get? "dividend:initial:SH600000" = some o' ∧
      o'.assessed - o.assessed ≤ o.reserved + cent := by
  obtain ⟨w, hw, htest⟩ := ReachableIf.of_check sampleSpec (fun _ _ _ => True) taxedHolding
    (fun w => w.account.any fun t =>
      (t.dividendObligations.get? "dividend:initial:SH600000").any fun o =>
        decide (o.sharesRemaining = 150 ∧ ∀ last ∈ t.lastEventAt, last ≤ sampleAt 1 600) &&
          (assessDisposal sampleSpec.zone t o.lotId o.sharesRemaining
            (sampleAt 1 600)).toOption.isSome)
    (by decide +kernel)
  obtain ⟨t, ht, htest⟩ := (Option.any_eq_true _ _).mp htest
  obtain ⟨o, ho, htest⟩ := (Option.any_eq_true _ _).mp htest
  obtain ⟨hfacts, hassessed⟩ := (Bool.and_eq_true_iff).mp htest
  obtain ⟨hshares, hlater⟩ := of_decide_eq_true hfacts
  have hreach : AccountReachable sampleSpec t := ⟨w, t, [], [], hw, ht, .refl⟩
  cases hrun : assessDisposal sampleSpec.zone t o.lotId o.sharesRemaining
      (sampleAt 1 600) with
  | error e =>
      rw [hrun] at hassessed
      cases hassessed
  | ok r =>
      obtain ⟨u', tax, es⟩ := r
      obtain ⟨o', ho', hle⟩ := reserve_covers_tax.2 sampleSpec t hreach _ o ho t
        (sampleAt 1 600) ho hlater u' tax es hrun
      exact ⟨t, o, hreach, ho, hshares, u', tax, es, o', hrun, ho', hle⟩

end Ahunter.Sim
