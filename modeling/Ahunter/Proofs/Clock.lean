import Ahunter.Proofs.Entitlements
import Ahunter.Proofs.Steps

/-!
# The account's clock

Three fields of the account's state keep its time: what is sealed, when the
last event was and through when it is visible. Only a seal moves them, and it
moves them forward: no operation touches them, and no operation but the two of
a special settlement touches the settlements. So along the log the events'
times do not go back, and no event falls into an interval that is sealed.
-/

namespace Ahunter.Sim

open Ahunter.Lib

variable {spec : AccountSpec} {d : Discipline} {z : Zone} {at_ : Instant}

/-! ## What operations leave alone -/

variable {s s' : AccountState} {es : List Entry}

def AccountState.frame (s : AccountState) : Option Instant × Option Instant ×
    Option Instant × Dict String SettlementItem :=
  (s.sealedThrough, s.lastEventAt, s.visibleAt, s.specialSettlements)

theorem assessDisposal_frame {lotId : String} {quantity : ℤ} {tax : ℚ}
    (h : assessDisposal z s lotId quantity at_ = .ok (s', tax, es)) : s'.frame = s.frame := by
  obtain ⟨a, fees, hwalk, rfl, -⟩ := assessDisposal_ok h
  refine walk_induction (P := fun a : Assessment => a.state.frame = s.frame) hwalk rfl
    fun acc e acc' _ hacc hone => ?_
  obtain ⟨key, o⟩ := e
  rcases assessOne_ok hone with rfl | ⟨rate, action, -, -, -, -, -, ⟨-, rfl⟩ | ⟨-, rfl⟩⟩
  · exact hacc
  · exact hacc
  · exact hacc

theorem disposeLots_frame {pending : ℤ} {claims : List (String × ℤ)} {o : Disposal}
    (h : disposeLots z at_ pending claims s = .ok o) : o.state.frame = s.frame := by
  induction claims generalizing pending s o with
  | nil =>
      cases pure_ok.mp h
      rfl
  | cons x rest ih =>
      obtain ⟨k, reserved⟩ := x
      simp only [disposeLots, bind_ok, need_ok] at h
      obtain ⟨⟨s1, tax, es⟩, hassess, lot, -, h⟩ := h
      have hframe := assessDisposal_frame hassess
      split at h
      · cases pure_ok.mp h
        exact hframe
      · simp only [bind_ok, pure_ok] at h
        obtain ⟨o', hrest, rfl⟩ := h
        exact (ih hrest).trans hframe

theorem fillSide_frame {t : FillTerms} (h : fillSide spec t s = .ok (s', es)) :
    s'.frame = s.frame := by
  simp only [fillSide] at h
  split at h
  · simp only [fillBuy, bind_ok, refuse_ok, pure_ok, Prod.mk.injEq] at h
    obtain ⟨-, -, lots, -, sellable, -, rfl, -⟩ := h
    rfl
  · obtain ⟨s1, order, o, es2, hrealloc, -, hdispose, -, hsettle, -⟩ := fillSell_ok h
    obtain ⟨-, hsame⟩ := reallocateSellFifo_core hrealloc
    have hframe : o.state.frame = s.frame := by
      rw [disposeLots_frame hdispose, hsame]
      rfl
    rcases settleProceeds_ok hsettle with ⟨-, paid, lots, -, -, rfl, -⟩ |
      ⟨-, rfl, -⟩ | ⟨-, lot, -, rfl, -⟩
    · exact hframe
    · exact hframe
    · exact hframe

theorem applyKind_frame {id : String} {item : CorporateItem}
    (h : applyKind spec id item at_ s = .ok (s', es)) : s'.frame = s.frame := by
  simp only [applyKind] at h
  split at h
  · simp only [bind_ok, need_ok, pure_ok, Prod.mk.injEq] at h
    obtain ⟨receivable, -, rfl, -⟩ := h
    rfl
  · simp only [bind_ok, need_ok] at h
    obtain ⟨ratio, -, tradable, -, hwalk⟩ := h
    exact walk_induction (P := fun acc : AccountState × List Entry =>
      acc.1.frame = s.frame) hwalk rfl fun _ _ _ _ hacc hone => by
        obtain ⟨_, _, _, -, -, -, -, rfl⟩ := splitOne_ok hone
        exact hacc
  · simp only [bind_ok, need_ok, refuse_ok] at h
    obtain ⟨_, -, ratio, -, tradable, -, hwalk⟩ := h
    exact walk_induction (P := fun acc : AccountState × List Entry =>
      acc.1.frame = s.frame) hwalk rfl fun _ _ _ _ hacc hone => by
        obtain ⟨_, _, _, rfl, -⟩ := bonusOne_ok hone
        exact hacc
  · cases h

theorem convertOne_frame {terms : SettlementTerms} {acc acc' : Conversion}
    {a : LotConsideration} (h : convertOne spec terms at_ acc a = .ok acc') :
    acc'.state.frame = acc.state.frame := by
  obtain ⟨lot, s1, tax, es1, s2, es2, created, retired, rfl, -, htax, hreplace, -⟩ :=
    convertOne_ok h
  have h1 : s1.frame = acc.state.frame := by
    simp only [treatTax] at htax
    split at htax
    · simp only [bind_ok, refuse_ok, pure_ok, Prod.mk.injEq] at htax
      obtain ⟨-, -, rfl, -⟩ := htax
      rfl
    · exact assessDisposal_frame htax
    · simp only [bind_ok, refuse_ok, pure_ok, Prod.mk.injEq] at htax
      obtain ⟨-, -, obligations, -, rfl, -⟩ := htax
      rfl
  have h2 : s2.frame = s1.frame := by
    rcases replaceLot_ok hreplace with ⟨-, rfl, -⟩ | ⟨-, new, next, rfl, -⟩ <;> rfl
  exact h2.trans h1

theorem conversions_frame {terms : SettlementTerms} {acc acc' : Conversion}
    {as : List LotConsideration} (h : walk (convertOne spec terms at_) acc as = .ok acc') :
    acc'.state.frame = acc.state.frame :=
  walk_induction (P := fun c : Conversion => c.state.frame = acc.state.frame) h rfl
    fun _ _ _ _ hc hone => (convertOne_frame hone).trans hc

def AccountRequest.settles : AccountRequest → Bool
  | .specialSettlement .. | .specialSettlementPay .. => true
  | _ => false

/-- No operation moves the clock, and only settlements change settlements. -/
theorem perform_frame {aid : String} {r : AccountRequest} {o : Outcome}
    (h : perform spec aid r s = .ok o) :
    o.state.sealedThrough = s.sealedThrough ∧ o.state.lastEventAt = s.lastEventAt ∧
      o.state.visibleAt = s.visibleAt ∧
      (r.settles = false → o.state.specialSettlements = s.specialSettlements) := by
  have hall : ∀ {t : AccountState}, t.frame = s.frame →
      t.sealedThrough = s.sealedThrough ∧ t.lastEventAt = s.lastEventAt ∧
        t.visibleAt = s.visibleAt ∧
        (r.settles = false → t.specialSettlements = s.specialSettlements) := by
    intro t ht
    simp only [AccountState.frame, Prod.mk.injEq] at ht
    exact ⟨ht.1, ht.2.1, ht.2.2.1, fun _ => ht.2.2.2⟩
  cases r with
  | reserveBatch orders at_ =>
      obtain ⟨-, hsame, -⟩ := reserveBatch_ok h
      exact hall (by rw [hsame]; rfl)
  | fill id quantity price at_ =>
      obtain ⟨t, s1, es, order, -, hbranch, -, rfl⟩ := fill_ok h
      have hframe := fillSide_frame hbranch
      exact hall hframe
  | cancelRequest id at_ =>
      obtain ⟨order, -, -, rfl⟩ := cancelRequest_ok h
      exact hall rfl
  | release id reason at_ =>
      obtain ⟨order, -, -, -, rfl⟩ := release_ok h
      exact hall rfl
  | checkpoint at_ =>
      cases h
      exact hall rfl
  | settlePayables at_ =>
      obtain ⟨lots, -, rfl⟩ := settlePayables_ok h
      exact hall rfl
  | corporateRegister terms at_ =>
      simp only [perform, bind_ok] at h
      obtain ⟨_, -, h⟩ := h
      obtain ⟨-, item, receivables, obligations, entries, rfl, -⟩ :=
        corporateRegister_ok h
      exact hall rfl
  | corporateApply id at_ =>
      obtain ⟨item, s1, es, item', rfl, -, -, -, -, hkind, -⟩ := corporateApply_ok h
      have hframe := applyKind_frame hkind
      exact hall hframe
  | corporatePay id at_ =>
      obtain ⟨item, receivable, item', receivable', rfl, -⟩ := corporatePay_ok h
      exact hall rfl
  | specialSettlement terms at_ =>
      simp only [perform, bind_ok] at h
      obtain ⟨_, -, h⟩ := h
      obtain ⟨-, c, receivables, item, claim, hwalk, -, -, -, rfl⟩ :=
        specialSettlement_ok h
      have hkept := hall (conversions_frame hwalk)
      exact ⟨hkept.1, hkept.2.1, hkept.2.2.1, fun h => by cases h⟩
  | specialSettlementPay id at_ =>
      obtain ⟨item, rid, receivable, receivable', item', rfl, -⟩ :=
        specialSettlementPay_ok h
      exact ⟨rfl, rfl, rfl, fun h => by cases h⟩

/-! ## The clock goes forward -/

variable {t : AccountState}

structure ClockLater (s t : AccountState) : Prop where
  last : ∀ a ∈ s.lastEventAt, ∃ b ∈ t.lastEventAt, a ≤ b
  visible : ∀ a ∈ s.visibleAt, ∃ b ∈ t.visibleAt, a ≤ b
  seals : ∀ a ∈ s.sealedThrough, ∃ b ∈ t.sealedThrough, a ≤ b

theorem ClockLater.refl (s : AccountState) : ClockLater s s :=
  ⟨fun a h => ⟨a, h, le_rfl⟩, fun a h => ⟨a, h, le_rfl⟩, fun a h => ⟨a, h, le_rfl⟩⟩

theorem ClockLater.trans {u : AccountState} (h : ClockLater s t) (h' : ClockLater t u) :
    ClockLater s u := by
  refine ⟨fun a ha => ?_, fun a ha => ?_, fun a ha => ?_⟩
  · obtain ⟨b, hb, hab⟩ := h.last a ha
    obtain ⟨c, hc, hbc⟩ := h'.last b hb
    exact ⟨c, hc, hab.trans hbc⟩
  · obtain ⟨b, hb, hab⟩ := h.visible a ha
    obtain ⟨c, hc, hbc⟩ := h'.visible b hb
    exact ⟨c, hc, hab.trans hbc⟩
  · obtain ⟨b, hb, hab⟩ := h.seals a ha
    obtain ⟨c, hc, hbc⟩ := h'.seals b hb
    exact ⟨c, hc, hab.trans hbc⟩

/-- A seal over a state whose clock is `s`'s. -/
structure SealedAfter (s t : AccountState) (at_ vis : Instant) : Prop where
  later : ClockLater s t
  last : t.lastEventAt = some at_
  visible : t.visibleAt = some vis
  unsealed : ∀ a ∈ s.sealedThrough, a < at_

theorem prepareState_later {operation : Operation} {o o' : Outcome}
    (h : prepareState spec operation o = .ok o') :
    SealedAfter o.state o'.state o'.at_ o'.visibleAt ∧
      o'.state.sealedThrough = if operation = .other then o.state.sealedThrough
        else some o'.at_ := by
  have hs := prepareState_ok h
  obtain ⟨_, _, -, -, hstate⟩ := hs.state
  have hlast : o'.state.lastEventAt = some o'.at_ := by rw [hstate, hs.at_]
  have hvisible : o'.state.visibleAt = some o'.visibleAt := by rw [hstate]
  have hseals : o'.state.sealedThrough = if operation = .other then
      o.state.sealedThrough else some o'.at_ := by rw [hstate, hs.at_]
  refine ⟨⟨⟨fun a ha => ⟨_, hlast, ?_⟩, fun a ha => ⟨_, hvisible, hs.shown a ha⟩,
    fun a ha => ?_⟩, hlast, hvisible, fun a ha => ?_⟩, hseals⟩
  · rw [hs.at_]
    exact hs.ordered a ha
  · rw [hseals]
    split
    · exact ⟨a, ha, le_rfl⟩
    · refine ⟨_, rfl, ?_⟩
      rw [hs.at_]
      exact (hs.unsealed a ha).le
  · rw [hs.at_]
    exact hs.unsealed a ha

theorem SealedAfter.of_same {at_ vis : Instant} (h : SealedAfter s' t at_ vis)
    (hseals : s'.sealedThrough = s.sealedThrough) (hlast : s'.lastEventAt = s.lastEventAt)
    (hvisible : s'.visibleAt = s.visibleAt) :
    SealedAfter s t at_ vis where
  later := ⟨hlast ▸ h.later.last, hvisible ▸ h.later.visible, hseals ▸ h.later.seals⟩
  last := h.last
  visible := h.visible
  unsealed := hseals ▸ h.unsealed

theorem SealedAfter.before {at_ vis : Instant} (h : SealedAfter s' t at_ vis)
    (hs : ClockLater s s') :
    SealedAfter s t at_ vis where
  later := hs.trans h.later
  last := h.last
  visible := h.visible
  unsealed := fun a ha => by
    obtain ⟨b, hb, hab⟩ := hs.seals a ha
    exact lt_of_le_of_lt hab (h.unsealed b hb)

theorem perform_sealedAfter {aid : String} {r : AccountRequest} {operation : Operation}
    {o o' : Outcome} (hrun : perform spec aid r s = .ok o)
    (hseal : prepareState spec operation o = .ok o') :
    SealedAfter s o'.state o'.at_ o'.visibleAt := by
  obtain ⟨hseals, hlast, hvisible, -⟩ := perform_frame hrun
  exact (prepareState_later hseal).1.of_same hseals hlast hvisible

theorem LedgerStep.clock {as : List Act} (h : LedgerStep spec d s as es t) : ClockLater s t := by
  cases h with
  | account hcheck hrun hseal => exact (perform_sealedAfter hrun hseal).later
  | moved horder hheld hmove hrun hseal =>
      obtain ⟨order, -, rfl⟩ := orderMarketState_ok hrun
      exact ((prepareState_later hseal).1.of_same (s := s) rfl rfl rfl).later
  | marked horder hstatus => exact ⟨(ClockLater.refl s).last, (ClockLater.refl s).visible,
      (ClockLater.refl s).seals⟩
  | resealed hseal => exact (prepareState_later hseal).1.later

theorem LedgerRun.clock {as : List Act} (h : LedgerRun spec d s as es t) : ClockLater s t :=
  h.invariant (P := ClockLater s) (ClockLater.refl s) fun _ _ _ _ ha hone =>
    ha.trans hone.clock

theorem SealedBy.after {ev : AccountEvent} (h : SealedBy spec d s ev) :
    SealedAfter s ev.state ev.simulatedAt ev.visibleAt := by
  cases h with
  | performed hrequest hrun hseal => exact perform_sealedAfter hrun hseal
  | staged hrequest hrun hseal =>
      exact ((prepareState_later hseal).1).before hrun.clock

/-! ## The log in time -/

def AccountEvent.seals (e : AccountEvent) : Bool :=
  match e.request with
  | .opening | .account (.checkpoint _) => true
  | _ => false

structure Follows (a b : AccountEvent) : Prop where
  later : ClockLater a.state b.state
  simulated : a.simulatedAt ≤ b.simulatedAt
  visible : a.visibleAt ≤ b.visibleAt
  unsealed : ∀ t ∈ a.state.sealedThrough, t < b.simulatedAt

structure Timed (e : AccountEvent) : Prop where
  last : e.state.lastEventAt = some e.simulatedAt
  visible : e.state.visibleAt = some e.visibleAt
  seals : e.seals = true → e.state.sealedThrough = some e.simulatedAt

structure LogOrdered (w : World) : Prop where
  timed : ∀ e ∈ w.events, Timed e
  ordered : w.events.Pairwise Follows
  projected : w.account = w.events.getLast?.map AccountEvent.state

theorem Follows.of_sealedAfter {a b : AccountEvent} (ha : Timed a)
    (h : SealedAfter a.state b.state b.simulatedAt b.visibleAt) : Follows a b := by
  obtain ⟨t, ht, hle⟩ := h.later.last _ ha.last
  obtain ⟨v, hv, hvle⟩ := h.later.visible _ ha.visible
  rw [h.last] at ht
  rw [h.visible] at hv
  cases ht
  cases hv
  exact ⟨h.later, hle, hvle, h.unsealed⟩

variable {w w' : World}

theorem LogOrdered.append {ev : AccountEvent} (h : LogOrdered w)
    (hs : w.account = some s) (hafter : SealedAfter s ev.state ev.simulatedAt ev.visibleAt)
    (hseals : ev.seals = true → ev.state.sealedThrough = some ev.simulatedAt)
    (haccount : w'.account = some ev.state) (hevents : w'.events = w.events ++ [ev]) :
    LogOrdered w' := by
  have hlast := h.projected
  rw [hs] at hlast
  obtain ⟨e, he, rfl⟩ := Option.map_eq_some_iff.mp hlast.symm
  obtain ⟨pre, hpre⟩ := List.getLast?_eq_some_iff.mp he
  refine ⟨fun f hf => ?_, ?_, by rw [haccount, hevents]; simp⟩
  · rw [hevents] at hf
    rcases List.mem_append.mp hf with hf | hf
    · exact h.timed f hf
    · rw [List.mem_singleton.mp hf]
      exact ⟨hafter.last, hafter.visible, hseals⟩
  · rw [hevents, List.pairwise_append]
    refine ⟨h.ordered, List.pairwise_singleton _ _, fun f hf g hg => ?_⟩
    rw [List.mem_singleton.mp hg]
    refine Follows.of_sealedAfter (h.timed f hf) (hafter.before ?_)
    have hordered := h.ordered
    rw [hpre] at hf hordered
    rcases List.mem_append.mp hf with hf | hf
    · exact ((List.pairwise_append.mp hordered).2.2 f hf e
        (List.mem_singleton.mpr rfl)).later
    · rw [List.mem_singleton.mp hf]
      exact ClockLater.refl _

theorem step_logOrdered {c : Command} (h : step spec w c = .ok w')
    (hw : LogOrdered w) : LogOrdered w' := by
  cases step_account h with
  | none haccount hevents =>
      exact ⟨by rw [hevents]; exact hw.timed, by rw [hevents]; exact hw.ordered,
        by rw [haccount, hevents]; exact hw.projected⟩
  | @opened o o' ev hnone hinit hseal haccount hevents hstate hentries hkeys hrequest
      hat hvisible =>
      have hempty : w.events = [] := by
        have := hw.projected
        rw [hnone] at this
        simpa using this
      obtain ⟨hafter, hsealed⟩ := prepareState_later hseal
      rw [hempty, List.nil_append] at hevents
      refine ⟨fun e he => ?_, ?_, by rw [haccount, hevents]; rfl⟩
      · rw [hevents, List.mem_singleton] at he
        rw [he]
        refine ⟨?_, ?_, fun _ => ?_⟩
        · rw [hstate, hafter.last, hat]
        · rw [hstate, hafter.visible, hvisible]
        · rw [hstate, hsealed, if_neg (by simp), hat]
      · rw [hevents]
        exact List.pairwise_singleton _ _
  | @event s ev acts hs haccount hevents hkeys hrun hsealed =>
      refine hw.append hs hsealed.after (fun hseals => ?_) haccount hevents
      cases hsealed with
      | @performed r o hrequest hrun hseal =>
          have hcheckpoint : r.operation = .checkpoint := by
            rw [AccountEvent.seals, hrequest] at hseals
            cases r <;> simp_all [AccountRequest.operation]
          rw [(prepareState_later hseal).2, hcheckpoint]
          rfl
      | staged hrequest hrun hseal =>
          obtain ⟨hopening, haccount⟩ := hrequest
          unfold AccountEvent.seals at hseals
          split at hseals
          · next hr => exact absurd hr hopening
          · next hr => exact absurd hr (haccount _)
          · cases hseals

theorem LogOrdered.start : LogOrdered World.start :=
  ⟨by simp [World.start], List.Pairwise.nil, rfl⟩

theorem reachable_logOrdered {w : World} (h : Reachable spec w) : LogOrdered w :=
  h.invariant .start fun _ _ _ _ hw hstep _ => step_logOrdered hstep hw

theorem step_events {c : Command} (h : step spec w c = .ok w') : w.events <+: w'.events := by
  cases step_account h with
  | none haccount hevents => exact hevents ▸ List.prefix_rfl
  | opened hnone hinit hseal haccount hevents => exact ⟨_, hevents.symm⟩
  | event hs haccount hevents => exact ⟨_, hevents.symm⟩

end Ahunter.Sim
