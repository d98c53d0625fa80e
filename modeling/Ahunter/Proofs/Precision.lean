import Ahunter.Proofs.AcceptBook

/-!
# Executable pieces

The two executors round what they fill down to the precision of the order's
market rule, so as long as nobody else fills an order, what is filled of it is
always a whole number of pieces. Together with the precision that acceptance asks
of a quantity, so is what remains of every order in the acceptance book.
-/

namespace Ahunter.Sim

open Ahunter.Lib

variable {spec : AccountSpec} {d : Discipline} {at_ : Instant}

/-! ## What a step fills -/

variable {s : AccountState}

def GrownFrom (d : Discipline) (orders : Dict String Order) (id : String) (o' : Order) :
    Prop :=
  (orders.get? id = none ∧ o'.filledQuantity = 0) ∨
    ∃ o, orders.get? id = some o ∧ o'.toReservation = o.toReservation ∧
      (o'.filledQuantity = o.filledQuantity ∨
        ∃ q p t, d.act (.fill id q p t) ∧ o'.filledQuantity = o.filledQuantity + q)

theorem StatusMove.filled_eq {id : String} {o o' : Order} (h : StatusMove d id o o')
    (hd : ∀ q p t, ¬ d.act (.fill id q p t)) : o'.filledQuantity = o.filledQuantity := by
  cases h with
  | kept hstatus hfilled => exact hfilled
  | filled hact => exact absurd hact (hd _ _ _)
  | requested hact hopen hstatus hfilled => exact hfilled
  | released hact hheld hreason hstatus hfilled => exact hfilled
  | moved hmove hheld hfilled => exact hfilled
  | sent hsend hstatus hfilled => exact hfilled

def Discipline.just (r : AccountRequest) : Discipline :=
  ⟨(· = r), fun _ _ => True, fun _ => True⟩

theorem perform_filled {aid : String} {r : AccountRequest} {out : Outcome}
    (hcheck : r.check = .ok ()) (hact : d.act r) (h : perform spec aid r s = .ok out)
    (hs : Sound s) {j : String} {o' : Order} (ho' : out.state.orders.get? j = some o') :
    GrownFrom d s.orders j o' := by
  cases ho : s.orders.get? j with
  | none =>
      refine Or.inl ⟨ho, ?_⟩
      by_cases hj : j ∈ r.reserves
      · cases r with
        | reserveBatch orders t =>
            obtain ⟨hres, -⟩ := reserveBatch_ok h
            obtain ⟨q, hq, rfl⟩ := List.mem_map.mp hj
            obtain ⟨cash, stock, hstored⟩ := hres.stored q hq
            cases hstored.symm.trans ho'
            rfl
        | _ => cases hj
      · rw [perform_absent h hs ho hj] at ho'
        cases ho'
  | some o =>
      refine Or.inr ⟨o, ho, ?_⟩
      by_cases hfill : ∃ q p t, r = .fill j q p t
      · obtain ⟨q, p, t, rfl⟩ := hfill
        obtain ⟨p', hp', hres, -, hmove⟩ := (fill_orders h j).1 o ho
        cases hp'.symm.trans ho'
        rw [if_pos rfl] at hmove
        exact ⟨hres, Or.inr ⟨q, p, t, hact, hmove.2.1⟩⟩
      · obtain ⟨p', hp', hevolves⟩ := perform_evolves (d := .just r) hcheck rfl h hs ho
        cases hp'.symm.trans ho'
        exact ⟨hevolves.reservation, Or.inl (hevolves.move.filled_eq fun q p t heq =>
          hfill ⟨q, p, t, heq.symm⟩)⟩

theorem grownFrom_set {id j : String} {o p o' : Order} (ho : s.orders.get? id = some o)
    (ho' : (s.setOrder id p).orders.get? j = some o') (hres : p.toReservation = o.toReservation)
    (hfilled : p.filledQuantity = o.filledQuantity) : GrownFrom d s.orders j o' := by
  rw [AccountState.setOrder_orders, Dict.get?_set] at ho'
  split at ho'
  · next hj =>
      subst hj
      obtain rfl := Option.some_inj.mp ho'
      exact Or.inr ⟨o, ho, hres, Or.inl hfilled⟩
  · exact Or.inr ⟨o', ho', rfl, Or.inl rfl⟩

theorem LedgerStep.filled {t : AccountState} {as : List Act} {es : List Entry}
    (h : LedgerStep spec d s as es t) (hs : Sound s) {j : String} {o' : Order}
    (ho' : t.orders.get? j = some o') : GrownFrom d s.orders j o' := by
  cases h with
  | account hcheck hrun hseal hact =>
      rw [prepareState_orders hseal] at ho'
      exact perform_filled hcheck hact hrun hs ho'
  | moved horder hheld hmove hrun hseal =>
      obtain ⟨order, horder', rfl⟩ := orderMarketState_ok hrun
      rw [prepareState_orders hseal] at ho'
      exact grownFrom_set horder' ho' rfl rfl
  | marked horder hstatus => exact grownFrom_set horder ho' rfl rfl
  | resealed hseal =>
      rw [prepareState_orders hseal] at ho'
      exact Or.inr ⟨o', ho', rfl, Or.inl rfl⟩

/-! ## Pieces -/

def InPieces (orders : Dict String Order) : Prop :=
  ∀ id o, orders.get? id = some o → o.filledQuantity % o.marketRule.fillIncrement = 0

def Discipline.pieces (orders : Dict String Order) : Discipline where
  act := fun r => ∀ id q p t, r = .fill id q p t →
    ∃ o, orders.get? id = some o ∧ q % o.marketRule.fillIncrement = 0
  move := fun _ _ => True
  send := fun _ => True

theorem LedgerRun.inPieces {t : AccountState} {as : List Act} {es : List Entry}
    (h : LedgerRun spec (.pieces s.orders) s as es t) (hf : Funded spec.zone s)
    (hs : InPieces s.orders) : InPieces t.orders := by
  refine (h.invariant (P := fun u => Funded spec.zone u ∧ Persists s.orders u.orders ∧
    InPieces u.orders) ⟨hf, fun _ o ho => ⟨o, ho, rfl⟩, hs⟩ ?_).2.2
  rintro a b acts entries ⟨ha, hpersists, hin⟩ hone
  refine ⟨hone.funded ha, fun id o ho => ?_, fun id o' ho' => ?_⟩
  · obtain ⟨p, hp, hsame⟩ := hpersists id o ho
    obtain ⟨p', hp', he⟩ := hone.evolves ha.sound hp
    exact ⟨p', hp', he.reservation.trans hsame⟩
  · rcases hone.filled ha.sound ho' with ⟨-, hzero⟩ | ⟨o, ho, hres, hfilled⟩
    · rw [hzero]
      exact Int.zero_emod _
    · have hold := hin id o ho
      rw [hres]
      rcases hfilled with hsame | ⟨q, p, t, hact, hmore⟩
      · rw [hsame]
        exact hold
      · obtain ⟨o0, ho0, hq⟩ := hact id q p t rfl
        obtain ⟨p0, hp0, hsame⟩ := hpersists id o0 ho0
        obtain rfl := Option.some_inj.mp (hp0.symm.trans ho)
        rw [← hsame] at hq
        rw [hmore]
        exact Int.emod_eq_zero_of_dvd (dvd_add (Int.dvd_of_emod_eq_zero hold)
          (Int.dvd_of_emod_eq_zero hq))

def Command.fillsDirectly : Command → Bool
  | .account _ (.fill ..) => true
  | _ => false

def EngineFills (_ : World) (c : Command) (_ : World) : Prop := c.fillsDirectly = false

instance (w : World) (c : Command) (w' : World) : Decidable (EngineFills w c w') :=
  inferInstanceAs (Decidable (_ = _))

theorem step_pieces {w w' : World} {c : Command} (h : step spec w c = .ok w')
    (hc : EngineFills w c w') (hs : w.account = some s) :
    AccountChange spec (.pieces s.orders) w w' := by
  have hother : ∀ r : AccountRequest, (∀ id q p t, r ≠ .fill id q p t) →
      (Discipline.pieces s.orders).act r := fun r hr id q p t heq => absurd heq (hr id q p t)
  have hfills : ∀ s', w.account = some s' → (Discipline.pieces s.orders).Fills s'.orders := by
    intro s' hs' id o ho q p t hq j q' p' t' heq
    obtain rfl := Option.some_inj.mp (hs.symm.trans hs')
    cases heq
    exact ⟨o, ho, hq⟩
  cases c with
  | opening aid running =>
      rcases initializeAccount_ok h with rfl | ⟨hnone, -⟩
      · exact .none rfl rfl
      · rw [hs] at hnone
        cases hnone
  | account aid r =>
      rcases direct_ok h with rfl | ⟨s', o, hs', -, hcheck, hrun, hcommit⟩
      · exact .none rfl rfl
      · obtain ⟨o', hseal, rfl⟩ := World.commit_ok hcommit
        have hr : ∀ id q p t, r ≠ .fill id q p t := by
          rintro id q p t rfl
          cases hc
        refine .event hs' rfl rfl ?_ (LedgerRun.single (LedgerStep.account hcheck hrun hseal
          (hother r hr))) (.performed rfl hrun hseal) rfl
        simp [AccountEvent.lotKeys, StageRequest.lotKeys]
  | acceptBatch aid orders proofs t => exact acceptBatch_change (hother _ fun _ _ _ _ h => by cases h) h
  | advanceMinute aid e => exact advanceMinute_change hfills h
  | queueAdvance aid e throughAt throughSequence => exact queueAdvance_change hfills h
  | submit aid session plan proofs =>
      exact submit_change (fun _ _ => hother _ fun _ _ _ _ h => by cases h) (fun _ _ => hother _ fun _ _ _ _ h => by cases h)
        (fun _ _ => trivial) h
  | advance aid t proofs =>
      exact advance_change (fun _ _ _ hrun => advanceWalk_run (fun _ _ _ => hother _ fun _ _ _ _ h => by cases h)
        (fun _ _ => hother _ fun _ _ _ _ h => by cases h) (fun _ _ => trivial) (fun _ => trivial) hrun) h
  | expireDay aid day cursors t rules =>
      exact expireDay_change (fun _ _ _ _ => hother _ fun _ _ _ _ h => by cases h) h

theorem engine_inPieces {w : World} (h : ReachableIf spec EngineFills w) (hs : w.account = some s) :
    InPieces s.orders := by
  refine h.invariant (P := fun w => ∀ s, w.account = some s → InPieces s.orders) nofun
    (fun w c w' hr hw hstep hc t ht => ?_) s hs
  cases hs : w.account with
  | none =>
      cases step_account hstep with
      | none haccount =>
          rw [haccount, hs] at ht
          cases ht
      | @opened o o' ev hnone hinit hseal haccount hevents hstate =>
          obtain rfl := Option.some_inj.mp (haccount.symm.trans ht)
          intro id p hp
          rw [hstate, prepareState_orders hseal, opening_orders hinit] at hp
          cases hp
      | event hs' =>
          rw [hs] at hs'
          cases hs'
  | some s =>
      cases step_pieces hstep hc hs with
      | none haccount =>
          rw [haccount, hs] at ht
          cases ht
          exact hw _ hs
      | opened hnone =>
          rw [hs] at hnone
          cases hnone
      | event hs' haccount hevents hkeys hrun =>
          obtain rfl := Option.some_inj.mp (hs.symm.trans hs')
          obtain rfl := Option.some_inj.mp (haccount.symm.trans ht)
          exact hrun.inPieces (reachable_funded hr.reachable hs) (hw s hs)

end Ahunter.Sim
