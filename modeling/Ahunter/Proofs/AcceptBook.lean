import Ahunter.Proofs.Books

/-!
# The acceptance book

An order enters the book once, when the exchange accepts it, and its entry
stays: what a replay pins in it is a position in a stream that had none there.
That no order is entered twice rests on the other projections. A batch enters
orders that the ledger has just created, and a workflow enters an order that
waits for its acceptance; `Booked` says that the book knows only orders of the
ledger, and none that a live workflow still waits to have accepted.
-/

namespace Ahunter.Sim

open Ahunter.Lib

variable {spec : AccountSpec} {at_ : Instant} {ids : Dict String String}
  {flows : Dict FlowKey Workflow}

/-! ## Entries -/

variable {x y : ExecutionState}

/-- An entry keeps what it says and may only pin further positions. -/
structure Accepted.Grows (a b : Accepted) : Prop where
  acceptedAt : b.acceptedAt = a.acceptedAt
  priority : b.priority = a.priority
  pinned : ∀ k m, a.queuePositions.get? k = some m → b.queuePositions.get? k = some m

theorem Accepted.Grows.refl (a : Accepted) : a.Grows a := ⟨rfl, rfl, fun _ _ h => h⟩

theorem Accepted.Grows.trans {a b c : Accepted} (h : a.Grows b) (h' : b.Grows c) :
    a.Grows c where
  acceptedAt := h'.acceptedAt.trans h.acceptedAt
  priority := h'.priority.trans h.priority
  pinned := fun k m hm => h'.pinned k m (h.pinned k m hm)

/-- The book of `y` has the entries of `x`, grown, and otherwise only `new`. -/
structure BookGrows (x y : ExecutionState) (new : String → Prop) : Prop where
  kept : ∀ id a, x.orders.get? id = some a → ∃ b, y.orders.get? id = some b ∧ a.Grows b
  only : ∀ id b, y.orders.get? id = some b → new id ∨ ∃ a, x.orders.get? id = some a

variable {new : String → Prop}

theorem BookGrows.of_eq (h : y.orders = x.orders) : BookGrows x y new :=
  ⟨fun id a ha => ⟨a, by rw [h, ha], .refl a⟩, fun id b hb => Or.inr ⟨b, by rw [← h, hb]⟩⟩

theorem BookGrows.trans {z : ExecutionState} (h : BookGrows x y new)
    (h' : BookGrows y z new) : BookGrows x z new := by
  constructor
  · intro id a ha
    obtain ⟨b, hb, hab⟩ := h.kept id a ha
    obtain ⟨c, hc, hbc⟩ := h'.kept id b hb
    exact ⟨c, hc, hab.trans hbc⟩
  · intro id c hc
    rcases h'.only id c hc with hnew | ⟨b, hb⟩
    · exact Or.inl hnew
    · exact h.only id b hb

theorem BookGrows.mono {new new' : String → Prop} (h : BookGrows x y new)
    (hnew : ∀ id, new id → new' id) : BookGrows x y new' :=
  ⟨h.kept, fun id b hb => (h.only id b hb).imp_left (hnew id)⟩

theorem BookGrows.enter {id : String} {proof : AcceptanceEvidence} {receipt : Option Instant}
    (h : x.orders.get? id = none) : BookGrows x (x.enter id at_ proof receipt) (· = id) := by
  constructor
  · intro j a ha
    refine ⟨a, ?_, .refl a⟩
    rw [ExecutionState.enter, Dict.get?_set_of_ne, ha]
    rintro rfl
    rw [h] at ha
    cases ha
  · intro j b hb
    rw [ExecutionState.enter, Dict.get?_set] at hb
    split at hb
    · next hj => exact Or.inl hj
    · exact Or.inr ⟨b, hb⟩

variable {proofs : List AcceptanceEvidence}

theorem enterWalk_grows {orders : List Reservation} {x' : ExecutionState}
    (h : walk (fun x order => do
      let proof ← proofFor proofs order.security
      pure (x.enter order.orderId at_ proof none)) x orders = .ok x')
    (hnew : ∀ r ∈ orders, x.orders.get? r.orderId = none)
    (hnodup : (orders.map Reservation.orderId).Nodup) :
    BookGrows x x' fun id => ∃ r ∈ orders, r.orderId = id := by
  induction orders generalizing x with
  | nil =>
      cases h
      exact .of_eq rfl
  | cons r rs ih =>
      obtain ⟨mid, hone, hrest⟩ := walk_cons_ok.mp h
      simp only [bind_ok, pure_ok] at hone
      obtain ⟨proof, -, rfl⟩ := hone
      rw [List.map_cons, List.nodup_cons] at hnodup
      have hfirst : BookGrows x (x.enter r.orderId at_ proof none) (· = r.orderId) :=
        .enter (hnew r List.mem_cons_self)
      have hlater := ih hrest (fun q hq => by
        have hne : q.orderId ≠ r.orderId := fun heq =>
          hnodup.1 (heq ▸ List.mem_map_of_mem hq)
        rw [ExecutionState.enter, Dict.get?_set_of_ne hne]
        exact hnew q (List.mem_cons_of_mem _ hq)) hnodup.2
      refine (hfirst.mono fun id hid => ⟨r, List.mem_cons_self, hid.symm⟩).trans
        (hlater.mono fun id ⟨q, hq, hid⟩ => ⟨q, List.mem_cons_of_mem _ hq, hid⟩)

theorem pinPosition_grows {e : QueueEvidence} {key : String}
    {a b : ExecutionState × List QueueEntrant} {entry : String × Order}
    (h : pinPosition spec e key at_ a entry = .ok b) : BookGrows a.1 b.1 fun _ => False := by
  simp only [pinPosition, bind_ok, need_ok, pure_ok] at h
  obtain ⟨position, -, accepted, hacc, _, -, _, -, _, -, _, -, rfl⟩ := h
  constructor
  · intro id c hc
    dsimp only
    rw [Dict.get?_set]
    split
    · next hid =>
        subst hid
        obtain rfl := Option.some_inj.mp (hacc.symm.trans hc)
        refine ⟨_, rfl, rfl, rfl, fun k m hm => ?_⟩
        dsimp only
        rw [Dict.get?_set]
        split
        · next hk =>
            subst hk
            rw [hm, Option.getD_some]
        · exact hm
    · exact ⟨c, hc, .refl c⟩
  · intro id c hc
    dsimp only at hc
    rw [Dict.get?_set] at hc
    split at hc
    · next hid => exact Or.inr ⟨accepted, by rw [hid, hacc]⟩
    · exact Or.inr ⟨c, hc⟩

theorem Budgeted.orders (h : Budgeted x y) : y.orders = x.orders := by
  obtain ⟨_, _, rfl⟩ := h
  rfl

/-! ## The book and the other projections -/

variable {w w' : World}

/-- The orders of an account keep their reservations. -/
def Persists (a b : Dict String Order) : Prop :=
  ∀ id o, a.get? id = some o → ∃ o', b.get? id = some o' ∧ o'.toReservation = o.toReservation

variable {d : Discipline}

theorem LedgerRun.persists {s t : AccountState} {as : List Act}
    {es : List Entry} (h : LedgerRun spec d s as es t) (hs : Funded spec.zone s) :
    Persists s.orders t.orders := fun _ o ho =>
  h.order hs ho (P := fun p => p.toReservation = o.toReservation) rfl
    fun _ _ hp he => he.reservation.trans hp

theorem AccountChange.persists {s t : AccountState}
    (h : AccountChange spec d w w') (hs : w.account = some s) (ht : w'.account = some t)
    (hf : Funded spec.zone s) : Persists s.orders t.orders := by
  cases h with
  | none haccount =>
      rw [haccount, hs] at ht
      cases ht
      exact fun id o ho => ⟨o, ho, rfl⟩
  | opened hnone =>
      rw [hs] at hnone
      cases hnone
  | event hs' haccount hevents hkeys hrun =>
      obtain rfl := Option.some_inj.mp (hs.symm.trans hs')
      obtain rfl := Option.some_inj.mp (haccount.symm.trans ht)
      exact hrun.persists hf

def Order.Precise (o : Order) : Prop := o.quantity % o.marketRule.fillIncrement = 0

structure Booked (orders : Dict String Order) (x : ExecutionState)
    (flows : Dict FlowKey Workflow) : Prop where
  ordered : ∀ id a, x.orders.get? id = some a → ∃ o, orders.get? id = some o ∧ o.Precise
  pending : ∀ k f, flows.get? k = some f → f.live = true → f.state = .waitingMarket →
    f.operation = .new → x.orders.get? f.orderId = none

theorem acceptance_precise {s : AccountState} {r : Reservation} {proof : AcceptanceEvidence}
    {exchange : Bool} (h : acceptance spec r proof s at_ exchange = .ok ()) :
    r.quantity % r.marketRule.fillIncrement = 0 := by
  have hquantity : ∃ u, acceptableQuantity spec.zone r proof s at_ = .ok u := by
    cases exchange with
    | false =>
        simp only [acceptance, bind_ok, Bool.false_eq_true, if_false] at h
        obtain ⟨_, -, _, -, _, -, _, -, _, -, _, -, _, -, h⟩ := h
        exact ⟨_, h⟩
    | true =>
        simp only [acceptance, bind_ok, if_true] at h
        obtain ⟨_, -, _, -, _, -, _, -, _, -, _, -, _, -, _, -, h⟩ := h
        exact ⟨_, h⟩
  simp only [acceptableQuantity, bind_ok, refuse_ok] at hquantity
  obtain ⟨_, _, hbounds, -⟩ := hquantity
  push Not at hbounds
  exact hbounds.2

variable {orders orders' : Dict String Order} {flows flows' : Dict FlowKey Workflow}

theorem Booked.later (h : Booked orders x flows) (horders : Persists orders orders')
    (hgrows : BookGrows x y new) (hnew : ∀ id, new id → ∃ o, orders'.get? id = some o ∧ o.Precise)
    (hflows : ∀ k f, flows'.get? k = some f → f.live = true → f.state = .waitingMarket →
      f.operation = .new → x.orders.get? f.orderId = none ∧ ¬ new f.orderId) :
    Booked orders' y flows' := by
  constructor
  · intro id b hb
    rcases hgrows.only id b hb with hid | ⟨a, ha⟩
    · exact hnew id hid
    · obtain ⟨o, ho, hprecise⟩ := h.ordered id a ha
      obtain ⟨o', ho', hsame⟩ := horders id o ho
      refine ⟨o', ho', ?_⟩
      rw [Order.Precise, hsame]
      exact hprecise
  · intro k f hf hlive hstate hop
    obtain ⟨hnone, hfresh⟩ := hflows k f hf hlive hstate hop
    rw [Option.eq_none_iff_forall_ne_some]
    intro b hb
    rcases hgrows.only _ b hb with hid | ⟨a, ha⟩
    · exact hfresh hid
    · rw [hnone] at ha
      cases ha

theorem Booked.still
    (h : Booked orders x flows) (horders : Persists orders orders') (hsame : y.orders = x.orders)
    (hflows : ∀ k f, flows'.get? k = some f → f.live = true → f.state = .waitingMarket →
      f.operation = .new → x.orders.get? f.orderId = none) : Booked orders' y flows' := by
  have hgrows : BookGrows x y fun _ => False := .of_eq hsame
  exact h.later horders hgrows (fun _ hid => hid.elim) fun k f hf hlive hstate hop =>
    ⟨hflows k f hf hlive hstate hop, id⟩

/-! ## The moves of a workflow -/

variable {order : Order} {a b : FlowRun}

theorem FlowMove.waits (h : FlowMove spec at_ order a b)
    (hfresh : a.Unreplaced) (hlive : b.flow.live = true) (hstate : b.flow.state = .waitingMarket) :
    a.stage.value.orders.get? b.flow.orderId = none := by
  cases h with
  | accepted => cases hlive
  | refused => cases hstate
  | tooLate => cases hlive
  | cancelRefused => cases hlive
  | cancelled => cases hstate
  | ended => cases hlive
  | replaced hstate' hdate houtcome hinstruction hrelease hold hremaining hacc hreserve hmark =>
      obtain ⟨-, habsent, -⟩ := Staged.run_release_frame hrelease
      have hnone := hfresh hstate' houtcome _ _ _ _ _ _ hinstruction
      have hres := Staged.run_reserved_after hrelease (fun e he => hnone e he _ _ rfl) hreserve
      exact habsent _ (hres.new _ List.mem_cons_self)

theorem FlowMove.grows (h : FlowMove spec at_ order a b)
    (hnone : a.flow.state = .waitingMarket → a.flow.operation = .new →
      a.execution.orders.get? a.flow.orderId = none) :
    BookGrows a.execution b.execution fun id =>
      id = a.flow.orderId ∧ order.Precise ∧ b.flow.live = false := by
  cases h with
  | accepted hstate hop hacc hset =>
      exact (BookGrows.enter (hnone hstate hop)).mono fun id hid =>
        ⟨hid, acceptance_precise hacc, rfl⟩
  | _ => exact .of_eq rfl

theorem Booked.moved (h : FlowMove spec at_ order a b)
    (hin : InFlow ids flows a) (hlive : a.flow.live = true)
    (horder : a.stage.value.orders.get? a.flow.orderId = some order)
    (hf : Funded spec.zone a.stage.value)
    (ha : Booked a.stage.value.orders a.execution (flows.set a.flow.key a.flow)) :
    Funded spec.zone b.stage.value ∧
      Booked b.stage.value.orders b.execution (flows.set b.flow.key b.flow) ∧
      BookGrows a.execution b.execution fun id => ∃ o, a.stage.value.orders.get? id = some o := by
  have hfresh := hin.unreplaced hlive
  have hmoved := h.moved hfresh
  obtain ⟨effects, -, hrun⟩ := h.run horder (MoveReady.any a order)
  have hgrows := h.grows fun hstate hop =>
    ha.pending _ _ (Dict.get?_set_self _ _ _) hlive hstate hop
  have hpersists := hrun.persists hf
  refine ⟨hrun.invariant hf fun _ _ _ _ hs hone => hone.funded hs,
    ha.later hpersists hgrows ?_ ?_, hgrows.mono ?_⟩
  · rintro id ⟨rfl, hprecise, -⟩
    obtain ⟨o', ho', hsame⟩ := hpersists _ _ horder
    refine ⟨o', ho', ?_⟩
    rw [Order.Precise, hsame]
    exact hprecise
  · intro k g hg hglive hstate hop
    by_cases hk : k = b.flow.key
    · subst hk
      obtain rfl : b.flow = g := Option.some_inj.mp ((Dict.get?_set_self _ _ _).symm.trans hg)
      have habsent := h.waits hfresh hglive hstate
      refine ⟨?_, ?_⟩
      · rw [Option.eq_none_iff_forall_ne_some]
        intro e he
        obtain ⟨o, ho, -⟩ := ha.ordered _ e he
        rw [habsent] at ho
        cases ho
      · rintro ⟨-, -, hdead⟩
        rw [hglive] at hdead
        cases hdead
    · have hk' : k ≠ a.flow.key := hmoved.same.key ▸ hk
      have hg' : (flows.set a.flow.key a.flow).get? k = some g := by
        rw [Dict.get?_set_of_ne hk] at hg
        rw [Dict.get?_set_of_ne hk', hg]
      exact ⟨ha.pending k g hg' hglive hstate hop,
        fun ⟨hid, _⟩ => hin.other hlive hg' hk' hglive hid⟩
  · rintro id ⟨rfl, -⟩
    exact ⟨order, horder⟩

/-! ## Every run -/

structure AcceptanceSound (w : World) : Prop where
  closed : w.account = none → ∀ id, w.execution.orders.get? id = none
  booked : ∀ s, w.account = some s → Booked s.orders w.execution w.plans.workflows

theorem AcceptanceSound.start : AcceptanceSound World.start :=
  ⟨fun _ _ => rfl, nofun⟩

structure AcceptanceStep (w w' : World) : Prop where
  sound : AcceptanceSound w'
  grows : BookGrows w.execution w'.execution fun _ => True

theorem AcceptanceSound.kept (hw : AcceptanceSound w)
    (hchange : AccountChange spec d w w') (hplans : w'.plans = w.plans)
    (hgrows : BookGrows w.execution w'.execution fun _ => False)
    (hclosed : w.account = none → ∀ k, w.plans.workflows.get? k = none)
    (hf : ∀ s, w.account = some s → Funded spec.zone s) : AcceptanceStep w w' := by
  have hempty : (∀ id, w.execution.orders.get? id = none) →
      ∀ id, w'.execution.orders.get? id = none := by
    intro hnone id
    rw [Option.eq_none_iff_forall_ne_some]
    intro b hb
    rcases hgrows.only id b hb with hfalse | ⟨a, ha⟩
    · exact hfalse
    · rw [hnone id] at ha
      cases ha
  refine ⟨⟨fun hnone => ?_, fun t ht => ?_⟩, hgrows.mono fun _ h => h.elim⟩
  · cases hchange with
    | none haccount => exact hempty (hw.closed (haccount ▸ hnone))
    | opened hold => exact hempty (hw.closed hold)
    | event hs haccount =>
        rw [haccount] at hnone
        cases hnone
  · rw [hplans]
    cases hs : w.account with
    | none =>
        refine ⟨fun id a ha => ?_, fun k f hk => ?_⟩
        · rw [hempty (hw.closed hs) id] at ha
          cases ha
        · rw [hclosed hs k] at hk
          cases hk
    | some s =>
        have hbooked := hw.booked s hs
        exact hbooked.later (hchange.persists hs ht (hf s hs)) hgrows (fun _ h => h.elim)
          fun k f hk hlive hstate hop => ⟨hbooked.pending k f hk hlive hstate hop, id⟩

variable {aid : String}

theorem acceptBatch_accepts {orders : List Reservation}
    (hw : AcceptanceSound w) (hplans : PlansSound w)
    (hf : ∀ s, w.account = some s → Funded spec.zone s)
    (h : acceptBatch spec w aid orders proofs at_ = .ok w') : AcceptanceStep w w' := by
  rcases acceptBatch_ok h with rfl | ⟨s, st, x, hs, -, hchecked, hst, hx, hpublish⟩
  · exact ⟨hw, .of_eq rfl⟩
  obtain ⟨o', hseal, rfl⟩ := World.publish_ok hpublish
  have hbooked := hw.booked s hs
  obtain ⟨hnodup, hres⟩ := Staged.run_reserved (by simp) hst
  obtain ⟨effects, -, hrun⟩ := StageRun.of_run (d := .any) trivial hst
  have hnew : ∀ r ∈ orders, w.execution.orders.get? r.orderId = none := by
    intro r hr
    rw [Option.eq_none_iff_forall_ne_some]
    intro a ha
    obtain ⟨o, ho, -⟩ := hbooked.ordered _ a ha
    rw [show s.orders.get? r.orderId = none from hres.new r hr] at ho
    cases ho
  have hgrows := enterWalk_grows hx hnew hnodup
  refine ⟨⟨nofun, fun t ht => ?_⟩, hgrows.mono fun _ _ => trivial⟩
  cases ht
  rw [prepareState_orders hseal]
  refine hbooked.later (hrun.persists (hf s hs)) hgrows ?_ fun k f hk hlive hstate hop => ?_
  · rintro id ⟨r, hr, rfl⟩
    obtain ⟨cash, stock, hstored⟩ := hres.stored r hr
    obtain ⟨-, proof, -, haccepted⟩ := hchecked r hr
    exact ⟨_, hstored, acceptance_precise haccepted⟩
  · refine ⟨hbooked.pending k f hk hlive hstate hop, ?_⟩
    rintro ⟨r, hr, heq⟩
    obtain ⟨o, ho, -⟩ := (hplans.flows s hs).placed k f hk hlive
    rw [← heq, show s.orders.get? r.orderId = none from hres.new r hr] at ho
    cases ho

theorem submit_accepts {session : Session} {plan : StagePlan} (hw : AcceptanceSound w)
    (hf : ∀ s, w.account = some s → Funded spec.zone s)
    (h : submit spec w aid session plan proofs = .ok w') : AcceptanceStep w w' := by
  have hchange := step_account (c := .submit aid session plan proofs) h
  rcases submit_ok h with rfl | ⟨phase, at_, st, x, plans, record, -, hphase, -, hstage, -,
    hpublish⟩
  · exact ⟨hw, .of_eq rfl⟩
  obtain ⟨o', hseal, rfl⟩ := World.publish_ok hpublish
  simp only [submissionPhase, bind_ok, need_ok, pure_ok, Prod.mk.injEq] at hphase
  obtain ⟨phase', -, t, ht, rfl, rfl⟩ := hphase
  obtain ⟨s, day, new, hs, hnew, hflows, -, rfl⟩ := submitStage_submission ht hstage
  have hbooked := hw.booked s hs
  refine ⟨⟨nofun, fun u hu => ?_⟩, .of_eq rfl⟩
  cases hu
  have hpersists : Persists s.orders o'.state.orders := hchange.persists hs rfl (hf s hs)
  refine hbooked.still hpersists rfl fun k f hk hlive hstate hop => ?_
  rw [show ({ plans with plans := plans.plans.set plan.planId record } :
    PlansState).workflows = _ from hflows, get?_foldl_set hnew.keys] at hk
  rcases hk with ⟨hmem, -⟩ | ⟨hold, -⟩
  · rcases hnew.before f hmem with ⟨-, hfree, -⟩ | ⟨hcancel, -⟩
    · rw [Option.eq_none_iff_forall_ne_some]
      intro a ha
      obtain ⟨o, ho, -⟩ := hbooked.ordered _ a ha
      rw [hfree] at ho
      cases ho
    · rw [hop] at hcancel
      cases hcancel
  · exact hbooked.pending k f hold hlive hstate hop

theorem advance_accepts {proofs : List MarketActionEvidence}
    (hw : AcceptanceSound w) (hplans : PlansSound w)
    (hf : ∀ s, w.account = some s → Funded spec.zone s)
    (h : advance spec w aid at_ proofs = .ok w') : AcceptanceStep w w' := by
  rcases advance_ok h with rfl | ⟨s, run, hs, -, -, -, hrun, hpublish⟩
  · exact ⟨hw, .of_eq rfl⟩
  obtain ⟨o', hseal, rfl⟩ := World.publish_ok hpublish
  have hflows := hplans.flows s hs
  obtain ⟨hnodup, hdue⟩ := dueFlows_keys hflows at_
  obtain ⟨-, -, hbooked, hgrows⟩ := advanceWalk_moves (P := fun acc =>
    Funded spec.zone acc.stage.value ∧
      Booked acc.stage.value.orders acc.execution acc.workflows ∧
      BookGrows w.execution acc.execution fun _ => True)
    hrun hnodup (fun f hf => (hdue f hf).1) ⟨hflows, fun e he => absurd he List.not_mem_nil⟩
    ⟨hf s hs, hw.booked s hs, .of_eq rfl⟩
    fun acc f run history' hacc ⟨hfunded, hbooked, hgrows⟩ hget hloop => by
      obtain ⟨-, ⟨hfunded', hbooked', hgrows'⟩, hsame⟩ := flowLoop_moves
        (Q := fun r => Funded spec.zone r.stage.value ∧
          Booked r.stage.value.orders r.execution (acc.workflows.set r.flow.key r.flow) ∧
          BookGrows w.execution r.execution fun _ => True) hloop (hacc.inFlow hget)
        ⟨hfunded, by rw [Dict.set_get?_self hget]; exact hbooked, hgrows⟩
        fun a b order hin ⟨ha, hba, hga⟩ hlive hdue horder hmove _ => by
          obtain ⟨hb, hbb, hgb⟩ := hba.moved hmove hin hlive horder ha
          exact ⟨hb, hbb, hga.trans (hgb.mono fun _ _ => trivial)⟩
      rw [hsame.key] at hbooked'
      exact ⟨hfunded', hbooked', hgrows'⟩
  refine ⟨⟨nofun, fun t ht => ?_⟩, hgrows⟩
  cases ht
  rw [prepareState_orders hseal]
  exact hbooked

theorem expireDay_accepts {day : Date} {cursors : Dict String MarketCursor}
    {rules : List MarketRule} (hw : AcceptanceSound w)
    (hf : ∀ s, w.account = some s → Funded spec.zone s)
    (h : expireDay spec w aid day cursors at_ rules = .ok w') : AcceptanceStep w w' := by
  have hchange := step_account (c := .expireDay aid day cursors at_ rules) h
  rcases expireDay_ok h with rfl | ⟨s, st, hs, -, -, hst, hpublish⟩
  · exact ⟨hw, .of_eq rfl⟩
  obtain ⟨o', hseal, rfl⟩ := World.publish_ok hpublish
  have hbooked := hw.booked s hs
  refine ⟨⟨nofun, fun t ht => ?_⟩, .of_eq rfl⟩
  cases ht
  refine hbooked.still (hchange.persists hs rfl (hf s hs)) rfl fun k f hk hlive hstate hop => ?_
  rw [Dict.get?_map, Option.map_eq_some_iff] at hk
  obtain ⟨g, hg, rfl⟩ := hk
  -- A workflow that is still live is one the expiry passed over.
  unfold Workflow.expire at hlive hstate hop ⊢
  split at hlive
  · cases hlive
  · next hpassed =>
      rw [if_neg hpassed] at hstate hop ⊢
      exact hbooked.pending k g hg hlive hstate hop

theorem step_accepts {c : Command} (h : step spec w c = .ok w') (hw : AcceptanceSound w)
    (hplans : PlansSound w) (hf : ∀ s, w.account = some s → Funded spec.zone s) :
    AcceptanceStep w w' := by
  have hkept : c.planning = false → BookGrows w.execution w'.execution (fun _ => False) →
      AcceptanceStep w w' := fun hc hgrows =>
    hw.kept (step_account h) (step_plansKept h hc).plans hgrows hplans.closed hf
  cases c with
  | opening aid running =>
      refine hkept rfl (.of_eq ?_)
      rcases initializeAccount_ok h with rfl | ⟨-, -, o, -, hcommit⟩
      · rfl
      · obtain ⟨o', -, rfl⟩ := World.commit_ok hcommit
        rfl
  | account aid r =>
      refine hkept rfl (.of_eq ?_)
      rcases direct_ok h with rfl | ⟨s, o, -, -, -, -, hcommit⟩
      · rfl
      · obtain ⟨o', -, rfl⟩ := World.commit_ok hcommit
        rfl
  | acceptBatch aid orders proofs t => exact acceptBatch_accepts hw hplans hf h
  | advanceMinute aid e =>
      refine hkept rfl (.of_eq ?_)
      rcases advanceMinute_market h with rfl | ⟨s, orders, x, capacity, run, hrun⟩
      · rfl
      · obtain ⟨-, -, -, -, hopened⟩ := capacityFor_ok hrun.opened
        have hdrawn : run.execution.orders = w.execution.orders :=
          walk_induction (P := fun r : MinuteRun => r.execution.orders = w.execution.orders)
            hrun.filled (by rw [hopened]) fun _ _ _ _ hc hone =>
              (minuteOne_budgeted hone).orders.trans hc
        rw [hrun.execution]
        exact hdrawn
  | queueAdvance aid e throughAt throughSequence =>
      refine hkept rfl ?_
      rcases queueAdvance_market h with rfl | ⟨s, volumes, start, x1, entrants, x2, run,
        results, hrun⟩
      · exact .of_eq rfl
      · have h1 : BookGrows w.execution x1 fun _ => False :=
          walk_induction (P := fun y : ExecutionState × List QueueEntrant =>
            BookGrows w.execution y.1 fun _ => False) hrun.pinned (.of_eq rfl)
            fun _ _ _ _ hc hone => hc.trans (pinPosition_grows hone)
        have h2 : x2.orders = x1.orders :=
          walk_induction (P := fun y : ExecutionState => y.orders = x1.orders) hrun.opened rfl
            fun _ _ _ _ hc hone => (openMinute_budgeted hone).orders.trans hc
        have h3 : run.execution.orders = x1.orders :=
          walk_induction (P := fun r : QueueRun => r.execution.orders = x1.orders)
            hrun.replayed h2 fun _ _ _ _ hc hone => (replayTick_budgeted hone).orders.trans hc
        refine h1.trans (.of_eq ?_)
        rw [hrun.execution]
        exact h3
  | submit aid session plan proofs => exact submit_accepts hw hf h
  | advance aid t proofs => exact advance_accepts hw hplans hf h
  | expireDay aid day cursors t rules => exact expireDay_accepts hw hf h

theorem reachable_accepted (h : Reachable spec w) : AcceptanceSound w :=
  h.invariant .start fun _ _ _ hr hw hstep _ =>
    (step_accepts hstep hw (reachable_plansSound hr) fun _ => reachable_funded hr).sound

theorem accepted_kept (hw : Reachable spec w)
    (h : Relation.ReflTransGen (StepIf spec fun _ _ _ => True) w w') {id : String} {a : Accepted}
    (ha : w.execution.orders.get? id = some a) :
    ∃ b, w'.execution.orders.get? id = some b ∧ a.Grows b := by
  induction h with
  | refl => exact ⟨a, ha, .refl a⟩
  | tail hsteps hone ih =>
      obtain ⟨b, hb, hab⟩ := ih
      obtain ⟨c, hstep, -⟩ := hone
      have hr : Reachable spec _ := Relation.ReflTransGen.trans hw hsteps
      have hnext := step_accepts hstep (reachable_accepted hr) (reachable_plansSound hr)
        fun _ => reachable_funded hr
      obtain ⟨b', hb', hbb⟩ := hnext.grows.kept id b hb
      exact ⟨b', hb', hab.trans hbb⟩

end Ahunter.Sim
