import Ahunter.Proofs.Lifecycle

/-!
# Workflows and their orders

Order identities, order statuses and workflow states live in three different
projections. `FlowsSound` is what ties them together in every run: a live
workflow's order exists and, while it is held, is in the one status in which
it waits for that workflow; no two live workflows share an order; and no two
workflows share the identity set aside for a replacement.

What one move of a workflow does is said once, in `Moved`, with everything
later arguments need of it. From it `FlowsSound` is kept by the loop of an
advance, and the loop's fuel is shown to be enough.
-/

namespace Ahunter.Sim

open Ahunter.Lib

variable {spec : AccountSpec} {d : Discipline} {at_ : Instant}

/-! ## The invariant -/

def Workflow.live (f : Workflow) : Bool := f.nextAt.isSome

def Instruction.newId? : Instruction → Option String
  | .replace _ newId _ _ _ _ => some newId
  | _ => none

def Workflow.awaits (f : Workflow) : OrderStatus :=
  match f.state, f.operation with
  | .waitingMarket, .new => .pendingAcceptance
  | .waitingMarket, .cancel => .cancelPending
  | _, .cancel => .cancelEffective
  | _, .new => .rejectedPendingReceipt

theorem Workflow.awaits_settling (f : Workflow) : f.awaits.settling = true := by
  cases hs : f.state <;> cases ho : f.operation <;> simp [Workflow.awaits, hs, ho,
    OrderStatus.settling]

structure Workflow.Proper (f : Workflow) : Prop where
  waiting : f.live = true → f.state = .waitingMarket ∨ f.state = .waitingReceipt
  refused : f.state = .waitingReceipt → f.operation = .new →
    f.outcome = some .rejected

structure FlowsSound (s : AccountState) (ids : Dict String String)
    (flows : Dict FlowKey Workflow) : Prop where
  keyed : ∀ k f, flows.get? k = some f → f.key = k
  proper : ∀ k f, flows.get? k = some f → f.Proper
  placed : ∀ k f, flows.get? k = some f → f.live = true →
    ∃ o, s.orders.get? f.orderId = some o ∧ o.awaits f.awaits
  apart : ∀ j k f g, flows.get? j = some f → flows.get? k = some g →
    f.live = true → g.live = true → f.orderId = g.orderId → j = k
  named : ∀ k f, flows.get? k = some f → ∀ i, f.instruction.newId? = some i →
    ∃ plan, ids.get? i = some plan
  distinct : ∀ j k f g i, flows.get? j = some f → flows.get? k = some g →
    f.instruction.newId? = some i → g.instruction.newId? = some i → j = k

def StageFresh (st : Staged) (flows : Dict FlowKey Workflow) : Prop :=
  ∀ e ∈ st.effects, ∀ new t, e.request = .account (.reserveBatch [new] t) →
    ∀ k f, flows.get? k = some f → f.instruction.newId? = some new.orderId →
      f.operation = .new

/-! ## One move -/

structure SameFlow (f g : Workflow) : Prop where
  key : g.key = f.key
  instruction : g.instruction = f.instruction
  tradeDate : g.tradeDate = f.tradeDate

theorem SameFlow.refl (f : Workflow) : SameFlow f f := ⟨rfl, rfl, rfl⟩

/-- What one move does to the workflow, to its order and to all others. -/
structure Moved (a b : FlowRun) : Prop where
  same : SameFlow a.flow b.flow
  proper : b.flow.Proper
  placed : b.flow.live = true → ∃ o,
    b.stage.value.orders.get? b.flow.orderId = some o ∧ o.status = b.flow.awaits
  others : ∀ id o, id ≠ a.flow.orderId →
    a.stage.value.orders.get? id = some o → b.stage.value.orders.get? id = some o
  order : b.flow.orderId = a.flow.orderId ∨
    a.stage.value.orders.get? b.flow.orderId = none
  operation : a.flow.operation = .new → b.flow.operation = .new
  effects : ∃ new, b.stage.effects = a.stage.effects ++ new ∧ ∀ e ∈ new,
    ∀ r t, e.request = .account (.reserveBatch [r] t) →
      a.flow.instruction.newId? = some r.orderId ∧ b.flow.operation = .new

variable {st st' : Staged}

theorem setOrderState_ok {id reason : String} {status : OrderStatus} {vis : Instant}
    (h : setOrderState spec st id status at_ vis reason = .ok st') :
    ∃ order e, st.value.orders.get? id = some order ∧
      st'.value.orders = st.value.orders.set id { order with status := status } ∧
      st'.effects = st.effects ++ [e] ∧
      e.request = .orderMarketState id status reason := by
  simp only [setOrderState, bind_ok] at h
  obtain ⟨o, hrun, hcommit⟩ := h
  obtain ⟨order, horder, rfl⟩ := orderMarketState_ok hrun
  obtain ⟨o', hseal, rfl⟩ := Staged.commit_ok.mp hcommit
  exact ⟨order, _, horder, prepareState_orders hseal, rfl, rfl⟩

theorem Staged.run_release {aid id : String} {reason : OrderStatus} {t : Instant}
    (h : st.run spec aid (.release id reason t) = .ok st') :
    (st' = st ∧ ∃ e ∈ st.effects, e.request = .account (.release id reason t)) ∨
      ∃ order e, st.value.orders.get? id = some order ∧ order.status.held = true ∧
        st'.value.orders = st.value.orders.set id { order with
          cashReserved := 0
          stockReserved := []
          status := reason } ∧
        st'.effects = st.effects ++ [e] ∧
        e.request = .account (.release id reason t) := by
  obtain ⟨-, ⟨rfl, e, he, -, hreq⟩ | ⟨o, o', hrun, hseal, rfl⟩⟩ := Staged.run_ok h
  · exact Or.inl ⟨rfl, e, he, hreq⟩
  · obtain ⟨order, horder, hheld, -, rfl⟩ := release_ok hrun
    exact Or.inr ⟨order, _, horder, hheld, prepareState_orders hseal, rfl, rfl⟩

theorem Staged.run_release_frame {aid id : String} {reason : OrderStatus} {t : Instant}
    (h : st.run spec aid (.release id reason t) = .ok st') :
    (∀ j, j ≠ id → st'.value.orders.get? j = st.value.orders.get? j) ∧
      (∀ j, st'.value.orders.get? j = none → st.value.orders.get? j = none) ∧
      ∃ new, st'.effects = st.effects ++ new ∧
        ∀ e ∈ new, e.request = .account (.release id reason t) := by
  rcases Staged.run_release h with ⟨rfl, -⟩ | ⟨order, e, horder, -, horders, heffects, hreq⟩
  · exact ⟨fun _ _ => rfl, fun _ h => h, [], by simp, by simp⟩
  · refine ⟨fun j hj => by rw [horders, Dict.get?_set_of_ne hj], fun j hj => ?_, [e],
      heffects, fun f hf => by rw [List.mem_singleton.mp hf, hreq]⟩
    rw [horders, Dict.get?_set] at hj
    split at hj
    · cases hj
    · exact hj

variable {a b : FlowRun}

theorem moved_of_state {status : OrderStatus} {vis : Instant} {reason : String}
    (hset : setOrderState spec a.stage a.flow.orderId status at_ vis reason
      = .ok b.stage) (hsame : SameFlow a.flow b.flow) (hproper : b.flow.Proper)
    (hid : b.flow.orderId = a.flow.orderId) (hop : b.flow.operation = a.flow.operation)
    (hawaits : b.flow.live = true → status = b.flow.awaits) : Moved a b := by
  obtain ⟨order, e, horder, horders, heffects, hreq⟩ := setOrderState_ok hset
  refine ⟨hsame, hproper, fun hlive => ?_, fun id o hne ho => ?_, Or.inl hid,
    fun h => hop.trans h, [e], heffects, fun f hf r t hr => ?_⟩
  · refine ⟨{ order with status := status }, ?_, hawaits hlive⟩
    rw [hid, horders, Dict.get?_set_self]
  · rw [horders, Dict.get?_set_of_ne hne, ho]
  · rw [List.mem_singleton.mp hf, hreq] at hr
    cases hr

variable {f : Workflow}

theorem Workflow.proper_final (hfinal : f.state.final = true)
    (hdone : f.nextAt = none) : f.Proper := by
  refine ⟨fun hlive => ?_, fun hstate => ?_⟩
  · rw [Workflow.live, hdone] at hlive
    cases hlive
  · rw [hstate] at hfinal
    cases hfinal

/-- A move does to orders what `Moved` says. -/
theorem FlowMove.moved {order : Order}
    (h : FlowMove spec at_ order a b) (hfresh : a.Unreplaced) : Moved a b := by
  cases h with
  | accepted hstate hop hacc hset =>
      exact moved_of_state hset ⟨rfl, rfl, rfl⟩ (Workflow.proper_final rfl rfl) rfl rfl
        fun h => by cases h
  | refused hstate hop hset =>
      refine moved_of_state hset ⟨rfl, rfl, rfl⟩ ⟨fun _ => Or.inr rfl, fun _ _ => rfl⟩
        rfl rfl fun _ => ?_
      simp [Workflow.awaits, hop]
  | tooLate hstate hop hfilled =>
      exact ⟨⟨rfl, rfl, rfl⟩, Workflow.proper_final rfl rfl, fun h => (by cases h),
        fun _ _ _ h => h, Or.inl rfl, id, [], by simp, by simp⟩
  | cancelRefused hstate hop hfilled hset =>
      exact moved_of_state hset ⟨rfl, rfl, rfl⟩ (Workflow.proper_final rfl rfl) rfl rfl
        fun h => by cases h
  | cancelled hstate hop hfilled hset =>
      refine moved_of_state hset ⟨rfl, rfl, rfl⟩ ⟨fun _ => Or.inr rfl, fun _ hnew => ?_⟩
        rfl rfl fun _ => ?_
      · rw [hop] at hnew
        cases hnew
      · simp [Workflow.awaits, hop]
  | ended hstate houtcome hrelease hfinal =>
      obtain ⟨hothers, -, new, heffects, hreq⟩ := Staged.run_release_frame hrelease
      refine ⟨⟨rfl, rfl, rfl⟩, Workflow.proper_final hfinal rfl, fun h => (by cases h),
        fun id o hne ho => ?_, Or.inl rfl, id, new, heffects, fun e he r t hr => ?_⟩
      · rw [hothers id hne, ho]
      · rw [hreq e he] at hr
        cases hr
  | @replaced released reserved stage old oldId newId target remaining price ht hp
      hq proof timing hstate hdate houtcome hinstruction hrelease hold hremaining hacc
      hreserve hmark =>
      obtain ⟨hothers, habsent, new, heffects, hreq⟩ :=
        Staged.run_release_frame hrelease
      have hnone := hfresh hstate houtcome _ _ _ _ _ _ hinstruction
      have hnew : ∀ e ∈ released.effects, e.request ≠ .account (.reserveBatch
          [replacementOrder old newId remaining price hq hp] at_) := by
        intro e he
        rw [heffects] at he
        rcases List.mem_append.mp he with he | he
        · exact hnone e he _ _ rfl
        · rw [hreq e he]
          simp
      obtain ⟨-, hres⟩ := Staged.run_reserved hnew hreserve
      obtain ⟨cash, stock, hstored⟩ := hres.stored _ List.mem_cons_self
      have hfree := hres.new _ List.mem_cons_self
      obtain ⟨marked, hmarked, rfl⟩ := Staged.mark_ok hmark
      cases hstored.symm.trans hmarked
      have hfreed : a.stage.value.orders.get? newId = none := habsent _ hfree
      obtain ⟨-, ⟨rfl, e, he, -, hr⟩ | ⟨out, out', -, -, rfl⟩⟩ := Staged.run_ok hreserve
      · exact absurd hr (hnew e he)
      refine ⟨⟨rfl, rfl, rfl⟩, ⟨fun _ => Or.inl rfl, fun h => by cases h⟩, fun _ => ?_,
        fun id o hne ho => ?_, Or.inr hfreed, fun _ => rfl,
        new ++ [_], by rw [← List.append_assoc, ← heffects], fun e he r t hr => ?_⟩
      · exact ⟨_, Dict.get?_set_self _ _ _, rfl⟩
      · have hid : id ≠ newId := fun h => by
          rw [h, hfreed] at ho
          cases ho
        rw [AccountState.setOrder_orders, Dict.get?_set_of_ne hid,
          hres.others id fun r hr heq => hid (by rw [← heq, List.mem_singleton.mp hr]; rfl), hothers id hne, ho]
      · rcases List.mem_append.mp he with he | he
        · rw [hreq e he] at hr
          cases hr
        · rw [List.mem_singleton.mp he] at hr
          cases hr
          refine ⟨?_, rfl⟩
          show Instruction.newId? _ = _
          rw [hinstruction]
          rfl

/-! ## The loop over one workflow -/

structure InFlow (ids : Dict String String) (flows : Dict FlowKey Workflow)
    (run : FlowRun) : Prop where
  sound : FlowsSound run.stage.value ids (flows.set run.flow.key run.flow)
  fresh : StageFresh run.stage (flows.set run.flow.key run.flow)

variable {ids : Dict String String} {flows : Dict FlowKey Workflow} {run : FlowRun}

theorem InFlow.self (h : InFlow ids flows run) : run.flow.Proper :=
  h.sound.proper _ _ (Dict.get?_set_self _ _ _)

theorem InFlow.other (h : InFlow ids flows run)
    (hlive : run.flow.live = true) {k : FlowKey} {g : Workflow}
    (hg : (flows.set run.flow.key run.flow).get? k = some g) (hk : k ≠ run.flow.key)
    (hglive : g.live = true) : g.orderId ≠ run.flow.orderId := fun heq =>
  hk (h.sound.apart _ _ g run.flow hg (Dict.get?_set_self _ _ _) hglive hlive heq)

/-- A workflow that waits for a receipt has no replacement in the stage. -/
theorem InFlow.unreplaced (h : InFlow ids flows run)
    (hlive : run.flow.live = true) : run.Unreplaced := by
  intro hstate houtcome oldId newId target price ht hp hinstruction e he new t hnew hreq
  have hop := h.fresh e he new t hreq _ _ (Dict.get?_set_self _ _ _)
    (by rw [hinstruction, hnew]; rfl)
  have hwaiting := (h.self.waiting hlive).resolve_left hstate
  have hrefused := h.self.refused hwaiting hop
  rw [houtcome] at hrefused
  cases hrefused

/-- A move keeps the workflows tied to their orders. -/
theorem Moved.inFlow (h : Moved a b) (hlive : a.flow.live = true)
    (ha : InFlow ids flows a) : InFlow ids flows b := by
  have hother : ∀ {k g}, (flows.set b.flow.key b.flow).get? k = some g →
      k ≠ b.flow.key → (flows.set a.flow.key a.flow).get? k = some g := by
    intro k g hg hk
    rw [Dict.get?_set_of_ne hk] at hg
    rw [Dict.get?_set_of_ne (h.same.key ▸ hk), hg]
  have hself : ∀ {g}, (flows.set b.flow.key b.flow).get? b.flow.key = some g →
      g = b.flow := fun hg =>
    Option.some.inj (hg.symm.trans (Dict.get?_set_self _ _ _))
  have hold : (flows.set a.flow.key a.flow).get? b.flow.key = some a.flow := by
    rw [h.same.key, Dict.get?_set_self]
  -- A workflow is the one that moved or another one, unchanged.
  have hcases : ∀ {k g}, (flows.set b.flow.key b.flow).get? k = some g →
      ∃ g', (flows.set a.flow.key a.flow).get? k = some g' ∧
        g.instruction = g'.instruction := by
    intro k g hg
    by_cases hk : k = b.flow.key
    · subst hk
      rw [hself hg]
      exact ⟨a.flow, hold, h.same.instruction⟩
    · exact ⟨g, hother hg hk, rfl⟩
  have happart : ∀ {k g}, (flows.set b.flow.key b.flow).get? k = some g →
      k ≠ b.flow.key → g.live = true → g.orderId ≠ b.flow.orderId := by
    intro k g hg hk hglive heq
    have hne := ha.other hlive (hother hg hk) (h.same.key ▸ hk) hglive
    rcases h.order with hid | hnone
    · exact hne (heq.trans hid)
    · obtain ⟨o, ho, -⟩ := ha.sound.placed k g (hother hg hk) hglive
      rw [heq, hnone] at ho
      cases ho
  constructor
  · refine ⟨fun k g hg => ?_, fun k g hg => ?_, fun k g hg hglive => ?_,
      fun j k f g hf hg hflive hglive heq => ?_, fun k g hg i hi => ?_,
      fun j k f g i hf hg hi hi' => ?_⟩
    · by_cases hk : k = b.flow.key
      · subst hk
        rw [hself hg]
      · exact ha.sound.keyed k g (hother hg hk)
    · by_cases hk : k = b.flow.key
      · subst hk
        rw [hself hg]
        exact h.proper
      · exact ha.sound.proper k g (hother hg hk)
    · by_cases hk : k = b.flow.key
      · subst hk
        rw [hself hg] at hglive ⊢
        obtain ⟨o, ho, hstatus⟩ := h.placed hglive
        exact ⟨o, ho, fun _ => hstatus⟩
      · obtain ⟨o, ho, hawaits⟩ := ha.sound.placed k g (hother hg hk) hglive
        have hne := ha.other hlive (hother hg hk) (h.same.key ▸ hk) hglive
        exact ⟨o, h.others _ _ hne ho, hawaits⟩
    · by_cases hj : j = b.flow.key
      · by_cases hk : k = b.flow.key
        · rw [hj, hk]
        · subst hj
          rw [hself hf] at heq
          exact absurd heq.symm (happart hg hk hglive)
      · by_cases hk : k = b.flow.key
        · subst hk
          rw [hself hg] at heq
          exact absurd heq (happart hf hj hflive)
        · exact ha.sound.apart j k f g (hother hf hj) (hother hg hk) hflive hglive heq
    · obtain ⟨g', hg', hsame⟩ := hcases hg
      exact ha.sound.named k g' hg' i (hsame ▸ hi)
    · obtain ⟨f', hf', hsame⟩ := hcases hf
      obtain ⟨g', hg', hsame'⟩ := hcases hg
      exact ha.sound.distinct j k f' g' i hf' hg' (hsame ▸ hi) (hsame' ▸ hi')
  · obtain ⟨new, heffects, hnew⟩ := h.effects
    intro e he r t hreq k g hg hi
    rw [heffects] at he
    rcases List.mem_append.mp he with he | he
    · by_cases hk : k = b.flow.key
      · subst hk
        rw [hself hg] at hi ⊢
        refine h.operation (ha.fresh e he r t hreq _ a.flow hold ?_)
        rw [← h.same.instruction, hi]
      · exact ha.fresh e he r t hreq k g (hother hg hk) hi
    · obtain ⟨hid, hop⟩ := hnew e he r t hreq
      obtain ⟨g', hg', hsame⟩ := hcases hg
      have hk := ha.sound.distinct k _ g' a.flow r.orderId hg' hold (hsame ▸ hi) hid
      subst hk
      rw [hself hg]
      exact hop

variable {proofs : List MarketActionEvidence}

theorem flowLoop_moves {Q : FlowRun → Prop}
    {fuel : ℕ} {run run' : FlowRun} {history history' : List FlowHistory}
    (h : flowLoop spec proofs at_ fuel run history = .ok (run', history'))
    (hrun : InFlow ids flows run) (hQ : Q run)
    (hstep : ∀ a b order, InFlow ids flows a → Q a → a.flow.live = true →
      a.flow.nextAt = some at_ → a.stage.value.orders.get? a.flow.orderId = some order →
      FlowMove spec at_ order a b → Moved a b → Q b) :
    InFlow ids flows run' ∧ Q run' ∧ SameFlow run.flow run'.flow := by
  have hall := flowLoop_induction (P := fun r => InFlow ids flows r ∧ Q r ∧
    SameFlow run.flow r.flow) h ⟨hrun, hQ, SameFlow.refl _⟩
    fun a b order ⟨ha, hQa, hsame⟩ hdue horder hmove => by
      have hlive : a.flow.live = true := by rw [Workflow.live, hdue]; rfl
      have hmoved := hmove.moved (ha.unreplaced hlive)
      exact ⟨hmoved.inFlow hlive ha, hstep a b order ha hQa hlive hdue horder hmove hmoved,
        hmoved.same.key.trans hsame.key, hmoved.same.instruction.trans hsame.instruction,
        hmoved.same.tradeDate.trans hsame.tradeDate⟩
  exact hall

/-! ## The loop needs no more fuel -/

def Workflow.rank (f : Workflow) (at_ : Instant) : ℕ :=
  if f.nextAt = some at_ then
    match f.state, f.operation with
    | .waitingMarket, .cancel => 4
    | .waitingMarket, .new => 2
    | _, .cancel => 3
    | _, .new => 1
  else 0

theorem Workflow.rank_le (f : Workflow) (at_ : Instant) : f.rank at_ ≤ 4 := by
  unfold Workflow.rank
  split
  · split <;> omega
  · omega

theorem Workflow.rank_done (h : f.nextAt = none) : f.rank at_ = 0 := by
  rw [Workflow.rank, h, if_neg (by simp)]

theorem FlowMove.rank {order : Order}
    (h : FlowMove spec at_ order a b) (hdue : a.flow.nextAt = some at_)
    (ha : a.flow.Proper) : b.flow.rank at_ < a.flow.rank at_ := by
  have hlive : a.flow.live = true := by rw [Workflow.live, hdue]; rfl
  have hwaiting := ha.waiting hlive
  have hpos : 0 < a.flow.rank at_ := by
    unfold Workflow.rank
    rw [if_pos hdue]
    split <;> omega
  cases h with
  | accepted => rwa [Workflow.rank_done rfl]
  | refused hstate hop hset =>
      simp only [Workflow.rank, hdue, hstate, hop, if_true]
      split <;> omega
  | tooLate => rwa [Workflow.rank_done rfl]
  | cancelRefused => rwa [Workflow.rank_done rfl]
  | cancelled hstate hop hfilled hset =>
      simp only [Workflow.rank, hdue, hstate, hop, if_true]
      split <;> omega
  | ended => rwa [Workflow.rank_done rfl]
  | replaced hstate hdate houtcome =>
      have hreceipt := hwaiting.resolve_left hstate
      cases hop : a.flow.operation with
      | new =>
          have hrefused := ha.refused hreceipt hop
          rw [houtcome] at hrefused
          cases hrefused
      | cancel =>
          simp only [Workflow.rank, hdue, hreceipt, hop, if_true]
          split <;> omega

/-! ## The loop over the due workflows -/

structure AdvanceSound (ids : Dict String String) (acc : AdvanceRun) : Prop where
  sound : FlowsSound acc.stage.value ids acc.workflows
  fresh : StageFresh acc.stage acc.workflows

theorem AdvanceSound.inFlow {acc : AdvanceRun} (h : AdvanceSound ids acc)
    (hf : acc.workflows.get? f.key = some f) :
    InFlow ids acc.workflows ⟨acc.stage, acc.execution, f⟩ := by
  have hset : acc.workflows.set f.key f = acc.workflows := Dict.set_get?_self hf
  exact ⟨by rw [hset]; exact h.sound, by rw [hset]; exact h.fresh⟩

theorem advanceWalk_moves {P : AdvanceRun → Prop} {due : List Workflow} {acc acc' : AdvanceRun}
    (h : walk (advanceOne spec proofs at_) acc due = .ok acc')
    (hnodup : (due.map Workflow.key).Nodup) (hdue : ∀ f ∈ due, acc.workflows.get? f.key = some f)
    (hacc : AdvanceSound ids acc) (hP : P acc)
    (hstep : ∀ acc f run history', AdvanceSound ids acc → P acc →
      acc.workflows.get? f.key = some f →
      flowLoop spec proofs at_ 4 ⟨acc.stage, acc.execution, f⟩ acc.history = .ok (run, history') →
      P ⟨run.stage, run.execution, acc.workflows.set f.key run.flow, history'⟩) :
    AdvanceSound ids acc' ∧ P acc' := by
  induction due generalizing acc with
  | nil =>
      cases h
      exact ⟨hacc, hP⟩
  | cons f due ih =>
      obtain ⟨mid, hone, hrest⟩ := walk_cons_ok.mp h
      rw [List.map_cons, List.nodup_cons] at hnodup
      simp only [advanceOne, bind_ok, pure_ok] at hone
      obtain ⟨⟨run, history'⟩, hloop, hmid⟩ := hone
      have hf := hdue f List.mem_cons_self
      obtain ⟨hin, -, hsame⟩ := flowLoop_moves (Q := fun _ => True) hloop (hacc.inFlow hf)
        trivial fun _ _ _ _ _ _ _ _ _ _ => trivial
      have hkey : run.flow.key = f.key := hsame.key
      have hsound : AdvanceSound ids mid := by
        rw [← hmid, ← hkey]
        exact ⟨hin.sound, hin.fresh⟩
      refine ih hrest hnodup.2 (fun g hg => ?_) hsound ?_
      · have hne : g.key ≠ f.key := fun heq => hnodup.1 (heq ▸ List.mem_map_of_mem hg)
        rw [← hmid, Dict.get?_set_of_ne hne]
        exact hdue g (List.mem_cons_of_mem _ hg)
      · rw [← hmid]
        exact hstep acc f run history' hacc hP hf hloop

theorem dueFlows_perm (flows : Dict FlowKey Workflow) (at_ : Instant) :
    (dueFlows flows at_).Perm (flows.values.filter fun f => f.nextAt = some at_) :=
  List.perm_insertionSort _ _

theorem mem_dueFlows : f ∈ dueFlows flows at_ ↔ f ∈ flows.values ∧ f.nextAt = some at_ := by
  rw [(dueFlows_perm flows at_).mem_iff, List.mem_filter, decide_eq_true_eq]

theorem dueFlows_keys {s : AccountState} (h : FlowsSound s ids flows) (at_ : Instant) :
    ((dueFlows flows at_).map Workflow.key).Nodup ∧
      ∀ f ∈ dueFlows flows at_, flows.get? f.key = some f ∧ f.nextAt = some at_ := by
  have hkeys : flows.values.map Workflow.key = flows.keys := by
    rw [Dict.values, Dict.keys, List.map_map]
    refine List.map_congr_left fun e he => ?_
    exact h.keyed e.1 e.2 (Dict.mem_entries.mp he)
  constructor
  · refine ((dueFlows_perm flows at_).map _).nodup_iff.mpr ?_
    have hnodup : (flows.values.map Workflow.key).Nodup := hkeys ▸ flows.keys_nodup
    exact hnodup.sublist (List.Sublist.map _ List.filter_sublist)
  · intro f hf
    obtain ⟨hmem, hnext⟩ := mem_dueFlows.mp hf
    obtain ⟨k, hk⟩ := Dict.mem_values.mp hmem
    exact ⟨h.keyed k f hk ▸ hk, hnext⟩

end Ahunter.Sim
