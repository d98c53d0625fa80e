import Ahunter.Proofs.OwnItems
import Ahunter.Proofs.Readiness

/-!
# Engines that vouch for items

Engines at work on any runs, and everything else that happens to the tables
but a mark, which only engines make, and a bar, which only engines add. Every
item that is done was ended by an engine of its run, which was called with
sessions for which the item's window is ready.
-/

namespace Ahunter.Market

open Ahunter.Lib
open Ahunter.Sim (Date Stamp)

variable {digest : IdempotencyKey → String}

def Call.MarksNone (call : Call) : Prop :=
  ∀ runId code status source, call ≠ .markItem runId code status source

inductive Beside (digest : IdempotencyKey → String) : Store → Store → Prop
  | control (s : Store) (call : Call) (now : Stamp) (h : call.MarksNone) :
      Beside digest s { s with control := call.after digest now s.control }
  | facts (s : Store) (call : FactCall) (h : call.AddsNoBar) :
      Beside digest s { s with facts := call.after s.facts }

abbrev Engines.Working (digest : IdempotencyKey → String) (p q : Engines) : Prop :=
  Pool.Later EngineCall.exec Job.program (Beside digest) p q

theorem Beside.aside {s t : Store} (h : Beside digest s t) : Aside digest s t := by
  cases h with
  | control call now h => exact .control s call now
  | facts call h => exact .facts s call h

/-! ## Calls of an engine as calls to the control plane -/

def EngineCall.asCall : EngineCall → Option (Call × Stamp)
  | .startRun runId now => some (.startRun runId, now)
  | .claimItem runId code owner now leaseSeconds =>
      some (.claimItem runId code owner leaseSeconds, now)
  | .renewItemClaim runId code owner now leaseSeconds =>
      some (.renewItemClaim runId code owner leaseSeconds, now)
  | .markItem runId code status now source => some (.markItem runId code status source, now)
  | .finalizeRun runId now => some (.finalizeRun runId, now)
  | _ => none

theorem exec_control {c : EngineCall} {s t : Store} {r : Except MarketError c.Answer}
    (h : c.exec s r t) : t.control = s.control ∨
      ∃ call now, c.asCall = some (call, now) ∧ Effect now s.control t.control call := by
  rcases exec_cases h with rfl | ⟨a, ha⟩
  · exact Or.inl rfl
  have heffect : ∀ {α : Type} {x : Attempt (α × Control)} {b : α} {control : Control}
      (call : Call) (now : Stamp), x = .ok (b, control) →
        call.returns (fun _ => "") now s.control = left x → Effect now s.control control call := by
    intro α x b control call now hx hreturns
    exact Call.effect (hreturns.trans (left_ok.mpr ⟨b, hx⟩))
  cases c with
  | startRun runId now =>
      simp only [EngineCall.perform, Option.some.injEq, bind_ok, pure_ok] at ha
      obtain ⟨⟨u, control⟩, hstart, row, _, _, rfl⟩ := ha
      exact Or.inr ⟨_, now, rfl, heffect (.startRun runId) now hstart rfl⟩
  | claimItem runId code owner now leaseSeconds =>
      simp only [EngineCall.perform, Option.some.injEq, bind_ok, pure_ok] at ha
      obtain ⟨⟨u, control⟩, hclaim, _, rfl⟩ := ha
      exact Or.inr ⟨_, now, rfl, heffect (.claimItem runId code owner leaseSeconds) now hclaim rfl⟩
  | renewItemClaim runId code owner now leaseSeconds =>
      simp only [EngineCall.perform, Option.some.injEq, bind_ok, pure_ok] at ha
      obtain ⟨⟨u, control⟩, hrenew, _, rfl⟩ := ha
      exact Or.inr
        ⟨_, now, rfl, heffect (.renewItemClaim runId code owner leaseSeconds) now hrenew rfl⟩
  | markItem runId code status now source =>
      simp only [EngineCall.perform, Option.some.injEq, bind_ok, pure_ok] at ha
      obtain ⟨⟨u, control⟩, hmark, _, rfl⟩ := ha
      exact Or.inr ⟨_, now, rfl, heffect (.markItem runId code status source) now hmark rfl⟩
  | finalizeRun runId now =>
      simp only [EngineCall.perform, Option.some.injEq, bind_ok, pure_ok] at ha
      obtain ⟨⟨u, control⟩, hfinal, _, rfl⟩ := ha
      exact Or.inr ⟨_, now, rfl, heffect (.finalizeRun runId) now hfinal rfl⟩
  | run runId =>
      simp only [EngineCall.perform, Option.some.injEq, bind_ok, pure_ok] at ha
      obtain ⟨_, _, _, rfl⟩ := ha
      exact Or.inl rfl
  | runSecurities runId =>
      simp only [EngineCall.perform, Option.some.injEq, bind_ok, pure_ok] at ha
      obtain ⟨_, _, _, rfl⟩ := ha
      exact Or.inl rfl
  | item runId code =>
      simp only [EngineCall.perform, Option.some.injEq, bind_ok, pure_ok] at ha
      obtain ⟨_, _, _, rfl⟩ := ha
      exact Or.inl rfl
  | commitSecurityObservations bars factors absences =>
      simp only [EngineCall.perform, Option.some.injEq, bind_ok, pure_ok] at ha
      obtain ⟨_, _, _, rfl⟩ := ha
      exact Or.inl rfl
  | coveredDates code start finish =>
      cases ha
      exact Or.inl rfl
  | barsFor code start finish =>
      cases ha
      exact Or.inl rfl
  | factorDates code start finish =>
      cases ha
      exact Or.inl rfl
  | fetchDailyBars code start finish => cases ha
  | absencesFor code sessions now => cases ha
  | fetchAdjustmentFactors code start finish => cases ha
  | clock => cases ha
  | heartbeat owner => cases ha
  | afterCommit code => cases ha

/-! ## Where done items come from -/

theorem Effect.done_back {now : Stamp} {c c' : Control} {call : Call}
    (h : Effect now c c' call) {k : ItemKey} {item' : ItemRow}
    (hget : c'.items.get? k = some item') (hdone : item'.status.done = true) :
    (∃ item, c.items.get? k = some item ∧ item.status.done = true) ∨
      ∃ runId code status source, call = .markItem runId code status source ∧
        k = itemKey (strip runId) code ∧ status.done = true := by
  -- An item that was put back is not done.
  have hkept : ∀ (q : ItemRow → Prop) [DecidablePred q], (c.items.get? k).map (fun item =>
      if q item then requeued now item else item) = some item' →
        ∃ item, c.items.get? k = some item ∧ item.status.done = true := by
    intro q _ hmap
    obtain ⟨item, hitem, hone⟩ := Option.map_eq_some_iff.mp hmap
    split at hone
    · subst hone
      cases hdone
    · subst hone
      exact ⟨item, hitem, hdone⟩
  cases h with
  | aside _ hitems => exact Or.inl ⟨item', hitems ▸ hget, hdone⟩
  | created _ hitems _ _ _ hadded =>
      rw [hitems] at hget
      rcases Dict.get?_setAll hget with hmem | hold
      · obtain ⟨_, _, hpending, _⟩ := hadded _ hmem
        rw [hpending] at hdone
        cases hdone
      · exact Or.inl ⟨item', hold, hdone⟩
  | started _ _ _ hitems => exact Or.inl ⟨item', hitems ▸ hget, hdone⟩
  | resumed _ _ _ hitems _ _ =>
      rw [hitems] at hget
      exact Or.inl (hkept _ hget)
  | marked _ _ _ _ _ _ hitems _ _ =>
      rw [hitems, Dict.get?_set] at hget
      split at hget
      · next hk =>
          cases hget
          exact Or.inr ⟨_, _, _, _, rfl, hk, hdone⟩
      · exact Or.inl ⟨item', hget, hdone⟩
  | claimed _ _ _ _ _ _ hitems =>
      rw [hitems, Dict.get?_set] at hget
      split at hget
      · cases hget
        cases hdone
      · exact Or.inl ⟨item', hget, hdone⟩
  | @renewed _ _ _ _ item _ hrunning _ _ _ hitems =>
      rw [hitems, Dict.get?_set] at hget
      split at hget
      · cases hget
        rw [show (renewedRow item now _).status = item.status from rfl, hrunning] at hdone
        cases hdone
      · exact Or.inl ⟨item', hget, hdone⟩
  | finalized _ _ _ _ _ hitems => exact Or.inl ⟨item', hitems ▸ hget, hdone⟩
  | recovered _ hitems =>
      rw [hitems] at hget
      exact Or.inl (hkept _ hget)

theorem Beside.effect {s t : Store} (h : Beside digest s t) :
    t.control = s.control ∨ ∃ call now, call.MarksNone ∧ Effect now s.control t.control call := by
  cases h with
  | control call now h =>
      rcases Call.after_cases digest call now s.control with hsame | heffect
      · exact Or.inl hsame
      · exact Or.inr ⟨call, now, h, heffect⟩
  | facts call h => exact Or.inl rfl

/-! ## Vouching -/

def Engines.Vouched (p : Engines) (k : ItemKey) : Prop :=
  ∃ task ∈ p.tasks, strip task.1.runId = k.runId ∧
    Ready task.1.sessions task.1.runId (ofLex k).2 p.state

structure Engines.Lawful (p : Engines) : Prop where
  sound : p.state.Sound
  accounted : Accounted p.state.control
  safe : p.Safe EngineCall.exec fun job c s => May job.sessions c s ∧ c.Own job.runId
  vouched : ∀ k item, p.state.control.items.get? k = some item → item.status.done = true →
    p.Vouched k

theorem Engines.Lawful.idle {facts : Facts} (hk : facts.Keyed) :
    Engines.Lawful ⟨⟨Control.empty, facts⟩, []⟩ where
  sound := ⟨Windowed.empty, hk⟩
  accounted := Accounted.empty
  safe _ htask := by cases htask
  vouched _ _ h := by cases h

variable {p q : Engines}

theorem Engines.Vouched.later {k : ItemKey} (h : p.Vouched k)
    (hs : p.state.Sound) (hle : p.state ≤ q.state)
    (htasks : ∀ task ∈ p.tasks, ∃ task' ∈ q.tasks, task'.1 = task.1) : q.Vouched k := by
  obtain ⟨task, htask, hrun, hready⟩ := h
  obtain ⟨task', htask', hsame⟩ := htasks task htask
  exact ⟨task', htask', hsame ▸ hrun, hsame ▸ hready.later hs hle⟩

theorem labels_stay (h : PoolStep EngineCall.exec Job.program (Beside digest) p q) :
    ∀ task ∈ p.tasks, ∃ task' ∈ q.tasks, task'.1 = task.1 := by
  intro task htask
  cases h with
  | spawn s tasks l => exact ⟨task, List.mem_append_left _ htask, rfl⟩
  | call us vs l c next r h =>
      rcases List.mem_append.mp htask with htask | htask
      · exact ⟨task, List.mem_append_left _ htask, rfl⟩
      · rcases List.mem_cons.mp htask with rfl | htask
        · exact ⟨_, List.mem_append_right us List.mem_cons_self, rfl⟩
        · exact ⟨task, List.mem_append_right us (List.mem_cons_of_mem _ htask), rfl⟩
  | other tasks h => exact ⟨task, htask, rfl⟩

theorem Engines.Lawful.step (h : p.Lawful)
    (hstep : PoolStep EngineCall.exec Job.program (Beside digest) p q) :
    q.Lawful ∧ p.state ≤ q.state := by
  obtain ⟨hle, hsafe⟩ := hstep.safe (fun _ _ _ _ _ hmay => exec_le hmay.1)
    (fun _ _ hbeside => hbeside.aside.le)
    (fun job => Safe.heeding (executeRun_works h.sound) executeRun_owns) h.safe
  have hlabels := labels_stay hstep
  have hkept : ∀ k, p.Vouched k → q.Vouched k := fun k hk => hk.later h.sound hle hlabels
  refine ⟨⟨(hle h.sound).sound, ?_, hsafe, ?_⟩, hle⟩
  · cases hstep with
    | spawn s tasks l => exact h.accounted
    | @call s t us vs l c next r hexec =>
        show Accounted t.control
        rcases exec_control hexec with hsame | ⟨call, now, _, heffect⟩
        · rw [hsame]
          exact h.accounted
        · exact h.accounted.effect heffect
    | @other s t tasks hbeside =>
        show Accounted t.control
        rcases hbeside.effect with hsame | ⟨call, now, _, heffect⟩
        · rw [hsame]
          exact h.accounted
        · exact h.accounted.effect heffect
  · intro k item' hget hdone
    cases hstep with
    | spawn s tasks l => exact hkept k (h.vouched k item' hget hdone)
    | @call s t us vs l c next r hexec =>
        replace hget : t.control.items.get? k = some item' := hget
        rcases exec_control hexec with hsame | ⟨call, now, hcall, heffect⟩
        · rw [hsame] at hget
          exact hkept k (h.vouched k item' hget hdone)
        rcases heffect.done_back hget hdone with ⟨item, hitem, hold⟩ |
          ⟨runId, code, status, source, rfl, rfl, hstatus⟩
        · exact hkept k (h.vouched k item hitem hold)
        · -- The item has just been marked, by an engine of its run that may.
          have hmay := (h.safe (l, .call c next)
            (List.mem_append_right us List.mem_cons_self) s le_rfl).1
          cases c <;> cases hcall
          obtain ⟨hready, hown⟩ := hmay
          have hrun : runId = l.runId := hown
          subst hrun
          refine ⟨(l, next r), List.mem_append_right us List.mem_cons_self, rfl, ?_⟩
          exact (hready hstatus h.sound).later h.sound hle
    | @other s t tasks hbeside =>
        replace hget : t.control.items.get? k = some item' := hget
        rcases hbeside.effect with hsame | ⟨call, now, hmarks, heffect⟩
        · rw [hsame] at hget
          exact hkept k (h.vouched k item' hget hdone)
        rcases heffect.done_back hget hdone with ⟨item, hitem, hold⟩ |
          ⟨runId, code, status, source, hmark, _⟩
        · exact hkept k (h.vouched k item hitem hold)
        · exact absurd hmark (hmarks runId code status source)

theorem Engines.Lawful.working (h : p.Lawful) (hq : p.Working digest q) :
    q.Lawful ∧ p.state ≤ q.state := by
  induction hq with
  | refl => exact ⟨h, le_rfl⟩
  | tail _ hstep ih =>
      obtain ⟨hlawful, hle⟩ := ih
      obtain ⟨hlawful', hle'⟩ := hlawful.step hstep
      exact ⟨hlawful', hle.trans hle'⟩

theorem Accounted.done {c : Control} (h : Accounted c) {r : String} {run : RunRow}
    (hrun : c.runs.get? r = some run) (hcomplete : run.status = .complete) {k : ItemKey}
    {item : ItemRow} (hitem : c.items.get? k = some item) (hk : k.runId = r) :
    item.status.done = true := by
  have hfinal : run.status.final = true := by rw [hcomplete]; rfl
  have hsettled := h.settled r run hrun hfinal
  have hmissed := countItems_eq_zero.mp (hsettled.complete.mp hcomplete) k item hitem hk
  have hclosed : item.status.terminal = true := h.closed hitem (hk ▸ hrun) hfinal
  exact (ItemStatus.done_iff hclosed).mpr hmissed

end Ahunter.Market
