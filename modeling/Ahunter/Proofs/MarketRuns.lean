import Ahunter.Proofs.MarketCalls

/-!
# The books of a run

The counters of a run are refreshed by several transactions and its status by
others. What makes them agree is that a finalised run is frozen: nothing that
writes items touches one, so what its finalising counted is still there to
count, until a resume opens the run again.
-/

namespace Ahunter.Market

open Ahunter.Lib
open Ahunter.Sim (Stamp)

variable {c c' : Control}

def RunStatus.final : RunStatus → Bool
  | .partialRun | .complete => true
  | _ => false

structure Frozen (c c' : Control) (runId : String) : Prop where
  run : c'.runs.get? runId = c.runs.get? runId
  items : ∀ k, k.runId = runId → c'.items.get? k = c.items.get? k

theorem Frozen.count {runId : String} (h : Frozen c c' runId) (p : ItemStatus → Bool) :
    c'.countItems runId p = c.countItems runId p :=
  countItems_congr h.items p

structure Settled (c : Control) (runId : String) (run : RunRow) : Prop where
  finished : c.countItems runId (fun s => !s.terminal) = 0
  completed : run.completedItems = c.countItems runId ItemStatus.done
  failed : run.failedItems = c.countItems runId ItemStatus.missed
  complete : run.status = .complete ↔ c.countItems runId ItemStatus.missed = 0

variable {run : RunRow}

theorem Settled.frozen {runId : String} (h : Settled c runId run)
    (hfrozen : Frozen c c' runId) : Settled c' runId run where
  finished := by rw [hfrozen.count]; exact h.finished
  completed := by rw [hfrozen.count]; exact h.completed
  failed := by rw [hfrozen.count]; exact h.failed
  complete := by rw [hfrozen.count]; exact h.complete

/-- A request has one run, and a finalised run shows what its items are. -/
structure Accounted (c : Control) : Prop where
  oneRun : ∀ r r' run run', c.runs.get? r = some run → c.runs.get? r' = some run' →
    run.requestId = run'.requestId → r = r'
  settled : ∀ r run, c.runs.get? r = some run → run.status.final = true → Settled c r run

theorem Accounted.empty : Accounted Control.empty where
  oneRun := fun r r' run run' h => by cases h
  settled := fun r run h => by cases h

theorem Accounted.closed (h : Accounted c) {k : ItemKey} {item : ItemRow}
    (hitem : c.items.get? k = some item) (hrun : c.runs.get? k.runId = some run)
    (hfinal : run.status.final = true) : item.status.terminal = true := by
  have hclosed := countItems_eq_zero.mp (h.settled k.runId run hrun hfinal).finished
  simpa using hclosed k item hitem rfl

/-! ## Steps -/

section Steps

variable {now : Stamp} {c c' : Control} {call : Call}

theorem setAll_other {added : List (ItemKey × ItemRow)} {runId : String}
    (hadded : ∀ e ∈ added, e.1.runId = runId) (d : Dict ItemKey ItemRow) {k : ItemKey}
    (hk : k.runId ≠ runId) : (d.setAll added).get? k = d.get? k := by
  refine Dict.get?_setAll_of_notMem fun hmem => ?_
  obtain ⟨e, he, rfl⟩ := List.mem_map.mp hmem
  exact hk (hadded e he)

variable {run : RunRow}

theorem Effect.final_back (h : Effect now c c' call) (hc : Accounted c) {r : String}
    (hget : c'.runs.get? r = some run) (hfinal : run.status.final = true) :
    (c.runs.get? r = some run ∧ Frozen c c' r) ∨ Settled c' r run := by
  cases h with
  | aside hruns hitems =>
      rw [hruns] at hget
      exact Or.inl ⟨hget, by rw [hruns], fun k _ => by rw [hitems]⟩
  | @created runId _ _ _ _ row added hruns hitems hnew hpending hunserved hadded =>
      rw [hruns, Dict.get?_set] at hget
      split at hget
      · cases hget
        rw [hpending] at hfinal
        cases hfinal
      · next hr =>
          refine Or.inl ⟨hget, by rw [hruns, Dict.get?_set_of_ne hr], fun k hk => ?_⟩
          rw [hitems]
          exact setAll_other (fun e he => (hadded e he).1) c.items (by rw [hk]; exact hr)
  | started hrun hpending hruns hitems =>
      rw [hruns, Dict.get?_set] at hget
      split at hget
      · cases hget
        cases hfinal
      · next hr =>
          exact Or.inl ⟨hget, by rw [hruns, Dict.get?_set_of_ne hr], fun k _ => by rw [hitems]⟩
  | resumed hrun hresumable hruns hitems hrow hrequest =>
      rw [hruns] at hget
      split at hget
      · cases hget
        rw [hrow] at hfinal
        cases hfinal
      · next hr =>
          refine Or.inl ⟨hget, by rw [hruns, if_neg hr], fun k hk => ?_⟩
          rw [hitems, hk]
          simp only [hr, false_and, if_false]
          exact Option.map_id'
  | @marked runId code _ _ _ _ _ item hrun hrunning hitem hopen hstatus hruns hitems hrow _ =>
      rw [hruns] at hget
      split at hget
      · cases hget
        rw [hrow] at hfinal
        cases hfinal
      · next hr =>
          refine Or.inl ⟨hget, by rw [hruns, if_neg hr], fun k hk => ?_⟩
          have hne : k ≠ itemKey (strip runId) code := by
            rintro rfl
            exact hr hk.symm
          rw [hitems, Dict.get?_set_of_ne hne]
  | @claimed runId code _ _ _ item hrun hrunning hitem hopen hfree hruns hitems =>
      rw [hruns] at hget
      refine Or.inl ⟨hget, by rw [hruns], fun k hk => ?_⟩
      have hne : k ≠ itemKey (strip runId) code := by
        rintro rfl
        rw [← hk, itemKey_runId, hrun, Option.some.injEq] at hget
        rw [← hget, hrunning] at hfinal
        cases hfinal
      rw [hitems, Dict.get?_set_of_ne hne]
  | @renewed runId code _ _ item hitem hrunning hholder hlive hruns hitems =>
      rw [hruns] at hget
      refine Or.inl ⟨hget, by rw [hruns], fun k hk => ?_⟩
      have hne : k ≠ itemKey (strip runId) code := by
        rintro rfl
        have hclosed := hc.closed hitem (by rw [hk]; exact hget) hfinal
        rw [hrunning] at hclosed
        cases hclosed
      rw [hitems, Dict.get?_set_of_ne hne]
  | @finalized runId run' row hrun hrunning hfinished hrow hruns hitems =>
      have hsame : ∀ p, c'.countItems (strip runId) p = c.countItems (strip runId) p :=
        countItems_congr fun k _ => by rw [hitems]
      rw [hruns, Dict.get?_set] at hget
      split at hget
      · next hr =>
          cases hget
          subst hr hrow
          right
          refine ⟨by rw [hsame]; exact hfinished, by rw [hsame]; rfl, by rw [hsame]; rfl, ?_⟩
          rw [hsame]
          dsimp only
          split
          · next hmissed => exact ⟨fun h => (by cases h), fun h => absurd h hmissed⟩
          · next hnone => exact ⟨fun _ => not_not.mp hnone, fun _ => rfl⟩
      · next hr =>
          exact Or.inl ⟨hget, by rw [hruns, Dict.get?_set_of_ne hr], fun k _ => by rw [hitems]⟩
  | recovered hruns hitems =>
      by_cases hr : r ∈ (c.staleRuns now).map Prod.fst
      · rw [hruns, Option.map_eq_some_iff] at hget
        obtain ⟨run', -, hrun'⟩ := hget
        rw [if_pos hr] at hrun'
        subst hrun'
        cases hfinal
      · have hsame : c'.runs.get? r = c.runs.get? r := by
          rw [hruns]
          simp only [hr, if_false]
          exact Option.map_id'
        rw [hsame] at hget
        refine Or.inl ⟨hget, hsame, fun k hk => ?_⟩
        rw [hitems, hk]
        simp only [hr, false_and, if_false]
        exact Option.map_id'

theorem Effect.request_back (h : Effect now c c' call) {r : String}
    (hget : c'.runs.get? r = some run) :
    (∃ run', c.runs.get? r = some run' ∧ run'.requestId = run.requestId) ∨
      ((∀ r' run', c.runs.get? r' = some run' → run'.requestId ≠ run.requestId) ∧
        ∀ r' run', c'.runs.get? r' = some run' → r' ≠ r → c.runs.get? r' = some run') := by
  cases h with
  | aside hruns _ =>
      rw [hruns] at hget
      exact Or.inl ⟨run, hget, rfl⟩
  | created hruns _ hnew hpending hunserved _ =>
      rw [hruns, Dict.get?_set] at hget
      split at hget
      · next hr =>
          cases hget
          right
          refine ⟨hunserved, fun r' run' hr' hne => ?_⟩
          rw [hruns, Dict.get?_set_of_ne (by rw [← hr]; exact hne)] at hr'
          exact hr'
      · exact Or.inl ⟨run, hget, rfl⟩
  | @started _ run₀ hrun _ hruns _ =>
      rw [hruns, Dict.get?_set] at hget
      split at hget
      · next hr =>
          cases hget
          rw [hr]
          exact Or.inl ⟨run₀, hrun, rfl⟩
      · exact Or.inl ⟨run, hget, rfl⟩
  | @resumed _ run₀ _ hrun _ hruns _ _ hrequest =>
      rw [hruns] at hget
      split at hget
      · next hr =>
          cases hget
          rw [hr]
          exact Or.inl ⟨run₀, hrun, hrequest.symm⟩
      · exact Or.inl ⟨run, hget, rfl⟩
  | @marked _ _ _ _ _ run₀ _ _ hrun _ _ _ _ hruns _ _ hrequest =>
      rw [hruns] at hget
      split at hget
      · next hr =>
          cases hget
          rw [hr]
          exact Or.inl ⟨run₀, hrun, hrequest.symm⟩
      · exact Or.inl ⟨run, hget, rfl⟩
  | claimed _ _ _ _ _ hruns _ =>
      rw [hruns] at hget
      exact Or.inl ⟨run, hget, rfl⟩
  | renewed _ _ _ _ hruns _ =>
      rw [hruns] at hget
      exact Or.inl ⟨run, hget, rfl⟩
  | @finalized _ run₀ row hrun _ _ hrow hruns _ =>
      rw [hruns, Dict.get?_set] at hget
      split at hget
      · next hr =>
          cases hget
          rw [hr]
          exact Or.inl ⟨run₀, hrun, by rw [hrow]; rfl⟩
      · exact Or.inl ⟨run, hget, rfl⟩
  | recovered hruns _ =>
      rw [hruns, Option.map_eq_some_iff] at hget
      obtain ⟨run', hrun', hone⟩ := hget
      refine Or.inl ⟨run', hrun', ?_⟩
      rw [← hone]
      split <;> rfl

theorem Accounted.effect (hc : Accounted c) (h : Effect now c c' call) : Accounted c' where
  oneRun := by
    intro r r' run run' hr hr' hsame
    rcases h.request_back hr with ⟨old, hold, holdId⟩ | ⟨hunserved, hothers⟩
    · rcases h.request_back hr' with ⟨old', hold', holdId'⟩ | ⟨hunserved', -⟩
      · exact hc.oneRun r r' old old' hold hold' (by rw [holdId, holdId', hsame])
      · exact absurd (by rw [holdId, hsame]) (hunserved' r old hold)
    · by_contra hne
      have hold := hothers r' run' hr' (Ne.symm hne)
      exact hunserved r' run' hold hsame.symm
  settled := by
    intro r run hget hfinal
    rcases h.final_back hc hget hfinal with ⟨hold, hfrozen⟩ | hsettled
    · exact (hc.settled r run hold hfinal).frozen hfrozen
    · exact hsettled

theorem Effect.complete (h : Effect now c c' call) {r : String}
    (hget : c.runs.get? r = some run) (hcomplete : run.status = .complete) :
    c'.runs.get? r = some run := by
  cases h with
  | aside hruns _ => rw [hruns]; exact hget
  | @created runId _ _ _ _ _ _ hruns _ hnew _ _ _ =>
      have hr : r ≠ runId := by
        rintro rfl
        rw [hnew] at hget
        cases hget
      rw [hruns, Dict.get?_set_of_ne hr]
      exact hget
  | @started runId run₀ hrun hpending hruns _ =>
      have hr : r ≠ strip runId := by
        rintro rfl
        rw [hget, Option.some.injEq] at hrun
        rw [← hrun, hcomplete] at hpending
        cases hpending
      rw [hruns, Dict.get?_set_of_ne hr]
      exact hget
  | @resumed runId run₀ _ hrun hresumable hruns _ _ _ =>
      have hr : r ≠ strip runId := by
        rintro rfl
        rw [hget, Option.some.injEq] at hrun
        rw [← hrun, hcomplete] at hresumable
        cases hresumable
      rw [hruns, if_neg hr]
      exact hget
  | @marked runId _ _ _ _ _ _ _ hrun hrunning _ _ _ hruns _ _ _ =>
      have hr : r ≠ strip runId := by
        rintro rfl
        rw [hget, Option.some.injEq] at hrun
        rw [← hrun, hcomplete] at hrunning
        cases hrunning
      rw [hruns, if_neg hr]
      exact hget
  | claimed _ _ _ _ _ hruns _ => rw [hruns]; exact hget
  | renewed _ _ _ _ hruns _ => rw [hruns]; exact hget
  | @finalized runId _ _ hrun hrunning _ _ hruns _ =>
      have hr : r ≠ strip runId := by
        rintro rfl
        rw [hget, Option.some.injEq] at hrun
        rw [← hrun, hcomplete] at hrunning
        cases hrunning
      rw [hruns, Dict.get?_set_of_ne hr]
      exact hget
  | recovered hruns _ =>
      have hr : r ∉ (c.staleRuns now).map Prod.fst := by
        intro hstale
        obtain ⟨run', hrun', hrunning⟩ := Control.stale_running hstale
        rw [hget, Option.some.injEq] at hrun'
        rw [← hrun', hcomplete] at hrunning
        cases hrunning
      rw [hruns, hget]
      simp [hr]

theorem Effect.terminal (h : Effect now c c' call) {k : ItemKey} {item : ItemRow}
    (hget : c.items.get? k = some item) (hterminal : item.status.terminal = true) :
    ∃ item', c'.items.get? k = some item' ∧ (item'.status = item.status ∨
        item.status = .sourceMissing ∧ item'.status = .pending ∧
          ∃ runId, call = .resumePartialRun runId ∧ strip runId = k.runId) := by
  cases h with
  | aside _ hitems => exact ⟨item, by rw [hitems]; exact hget, Or.inl rfl⟩
  | created _ hitems _ _ _ hadded =>
      refine ⟨item, ?_, Or.inl rfl⟩
      rw [hitems, Dict.get?_setAll_of_notMem, hget]
      intro hmem
      obtain ⟨e, he, rfl⟩ := List.mem_map.mp hmem
      rw [(hadded e he).2.1] at hget
      cases hget
  | started _ _ _ hitems => exact ⟨item, by rw [hitems]; exact hget, Or.inl rfl⟩
  | @resumed runId _ _ _ _ _ hitems _ _ =>
      rw [hitems, hget, Option.map_some]
      split
      · next hmissing =>
          exact ⟨_, rfl, Or.inr ⟨hmissing.2, rfl, runId, rfl, hmissing.1.symm⟩⟩
      · exact ⟨item, rfl, Or.inl rfl⟩
  | @marked runId code status _ source' _ _ item₀ _ _ hitem hopen _ _ hitems _ _ =>
      rw [hitems, Dict.get?_set]
      split
      · next hk =>
          rw [hk, hitem, Option.some.injEq] at hget
          subst hget
          exact ⟨_, rfl, Or.inl (hopen hterminal).symm⟩
      · exact ⟨item, hget, Or.inl rfl⟩
  | @claimed _ _ _ _ _ item₀ _ _ hitem hopen _ _ hitems =>
      rw [hitems, Dict.get?_set]
      split
      · next hk =>
          rw [hk, hitem, Option.some.injEq] at hget
          rw [hget, hterminal] at hopen
          cases hopen
      · exact ⟨item, hget, Or.inl rfl⟩
  | @renewed _ _ _ _ item₀ hitem hrunning _ _ _ hitems =>
      rw [hitems, Dict.get?_set]
      split
      · next hk =>
          rw [hk, hitem, Option.some.injEq] at hget
          rw [← hget, hrunning] at hterminal
          cases hterminal
      · exact ⟨item, hget, Or.inl rfl⟩
  | finalized _ _ _ _ _ hitems => exact ⟨item, by rw [hitems]; exact hget, Or.inl rfl⟩
  | recovered _ hitems =>
      rw [hitems, hget, Option.map_some]
      split
      · next hstale =>
          rw [hstale.2] at hterminal
          cases hterminal
      · exact ⟨item, rfl, Or.inl rfl⟩

end Steps

/-! ## Runs of calls -/

variable {digest : IdempotencyKey → String}

theorem Later.accounted (h : Later digest c c') (hc : Accounted c) : Accounted c' := by
  induction h with
  | here => exact hc
  | @next c' h call now ih =>
      rcases Call.after_cases digest call now c' with hsame | heffect
      · rw [hsame]
        exact ih
      · exact ih.effect heffect

theorem Later.complete (h : Later digest c c') {r : String}
    (hget : c.runs.get? r = some run) (hcomplete : run.status = .complete) :
    c'.runs.get? r = some run := by
  induction h with
  | here => exact hget
  | @next c' h call now ih =>
      rcases Call.after_cases digest call now c' with hsame | heffect
      · rw [hsame]
        exact ih
      · exact heffect.complete ih hcomplete

structure RunLaw (digest : IdempotencyKey → String) (c : Control) : Prop where
  oneRun : ∀ r r' run run', c.runs.get? r = some run → c.runs.get? r' = some run' →
    run.requestId = run'.requestId → r = r'
  counters : ∀ r run, c.runs.get? r = some run → run.status.final = true →
    run.completedItems = c.countItems r ItemStatus.done ∧
      run.failedItems = c.countItems r ItemStatus.missed
  complete : ∀ r run, c.runs.get? r = some run → run.status.final = true →
    (run.status = .complete ↔
      ∀ k item, c.items.get? k = some item → k.runId = r → item.status.done = true)
  kept : ∀ c', Later digest c c' → ∀ r run, c.runs.get? r = some run →
    run.status = .complete → c'.runs.get? r = some run
  missed : ∀ (call : Call) now k item, c.items.get? k = some item → item.status.missed = true →
    ∃ item', (call.after digest now c).items.get? k = some item' ∧
      (item'.status = item.status ∨
        item.status = .sourceMissing ∧ item'.status = .pending ∧
          ∃ runId, call = .resumePartialRun runId ∧ strip runId = k.runId)
  unclaimed : ∀ runId code owner now leaseSeconds granted c',
    claimItem runId code owner now leaseSeconds c = .ok (granted, c') →
    ∀ item, c.items.get? (itemKey (strip runId) code) = some item →
      item.status.missed = true → granted = false ∧ c' = c

theorem ItemStatus.terminal_of_missed {s : ItemStatus} (h : s.missed = true) :
    s.terminal = true := by
  cases s <;> first | rfl | cases h

theorem ItemStatus.done_iff {s : ItemStatus} (h : s.terminal = true) :
    s.done = true ↔ s.missed = false := by
  cases s <;> simp_all [ItemStatus.terminal, ItemStatus.done, ItemStatus.missed]

theorem claimItem_terminal {runId code owner : String} {now : Stamp} {leaseSeconds : ℤ}
    {granted : Bool} {item : ItemRow}
    (h : claimItem runId code owner now leaseSeconds c = .ok (granted, c'))
    (hitem : c.items.get? (itemKey (strip runId) code) = some item)
    (hterminal : item.status.terminal = true) : granted = false ∧ c' = c := by
  simp only [claimItem, bind_ok, requireText_ok, need_ok] at h
  obtain ⟨_, ⟨-, rfl⟩, _, ⟨-, rfl⟩, -, -, -, -, -, -, -, -, item', hitem', h⟩ := h
  rw [hitem, Option.some.injEq] at hitem'
  subst hitem'
  rw [if_pos hterminal] at h
  cases h
  exact ⟨rfl, rfl⟩

/-- Whatever calls have been made, by however many callers, the books of the
runs are in order. -/
theorem run_accounting {digest : IdempotencyKey → String} {c : Control}
    (h : Later digest Control.empty c) : RunLaw digest c := by
  have hc := h.accounted Accounted.empty
  refine ⟨hc.oneRun, fun r run hget hfinal => ?_, fun r run hget hfinal => ?_,
    fun c' hlater r run hget hcomplete => hlater.complete hget hcomplete,
    fun call now k item hget hmissed => ?_,
    fun runId code owner now leaseSeconds granted c' hclaim item hitem hmissed =>
      claimItem_terminal hclaim hitem (ItemStatus.terminal_of_missed hmissed)⟩
  · have hsettled := hc.settled r run hget hfinal
    exact ⟨hsettled.completed, hsettled.failed⟩
  · rw [(hc.settled r run hget hfinal).complete, countItems_eq_zero]
    have hclosed : ∀ k item, c.items.get? k = some item → k.runId = r →
        item.status.terminal = true := by
      rintro k item hitem rfl
      exact hc.closed hitem hget hfinal
    constructor
    · intro hnone k item hitem hk
      exact (ItemStatus.done_iff (hclosed k item hitem hk)).mpr (hnone k item hitem hk)
    · intro hdone k item hitem hk
      exact (ItemStatus.done_iff (hclosed k item hitem hk)).mp (hdone k item hitem hk)
  · rcases Call.after_cases digest call now c with hsame | heffect
    · rw [hsame]
      exact ⟨item, hget, Or.inl rfl⟩
    · exact heffect.terminal hget (ItemStatus.terminal_of_missed hmissed)

/-! ## A partial run and its resumption -/

def callsAt (digest : IdempotencyKey → String) (now : Stamp) (calls : List Call)
    (c : Control) : Control :=
  calls.foldl (fun c call => call.after digest now c) c

theorem Later.calls (h : Later digest c c') (now : Stamp) (calls : List Call) :
    Later digest c (callsAt digest now calls c') := by
  induction calls generalizing c' with
  | nil => exact h
  | cons call calls ih => exact ih (h.next call now)

def sampleDigest (_ : IdempotencyKey) : String := "mdreq-1"

def sampleNow : Stamp := ⟨0, ⟨0⟩⟩

theorem sampleCode : isCode "600519" = true := by decide

def sampleSecurity : RunSecurity := ⟨"600519", 0, none, sampleCode, by simp⟩

def sampleHash : String := String.ofList (List.replicate 64 'a')

def partialCalls : List Call := [
  .submitCatchUp 1 2 none, .claimNextRequest "w",
  .createRun "run" "mdreq-1" sampleHash [sampleSecurity] none, .startRun "run",
  .claimItem "run" "600519" "w" 300, .markItem "run" "600519" .sourceMissing none,
  .finalizeRun "run"]

theorem run_accounting_sample :
    RunLaw sampleDigest (callsAt sampleDigest sampleNow partialCalls Control.empty) :=
  run_accounting (Later.here.calls sampleNow partialCalls)

end Ahunter.Market
