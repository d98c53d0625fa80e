import Ahunter.Market.Control

/-!
# What a call can do

Whether the work of a run may go on, who may go on with it and what is
counted of it are all questions about two tables, the runs and the items.
Here every operation is read once, as the change it makes to these two, with
the checks it makes on the way.
-/

namespace Ahunter.Market

open Ahunter.Lib
open Ahunter.Sim (Date Stamp)

/-! ## Checks -/

variable {c' : Control}

@[simp] theorem requireText_ok {value field text : String} {maximum : ℕ} :
    requireText value field maximum = .ok text ↔
      (strip value ≠ "" ∧ (strip value).length ≤ maximum) ∧ strip value = text := by
  simp only [requireText, bind_ok, refuse_ok, pure_ok, not_or, not_lt]
  constructor
  · rintro ⟨_, h, h'⟩
    exact ⟨h, h'⟩
  · rintro ⟨h, h'⟩
    exact ⟨(), h, h'⟩

theorem left_ok {α : Type} {x : Attempt (α × Control)} :
    left x = .ok c' ↔ ∃ a, x = .ok (a, c') := by
  simp only [left, bind_ok, pure_ok]
  constructor
  · rintro ⟨⟨a, _⟩, hx, rfl⟩
    exact ⟨a, hx⟩
  · rintro ⟨a, hx⟩
    exact ⟨(a, c'), hx, rfl⟩

theorem itemKey_runId (runId code : String) : (itemKey runId code).runId = runId := rfl

/-! ## Counting -/

variable {c : Control}

theorem countItems_eq_zero {runId : String} {p : ItemStatus → Bool} :
    c.countItems runId p = 0 ↔
      ∀ k item, c.items.get? k = some item → k.runId = runId → p item.status = false := by
  rw [Control.countItems, List.length_eq_zero_iff, List.filter_eq_nil_iff]
  constructor
  · intro h k item hget hk
    have hone := h (k, item) (Dict.mem_entries.mpr hget)
    simpa [hk] using hone
  · rintro h ⟨k, item⟩ hmem
    rw [Bool.and_eq_true, decide_eq_true_eq, not_and, Bool.not_eq_true]
    exact h k item (Dict.mem_entries.mp hmem)

theorem countItems_congr {runId : String}
    (h : ∀ k, k.runId = runId → c'.items.get? k = c.items.get? k) (p : ItemStatus → Bool) :
    c'.countItems runId p = c.countItems runId p := by
  have hsame : c'.items.filter (fun k _ => decide (k.runId = runId))
      = c.items.filter fun k _ => decide (k.runId = runId) := by
    refine Dict.ext_get? fun k => ?_
    rw [Dict.get?_filter, Dict.get?_filter]
    by_cases hk : k.runId = runId
    · rw [h k hk]
    · cases c.items.get? k <;> cases c'.items.get? k <;> simp [hk]
  have hcount : ∀ d : Control, d.countItems runId p
      = ((d.items.filter fun k _ => decide (k.runId = runId)).entries.filter
        fun e => p e.2.status).length := by
    intro d
    rw [Control.countItems, Dict.filter, List.filter_filter]
    congr 1
    refine List.filter_congr fun e _ => ?_
    rw [Bool.and_comm]
  rw [hcount, hcount, hsame]

/-! ## Pieces of operations -/

variable {now : Stamp}

@[simp] theorem setRequest_runs (c : Control) (requestId : String) (row : RequestRow) :
    (c.setRequest requestId row).runs = c.runs := rfl

@[simp] theorem setRequest_items (c : Control) (requestId : String) (row : RequestRow) :
    (c.setRequest requestId row).items = c.items := rfl

@[simp] theorem setRun_runs (c : Control) (runId : String) (row : RunRow) :
    (c.setRun runId row).runs = c.runs.set runId row := rfl

@[simp] theorem setRun_items (c : Control) (runId : String) (row : RunRow) :
    (c.setRun runId row).items = c.items := rfl

@[simp] theorem setItem_runs (c : Control) (k : ItemKey) (row : ItemRow) :
    (c.setItem k row).runs = c.runs := rfl

@[simp] theorem setItem_items (c : Control) (k : ItemKey) (row : ItemRow) :
    (c.setItem k row).items = c.items.set k row := rfl

@[simp] theorem requeue_runs (c : Control) (runId : String) (status : ItemStatus)
    (now : Stamp) : (c.requeue runId status now).runs = c.runs := rfl

theorem requeue_item (c : Control) (runId : String) (status : ItemStatus) (now : Stamp)
    (k : ItemKey) : (c.requeue runId status now).items.get? k
      = (c.items.get? k).map fun item =>
        if k.runId = runId ∧ item.status = status then requeued now item else item := by
  rw [Control.requeue, Dict.get?_map]

@[simp] theorem unclaim_runs (c : Control) (requestId : String) :
    (c.unclaim requestId).runs = c.runs := by
  unfold Control.unclaim
  split
  · rfl
  · split <;> rfl

@[simp] theorem unclaim_items (c : Control) (requestId : String) :
    (c.unclaim requestId).items = c.items := by
  unfold Control.unclaim
  split
  · rfl
  · split <;> rfl

@[simp] theorem unstart_items (c : Control) (runId : String) :
    (c.unstart runId).items = c.items := by
  unfold Control.unstart
  split <;> rfl

def unstarted (run : RunRow) : RunRow := { run with status := .pending, startedAt := none }

theorem unstart_run (c : Control) (runId r : String) :
    (c.unstart runId).runs.get? r
      = (c.runs.get? r).map fun run => if r = runId then unstarted run else run := by
  unfold Control.unstart
  split
  · next hnone =>
      by_cases hr : r = runId
      · rw [hr, hnone]
        rfl
      · simp [hr]
  · next run hrun =>
      rw [setRun_runs, Dict.get?_set]
      by_cases hr : r = runId
      · rw [if_pos hr, hr, hrun]
        simp [unstarted]
      · simp [hr]

def counted (c : Control) (runId : String) (run : RunRow) : RunRow :=
  { run with
    completedItems := c.countItems runId ItemStatus.done
    failedItems := c.countItems runId ItemStatus.missed }

@[simp] theorem refreshRunProgress_items (runId : String) (c : Control) :
    (refreshRunProgress runId c).items = c.items := by
  unfold refreshRunProgress
  split <;> rfl

theorem refreshRunProgress_run (runId : String) (c : Control) (r : String) :
    (refreshRunProgress runId c).runs.get? r
      = (c.runs.get? r).map fun run => if r = runId then counted c runId run else run := by
  unfold refreshRunProgress
  split
  · next hnone =>
      by_cases hr : r = runId
      · rw [hr, hnone]
        rfl
      · simp [hr]
  · next run hrun =>
      rw [setRun_runs, Dict.get?_set]
      by_cases hr : r = runId
      · rw [if_pos hr, hr, hrun]
        simp [counted]
      · simp [hr]

theorem recoverRuns_tables (now : Stamp) (l : List (String × String)) (c : Control) :
    (∀ r, (l.foldl (fun c e => recoverRun now c e.1 e.2) c).runs.get? r
      = (c.runs.get? r).map fun run => if r ∈ l.map Prod.fst then unstarted run else run) ∧
    ∀ k, (l.foldl (fun c e => recoverRun now c e.1 e.2) c).items.get? k
      = (c.items.get? k).map fun item =>
        if k.runId ∈ l.map Prod.fst ∧ item.status = .running then requeued now item else item := by
  induction l generalizing c with
  | nil => exact ⟨fun r => by simp, fun k => by simp⟩
  | cons e l ih =>
      obtain ⟨hruns, hitems⟩ := ih (recoverRun now c e.1 e.2)
      rw [List.foldl_cons]
      refine ⟨fun r => ?_, fun k => ?_⟩
      · rw [hruns, recoverRun, unclaim_runs, unstart_run, requeue_runs, Option.map_map]
        refine Option.map_congr fun run _ => ?_
        rw [Function.comp_apply, List.map_cons]
        by_cases hr : r = e.1 <;> by_cases hl : r ∈ l.map Prod.fst <;>
          simp [hr, hl, unstarted]
      · rw [hitems, recoverRun, unclaim_items, unstart_items, requeue_item, Option.map_map]
        refine Option.map_congr fun item _ => ?_
        rw [Function.comp_apply, List.map_cons]
        by_cases hk : k.runId = e.1 <;> by_cases hl : k.runId ∈ l.map Prod.fst <;>
          by_cases hs : item.status = .running <;> simp [hk, hl, hs, requeued]

theorem unclaims_tables (l : List String) (c : Control) :
    (l.foldl Control.unclaim c).runs = c.runs ∧ (l.foldl Control.unclaim c).items = c.items := by
  induction l generalizing c with
  | nil => exact ⟨rfl, rfl⟩
  | cons requestId l ih =>
      obtain ⟨hruns, hitems⟩ := ih (c.unclaim requestId)
      rw [List.foldl_cons, hruns, hitems]
      exact ⟨unclaim_runs c requestId, unclaim_items c requestId⟩

def Control.stale (c : Control) (now : Stamp) (runId : String) : Prop :=
  runId ∈ (c.staleRuns now).map Prod.fst

theorem Control.stale_running {runId : String} (h : c.stale now runId) :
    ∃ run, c.runs.get? runId = some run ∧ run.status = .running := by
  obtain ⟨e, he, rfl⟩ := List.mem_map.mp h
  obtain ⟨⟨r, run⟩, hmem, hsome⟩ := List.mem_filterMap.mp he
  by_cases hrunning : run.status = .running
  · rw [if_pos hrunning] at hsome
    obtain ⟨request, -, hone⟩ := Option.bind_eq_some_iff.mp hsome
    split at hone
    · cases hone
    · cases hone
      exact ⟨run, Dict.mem_entries.mp hmem, hrunning⟩
  · rw [if_neg hrunning] at hsome
    cases hsome

/-! ## The effect of a call -/

inductive Effect (now : Stamp) (c c' : Control) : Call → Prop
  /-- It had nothing to do with either. -/
  | aside {call : Call} (hruns : c'.runs = c.runs) (hitems : c'.items = c.items) :
      Effect now c c' call
  | created {runId requestId universeHash : String} {securities : List RunSecurity}
      {ranges : Option ItemRanges} {row : RunRow} {added : List (ItemKey × ItemRow)}
      (hruns : c'.runs = c.runs.set runId row) (hitems : c'.items = c.items.setAll added)
      (hnew : c.runs.get? runId = none) (hpending : row.status = .pending)
      (hunserved : ∀ r run, c.runs.get? r = some run → run.requestId ≠ row.requestId)
      (hadded : ∀ e ∈ added, e.1.runId = runId ∧ c.items.get? e.1 = none ∧
        e.2.status = .pending ∧ e.2.claimedBy = none) :
      Effect now c c' (.createRun runId requestId universeHash securities ranges)
  | started {runId : String} {run : RunRow} (hrun : c.runs.get? (strip runId) = some run)
      (hpending : run.status = .pending)
      (hruns : c'.runs = c.runs.set (strip runId)
        { run with status := .running, startedAt := some now })
      (hitems : c'.items = c.items) : Effect now c c' (.startRun runId)
  | resumed {runId : String} {run row : RunRow} (hrun : c.runs.get? (strip runId) = some run)
      (hresumable : run.status = .partialRun)
      (hruns : ∀ r, c'.runs.get? r = if r = strip runId then some row else c.runs.get? r)
      (hitems : ∀ k, c'.items.get? k = (c.items.get? k).map fun item =>
        if k.runId = strip runId ∧ item.status = .sourceMissing then requeued now item
        else item) (hrow : row.status = .running) (hrequest : row.requestId = run.requestId) :
      Effect now c c' (.resumePartialRun runId)
  | marked {runId code : String} {status : ItemStatus} {source source' : Option String}
      {run row : RunRow} {item : ItemRow} (hrun : c.runs.get? (strip runId) = some run)
      (hrunning : run.status = .running)
      (hitem : c.items.get? (itemKey (strip runId) code) = some item)
      (hopen : item.status.terminal = true → item.status = status)
      (hstatus : status ≠ .pending)
      (hruns : ∀ r, c'.runs.get? r = if r = strip runId then some row else c.runs.get? r)
      (hitems : c'.items = c.items.set (itemKey (strip runId) code)
        (markedRow item status now source'))
      (hrow : row.status = .running) (hrequest : row.requestId = run.requestId) :
      Effect now c c' (.markItem runId code status source)
  | claimed {runId code owner : String} {leaseSeconds : ℤ} {run : RunRow} {item : ItemRow}
      (hrun : c.runs.get? (strip runId) = some run) (hrunning : run.status = .running)
      (hitem : c.items.get? (itemKey (strip runId) code) = some item)
      (hopen : item.status.terminal = false)
      (hfree : item.status = .running → (∃ holder ∈ item.claimedBy, holder ≠ strip owner) →
        item.expired now = true)
      (hruns : c'.runs = c.runs)
      (hitems : c'.items = c.items.set (itemKey (strip runId) code)
        (claimedRow item (strip owner) now leaseSeconds)) :
      Effect now c c' (.claimItem runId code owner leaseSeconds)
  | renewed {runId code owner : String} {leaseSeconds : ℤ} {item : ItemRow}
      (hitem : c.items.get? (itemKey (strip runId) code) = some item)
      (hrunning : item.status = .running) (hholder : item.claimedBy = some (strip owner))
      (hlive : item.expired now = false) (hruns : c'.runs = c.runs)
      (hitems : c'.items = c.items.set (itemKey (strip runId) code)
        (renewedRow item now leaseSeconds)) :
      Effect now c c' (.renewItemClaim runId code owner leaseSeconds)
  | finalized {runId : String} {run row : RunRow} (hrun : c.runs.get? (strip runId) = some run)
      (hrunning : run.status = .running)
      (hfinished : c.countItems (strip runId) (fun s => !s.terminal) = 0)
      (hrow : row = { counted c (strip runId) run with
        status := if c.countItems (strip runId) ItemStatus.missed ≠ 0 then .partialRun
          else .complete
        finishedAt := some now })
      (hruns : c'.runs = c.runs.set (strip runId) row) (hitems : c'.items = c.items) :
      Effect now c c' (.finalizeRun runId)
  | recovered {leaseSeconds : ℤ}
      (hruns : ∀ r, c'.runs.get? r = (c.runs.get? r).map fun run =>
        if r ∈ (c.staleRuns now).map Prod.fst then unstarted run else run)
      (hitems : ∀ k, c'.items.get? k = (c.items.get? k).map fun item =>
        if k.runId ∈ (c.staleRuns now).map Prod.fst ∧ item.status = .running then
          requeued now item
        else item) : Effect now c c' (.recoverExpiredWork leaseSeconds)

/-- An operation that leaves the runs and the items alone. -/
structure Keeps {α : Type} (c : Control) (x : Attempt (α × Control)) : Prop where
  tables : ∀ a c', x = .ok (a, c') → c'.runs = c.runs ∧ c'.items = c.items

section Keeps

variable {α β : Type} {c c' : Control}

theorem Keeps.pure {a : α} (hruns : c'.runs = c.runs) (hitems : c'.items = c.items) :
    Keeps c (pure (a, c')) := by
  refine ⟨fun b d h => ?_⟩
  cases h
  exact ⟨hruns, hitems⟩

theorem Keeps.bind {x : Attempt β} {f : β → Attempt (α × Control)} (h : ∀ b, Keeps c (f b)) :
    Keeps c (x >>= f) := by
  refine ⟨fun a d hx => ?_⟩
  obtain ⟨b, -, hb⟩ := bind_ok.mp hx
  exact (h b).tables a d hb

end Keeps

variable {owner : String} {leaseSeconds : ℤ} {granted : Bool}

theorem insertRequest_keeps (digest : IdempotencyKey → String) (row : RequestRow)
    (c : Control) : Keeps c (insertRequest digest row c) := by
  unfold insertRequest
  split
  · exact .pure rfl rfl
  · exact .bind fun _ => .pure rfl rfl

theorem submitColdStart_keeps (digest : IdempotencyKey → String) (target start : Date)
    (now : Stamp) (c : Control) : Keeps c (submitColdStart digest target start now c) := by
  unfold submitColdStart
  exact .bind fun _ => insertRequest_keeps digest _ c

theorem submitCatchUp_keeps (digest : IdempotencyKey → String) (start finish : Date)
    (now : Stamp) (scope : Option String) (c : Control) :
    Keeps c (submitCatchUp digest start finish now scope c) := by
  unfold submitCatchUp
  exact .bind fun _ => .bind fun _ => insertRequest_keeps digest _ c

theorem acquireLease_keeps (owner : String) (now : Stamp) (leaseSeconds : ℤ) (c : Control) :
    Keeps c (acquireLease owner now leaseSeconds c) := by
  unfold acquireLease
  refine .bind fun _ => .bind fun _ => ?_
  split
  · exact .pure rfl rfl
  · exact .pure rfl rfl

theorem releaseLease_keeps (owner : String) (c : Control) : Keeps c (releaseLease owner c) := by
  unfold releaseLease
  refine .bind fun _ => ?_
  split
  · exact .pure rfl rfl
  · exact .pure rfl rfl

theorem claimNextRequest_keeps (owner : String) (now : Stamp) (c : Control) :
    Keeps c (claimNextRequest owner now c) := by
  unfold claimNextRequest
  refine .bind fun _ => ?_
  dsimp only
  split
  · exact .pure rfl rfl
  · exact .pure rfl rfl

theorem claimRecoveredRequest_keeps (owner : String) (now : Stamp) (c : Control) :
    Keeps c (claimRecoveredRequest owner now c) := by
  unfold claimRecoveredRequest
  refine .bind fun _ => ?_
  dsimp only
  split
  · exact .pure rfl rfl
  · exact .pure rfl rfl

theorem releaseRequestClaim_keeps (requestId owner : String) (c : Control) :
    Keeps c (releaseRequestClaim requestId owner c) := by
  unfold releaseRequestClaim
  exact .bind fun _ => .bind fun _ => .bind fun _ => .pure rfl rfl

theorem completeClaimedRequest_keeps (requestId owner : String) (now : Stamp) (c : Control) :
    Keeps c (completeClaimedRequest requestId owner now c) := by
  unfold completeClaimedRequest
  exact .bind fun _ => .bind fun _ => .bind fun _ => .pure rfl rfl

theorem configureClaimedRequest_keeps (requestId : String) (target start finish : Date)
    (c : Control) : Keeps c (configureClaimedRequest requestId target start finish c) := by
  unfold configureClaimedRequest
  exact .bind fun _ => .bind fun _ => .bind fun _ => .bind fun _ => .bind fun _ =>
    .pure rfl rfl

theorem firstBy_none {α κ : Type} [LinearOrder κ] {key : α → κ} {l : List α}
    (h : firstBy key l = none) : l = [] := by
  have hkeeps : ∀ (l : List α) (a : α), l.foldl (earlier key) (some a) ≠ none := by
    intro l
    induction l with
    | nil => exact fun a h => by cases h
    | cons x l ih =>
        intro a
        rw [List.foldl_cons, earlier]
        split
        · exact ih x
        · exact ih a
  cases l with
  | nil => rfl
  | cons x l =>
      have hone : earlier key none x = some x := if_pos (by simp)
      rw [firstBy, List.foldl_cons, hone] at h
      exact absurd h (hkeeps l x)

theorem runFor_none {requestId : String} (h : c.runFor requestId = none) :
    ∀ r run, c.runs.get? r = some run → run.requestId ≠ requestId := by
  intro r run hget heq
  have hnil := firstBy_none h
  rw [List.filter_eq_nil_iff] at hnil
  exact hnil (r, run) (Dict.mem_entries.mpr hget) (by simpa using heq)

theorem createRun_effect {runId requestId universeHash : String} {securities : List RunSecurity}
    {ranges : Option ItemRanges} {r : String}
    (h : createRun runId requestId universeHash securities ranges now c = .ok (r, c')) :
    Effect now c c' (.createRun runId requestId universeHash securities ranges) := by
  simp only [createRun, bind_ok, requireText_ok] at h
  obtain ⟨_, ⟨-, rfl⟩, -, -, -, -, -, -, -, -, request, -, -, -, h⟩ := h
  split at h
  · cases h
    exact .aside rfl rfl
  · next hnone =>
      simp only [insertRun, bind_ok, refuse_ok, need_ok, pure_ok, Prod.mk.injEq, not_exists,
        not_and, Bool.not_eq_true] at h
      obtain ⟨target, -, start, -, finish, -, -, -, -, hnew, -, -, -, hitems, -, rfl⟩ := h
      refine .created rfl rfl (by simpa [Dict.contains] using hnew) rfl (runFor_none hnone)
        fun e he => ?_
      obtain ⟨s, hs, rfl⟩ := List.mem_map.mp he
      refine ⟨rfl, ?_, rfl, rfl⟩
      simpa [Dict.contains] using hitems s hs

variable {u : Unit}

theorem startRun_effect {runId : String} (h : startRun runId now c = .ok (u, c')) :
    Effect now c c' (.startRun runId) := by
  simp only [startRun, bind_ok, requireText_ok, need_ok, refuse_ok, not_not, pure_ok,
    Prod.mk.injEq] at h
  obtain ⟨_, ⟨-, rfl⟩, run, hrun, -, hpending, -, rfl⟩ := h
  exact .started hrun hpending rfl rfl

theorem resumePartialRun_effect {runId : String} (h : resumePartialRun runId now c = .ok (u, c')) :
    Effect now c c' (.resumePartialRun runId) := by
  simp only [resumePartialRun, bind_ok, requireText_ok, need_ok, refuse_ok, not_not, pure_ok,
    Prod.mk.injEq] at h
  obtain ⟨_, ⟨-, rfl⟩, run, hrun, -, hresumable, -, rfl⟩ := h
  let resumed := (c.requeue (strip runId) .sourceMissing now).setRun (strip runId)
    { run with status := .running, startedAt := some now, finishedAt := none }
  have hruns : ∀ r, (refreshRunProgress (strip runId) resumed).runs.get? r
      = if r = strip runId then some (counted resumed (strip runId)
        { run with status := .running, startedAt := some now, finishedAt := none })
        else c.runs.get? r := by
    intro r
    rw [refreshRunProgress_run, setRun_runs, Dict.get?_set]
    by_cases hr : r = strip runId
    · simp only [hr, if_true, Option.map_some]
    · simp only [hr, if_false, requeue_runs]
      exact Option.map_id'
  refine .resumed hrun hresumable hruns (fun k => ?_) rfl rfl
  rw [refreshRunProgress_items, setRun_items, requeue_item]

variable {runId code : String}

theorem markItem_cases {status : ItemStatus} {source : Option String}
    (h : markItem runId code status now source c = .ok (u, c')) :
    ∃ run row item source', c.runs.get? (strip runId) = some run ∧ run.status = .running ∧
      c.items.get? (itemKey (strip runId) code) = some item ∧
      (item.status.terminal = true → item.status = status) ∧ status ≠ .pending ∧
      (∀ r, c'.runs.get? r = if r = strip runId then some row else c.runs.get? r) ∧
      c'.items = c.items.set (itemKey (strip runId) code) (markedRow item status now source') ∧
      row.status = .running ∧ row.requestId = run.requestId := by
  simp only [markItem, runItem, bind_ok, requireText_ok, need_ok, refuse_ok, not_not, not_and,
    pure_ok, Prod.mk.injEq] at h
  obtain ⟨_, ⟨-, rfl⟩, -, -, -, hstatus, source', -, ⟨run, item⟩,
    ⟨run', hrun, item', hitem, rfl, rfl⟩, -, hrunning, -, hopen, -, rfl⟩ := h
  dsimp only at hrunning hopen
  let marked := c.setItem (itemKey (strip runId) code) (markedRow item status now source')
  split
  · have hruns : ∀ r, (refreshRunProgress (strip runId) marked).runs.get? r
        = if r = strip runId then some (counted marked (strip runId) run)
          else c.runs.get? r := by
      intro r
      rw [refreshRunProgress_run, setItem_runs]
      by_cases hr : r = strip runId
      · simp only [hr, if_true, hrun, Option.map_some]
      · simp only [hr, if_false]
        exact Option.map_id'
    exact ⟨run, _, item, source', hrun, hrunning, hitem, hopen, hstatus, hruns,
      refreshRunProgress_items _ _, hrunning, rfl⟩
  · have hruns : ∀ r, marked.runs.get? r
        = if r = strip runId then some run else c.runs.get? r := by
      intro r
      by_cases hr : r = strip runId
      · rw [if_pos hr, hr, setItem_runs, hrun]
      · rw [if_neg hr, setItem_runs]
    exact ⟨run, run, item, source', hrun, hrunning, hitem, hopen, hstatus, hruns, rfl,
      hrunning, rfl⟩

theorem markItem_effect {status : ItemStatus} {source : Option String}
    (h : markItem runId code status now source c = .ok (u, c')) :
    Effect now c c' (.markItem runId code status source) := by
  obtain ⟨run, row, item, source', hrun, hrunning, hitem, hopen, hstatus, hruns, hitems, hrow,
    hrequest⟩ := markItem_cases h
  exact .marked hrun hrunning hitem hopen hstatus hruns hitems hrow hrequest

theorem claimItem_cases (h : claimItem runId code owner now leaseSeconds c = .ok (granted, c')) :
    (granted = false ∧ c' = c) ∨ (granted = true ∧ ∃ run item,
      c.runs.get? (strip runId) = some run ∧ run.status = .running ∧
      c.items.get? (itemKey (strip runId) code) = some item ∧ item.status.terminal = false ∧
      (item.status = .running → (∃ holder ∈ item.claimedBy, holder ≠ strip owner) →
        item.expired now = true) ∧ c' = c.setItem (itemKey (strip runId) code)
        (claimedRow item (strip owner) now leaseSeconds)) := by
  simp only [claimItem, bind_ok, requireText_ok, need_ok, refuse_ok, not_not] at h
  obtain ⟨_, ⟨-, rfl⟩, _, ⟨-, rfl⟩, -, -, -, -, run, hrun, -, hrunning, item, hitem, h⟩ := h
  split at h
  · cases h
    exact Or.inl ⟨rfl, rfl⟩
  · next hopen =>
      split at h
      · cases h
        exact Or.inl ⟨rfl, rfl⟩
      · next hfree =>
          cases h
          right
          refine ⟨rfl, run, item, hrun, hrunning, hitem, by simpa using hopen,
            fun hrun' hholder => ?_, rfl⟩
          by_contra hlive
          exact hfree ⟨hrun', hholder, by simpa using hlive⟩

theorem claimItem_effect (h : claimItem runId code owner now leaseSeconds c = .ok (granted, c')) :
    Effect now c c' (.claimItem runId code owner leaseSeconds) := by
  rcases claimItem_cases h with ⟨-, rfl⟩ |
    ⟨-, run, item, hrun, hrunning, hitem, hopen, hfree, rfl⟩
  · exact .aside rfl rfl
  · exact .claimed hrun hrunning hitem hopen hfree rfl rfl

theorem renewItemClaim_cases
    (h : renewItemClaim runId code owner now leaseSeconds c = .ok (granted, c')) :
    (granted = false ∧ c' = c) ∨ (granted = true ∧ ∃ item,
      c.items.get? (itemKey (strip runId) code) = some item ∧ item.status = .running ∧
      item.claimedBy = some (strip owner) ∧ item.expired now = false ∧
      c' = c.setItem (itemKey (strip runId) code) (renewedRow item now leaseSeconds)) := by
  simp only [renewItemClaim, bind_ok, requireText_ok] at h
  obtain ⟨_, ⟨-, rfl⟩, _, ⟨-, rfl⟩, -, -, -, -, h⟩ := h
  split at h
  · cases h
    exact Or.inl ⟨rfl, rfl⟩
  · next item hitem =>
      split at h
      · cases h
        exact Or.inl ⟨rfl, rfl⟩
      · next hheld =>
          cases h
          simp only [not_or, not_not, Bool.not_eq_true] at hheld
          obtain ⟨hrunning, hholder, hlive⟩ := hheld
          exact Or.inr ⟨rfl, item, hitem, hrunning, hholder, hlive, rfl⟩

theorem renewItemClaim_effect
    (h : renewItemClaim runId code owner now leaseSeconds c = .ok (granted, c')) :
    Effect now c c' (.renewItemClaim runId code owner leaseSeconds) := by
  rcases renewItemClaim_cases h with ⟨-, rfl⟩ | ⟨-, item, hitem, hrunning, hholder, hlive, rfl⟩
  · exact .aside rfl rfl
  · exact .renewed hitem hrunning hholder hlive rfl rfl

theorem finalizeRun_effect {runId : String} (h : finalizeRun runId now c = .ok (u, c')) :
    Effect now c c' (.finalizeRun runId) := by
  simp only [finalizeRun, bind_ok, requireText_ok, need_ok, refuse_ok, not_not, pure_ok,
    Prod.mk.injEq] at h
  obtain ⟨_, ⟨-, rfl⟩, run, hrun, -, hrunning, -, hfinished, -, rfl⟩ := h
  refine .finalized hrun hrunning hfinished rfl ?_ ?_
  · split <;> rfl
  · split <;> rfl

theorem recoverExpiredWork_effect {n : ℕ}
    (h : recoverExpiredWork now leaseSeconds c = .ok (n, c')) :
    Effect now c c' (.recoverExpiredWork leaseSeconds) := by
  simp only [recoverExpiredWork, bind_ok, pure_ok, Prod.mk.injEq] at h
  obtain ⟨-, -, -, rfl⟩ := h
  obtain ⟨hruns, hitems⟩ := recoverRuns_tables now (c.staleRuns now) c
  refine .recovered (fun r => ?_) fun k => ?_
  · rw [(unclaims_tables _ _).1, hruns]
  · rw [(unclaims_tables _ _).2, hitems]

theorem Call.effect {digest : IdempotencyKey → String} {call : Call}
    (h : call.returns digest now c = .ok c') : Effect now c c' call := by
  have haside : ∀ {α : Type} {x : Attempt (α × Control)} {call : Call}, Keeps c x →
      left x = .ok c' → Effect now c c' call := by
    intro α x call hkeeps hx
    obtain ⟨a, ha⟩ := left_ok.mp hx
    obtain ⟨hruns, hitems⟩ := hkeeps.tables a c' ha
    exact .aside hruns hitems
  cases call with
  | submitColdStart target start => exact haside (submitColdStart_keeps ..) h
  | submitColdStartIntent => exact haside (insertRequest_keeps ..) h
  | submitCatchUp start finish scope => exact haside (submitCatchUp_keeps ..) h
  | configureClaimedRequest requestId target start finish =>
      exact haside (configureClaimedRequest_keeps ..) h
  | acquireLease owner leaseSeconds => exact haside (acquireLease_keeps ..) h
  | releaseLease owner => exact haside (releaseLease_keeps ..) h
  | claimNextRequest owner => exact haside (claimNextRequest_keeps ..) h
  | claimRecoveredRequest owner => exact haside (claimRecoveredRequest_keeps ..) h
  | releaseRequestClaim requestId owner => exact haside (releaseRequestClaim_keeps ..) h
  | completeClaimedRequest requestId owner =>
      exact haside (completeClaimedRequest_keeps ..) h
  | createRun runId requestId universeHash securities ranges =>
      exact createRun_effect (left_ok.mp h).choose_spec
  | startRun runId => exact startRun_effect (left_ok.mp h).choose_spec
  | resumePartialRun runId => exact resumePartialRun_effect (left_ok.mp h).choose_spec
  | markItem runId code status source => exact markItem_effect (left_ok.mp h).choose_spec
  | claimItem runId code owner leaseSeconds =>
      exact claimItem_effect (left_ok.mp h).choose_spec
  | renewItemClaim runId code owner leaseSeconds =>
      exact renewItemClaim_effect (left_ok.mp h).choose_spec
  | finalizeRun runId => exact finalizeRun_effect (left_ok.mp h).choose_spec
  | recoverExpiredWork leaseSeconds =>
      exact recoverExpiredWork_effect (left_ok.mp h).choose_spec

theorem Call.after_cases (digest : IdempotencyKey → String) (call : Call) (now : Stamp)
    (c : Control) : call.after digest now c = c ∨ Effect now c (call.after digest now c) call := by
  unfold Call.after
  split
  · next c' h => exact Or.inr (Call.effect h)
  · exact Or.inl rfl

end Ahunter.Market
