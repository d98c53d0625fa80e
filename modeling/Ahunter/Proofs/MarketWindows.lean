import Ahunter.Proofs.MarketCalls

/-!
# Windows

The dates of a run, the dates of its items and the securities it was frozen
with are written when the run is created and never again. So whoever has read
a window may go by it, whatever the other workers do in the meantime, and the
window of an item stays within that of its run.
-/

namespace Ahunter.Market

open Ahunter.Lib
open Ahunter.Sim (Date Stamp)

/-! ## Windows as they are -/

variable {c : Control}

def RunRow.window (row : RunRow) : Date × Date := (row.startDate, row.endDate)

def ItemRow.window (row : ItemRow) : Date × Date := (row.startDate, row.endDate)

structure SameWindows (c c' : Control) : Prop where
  runs : ∀ r, (c'.runs.get? r).map RunRow.window = (c.runs.get? r).map RunRow.window
  items : ∀ k, (c'.items.get? k).map ItemRow.window = (c.items.get? k).map ItemRow.window
  securities : c'.securities = c.securities

theorem SameWindows.refl (c : Control) : SameWindows c c := ⟨fun _ => rfl, fun _ => rfl, rfl⟩

theorem SameWindows.trans {d e : Control} (h : SameWindows c d) (h' : SameWindows d e) :
    SameWindows c e :=
  ⟨fun r => (h'.runs r).trans (h.runs r), fun k => (h'.items k).trans (h.items k),
    h'.securities.trans h.securities⟩

theorem setRun_same {runId : String} {run : RunRow} (row : RunRow)
    (hrun : c.runs.get? runId = some run) (hwindow : row.window = run.window) :
    SameWindows c (c.setRun runId row) := by
  refine ⟨fun r => ?_, fun _ => rfl, rfl⟩
  rw [setRun_runs, Dict.get?_set]
  split
  · next hr => rw [hr, hrun, Option.map_some, Option.map_some, hwindow]
  · rfl

theorem setItem_same {k : ItemKey} {item row : ItemRow} (hitem : c.items.get? k = some item)
    (hwindow : row.window = item.window) : SameWindows c (c.setItem k row) := by
  refine ⟨fun _ => rfl, fun j => ?_, rfl⟩
  rw [setItem_items, Dict.get?_set]
  split
  · next hj => rw [hj, hitem, Option.map_some, Option.map_some, hwindow]
  · rfl

theorem requeue_same (c : Control) (runId : String) (status : ItemStatus) (now : Stamp) :
    SameWindows c (c.requeue runId status now) := by
  refine ⟨fun _ => rfl, fun k => ?_, rfl⟩
  rw [requeue_item, Option.map_map]
  refine Option.map_congr fun item _ => ?_
  rw [Function.comp_apply]
  split <;> rfl

theorem refreshRunProgress_same (runId : String) (c : Control) :
    SameWindows c (refreshRunProgress runId c) := by
  rw [refreshRunProgress]
  split
  · exact SameWindows.refl c
  · next run hrun => exact setRun_same _ hrun rfl

theorem unstart_same (c : Control) (runId : String) : SameWindows c (c.unstart runId) := by
  rw [Control.unstart]
  split
  · exact SameWindows.refl c
  · next run hrun => exact setRun_same _ hrun rfl

theorem unclaim_same (c : Control) (requestId : String) : SameWindows c (c.unclaim requestId) := by
  rw [Control.unclaim]
  split
  · exact SameWindows.refl c
  · split
    · exact ⟨fun _ => rfl, fun _ => rfl, rfl⟩
    · exact SameWindows.refl c

theorem foldl_same {α : Type} {f : Control → α → Control}
    (h : ∀ c a, SameWindows c (f c a)) (l : List α) (c : Control) :
    SameWindows c (l.foldl f c) := by
  induction l generalizing c with
  | nil => exact SameWindows.refl c
  | cons a l ih => exact (h c a).trans (ih (f c a))

/-! ## Windows as they stay -/

structure WindowsKept (c c' : Control) : Prop where
  runs : ∀ r run, c.runs.get? r = some run →
    ∃ run', c'.runs.get? r = some run' ∧ run'.window = run.window
  items : ∀ k item, c.items.get? k = some item →
    ∃ item', c'.items.get? k = some item' ∧ item'.window = item.window
  securities : ∀ k security, c.securities.get? k = some security →
    c'.securities.get? k = some security

structure Windowed (c : Control) : Prop where
  within : ∀ k item, c.items.get? k = some item →
    ∃ run, c.runs.get? k.runId = some run ∧ run.startDate ≤ item.startDate ∧
      item.endDate ≤ run.endDate
  coded : ∀ k security, c.securities.get? k = some security →
    k = itemKey k.runId security.code

theorem Windowed.empty : Windowed Control.empty :=
  ⟨fun _ _ h => (by cases h), fun _ _ h => (by cases h)⟩

theorem WindowsKept.refl (c : Control) : WindowsKept c c :=
  ⟨fun _ run h => ⟨run, h, rfl⟩, fun _ item h => ⟨item, h, rfl⟩, fun _ _ h => h⟩

theorem WindowsKept.trans {d e : Control} (h : WindowsKept c d) (h' : WindowsKept d e) :
    WindowsKept c e where
  runs r run hrun := by
    obtain ⟨run1, hrun1, hwindow1⟩ := h.runs r run hrun
    obtain ⟨run2, hrun2, hwindow2⟩ := h'.runs r run1 hrun1
    exact ⟨run2, hrun2, hwindow2.trans hwindow1⟩
  items k item hitem := by
    obtain ⟨item1, hitem1, hwindow1⟩ := h.items k item hitem
    obtain ⟨item2, hitem2, hwindow2⟩ := h'.items k item1 hitem1
    exact ⟨item2, hitem2, hwindow2.trans hwindow1⟩
  securities k security hsec := h'.securities k security (h.securities k security hsec)

theorem SameWindows.kept {c' : Control} (h : SameWindows c c') : WindowsKept c c' where
  runs r run hrun := by
    have hsame := h.runs r
    rw [hrun, Option.map_some] at hsame
    exact Option.map_eq_some_iff.mp hsame
  items k item hitem := by
    have hsame := h.items k
    rw [hitem, Option.map_some] at hsame
    exact Option.map_eq_some_iff.mp hsame
  securities k security hsec := by rw [h.securities, hsec]

theorem SameWindows.windowed {c' : Control} (h : SameWindows c c') (hw : Windowed c) :
    Windowed c' where
  within k item' hitem' := by
    have hsame := h.items k
    rw [hitem', Option.map_some] at hsame
    obtain ⟨item, hitem, hitemwindow⟩ := Option.map_eq_some_iff.mp hsame.symm
    obtain ⟨run, hrun, hstart, hend⟩ := hw.within k item hitem
    obtain ⟨run', hrun', hrunwindow⟩ := h.kept.runs _ run hrun
    simp only [ItemRow.window, RunRow.window, Prod.mk.injEq] at hitemwindow hrunwindow
    refine ⟨run', hrun', ?_, ?_⟩
    · rw [hrunwindow.1, ← hitemwindow.1]
      exact hstart
    · rw [hrunwindow.2, ← hitemwindow.2]
      exact hend
  coded k security hsec := hw.coded k security (h.securities ▸ hsec)

/-! ## Operations -/

/-- An operation that leaves all windows alone when it returns. -/
structure Frames {α : Type} (c : Control) (x : Attempt (α × Control)) : Prop where
  same : ∀ a c', x = .ok (a, c') → SameWindows c c'

section Frames

variable {α β : Type} {c c' : Control}

theorem Frames.pure {a : α} (h : SameWindows c c') : Frames c (pure (a, c')) := by
  refine ⟨fun b d hb => ?_⟩
  cases hb
  exact h

theorem Frames.aside {a : α} (hruns : c'.runs = c.runs) (hitems : c'.items = c.items)
    (hsec : c'.securities = c.securities) : Frames c (Pure.pure (a, c') : Attempt (α × Control)) :=
  .pure ⟨fun r => by rw [hruns], fun k => by rw [hitems], hsec⟩

theorem Frames.bind {x : Attempt β} {f : β → Attempt (α × Control)}
    (h : ∀ b, x = .ok b → Frames c (f b)) : Frames c (x >>= f) := by
  refine ⟨fun a d hx => ?_⟩
  obtain ⟨b, hb, hfb⟩ := bind_ok.mp hx
  exact (h b hb).same a d hfb

end Frames

section Operations

variable (digest : IdempotencyKey → String) (now : Stamp) (c : Control)

theorem insertRequest_frames (row : RequestRow) : Frames c (insertRequest digest row c) := by
  rw [insertRequest]
  split
  · exact .aside rfl rfl rfl
  · exact .bind fun _ _ => .aside rfl rfl rfl

theorem submitColdStart_frames (target start : Date) :
    Frames c (submitColdStart digest target start now c) := by
  rw [submitColdStart]
  exact .bind fun _ _ => insertRequest_frames digest c _

theorem submitCatchUp_frames (start finish : Date) (scope : Option String) :
    Frames c (submitCatchUp digest start finish now scope c) := by
  rw [submitCatchUp]
  exact .bind fun _ _ => .bind fun _ _ => insertRequest_frames digest c _

theorem configureClaimedRequest_frames (requestId : String) (target start finish : Date) :
    Frames c (configureClaimedRequest requestId target start finish c) := by
  rw [configureClaimedRequest]
  exact .bind fun _ _ => .bind fun _ _ => .bind fun _ _ => .bind fun _ _ => .bind fun _ _ =>
    .aside rfl rfl rfl

theorem releaseRequestClaim_frames (requestId owner : String) :
    Frames c (releaseRequestClaim requestId owner c) := by
  rw [releaseRequestClaim]
  exact .bind fun _ _ => .bind fun _ _ => .bind fun _ _ => .aside rfl rfl rfl

theorem completeClaimedRequest_frames (requestId owner : String) :
    Frames c (completeClaimedRequest requestId owner now c) := by
  rw [completeClaimedRequest]
  exact .bind fun _ _ => .bind fun _ _ => .bind fun _ _ => .aside rfl rfl rfl

theorem acquireLease_frames (owner : String) (leaseSeconds : ℤ) :
    Frames c (acquireLease owner now leaseSeconds c) := by
  refine .bind fun _ _ => .bind fun _ _ => ?_
  split
  · exact .aside rfl rfl rfl
  · exact .aside rfl rfl rfl

theorem releaseLease_frames (owner : String) : Frames c (releaseLease owner c) := by
  refine .bind fun _ _ => ?_
  split
  · exact .aside rfl rfl rfl
  · exact .aside rfl rfl rfl

theorem claimNextRequest_frames (owner : String) : Frames c (claimNextRequest owner now c) := by
  refine .bind fun _ _ => ?_
  dsimp only
  split
  · exact .aside rfl rfl rfl
  · exact .aside rfl rfl rfl

theorem claimRecoveredRequest_frames (owner : String) :
    Frames c (claimRecoveredRequest owner now c) := by
  refine .bind fun _ _ => ?_
  dsimp only
  split
  · exact .aside rfl rfl rfl
  · exact .aside rfl rfl rfl

theorem startRun_frames (runId : String) : Frames c (startRun runId now c) := by
  refine .bind fun id _ => .bind fun run hrun => .bind fun _ _ => ?_
  exact .pure (setRun_same _ (need_ok.mp hrun) rfl)

theorem resumePartialRun_frames (runId : String) : Frames c (resumePartialRun runId now c) := by
  refine .bind fun id _ => .bind fun run hrun => .bind fun _ _ => ?_
  refine .pure ?_
  have hrequeued := requeue_same c id .sourceMissing now
  have hrun' : (c.requeue id .sourceMissing now).runs.get? id = some run := need_ok.mp hrun
  have hset := setRun_same { run with
    status := .running, startedAt := some now, finishedAt := none } hrun' rfl
  exact (hrequeued.trans hset).trans (refreshRunProgress_same id _)

theorem markItem_frames (runId code : String) (status : ItemStatus) (source : Option String) :
    Frames c (markItem runId code status now source c) := by
  refine .bind fun id _ => .bind fun _ _ => .bind fun _ _ => .bind fun source _ =>
    .bind fun pair hpair => .bind fun _ _ => .bind fun _ _ => ?_
  simp only [runItem, bind_ok, need_ok, pure_ok] at hpair
  obtain ⟨run, -, item, hitem, rfl⟩ := hpair
  have hmarked := setItem_same hitem
    (show (markedRow item status now source).window = item.window from rfl)
  refine .pure ?_
  split
  · exact hmarked.trans (refreshRunProgress_same id _)
  · exact hmarked

theorem claimItem_frames (runId code owner : String) (leaseSeconds : ℤ) :
    Frames c (claimItem runId code owner now leaseSeconds c) := by
  refine ⟨fun granted c' h => ?_⟩
  rcases claimItem_cases h with ⟨-, rfl⟩ | ⟨-, run, item, -, -, hitem, -, -, rfl⟩
  · exact SameWindows.refl _
  · exact setItem_same hitem rfl

theorem renewItemClaim_frames (runId code owner : String) (leaseSeconds : ℤ) :
    Frames c (renewItemClaim runId code owner now leaseSeconds c) := by
  refine ⟨fun granted c' h => ?_⟩
  rcases renewItemClaim_cases h with ⟨-, rfl⟩ | ⟨-, item, hitem, -, -, -, rfl⟩
  · exact SameWindows.refl _
  · exact setItem_same hitem rfl

theorem finalizeRun_frames (runId : String) : Frames c (finalizeRun runId now c) := by
  refine .bind fun id _ => .bind fun run hrun => .bind fun _ _ => .bind fun _ _ => ?_
  refine .pure ?_
  have hset := setRun_same { run with
    status := if c.countItems id ItemStatus.missed ≠ 0 then .partialRun else .complete
    completedItems := c.countItems id ItemStatus.done
    failedItems := c.countItems id ItemStatus.missed
    finishedAt := some now } (need_ok.mp hrun) rfl
  split
  · exact hset
  · exact hset.trans ⟨fun _ => rfl, fun _ => rfl, rfl⟩

theorem recoverExpiredWork_frames (leaseSeconds : ℤ) :
    Frames c (recoverExpiredWork now leaseSeconds c) := by
  refine .bind fun _ _ => .pure ?_
  have hone : ∀ (d : Control) (e : String × String), SameWindows d (recoverRun now d e.1 e.2) :=
    fun d e => ((requeue_same d e.1 .running now).trans (unstart_same _ e.1)).trans
      (unclaim_same _ e.2)
  exact (foldl_same hone _ c).trans (foldl_same unclaim_same _ _)

end Operations

/-! ## Creating a run -/

theorem ranges_within {ranges : Option ItemRanges} {start finish : Date} {u : Unit}
    (h : walk (fun _ (e : String × Date × Date) => refuse (e.2.1 < start ∨ finish < e.2.2)
      (runError s!"{e.1} 的逐证券区间超出请求窗口")) ()
      ((ranges.map ItemRanges.entries).getD []) = .ok u) (code : String) :
    start ≤ ((ranges.bind fun r => r.get? code).getD (start, finish)).1 ∧
      ((ranges.bind fun r => r.get? code).getD (start, finish)).2 ≤ finish := by
  rw [walk_unit] at h
  cases hget : ranges.bind fun r => r.get? code with
  | none => exact ⟨le_rfl, le_rfl⟩
  | some window =>
      obtain ⟨r, hr, hfound⟩ := Option.bind_eq_some_iff.mp hget
      rw [ItemRanges.get?] at hfound
      obtain ⟨e, he, hwindow⟩ := Option.map_eq_some_iff.mp hfound
      have hmem : e ∈ (ranges.map ItemRanges.entries).getD [] := by
        rw [hr, Option.map_some, Option.getD_some]
        exact List.mem_of_find?_eq_some he
      have hin := refuse_ok.mp (h e hmem)
      rw [not_or, not_lt, not_lt] at hin
      rw [Option.getD_some, ← hwindow]
      exact hin

theorem createRun_windows {runId requestId universeHash : String} {securities : List RunSecurity}
    {ranges : Option ItemRanges} {now : Stamp} {c' : Control} {r : String}
    (h : createRun runId requestId universeHash securities ranges now c = .ok (r, c'))
    (hw : Windowed c) : Windowed c' ∧ WindowsKept c c' := by
  simp only [createRun, bind_ok, requireText_ok, refuse_ok, need_ok, not_not] at h
  obtain ⟨_, ⟨-, rfl⟩, -, -, -, -, -, -, -, -, request, -, -, -, h⟩ := h
  split at h
  · cases h
    exact ⟨hw, WindowsKept.refl _⟩
  simp only [insertRun, bind_ok, refuse_ok, need_ok, pure_ok, Prod.mk.injEq, not_exists,
    not_and, Bool.not_eq_true] at h
  obtain ⟨target, -, start, -, finish, -, _, hwithin, -, hnew, -, hnosec, -, hnoitem, -, rfl⟩ := h
  have hnew : c.runs.get? runId = none := by simpa [Dict.contains] using hnew
  have hruns : ∀ r run, c.runs.get? r = some run → ∀ row,
      (c.runs.set runId row).get? r = some run := by
    intro r run hrun row
    rw [Dict.get?_set_of_ne, hrun]
    rintro rfl
    rw [hnew] at hrun
    cases hrun
  refine ⟨⟨fun k item hitem => ?_, fun k security hsec => ?_⟩,
    fun r run hrun => ⟨run, hruns r run hrun _, rfl⟩, fun k item hitem => ⟨item, ?_, rfl⟩,
    fun k security hsec => ?_⟩
  · rcases Dict.get?_setAll hitem with hmem | hold
    · obtain ⟨s, -, hs⟩ := List.mem_map.mp hmem
      cases hs
      obtain ⟨hstart, hend⟩ := ranges_within hwithin s.code
      exact ⟨_, Dict.get?_set_self _ _ _, hstart, hend⟩
    · obtain ⟨run, hrun, hin⟩ := hw.within k item hold
      exact ⟨run, hruns _ run hrun _, hin⟩
  · rcases Dict.get?_setAll hsec with hmem | hold
    · obtain ⟨s, -, hs⟩ := List.mem_map.mp hmem
      cases hs
      rfl
    · exact hw.coded k security hold
  · refine Dict.get?_setAll_of_new (fun e he => ?_) hitem
    obtain ⟨s, hs, rfl⟩ := List.mem_map.mp he
    exact hnoitem s hs
  · refine Dict.get?_setAll_of_new (fun e he => ?_) hsec
    obtain ⟨s, hs, rfl⟩ := List.mem_map.mp he
    exact hnosec s hs

/-! ## Every call -/

theorem Call.after_windows (digest : IdempotencyKey → String) (call : Call) (now : Stamp)
    (hw : Windowed c) :
    Windowed (call.after digest now c) ∧ WindowsKept c (call.after digest now c) := by
  have hframe : ∀ {α : Type} {x : Attempt (α × Control)} {c' : Control}, Frames c x →
      left x = .ok c' → Windowed c' ∧ WindowsKept c c' := by
    intro α x c' hframes hx
    obtain ⟨a, ha⟩ := left_ok.mp hx
    have hsame := hframes.same a c' ha
    exact ⟨hsame.windowed hw, hsame.kept⟩
  rw [Call.after]
  split
  · next c' h =>
      cases call with
      | submitColdStart target start =>
          exact hframe (submitColdStart_frames digest now c _ _) h
      | submitColdStartIntent => exact hframe (insertRequest_frames digest c _) h
      | submitCatchUp start finish scope =>
          exact hframe (submitCatchUp_frames digest now c _ _ _) h
      | configureClaimedRequest requestId target start finish =>
          exact hframe (configureClaimedRequest_frames c _ _ _ _) h
      | acquireLease owner leaseSeconds => exact hframe (acquireLease_frames now c _ _) h
      | releaseLease owner => exact hframe (releaseLease_frames c _) h
      | claimNextRequest owner => exact hframe (claimNextRequest_frames now c _) h
      | claimRecoveredRequest owner => exact hframe (claimRecoveredRequest_frames now c _) h
      | releaseRequestClaim requestId owner =>
          exact hframe (releaseRequestClaim_frames c _ _) h
      | completeClaimedRequest requestId owner =>
          exact hframe (completeClaimedRequest_frames now c _ _) h
      | createRun runId requestId universeHash securities ranges =>
          obtain ⟨r, hr⟩ := left_ok.mp h
          exact createRun_windows hr hw
      | startRun runId => exact hframe (startRun_frames now c _) h
      | resumePartialRun runId => exact hframe (resumePartialRun_frames now c _) h
      | markItem runId code status source => exact hframe (markItem_frames now c _ _ _ _) h
      | claimItem runId code owner leaseSeconds =>
          exact hframe (claimItem_frames now c _ _ _ _) h
      | renewItemClaim runId code owner leaseSeconds =>
          exact hframe (renewItemClaim_frames now c _ _ _ _) h
      | finalizeRun runId => exact hframe (finalizeRun_frames now c _) h
      | recoverExpiredWork leaseSeconds => exact hframe (recoverExpiredWork_frames now c _) h
  · exact ⟨hw, WindowsKept.refl c⟩

end Ahunter.Market
