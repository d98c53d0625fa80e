import Ahunter.Proofs.Ingestion
import Ahunter.Proofs.MarketRuns

/-!
# Items that are done

An engine marks the items of its own run and of no other. So where only engines
mark items, an item that is done has been ended by an engine of its run, which
found its window ready, and ready it still is.
-/

namespace Ahunter.Market

open Ahunter.Lib
open Ahunter.Sim (Date Stamp)

/-! ## Marks -/

def EngineCall.Own (runId : String) : EngineCall → Prop
  | .markItem r _ _ _ _ => r = runId
  | _ => True

abbrev Owns {α : Type} (runId : String) (p : Engine α) : Prop :=
  Heeds (fun _ _ => True) (EngineCall.Own runId) (fun _ => True) p

section Programs

variable {cfg : EngineConfig} {runId code owner : String} {now : Stamp}

variable {last : Date}

theorem Owns.ask {c : EngineCall} (h : c.Own runId) : Owns runId (Proc.ask c) :=
  (Heeds.ask h).any

theorem Owns.lift {α : Type} (x : Attempt α) : Owns runId (Proc.lift x) := (Heeds.lift x).any

theorem Owns.pure {α : Type} (a : α) : Owns runId (Pure.pure a : Engine α) :=
  Safe.done fun _ _ => trivial

theorem Owns.bind {α β : Type} {p : Engine α} {f : α → Engine β} (hp : Owns runId p)
    (hf : ∀ a, Owns runId (f a)) : Owns runId (p >>= f) :=
  Safe.bind hp fun a _ _ _ => hf a

theorem Owns.ite {α : Type} {q : Prop} [Decidable q] {x y : Engine α} (hx : Owns runId x)
    (hy : Owns runId y) : Owns runId (if q then x else y) :=
  Safe.ite (fun _ => hx) fun _ => hy

theorem workNow_owns : Owns runId (workNow cfg now) :=
  .ite (.bind (.ask (c := .clock) trivial) fun _ => .lift _) (.pure _)

theorem beat_owns : Owns runId (beat cfg owner) :=
  .ite (.ask (c := .heartbeat owner) trivial) (.pure _)

theorem notify_owns : Owns runId (notify cfg code) :=
  .ite (.ask (c := .afterCommit code) trivial) (.pure _)

theorem renewWorkLease_owns : Owns runId (renewWorkLease cfg runId code owner now) := by
  refine workNow_owns.bind fun moment => beat_owns.bind fun _ => ?_
  exact .bind (.ask (c := .renewItemClaim runId code owner moment cfg.itemLeaseSeconds) trivial)
    fun _ => .lift _

theorem mark_owns {status : ItemStatus} {source : Option String} :
    Owns runId (mark cfg runId code now status source) :=
  workNow_owns.bind fun moment =>
    .ask (c := .markItem runId code status moment source) rfl

theorem fetchFactors_owns {bars : List (Fetched CanonicalDailyBar)} :
    Owns runId (fetchFactors code bars) := by
  rw [fetchFactors]
  split
  · exact .bind (.ask (c := .fetchAdjustmentFactors code _ _) trivial) fun _ => .lift _
  · exact .pure _

variable {first : Date}

theorem ensureFactorCoverage_owns :
    Owns runId (ensureFactorCoverage cfg runId code owner now first last) := by
  refine .bind (.ask (c := .barsFor code first last) trivial)
    fun (rawBars : List (Fetched CanonicalDailyBar)) => ?_
  refine .ite (.pure _) (.bind (.ask (c := .factorDates code first last) trivial) fun _ => ?_)
  dsimp only
  split
  · next start finish _ _ =>
      refine .bind (Safe.attempt (P := fun _ _ => True) ?_) fun received => ?_
      · exact renewWorkLease_owns.bind fun _ =>
          .ask (c := .fetchAdjustmentFactors code start finish) trivial
      · split
        · exact .pure _
        · next factors _ =>
            exact .bind (.ask (c := .commitSecurityObservations [] factors []) trivial)
              fun _ => .pure _
  · exact .pure _

theorem fetchMissing_owns {expected missing : List Date} :
    Owns runId (fetchMissing cfg runId owner now code expected missing first last) := by
  refine renewWorkLease_owns.bind fun _ => ?_
  refine .bind (.ask (c := .fetchDailyBars code first last) trivial) fun observation => ?_
  refine .bind (.lift _) fun bars => renewWorkLease_owns.bind fun _ => ?_
  refine workNow_owns.bind fun moment => ?_
  refine .bind (.ask (c := .absencesFor code _ moment) trivial) fun reported => ?_
  refine .bind (.lift _) fun absences => renewWorkLease_owns.bind fun _ => ?_
  refine workNow_owns.bind fun _ => fetchFactors_owns.bind fun factors => ?_
  refine .bind (.ask (c := .commitSecurityObservations bars factors absences) trivial)
    fun (result : SecurityCommitResult) => ?_
  exact .ite (.pure _) (notify_owns.bind fun _ => .ite (.pure _) (.pure _))

theorem concludeItem_owns {expected : List Date} {coveredBefore : ℕ} (fetching : Fetching) :
    Owns runId (concludeItem cfg runId owner now code expected first last coveredBefore fetching)
    := by
  cases fetching with
  | conflicted source => exact mark_owns.bind fun _ => .pure _
  | unresolved source count => exact mark_owns.bind fun _ => .pure _
  | complete source =>
      refine ensureFactorCoverage_owns.bind fun factorStatus => ?_
      cases factorStatus with
      | some e => exact mark_owns.bind fun _ => .pure _
      | none => exact mark_owns.bind fun _ => .pure _

theorem ingestExpected_owns {expected : List Date} :
    Owns runId (ingestExpected cfg runId owner now code expected first last) := by
  refine .bind (.ask (c := .coveredDates code first last) trivial) fun covered => ?_
  refine .bind ?_ fun fetching => concludeItem_owns fetching
  rw [fetchAll]
  split
  · exact fetchMissing_owns
  · exact .pure _

theorem ingestSecurityInterval_owns {security : RunSecurity} {sessions : List Date} :
    Owns runId (ingestSecurityInterval cfg runId owner now security sessions) := by
  refine workNow_owns.bind fun claimNow => ?_
  refine .bind (.ask (c := .claimItem runId security.code owner claimNow cfg.itemLeaseSeconds)
    trivial) fun (claimed : Bool) => ?_
  refine .ite (.bind (.ask (c := .item runId security.code) trivial) fun _ => .pure _) ?_
  refine .bind (.ask (c := .run runId) trivial) fun run => ?_
  refine .bind (.ask (c := .item runId security.code) trivial) fun item => ?_
  dsimp only
  split
  · refine Safe.handle (P := fun _ _ => True) ingestExpected_owns fun e _ _ _ => ?_
    exact Owns.ite (mark_owns.bind fun _ => .pure _) (Safe.fail fun _ _ => trivial)
  · exact mark_owns.bind fun _ => .pure _

theorem executeRun_owns {sessions : List Date} :
    Owns runId (executeRun cfg runId owner now sessions) := by
  refine .bind (.ask (c := .run runId) trivial) fun run => ?_
  refine .bind (.ite (workNow_owns.bind fun moment =>
    .ask (c := .startRun runId moment) trivial) (.pure _)) fun run => ?_
  refine .bind (.lift _) fun _ => .bind (.lift _) fun valid => ?_
  refine .bind (.ask (c := .runSecurities runId) trivial) fun securities => ?_
  refine .bind (Safe.each fun security _ _ _ => ?_) fun _ => workNow_owns.bind fun moment =>
    .ask (c := .finalizeRun runId moment) trivial
  refine beat_owns.bind fun _ => .bind (.ask (c := .item runId security.code) trivial) fun item => ?_
  exact .ite (.pure _) (ingestSecurityInterval_owns.bind fun _ => beat_owns)

end Programs

end Ahunter.Market
