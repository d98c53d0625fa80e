import Ahunter.Proofs.Ingestion
import Ahunter.Proofs.MarketRuns

/-!
# Done and ready

Engines are run one after the other or side by side, on any runs and any
windows, while services go on with requests and runs. When one of them ends
an item as completed or skipped, the window of the item is ready, and it stays
so whatever is run later.
-/

namespace Ahunter.Market

open Ahunter.Lib
open Ahunter.Sim (Date Stamp)

/-- A run of an engine. -/
structure Job where
  cfg : EngineConfig
  runId : String
  owner : String
  now : Stamp
  sessions : List Date

def Job.program (job : Job) : Engine Unit :=
  executeRun job.cfg job.runId job.owner job.now job.sessions

def FactCall.AddsNoBar : FactCall → Prop
  | .insertBar _ => False
  | .commitSecurityObservations bars _ _ => bars = []
  | .recordAbsence _ => True
  | .upsertFactor _ => True
  | .repairBar _ _ => True

/-- What else happens to the tables: any call to the control plane, and any to
the repository that adds no bar. -/
inductive Aside (digest : IdempotencyKey → String) : Store → Store → Prop
  | control (s : Store) (call : Call) (now : Stamp) :
      Aside digest s { s with control := call.after digest now s.control }
  | facts (s : Store) (call : FactCall) (h : call.AddsNoBar) :
      Aside digest s { s with facts := call.after s.facts }

abbrev Engines := Pool EngineCall EngineCall.Answer MarketError Store Job

abbrev Engines.Later (digest : IdempotencyKey → String) (p q : Engines) : Prop :=
  Pool.Later EngineCall.exec Job.program (Aside digest) p q

def Engines.start : Engines := ⟨⟨Control.empty, Facts.empty⟩, []⟩

/-! ## What happens aside -/

theorem FactCall.after_grown {facts : Facts} {call : FactCall} (h : call.AddsNoBar) :
    Grown facts (call.after facts) := by
  cases call with
  | insertBar bar => cases h
  | recordAbsence absence => exact (recordAbsence_wrote absence facts).grown (by simp)
  | upsertFactor factor => exact (upsertFactor_wrote factor facts).grown (by simp)
  | commitSecurityObservations bars factors absences =>
      cases h
      rw [FactCall.after]
      split
      · next r hr => exact (commit_wrote hr).grown (by simp)
      · exact Grown.refl facts
  | repairBar bar reason =>
      rw [FactCall.after]
      split
      · next r hr => exact (repairBar_wrote hr).grown (by simp)
      · exact Grown.refl facts

variable {digest : IdempotencyKey → String}

theorem Aside.le {s t : Store} (h : Aside digest s t) : s ≤ t := by
  cases h with
  | control call now =>
      intro hs
      obtain ⟨hwindowed, hkept⟩ := Call.after_windows digest call now hs.windowed
      exact ⟨⟨hwindowed, hs.keyed⟩, hkept, Grown.refl _⟩
  | facts call h => exact Store.le_facts (FactCall.after_grown h) fun hk => call.after_keyed hk

/-! ## Engines -/

theorem Engines.start_sound : Engines.start.state.Sound := ⟨Windowed.empty, Facts.Keyed.empty⟩

theorem Engines.Later.safe {p q : Engines} (h : p.Later digest q) (hs : p.state.Sound)
    (hp : p.Safe EngineCall.exec fun job => May job.sessions) :
    p.state ≤ q.state ∧ q.Safe EngineCall.exec fun job => May job.sessions :=
  Pool.Later.safe h (fun _ _ _ _ _ => exec_le) (fun _ _ => Aside.le)
    (fun _ _ hst => executeRun_works (hst hs).sound) hp

theorem Ready.later {known : List Date} {runId code : String} {s t : Store}
    (h : Ready known runId code s) (hs : s.Sound) (hst : s ≤ t) : Ready known runId code t := by
  obtain ⟨item, security, hitem, hsecurity, hready⟩ := h
  obtain ⟨ht, hkept, hgrown⟩ := hst hs
  obtain ⟨item', hitem', hwindow⟩ := hkept.items _ item hitem
  simp only [ItemRow.window, Prod.mk.injEq] at hwindow
  obtain ⟨hstart, hend⟩ := hwindow
  refine ⟨item', security, hitem', hkept.securities _ security hsecurity, fun sessions h => ?_⟩
  rw [Checkable, hstart, hend] at h
  rw [hstart, hend]
  exact securityReadiness_grown hs.keyed ht.keyed hgrown (hready sessions h)

/-- When an engine ends an item as completed or skipped, its security is ready
over the item's window, and stays so whatever engines and services do next. -/
theorem item_done_is_ready {digest : IdempotencyKey → String} {p q : Engines}
    (hp : Engines.start.Later digest p) {us vs : List (Job × Engine Unit)} {job : Job}
    {runId code : String} {status : ItemStatus} {now : Stamp} {source : Option String}
    {next : Except MarketError Unit → Engine Unit}
    (htask : p.tasks = us ++ (job, .call (.markItem runId code status now source) next) :: vs)
    (hdone : status.done = true) {t : Store}
    (hmark : (EngineCall.markItem runId code status now source).exec p.state (.ok ()) t)
    (hq : Engines.Later digest ⟨t, us ++ (job, next (.ok ())) :: vs⟩ q) :
    Ready job.sessions runId code q.state := by
  obtain ⟨hle, hsafe⟩ := hp.safe Engines.start_sound fun task htask => by cases htask
  have hs : p.state.Sound := (hle Engines.start_sound).sound
  have hmem : (job, Proc.call (EngineCall.markItem runId code status now source) next)
      ∈ p.tasks := by
    rw [htask]
    exact List.mem_append_right us List.mem_cons_self
  have hmay := (hsafe _ hmem p.state le_rfl).1
  have hready : Ready job.sessions runId code p.state := hmay hdone hs
  -- The mark is one more turn of the same pool.
  have hturn : PoolStep EngineCall.exec Job.program (Aside digest) p
      ⟨t, us ++ (job, next (.ok ())) :: vs⟩ := by
    obtain ⟨state, tasks⟩ := p
    cases htask
    exact PoolStep.call us vs job (EngineCall.markItem runId code status now source) next
      (.ok ()) hmark
  obtain ⟨hle', -⟩ := Engines.Later.safe
    (hq.head hturn) hs hsafe
  exact hready.later hs hle'

/-! ## A run -/

def alone : ℕ → Engine Unit → Store → Engine Unit × Store
  | 0, p, s => (p, s)
  | _ + 1, .done u, s => (.done u, s)
  | _ + 1, .fail e, s => (.fail e, s)
  | n + 1, .call c next, s =>
      match c.perform s with
      | none => (.call c next, s)
      | some (.ok (a, t)) => alone n (next (.ok a)) t
      | some (.error e) => alone n (next (.error e)) s

theorem alone_later (other : Store → Store → Prop) (job : Job) (n : ℕ) (p : Engine Unit)
    (s : Store) : Pool.Later EngineCall.exec Job.program other ⟨s, [(job, p)]⟩
      ⟨(alone n p s).2, [(job, (alone n p s).1)]⟩ := by
  induction n generalizing p s with
  | zero => exact .refl
  | succ n ih =>
      cases p with
      | done u => exact .refl
      | fail e => exact .refl
      | call c next =>
          rw [alone]
          have hturn : ∀ r t, c.exec s r t →
              PoolStep EngineCall.exec Job.program other
                ⟨s, [(job, .call c next)]⟩ ⟨t, [(job, next r)]⟩ :=
            fun r t h => PoolStep.call [] [] job c next r h
          split
          · exact .refl
          · next a t hp =>
              refine (ih (next (.ok a)) t).head (hturn _ _ ?_)
              rw [EngineCall.exec, hp]
              exact ⟨rfl, rfl⟩
          · next e hp =>
              refine (ih (next (.error e)) s).head (hturn _ _ ?_)
              rw [EngineCall.exec, hp]
              exact ⟨rfl, rfl⟩

def sampleAside : List Call := [
  .submitCatchUp 1 2 none, .claimNextRequest "w",
  .createRun "run" "mdreq-1" sampleHash [sampleSecurity] none]

def suspended : Fetched MarketAbsence :=
  ⟨⟨"600519", 1, "exchange", sampleStamp, sampleCode, by decide +kernel,
    exchange_isText⟩, sampleStamp⟩

def sampleStore : Store :=
  ⟨callsAt sampleDigest sampleNow sampleAside Control.empty,
    (FactCall.recordAbsence suspended).after Facts.empty⟩

def sampleJob : Job := ⟨⟨false, false, false, 300, by decide⟩, "run", "w", sampleNow, [1]⟩

def sampleEngine : Engine Unit × Store := alone 9 sampleJob.program sampleStore

def pendingMark : Engine Unit → Option (String × String × ItemStatus × Stamp × Option String)
  | .call (.markItem runId code status now source) _ => some (runId, code, status, now, source)
  | _ => none

theorem pendingMark_some {p : Engine Unit} {runId code : String} {status : ItemStatus}
    {now : Stamp} {source : Option String}
    (h : pendingMark p = some (runId, code, status, now, source)) :
    ∃ next, p = .call (.markItem runId code status now source) next := by
  unfold pendingMark at h
  split at h
  · cases h
    exact ⟨_, rfl⟩
  · cases h

theorem callsAt_later (calls : List Call) (s : Store) (tasks : List (Job × Engine Unit)) :
    Engines.Later sampleDigest ⟨s, tasks⟩
      ⟨{ s with control := callsAt sampleDigest sampleNow calls s.control }, tasks⟩ := by
  induction calls generalizing s with
  | nil => exact .refl
  | cons call calls ih =>
      refine (ih { s with control := call.after sampleDigest sampleNow s.control }).head ?_
      exact PoolStep.other tasks (.control s call sampleNow)

theorem sampleEngine_later :
    Engines.start.Later sampleDigest ⟨sampleEngine.2, [(sampleJob, sampleEngine.1)]⟩ := by
  have hcalls := callsAt_later sampleAside Engines.start.state []
  have habsence : PoolStep EngineCall.exec Job.program (Aside sampleDigest)
      ⟨⟨callsAt sampleDigest sampleNow sampleAside Control.empty, Facts.empty⟩, []⟩
      ⟨sampleStore, []⟩ :=
    PoolStep.other [] (.facts _ (.recordAbsence suspended) trivial)
  have hspawn : PoolStep EngineCall.exec Job.program (Aside sampleDigest)
      ⟨sampleStore, []⟩ ⟨sampleStore, [(sampleJob, sampleJob.program)]⟩ :=
    PoolStep.spawn sampleStore [] sampleJob
  exact ((hcalls.tail habsence).tail hspawn).trans
    (alone_later _ sampleJob 9 sampleJob.program sampleStore)

/-- The window of a suspended security: the engine finds it covered, marks the
item completed, and its security is ready. -/
theorem item_done_is_ready_sample :
    ∃ t, (EngineCall.markItem "run" "600519" .completed sampleNow
        (some "existing_coverage")).exec sampleEngine.2 (.ok ()) t ∧
      Ready [1] "run" "600519" t := by
  have hpending : pendingMark sampleEngine.1
      = some ("run", "600519", .completed, sampleNow, some "existing_coverage") := by
    decide +kernel
  obtain ⟨next, hnext⟩ := pendingMark_some hpending
  have hreturns : ((markItem "run" "600519" .completed sampleNow (some "existing_coverage")
      sampleEngine.2.control).isOk) = true := by
    decide +kernel
  obtain ⟨⟨u, control⟩, hmark⟩ := isOk_iff.mp hreturns
  let t : Store := { sampleEngine.2 with control := control }
  have hexec : (EngineCall.markItem "run" "600519" .completed sampleNow
      (some "existing_coverage")).exec sampleEngine.2 (.ok ()) t := by
    have hperform : (EngineCall.markItem "run" "600519" .completed sampleNow
        (some "existing_coverage")).perform sampleEngine.2 = some (.ok ((), t)) := by
      rw [EngineCall.perform, hmark]
      rfl
    rw [EngineCall.exec, hperform]
    exact ⟨rfl, rfl⟩
  refine ⟨t, hexec, ?_⟩
  have hlater := sampleEngine_later
  rw [hnext] at hlater
  exact @item_done_is_ready _ _ _ hlater [] [] _ _ _ _ _ _ _ rfl rfl _ hexec .refl

end Ahunter.Market
