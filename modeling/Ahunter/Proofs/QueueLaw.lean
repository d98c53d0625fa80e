import Ahunter.Proofs.QueueMoves
import Ahunter.Proofs.RequestLaw

/-!
# Agreement in the shared queue

The queue row of a request mirrors the request, one row runs at a time, and a
test with a worker lease has its row in the queue. A row starts to run only as
the head of the queue, and a running row is always its own head, so that a claim
never meets another. Both halves rest on `Shift.running`, which says where the
claim of a running row came from.
-/

namespace Ahunter.Research

open Ahunter.Lib
open Ahunter.Sim (Instant Stamp)

variable {rules : QueueRules} {db db' : Db}

/-! ## Mirrors -/

variable {id : String}

structure Mirrors (row : RequestRow) (work : WorkRow) : Prop where
  kind : work.kind = .request
  state : work.state = row.status.workState
  source : work.sourceStatus = .request row.status
  claimedBy : work.claimedBy = row.claimedBy
  flag : work.cancelRequested = row.cancelRequested

structure Mirrored (db : Db) : Prop where
  row : ∀ id row, db.requests.get? id = some row →
    ∃ work, db.queue.get? id = some work ∧ Mirrors row work
  work : ∀ id work, db.queue.get? id = some work → work.kind = .request →
    ∃ row, db.requests.get? id = some row ∧ Mirrors row work

variable {work : WorkRow}

theorem Mirrors.running {row : RequestRow} (h : Mirrors row work) :
    work.state = .running ↔ row.status = .running := by
  rw [h.state]
  cases row.status <;> simp [RequestStatus.workState]

theorem newWork_mirrors (row : RequestRow) : Mirrors row (newWork row) :=
  ⟨rfl, rfl, rfl, rfl, rfl⟩

theorem mirrored_mirrors {row row' : RequestRow} (h : Mirrors row work) :
    Mirrors row' (mirrored row' work) :=
  ⟨h.kind, rfl, rfl, rfl, rfl⟩

def Runs (rules : QueueRules) (db : Db) (id : String) (claimedBy : Option String) : Prop :=
  (∃ work, db.queue.get? id = some work ∧ work.state = .running ∧ work.claimedBy = claimedBy) ∨
    ∃ work owner, nextWork db = some (id, work) ∧ claimedBy = some owner ∧ rules.claims owner

structure Rewrites (rules : QueueRules) (db db' : Db) (id : String) (row : RequestRow)
    (work : WorkRow) : Prop where
  requests : db'.requests = db.requests.set id row
  queue : db'.queue = db.queue.set id work
  tests : db'.tests = db.tests
  service : db'.service = db.service
  mirrors : Mirrors row work
  kind : ∀ old, db.queue.get? id = some old → old.kind = .request
  running : work.state = .running → Runs rules db id work.claimedBy

theorem setRequest_rewrites (hmirrored : Mirrored db) {old new : RequestRow}
    (hold : db.requests.get? id = some old)
    (hrunning : new.status = .running → (old.status = .running ∧ new.claimedBy = old.claimedBy) ∨
      ∃ work owner, nextWork db = some (id, work) ∧ new.claimedBy = some owner ∧
        rules.claims owner) : ∃ work, Rewrites rules db (db.setRequest id new) id new work := by
  obtain ⟨work, hwork, hmirrors⟩ := hmirrored.row id old hold
  have hqueue : mirrorQueue id new db.queue = db.queue.set id (mirrored new work) := by
    rw [mirrorQueue, hwork]
    exact if_pos hmirrors.kind
  have hnew : Mirrors new (mirrored new work) := mirrored_mirrors hmirrors
  refine ⟨mirrored new work, rfl, hqueue, rfl, rfl, hnew, fun w hw => ?_, fun h => ?_⟩
  · rw [hwork] at hw
    cases hw
    exact hmirrors.kind
  · rcases hrunning (hnew.running.mp h) with ⟨hstatus, hclaim⟩ | hhead
    · exact Or.inl ⟨work, hwork, hmirrors.running.mpr hstatus,
        hmirrors.claimedBy.trans hclaim.symm⟩
    · exact Or.inr hhead

theorem Edit.claim_kept {row row' : RequestRow} (h : Edit rules.toRules row row')
    (hrunning : row'.status = .running) :
    row.status = .running ∧ row'.claimedBy = row.claimedBy := by
  cases h with
  | bound => exact ⟨hrunning, rfl⟩
  | progress => exact ⟨hrunning, rfl⟩
  | flag => exact ⟨hrunning, rfl⟩
  | recover => cases hrunning

theorem materializeRecord_frame {now : Stamp} (h : materializeRecord id now db = .ok db') :
    db'.requests = db.requests ∧ db'.queue = db.queue ∧ db'.tests = db.tests ∧
      db'.service = db.service := by
  obtain ⟨_, _, _, ⟨_, rfl⟩ | ⟨_, rfl⟩⟩ := materializeRecord_spec h <;> exact ⟨rfl, rfl, rfl, rfl⟩

theorem Move.rewrites (h : Move rules.toRules db db') (hmirrored : Mirrored db) :
    ∃ id row work, Rewrites rules db db' id row work := by
  cases h with
  | @submit id row hsubmitted =>
      refine ⟨id, row, newWork row, rfl, rfl, rfl, rfl, newWork_mirrors row, fun old hold => ?_,
        fun h => ?_⟩
      · rw [hsubmitted.free] at hold
        cases hold
      · rw [(newWork_mirrors row).running, hsubmitted.queued] at h
        cases h
  | @claim id owner row now hrow hhead hqueued hflag hclaims =>
      obtain ⟨work, hnext, _⟩ := hhead.next
      exact ⟨id, _, setRequest_rewrites hmirrored hrow fun _ =>
        Or.inr ⟨work, owner, hnext, rfl, hclaims⟩⟩
  | edit hrow hedit =>
      exact ⟨_, _, setRequest_rewrites hmirrored hrow fun hrunning =>
        Or.inl (hedit.claim_kept hrunning)⟩
  | @finish id old new _ now hrow hending hrecord =>
      obtain ⟨work, hw⟩ : ∃ work, Rewrites rules db _ id new work :=
        setRequest_rewrites hmirrored hrow fun hrunning =>
          (terminal_of_status hrunning rfl hending.active.2).elim
      obtain ⟨hrequests, hqueue, htests, hservice⟩ := materializeRecord_frame hrecord
      exact ⟨id, new, work, hrequests.trans hw.requests, hqueue.trans hw.queue, htests, hservice,
        hw.mirrors, hw.kind, hw.running⟩

theorem Rewrites.mirrored {row : RequestRow}
    (h : Rewrites rules db db' id row work) (hmirrored : Mirrored db) : Mirrored db' where
  row j old hold := by
    rw [h.requests, Dict.get?_set] at hold
    rw [h.queue, Dict.get?_set]
    split at hold
    · next heq =>
        cases hold
        exact ⟨work, if_pos heq, h.mirrors⟩
    · next hne =>
        rw [if_neg hne]
        exact hmirrored.row j old hold
  work j old hold hkind := by
    rw [h.queue, Dict.get?_set] at hold
    rw [h.requests, Dict.get?_set]
    split at hold
    · next heq =>
        cases hold
        exact ⟨row, if_pos heq, h.mirrors⟩
    · next hne =>
        rw [if_neg hne]
        exact hmirrored.work j old hold hkind

/-! ## Shifts of the queue -/

theorem WorkEdit.kind {testId : String} {work work' : WorkRow}
    (h : WorkEdit rules db testId work work') : work'.kind = work.kind := by
  cases h <;> rfl

theorem Shift.kind (h : Shift rules db db') (hmirrored : Mirrored db)
    (hwork : db.queue.get? id = some work) :
    ∃ work', db'.queue.get? id = some work' ∧ work'.kind = work.kind := by
  have hset : ∀ {j : String} {new : WorkRow},
      (∀ old, db.queue.get? j = some old → new.kind = old.kind) →
      ∃ work', (db.queue.set j new).get? id = some work' ∧ work'.kind = work.kind := by
    intro j new hnew
    rw [Dict.get?_set]
    split
    · next heq =>
        subst heq
        exact ⟨new, rfl, hnew work hwork⟩
    · exact ⟨work, hwork, rfl⟩
  have hsame : ∀ {j : String} {old : WorkRow}, db.queue.get? j = some old →
      ∀ {new : WorkRow}, new.kind = old.kind →
      ∀ old', db.queue.get? j = some old' → new.kind = old'.kind := by
    intro j old hold new hnew old' hold'
    rw [hold] at hold'
    cases hold'
    exact hnew
  cases h with
  | request hmove =>
      obtain ⟨_, _, _, hrewrites⟩ := hmove.rewrites hmirrored
      rw [hrewrites.queue]
      exact hset fun old hold => hrewrites.mirrors.kind.trans (hrewrites.kind old hold).symm
  | own hold => exact hset (hsame hold rfl)
  | enter input now hfree =>
      refine hset fun old hold => ?_
      rw [hfree] at hold
      cases hold
  | work hold _ hedit => exact hset (hsame hold hedit.kind)
  | recover serviceOwner claimedBy =>
      rw [Db.recoverWork, Dict.get?_map, hwork]
      refine ⟨_, rfl, ?_⟩
      dsimp only
      split <;> rfl
  | beside hbeside =>
      rw [hbeside.queue]
      exact ⟨work, hwork, rfl⟩

theorem Mirrored.set_experiment (h : Mirrored db) {new : WorkRow}
    (hold : ∀ old, db.queue.get? id = some old → old.kind = .experiment)
    (hnew : new.kind = .experiment) :
    Mirrored { db with queue := db.queue.set id new } where
  row j row hrow := by
    obtain ⟨work, hwork, hmirrors⟩ := h.row j row hrow
    refine ⟨work, ?_, hmirrors⟩
    have hne : j ≠ id := fun heq => by
      have hkind := hold work (heq ▸ hwork)
      rw [hmirrors.kind] at hkind
      cases hkind
    rw [Dict.get?_set_of_ne hne, hwork]
  work j work hwork hkind := by
    rw [Dict.get?_set] at hwork
    split at hwork
    · cases hwork
      rw [hnew] at hkind
      cases hkind
    · exact h.work j work hwork hkind

theorem Shift.mirrored (h : Shift rules db db') (hmirrored : Mirrored db) : Mirrored db' := by
  cases h with
  | request hmove =>
      obtain ⟨_, _, _, hrewrites⟩ := hmove.rewrites hmirrored
      exact hrewrites.mirrored hmirrored
  | @own id owner work hwork =>
      constructor
      · intro j row hrow
        obtain ⟨old, hold, hmirrors⟩ := hmirrored.row j row hrow
        rw [Dict.get?_set]
        split
        · next heq =>
            rw [heq, hwork] at hold
            cases hold
            exact ⟨_, rfl, hmirrors.kind, hmirrors.state, hmirrors.source, hmirrors.claimedBy,
              hmirrors.flag⟩
        · exact ⟨old, hold, hmirrors⟩
      · intro j old hold hkind
        rw [Dict.get?_set] at hold
        split at hold
        · next heq =>
            cases hold
            obtain ⟨row, hrow, hmirrors⟩ := hmirrored.work id work hwork hkind
            exact ⟨row, heq ▸ hrow, hmirrors.kind, hmirrors.state, hmirrors.source,
              hmirrors.claimedBy, hmirrors.flag⟩
        · exact hmirrored.work j old hold hkind
  | enter input now hfree =>
      refine hmirrored.set_experiment (fun old hold => ?_) rfl
      rw [hfree] at hold
      cases hold
  | work hwork hkind hedit =>
      refine hmirrored.set_experiment (fun old hold => ?_) (hedit.kind.trans hkind)
      rw [hwork] at hold
      cases hold
      exact hkind
  | recover serviceOwner claimedBy =>
      have hrequest : ∀ {work : WorkRow}, work.kind = .request →
          (if work.abandoned serviceOwner claimedBy then requeued work else work) = work := by
        intro work hkind
        refine if_neg ?_
        simp [WorkRow.abandoned, hkind]
      constructor
      · intro j row hrow
        obtain ⟨old, hold, hmirrors⟩ := hmirrored.row j row hrow
        refine ⟨old, ?_, hmirrors⟩
        rw [Db.recoverWork, Dict.get?_map, hold, Option.map_some, hrequest hmirrors.kind]
      · intro j old hold hkind
        rw [Db.recoverWork, Dict.get?_map, Option.map_eq_some_iff] at hold
        obtain ⟨work, hwork, rfl⟩ := hold
        have hkind' : work.kind = .request := by
          split at hkind <;> exact hkind
        rw [hrequest hkind']
        exact hmirrored.work j work hwork hkind'
  | beside hbeside =>
      exact ⟨by rw [hbeside.requests, hbeside.queue]; exact hmirrored.row,
        by rw [hbeside.requests, hbeside.queue]; exact hmirrored.work⟩

theorem WorkEdit.runs {testId : String} {work work' : WorkRow}
    (h : WorkEdit rules db testId work work') (hwork : db.queue.get? testId = some work)
    (hrunning : work'.state = .running) : Runs rules db testId work'.claimedBy := by
  cases h with
  | claim serviceOwner claimedBy hhead hclaims =>
      exact Or.inr ⟨work, claimedBy, hhead, rfl, hclaims⟩
  | cancel =>
      refine Or.inl ⟨work, hwork, ?_, rfl⟩
      rw [cancelledWork] at hrunning
      dsimp only at hrunning
      split at hrunning
      · cases hrunning
      · exact hrunning
  | park => cases hrunning
  | status status =>
      refine Or.inl ⟨work, hwork, ?_, rfl⟩
      rw [testWork] at hrunning
      dsimp only at hrunning
      split at hrunning
      · cases hrunning
      · exact hrunning

theorem Shift.running (h : Shift rules db db') (hmirrored : Mirrored db)
    (hwork : db'.queue.get? id = some work) (hrunning : work.state = .running) :
    Runs rules db id work.claimedBy := by
  have hset : ∀ {j : String} {new : WorkRow},
      (new.state = .running → Runs rules db j new.claimedBy) →
      (db.queue.set j new).get? id = some work → Runs rules db id work.claimedBy := by
    intro j new hnew hget
    rw [Dict.get?_set] at hget
    split at hget
    · next heq =>
        cases hget
        rw [heq]
        exact hnew hrunning
    · exact Or.inl ⟨work, hget, hrunning, rfl⟩
  cases h with
  | request hmove =>
      obtain ⟨_, _, _, hrewrites⟩ := hmove.rewrites hmirrored
      rw [hrewrites.queue] at hwork
      exact hset hrewrites.running hwork
  | own hold =>
      refine hset ?_ hwork
      exact fun hstate => Or.inl ⟨_, hold, hstate, rfl⟩
  | enter input now hfree => exact hset (fun hstate => by cases hstate) hwork
  | work hold _ hedit => exact hset (hedit.runs hold) hwork
  | recover serviceOwner claimedBy =>
      rw [Db.recoverWork, Dict.get?_map, Option.map_eq_some_iff] at hwork
      obtain ⟨old, hold, rfl⟩ := hwork
      split at hrunning
      · cases hrunning
      · next hkept =>
          rw [if_neg hkept]
          exact Or.inl ⟨old, hold, hrunning, rfl⟩
  | beside hbeside =>
      rw [hbeside.queue] at hwork
      exact Or.inl ⟨work, hwork, hrunning, rfl⟩

/-! ## One runs at a time -/

def OneRunning (db : Db) : Prop :=
  ∀ i j wi wj, db.queue.get? i = some wi → db.queue.get? j = some wj →
    wi.state = .running → wj.state = .running → i = j

theorem OneRunning.head (h : OneRunning db) {j : String} {work running : WorkRow}
    (hhead : nextWork db = some (id, work)) (hj : db.queue.get? j = some running)
    (hrunning : running.state = .running) : j = id := by
  have hmem : (j, running) ∈ db.queue.entries.filter fun e => e.2.selectable := by
    rw [List.mem_filter]
    exact ⟨Dict.mem_entries.mpr hj, by simp [WorkRow.selectable, hrunning]⟩
  have hle := List.le_of_mem_argmin hmem hhead
  have hwork : db.queue.get? id = some work :=
    Dict.mem_entries.mp (List.mem_of_mem_filter (List.argmin_mem hhead))
  have hstate : work.state = .running := by
    by_contra hne
    rw [workKey, workKey, if_neg hne, if_pos hrunning, Prod.Lex.toLex_le_toLex] at hle
    omega
  exact h j id running work hj hwork hrunning hstate

theorem Shift.oneRunning (h : Shift rules db db') (hmirrored : Mirrored db)
    (hone : OneRunning db) : OneRunning db' := by
  intro i j wi wj hi hj hri hrj
  rcases h.running hmirrored hi hri with ⟨oi, hoi, hsi, _⟩ | ⟨oi, _, hoi, _⟩ <;>
  rcases h.running hmirrored hj hrj with ⟨oj, hoj, hsj, _⟩ | ⟨oj, _, hoj, _⟩
  · exact hone i j oi oj hoi hoj hsi hsj
  · exact hone.head hoj hoi hsi
  · exact (hone.head hoi hoj hsj).symm
  · rw [hoi] at hoj
    cases hoj
    rfl

/-! ## The law of the queue -/

def Leased (db : Db) : Prop :=
  ∀ testId test, db.tests.get? testId = some test → test.lease.isSome = true →
    ∃ work, db.queue.get? testId = some work ∧ work.kind = .experiment

theorem Shift.tests (h : Shift rules db db') (hmirrored : Mirrored db) :
    db'.tests = db.tests ∨ Beside rules db db' := by
  cases h with
  | request hmove =>
      obtain ⟨_, _, _, hrewrites⟩ := hmove.rewrites hmirrored
      exact Or.inl hrewrites.tests
  | beside hbeside => exact Or.inr hbeside
  | _ => exact Or.inl rfl

theorem Shift.leased (h : Shift rules db db') (hmirrored : Mirrored db) (hleased : Leased db) :
    Leased db' := by
  intro testId test htest hlease
  have hbefore : ∃ work, db.queue.get? testId = some work ∧ work.kind = .experiment := by
    rcases h.tests hmirrored with hsame | hbeside
    · exact hleased testId test (hsame ▸ htest) hlease
    · rcases hbeside.tests testId test htest hlease with ⟨old, hold, hl⟩ | hwork
      · exact hleased testId old hold hl
      · exact hwork
  obtain ⟨work, hwork, hkind⟩ := hbefore
  obtain ⟨work', hwork', hkind'⟩ := h.kind hmirrored hwork
  exact ⟨work', hwork', hkind'.trans hkind⟩

structure QueueLaw (db : Db) : Prop where
  mirrored : Mirrored db
  one : OneRunning db
  leased : Leased db

theorem no_work : ¬ Db.empty.queue.get? id = some work := by
  rw [Db.empty, Dict.get?_empty]
  intro h
  cases h

theorem QueueLaw.empty : QueueLaw Db.empty where
  mirrored := ⟨fun _ _ hrow => absurd hrow no_request, fun _ _ hwork => absurd hwork no_work⟩
  one _ _ _ _ hi := absurd hi no_work
  leased testId test htest := by
    rw [Db.empty, Dict.get?_empty] at htest
    cases htest

theorem Shift.lawful (h : Shift rules db db') (hlaw : QueueLaw db) : QueueLaw db' where
  mirrored := h.mirrored hlaw.mirrored
  one := h.oneRunning hlaw.mirrored hlaw.one
  leased := h.leased hlaw.mirrored hlaw.leased

theorem Shifts.lawful (h : Shifts rules db db') (hlaw : QueueLaw db) : QueueLaw db' := by
  induction h with
  | refl => exact hlaw
  | tail _ hshift ih => exact hshift.lawful ih

end Ahunter.Research
