import Ahunter.Mx.Listener
import Ahunter.Mx.Snapshot

/-!
# What the collector snapshot makes of the counters

The event and the counter that says it was accepted are two commits. Over a
run they stay in balance: the stored events are the counted ones, the one
whose count is still to come and those whose count a crash dropped. Nothing
takes the last part away again, since an event that is received a second time
is counted as a duplicate.

Kinds are no better off: a row of a kind the reader does not list is there
from the commit that counts it on. So the reader accepts the counters after
exactly the runs that neither commit such a count nor crash between the two
commits of an event, as long as it does not read between them either.
-/

namespace Ahunter.Mx

open Ahunter.Lib

variable {rt : Runtime} {affinity : String → Cell}

/-! ## Writes -/

variable {write : Write} {store' : Store}

def Write.awaited : Write → ℕ
  | .count .accepted _ => 1
  | _ => 0

def Write.Foreign : Write → Prop
  | .count kind _ => kind.code ∉ counterKinds
  | _ => False

instance (write : Write) : Decidable write.Foreign := by
  cases write <;> unfold Write.Foreign <;> infer_instance

def Store.counted (store : Store) : ℕ :=
  store.counters.sum fun key n => if (ofLex key).2 = "accepted" then n else 0

def Store.stored (store : Store) : ℕ := store.events.entries.length

def Store.Known (store : Store) : Prop :=
  ∀ key n, store.counters.get? key = some n → (ofLex key).2 ∈ counterKinds

theorem stored_eq_sum (store : Store) : store.stored = store.events.sum fun _ _ => 1 := by
  rw [Store.stored, Dict.sum, List.map_const', List.sum_replicate, Nat.nsmul_eq_mul, mul_one]

theorem sum_increment {κ : Type} [LinearOrder κ] (d : Dict κ ℕ) (k : κ) (p : κ → Prop)
    [DecidablePred p] :
    (d.set k ((d.get? k).getD 0 + 1)).sum (fun j n => if p j then n else 0)
      = d.sum (fun j n => if p j then n else 0) + if p k then 1 else 0 := by
  have hset := Dict.sum_set d k ((d.get? k).getD 0 + 1) fun j n => if p j then n else 0
  by_cases hk : p k
  · have hold : (d.get? k).elim 0 (fun n => if p k then n else 0) = (d.get? k).getD 0 := by
      cases d.get? k with
      | none => rfl
      | some n => exact if_pos hk
    rw [hold, if_pos hk] at hset
    rw [if_pos hk]
    omega
  · have hold : (d.get? k).elim 0 (fun n => if p k then n else 0) = 0 := by
      cases d.get? k with
      | none => rfl
      | some n => exact if_neg hk
    rw [hold, if_neg hk] at hset
    rw [if_neg hk]
    exact hset

theorem counted_increment (store : Store) (kind : CounterKind) (at_ : ℕ) :
    (store.incrementCounter kind.code at_).counted
      = store.counted + (Write.count kind at_).awaited := by
  have hone : (if kind.code = "accepted" then 1 else 0) = (Write.count kind at_).awaited := by
    cases kind <;> simp [CounterKind.code, Write.awaited]
  rw [← hone]
  exact sum_increment store.counters (toLex (bucketStart at_, kind.code))
    fun key => (ofLex key).2 = "accepted"

theorem known_increment (store : Store) (kind : CounterKind) (at_ : ℕ) :
    (store.incrementCounter kind.code at_).Known ↔ store.Known ∧ kind.code ∈ counterKinds := by
  constructor
  · intro h
    have hkind : kind.code ∈ counterKinds :=
      h (toLex (bucketStart at_, kind.code)) _ (Dict.get?_set_self _ _ _)
    refine ⟨fun key n hget => ?_, hkind⟩
    by_cases hkey : key = toLex (bucketStart at_, kind.code)
    · rw [hkey]
      exact hkind
    · exact h key n ((Dict.get?_set_of_ne hkey).trans hget)
  · rintro ⟨h, hkind⟩ key n hget
    by_cases hkey : key = toLex (bucketStart at_, kind.code)
    · rw [hkey]
      exact hkind
    · exact h key n ((Dict.get?_set_of_ne hkey).symm.trans hget)

/-- What a commit does to the events and the counters. -/
structure Write.Booked (write : Write) (store store' : Store) (more : List Write) : Prop where
  stored : store'.stored + store.counted + write.awaited
    = store.stored + store'.counted + (more.map Write.awaited).sum
  known : store'.Known ↔ store.Known ∧ ¬ write.Foreign

variable {store : Store}

theorem Write.Booked.aside (hevents : store'.stored = store.stored)
    (hcounters : store'.counters = store.counters) (hawaited : write.awaited = 0)
    (hforeign : ¬ write.Foreign) :
    write.Booked store store' [] where
  stored := by
    rw [Store.counted, Store.counted, hcounters, hevents, hawaited]
    rfl
  known := by
    rw [Store.Known, Store.Known, hcounters]
    exact ⟨fun h => ⟨h, hforeign⟩, And.left⟩

variable {runId : String}

theorem insertEvent_ok {event : Event} {inserted : Bool}
    (h : store.insertEvent rt affinity event runId = .ok (store', inserted)) :
    store'.counters = store.counters ∧
      store'.stored = store.stored + if inserted then 1 else 0 := by
  obtain ⟨cell, -, h⟩ := bind_ok.mp h
  dsimp only at h
  split at h
  · cases h
    exact ⟨rfl, rfl⟩
  · next hnew =>
      cases h
      refine ⟨rfl, ?_⟩
      have hget : store.events.get? event.eventId = none := by
        rw [Dict.contains, Bool.not_eq_true, Option.isSome_eq_false_iff,
          Option.isNone_iff_eq_none] at hnew
        exact hnew
      rw [stored_eq_sum, stored_eq_sum]
      exact Dict.sum_set_new hget

theorem completeMediaJob_ok {eventId : String} {rid : ℤ} {downloadedAt : ℕ}
    {media : Media} (h : store.completeMediaJob eventId rid downloadedAt media = .ok store') :
    store'.counters = store.counters ∧ store'.events = store.events := by
  simp only [Store.completeMediaJob, Store.insertMedia, bind_ok, need_ok, refuse_ok,
    pure_ok] at h
  obtain ⟨inner, ⟨row, -, -, -, rfl⟩, job, -, rfl⟩ := h
  exact ⟨rfl, rfl⟩

theorem commit_booked {more : List Write}
    (h : write.commit rt affinity runId store = .ok (store', more)) :
    write.Booked store store' more := by
  cases write with
  | insertEvent event =>
      obtain ⟨⟨inner, inserted⟩, hinsert, h⟩ := bind_ok.mp h
      cases h
      obtain ⟨hcounters, hstored⟩ := insertEvent_ok hinsert
      refine ⟨?_, ?_⟩
      · rw [Store.counted, Store.counted, hcounters, hstored]
        cases inserted with
        | false => rfl
        | true =>
            show store.stored + 1 + _ + 0 = store.stored + _ + 1
            omega
      · rw [Store.Known, Store.Known, hcounters]
        exact ⟨fun h => ⟨h, id⟩, And.left⟩
  | count kind at_ =>
      cases h
      refine ⟨?_, ?_⟩
      · have hstored : (store.incrementCounter kind.code at_).stored = store.stored := rfl
        rw [counted_increment, hstored, List.map_nil, List.sum_nil]
        omega
      · rw [known_increment, Write.Foreign, not_not]
  | decodeFailure payloadHash errorClass at_ =>
      cases h
      exact .aside rfl rfl rfl id
  | completeMediaJob eventId rid downloadedAt media =>
      obtain ⟨inner, hcomplete, h⟩ := bind_ok.mp h
      cases h
      obtain ⟨hcounters, hevents⟩ := completeMediaJob_ok hcomplete
      exact .aside (by rw [Store.stored, Store.stored, hevents]) hcounters rfl id
  | failMediaJob eventId urlHash attempts nextAttemptAt =>
      cases h
      refine .aside ?_ ?_ rfl id <;> rw [Store.failMediaJob] <;> split <;> rfl
  | purgeExpiredPayloads now =>
      cases h
      exact .aside (List.length_map _) rfl rfl id

theorem commit_error {runId error : String}
    (h : write.commit rt affinity runId store = .error error) :
    write.awaited = 0 ∧ ¬ write.Foreign := by
  cases write with
  | count kind at_ => cases h
  | _ => exact ⟨rfl, id⟩

theorem commit_more {more : List Write}
    (h : write.commit rt affinity runId store = .ok (store', more)) : more.tail = [] := by
  cases write with
  | insertEvent event =>
      obtain ⟨⟨inner, inserted⟩, -, h⟩ := bind_ok.mp h
      cases h
      rfl
  | completeMediaJob eventId rid downloadedAt media =>
      obtain ⟨inner, -, h⟩ := bind_ok.mp h
      cases h
      rfl
  | _ =>
      cases h
      rfl

/-! ## Steps -/

/-- The counts of accepted events that the turn still has to commit. -/
def Listener.pending (l : Listener) : ℕ := (l.todo.map Write.awaited).sum

/-- Behind the write that comes next nothing waits to be counted as accepted. -/
def Listener.Tidy (l : Listener) : Prop := (l.todo.tail.map Write.awaited).sum = 0

def Listener.dropped (l : Listener) : Action → ℕ
  | .crash _ => l.pending
  | _ => 0

def Listener.CommitsForeign (l : Listener) : Action → Prop
  | .commit => ∃ write ∈ l.todo.head?, write.Foreign
  | _ => False

instance (l : Listener) (action : Action) : Decidable (l.CommitsForeign action) := by
  cases action <;> unfold Listener.CommitsForeign <;> infer_instance

structure Balanced (l l' : Listener) (action : Action) : Prop where
  stored : l'.store.stored + l.store.counted + l.pending
    = l.store.stored + l'.store.counted + l'.pending + l.dropped action
  known : l'.store.Known ↔ l.store.Known ∧ ¬ l.CommitsForeign action
  tidy : l'.Tidy

theorem turn_tidy (rt : Runtime) (turn : Turn) : ((turn.writes rt).map Write.awaited).sum = 0 := by
  cases turn with
  | frame allowedRids payloadData receivedAt =>
      rw [Turn.writes, acceptFrame]
      split
      · rfl
      · split <;> rfl
  | _ => rfl

theorem sum_tail_le (writes : List Write) :
    (writes.tail.map Write.awaited).sum ≤ (writes.map Write.awaited).sum := by
  cases writes with
  | nil => exact le_rfl
  | cons write writes =>
      rw [List.map_cons, List.sum_cons]
      exact Nat.le_add_left _ _

theorem tidy_of_pending {l : Listener} (h : l.pending = 0) : l.Tidy :=
  Nat.le_zero.mp (h ▸ sum_tail_le l.todo)

theorem step_balanced {l l' : Listener} {action : Action}
    (h : l.step rt affinity action = some l') (htidy : l.Tidy) : Balanced l l' action := by
  cases action with
  | turn turn =>
      simp only [Listener.step] at h
      split at h
      · next htodo =>
          cases h
          have hnone := turn_tidy rt turn
          refine ⟨?_, (and_iff_left id).symm, tidy_of_pending hnone⟩
          rw [Listener.pending, Listener.pending, hnone, htodo]
          rfl
      · cases h
  | commit =>
      simp only [Listener.step] at h
      split at h
      · cases h
      · next write todo htodo =>
          have hforeign : l.CommitsForeign .commit ↔ write.Foreign := by
            rw [Listener.CommitsForeign, htodo]
            exact ⟨fun ⟨w, hw, h⟩ => (Option.some.inj hw) ▸ h, fun h => ⟨write, rfl, h⟩⟩
          have hrest : (todo.map Write.awaited).sum = 0 := by
            rw [Listener.Tidy, htodo] at htidy
            exact htidy
          have hpending : l.pending = write.awaited := by
            rw [Listener.pending, htodo, List.map_cons, List.sum_cons, hrest, add_zero]
          split at h
          · next store more hcommit =>
              cases h
              have hbooked := commit_booked hcommit
              refine ⟨?_, hbooked.known.trans (and_congr_right fun _ => hforeign.not.symm), ?_⟩
              · have hlater : Listener.pending ⟨store, more ++ todo, l.runId⟩
                    = (more.map Write.awaited).sum := by
                  rw [Listener.pending, List.map_append, List.sum_append, hrest, add_zero]
                rw [hlater, hpending]
                exact hbooked.stored
              · cases more with
                | nil => exact Nat.le_zero.mp (hrest ▸ sum_tail_le todo)
                | cons first others =>
                    have hothers : others = [] := commit_more hcommit
                    rw [Listener.Tidy, hothers]
                    exact hrest
          · next error hcommit =>
              cases h
              obtain ⟨hawaited, hknown⟩ := commit_error hcommit
              refine ⟨?_, ?_, rfl⟩
              · rw [hpending, hawaited]
                rfl
              · rw [hforeign]
                exact (and_iff_left hknown).symm
  | crash runId =>
      cases h
      refine ⟨?_, (and_iff_left id).symm, rfl⟩
      rw [Listener.dropped]
      exact rfl

/-! ## Runs -/

def Listener.steps (rt : Runtime) (affinity : String → Cell) (l : Listener) :
    List Action → List (Listener × Action)
  | [] => []
  | action :: actions => (l, action) :: match l.step rt affinity action with
      | none => []
      | some l => l.steps rt affinity actions

/-- The accepted events that a run leaves without their count. -/
def Listener.lost (rt : Runtime) (affinity : String → Cell) (l : Listener)
    (actions : List Action) : ℕ :=
  ((l.steps rt affinity actions).map fun p => p.1.dropped p.2).sum

theorem run_balanced {l l' : Listener} {actions : List Action}
    (hrun : l.run rt affinity actions = some l') (htidy : l.Tidy) :
    l'.store.stored + l.store.counted + l.pending
        = l.store.stored + l'.store.counted + l'.pending + l.lost rt affinity actions ∧
      (l'.store.Known ↔ l.store.Known ∧
        ∀ p ∈ l.steps rt affinity actions, ¬ p.1.CommitsForeign p.2) := by
  induction actions generalizing l with
  | nil =>
      cases hrun
      exact ⟨rfl, by simp [Listener.steps]⟩
  | cons action actions ih =>
      obtain ⟨next, hstep, hrest⟩ := Option.bind_eq_some_iff.mp hrun
      have hone := step_balanced hstep htidy
      obtain ⟨hstored, hknown⟩ := ih hrest hone.tidy
      have hsteps : l.steps rt affinity (action :: actions)
          = (l, action) :: next.steps rt affinity actions := by
        rw [Listener.steps, hstep]
      constructor
      · have hlost : l.lost rt affinity (action :: actions)
            = l.dropped action + next.lost rt affinity actions := by
          rw [Listener.lost, hsteps, List.map_cons, List.sum_cons]
          rfl
        have hfirst := hone.stored
        rw [hlost]
        omega
      · rw [hknown, hone.known, hsteps, List.forall_mem_cons, and_assoc]

/-! ## The snapshot -/

/-- No event and no counter is later than an instant. -/
structure Store.SeenBy (store : Store) (asOf : ℕ) : Prop where
  events : ∀ row ∈ store.events.values, row.receivedAt ≤ asOf
  counters : ∀ key ∈ store.counters.keys, (ofLex key).1 ≤ asOf

instance (store : Store) (asOf : ℕ) : Decidable (store.SeenBy asOf) :=
  decidable_of_iff ((∀ row ∈ store.events.values, row.receivedAt ≤ asOf) ∧
    ∀ key ∈ store.counters.keys, (ofLex key).1 ≤ asOf) ⟨fun h => ⟨h.1, h.2⟩, fun h => ⟨h.1, h.2⟩⟩

theorem scannedEvents_length {asOf : ℕ} (hseen : store.SeenBy asOf)
    (hevents : store.events.entries.length ≤ maxScanRows) :
    (scannedEvents store asOf).length = store.stored ∧
      ((scannedEvents store asOf).take maxScanRows).length = store.stored := by
  have hall : scannedEvents store asOf = store.events.entries := by
    rw [scannedEvents, List.filter_eq_self.mpr, List.take_of_length_le (by omega)]
    intro e he
    exact decide_eq_true (hseen.events e.2 (List.mem_map_of_mem he))
  rw [hall, List.take_of_length_le hevents]
  exact ⟨rfl, rfl⟩

theorem scannedCounters_all {asOf : ℕ} (hseen : store.SeenBy asOf)
    (hcounters : store.counters.entries.length ≤ maxScanRows) :
    scannedCounters store asOf = store.counters.entries := by
  rw [scannedCounters, List.filter_eq_self.mpr, List.take_of_length_le (by omega)]
  intro e he
  exact decide_eq_true (hseen.counters e.1 (List.mem_map_of_mem he))

theorem acceptedSum_entries (store : Store) :
    acceptedSum store.counters.entries = store.counted := by
  rw [acceptedSum, Store.counted, Dict.sum]
  induction store.counters.entries with
  | nil => rfl
  | cons e entries ih =>
      by_cases hkind : (ofLex e.1).2 = "accepted"
      · rw [List.filter_cons_of_pos (by simpa using hkind), List.map_cons, List.sum_cons,
          List.map_cons, List.sum_cons, if_pos hkind, ih]
      · rw [List.filter_cons_of_neg (by simpa using hkind), List.map_cons, List.sum_cons,
          if_neg hkind, zero_add, ih]

theorem known_entries (store : Store) :
    store.Known ↔ ∀ e ∈ store.counters.entries, (ofLex e.1).2 ∈ counterKinds :=
  ⟨fun h e he => h e.1 e.2 (Dict.mem_entries.mp he),
    fun h key n hget => h (key, n) (Dict.mem_entries.mpr hget)⟩

/-- The law of the reader: the accepted counters add up to the events, their
kinds are known, and so nothing is said of the counters. -/
structure Reconciled (store : Store) (asOf : ℕ) : Prop where
  sum : acceptedSum (scannedCounters store asOf) = store.events.entries.length
  kinds : ∀ e ∈ scannedCounters store asOf, (ofLex e.1).2 ∈ counterKinds
  ambiguous : countersAmbiguous ∉ snapshotProblems store asOf
  unmatched : countersUnmatched ∉ snapshotProblems store asOf

theorem reconciled_iff {asOf : ℕ} (hseen : store.SeenBy asOf)
    (hevents : store.events.entries.length ≤ maxScanRows)
    (hcounters : store.counters.entries.length ≤ maxScanRows) :
    Reconciled store asOf ↔ store.stored = store.counted ∧ store.Known := by
  have hall := scannedCounters_all hseen hcounters
  constructor
  · rintro ⟨hsum, hkinds, -, -⟩
    rw [hall] at hsum hkinds
    rw [acceptedSum_entries] at hsum
    exact ⟨hsum.symm, (known_entries store).mpr hkinds⟩
  · rintro ⟨hsum, hkinds⟩
    have hknown := (known_entries store).mp hkinds
    obtain ⟨hlength, hkept⟩ := scannedEvents_length hseen hevents
    have hclean : counterProblems store asOf = [] := by
      have hroom : ¬ maxScanRows < (scannedEvents store asOf).length := by
        rw [hlength]
        exact hevents.not_gt
      have hplain : ¬ (maxScanRows < store.counters.entries.length ∨
          ∃ e ∈ store.counters.entries, (ofLex e.1).2 ∉ counterKinds) := by
        rintro (hlong | ⟨e, he, hkind⟩)
        · omega
        · exact hkind (hknown e he)
      have hequal : ¬ acceptedSum store.counters.entries
          ≠ ((scannedEvents store asOf).take maxScanRows).length := by
        rw [acceptedSum_entries, hkept]
        exact not_not.mpr hsum.symm
      simp only [counterProblems, hall]
      rw [if_neg hroom, if_neg hplain, if_neg hequal]
      rfl
    have hfuture : ∀ p ∈ snapshotProblems store asOf,
        p = "collector contains future-dated records" := by
      intro p hp
      rw [snapshotProblems, hclean, List.nil_append] at hp
      split at hp
      · exact List.mem_singleton.mp hp
      · cases hp
    refine ⟨?_, hall ▸ hknown, fun h => ?_, fun h => ?_⟩
    · rw [hall, acceptedSum_entries]
      exact hsum.symm
    · exact absurd (hfuture _ h) (by decide)
    · exact absurd (hfuture _ h) (by decide)

/-- The snapshot accepts the counters of exactly the runs that commit no count
of a kind unknown to it and never crash between an event and its count, and
not while a count is outstanding. -/
theorem snapshot_accepts_iff {runId : String} {actions : List Action} {l : Listener}
    (hrun : (Listener.start runId).run rt affinity actions = some l)
    (hevents : l.store.events.entries.length ≤ maxScanRows)
    (hcounters : l.store.counters.entries.length ≤ maxScanRows) {asOf : ℕ}
    (hseen : l.store.SeenBy asOf) :
    Reconciled l.store asOf ↔
      (∀ p ∈ (Listener.start runId).steps rt affinity actions,
        p.1.dropped p.2 = 0 ∧ ¬ p.1.CommitsForeign p.2) ∧ l.pending = 0 := by
  obtain ⟨hstored, hknown⟩ := run_balanced hrun rfl
  have hstart : (Listener.start runId).store.Known := fun key n hget => by cases hget
  have hlost : (Listener.start runId).lost rt affinity actions = 0 ↔
      ∀ p ∈ (Listener.start runId).steps rt affinity actions, p.1.dropped p.2 = 0 := by
    rw [Listener.lost, List.sum_eq_zero_iff]
    exact List.forall_mem_map
  have hbalance : l.store.stored = l.store.counted + l.pending
      + (Listener.start runId).lost rt affinity actions := by
    have hzero : (Listener.start runId).store.stored = 0 ∧
        (Listener.start runId).store.counted = 0 ∧ (Listener.start runId).pending = 0 :=
      ⟨rfl, rfl, rfl⟩
    omega
  rw [reconciled_iff hseen hevents hcounters, hknown, and_iff_right hstart]
  constructor
  · rintro ⟨hequal, hkinds⟩
    have hnone := hlost.mp (by omega)
    exact ⟨fun p hp => ⟨hnone p hp, hkinds p hp⟩, by omega⟩
  · rintro ⟨hkept, hpending⟩
    have hnone := hlost.mpr fun p hp => (hkept p hp).1
    exact ⟨by omega, fun p hp => (hkept p hp).2⟩

/-! ## Samples -/

def sampleFrame : String := "42/msg,[\"room_msg\",\"sample\"]"

def sampleDigests : List (String × String) :=
  [("20025:1", "63656479175c7567956cabcc5fc711d3ff381f6e31c79f1b6178044a1b39d474"),
    ("\"hi\"", "b49177e05868b7af8e82a644c1ce20e521af46497adeaffe861d294d9b4bb75e"),
    (sampleFrame, "c67cf18fa67d330a8e8c91ddc587f6c10a0f34f7bc4b415be98d87b2178b0dcc")]

def sampleRuntime (createtime : Json) : Runtime where
  sha256 := fun text => ((sampleDigests.find? fun e => e.1 = text).map Prod.snd).getD
    "e3b0c44298fc1c149afbf4c8996fb92427ae41e4649b934ca495991b7852b855"
  sha256Bytes := fun _ => "e3b0c44298fc1c149afbf4c8996fb92427ae41e4649b934ca495991b7852b855"
  stringify := fun _ => "\"hi\""
  parse := fun _ => none
  render := fun _ => "1"
  decodeRoomFrame := fun _ _ => .ok (.object [("id", .number (.finite 1)),
    ("rid", .number (.finite 20025)), ("msg", .string "hi"), ("createtime", createtime)])
  eventDate := fun _ => "2026-07-03"

def sampleReceivedAt : ℕ := 1783040460000

def sampleTurn : Action := .turn (.frame [20025] sampleFrame sampleReceivedAt)

def sampleRun (actions : List Action) : Option Listener :=
  (Listener.start "r1").run (sampleRuntime .null) (fun text => .text text) actions

def sampleActions : List Action :=
  [sampleTurn, .commit, .commit, .crash "r2", sampleTurn, .commit, .commit]

theorem snapshot_accepts_sample :
    ∃ l ∈ sampleRun sampleActions, l.store.stored = 1 ∧
      Reconciled l.store sampleReceivedAt := by
  have hafter : ∃ l ∈ sampleRun sampleActions, l.store.stored = 1 ∧
      l.store.counters.entries.length ≤ maxScanRows ∧
      l.store.SeenBy sampleReceivedAt ∧ l.pending = 0 := by
    decide +kernel
  obtain ⟨l, hrun, hstored, hcounters, hseen, hpending⟩ := hafter
  have hevents : l.store.events.entries.length ≤ maxScanRows := by
    show l.store.stored ≤ maxScanRows
    rw [hstored]
    decide
  refine ⟨l, hrun, hstored, ?_⟩
  refine (snapshot_accepts_iff hrun hevents hcounters hseen).mpr ⟨?_, hpending⟩
  decide +kernel

/-- A full frame queue is counted under a kind the reader does not know. A
crash between an event and its count leaves the count behind for good, however
often the event comes again. -/
theorem snapshot_blocks_sample :
    (∃ l ∈ sampleRun [.turn (.overflow sampleReceivedAt), .commit],
      l.store.SeenBy sampleReceivedAt ∧
        countersAmbiguous ∈ snapshotProblems l.store sampleReceivedAt) ∧
    ∃ l ∈ sampleRun [sampleTurn, .commit, .crash "r2", sampleTurn, .commit, .commit],
      l.store.SeenBy sampleReceivedAt ∧
        countersUnmatched ∈ snapshotProblems l.store sampleReceivedAt := by
  constructor <;> decide +kernel

end Ahunter.Mx
