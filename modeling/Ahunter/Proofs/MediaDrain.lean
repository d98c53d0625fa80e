import Ahunter.Mx.Drain
import Mathlib.Data.List.Perm.Subperm

/-!
# What becomes of a job

A job is kept under the hash of the text its address came as, and a download is
recorded under the hash of the address as the URL writes it. Where the two agree
the download completes the job it was made for, and the rest follows from that:
a worker only ever touches the row of its own job, each settled attempt is one
attempt more in that row, and so a batch can only be read so often.

Where they differ the worker completes the row of another address or none, so
every statement here is about runs in which each download that returns is of an
address in its normal form. That a job is completed is said exactly.
-/

namespace Ahunter.Mx

open Ahunter.Lib

variable {options : DrainOptions} {rt : Runtime} {net : Net} {affinity : String → Cell}

/-! ## Jobs in the tables -/

variable {store' : Store}

def Store.Jobs (rt : Runtime) (store : Store) : Prop :=
  ∀ key job, store.mediaJobs.get? key = some job →
    (ofLex key).2 = rt.sha256 job.sourceUrl ∧
      ∃ row, store.events.get? (ofLex key).1 = some row ∧ row.rid = job.rid

def spent (options : DrainOptions) (job : MediaJob) : ℕ :=
  if job.status = .completed then 3 * options.maxAttempts else 3 * job.attempts

def freshJob (event : Event) (sourceUrl : String) : MediaJob where
  rid := event.rid
  sourceUrl := sourceUrl
  status := .pending
  attempts := 0
  nextAttemptAt := event.receivedAt
  errorCode := none

theorem get?_setIfAbsent {κ α : Type} [LinearOrder κ] (d : Dict κ α) (k j : κ) (v : α) :
    (setIfAbsent d k v).get? j = (d.get? j).orElse fun _ => if j = k then some v else none := by
  unfold setIfAbsent
  split
  · next h =>
      obtain ⟨w, hw⟩ := Dict.contains_iff.mp h
      cases hj : d.get? j with
      | some u => rfl
      | none =>
          have hne : j ≠ k := by
            rintro rfl
            cases hj.symm.trans hw
          rw [Option.orElse_none, if_neg hne]
  · next h =>
      have hnone : d.get? k = none := by
        rw [← Option.not_isSome_iff_eq_none]
        exact h
      rw [Dict.get?_set]
      split
      · next hjk => rw [hjk, hnone, Option.orElse_none]
      · cases d.get? j <;> rfl

theorem sum_setIfAbsent {κ α : Type} [LinearOrder κ] (d : Dict κ α) (k : κ) (v : α)
    (f : κ → α → ℕ) (h : f k v = 0) : (setIfAbsent d k v).sum f = d.sum f := by
  unfold setIfAbsent
  split
  · rfl
  · next hnew =>
      have hnone : d.get? k = none := by
        rw [← Option.not_isSome_iff_eq_none]
        exact hnew
      rw [Dict.sum_set_new hnone, h, add_zero]

theorem insertMediaJobs_get? (rt : Runtime) (event : Event) (jobs : Dict MediaKey MediaJob)
    (key : MediaKey) :
    (∀ job, jobs.get? key = some job → (insertMediaJobs rt event jobs).get? key = some job) ∧
      ∀ job, (insertMediaJobs rt event jobs).get? key = some job →
        jobs.get? key = some job ∨ jobs.get? key = none ∧ ∃ sourceUrl,
          key = mediaKey event.eventId (rt.sha256 sourceUrl) ∧ job = freshJob event sourceUrl := by
  unfold insertMediaJobs
  induction event.parsedContent.imageUrls generalizing jobs with
  | nil => exact ⟨fun _ h => h, fun _ h => .inl h⟩
  | cons sourceUrl urls ih =>
      rw [List.foldl_cons]
      obtain ⟨hkept, hfrom⟩ := ih (setIfAbsent jobs (mediaKey event.eventId (rt.sha256 sourceUrl))
        (freshJob event sourceUrl))
      simp only [get?_setIfAbsent] at hkept hfrom
      constructor
      · intro job hjob
        refine hkept job ?_
        rw [hjob]
        rfl
      · intro job hjob
        rcases hfrom job hjob with hold | ⟨hnone, hnew⟩
        · cases hget : jobs.get? key with
          | some old =>
              rw [hget] at hold
              exact .inl hold
          | none =>
              rw [hget, Option.orElse_none] at hold
              split at hold
              · next hkey => exact .inr ⟨rfl, sourceUrl, hkey, (Option.some.inj hold).symm⟩
              · cases hold
        · cases hget : jobs.get? key with
          | some old =>
              rw [hget] at hnone
              cases hnone
          | none => exact .inr ⟨rfl, hnew⟩

theorem sum_insertMediaJobs (rt : Runtime) (event : Event) (jobs : Dict MediaKey MediaJob) :
    (insertMediaJobs rt event jobs).sum (fun _ job => spent options job)
      = jobs.sum fun _ job => spent options job := by
  unfold insertMediaJobs
  induction event.parsedContent.imageUrls generalizing jobs with
  | nil => rfl
  | cons sourceUrl urls ih =>
      rw [List.foldl_cons, ih]
      exact sum_setIfAbsent _ _ _ _ (by simp [spent])

/-- What a write of the listener does to the jobs. -/
structure Aside (options : DrainOptions) (rt : Runtime) (store store' : Store) : Prop where
  jobs : store'.Jobs rt
  kept : ∀ key job, store.mediaJobs.get? key = some job → store'.mediaJobs.get? key = some job
  added : ∀ key job, store'.mediaJobs.get? key = some job →
    store.mediaJobs.get? key = some job ∨ store.mediaJobs.get? key = none ∧ job.attempts = 0
  spent : (store'.mediaJobs.sum fun _ job => spent options job)
    = store.mediaJobs.sum fun _ job => Mx.spent options job

variable {store : Store}

theorem Aside.of_same (h : store.Jobs rt) (hjobs : store'.mediaJobs = store.mediaJobs)
    (hevents : ∀ eventId row,
      store.events.get? eventId = some row →
        ∃ row', store'.events.get? eventId = some row' ∧ row'.rid = row.rid) :
    Aside options rt store store' where
  jobs := by
    intro key job hjob
    rw [hjobs] at hjob
    obtain ⟨hkey, row, hrow, hrid⟩ := h key job hjob
    obtain ⟨row', hrow', hrid'⟩ := hevents _ row hrow
    exact ⟨hkey, row', hrow', hrid'.trans hrid⟩
  kept := fun key job hjob => hjobs ▸ hjob
  added := fun key job hjob => .inl (hjobs ▸ hjob)
  spent := by rw [hjobs]

theorem commit_aside {write : Write} {runId : String} {more : List Write}
    (haside : write.aside = true) (h : store.Jobs rt)
    (hcommit : write.commit rt affinity runId store = .ok (store', more)) :
    Aside options rt store store' := by
  have hrefl : ∀ eventId row, store.events.get? eventId = some row →
      ∃ row', store.events.get? eventId = some row' ∧ row'.rid = row.rid :=
    fun _ row hrow => ⟨row, hrow, rfl⟩
  cases write with
  | completeMediaJob eventId rid downloadedAt media => cases haside
  | failMediaJob eventId urlHash attempts nextAttemptAt => cases haside
  | count kind at_ =>
      cases hcommit
      exact .of_same h rfl hrefl
  | decodeFailure payloadHash errorClass at_ =>
      cases hcommit
      exact .of_same h rfl hrefl
  | purgeExpiredPayloads now =>
      cases hcommit
      refine .of_same h rfl fun eventId row hrow => ?_
      refine ⟨_, (Dict.get?_map _ _ _).trans (congrArg _ hrow), ?_⟩
      dsimp only
      split <;> rfl
  | insertEvent event =>
      obtain ⟨⟨inner, inserted⟩, hinsert, hcommit⟩ := bind_ok.mp hcommit
      cases hcommit
      obtain ⟨cell, -, hinsert⟩ := bind_ok.mp hinsert
      dsimp only at hinsert
      split at hinsert
      · cases hinsert
        exact .of_same h rfl hrefl
      · next hnew =>
          cases hinsert
          have hnone : store.events.get? event.eventId = none := by
            rw [← Option.not_isSome_iff_eq_none]
            exact hnew
          have hget := insertMediaJobs_get? rt event store.mediaJobs
          refine ⟨fun key job hjob => ?_, fun key => (hget key).1, fun key job hjob => ?_,
            sum_insertMediaJobs rt event store.mediaJobs⟩
          · rcases (hget key).2 job hjob with hold | ⟨-, sourceUrl, rfl, rfl⟩
            · obtain ⟨hkey, row, hrow, hrid⟩ := h key job hold
              refine ⟨hkey, row, ?_, hrid⟩
              have hne : (ofLex key).1 ≠ event.eventId := fun heq => by
                cases (heq ▸ hrow).symm.trans hnone
              exact (Dict.get?_set_of_ne hne).trans hrow
            · exact ⟨rfl, _, Dict.get?_set_self _ _ _, rfl⟩
          · rcases (hget key).2 job hjob with hold | ⟨hfresh, sourceUrl, -, rfl⟩
            · exact .inl hold
            · exact .inr ⟨hfresh, rfl⟩

/-! ## A settled download -/

variable {job : DueJob} {media : Media} {attempted : Attempted}

structure DueJob.Of (options : DrainOptions) (store : Store) (job : DueJob) (row : MediaJob) :
    Prop where
  stored : store.mediaJobs.get? job.key = some row
  unfinished : row.status ≠ .completed
  attempts : row.attempts = job.attempts
  rid : row.rid = job.rid
  sourceUrl : row.sourceUrl = job.sourceUrl
  below : job.attempts < options.maxAttempts

variable {row : MediaJob}

theorem DueJob.Of.key (h : job.Of options store row) (hjobs : store.Jobs rt) (urlHash : String) :
    mediaKey (ofLex job.key).1 urlHash = job.key ↔ urlHash = rt.sha256 job.sourceUrl := by
  rw [← h.sourceUrl, ← (hjobs _ _ h.stored).1]
  constructor
  · intro heq
    exact congrArg (fun k : MediaKey => (ofLex k).2) heq
  · rintro rfl
    rfl

def completedRow (row : MediaJob) : MediaJob :=
  { row with
    status := .completed
    attempts := row.attempts + 1
    errorCode := none }

def failedRow (row : MediaJob) (attempts nextAttemptAt : ℕ) : MediaJob :=
  { row with
    status := .failed
    attempts := attempts
    nextAttemptAt := nextAttemptAt
    errorCode := some "download_failed" }

theorem failMediaJob_eq {key : MediaKey}
    (h : store.mediaJobs.get? key = some row) (attempts nextAttemptAt : ℕ) :
    store.failMediaJob key attempts nextAttemptAt = { store with
      mediaJobs := store.mediaJobs.set key (failedRow row attempts nextAttemptAt) } := by
  rw [Store.failMediaJob, h]
  rfl

variable {at_ : ℕ}

theorem completeMediaJob_cases {eventId : String} {rid : ℤ}
    (h : store.completeMediaJob eventId rid at_ media = .ok store') :
    ∃ row, store.mediaJobs.get? (mediaKey eventId media.urlHash) = some row ∧
      store'.events = store.events ∧
      store'.mediaJobs = store.mediaJobs.set (mediaKey eventId media.urlHash) (completedRow row) ∧
      ∃ image, store'.media.get? (mediaKey eventId media.urlHash) = some image := by
  simp only [Store.completeMediaJob, Store.insertMedia, bind_ok, need_ok, refuse_ok, pure_ok] at h
  obtain ⟨inner, ⟨event, -, -, -, rfl⟩, row, hrow, rfl⟩ := h
  refine ⟨row, hrow, rfl, rfl, ?_⟩
  dsimp only
  rw [get?_setIfAbsent, if_pos rfl]
  cases store.media.get? (mediaKey eventId media.urlHash) with
  | none => exact ⟨_, rfl⟩
  | some image => exact ⟨image, rfl⟩

theorem completeMediaJob_isOk (hjobs : store.Jobs rt)
    (h : job.Of options store row) (at_ : ℕ) (hhash : media.urlHash = rt.sha256 job.sourceUrl) :
    ∃ store', store.completeMediaJob (ofLex job.key).1 job.rid at_ media = .ok store' := by
  obtain ⟨-, event, hevent, hrid⟩ := hjobs _ _ h.stored
  have hkey := (h.key hjobs media.urlHash).mpr hhash
  have hrow := hkey ▸ h.stored
  have hroom : event.rid = job.rid := hrid.trans h.rid
  obtain ⟨inner, hinner, hsame⟩ : ∃ inner,
      store.insertMedia (ofLex job.key).1 job.rid at_ media = .ok inner ∧
        inner.mediaJobs = store.mediaJobs :=
    ⟨_, bind_ok.mpr ⟨event, need_ok.mpr hevent,
      bind_ok.mpr ⟨(), refuse_ok.mpr (not_not.mpr hroom), rfl⟩⟩, rfl⟩
  exact ⟨_, bind_ok.mpr ⟨inner, hinner, bind_ok.mpr ⟨row, need_ok.mpr (hsame ▸ hrow), rfl⟩⟩⟩

structure SettledRow (store store' : Store) (job : DueJob) (row row' : MediaJob) : Prop where
  events : store'.events = store.events
  jobs : store'.mediaJobs = store.mediaJobs.set job.key row'
  attempts : row'.attempts = row.attempts + 1
  rid : row'.rid = row.rid
  sourceUrl : row'.sourceUrl = row.sourceUrl

theorem settled_returned (hjobs : store.Jobs rt) (h : job.Of options store row) (at_ : ℕ)
    (hmedia : downloadUrl rt net job.sourceUrl job.eventReceivedAt attempted = .ok media)
    (hhash : media.urlHash = rt.sha256 job.sourceUrl) :
    SettledRow store (settled rt net store job at_ attempted) job row (completedRow row) ∧
      ∃ image, (settled rt net store job at_ attempted).media.get? job.key = some image := by
  obtain ⟨store', hcomplete⟩ := completeMediaJob_isOk hjobs h at_ hhash
  have hsettled : settled rt net store job at_ attempted = store' := by
    rw [settled, hmedia]
    dsimp only [bind, Except.bind]
    rw [hcomplete]
  obtain ⟨row', hrow, hevents, hset, himage⟩ := completeMediaJob_cases hcomplete
  rw [(h.key hjobs media.urlHash).mpr hhash] at hrow hset himage
  cases h.stored.symm.trans hrow
  rw [hsettled]
  exact ⟨⟨hevents, hset, rfl, rfl, rfl⟩, himage⟩

theorem settled_failed (h : job.Of options store row) {error : String}
    (herror : downloadUrl rt net job.sourceUrl job.eventReceivedAt attempted = .error error) :
    SettledRow store (settled rt net store job at_ attempted) job row
      (failedRow row (job.attempts + 1) (at_ + backoff (job.attempts + 1))) := by
  have hsettled : settled rt net store job at_ attempted
      = store.failMediaJob job.key (job.attempts + 1) (at_ + backoff (job.attempts + 1)) := by
    rw [settled, herror]
    rfl
  rw [hsettled, failMediaJob_eq h.stored]
  exact ⟨rfl, rfl, congrArg (· + 1) h.attempts.symm, rfl, rfl⟩

theorem settled_elsewhere (hjobs : store.Jobs rt) (h : job.Of options store row) (at_ : ℕ)
    (hmedia : downloadUrl rt net job.sourceUrl job.eventReceivedAt attempted = .ok media)
    (hhash : media.urlHash ≠ rt.sha256 job.sourceUrl) :
    ∃ row', (settled rt net store job at_ attempted).mediaJobs.get? job.key = some row' ∧
      row'.status ≠ .completed := by
  rw [settled, hmedia]
  dsimp only [bind, Except.bind]
  cases hcomplete : store.completeMediaJob (ofLex job.key).1 job.rid at_ media with
  | error e =>
      dsimp only
      rw [failMediaJob_eq h.stored]
      exact ⟨_, Dict.get?_set_self _ _ _, by simp [failedRow]⟩
  | ok store' =>
      obtain ⟨row', -, -, hset, -⟩ := completeMediaJob_cases hcomplete
      have hne : job.key ≠ mediaKey (ofLex job.key).1 media.urlHash := fun heq =>
        hhash ((h.key hjobs media.urlHash).mp heq.symm)
      refine ⟨row, ?_, h.unfinished⟩
      dsimp only
      rw [hset, Dict.get?_set_of_ne hne, h.stored]

/-! ## The drain -/

variable {d : Drain}

def Drain.held (d : Drain) : List DueJob := d.queue ++ d.running.map Prod.fst

structure Drain.Sound (options : DrainOptions) (rt : Runtime) (d : Drain) : Prop where
  jobs : d.store.Jobs rt
  attempts : ∀ key row, d.store.mediaJobs.get? key = some row →
    row.attempts ≤ options.maxAttempts
  held : ∀ job ∈ d.held, ∃ row, job.Of options d.store row
  nodup : (d.held.map DueJob.key).Nodup

def Normal (rt : Runtime) (net : Net) (sourceUrl : String) : Prop :=
  ∀ source, validatedUrl net sourceUrl "Image URL" = .ok source →
    rt.sha256 source.href = rt.sha256 sourceUrl

/-- A download that returns is of an address in its normal form. -/
def Move.Plain (rt : Runtime) (net : Net) (d : Drain) : Move → Prop
  | .settle worker attempted => ∀ job at_, d.running[worker]? = some (job, at_) →
      (downloadUrl rt net job.sourceUrl job.eventReceivedAt attempted).isOk = true →
        Normal rt net job.sourceUrl
  | _ => True

theorem normal_iff {sourceUrl : String}
    (h : downloadUrl rt net sourceUrl at_ attempted = .ok media) :
    Normal rt net sourceUrl ↔ media.urlHash = rt.sha256 sourceUrl := by
  obtain ⟨source, hsource, hhash⟩ := downloadUrl_hash h
  rw [hhash]
  constructor
  · exact fun hnormal => hnormal source hsource
  · intro heq other hother
    cases hsource.symm.trans hother
    exact heq

/-- What has been spent on all jobs. -/
def Drain.used (options : DrainOptions) (d : Drain) : ℕ :=
  d.store.mediaJobs.sum fun _ row => spent options row

/-- What the jobs of the batch have behind them. -/
def Drain.inFlight (d : Drain) : ℕ := d.queue.length + 2 * d.running.length

def Move.work (options : DrainOptions) (d : Drain) : Move → ℕ
  | .select now => if dueJobs options d.store now = [] then 0 else 1
  | .take _ | .settle _ _ => 1
  | _ => 0

/-- The job an attempt is made for. -/
def Move.taken (d : Drain) : Move → List MediaKey
  | .take _ => (d.queue.head?.map DueJob.key).toList
  | _ => []

/-- The attempts at a job, those in its row and the one being made. -/
def Drain.tries (d : Drain) (key : MediaKey) : ℕ :=
  ((d.store.mediaJobs.get? key).map MediaJob.attempts).getD 0
    + (d.running.map fun r => r.1.key).count key

structure Stepped (options : DrainOptions) (rt : Runtime) (d d' : Drain) (move : Move) : Prop where
  sound : d'.Sound options rt
  completed : ∀ key row, d.store.mediaJobs.get? key = some row → row.status = .completed →
    ∃ row', d'.store.mediaJobs.get? key = some row' ∧ row'.status = .completed
  paid : move ≠ .abort → move.work options d + d.used options + d.inFlight
    ≤ d'.used options + d'.inFlight
  tried : ∀ key, d'.tries key = d.tries key + (move.taken d).count key

theorem DueJob.Of.aside (h : job.Of options store row) (haside : Aside options rt store store') :
    job.Of options store' row :=
  { h with stored := haside.kept _ _ h.stored }

theorem DueJob.Of.settled {other : DueJob} {row row' : MediaJob}
    {otherRow : MediaJob} (h : other.Of options store otherRow)
    (hsettled : SettledRow store store' job row row') (hne : other.key ≠ job.key) :
    other.Of options store' otherRow :=
  { h with stored := by rw [hsettled.jobs, Dict.get?_set_of_ne hne, h.stored] }

theorem write_stepped (h : d.Sound options rt)
    (haside : Aside options rt d.store store) (runId : String) (write : Write) :
    Stepped options rt d { d with store := store } (.write runId write) where
  sound := {
    jobs := haside.jobs
    attempts := fun key row hrow => by
      rcases haside.added key row hrow with hold | ⟨-, hzero⟩
      · exact h.attempts key row hold
      · rw [hzero]
        exact Nat.zero_le _
    held := fun job hjob => (h.held job hjob).imp fun _ hof => hof.aside haside
    nodup := h.nodup }
  completed := fun key row hrow hstatus => ⟨row, haside.kept key row hrow, hstatus⟩
  paid := fun _ => by
    have hused : Drain.used options { d with store := store } = d.used options := haside.spent
    show 0 + d.used options + d.inFlight ≤ _
    rw [hused, Nat.zero_add]
    exact le_rfl
  tried := fun key => by
    have hsame : ((store.mediaJobs.get? key).map MediaJob.attempts).getD 0
        = ((d.store.mediaJobs.get? key).map MediaJob.attempts).getD 0 := by
      cases hget : d.store.mediaJobs.get? key with
      | some row => rw [haside.kept key row hget]
      | none =>
          cases hnew : store.mediaJobs.get? key with
          | none => rfl
          | some row =>
              rcases haside.added key row hnew with hold | ⟨-, hzero⟩
              · cases hget.symm.trans hold
              · exact hzero
    rw [Drain.tries, Drain.tries, hsame]
    rfl

theorem joined_keys (store : Store) (l : List (MediaKey × MediaJob)) :
    ((l.filterMap (joined store)).map DueJob.key).Sublist (l.map Prod.fst) := by
  induction l with
  | nil => exact .slnil
  | cons e l ih =>
      cases hjoined : joined store e with
      | none =>
          rw [List.filterMap_cons_none hjoined]
          exact ih.cons _
      | some job =>
          rw [List.filterMap_cons_some hjoined]
          have hkey : job.key = e.1 := by
            obtain ⟨row, -, rfl⟩ := Option.map_eq_some_iff.mp hjoined
            rfl
          rw [List.map_cons, List.map_cons, hkey]
          exact ih.cons_cons _

theorem dueJobs_nodup (options : DrainOptions) (store : Store) (now : ℕ) :
    ((dueJobs options store now).map DueJob.key).Nodup := by
  have hall : (((store.mediaJobs.entries.filter (isDue options now)).insertionSort fun a b =>
      toLex (a.2.nextAttemptAt, a.1) ≤ toLex (b.2.nextAttemptAt, b.1)).map Prod.fst).Nodup :=
    ((List.perm_insertionSort _ _).map Prod.fst).nodup_iff.mpr
      (store.mediaJobs.keys_nodup.sublist (List.filter_sublist.map Prod.fst))
  exact (hall.sublist (joined_keys store _)).sublist ((List.take_sublist _ _).map _)

theorem dueJobs_of {now : ℕ} (h : job ∈ dueJobs options store now) :
    ∃ row, job.Of options store row := by
  obtain ⟨e, he, hjoined⟩ := List.mem_filterMap.mp (List.mem_of_mem_take h)
  rw [List.mem_insertionSort, List.mem_filter] at he
  obtain ⟨hmem, hdue⟩ := he
  obtain ⟨row, -, rfl⟩ := Option.map_eq_some_iff.mp hjoined
  simp only [isDue, Bool.and_eq_true, Bool.or_eq_true, decide_eq_true_eq] at hdue
  refine ⟨e.2, Dict.mem_entries.mp hmem, ?_, rfl, rfl, rfl, hdue.1.2⟩
  rcases hdue.1.1.1 with hstatus | hstatus <;> rw [hstatus] <;> decide

theorem select_stepped (h : d.Sound options rt) (hqueue : d.queue = [])
    (hrunning : d.running = []) (now : ℕ) :
    Stepped options rt d { d with queue := dueJobs options d.store now } (.select now) := by
  have hheld : Drain.held { d with queue := dueJobs options d.store now }
      = dueJobs options d.store now := by
    rw [Drain.held, hrunning, List.map_nil, List.append_nil]
  refine ⟨⟨h.jobs, h.attempts, ?_, ?_⟩, fun key row hrow hstatus => ⟨row, hrow, hstatus⟩, ?_,
    fun key => rfl⟩
  · rw [hheld]
    exact fun job hjob => dueJobs_of hjob
  · rw [hheld]
    exact dueJobs_nodup options d.store now
  · intro _
    have hused : Drain.used options { d with queue := dueJobs options d.store now }
      = d.used options := rfl
    rw [hused, Move.work, Drain.inFlight, Drain.inFlight, hqueue]
    dsimp only
    split
    · rw [List.length_nil]
      omega
    · next hne =>
        have := List.length_pos_iff.mpr hne
        rw [List.length_nil]
        omega

theorem take_stepped (h : d.Sound options rt) {queue : List DueJob}
    (hqueue : d.queue = job :: queue) (now : ℕ) :
    Stepped options rt d { d with
      queue := queue
      running := d.running ++ [(job, now)] } (.take now) := by
  have hperm : (Drain.held { d with
      queue := queue
      running := d.running ++ [(job, now)] }).Perm d.held := by
    rw [Drain.held, Drain.held, hqueue, List.map_append, ← List.append_assoc]
    exact List.perm_append_singleton job (queue ++ d.running.map Prod.fst)
  refine ⟨⟨h.jobs, h.attempts, fun other hother => h.held other (hperm.mem_iff.mp hother),
    ((hperm.map _).nodup_iff).mpr h.nodup⟩, fun key row hrow hstatus => ⟨row, hrow, hstatus⟩, ?_,
    fun key => ?_⟩
  · intro _
    have hused : Drain.used options { d with
      queue := queue
      running := d.running ++ [(job, now)] } = d.used options := rfl
    rw [hused, Move.work, Drain.inFlight, Drain.inFlight, hqueue]
    simp only [List.length_cons, List.length_append, List.length_nil]
    omega
  · rw [Drain.tries, Drain.tries, Move.taken, hqueue]
    simp only [List.map_append, List.map_cons, List.map_nil, List.count_append, List.head?_cons,
      Option.map_some, Option.toList_some]
    omega

theorem settled_row (hjobs : store.Jobs rt) (h : job.Of options store row) (at_ : ℕ)
    (hplain : ∀ media, downloadUrl rt net job.sourceUrl job.eventReceivedAt attempted = .ok media →
      media.urlHash = rt.sha256 job.sourceUrl) :
    ∃ row', SettledRow store (settled rt net store job at_ attempted) job row row' ∧
      spent options row + 3 ≤ spent options row' := by
  have hspent : spent options row = 3 * job.attempts := by
    rw [spent, if_neg h.unfinished, h.attempts]
  have hbelow := h.below
  cases hmedia : downloadUrl rt net job.sourceUrl job.eventReceivedAt attempted with
  | ok media =>
      refine ⟨_, (settled_returned hjobs h at_ hmedia (hplain media hmedia)).1, ?_⟩
      rw [hspent, spent, if_pos (show (completedRow row).status = .completed from rfl)]
      omega
  | error error =>
      refine ⟨_, settled_failed h hmedia, ?_⟩
      rw [hspent, spent, if_neg (by simp [failedRow])]
      show 3 * job.attempts + 3 ≤ 3 * (job.attempts + 1)
      omega

theorem settle_stepped (h : d.Sound options rt) {worker : ℕ}
    (hworker : d.running[worker]? = some (job, at_))
    (hplain : ∀ media, downloadUrl rt net job.sourceUrl job.eventReceivedAt attempted = .ok media →
      media.urlHash = rt.sha256 job.sourceUrl) :
    Stepped options rt d { d with
      store := settled rt net d.store job at_ attempted
      running := d.running.eraseIdx worker } (.settle worker attempted) := by
  obtain ⟨hlt, hget⟩ := List.getElem?_eq_some_iff.mp hworker
  have hperm : ((job, at_) :: d.running.eraseIdx worker).Perm d.running :=
    hget ▸ List.getElem_cons_eraseIdx_perm hlt
  have hheld : (job :: (d.queue ++ (d.running.eraseIdx worker).map Prod.fst)).Perm d.held :=
    List.perm_middle.symm.trans ((hperm.map Prod.fst).append_left d.queue)
  have hkeys : ((job :: (d.queue ++ (d.running.eraseIdx worker).map Prod.fst)).map
      DueJob.key).Nodup := ((hheld.map _).nodup_iff).mpr h.nodup
  rw [List.map_cons, List.nodup_cons] at hkeys
  obtain ⟨row, hof⟩ := h.held job (hheld.mem_iff.mp List.mem_cons_self)
  obtain ⟨row', hsettled, hspent⟩ := settled_row h.jobs hof at_ hplain
  refine ⟨⟨fun key other hother => ?_, fun key other hother => ?_, fun other hother => ?_,
    hkeys.2⟩, fun key other hother hstatus => ?_, fun _ => ?_, fun key => ?_⟩
  · rw [hsettled.jobs, Dict.get?_set] at hother
    rw [hsettled.events]
    split at hother
    · next hkey =>
        cases hother
        rw [hkey, hsettled.sourceUrl, hsettled.rid]
        exact h.jobs _ _ hof.stored
    · exact h.jobs key other hother
  · rw [hsettled.jobs, Dict.get?_set] at hother
    split at hother
    · cases hother
      rw [hsettled.attempts, hof.attempts]
      exact hof.below
    · exact h.attempts key other hother
  · obtain ⟨otherRow, hotherOf⟩ := h.held other
      (hheld.mem_iff.mp (List.mem_cons_of_mem job hother))
    have hne : other.key ≠ job.key := fun heq =>
      hkeys.1 (heq ▸ List.mem_map_of_mem hother)
    exact ⟨otherRow, hotherOf.settled hsettled hne⟩
  · have hne : key ≠ job.key := by
      rintro rfl
      cases hof.stored.symm.trans hother
      exact hof.unfinished hstatus
    exact ⟨other, by rw [hsettled.jobs, Dict.get?_set_of_ne hne, hother], hstatus⟩
  · have hset := Dict.sum_set d.store.mediaJobs job.key row' fun _ row => spent options row
    rw [hof.stored, Option.elim_some, ← hsettled.jobs] at hset
    have hlength := hperm.length_eq
    rw [List.length_cons] at hlength
    show 1 + d.used options + (d.queue.length + 2 * d.running.length)
      ≤ ((settled rt net d.store job at_ attempted).mediaJobs.sum fun _ row => spent options row)
        + (d.queue.length + 2 * (d.running.eraseIdx worker).length)
    rw [Drain.used]
    omega
  · have hcount := ((hperm.map fun r => r.1.key).count_eq key)
    have htaken : (Move.settle worker attempted).taken d = [] := rfl
    rw [Drain.tries, Drain.tries, htaken, List.count_nil, ← hcount, List.map_cons,
      List.count_cons]
    dsimp only
    rw [hsettled.jobs, Dict.get?_set]
    by_cases hkey : key = job.key
    · rw [if_pos hkey, hkey, hof.stored, if_pos (beq_self_eq_true job.key)]
      simp only [Option.map_some, Option.getD_some, hsettled.attempts]
      omega
    · have hbeq : (job.key == key) = false := beq_eq_false_iff_ne.mpr (Ne.symm hkey)
      rw [if_neg hkey, hbeq]
      simp only [Bool.false_eq_true, if_false]
      omega

theorem abort_stepped (h : d.Sound options rt) :
    Stepped options rt d { d with queue := [] } .abort where
  sound := {
    jobs := h.jobs
    attempts := h.attempts
    held := fun job hjob => h.held job (List.mem_append_right _ hjob)
    nodup := h.nodup.sublist ((List.sublist_append_right d.queue _).map _) }
  completed := fun _ row hrow hstatus => ⟨row, hrow, hstatus⟩
  paid := fun hne => absurd rfl hne
  tried := fun _ => rfl

variable {d' : Drain}

theorem step_stepped {move : Move} (h : d.Sound options rt)
    (hplain : move.Plain rt net d) (hstep : d.step options rt net affinity move = some d') :
    Stepped options rt d d' move := by
  cases move with
  | write runId write =>
      rw [Drain.step] at hstep
      split at hstep
      · next haside =>
          split at hstep
          · next store more hcommit =>
              cases hstep
              exact write_stepped h (commit_aside haside h.jobs hcommit) runId write
          · cases hstep
            exact write_stepped h (.of_same h.jobs rfl fun _ row hrow => ⟨row, hrow, rfl⟩) runId
              write
      · cases hstep
  | select now =>
      rw [Drain.step] at hstep
      split at hstep
      · next hqueue hrunning =>
          cases hstep
          exact select_stepped h hqueue hrunning now
      · cases hstep
  | take now =>
      rw [Drain.step] at hstep
      split at hstep
      · cases hstep
      · next job queue hqueue =>
          split at hstep
          · cases hstep
            exact take_stepped h hqueue now
          · cases hstep
  | settle worker attempted =>
      rw [Drain.step] at hstep
      split at hstep
      · cases hstep
      · next job at_ hworker =>
          cases hstep
          refine settle_stepped h hworker fun media hmedia => ?_
          refine (normal_iff hmedia).mp (hplain job at_ hworker ?_)
          rw [hmedia]
          rfl
  | abort =>
      cases hstep
      exact abort_stepped h

/-! ## Runs -/

inductive PlainRun (options : DrainOptions) (rt : Runtime) (net : Net) (affinity : String → Cell) :
    Drain → List Move → List MediaKey → ℕ → Drain → Prop
  | nil (d : Drain) : PlainRun options rt net affinity d [] [] 0 d
  | cons {d d' d'' : Drain} {move : Move} {moves : List Move} {keys : List MediaKey} {work : ℕ}
      (hplain : move.Plain rt net d) (hstep : d.step options rt net affinity move = some d')
      (hrest : PlainRun options rt net affinity d' moves keys work d'') :
      PlainRun options rt net affinity d (move :: moves) (move.taken d ++ keys)
        (move.work options d + work) d''

/-- What a run does. -/
structure Drained (options : DrainOptions) (rt : Runtime) (d d' : Drain) (moves : List Move)
    (keys : List MediaKey) (work : ℕ) : Prop where
  sound : d'.Sound options rt
  completed : ∀ key row, d.store.mediaJobs.get? key = some row → row.status = .completed →
    ∃ row', d'.store.mediaJobs.get? key = some row' ∧ row'.status = .completed
  paid : .abort ∉ moves → work + d.used options + d.inFlight ≤ d'.used options + d'.inFlight
  tried : ∀ key, d'.tries key = d.tries key + keys.count key

theorem run_drained {moves : List Move} {keys : List MediaKey} {work : ℕ}
    (h : d.Sound options rt) (hrun : PlainRun options rt net affinity d moves keys work d') :
    Drained options rt d d' moves keys work := by
  induction hrun with
  | nil d =>
      refine ⟨h, fun _ row hrow hstatus => ⟨row, hrow, hstatus⟩, fun _ => ?_, fun _ => rfl⟩
      rw [Nat.zero_add]
  | @cons d d' d'' move moves keys work hplain hstep hrest ih =>
      have hfirst := step_stepped h hplain hstep
      have hlater := ih hfirst.sound
      refine ⟨hlater.sound, fun key row hrow hstatus => ?_, fun habort => ?_, fun key => ?_⟩
      · obtain ⟨row', hrow', hstatus'⟩ := hfirst.completed key row hrow hstatus
        exact hlater.completed key row' hrow' hstatus'
      · have hne : move ≠ .abort := fun heq => habort (heq ▸ List.mem_cons_self)
        have hpaid := hfirst.paid hne
        have hpaid' := hlater.paid fun hmem => habort (List.mem_cons_of_mem move hmem)
        omega
      · rw [hlater.tried, hfirst.tried, List.count_append, Nat.add_assoc]

theorem drain_start_sound : Drain.start.Sound options rt where
  jobs := fun _ _ hjob => by cases hjob
  attempts := fun _ _ hrow => by cases hrow
  held := fun _ hjob => by cases hjob
  nodup := List.nodup_nil

theorem tries_le (h : d.Sound options rt) (key : MediaKey) : d.tries key ≤ options.maxAttempts := by
  have hnodup : (d.running.map fun r => r.1.key).Nodup := by
    have hsub := (List.sublist_append_right d.queue (d.running.map Prod.fst)).map DueJob.key
    rw [List.map_map] at hsub
    exact h.nodup.sublist hsub
  by_cases hmem : key ∈ d.running.map fun r => r.1.key
  · obtain ⟨r, hr, rfl⟩ := List.mem_map.mp hmem
    obtain ⟨row, hof⟩ := h.held r.1 (List.mem_append_right _ (List.mem_map_of_mem hr))
    rw [Drain.tries, List.count_eq_one_of_mem hnodup hmem, hof.stored, Option.map_some,
      Option.getD_some, hof.attempts]
    exact hof.below
  · rw [Drain.tries, List.count_eq_zero_of_not_mem hmem, Nat.add_zero]
    cases hget : d.store.mediaJobs.get? key with
    | none => exact Nat.zero_le _
    | some row => exact h.attempts key row hget

theorem used_le (h : d.Sound options rt) :
    d.used options + d.inFlight
      ≤ (3 * options.maxAttempts + 2) * d.store.mediaJobs.entries.length := by
  have hspent : d.used options
      ≤ d.store.mediaJobs.sum fun _ _ => 3 * options.maxAttempts :=
    Dict.sum_le_sum fun key row hrow => by
      have := h.attempts key row hrow
      rw [spent]
      split <;> omega
  have hall : (d.store.mediaJobs.sum fun _ _ => 3 * options.maxAttempts)
      = d.store.mediaJobs.entries.length * (3 * options.maxAttempts) := by
    rw [Dict.sum, List.map_const', List.sum_replicate, Nat.nsmul_eq_mul]
  have hheld : (d.held.map DueJob.key).length ≤ d.store.mediaJobs.keys.length := by
    refine (List.subperm_of_subset h.nodup fun key hkey => ?_).length_le
    obtain ⟨job, hjob, rfl⟩ := List.mem_map.mp hkey
    obtain ⟨row, hof⟩ := h.held job hjob
    exact Dict.mem_keys.mpr ⟨row, hof.stored⟩
  rw [Drain.held, List.length_map, List.length_append, List.length_map, Dict.keys,
    List.length_map] at hheld
  rw [Drain.inFlight, Nat.add_mul, Nat.mul_comm (3 * options.maxAttempts)]
  omega

theorem step_isSome (d : Drain) (now : ℕ) (attempted : Attempted) :
    ∃ move ∈ [Move.select now, .take now, .settle 0 attempted],
      (d.step options rt net affinity move).isSome = true := by
  cases hrunning : d.running with
  | cons r running =>
      refine ⟨.settle 0 attempted, by simp, ?_⟩
      rw [Drain.step, hrunning, List.getElem?_cons_zero]
      rfl
  | nil =>
      cases hqueue : d.queue with
      | nil =>
          refine ⟨.select now, by simp, ?_⟩
          rw [Drain.step, hqueue, hrunning]
          rfl
      | cons job queue =>
          refine ⟨.take now, by simp, ?_⟩
          rw [Drain.step, hqueue, hrunning]
          dsimp only
          rw [if_pos (show ([] : List (DueJob × ℕ)).length < options.maxConcurrent from
            options.concurrent_pos)]
          rfl

theorem settle_completed_iff (h : d.Sound options rt) {worker : ℕ}
    (hworker : d.running[worker]? = some (job, at_))
    (hstep : d.step options rt net affinity (.settle worker attempted) = some d')
    (hreturns : (downloadUrl rt net job.sourceUrl job.eventReceivedAt attempted).isOk = true) :
    ((∃ row, d'.store.mediaJobs.get? job.key = some row ∧ row.status = .completed) ∧
      ∃ image, d'.store.media.get? job.key = some image) ↔ Normal rt net job.sourceUrl := by
  obtain ⟨media, hmedia⟩ := isOk_iff.mp hreturns
  have hjob : job ∈ d.held :=
    List.mem_append_right _ (List.mem_map_of_mem (List.mem_of_getElem? hworker))
  obtain ⟨row, hof⟩ := h.held job hjob
  have hd' : d'.store = settled rt net d.store job at_ attempted := by
    rw [Drain.step, hworker] at hstep
    cases hstep
    rfl
  rw [hd', normal_iff hmedia]
  constructor
  · rintro ⟨⟨row', hrow', hstatus⟩, -⟩
    by_contra hhash
    obtain ⟨other, hother, hopen⟩ := settled_elsewhere h.jobs hof at_ hmedia hhash
    cases hrow'.symm.trans hother
    exact hopen hstatus
  · intro hhash
    obtain ⟨hsettled, himage⟩ := settled_returned h.jobs hof at_ hmedia hhash
    exact ⟨⟨_, by rw [hsettled.jobs, Dict.get?_set_self], rfl⟩, himage⟩

/-- Where each download that returns is of an address in its normal form, a
download that returns completes the job it was made for, and it does so only
there; a completed job stays completed; a job is attempted so often at most; and
the drain comes to an end. -/
theorem drain_law {moves : List Move} {keys : List MediaKey} {work : ℕ} {d : Drain}
    (hrun : PlainRun options rt net affinity Drain.start moves keys work d) :
    (∀ worker job at_ attempted d', d.running[worker]? = some (job, at_) →
      d.step options rt net affinity (.settle worker attempted) = some d' →
      (downloadUrl rt net job.sourceUrl job.eventReceivedAt attempted).isOk = true →
      (((∃ row, d'.store.mediaJobs.get? job.key = some row ∧ row.status = .completed) ∧
        ∃ image, d'.store.media.get? job.key = some image) ↔ Normal rt net job.sourceUrl)) ∧
    (∀ key, keys.count key ≤ options.maxAttempts) ∧
    (∀ moves' keys' work' d', PlainRun options rt net affinity d moves' keys' work' d' →
      (∀ key row, d.store.mediaJobs.get? key = some row → row.status = .completed →
        ∃ row', d'.store.mediaJobs.get? key = some row' ∧ row'.status = .completed) ∧
      (.abort ∉ moves' →
        work' ≤ (3 * options.maxAttempts + 2) * d'.store.mediaJobs.entries.length)) ∧
    ∀ now attempted, ∃ move ∈ [Move.select now, .take now, .settle 0 attempted],
      (d.step options rt net affinity move).isSome = true := by
  have hdrained := run_drained drain_start_sound hrun
  refine ⟨fun worker job at_ attempted d' hworker hstep hreturns =>
    settle_completed_iff hdrained.sound hworker hstep hreturns, fun key => ?_,
    fun moves' keys' work' d' hrun' => ?_, step_isSome d⟩
  · have htried := hdrained.tried key
    have hle := tries_le hdrained.sound key
    omega
  · have hlater := run_drained hdrained.sound hrun'
    refine ⟨hlater.completed, fun habort => ?_⟩
    have hpaid := hlater.paid habort
    have hle := used_le hlater.sound
    omega

theorem plainRun_of_run {moves : List Move} (h : d.run options rt net affinity moves = some d')
    (hplain : ∀ move ∈ moves, ∀ d, move.Plain rt net d) :
    ∃ keys work, PlainRun options rt net affinity d moves keys work d' := by
  induction moves generalizing d with
  | nil =>
      cases h
      exact ⟨[], 0, .nil _⟩
  | cons move moves ih =>
      rw [Drain.run] at h
      obtain ⟨next, hstep, hrest⟩ := Option.bind_eq_some_iff.mp h
      obtain ⟨keys, work, hrun⟩ := ih hrest fun m hm => hplain m (List.mem_cons_of_mem move hm)
      exact ⟨_, _, .cons (hplain move List.mem_cons_self d) hstep hrun⟩

/-! ## Samples -/

def capitalUrl : String := "https://EXAMPLE.com/a.png"
def plainUrl : String := "https://example.com/a.png"

def drainRuntime : Runtime where
  sha256 := fun text =>
    if text = capitalUrl then "85385ec63cfa6437159e51fd8f41d7583532e191f95878720a9ee8b62280956f"
    else if text = plainUrl then "494a30704d4f32ac0b81739d18a66d3638d440cbc6f5669f6af66f840edee5ab"
    else "e3b0c44298fc1c149afbf4c8996fb92427ae41e4649b934ca495991b7852b855"
  sha256Bytes := fun _ => "4c4b6a3be1314ab86138bef4314dde022e600960d8689a2c8f8631802d20dab6"
  stringify := fun _ => "null"
  parse := fun _ => none
  render := fun _ => "0"
  decodeRoomFrame := fun _ _ => .error "Error"
  eventDate := fun _ => "2026-07-03"

def drainNet : Net where
  parse := fun value =>
    if value = capitalUrl ∨ value = plainUrl then
      some ⟨"https:", "", "", "example.com", plainUrl⟩
    else none
  resolve := fun _ _ => none
  setHostname := fun url hostname => { url with hostname := hostname }
  isIP := fun _ => 0

def pictureEvent (imageUrls : List String) : Event where
  eventId := "63656479175c7567956cabcc5fc711d3ff381f6e31c79f1b6178044a1b39d474"
  schemaVersion := 2
  rid := 20025
  sourceMessageId := some "1"
  oid := none
  receivedAt := 1783040460000
  sourceCreatedAt := none
  rawPayloadHash := "e3b0c44298fc1c149afbf4c8996fb92427ae41e4649b934ca495991b7852b855"
  rawPayload := "42/msg,[\"room_msg\",\"\"]"
  decodedText := ""
  parsedContent := ⟨.null, [], imageUrls⟩
  contentHash := "e3b0c44298fc1c149afbf4c8996fb92427ae41e4649b934ca495991b7852b855"

def answering : Attempted :=
  ⟨[some ⟨200, none, "", some "image/png", 0,
    some [0x89, 0x50, 0x4e, 0x47, 0x0d, 0x0a, 0x1a, 0x0a]⟩], true⟩
def silent : Attempted := ⟨[], true⟩

def drainStep (d : Drain) (move : Move) : Option Drain :=
  d.step .default drainRuntime drainNet (fun text => .text text) move

def takenMoves (imageUrls : List String) : List Move :=
  [.write "r1" (.insertEvent (pictureEvent imageUrls)), .select 1783040460001,
    .take 1783040460001]

def drainRun (moves : List Move) : Option Drain :=
  Drain.start.run .default drainRuntime drainNet (fun text => .text text) moves

def Drain.status (d : Drain) (sourceUrl : String) : Option JobStatus :=
  (d.store.mediaJobs.get? (mediaKey (pictureEvent []).eventId
    (drainRuntime.sha256 sourceUrl))).map MediaJob.status

def plainNet : Net :=
  { drainNet with
    parse := fun value =>
      if value = plainUrl then some ⟨"https:", "", "", "example.com", plainUrl⟩ else none }

theorem plainNet_normal (sourceUrl : String) : Normal drainRuntime plainNet sourceUrl := by
  intro source h
  obtain ⟨url, hurl, h⟩ := bind_ok.mp h
  rw [need_ok] at hurl
  have hparse : (if sourceUrl = plainUrl then
      some (⟨"https:", "", "", "example.com", plainUrl⟩ : Url) else none) = some url := hurl
  split at hparse
  · next heq =>
      cases hparse
      obtain ⟨_, -, h⟩ := bind_ok.mp h
      obtain ⟨_, -, h⟩ := bind_ok.mp h
      obtain ⟨_, -, h⟩ := bind_ok.mp h
      cases h
      rw [heq]
      split <;> rfl
  · cases hparse

/-- The one picture of a message is downloaded. -/
theorem drain_sample :
    ∃ moves keys work d, PlainRun .default drainRuntime plainNet (fun text => .text text)
      Drain.start moves keys work d ∧ d.status plainUrl = some .completed ∧
        ∀ key, keys.count key ≤ DrainOptions.default.maxAttempts := by
  have hrun : ∃ d ∈ Drain.start.run .default drainRuntime plainNet (fun text => .text text)
      (takenMoves [plainUrl] ++ [.settle 0 answering]),
      d.status plainUrl = some .completed := by decide +kernel
  obtain ⟨d, hrun, hstatus⟩ := hrun
  obtain ⟨keys, work, hplain⟩ := plainRun_of_run hrun fun move _ d => by
    cases move with
    | settle worker attempted => exact fun job _ _ _ => plainNet_normal job.sourceUrl
    | _ => trivial
  exact ⟨_, keys, work, d, hplain, hstatus, (drain_law hplain).2.1⟩

/-- A download of the address in capitals returns and its job fails. With both
addresses in one message it completes the other's job, which fails afterwards. -/
theorem drain_counterexample :
    (∃ d ∈ drainRun (takenMoves [capitalUrl] ++ [.settle 0 answering]),
      (downloadUrl drainRuntime drainNet capitalUrl 1783040460000 answering).isOk = true ∧
        d.status capitalUrl = some .failed) ∧
    ∃ d ∈ drainRun (takenMoves [plainUrl, capitalUrl]),
      ∃ d' ∈ (drainStep d (.take 1783040460002)).bind (drainStep · (.settle 1 answering)),
        ∃ d'' ∈ drainStep d' (.settle 0 silent),
          d'.status plainUrl = some .completed ∧ d''.status plainUrl = some .failed := by
  constructor <;> decide +kernel

end Ahunter.Mx
