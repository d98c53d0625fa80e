import Ahunter.Mx.Information

/-!
# What the collector keeps

Whatever frames and downloads came in, the rows of the store have the form
their writers gave them: identifiers and hashes are digests, room numbers come
from the configuration, and an image is kept under a path of its own form. The
path ends with the extension of the type its bytes show, and a file that is
already there under that path shows the same type, so a record's type is that
of the file it names, whichever download wrote it.
-/

namespace Ahunter.Mx

open Ahunter.Lib

variable {rt : Runtime} {affinity : String → Cell}

def PathDate (date : String) : Prop := safePart date = true ∧ date.toList.length ≤ 32

instance (date : String) : Decidable (PathDate date) := inferInstanceAs (Decidable (_ ∧ _))

/-- What Node computes as it says: digests are 64 hexadecimal digits and a date
is a plain part of a path. -/
structure Runtime.Lawful (rt : Runtime) : Prop where
  digest : ∀ text, isHash (rt.sha256 text) = true
  digestBytes : ∀ bytes, isHash (rt.sha256Bytes bytes) = true
  date : ∀ at_, PathDate (rt.eventDate at_)

/-! ## Bytes -/

variable {type : ImageType} {bytes : Bytes}

theorem slice_take {start stop n : ℕ} (h : stop ≤ n) :
    slice (bytes.take n) start stop = slice bytes start stop := by
  rw [slice, slice, List.take_take, min_eq_left h]

theorem detectedBox_some (h : detectedBox bytes = some type) :
    type = .avif ∧ 16 ≤ bytes.length ∧ slice bytes 4 8 = ascii "ftyp" := by
  rw [detectedBox] at h
  split at h
  · next hbox =>
      split at h
      · cases h
      · split at h
        · cases h
          exact ⟨rfl, hbox⟩
        · cases h
  · cases h

theorem detected_matches (h : detectedImageType bytes = some type) :
    3 ≤ bytes.length ∧ (matchesImageType (bytes.take 32) type = true ↔
      (type = .avif → slice bytes 8 12 ∈ avifBrands)) := by
  rw [detectedImageType] at h
  split at h
  · next hjpeg =>
      cases h
      refine ⟨hjpeg.1, iff_of_true ?_ nofun⟩
      rw [matchesImageType, List.take_take]
      exact decide_eq_true hjpeg.2
  · split at h
    · next hpng =>
        cases h
        refine ⟨by omega, iff_of_true ?_ nofun⟩
        rw [matchesImageType, List.take_take]
        exact decide_eq_true hpng.2
    · split at h
      · next hgif =>
          cases h
          refine ⟨by omega, iff_of_true ?_ nofun⟩
          rw [matchesImageType, List.take_take]
          refine decide_eq_true ?_
          rw [List.mem_cons, List.mem_singleton]
          exact hgif.2
      · split at h
        · next hwebp =>
            cases h
            refine ⟨by omega, iff_of_true ?_ nofun⟩
            obtain ⟨hlength, hriff, hform⟩ := hwebp
            rw [matchesImageType, List.take_take, slice_take (by decide)]
            simp [hlength, hriff, hform]
        · obtain ⟨rfl, hlength, hbox⟩ := detectedBox_some h
          refine ⟨by omega, ?_⟩
          have hhead : 12 ≤ bytes.length := by omega
          rw [matchesImageType, slice_take (by decide), slice_take (by decide)]
          simp [hhead, hbox]

/-! ## Paths -/

variable {hash : String}

theorem isHash_length (h : isHash hash = true) : hash.toList.length = 64 := by
  rw [isHash, Bool.and_eq_true] at h
  exact of_decide_eq_true h.1

theorem isHash_chars (h : isHash hash = true) {c : Char} (hc : c ∈ hash.toList) :
    ('0' ≤ c ∧ c ≤ '9') ∨ ('a' ≤ c ∧ c ≤ 'f') := by
  rw [isHash, Bool.and_eq_true, List.all_eq_true] at h
  simpa using h.2 c hc

theorem isEventId_of_isHash (h : isHash hash = true) : isEventId hash = true := by
  have halphanumeric : ∀ c ∈ hash.toList, asciiAlphanumeric c = true := by
    intro c hc
    rcases isHash_chars h hc with ⟨hle, hge⟩ | ⟨hle, hge⟩
    · simp [asciiAlphanumeric, hle, hge]
    · have hz : c ≤ 'z' := hge.trans (by decide)
      simp [asciiAlphanumeric, hle, hz]
  have hlength := isHash_length h
  rw [isEventId]
  cases hchars : hash.toList with
  | nil =>
      rw [hchars] at hlength
      cases hlength
  | cons c cs =>
      rw [hchars] at hlength halphanumeric
      rw [List.length_cons] at hlength
      have hshort : cs.length ≤ 127 := by omega
      have hall : (cs.all fun c => asciiAlphanumeric c || c ∈ ['_', '.', ':', '-']) = true := by
        rw [List.all_eq_true]
        intro d hd
        rw [halphanumeric d (List.mem_cons_of_mem c hd), Bool.true_or]
      dsimp only
      rw [halphanumeric c List.mem_cons_self, hall, decide_eq_true hshort]
      rfl

theorem imageName_toList (hash : String) (type : ImageType) :
    (hash ++ "." ++ type.extension).toList = hash.toList ++ '.' :: type.extension.toList := by
  rw [String.toList_append, String.toList_append, List.append_assoc]
  rfl

theorem imageName_safe (h : isHash hash = true) (type : ImageType) :
    safePart (hash ++ "." ++ type.extension) = true := by
  have hlist := imageName_toList hash type
  have hlong : 64 < (hash ++ "." ++ type.extension).toList.length := by
    rw [hlist, List.length_append, isHash_length h, List.length_cons]
    omega
  have hplain : ∀ c ∈ (hash ++ "." ++ type.extension).toList,
      c ∉ ['/', '\\'] ∧ 32 ≤ c.toNat := by
    intro c hc
    rw [hlist, List.mem_append] at hc
    rcases hc with hc | hc
    · rcases isHash_chars h hc with ⟨hle, hge⟩ | ⟨hle, hge⟩
      · have hlow : ('0' : Char).toNat ≤ c.toNat := hle
        have hhigh : c.toNat ≤ ('9' : Char).toNat := hge
        refine ⟨fun hmem => ?_, le_trans (by decide) hlow⟩
        rcases List.mem_cons.mp hmem with rfl | hmem
        · exact absurd hlow (by decide)
        · rw [List.mem_singleton] at hmem
          subst hmem
          exact absurd hhigh (by decide)
      · have hlow : ('a' : Char).toNat ≤ c.toNat := hle
        refine ⟨fun hmem => ?_, le_trans (by decide) hlow⟩
        rcases List.mem_cons.mp hmem with rfl | hmem
        · exact absurd hlow (by decide)
        · rw [List.mem_singleton] at hmem
          subst hmem
          exact absurd hlow (by decide)
    · have hextension : ('.' :: type.extension.toList).all
          (fun c => decide (c ∉ ['/', '\\'] ∧ 32 ≤ c.toNat)) = true := by
        cases type <;> decide
      exact of_decide_eq_true (List.all_eq_true.mp hextension c hc)
  rw [safePart, Bool.and_eq_true, List.all_eq_true]
  refine ⟨decide_eq_true fun hmem => ?_, fun c hc => ?_⟩
  · have hshort : ∀ part ∈ ["", ".", ".."], part.toList.length ≤ 2 := by decide
    have := hshort _ hmem
    omega
  · obtain ⟨hseparator, hprintable⟩ := hplain c hc
    rw [Bool.and_eq_true]
    exact ⟨decide_eq_true hseparator, decide_eq_true hprintable⟩

theorem imagePath_safe {date : String} (hdate : PathDate date) (hhash : isHash hash = true)
    (type : ImageType) : safeMediaPath (imagePath date hash type) = true := by
  have hname : (hash ++ "." ++ type.extension).length ≤ 72 := by
    rw [← String.length_toList, imageName_toList, List.length_append, isHash_length hhash]
    cases type <;> decide
  have hdays : date.length ≤ 32 := hdate.2
  have hwhole : (String.intercalate "/" (imagePath date hash type)).toList.length ≤ 512 := by
    have hjoin : String.intercalate "/" (imagePath date hash type)
        = "data" ++ "/" ++ "media" ++ "/" ++ date ++ "/" ++ (hash ++ "." ++ type.extension) := rfl
    rw [hjoin, String.length_toList]
    simp only [String.length_append] at hname ⊢
    have hshort : ("data".length = 4 ∧ "/".length = 1) ∧ "media".length = 5 := by decide
    omega
  have hparts : ((imagePath date hash type).all safePart) = true := by
    have hroot : safePart "data" = true ∧ safePart "media" = true := by decide
    rw [imagePath, List.all_cons, List.all_cons, List.all_cons, List.all_cons, hroot.1,
      hroot.2, hdate.1, imageName_safe hhash]
    rfl
  rw [safeMediaPath, decide_eq_true hwhole, hparts]
  rfl

theorem imagePath_type {date date' hash' : String} {type' : ImageType}
    (hhash : isHash hash = true) (hhash' : isHash hash' = true)
    (h : imagePath date hash type = imagePath date' hash' type') : type = type' := by
  have hname : hash ++ "." ++ type.extension = hash' ++ "." ++ type'.extension := by
    injection h with _ h
    injection h with _ h
    injection h with _ h
    injection h
  have hlist := congrArg String.toList hname
  rw [imageName_toList, imageName_toList] at hlist
  have hext := (List.append_inj hlist ((isHash_length hhash).trans (isHash_length hhash').symm)).2
  revert hext
  cases type <;> cases type' <;> decide +kernel

/-! ## Forms -/

variable {files : List String → Option Bytes}

structure EventForm (eventId contentHash : String) (rid : ℤ) : Prop where
  identifier : isHash eventId = true
  digest : isHash contentHash = true
  room : 0 < rid ∧ rid ≤ maxSafeInteger

structure FileForm (path : List String) (bytes : Bytes) : Prop where
  limit : bytes.length ≤ imageLimit
  form : ∃ date hash type, PathDate date ∧ isHash hash = true ∧
    path = imagePath date hash type ∧ detectedImageType bytes = some type

structure Kept (files : List String → Option Bytes) (urlHash contentHash : String)
    (path : List String) (type : ImageType) : Prop where
  address : isHash urlHash = true
  content : isHash contentHash = true
  form : ∃ date, PathDate date ∧ path = imagePath date contentHash type
  file : ∃ bytes, files path = some bytes

def Write.Sound (files : List String → Option Bytes) : Write → Prop
  | .insertEvent event => EventForm event.eventId event.contentHash event.rid
  | .completeMediaJob _ _ _ media =>
      Kept files media.urlHash media.contentHash media.localPath media.contentType
  | _ => True

structure Store.Sound (files : List String → Option Bytes) (store : Store) : Prop where
  events : ∀ eventId row, store.events.get? eventId = some row →
    EventForm eventId row.contentHash row.rid
  media : ∀ key row, store.media.get? key = some row →
    Kept files (ofLex key).2 row.contentHash row.localPath row.contentType

structure Collector.Sound (c : Collector) : Prop where
  store : c.listener.store.Sound c.files
  todo : ∀ write ∈ c.listener.todo, write.Sound c.files
  files : ∀ path bytes, c.files path = some bytes → FileForm path bytes
  fetched : ∀ media ∈ c.fetched,
    Kept c.files media.urlHash media.contentHash media.localPath media.contentType

variable {urlHash contentHash : String}

theorem Kept.shown {path : List String} (h : Kept files urlHash contentHash path type)
    (hfiles : ∀ path bytes, files path = some bytes → FileForm path bytes) :
    safeMediaPath path = true ∧ ∃ bytes, files path = some bytes ∧
      bytes.length ≤ imageLimit ∧ detectedImageType bytes = some type := by
  obtain ⟨date, hdate, hpath⟩ := h.form
  obtain ⟨bytes, hbytes⟩ := h.file
  obtain ⟨hlimit, date', hash', type', -, hhash', hpath', hshown⟩ := hfiles path bytes hbytes
  have htype : type = type' := imagePath_type h.content hhash' (hpath.symm.trans hpath')
  refine ⟨hpath ▸ imagePath_safe hdate h.content type, bytes, hbytes, hlimit, ?_⟩
  rw [htype]
  exact hshown

theorem Kept.linked {path : List String}
    (h : Kept files urlHash contentHash path type) (name : List String) (bytes : Bytes) :
    Kept (linkFile files name bytes) urlHash contentHash path type := by
  refine ⟨h.address, h.content, h.form, ?_⟩
  obtain ⟨old, hold⟩ := h.file
  refine ⟨old, ?_⟩
  rw [linkFile]
  split
  · rw [hold]
    rfl
  · exact hold

theorem Write.Sound.linked {write : Write} (h : write.Sound files) (name : List String)
    (bytes : Bytes) : write.Sound (linkFile files name bytes) := by
  cases write with
  | completeMediaJob eventId rid downloadedAt media => exact Kept.linked h name bytes
  | insertEvent event => exact h
  | _ => exact trivial

/-! ## Steps -/

variable {event : Event}

theorem acceptMessage_form (hrt : rt.Lawful) {frame : String} {receivedAt : ℕ} {rid : ℤ}
    {value : Json} (h : acceptMessage rt frame receivedAt rid value = .ok event) :
    isHash event.eventId = true ∧ isHash event.contentHash = true ∧ event.rid = rid := by
  simp only [acceptMessage, bind_ok, need_ok, pure_ok] at h
  obtain ⟨msg, -, content, -, identity, -, sourceMessageId, -, oid, -, rfl⟩ := h
  exact ⟨hrt.digest _, hrt.digest _, rfl⟩

theorem classifyFrame_form (hrt : rt.Lawful) {allowedRids : List ℤ} {frame : String}
    {receivedAt : ℕ} (hallowed : ∀ rid ∈ allowedRids, 0 < rid ∧ rid ≤ maxSafeInteger)
    (h : classifyFrame rt allowedRids frame receivedAt = .accepted event) :
    EventForm event.eventId event.contentHash event.rid := by
  obtain ⟨value, -, rid, hrid, haccept⟩ := classifyFrame_accepted h
  obtain ⟨hid, hhash, hsame⟩ := acceptMessage_form hrt haccept
  exact ⟨hid, hhash, hsame ▸ hallowed rid hrid⟩

def Turn.Authorized : Turn → Prop
  | .frame allowedRids _ _ => ∀ rid ∈ allowedRids, 0 < rid ∧ rid ≤ maxSafeInteger
  | _ => True

def Action.Authorized : Action → Prop
  | .turn t => t.Authorized
  | _ => True

def Deed.Authorized : Deed → Prop
  | .act action => action.Authorized
  | .fetch _ _ => True

def Action.Records (fetched : Media → Prop) : Action → Prop
  | .turn (.downloaded _ _ _ media) => fetched media
  | _ => True

theorem turn_sound (hrt : rt.Lawful) {turn : Turn} (hauth : turn.Authorized)
    (hfetched : (Action.turn turn).Records fun media =>
      Kept files media.urlHash media.contentHash media.localPath media.contentType) :
    ∀ write ∈ turn.writes rt, write.Sound files := by
  cases turn with
  | frame allowedRids payloadData receivedAt =>
      rw [Turn.writes, acceptFrame]
      split
      · exact List.forall_mem_singleton.mpr trivial
      · split
        · exact List.forall_mem_singleton.mpr trivial
        · exact List.forall_mem_cons.mpr ⟨trivial, List.forall_mem_singleton.mpr trivial⟩
        · next event haccepted =>
            exact List.forall_mem_singleton.mpr (classifyFrame_form hrt hauth haccepted)
  | downloaded eventId rid downloadedAt media => exact List.forall_mem_singleton.mpr hfetched
  | _ => exact List.forall_mem_singleton.mpr trivial

variable {store store' : Store}

theorem insertEvent_sound {runId : String} {inserted : Bool} (hstore : store.Sound files)
    (hevent : EventForm event.eventId event.contentHash event.rid)
    (h : store.insertEvent rt affinity event runId = .ok (store', inserted)) :
    store'.Sound files := by
  obtain ⟨cell, -, h⟩ := bind_ok.mp h
  dsimp only at h
  split at h
  · cases h
    exact ⟨hstore.events, hstore.media⟩
  · cases h
    refine ⟨fun eventId row hget => ?_, hstore.media⟩
    rw [Dict.get?_set] at hget
    split at hget
    · next hkey =>
        cases hget
        rw [hkey]
        exact hevent
    · exact hstore.events eventId row hget

variable {media : Media}

theorem completeMediaJob_sound {eventId : String} {rid : ℤ}
    {downloadedAt : ℕ} (hstore : store.Sound files)
    (hmedia : Kept files media.urlHash media.contentHash media.localPath media.contentType)
    (h : store.completeMediaJob eventId rid downloadedAt media = .ok store') :
    store'.Sound files := by
  simp only [Store.completeMediaJob, Store.insertMedia, bind_ok, need_ok, refuse_ok,
    pure_ok] at h
  obtain ⟨inner, ⟨row, -, -, -, rfl⟩, job, -, rfl⟩ := h
  refine ⟨hstore.events, fun key row hget => ?_⟩
  dsimp only [setIfAbsent] at hget
  split at hget
  · exact hstore.media key row hget
  · rw [Dict.get?_set] at hget
    split at hget
    · next hkey =>
        cases hget
        rw [hkey]
        exact hmedia
    · exact hstore.media key row hget

theorem commit_sound {write : Write} {runId : String} {more : List Write}
    (hstore : store.Sound files) (hwrite : write.Sound files)
    (h : write.commit rt affinity runId store = .ok (store', more)) :
    store'.Sound files ∧ ∀ write ∈ more, write.Sound files := by
  cases write with
  | insertEvent event =>
      obtain ⟨⟨inner, inserted⟩, hinsert, h⟩ := bind_ok.mp h
      cases h
      exact ⟨insertEvent_sound hstore hwrite hinsert, List.forall_mem_singleton.mpr trivial⟩
  | completeMediaJob eventId rid downloadedAt media =>
      obtain ⟨inner, hcomplete, h⟩ := bind_ok.mp h
      cases h
      exact ⟨completeMediaJob_sound hstore hwrite hcomplete, by simp⟩
  | failMediaJob eventId urlHash attempts nextAttemptAt =>
      cases h
      refine ⟨?_, by simp⟩
      rw [Store.failMediaJob]
      split
      · exact hstore
      · exact ⟨hstore.events, hstore.media⟩
  | purgeExpiredPayloads now =>
      cases h
      refine ⟨⟨fun eventId row hget => ?_, hstore.media⟩, by simp⟩
      rw [Store.purgeExpiredPayloads, Dict.get?_map, Option.map_eq_some_iff] at hget
      obtain ⟨old, hold, rfl⟩ := hget
      have hform := hstore.events eventId old hold
      split
      · exact hform
      · exact hform
  | _ =>
      cases h
      exact ⟨⟨hstore.events, hstore.media⟩, by simp⟩

theorem listener_sound (hrt : rt.Lawful) {l l' : Listener} {action : Action}
    (hstore : l.store.Sound files) (htodo : ∀ write ∈ l.todo, write.Sound files)
    (hauth : action.Authorized)
    (hfetched : action.Records fun media =>
      Kept files media.urlHash media.contentHash media.localPath media.contentType)
    (h : l.step rt affinity action = some l') :
    l'.store.Sound files ∧ ∀ write ∈ l'.todo, write.Sound files := by
  cases action with
  | turn turn =>
      simp only [Listener.step] at h
      split at h
      · cases h
        exact ⟨hstore, turn_sound hrt hauth hfetched⟩
      · cases h
  | commit =>
      simp only [Listener.step] at h
      split at h
      · cases h
      · next write todo hsame =>
          rw [hsame, List.forall_mem_cons] at htodo
          split at h
          · next store more hcommit =>
              cases h
              obtain ⟨hafter, hmore⟩ := commit_sound hstore htodo.1 hcommit
              exact ⟨hafter, List.forall_mem_append.mpr ⟨hmore, htodo.2⟩⟩
          · cases h
            exact ⟨hstore, by simp⟩
  | crash runId =>
      cases h
      exact ⟨hstore, by simp⟩

theorem downloadImage_form (hrt : rt.Lawful) {eventReceivedAt : ℕ} {response : Response}
    (h : downloadImage rt eventReceivedAt response = .ok media) :
    FileForm media.localPath response.bytes ∧ isHash media.urlHash = true ∧
      isHash media.contentHash = true ∧ ∃ date, PathDate date ∧
        media.localPath = imagePath date media.contentHash media.contentType := by
  simp only [downloadImage, bind_ok, need_ok, refuse_ok, pure_ok, not_lt] at h
  obtain ⟨contentType, -, -, -, -, hlimit, detectedType, hdetected, -, -, rfl⟩ := h
  have hhash := hrt.digestBytes response.bytes
  have hdate := hrt.date eventReceivedAt
  exact ⟨⟨hlimit, _, _, _, hdate, hhash, rfl, hdetected⟩, hrt.digest _, hhash, _, hdate, rfl⟩

theorem fetch_sound (hrt : rt.Lawful) {c : Collector} {eventReceivedAt : ℕ}
    {response : Response} (hc : c.Sound)
    (h : downloadImage rt eventReceivedAt response = .ok media) :
    Collector.Sound { c with
      files := linkFile c.files media.localPath response.bytes
      fetched := media :: c.fetched } := by
  obtain ⟨hfile, hurl, hhash, hpath⟩ := downloadImage_form hrt h
  refine ⟨⟨hc.store.events, ?_⟩, ?_, ?_, ?_⟩
  · exact fun key row hget => (hc.store.media key row hget).linked _ _
  · exact fun write hwrite => (hc.todo write hwrite).linked _ _
  · intro path bytes hbytes
    dsimp only [linkFile] at hbytes
    split at hbytes
    · next hsame =>
        cases hold : c.files path with
        | some old =>
            rw [hold] at hbytes
            cases hbytes
            exact hc.files path bytes hold
        | none =>
            rw [hold] at hbytes
            cases hbytes
            rw [hsame]
            exact hfile
    · exact hc.files path bytes hbytes
  · refine List.forall_mem_cons.mpr ⟨⟨hurl, hhash, hpath, ?_⟩, ?_⟩
    · dsimp only [linkFile]
      rw [if_pos rfl]
      cases c.files media.localPath with
      | some old => exact ⟨old, rfl⟩
      | none => exact ⟨response.bytes, rfl⟩
    · exact fun other hother => (hc.fetched other hother).linked _ _

variable {c c' : Collector}

theorem act_sound (hrt : rt.Lawful) {action : Action} (hc : c.Sound)
    (hauth : action.Authorized) (h : c.step rt affinity (.act action) = some c') : c'.Sound := by
  have hplain : ∀ {l' : Listener}, c.listener.step rt affinity action = some l' →
      (action.Records fun media =>
        Kept c.files media.urlHash media.contentHash media.localPath media.contentType) →
      l'.store.Sound c.files ∧ ∀ write ∈ l'.todo, write.Sound c.files :=
    fun hstep hfetched => listener_sound hrt hc.store hc.todo hauth hfetched hstep
  cases action with
  | turn turn =>
      cases turn with
      | downloaded eventId rid downloadedAt media =>
          simp only [Collector.step] at h
          split at h
          · next hmem =>
              obtain ⟨l', hstep, h⟩ := Option.bind_eq_some_iff.mp h
              cases h
              obtain ⟨hstore, htodo⟩ := hplain hstep (hc.fetched media hmem)
              exact ⟨hstore, htodo, hc.files, hc.fetched⟩
          · cases h
      | _ =>
          obtain ⟨l', hstep, h⟩ := Option.bind_eq_some_iff.mp h
          cases h
          obtain ⟨hstore, htodo⟩ := hplain hstep trivial
          exact ⟨hstore, htodo, hc.files, hc.fetched⟩
  | commit =>
      obtain ⟨l', hstep, h⟩ := Option.bind_eq_some_iff.mp h
      cases h
      obtain ⟨hstore, htodo⟩ := hplain hstep trivial
      exact ⟨hstore, htodo, hc.files, hc.fetched⟩
  | crash runId =>
      simp only [Collector.step] at h
      obtain ⟨l', hstep, h⟩ := Option.bind_eq_some_iff.mp h
      cases h
      obtain ⟨hstore, htodo⟩ := hplain hstep trivial
      exact ⟨hstore, htodo, hc.files, by simp⟩

theorem step_sound (hrt : rt.Lawful) {deed : Deed} (hc : c.Sound)
    (hauth : deed.Authorized) (h : c.step rt affinity deed = some c') : c'.Sound := by
  cases deed with
  | act action => exact act_sound hrt hc hauth h
  | fetch eventReceivedAt response =>
      simp only [Collector.step] at h
      split at h
      · next media hmedia =>
          cases h
          exact fetch_sound hrt hc hmedia
      · cases h
        exact hc

theorem start_sound (runId : String) : (Collector.start runId).Sound where
  store := {
    events := fun _ _ h => by cases h
    media := fun _ _ h => by cases h }
  todo := by simp [Collector.start, Listener.start]
  files := fun _ _ h => by cases h
  fetched := by simp [Collector.start]

theorem run_sound (hrt : rt.Lawful) {deeds : List Deed} (hc : c.Sound)
    (hauth : ∀ deed ∈ deeds, deed.Authorized) (h : c.run rt affinity deeds = some c') :
    c'.Sound := by
  induction deeds generalizing c with
  | nil =>
      cases h
      exact hc
  | cons deed deeds ih =>
      obtain ⟨next, hstep, hrest⟩ := Option.bind_eq_some_iff.mp h
      rw [List.forall_mem_cons] at hauth
      exact ih (step_sound hrt hc hauth.1 hstep) hauth.2 hrest

end Ahunter.Mx
