import Ahunter.Proofs.CollectorFiles

/-!
# Reading what was stored

The reader looks at rows that have the form their writers gave them, so most
of its checks pass. What is left is what the writers take as it comes: the
source's own time of a message, how many images it has, and the brand of an
AVIF file, of which the writer accepts a compatible one and the reader does
not. The reader serves everything exactly when none of these is out of its
bounds.

That a page can be read says something of every event on it, and every event
is the first of some page: of the one behind the event before it.
-/

namespace Ahunter.Mx

open Ahunter.Lib

variable {reader : Reader} {now : ℕ} {allowed : List ℤ}

/-! ## Rows -/

variable {e : String × EventRow}

def Cell.Formatted : Cell → Prop
  | .null => True
  | .integer value => 0 ≤ value ∧ value < endOfDates
  | _ => False

theorem formatMillis_isOk (reader : Reader) {value : ℤ} :
    (∃ text, formatMillis reader (.integer value) = .ok text) ↔ 0 ≤ value ∧ value < endOfDates := by
  simp only [formatMillis, requireMillis, bind_ok, refuse_ok, pure_ok, not_not, not_le]
  constructor
  · rintro ⟨-, millis, ⟨-, ⟨hlow, -⟩, rfl⟩, -, hend, rfl⟩
    omega
  · rintro ⟨hlow, hend⟩
    have hhigh : value ≤ 2 ^ 63 - 1 := hend.le.trans (by decide)
    exact ⟨_, value.toNat, ⟨(), ⟨hlow, hhigh⟩, rfl⟩, (), by omega, rfl⟩

theorem formatMillisOptional_isOk (reader : Reader) {cell : Cell} :
    (∃ text, formatMillisOptional reader cell = .ok text) ↔ cell.Formatted := by
  cases cell with
  | null => exact iff_of_true ⟨none, rfl⟩ trivial
  | integer value =>
      rw [Cell.Formatted, ← formatMillis_isOk reader]
      constructor
      · rintro ⟨text, h⟩
        obtain ⟨inner, hinner, -⟩ := map_ok.mp h
        exact ⟨inner, hinner⟩
      · rintro ⟨text, h⟩
        exact ⟨some text, map_ok.mpr ⟨text, h, rfl⟩⟩
  | real value => exact iff_of_false (by rintro ⟨text, h⟩; cases h) id
  | text value => exact iff_of_false (by rintro ⟨text, h⟩; cases h) id

theorem eventItem_isOk (reader : Reader) (allowed : List ℤ)
    (hform : EventForm e.1 e.2.contentHash e.2.rid) (hat : e.2.receivedAt < endOfDates) :
    (∃ item, eventItem reader allowed e = .ok item) ↔ e.2.sourceCreatedAt.Formatted := by
  have hid : requireEventId e.1 = .ok e.1 := by
    rw [requireEventId, isEventId_of_isHash hform.identifier]
    rfl
  have hrid : requireRid e.2.rid = .ok e.2.rid := by
    rw [requireRid, refuse, if_neg (not_not.mpr hform.room)]
    rfl
  have hhash : requireHash e.2.contentHash = .ok e.2.contentHash := by
    rw [requireHash, hform.digest]
    rfl
  obtain ⟨received, hreceived⟩ := (formatMillis_isOk reader).mpr
    ⟨Int.natCast_nonneg e.2.receivedAt, Int.ofNat_lt.mpr hat⟩
  rw [← formatMillisOptional_isOk reader]
  simp only [eventItem, hid, hrid, hhash, hreceived, bind_ok, Except.ok.injEq, pure_ok]
  constructor
  · rintro ⟨item, -, -, -, -, -, -, created, hcreated, -⟩
    exact ⟨created, hcreated⟩
  · rintro ⟨created, hcreated⟩
    exact ⟨_, _, rfl, _, rfl, _, rfl, created, hcreated, _, rfl, rfl⟩

theorem safeCount_isOk {value : ℕ} :
    (∃ count, safeCount value = .ok count) ↔ value ≤ maxMediaPerEvent * 1000 := by
  simp only [safeCount, bind_ok, refuse_ok, pure_ok, not_lt]
  exact ⟨fun ⟨_, _, h, _⟩ => h, fun h => ⟨value, (), h, rfl⟩⟩

variable {store : Store}

theorem listedItem_isOk (reader : Reader) (allowed : List ℤ)
    (hform : EventForm e.1 e.2.contentHash e.2.rid) (hat : e.2.receivedAt < endOfDates) :
    (∃ item, listedItem reader allowed store e = .ok item) ↔
      e.2.sourceCreatedAt.Formatted ∧ mediaCount store e.1 ≤ maxMediaPerEvent * 1000 ∧
        pendingCount store e.1 ≤ maxMediaPerEvent * 1000 := by
  rw [← eventItem_isOk reader allowed hform hat, ← safeCount_isOk,
    ← safeCount_isOk]
  simp only [listedItem, bind_ok, pure_ok]
  constructor
  · rintro ⟨-, item, hitem, available, havailable, pending, hpending, -⟩
    exact ⟨⟨item, hitem⟩, ⟨available, havailable⟩, pending, hpending⟩
  · rintro ⟨⟨item, hitem⟩, ⟨available, havailable⟩, pending, hpending⟩
    exact ⟨_, item, hitem, available, havailable, pending, hpending, rfl⟩

/-! ## Details and images -/

variable {eventId : String}

theorem mediaRows_length (store : Store) (eventId : String) :
    (mediaRows store eventId).length = mediaCount store eventId := by
  rw [mediaRows, List.length_insertionSort, mediaCount, Dict.keys, List.filter_map,
    List.length_map]
  rfl

variable {files : List String → Option Bytes}

theorem mediaBlock_isOk
    (hstore : store.Sound files) {e : MediaKey × MediaRow} (he : e ∈ mediaRows store eventId) :
    ∃ block, mediaBlock eventId e = .ok block := by
  rw [mediaRows, List.mem_insertionSort, List.mem_filter] at he
  have hkept := hstore.media e.1 e.2 (Dict.mem_entries.mp he.1)
  rw [mediaBlock, requireHash, requireHash, hkept.address, hkept.content]
  exact ⟨_, rfl⟩

theorem orNotice_isOk
    (hpending : pendingCount store eventId ≤ maxMediaPerEvent * 1000) (blocks : List Block) :
    ∃ shown, orNotice store eventId blocks = .ok shown := by
  rw [orNotice]
  split
  · obtain ⟨count, hcount⟩ := safeCount_isOk.mpr hpending
    exact ⟨_, bind_ok.mpr ⟨count, hcount, rfl⟩⟩
  · exact ⟨blocks, rfl⟩

theorem eventDetail_isOk
    (hstore : store.Sound files) {row : EventRow} (hget : store.events.get? eventId = some row)
    (hnow : row.receivedAt ≤ now) (hend : now < endOfDates)
    (hpending : pendingCount store eventId ≤ maxMediaPerEvent * 1000) :
    (∃ detail, eventDetail reader now allowed store (.event eventId) = .ok detail) ↔
      row.sourceCreatedAt.Formatted ∧ mediaCount store eventId ≤ maxMediaPerEvent := by
  have hform := hstore.events eventId row hget
  have hid : requireEventId eventId = .ok eventId := by
    rw [requireEventId, isEventId_of_isHash hform.identifier]
    rfl
  have hlength := mediaRows_length store eventId
  rw [← eventItem_isOk reader allowed (e := (eventId, row)) hform
    (hnow.trans_lt hend)]
  simp only [eventDetail, hid, hget, bind_ok, Except.ok.injEq, exists_eq_left', need_ok,
    Option.some.injEq, refuse_ok, not_lt, List.length_take, hlength, pure_ok]
  constructor
  · rintro ⟨-, -, -, -, hfew, item, hitem, -⟩
    exact ⟨⟨item, hitem⟩, by omega⟩
  · rintro ⟨⟨item, hitem⟩, hfew⟩
    obtain ⟨images, himages, -⟩ := gather_all (f := mediaBlock eventId) (Q := fun _ => True)
      fun e he => (mediaBlock_isOk hstore (List.mem_of_mem_take he)).imp fun _ h => ⟨h, trivial⟩
    obtain ⟨blocks, hblocks⟩ := orNotice_isOk hpending _
    exact ⟨_, (), hnow, (), by omega, item, hitem, images, himages, blocks, hblocks, rfl⟩

theorem openMedia_isOk {c : Collector} (hc : c.Sound) {urlHash : String} {row : MediaRow}
    (hid : isEventId eventId = true)
    (hget : c.listener.store.media.get? (mediaKey eventId urlHash) = some row) :
    (∃ descriptor, openMedia c.listener.store c.files (.event eventId)
        (.media eventId urlHash) = .ok descriptor) ↔
      (row.contentType = .avif → ∀ bytes, c.files row.localPath = some bytes →
        slice bytes 8 12 ∈ avifBrands) := by
  have hkept := hc.store.media _ _ hget
  have haddress : isHash urlHash = true := hkept.address
  have hurl : requireHash urlHash = .ok urlHash := by
    rw [requireHash, haddress]
    rfl
  have hevent : requireEventId eventId = .ok eventId := by
    rw [requireEventId, hid]
    rfl
  obtain ⟨hsafe, bytes, hbytes, hlimit, hdetected⟩ := hkept.shown hc.files
  obtain ⟨hlength, hmatches⟩ := detected_matches hdetected
  have hopen : (∃ descriptor, openMediaFile c.files row.localPath row.contentType
      = .ok descriptor) ↔ matchesImageType (bytes.take 32) row.contentType = true := by
    simp only [openMediaFile, hsafe, hbytes, bind_ok, refuse_ok, need_ok, pure_ok,
      Option.some.injEq, exists_eq_left', Bool.not_eq_false]
    constructor
    · rintro ⟨-, -, -, -, -, -, hshown, -⟩
      exact hshown
    · intro hshown
      exact ⟨_, (), by decide, (), by omega, (), hshown, rfl⟩
  have hall : (row.contentType = .avif → ∀ other, c.files row.localPath = some other →
      slice other 8 12 ∈ avifBrands) ↔
        (row.contentType = .avif → slice bytes 8 12 ∈ avifBrands) := by
    rw [hbytes]
    simp only [Option.some.injEq, forall_eq']
  rw [hall, ← hmatches, ← hopen]
  simp only [openMedia, hevent, hurl, hget, bind_ok, Except.ok.injEq, exists_eq_left',
    refuse_ok, need_ok, Option.some.injEq]
  constructor
  · rintro ⟨descriptor, -, -, h⟩
    exact ⟨descriptor, h⟩
  · rintro ⟨descriptor, h⟩
    exact ⟨descriptor, (), by simp, h⟩

/-! ## Pages -/

structure Request.Valid (reader : Reader) (store : Store) (request : Request) : Prop where
  limit : 1 ≤ request.limit ∧ request.limit ≤ 100
  filters : ∃ filters, normalizeFilters reader request.filters = .ok filters ∧
    (∀ startAt ∈ filters.startAt, ∀ endAt ∈ filters.endAt, startAt ≤ endAt) ∧
    ∀ token ∈ request.cursor, ∃ e ∈ store.events.entries,
      token = .cursor filters e.2.receivedAt e.1

theorem mem_orderedEvents : e ∈ orderedEvents store ↔ store.events.get? e.1 = some e.2 := by
  rw [orderedEvents, List.mem_insertionSort]
  exact Dict.mem_entries

def listingKey (e : String × EventRow) : Positionᵒᵈ := OrderDual.toDual (position e)

theorem orderedEvents_sorted (store : Store) :
    (orderedEvents store).Pairwise fun a b => listingKey a < listingKey b := by
  have hsorted : (orderedEvents store).Pairwise fun a b => position b ≤ position a :=
    List.pairwise_insertionSort _ _
  have hnodup : (orderedEvents store).Pairwise fun a b => a.1 ≠ b.1 :=
    List.pairwise_map.mp
      (((List.perm_insertionSort _ store.events.entries).map Prod.fst).nodup_iff.mpr
        store.events.keys_nodup)
  refine (hsorted.and hnodup).imp fun {a b} hab => ?_
  obtain ⟨hle, hne⟩ := hab
  refine lt_of_le_of_ne hle fun hsame => hne ?_
  have hpair : (a.2.receivedAt, a.1) = (b.2.receivedAt, b.1) := hsame
  exact congrArg Prod.snd hpair

structure Listable (store : Store) (e : String × EventRow) : Prop where
  form : EventForm e.1 e.2.contentHash e.2.rid
  date : e.2.receivedAt < endOfDates

theorem Listable.position (h : Listable store e) :
    requireMillis (.integer e.2.receivedAt) = .ok e.2.receivedAt ∧ requireEventId e.1 = .ok e.1 ∧
      ∀ filters, decodeCursor filters (.cursor filters e.2.receivedAt e.1)
        = .ok (Mx.position e) := by
  have hid := isEventId_of_isHash h.form.identifier
  have hmillis : e.2.receivedAt ≤ 2 ^ 63 - 1 := h.date.le.trans (by decide)
  refine ⟨?_, ?_, fun filters => ?_⟩
  · have hrange : (0 : ℤ) ≤ e.2.receivedAt ∧ (e.2.receivedAt : ℤ) ≤ 2 ^ 63 - 1 := by omega
    rw [requireMillis, refuse, if_neg (not_not.mpr hrange)]
    rfl
  · rw [requireEventId, hid]
    rfl
  · have hvalid : ¬ (2 ^ 63 - 1 < e.2.receivedAt ∨ isEventId e.1 = false) := by
      rw [hid]
      simpa using hmillis
    rw [decodeCursor, refuse, if_neg (not_not.mpr rfl), refuse, if_neg hvalid]
    rfl

theorem selectedRows_mem {filters : Filters} {cursor : Option Position}
    {limit : ℕ} (h : e ∈ selectedRows reader now allowed store filters cursor limit) :
    e ∈ store.events.entries :=
  Dict.mem_entries.mpr
    (mem_orderedEvents.mp (List.mem_of_mem_filter (List.mem_of_mem_take h)))

theorem listEvents_isOk {request : Request} (hvalid : request.Valid reader store)
    (hlistable : ∀ e ∈ store.events.entries, Listable store e)
    (hlisted : ∀ e ∈ store.events.entries, ∃ item, listedItem reader allowed store e = .ok item) :
    ∃ page, listEvents reader now allowed store request = .ok page := by
  obtain ⟨hlimit, filters, hfilters, hrange, hcursor⟩ := hvalid
  have hinverted : ¬ ∃ startAt ∈ filters.startAt, ∃ endAt ∈ filters.endAt, endAt < startAt := by
    rintro ⟨startAt, hstart, endAt, hend, hlt⟩
    exact absurd (hrange startAt hstart endAt hend) (not_le.mpr hlt)
  obtain ⟨cursor, hdecoded⟩ : ∃ cursor, requestedPosition filters request.cursor
      = .ok cursor := by
    cases htoken : request.cursor with
    | none => exact ⟨none, rfl⟩
    | some token =>
        obtain ⟨e, he, rfl⟩ := hcursor token htoken
        exact ⟨_, map_ok.mpr ⟨_, (hlistable e he).position.2.2 filters, rfl⟩⟩
  have hpage := fun e (he : e ∈ (selectedRows reader now allowed store filters cursor
    request.limit).take request.limit) => selectedRows_mem (List.mem_of_mem_take he)
  obtain ⟨next, hnext⟩ : ∃ next, nextCursor filters request.limit
      (selectedRows reader now allowed store filters cursor request.limit) = .ok next := by
    rw [nextCursor]
    split
    · cases hlast : ((selectedRows reader now allowed store filters cursor
          request.limit).take request.limit).getLast? with
      | none => exact ⟨none, rfl⟩
      | some last =>
          obtain ⟨hmillis, hid, -⟩ :=
            (hlistable last (hpage last (List.mem_of_getLast? hlast))).position
          exact ⟨_, bind_ok.mpr ⟨_, hmillis, bind_ok.mpr ⟨_, hid, rfl⟩⟩⟩
    · exact ⟨none, rfl⟩
  obtain ⟨events, hevents, -⟩ := gather_all (f := listedItem reader allowed store)
    (Q := fun _ => True) fun e he => (hlisted e (hpage e he)).imp fun _ h => ⟨h, trivial⟩
  simp only [listEvents, bind_ok, refuse_ok, pure_ok]
  exact ⟨_, filters, hfilters, (), hinverted, (), not_not.mpr hlimit, cursor, hdecoded, next,
    hnext, events, hevents, rfl⟩

def noFilters : Filters := ⟨[], none, none, none, none, none⟩

theorem normalize_noFilters : normalizeFilters reader noFilters = .ok noFilters := rfl

theorem selectedRows_from {cursor : Option Position}
    (hnow : ∀ e ∈ store.events.entries, e.2.receivedAt ≤ now) (limit : ℕ) :
    selectedRows reader now allowed store noFilters cursor limit
      = ((orderedEvents store).filter fun e =>
          bounded cursor fun cursor => position e < cursor).take (limit + 1) := by
  rw [selectedRows]
  congr 1
  refine List.filter_congr fun e he => ?_
  have hseen := hnow e (Dict.mem_entries.mpr (mem_orderedEvents.mp he))
  simp [selects, noFilters, bounded, hseen]

theorem listEvents_reaches (reader : Reader) (allowed : List ℤ) {row : EventRow}
    (hget : store.events.get? eventId = some row)
    (hlistable : ∀ e ∈ store.events.entries, Listable store e)
    (hnow : ∀ e ∈ store.events.entries, e.2.receivedAt ≤ now) :
    ∃ request : Request, request.Valid reader store ∧
      ∀ page, listEvents reader now allowed store request = .ok page →
        ∃ item, listedItem reader allowed store (eventId, row) = .ok item := by
  have hmem : (eventId, row) ∈ orderedEvents store := mem_orderedEvents.mpr hget
  obtain ⟨n, hn⟩ := List.mem_iff_getElem?.mp hmem
  have hfirst : (((orderedEvents store).drop n).take 2).take 1 = [(eventId, row)] := by
    rw [List.take_take, min_eq_left (by decide), List.take_one, List.head?_drop, hn]
    rfl
  have hreads : ∀ (token : Option Token) (cursor : Option Position),
      requestedPosition noFilters token = .ok cursor →
      ((orderedEvents store).filter fun e => bounded cursor fun cursor => position e < cursor)
        = (orderedEvents store).drop n →
      ∀ page, listEvents reader now allowed store ⟨noFilters, 1, token⟩ = .ok page →
        ∃ item, listedItem reader allowed store (eventId, row) = .ok item := by
    intro token cursor hcursor hrows page hpage
    simp only [listEvents, normalize_noFilters, bind_ok, refuse_ok, pure_ok, Except.ok.injEq,
      exists_eq_left', hcursor, selectedRows_from hnow, hrows, hfirst] at hpage
    obtain ⟨-, -, -, -, next, -, events, hevents, -⟩ := hpage
    obtain ⟨item, -, hitem⟩ := gather_mem hevents List.mem_cons_self
    exact ⟨item, hitem⟩
  -- the cursor is the position of the event before it in the listing, if there is one
  cases n with
  | zero =>
      refine ⟨⟨noFilters, 1, none⟩, ⟨by decide, noFilters, normalize_noFilters, nofun, nofun⟩,
        hreads none none rfl ?_⟩
      rw [List.drop_zero, List.filter_eq_self]
      exact fun _ _ => rfl
  | succ n =>
      obtain ⟨hlt, -⟩ := List.getElem?_eq_some_iff.mp hn
      obtain ⟨before, hbefore⟩ : ∃ e, (orderedEvents store)[n]? = some e :=
        ⟨_, List.getElem?_eq_getElem (by omega)⟩
      have hstored : before ∈ store.events.entries :=
        Dict.mem_entries.mpr (mem_orderedEvents.mp (List.mem_of_getElem? hbefore))
      refine ⟨⟨noFilters, 1, some (.cursor noFilters before.2.receivedAt before.1)⟩,
        ⟨by show 1 ≤ 1 ∧ 1 ≤ 100; decide, noFilters, normalize_noFilters, nofun, ?_⟩,
        hreads _ (some (position before)) ?_ ?_⟩
      · rintro token ⟨⟩
        exact ⟨before, hstored, rfl⟩
      · exact map_ok.mpr ⟨_, (hlistable before hstored).position.2.2 noFilters, rfl⟩
      · exact afterKey_element (orderedEvents_sorted store) hbefore

/-! ## Everything stored -/

/-- Everything that is stored is served: every page, every detail and every
image. -/
structure Readable (reader : Reader) (now : ℕ) (allowed : List ℤ) (c : Collector) : Prop where
  pages : ∀ request : Request, request.Valid reader c.listener.store →
    ∃ page, listEvents reader now allowed c.listener.store request = .ok page
  details : ∀ eventId row, c.listener.store.events.get? eventId = some row →
    ∃ detail, eventDetail reader now allowed c.listener.store (.event eventId) = .ok detail
  images : ∀ eventId row, c.listener.store.events.get? eventId = some row →
    ∀ urlHash image, c.listener.store.media.get? (mediaKey eventId urlHash) = some image →
      ∃ descriptor, openMedia c.listener.store c.files (.event eventId)
        (.media eventId urlHash) = .ok descriptor

/-- What the writers take as it comes is within the reader's bounds. -/
structure Legible (c : Collector) : Prop where
  created : ∀ eventId row, c.listener.store.events.get? eventId = some row →
    row.sourceCreatedAt.Formatted
  media : ∀ eventId row, c.listener.store.events.get? eventId = some row →
    mediaCount c.listener.store eventId ≤ maxMediaPerEvent
  pending : ∀ eventId row, c.listener.store.events.get? eventId = some row →
    pendingCount c.listener.store eventId ≤ maxMediaPerEvent * 1000
  brands : ∀ eventId row, c.listener.store.events.get? eventId = some row →
    ∀ urlHash image, c.listener.store.media.get? (mediaKey eventId urlHash) = some image →
      image.contentType = .avif → ∀ bytes, c.files image.localPath = some bytes →
        slice bytes 8 12 ∈ avifBrands

/-- Everything the collector has stored can be read exactly when every source
time can be formatted, no event has more media or open jobs than the reader
counts, and no AVIF is one by a compatible brand alone. -/
theorem stored_readable_iff {rt : Runtime} {affinity : String → Cell} (hrt : rt.Lawful)
    {runId : String} {deeds : List Deed} {c : Collector}
    (hauth : ∀ deed ∈ deeds, deed.Authorized)
    (hrun : (Collector.start runId).run rt affinity deeds = some c)
    (hend : now < endOfDates)
    (hnow : ∀ row ∈ c.listener.store.events.values, row.receivedAt ≤ now) :
    Readable reader now allowed c ↔ Legible c := by
  have hc : c.Sound := run_sound hrt (start_sound runId) hauth hrun
  have hseen : ∀ e ∈ c.listener.store.events.entries, e.2.receivedAt ≤ now :=
    fun e he => hnow e.2 (List.mem_map_of_mem he)
  have hlistable : ∀ e ∈ c.listener.store.events.entries, Listable c.listener.store e :=
    fun e he => ⟨hc.store.events e.1 e.2 (Dict.mem_entries.mp he), (hseen e he).trans_lt hend⟩
  constructor
  · rintro ⟨hpages, hdetails, himages⟩
    have hlisted : ∀ eventId row, c.listener.store.events.get? eventId = some row →
        ∃ item, listedItem reader allowed c.listener.store (eventId, row) = .ok item := by
      intro eventId row hget
      obtain ⟨request, hvalid, hreads⟩ := listEvents_reaches reader allowed hget hlistable hseen
      obtain ⟨page, hpage⟩ := hpages request hvalid
      exact hreads page hpage
    have hparts := fun eventId row hget => (listedItem_isOk reader allowed
      (hlistable (eventId, row) (Dict.mem_entries.mpr hget)).form
        (hlistable (eventId, row) (Dict.mem_entries.mpr hget)).date).mp
          (hlisted eventId row hget)
    refine ⟨fun eventId row hget => (hparts eventId row hget).1, fun eventId row hget => ?_,
      fun eventId row hget => (hparts eventId row hget).2.2, ?_⟩
    · have hmem := Dict.mem_entries.mpr hget
      exact ((eventDetail_isOk hc.store hget (hseen _ hmem) hend
        (hparts eventId row hget).2.2).mp (hdetails eventId row hget)).2
    · intro eventId row hget urlHash image himage
      have hid := isEventId_of_isHash (hc.store.events eventId row hget).identifier
      exact (openMedia_isOk hc hid himage).mp (himages eventId row hget urlHash image himage)
  · rintro ⟨hcreated, hmedia, hpending, hbrands⟩
    refine ⟨fun request hvalid => listEvents_isOk hvalid hlistable fun e he => ?_, ?_, ?_⟩
    · have hget := Dict.mem_entries.mp he
      have hfew : mediaCount c.listener.store e.1 ≤ maxMediaPerEvent * 1000 :=
        (hmedia e.1 e.2 hget).trans (by decide)
      exact (listedItem_isOk reader allowed (hlistable e he).form (hlistable e he).date).mpr
        ⟨hcreated e.1 e.2 hget, hfew, hpending e.1 e.2 hget⟩
    · intro eventId row hget
      exact (eventDetail_isOk hc.store hget (hseen _ (Dict.mem_entries.mpr hget)) hend
        (hpending eventId row hget)).mpr ⟨hcreated eventId row hget, hmedia eventId row hget⟩
    · intro eventId row hget urlHash image himage
      have hid := isEventId_of_isHash (hc.store.events eventId row hget).identifier
      exact (openMedia_isOk hc hid himage).mpr (hbrands eventId row hget urlHash image himage)

/-! ## Samples -/

def pictureUrl : String := "https://example.com/a.png"

def pictureFrame : String := "42/msg,[\"room_msg\",\"picture\"]"

def datedFrame : String := "42/msg,[\"room_msg\",\"dated\"]"

def pngBytes : Bytes := [0x89, 0x50, 0x4e, 0x47, 0x0d, 0x0a, 0x1a, 0x0a]

def avifBytes : Bytes :=
  [0, 0, 0, 20] ++ ascii "ftyp" ++ ascii "mif1" ++ [0, 0, 0, 0] ++ ascii "avif"

def collectorDigests : List (String × String) :=
  [("20025:1", "63656479175c7567956cabcc5fc711d3ff381f6e31c79f1b6178044a1b39d474"),
    ("20025:2", "49af14f895578218a8d163cd3e41f85d4cc6dba6cefdbb0e3333b4d2a2de0608"),
    ("\"https://example.com/a.png\"",
      "9c44902c9e625ec416dc676923e494b1b4d62b94a4dce8c3bcbc98566259a406"),
    ("\"hi\"", "b49177e05868b7af8e82a644c1ce20e521af46497adeaffe861d294d9b4bb75e"),
    (pictureUrl, "494a30704d4f32ac0b81739d18a66d3638d440cbc6f5669f6af66f840edee5ab"),
    (pictureFrame, "d843f43b952eae5791e369da1ce34bcac6863f986306f4918ebc4a7bb648806e"),
    (datedFrame, "c85f1cee73b0e99b75f595ff844d0fd05ef8243b201881d8ba57890a25873157")]

def emptyDigest : String :=
  "e3b0c44298fc1c149afbf4c8996fb92427ae41e4649b934ca495991b7852b855"

def collectorRuntime : Runtime where
  sha256 := fun text =>
    ((collectorDigests.find? fun e => e.1 = text).map Prod.snd).getD emptyDigest
  sha256Bytes := fun bytes =>
    if bytes = pngBytes then
      "4c4b6a3be1314ab86138bef4314dde022e600960d8689a2c8f8631802d20dab6"
    else if bytes = avifBytes then
      "1d4d3bf33884591249962b3661b8debec59ebd6f375eb89ef6c2e992723620b7"
    else emptyDigest
  stringify := fun
    | .string text => "\"" ++ text ++ "\""
    | _ => "null"
  parse := fun _ => none
  render := fun
    | .finite value => toString value.num
    | .infinite _ => "Infinity"
  decodeRoomFrame := fun frame _ =>
    if frame = pictureFrame then
      .ok (.object [("id", .number (.finite 1)), ("rid", .number (.finite 20025)),
        ("msg", .string pictureUrl), ("createtime", .number (.finite 1783040400000))])
    else
      .ok (.object [("id", .number (.finite 2)), ("rid", .number (.finite 20025)),
        ("msg", .string "hi"), ("createtime", .string "2026-07-03 09:00:00")])
  eventDate := fun _ => "2026-07-03"

def plainReader : Reader where
  isoformat := fun _ => "2026-07-03T09:01:00+08:00"
  safeText := fun text limit => String.ofList (text.toList.take limit)
  normalizeQuery := fun text => .ok (some text)
  searchHit := fun _ _ => true

theorem collectorRuntime_lawful : collectorRuntime.Lawful where
  digest := by
    intro text
    have hall : ∀ e ∈ collectorDigests, isHash e.2 = true := by decide
    show isHash (((collectorDigests.find? fun e => e.1 = text).map Prod.snd).getD emptyDigest)
      = true
    cases hfind : collectorDigests.find? fun e => e.1 = text with
    | none => decide
    | some e => exact hall e (List.mem_of_find?_eq_some hfind)
  digestBytes := by
    intro bytes
    show isHash (if bytes = pngBytes then _ else if bytes = avifBytes then _ else _) = true
    split
    · decide
    · split <;> decide
  date := fun _ => (by decide : PathDate "2026-07-03")

def receive (frame : String) : List Deed :=
  [.act (.turn (.frame [20025] frame 1783040460000)), .act .commit, .act .commit]

def download (contentType : String) (bytes : Bytes) : List Deed :=
  match downloadImage collectorRuntime 1783040460000 ⟨pictureUrl, some contentType, 0, bytes⟩ with
  | .error _ => []
  | .ok media =>
      [.fetch 1783040460000 ⟨pictureUrl, some contentType, 0, bytes⟩,
        .act (.turn (.downloaded (collectorRuntime.sha256 "20025:1") 20025 1783040470000 media)),
        .act .commit]

def collect (deeds : List Deed) : Option Collector :=
  (Collector.start "r1").run collectorRuntime (fun text => .text text) deeds

def sampleNow : ℕ := 1783044000000

instance (cell : Cell) : Decidable cell.Formatted := by
  cases cell <;> unfold Cell.Formatted <;> infer_instance

theorem stored_readable_sample :
    ∃ c ∈ collect (receive pictureFrame ++ download "image/png" pngBytes),
      c.listener.store.media.entries.length = 1 ∧ Readable plainReader sampleNow [20025] c := by
  have hafter : ∃ c ∈ collect (receive pictureFrame ++ download "image/png" pngBytes),
      c.listener.store.media.entries.length = 1 ∧
        (∀ row ∈ c.listener.store.events.values, row.receivedAt ≤ sampleNow) ∧
        (∀ e ∈ c.listener.store.events.entries, e.2.sourceCreatedAt.Formatted ∧
          mediaCount c.listener.store e.1 ≤ maxMediaPerEvent ∧
          pendingCount c.listener.store e.1 ≤ maxMediaPerEvent * 1000) ∧
        ∀ e ∈ c.listener.store.media.entries, e.2.contentType ≠ .avif := by
    decide +kernel
  obtain ⟨c, hrun, hone, hnow, hevents, htypes⟩ := hafter
  have hauth : ∀ deed ∈ receive pictureFrame ++ download "image/png" pngBytes,
      deed.Authorized := by
    have hrooms : ∀ rid ∈ [(20025 : ℤ)], 0 < rid ∧ rid ≤ maxSafeInteger := by decide
    rw [List.forall_mem_append]
    constructor
    · exact List.forall_mem_cons.mpr ⟨hrooms, List.forall_mem_cons.mpr
        ⟨trivial, List.forall_mem_singleton.mpr trivial⟩⟩
    · intro deed hdeed
      rw [download] at hdeed
      split at hdeed
      · cases hdeed
      · rcases List.mem_cons.mp hdeed with rfl | hdeed
        · exact trivial
        · rcases List.mem_cons.mp hdeed with rfl | hdeed
          · exact trivial
          · rw [List.mem_singleton.mp hdeed]
            exact trivial
  refine ⟨c, hrun, hone, ?_⟩
  refine (stored_readable_iff collectorRuntime_lawful hauth hrun (by decide) hnow).mpr ?_
  exact {
    created := fun id row hget => (hevents (id, row) (Dict.mem_entries.mpr hget)).1
    media := fun id row hget => (hevents (id, row) (Dict.mem_entries.mpr hget)).2.1
    pending := fun id row hget => (hevents (id, row) (Dict.mem_entries.mpr hget)).2.2
    brands := fun _ _ _ _ image himage htype =>
      absurd htype (htypes (_, image) (Dict.mem_entries.mpr himage)) }

/-- One accepted message with a text for its time makes the page of all
messages fail, and an AVIF by its compatible brand is kept and never opens. -/
theorem stored_unreadable_sample :
    (∃ c ∈ collect (receive pictureFrame ++ receive datedFrame),
      c.listener.store.events.entries.length = 2 ∧
        listEvents plainReader sampleNow [20025] c.listener.store ⟨noFilters, 50, none⟩
          = .error (.validation "invalid timestamp")) ∧
    ∃ c ∈ collect (receive pictureFrame ++ download "image/avif" avifBytes),
      c.listener.store.media.entries.length = 1 ∧
        openMedia c.listener.store c.files (.event (collectorRuntime.sha256 "20025:1"))
          (.media (collectorRuntime.sha256 "20025:1") (collectorRuntime.sha256 pictureUrl))
          = .error (.notFound "media not found") := by
  constructor <;> decide +kernel

end Ahunter.Mx
