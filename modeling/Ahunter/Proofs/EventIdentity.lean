import Ahunter.Mx.Listener
import Mathlib.Logic.Equiv.List

/-!
# What makes two messages one event

The identity of an event is a hash of a text. A message with an `id` puts that
into the text, one without puts its `oid`, and one with neither puts its
`createtime` and the hash of its content. The text does not say which of the
three it was made of, a field of any type is made a string, and where there is
no `createtime` the time of the reception stands for it.

So two messages are one event when their texts agree, and this is said here
beside when they are one message.
-/

namespace Ahunter.Mx

open Ahunter.Lib

/-! ## Messages -/

/-- `value.id`, `value.oid` or `value.createtime`, unless it is null. -/
def carried (name : String) (value : Json) : Option Json := nullish (own name value) none

def contentOf (rt : Runtime) (value : Json) : Json :=
  parseNestedMessage rt ((own "msg" value).getD .null)

/-- Two decoded messages are the same one: they carry the same `id`, or no `id`
and the same `oid`, or neither and the same `createtime` and content. -/
def SameMessage (rt : Runtime) (v w : Json) : Prop :=
  (carried "id" v ≠ none ∧ carried "id" v = carried "id" w) ∨
  (carried "id" v = none ∧ carried "id" w = none ∧
    carried "oid" v ≠ none ∧ carried "oid" v = carried "oid" w) ∨
  (carried "id" v = none ∧ carried "id" w = none ∧
    carried "oid" v = none ∧ carried "oid" w = none ∧
    carried "createtime" v = carried "createtime" w ∧ contentOf rt v = contentOf rt w)

/-- What a message is told from others by. -/
inductive Source
  | id (value : Json)
  | oid (value : Json)
  | content (createtime : Option Json) (parsed : Json)

def sourceOf (rt : Runtime) (value : Json) : Source :=
  match carried "id" value, carried "oid" value with
  | some id, _ => .id id
  | none, some oid => .oid oid
  | none, none => .content (carried "createtime" value) (contentOf rt value)

theorem same_iff_source {rt : Runtime} {v w : Json} :
    SameMessage rt v w ↔ sourceOf rt v = sourceOf rt w := by
  unfold SameMessage sourceOf
  cases carried "id" v <;> cases carried "id" w <;> cases carried "oid" v <;>
    cases carried "oid" w <;> simp

/-! ## The text of an identity -/

variable {receivedAt : ℕ}

/-- `String(createtime ?? receivedAt)` -/
def dateText (rt : Runtime) (receivedAt : ℕ) : Option Json → Except String String
  | some createtime => jsString rt own createtime
  | none => .ok (rt.render (.finite receivedAt))

def Source.text (rt : Runtime) (receivedAt : ℕ) : Source → Except String String
  | .id value => jsString rt own value
  | .oid value => jsString rt own value
  | .content createtime parsed => do
      let created ← dateText rt receivedAt createtime
      .ok (created ++ ":" ++ rt.sha256 (rt.stringify parsed))

theorem nullish_nullish (a b : Option Json) :
    nullish a (nullish b none) = (nullish a none).orElse fun _ => nullish b none := by
  unfold nullish
  split <;> rfl

theorem sourceIdentity_eq (rt : Runtime) (value : Json) (receivedAt : ℕ) :
    sourceIdentity rt (own "id" value) (own "oid" value) (own "createtime" value) receivedAt
      (rt.sha256 (rt.stringify (contentOf rt value))) = (sourceOf rt value).text rt receivedAt := by
  rw [sourceIdentity, nullish_nullish, sourceOf, carried, carried, carried]
  cases nullish (own "id" value) none with
  | some id => rfl
  | none =>
      cases nullish (own "oid" value) none with
      | some oid => rfl
      | none =>
          cases nullish (own "createtime" value) none with
          | some createtime => simp only [Option.orElse_none, Source.text, dateText]
          | none => simp only [Option.orElse_none, Source.text, dateText]

variable {event : Event}

theorem classifyFrame_source {rt : Runtime} {allowedRids : List ℤ} {frame : String}
    (h : classifyFrame rt allowedRids frame receivedAt = .accepted event) :
    ∃ value identity, rt.decodeRoomFrame frame receivedAt = .ok value ∧
      (sourceOf rt value).text rt receivedAt = .ok identity ∧
      event.eventId = rt.sha256 (toString event.rid ++ ":" ++ identity) ∧
      event.sourceCreatedAt = carried "createtime" value := by
  obtain ⟨value, hvalue, rid, -, haccept⟩ := classifyFrame_accepted h
  simp only [acceptMessage, bind_ok, need_ok, pure_ok] at haccept
  obtain ⟨msg, hmsg, content, -, identity, hidentity, _, -, _, -, rfl⟩ := haccept
  refine ⟨value, identity, hvalue, ?_, rfl, rfl⟩
  rw [← hidentity, ← sourceIdentity_eq, contentOf, hmsg, Option.getD_some]

theorem split_mark {α : Type} {mark : α} {a b x y : List α} (h : a ++ mark :: x = b ++ mark :: y)
    (hx : mark ∉ x) (hy : mark ∉ y) : a = b ∧ x = y := by
  rcases List.append_eq_append_iff.mp h with ⟨t, rfl, ht⟩ | ⟨t, rfl, ht⟩
  · cases t with
    | nil => exact ⟨(List.append_nil a).symm, (List.cons.inj ht).2⟩
    | cons c t =>
        obtain ⟨rfl, rfl⟩ := List.cons.inj ht
        exact absurd (List.mem_append_right t List.mem_cons_self) hx
  · cases t with
    | nil => exact ⟨List.append_nil b, (List.cons.inj ht).2.symm⟩
    | cons c t =>
        obtain ⟨rfl, rfl⟩ := List.cons.inj ht
        exact absurd (List.mem_append_right t List.mem_cons_self) hy

/-- What the hash function promises: no two texts of one hash, and hexadecimal
digits only. -/
structure Runtime.Digests (rt : Runtime) : Prop where
  injective : Function.Injective rt.sha256
  digits : ∀ text, ':' ∉ (rt.sha256 text).toList

variable {rt : Runtime}

theorem content_text_eq_iff (hrt : rt.Digests) {c d : String} {x y : Json} :
    c ++ ":" ++ rt.sha256 (rt.stringify x) = d ++ ":" ++ rt.sha256 (rt.stringify y) ↔
      c = d ∧ rt.stringify x = rt.stringify y := by
  constructor
  · intro h
    have hlists := congrArg String.toList h
    simp only [String.toList_append, List.append_assoc] at hlists
    obtain ⟨hc, hx⟩ := split_mark hlists (hrt.digits _) (hrt.digits _)
    exact ⟨String.toList_inj.mp hc, hrt.injective (String.toList_inj.mp hx)⟩
  · rintro ⟨rfl, h⟩
    rw [h]

/-! ## Duplicates -/

/-- A value SQLite takes for `source_created_at`. -/
def bindable : Option Json → Bool
  | none | some .null | some (.number _) | some (.string _) => true
  | _ => false

theorem integerCell_isOk (affinity : String → Cell) (value : Option Json) :
    (∃ cell, integerCell affinity value = .ok cell) ↔ bindable value = true := by
  unfold integerCell bindable
  split <;> simp_all

def Store.Duplicates (rt : Runtime) (affinity : String → Cell) (store : Store) (first : Event)
    (runId : String) (second : Event) (runId' : String) : Prop :=
  ∃ store' fresh store'', store.insertEvent rt affinity first runId = .ok (store', fresh) ∧
    store'.insertEvent rt affinity second runId' = .ok (store'', false)

variable {affinity : String → Cell}

theorem insertEvent_isOk (store : Store) {runId : String} :
    (∃ store' fresh, store.insertEvent rt affinity event runId = .ok (store', fresh)) ↔
      bindable event.sourceCreatedAt = true := by
  rw [← integerCell_isOk affinity]
  constructor
  · rintro ⟨store', fresh, h⟩
    obtain ⟨cell, hcell, -⟩ := bind_ok.mp h
    exact ⟨cell, hcell⟩
  · rintro ⟨cell, hcell⟩
    unfold Store.insertEvent
    rw [hcell]
    by_cases hold : store.events.contains event.eventId
    · exact ⟨_, false, by simp [hold, bind, Except.bind]; rfl⟩
    · exact ⟨_, true, by simp [hold, bind, Except.bind]; rfl⟩

theorem insertEvent_keys {store store' : Store} {runId : String} {fresh : Bool}
    (h : store.insertEvent rt affinity event runId = .ok (store', fresh)) :
    (fresh = false ↔ event.eventId ∈ store.events.keys) ∧
      ∀ k, k ∈ store'.events.keys ↔ k = event.eventId ∨ k ∈ store.events.keys := by
  obtain ⟨cell, -, h⟩ := bind_ok.mp h
  split at h
  · next hold =>
      cases h
      have hmem := Dict.mem_keys.mpr (Dict.contains_iff.mp hold)
      exact ⟨iff_of_true rfl hmem, fun k => ⟨.inr, fun hk => hk.elim (· ▸ hmem) id⟩⟩
  · next hold =>
      cases h
      have hnone : event.eventId ∉ store.events.keys := fun hmem =>
        hold (Dict.contains_iff.mpr (Dict.mem_keys.mp hmem))
      refine ⟨iff_of_false Bool.noConfusion hnone, fun k => ?_⟩
      simp only [Dict.mem_keys, Dict.get?_set]
      by_cases hk : k = event.eventId <;> simp [hk]

theorem duplicates_iff {store : Store} {first second : Event}
    {runId runId' : String} (hnew : second.eventId ∉ store.events.keys) :
    store.Duplicates rt affinity first runId second runId' ↔
      bindable first.sourceCreatedAt = true ∧ bindable second.sourceCreatedAt = true ∧
        first.eventId = second.eventId := by
  constructor
  · rintro ⟨store', fresh, store'', hfirst, hsecond⟩
    refine ⟨(insertEvent_isOk _).mp ⟨store', fresh, hfirst⟩,
      (insertEvent_isOk _).mp ⟨store'', false, hsecond⟩, ?_⟩
    have hstored := (insertEvent_keys hsecond).1.mp rfl
    rcases ((insertEvent_keys hfirst).2 _).mp hstored with heq | hold
    · exact heq.symm
    · exact absurd hold hnew
  · rintro ⟨hfirst, hsecond, heq⟩
    obtain ⟨store', fresh, hfirst⟩ := (insertEvent_isOk store).mpr hfirst
    obtain ⟨store'', fresh', hsecond⟩ := (insertEvent_isOk store').mpr hsecond
    have hstored := ((insertEvent_keys hfirst).2 _).mpr (.inl heq.symm)
    have hduplicate := (insertEvent_keys hsecond).1.mpr hstored
    exact ⟨store', fresh, store'', hfirst, hduplicate ▸ hsecond⟩

/-! ## Messages that are told apart -/

variable {receivedAt' : ℕ}

/-- The texts of two sources do not agree by accident: what stands in the same
field is the same value when its text is, and texts of different fields differ. -/
def Source.Apart (rt : Runtime) (receivedAt receivedAt' : ℕ) : Source → Source → Prop
  | .id a, .id b => jsString rt own a = jsString rt own b → a = b
  | .oid a, .oid b => jsString rt own a = jsString rt own b → a = b
  | .content c x, .content d y =>
      dateText rt receivedAt c = dateText rt receivedAt' d → rt.stringify x = rt.stringify y →
        c = d ∧ x = y
  | s, t => s.text rt receivedAt ≠ t.text rt receivedAt'

/-- When insertion and sameness agree on two messages. -/
structure ToldApart (rt : Runtime) (v : Json) (receivedAt : ℕ) (w : Json) (receivedAt' : ℕ) :
    Prop where
  /-- A message that comes again can be stored. -/
  bound : SameMessage rt v w →
    bindable (carried "createtime" v) = true ∧ bindable (carried "createtime" w) = true
  /-- One that is told by its content and carries no date comes again at one time. -/
  dated : ∀ x, sourceOf rt v = .content none x → sourceOf rt w = .content none x →
    rt.render (.finite receivedAt) = rt.render (.finite receivedAt')
  apart : bindable (carried "createtime" v) = true → bindable (carried "createtime" w) = true →
    (sourceOf rt v).Apart rt receivedAt receivedAt' (sourceOf rt w)

theorem source_eq_of_text (hrt : rt.Digests) {s t : Source} {text : String}
    (hs : s.text rt receivedAt = .ok text) (ht : t.text rt receivedAt' = .ok text)
    (h : s.Apart rt receivedAt receivedAt' t) : s = t := by
  cases s with
  | id a =>
      cases t with
      | id b => exact congrArg _ (h (hs.trans ht.symm))
      | oid b => exact absurd (hs.trans ht.symm) h
      | content d y => exact absurd (hs.trans ht.symm) h
  | oid a =>
      cases t with
      | id b => exact absurd (hs.trans ht.symm) h
      | oid b => exact congrArg _ (h (hs.trans ht.symm))
      | content d y => exact absurd (hs.trans ht.symm) h
  | content c x =>
      cases t with
      | id b => exact absurd (hs.trans ht.symm) h
      | oid b => exact absurd (hs.trans ht.symm) h
      | content d y =>
          obtain ⟨created, hc, heq⟩ := bind_ok.mp hs
          obtain ⟨created', hd, heq'⟩ := bind_ok.mp ht
          obtain ⟨rfl, hparsed⟩ := (content_text_eq_iff hrt).mp
            (Except.ok.inj (heq.trans heq'.symm))
          obtain ⟨rfl, rfl⟩ := h (hc.trans hd.symm) hparsed
          rfl

theorem source_text_eq {s : Source}
    (h : ∀ x, s = .content none x →
      rt.render (.finite receivedAt) = rt.render (.finite receivedAt')) :
    s.text rt receivedAt = s.text rt receivedAt' := by
  cases s with
  | id a => rfl
  | oid a => rfl
  | content c x =>
      cases c with
      | some c => rfl
      | none => rw [Source.text, Source.text, dateText, dateText, h x rfl]

theorem apart_of_source {s t : Source} {text text' : String}
    (hs : s.text rt receivedAt = .ok text) (ht : t.text rt receivedAt' = .ok text')
    (h : text = text' → s = t) : s.Apart rt receivedAt receivedAt' t := by
  have hne : s.text rt receivedAt = t.text rt receivedAt' → s = t := fun heq =>
    h (Except.ok.inj (hs.symm.trans (heq.trans ht)))
  cases s with
  | id a =>
      cases t with
      | id b => exact fun heq => Source.id.inj (hne heq)
      | oid b => exact fun heq => Source.noConfusion (hne heq)
      | content d y => exact fun heq => Source.noConfusion (hne heq)
  | oid a =>
      cases t with
      | id b => exact fun heq => Source.noConfusion (hne heq)
      | oid b => exact fun heq => Source.oid.inj (hne heq)
      | content d y => exact fun heq => Source.noConfusion (hne heq)
  | content c x =>
      cases t with
      | id b => exact fun heq => Source.noConfusion (hne heq)
      | oid b => exact fun heq => Source.noConfusion (hne heq)
      | content d y =>
          intro hdate hparsed
          have heq : (Source.content c x).text rt receivedAt
              = (Source.content d y).text rt receivedAt' := by
            rw [Source.text, Source.text, hdate, hparsed]
          exact Source.content.inj (hne heq)

theorem duplicates_text (hrt : rt.Digests) {allowedRids allowedRids' : List ℤ}
    {frame frame' : String} {v w : Json} {first second : Event}
    (hv : rt.decodeRoomFrame frame receivedAt = .ok v)
    (hw : rt.decodeRoomFrame frame' receivedAt' = .ok w)
    (hfirst : classifyFrame rt allowedRids frame receivedAt = .accepted first)
    (hsecond : classifyFrame rt allowedRids' frame' receivedAt' = .accepted second)
    (hrid : first.rid = second.rid) (affinity : String → Cell) (store : Store)
    (hnew : second.eventId ∉ store.events.keys) (runId runId' : String) :
    ∃ text text', (sourceOf rt v).text rt receivedAt = .ok text ∧
      (sourceOf rt w).text rt receivedAt' = .ok text' ∧
      (store.Duplicates rt affinity first runId second runId' ↔
        bindable (carried "createtime" v) = true ∧ bindable (carried "createtime" w) = true ∧
          text = text') := by
  obtain ⟨v', text, hv', htext, hid, hcreated⟩ := classifyFrame_source hfirst
  obtain ⟨w', text', hw', htext', hid', hcreated'⟩ := classifyFrame_source hsecond
  cases hv.symm.trans hv'
  cases hw.symm.trans hw'
  refine ⟨text, text', htext, htext', ?_⟩
  have hsame : first.eventId = second.eventId ↔ text = text' := by
    rw [hid, hid', hrid, hrt.injective.eq_iff]
    exact ⟨fun h => String.append_right_inj _ |>.mp h, fun h => h ▸ rfl⟩
  rw [duplicates_iff hnew, hcreated, hcreated', hsame]

/-- Insertion and sameness agree on two messages of a room exactly when they are
told apart. -/
theorem insertEvent_duplicate_iff (hrt : rt.Digests) {allowedRids allowedRids' : List ℤ}
    {frame frame' : String} {receivedAt receivedAt' : ℕ} {v w : Json} {first second : Event}
    (hv : rt.decodeRoomFrame frame receivedAt = .ok v)
    (hw : rt.decodeRoomFrame frame' receivedAt' = .ok w)
    (hfirst : classifyFrame rt allowedRids frame receivedAt = .accepted first)
    (hsecond : classifyFrame rt allowedRids' frame' receivedAt' = .accepted second)
    (hrid : first.rid = second.rid) (affinity : String → Cell) (store : Store)
    (hnew : second.eventId ∉ store.events.keys) (runId runId' : String) :
    (store.Duplicates rt affinity first runId second runId' ↔ SameMessage rt v w) ↔
      ToldApart rt v receivedAt w receivedAt' := by
  obtain ⟨text, text', htext, htext', hduplicates⟩ :=
    duplicates_text hrt hv hw hfirst hsecond hrid affinity store hnew runId runId'
  rw [hduplicates, same_iff_source]
  constructor
  · intro hagree
    refine ⟨fun hsame => ?_, fun x hx hx' => ?_, fun hbound hbound' => ?_⟩
    · have h := hagree.mpr (same_iff_source.mp hsame)
      exact ⟨h.1, h.2.1⟩
    · obtain ⟨-, -, rfl⟩ := hagree.mpr (hx.trans hx'.symm)
      rw [hx] at htext
      rw [hx'] at htext'
      exact ((content_text_eq_iff hrt).mp (Except.ok.inj (htext.trans htext'.symm))).1
    · exact apart_of_source htext htext' fun heq => hagree.mp ⟨hbound, hbound', heq⟩
  · intro h
    constructor
    · rintro ⟨hbound, hbound', rfl⟩
      exact source_eq_of_text hrt htext htext' (h.apart hbound hbound')
    · intro hsame
      have hbound := h.bound (same_iff_source.mpr hsame)
      refine ⟨hbound.1, hbound.2, ?_⟩
      rw [← hsame] at htext'
      have heq := source_text_eq fun x hx => h.dated x hx (hsame ▸ hx)
      exact Except.ok.inj (htext.symm.trans (heq.trans htext'))

/-! ## Samples -/

def undatedFrame : String := "42/msg,[\"room_msg\",\"undated\"]"

/-- One with the `id` 5. -/
def numberedFrame : String := "42/msg,[\"room_msg\",\"numbered\"]"

/-- One with the `oid` 5. -/
def orderedFrame : String := "42/msg,[\"room_msg\",\"ordered\"]"

def contentDigest : String := "b49177e05868b7af8e82a644c1ce20e521af46497adeaffe861d294d9b4bb75e"

def identityDigests : List (String × String) :=
  [("20025:1783040460000:" ++ contentDigest,
      "c0ee4b73d390e449f33882c5a5b715cf190df2d063be8ce3500b094f4848f002"),
    ("20025:1783040460001:" ++ contentDigest,
      "b223d2c9db8f400956531b6b37f61e12df34ece91c47b1f261f943d4fa66a68f"),
    ("20025:5", "ba03c91301c562d292f382e9f4bdc1be33ba343044e5b289e897385c59de8619"),
    ("\"hi\"", contentDigest),
    (undatedFrame, "1dd62b744b3145d783bee263bd94ca0220208bd24956052ad25e4ee0b8984157"),
    (numberedFrame, "7eb68e2346901223e1e64de38db2f942cb5b8f4ed5ccf10ef9c6480da2ad109b"),
    (orderedFrame, "e9645215877002512c9b9048e52e493b5e5e7f8235493197337013884990a78f")]

def identityRuntime : Runtime where
  sha256 := fun text =>
    ((identityDigests.find? fun e => e.1 = text).map Prod.snd).getD
      ("-" ++ String.ofList
        (List.replicate (Encodable.encode (text.toList.map Char.toNat)) 'x'))
  sha256Bytes := fun _ => "e3b0c44298fc1c149afbf4c8996fb92427ae41e4649b934ca495991b7852b855"
  stringify := fun
    | .string text => "\"" ++ text ++ "\""
    | _ => "null"
  parse := fun _ => none
  render := fun
    | .finite value => toString value.num
    | .infinite _ => "Infinity"
  decodeRoomFrame := fun frame _ =>
    let fields := [("rid", .number (.finite 20025)), ("msg", .string "hi")]
    if frame = numberedFrame then .ok (.object (("id", .number (.finite 5)) :: fields))
    else if frame = orderedFrame then .ok (.object (("oid", .number (.finite 5)) :: fields))
    else .ok (.object fields)
  eventDate := fun _ => "2026-07-03"

theorem identityDigests_found {text : String} {e : String × String}
    (h : (identityDigests.find? fun e => e.1 = text) = some e) : e ∈ identityDigests ∧ e.1 = text :=
  ⟨List.mem_of_find?_eq_some h, by simpa using List.find?_some h⟩

theorem identityRuntime_digests : identityRuntime.Digests := by
  have hdistinct : ∀ e ∈ identityDigests, ∀ e' ∈ identityDigests, e.2 = e'.2 → e.1 = e'.1 := by
    decide +kernel
  have hplain : (identityDigests.all fun e => e.2.toList.all fun c => c ≠ ':' && c ≠ '-')
      = true := by decide +kernel
  have hmark : ∀ e ∈ identityDigests, ∀ c ∈ e.2.toList, c ≠ ':' ∧ c ≠ '-' := by
    simpa using hplain
  constructor
  · intro a b hab
    simp only [identityRuntime] at hab
    cases ha : identityDigests.find? fun e => e.1 = a with
    | some e =>
        obtain ⟨hmem, hea⟩ := identityDigests_found ha
        cases hb : identityDigests.find? fun e => e.1 = b with
        | some e' =>
            obtain ⟨hmem', heb⟩ := identityDigests_found hb
            rw [ha, hb] at hab
            exact hea.symm.trans ((hdistinct e hmem e' hmem' hab).trans heb)
        | none =>
            rw [ha, hb] at hab
            have hab : e.2 = _ := hab
            exact absurd rfl (hmark e hmem '-' (by rw [hab]; simp)).2
    | none =>
        cases hb : identityDigests.find? fun e => e.1 = b with
        | some e' =>
            obtain ⟨hmem', -⟩ := identityDigests_found hb
            rw [ha, hb] at hab
            have hab : _ = e'.2 := hab
            exact absurd rfl (hmark e' hmem' '-' (by rw [← hab]; simp)).2
        | none =>
            rw [ha, hb] at hab
            have hlength := congrArg String.length hab
            simp only [Option.map_none, Option.getD_none, String.length_append,
              String.length_ofList, List.length_replicate, Nat.add_left_cancel_iff] at hlength
            have hchars := Encodable.encode_injective hlength
            exact String.toList_inj.mp (List.map_injective_iff.mpr (fun _ _ => Char.toNat_inj.mp) hchars)
  · intro text
    simp only [identityRuntime]
    cases hfind : identityDigests.find? fun (e : String × String) => e.1 = text with
    | some e => exact fun hc => absurd rfl (hmark e (identityDigests_found hfind).1 ':' hc).1
    | none => simp

def Classified.rid? : Classified → Option ℤ
  | .accepted event => some event.rid
  | _ => none

theorem accepted_of_rid {result : Classified} {rid : ℤ} (h : result.rid? = some rid) :
    ∃ event, result = .accepted event ∧ event.rid = rid := by
  cases result with
  | accepted event => exact ⟨event, rfl, Option.some.inj h⟩
  | rejected => cases h
  | failed payloadHash errorClass => cases h

def identityTime : ℕ := 1783040460000

def identitySample (frame : String) (offset : ℕ) : Classified :=
  classifyFrame identityRuntime [20025] frame (identityTime + offset)

theorem insertEvent_duplicate_sample :
    ∃ v first second, identityRuntime.decodeRoomFrame numberedFrame identityTime = .ok v ∧
      identitySample numberedFrame 0 = .accepted first ∧
      identitySample numberedFrame 1 = .accepted second ∧
      ((Store.empty.Duplicates identityRuntime .text first "r1" second "r1" ↔
          SameMessage identityRuntime v v) ↔
        ToldApart identityRuntime v identityTime v (identityTime + 1)) := by
  obtain ⟨first, hfirst, hrid⟩ : ∃ e, identitySample numberedFrame 0 = .accepted e ∧
    e.rid = 20025 := accepted_of_rid (by decide +kernel)
  obtain ⟨second, hsecond, hrid'⟩ : ∃ e, identitySample numberedFrame 1 = .accepted e ∧
    e.rid = 20025 := accepted_of_rid (by decide +kernel)
  exact ⟨_, first, second, rfl, hfirst, hsecond,
    insertEvent_duplicate_iff identityRuntime_digests rfl rfl hfirst hsecond
      (hrid.trans hrid'.symm) .text Store.empty List.not_mem_nil "r1" "r1"⟩

/-- A message without identity and date that comes again a millisecond later is
inserted again. One with the `id` 5 and another with the `oid` 5 are one event. -/
theorem insertEvent_duplicate_counterexample :
    (∃ v first second, identityRuntime.decodeRoomFrame undatedFrame identityTime = .ok v ∧
      identitySample undatedFrame 0 = .accepted first ∧
      identitySample undatedFrame 1 = .accepted second ∧ SameMessage identityRuntime v v ∧
      ¬ Store.empty.Duplicates identityRuntime .text first "r1" second "r1") ∧
    ∃ v w first second,
      identityRuntime.decodeRoomFrame numberedFrame identityTime = .ok v ∧
      identityRuntime.decodeRoomFrame orderedFrame identityTime = .ok w ∧
      identitySample numberedFrame 0 = .accepted first ∧
      identitySample orderedFrame 0 = .accepted second ∧ ¬ SameMessage identityRuntime v w ∧
      Store.empty.Duplicates identityRuntime .text first "r1" second "r1" := by
  obtain ⟨undated, hundated, hrid⟩ : ∃ e, identitySample undatedFrame 0 = .accepted e ∧
    e.rid = 20025 := accepted_of_rid (by decide +kernel)
  obtain ⟨again, hagain, hrid'⟩ : ∃ e, identitySample undatedFrame 1 = .accepted e ∧
    e.rid = 20025 := accepted_of_rid (by decide +kernel)
  obtain ⟨numbered, hnumbered, hrid''⟩ : ∃ e, identitySample numberedFrame 0 = .accepted e ∧
    e.rid = 20025 := accepted_of_rid (by decide +kernel)
  obtain ⟨ordered, hordered, hrid'''⟩ : ∃ e, identitySample orderedFrame 0 = .accepted e ∧
    e.rid = 20025 := accepted_of_rid (by decide +kernel)
  constructor
  · refine ⟨_, undated, again, rfl, hundated, hagain, same_iff_source.mpr rfl, ?_⟩
    obtain ⟨text, text', htext, htext', hiff⟩ := duplicates_text identityRuntime_digests rfl rfl
      hundated hagain (hrid.trans hrid'.symm) .text Store.empty List.not_mem_nil "r1" "r1"
    cases htext
    cases htext'
    intro h
    exact absurd ((content_text_eq_iff identityRuntime_digests).mp (hiff.mp h).2.2).1
      (by decide +kernel)
  · refine ⟨_, _, numbered, ordered, rfl, rfl, hnumbered, hordered, ?_, ?_⟩
    · rw [same_iff_source]
      exact Source.noConfusion
    · obtain ⟨text, text', htext, htext', hiff⟩ := duplicates_text identityRuntime_digests rfl rfl
        hnumbered hordered (hrid''.trans hrid'''.symm) .text Store.empty List.not_mem_nil "r1" "r1"
      cases htext
      cases htext'
      exact hiff.mpr ⟨rfl, rfl, rfl⟩

end Ahunter.Mx
