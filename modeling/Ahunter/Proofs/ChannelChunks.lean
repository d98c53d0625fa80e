import Ahunter.Proofs.Channel

/-!
# Chunks of a stream

How a stream is cut does not matter. Behind the channel stands a reading of the stream
byte by byte, in which a request is answered the moment its line ends; a chunk is the
fold of its bytes, and a run of calls is always where that reading is, up to the calls
the host still owes.
-/

namespace Ahunter.Channel

open Ahunter.Lib

variable {R V : Type}

/-! ## A stream byte by byte -/

structure Tally (R : Type) where
  buffer : List UInt8
  count : ℕ
  sent : ℕ
  requests : List R
  failed : Bool

namespace Tally

def new : Tally R := ⟨[], 0, 0, [], false⟩

variable (limits : ChannelLimits) (json : JsonLines R V) (host : List R → V) (tally : Tally R)

/-- A request, and what the host answers to it. -/
def ask (value : R) : Tally R :=
  let tally := { tally with requests := tally.requests ++ [value] }
  match json.dumps (host tally.requests) with
  | none => tally
  | some text =>
      if limits.responseBytes < (text ++ [newline]).length ∨
          limits.totalResponseBytes < tally.sent + (text ++ [newline]).length then
        { tally with failed := true }
      else { tally with sent := tally.sent + (text ++ [newline]).length }

def line (text : List UInt8) : Tally R :=
  let tally := { tally with buffer := [], count := tally.count + 1 }
  if limits.maxRequests < tally.count then { tally with failed := true }
  else match json.loads text with
    | none => { tally with failed := true }
    | some value => tally.ask limits json host value

def byte (b : UInt8) : Tally R :=
  if tally.failed then tally
  else if limits.frameBytes < tally.buffer.length + 1 then
    { tally with buffer := [], failed := true }
  else if b = newline then tally.line limits json host tally.buffer
  else { tally with buffer := tally.buffer ++ [b] }

def read (bytes : List UInt8) : Tally R := bytes.foldl (byte limits json host) tally

def chunk (bytes : List UInt8) : Tally R :=
  if limits.frameBytes < (tally.buffer ++ bytes).length then
    { tally with buffer := [], failed := true }
  else if newline ∉ bytes then { tally with buffer := tally.buffer ++ bytes }
  else tally.line limits json host (tally.buffer ++ bytes.dropLast)

end Tally

section Tally

variable {limits : ChannelLimits} {json : JsonLines R V} {host : List R → V} {tally : Tally R}

theorem Tally.read_append (front back : List UInt8) :
    tally.read limits json host (front ++ back) =
      (tally.read limits json host front).read limits json host back :=
  List.foldl_append

theorem Tally.read_failed (hfailed : tally.failed = true) (bytes : List UInt8) :
    tally.read limits json host bytes = tally := by
  induction bytes with
  | nil => rfl
  | cons b rest ih =>
      rw [Tally.read, List.foldl_cons, Tally.byte, if_pos hfailed]
      exact ih

variable (tally) in
theorem Tally.read_chunk (hok : tally.failed = false)
    (hroom : tally.buffer.length ≤ limits.frameBytes) {bytes : List UInt8}
    (hend : newline ∉ bytes.dropLast) :
    tally.read limits json host bytes = tally.chunk limits json host bytes := by
  induction bytes generalizing tally with
  | nil =>
      rw [Tally.chunk, List.append_nil, if_neg (Nat.not_lt.mpr hroom), if_pos (by simp)]
      rfl
  | cons b rest ih =>
      rw [Tally.read, List.foldl_cons, Tally.byte, if_neg (Bool.eq_false_iff.mp hok)]
      by_cases hover : limits.frameBytes < tally.buffer.length + 1
      · rw [if_pos hover, Tally.chunk, if_pos]
        · exact Tally.read_failed rfl rest
        · rw [List.length_append, List.length_cons]
          omega
      · rw [if_neg hover]
        by_cases hb : b = newline
        · have hrest : rest = [] := by
            cases rest with
            | nil => rfl
            | cons b' rest' =>
                rw [List.dropLast_cons_cons] at hend
                exact absurd (hb ▸ List.mem_cons_self) hend
          subst hrest
          rw [if_pos hb, Tally.chunk, if_neg, if_neg]
          · rw [List.dropLast_singleton, List.append_nil]
            rfl
          · rw [hb, not_not]
            exact List.mem_singleton_self _
          · rw [List.length_append, List.length_singleton]
            exact hover
        · have hrest : newline ∉ rest.dropLast := by
            intro hmem
            cases rest with
            | nil => cases hmem
            | cons b' rest' =>
                rw [List.dropLast_cons_cons] at hend
                exact hend (List.mem_cons_of_mem _ hmem)
          have hbuffer : (tally.buffer ++ [b]).length ≤ limits.frameBytes := by
            rw [List.length_append, List.length_singleton]
            omega
          rw [if_neg hb]
          refine (ih { tally with buffer := tally.buffer ++ [b] } hok hbuffer hrest).trans ?_
          have hassoc : (tally.buffer ++ [b]) ++ rest = tally.buffer ++ b :: rest := by
            rw [List.append_assoc, List.singleton_append]
          unfold Tally.chunk
          dsimp only
          rw [hassoc]
          split
          · rfl
          · have hmem : newline ∈ b :: rest ↔ newline ∈ rest := by
              rw [List.mem_cons]
              exact or_iff_right (fun h => hb h.symm)
            simp only [hmem]
            split
            · rfl
            · next hline =>
                have hne : rest ≠ [] := List.ne_nil_of_mem (not_not.mp hline)
                rw [List.dropLast_cons_of_ne_nil hne, List.append_assoc, List.singleton_append]
                rfl

end Tally

/-! ## Orderly runs -/

def Orderly (host : List R → V) (s : Session R) : Call V → Prop
  | .receive chunk => chunk ≠ [] ∧
      (s.channel.failed = true ∨ s.channel.outstanding = false ∧ newline ∉ chunk.dropLast)
  | .request | .response => True
  | .answer response => s.channel.outstanding = true ∧ s.channel.request = none ∧
      response = host (delivered s.log) ∧ ∀ data, .answered s.number data ∉ s.log
  | .responseSent => s.Carried
  | .eof | .abort _ => False

structure Settled (json : JsonLines R V) (host : List R → V) (s : Session R) : Prop where
  request : s.channel.request = none
  answered : s.channel.failed = false → s.channel.outstanding = true →
    (∃ data, .answered s.number data ∈ s.log) ∨ json.dumps (host (delivered s.log)) = none

section Entries

variable {log : List (Entry R)} {n : ℕ}

theorem countP_answers_pos : 0 < log.countP (Entry.answers n) ↔ ∃ data, .answered n data ∈ log := by
  rw [List.countP_pos_iff]
  constructor
  · rintro ⟨entry, hmem, hentry⟩
    cases entry with
    | answered number data =>
        rw [Entry.answers, beq_iff_eq] at hentry
        exact ⟨data, hentry ▸ hmem⟩
    | _ => cases hentry
  · rintro ⟨data, hmem⟩
    exact ⟨_, hmem, beq_self_eq_true n⟩

theorem countP_takes_pos : 0 < log.countP (Entry.takes n) ↔ ∃ data, .taken n data ∈ log := by
  rw [List.countP_pos_iff]
  constructor
  · rintro ⟨entry, hmem, hentry⟩
    cases entry with
    | taken number data =>
        rw [Entry.takes, beq_iff_eq] at hentry
        exact ⟨data, hentry ▸ hmem⟩
    | _ => cases hentry
  · rintro ⟨data, hmem⟩
    exact ⟨_, hmem, beq_self_eq_true n⟩

end Entries

section Orderly

variable {limits : ChannelLimits} {json : JsonLines R V} {host : List R → V} {s : Session R}

theorem Session.Kept.taken_answered (h : s.Kept limits json) {n : ℕ} {data : List UInt8}
    (htaken : .taken n data ∈ s.log) : ∃ data, .answered n data ∈ s.log := by
  have hpos := countP_takes_pos.mpr ⟨data, htaken⟩
  exact countP_answers_pos.mp (Nat.lt_of_lt_of_le hpos
    (Nat.le_trans (Nat.le_add_right _ _) (h.carried n)))

theorem Orderly.spaced (h : s.Kept limits json) {call : Call V} (horderly : Orderly host s call) :
    Spaced s call := by
  cases call with
  | answer response =>
      intro ⟨_, _, htaken⟩
      obtain ⟨data, hanswered⟩ := h.taken_answered htaken
      exact horderly.2.2.2 data hanswered
  | abort reason => exact horderly.elim
  | _ => trivial

/-- Where a run is, against the reading of its stream. -/
inductive Agrees (limits : ChannelLimits) (json : JsonLines R V) (host : List R → V)
    (s : Session R) (t : Tally R) : Prop
  | failed (hfailed : s.channel.failed = true) (hrequest : s.channel.request = none)
      (htally : t.failed = true) (hrequests : t.requests = delivered s.log)
  | idle (hok : s.channel.failed = false) (hidle : s.channel.outstanding = false)
      (hrequest : s.channel.request = none) (hresponse : s.channel.response = none)
      (hline : newline ∉ s.channel.buffer)
      (hroom : s.channel.buffer.length ≤ limits.frameBytes)
      (htally : t = ⟨s.channel.buffer, s.channel.count, s.channel.sent, delivered s.log, false⟩)
  | owed (earlier : List R) (value : R) (hok : s.channel.failed = false)
      (houtstanding : s.channel.outstanding = true) (hresponse : s.channel.response = none)
      (hbuffer : s.channel.buffer = [])
      (hvalue : s.channel.request = some value ∧ delivered s.log = earlier ∨
        s.channel.request = none ∧ delivered s.log = earlier ++ [value])
      (hnone : ∀ data, .answered s.number data ∉ s.log)
      (htally : t = Tally.ask limits json host
        ⟨[], s.channel.count, s.channel.sent, earlier, false⟩ value)
  | answered (hok : s.channel.failed = false) (houtstanding : s.channel.outstanding = true)
      (hrequest : s.channel.request = none) (hbuffer : s.channel.buffer = [])
      (hanswered : ∃ data, .answered s.number data ∈ s.log)
      (hlast : lastAnswered s.log = s.number)
      (htally : t = ⟨[], s.channel.count, s.channel.sent, delivered s.log, false⟩)

variable {chunk : List UInt8}

theorem eq_dropLast_append_newline (hmem : newline ∈ chunk)
    (hend : newline ∉ chunk.dropLast) : chunk = chunk.dropLast ++ [newline] := by
  have hne : chunk ≠ [] := List.ne_nil_of_mem hmem
  have hsplit := List.dropLast_concat_getLast hne
  rw [← hsplit, List.mem_append, List.mem_singleton] at hmem
  rcases hmem with hmem | hlast
  · exact absurd hmem hend
  · rw [← hlast] at hsplit
    exact hsplit.symm

theorem cut_line {line : List UInt8} (hline : newline ∉ line) :
    (line ++ [newline]).takeWhile (· ≠ newline) = line ∧
      (line ++ [newline]).dropWhile (· ≠ newline) = [newline] := by
  have hall : ∀ b ∈ line, decide (b ≠ newline) = true := by
    intro b hb
    exact decide_eq_true fun heq => hline (heq ▸ hb)
  rw [List.takeWhile_append_of_pos hall, List.dropWhile_append_of_pos hall]
  exact ⟨List.append_nil _, rfl⟩

variable (limits json) in
theorem ToolChannel.receive_idle {channel : ToolChannel R} (hok : channel.failed = false)
    (hidle : channel.outstanding = false) (hline : newline ∉ channel.buffer)
    (hend : newline ∉ chunk.dropLast) :
    channel.receive limits json chunk = if limits.frameBytes < (channel.buffer ++ chunk).length then
        { channel with buffer := [], failure := some "frame_limit" }
      else if newline ∉ chunk then { channel with buffer := channel.buffer ++ chunk }
      else channel.frame limits json (channel.buffer ++ chunk.dropLast) [] := by
  unfold ToolChannel.receive
  rw [if_neg (Bool.eq_false_iff.mp hok), if_neg (Bool.eq_false_iff.mp hidle)]
  dsimp only
  split
  · rfl
  · have hmem : newline ∈ channel.buffer ++ chunk ↔ newline ∈ chunk := by
      rw [List.mem_append]
      exact or_iff_right hline
    simp only [hmem]
    split
    · rfl
    · next hchunk =>
        have hsplit : channel.buffer ++ chunk =
            (channel.buffer ++ chunk.dropLast) ++ [newline] := by
          rw [List.append_assoc, ← eq_dropLast_append_newline (not_not.mp hchunk) hend]
        have hnone : newline ∉ channel.buffer ++ chunk.dropLast := by
          rw [List.mem_append]
          exact fun h => h.elim hline hend
        rw [hsplit, (cut_line hnone).1, (cut_line hnone).2]
        rfl

/-! ## One call of an orderly run -/

variable {t : Tally R}

theorem Agrees.receive (hkept : s.Kept limits json) (h : Agrees limits json host s t)
    (horderly : Orderly host s (.receive chunk)) :
    Agrees limits json host (s.apply limits json (.receive chunk))
      (t.read limits json host chunk) := by
  obtain ⟨-, hmay⟩ := horderly
  cases h with
  | failed hfailed hrequest htally hrequests =>
      have happly : s.apply limits json (.receive chunk) =
          { s with stream := s.stream ++ chunk } := by
        simp only [Session.apply, ToolChannel.receive, hfailed, if_true]
        cases s.channel.outstanding <;> rfl
      rw [happly, Tally.read_failed htally]
      exact .failed hfailed hrequest htally hrequests
  | idle hok hidle hrequest hresponse hline hroom htally =>
      have hend : newline ∉ chunk.dropLast := by
        rcases hmay with hfailed | ⟨-, hend⟩
        · exact absurd hfailed (Bool.eq_false_iff.mp hok)
        · exact hend
      have hreceive := ToolChannel.receive_idle limits json hok hidle hline hend
      subst htally
      rw [Tally.read_chunk ⟨s.channel.buffer, s.channel.count, s.channel.sent,
        delivered s.log, false⟩ rfl hroom hend]
      unfold Tally.chunk
      dsimp only
      split at hreceive
      · next hover =>
          rw [if_pos hover]
          simp only [Session.apply, hreceive, hidle]
          exact .failed rfl hrequest rfl rfl
      · next hfits =>
          rw [if_neg hfits]
          split at hreceive
          · next hnone =>
              rw [if_pos hnone]
              simp only [Session.apply, hreceive, hidle]
              refine .idle hok rfl hrequest hresponse ?_ (Nat.not_lt.mp hfits) rfl
              rw [List.mem_append]
              exact fun hmem => hmem.elim hline hnone
          · next hsome =>
              rw [if_neg hsome]
              unfold Tally.line
              unfold ToolChannel.frame at hreceive
              dsimp only at hreceive ⊢
              rw [if_neg (fun hne => hne rfl)] at hreceive
              split at hreceive
              · next hcount =>
                  rw [if_pos hcount]
                  simp only [Session.apply, hreceive, ToolChannel.fail, hidle]
                  exact .failed rfl hrequest rfl rfl
              · next hcount =>
                  rw [if_neg hcount]
                  split at hreceive
                  · next hvalue =>
                      simp only [hvalue, Session.apply, hreceive, ToolChannel.fail, hidle]
                      exact .failed rfl hrequest rfl rfl
                  · next value hvalue =>
                      simp only [hvalue, Session.apply, hreceive, hidle]
                      refine .owed (delivered s.log) value hok rfl hresponse rfl (.inl ⟨rfl, rfl⟩)
                        ?_ rfl
                      intro data hmem
                      have hfresh := hkept.fresh (s.number + 1) (Nat.lt_succ_self _)
                      rcases List.mem_cons.mp hmem with heq | hmem
                      · cases heq
                      · exact absurd hfresh (Nat.ne_of_gt (countP_answers_pos.mpr ⟨data, hmem⟩))
  | owed earlier value hok houtstanding =>
      rcases hmay with hfailed | ⟨hidle, -⟩
      · exact absurd hfailed (Bool.eq_false_iff.mp hok)
      · exact absurd houtstanding (Bool.eq_false_iff.mp hidle)
  | answered hok houtstanding =>
      rcases hmay with hfailed | ⟨hidle, -⟩
      · exact absurd hfailed (Bool.eq_false_iff.mp hok)
      · exact absurd houtstanding (Bool.eq_false_iff.mp hidle)

theorem Agrees.request (h : Agrees limits json host s t) :
    Agrees limits json host (s.apply limits json (.request : Call V)) t := by
  cases hvalue : s.channel.request with
  | none =>
      have happly : s.apply limits json (.request : Call V) = s := by
        simp only [Session.apply, ToolChannel.takeRequest, hvalue]
        rw [← hvalue]
      rw [happly]
      exact h
  | some value =>
      simp only [Session.apply, ToolChannel.takeRequest, hvalue]
      cases h with
      | failed hfailed hrequest => cases hvalue.symm.trans hrequest
      | idle hok hidle hrequest => cases hvalue.symm.trans hrequest
      | answered hok houtstanding hrequest => cases hvalue.symm.trans hrequest
      | owed earlier owing hok houtstanding hresponse hbuffer howed hnone htally =>
          rcases howed with ⟨hrequest, hearlier⟩ | ⟨hrequest, -⟩
          · cases hvalue.symm.trans hrequest
            refine .owed earlier value hok houtstanding hresponse hbuffer (.inr ⟨rfl, ?_⟩) ?_ htally
            · show delivered s.log ++ [value] = earlier ++ [value]
              rw [hearlier]
            · intro data hmem
              rcases List.mem_cons.mp hmem with heq | hmem
              · cases heq
              · exact hnone data hmem
          · cases hvalue.symm.trans hrequest

theorem Agrees.answer (h : Agrees limits json host s t) {response : V}
    (horderly : Orderly host s (.answer response)) :
    Agrees limits json host (s.apply limits json (.answer response)) t := by
  obtain ⟨houtstanding, hrequest, rfl, hunanswered⟩ := horderly
  cases hanswer : s.channel.answer limits json (host (delivered s.log)) with
  | error e =>
      simp only [Session.apply, hanswer]
      exact h
  | ok channel =>
      cases h with
      | failed hfailed hrequest htally hrequests =>
          rcases ToolChannel.answer_cases hanswer with ⟨-, rfl⟩ | ⟨hok, -⟩
          · have happly : s.apply limits json (.answer (host (delivered s.log))) = s := by
              simp only [Session.apply, hanswer]
              cases s.channel.response <;> rfl
            rw [happly]
            exact .failed hfailed hrequest htally hrequests
          · exact absurd hfailed (Bool.eq_false_iff.mp hok)
      | idle hok hidle => exact absurd houtstanding (Bool.eq_false_iff.mp hidle)
      | answered hok houtstanding hrequest hbuffer hanswered =>
          obtain ⟨data, hmem⟩ := hanswered
          exact absurd hmem (hunanswered data)
      | owed earlier value hok houtstanding hresponse hbuffer howed hnone htally =>
          have hdelivered : delivered s.log = earlier ++ [value] := by
            rcases howed with ⟨hsome, -⟩ | ⟨-, hdelivered⟩
            · cases hsome.symm.trans hrequest
            · exact hdelivered
          rcases ToolChannel.answer_cases hanswer with ⟨hfailed, -⟩ |
            ⟨-, -, -, text, htext, ⟨hover, rfl⟩ | ⟨hlength, htotal, rfl⟩⟩
          · exact absurd hfailed (Bool.eq_false_iff.mp hok)
          · simp only [Session.apply, hanswer, hresponse, ToolChannel.fail]
            rw [hdelivered] at htext
            simp only [Tally.ask, htext, if_pos hover] at htally
            subst htally
            exact .failed rfl hrequest rfl hdelivered.symm
          · simp only [Session.apply, hanswer, hresponse]
            rw [hdelivered] at htext
            have hfits : ¬ (limits.responseBytes < (text ++ [newline]).length ∨
                limits.totalResponseBytes < s.channel.sent + (text ++ [newline]).length) := by
              omega
            simp only [Tally.ask, htext, if_neg hfits] at htally
            rw [← hdelivered] at htally
            exact .answered hok houtstanding hrequest hbuffer
              ⟨_, List.mem_cons_self⟩ rfl htally

theorem Agrees.response (h : Agrees limits json host s t) :
    Agrees limits json host (s.apply limits json (.response : Call V)) t := by
  cases hdata : s.channel.response with
  | none =>
      have happly : s.apply limits json (.response : Call V) = s := by
        simp only [Session.apply, ToolChannel.takeResponse, hdata]
        rw [← hdata]
      rw [happly]
      exact h
  | some data =>
      simp only [Session.apply, ToolChannel.takeResponse, hdata]
      cases h with
      | failed hfailed hrequest htally hrequests =>
          exact .failed hfailed hrequest htally hrequests
      | idle hok hidle hrequest hresponse => cases hdata.symm.trans hresponse
      | owed earlier owing hok houtstanding hresponse => cases hdata.symm.trans hresponse
      | answered hok houtstanding hrequest hbuffer hanswered hlast htally =>
          obtain ⟨data, hmem⟩ := hanswered
          exact .answered hok houtstanding hrequest hbuffer
            ⟨data, List.mem_cons_of_mem _ hmem⟩ hlast htally

theorem Agrees.responseSent (hkept : s.Kept limits json) (h : Agrees limits json host s t)
    (hcarried : s.Carried) :
    Agrees limits json host (s.apply limits json (.responseSent : Call V)) t := by
  obtain ⟨houtstanding, data, htaken⟩ := hcarried
  simp only [Session.apply, houtstanding, if_true]
  cases h with
  | failed hfailed hrequest htally hrequests =>
      exact .failed hfailed hrequest htally hrequests
  | idle hok hidle => exact absurd houtstanding (Bool.eq_false_iff.mp hidle)
  | owed earlier value hok houtstanding hresponse hbuffer howed hnone =>
      obtain ⟨data, hanswered⟩ := hkept.taken_answered htaken
      exact absurd hanswered (hnone data)
  | answered hok houtstanding hrequest hbuffer hanswered hlast htally =>
      -- The one response of the request was taken, so none waits.
      have hresponse : s.channel.response = none := by
        have htakes := countP_takes_pos.mpr ⟨data, htaken⟩
        have hcarried := Nat.le_trans (hkept.carried s.number) (hkept.log.one_answer s.number)
        cases hresponse : s.channel.response with
        | none => rfl
        | some other =>
            rw [if_pos ⟨by rw [hresponse]; rfl, hlast⟩] at hcarried
            omega
      refine .idle hok rfl hrequest hresponse ?_ ?_ ?_
      · show newline ∉ s.channel.buffer
        rw [hbuffer]
        exact List.not_mem_nil
      · show s.channel.buffer.length ≤ _
        rw [hbuffer]
        exact Nat.zero_le _
      · show t = ⟨s.channel.buffer, s.channel.count, s.channel.sent, delivered s.log, false⟩
        rw [htally, hbuffer]

theorem Session.apply_stream {call : Call V} (hother : ∀ chunk, call ≠ .receive chunk) :
    (s.apply limits json call).stream = s.stream := by
  cases call with
  | receive chunk => exact absurd rfl (hother chunk)
  | answer response =>
      unfold Session.apply
      dsimp only
      split <;> rfl
  | _ => rfl

theorem orderly_run {s : Session R}
    (hrun : Relation.ReflTransGen (Session.Calls limits json (Orderly host)) .new s) :
    s.Kept limits json ∧ Agrees limits json host s (Tally.new.read limits json host s.stream) := by
  induction hrun with
  | refl =>
      refine ⟨Session.kept_new, .idle rfl rfl rfl rfl ?_ (Nat.zero_le _) rfl⟩
      exact List.not_mem_nil
  | tail _ hstep ih =>
      rename_i s t _
      obtain ⟨call, horderly, rfl⟩ := hstep
      obtain ⟨hkept, hagrees⟩ := ih
      refine ⟨hkept.apply (horderly.spaced hkept), ?_⟩
      cases call with
      | receive chunk =>
          show Agrees limits json host _ (Tally.new.read limits json host (s.stream ++ chunk))
          rw [Tally.read_append]
          exact hagrees.receive hkept horderly
      | request => exact hagrees.request
      | answer response =>
          rw [Session.apply_stream (fun chunk h => by cases h)]
          exact hagrees.answer horderly
      | response => exact hagrees.response
      | responseSent => exact hagrees.responseSent hkept horderly
      | eof => exact horderly.elim
      | abort reason => exact horderly.elim

theorem Agrees.settled {t : Tally R} (h : Agrees limits json host s t)
    (hsettled : Settled json host s) :
    delivered s.log = t.requests ∧
      (s.channel.eof.failed = true ↔ t.failed = true ∨ t.buffer ≠ []) := by
  cases h with
  | failed hfailed hrequest htally hrequests =>
      refine ⟨hrequests.symm, ?_⟩
      rw [ToolChannel.eof, if_neg (by simp [hfailed])]
      simp [hfailed, htally]
  | idle hok hidle hrequest hresponse hline hroom htally =>
      subst htally
      refine ⟨rfl, ?_⟩
      by_cases hbuffer : s.channel.buffer = []
      · rw [ToolChannel.eof, if_neg (by simp [hbuffer])]
        simp [hok, hbuffer]
      · rw [ToolChannel.eof, if_pos ⟨hbuffer, hok⟩]
        simp [ToolChannel.fail, ToolChannel.failed, hbuffer]
  | owed earlier value hok houtstanding hresponse hbuffer howed hnone htally =>
      have hdelivered : delivered s.log = earlier ++ [value] := by
        rcases howed with ⟨hsome, -⟩ | ⟨-, hdelivered⟩
        · cases hsome.symm.trans hsettled.request
        · exact hdelivered
      have hdumps : json.dumps (host (earlier ++ [value])) = none := by
        rcases hsettled.answered hok houtstanding with ⟨data, hanswered⟩ | hdumps
        · exact absurd hanswered (hnone data)
        · rw [hdelivered] at hdumps
          exact hdumps
      simp only [Tally.ask, hdumps] at htally
      subst htally
      refine ⟨hdelivered, ?_⟩
      rw [ToolChannel.eof, if_neg (by simp [hbuffer])]
      simp [hok]
  | answered hok houtstanding hrequest hbuffer hanswered hlast htally =>
      subst htally
      refine ⟨rfl, ?_⟩
      rw [ToolChannel.eof, if_neg (by simp [hbuffer])]
      simp [hok]

end Orderly

/-! ## The channel -/

/-- Runs that leave out an answer while a response is carried, and an abort without a reason
while one waits, alternate within their limits; a failure keeps its reason in every run; and
two orderly runs over one stream deliver the same requests and fail alike, however the stream
was cut. -/
theorem channel_law (limits : ChannelLimits) (json : JsonLines R V) :
    (∀ s, Relation.ReflTransGen (Session.Calls limits json Spaced) .new s →
      Alternating limits json s.log) ∧
    (∀ s t, Relation.ReflTransGen (Session.Calls limits json fun _ _ => True) s t →
      s.channel.failed = true → t.channel.failure = s.channel.failure) ∧
    ∀ (host : List R → V) (s t : Session R),
      Relation.ReflTransGen (Session.Calls limits json (Orderly host)) .new s →
      Relation.ReflTransGen (Session.Calls limits json (Orderly host)) .new t →
      s.stream = t.stream → Settled json host s → Settled json host t →
      delivered s.log = delivered t.log ∧
        s.channel.eof.failed = t.channel.eof.failed := by
  refine ⟨?_, ?_, ?_⟩
  · intro s hrun
    exact (Session.kept_new.run hrun).log
  · intro s t hrun hfailed
    exact Session.run_failure hfailed hrun
  · intro host s t hs ht hstream hsettled htsettled
    obtain ⟨hrequests, hfails⟩ := (orderly_run hs).2.settled hsettled
    obtain ⟨htrequests, htfails⟩ := (orderly_run ht).2.settled htsettled
    rw [← hstream] at htrequests htfails
    exact ⟨hrequests.trans htrequests.symm, Bool.eq_iff_iff.mpr (hfails.trans htfails.symm)⟩

/-! ## An answer while a response is carried -/

def sampleLimits : ChannelLimits := ⟨16, 16, 64, 4, by decide⟩

/-- `loads` of the empty object and `dumps` of it. -/
def emptyObjects : JsonLines Unit Unit where
  loads line := if line = [123, 125] then some () else none
  dumps _ := some [123, 125]

def answeredTwice : List (Call Unit) :=
  [.receive [123, 125, 10], .request, .answer (), .response, .answer ()]

theorem Session.calls_foldl {limits : ChannelLimits} {json : JsonLines R V} (calls : List (Call V))
    (s : Session R) :
    Relation.ReflTransGen (Session.Calls limits json fun _ _ => True) s
      (calls.foldl (fun s call => s.apply limits json call) s) := by
  induction calls generalizing s with
  | nil => exact .refl
  | cons call rest ih => exact .head ⟨call, trivial, rfl⟩ (ih _)

/-- The second answer is accepted. -/
theorem answered_twice :
    ¬ ∀ (limits : ChannelLimits) (json : JsonLines Unit Unit) (s : Session Unit),
      Relation.ReflTransGen (Session.Calls limits json fun _ _ => True) .new s →
      Alternating limits json s.log := by
  intro hall
  have hlog := hall sampleLimits emptyObjects _ (Session.calls_foldl answeredTwice .new)
  exact absurd (hlog.one_answer 1) (by decide)

end Ahunter.Channel
