import Ahunter.Trials.Channel
import Mathlib.Algebra.BigOperators.Group.List.Basic
import Mathlib.Algebra.GroupWithZero.Nat

/-!
# What a tool channel keeps

The log of a channel numbers its requests as they are accepted, and everything it promises
is read off that log: one answer to a number, a mark before the next number, bounds on
requests and bytes. Two gaps are left open by the code. `answer` refuses a second answer
while the first waits to be carried out, but not once it has been taken and its mark is
still to come, nor once an abort without a reason has dropped it. The runs below leave
these calls out and no others.
-/

namespace Ahunter.Channel

open Ahunter.Lib

variable {R V : Type}

/-! ## Entries -/

def Entry.answers (number : ℕ) : Entry R → Bool
  | .answered n _ => n == number
  | _ => false

def Entry.takes (number : ℕ) : Entry R → Bool
  | .taken n _ => n == number
  | _ => false

def Entry.takenBytes : Entry R → ℕ
  | .taken _ data => data.length
  | _ => 0

/-- A request is delivered after all before it were marked. -/
def SentFirst : List (Entry R) → Prop
  | [] => True
  | .delivered number _ :: log => (∀ n, 0 < n → n < number → .marked n ∈ log) ∧ SentFirst log
  | _ :: log => SentFirst log

structure Alternating (limits : ChannelLimits) (json : JsonLines R V) (log : List (Entry R)) :
    Prop where
  one_answer : ∀ n, log.countP (Entry.answers n) ≤ 1
  one_response : ∀ n, log.countP (Entry.takes n) ≤ 1
  sent_first : SentFirst log
  requests : (delivered log).length ≤ limits.maxRequests
  responses : ∀ n data, .taken n data ∈ log → data.length ≤ limits.responseBytes
  total : (log.map Entry.takenBytes).sum ≤ limits.totalResponseBytes
  frames : ∀ n value, .delivered n value ∈ log → ∃ line, .accepted n line value ∈ log ∧
    line.length + 1 ≤ limits.frameBytes ∧ json.loads line = some value

/-! ## Runs -/

def Session.Calls (limits : ChannelLimits) (json : JsonLines R V)
    (may : Session R → Call V → Prop) (s t : Session R) : Prop :=
  ∃ call, may s call ∧ t = s.apply limits json call

/-- The response to the outstanding request was taken and is not marked yet. -/
def Session.Carried (s : Session R) : Prop :=
  s.channel.outstanding = true ∧ ∃ data, .taken s.number data ∈ s.log

/-- No answer is given while a response is being carried out, and no response is dropped by
an abort that gives no reason. -/
def Spaced (s : Session R) : Call V → Prop
  | .answer _ => ¬ s.Carried
  | .abort reason => reason = "" → s.channel.response = none
  | _ => True

/-! ## One call -/

section Channel

variable {limits : ChannelLimits} {json : JsonLines R V} {channel : ToolChannel R}

theorem takeWhile_length_lt {line : List UInt8} (h : newline ∈ line) :
    (line.takeWhile (· ≠ newline)).length < line.length := by
  induction line with
  | nil => cases h
  | cons byte rest ih =>
      by_cases hbyte : byte = newline
      · simp [hbyte]
      · have hrest : newline ∈ rest := by
          rcases List.mem_cons.mp h with heq | hmem
          · exact absurd heq.symm hbyte
          · exact hmem
        simp only [List.takeWhile_cons, ne_eq, hbyte, not_false_eq_true, decide_true, if_true,
          List.length_cons]
        have := ih hrest
        simp only [ne_eq] at this
        omega

variable (limits json channel) in
theorem ToolChannel.frame_cases (line rest : List UInt8) :
    (∃ reason, reason ≠ "" ∧ channel.frame limits json line rest =
        { channel with buffer := [], count := channel.count + 1, failure := some reason }) ∨
      rest = [] ∧ channel.count + 1 ≤ limits.maxRequests ∧ ∃ value,
        json.loads line = some value ∧ channel.frame limits json line rest =
          { channel with
            buffer := [], count := channel.count + 1, request := some value
            outstanding := true } := by
  unfold ToolChannel.frame
  dsimp only
  split
  · exact .inl ⟨_, by decide, rfl⟩
  · next hrest =>
      split
      · exact .inl ⟨_, by decide, rfl⟩
      · next hcount =>
          split
          · exact .inl ⟨_, by decide, rfl⟩
          · next value hvalue =>
              exact .inr ⟨not_not.mp hrest, Nat.not_lt.mp hcount, value, hvalue, rfl⟩

variable (limits json channel) in
theorem ToolChannel.receive_cases (chunk : List UInt8) :
    (∃ buffer count failure, channel.count ≤ count ∧
        (channel.failed = true → failure = channel.failure) ∧
        channel.receive limits json chunk = { channel with buffer, count, failure }) ∨
      channel.failed = false ∧ channel.outstanding = false ∧
        channel.count + 1 ≤ limits.maxRequests ∧ ∃ value,
          ((channel.buffer ++ chunk).takeWhile (· ≠ newline)).length + 1 ≤ limits.frameBytes ∧
          json.loads ((channel.buffer ++ chunk).takeWhile (· ≠ newline)) = some value ∧
          channel.receive limits json chunk =
            { channel with
              buffer := [], count := channel.count + 1, request := some value
              outstanding := true } := by
  unfold ToolChannel.receive
  dsimp only
  split
  · exact .inl ⟨_, _, _, Nat.le_refl _, fun _ => rfl, rfl⟩
  · next hfailed =>
      split
      · exact .inl ⟨_, _, _, Nat.le_refl _, fun h => absurd h hfailed, rfl⟩
      · next hidle =>
          split
          · exact .inl ⟨_, _, _, Nat.le_refl _, fun h => absurd h hfailed, rfl⟩
          · next hlength =>
              split
              · exact .inl ⟨_, _, _, Nat.le_refl _, fun h => absurd h hfailed, rfl⟩
              · next hline =>
                  rcases ToolChannel.frame_cases limits json channel
                    ((channel.buffer ++ chunk).takeWhile (· ≠ newline))
                    ((channel.buffer ++ chunk).dropWhile (· ≠ newline)).tail with
                    ⟨reason, -, hframe⟩ | ⟨-, hcount, value, hvalue, hframe⟩
                  · exact .inl ⟨_, _, _, Nat.le_succ _, fun h => absurd h hfailed, hframe⟩
                  · refine .inr ⟨Bool.not_eq_true _ ▸ hfailed, Bool.not_eq_true _ ▸ hidle, hcount,
                      value, ?_, hvalue, hframe⟩
                    have := takeWhile_length_lt (not_not.mp hline)
                    omega

theorem ToolChannel.answer_cases {response : V} {after : ToolChannel R}
    (hok : channel.answer limits json response = .ok after) :
    channel.failed = true ∧ after = channel ∨
      channel.failed = false ∧ channel.outstanding = true ∧ channel.response = none ∧
        ∃ text, json.dumps response = some text ∧
          ((limits.responseBytes < (text ++ [newline]).length ∨
              limits.totalResponseBytes < channel.sent + (text ++ [newline]).length) ∧
            after = channel.fail "response_limit" ∨
            (text ++ [newline]).length ≤ limits.responseBytes ∧
            channel.sent + (text ++ [newline]).length ≤ limits.totalResponseBytes ∧
            after = { channel with
              sent := channel.sent + (text ++ [newline]).length
              response := some (text ++ [newline]) }) := by
  unfold ToolChannel.answer at hok
  simp only [bind_ok, need_ok] at hok
  obtain ⟨text, htext, hok⟩ := hok
  split at hok
  · next h => exact .inl ⟨h, (pure_ok.mp hok).symm⟩
  · next h =>
      simp only [bind_ok, refuse_ok, not_or, not_not] at hok
      obtain ⟨-, ⟨hidle, hresponse⟩, hok⟩ := hok
      refine .inr ⟨Bool.not_eq_true _ ▸ h, Bool.not_eq_false _ ▸ hidle, hresponse, text, htext, ?_⟩
      split at hok
      · next hover => exact .inl ⟨hover, (pure_ok.mp hok).symm⟩
      · next hlimits =>
          rw [not_or, Nat.not_lt, Nat.not_lt] at hlimits
          exact .inr ⟨hlimits.1, hlimits.2, (pure_ok.mp hok).symm⟩

end Channel

/-! ## The invariant -/

section Kept

variable {limits : ChannelLimits} {json : JsonLines R V}

variable {s : Session R}

structure Session.Kept (limits : ChannelLimits) (json : JsonLines R V) (s : Session R) : Prop where
  log : Alternating limits json s.log
  counted : s.number ≤ s.channel.count
  bounded : s.number ≤ limits.maxRequests
  requests : (delivered s.log).length + (if s.channel.request.isSome then 1 else 0) ≤ s.number
  request : ∀ value, s.channel.request = some value →
    ∃ line, .accepted s.number line value ∈ s.log ∧ line.length + 1 ≤ limits.frameBytes ∧
      json.loads line = some value
  marked : ∀ n, 0 < n → n < s.number → .marked n ∈ s.log
  idle : s.channel.outstanding = false → 0 < s.number → .marked s.number ∈ s.log
  fresh : ∀ n, s.number < n → s.log.countP (Entry.answers n) = 0
  pending : s.channel.outstanding = true → s.channel.failed = false →
    s.log.countP (Entry.answers s.number) = 0 ∨
      s.channel.response ≠ none ∧ lastAnswered s.log = s.number ∨
      ∃ data, .taken s.number data ∈ s.log
  response : ∀ data, s.channel.response = some data → data.length ≤ limits.responseBytes
  carried : ∀ n, s.log.countP (Entry.takes n) +
    (if s.channel.response.isSome ∧ lastAnswered s.log = n then 1 else 0) ≤
      s.log.countP (Entry.answers n)
  bytes : (s.log.map Entry.takenBytes).sum + (s.channel.response.elim 0 List.length) ≤
    s.channel.sent
  sent : s.channel.sent ≤ limits.totalResponseBytes

theorem Session.kept_new : (Session.new : Session R).Kept limits json where
  log := ⟨fun _ => Nat.zero_le _, fun _ => Nat.zero_le _, trivial, Nat.zero_le _, nofun,
    Nat.zero_le _, nofun⟩
  counted := Nat.le_refl _
  bounded := Nat.zero_le _
  requests := Nat.le_refl _
  request := nofun
  marked := nofun
  idle _ h := absurd h (Nat.lt_irrefl _)
  fresh _ _ := rfl
  pending := nofun
  response := nofun
  carried _ := Nat.le_refl _
  bytes := Nat.le_refl _
  sent := Nat.zero_le _

theorem Session.Kept.quiet (h : s.Kept limits json) {buffer : List UInt8} {count : ℕ}
    {failure : Option String} (stream : List UInt8) (hcount : s.channel.count ≤ count)
    (hfailed : s.channel.failed = true → failure = s.channel.failure) :
    Session.Kept limits json
      ⟨{ s.channel with buffer, count, failure }, stream, s.log⟩ :=
  { h with
    counted := Nat.le_trans h.counted hcount
    pending := by
      intro houtstanding hok
      refine h.pending houtstanding ?_
      cases hfail : s.channel.failed with
      | false => rfl
      | true =>
          have heq := hfailed hfail
          subst heq
          exact absurd hfail (Bool.eq_false_iff.mp hok) }

theorem Session.Kept.accept (h : s.Kept limits json) {line : List UInt8} {value : R}
    (stream : List UInt8) (hidle : s.channel.outstanding = false)
    (hcount : s.channel.count + 1 ≤ limits.maxRequests)
    (hline : line.length + 1 ≤ limits.frameBytes) (hvalue : json.loads line = some value) :
    Session.Kept limits json
      ⟨{ s.channel with
          buffer := [], count := s.channel.count + 1, request := some value, outstanding := true },
        stream, .accepted (s.number + 1) line value :: s.log⟩ where
  log :=
    { one_answer := h.log.one_answer
      one_response := h.log.one_response
      sent_first := h.log.sent_first
      requests := h.log.requests
      responses n data hmem := h.log.responses n data (by simpa using hmem)
      total := by simpa [Entry.takenBytes] using h.log.total
      frames := by
        intro n other hmem
        obtain ⟨line', haccepted, hrest⟩ := h.log.frames n other (by simpa using hmem)
        exact ⟨line', List.mem_cons_of_mem _ haccepted, hrest⟩ }
  counted := Nat.succ_le_succ h.counted
  bounded := Nat.le_trans (Nat.succ_le_succ h.counted) hcount
  requests := by
    have hle := h.requests
    have hdelivered : (delivered s.log).length ≤ s.number := Nat.le_trans (Nat.le_add_right _ _) hle
    exact Nat.succ_le_succ hdelivered
  request := by
    rintro _ ⟨⟩
    exact ⟨line, List.mem_cons_self, hline, hvalue⟩
  marked := by
    intro n hpos hlt
    refine List.mem_cons_of_mem _ ?_
    rcases Nat.lt_or_eq_of_le (Nat.le_of_lt_succ hlt) with hless | rfl
    · exact h.marked n hpos hless
    · exact h.idle hidle hpos
  idle := nofun
  fresh n hlt := h.fresh n (Nat.lt_of_succ_lt hlt)
  pending _ _ := .inl (h.fresh _ (Nat.lt_succ_self _))
  response := h.response
  carried := h.carried
  bytes := by simpa [Entry.takenBytes] using h.bytes
  sent := h.sent

theorem Session.Kept.deliver (h : s.Kept limits json) {value : R}
    (hvalue : s.channel.request = some value) :
    Session.Kept limits json
      ⟨{ s.channel with request := none }, s.stream, .delivered s.number value :: s.log⟩ :=
  have hrequests : (delivered s.log).length + 1 ≤ s.number := by
    simpa [hvalue] using h.requests
  { log :=
      { one_answer := h.log.one_answer
        one_response := h.log.one_response
        sent_first := ⟨h.marked, h.log.sent_first⟩
        requests := by
          rw [delivered, List.length_append]
          exact Nat.le_trans hrequests h.bounded
        responses n data hmem := h.log.responses n data (by simpa using hmem)
        total := by simpa [Entry.takenBytes] using h.log.total
        frames := by
          intro n other hmem
          have hframe : ∃ line, .accepted n line other ∈ s.log ∧
              line.length + 1 ≤ limits.frameBytes ∧ json.loads line = some other := by
            rcases List.mem_cons.mp hmem with heq | hmem
            · cases heq
              exact h.request value hvalue
            · exact h.log.frames n other hmem
          obtain ⟨line, haccepted, hrest⟩ := hframe
          exact ⟨line, List.mem_cons_of_mem _ haccepted, hrest⟩ }
    counted := h.counted
    bounded := h.bounded
    requests := by
      rw [delivered, List.length_append]
      exact hrequests
    request := nofun
    marked n hpos hlt := List.mem_cons_of_mem _ (h.marked n hpos hlt)
    idle hidle hpos := List.mem_cons_of_mem _ (h.idle hidle hpos)
    fresh := h.fresh
    pending houtstanding hok := by
      rcases h.pending houtstanding hok with hnone | hwaiting | ⟨data, htaken⟩
      · exact .inl hnone
      · exact .inr (.inl hwaiting)
      · exact .inr (.inr ⟨data, List.mem_cons_of_mem _ htaken⟩)
    response := h.response
    carried := h.carried
    bytes := by simpa [Entry.takenBytes] using h.bytes
    sent := h.sent }

theorem Session.Kept.give (h : s.Kept limits json) {data : List UInt8}
    (hok : s.channel.failed = false) (houtstanding : s.channel.outstanding = true)
    (hresponse : s.channel.response = none) (hspaced : ¬ s.Carried)
    (hlength : data.length ≤ limits.responseBytes)
    (htotal : s.channel.sent + data.length ≤ limits.totalResponseBytes) :
    Session.Kept limits json
      ⟨{ s.channel with sent := s.channel.sent + data.length, response := some data },
        s.stream, .answered s.number data :: s.log⟩ := by
  have hnone : s.log.countP (Entry.answers s.number) = 0 := by
    rcases h.pending houtstanding hok with hnone | ⟨hsome, -⟩ | htaken
    · exact hnone
    · exact absurd hresponse hsome
    · exact absurd ⟨houtstanding, htaken⟩ hspaced
  have hcount : ∀ n, (Entry.answered s.number data :: s.log).countP (Entry.answers n) =
      s.log.countP (Entry.answers n) + if s.number = n then 1 else 0 := by
    intro n
    simp [List.countP_cons, Entry.answers]
  exact
  { log :=
      { one_answer := by
          intro n
          rw [hcount]
          split
          · next heq =>
              exact Nat.le_of_eq (by rw [← heq, hnone])
          · exact h.log.one_answer n
        one_response := h.log.one_response
        sent_first := h.log.sent_first
        requests := h.log.requests
        responses n other hmem := h.log.responses n other (by simpa using hmem)
        total := by simpa [Entry.takenBytes] using h.log.total
        frames := by
          intro n other hmem
          obtain ⟨line, haccepted, hrest⟩ := h.log.frames n other (by simpa using hmem)
          exact ⟨line, List.mem_cons_of_mem _ haccepted, hrest⟩ }
    counted := h.counted
    bounded := h.bounded
    requests := h.requests
    request := by
      intro value hvalue
      obtain ⟨line, haccepted, hrest⟩ := h.request value hvalue
      exact ⟨line, List.mem_cons_of_mem _ haccepted, hrest⟩
    marked n hpos hlt := List.mem_cons_of_mem _ (h.marked n hpos hlt)
    idle hidle hpos := List.mem_cons_of_mem _ (h.idle hidle hpos)
    fresh := by
      intro n hlt
      have hne : ¬ s.number = n := Nat.ne_of_lt hlt
      rw [hcount, h.fresh n hlt, if_neg hne]
    pending _ _ := .inr (.inl ⟨nofun, rfl⟩)
    response := by
      rintro _ ⟨⟩
      exact hlength
    carried := by
      intro n
      have hle := h.carried n
      rw [hcount]
      show s.log.countP (Entry.takes n) + (if true = true ∧ s.number = n then 1 else 0) ≤ _
      rw [hresponse] at hle
      simp only [true_and]
      simp only [Option.isSome_none, Bool.false_eq_true, false_and, if_false, Nat.add_zero] at hle
      exact Nat.add_le_add_right hle _
    bytes := by
      have hle : (s.log.map Entry.takenBytes).sum ≤ s.channel.sent :=
        Nat.le_trans (Nat.le_add_right _ _) h.bytes
      simpa [Entry.takenBytes] using hle
    sent := htotal }

theorem Session.Kept.carry (h : s.Kept limits json) {data : List UInt8}
    (hdata : s.channel.response = some data) :
    Session.Kept limits json
      ⟨{ s.channel with response := none }, s.stream,
        .taken (lastAnswered s.log) data :: s.log⟩ := by
  have htakes : ∀ n, (Entry.taken (lastAnswered s.log) data :: s.log).countP (Entry.takes n) ≤
      s.log.countP (Entry.answers n) := by
    intro n
    have hle := h.carried n
    rw [hdata] at hle
    simpa [List.countP_cons, Entry.takes] using hle
  have hbytes : ((Entry.taken (lastAnswered s.log) data :: s.log).map Entry.takenBytes).sum ≤
      s.channel.sent := by
    have hle := h.bytes
    rw [hdata] at hle
    rw [List.map_cons, List.sum_cons, Nat.add_comm]
    exact hle
  exact
  { log :=
      { one_answer := h.log.one_answer
        one_response n := Nat.le_trans (htakes n) (h.log.one_answer n)
        sent_first := h.log.sent_first
        requests := h.log.requests
        responses := by
          intro n other hmem
          rcases List.mem_cons.mp hmem with heq | hmem
          · cases heq
            exact h.response data hdata
          · exact h.log.responses n other hmem
        total := Nat.le_trans hbytes h.sent
        frames := by
          intro n other hmem
          obtain ⟨line, haccepted, hrest⟩ := h.log.frames n other (by simpa using hmem)
          exact ⟨line, List.mem_cons_of_mem _ haccepted, hrest⟩ }
    counted := h.counted
    bounded := h.bounded
    requests := h.requests
    request := by
      intro value hvalue
      obtain ⟨line, haccepted, hrest⟩ := h.request value hvalue
      exact ⟨line, List.mem_cons_of_mem _ haccepted, hrest⟩
    marked n hpos hlt := List.mem_cons_of_mem _ (h.marked n hpos hlt)
    idle hidle hpos := List.mem_cons_of_mem _ (h.idle hidle hpos)
    fresh := h.fresh
    pending := by
      intro houtstanding hok
      rcases h.pending houtstanding hok with hnone | ⟨-, hlast⟩ | ⟨other, htaken⟩
      · exact .inl hnone
      · exact .inr (.inr ⟨data, hlast ▸ List.mem_cons_self⟩)
      · exact .inr (.inr ⟨other, List.mem_cons_of_mem _ htaken⟩)
    response := nofun
    carried := htakes
    bytes := hbytes
    sent := h.sent }

theorem Session.Kept.mark (h : s.Kept limits json) :
    Session.Kept limits json ⟨s.channel.responseSent, s.stream, .marked s.number :: s.log⟩ where
  log :=
    { one_answer := h.log.one_answer
      one_response := h.log.one_response
      sent_first := h.log.sent_first
      requests := h.log.requests
      responses n data hmem := h.log.responses n data (by simpa using hmem)
      total := by simpa [Entry.takenBytes] using h.log.total
      frames := by
        intro n other hmem
        obtain ⟨line, haccepted, hrest⟩ := h.log.frames n other (by simpa using hmem)
        exact ⟨line, List.mem_cons_of_mem _ haccepted, hrest⟩ }
  counted := h.counted
  bounded := h.bounded
  requests := h.requests
  request := by
    intro value hvalue
    obtain ⟨line, haccepted, hrest⟩ := h.request value hvalue
    exact ⟨line, List.mem_cons_of_mem _ haccepted, hrest⟩
  marked n hpos hlt := List.mem_cons_of_mem _ (h.marked n hpos hlt)
  idle _ _ := List.mem_cons_self
  fresh := h.fresh
  pending := nofun
  response := h.response
  carried := h.carried
  bytes := by simpa [Entry.takenBytes, ToolChannel.responseSent] using h.bytes
  sent := h.sent

theorem Session.Kept.stop (h : s.Kept limits json) {reason : String}
    (hreason : reason = "" → s.channel.response = none) :
    Session.Kept limits json ⟨s.channel.abort reason, s.stream, s.log⟩ :=
  { h with
    requests := Nat.le_trans (Nat.le_add_right _ _) h.requests
    request := nofun
    pending := by
      intro houtstanding hok
      have hopen : s.channel.failed = false ∧ reason = "" := by
        unfold ToolChannel.abort ToolChannel.failed at hok
        dsimp only at hok
        split at hok
        · next hfailed => exact absurd hok (by simpa [ToolChannel.failed] using hfailed)
        · next hfailed => exact ⟨Bool.eq_false_iff.mpr hfailed, by simpa using hok⟩
      rcases h.pending houtstanding hopen.1 with hnone | ⟨hsome, -⟩ | htaken
      · exact .inl hnone
      · exact absurd (hreason hopen.2) hsome
      · exact .inr (.inr htaken)
    response := nofun
    carried := fun n => Nat.le_trans (Nat.le_add_right _ _) (h.carried n)
    bytes := Nat.le_trans (Nat.le_add_right _ _) h.bytes }

theorem Session.Kept.apply (h : s.Kept limits json) {call : Call V} (hspaced : Spaced s call) :
    (s.apply limits json call).Kept limits json := by
  cases call with
  | receive chunk =>
      rcases ToolChannel.receive_cases limits json s.channel chunk with ⟨buffer, count, failure, hcount, hfailed, hreceive⟩ |
        ⟨-, hidle, hcount, value, hline, hvalue, hreceive⟩
      · have happly : s.apply limits json (.receive chunk) =
            ⟨{ s.channel with buffer, count, failure }, s.stream ++ chunk, s.log⟩ := by
          simp only [Session.apply, hreceive]
          cases s.channel.outstanding <;> rfl
        rw [happly]
        exact h.quiet _ hcount hfailed
      · have happly : s.apply limits json (.receive chunk) =
            ⟨{ s.channel with
                buffer := [], count := s.channel.count + 1, request := some value
                outstanding := true },
              s.stream ++ chunk, .accepted (s.number + 1)
                ((s.channel.buffer ++ chunk).takeWhile (· ≠ newline)) value :: s.log⟩ := by
          simp only [Session.apply, hreceive, hidle]
        rw [happly]
        exact h.accept _ hidle hcount hline hvalue
  | request =>
      cases hvalue : s.channel.request with
      | none =>
          have happly : s.apply limits json (.request : Call V) = s := by
            simp only [Session.apply, ToolChannel.takeRequest, hvalue]
            rw [← hvalue]
          rw [happly]
          exact h
      | some value =>
          have happly : s.apply limits json (.request : Call V) =
              ⟨{ s.channel with request := none }, s.stream,
                .delivered s.number value :: s.log⟩ := by
            simp only [Session.apply, ToolChannel.takeRequest, hvalue]
          rw [happly]
          exact h.deliver hvalue
  | answer response =>
      cases hanswer : s.channel.answer limits json response with
      | error e =>
          have happly : s.apply limits json (.answer response) = s := by
            simp only [Session.apply, hanswer]
          rw [happly]
          exact h
      | ok channel =>
          rcases ToolChannel.answer_cases hanswer with ⟨-, rfl⟩ |
            ⟨hok, houtstanding, hresponse, text, -, ⟨-, rfl⟩ | ⟨hlength, htotal, rfl⟩⟩
          · have happly : s.apply limits json (.answer response) = s := by
              simp only [Session.apply, hanswer]
              cases s.channel.response <;> rfl
            rw [happly]
            exact h
          · have happly : s.apply limits json (.answer response) =
                ⟨s.channel.fail "response_limit", s.stream, s.log⟩ := by
              simp only [Session.apply, hanswer, ToolChannel.fail, hresponse]
            rw [happly]
            exact h.quiet _ (Nat.le_refl _) (fun hfail => absurd hfail (by simp [hok]))
          · have happly : s.apply limits json (.answer response) =
                ⟨{ s.channel with
                    sent := s.channel.sent + (text ++ [newline]).length
                    response := some (text ++ [newline]) },
                  s.stream, .answered s.number (text ++ [newline]) :: s.log⟩ := by
              simp only [Session.apply, hanswer, hresponse]
            rw [happly]
            exact h.give hok houtstanding hresponse hspaced hlength htotal
  | response =>
      cases hdata : s.channel.response with
      | none =>
          have happly : s.apply limits json (.response : Call V) = s := by
            simp only [Session.apply, ToolChannel.takeResponse, hdata]
            rw [← hdata]
          rw [happly]
          exact h
      | some data =>
          have happly : s.apply limits json (.response : Call V) =
              ⟨{ s.channel with response := none }, s.stream,
                .taken (lastAnswered s.log) data :: s.log⟩ := by
            simp only [Session.apply, ToolChannel.takeResponse, hdata]
          rw [happly]
          exact h.carry hdata
  | responseSent =>
      cases houtstanding : s.channel.outstanding with
      | false =>
          have happly : s.apply limits json (.responseSent : Call V) = s := by
            simp only [Session.apply, ToolChannel.responseSent, houtstanding, Bool.false_eq_true,
              if_false]
            rw [← houtstanding]
          rw [happly]
          exact h
      | true =>
          have happly : s.apply limits json (.responseSent : Call V) =
              ⟨s.channel.responseSent, s.stream, .marked s.number :: s.log⟩ := by
            simp only [Session.apply, houtstanding, if_true]
          rw [happly]
          exact h.mark
  | eof =>
      simp only [Session.apply, ToolChannel.eof]
      split
      · next hcut => exact h.quiet _ (Nat.le_refl _) (fun hfail => absurd hfail (by simp [hcut.2]))
      · exact h
  | abort reason =>
      exact h.stop hspaced

theorem Session.Kept.run {t : Session R} (h : s.Kept limits json)
    (hrun : Relation.ReflTransGen (Session.Calls limits json Spaced) s t) : t.Kept limits json := by
  induction hrun with
  | refl => exact h
  | tail _ hstep ih =>
      obtain ⟨call, hspaced, rfl⟩ := hstep
      exact ih.apply hspaced

end Kept

/-! ## Failures -/

section Failure

variable {limits : ChannelLimits} {json : JsonLines R V} {s : Session R}

theorem ToolChannel.failed_congr {channel other : ToolChannel R}
    (h : channel.failure = other.failure) : channel.failed = other.failed := by
  rw [ToolChannel.failed, ToolChannel.failed, h]

theorem Session.apply_failure (hfailed : s.channel.failed = true) (call : Call V) :
    (s.apply limits json call).channel.failure = s.channel.failure := by
  cases call with
  | receive chunk =>
      simp only [Session.apply, ToolChannel.receive, hfailed, if_true]
  | request => rfl
  | answer response =>
      cases hanswer : s.channel.answer limits json response with
      | error e => simp only [Session.apply, hanswer]
      | ok channel =>
          simp only [Session.apply, hanswer]
          rcases ToolChannel.answer_cases hanswer with ⟨-, rfl⟩ | ⟨hok, -⟩
          · rfl
          · exact absurd hfailed (Bool.eq_false_iff.mp hok)
  | response => rfl
  | responseSent => rfl
  | eof => simp [Session.apply, ToolChannel.eof, hfailed]
  | abort reason => simp [Session.apply, ToolChannel.abort, hfailed]

theorem Session.run_failure {may : Session R → Call V → Prop} {t : Session R}
    (hfailed : s.channel.failed = true)
    (hrun : Relation.ReflTransGen (Session.Calls limits json may) s t) :
    t.channel.failure = s.channel.failure := by
  induction hrun with
  | refl => rfl
  | tail _ hstep ih =>
      obtain ⟨call, -, rfl⟩ := hstep
      exact (Session.apply_failure ((ToolChannel.failed_congr ih).trans hfailed) call).trans ih

end Failure

end Ahunter.Channel
