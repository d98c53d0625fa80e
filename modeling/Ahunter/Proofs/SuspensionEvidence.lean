import Ahunter.Lib.Sorting
import Ahunter.Market.Sina

/-!
# Evidence of suspension

The endpoint counts its rows back from the day of the fetch, and the number of
rows asked for is the length of the window. So the rows that come back reach
the window only when the window is near enough: a session that was traded is
among them exactly when the history has no more rows from it to the day of the
fetch than were asked for. What the rows do not reach is taken for suspended
like what the history does not have.
-/

namespace Ahunter.Market.Sina

open Ahunter.Lib
open Ahunter.Products (Payload Leaf Double valueOf?)
open Ahunter.Sim (Date Stamp monthStart dayMicros)

/-! ## The true history -/

/-- The daily rows of a security, as the endpoint writes them, oldest first. -/
structure History (py : Python) where
  rows : List (Date × Entries)
  dated : ∀ e ∈ rows, rowDay py e.2 = .ok e.1
  ascending : rows.Pairwise fun a b => a.1 < b.1

namespace History

variable {py : Python} (h : History py)

def Traded (day : Date) : Prop :=
  ∃ row, (day, row) ∈ h.rows ∧ isSuspensionPlaceholder py row = false

def upTo (last : Date) : List (Date × Entries) := h.rows.filter fun e => e.1 ≤ last

def since (day last : Date) : ℕ := (h.rows.filter fun e => day ≤ e.1 ∧ e.1 ≤ last).length

/-- The `n` most recent rows up to a day. -/
def recent (last : Date) (n : ℕ) : List (Date × Entries) := (h.upTo last).rtake n

theorem mem_recent {last : Date} {n : ℕ} {e : Date × Entries} (he : e ∈ h.recent last n) :
    e ∈ h.rows :=
  List.mem_of_mem_filter (List.mem_of_mem_drop he)

theorem recent_iff {last : Date} {n : ℕ} {e : Date × Entries} (he : e ∈ h.rows)
    (hlast : e.1 ≤ last) : e ∈ h.recent last n ↔ h.since e.1 last ≤ n := by
  have hmem : e ∈ h.upTo last := List.mem_filter.mpr ⟨he, by simpa using hlast⟩
  have hascending : (h.upTo last).Pairwise fun a b => a.1 < b.1 := h.ascending.filter _
  rw [recent, mem_rtake hascending hmem, upTo, List.filter_filter, since]
  simp only [Bool.decide_and]

theorem row_unique {e e' : Date × Entries} (he : e ∈ h.rows) (he' : e' ∈ h.rows)
    (hday : e.1 = e'.1) : e = e' := by
  have hnodup : (h.rows.map Prod.fst).Nodup :=
    (List.pairwise_map.mpr h.ascending).imp ne_of_lt
  exact List.inj_on_of_nodup_map hnodup he he' hday

end History

def Serves {py : Python} (history : History py) (web : Web) (symbol : String)
    (fetchedAt : Stamp) : Prop :=
  ∀ n attempt r payload rows, web symbol n attempt = .response r →
    r.payload = some payload → openapiDailyRows payload = .ok rows →
    rows = (history.recent (marketDate fetchedAt) n).map fun e => .dict e.2

/-! ## What is kept of the rows -/

def kept (py : Python) (start finish : Date) (e : Date × Entries) : Bool :=
  !isSuspensionPlaceholder py e.2 && decide (start ≤ e.1 ∧ e.1 ≤ finish)

section Parse

variable {py : Python} {code : String} {start finish : Date} {fetchedAt : Stamp}

theorem canonicalBar_day {day : Date} {opening high low close : ℚ} {volume : ℕ}
    {bar : Fetched CanonicalDailyBar}
    (h : canonicalBar code day opening high low close volume fetchedAt = .ok bar) :
    bar.content.tradeDate = day := by
  unfold canonicalBar at h
  split at h
  · cases h
    rfl
  · cases h

theorem parseTraded_dates {row : Entries} {day : Date}
    {bars bars' : List (Fetched CanonicalDailyBar)}
    (h : parseTraded py code start finish fetchedAt row day bars = .ok bars') :
    barDates bars' = barDates bars ++ if start ≤ day ∧ day ≤ finish then [day] else [] := by
  simp only [parseTraded, bind_ok (x := item row _ >>= _)] at h
  obtain ⟨opening, -, high, -, low, -, close, -, volume, -, h⟩ := h
  split at h
  · next hwindow =>
      obtain ⟨bar, hbar, h⟩ := bind_ok.mp h
      cases h
      rw [barDates, List.map_append, List.map_singleton, canonicalBar_day hbar, if_pos hwindow,
        barDates]
  · next hwindow =>
      cases h
      rw [if_neg hwindow, List.append_nil]

theorem parseRow_dates {p p' : Parsing} {e : Date × Entries} (hday : rowDay py e.2 = .ok e.1)
    (h : parseRow py code start finish fetchedAt p (.dict e.2) = .ok p') :
    barDates p'.parsed = barDates p.parsed ++ if kept py start finish e then [e.1] else [] := by
  unfold parseRow at h
  obtain ⟨row, hrow, h⟩ := bind_ok.mp h
  obtain ⟨-, -, hrow⟩ := bind_ok.mp hrow
  cases hrow
  rw [hday] at h
  obtain ⟨day, hsame, h⟩ := bind_ok.mp h
  cases hsame
  obtain ⟨-, -, h⟩ := bind_ok.mp h
  obtain ⟨-, -, h⟩ := bind_ok.mp h
  split at h
  · next hplaceholder =>
      cases h
      simp [kept, hplaceholder]
  · next hplaceholder =>
      obtain ⟨bars, hbars, h⟩ := bind_ok.mp h
      cases h
      simp [parseTraded_dates hbars, kept, hplaceholder]

theorem walk_dates {es : List (Date × Entries)} {p p' : Parsing}
    (hdated : ∀ e ∈ es, rowDay py e.2 = .ok e.1)
    (h : walk (parseRow py code start finish fetchedAt) p (es.map fun e => .dict e.2) = .ok p') :
    barDates p'.parsed = barDates p.parsed ++ (es.filter (kept py start finish)).map Prod.fst := by
  induction es generalizing p with
  | nil =>
      cases h
      simp
  | cons e es ih =>
      obtain ⟨c, hc, hrest⟩ := walk_cons_ok.mp h
      rw [ih (fun e he => hdated e (List.mem_cons_of_mem _ he)) hrest,
        parseRow_dates (hdated e List.mem_cons_self) hc, List.filter_cons, List.append_assoc]
      split <;> rfl

end Parse

/-! ## One fetch -/

theorem request_response {purpose : String} {replies : ℕ → Reply} {left attempt : ℕ}
    {r : Response} (h : request purpose replies attempt left = .ok r) :
    ∃ attempt, replies attempt = .response r := by
  induction left generalizing attempt with
  | zero => cases h
  | succ left ih =>
      rw [request] at h
      split at h
      · exact ih h
      · next r' hreply =>
          split at h
          · exact ih h
          · split at h
            · cases h
              exact ⟨attempt, hreply⟩
            · cases h

theorem validateWindow_ok {start finish : Date} {fetchedAt : Stamp} {u : Unit}
    (h : validateWindow start finish fetchedAt = .ok u) :
    start ≤ finish ∧ finish ≤ marketDate fetchedAt ∧ finish - start + 10 ≤ 2000 := by
  simp only [validateWindow, bind_ok, refuse_ok, not_lt] at h
  obtain ⟨-, hstart, -, hfinish, hlength⟩ := h
  exact ⟨hstart, hfinish, hlength⟩

section Fetch

variable {py : Python} {web : Web} {clock : Option Stamp} {fetchedAt : Stamp}
  {symbol code : String} {start finish : Date}
  {p p' : Provider} {bars : List (Fetched CanonicalDailyBar)}

theorem fetchSymbol_cached {history : History py} (hserves : Serves history web symbol fetchedAt)
    (h : fetchSymbol py web (some fetchedAt) symbol code start finish p = .ok (bars, p')) :
    finish ≤ marketDate fetchedAt ∧
      p'.cached = some ⟨symbol, code, start, finish, bars, fetchedAt⟩ ∧
      barDates bars = ((history.recent (marketDate fetchedAt) (datalen start finish)).filter
        (kept py start finish)).map Prod.fst := by
  unfold fetchSymbol at h
  obtain ⟨at_, hclock, h⟩ := bind_ok.mp h
  cases need_ok.mp hclock
  obtain ⟨_, hwindow, h⟩ := bind_ok.mp h
  obtain ⟨response, hresponse, h⟩ := bind_ok.mp h
  obtain ⟨-, -, h⟩ := bind_ok.mp h
  obtain ⟨payload, hpayload, h⟩ := bind_ok.mp h
  obtain ⟨rows, hrows, h⟩ := bind_ok.mp h
  obtain ⟨parsed, hparsed, h⟩ := bind_ok.mp h
  cases h
  refine ⟨(validateWindow_ok hwindow).2.1, rfl, ?_⟩
  obtain ⟨attempt, hreply⟩ := request_response hresponse
  cases hserves _ _ _ _ _ hreply (need_ok.mp hpayload) hrows
  obtain ⟨-, -, hparsed⟩ := bind_ok.mp hparsed
  obtain ⟨last, hwalk, hparsed⟩ := bind_ok.mp hparsed
  cases hparsed
  rw [walk_dates (fun e he => history.dated e (history.mem_recent he)) hwalk]
  rfl

theorem fetchDailyBars_symbol
    (h : fetchDailyBars py web clock code start finish p = .ok (bars, p')) :
    ∃ exchange, exchangeForCode code = .ok exchange ∧
      fetchSymbol py web clock (symbolOf exchange code) code start finish p = .ok (bars, p') := by
  unfold fetchDailyBars at h
  split at h
  · cases h
  · next exchange hexchange =>
      obtain ⟨-, -, h⟩ := bind_ok.mp h
      exact ⟨exchange, hexchange, h⟩

end Fetch

theorem exchangeForCode_code {code : String} {exchange : Exchange}
    (h : exchangeForCode code = .ok exchange) : isCode code = true := by
  obtain ⟨_, hcode, -⟩ := bind_ok.mp h
  simpa using hcode

/-! ## Absences -/

theorem gather_absences {code : String} {fetchedAt : Stamp} (hcode : isCode code = true)
    {days : List Date} (hdays : ∀ day ∈ days, day ≤ marketDate fetchedAt) :
    ∃ absences, gather (marketAbsence code fetchedAt) days = .ok absences ∧
      absences.map (fun a => a.content.tradeDate) = days := by
  induction days with
  | nil => exact ⟨[], rfl, rfl⟩
  | cons day days ih =>
      obtain ⟨absences, hrest, hmap⟩ := ih fun d hd => hdays d (List.mem_cons_of_mem _ hd)
      have hday : day ≤ marketDate fetchedAt := hdays day List.mem_cons_self
      have hone : marketAbsence code fetchedAt day = .ok
          ⟨⟨code, day, "sina_no_daily_bar", fetchedAt, hcode, hday, by decide⟩, fetchedAt⟩ := by
        rw [marketAbsence, dif_pos hcode, dif_pos hday]
      refine ⟨_ :: absences, gather_ok.mpr (.cons hone (gather_ok.mp hrest)), ?_⟩
      rw [List.map_cons, hmap]

theorem absencesFor_cached {p : Provider} {c : Cache} {sessions : List Date} (now : Stamp)
    (hcached : p.cached = some c) (hcode : isCode c.code = true)
    (hfinish : c.finish ≤ marketDate c.fetchedAt)
    (hsessions : ∀ day ∈ sessions, c.start ≤ day ∧ day ≤ c.finish) :
    ∃ absences, absencesFor c.code sessions (some now) p = .ok absences ∧
      absences.map (fun a => a.content.tradeDate)
        = sessions.filter fun day => day ∉ barDates c.bars := by
  unfold absencesFor
  by_cases hnone : sessions = []
  · exact ⟨[], if_pos hnone, by rw [hnone]; rfl⟩
  · have hinside : ¬ (c.code ≠ c.code ∨
        ∃ day ∈ sessions, ¬ (c.start ≤ day ∧ day ≤ c.finish)) := by
      rintro (hne | ⟨day, hday, hout⟩)
      · exact hne rfl
      · exact hout (hsessions day hday)
    have hdays : ∀ day ∈ sessions.filter (fun day => day ∉ barDates c.bars),
        day ≤ marketDate c.fetchedAt := fun day hday =>
      (hsessions day (List.mem_of_mem_filter hday)).2.trans hfinish
    obtain ⟨absences, hgather, hmap⟩ := gather_absences hcode hdays
    rw [if_neg hnone, hcached]
    exact ⟨absences, (if_neg hinside).trans hgather, hmap⟩

/-! ## Soundness -/

section Soundness

variable {py : Python} {history : History py}

theorem kept_iff {start finish last day : Date} {n : ℕ} (hlast : finish ≤ last)
    (hday : start ≤ day ∧ day ≤ finish) (htraded : history.Traded day) :
    day ∈ ((history.recent last n).filter (kept py start finish)).map Prod.fst ↔
      history.since day last ≤ n := by
  obtain ⟨row, hrow, hplaceholder⟩ := htraded
  rw [← history.recent_iff hrow (hday.2.trans hlast), List.mem_map]
  constructor
  · rintro ⟨e, he, hsame⟩
    have hrecent := List.mem_of_mem_filter he
    rw [← history.row_unique (history.mem_recent hrecent) hrow hsame]
    exact hrecent
  · intro hrecent
    refine ⟨(day, row), List.mem_filter.mpr ⟨hrecent, ?_⟩, rfl⟩
    simp [kept, hplaceholder, hday]

variable {web : Web} {code : String} {start finish : Date} {fetchedAt now : Stamp}
  {p p' : Provider} {bars : List (Fetched CanonicalDailyBar)} {sessions : List Date}

/-- After a fetch, the sessions that are reported absent were not traded exactly
when the rows asked for reach back to every session that was. -/
theorem absences_sound_iff
    (hserves : ∀ exchange, exchangeForCode code = .ok exchange →
      Serves history web (symbolOf exchange code) fetchedAt)
    (hfetch : fetchDailyBars py web (some fetchedAt) code start finish p = .ok (bars, p'))
    (hsessions : ∀ day ∈ sessions, start ≤ day ∧ day ≤ finish) :
    (∃ absences, absencesFor code sessions (some now) p' = .ok absences ∧
        ∀ a ∈ absences, ¬ history.Traded a.content.tradeDate) ↔
      ∀ day ∈ sessions, history.Traded day →
        history.since day (marketDate fetchedAt) ≤ datalen start finish := by
  obtain ⟨exchange, hexchange, hfetch⟩ := fetchDailyBars_symbol hfetch
  obtain ⟨hfinish, hcached, hdates⟩ := fetchSymbol_cached (hserves exchange hexchange) hfetch
  obtain ⟨absences, habsences, hmap⟩ := absencesFor_cached now hcached
    (exchangeForCode_code hexchange) hfinish hsessions
  dsimp only at habsences hmap
  rw [hdates] at hmap
  have hreported : (∀ a ∈ absences, ¬ history.Traded a.content.tradeDate) ↔
      ∀ day ∈ absences.map (fun a => a.content.tradeDate), ¬ history.Traded day :=
    (List.forall_mem_map (P := fun day => ¬ history.Traded day)).symm
  constructor
  · rintro ⟨found, hfound, hsound⟩ day hday htraded
    rw [habsences] at hfound
    cases hfound
    rw [hreported, hmap] at hsound
    by_contra hshort
    refine hsound day (List.mem_filter.mpr ⟨hday, ?_⟩) htraded
    simpa using mt (kept_iff hfinish (hsessions day hday) htraded).mp hshort
  · intro hreach
    refine ⟨absences, habsences, ?_⟩
    rw [hreported, hmap]
    intro day hday htraded
    obtain ⟨hsession, habsent⟩ := List.mem_filter.mp hday
    exact (by simpa using habsent :
      day ∉ ((history.recent (marketDate fetchedAt) (datalen start finish)).filter
        (kept py start finish)).map Prod.fst)
      ((kept_iff hfinish (hsessions day hsession) htraded).mpr (hreach day hsession htraded))

end Soundness

/-! ## A sample security -/

/-- `date.fromisoformat` of a text of the form it writes -/
def sampleDateText (text : String) : Option Date :=
  match text.toList with
  | [a, b, c, d, '-', e, f, '-', g, h] =>
      if [a, b, c, d, e, f, g, h].all Char.isDigit then
        some (monthStart (natOf [a, b, c, d]) (natOf [e, f]) + natOf [g, h] - 1)
      else none
  | _ => none

def samplePython : Python where
  floatText text :=
    if text.toList ≠ [] ∧ text.toList.all Char.isDigit then
      some (.finite (natOf text.toList))
    else none
  dateText := sampleDateText
  repr _ := "0.0"

def sampleRow (day : String) : Entries :=
  [("day", .leaf (.text day)), ("open", .leaf (.text "10")), ("high", .leaf (.text "12")),
    ("low", .leaf (.text "9")), ("close", .leaf (.text "11")),
    ("volume", .leaf (.text "1500"))]

def sampleDays : List String :=
  ["2026-01-05", "2026-01-06", "2026-01-07", "2026-01-08", "2026-01-09", "2026-01-12",
    "2026-01-13", "2026-01-14", "2026-01-15", "2026-01-16", "2026-01-19"]

def sampleHistory : History samplePython where
  rows := sampleDays.map fun day => ((sampleDateText day).getD 0, sampleRow day)
  dated := by decide +kernel
  ascending := by decide +kernel

def webOf {py : Python} (history : History py) (fetchedAt : Stamp) : Web :=
  fun _ n _ => .response {
    statusCode := some 200
    accepted := true
    contentType := "application/json; charset=utf-8"
    payload := some (.dict [("result", .dict [
      ("status", .dict [("code", .leaf (.int 0))]),
      ("data", .list ((history.recent (marketDate fetchedAt) n).map fun e => .dict e.2))])]) }

theorem webOf_serves {py : Python} (history : History py) (fetchedAt : Stamp) (symbol : String) :
    Serves history (webOf history fetchedAt) symbol fetchedAt := by
  intro n attempt r payload rows hreply hpayload hrows
  cases hreply
  cases hpayload
  cases hrows
  rfl

def sampleNow : Stamp := ⟨(monthStart 2026 1 + 18) * dayMicros + 28800000000, shanghai⟩

def sampleProvider : Provider := ⟨3, none, by decide⟩

def sampleDay : Date := monthStart 2026 1 + 4

def sampleFetch : Attempt (List (Fetched CanonicalDailyBar) × Provider) :=
  fetchDailyBars samplePython (webOf sampleHistory sampleNow) (some sampleNow) "600519" sampleDay
    sampleDay sampleProvider

/-- Ten rows come back, which do not reach the first day, so a session that was
traded is reported as suspended. -/
theorem absences_unsound :
    ¬ ∀ (py : Python) (history : History py) (web : Web) (code : String) (start finish : Date)
        (fetchedAt now : Stamp) (p p' : Provider) (bars : List (Fetched CanonicalDailyBar))
        (sessions : List Date) (absences : List (Fetched MarketAbsence)),
      (∀ exchange, exchangeForCode code = .ok exchange →
        Serves history web (symbolOf exchange code) fetchedAt) →
      fetchDailyBars py web (some fetchedAt) code start finish p = .ok (bars, p') →
      (∀ day ∈ sessions, start ≤ day ∧ day ≤ finish) →
      absencesFor code sessions (some now) p' = .ok absences →
      ∀ a ∈ absences, ¬ history.Traded a.content.tradeDate := by
  intro hsound
  have hdays : (sampleFetch.bind fun r => (absencesFor "600519" [sampleDay] (some sampleNow)
      r.2).map fun absences => absences.map fun a => a.content.tradeDate).toOption
        = some [sampleDay] := by decide +kernel
  cases hfetch : sampleFetch with
  | error e =>
      rw [hfetch] at hdays
      cases hdays
  | ok r =>
      rw [hfetch] at hdays
      cases habsences : absencesFor "600519" [sampleDay] (some sampleNow) r.2 with
      | error e =>
          rw [Except.bind, habsences] at hdays
          cases hdays
      | ok absences =>
          rw [Except.bind, habsences] at hdays
          have hmap : absences.map (fun a => a.content.tradeDate) = [sampleDay] :=
            Option.some.inj hdays
          obtain ⟨a, ha, hday⟩ := List.mem_map.mp (hmap ▸ List.mem_singleton_self sampleDay)
          refine hsound samplePython sampleHistory _ _ _ _ _ _ _ _ _ _ _
            (fun _ _ => webOf_serves _ _ _) hfetch (by simp) habsences a ha ?_
          rw [hday]
          exact ⟨sampleRow "2026-01-05", List.mem_map.mpr ⟨"2026-01-05", by decide,
            Prod.ext (by decide +kernel) rfl⟩, by decide +kernel⟩

/-- On the sample, the fetch of the first day goes through and reaches ten rows. -/
theorem absences_sound_sample :
    ∃ bars p', sampleFetch = .ok (bars, p') ∧
      ((∃ absences, absencesFor "600519" [sampleDay] (some sampleNow) p' = .ok absences ∧
          ∀ a ∈ absences, ¬ sampleHistory.Traded a.content.tradeDate) ↔
        ∀ day ∈ [sampleDay], sampleHistory.Traded day →
          sampleHistory.since day (marketDate sampleNow) ≤ datalen sampleDay sampleDay) := by
  obtain ⟨⟨bars, p'⟩, hfetch⟩ := isOk_iff.mp (by decide +kernel : sampleFetch.isOk = true)
  exact ⟨bars, p', hfetch, absences_sound_iff (fun _ _ => webOf_serves _ _ _) hfetch (by simp)⟩

end Ahunter.Market.Sina
