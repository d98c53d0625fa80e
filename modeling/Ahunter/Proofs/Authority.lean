import Ahunter.Market.Authority

/-!
# What the session authority answers

The authority is judged by a true calendar it never sees. It holds a gap-free run of
true sessions, and a probe of the current day that does not lie. A weekday that is not
stored is taken for a holiday only where a later stored session proves it, but a weekend
cutoff is let through whatever the table has: a table that ends before the Friday answers
with the day it ends on.
-/

namespace Ahunter.Market

open Ahunter.Lib
open Ahunter.Sim (Clock Date Instant Zone dayMicros)

/-! ## The calendar -/

structure TradingCalendar where
  session : Date → Prop
  weekdays : ∀ day, session day → weekday day < 5

structure GapFree (cal : TradingCalendar) (sessions : List Date) : Prop where
  true_ : ∀ day ∈ sessions, cal.session day
  filled : ∀ first ∈ sessions, ∀ last ∈ sessions, ∀ day, cal.session day →
    first ≤ day → day ≤ last → day ∈ sessions

def IsLatest (cal : TradingCalendar) (asOf : Instant) (day : Date) : Prop :=
  IsGreatest { day | cal.session day ∧ shanghai.combine day closeAt ≤ asOf } day

def Trading (cal : TradingCalendar) (asOf : Instant) : Prop :=
  cal.session (shanghai.date asOf) ∧ sessionHours (shanghai.time asOf) = true

structure Truthful (cal : TradingCalendar) (authority : HybridTradingSessionAuthority) : Prop where
  table : ∀ sessions, authority.completedSessions.tradingSessions = some sessions →
    GapFree cal sessions
  opened : ∀ asOf, authority.currentSession asOf = .opened → cal.session (shanghai.date asOf)
  completed : ∀ asOf, authority.currentSession asOf = .completed →
    cal.session (shanghai.date asOf) ∧ shanghai.combine (shanghai.date asOf) closeAt ≤ asOf

theorem closes_by (day t : ℤ) :
    day * 86400000000 + 54000000000 - 28800000000 ≤ t ↔
      day ≤ if 54000000000 ≤ (t + 28800000000) % 86400000000 then (t + 28800000000) / 86400000000
        else (t + 28800000000) / 86400000000 - 1 := by
  split <;> omega

theorem combine_closeAt_le (day : Date) (asOf : Instant) :
    shanghai.combine day closeAt ≤ asOf ↔ day ≤ cutoff asOf :=
  closes_by day asOf

theorem isLatest_iff {cal : TradingCalendar} {asOf : Instant} {day : Date} :
    IsLatest cal asOf day ↔ cal.session day ∧ day ≤ cutoff asOf ∧
        ∀ other, cal.session other → other ≤ cutoff asOf → other ≤ day := by
  simp only [IsLatest, IsGreatest, upperBounds, Set.mem_ofPred_eq, combine_closeAt_le]
  constructor
  · intro ⟨⟨hsession, hle⟩, hall⟩
    exact ⟨hsession, hle, fun other hother hcut => hall ⟨hother, hcut⟩⟩
  · intro ⟨hsession, hle, hall⟩
    exact ⟨⟨hsession, hle⟩, fun _ h => hall _ h.1 h.2⟩

theorem cutoff_le (asOf : Instant) : cutoff asOf ≤ shanghai.date asOf := by
  unfold cutoff
  split
  · exact le_refl _
  · exact Int.sub_le_self _ (by decide)

/-! ## The table -/

section Table

variable {cal : TradingCalendar} {sessions : List Date}

variable {asOf : Instant}

theorem GapFree.between (hgap : GapFree cal sessions) {day : Date} (hday : cal.session day)
    (hbefore : ∃ first ∈ sessions, first ≤ day) (hafter : ∃ last ∈ sessions, day ≤ last) :
    day ∈ sessions := by
  obtain ⟨first, hfirst, hle⟩ := hbefore
  obtain ⟨last, hlast, hge⟩ := hafter
  exact hgap.filled first hfirst last hlast day hday hle hge

theorem stored_latest_ok {authority : SqliteTradingSessionAuthority} {day : Date} :
    authority.latestCompletedSession asOf = .ok day ↔
      ∃ sessions, authority.tradingSessions = some sessions ∧
        (cutoff asOf ∈ sessions ∨ 5 ≤ weekday (cutoff asOf) ∨
          ∃ later ∈ sessions, cutoff asOf < later) ∧ day ∈ sessions ∧ day ≤ cutoff asOf ∧
        ∀ other ∈ sessions, other ≤ cutoff asOf → other ≤ day := by
  unfold SqliteTradingSessionAuthority.latestCompletedSession
  simp only [bind_ok, need_ok, refuse_ok]
  constructor
  · rintro ⟨sessions, hsessions, _, hproved, hmax⟩
    have hmem := List.max?_mem hmax
    rw [List.mem_filter, decide_eq_true_eq] at hmem
    refine ⟨sessions, hsessions, ?_, hmem.1, hmem.2, ?_⟩
    · by_contra hnone
      push Not at hnone
      refine hproved ⟨hnone.1, hnone.2.1, ?_⟩
      rintro ⟨later, hlater, hlt⟩
      exact absurd hlt (not_lt.mpr (hnone.2.2 later hlater))
    · intro other hother hle
      exact (List.max?_le_iff hmax).mp le_rfl other
        (List.mem_filter.mpr ⟨hother, decide_eq_true hle⟩)
  · rintro ⟨sessions, hsessions, hproved, hmem, hle, hall⟩
    refine ⟨sessions, hsessions, (), ?_, ?_⟩
    · rintro ⟨hout, hweekday, hlater⟩
      rcases hproved with hin | hweekend | hin
      · exact hout hin
      · exact absurd hweekday (not_lt.mpr hweekend)
      · exact hlater hin
    · rw [List.max?_eq_some_iff]
      refine ⟨List.mem_filter.mpr ⟨hmem, decide_eq_true hle⟩, ?_⟩
      intro other hother
      rw [List.mem_filter, decide_eq_true_eq] at hother
      exact hall other hother.1 hother.2

theorem GapFree.isLatest (hgap : GapFree cal sessions) {day : Date} (hmem : day ∈ sessions)
    (hle : day ≤ cutoff asOf) (hall : ∀ other ∈ sessions, other ≤ cutoff asOf → other ≤ day)
    (hnone : ∀ missed, cal.session missed → missed ≤ cutoff asOf →
      ∃ last ∈ sessions, missed ≤ last) : IsLatest cal asOf day := by
  refine isLatest_iff.mpr ⟨hgap.true_ day hmem, hle, ?_⟩
  intro other hother hcut
  rcases le_total other day with h | h
  · exact h
  · exact hall other (hgap.between hother ⟨day, hmem, h⟩ (hnone other hother hcut)) hcut

theorem stored_opened {authority : SqliteTradingSessionAuthority}
    (hok : authority.sessionState asOf = .ok .opened) :
    ∃ sessions, authority.tradingSessions = some sessions ∧ shanghai.date asOf ∈ sessions := by
  unfold SqliteTradingSessionAuthority.sessionState at hok
  split at hok
  · simp only [pure_ok, reduceCtorEq] at hok
  · simp only [bind_ok, need_ok, pure_ok] at hok
    obtain ⟨sessions, hsessions, hstate⟩ := hok
    split at hstate
    · next h => exact ⟨sessions, hsessions, h⟩
    · split at hstate <;> cases hstate

theorem stored_closed_iff {authority : SqliteTradingSessionAuthority} :
    authority.sessionState asOf = .ok .closed ↔
      5 ≤ weekday (shanghai.date asOf) ∨ ∃ sessions, authority.tradingSessions = some sessions ∧
        shanghai.date asOf ∉ sessions ∧ ∃ later ∈ sessions, shanghai.date asOf < later := by
  unfold SqliteTradingSessionAuthority.sessionState
  split
  · next h => simp only [pure_ok, h, true_or]
  · next h =>
      simp only [bind_ok, need_ok, pure_ok, h, false_or]
      refine exists_congr fun sessions => and_congr_right fun _ => ?_
      split
      · next hin => simp [hin]
      · next hout =>
          split
          · next hlater => exact iff_of_true rfl ⟨hout, hlater⟩
          · next hnone => exact iff_of_false (fun h => by cases h) fun h => hnone h.2

end Table

/-! ## With the probe -/

section Hybrid

variable {cal : TradingCalendar} {authority : HybridTradingSessionAuthority} {asOf : Instant}

def Stale (cal : TradingCalendar) (authority : HybridTradingSessionAuthority) (asOf : Instant) :
    Prop :=
  5 ≤ weekday (cutoff asOf) ∧ ∃ sessions,
    authority.completedSessions.tradingSessions = some sessions ∧ sessions ≠ [] ∧
      ∃ missed, cal.session missed ∧ missed ≤ cutoff asOf ∧ ∀ day ∈ sessions, day < missed

def Early (cal : TradingCalendar) (authority : HybridTradingSessionAuthority) (asOf : Instant) :
    Prop :=
  cal.session (shanghai.date asOf) ∧ ∃ sessions,
    authority.completedSessions.tradingSessions = some sessions ∧ sessions ≠ [] ∧
      ∀ day ∈ sessions, shanghai.date asOf < day

structure Right (cal : TradingCalendar) (authority : HybridTradingSessionAuthority)
    (asOf : Instant) : Prop where
  latest : ∀ day, authority.latestCompletedSession asOf = .ok day → IsLatest cal asOf day
  opened : authority.sessionState asOf = .ok .opened → cal.session (shanghai.date asOf)
  closed : authority.sessionState asOf = .ok .closed → ¬ cal.session (shanghai.date asOf)
  sealed : ∀ (provider : IntradayProvider) (expected : List String) (pages : List CapturedPage)
    (rows : List QuoteRow), provider.sessionAuthority = some authority.asAuthority →
    provider.fetch expected asOf pages = .ok rows → ¬ Trading cal asOf →
    ∀ row ∈ rows, ∀ day, row.sessionDate = some day → IsLatest cal asOf day

theorem hybrid_latest_ok {day : Date} (hok : authority.latestCompletedSession asOf = .ok day) :
    authority.completedSessions.latestCompletedSession asOf = .ok day ∨
      authority.currentSession asOf = .completed ∧ day = shanghai.date asOf := by
  unfold HybridTradingSessionAuthority.latestCompletedSession at hok
  split at hok
  · next d h =>
      cases hok
      exact .inl h
  · split at hok
    · next h =>
        cases hok
        exact .inr ⟨h, rfl⟩
    · cases hok

theorem hybrid_state_ok {state : SessionState} (hok : authority.sessionState asOf = .ok state) :
    authority.completedSessions.sessionState asOf = .ok state ∨
      state = (authority.currentSession asOf).state := by
  unfold HybridTradingSessionAuthority.sessionState at hok
  simp only [bind_ok, pure_ok] at hok
  obtain ⟨persisted, hpersisted, hstate⟩ := hok
  split at hstate
  · exact .inl (hstate ▸ hpersisted)
  · exact .inr hstate.symm

theorem hybrid_closed (hstored : authority.completedSessions.sessionState asOf = .ok .closed) :
    authority.sessionState asOf = .ok .closed := by
  unfold HybridTradingSessionAuthority.sessionState
  simp only [bind_ok, pure_ok]
  exact ⟨.closed, hstored, if_pos nofun⟩

theorem latest_of_not_stale (htrue : Truthful cal authority) (hfresh : ¬ Stale cal authority asOf)
    {day : Date} (hok : authority.latestCompletedSession asOf = .ok day) :
    IsLatest cal asOf day := by
  rcases hybrid_latest_ok hok with hstored | ⟨hprobe, rfl⟩
  · obtain ⟨sessions, hsessions, hproved, hmem, hle, hall⟩ := stored_latest_ok.mp hstored
    refine (htrue.table sessions hsessions).isLatest hmem hle hall ?_
    intro missed hmissed hcut
    rcases hproved with hin | hweekend | ⟨later, hin, hlt⟩
    · exact ⟨_, hin, hcut⟩
    · by_contra hnone
      push Not at hnone
      exact hfresh ⟨hweekend, sessions, hsessions, List.ne_nil_of_mem hmem,
        missed, hmissed, hcut, hnone⟩
    · exact ⟨later, hin, hcut.trans hlt.le⟩
  · have hclosed := htrue.completed asOf hprobe
    refine isLatest_iff.mpr ⟨hclosed.1, (combine_closeAt_le _ _).mp hclosed.2, ?_⟩
    intro other _ hcut
    exact hcut.trans (cutoff_le asOf)

theorem Stale.wrong (hstale : Stale cal authority asOf) :
    ∃ day, authority.latestCompletedSession asOf = .ok day ∧ ¬ IsLatest cal asOf day := by
  obtain ⟨hweekend, sessions, hsessions, hne, missed, hmissed, hcut, hbefore⟩ := hstale
  obtain ⟨day, hmax⟩ := Option.isSome_iff_exists.mp (List.isSome_max?_of_ne_nil hne)
  have hmem := List.max?_mem hmax
  have hstored : authority.completedSessions.latestCompletedSession asOf = .ok day := by
    refine stored_latest_ok.mpr ⟨sessions, hsessions, .inr (.inl hweekend), hmem,
      ((hbefore day hmem).trans_le hcut).le, ?_⟩
    intro other hother _
    exact (List.max?_le_iff hmax).mp le_rfl other hother
  refine ⟨day, ?_, ?_⟩
  · unfold HybridTradingSessionAuthority.latestCompletedSession
    rw [hstored]
  · intro hlatest
    have hle := (isLatest_iff.mp hlatest).2.2 missed hmissed hcut
    exact absurd (hbefore day hmem) (not_lt.mpr hle)

theorem opened_session (htrue : Truthful cal authority)
    (hok : authority.sessionState asOf = .ok .opened) : cal.session (shanghai.date asOf) := by
  rcases hybrid_state_ok hok with hstored | hprobe
  · obtain ⟨sessions, hsessions, hmem⟩ := stored_opened hstored
    exact (htrue.table sessions hsessions).true_ _ hmem
  · refine htrue.opened asOf ?_
    cases hcurrent : authority.currentSession asOf with
    | opened => rfl
    | completed =>
        rw [hcurrent] at hprobe
        cases hprobe
    | unknown =>
        rw [hcurrent] at hprobe
        cases hprobe

theorem closed_of_not_early (htrue : Truthful cal authority) (hlate : ¬ Early cal authority asOf)
    (hok : authority.sessionState asOf = .ok .closed) : ¬ cal.session (shanghai.date asOf) := by
  intro hsession
  rcases hybrid_state_ok hok with hstored | hprobe
  · rcases stored_closed_iff.mp hstored with hweekend | ⟨sessions, hsessions, hout, later, hin, hlt⟩
    · exact absurd (cal.weekdays _ hsession) (not_lt.mpr hweekend)
    · refine hlate ⟨hsession, sessions, hsessions, List.ne_nil_of_mem hin, ?_⟩
      intro day hday
      by_contra hle
      push Not at hle
      exact hout ((htrue.table sessions hsessions).between hsession ⟨day, hday, hle⟩
        ⟨later, hin, hlt.le⟩)
  · cases hcurrent : authority.currentSession asOf <;> rw [hcurrent] at hprobe <;> cases hprobe

theorem Early.wrong (hearly : Early cal authority asOf) :
    authority.sessionState asOf = .ok .closed := by
  obtain ⟨-, sessions, hsessions, hne, hafter⟩ := hearly
  obtain ⟨later, hlater⟩ := List.exists_mem_of_ne_nil sessions hne
  refine hybrid_closed (stored_closed_iff.mpr (.inr ⟨sessions, hsessions, ?_, later, hlater,
    hafter later hlater⟩))
  intro hmem
  exact absurd (hafter _ hmem) (lt_irrefl _)

/-! ## Captures -/

variable {provider : IntradayProvider}

theorem validate_ok {boundary observedAt : Instant}
    {rows : List QuoteRow} {sessions : TradingSessionAuthority} {u : Unit}
    (hauthority : provider.sessionAuthority = some sessions)
    (hok : validateSessionFreshness provider boundary observedAt rows = .ok u) :
    sessions.sessionState boundary = .ok .opened ∧ sessionHours (shanghai.time boundary) = true ∨
      ∃ day, sessions.latestCompletedSession boundary = .ok day ∧
        ∀ row ∈ rows, ∀ other, row.sessionDate = some other → other = day := by
  unfold validateSessionFreshness at hok
  simp only [hauthority, bind_ok] at hok
  obtain ⟨running, hrunning, hok⟩ := hok
  split at hok
  · next h =>
      left
      subst h
      simp only [inSession, bind_ok, refuse_ok, pure_ok] at hrunning
      obtain ⟨state, hstate, -, -, hboth⟩ := hrunning
      rw [Bool.and_eq_true, decide_eq_true_eq] at hboth
      exact ⟨hboth.2 ▸ hstate, hboth.1⟩
  · right
    split at hok
    · next sessionDate hdates =>
        simp only [bind_ok, refuse_ok] at hok
        obtain ⟨day, hday, hmatch⟩ := hok
        push Not at hmatch
        refine ⟨day, hday, ?_⟩
        intro row hrow other hother
        have hmem : other ∈ (rows.filterMap QuoteRow.sessionDate).dedup :=
          List.mem_dedup.mpr (List.mem_filterMap.mpr ⟨row, hrow, hother⟩)
        rw [hdates, List.mem_singleton] at hmem
        exact hmem.trans hmatch.1
    · cases hok

theorem fetch_ok {expected : List String} {boundary : Instant}
    {pages : List CapturedPage} {rows : List QuoteRow}
    (hok : provider.fetch expected boundary pages = .ok rows) :
    ∃ observedAt, validateSessionFreshness provider boundary observedAt rows = .ok () := by
  unfold IntradayProvider.fetch at hok
  simp only [bind_ok, need_ok, pure_ok] at hok
  obtain ⟨attached, -, observedAt, -, _, hvalid, rfl⟩ := hok
  exact ⟨observedAt, hvalid⟩

/-- The authority is right at an instant exactly when no weekend cutoff meets a table that
ends too soon, and no table starts after a session of today. -/
theorem right_iff (htrue : Truthful cal authority) :
    Right cal authority asOf ↔ ¬ Stale cal authority asOf ∧ ¬ Early cal authority asOf := by
  constructor
  · intro hright
    constructor
    · intro hstale
      obtain ⟨day, hok, hwrong⟩ := hstale.wrong
      exact hwrong (hright.latest day hok)
    · intro hearly
      exact hright.closed hearly.wrong hearly.1
  · intro ⟨hfresh, hlate⟩
    refine ⟨fun day => latest_of_not_stale htrue hfresh, opened_session htrue,
      closed_of_not_early htrue hlate, ?_⟩
    intro provider expected pages rows hauthority hok hidle row hrow day hday
    obtain ⟨observedAt, hvalid⟩ := fetch_ok hok
    rcases validate_ok hauthority hvalid with ⟨hopened, hhours⟩ | ⟨latest, hlatest, hdates⟩
    · exact absurd ⟨opened_session htrue hopened, hhours⟩ hidle
    · rw [hdates row hrow day hday]
      exact latest_of_not_stale htrue hfresh hlatest

end Hybrid

/-! ## The week of 2026-01-05 -/

def everyWeekday : TradingCalendar := ⟨fun day => weekday day < 5, fun _ h => h⟩

def week : List Date := [20458, 20459, 20460, 20461, 20462]

def weekUpTo (last : Date) : HybridTradingSessionAuthority :=
  ⟨⟨some (week.filter fun day => decide (day ≤ last))⟩, fun _ => .unknown⟩

def sundayNoon : Instant := shanghai.combine 20464 43200000000

theorem mem_week (day : ℤ) : day ∈ week ↔ 20458 ≤ day ∧ day ≤ 20462 := by
  rw [week, List.mem_cons, List.mem_cons, List.mem_cons, List.mem_cons, List.mem_singleton]
  show ((day = (20458 : ℤ)) ∨ day = (20459 : ℤ) ∨ day = (20460 : ℤ) ∨ day = (20461 : ℤ) ∨
    day = (20462 : ℤ)) ↔ _
  omega

theorem week_session (day : ℤ) (hfrom : 20458 ≤ day) (hto : day ≤ 20462) : (day + 3) % 7 < 5 := by
  omega

theorem no_session_on_saturday (day : ℤ) (hsession : (day + 3) % 7 < 5) (hfrom : 20462 < day) :
    20463 < day := by
  omega

theorem weekUpTo_truthful (last : Date) : Truthful everyWeekday (weekUpTo last) := by
  refine ⟨?_, nofun, nofun⟩
  intro sessions hsessions
  cases hsessions
  have hmem : ∀ day : Date, day ∈ week.filter (fun day => decide (day ≤ last)) ↔
      (20458 ≤ day ∧ day ≤ 20462) ∧ day ≤ last := by
    intro day
    rw [List.mem_filter, decide_eq_true_eq]
    exact and_congr_left fun _ => mem_week day
  constructor
  · intro day hday
    have hrange := ((hmem day).mp hday).1
    exact week_session day hrange.1 hrange.2
  · intro first hfirst later hlater day _ hle hge
    have hfrom := ((hmem first).mp hfirst).1.1
    have hto := (hmem later).mp hlater
    exact (hmem day).mpr ⟨⟨hfrom.trans hle, hge.trans hto.1.2⟩, hge.trans hto.2⟩

/-- With the week stored to its end, Sunday is answered. -/
theorem full_week_right : Right everyWeekday (weekUpTo 20462) sundayNoon := by
  refine (right_iff (weekUpTo_truthful 20462)).mpr ⟨?_, ?_⟩
  · intro ⟨_, sessions, hsessions, _, missed, hmissed, hcut, hafter⟩
    cases hsessions
    have hfriday := hafter 20462 (by decide)
    have hsaturday : cutoff sundayNoon = 20463 := by decide
    rw [hsaturday] at hcut
    exact absurd hcut (not_le.mpr (no_session_on_saturday missed hmissed hfriday))
  · intro ⟨hsession, _⟩
    have hsunday : weekday (shanghai.date sundayNoon) = 6 := by decide
    have hweekday : weekday (shanghai.date sundayNoon) < 5 := hsession
    rw [hsunday] at hweekday
    exact absurd hweekday (by decide)

/-- A table that ends on Wednesday answers Sunday with Wednesday, past two sessions. -/
theorem short_week_wrong :
    ¬ ∀ (cal : TradingCalendar) (authority : HybridTradingSessionAuthority) (asOf : Instant),
      Truthful cal authority → Right cal authority asOf := by
  intro hall
  have hright := hall everyWeekday (weekUpTo 20460) sundayNoon (weekUpTo_truthful 20460)
  have hanswer : (weekUpTo 20460).latestCompletedSession sundayNoon = .ok 20460 := by rfl
  have hlatest := isLatest_iff.mp (hright.latest 20460 hanswer)
  have hfriday := hlatest.2.2 20462 (week_session 20462 (by decide) (by decide)) (by decide)
  exact absurd hfriday (by decide)

end Ahunter.Market
