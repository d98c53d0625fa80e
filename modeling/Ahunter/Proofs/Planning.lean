import Ahunter.Market.CatchUp
import Ahunter.Proofs.Coverage

/-!
# What a plan leaves out

A plan has a range for every security of which a session is missing, from the
first missing session to the last. So where there is no plan nothing is
missing, and what is missing of a security lies in its range.
-/

namespace Ahunter.Market

open Ahunter.Lib
open Ahunter.Sim (Date Stamp)

/-! ## The first of some entries -/

theorem firstBy_mem {α κ : Type} [LinearOrder κ] {key : α → κ} {l : List α} {a : α}
    (h : firstBy key l = some a) : a ∈ l := by
  have hfold : ∀ (l : List α) (best : Option α), l.foldl (earlier key) best = some a →
      best = some a ∨ a ∈ l := by
    intro l
    induction l with
    | nil => exact fun best h => Or.inl h
    | cons x l ih =>
        intro best h
        rcases ih _ h with hbest | hmem
        · rw [earlier] at hbest
          split at hbest
          · cases hbest
            exact Or.inr List.mem_cons_self
          · exact Or.inl hbest
        · exact Or.inr (List.mem_cons_of_mem x hmem)
  rcases hfold l none h with hnone | hmem
  · cases hnone
  · exact hmem

/-! ## Stored sessions -/

theorem mem_sessionsFor {start finish : Date} {t : Sessions} {days : List Date}
    (h : sessionsFor start finish t = .ok days) {day : Date} :
    day ∈ days ↔ t.contains day = true ∧ start ≤ day ∧ day ≤ finish := by
  simp only [sessionsFor, bind_ok, pure_ok] at h
  obtain ⟨_, _, rfl⟩ := h
  rw [List.mem_filter, decide_eq_true_eq, Dict.mem_keys, Dict.contains_iff]

theorem sessionsFor_sorted {start finish : Date} {t : Sessions} {days : List Date}
    (h : sessionsFor start finish t = .ok days) : days.Pairwise (· < ·) := by
  simp only [sessionsFor, bind_ok, pure_ok] at h
  obtain ⟨_, _, rfl⟩ := h
  exact t.keys_sorted.filter _

/-! ## Missing sessions -/

section Missing

variable {security : RunSecurity} {sessions : List Date} {facts : Facts} {day : Date}

theorem mem_sessionsIn : day ∈ security.sessionsIn sessions ↔
    day ∈ sessions ∧ security.listDate ≤ day ∧
      ∀ last ∈ security.delistDate <|> sessions.getLast?, day ≤ last := by
  rw [RunSecurity.sessionsIn, List.mem_filter, decide_eq_true_eq]

theorem mem_missingSessions (hsorted : sessions.Pairwise (· < ·)) :
    day ∈ missingSessions sessions facts security ↔
      day ∈ security.sessionsIn sessions ∧ ¬ facts.Covered security.code day := by
  have hexpected : (security.sessionsIn sessions).Pairwise (· < ·) := hsorted.filter _
  rw [missingSessions]
  split
  · next first last hfirst hlast =>
      rw [List.mem_filter, decide_eq_true_eq, mem_coveredDates]
      refine and_congr_right fun hday => not_congr ?_
      have hge := head?_le hexpected hfirst hday
      have hle := le_getLast? hexpected hlast hday
      exact ⟨fun h => h.1, fun h => ⟨h, hge, hle⟩⟩
  · next hnone =>
      constructor
      · intro h
        cases h
      · rintro ⟨hday, -⟩
        obtain ⟨first, last, hfirst, hlast⟩ := ends_of_mem hday
        exact absurd hlast (hnone first last hfirst)

theorem missingSessions_sorted (hsorted : sessions.Pairwise (· < ·)) :
    (missingSessions sessions facts security).Pairwise (· < ·) := by
  rw [missingSessions]
  split
  · exact (hsorted.filter _).filter _
  · exact List.Pairwise.nil

theorem missingRange_isSome (h : day ∈ missingSessions sessions facts security) :
    ∃ range, missingRange sessions facts security = some range := by
  obtain ⟨first, last, hfirst, hlast⟩ := ends_of_mem h
  rw [missingRange, hfirst, hlast]
  exact ⟨_, rfl⟩

theorem missingRange_some (hsorted : sessions.Pairwise (· < ·)) {range : Date × Date}
    (h : missingRange sessions facts security = some range) :
    range.1 ∈ missingSessions sessions facts security ∧
      range.2 ∈ missingSessions sessions facts security ∧
        ∀ day ∈ missingSessions sessions facts security, range.1 ≤ day ∧ day ≤ range.2 := by
  rw [missingRange] at h
  split at h
  · next first last hfirst hlast =>
      cases h
      have hmissing : (missingSessions sessions facts security).Pairwise (· < ·) :=
        missingSessions_sorted hsorted
      exact ⟨List.mem_of_head? hfirst, List.mem_of_getLast? hlast, fun day hday =>
        ⟨head?_le hmissing hfirst hday, le_getLast? hmissing hlast hday⟩⟩
  · cases h

end Missing

/-! ## Plans -/

section Plans

variable {sessions : List Date} {facts : Facts} {eligible : List RunSecurity}

theorem mem_gaps {security : RunSecurity} {range : Date × Date} :
    (security, range) ∈ gaps sessions facts eligible ↔
      security ∈ eligible ∧ missingRange sessions facts security = some range := by
  rw [gaps, List.mem_filterMap]
  constructor
  · rintro ⟨s, hs, hrange⟩
    obtain ⟨r, hr, hpair⟩ := Option.map_eq_some_iff.mp hrange
    cases hpair
    exact ⟨hs, hr⟩
  · rintro ⟨hs, hrange⟩
    exact ⟨security, hs, by rw [hrange, Option.map_some]⟩

variable {digests : Digests}

theorem planFor_none {target : Date} {missing : List (RunSecurity × Date × Date)}
    (h : planFor digests target sessions missing = none) : missing = [] := by
  rw [planFor] at h
  split at h
  · next hmin =>
      rw [List.min?_eq_none_iff, List.map_eq_nil_iff] at hmin
      exact hmin
  · cases h

variable {exchanges : Attempt UniverseSnapshot}

theorem buildPlan_ok {target baseStart : Date} {t : Sessions} {plan : Option CatchUpPlan}
    (h : buildPlan digests exchanges target baseStart t facts = .ok plan) :
    ∃ sessions snapshot, sessionsFor baseStart target t = .ok sessions ∧
      sessions.getLast? = some target ∧ exchanges = .ok snapshot ∧ baseStart ≤ target ∧
        plan = planFor digests target sessions (gaps sessions facts
          (snapshot.securities.filter fun s =>
            decide (s.listDate ≤ target ∧ ∀ last ∈ s.delistDate, baseStart ≤ last))) := by
  simp only [buildPlan, UniverseSnapshot.forWindow, bind_ok, refuse_ok, pure_ok, not_not,
    not_lt] at h
  obtain ⟨sessions, hsessions, _, hlast, snapshot, hsnapshot, eligible, ⟨_, hle, rfl⟩, rfl⟩ := h
  exact ⟨sessions, snapshot, hsessions, hlast, hsnapshot, hle, rfl⟩

theorem covered_of_no_plan {target baseStart : Date} {t : Sessions}
    (h : buildPlan digests exchanges target baseStart t facts = .ok none)
    {snapshot : UniverseSnapshot} (hsnapshot : exchanges = .ok snapshot)
    {security : RunSecurity} (hsecurity : security ∈ snapshot.securities) {day : Date}
    (hstored : t.contains day = true) (hstart : baseStart ≤ day) (htarget : day ≤ target)
    (hlisted : security.listDate ≤ day) (hdelisted : ∀ last ∈ security.delistDate, day ≤ last) :
    facts.Covered security.code day := by
  obtain ⟨sessions, answered, hsessions, hlast, hanswered, _, hplan⟩ := buildPlan_ok h
  cases hanswered.symm.trans hsnapshot
  have hnone := planFor_none hplan.symm
  have hday : day ∈ sessions := (mem_sessionsFor hsessions).mpr ⟨hstored, hstart, htarget⟩
  have hexpected : day ∈ security.sessionsIn sessions := by
    refine mem_sessionsIn.mpr ⟨hday, hlisted, fun last hmem => ?_⟩
    cases hd : security.delistDate with
    | some d =>
        rw [hd] at hmem
        cases hmem
        exact hdelisted last hd
    | none =>
        rw [hd, hlast] at hmem
        cases hmem
        exact htarget
  by_contra hopen
  have hmissing := (mem_missingSessions (sessionsFor_sorted hsessions)).mpr ⟨hexpected, hopen⟩
  obtain ⟨range, hrange⟩ := missingRange_isSome hmissing
  have hgap : (security, range) ∈ gaps sessions facts (snapshot.securities.filter fun s =>
      decide (s.listDate ≤ target ∧ ∀ last ∈ s.delistDate, baseStart ≤ last)) := by
    refine mem_gaps.mpr ⟨List.mem_filter.mpr ⟨hsecurity, decide_eq_true ?_⟩, hrange⟩
    exact ⟨hlisted.trans htarget, fun last hmem => hstart.trans (hdelisted last hmem)⟩
  rw [hnone] at hgap
  cases hgap

end Plans

end Ahunter.Market
