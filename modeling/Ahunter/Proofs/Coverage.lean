import Ahunter.Market.Engine
import Ahunter.Proofs.MarketFacts
import Ahunter.Proofs.MarketWindows

/-!
# What stays covered

Facts are only added: a date with a bar, an absence or a factor keeps it, and
every bar that an engine adds comes with its factor. So a window that is
covered, bar by bar with a factor, stays covered. Readiness is that and
nothing else.
-/

namespace Ahunter.Market

open Ahunter.Lib
open Ahunter.Sim (Date Stamp)

/-! ## Rows under their own keys -/

/-- Every bar stands under its own code and date. -/
def Facts.Keyed (facts : Facts) : Prop :=
  ∀ k bar, facts.bars.get? k = some bar → bar.content.key = k

theorem Facts.Keyed.empty : Facts.Keyed Facts.empty := fun _ _ h => by cases h

theorem Facts.Keyed.set {facts : Facts} (h : facts.Keyed) (bar : Fetched CanonicalDailyBar)
    {k : FactKey} {b : Fetched CanonicalDailyBar}
    (hget : (facts.bars.set bar.content.key bar).get? k = some b) : b.content.key = k := by
  rw [Dict.get?_set] at hget
  split at hget
  · next hk =>
      cases hget
      exact hk.symm
  · exact h k b hget

theorem insertBar_keyed (bar : Fetched CanonicalDailyBar) {facts : Facts} (h : facts.Keyed) :
    (insertBar bar facts).2.Keyed := by
  intro k b hget
  rw [insertBar, insertRow] at hget
  cases hold : facts.bars.get? bar.content.key with
  | some old =>
      simp only [hold] at hget
      exact h k b hget
  | none =>
      simp only [hold] at hget
      exact h.set bar hget

theorem eachFact_keyed {α : Type} {f : α → Facts → Outcome × Facts}
    (h : ∀ a facts, facts.Keyed → (f a facts).2.Keyed) (l : List α) {facts : Facts}
    (hk : facts.Keyed) : (eachFact f l facts).2.Keyed := by
  induction l generalizing facts with
  | nil => exact hk
  | cons a l ih => exact ih (h a facts hk)

theorem commit_keyed {bars : List (Fetched CanonicalDailyBar)}
    {factors : List (Fetched AdjustmentFactor)} {absences : List (Fetched MarketAbsence)}
    {facts : Facts} {r : SecurityCommitResult × Facts}
    (h : commitSecurityObservations bars factors absences facts = .ok r) (hk : facts.Keyed) :
    r.2.Keyed := by
  obtain ⟨-, hfacts⟩ := commit_ok h
  rw [hfacts]
  have hbars := eachFact_keyed (fun bar _ => insertBar_keyed bar) bars hk
  have habsences := eachFact_keyed (f := recordAbsence) (fun _ _ hf => hf) absences hbars
  exact eachFact_keyed (f := upsertFactor) (fun _ _ hf => hf) factors habsences

theorem FactCall.after_keyed {facts : Facts} (hk : facts.Keyed) (call : FactCall) :
    (call.after facts).Keyed := by
  cases call with
  | insertBar bar => exact insertBar_keyed bar hk
  | recordAbsence absence => exact hk
  | upsertFactor factor => exact hk
  | commitSecurityObservations bars factors absences =>
      rw [FactCall.after]
      split
      · next r hr => exact commit_keyed hr hk
      · exact hk
  | repairBar bar reason =>
      rw [FactCall.after]
      split
      · next r hr =>
          simp only [Market.repairBar, bind_ok, need_ok] at hr
          obtain ⟨-, -, old, -, hr⟩ := hr
          split at hr
          · cases pure_ok.mp hr
            exact hk
          · cases pure_ok.mp hr
            exact fun k b hget => hk.set bar hget
      · exact hk

/-! ## Queries -/

section Queries

variable {code : String} {start finish day : Date} {facts : Facts}

theorem mem_rowsBetween {α : Type} {d : Dict FactKey α} {a : α} :
    (day, a) ∈ rowsBetween d code start finish ↔
      d.get? (factKey code day) = some a ∧ start ≤ day ∧ day ≤ finish := by
  rw [rowsBetween, List.mem_filterMap]
  constructor
  · rintro ⟨⟨k, b⟩, hmem, hsome⟩
    rw [Option.ite_none_right_eq_some] at hsome
    obtain ⟨⟨hcode, hstart, hfinish⟩, hpair⟩ := hsome
    cases hpair
    have hk : factKey code (ofLex k).2 = k := by rw [factKey, ← hcode]; rfl
    exact ⟨by rw [hk]; exact Dict.mem_entries.mp hmem, hstart, hfinish⟩
  · rintro ⟨hget, hstart, hfinish⟩
    exact ⟨(factKey code day, a), Dict.mem_entries.mpr hget, if_pos ⟨rfl, hstart, hfinish⟩⟩

theorem mem_days {α : Type} {d : Dict FactKey α} :
    day ∈ (rowsBetween d code start finish).map Prod.fst ↔
      d.contains (factKey code day) = true ∧ start ≤ day ∧ day ≤ finish := by
  rw [List.mem_map, Dict.contains_iff]
  constructor
  · rintro ⟨⟨_, a⟩, hmem, rfl⟩
    obtain ⟨hget, hin⟩ := mem_rowsBetween.mp hmem
    exact ⟨⟨a, hget⟩, hin⟩
  · rintro ⟨⟨a, hget⟩, hin⟩
    exact ⟨(day, a), mem_rowsBetween.mpr ⟨hget, hin⟩, rfl⟩

def Facts.Covered (facts : Facts) (code : String) (day : Date) : Prop :=
  facts.bars.contains (factKey code day) = true ∨
    facts.absences.contains (factKey code day) = true

theorem mem_coveredDates : day ∈ coveredDates code start finish facts ↔
    facts.Covered code day ∧ start ≤ day ∧ day ≤ finish := by
  rw [coveredDates, List.mem_append, mem_days, mem_days, Facts.Covered, or_and_right]

theorem mem_factorDates : day ∈ factorDates code start finish facts ↔
    facts.factors.contains (factKey code day) = true ∧ start ≤ day ∧ day ≤ finish := mem_days

theorem mem_barDates (hk : facts.Keyed) :
    day ∈ (barsFor code start finish facts).map (fun b => b.content.tradeDate) ↔
      facts.bars.contains (factKey code day) = true ∧ start ≤ day ∧ day ≤ finish := by
  rw [← mem_days, barsFor, List.map_map, List.mem_map, List.mem_map]
  -- A row's date is that of its bar.
  have hday : ∀ e ∈ rowsBetween facts.bars code start finish, e.2.content.tradeDate = e.1 := by
    rintro ⟨d, bar⟩ hmem
    have hkey := hk _ bar (mem_rowsBetween.mp hmem).1
    exact congrArg (fun k : FactKey => (ofLex k).2) hkey
  constructor
  · rintro ⟨e, he, rfl⟩
    exact ⟨e, he, (hday e he).symm⟩
  · rintro ⟨e, he, rfl⟩
    exact ⟨e, he, hday e he⟩

end Queries

/-! ## Growing -/

variable {facts' : Facts}

structure Grown (facts facts' : Facts) : Prop where
  bars : ∀ k, facts.bars.contains k = true → facts'.bars.contains k = true
  absences : ∀ k, facts.absences.contains k = true → facts'.absences.contains k = true
  factors : ∀ k, facts.factors.contains k = true → facts'.factors.contains k = true
  fresh : ∀ k, facts'.bars.contains k = true →
    facts.bars.contains k = true ∨ facts'.factors.contains k = true

theorem Grown.refl (facts : Facts) : Grown facts facts :=
  ⟨fun _ h => h, fun _ h => h, fun _ h => h, fun _ h => Or.inl h⟩

theorem Grown.trans {s t u : Facts} (h : Grown s t) (h' : Grown t u) : Grown s u where
  bars k hk := h'.bars k (h.bars k hk)
  absences k hk := h'.absences k (h.absences k hk)
  factors k hk := h'.factors k (h.factors k hk)
  fresh k hk := by
    rcases h'.fresh k hk with hbar | hfactor
    · rcases h.fresh k hbar with hbar | hfactor
      · exact Or.inl hbar
      · exact Or.inr (h'.factors k hfactor)
    · exact Or.inr hfactor

theorem Wrote.grown {facts : Facts} {bs as fs : List FactKey} (h : Wrote facts facts' bs as fs)
    (hbs : ∀ k ∈ bs, k ∈ fs) : Grown facts facts' where
  bars k hk := (h.bars k).mpr (Or.inl hk)
  absences k hk := (h.absences k).mpr (Or.inl hk)
  factors k hk := (h.factors k).mpr (Or.inl hk)
  fresh k hk := by
    rcases (h.bars k).mp hk with hold | hnew
    · exact Or.inl hold
    · exact Or.inr ((h.factors k).mpr (Or.inr (hbs k hnew)))

theorem Grown.covered {facts : Facts} (h : Grown facts facts') {code : String} {day : Date}
    (hc : facts.Covered code day) : facts'.Covered code day :=
  hc.imp (h.bars _) (h.absences _)

/-! ## Windows that are backed -/

structure Backed (code : String) (expected : List Date) (first last : Date) (facts : Facts) :
    Prop where
  covered : ∀ day ∈ expected, facts.Covered code day
  factored : ∀ day, first ≤ day → day ≤ last →
    facts.bars.contains (factKey code day) = true →
      facts.factors.contains (factKey code day) = true

theorem Backed.grown {code : String} {expected : List Date} {first last : Date} {facts : Facts}
    (h : Backed code expected first last facts) (hg : Grown facts facts') :
    Backed code expected first last facts' where
  covered day hday := hg.covered (h.covered day hday)
  factored day hfirst hlast hbar := by
    rcases hg.fresh _ hbar with hold | hfactor
    · exact hg.factors _ (h.factored day hfirst hlast hold)
    · exact hfactor

theorem coverage_ready_iff {code : String} {expected : List Date} {first last : Date}
    {facts : Facts} (hk : facts.Keyed) :
    (coverage code expected first last facts).ready = true ↔
      Backed code expected first last facts ∧ ∀ day ∈ expected, first ≤ day ∧ day ≤ last := by
  show (List.isEmpty _ && List.isEmpty _) = true ↔ _
  rw [Bool.and_eq_true, List.isEmpty_iff, List.isEmpty_iff, List.filter_eq_nil_iff,
    List.filter_eq_nil_iff]
  simp only [decide_eq_true_eq, not_not, mem_coveredDates, mem_barDates hk, mem_factorDates]
  constructor
  · rintro ⟨hcovered, hfactored⟩
    refine ⟨⟨fun day hday => (hcovered day hday).1, fun day hfirst hlast hbar => ?_⟩,
      fun day hday => (hcovered day hday).2⟩
    exact (hfactored day ⟨hbar, hfirst, hlast⟩).1
  · rintro ⟨hbacked, hin⟩
    refine ⟨fun day hday => ⟨hbacked.covered day hday, hin day hday⟩, ?_⟩
    rintro day ⟨hbar, hfirst, hlast⟩
    exact ⟨hbacked.factored day hfirst hlast hbar, hfirst, hlast⟩

/-! ## Expected sessions -/

variable {security : RunSecurity} {finish : Date}

theorem mem_expectedSessions {sessions : List Date} {start day : Date} :
    day ∈ expectedSessions security sessions start finish ↔
      day ∈ sessions ∧ (start ≤ day ∧ security.listDate ≤ day) ∧ day ≤ security.lastDay finish := by
  rw [expectedSessions, List.mem_filter, decide_eq_true_eq, max_le_iff]

theorem lastDay_le : security.lastDay finish ≤ finish := by
  rw [RunSecurity.lastDay]
  split
  · exact min_le_left _ _
  · exact le_rfl

theorem ends_of_mem {α : Type} {l : List α} {a : α} (ha : a ∈ l) :
    ∃ first last, l.head? = some first ∧ l.getLast? = some last := by
  have hne := List.ne_nil_of_mem ha
  exact ⟨l.head hne, l.getLast hne, List.head?_eq_some_head hne, List.getLast?_eq_some_getLast hne⟩

theorem head?_le {l : List Date} (hl : l.Pairwise (· < ·)) {first day : Date}
    (hfirst : l.head? = some first) (hday : day ∈ l) : first ≤ day := by
  cases l with
  | nil => cases hday
  | cons x l =>
      cases hfirst
      rcases List.mem_cons.mp hday with rfl | hday
      · exact le_rfl
      · exact ((List.pairwise_cons.mp hl).1 day hday).le

theorem le_getLast? {l : List Date} (hl : l.Pairwise (· < ·)) {last day : Date}
    (hlast : l.getLast? = some last) (hday : day ∈ l) : day ≤ last := by
  obtain ⟨l', rfl⟩ := List.getLast?_eq_some_iff.mp hlast
  rcases List.mem_append.mp hday with hday | hday
  · exact ((List.pairwise_append.mp hl).2.2 day hday last List.mem_cons_self).le
  · rw [List.mem_singleton.mp hday]

theorem ready_of_backed {sessions known : List Date} {start : Date} {facts : Facts}
    (hk : facts.Keyed) (hne : sessions ≠ []) (hsorted : sessions.Pairwise (· < ·))
    (hknown : ∀ day ∈ sessions, start ≤ day → day ≤ finish → day ∈ known)
    (hsortedKnown : known.Pairwise (· < ·))
    (h : ∀ first last, (expectedSessions security known start finish).head? = some first →
      (expectedSessions security known start finish).getLast? = some last →
      Backed security.code (expectedSessions security known start finish) first last facts) :
    (securityReadiness security sessions start finish facts).ready = true := by
  have hsub : ∀ day ∈ expectedSessions security sessions start finish,
      day ∈ expectedSessions security known start finish := by
    intro day hday
    obtain ⟨hmem, ⟨hstart, hlist⟩, hlast⟩ := mem_expectedSessions.mp hday
    exact mem_expectedSessions.mpr
      ⟨hknown day hmem hstart (hlast.trans lastDay_le), ⟨hstart, hlist⟩, hlast⟩
  have hexpected : (expectedSessions security sessions start finish).Pairwise (· < ·) :=
    hsorted.filter _
  have hexpectedKnown : (expectedSessions security known start finish).Pairwise (· < ·) :=
    hsortedKnown.filter _
  rw [securityReadiness, if_neg hne]
  dsimp only
  split
  · next first last hfirst hlast =>
      have hfirstKnown := hsub first (List.mem_of_head? hfirst)
      have hlastKnown := hsub last (List.mem_of_getLast? hlast)
      -- The engine's own first and last expected sessions lie further out.
      obtain ⟨a, b, ha, hb⟩ := ends_of_mem hfirstKnown
      have hbacked := h a b ha hb
      refine (coverage_ready_iff hk).mpr ⟨⟨fun day hday => hbacked.covered day (hsub day hday),
        fun day hge hle => hbacked.factored day ?_ ?_⟩, fun day hday =>
          ⟨head?_le hexpected hfirst hday, le_getLast? hexpected hlast hday⟩⟩
      · exact (head?_le hexpectedKnown ha hfirstKnown).trans hge
      · exact hle.trans (le_getLast? hexpectedKnown hb hlastKnown)
  · rfl

theorem securityReadiness_grown {sessions : List Date} {start : Date} {facts : Facts}
    (hk : facts.Keyed) (hk' : facts'.Keyed) (hgrown : Grown facts facts')
    (h : (securityReadiness security sessions start finish facts).ready = true) :
    (securityReadiness security sessions start finish facts').ready = true := by
  rw [securityReadiness] at h ⊢
  split
  · next hnil =>
      rw [if_pos hnil] at h
      cases h
  · next hne =>
      rw [if_neg hne] at h
      dsimp only at h ⊢
      split
      · next first last hfirst hlast =>
          simp only [hfirst, hlast] at h
          obtain ⟨hbacked, hin⟩ := (coverage_ready_iff hk).mp h
          exact (coverage_ready_iff hk').mpr ⟨hbacked.grown hgrown, hin⟩
      · rfl

end Ahunter.Market
