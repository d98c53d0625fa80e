import Ahunter.Market.Repository

/-!
# Bars and absences of one date

A date on which a security traded is not one on which it was suspended. A
batch is checked for that within itself, but no operation looks whether the
other table already has the date: what keeps the tables apart is that each
call is apart from what was stored before it.
-/

namespace Ahunter.Market

open Ahunter.Lib

/-! ## What an operation stores -/

structure Wrote (facts facts' : Facts) (bars absences factors : List FactKey) : Prop where
  bars : ∀ k, facts'.bars.contains k = true ↔ facts.bars.contains k = true ∨ k ∈ bars
  absences : ∀ k, facts'.absences.contains k = true ↔
    facts.absences.contains k = true ∨ k ∈ absences
  factors : ∀ k, facts'.factors.contains k = true ↔
    facts.factors.contains k = true ∨ k ∈ factors

theorem Wrote.refl (facts : Facts) : Wrote facts facts [] [] [] :=
  ⟨by simp, by simp, by simp⟩

theorem Wrote.trans {s t u : Facts} {bs bs' as as' fs fs' : List FactKey}
    (h : Wrote s t bs as fs) (h' : Wrote t u bs' as' fs') :
    Wrote s u (bs ++ bs') (as ++ as') (fs ++ fs') where
  bars k := by rw [h'.bars, h.bars, List.mem_append, or_assoc]
  absences k := by rw [h'.absences, h.absences, List.mem_append, or_assoc]
  factors k := by rw [h'.factors, h.factors, List.mem_append, or_assoc]

section Rows

variable {α : Type} {d : Dict FactKey (Fetched α)} {k : FactKey} {fact : Fetched α} {j : FactKey}

theorem contains_set : (d.set k fact).contains j = true ↔ d.contains j = true ∨ j = k := by
  rw [Dict.contains, Dict.get?_set]
  by_cases h : j = k
  · simp [h]
  · simp [h, Dict.contains]

theorem contains_of_get? (h : d.get? k = some fact) : d.contains k = true := by
  rw [Dict.contains, h, Option.isSome_some]

theorem contains_again (h : d.contains k = true) :
    d.contains j = true ↔ d.contains j = true ∨ j = k :=
  ⟨Or.inl, fun hj => hj.elim id fun heq => heq ▸ h⟩

theorem insertRow_contains [DecidableEq α] :
    (insertRow k fact d).2.contains j = true ↔ d.contains j = true ∨ j = k := by
  rw [insertRow]
  split
  · next old hold => exact contains_again (contains_of_get? hold)
  · exact contains_set

theorem upsertRow_contains [DecidableEq α] :
    (upsertRow k fact d).2.contains j = true ↔ d.contains j = true ∨ j = k := by
  rw [upsertRow]
  split
  · next old hold =>
      split
      · exact contains_again (contains_of_get? hold)
      · exact contains_set
  · exact contains_set

end Rows

theorem insertBar_wrote (bar : Fetched CanonicalDailyBar) (facts : Facts) :
    Wrote facts (insertBar bar facts).2 [bar.content.key] [] [] :=
  ⟨fun k => by rw [List.mem_singleton]; exact insertRow_contains, by simp [insertBar],
    by simp [insertBar]⟩

theorem recordAbsence_wrote (absence : Fetched MarketAbsence) (facts : Facts) :
    Wrote facts (recordAbsence absence facts).2 [] [absence.content.key] [] :=
  ⟨by simp [recordAbsence], fun k => by rw [List.mem_singleton]; exact insertRow_contains,
    by simp [recordAbsence]⟩

theorem upsertFactor_wrote (factor : Fetched AdjustmentFactor) (facts : Facts) :
    Wrote facts (upsertFactor factor facts).2 [] [] [factor.content.key] :=
  ⟨by simp [upsertFactor], by simp [upsertFactor],
    fun k => by rw [List.mem_singleton]; exact upsertRow_contains⟩

theorem eachFact_wrote {α : Type} {f : α → Facts → Outcome × Facts} {bs as fs : α → List FactKey}
    (h : ∀ a facts, Wrote facts (f a facts).2 (bs a) (as a) (fs a)) (l : List α) (facts : Facts) :
    Wrote facts (eachFact f l facts).2 (l.flatMap bs) (l.flatMap as) (l.flatMap fs) := by
  induction l generalizing facts with
  | nil => exact Wrote.refl facts
  | cons a l ih => exact (h a facts).trans (ih (f a facts).2)

section Batch

variable {bars : List (Fetched CanonicalDailyBar)} {factors : List (Fetched AdjustmentFactor)}
  {absences : List (Fetched MarketAbsence)}

theorem checkBatch_apart (h : checkBatch bars factors absences = .ok ()) :
    ∀ b ∈ bars, ∀ a ∈ absences, b.content.key ≠ a.content.key := by
  simp only [checkBatch, bind_ok, refuse_ok] at h
  obtain ⟨-, -, -, -, -, -, h⟩ := h
  intro b hb a ha heq
  exact h ⟨b.content.key, List.mem_map_of_mem hb, heq ▸ List.mem_map_of_mem ha⟩

variable {r : SecurityCommitResult × Facts}

theorem commit_ok {facts : Facts}
    (h : commitSecurityObservations bars factors absences facts = .ok r) :
    checkBatch bars factors absences = .ok () ∧
      r.2 = (eachFact upsertFactor factors (eachFact recordAbsence absences
        (eachFact insertBar bars facts).2).2).2 := by
  simp only [commitSecurityObservations, bind_ok, pure_ok] at h
  obtain ⟨u, hcheck, rfl⟩ := h
  exact ⟨hcheck, rfl⟩

theorem commit_wrote {facts : Facts}
    (h : commitSecurityObservations bars factors absences facts = .ok r) :
    Wrote facts r.2 (bars.map fun b => b.content.key) (absences.map fun a => a.content.key)
      (factors.map fun f => f.content.key) := by
  obtain ⟨-, hfacts⟩ := commit_ok h
  have hb := eachFact_wrote insertBar_wrote bars facts
  have ha := hb.trans (eachFact_wrote recordAbsence_wrote absences _)
  have hf := ha.trans (eachFact_wrote upsertFactor_wrote factors _)
  have hnil : ∀ {α : Type} (l : List α), (l.flatMap fun _ => ([] : List FactKey)) = [] :=
    fun l => List.flatMap_eq_nil_iff.mpr fun _ _ => rfl
  rw [hfacts, List.map_eq_flatMap, List.map_eq_flatMap, List.map_eq_flatMap]
  simpa only [hnil, List.nil_append, List.append_nil] using hf

end Batch

theorem repairBar_wrote {bar : Fetched CanonicalDailyBar} {reason : String} {facts : Facts}
    {r : Outcome × Facts} (h : repairBar bar reason facts = .ok r) : Wrote facts r.2 [] [] [] := by
  simp only [repairBar, bind_ok, refuse_ok, need_ok] at h
  obtain ⟨-, -, old, hold, h⟩ := h
  split at h
  · cases pure_ok.mp h
    exact Wrote.refl facts
  · cases pure_ok.mp h
    refine ⟨fun k => ?_, by simp, by simp⟩
    rw [contains_set, ← contains_again (contains_of_get? hold)]
    simp

/-! ## Keeping the tables apart -/

/-- No date of a code is both traded and suspended. -/
def Facts.Exclusive (facts : Facts) : Prop :=
  ∀ k, ¬ (facts.bars.contains k = true ∧ facts.absences.contains k = true)

def FactCall.Apart (facts : Facts) : FactCall → Prop
  | .insertBar bar => facts.absences.contains bar.content.key = false
  | .recordAbsence absence => facts.bars.contains absence.content.key = false
  | .commitSecurityObservations bars factors absences =>
      checkBatch bars factors absences = .ok () →
        (∀ b ∈ bars, facts.absences.contains b.content.key = false) ∧
          ∀ a ∈ absences, facts.bars.contains a.content.key = false
  | .upsertFactor _ => True
  | .repairBar _ _ => True

theorem Wrote.exclusive_iff {facts facts' : Facts} {bs as fs : List FactKey}
    (h : Wrote facts facts' bs as fs) (hex : facts.Exclusive) (hapart : ∀ k ∈ bs, k ∉ as) :
    facts'.Exclusive ↔ (∀ k ∈ bs, facts.absences.contains k = false) ∧
      ∀ k ∈ as, facts.bars.contains k = false := by
  simp only [← Bool.not_eq_true]
  constructor
  · intro hex'
    constructor
    · intro k hk habsent
      exact hex' k ⟨(h.bars k).mpr (Or.inr hk), (h.absences k).mpr (Or.inl habsent)⟩
    · intro k hk htraded
      exact hex' k ⟨(h.bars k).mpr (Or.inl htraded), (h.absences k).mpr (Or.inr hk)⟩
  · rintro ⟨hbs, has⟩ k ⟨hb, ha⟩
    rcases (h.bars k).mp hb with hb | hb <;> rcases (h.absences k).mp ha with ha | ha
    · exact hex k ⟨hb, ha⟩
    · exact has k ha hb
    · exact hbs k hb ha
    · exact hapart k hb ha

theorem FactCall.exclusive_iff {facts : Facts} (hex : facts.Exclusive) (call : FactCall) :
    (call.after facts).Exclusive ↔ call.Apart facts := by
  cases call with
  | insertBar bar =>
      simpa [Apart, after] using (insertBar_wrote bar facts).exclusive_iff hex (by simp)
  | recordAbsence absence =>
      simpa [Apart, after] using (recordAbsence_wrote absence facts).exclusive_iff hex (by simp)
  | upsertFactor factor =>
      simpa [Apart, after] using (upsertFactor_wrote factor facts).exclusive_iff hex (by simp)
  | commitSecurityObservations bars factors absences =>
      rw [FactCall.after, Apart]
      split
      · next r hr =>
          obtain ⟨hcheck, -⟩ := commit_ok hr
          have hapart := checkBatch_apart hcheck
          rw [(commit_wrote hr).exclusive_iff hex
            (by simpa using fun b hb a ha => (hapart b hb a ha).symm)]
          simp [hcheck]
      · next e he =>
          refine iff_of_true hex fun hcheck => ?_
          rw [Market.commitSecurityObservations, hcheck] at he
          cases he
  | repairBar bar reason =>
      rw [FactCall.after, Apart]
      split
      · next r hr => simpa using (repairBar_wrote hr).exclusive_iff hex (by simp)
      · exact iff_of_true hex trivial

/-! ## Runs -/

def factsAfter (calls : List FactCall) : Facts :=
  calls.foldl (fun facts call => call.after facts) Facts.empty

theorem factsAfter_take_succ {calls : List FactCall} {n : ℕ} {call : FactCall}
    (h : calls[n]? = some call) :
    factsAfter (calls.take (n + 1)) = call.after (factsAfter (calls.take n)) := by
  rw [factsAfter, List.take_add_one, h, Option.toList_some, List.foldl_append]
  rfl

/-- Through a sequence of calls no date ever has both a bar and an absence,
exactly when every call is apart from what the calls before it stored. -/
theorem bar_excludes_absence (calls : List FactCall) :
    (∀ n, (factsAfter (calls.take n)).Exclusive) ↔
      ∀ (n : ℕ) (call : FactCall), calls[n]? = some call →
        call.Apart (factsAfter (calls.take n)) := by
  constructor
  · intro h n call hcall
    rw [← FactCall.exclusive_iff (h n), ← factsAfter_take_succ hcall]
    exact h (n + 1)
  · intro h n
    induction n with
    | zero =>
        rintro k ⟨hb, -⟩
        cases hb
    | succ n ih =>
        rcases hcall : calls[n]? with _ | call
        · have hlen : calls.length ≤ n := List.getElem?_eq_none_iff.mp hcall
          rw [List.take_of_length_le hlen] at ih
          rw [List.take_of_length_le (Nat.le_succ_of_le hlen)]
          exact ih
        · rw [factsAfter_take_succ hcall]
          exact (FactCall.exclusive_iff ih call).mpr (h n call hcall)

/-! ## A date in both tables -/

def sampleStamp : Sim.Stamp := ⟨1000 * Sim.dayMicros, ⟨0⟩⟩

theorem exchange_isText : IsText "exchange" := by decide +kernel

def sampleAbsence : Fetched MarketAbsence :=
  ⟨⟨"600000", 999, "exchange", sampleStamp, by decide +kernel, by decide +kernel,
    exchange_isText⟩, sampleStamp⟩

def sampleBar : Fetched CanonicalDailyBar :=
  ⟨⟨"600000", 999, 10, 11, 9, 10, 100, none, "eastmoney", sampleStamp, 999, by decide +kernel,
    by decide +kernel, by norm_num, by norm_num, noAmount_nonneg, by decide +kernel⟩, sampleStamp⟩

/-- A suspension is recorded, then a bar of its date is inserted: both are
stored. -/
theorem absence_then_bar :
    ¬ (factsAfter [.recordAbsence sampleAbsence, .insertBar sampleBar]).Exclusive := by
  intro h
  exact h (factKey "600000" 999) (by decide +kernel)

end Ahunter.Market
