import Mathlib.Data.List.Basic

/-!
# Reading a log as of a boundary

A reader of an append-only log scans it from the front and keeps the last
entry that passes a test. Where the test only ever stops passing once, because
the entries' times do not go back, the entries that pass are a prefix of the
log: what comes later cannot be seen, a wider test sees a longer prefix, and
the answer is the end of it.
-/

namespace Ahunter.Lib

variable {α : Type} {p q : α → Bool}

variable {l : List α}

def lastThat (p : α → Bool) (l : List α) : Option α :=
  l.foldl (fun found a => if p a then some a else found) none

theorem foldl_lastThat (l : List α) (found : Option α) :
    l.foldl (fun found a => if p a then some a else found) found
      = ((l.filter p).getLast?).or found := by
  induction l generalizing found with
  | nil => rfl
  | cons a l ih =>
      rw [List.foldl_cons, ih]
      by_cases ha : p a = true
      · rw [List.filter_cons_of_pos ha, if_pos ha, List.getLast?_cons]
        cases (l.filter p).getLast? <;> rfl
      · rw [List.filter_cons_of_neg ha, if_neg ha]

theorem lastThat_eq (p : α → Bool) (l : List α) : lastThat p l = (l.filter p).getLast? := by
  rw [lastThat, foldl_lastThat, Option.or_none]

/-- A log along which the test stops passing once. -/
def Settles (p : α → Bool) (l : List α) : Prop :=
  l.Pairwise fun a b => p b = true → p a = true

theorem Settles.filter_eq (h : Settles p l) : l.filter p = l.takeWhile p := by
  induction l with
  | nil => rfl
  | cons a l ih =>
      obtain ⟨ha, hl⟩ := List.pairwise_cons.mp h
      by_cases hp : p a = true
      · rw [List.filter_cons_of_pos hp, List.takeWhile_cons_of_pos hp, ih hl]
      · rw [List.filter_cons_of_neg hp, List.takeWhile_cons_of_neg hp,
          List.filter_eq_nil_iff]
        exact fun b hb hpb => hp (ha b hb hpb)

theorem Settles.lastThat_eq (h : Settles p l) : lastThat p l = (l.takeWhile p).getLast? := by
  rw [Lib.lastThat_eq, h.filter_eq]

theorem Settles.cut (h : Settles p l) : l.filter p ++ l.filter (fun a => !p a) = l := by
  induction l with
  | nil => rfl
  | cons a l ih =>
      obtain ⟨ha, hl⟩ := List.pairwise_cons.mp h
      cases hp : p a with
      | true => simp [hp, ih hl]
      | false =>
          have hnone : ∀ b ∈ l, p b = false := fun b hb =>
            Bool.eq_false_iff.mpr fun hpb => by
              rw [ha b hb hpb] at hp
              cases hp
          rw [List.filter_eq_nil_iff.mpr (by simpa [hp] using hnone),
            List.filter_eq_self.mpr (by simpa [hp] using hnone), List.nil_append]

theorem Settles.filter (h : Settles p l) (q : α → Bool) :
    Settles p (l.filter q) := List.Pairwise.filter _ h

theorem takeWhile_prefix_of_le (h : ∀ a, p a = true → q a = true) (l : List α) :
    l.takeWhile p <+: l.takeWhile q := by
  induction l with
  | nil => exact List.prefix_rfl
  | cons a l ih =>
      by_cases hp : p a = true
      · rw [List.takeWhile_cons_of_pos hp, List.takeWhile_cons_of_pos (h a hp)]
        exact List.cons_prefix_cons.mpr ⟨rfl, ih⟩
      · rw [List.takeWhile_cons_of_neg hp]
        exact List.nil_prefix

theorem lastThat_append {m : List α} (h : ∀ a ∈ m, p a = false) :
    lastThat p (l ++ m) = lastThat p l := by
  have hm : m.filter p = [] :=
    List.filter_eq_nil_iff.mpr fun a ha => by rw [h a ha]; exact Bool.false_ne_true
  rw [lastThat_eq, lastThat_eq, List.filter_append, hm, List.append_nil]

end Ahunter.Lib
