import Ahunter.Lib.Attempt

/-!
# Lists of related elements

What is looked up, tested or gathered in two lists whose elements are
related one by one is related too, as long as what is asked does not tell
related elements apart.
-/

namespace Ahunter.Lib

variable {ε α β γ : Type} {R : α → β → Prop} {l : List α} {l' : List β} {p : α → Bool}
  {q : β → Bool}

theorem find_rel (h : List.Forall₂ R l l')
    (hp : ∀ a b, R a b → p a = q b) : Option.Rel R (l.find? p) (l'.find? q) := by
  induction h with
  | nil => exact .none
  | @cons a b l l' hone _ ih =>
      rw [List.find?_cons, List.find?_cons, ← hp a b hone]
      cases p a with
      | true => exact .some hone
      | false => exact ih

theorem any_rel (h : List.Forall₂ R l l') (hp : ∀ a b, R a b → p a = q b) : l.any p = l'.any q := by
  induction h with
  | nil => rfl
  | @cons a b l l' hone _ ih => rw [List.any_cons, List.any_cons, hp a b hone, ih]

theorem head_rel (h : List.Forall₂ R l l') : Option.Rel R l.head? l'.head? := by
  cases h with
  | nil => exact .none
  | cons h _ => exact .some h

theorem getLast_rel (h : List.Forall₂ R l l') : Option.Rel R l.getLast? l'.getLast? := by
  rw [List.getLast?_eq_head?_reverse, List.getLast?_eq_head?_reverse]
  exact head_rel (List.rel_reverse h)

theorem filter_rel (h : List.Forall₂ R l l')
    (hp : ∀ a b, R a b → p a = q b) : List.Forall₂ R (l.filter p) (l'.filter q) :=
  List.rel_filter (fun a b hone => by show p a = true ↔ q b = true; rw [hp a b hone]) h

theorem map_rel {k : α → γ} {j : β → γ} (h : List.Forall₂ R l l')
    (hk : ∀ a b, R a b → k a = j b) : l.map k = l'.map j := by
  rw [← List.forall₂_eq_eq_eq, List.forall₂_map_left_iff, List.forall₂_map_right_iff]
  exact h.imp hk

theorem gather_rel {f : α → Except ε γ} {f' : β → Except ε γ} (h : List.Forall₂ R l l')
    (hf : ∀ a b, R a b → f a = f' b) : gather f l = gather f' l' := by
  induction h with
  | nil => rfl
  | @cons a b l l' hone _ ih => rw [gather, gather, hf a b hone, ih]

theorem gather_map {f : α → Except ε β} {k : β → γ} {k' : α → γ} {as : List α}
    {bs : List β} (h : gather f as = .ok bs) (hk : ∀ a ∈ as, ∀ b, f a = .ok b → k b = k' a) :
    bs.map k = as.map k' := by
  rw [gather_ok] at h
  induction h with
  | nil => rfl
  | @cons a b as bs hone hrest ih =>
      rw [List.map_cons, List.map_cons, hk a List.mem_cons_self b hone,
        ih fun a ha => hk a (List.mem_cons_of_mem _ ha)]

/-! ## Matching results -/

inductive Matched (R : α → β → Prop) : Except ε α → Except ε β → Prop
  | ok {a : α} {b : β} (h : R a b) : Matched R (.ok a) (.ok b)
  | error (e : ε) : Matched R (.error e) (.error e)

namespace Matched

variable {α' β' : Type} {S : α' → β' → Prop} {x : Except ε α} {y : Except ε β}

theorem bind {f : α → Except ε α'} {k : β → Except ε β'} (h : Matched R x y)
    (hk : ∀ a b, R a b → Matched S (f a) (k b)) : Matched S (x >>= f) (y >>= k) := by
  cases h with
  | ok h => exact hk _ _ h
  | error e => exact .error e

theorem mono {R' : α → β → Prop} (h : Matched R x y) (himp : ∀ a b, R a b → R' a b) :
    Matched R' x y := by
  cases h with
  | ok h => exact .ok (himp _ _ h)
  | error e => exact .error e

theorem of_eq {x y : Except ε α} (h : x = y) : Matched Eq x y := by
  subst h
  cases x with
  | ok a => exact .ok rfl
  | error e => exact .error e

theorem pure {a : α} {b : β} (h : R a b) : Matched R (Pure.pure a : Except ε α) (Pure.pure b) :=
  .ok h

theorem refuse {p q : Prop} [Decidable p] [Decidable q] {e : ε} (h : p ↔ q) :
    Matched Eq (Lib.refuse p e) (Lib.refuse q e) := by
  by_cases hp : p
  · rw [Lib.refuse, Lib.refuse, if_pos hp, if_pos (h.mp hp)]
    exact .error e
  · rw [Lib.refuse, Lib.refuse, if_neg hp, if_neg (fun hq => hp (h.mpr hq))]
    exact .ok rfl

theorem need {o : Option α} {o' : Option β} {e : ε} (h : Option.Rel R o o') :
    Matched R (Lib.need o e) (Lib.need o' e) := by
  cases h with
  | none => exact .error e
  | some h => exact .ok h

theorem gather {f : α → Except ε α'} {k : β → Except ε β'} (h : List.Forall₂ R l l')
    (hk : ∀ a b, R a b → Matched S (f a) (k b)) :
    Matched (List.Forall₂ S) (Lib.gather f l) (Lib.gather k l') := by
  induction h with
  | nil => exact .ok .nil
  | cons hone _ ih =>
      exact (hk _ _ hone).bind fun _ _ hfirst => ih.bind fun _ _ hrest => .ok (.cons hfirst hrest)

theorem walk {f : α' → α → Except ε α'} {k : β' → β → Except ε β'} (h : List.Forall₂ R l l')
    (hk : ∀ c d, S c d → ∀ a b, R a b → Matched S (f c a) (k d b)) {c : α'} {d : β'}
    (hstart : S c d) : Matched S (Lib.walk f c l) (Lib.walk k d l') := by
  induction h generalizing c d with
  | nil => exact .ok hstart
  | cons hone _ ih => exact (hk c d hstart _ _ hone).bind fun c' d' hnext => ih hnext

theorem eq {x y : Except ε α} (h : Matched Eq x y) : x = y := by
  cases h with
  | ok h => rw [h]
  | error e => rfl

end Matched

end Ahunter.Lib
