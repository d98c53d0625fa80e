import Ahunter.Lib.Attempt

/-!
# Flows

A flow is a chain of transactions. Each of them returns or raises, and what
the earlier ones have written stays when a later one raises. A triple
`Holds P x Q E` says that a flow which starts where `P` holds ends where `Q`
does, of what it returned, or where `E` does when it raised.
-/

namespace Ahunter.Lib

/-- A computation over a state `S` that may raise an `ε`, and keeps what it has
written when it does. -/
def Flow (S ε α : Type) : Type := S → Except ε α × S

namespace Flow

variable {S ε α β : Type}

def bind (x : Flow S ε α) (f : α → Flow S ε β) : Flow S ε β := fun s =>
  match x s with
  | (.ok a, t) => f a t
  | (.error e, t) => (.error e, t)

instance : Monad (Flow S ε) where
  pure a := fun s => (.ok a, s)
  bind := bind

/-- A computation that touches no state. -/
def lift (x : Except ε α) : Flow S ε α := fun s => (x, s)

/-- What a state says, or an error. -/
def read (f : S → Except ε α) : Flow S ε α := fun s => (f s, s)

def transact (f : S → Except ε (α × S)) : Flow S ε α := fun s =>
  match f s with
  | .ok (a, t) => (.ok a, t)
  | .error e => (.error e, s)

def leaves (x : Flow S ε α) (s : S) : S := (x s).2

/-! ## Triples -/

structure Holds (P : S → Prop) (x : Flow S ε α) (Q : α → S → Prop) (E : S → Prop) : Prop where
  post : ∀ s, P s → match x s with
    | (.ok a, t) => Q a t
    | (.error _, t) => E t

variable {P P' : S → Prop} {Q Q' : α → S → Prop} {R : β → S → Prop} {E : S → Prop}

variable {x : Flow S ε α}

theorem Holds.ok (h : Holds P x Q E) {s t : S} {a : α} (hs : P s) (hx : x s = (.ok a, t)) :
    Q a t := by
  have hpost := h.post s hs
  rw [hx] at hpost
  exact hpost

theorem Holds.error (h : Holds P x Q E) {s t : S} {e : ε} (hs : P s) (hx : x s = (.error e, t)) :
    E t := by
  have hpost := h.post s hs
  rw [hx] at hpost
  exact hpost

theorem Holds.pure {a : α} (h : ∀ s, P s → Q a s) : Holds P (Pure.pure a : Flow S ε α) Q E := ⟨h⟩

theorem Holds.bind {x : Flow S ε β} {f : β → Flow S ε α} (hx : Holds P x R E)
    (hf : ∀ b, Holds (R b) (f b) Q E) : Holds P (x >>= f) Q E := by
  refine ⟨fun s hs => ?_⟩
  show match Flow.bind x f s with
    | (.ok a, t) => Q a t
    | (.error _, t) => E t
  rw [Flow.bind]
  cases hxs : x s with
  | mk r t =>
      cases r with
      | ok b => exact (hf b).post t (hx.ok hs hxs)
      | error e => exact hx.error hs hxs

theorem Holds.weaken (h : Holds P x Q E) (hP : ∀ s, P' s → P s) (hQ : ∀ a s, Q a s → Q' a s) :
    Holds P' x Q' E := by
  refine ⟨fun s hs => ?_⟩
  have hpost := h.post s (hP s hs)
  cases hxs : x s with
  | mk r t =>
      rw [hxs] at hpost
      cases r with
      | ok a => exact hQ a t hpost
      | error e => exact hpost

theorem Holds.lift {x : Except ε α} (hok : ∀ a, x = .ok a → ∀ s, P s → Q a s)
    (herror : ∀ s, P s → E s) : Holds P (Flow.lift x) Q E := by
  refine ⟨fun s hs => ?_⟩
  show match (x, s) with
    | (.ok a, t) => Q a t
    | (.error _, t) => E t
  cases hx : x with
  | ok a => exact hok a hx s hs
  | error e => exact herror s hs

theorem Holds.read {f : S → Except ε α} (hok : ∀ a s, f s = .ok a → P s → Q a s)
    (herror : ∀ s, P s → E s) : Holds P (Flow.read f) Q E := by
  refine ⟨fun s hs => ?_⟩
  show match (f s, s) with
    | (.ok a, t) => Q a t
    | (.error _, t) => E t
  cases hf : f s with
  | ok a => exact hok a s hf hs
  | error e => exact herror s hs

theorem Holds.transact {f : S → Except ε (α × S)}
    (hok : ∀ s a t, P s → f s = .ok (a, t) → Q a t) (herror : ∀ s, P s → E s) :
    Holds P (Flow.transact f) Q E := by
  refine ⟨fun s hs => ?_⟩
  rw [Flow.transact]
  cases hf : f s with
  | ok r => exact hok s r.1 r.2 hs hf
  | error e => exact herror s hs

theorem Holds.ite {p : Prop} [Decidable p] {y : Flow S ε α} (hx : p → Holds P x Q E)
    (hy : ¬ p → Holds P y Q E) : Holds P (if p then x else y) Q E := by
  by_cases h : p
  · rw [if_pos h]
    exact hx h
  · rw [if_neg h]
    exact hy h

theorem Holds.given {φ : Prop} (hφ : ∀ s, P s → φ) (h : φ → Holds P x Q E) :
    Holds P x Q E := ⟨fun s hs => (h (hφ s hs)).post s hs⟩

theorem Holds.leaves {I : S → Prop} (h : Holds I x (fun _ => I) I) {s : S} (hs : I s) :
    I (x.leaves s) := by
  rw [Flow.leaves]
  cases hxs : x s with
  | mk r t =>
      cases r with
      | ok a => exact h.ok hs hxs
      | error e => exact h.error hs hxs

end Flow

end Ahunter.Lib
