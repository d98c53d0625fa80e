import Ahunter.Lib.Attempt
import Mathlib.Order.CompleteBooleanAlgebra
import Mathlib.Order.CompletePartialOrder

/-!
# Programs that call out

A program that works on a shared state through calls, each of which may
raise, is a tree: it is done, it has failed, or it makes a call and goes on
with what comes back. Other programs take their turns between its calls, so
what such a program knows of the state is only what every turn of anyone
keeps. The states are ordered by that: `s ≤ t` says that `t` may come after
`s`. A program is safe when it makes each of its calls in a state in which it
may, whatever the others have made of the state since its last one, and in a
pool of safe programs every call is made as it may be.
-/

namespace Ahunter.Lib

/-- A program with calls `C`, which are answered in `R` or raise an `ε`. -/
inductive Proc (C : Type) (R : C → Type) (ε α : Type) : Type
  | done (a : α)
  | fail (e : ε)
  | call (c : C) (next : Except ε (R c) → Proc C R ε α)

namespace Proc

variable {C : Type} {R : C → Type} {ε α β : Type}

def bind : Proc C R ε α → (α → Proc C R ε β) → Proc C R ε β
  | .done a, f => f a
  | .fail e, _ => .fail e
  | .call c next, f => .call c fun r => (next r).bind f

instance : Monad (Proc C R ε) where
  pure := .done
  bind := bind

/-- Make a call and return its answer. -/
def ask (c : C) : Proc C R ε (R c) :=
  .call c fun
    | .ok a => .done a
    | .error e => .fail e

/-- Go on with the result of a computation that makes no call. -/
def lift : Except ε α → Proc C R ε α
  | .ok a => .done a
  | .error e => .fail e

/-- `try: … except: …` -/
def handle : Proc C R ε α → (ε → Proc C R ε α) → Proc C R ε α
  | .done a, _ => .done a
  | .fail e, f => f e
  | .call c next, f => .call c fun r => (next r).handle f

/-- What a program raised, or what it returned. -/
def attempt (p : Proc C R ε α) : Proc C R ε (Except ε α) :=
  (p >>= fun a => pure (.ok a)).handle fun e => pure (.error e)

/-- `for a in l: …` -/
def each (f : α → Proc C R ε Unit) : List α → Proc C R ε Unit
  | [] => .done ()
  | a :: as => (f a).bind fun _ => each f as

/-! ## Running a program alone -/

def run {S : Type} (answer : (c : C) → S → Except ε (R c) × S) :
    Proc C R ε α → S → Except ε α × S
  | .done a, s => (.ok a, s)
  | .fail e, s => (.error e, s)
  | .call c next, s =>
      let (r, s) := answer c s
      (next r).run answer s

section Run

variable {S : Type} {answer : (c : C) → S → Except ε (R c) × S}

end Run

end Proc

/-! ## Safety among others -/

section Safe

variable {C : Type} {R : C → Type} {ε α β S : Type} [Preorder S]

/-- A program makes every call in a state in which it may, and what it ends
with holds from then on. Between two calls the state moves on as others make
it. -/
def Safe (exec : (c : C) → S → Except ε (R c) → S → Prop) (may : C → S → Prop)
    (Q : α → S → Prop) (E : ε → S → Prop) : Proc C R ε α → S → Prop
  | .done a, s => ∀ t, s ≤ t → Q a t
  | .fail e, s => ∀ t, s ≤ t → E e t
  | .call c next, s => ∀ t, s ≤ t →
      may c t ∧ ∀ r u, exec c t r u → t ≤ u → Safe exec may Q E (next r) u

variable {exec : (c : C) → S → Except ε (R c) → S → Prop} {may : C → S → Prop}
  {Q Q' : α → S → Prop} {E E' : ε → S → Prop}

variable {s : S}

theorem Safe.mono {p : Proc C R ε α} {t : S} (h : Safe exec may Q E p s) (hst : s ≤ t) :
    Safe exec may Q E p t := by
  cases p with
  | done a => exact fun u hu => h u (hst.trans hu)
  | fail e => exact fun u hu => h u (hst.trans hu)
  | call c next => exact fun u hu => h u (hst.trans hu)

theorem Safe.weaken {p : Proc C R ε α} (h : Safe exec may Q E p s)
    (hQ : ∀ a t, s ≤ t → Q a t → Q' a t) (hE : ∀ e t, s ≤ t → E e t → E' e t) :
    Safe exec may Q' E' p s := by
  induction p generalizing s with
  | done a => exact fun t ht => hQ a t ht (h t ht)
  | fail e => exact fun t ht => hE e t ht (h t ht)
  | call c next ih =>
      intro t ht
      refine ⟨(h t ht).1, fun r u hexec htu => ?_⟩
      have hsu : s ≤ u := ht.trans htu
      exact ih r ((h t ht).2 r u hexec htu) (fun a v hv => hQ a v (hsu.trans hv))
        fun e v hv => hE e v (hsu.trans hv)

theorem Safe.done {a : α} (h : ∀ t, s ≤ t → Q a t) :
    Safe exec may Q E (pure a : Proc C R ε α) s := h

theorem Safe.fail {e : ε} (h : ∀ t, s ≤ t → E e t) :
    Safe exec may Q E (.fail e : Proc C R ε α) s := h

theorem Safe.bind {P : β → S → Prop} {p : Proc C R ε β} {f : β → Proc C R ε α}
    (h : Safe exec may P E p s) (hf : ∀ b t, s ≤ t → P b t → Safe exec may Q E (f b) t) :
    Safe exec may Q E (p >>= f) s := by
  induction p generalizing s with
  | done b => exact hf b s le_rfl (h s le_rfl)
  | fail e => exact h
  | call c next ih =>
      intro t ht
      refine ⟨(h t ht).1, fun r u hexec htu => ?_⟩
      exact ih r ((h t ht).2 r u hexec htu) fun b v hv => hf b v ((ht.trans htu).trans hv)

theorem Safe.handle {P : ε → S → Prop} {p : Proc C R ε α} {f : ε → Proc C R ε α}
    (h : Safe exec may Q P p s) (hf : ∀ e t, s ≤ t → P e t → Safe exec may Q E (f e) t) :
    Safe exec may Q E (p.handle f) s := by
  induction p generalizing s with
  | done a => exact h
  | fail e => exact hf e s le_rfl (h s le_rfl)
  | call c next ih =>
      intro t ht
      refine ⟨(h t ht).1, fun r u hexec htu => ?_⟩
      exact ih r ((h t ht).2 r u hexec htu) fun e v hv => hf e v ((ht.trans htu).trans hv)

theorem Safe.attempt {p : Proc C R ε α} {P : Except ε α → S → Prop}
    (h : Safe exec may (fun a t => P (.ok a) t) (fun e t => P (.error e) t) p s) :
    Safe exec may P E p.attempt s := by
  have hstable : ∀ {β : Type} {P : β → S → Prop} {E : ε → S → Prop} {p : Proc C R ε β} {s : S},
      Safe exec may P E p s →
        Safe exec may (fun b t => ∀ u, t ≤ u → P b u) (fun e t => ∀ u, t ≤ u → E e u) p s := by
    intro β P E p
    induction p with
    | done b => exact fun h t ht u hu => h u (ht.trans hu)
    | fail e => exact fun h t ht u hu => h u (ht.trans hu)
    | call c next ih =>
        intro s h t ht
        exact ⟨(h t ht).1, fun r u hexec htu => ih r ((h t ht).2 r u hexec htu)⟩
  refine Safe.handle (P := fun e t => ∀ u, t ≤ u → P (.error e) u) ?_
    fun e t _ he => Safe.done he
  exact (hstable h).bind fun a t _ ha => Safe.done ha

theorem Safe.ask {c : C} {P : R c → S → Prop} (hmay : ∀ t, s ≤ t → may c t)
    (hok : ∀ a t u, s ≤ t → exec c t (.ok a) u → t ≤ u → ∀ v, u ≤ v → P a v)
    (herror : ∀ e t, s ≤ t → E e t) : Safe exec may P E (Proc.ask c) s := by
  intro t ht
  refine ⟨hmay t ht, fun r u hexec htu => ?_⟩
  cases r with
  | ok a => exact hok a t u ht hexec htu
  | error e => exact fun v hv => herror e v ((ht.trans htu).trans hv)

theorem Safe.lift {x : Except ε α} (hok : ∀ a, x = .ok a → ∀ t, s ≤ t → Q a t)
    (herror : ∀ e t, s ≤ t → E e t) : Safe exec may Q E (Proc.lift x) s := by
  cases x with
  | ok a => exact hok a rfl
  | error e => exact herror e

theorem Safe.ite {p : Prop} [Decidable p] {x y : Proc C R ε α} (hx : p → Safe exec may Q E x s)
    (hy : ¬ p → Safe exec may Q E y s) : Safe exec may Q E (if p then x else y) s := by
  by_cases h : p
  · rw [if_pos h]
    exact hx h
  · rw [if_neg h]
    exact hy h

theorem Safe.each {f : β → Proc C R ε Unit} {l : List β}
    (h : ∀ b ∈ l, ∀ t, s ≤ t → Safe exec may (fun _ _ => True) E (f b) t) :
    Safe exec may (fun _ _ => True) E (Proc.each f l) s := by
  induction l generalizing s with
  | nil => exact fun _ _ => trivial
  | cons b l ih =>
      refine (h b List.mem_cons_self s le_rfl).bind fun _ t hst _ => ?_
      exact ih fun b' hb' u hu => h b' (List.mem_cons_of_mem b hb') u (hst.trans hu)

end Safe

/-! ## Heeding -/

section Heeds

variable {C : Type} {R : C → Type} {ε α : Type}

abbrev Heeds (answers : (c : C) → Except ε (R c) → Prop) (may : C → Prop) (Q : α → Prop)
    (p : Proc C R ε α) : Prop :=
  Safe (fun c (_ : Unit) r _ => answers c r) (fun c _ => may c) (fun a _ => Q a)
    (fun _ _ => True) p ()

variable {answers : (c : C) → Except ε (R c) → Prop} {may : C → Prop}

theorem Heeds.ask {c : C} (hmay : may c) :
    Heeds answers may (fun a => answers c (.ok a)) (Proc.ask c) :=
  Safe.ask (fun _ _ => hmay) (fun _ _ _ _ hanswer _ _ _ => hanswer) fun _ _ _ => trivial

theorem Heeds.lift (x : Except ε α) : Heeds answers may (fun a => x = .ok a) (Proc.lift x) :=
  Safe.lift (fun _ ha _ _ => ha) fun _ _ _ => trivial

theorem Heeds.any {Q : α → Prop} {p : Proc C R ε α} (h : Heeds answers may Q p) :
    Heeds answers may (fun _ => True) p :=
  h.weaken (fun _ _ _ _ => trivial) fun _ _ _ _ => trivial

theorem Safe.heeding {S : Type} [Preorder S] {exec : (c : C) → S → Except ε (R c) → S → Prop}
    {may : C → S → Prop} {own : C → Prop} {Q : α → S → Prop} {Q' : α → Prop}
    {E : ε → S → Prop} {p : Proc C R ε α} {s : S} (h : Safe exec may Q E p s)
    (hown : Heeds (fun _ _ => True) own Q' p) : Safe exec (fun c s => may c s ∧ own c) Q E p s := by
  induction p generalizing s with
  | done a => exact h
  | fail e => exact h
  | call c next ih =>
      intro t ht
      obtain ⟨hc, hnext⟩ := hown () le_rfl
      refine ⟨⟨(h t ht).1, hc⟩, fun r u hexec htu => ?_⟩
      exact ih r ((h t ht).2 r u hexec htu) (hnext r () trivial le_rfl)

end Heeds

/-! ## Pools -/

section Pools

variable {C : Type} {R : C → Type} {ε S L : Type}

/-- A shared state and the programs at work on it, each under its label. -/
structure Pool (C : Type) (R : C → Type) (ε S L : Type) where
  state : S
  tasks : List (L × Proc C R ε Unit)

inductive PoolStep (exec : (c : C) → S → Except ε (R c) → S → Prop)
    (start : L → Proc C R ε Unit) (other : S → S → Prop) :
    Pool C R ε S L → Pool C R ε S L → Prop
  | spawn (s : S) (tasks : List (L × Proc C R ε Unit)) (l : L) :
      PoolStep exec start other ⟨s, tasks⟩ ⟨s, tasks ++ [(l, start l)]⟩
  | call {s t : S} (us vs : List (L × Proc C R ε Unit)) (l : L) (c : C)
      (next : Except ε (R c) → Proc C R ε Unit) (r : Except ε (R c)) (h : exec c s r t) :
      PoolStep exec start other ⟨s, us ++ (l, .call c next) :: vs⟩
        ⟨t, us ++ (l, next r) :: vs⟩
  | other {s t : S} (tasks : List (L × Proc C R ε Unit)) (h : other s t) :
      PoolStep exec start other ⟨s, tasks⟩ ⟨t, tasks⟩

variable {exec : (c : C) → S → Except ε (R c) → S → Prop}
  {may : L → C → S → Prop} {start : L → Proc C R ε Unit} {other : S → S → Prop}

def Pool.Later (exec : (c : C) → S → Except ε (R c) → S → Prop)
    (start : L → Proc C R ε Unit) (other : S → S → Prop) :
    Pool C R ε S L → Pool C R ε S L → Prop :=
  Relation.ReflTransGen (PoolStep exec start other)

theorem Pool.Later.alone {answer : (c : C) → S → Except ε (R c) × S}
    (h : ∀ c s, exec c s (answer c s).1 (answer c s).2) (us : List (L × Proc C R ε Unit))
    (l : L) (p : Proc C R ε Unit) (s : S) :
    ∃ p', Pool.Later exec start other ⟨s, us ++ [(l, p)]⟩
      ⟨(p.run answer s).2, us ++ [(l, p')]⟩ := by
  induction p generalizing s with
  | done a => exact ⟨.done a, .refl⟩
  | fail e => exact ⟨.fail e, .refl⟩
  | call c next ih =>
      obtain ⟨p', hrest⟩ := ih (answer c s).1 (answer c s).2
      exact ⟨p', hrest.head (PoolStep.call us [] l c next _ (h c s))⟩

variable [Preorder S]

def Pool.Safe (exec : (c : C) → S → Except ε (R c) → S → Prop) (may : L → C → S → Prop)
    (p : Pool C R ε S L) : Prop :=
  ∀ task ∈ p.tasks, Lib.Safe exec (may task.1) (fun _ _ => True) (fun _ _ => True)
    task.2 p.state

theorem PoolStep.safe {p q : Pool C R ε S L} (hstep : PoolStep exec start other p q)
    (hexec : ∀ l c s r t, may l c s → exec c s r t → s ≤ t) (hother : ∀ s t, other s t → s ≤ t)
    (hstart : ∀ l, Lib.Safe exec (may l) (fun _ _ => True) (fun _ _ => True) (start l) p.state)
    (hp : p.Safe exec may) : p.state ≤ q.state ∧ q.Safe exec may := by
  cases hstep with
  | spawn s tasks l =>
      refine ⟨le_rfl, fun task htask => ?_⟩
      rcases List.mem_append.mp htask with htask | htask
      · exact hp task htask
      · rw [List.mem_singleton.mp htask]
        exact hstart l
  | @call s t us vs l c next r h =>
      have hsafe := hp (l, .call c next) (List.mem_append_right us List.mem_cons_self)
      obtain ⟨hmay, hnext⟩ := hsafe s le_rfl
      have hst : s ≤ t := hexec l c s r t hmay h
      refine ⟨hst, fun task htask => ?_⟩
      rcases List.mem_append.mp htask with htask | htask
      · exact (hp task (List.mem_append_left _ htask)).mono hst
      · rcases List.mem_cons.mp htask with rfl | htask
        · exact hnext r t h hst
        · exact (hp task (List.mem_append_right us (List.mem_cons_of_mem _ htask))).mono hst
  | @other s t tasks h =>
      have hst := hother s t h
      exact ⟨hst, fun task htask => (hp task htask).mono hst⟩

theorem Pool.Later.safe {p q : Pool C R ε S L} (h : p.Later exec start other q)
    (hexec : ∀ l c s r t, may l c s → exec c s r t → s ≤ t) (hother : ∀ s t, other s t → s ≤ t)
    (hstart : ∀ l s, p.state ≤ s → Lib.Safe exec (may l) (fun _ _ => True)
      (fun _ _ => True) (start l) s)
    (hp : p.Safe exec may) : p.state ≤ q.state ∧ q.Safe exec may := by
  induction h with
  | refl => exact ⟨le_rfl, hp⟩
  | tail _ hstep ih =>
      obtain ⟨hle, hsafe⟩ := ih
      obtain ⟨hle', hsafe'⟩ := hstep.safe hexec hother (fun l => hstart l _ hle) hsafe
      exact ⟨hle.trans hle', hsafe'⟩

theorem Pool.Later.keeps {S : Type} {exec : (c : C) → S → Except ε (R c) → S → Prop}
    {other : S → S → Prop} {answers : (c : C) → Except ε (R c) → Prop} {may : C → Prop}
    {Inv : S → Prop} {p q : Pool C R ε S L} (h : p.Later exec start other q)
    (hexec : ∀ c s r t, exec c s r t → answers c r ∧ (may c → Inv s → Inv t))
    (hother : ∀ s t, other s t → Inv s → Inv t)
    (hstart : ∀ l, Heeds answers may (fun _ => True) (start l))
    (hp : ∀ task ∈ p.tasks, Heeds answers may (fun _ => True) task.2) (hinv : Inv p.state) :
    Inv q.state ∧ ∀ task ∈ q.tasks, Heeds answers may (fun _ => True) task.2 := by
  induction h with
  | refl => exact ⟨hinv, hp⟩
  | tail _ hstep ih =>
      obtain ⟨hinv, hp⟩ := ih
      cases hstep with
      | spawn s tasks l =>
          refine ⟨hinv, fun task htask => ?_⟩
          rcases List.mem_append.mp htask with htask | htask
          · exact hp task htask
          · rw [List.mem_singleton.mp htask]
            exact hstart l
      | @call s t us vs l c next r h =>
          obtain ⟨hanswer, hkeep⟩ := hexec c s r t h
          have hcall := hp (l, .call c next) (List.mem_append_right us List.mem_cons_self)
          obtain ⟨hmay, hnext⟩ := hcall () le_rfl
          refine ⟨hkeep hmay hinv, fun task htask => ?_⟩
          rcases List.mem_append.mp htask with htask | htask
          · exact hp task (List.mem_append_left _ htask)
          · rcases List.mem_cons.mp htask with rfl | htask
            · exact hnext r () hanswer le_rfl
            · exact hp task (List.mem_append_right us (List.mem_cons_of_mem _ htask))
      | @other s t tasks h => exact ⟨hother s t h hinv, hp⟩

end Pools

end Ahunter.Lib
