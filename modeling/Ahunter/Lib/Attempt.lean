import Mathlib.Data.List.Forall2
import Mathlib.Data.Option.Basic

/-!
# Attempts

A checked operation either yields its result or says why not. A program
that validates as it goes is a chain of three moves: refuse when a condition
holds, look something up that may be missing, and carry on with what a
previous step produced. Each move has one inversion lemma, and together they
are the simp set that turns "the operation succeeded" into the list of
everything it checked and computed on the way.
-/

namespace Ahunter.Lib

variable {ε α β : Type}

variable {e : ε} {x : Except ε α} {f : α → Except ε β} {b : β}

/-- Stop with `e` when `p` holds. -/
def refuse (p : Prop) [Decidable p] (e : ε) : Except ε Unit :=
  if p then .error e else .ok ()

/-- The value of a lookup, or `e` when there is none. -/
def need (o : Option α) (e : ε) : Except ε α :=
  match o with
  | none => .error e
  | some a => .ok a

@[simp] theorem refuse_ok {p : Prop} [Decidable p] {u : Unit} : refuse p e = .ok u ↔ ¬ p := by
  unfold refuse
  split <;> simp_all

variable {e' : ε}

@[simp] theorem refuse_error {p : Prop} [Decidable p] : refuse p e = .error e' ↔ p ∧ e = e' := by
  unfold refuse
  split <;> simp_all

variable {o : Option α} {a : α}

@[simp] theorem need_ok : need o e = .ok a ↔ o = some a := by
  cases o <;> simp [need]

@[simp] theorem need_error : need o e = .error e' ↔ o = none ∧ e = e' := by
  cases o <;> simp [need]

theorem bind_ok : (x >>= f) = .ok b ↔ ∃ a, x = .ok a ∧ f a = .ok b := by
  cases x <;> simp [bind, Except.bind]

theorem bind_error : (x >>= f) = .error e ↔ x = .error e ∨ ∃ a, x = .ok a ∧ f a = .error e := by
  cases x <;> simp [bind, Except.bind]

theorem map_ok {f : α → β} : f <$> x = .ok b ↔ ∃ a, x = .ok a ∧ f a = b := by
  cases x <;> simp [Functor.map, Except.map]

theorem pure_ok {a b : α} : (pure a : Except ε α) = .ok b ↔ a = b := by
  simp [pure, Except.pure]

theorem isOk_iff : x.isOk = true ↔ ∃ a, x = .ok a := by
  cases x <;> simp [Except.isOk, Except.toBool]

theorem mem_toOption : a ∈ x.toOption ↔ x = .ok a := by
  cases x with
  | error e => simp [Except.toOption]
  | ok b => simp [Except.toOption, eq_comm]

/-! ## Loops -/

variable {as : List α}

def walk (f : β → α → Except ε β) : β → List α → Except ε β
  | b, [] => .ok b
  | b, a :: as => f b a >>= fun b' => walk f b' as
@[simp] theorem walk_nil {f : β → α → Except ε β} : walk f b [] = .ok b := rfl

variable {b' : β}

theorem walk_cons_ok {f : β → α → Except ε β} :
    walk f b (a :: as) = .ok b' ↔ ∃ c, f b a = .ok c ∧ walk f c as = .ok b' :=
  bind_ok

theorem walk_append {f : β → α → Except ε β} {bs : List α} :
    walk f b (as ++ bs) = walk f b as >>= fun c => walk f c bs := by
  induction as generalizing b with
  | nil => rfl
  | cons a as ih =>
      simp only [List.cons_append, walk]
      cases f b a with
      | error e => rfl
      | ok c => exact ih

/-- What every step of a loop keeps, the loop keeps. -/
theorem walk_induction {f : β → α → Except ε β} {P : β → Prop} (h : walk f b as = .ok b')
    (hb : P b) (hstep : ∀ c a c', a ∈ as → P c → f c a = .ok c' → P c') : P b' := by
  induction as generalizing b with
  | nil => cases h; exact hb
  | cons a as ih =>
      obtain ⟨c, hc, hrest⟩ := walk_cons_ok.mp h
      exact ih hrest (hstep b a c List.mem_cons_self hb hc)
        fun c a c' ha => hstep c a c' (List.mem_cons_of_mem _ ha)

/-- A loop whose every round adds what `g` says collects all of it. -/
theorem walk_filterMap {f : List β → α → Except ε (List β)} {g : α → Option β} {b b' : List β}
    (h : walk f b as = .ok b') (hf : ∀ c a c', f c a = .ok c' → c' = c ++ (g a).toList) :
    b' = b ++ as.filterMap g := by
  induction as generalizing b with
  | nil =>
      cases h
      simp
  | cons a as ih =>
      obtain ⟨c, hc, hrest⟩ := walk_cons_ok.mp h
      rw [ih hrest, hf b a c hc]
      cases hg : g a <;> simp [hg]

/-- A loop that succeeded took every round. -/
theorem walk_mem {f : β → α → Except ε β} (h : walk f b as = .ok b') (ha : a ∈ as) :
    ∃ c c', f c a = .ok c' := by
  induction as generalizing b with
  | nil => cases ha
  | cons x as ih =>
      obtain ⟨c, hc, hrest⟩ := walk_cons_ok.mp h
      rcases List.mem_cons.mp ha with rfl | ha
      · exact ⟨b, c, hc⟩
      · exact ih hrest ha

/-- A loop that only checks goes through exactly when every check does. -/
theorem walk_unit {f : α → Except ε Unit} {u : Unit} :
    walk (fun _ a => f a) () as = .ok u ↔ ∀ a ∈ as, f a = .ok () := by
  induction as with
  | nil => simp
  | cons a as ih =>
      rw [walk_cons_ok]
      constructor
      · rintro ⟨_, ha, hrest⟩ b hb
        rcases List.mem_cons.mp hb with rfl | hb
        · exact ha
        · exact ih.mp hrest b hb
      · intro h
        exact ⟨(), h a List.mem_cons_self,
          ih.mpr fun b hb => h b (List.mem_cons_of_mem _ hb)⟩

theorem walk_each {κ γ : Type} [DecidableEq κ] {f : β → κ × γ → Except ε β} {g : β → κ → Option γ}
    {R : κ × γ → γ → Prop} {es : List (κ × γ)} (h : walk f b es = .ok b')
    (hnodup : (es.map Prod.fst).Nodup) (hget : ∀ e ∈ es, g b e.1 = some e.2)
    (hstep : ∀ c e c', e ∈ es → g c e.1 = some e.2 → f c e = .ok c' →
      ∃ v, R e v ∧ ∀ k, g c' k = if k = e.1 then some v else g c k) :
    (∀ e ∈ es, ∃ v, R e v ∧ g b' e.1 = some v) ∧ ∀ k, k ∉ es.map Prod.fst → g b' k = g b k := by
  induction es generalizing b with
  | nil =>
      cases h
      exact ⟨by simp, fun _ _ => rfl⟩
  | cons e es ih =>
      obtain ⟨c, hone, hrest⟩ := walk_cons_ok.mp h
      rw [List.map_cons, List.nodup_cons] at hnodup
      obtain ⟨v, hv, hc⟩ := hstep b e c List.mem_cons_self
        (hget e List.mem_cons_self) hone
      have hne : ∀ e' ∈ es, e'.1 ≠ e.1 := fun e' he' heq =>
        hnodup.1 (heq ▸ List.mem_map_of_mem he')
      obtain ⟨hdone, hothers⟩ := ih hrest hnodup.2
        (fun e' he' => by
          rw [hc, if_neg (hne e' he'), hget e' (List.mem_cons_of_mem _ he')])
        fun c e' c' he' => hstep c e' c' (List.mem_cons_of_mem _ he')
      constructor
      · intro e' he'
        rcases List.mem_cons.mp he' with rfl | he'
        · exact ⟨v, hv, by rw [hothers _ hnodup.1, hc, if_pos rfl]⟩
        · exact hdone e' he'
      · intro k hk
        rw [List.map_cons, List.mem_cons, not_or] at hk
        rw [hothers k hk.2, hc, if_neg hk.1]

def gather (f : α → Except ε β) : List α → Except ε (List β)
  | [] => .ok []
  | a :: as => do
      let b ← f a
      let bs ← gather f as
      pure (b :: bs)

variable {bs : List β}

theorem gather_ok : gather f as = .ok bs ↔ List.Forall₂ (fun a b => f a = .ok b) as bs := by
  induction as generalizing bs with
  | nil =>
      rw [List.forall₂_nil_left_iff, gather, Except.ok.injEq, eq_comm]
  | cons a as ih =>
      rw [List.forall₂_cons_left_iff, gather]
      simp only [bind_ok, pure_ok]
      constructor
      · rintro ⟨b, hb, bs', hbs, rfl⟩
        exact ⟨b, bs', hb, ih.mp hbs, rfl⟩
      · rintro ⟨b, bs', hb, hbs, rfl⟩
        exact ⟨b, hb, bs', ih.mpr hbs, rfl⟩

theorem gather_mem (h : gather f as = .ok bs) {a : α} (ha : a ∈ as) : ∃ b ∈ bs, f a = .ok b := by
  induction as generalizing bs with
  | nil => cases ha
  | cons x as ih =>
      simp only [gather, bind_ok, pure_ok] at h
      obtain ⟨b, hb, bs', hbs, rfl⟩ := h
      rcases List.mem_cons.mp ha with rfl | ha
      · exact ⟨b, List.mem_cons_self, hb⟩
      · obtain ⟨c, hc, hfc⟩ := ih hbs ha
        exact ⟨c, List.mem_cons_of_mem b hc, hfc⟩

theorem gather_from (h : gather f as = .ok bs) (hb : b ∈ bs) : ∃ a ∈ as, f a = .ok b := by
  induction as generalizing bs with
  | nil =>
      cases h
      cases hb
  | cons x as ih =>
      simp only [gather, bind_ok, pure_ok] at h
      obtain ⟨c, hc, bs', hbs, rfl⟩ := h
      rcases List.mem_cons.mp hb with rfl | hb
      · exact ⟨x, List.mem_cons_self, hc⟩
      · obtain ⟨a, ha, hfa⟩ := ih hbs hb
        exact ⟨a, List.mem_cons_of_mem x ha, hfa⟩

theorem gather_ok_congr {f' : α → Except ε β} (hsame : ∀ a ∈ as, ∀ b, f a = .ok b ↔ f' a = .ok b)
    {bs : List β} : gather f as = .ok bs ↔ gather f' as = .ok bs := by
  induction as generalizing bs with
  | nil => rfl
  | cons a as ih =>
      simp only [gather, bind_ok, pure_ok]
      refine exists_congr fun b => and_congr (hsame a List.mem_cons_self b) ?_
      exact exists_congr fun cs => and_congr_left' (ih fun a ha =>
        hsame a (List.mem_cons_of_mem _ ha))

theorem gather_congr {f' : α → Except ε β} (h : ∀ a ∈ as, f a = f' a) :
    gather f as = gather f' as := by
  induction as with
  | nil => rfl
  | cons a as ih =>
      rw [gather, gather, h a List.mem_cons_self, ih fun a ha => h a (List.mem_cons_of_mem _ ha)]

theorem gather_all {Q : β → Prop} (h : ∀ a ∈ as, ∃ b, f a = .ok b ∧ Q b) :
    ∃ bs, gather f as = .ok bs ∧ ∀ b ∈ bs, Q b := by
  induction as with
  | nil => exact ⟨[], rfl, by simp⟩
  | cons a as ih =>
      obtain ⟨b, hb, hQ⟩ := h a List.mem_cons_self
      obtain ⟨bs, hbs, hall⟩ := ih fun a ha => h a (List.mem_cons_of_mem _ ha)
      refine ⟨b :: bs, gather_ok.mpr (.cons hb (gather_ok.mp hbs)), ?_⟩
      simpa using ⟨hQ, hall⟩

theorem walk_gather {γ : Type} {f : β → α → Except ε β} {g : α → Except ε γ}
    {use : β → γ → Except ε β}
    (hstep : ∀ b a b', f b a = .ok b' ↔ ∃ c, g a = .ok c ∧ use b c = .ok b') {b' : β} :
    walk f b as = .ok b' ↔ ∃ cs, gather g as = .ok cs ∧ walk use b cs = .ok b' := by
  induction as generalizing b with
  | nil =>
      constructor
      · exact fun h => ⟨[], rfl, h⟩
      · rintro ⟨cs, hcs, h⟩
        cases hcs
        exact h
  | cons a as ih =>
      simp only [walk_cons_ok, hstep, ih, gather, bind_ok, pure_ok]
      constructor
      · rintro ⟨mid, ⟨c, hc, hmid⟩, cs, hcs, hrest⟩
        exact ⟨c :: cs, ⟨c, hc, cs, hcs, rfl⟩, walk_cons_ok.mpr ⟨mid, hmid, hrest⟩⟩
      · rintro ⟨_, ⟨c, hc, cs, hcs, rfl⟩, h⟩
        obtain ⟨mid, hmid, hrest⟩ := walk_cons_ok.mp h
        exact ⟨mid, ⟨c, hc, hmid⟩, cs, hcs, hrest⟩

/-! ## Errors that cannot happen -/

/-- An attempt that does not fail with `e`, whatever else it does. -/
def Avoids (e : ε) (x : Except ε α) : Prop := x ≠ .error e

theorem Avoids.pure (a : α) : Avoids e (pure a : Except ε α) := nofun

theorem Avoids.refuse {p : Prop} [Decidable p] (h : e' ≠ e) :
    Avoids e (refuse p e') := fun hr => h (refuse_error.mp hr).2

theorem Avoids.need (h : e' ≠ e) : Avoids e (need o e') := fun hn => h (need_error.mp hn).2

theorem Avoids.error (h : e' ≠ e) :
    Avoids e (.error e' : Except ε α) := fun he => h (Except.error.inj he)

theorem Avoids.bind (hx : Avoids e x) (hf : ∀ a, x = .ok a → Avoids e (f a)) :
    Avoids e (x >>= f) := fun h => by
  rcases bind_error.mp h with hx' | ⟨a, ha, hfa⟩
  · exact hx hx'
  · exact hf a ha hfa

theorem Avoids.walk {f : β → α → Except ε β} (h : ∀ c a, a ∈ as → Avoids e (f c a)) :
    Avoids e (walk f b as) := by
  induction as generalizing b with
  | nil => exact nofun
  | cons a as ih =>
      exact Avoids.bind (h b a List.mem_cons_self) fun c _ =>
        ih fun c a ha => h c a (List.mem_cons_of_mem _ ha)

end Ahunter.Lib
