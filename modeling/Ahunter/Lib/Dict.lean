import Ahunter.Lib.Attempt
import Mathlib.Algebra.Order.BigOperators.Group.List
import Mathlib.Data.List.Sort
import Mathlib.Data.Prod.Lex
import Mathlib.Tactic.Abel

/-!
# Dictionaries in canonical key order

A finite map kept as the list of its entries in increasing key order, the
order a canonical encoding writes them in and a reader gets them back in.
The representation is canonical, so two dictionaries that answer every
lookup alike are equal (`Dict.ext_get?`), and iteration order is never an
extra piece of state.

The operations are the ones a program does to a dictionary: look a key up,
assign it, delete it, map over the values, add something up over the
entries. Each comes with its lookup lemma and, where a sum can see it, with
what it does to a sum.
-/

namespace Ahunter.Lib

variable {κ : Type} [LinearOrder κ] {α β : Type}

/-! ## Sorted entry lists -/

variable {l : List (κ × α)}

/-- Assign `v` to `k` in a list of entries sorted by key. -/
def insertEntry (k : κ) (v : α) : List (κ × α) → List (κ × α)
  | [] => [(k, v)]
  | e :: rest =>
      if k < e.1 then (k, v) :: e :: rest
      else if k = e.1 then (k, v) :: rest
      else e :: insertEntry k v rest

/-- The value a list of entries gives `k`. -/
def lookupEntry (k : κ) : List (κ × α) → Option α
  | [] => none
  | e :: rest => if k = e.1 then some e.2 else lookupEntry k rest

def EntriesSorted (l : List (κ × α)) : Prop := l.Pairwise fun a b => a.1 < b.1
instance (l : List (κ × α)) : Decidable (EntriesSorted l) :=
  inferInstanceAs (Decidable (l.Pairwise fun a b => a.1 < b.1))

theorem mem_insertEntry {k : κ} {v : α} {e : κ × α} (h : e ∈ insertEntry k v l) :
    e = (k, v) ∨ e ∈ l := by
  induction l with
  | nil => simpa [insertEntry] using h
  | cons x xs ih =>
      rw [insertEntry] at h
      split at h
      · simpa using h
      · split at h
        · rcases List.mem_cons.mp h with h | h
          · exact Or.inl h
          · exact Or.inr (List.mem_cons_of_mem _ h)
        · rcases List.mem_cons.mp h with h | h
          · exact Or.inr (by rw [h]; exact List.mem_cons_self)
          · rcases ih h with h | h
            · exact Or.inl h
            · exact Or.inr (List.mem_cons_of_mem _ h)

theorem insertEntry_sorted {k : κ} {v : α} (h : EntriesSorted l) :
    EntriesSorted (insertEntry k v l) := by
  induction l with
  | nil => simp [insertEntry, EntriesSorted]
  | cons x xs ih =>
      obtain ⟨hx, hxs⟩ := List.pairwise_cons.mp h
      rw [insertEntry]
      split
      · next hlt =>
          refine List.pairwise_cons.mpr ⟨fun e he => ?_, h⟩
          rcases List.mem_cons.mp he with rfl | he
          · exact hlt
          · exact hlt.trans (hx e he)
      · next hlt =>
          split
          · next heq =>
              exact List.pairwise_cons.mpr ⟨fun e he => heq ▸ hx e he, hxs⟩
          · next hne =>
              refine List.pairwise_cons.mpr ⟨fun e he => ?_, ih hxs⟩
              rcases mem_insertEntry he with rfl | he
              · exact lt_of_le_of_ne (not_lt.mp hlt) (Ne.symm hne)
              · exact hx e he

theorem lookupEntry_insertEntry {k j : κ} {v : α} :
    lookupEntry j (insertEntry k v l) = if j = k then some v else lookupEntry j l := by
  induction l with
  | nil => simp [insertEntry, lookupEntry]
  | cons x xs ih =>
      rw [insertEntry]
      split
      · simp only [lookupEntry]
      · next hlt =>
          split
          · next heq =>
              simp only [lookupEntry, ← heq]
              split <;> rfl
          · next hne =>
              simp only [lookupEntry, ih]
              by_cases hjx : j = x.1
              · have hjk : j ≠ k := fun h => hne (h.symm.trans hjx)
                simp [hjx, hjx ▸ hjk]
              · simp [hjx]

theorem lookupEntry_of_mem (h : EntriesSorted l) {k : κ} {v : α} (hm : (k, v) ∈ l) :
    lookupEntry k l = some v := by
  induction l with
  | nil => cases hm
  | cons x xs ih =>
      obtain ⟨hx, hxs⟩ := List.pairwise_cons.mp h
      rw [lookupEntry]
      rcases List.mem_cons.mp hm with rfl | hm
      · simp
      · rw [if_neg (hx _ hm).ne', ih hxs hm]

theorem mem_of_lookupEntry {k : κ} {v : α} (h : lookupEntry k l = some v) : (k, v) ∈ l := by
  induction l with
  | nil => cases h
  | cons x xs ih =>
      rw [lookupEntry] at h
      split at h
      · next heq => cases h; rw [heq]; exact List.mem_cons_self
      · exact List.mem_cons_of_mem _ (ih h)

theorem lookupEntry_lt {k : κ} (h : ∀ e ∈ l, k < e.1) : lookupEntry k l = none := by
  induction l with
  | nil => rfl
  | cons x xs ih =>
      rw [lookupEntry, if_neg (h x List.mem_cons_self).ne]
      exact ih fun e he => h e (List.mem_cons_of_mem _ he)

theorem entries_ext {m : List (κ × α)} (hl : EntriesSorted l) (hm : EntriesSorted m)
    (h : ∀ k, lookupEntry k l = lookupEntry k m) : l = m := by
  induction l generalizing m with
  | nil =>
      cases m with
      | nil => rfl
      | cons y ys => have := h y.1; simp [lookupEntry] at this
  | cons x xs ih =>
      obtain ⟨hx, hxs⟩ := List.pairwise_cons.mp hl
      cases m with
      | nil => have := h x.1; simp [lookupEntry] at this
      | cons y ys =>
          obtain ⟨hy, hys⟩ := List.pairwise_cons.mp hm
          have hkey : x.1 = y.1 := by
            rcases lt_trichotomy x.1 y.1 with hlt | heq | hgt
            · have hx1 := h x.1
              rw [lookupEntry_lt (l := y :: ys)] at hx1
              · simp [lookupEntry] at hx1
              · intro e he
                rcases List.mem_cons.mp he with rfl | he
                · exact hlt
                · exact hlt.trans (hy e he)
            · exact heq
            · have hy1 := h y.1
              rw [lookupEntry_lt (l := x :: xs)] at hy1
              · simp [lookupEntry] at hy1
              · intro e he
                rcases List.mem_cons.mp he with rfl | he
                · exact hgt
                · exact hgt.trans (hx e he)
          have hval : x = y := by
            have h1 := h x.1
            simp only [lookupEntry, hkey, if_true] at h1
            exact Prod.ext hkey (Option.some.inj h1)
          subst hval
          rw [ih hxs hys fun k => ?_]
          by_cases hk : k = x.1
          · rw [lookupEntry_lt (hk ▸ hx), lookupEntry_lt (hk ▸ hy)]
          · have h1 := h k
            simpa [lookupEntry, hk] using h1

/-! ## The dictionary -/

structure Dict (κ α : Type) [LinearOrder κ] where
  entries : List (κ × α)
  sorted : EntriesSorted entries

namespace Dict

variable {d : Dict κ α} {k : κ} {v : α} {l : List (κ × α)}

instance [DecidableEq α] : DecidableEq (Dict κ α) := fun a b =>
  if h : a.entries = b.entries then
    isTrue (by cases a; cases b; cases h; rfl)
  else isFalse fun hab => h (congrArg Dict.entries hab)

def empty : Dict κ α := ⟨[], List.Pairwise.nil⟩
instance : Inhabited (Dict κ α) := ⟨empty⟩

/-- The value of a key, if it has one. -/
def get? (d : Dict κ α) (k : κ) : Option α := lookupEntry k d.entries

/-- Assignment to a key. -/
def set (d : Dict κ α) (k : κ) (v : α) : Dict κ α :=
  ⟨insertEntry k v d.entries, insertEntry_sorted d.sorted⟩

/-- Deletion of a key. -/
def erase (d : Dict κ α) (k : κ) : Dict κ α :=
  ⟨d.entries.filter fun e => e.1 ≠ k, d.sorted.filter _⟩

/-- Whether a key has a value. -/
def contains (d : Dict κ α) (k : κ) : Bool := (d.get? k).isSome

def keys (d : Dict κ α) : List κ := d.entries.map Prod.fst

def values (d : Dict κ α) : List α := d.entries.map Prod.snd

def map (d : Dict κ α) (f : κ → α → β) : Dict κ β :=
  ⟨d.entries.map fun e => (e.1, f e.1 e.2), by
    rw [EntriesSorted, List.pairwise_map]
    exact d.sorted⟩

/-- The entries that satisfy a test. -/
def filter (d : Dict κ α) (p : κ → α → Bool) : Dict κ α where
  entries := d.entries.filter fun e => p e.1 e.2
  sorted := d.sorted.sublist List.filter_sublist

def setAll (d : Dict κ α) (l : List (κ × α)) : Dict κ α :=
  l.foldl (fun d e => d.set e.1 e.2) d

def ofList (l : List (κ × α)) : Dict κ α := setAll empty l

/-- The sum of `f` over the entries. -/
def sum {M : Type} [AddCommMonoid M] (d : Dict κ α) (f : κ → α → M) : M :=
  (d.entries.map fun e => f e.1 e.2).sum

theorem ext_get? {e : Dict κ α} (h : ∀ k, d.get? k = e.get? k) : d = e := by
  have hent := entries_ext d.sorted e.sorted h
  cases d; cases e
  cases hent
  rfl

@[simp] theorem get?_empty (k : κ) : (empty : Dict κ α).get? k = none := rfl

@[simp] theorem get?_set (d : Dict κ α) (k j : κ) (v : α) :
    (d.set k v).get? j = if j = k then some v else d.get? j :=
  lookupEntry_insertEntry

theorem get?_set_self (d : Dict κ α) (k : κ) (v : α) : (d.set k v).get? k = some v := by simp

theorem get?_set_of_ne {j : κ} (h : j ≠ k) : (d.set k v).get? j = d.get? j := by simp [h]

theorem mem_entries : (k, v) ∈ d.entries ↔ d.get? k = some v :=
  ⟨lookupEntry_of_mem d.sorted, mem_of_lookupEntry⟩

theorem mem_values : v ∈ d.values ↔ ∃ k, d.get? k = some v := by
  simp only [values, List.mem_map]
  constructor
  · rintro ⟨⟨k, w⟩, hm, rfl⟩
    exact ⟨k, mem_entries.mp hm⟩
  · rintro ⟨k, hk⟩
    exact ⟨(k, v), mem_entries.mpr hk, rfl⟩

theorem mem_keys : k ∈ d.keys ↔ ∃ v, d.get? k = some v := by
  simp only [keys, List.mem_map]
  constructor
  · rintro ⟨⟨j, w⟩, hm, rfl⟩
    exact ⟨w, mem_entries.mp hm⟩
  · rintro ⟨v, hk⟩
    exact ⟨(k, v), mem_entries.mpr hk, rfl⟩

theorem contains_iff : d.contains k = true ↔ ∃ v, d.get? k = some v := by
  rw [contains, Option.isSome_iff_exists]

theorem keys_sorted (d : Dict κ α) : d.keys.Pairwise (· < ·) :=
  List.pairwise_map.mpr d.sorted

theorem keys_nodup (d : Dict κ α) : d.keys.Nodup :=
  d.keys_sorted.imp fun h => h.ne

@[simp] theorem get?_map (d : Dict κ α) (f : κ → α → β) (k : κ) :
    (d.map f).get? k = (d.get? k).map (f k) := by
  simp only [get?, map]
  induction d.entries with
  | nil => rfl
  | cons x xs ih =>
      simp only [List.map_cons, lookupEntry, ih]
      by_cases hk : k = x.1
      · simp [hk]
      · simp [hk]

@[simp] theorem get?_erase (d : Dict κ α) (k j : κ) :
    (d.erase k).get? j = if j = k then none else d.get? j := by
  simp only [get?, erase]
  induction d.entries with
  | nil => simp [lookupEntry]
  | cons x xs ih =>
      by_cases hx : x.1 = k
      · rw [List.filter_cons_of_neg (by simp [hx]), ih]
        by_cases hj : j = k
        · simp [hj]
        · have : j ≠ x.1 := fun h => hj (h.trans hx)
          simp [lookupEntry, hj, this]
      · rw [List.filter_cons_of_pos (by simp [hx])]
        simp only [lookupEntry, ih]
        by_cases hjx : j = x.1
        · have : j ≠ k := fun h => hx (hjx ▸ h)
          simp [hjx, hjx ▸ this]
        · simp [hjx]

theorem map_set (d : Dict κ α) (k : κ) (v : α) (g : κ → α → β) :
    (d.set k v).map g = (d.map g).set k (g k v) := by
  refine ext_get? fun j => ?_
  by_cases hj : j = k
  · subst hj; simp
  · simp [hj]

theorem set_set (d : Dict κ α) (k : κ) (v w : α) : (d.set k v).set k w = d.set k w := by
  refine ext_get? fun j => ?_
  by_cases hj : j = k <;> simp [hj]

theorem set_get?_self (h : d.get? k = some v) : d.set k v = d := by
  refine ext_get? fun j => ?_
  by_cases hj : j = k
  · subst hj; simp [h]
  · simp [hj]

theorem get?_filter (d : Dict κ α) (p : κ → α → Bool) (k : κ) :
    (d.filter p).get? k = (d.get? k).filter (p k) := by
  ext v
  rw [Option.filter_eq_some_iff, ← mem_entries, ← mem_entries, filter, List.mem_filter]

theorem get?_setAll (h : (d.setAll l).get? k = some v) : (k, v) ∈ l ∨ d.get? k = some v := by
  induction l generalizing d with
  | nil => exact Or.inr h
  | cons e l ih =>
      rcases ih h with hmem | hget
      · exact Or.inl (List.mem_cons_of_mem _ hmem)
      · rw [get?_set] at hget
        split at hget
        · next hk =>
            cases hget
            exact Or.inl (hk ▸ List.mem_cons_self)
        · exact Or.inr hget

theorem get?_ofList (h : (ofList l).get? k = some v) : (k, v) ∈ l := by
  rcases get?_setAll h with hmem | hget
  · exact hmem
  · cases hget

theorem mem_keys_setAll :
    (∃ v, (d.setAll l).get? k = some v) ↔ k ∈ l.map Prod.fst ∨ ∃ v, d.get? k = some v := by
  induction l generalizing d with
  | nil => simp [setAll]
  | cons e l ih =>
      have hset : d.setAll (e :: l) = (d.set e.1 e.2).setAll l := rfl
      rw [hset, ih, List.map_cons, List.mem_cons]
      by_cases hk : k = e.1
      · simp [hk]
      · simp [hk]

theorem get?_setAll_of_notMem (h : k ∉ l.map Prod.fst) : (d.setAll l).get? k = d.get? k := by
  induction l generalizing d with
  | nil => rfl
  | cons e l ih =>
      rw [List.map_cons, List.mem_cons, not_or] at h
      have hset : d.setAll (e :: l) = (d.set e.1 e.2).setAll l := rfl
      rw [hset, ih h.2, get?_set_of_ne h.1]

theorem get?_setAll_of_new (h : ∀ e ∈ l, d.contains e.1 = false) (hk : d.get? k = some v) :
    (d.setAll l).get? k = some v := by
  rw [get?_setAll_of_notMem, hk]
  intro hmem
  obtain ⟨e, he, rfl⟩ := List.mem_map.mp hmem
  have hnone := h e he
  rw [contains, hk] at hnone
  cases hnone

theorem get?_setAll_of_mem (hnodup : (l.map Prod.fst).Nodup) (h : (k, v) ∈ l) :
    (d.setAll l).get? k = some v := by
  induction l generalizing d with
  | nil => cases h
  | cons e l ih =>
      rw [List.map_cons, List.nodup_cons] at hnodup
      have hset : d.setAll (e :: l) = (d.set e.1 e.2).setAll l := rfl
      rw [hset]
      rcases List.mem_cons.mp h with rfl | hmem
      · rw [get?_setAll_of_notMem hnodup.1, get?_set_self]
      · exact ih hnodup.2 hmem

theorem foldl_set_entries (d : Dict κ α) (g : α → α) :
    d.entries.foldl (fun x e => x.set e.1 (g e.2)) d = d.map fun _ => g := by
  have hall : d.entries.foldl (fun x e => x.set e.1 (g e.2)) d
      = d.setAll (d.entries.map fun e => (e.1, g e.2)) := by
    rw [setAll, List.foldl_map]
  have hkeys : (d.entries.map fun e => (e.1, g e.2)).map Prod.fst = d.keys := by
    rw [List.map_map]
    rfl
  refine ext_get? fun k => ?_
  rw [hall, get?_map]
  cases hk : d.get? k with
  | none =>
      rw [get?_setAll_of_notMem, hk, Option.map_none]
      rw [hkeys]
      intro hmem
      obtain ⟨v, hv⟩ := mem_keys.mp hmem
      rw [hk] at hv
      cases hv
  | some v =>
      have hmem : (k, g v) ∈ d.entries.map fun e => (e.1, g e.2) :=
        List.mem_map.mpr ⟨(k, v), mem_entries.mpr hk, rfl⟩
      exact get?_setAll_of_mem (hkeys ▸ d.keys_nodup) hmem

theorem mem_keys_ofList : (∃ v, (ofList l).get? k = some v) ↔ k ∈ l.map Prod.fst := by
  rw [ofList, mem_keys_setAll, or_iff_left]
  rintro ⟨v, hv⟩
  cases hv

/-! ## Sums over the entries -/

section Sums

variable {M : Type}

variable {d : Dict κ α} {f : κ → α → M}

theorem sum_empty [AddCommMonoid M] (f : κ → α → M) : (empty : Dict κ α).sum f = 0 := rfl

theorem sum_congr [AddCommMonoid M] {g : κ → α → M} (h : ∀ k v, d.get? k = some v → f k v = g k v) :
    d.sum f = d.sum g := by
  rw [sum, sum]
  congr 1
  refine List.map_congr_left fun e he => ?_
  exact h e.1 e.2 (mem_entries.mp he)

theorem sum_map [AddCommMonoid M] (d : Dict κ α) (f : κ → α → β)
    (g : κ → β → M) : (d.map f).sum g = d.sum fun k v => g k (f k v) := by
  simp only [sum, map, List.map_map]
  rfl

theorem sum_add [AddCommMonoid M] (d : Dict κ α) (f g : κ → α → M) :
    d.sum (fun k v => f k v + g k v) = d.sum f + d.sum g := by
  simp only [sum]
  induction d.entries with
  | nil => simp
  | cons x xs ih => simp only [List.map_cons, List.sum_cons, ih]; abel

theorem sum_zero [AddCommMonoid M] (h : ∀ k v, d.get? k = some v → f k v = 0) : d.sum f = 0 := by
  rw [sum_congr (g := fun _ _ => 0) h, sum]
  simp

theorem sum_set [AddCommMonoid M] (d : Dict κ α) (k : κ) (v : α) (f : κ → α → M) :
    (d.set k v).sum f + (d.get? k).elim 0 (f k) = d.sum f + f k v := by
  obtain ⟨l, hl⟩ := d
  simp only [sum, set, get?]
  induction l with
  | nil => simp [insertEntry, lookupEntry]
  | cons x xs ih =>
      obtain ⟨hx, hxs⟩ := List.pairwise_cons.mp hl
      rw [insertEntry]
      split
      · next hlt =>
          have hnone : lookupEntry k (x :: xs) = none :=
            lookupEntry_lt fun e he => by
              rcases List.mem_cons.mp he with rfl | he
              · exact hlt
              · exact hlt.trans (hx e he)
          rw [hnone]
          simp only [List.map_cons, List.sum_cons, Option.elim_none]
          abel
      · split
        · next heq =>
            simp only [List.map_cons, List.sum_cons, lookupEntry, heq,
              if_true, Option.elim_some]
            abel
        · next hne =>
            have := ih hxs
            simp only [List.map_cons, List.sum_cons, lookupEntry, hne,
              if_false]
            rw [add_assoc, this, add_assoc]

theorem sum_set_new [AddCommMonoid M] {k : κ} {v : α} (h : d.get? k = none) :
    (d.set k v).sum f = d.sum f + f k v := by
  have := sum_set d k v f
  rwa [h, Option.elim_none, add_zero] at this

theorem sum_single [AddCommMonoid M] {k : κ} {v : α} (f : κ → α → M) (h : d.get? k = some v) :
    d.sum (fun j w => if k = j then f j w else 0) = f k v := by
  obtain ⟨l, hl⟩ := d
  have hmem : (k, v) ∈ l := mem_of_lookupEntry h
  clear h
  simp only [sum]
  induction l with
  | nil => cases hmem
  | cons x xs ih =>
      obtain ⟨hx, hxs⟩ := List.pairwise_cons.mp hl
      rw [List.map_cons, List.sum_cons]
      rcases List.mem_cons.mp hmem with rfl | hmem
      · have hrest : (xs.map fun e => if k = e.1 then f e.1 e.2 else 0).sum = 0 := by
          refine List.sum_eq_zero fun m hm => ?_
          obtain ⟨e, he, rfl⟩ := List.mem_map.mp hm
          exact if_neg (hx e he).ne
        rw [if_pos rfl, hrest, add_zero]
      · have hne : k ≠ x.1 := fun heq => (hx _ hmem).ne' heq
        rw [if_neg hne, zero_add]
        exact ih hxs hmem

theorem sum_keys [AddCommMonoid M] (d : Dict κ α) (f : α → M) {l : List κ} (hnodup : l.Nodup) :
    d.sum (fun k v => if k ∈ l then f v else 0) = (l.map fun k => (d.get? k).elim 0 f).sum := by
  induction l with
  | nil => exact sum_zero fun _ _ _ => if_neg List.not_mem_nil
  | cons a l ih =>
      obtain ⟨ha, hl⟩ := List.nodup_cons.mp hnodup
      have hsplit : d.sum (fun k v => if k ∈ a :: l then f v else 0)
          = d.sum (fun k v => (if a = k then f v else 0)
              + if k ∈ l then f v else 0) := by
        refine sum_congr fun k v _ => ?_
        by_cases hk : a = k
        · subst hk
          simp [ha]
        · simp [hk, Ne.symm hk]
      rw [hsplit, sum_add, ih hl, List.map_cons, List.sum_cons]
      congr 1
      cases hget : d.get? a with
      | none =>
          refine sum_zero fun k v hk => if_neg ?_
          rintro rfl
          rw [hget] at hk
          cases hk
      | some v => exact sum_single (fun _ w => f w) hget

theorem sum_setAll [AddCommMonoid M] {l : List (κ × α)} (f : κ → α → M)
    (hnodup : (l.map Prod.fst).Nodup) (hnew : ∀ e ∈ l, d.get? e.1 = none) :
    (d.setAll l).sum f = d.sum f + (l.map fun e => f e.1 e.2).sum := by
  induction l generalizing d with
  | nil => simp [setAll]
  | cons e l ih =>
      rw [List.map_cons, List.nodup_cons] at hnodup
      have hset : (d.setAll (e :: l)) = (d.set e.1 e.2).setAll l := rfl
      rw [hset, ih hnodup.2, sum_set_new (hnew e List.mem_cons_self),
        List.map_cons, List.sum_cons, add_assoc]
      intro e' he'
      have hne : e'.1 ≠ e.1 := fun h => hnodup.1 (h ▸ List.mem_map_of_mem he')
      rw [get?_set_of_ne hne]
      exact hnew e' (List.mem_cons_of_mem _ he')

theorem sum_ofList [AddCommMonoid M] {l : List (κ × α)} (f : κ → α → M)
    (hnodup : (l.map Prod.fst).Nodup) : (ofList l).sum f = (l.map fun e => f e.1 e.2).sum := by
  rw [ofList, sum_setAll f hnodup (fun _ _ => rfl), sum_empty, zero_add]

theorem sum_erase [AddCommMonoid M] (d : Dict κ α) (k : κ) (f : κ → α → M) :
    (d.erase k).sum f + (d.get? k).elim 0 (f k) = d.sum f := by
  cases hget : d.get? k with
  | none =>
      have hsame : d.erase k = d := ext_get? fun j => by
        rw [get?_erase]
        split
        · next hj => rw [hj, hget]
        · rfl
      rw [hsame]
      simp
  | some v =>
      have hback : (d.erase k).set k v = d := ext_get? fun j => by
        rw [get?_set, get?_erase]
        split
        · next hj => rw [hj, hget]
        · rfl
      have hsum := sum_set (d.erase k) k v f
      rw [hback, get?_erase, if_pos rfl, Option.elim_none, add_zero] at hsum
      exact hsum.symm

theorem sum_set_old [AddCommGroup M] {k : κ} {v w : α} (h : d.get? k = some w) :
    (d.set k v).sum f = d.sum f + (f k v - f k w) := by
  have := sum_set d k v f
  rw [h, Option.elim_some] at this
  rw [← add_sub_assoc, ← this, add_sub_cancel_right]

variable [AddCommMonoid M] [PartialOrder M] [IsOrderedAddMonoid M]

theorem sum_nonneg (h : ∀ k v, d.get? k = some v → 0 ≤ f k v) : 0 ≤ d.sum f := by
  refine List.sum_nonneg fun x hx => ?_
  obtain ⟨e, he, rfl⟩ := List.mem_map.mp hx
  exact h e.1 e.2 (mem_entries.mp he)

theorem sum_le_sum {g : κ → α → M} (h : ∀ k v, d.get? k = some v → f k v ≤ g k v) :
    d.sum f ≤ d.sum g := by
  refine List.sum_le_sum fun e he => ?_
  exact h e.1 e.2 (mem_entries.mp he)

theorem le_sum (h : ∀ k v, d.get? k = some v → 0 ≤ f k v) {k : κ} {v : α} (hk : d.get? k = some v) :
    f k v ≤ d.sum f := by
  refine List.single_le_sum ?_ _ ?_
  · intro x hx
    obtain ⟨e, he, rfl⟩ := List.mem_map.mp hx
    exact h e.1 e.2 (mem_entries.mp he)
  · exact List.mem_map.mpr ⟨(k, v), mem_entries.mpr hk, rfl⟩

end Sums

/-! ## Checked assignments -/

def assignAll {ε γ : Type} (key : γ → κ) (f : γ → Except ε α) (d : Dict κ α) (l : List γ) :
    Except ε (Dict κ α) :=
  walk (fun d e => do
    let v ← f e
    pure (d.set (key e) v)) d l

theorem assignAll_ok {ε γ : Type} {key : γ → κ} {f : γ → Except ε α} {d' : Dict κ α} {l : List γ}
    (h : assignAll key f d l = .ok d') (hnodup : (l.map key).Nodup) :
    (∀ e ∈ l, ∃ v, f e = .ok v ∧ d'.get? (key e) = some v) ∧
      ∀ k, k ∉ l.map key → d'.get? k = d.get? k := by
  induction l generalizing d with
  | nil =>
      cases h
      exact ⟨by simp, fun _ _ => rfl⟩
  | cons e l ih =>
      obtain ⟨c, hone, hrest⟩ := walk_cons_ok.mp h
      obtain ⟨v, hv, hc⟩ := bind_ok.mp hone
      cases pure_ok.mp hc
      rw [List.map_cons, List.nodup_cons] at hnodup
      obtain ⟨hdone, hothers⟩ := ih hrest hnodup.2
      constructor
      · intro e' he'
        rcases List.mem_cons.mp he' with rfl | he'
        · exact ⟨v, hv, by rw [hothers _ hnodup.1, get?_set_self]⟩
        · exact hdone e' he'
      · intro k hk
        rw [List.map_cons, List.mem_cons, not_or] at hk
        rw [hothers k hk.2, get?_set_of_ne hk.1]

theorem assignAll_isOk {ε γ : Type} {key : γ → κ} {f : γ → Except ε α} {l : List γ}
    (h : ∀ e ∈ l, ∃ v, f e = .ok v) (d : Dict κ α) : ∃ d', assignAll key f d l = .ok d' := by
  induction l generalizing d with
  | nil => exact ⟨d, rfl⟩
  | cons e l ih =>
      obtain ⟨v, hv⟩ := h e List.mem_cons_self
      obtain ⟨d', hd'⟩ := ih (fun x hx => h x (List.mem_cons_of_mem e hx)) (d.set (key e) v)
      exact ⟨d', walk_cons_ok.mpr ⟨_, bind_ok.mpr ⟨v, hv, rfl⟩, hd'⟩⟩

end Dict

end Ahunter.Lib
