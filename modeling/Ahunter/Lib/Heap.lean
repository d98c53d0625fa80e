import Mathlib.Data.List.Basic
import Mathlib.Order.Lattice
import Mathlib.Order.Nat

/-!
# Binary heaps

The heap of `heapq`: an array in which the parent of a position is half of the
position before it, and no element has a key below its parent's. An element is
put in at the end and raised; the first element is replaced by lowering the new
one to a leaf and raising it from there.

Both keep the elements, and each keeps the order from a start in which only the
pairs at one position, the hole, are out of order.
-/

namespace Ahunter.Lib

variable {α κ : Type} [LinearOrder κ] (key : α → κ)

/-- `heap[i] < heap[j]` -/
def below (heap : Array α) (i j : ℕ) : Bool :=
  match heap[i]?, heap[j]? with
  | some x, some y => key x < key y
  | _, _ => false

/-- `_siftdown(heap, 0, pos)`: raise an element that is below its parent. -/
def siftdown : ℕ → Array α → ℕ → Array α
  | 0, heap, _ => heap
  | fuel + 1, heap, pos =>
      if 0 < pos ∧ below key heap pos ((pos - 1) / 2) = true then
        siftdown fuel (heap.swapIfInBounds pos ((pos - 1) / 2)) ((pos - 1) / 2)
      else heap

def smallerChild (heap : Array α) (pos : ℕ) : ℕ :=
  if 2 * pos + 2 < heap.size ∧ below key heap (2 * pos + 1) (2 * pos + 2) = false then 2 * pos + 2
  else 2 * pos + 1

/-- `_siftup(heap, pos)`: lower an element to a leaf and raise it from there. -/
def siftup : ℕ → Array α → ℕ → Array α
  | 0, heap, pos => siftdown key pos heap pos
  | fuel + 1, heap, pos =>
      if 2 * pos + 1 < heap.size then
        siftup fuel (heap.swapIfInBounds pos (smallerChild key heap pos))
          (smallerChild key heap pos)
      else siftdown key pos heap pos

/-- `heappush(heap, item)` -/
def heappush (heap : Array α) (item : α) : Array α :=
  siftdown key heap.size (heap.push item) heap.size

/-- `heapreplace(heap, item)` of a heap that is not empty, with the element that was the
first. -/
def heapreplace (heap : Array α) (item : α) : Option (α × Array α) :=
  heap[0]?.map fun top => (top, siftup key heap.size (heap.setIfInBounds 0 item) 0)

/-! ## Elements -/

variable {heap : Array α}

theorem getElem?_swapped {i j : ℕ} (hi : i < heap.size) (hj : j < heap.size) (k : ℕ) :
    (heap.swapIfInBounds i j)[k]? =
      if k = j then heap[i]? else if k = i then heap[j]? else heap[k]? := by
  rw [Array.swapIfInBounds_def, dif_pos hi, dif_pos hj, Array.getElem?_swap]
  by_cases hkj : j = k
  · rw [if_pos hkj, if_pos hkj.symm, Array.getElem?_eq_getElem hi]
  · rw [if_neg hkj, if_neg (Ne.symm hkj)]
    by_cases hki : i = k
    · rw [if_pos hki, if_pos hki.symm, Array.getElem?_eq_getElem hj]
    · rw [if_neg hki, if_neg (Ne.symm hki)]

theorem swapped_perm {i j : ℕ} : (heap.swapIfInBounds i j).toList.Perm heap.toList := by
  rw [Array.swapIfInBounds_def]
  split
  · split
    · exact Array.perm_iff_toList_perm.mp (Array.swap_perm _ _)
    · exact .refl _
  · exact .refl _

theorem siftdown_perm (fuel : ℕ) : ∀ (heap : Array α) (pos : ℕ),
    (siftdown key fuel heap pos).toList.Perm heap.toList := by
  induction fuel with
  | zero => exact fun _ _ => .refl _
  | succ fuel ih =>
      intro heap pos
      rw [siftdown]
      split
      · exact (ih _ _).trans swapped_perm
      · exact .refl _

theorem siftup_perm (fuel : ℕ) : ∀ (heap : Array α) (pos : ℕ),
    (siftup key fuel heap pos).toList.Perm heap.toList := by
  induction fuel with
  | zero => exact fun heap pos => siftdown_perm key pos heap pos
  | succ fuel ih =>
      intro heap pos
      rw [siftup]
      split
      · exact (ih _ _).trans swapped_perm
      · exact siftdown_perm key pos heap pos

theorem heappush_perm (heap : Array α) (item : α) :
    (heappush key heap item).toList.Perm (item :: heap.toList) := by
  refine (siftdown_perm key _ _ _).trans ?_
  rw [Array.toList_push]
  exact List.perm_append_singleton item heap.toList

theorem heapreplace_perm {heap' : Array α} {item top : α}
    (h : heapreplace key heap item = some (top, heap')) :
    (top :: heap'.toList).Perm (item :: heap.toList) := by
  obtain ⟨first, hfirst, heq⟩ := Option.map_eq_some_iff.mp h
  cases heq
  refine ((siftup_perm key _ _ _).cons top).trans ?_
  rw [Array.toList_setIfInBounds]
  have hlist : heap.toList[0]? = some top := by rw [Array.getElem?_toList, hfirst]
  cases hheap : heap.toList with
  | nil =>
      rw [hheap] at hlist
      cases hlist
  | cons x rest =>
      rw [hheap] at hlist
      cases hlist
      exact .swap _ _ _

/-! ## Order -/

variable {key}

/-- The element at one position is not above the one at another. -/
def InOrder (key : α → κ) (heap : Array α) (p c : ℕ) : Prop :=
  ∀ x y, heap[p]? = some x → heap[c]? = some y → key x ≤ key y

/-- No element is below its parent. -/
def Ordered (key : α → κ) (heap : Array α) : Prop :=
  ∀ i, 0 < i → InOrder key heap ((i - 1) / 2) i

structure Raising (key : α → κ) (heap : Array α) (hole : ℕ) : Prop where
  except : ∀ i, 0 < i → i ≠ hole → InOrder key heap ((i - 1) / 2) i
  grand : 0 < hole → ∀ c, 0 < c → (c - 1) / 2 = hole → InOrder key heap ((hole - 1) / 2) c

structure Lowering (key : α → κ) (heap : Array α) (hole : ℕ) : Prop where
  except : ∀ i, 0 < i → i ≠ hole → (i - 1) / 2 ≠ hole → InOrder key heap ((i - 1) / 2) i
  grand : 0 < hole → ∀ c, 0 < c → (c - 1) / 2 = hole → InOrder key heap ((hole - 1) / 2) c

theorem below_iff {i j : ℕ} :
    below key heap i j = true ↔ ∃ x y, heap[i]? = some x ∧ heap[j]? = some y ∧ key x < key y := by
  rw [below]
  split
  · next x y hx hy =>
      rw [decide_eq_true_iff]
      refine ⟨fun h => ⟨x, y, hx, hy, h⟩, ?_⟩
      rintro ⟨x', y', hx', hy', h⟩
      cases hx.symm.trans hx'
      cases hy.symm.trans hy'
      exact h
  · next hnone =>
      refine iff_of_false Bool.false_ne_true ?_
      rintro ⟨x, y, hx, hy, -⟩
      exact hnone x y hx hy

theorem inOrder_of_not_below {p c : ℕ} (h : below key heap c p = false) : InOrder key heap p c := by
  intro x y hx hy
  by_contra hlt
  have hbelow : below key heap c p = true := below_iff.mpr ⟨y, x, hy, hx, not_le.mp hlt⟩
  rw [h] at hbelow
  cases hbelow

theorem InOrder.trans {a b c : ℕ} (hb : b < heap.size) (hab : InOrder key heap a b)
    (hbc : InOrder key heap b c) : InOrder key heap a c := by
  intro x y hx hy
  have hz := Array.getElem?_eq_getElem hb
  exact (hab x _ hx hz).trans (hbc _ y hz hy)

theorem Raising.move {hole : ℕ} (h : Raising key heap hole) (hsize : hole < heap.size)
    (hpos : 0 < hole) (hbelow : below key heap hole ((hole - 1) / 2) = true) :
    Raising key (heap.swapIfInBounds hole ((hole - 1) / 2)) ((hole - 1) / 2) := by
  have hparent : (hole - 1) / 2 < hole := by omega
  have hget := getElem?_swapped hsize (hparent.trans hsize)
  obtain ⟨x, y, hx, hy, hlt⟩ := below_iff.mp hbelow
  generalize hp : (hole - 1) / 2 = parent at hparent hget hbelow hy ⊢
  constructor
  · intro i hi hne a b ha hb
    rw [hget] at ha hb
    rw [if_neg hne] at hb
    by_cases hhole : i = hole
    · rw [if_pos hhole, hy] at hb
      rw [hhole, hp, if_pos rfl, hx] at ha
      cases ha
      cases hb
      exact hlt.le
    · rw [if_neg hhole] at hb
      by_cases hsibling : (i - 1) / 2 = parent
      · rw [if_pos hsibling, hx] at ha
        cases ha
        exact hlt.le.trans (h.except i hi hhole y b (hsibling ▸ hy) hb)
      · rw [if_neg hsibling] at ha
        by_cases hchild : (i - 1) / 2 = hole
        · rw [if_pos hchild, hy] at ha
          cases ha
          exact h.grand hpos i hi hchild y b (hp ▸ hy) hb
        · rw [if_neg hchild] at ha
          exact h.except i hi hhole a b ha hb
  · intro hzero c hc hcparent a b ha hb
    have habove : InOrder key heap ((parent - 1) / 2) parent :=
      h.except parent hzero (by omega)
    rw [hget, if_neg (by omega), if_neg (by omega)] at ha
    rw [hget, if_neg (by omega)] at hb
    by_cases hhole : c = hole
    · rw [if_pos hhole] at hb
      exact habove a b ha hb
    · rw [if_neg hhole] at hb
      have hbetween := h.except c hc hhole
      rw [hcparent] at hbetween
      exact habove.trans (hparent.trans hsize) hbetween a b ha hb

theorem siftdown_ordered (fuel : ℕ) : ∀ {heap : Array α} {hole : ℕ}, Raising key heap hole →
    hole < heap.size → hole ≤ fuel → Ordered key (siftdown key fuel heap hole) := by
  induction fuel with
  | zero =>
      intro heap hole h _ hfuel i hi
      exact h.except i hi (by omega)
  | succ fuel ih =>
      intro heap hole h hsize hfuel
      rw [siftdown]
      split
      · next hmove =>
          refine ih (h.move hsize hmove.1 hmove.2) ?_ (by omega)
          rw [Array.size_swapIfInBounds]
          omega
      · next hstop =>
          intro i hi
          by_cases hhole : i = hole
          · subst hhole
            refine inOrder_of_not_below ?_
            rw [not_and, Bool.not_eq_true] at hstop
            exact hstop hi
          · exact h.except i hi hhole

variable (key) in
theorem smallerChild_spec {pos : ℕ} (h : 2 * pos + 1 < heap.size) :
    smallerChild key heap pos < heap.size ∧ (smallerChild key heap pos - 1) / 2 = pos ∧
      pos < smallerChild key heap pos ∧
      ∀ c, 0 < c → (c - 1) / 2 = pos → InOrder key heap (smallerChild key heap pos) c := by
  have hself : ∀ i, InOrder key heap i i := by
    intro i x y hx hy
    cases hx.symm.trans hy
    exact le_refl _
  rw [smallerChild]
  split
  · next hright =>
      refine ⟨hright.1, by omega, by omega, fun c hc hchild => ?_⟩
      have hcases : c = 2 * pos + 1 ∨ c = 2 * pos + 2 := by omega
      rcases hcases with rfl | rfl
      · exact inOrder_of_not_below hright.2
      · exact hself _
  · next hleft =>
      refine ⟨h, by omega, by omega, fun c hc hchild => ?_⟩
      have hcases : c = 2 * pos + 1 ∨ c = 2 * pos + 2 := by omega
      rcases hcases with rfl | rfl
      · exact hself _
      · intro x y hx hy
        have hsize : 2 * pos + 2 < heap.size := (Array.getElem?_eq_some_iff.mp hy).1
        rw [not_and, Bool.not_eq_false] at hleft
        obtain ⟨x', y', hx', hy', hlt⟩ := below_iff.mp (hleft hsize)
        cases hx.symm.trans hx'
        cases hy.symm.trans hy'
        exact hlt.le

theorem Lowering.move {hole : ℕ} (h : Lowering key heap hole) (hchild : 2 * hole + 1 < heap.size) :
    Lowering key (heap.swapIfInBounds hole (smallerChild key heap hole))
      (smallerChild key heap hole) := by
  obtain ⟨hsize, hparent, hlt, hsmall⟩ := smallerChild_spec key hchild
  generalize smallerChild key heap hole = small at hsize hparent hlt hsmall ⊢
  have hget := getElem?_swapped (hlt.trans hsize) hsize
  constructor
  · intro i hi hne hne' a b ha hb
    rw [hget, if_neg hne'] at ha
    rw [hget, if_neg hne] at hb
    by_cases hhole : i = hole
    · rw [if_pos hhole] at hb
      rw [if_neg (by omega)] at ha
      exact h.grand (hhole ▸ hi) small (by omega) hparent a b (hhole ▸ ha) hb
    · rw [if_neg hhole] at hb
      by_cases hsibling : (i - 1) / 2 = hole
      · rw [if_pos hsibling] at ha
        exact hsmall i hi hsibling a b ha hb
      · rw [if_neg hsibling] at ha
        exact h.except i hi hhole hsibling a b ha hb
  · intro _ c hc hcparent a b ha hb
    rw [hget, hparent, if_neg (by omega), if_pos rfl] at ha
    rw [hget, if_neg (by omega), if_neg (by omega)] at hb
    have hbetween := h.except c hc (by omega) (by omega)
    rw [hcparent] at hbetween
    exact hbetween a b ha hb

theorem Lowering.leaf {hole : ℕ} (h : Lowering key heap hole) (hleaf : heap.size ≤ 2 * hole + 1) :
    Raising key heap hole := by
  refine ⟨fun i hi hne => ?_, h.grand⟩
  by_cases hchild : (i - 1) / 2 = hole
  · intro x y _ hy
    have hsize := (Array.getElem?_eq_some_iff.mp hy).1
    omega
  · exact h.except i hi hne hchild

theorem siftup_ordered (fuel : ℕ) : ∀ {heap : Array α} {hole : ℕ}, Lowering key heap hole →
    hole < heap.size → heap.size ≤ hole + fuel → Ordered key (siftup key fuel heap hole) := by
  induction fuel with
  | zero =>
      intro heap hole h hsize hfuel
      omega
  | succ fuel ih =>
      intro heap hole h hsize hfuel
      rw [siftup]
      split
      · next hchild =>
          obtain ⟨hsmall, -, hlt, -⟩ := smallerChild_spec key hchild
          refine ih (h.move hchild) ?_ ?_
          · rw [Array.size_swapIfInBounds]
            exact hsmall
          · rw [Array.size_swapIfInBounds]
            omega
      · next hleaf => exact siftdown_ordered hole (h.leaf (not_lt.mp hleaf)) hsize (Nat.le_refl _)

theorem ordered_empty : Ordered key (#[] : Array α) := by
  intro i _ x y hx
  cases hx

theorem heappush_ordered (h : Ordered key heap) (item : α) :
    Ordered key (heappush key heap item) := by
  have hold : ∀ i < heap.size, (heap.push item)[i]? = heap[i]? :=
    fun i hi => Array.getElem?_push_lt hi ▸ (Array.getElem?_eq_getElem hi).symm
  refine siftdown_ordered heap.size ⟨fun i hi hne x y hx hy => ?_, fun _ c _ hc x y _ hy => ?_⟩
    (by rw [Array.size_push]; omega) (Nat.le_refl _)
  · have hsize := (Array.getElem?_eq_some_iff.mp hy).1
    rw [Array.size_push] at hsize
    rw [hold _ (by omega)] at hx hy
    exact h i hi x y hx hy
  · have hsize := (Array.getElem?_eq_some_iff.mp hy).1
    rw [Array.size_push] at hsize
    omega

theorem heapreplace_ordered {heap' : Array α} {item top : α} (h : Ordered key heap)
    (hreplace : heapreplace key heap item = some (top, heap')) : Ordered key heap' := by
  obtain ⟨first, hfirst, heq⟩ := Option.map_eq_some_iff.mp hreplace
  cases heq
  have hsize := (Array.getElem?_eq_some_iff.mp hfirst).1
  refine siftup_ordered heap.size ⟨fun i hi _ hne x y hx hy => ?_, fun hzero => ?_⟩
    (by rw [Array.size_setIfInBounds]; exact hsize)
    (by rw [Array.size_setIfInBounds]; omega)
  · rw [Array.getElem?_setIfInBounds_ne (Ne.symm hne)] at hx
    rw [Array.getElem?_setIfInBounds_ne (by omega)] at hy
    exact h i hi x y hx hy
  · exact absurd hzero (lt_irrefl 0)

theorem Ordered.first (h : Ordered key heap) {top : α} (htop : heap[0]? = some top) :
    ∀ x ∈ heap.toList, key top ≤ key x := by
  have hall : ∀ (i : ℕ) (x : α), heap[i]? = some x → key top ≤ key x := by
    intro i
    induction i using Nat.strong_induction_on with
    | _ i ih =>
        intro x hx
        rcases Nat.eq_zero_or_pos i with rfl | hi
        · cases htop.symm.trans hx
          exact le_refl _
        · have hsize := (Array.getElem?_eq_some_iff.mp hx).1
          have hparent := Array.getElem?_eq_getElem (show (i - 1) / 2 < heap.size by omega)
          exact (ih _ (by omega) _ hparent).trans (h i hi _ x hparent hx)
  intro x hx
  obtain ⟨i, hi⟩ := List.mem_iff_getElem?.mp hx
  rw [Array.getElem?_toList] at hi
  exact hall i x hi

end Ahunter.Lib
