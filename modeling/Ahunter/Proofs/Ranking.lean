import Ahunter.Research.Ranking

/-!
# A bounded heap ranks as a sort does

After every row the heap has the best of the rows so far, as many as the limit
allows: none of those that were left out has a smaller key than one that is
kept. The first entry of the heap is the worst of them, so that a row which is
not better than it is left out, and one which is takes its place. What is sorted
in the end is a first part of all rows in their order, the same as that of the
sort when no two keys agree.

The size is that of the entries in the heap with what stands between them. Both
are invariants of a turn of the loop, and carried over the whole of it.
-/

namespace Ahunter.Research

open Ahunter.Lib Ahunter.Products

variable {py : Python}

/-! ## Sizes -/

def selectionBytes (entries : List Entry) : ℤ :=
  2 + (entries.map Entry.bytes).sum + ((entries.length - 1 : ℕ) : ℤ)

theorem selectionBytes_perm {l l' : List Entry} (h : l.Perm l') :
    selectionBytes l = selectionBytes l' := by
  rw [selectionBytes, selectionBytes, (h.map _).sum_eq, h.length_eq]

theorem selectionBytes_cons (entry : Entry) (l : List Entry) :
    selectionBytes (entry :: l) =
      selectionBytes l + entry.bytes + if l.length = 0 then 0 else 1 := by
  rw [selectionBytes, selectionBytes, List.map_cons, List.sum_cons, List.length_cons]
  cases l with
  | nil =>
      simp only [List.map_nil, List.sum_nil, List.length_nil, if_pos]
      ring
  | cons x l =>
      rw [if_neg (by simp), List.length_cons, Nat.add_sub_cancel, Nat.add_sub_cancel]
      push_cast
      ring

/-! ## One more entry -/

variable {limit : ℕ} {remainingBytes : Option ℤ} {s s' : Selection}

def Entry.keyed (entry : Entry) : RankKey × Row := (entry.key, entry.row)

structure Selection.Best (limit : ℕ) (rows : List (RankKey × Row)) (s : Selection) : Prop where
  ordered : Ordered Entry.reverseKey s.heap
  bytes : s.bytes = selectionBytes s.heap.toList
  bounded : s.heap.size ≤ limit
  best : ∃ rest, (s.heap.toList.map Entry.keyed ++ rest).Perm rows ∧
    (∀ entry ∈ s.heap.toList, ∀ r ∈ rest, entry.key ≤ r.1) ∧ (s.heap.size = limit ∨ rest = [])

theorem best_start (limit : ℕ) : Selection.start.Best limit [] where
  ordered := ordered_empty
  bytes := rfl
  bounded := Nat.zero_le _
  best := ⟨[], .refl _, fun _ h => (List.not_mem_nil h).elim, .inr rfl⟩

theorem admit_cases {entry : Entry} (h : admitEntry limit remainingBytes s entry = .ok s') :
    (s.heap.size < limit ∧ s' = ⟨heappush Entry.reverseKey s.heap entry,
        s.bytes + entry.bytes + if s.heap.size = 0 then 0 else 1, s.sequence + 1⟩) ∨
      ∃ worst, ¬ s.heap.size < limit ∧ s.heap[0]? = some worst ∧ ((∃ heap, entry.key < worst.key ∧
            heapreplace Entry.reverseKey s.heap entry = some (worst, heap) ∧
            s' = ⟨heap, s.bytes - worst.bytes + entry.bytes, s.sequence + 1⟩) ∨
          worst.key ≤ entry.key ∧ s' = { s with sequence := s.sequence + 1 }) := by
  rw [admitEntry] at h
  split at h
  · next hroom =>
      obtain ⟨-, -, h⟩ := bind_ok.mp h
      exact .inl ⟨hroom, (pure_ok.mp h).symm⟩
  · next hfull =>
      obtain ⟨worst, hworst, h⟩ := bind_ok.mp h
      rw [need_ok] at hworst
      refine .inr ⟨worst, hfull, hworst, ?_⟩
      split at h
      · next hlt =>
          obtain ⟨⟨removed, heap⟩, hreplace, h⟩ := bind_ok.mp h
          rw [need_ok] at hreplace
          obtain ⟨-, -, h⟩ := bind_ok.mp h
          have hremoved : removed = worst := by
            obtain ⟨first, hfirst, heq⟩ := Option.map_eq_some_iff.mp hreplace
            cases heq
            exact Option.some.inj (hfirst.symm.trans hworst)
          subst hremoved
          exact .inl ⟨heap, hlt, hreplace, (pure_ok.mp h).symm⟩
      · next hge => exact .inr ⟨not_lt.mp hge, (pure_ok.mp h).symm⟩

theorem Selection.Best.admitEntry {rows : List (RankKey × Row)} (hs : s.Best limit rows)
    {entry : Entry} (h : admitEntry limit remainingBytes s entry = .ok s') :
    s'.Best limit (entry.keyed :: rows) := by
  obtain ⟨rest, hperm, hbest, hlimit⟩ := hs.best
  rcases admit_cases h with ⟨hroom, rfl⟩ | ⟨worst, hfull, hworst, h⟩
  · have hrest : rest = [] := hlimit.resolve_left hroom.ne
    subst hrest
    have hpush := heappush_perm Entry.reverseKey s.heap entry
    refine ⟨heappush_ordered hs.ordered entry, ?_, ?_, [], ?_,
      fun _ _ _ h => (List.not_mem_nil h).elim, .inr rfl⟩
    · rw [selectionBytes_perm hpush, selectionBytes_cons, ← hs.bytes, Array.length_toList]
    · have hsize := hpush.length_eq
      rw [List.length_cons, Array.length_toList, Array.length_toList] at hsize
      dsimp only
      omega
    · rw [List.append_nil] at hperm ⊢
      exact (hpush.map _).trans (hperm.cons _)
  · have htop : ∀ e ∈ s.heap.toList, e.key ≤ worst.key := fun e he =>
      hs.ordered.first hworst e he
    rcases h with ⟨heap, hlt, hreplace, rfl⟩ | ⟨hge, rfl⟩
    · have hperm' := heapreplace_perm Entry.reverseKey hreplace
      have hmem : ∀ e ∈ heap.toList, e = entry ∨ e ∈ s.heap.toList := fun e he =>
        List.mem_cons.mp (hperm'.mem_iff.mp (List.mem_cons_of_mem _ he))
      have hsize := hperm'.length_eq
      rw [List.length_cons, List.length_cons, Array.length_toList, Array.length_toList] at hsize
      have hfilled := hs.bounded
      refine ⟨heapreplace_ordered hs.ordered hreplace, ?_, ?_, worst.keyed :: rest, ?_, ?_, ?_⟩
      · have hheap : heap.size ≠ 0 := by
          have hpos := (Array.getElem?_eq_some_iff.mp hworst).1
          omega
        have hbytes := selectionBytes_perm hperm'
        rw [selectionBytes_cons, selectionBytes_cons, Array.length_toList, Array.length_toList,
          if_neg hheap, if_neg (by omega), ← hs.bytes] at hbytes
        dsimp only
        linarith
      · dsimp only
        omega
      · refine List.perm_middle.trans (((hperm'.map Entry.keyed).append_right rest).trans ?_)
        exact hperm.cons _
      · intro e he r hr
        have hworst' : e.key ≤ worst.key := by
          rcases hmem e he with rfl | hold
          · exact hlt.le
          · exact htop e hold
        rcases List.mem_cons.mp hr with rfl | hr
        · exact hworst'
        · refine hworst'.trans (hbest worst ?_ r hr)
          exact List.mem_of_getElem? (Array.getElem?_toList ▸ hworst)
      · left
        dsimp only
        omega
    · refine ⟨hs.ordered, hs.bytes, hs.bounded, entry.keyed :: rest, ?_, ?_, .inl ?_⟩
      · exact List.perm_middle.trans (hperm.cons _)
      · intro e he r hr
        rcases List.mem_cons.mp hr with rfl | hr
        · exact (htop e he).trans hge
        · exact hbest e he r hr
      · have hbounded := hs.bounded
        dsimp only
        omega

theorem admit_isOk (hlimit : 0 < limit) (s : Selection) (entry : Entry) :
    ∃ s', admitEntry limit none s entry = .ok s' := by
  have hwithin : ∀ projected, withinBytes none projected = .ok () := by
    intro projected
    rw [withinBytes, refuse_ok]
    rintro ⟨_, h, -⟩
    cases h
  rw [admitEntry]
  split
  · exact ⟨_, bind_ok.mpr ⟨(), hwithin _, rfl⟩⟩
  · next hfull =>
      obtain ⟨top, htop⟩ : ∃ top, s.heap[0]? = some top :=
        ⟨_, Array.getElem?_eq_getElem (show 0 < s.heap.size by omega)⟩
      rw [htop]
      simp only [bind_ok, need_ok, Option.some.injEq, exists_eq_left']
      split
      · obtain ⟨heap, hheap⟩ :
            ∃ heap, heapreplace Entry.reverseKey s.heap entry = some (top, heap) :=
          ⟨_, by rw [heapreplace, htop]; rfl⟩
        exact ⟨_, bind_ok.mpr ⟨(top, heap), need_ok.mpr hheap, bind_ok.mpr ⟨(), hwithin _, rfl⟩⟩⟩
      · exact ⟨_, rfl⟩

/-! ## All rows -/

def keyedRows (py : Python) (spec : FilterSpec) (field : String) (direction : Direction)
    (rows : List Row) : Except String (List (RankKey × Row)) := do
  let found ← gather (fun row => do
    let key ← rowKey py spec field direction row
    pure (key.map fun k => (k, row))) rows
  pure found.reduceOption

variable {spec : FilterSpec} {field : String} {direction : Direction} {limit : ℕ}

theorem rankStep_cases {row : Row}
    (h : rankStep py spec field direction limit remainingBytes s row = .ok s') :
    (rowKey py spec field direction row = .ok none ∧ s' = s) ∨
      ∃ key, rowKey py spec field direction row = .ok (some key) ∧
        admitEntry limit remainingBytes s ⟨key, s.sequence, row, py.jsonBytes row + 32⟩ = .ok s' := by
  obtain ⟨key, hkey, h⟩ := bind_ok.mp h
  cases key with
  | none => exact .inl ⟨hkey, (pure_ok.mp h).symm⟩
  | some key => exact .inr ⟨key, hkey, h⟩

theorem keyedRows_cons {row : Row} {rows : List Row} {keyed : List (RankKey × Row)} :
    keyedRows py spec field direction (row :: rows) = .ok keyed ↔
      ∃ key rest, rowKey py spec field direction row = .ok key ∧
        keyedRows py spec field direction rows = .ok rest ∧
          keyed = (key.map fun k => (k, row)).toList ++ rest := by
  simp only [keyedRows, gather, bind_ok, pure_ok]
  constructor
  · rintro ⟨_, ⟨_, ⟨key, hkey, rfl⟩, found, hfound, rfl⟩, rfl⟩
    refine ⟨key, _, hkey, ⟨found, hfound, rfl⟩, ?_⟩
    cases key <;> rfl
  · rintro ⟨key, _, hkey, ⟨found, hfound, rfl⟩, rfl⟩
    refine ⟨_, ⟨_, ⟨key, hkey, rfl⟩, found, hfound, rfl⟩, ?_⟩
    cases key <;> rfl

theorem walk_best {rows : List Row} :
    ∀ {s s' : Selection} {before : List (RankKey × Row)}, s.Best limit before →
      walk (rankStep py spec field direction limit remainingBytes) s rows = .ok s' →
      ∃ keyed, keyedRows py spec field direction rows = .ok keyed ∧
        s'.Best limit (keyed.reverse ++ before) := by
  induction rows with
  | nil =>
      intro s s' before hs h
      cases h
      exact ⟨[], rfl, hs⟩
  | cons row rows ih =>
      intro s s' before hs h
      obtain ⟨t, ht, hrest⟩ := walk_cons_ok.mp h
      rcases rankStep_cases ht with ⟨hkey, rfl⟩ | ⟨key, hkey, hadmit⟩
      · obtain ⟨keyed, hkeyed, hbest⟩ := ih hs hrest
        exact ⟨keyed, keyedRows_cons.mpr ⟨none, keyed, hkey, hkeyed, rfl⟩, hbest⟩
      · obtain ⟨keyed, hkeyed, hbest⟩ := ih (hs.admitEntry hadmit) hrest
        refine ⟨(key, row) :: keyed,
          keyedRows_cons.mpr ⟨some key, keyed, hkey, hkeyed, rfl⟩, ?_⟩
        rw [List.reverse_cons, List.append_assoc]
        exact hbest

theorem walk_isOk (hlimit : 0 < limit) {rows : List Row} :
    ∀ {s : Selection} {keyed : List (RankKey × Row)},
      keyedRows py spec field direction rows = .ok keyed →
      ∃ s', walk (rankStep py spec field direction limit none) s rows = .ok s' := by
  induction rows with
  | nil => exact fun {s} _ _ => ⟨s, rfl⟩
  | cons row rows ih =>
      intro s keyed h
      obtain ⟨key, rest, hkey, hrest, -⟩ := keyedRows_cons.mp h
      cases key with
      | none =>
          obtain ⟨s', hs'⟩ := ih (s := s) hrest
          exact ⟨s', walk_cons_ok.mpr ⟨s, bind_ok.mpr ⟨none, hkey, rfl⟩, hs'⟩⟩
      | some key =>
          obtain ⟨t, ht⟩ := admit_isOk hlimit s ⟨key, s.sequence, row, py.jsonBytes row + 32⟩
          obtain ⟨s', hs'⟩ := ih (s := t) hrest
          exact ⟨s', walk_cons_ok.mpr ⟨t, bind_ok.mpr ⟨some key, hkey, ht⟩, hs'⟩⟩

/-! ## The order of the answer -/

instance : Std.Total fun a b : RankKey × Row => a.1 ≤ b.1 := ⟨fun a b => le_total a.1 b.1⟩

instance : IsTrans (RankKey × Row) fun a b => a.1 ≤ b.1 := ⟨fun _ _ _ => le_trans⟩

instance : Std.Total fun a b : Entry => toLex (a.key, a.sequence) ≤ toLex (b.key, b.sequence) :=
  ⟨fun a b => le_total (toLex (a.key, a.sequence)) (toLex (b.key, b.sequence))⟩

instance : IsTrans Entry fun a b => toLex (a.key, a.sequence) ≤ toLex (b.key, b.sequence) :=
  ⟨fun _ _ _ => le_trans⟩

theorem Selection.Best.rows {keyed : List (RankKey × Row)} (h : s.Best limit keyed)
    (hdistinct : (keyed.map Prod.fst).Nodup) :
    s.rows = ((keyed.insertionSort fun a b => a.1 ≤ b.1).take limit).map Prod.snd := by
  obtain ⟨rest, hperm, hbest, hlimit⟩ := h.best
  have hsorted : (s.heap.toList.insertionSort fun a b =>
      toLex (a.key, a.sequence) ≤ toLex (b.key, b.sequence)).Perm s.heap.toList :=
    List.perm_insertionSort _ _
  have horder := List.pairwise_insertionSort
    (fun a b : Entry => toLex (a.key, a.sequence) ≤ toLex (b.key, b.sequence)) s.heap.toList
  rw [Selection.rows]
  generalize (s.heap.toList.insertionSort fun a b =>
    toLex (a.key, a.sequence) ≤ toLex (b.key, b.sequence)) = kept at hsorted horder ⊢
  have hall : keyed.insertionSort (fun a b => a.1 ≤ b.1) =
      kept.map Entry.keyed ++ rest.insertionSort fun a b => a.1 ≤ b.1 := by
    have hparts : (kept.map Entry.keyed ++ rest.insertionSort fun a b => a.1 ≤ b.1).Perm keyed :=
      ((hsorted.map _).append (List.perm_insertionSort _ _)).trans hperm
    refine ((List.perm_insertionSort _ _).trans hparts.symm).eq_of_pairwise ?_
      (List.pairwise_insertionSort _ _) (List.pairwise_append.mpr ⟨?_, ?_, ?_⟩)
    · intro a b ha hb hab hba
      rw [List.mem_insertionSort] at ha
      exact List.inj_on_of_nodup_map hdistinct ha (hparts.mem_iff.mp hb) (le_antisymm hab hba)
    · rw [List.pairwise_map]
      exact horder.imp fun hle => Prod.Lex.monotone_fst _ _ hle
    · exact List.pairwise_insertionSort _ _
    · intro a ha b hb
      obtain ⟨entry, hentry, rfl⟩ := List.mem_map.mp ha
      rw [List.mem_insertionSort] at hb
      exact hbest entry (hsorted.mem_iff.mp hentry) b hb
  have hlength : (kept.map Entry.keyed).length = s.heap.size := by
    rw [List.length_map, hsorted.length_eq, Array.length_toList]
  have htake : (keyed.insertionSort fun a b => a.1 ≤ b.1).take limit = kept.map Entry.keyed := by
    rw [hall]
    rcases hlimit with hfull | rfl
    · rw [← hfull, ← hlength, List.take_left]
    · rw [List.insertionSort_nil, List.append_nil]
      exact List.take_of_length_le (hlength ▸ h.bounded)
  rw [htake, List.map_map]
  rfl

/-! ## The sort -/

theorem payloadFiltered_ok {rows : List Row} {keyed : List (RankKey × Row)} :
    (∃ values found, gather (fun row => do
          let matched ← matchesFilter spec row
          pure (if matched then some row else none)) rows = .ok values ∧ gather (fun row => do
          let number ← numeric py (valueOf? row field)
          pure (number.map fun x => (rankKey py direction row x, row))) values.reduceOption =
            .ok found ∧ keyed = found.reduceOption) ↔
      keyedRows py spec field direction rows = .ok keyed := by
  induction rows generalizing keyed with
  | nil =>
      constructor
      · rintro ⟨_, _, hvalues, hfound, rfl⟩
        cases hvalues
        cases hfound
        rfl
      · intro h
        cases h
        exact ⟨[], [], rfl, rfl, rfl⟩
  | cons row rows ih =>
      rw [keyedRows_cons]
      constructor
      · rintro ⟨_, found, hall, hfound, rfl⟩
        obtain ⟨value, hvalue, hrest⟩ := bind_ok.mp hall
        obtain ⟨values, hvalues, heq⟩ := bind_ok.mp hrest
        obtain rfl := pure_ok.mp heq
        obtain ⟨matched, hmatched, heq⟩ := bind_ok.mp hvalue
        obtain rfl := pure_ok.mp heq
        cases matched with
        | false =>
            exact ⟨none, _, bind_ok.mpr ⟨false, hmatched, rfl⟩,
              ih.mp ⟨values, found, hvalues, hfound, rfl⟩, rfl⟩
        | true =>
            obtain ⟨_, hkey, htail⟩ := bind_ok.mp hfound
            obtain ⟨rest, hrest, heq⟩ := bind_ok.mp htail
            obtain rfl := pure_ok.mp heq
            obtain ⟨number, hnumber, heq⟩ := bind_ok.mp hkey
            obtain rfl := pure_ok.mp heq
            refine ⟨number.map (rankKey py direction row), _, bind_ok.mpr ⟨true, hmatched,
              bind_ok.mpr ⟨number, hnumber, rfl⟩⟩, ih.mp ⟨values, rest, hvalues, hrest, rfl⟩, ?_⟩
            cases number <;> rfl
      · rintro ⟨key, rest, hkey, hrest, rfl⟩
        obtain ⟨values, found, hvalues, hfound, rfl⟩ := ih.mpr hrest
        obtain ⟨matched, hmatched, hkey⟩ := bind_ok.mp hkey
        cases matched with
        | false =>
            obtain rfl := pure_ok.mp hkey
            refine ⟨none :: values, found, bind_ok.mpr ⟨none, bind_ok.mpr ⟨false, hmatched, rfl⟩,
              bind_ok.mpr ⟨values, hvalues, rfl⟩⟩, hfound, rfl⟩
        | true =>
            obtain ⟨number, hnumber, heq⟩ := bind_ok.mp hkey
            obtain rfl := pure_ok.mp heq
            refine ⟨some row :: values, _, bind_ok.mpr ⟨some row, bind_ok.mpr ⟨true, hmatched, rfl⟩,
              bind_ok.mpr ⟨values, hvalues, rfl⟩⟩, bind_ok.mpr ⟨_, bind_ok.mpr ⟨number, hnumber, rfl⟩,
              bind_ok.mpr ⟨found, hfound, rfl⟩⟩, ?_⟩
            cases number <;> rfl

theorem rank_iff {payload : Payload} {params : Row} {r : List Row} :
    rank py payload params = .ok r ↔
      ∃ rows spec field direction limit keyed, payloadRows payload = .ok rows ∧
        filterSpec params = .ok spec ∧ fieldOf (valueOf? params "field") = .ok field ∧
        directionOf (valueOf? params "direction") = .ok direction ∧
        limitOf (valueOf? params "limit") = .ok limit ∧
        keyedRows py spec field direction rows = .ok keyed ∧ r = enumerated
          (((keyed.insertionSort fun a b => a.1 ≤ b.1).take limit).map Prod.snd) := by
  constructor
  · intro h
    obtain ⟨_, hfiltered, h₁⟩ := bind_ok.mp h
    obtain ⟨field, hfield, h₂⟩ := bind_ok.mp h₁
    obtain ⟨direction, hdirection, h₃⟩ := bind_ok.mp h₂
    obtain ⟨limit, hlimit, h₄⟩ := bind_ok.mp h₃
    obtain ⟨found, hfound, h₅⟩ := bind_ok.mp h₄
    obtain ⟨rows, hrows, hf₁⟩ := bind_ok.mp hfiltered
    obtain ⟨spec, hspec, hf₂⟩ := bind_ok.mp hf₁
    obtain ⟨values, hvalues, heq⟩ := bind_ok.mp hf₂
    obtain rfl := pure_ok.mp heq
    exact ⟨rows, spec, field, direction, limit, _, hrows, hspec, hfield, hdirection, hlimit,
      payloadFiltered_ok.mp ⟨values, found, hvalues, hfound, rfl⟩, (pure_ok.mp h₅).symm⟩
  · rintro ⟨rows, spec, field, direction, limit, keyed, hrows, hspec, hfield, hdirection, hlimit,
      hkeyed, rfl⟩
    obtain ⟨values, found, hvalues, hfound, rfl⟩ := payloadFiltered_ok.mpr hkeyed
    have hfiltered : filteredRows payload params = .ok values.reduceOption :=
      bind_ok.mpr ⟨rows, hrows, bind_ok.mpr ⟨spec, hspec, bind_ok.mpr ⟨values, hvalues, rfl⟩⟩⟩
    exact bind_ok.mpr ⟨_, hfiltered, bind_ok.mpr ⟨field, hfield, bind_ok.mpr ⟨direction, hdirection,
      bind_ok.mpr ⟨limit, hlimit, bind_ok.mpr ⟨found, hfound, rfl⟩⟩⟩⟩⟩

theorem streamRank_iff {rows : List Row} {params : Row} {r : List Row} :
    streamRank py rows params none remainingBytes = .ok r ↔
      ∃ spec field direction limit s, filterSpec params = .ok spec ∧
        fieldOf (valueOf? params "field") = .ok field ∧
        directionOf (valueOf? params "direction") = .ok direction ∧
        limitOf (valueOf? params "limit") = .ok limit ∧
        walk (rankStep py spec field direction limit remainingBytes) .start rows = .ok s ∧
        r = enumerated s.rows := by
  simp only [streamRank, bind_ok, pure_ok, refuse_ok, Option.not_mem_none, false_and, exists_false,
    not_false_eq_true, true_and, exists_const]
  constructor
  · rintro ⟨spec, hspec, field, hfield, direction, hdirection, limit, hlimit, s, hs, rfl⟩
    exact ⟨spec, field, direction, limit, s, hspec, hfield, hdirection, hlimit, hs, rfl⟩
  · rintro ⟨spec, field, direction, limit, s, hspec, hfield, hdirection, hlimit, hs, rfl⟩
    exact ⟨spec, hspec, field, hfield, direction, hdirection, limit, hlimit, s, hs, rfl⟩

theorem limitOf_pos {value : Option Payload} (h : limitOf value = .ok limit) : 0 < limit := by
  rw [limitOf.eq_def] at h
  split at h
  · cases h
    decide
  · split at h
    · cases h
    · next limit' hlimit =>
        cases h
        omega
  · cases h

/-! ## The budget -/

def answerBytes (py : Python) (rows : List Row) : ℤ :=
  2 + (rows.map fun row => (py.jsonBytes row : ℤ) + 32).sum + ((rows.length - 1 : ℕ) : ℤ)

/-- Every entry has the size of its row. -/
def Selection.Sized (py : Python) (s : Selection) : Prop :=
  ∀ entry ∈ s.heap.toList, entry.bytes = py.jsonBytes entry.row + 32

theorem Selection.Sized.total (h : s.Sized py) :
    selectionBytes s.heap.toList = answerBytes py (s.heap.toList.map Entry.row) := by
  have hsizes : s.heap.toList.map Entry.bytes =
      (s.heap.toList.map Entry.row).map fun row => (py.jsonBytes row : ℤ) + 32 := by
    rw [List.map_map]
    exact List.map_congr_left h
  rw [selectionBytes, answerBytes, hsizes, List.length_map]

theorem Selection.Sized.admitEntry (hs : s.Sized py) {entry : Entry}
    (hentry : entry.bytes = py.jsonBytes entry.row + 32)
    (h : admitEntry limit remainingBytes s entry = .ok s') : s'.Sized py := by
  have hcons : ∀ e ∈ entry :: s.heap.toList, e.bytes = py.jsonBytes e.row + 32 := by
    intro e he
    rcases List.mem_cons.mp he with rfl | he
    · exact hentry
    · exact hs e he
  rcases admit_cases h with ⟨-, rfl⟩ | ⟨worst, -, -, ⟨heap, -, hreplace, rfl⟩ | ⟨-, rfl⟩⟩
  · exact fun e he => hcons e ((heappush_perm Entry.reverseKey s.heap entry).mem_iff.mp he)
  · exact fun e he => hcons e ((heapreplace_perm Entry.reverseKey hreplace).mem_iff.mp
      (List.mem_cons_of_mem _ he))
  · exact hs

theorem walk_sized {rows : List Row} (hs : s.Sized py)
    (h : walk (rankStep py spec field direction limit remainingBytes) s rows = .ok s') :
    s'.Sized py :=
  walk_induction h hs fun t row t' _ ht hstep => by
    rcases rankStep_cases hstep with ⟨-, rfl⟩ | ⟨key, -, hadmit⟩
    · exact ht
    · exact ht.admitEntry rfl hadmit

theorem walk_bytes {rows : List Row}
    (h : walk (rankStep py spec field direction limit remainingBytes) .start rows = .ok s) :
    s.bytes = answerBytes py (s.heap.toList.map Entry.row) := by
  obtain ⟨keyed, -, hbest⟩ := walk_best (best_start limit) h
  have hsized : s.Sized py := walk_sized (fun e he => (List.not_mem_nil he).elim) h
  rw [hbest.bytes, hsized.total]

/-- What the query says that runs out of its budget. -/
def byteDenial : String := "query result exceeds byte budget"

theorem withinBytes_none (projected : ℤ) : withinBytes none projected = .ok () := by
  rw [withinBytes, refuse_ok]
  rintro ⟨_, h, -⟩
  cases h

theorem withinBytes_denied {budget projected : ℤ}
    (h : withinBytes (some budget) projected = .error byteDenial) : budget < projected := by
  obtain ⟨⟨_, hbudget, hlt⟩, -⟩ := refuse_error.mp h
  cases hbudget
  exact hlt

theorem admit_unlimited {entry : Entry} (h : admitEntry limit remainingBytes s entry = .ok s') :
    admitEntry limit none s entry = .ok s' := by
  rw [admitEntry] at h ⊢
  split at h
  · next hroom =>
      rw [if_pos hroom]
      obtain ⟨-, -, h⟩ := bind_ok.mp h
      exact bind_ok.mpr ⟨(), withinBytes_none _, h⟩
  · next hfull =>
      rw [if_neg hfull]
      obtain ⟨worst, hworst, h⟩ := bind_ok.mp h
      refine bind_ok.mpr ⟨worst, hworst, ?_⟩
      split at h
      · next hlt =>
          rw [if_pos hlt]
          obtain ⟨replaced, hreplace, h⟩ := bind_ok.mp h
          obtain ⟨-, -, h⟩ := bind_ok.mp h
          exact bind_ok.mpr ⟨replaced, hreplace, bind_ok.mpr ⟨(), withinBytes_none _, h⟩⟩
      · next hge =>
          rw [if_neg hge]
          exact h

theorem admit_denied {budget : ℤ} {entry : Entry}
    (h : admitEntry limit (some budget) s entry = .error byteDenial) :
    ∃ s', admitEntry limit none s entry = .ok s' ∧ budget < s'.bytes := by
  rw [admitEntry] at h ⊢
  split at h
  · next hroom =>
      rw [if_pos hroom]
      rcases bind_error.mp h with hdenied | ⟨-, -, h⟩
      · exact ⟨_, bind_ok.mpr ⟨(), withinBytes_none _, rfl⟩, withinBytes_denied hdenied⟩
      · cases h
  · next hfull =>
      rw [if_neg hfull]
      rcases bind_error.mp h with hindex | ⟨worst, hworst, h⟩
      · exact absurd (need_error.mp hindex).2 (by decide)
      · simp only [hworst]
        split at h
        · next hlt =>
            rcases bind_error.mp h with hindex | ⟨replaced, hreplace, h⟩
            · exact absurd (need_error.mp hindex).2 (by decide)
            · rcases bind_error.mp h with hdenied | ⟨-, -, h⟩
              · refine ⟨⟨replaced.2, s.bytes - replaced.1.bytes + entry.bytes, s.sequence + 1⟩,
                  bind_ok.mpr ⟨worst, rfl, ?_⟩, withinBytes_denied hdenied⟩
                rw [if_pos hlt]
                exact bind_ok.mpr ⟨replaced, hreplace, bind_ok.mpr ⟨(), withinBytes_none _, rfl⟩⟩
              · cases h
        · cases h

theorem gather_avoids {ε α β : Type} {e : ε} {f : α → Except ε β} {as : List α}
    (h : ∀ a ∈ as, Avoids e (f a)) : Avoids e (gather f as) := by
  induction as with
  | nil => exact nofun
  | cons a as ih =>
      exact .bind (h a List.mem_cons_self) fun _ _ =>
        .bind (ih fun a ha => h a (List.mem_cons_of_mem _ ha)) fun _ _ => .pure _

theorem codeMatches_avoids (codes : Option (List String)) (code : Option Payload) :
    Avoids byteDenial (codeMatches codes code) := by
  rw [codeMatches.eq_def]
  split
  · exact nofun
  · split
    · exact .error (by decide)
    · exact .error (by decide)
    · exact nofun
    · exact nofun

theorem numeric_avoids (value : Option Payload) : Avoids byteDenial (numeric py value) := by
  have hfloat : ∀ leaf : Leaf, Avoids byteDenial (leaf.finiteNumber py.floatText) := by
    intro leaf
    refine .bind ?_ fun value _ => ?_
    · cases leaf with
      | int value =>
          rw [Leaf.float]
          split
          · exact nofun
          · exact .error (by decide)
      | _ => exact nofun
    · split <;> exact nofun
  rw [numeric.eq_def]
  split
  · exact nofun
  · exact nofun
  · exact nofun
  · exact nofun
  · exact hfloat _

theorem rowKey_avoids (row : Row) : Avoids byteDenial (rowKey py spec field direction row) := by
  refine .bind ?_ fun found _ => ?_
  · exact .bind (codeMatches_avoids _ _) fun _ _ => .pure _
  · split
    · exact .pure _
    · exact .bind (numeric_avoids _) fun _ _ => .pure _

theorem walk_denied {budget : ℤ} {rows : List Row} : ∀ {s : Selection},
    walk (rankStep py spec field direction limit (some budget)) s rows = .error byteDenial →
      ∃ first rest s', rows = first ++ rest ∧
        walk (rankStep py spec field direction limit none) s first = .ok s' ∧
          budget < s'.bytes := by
  induction rows with
  | nil => exact nofun
  | cons row rows ih =>
      intro s h
      rcases bind_error.mp h with hstep | ⟨t, ht, h⟩
      · rcases bind_error.mp hstep with hkey | ⟨key, hkey, hadmit⟩
        · exact absurd hkey (rowKey_avoids row)
        · cases key with
          | none => cases hadmit
          | some key =>
              obtain ⟨s', hs', hlarge⟩ := admit_denied hadmit
              exact ⟨[row], rows, s', rfl, walk_cons_ok.mpr
                ⟨s', bind_ok.mpr ⟨some key, hkey, hs'⟩, rfl⟩, hlarge⟩
      · obtain ⟨first, rest, s', rfl, hs', hlarge⟩ := ih h
        refine ⟨row :: first, rest, s', rfl, walk_cons_ok.mpr ⟨t, ?_, hs'⟩, hlarge⟩
        rcases rankStep_cases ht with ⟨hkey, rfl⟩ | ⟨key, hkey, hadmit⟩
        · exact bind_ok.mpr ⟨none, hkey, rfl⟩
        · exact bind_ok.mpr ⟨some key, hkey, admit_unlimited hadmit⟩

theorem filterSpec_avoids (params : Row) : Avoids byteDenial (filterSpec params) := by
  have hdate : ∀ name value, name = "start_date" ∨ name = "end_date" →
      Avoids byteDenial (dateOf name value) := by
    intro name value hname
    rw [dateOf.eq_def]
    split
    · exact nofun
    · exact nofun
    · split
      · exact nofun
      · rcases hname with rfl | rfl <;> exact .error (by decide)
    · rcases hname with rfl | rfl <;> exact .error (by decide)
  have hcode : ∀ value, Avoids byteDenial (codeOf value) := by
    intro value
    rw [codeOf.eq_def]
    split
    · split
      · exact nofun
      · exact .error (by decide)
    · exact .error (by decide)
  refine .bind ?_ fun _ _ => .bind (hdate _ _ (.inl rfl)) fun _ _ =>
    .bind (hdate _ _ (.inr rfl)) fun _ _ => .bind (.refuse (by decide)) fun _ _ => .pure _
  rw [codesOf.eq_def]
  split
  · exact nofun
  · exact nofun
  · exact .bind (gather_avoids fun value _ => hcode value) fun _ _ => .pure _
  · exact .error (by decide)

theorem fieldOf_avoids (value : Option Payload) : Avoids byteDenial (fieldOf value) := by
  rw [fieldOf.eq_def]
  split
  · exact nofun
  · split
    · exact nofun
    · exact .error (by decide)
  · exact .error (by decide)

theorem directionOf_avoids (value : Option Payload) : Avoids byteDenial (directionOf value) := by
  rw [directionOf.eq_def]
  split
  · exact nofun
  · split
    · exact nofun
    · split
      · exact nofun
      · exact .error (by decide)
  · exact .error (by decide)
  · exact .error (by decide)

theorem limitOf_avoids (value : Option Payload) : Avoids byteDenial (limitOf value) := by
  rw [limitOf.eq_def]
  split
  · exact nofun
  · split
    · exact .error (by decide)
    · exact nofun
  · exact .error (by decide)

/-! ## The bounded heap -/

def DistinctKeys (py : Python) (params : Row) (rows : List Row) : Prop :=
  ∀ spec field direction keyed, filterSpec params = .ok spec →
    fieldOf (valueOf? params "field") = .ok field →
    directionOf (valueOf? params "direction") = .ok direction →
    keyedRows py spec field direction rows = .ok keyed → (keyed.map Prod.fst).Nodup

/-- The rows of a file are ranked as those in memory are, when no two keys agree. The size that
is kept is always that of the rows in the heap, and a query that is denied for its size came to
a selection of some first rows that is larger than its budget. -/
theorem streamRank_exact {payload : Payload} {params : Row} {rows : List Row}
    (hrows : payloadRows payload = .ok rows) (hdistinct : DistinctKeys py params rows) :
    (∀ r, streamRank py rows params none none = .ok r ↔ rank py payload params = .ok r) ∧
    (∀ spec field direction limit remainingBytes first s,
      walk (rankStep py spec field direction limit remainingBytes) .start first = .ok s →
        s.bytes = answerBytes py (s.heap.toList.map Entry.row)) ∧
    ∀ remainingRows budget,
      streamRank py rows params remainingRows (some budget) = .error byteDenial →
        ∃ spec field direction limit first rest s, filterSpec params = .ok spec ∧
          fieldOf (valueOf? params "field") = .ok field ∧
          directionOf (valueOf? params "direction") = .ok direction ∧
          limitOf (valueOf? params "limit") = .ok limit ∧ rows = first ++ rest ∧
          walk (rankStep py spec field direction limit none) .start first = .ok s ∧
          budget < answerBytes py (s.heap.toList.map Entry.row) := by
  refine ⟨fun r => ?_, fun _ _ _ _ _ _ _ h => walk_bytes h, fun remainingRows budget h => ?_⟩
  · rw [streamRank_iff, rank_iff]
    constructor
    · rintro ⟨spec, field, direction, limit, s, hspec, hfield, hdirection, hlimit, hs, rfl⟩
      obtain ⟨keyed, hkeyed, hbest⟩ := walk_best (best_start limit) hs
      rw [List.append_nil] at hbest
      have hnodup := hdistinct spec field direction keyed hspec hfield hdirection hkeyed
      obtain ⟨hordered, hbytes, hbounded, rest, hperm, hbetter⟩ := hbest
      have hall : s.Best limit keyed :=
        ⟨hordered, hbytes, hbounded, rest, hperm.trans (List.reverse_perm keyed), hbetter⟩
      exact ⟨rows, spec, field, direction, limit, keyed, hrows, hspec, hfield, hdirection, hlimit,
        hkeyed, by rw [hall.rows hnodup]⟩
    · rintro ⟨rows', spec, field, direction, limit, keyed, hrows', hspec, hfield, hdirection,
        hlimit, hkeyed, rfl⟩
      cases hrows.symm.trans hrows'
      obtain ⟨s, hs⟩ := walk_isOk (limitOf_pos hlimit) (s := .start) hkeyed
      obtain ⟨keyed', hkeyed', hbest⟩ := walk_best (best_start limit) hs
      cases hkeyed.symm.trans hkeyed'
      rw [List.append_nil] at hbest
      have hnodup := hdistinct spec field direction keyed hspec hfield hdirection hkeyed
      obtain ⟨hordered, hbytes, hbounded, rest, hperm, hbetter⟩ := hbest
      have hall : s.Best limit keyed :=
        ⟨hordered, hbytes, hbounded, rest, hperm.trans (List.reverse_perm keyed), hbetter⟩
      exact ⟨spec, field, direction, limit, s, hspec, hfield, hdirection, hlimit, hs,
        by rw [hall.rows hnodup]⟩
  · rcases bind_error.mp h with hspec | ⟨spec, hspec, h⟩
    · exact absurd hspec (filterSpec_avoids params)
    rcases bind_error.mp h with hfield | ⟨field, hfield, h⟩
    · exact absurd hfield (fieldOf_avoids _)
    rcases bind_error.mp h with hdirection | ⟨direction, hdirection, h⟩
    · exact absurd hdirection (directionOf_avoids _)
    rcases bind_error.mp h with hlimit | ⟨limit, hlimit, h⟩
    · exact absurd hlimit (limitOf_avoids _)
    rcases bind_error.mp h with hbudget | ⟨-, -, h⟩
    · exact absurd (refuse_error.mp hbudget).2 (by decide)
    rcases bind_error.mp h with hwalk | ⟨_, -, h⟩
    · obtain ⟨first, rest, s, hsplit, hs, hlarge⟩ := walk_denied hwalk
      exact ⟨spec, field, direction, limit, first, rest, s, hspec, hfield, hdirection, hlimit,
        hsplit, hs, walk_bytes hs ▸ hlarge⟩
    · cases h

def samplePython : Python := ⟨fun _ => none, fun _ => "", fun row => 10 * row.length⟩

def sampleRow (code : String) (number : ℚ) : Row :=
  [("code", .leaf (.text code)), ("change_pct", .leaf (.number (.finite number)))]

def sampleRows : List Row := [sampleRow "000001" 1, sampleRow "000002" 3, sampleRow "000003" (-2)]

theorem streamRank_exact_sample :
    (∀ r, streamRank samplePython sampleRows [("limit", .leaf (.int 2))] none none = .ok r ↔
      rank samplePython (.list (sampleRows.map .dict)) [("limit", .leaf (.int 2))] = .ok r) ∧
    ∃ r, streamRank samplePython sampleRows [("limit", .leaf (.int 2))] none none = .ok r ∧
      r.length = 2 := by
  have hdistinct : DistinctKeys samplePython [("limit", .leaf (.int 2))] sampleRows := by
    intro spec field direction keyed hspec hfield hdirection hkeyed
    cases hspec
    cases hfield
    cases hdirection
    cases hkeyed
    decide +kernel
  have hrows : payloadRows (.list (sampleRows.map .dict)) = .ok sampleRows := rfl
  exact ⟨(streamRank_exact hrows hdistinct).1, _, rfl, rfl⟩

end Ahunter.Research
