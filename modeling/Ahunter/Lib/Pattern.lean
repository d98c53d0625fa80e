import Mathlib.Data.List.Forall2
import Mathlib.Data.List.Infix

/-!
# Patterns

A pattern is matched at a spot of a text: the character before it, if any, and
what follows. `ends` lists where its matches end, in the order in which a
backtracking matcher tries them, so that the first of them is the match.
Repetition is of single characters only.

A text made of lines is searched line by line: a pattern none of whose classes
has the separator finds in `s ++ sep :: t` what it finds in `s` or in `t`, and
what is replaced in such a text is what is replaced in the parts.
-/

namespace Ahunter.Lib

inductive Pattern
  | empty
  /-- `[p]` -/
  | char (p : Char → Bool)
  | seq (a b : Pattern)
  | alt (a b : Pattern)
  /-- `[p]*` -/
  | many (p : Char → Bool)
  /-- `(?<![p])` -/
  | notBehind (p : Char → Bool)
  /-- `(?![p])` -/
  | notAhead (p : Char → Bool)
  /-- `\b`, where `p` tells the characters of a word -/
  | boundary (p : Char → Bool)

abbrev Spot := Option Char × List Char

/-- Where `[p]*` ends, the longest match first. -/
def manyEnds (p : Char → Bool) (before : Option Char) : List Char → List Spot
  | [] => [(before, [])]
  | c :: cs =>
      if p c then manyEnds p (some c) cs ++ [(before, c :: cs)] else [(before, c :: cs)]

def Pattern.ends : Pattern → Spot → List Spot
  | .empty, at_ => [at_]
  | .char p, (_, c :: cs) => if p c then [(some c, cs)] else []
  | .char _, (_, []) => []
  | .seq a b, at_ => (a.ends at_).flatMap b.ends
  | .alt a b, at_ => a.ends at_ ++ b.ends at_
  | .many p, (before, cs) => manyEnds p before cs
  | .notBehind p, at_ => if at_.1.any p then [] else [at_]
  | .notAhead p, at_ => if at_.2.head?.any p then [] else [at_]
  | .boundary p, at_ => if at_.1.any p = at_.2.head?.any p then [] else [at_]

def spots (before : Option Char) : List Char → List Spot
  | [] => [(before, [])]
  | c :: cs => (before, c :: cs) :: spots (some c) cs

/-- `pattern.search(text)` finds a match from a spot on. -/
def Pattern.searchFrom (pattern : Pattern) (at_ : Spot) : Bool :=
  (spots at_.1 at_.2).any fun x => !(pattern.ends x).isEmpty

def Pattern.search (pattern : Pattern) (text : List Char) : Bool :=
  pattern.searchFrom (none, text)

/-- `pattern.sub(repl, text)` of a pattern that matches no empty text, where the
next `skip` characters belong to the match before. -/
def Pattern.subFrom (pattern : Pattern) (repl : List Char) :
    ℕ → Option Char → List Char → List Char
  | _, _, [] => []
  | skip + 1, _, c :: cs => pattern.subFrom repl skip (some c) cs
  | 0, before, c :: cs =>
      match (pattern.ends (before, c :: cs)).head? with
      | some after => repl ++ pattern.subFrom repl (cs.length - after.2.length) (some c) cs
      | none => c :: pattern.subFrom repl 0 (some c) cs

def Pattern.sub (pattern : Pattern) (repl text : List Char) : List Char :=
  pattern.subFrom repl 0 none text

/-! ## Patterns made of others -/

/-- `a?` -/
def Pattern.opt (a : Pattern) : Pattern := .alt a .empty

/-- `[p]+` -/
def Pattern.oneOrMore (p : Char → Bool) : Pattern := .seq (.char p) (.many p)

/-- `a[\s\S]*b` -/
def Pattern.before (a b : Pattern) : Pattern := .seq a (.seq (.many fun _ => true) b)

def Pattern.seqs (parts : List Pattern) : Pattern := parts.foldr .seq .empty

/-- `(?:a|b|c)`; no alternative matches nothing. -/
def Pattern.alts : List Pattern → Pattern
  | [] => .char fun _ => false
  | [a] => a
  | a :: rest => .alt a (.alts rest)

/-- A text, each of its characters up to `same`. -/
def Pattern.literal (same : Char → Char → Bool) (text : String) : Pattern :=
  .seqs (text.toList.map fun c => .char (same c))

/-! ## Lines -/

variable {pattern : Pattern}

def Pattern.Within (sep : Char) : Pattern → Prop
  | .empty => True
  | .char p | .many p | .notBehind p | .notAhead p | .boundary p => p sep = false
  | .seq a b | .alt a b => a.Within sep ∧ b.Within sep

instance Pattern.decWithin (sep : Char) : (pattern : Pattern) → Decidable (pattern.Within sep)
  | .empty => inferInstanceAs (Decidable True)
  | .char p | .many p | .notBehind p | .notAhead p | .boundary p =>
      inferInstanceAs (Decidable (p sep = false))
  | .seq a b | .alt a b => @instDecidableAnd _ _ (a.decWithin sep) (b.decWithin sep)

variable {sep : Char}

def followed (sep : Char) (t : List Char) (at_ : Spot) : Spot := (at_.1, at_.2 ++ sep :: t)

variable {p : Char → Bool}

theorem manyEnds_followed (hsep : p sep = false) (t : List Char) :
    ∀ (s : List Char) (before : Option Char),
      manyEnds p before (s ++ sep :: t) = (manyEnds p before s).map (followed sep t) := by
  intro s
  induction s with
  | nil =>
      intro before
      show (if p sep then _ else [(before, sep :: t)]) = _
      rw [hsep]
      rfl
  | cons c cs ih =>
      intro before
      rw [List.cons_append, manyEnds, manyEnds]
      split
      · rw [ih, List.map_append]
        rfl
      · rfl

theorem head?_followed (hsep : p sep = false) (t s : List Char) :
    (s ++ sep :: t).head?.any p = s.head?.any p := by
  cases s with
  | nil => simp [hsep]
  | cons c cs => rfl

theorem ends_followed (t : List Char) (h : pattern.Within sep) :
    ∀ at_ : Spot, pattern.ends (followed sep t at_) = (pattern.ends at_).map (followed sep t) := by
  induction pattern with
  | empty => exact fun _ => rfl
  | char p =>
      rintro ⟨before, s⟩
      cases s with
      | nil =>
          show (if p sep then [(some sep, t)] else []) = []
          rw [if_neg (by rw [show p sep = false from h]; exact Bool.false_ne_true)]
      | cons c cs =>
          show (if p c then [(some c, cs ++ sep :: t)] else []) = List.map _ (if p c then _ else _)
          split <;> rfl
  | seq a b iha ihb =>
      intro at_
      rw [Pattern.ends, Pattern.ends, iha h.1, List.flatMap_map, List.map_flatMap]
      exact List.flatMap_congr fun x _ => ihb h.2 x
  | alt a b iha ihb =>
      intro at_
      rw [Pattern.ends, Pattern.ends, iha h.1, ihb h.2, List.map_append]
  | many p => exact fun at_ => manyEnds_followed h t at_.2 at_.1
  | notBehind p =>
      intro at_
      rw [Pattern.ends, Pattern.ends]
      show (if at_.1.any p = true then [] else [followed sep t at_]) = _
      split <;> rfl
  | notAhead p =>
      intro at_
      rw [Pattern.ends, Pattern.ends, followed, head?_followed h]
      split <;> rfl
  | boundary p =>
      intro at_
      rw [Pattern.ends, Pattern.ends, followed, head?_followed h]
      dsimp only
      split <;> rfl

def Anew (sep : Char) (a b : Spot) : Prop :=
  (a.1 = b.1 ∨ a.1 = some sep ∧ b.1 = none) ∧ a.2 = b.2

theorem Anew.refl (a : Spot) : Anew sep a a := ⟨.inl rfl, rfl⟩

theorem Anew.any {a b : Spot} (h : Anew sep a b) (hsep : p sep = false) :
    a.1.any p = b.1.any p := by
  rcases h.1 with heq | ⟨ha, hb⟩
  · rw [heq]
  · rw [ha, hb]
    exact hsep

theorem manyEnds_anew :
    ∀ {a b : Spot}, Anew sep a b →
      List.Forall₂ (Anew sep) (manyEnds p a.1 a.2) (manyEnds p b.1 b.2) := by
  rintro ⟨before, s⟩ ⟨before', s'⟩ ⟨h, rfl : s = s'⟩
  cases s with
  | nil => exact .cons ⟨h, rfl⟩ .nil
  | cons c cs =>
      rw [manyEnds, manyEnds]
      split
      · exact List.rel_append (List.forall₂_same.mpr fun x _ => Anew.refl x)
          (.cons ⟨h, rfl⟩ .nil)
      · exact .cons ⟨h, rfl⟩ .nil

theorem ends_anew (h : pattern.Within sep) :
    ∀ {a b : Spot}, Anew sep a b → List.Forall₂ (Anew sep) (pattern.ends a) (pattern.ends b) := by
  induction pattern with
  | empty => exact fun hab => .cons hab .nil
  | char p =>
      rintro ⟨before, s⟩ ⟨before', s'⟩ ⟨-, rfl : s = s'⟩
      cases s with
      | nil => exact .nil
      | cons c cs => exact List.forall₂_same.mpr fun x _ => Anew.refl x
  | seq a b iha ihb => exact fun hab => List.rel_flatMap (iha h.1 hab) fun _ _ => ihb h.2
  | alt a b iha ihb => exact fun hab => List.rel_append (iha h.1 hab) (ihb h.2 hab)
  | many p => exact manyEnds_anew
  | notBehind p =>
      intro a b hab
      rw [Pattern.ends, Pattern.ends, hab.any h]
      split
      · exact .nil
      · exact .cons hab .nil
  | notAhead p =>
      intro a b hab
      rw [Pattern.ends, Pattern.ends, hab.2]
      split
      · exact .nil
      · exact .cons hab .nil
  | boundary p =>
      intro a b hab
      rw [Pattern.ends, Pattern.ends, hab.any h, hab.2]
      split
      · exact .nil
      · exact .cons hab .nil

theorem isEmpty_ends_anew (h : pattern.Within sep) {a b : Spot} (hab : Anew sep a b) :
    (pattern.ends a).isEmpty = (pattern.ends b).isEmpty := by
  have hends := ends_anew h hab
  generalize pattern.ends a = xs at hends
  generalize pattern.ends b = ys at hends
  cases hends with
  | nil => rfl
  | cons _ _ => rfl

theorem spots_append (t : List Char) :
    ∀ (s : List Char) (before : Option Char), spots before (s ++ sep :: t) =
        (spots before s).map (followed sep t) ++ spots (some sep) t := by
  intro s
  induction s with
  | nil => exact fun _ => rfl
  | cons c cs ih =>
      intro before
      rw [List.cons_append, spots, ih]
      rfl

theorem spots_anew : ∀ {a b : Spot}, Anew sep a b →
    List.Forall₂ (Anew sep) (spots a.1 a.2) (spots b.1 b.2) := by
  rintro ⟨before, s⟩ ⟨before', s'⟩ ⟨h, rfl : s = s'⟩
  cases s with
  | nil => exact .cons ⟨h, rfl⟩ .nil
  | cons c cs => exact .cons ⟨h, rfl⟩ (List.forall₂_same.mpr fun x _ => Anew.refl x)

theorem searchFrom_anew (h : pattern.Within sep) {a b : Spot} (hab : Anew sep a b) :
    pattern.searchFrom a = pattern.searchFrom b := by
  rw [Pattern.searchFrom, Pattern.searchFrom]
  have hspots := spots_anew hab
  generalize spots a.1 a.2 = xs at hspots
  generalize spots b.1 b.2 = ys at hspots
  induction hspots with
  | nil => rfl
  | cons hx _ ih => rw [List.any_cons, List.any_cons, isEmpty_ends_anew h hx, ih]

theorem searchFrom_followed (h : pattern.Within sep) (t : List Char) (at_ : Spot) :
    pattern.searchFrom (followed sep t at_) = (pattern.searchFrom at_ || pattern.search t) := by
  have hrest : pattern.search t = pattern.searchFrom (some sep, t) :=
    (searchFrom_anew (a := (some sep, t)) (b := (none, t)) h ⟨.inr ⟨rfl, rfl⟩, rfl⟩).symm
  rw [hrest, Pattern.searchFrom, Pattern.searchFrom, Pattern.searchFrom, followed, spots_append,
    List.any_append, List.any_map]
  congr 1
  apply List.any_congr rfl
  intro x
  rw [Function.comp_apply, ends_followed t h, List.isEmpty_map]

theorem search_append (h : pattern.Within sep) (s t : List Char) :
    pattern.search (s ++ sep :: t) = (pattern.search s || pattern.search t) :=
  searchFrom_followed h t (none, s)

/-! ## What is replaced -/

theorem subFrom_anew (h : pattern.Within sep) (repl : List Char) (skip : ℕ) (t : List Char) :
    pattern.subFrom repl skip (some sep) t = pattern.subFrom repl skip none t := by
  cases t with
  | nil => cases skip <;> rfl
  | cons c cs =>
      cases skip with
      | succ skip => rfl
      | zero =>
          rw [Pattern.subFrom, Pattern.subFrom]
          have hends := ends_anew h (a := (some sep, c :: cs)) (b := (none, c :: cs))
            ⟨.inr ⟨rfl, rfl⟩, rfl⟩
          generalize pattern.ends (some sep, c :: cs) = xs at hends
          generalize pattern.ends (none, c :: cs) = ys at hends
          cases hends with
          | nil => rfl
          | cons hfirst _ =>
              dsimp only [List.head?_cons]
              rw [hfirst.2]

theorem subFrom_append (h : pattern.Within sep)
    (hempty : ∀ before, pattern.ends (before, []) = []) (repl t : List Char) :
    ∀ (s : List Char) (skip : ℕ) (before : Option Char), skip ≤ s.length →
      pattern.subFrom repl skip before (s ++ sep :: t) =
        pattern.subFrom repl skip before s ++ sep :: pattern.sub repl t := by
  intro s
  induction s with
  | nil =>
      intro skip before hskip
      have hzero : skip = 0 := Nat.le_zero.mp hskip
      have hends : pattern.ends (before, sep :: t) = [] := by
        rw [show ((before, sep :: t) : Spot) = followed sep t (before, []) from rfl,
          ends_followed t h, hempty, List.map_nil]
      subst hzero
      show (match (pattern.ends (before, sep :: t)).head? with
        | some after => repl ++ pattern.subFrom repl (t.length - after.2.length) (some sep) t
        | none => sep :: pattern.subFrom repl 0 (some sep) t) = sep :: pattern.sub repl t
      rw [hends, List.head?_nil]
      exact congrArg (sep :: ·) (subFrom_anew h repl 0 t)
  | cons c cs ih =>
      intro skip before hskip
      cases skip with
      | succ skip =>
          rw [List.cons_append, Pattern.subFrom, Pattern.subFrom]
          exact ih skip (some c) (Nat.le_of_succ_le_succ hskip)
      | zero =>
          have hends : pattern.ends (before, c :: (cs ++ sep :: t)) =
              (pattern.ends (before, c :: cs)).map (followed sep t) :=
            ends_followed t h (before, c :: cs)
          rw [List.cons_append, Pattern.subFrom, Pattern.subFrom, hends]
          generalize pattern.ends (before, c :: cs) = found
          cases found with
          | nil => exact congrArg (c :: ·) (ih 0 (some c) (Nat.zero_le _))
          | cons after rest =>
              simp only [List.map_cons, List.head?_cons, followed]
              have hlength : (cs ++ sep :: t).length - (after.2 ++ sep :: t).length =
                  cs.length - after.2.length := by
                rw [List.length_append, List.length_append, Nat.add_sub_add_right]
              rw [hlength, ih _ (some c) (Nat.sub_le _ _), List.append_assoc]

theorem sub_append (h : pattern.Within sep) (hempty : ∀ before, pattern.ends (before, []) = [])
    (repl s t : List Char) :
    pattern.sub repl (s ++ sep :: t) = pattern.sub repl s ++ sep :: pattern.sub repl t :=
  subFrom_append h hempty repl t s 0 none (Nat.zero_le _)

/-! ## One match before another -/

theorem manyEnds_any : ∀ (s : List Char) (before : Option Char),
    manyEnds (fun _ => true) before s = (spots before s).reverse := by
  intro s
  induction s with
  | nil => exact fun _ => rfl
  | cons c cs ih =>
      intro before
      rw [manyEnds, if_pos rfl, ih, spots, List.reverse_cons]

variable {a b : Pattern}

theorem searchFrom_before {at_ : Spot} :
    (a.before b).searchFrom at_ = true ↔
      ∃ x ∈ spots at_.1 at_.2, ∃ y ∈ a.ends x, b.searchFrom y = true := by
  have hends : ∀ x : Spot, (a.before b).ends x =
      (a.ends x).flatMap fun y => (spots y.1 y.2).reverse.flatMap b.ends := by
    intro x
    rw [Pattern.before, Pattern.ends]
    refine List.flatMap_congr fun y _ => ?_
    rw [Pattern.ends, Pattern.ends, manyEnds_any]
  simp only [Pattern.searchFrom, List.any_eq_true, Bool.not_eq_true', List.isEmpty_eq_false_iff,
    hends, ne_eq, List.flatMap_eq_nil_iff, List.mem_reverse, not_forall, exists_prop]

theorem exists_ends_anew (ha : a.Within sep) (hb : b.Within sep) {x x' : Spot} (h : Anew sep x x') :
    (∃ y ∈ a.ends x, b.searchFrom y = true) ↔ ∃ y ∈ a.ends x', b.searchFrom y = true := by
  have hends := ends_anew ha h
  generalize a.ends x = ys at hends
  generalize a.ends x' = ys' at hends
  induction hends with
  | nil => rfl
  | @cons y y' ys ys' hy _ ih =>
      simp only [List.mem_cons, exists_eq_or_imp, ih, searchFrom_anew hb hy]

theorem search_before_append (ha : a.Within sep) (hb : b.Within sep) (s t : List Char) :
    (a.before b).search (s ++ sep :: t) = true ↔
      (a.before b).search s = true ∨ (a.search s = true ∧ b.search t = true) ∨
        (a.before b).search t = true := by
  have hline : ∀ x : Spot, (∃ y ∈ a.ends (followed sep t x), b.searchFrom y = true) ↔
      (∃ y ∈ a.ends x, b.searchFrom y = true) ∨ a.ends x ≠ [] ∧ b.search t = true := by
    intro x
    simp only [ends_followed t ha, List.mem_map, exists_exists_and_eq_and,
      searchFrom_followed hb, Bool.or_eq_true]
    constructor
    · rintro ⟨y, hy, h | h⟩
      · exact .inl ⟨y, hy, h⟩
      · exact .inr ⟨List.ne_nil_of_mem hy, h⟩
    · rintro (⟨y, hy, h⟩ | ⟨hne, h⟩)
      · exact ⟨y, hy, .inl h⟩
      · obtain ⟨y, hy⟩ := List.exists_mem_of_ne_nil _ hne
        exact ⟨y, hy, .inr h⟩
  have hrest : (∃ x ∈ spots (some sep) t, ∃ y ∈ a.ends x, b.searchFrom y = true) ↔
      (a.before b).search t = true := by
    rw [Pattern.search, searchFrom_before]
    have hspots := spots_anew (a := (some sep, t)) (b := (none, t)) ⟨.inr ⟨rfl, rfl⟩, rfl⟩
    dsimp only at hspots ⊢
    generalize spots (some sep) t = xs at hspots
    generalize spots none t = ys at hspots
    induction hspots with
    | nil => rfl
    | cons hx _ ih =>
        simp only [List.mem_cons, exists_eq_or_imp, ih, exists_ends_anew ha hb hx]
  have hfirst : a.search s = true ↔ ∃ x ∈ spots none s, a.ends x ≠ [] := by
    simp only [Pattern.search, Pattern.searchFrom, List.any_eq_true, Bool.not_eq_true',
      List.isEmpty_eq_false_iff]
  rw [Pattern.search, searchFrom_before, Pattern.search, searchFrom_before, hfirst, ← hrest,
    spots_append]
  dsimp only
  constructor
  · rintro ⟨x, hx, h⟩
    rcases List.mem_append.mp hx with hx | hx
    · obtain ⟨x, hmem, rfl⟩ := List.mem_map.mp hx
      rcases (hline x).mp h with h | ⟨hne, h⟩
      · exact .inl ⟨x, hmem, h⟩
      · exact .inr (.inl ⟨⟨x, hmem, hne⟩, h⟩)
    · exact .inr (.inr ⟨x, hx, h⟩)
  · rintro (⟨x, hx, h⟩ | ⟨⟨x, hx, hne⟩, h⟩ | ⟨x, hx, h⟩)
    · exact ⟨_, List.mem_append_left _ (List.mem_map_of_mem hx), (hline x).mpr (.inl h)⟩
    · exact ⟨_, List.mem_append_left _ (List.mem_map_of_mem hx), (hline x).mpr (.inr ⟨hne, h⟩)⟩
    · exact ⟨x, List.mem_append_right _ hx, h⟩

/-! ## Texts of many lines -/

theorem intercalate_cons_cons (sep : Char) (x y : List Char) (rest : List (List Char)) :
    List.intercalate [sep] (x :: y :: rest) = x ++ sep :: List.intercalate [sep] (y :: rest) := by
  simp [List.intercalate]

theorem any_lines {φ : List Char → Bool} (hnil : φ [] = false)
    (happend : ∀ s t, φ (s ++ sep :: t) = (φ s || φ t)) (lines : List (List Char)) :
    φ (List.intercalate [sep] lines) = lines.any φ := by
  induction lines with
  | nil => exact hnil
  | cons x rest ih =>
      cases rest with
      | nil => simp [List.intercalate]
      | cons y rest =>
          rw [intercalate_cons_cons, happend, ih]
          rfl

theorem sub_lines (h : pattern.Within sep) (hempty : ∀ before, pattern.ends (before, []) = [])
    (repl : List Char) (lines : List (List Char)) :
    pattern.sub repl (List.intercalate [sep] lines) =
      List.intercalate [sep] (lines.map (pattern.sub repl)) := by
  induction lines with
  | nil => rfl
  | cons x rest ih =>
      cases rest with
      | nil => simp [List.intercalate]
      | cons y rest =>
          rw [intercalate_cons_cons, sub_append h hempty, ih]
          exact (intercalate_cons_cons sep _ _ _).symm

/-- One match stands before another in a text that has both in one line, or the
one in a line before that of the other. -/
theorem search_before_lines (ha : a.Within sep) (hb : b.Within sep)
    (hnil : b.search [] = false) {lines : List (List Char)}
    (hempty : (a.before b).search [] = false) :
    (a.before b).search (List.intercalate [sep] lines) = true ↔
      (∃ x ∈ lines, (a.before b).search x = true) ∨
        ∃ x y, [x, y].Sublist lines ∧ a.search x = true ∧ b.search y = true := by
  induction lines with
  | nil => simp [List.intercalate, hempty]
  | cons x rest ih =>
      cases rest with
      | nil => simp [List.intercalate]
      | cons y rest =>
          have hlater : b.search (List.intercalate [sep] (y :: rest)) = true ↔
              ∃ z ∈ y :: rest, b.search z = true := by
            rw [any_lines hnil (search_append hb), List.any_eq_true]
          have hlines : (∃ z ∈ x :: y :: rest, (a.before b).search z = true) ↔
              (a.before b).search x = true ∨ ∃ z ∈ y :: rest, (a.before b).search z = true :=
            List.exists_mem_cons_iff ..
          rw [intercalate_cons_cons, search_before_append ha hb, ih, hlater, hlines]
          constructor
          · rintro (h | ⟨h, z, hz, hb'⟩ | h | ⟨u, v, hsub, hu, hv⟩)
            · exact .inl (.inl h)
            · exact .inr ⟨x, z, (List.singleton_sublist.mpr hz).cons_cons x, h, hb'⟩
            · exact .inl (.inr h)
            · exact .inr ⟨u, v, hsub.cons x, hu, hv⟩
          · rintro ((h | h) | ⟨u, v, hsub, hu, hv⟩)
            · exact .inl h
            · exact .inr (.inr (.inl h))
            · cases hsub with
              | cons _ hsub => exact .inr (.inr (.inr ⟨u, v, hsub, hu, hv⟩))
              | cons_cons _ hsub => exact .inr (.inl ⟨hu, v, List.singleton_sublist.mp hsub, hv⟩)

theorem prefix_line {name s t : List Char} (hsep : sep ∉ name) (h : name <+: s ++ sep :: t) :
    name <+: s := by
  have hline : s ++ [sep] <+: s ++ sep :: t := ⟨t, by rw [List.append_assoc]; rfl⟩
  rcases List.prefix_or_prefix_of_prefix h hline with hpre | hpre
  · rcases List.prefix_concat_iff.mp hpre with heq | hpre
    · exact absurd (heq ▸ List.mem_append_right _ List.mem_cons_self) hsep
    · exact hpre
  · exact absurd (hpre.subset (List.mem_append_right _ List.mem_cons_self)) hsep

theorem infix_append {name : List Char} (hsep : sep ∉ name) (t : List Char) :
    ∀ s : List Char, name <:+: s ++ sep :: t → name <:+: s ∨ name <:+: t := by
  intro s
  induction s with
  | nil =>
      intro h
      rcases List.infix_cons_iff.mp h with h | h
      · exact .inl (prefix_line (s := []) hsep h).isInfix
      · exact .inr h
  | cons c cs ih =>
      intro h
      rcases List.infix_cons_iff.mp h with h | h
      · exact .inl (prefix_line (s := c :: cs) hsep h).isInfix
      · rcases ih h with h | h
        · exact .inl (List.infix_cons h)
        · exact .inr h

theorem infix_lines {name : List Char} (hname : name ≠ []) (hsep : sep ∉ name)
    (lines : List (List Char)) :
    name <:+: List.intercalate [sep] lines ↔ ∃ x ∈ lines, name <:+: x := by
  have happend : ∀ s t : List Char, name <:+: s ++ sep :: t ↔ name <:+: s ∨ name <:+: t := by
    intro s t
    refine ⟨infix_append hsep t s, ?_⟩
    · rintro (h | h)
      · exact h.trans (List.prefix_append _ _).isInfix
      · exact h.trans ((List.suffix_cons _ _).trans (List.suffix_append _ _)).isInfix
  have hany := any_lines (φ := fun x => decide (name <:+: x))
    (decide_eq_false (mt List.infix_nil.mp hname))
    (fun s t => by rw [decide_eq_decide.mpr (happend s t), Bool.decide_or]) lines
  rw [← decide_eq_true_iff (p := name <:+: List.intercalate [sep] lines), hany, List.any_eq_true]
  simp only [decide_eq_true_iff]

end Ahunter.Lib
