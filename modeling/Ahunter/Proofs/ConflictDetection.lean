import Ahunter.Products.Conflicts

/-!
# Which observations conflict

Comparing two payloads says that they agree, that they differ, or raises. When
they agree they agree the other way round too: whatever is compared, equality
or relative distance, is symmetric, and an object is compared key by key. The
detection compares the first observation with every other one, so it is right
for every order exactly when all observations agree or each of them, taken
first, meets another one it differs from.
-/

namespace Ahunter.Products

open Ahunter.Lib

variable {floatText : String → Option Double} {tolerance : Double}

def Agrees (floatText : String → Option Double) (tolerance : Double)
    (left right : Payload) : Prop :=
  payloadConflict floatText tolerance left right = .ok false

/-! ## Leaves -/

theorem farApart_symm (x y : ℚ) : farApart tolerance x y = farApart tolerance y x := by
  rw [farApart, farApart, abs_sub_comm, max_comm |x| |y|]

theorem unequal_symm (a b : Option Double) : unequal a b = unequal b a := by
  cases a with
  | none => cases b <;> rfl
  | some x =>
      cases b with
      | none => rfl
      | some y =>
          by_cases hxy : x = y
          · rw [hxy]
          · rw [unequal, unequal, decide_eq_true hxy, decide_eq_true (Ne.symm hxy),
              Bool.or_true, Bool.or_true]

theorem differs_symm (left right : Leaf) : left.differs right = right.differs left := by
  cases left <;> cases right <;> simp only [Leaf.differs] <;>
    first
    | exact unequal_symm _ _
    | exact decide_eq_decide.mpr ne_comm

theorem finiteNumber_of_equal {left right : Leaf}
    (hleft : left.finiteNumber floatText = .ok none) (h : left.differs right = false) :
    right.finiteNumber floatText = .ok none := by
  cases left with
  | null =>
      cases right with
      | null => exact hleft
      | _ => cases h
  | text s =>
      cases right with
      | text t =>
          have hsame : s = t := not_not.mp (of_decide_eq_false h)
          rw [← hsame]
          exact hleft
      | _ => cases h
  | bool value => cases hleft
  | int value =>
      simp only [Leaf.finiteNumber, Leaf.float] at hleft
      split at hleft <;> cases hleft
  | number x =>
      have hexact : right.exact = some x ∧ x ≠ .nan := by
        have hunequal : unequal (some x) right.exact = false := by
          cases right <;> exact h
        cases hright : right.exact with
        | none =>
            rw [hright] at hunequal
            cases hunequal
        | some y =>
            rw [hright, unequal, Bool.or_eq_false_iff] at hunequal
            have hsame : x = y := not_not.mp (of_decide_eq_false hunequal.2)
            exact ⟨hsame ▸ rfl, of_decide_eq_false hunequal.1⟩
      cases x with
      | finite value => cases hleft
      | nan => exact absurd rfl hexact.2
      | infinite negative =>
          cases right with
          | number y =>
              cases hexact.1
              rfl
          | _ => cases hexact.1

theorem leafConflict_symm {left right : Leaf}
    (h : leafConflict floatText tolerance left right = .ok false) :
    leafConflict floatText tolerance right left = .ok false := by
  obtain ⟨x, hx, h⟩ := bind_ok.mp h
  cases x with
  | none =>
      have hdiffers : left.differs right = false := Except.ok.inj h
      have hright := finiteNumber_of_equal hx hdiffers
      refine bind_ok.mpr ⟨none, hright, ?_⟩
      rw [differs_symm] at hdiffers
      exact congrArg Except.ok hdiffers
  | some x =>
      obtain ⟨y, hy, h⟩ := bind_ok.mp h
      cases y with
      | none =>
          have hdiffers : left.differs right = false := Except.ok.inj h
          rw [differs_symm] at hdiffers
          have hleft := finiteNumber_of_equal hy hdiffers
          rw [hx] at hleft
          cases hleft
      | some y =>
          have hfar : farApart tolerance x y = false := Except.ok.inj h
          rw [farApart_symm] at hfar
          refine bind_ok.mpr ⟨some y, hy, bind_ok.mpr ⟨some x, hx, ?_⟩⟩
          exact congrArg Except.ok hfar

/-! ## Payloads -/

variable {entries : List (String × Payload)}

theorem valueOf?_mem {key : String} {value : Payload}
    (h : valueOf? entries key = some value) : (key, value) ∈ entries := by
  obtain ⟨e, hfind, rfl⟩ := Option.map_eq_some_iff.mp h
  have hkey : e.1 = key := by simpa using List.find?_some hfind
  rw [← hkey]
  exact List.mem_of_find?_eq_some hfind

theorem valueOf?_of_mem {key : String} {value : Payload}
    (hnodup : (entries.map Prod.fst).Nodup) (h : (key, value) ∈ entries) :
    valueOf? entries key = some value := by
  rw [valueOf?]
  induction entries with
  | nil => cases h
  | cons e entries ih =>
      rw [List.map_cons, List.nodup_cons] at hnodup
      rcases List.mem_cons.mp h with rfl | hmem
      · rw [List.find?_cons_of_pos (by simp)]
        rfl
      · have hne : e.1 ≠ key := by
          rintro rfl
          exact hnodup.1 (List.mem_map.mpr ⟨_, hmem, rfl⟩)
        rw [List.find?_cons_of_neg (by simpa using hne)]
        exact ih hnodup.2 hmem

theorem distinctEntries_mem (h : distinctEntries entries)
    {e : String × Payload} (he : e ∈ entries) : e.2.Distinct := by
  induction entries with
  | nil => cases he
  | cons first entries ih =>
      rcases List.mem_cons.mp he with rfl | hmem
      · exact h.1
      · exact ih h.2 hmem

theorem any_quiet {x y : Except String Bool} :
    (do let conflict ← x
        if conflict then .ok true else y) = Except.ok false ↔ x = .ok false ∧ y = .ok false := by
  cases x with
  | error e => exact iff_of_false nofun nofun
  | ok conflict =>
      cases conflict with
      | true => exact iff_of_false nofun nofun
      | false => exact (and_iff_right rfl).symm

variable {lefts rights : List (String × Payload)}

theorem entriesConflict_quiet :
    entriesConflict floatText tolerance lefts rights = .ok false ↔
      ∀ e ∈ lefts, ∃ value, valueOf? rights e.1 = some value ∧
        Agrees floatText tolerance e.2 value := by
  induction lefts with
  | nil => exact iff_of_true rfl nofun
  | cons e lefts ih =>
      obtain ⟨key, left⟩ := e
      rw [List.forall_mem_cons, ← ih, entriesConflict]
      cases hvalue : valueOf? rights key with
      | none => exact iff_of_false nofun nofun
      | some right =>
          dsimp only
          rw [any_quiet]
          refine and_congr_left fun _ => ?_
          exact ⟨fun h => ⟨right, rfl, h⟩, fun ⟨_, hsame, h⟩ => (Option.some.inj hsame) ▸ h⟩

theorem leaf_not_agrees {left : Leaf} {right : Payload} (h : ∀ leaf, right ≠ .leaf leaf) :
    ¬ Agrees floatText tolerance (.leaf left) right := by
  intro hagrees
  cases right with
  | leaf leaf => exact h leaf rfl
  | list items =>
      obtain ⟨_, _, hfalse⟩ := bind_ok.mp hagrees
      cases hfalse
  | dict entries =>
      obtain ⟨_, _, hfalse⟩ := bind_ok.mp hagrees
      cases hfalse

theorem dict_agrees :
    Agrees floatText tolerance (.dict lefts) (.dict rights) ↔
      (∀ e ∈ rights, e.1 ∈ lefts.map Prod.fst) ∧
        ∀ e ∈ lefts, ∃ value, valueOf? rights e.1 = some value ∧
          Agrees floatText tolerance e.2 value := by
  unfold Agrees
  rw [payloadConflict]
  split
  next hkeys =>
    rw [entriesConflict_quiet]
    exact (and_iff_right hkeys.2).symm
  next hkeys =>
    refine iff_of_false nofun fun h => hkeys ⟨fun e he => ?_, h.1⟩
    obtain ⟨value, hvalue, -⟩ := h.2 e he
    exact List.mem_map.mpr ⟨_, valueOf?_mem hvalue, rfl⟩

mutual

theorem agrees_symm : ∀ {left right : Payload}, left.Distinct → right.Distinct →
    Agrees floatText tolerance left right → Agrees floatText tolerance right left
  | .leaf _, .leaf _, _, _, h => leafConflict_symm h
  | .leaf _, .list _, _, _, h => absurd h (leaf_not_agrees nofun)
  | .leaf _, .dict _, _, _, h => absurd h (leaf_not_agrees nofun)
  | .list lefts, .list rights, hleft, hright, h => by
      unfold Agrees at h ⊢
      rw [payloadConflict] at h ⊢
      split at h
      next hlength =>
        rw [if_pos hlength.symm]
        exact items_symm hleft hright h
      next => cases h
  | .dict lefts, .dict rights, hleft, hright, h => by
      have hboth := dict_agrees.mp h
      refine dict_agrees.mpr ⟨fun e he => ?_, fun e he => ?_⟩
      · obtain ⟨value, hvalue, -⟩ := hboth.2 e he
        exact List.mem_map.mpr ⟨_, valueOf?_mem hvalue, rfl⟩
      · obtain ⟨left, hmem, hkey⟩ := List.mem_map.mp (hboth.1 e he)
        obtain ⟨value, hvalue, hagrees⟩ := hboth.2 left hmem
        have hsame := valueOf?_of_mem hright.1 he
        rw [← hkey, hvalue] at hsame
        refine ⟨left.2, hkey ▸ valueOf?_of_mem hleft.1 hmem, ?_⟩
        rw [← Option.some.inj hsame]
        exact entries_symm hleft.2 left hmem
          (distinctEntries_mem hright.2 (valueOf?_mem hvalue)) hagrees
  | .list _, .leaf _, _, _, h => by cases h
  | .list _, .dict _, _, _, h => by cases h
  | .dict _, .leaf _, _, _, h => by cases h
  | .dict _, .list _, _, _, h => by cases h

theorem items_symm : ∀ {lefts rights : List Payload}, distinctItems lefts →
    distinctItems rights → itemsConflict floatText tolerance lefts rights = .ok false →
    itemsConflict floatText tolerance rights lefts = .ok false
  | [], [], _, _, h => h
  | [], _ :: _, _, _, _ => rfl
  | _ :: _, [], _, _, _ => rfl
  | left :: lefts, right :: rights, hleft, hright, h => by
      rw [itemsConflict, any_quiet] at h ⊢
      exact ⟨agrees_symm hleft.1 hright.1 h.1, items_symm hleft.2 hright.2 h.2⟩

theorem entries_symm : ∀ {lefts : List (String × Payload)}, distinctEntries lefts →
    ∀ e ∈ lefts, ∀ {right : Payload}, right.Distinct →
      Agrees floatText tolerance e.2 right → Agrees floatText tolerance right e.2
  | [], _, _, he, _, _, _ => by cases he
  | (_, _) :: lefts, hleft, e, he, _, hright, h => by
      rcases List.mem_cons.mp he with hfirst | hmem
      · rw [hfirst] at h ⊢
        exact agrees_symm hleft.1 hright h
      · exact entries_symm hleft.2 e hmem hright h

end

/-! ## The first observation against the others -/

def Differs (floatText : String → Option Double) (tolerance : Double)
    (left right : Payload) : Prop :=
  payloadConflict floatText tolerance left right = .ok true

def Incomparable (floatText : String → Option Double) (tolerance : Double)
    (left right : Payload) : Prop :=
  ∃ error, payloadConflict floatText tolerance left right = .error error

theorem compared (left right : Payload) :
    Agrees floatText tolerance left right ∨ Differs floatText tolerance left right ∨
      Incomparable floatText tolerance left right := by
  unfold Agrees Differs Incomparable
  cases payloadConflict floatText tolerance left right with
  | error e => exact .inr (.inr ⟨e, rfl⟩)
  | ok conflict =>
      cases conflict with
      | false => exact .inl rfl
      | true => exact .inr (.inl rfl)

theorem agrees_not_differs {left right : Payload}
    (h : Agrees floatText tolerance left right) : ¬ Differs floatText tolerance left right := by
  intro hdiffers
  cases h.symm.trans hdiffers

theorem agrees_not_incomparable {left right : Payload} (h : Agrees floatText tolerance left right) :
    ¬ Incomparable floatText tolerance left right := by
  rintro ⟨e, herror⟩
  cases h.symm.trans herror

theorem conflicts_cons (first : Payload) (others : List Payload) :
    conflicts floatText tolerance (first :: others) =
      conflictsWith floatText tolerance first others := by
  cases others <;> rfl

variable {first : Payload} {others : List Payload}

theorem conflictsWith_quiet :
    conflictsWith floatText tolerance first others = .ok false ↔
      ∀ other ∈ others, Agrees floatText tolerance first other := by
  induction others with
  | nil => exact iff_of_true rfl nofun
  | cons other others ih =>
      rw [List.forall_mem_cons, ← ih, conflictsWith, any_quiet]
      rfl

theorem conflictsWith_head {first other : Payload} (h : ¬ Agrees floatText tolerance first other) :
    conflictsWith floatText tolerance first (other :: others) =
      payloadConflict floatText tolerance first other := by
  rw [conflictsWith]
  rcases compared first other with hagrees | hdiffers | ⟨e, herror⟩
  · exact absurd hagrees h
  · rw [hdiffers]
    rfl
  · rw [herror]
    rfl

theorem conflictsWith_found {outcome : Except String Bool}
    (h : conflictsWith floatText tolerance first others = outcome) (hloud : outcome ≠ .ok false) :
    ∃ other ∈ others, payloadConflict floatText tolerance first other = outcome := by
  induction others with
  | nil => exact absurd h.symm hloud
  | cons other others ih =>
      by_cases hagrees : Agrees floatText tolerance first other
      · have hrest : conflictsWith floatText tolerance first others = outcome := by
          rw [conflictsWith, hagrees] at h
          exact h
        obtain ⟨found, hmem, hfound⟩ := ih hrest
        exact ⟨found, List.mem_cons_of_mem _ hmem, hfound⟩
      · rw [conflictsWith_head hagrees] at h
        exact ⟨other, List.mem_cons_self, h⟩

/-! ## Every order of the observations -/

section Orders

variable (floatText : String → Option Double) (tolerance : Double) (lastError : String)

def Reported (payloads : List Payload) : Prop :=
  settleProduct floatText tolerance lastError payloads = .conflicted

def Published (payloads : List Payload) : Prop :=
  ∃ payload, settleProduct floatText tolerance lastError payloads = .published payload

def SomeDiffer (payloads : List Payload) : Prop :=
  ∃ first other others, payloads.Perm (first :: other :: others) ∧
    Differs floatText tolerance first other

def OrderFree (payloads : List Payload) : Prop :=
  ∀ order, payloads.Perm order →
    (Reported floatText tolerance lastError order ↔
        Reported floatText tolerance lastError payloads) ∧
      (Published floatText tolerance lastError order ↔
        Published floatText tolerance lastError payloads)

/-- Two observations that differ are reported. -/
def Complete (payloads : List Payload) : Prop :=
  SomeDiffer floatText tolerance payloads → Reported floatText tolerance lastError payloads

def EachMeets (found missed : Payload → Payload → Prop) (payloads : List Payload) : Prop :=
  ∀ first others, payloads.Perm (first :: others) →
    (∃ other ∈ others, found first other) ∧ ∀ other ∈ others, ¬ missed first other

end Orders

variable {lastError : String} {payloads : List Payload}

theorem reported_not_published (h : Reported floatText tolerance lastError payloads) :
    ¬ Published floatText tolerance lastError payloads := by
  rintro ⟨payload, hpublished⟩
  cases h.symm.trans hpublished

theorem reported_cons :
    Reported floatText tolerance lastError (first :: others) ↔
      conflictsWith floatText tolerance first others = .ok true := by
  unfold Reported
  rw [settleProduct, conflicts_cons]
  cases conflictsWith floatText tolerance first others with
  | error e => exact iff_of_false nofun nofun
  | ok conflict =>
      cases conflict with
      | false => exact iff_of_false nofun nofun
      | true => exact iff_of_true rfl rfl

theorem published_cons :
    Published floatText tolerance lastError (first :: others) ↔
      conflictsWith floatText tolerance first others = .ok false := by
  unfold Published
  rw [settleProduct, conflicts_cons]
  cases conflictsWith floatText tolerance first others with
  | error e => exact iff_of_false nofun nofun
  | ok conflict =>
      cases conflict with
      | false => exact iff_of_true ⟨first, rfl⟩ rfl
      | true => exact iff_of_false nofun nofun

theorem undecided (lastError : String)
    (h : (∃ other ∈ others, Incomparable floatText tolerance first other) ∧
      ∀ other ∈ others, ¬ Differs floatText tolerance first other) :
    ¬ Reported floatText tolerance lastError (first :: others) ∧
      ¬ Published floatText tolerance lastError (first :: others) := by
  obtain ⟨hmeets, hnone⟩ := h
  rw [reported_cons, published_cons]
  refine ⟨fun h => ?_, fun h => ?_⟩
  · obtain ⟨other, hmem, hdiffers⟩ := conflictsWith_found h nofun
    exact hnone other hmem hdiffers
  · obtain ⟨other, hmem, herror⟩ := hmeets
    exact agrees_not_incomparable (conflictsWith_quiet.mp h other hmem) herror

theorem reported_of_meets (lastError : String)
    (h : (∃ other ∈ others, Differs floatText tolerance first other) ∧
      ∀ other ∈ others, ¬ Incomparable floatText tolerance first other) :
    Reported floatText tolerance lastError (first :: others) := by
  obtain ⟨hmeets, hnone⟩ := h
  rw [reported_cons]
  cases h : conflictsWith floatText tolerance first others with
  | error e =>
      obtain ⟨other, hmem, herror⟩ := conflictsWith_found h nofun
      exact absurd ⟨e, herror⟩ (hnone other hmem)
  | ok conflict =>
      cases conflict with
      | true => rfl
      | false =>
          obtain ⟨other, hmem, hdiffers⟩ := hmeets
          exact absurd hdiffers (agrees_not_differs (conflictsWith_quiet.mp h other hmem))

theorem pairwise_of_first {R : Payload → Payload → Prop}
    (h : ∀ first others, payloads.Perm (first :: others) → ∀ other ∈ others, R first other) :
    payloads.Pairwise R := by
  induction payloads with
  | nil => exact .nil
  | cons payload payloads ih =>
      refine .cons (h payload payloads (.refl _)) (ih fun first others hperm other hmem => ?_)
      have hswapped : (payload :: payloads).Perm (first :: payload :: others) :=
        (hperm.cons payload).trans (.swap _ _ _)
      exact h first _ hswapped other (List.mem_cons_of_mem _ hmem)

theorem first_of_pairwise (hdistinct : ∀ p ∈ payloads, p.Distinct)
    (h : payloads.Pairwise (Agrees floatText tolerance)) {first : Payload}
    {others : List Payload} (hperm : payloads.Perm (first :: others)) :
    ∀ other ∈ others, Agrees floatText tolerance first other := by
  have hboth : payloads.Pairwise fun left right =>
      Agrees floatText tolerance left right ∧ Agrees floatText tolerance right left :=
    h.imp_of_mem fun hleft hright hagrees =>
      ⟨hagrees, agrees_symm (hdistinct _ hleft) (hdistinct _ hright) hagrees⟩
  have horder := hboth.perm hperm (fun ⟨hone, hother⟩ => ⟨hother, hone⟩)
  exact fun other hmem => ((List.pairwise_cons.mp horder).1 other hmem).1

/-- The order of the observations plays no part, and two that differ are
reported, exactly when all observations agree, or each of them taken first
meets one that it differs from before any comparison raises, or each meets one
it cannot be compared with and none differ. -/
theorem detection_iff (payloads : List Payload) (hdistinct : ∀ p ∈ payloads, p.Distinct) :
    (OrderFree floatText tolerance lastError payloads ∧
      Complete floatText tolerance lastError payloads) ↔
      payloads.Pairwise (Agrees floatText tolerance) ∨
        EachMeets (Differs floatText tolerance) (Incomparable floatText tolerance) payloads ∨
        EachMeets (Incomparable floatText tolerance) (Differs floatText tolerance) payloads := by
  constructor
  · rintro ⟨horders, hcomplete⟩
    by_cases hpublished : Published floatText tolerance lastError payloads
    · refine .inl (pairwise_of_first fun first others hperm => ?_)
      exact conflictsWith_quiet.mp
        (published_cons.mp ((horders _ hperm).2.mpr hpublished))
    by_cases hreported : Reported floatText tolerance lastError payloads
    · refine .inr (.inl fun first others hperm => ⟨?_, fun other hmem => ?_⟩)
      · have hfirst := (horders _ hperm).1.mpr hreported
        exact conflictsWith_found (reported_cons.mp hfirst) nofun
      · -- the payload that cannot be compared may come second
        rintro ⟨e, herror⟩
        obtain ⟨before, after, rfl⟩ := List.append_of_mem hmem
        have hsecond := hperm.trans (List.perm_middle.cons first)
        have hloud : ¬ Agrees floatText tolerance first other := fun hagrees =>
          agrees_not_incomparable hagrees ⟨e, herror⟩
        have hfirst := reported_cons.mp ((horders _ hsecond).1.mpr hreported)
        rw [conflictsWith_head hloud, herror] at hfirst
        cases hfirst
    · refine .inr (.inr fun first others hperm => ⟨?_, fun other hmem hdiffers => ?_⟩)
      · have hnot := mt (horders _ hperm).1.mp hreported
        have hnever := mt (horders _ hperm).2.mp hpublished
        rw [reported_cons] at hnot
        rw [published_cons] at hnever
        cases h : conflictsWith floatText tolerance first others with
        | error e =>
            obtain ⟨other, hmem, herror⟩ := conflictsWith_found h nofun
            exact ⟨other, hmem, e, herror⟩
        | ok conflict =>
            cases conflict with
            | true => exact absurd h hnot
            | false => exact absurd h hnever
      · obtain ⟨before, after, rfl⟩ := List.append_of_mem hmem
        exact hreported (hcomplete
          ⟨first, other, _, hperm.trans (List.perm_middle.cons first), hdiffers⟩)
  · intro hcases
    rcases payloads with _ | ⟨payload, payloads⟩
    · refine ⟨fun order hperm => ?_, ?_⟩
      · rw [hperm.nil_eq]
        exact ⟨.rfl, .rfl⟩
      · rintro ⟨first, other, others, hperm, -⟩
        exact absurd hperm.length_eq nofun
    refine ⟨fun order hperm => ?_, ?_⟩
    · rcases order with _ | ⟨first, others⟩
      · exact absurd hperm.length_eq nofun
      have hself : (payload :: payloads).Perm (payload :: payloads) := .refl _
      rcases hcases with hagree | hdiffer | hraise
      · have hfirst := conflictsWith_quiet.mpr (first_of_pairwise hdistinct hagree hperm)
        have hown := conflictsWith_quiet.mpr (first_of_pairwise hdistinct hagree hself)
        rw [reported_cons, reported_cons, published_cons, published_cons, hfirst, hown]
        exact ⟨.rfl, .rfl⟩
      · have hfirst := reported_of_meets lastError (hdiffer _ _ hperm)
        have hown := reported_of_meets lastError (hdiffer _ _ hself)
        exact ⟨iff_of_true hfirst hown,
          iff_of_false (reported_not_published hfirst) (reported_not_published hown)⟩
      · have hfirst := undecided lastError (hraise _ _ hperm)
        have hown := undecided lastError (hraise _ _ hself)
        exact ⟨iff_of_false hfirst.1 hown.1, iff_of_false hfirst.2 hown.2⟩
    · rintro ⟨first, other, others, hperm, hdiffers⟩
      rcases hcases with hagree | hdiffer | hraise
      · have hagrees := first_of_pairwise hdistinct hagree hperm other List.mem_cons_self
        exact absurd hdiffers (agrees_not_differs hagrees)
      · exact reported_of_meets lastError (hdiffer _ _ (.refl _))
      · exact absurd hdiffers ((hraise _ _ hperm).2 other List.mem_cons_self)

/-! ## Three prices -/

def priced (price : ℚ) : Payload :=
  .dict [("price", .leaf (.number (.finite price)))]

theorem priced_distinct (price : ℚ) : (priced price).Distinct :=
  ⟨List.nodup_cons.mpr ⟨nofun, .nil⟩, trivial, trivial⟩

/-- A middle price agrees with both of two that differ from each other: first,
it hides the conflict that the same prices in another order show. -/
theorem middle_price_hides :
    ¬ OrderFree (fun _ => none) (.finite (1 / 2)) "" [priced (1 / 2), priced 0, priced 1] ∧
      ¬ Complete (fun _ => none) (.finite (1 / 2)) "" [priced (1 / 2), priced 0, priced 1] := by
  have hpublished : Published (fun _ => none) (.finite (1 / 2)) ""
      [priced (1 / 2), priced 0, priced 1] :=
    published_cons.mpr (by decide +kernel)
  have hreported : Reported (fun _ => none) (.finite (1 / 2)) ""
      [priced 0, priced (1 / 2), priced 1] :=
    reported_cons.mpr (by decide +kernel)
  have hdiffers : Differs (fun _ => none) (.finite (1 / 2)) (priced 0) (priced 1) := by
    show payloadConflict _ _ _ _ = _
    decide +kernel
  refine ⟨fun hfree => ?_, fun hcomplete => ?_⟩
  · have hboth := (hfree _ (.swap _ _ _)).1.mp hreported
    exact reported_not_published hboth hpublished
  · have hperm : [priced (1 / 2), priced 0, priced 1].Perm
        [priced 0, priced 1, priced (1 / 2)] :=
      (List.Perm.swap _ _ _).trans ((List.Perm.swap _ _ _).cons _)
    exact reported_not_published (hcomplete ⟨_, _, _, hperm, hdiffers⟩) hpublished

theorem close_prices_detected :
    OrderFree (fun _ => none) (.finite (1 / 2)) "" [priced (1 / 2), priced 0] ∧
      Complete (fun _ => none) (.finite (1 / 2)) "" [priced (1 / 2), priced 0] := by
  have hdistinct : ∀ p ∈ [priced (1 / 2), priced 0], p.Distinct := by
    intro p hp
    rcases List.mem_pair.mp hp with rfl | rfl <;> exact priced_distinct _
  refine (detection_iff _ hdistinct).mpr (.inl (List.pairwise_pair.mpr ?_))
  show payloadConflict _ _ _ _ = _
  decide +kernel

end Ahunter.Products
