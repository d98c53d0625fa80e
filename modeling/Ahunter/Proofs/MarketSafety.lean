import Ahunter.Market.Safety
import Mathlib.Data.List.Flatten

/-!
# An unsafe output stays unsafe

What is unsafe in an output is what its texts say, and the texts of a part are
among those of the whole, in their order. An action and the security it is on may
stand in different texts of the part, so that the whole is searched in one piece,
the texts set one below the other: each thing that is looked for stands in one of
the lines, whatever lines come between, except a security's name that has a line
break of its own.

The provenance of evidence is left out of that search at the places of the
contract, which are those of the whole. A list that is moved to `insights` gets
such places; nothing else that is moved does.
-/

namespace Ahunter.Market

open Ahunter.Lib Ahunter.Products

/-! ## Actions and lines -/

theorem timestamp_within : timestamp.Within '\n' := by decide
theorem securityAction_within : securityAction.Within '\n' := by decide
theorem advising_within : advising.Within '\n' := by decide
theorem stances_within : (words stances).Within '\n' := by decide
theorem aShareCode_within : aShareCode.Within '\n' := by decide

theorem timestamp_ends_nil (before : Option Char) : timestamp.ends (before, []) = [] := by
  show (if before.any Char.isAlphanum = true then [] else [(before, [])]).flatMap _ = []
  split <;> rfl

theorem withoutTimestamps_lines (lines : List (List Char)) :
    withoutTimestamps (List.intercalate ['\n'] lines) =
      List.intercalate ['\n'] (lines.map withoutTimestamps) :=
  sub_lines timestamp_within timestamp_ends_nil [' '] lines

theorem any_sublist {α : Type} {p : α → Bool} {xs ys : List α} (h : xs.Sublist ys)
    (hx : xs.any p = true) : ys.any p = true := by
  obtain ⟨x, hmem, hp⟩ := List.any_eq_true.mp hx
  exact List.any_eq_true.mpr ⟨x, h.subset hmem, hp⟩

variable {xs ys : List (List Char)}

theorem search_lines {pattern : Pattern} (h : pattern.Within '\n')
    (hnil : pattern.search [] = false) (hsub : xs.Sublist ys)
    (hx : pattern.search (List.intercalate ['\n'] xs) = true) :
    pattern.search (List.intercalate ['\n'] ys) = true := by
  rw [any_lines hnil (search_append h)] at hx ⊢
  exact any_sublist hsub hx

theorem recommendation_lines (hsub : xs.Sublist ys)
    (hx : recommendationConstruct.search (List.intercalate ['\n'] xs) = true) :
    recommendationConstruct.search (List.intercalate ['\n'] ys) = true := by
  have hstances : (words stances).search [] = false := by decide
  have hnil : (advising.before (words stances)).search [] = false := by decide
  rw [recommendationConstruct,
    search_before_lines advising_within stances_within hstances hnil] at hx ⊢
  rcases hx with ⟨x, hmem, hx⟩ | ⟨x, y, hpair, hx, hy⟩
  · exact .inl ⟨x, hsub.subset hmem, hx⟩
  · exact .inr ⟨x, y, hpair.trans hsub, hx, hy⟩

theorem name_lines {name : String} (hname : '\n' ∉ name.toList) (hsub : xs.Sublist ys)
    (hx : (name ≠ "" && decide (name.toList <:+: List.intercalate ['\n'] xs)) = true) :
    (name ≠ "" && decide (name.toList <:+: List.intercalate ['\n'] ys)) = true := by
  rw [Bool.and_eq_true, decide_eq_true_iff, decide_eq_true_iff] at hx ⊢
  have hne : name.toList ≠ [] := fun hnil => hx.1 (String.toList_eq_nil_iff.mp hnil)
  obtain ⟨x, hmem, hin⟩ := (infix_lines hne hname xs).mp hx.2
  exact ⟨hx.1, (infix_lines hne hname ys).mpr ⟨x, hsub.subset hmem, hin⟩⟩

theorem action_lines {names : List String} (hnames : ∀ name ∈ names, '\n' ∉ name.toList)
    {xs ys : List String} (hsub : xs.Sublist ys)
    (hx : containsPerSecurityAction ("\n".intercalate xs) names = true) :
    containsPerSecurityAction ("\n".intercalate ys) names = true := by
  have hclean : ((xs.map String.toList).map withoutTimestamps).Sublist
      ((ys.map String.toList).map withoutTimestamps) := (hsub.map _).map _
  rw [containsPerSecurityAction, String.toList_intercalate, actsOnSecurity,
    show "\n".toList = ['\n'] from rfl, withoutTimestamps_lines] at hx ⊢
  generalize (xs.map String.toList).map withoutTimestamps = us at hx hclean
  generalize (ys.map String.toList).map withoutTimestamps = vs at hclean
  split at hx
  · next hacts =>
      rw [if_pos]
      · rcases Bool.or_eq_true .. |>.mp hx with hcode | hnamed
        · exact Bool.or_eq_true .. |>.mpr
            (.inl (search_lines aShareCode_within (by decide) hclean hcode))
        · obtain ⟨name, hmem, hname⟩ := List.any_eq_true.mp hnamed
          exact Bool.or_eq_true .. |>.mpr (.inr (List.any_eq_true.mpr
            ⟨name, hmem, name_lines (hnames name hmem) hclean hname⟩))
      · rcases Bool.or_eq_true .. |>.mp hacts with haction | hadvice
        · exact Bool.or_eq_true .. |>.mpr
            (.inl (search_lines securityAction_within (by decide) hclean haction))
        · exact Bool.or_eq_true .. |>.mpr (.inr (recommendation_lines hclean hadvice))
  · cases hx

/-! ## Items and entries -/

theorem textsOfItems_eq (items : List Payload) :
    textsOfItems items = items.flatMap readerTextValues := by
  induction items with
  | nil => rfl
  | cons item items ih => rw [textsOfItems, ih, List.flatMap_cons]

theorem textsOfEntries_eq (entries : List (String × Payload)) :
    textsOfEntries entries = entries.flatMap fun e => e.1 :: readerTextValues e.2 := by
  induction entries with
  | nil => rfl
  | cons e entries ih => rw [textsOfEntries, ih, List.flatMap_cons]

theorem forbiddenInItems_eq (items : List Payload) :
    forbiddenInItems items = items.any containsForbiddenMarketFields := by
  induction items with
  | nil => rfl
  | cons item items ih => rw [forbiddenInItems, ih, List.any_cons]

theorem forbiddenInEntries_eq (entries : List (String × Payload)) :
    forbiddenInEntries entries = entries.any fun e => containsForbiddenMarketFields e.2 := by
  induction entries with
  | nil => rfl
  | cons e entries ih => rw [forbiddenInEntries, ih, List.any_cons]

theorem itemsWithoutProvenance_eq (items : List Payload) :
    itemsWithoutProvenance items = items.map withoutEvidenceProvenance := by
  induction items with
  | nil => rfl
  | cons item items ih => rw [itemsWithoutProvenance, ih, List.map_cons]

/-- A value as it is read under `insights`. -/
def asInsights : Payload → Payload
  | .list items => .list (items.map withoutEvidenceProvenance)
  | value => value

def readUnder (key : String) : Payload → Payload
  | .list items =>
      if key = "evidence" then .list (items.map uncited)
      else if key = "insights" then asInsights (.list items)
      else .list items
  | value => value

theorem entriesWithoutProvenance_eq (entries : List (String × Payload)) :
    entriesWithoutProvenance entries = entries.map fun e => (e.1, readUnder e.1 e.2) := by
  induction entries with
  | nil => rfl
  | cons e entries ih =>
      obtain ⟨key, value⟩ := e
      cases value with
      | leaf value => exact congrArg ((key, .leaf value) :: ·) ih
      | dict fields => exact congrArg ((key, .dict fields) :: ·) ih
      | list items =>
          rw [entriesWithoutProvenance, ih, itemsWithoutProvenance_eq]
          rfl

theorem texts_list (items : List Payload) :
    readerTextValues (.list items) = items.flatMap readerTextValues := by
  rw [readerTextValues, textsOfItems_eq]

theorem texts_dict (entries : List (String × Payload)) :
    readerTextValues (.dict entries) = entries.flatMap fun e => e.1 :: readerTextValues e.2 := by
  rw [readerTextValues, textsOfEntries_eq]

theorem texts_dict_read (entries : List (String × Payload)) :
    readerTextValues (withoutEvidenceProvenance (.dict entries)) =
      entries.flatMap fun e => e.1 :: readerTextValues (readUnder e.1 e.2) := by
  rw [withoutEvidenceProvenance, texts_dict, entriesWithoutProvenance_eq, List.flatMap_map]

theorem texts_insights (items : List Payload) :
    readerTextValues (asInsights (.list items)) =
      items.flatMap fun item => readerTextValues (withoutEvidenceProvenance item) := by
  rw [asInsights, texts_list, List.flatMap_map]

/-! ## What is left out -/

theorem texts_uncited (v : Payload) :
    (readerTextValues (uncited v)).Sublist (readerTextValues v) := by
  cases v with
  | leaf value => exact .refl _
  | list items => exact .refl _
  | dict entries =>
      rw [uncited, texts_dict, texts_dict]
      exact List.filter_sublist.flatMap _

theorem fields_dict (entries : List (String × Payload)) :
    containsForbiddenMarketFields (.dict entries) = true ↔
      (∃ e ∈ entries, forbiddenMarketConclusionKeys.contains e.1.toLower = true) ∨
        ∃ e ∈ entries, containsForbiddenMarketFields e.2 = true := by
  rw [containsForbiddenMarketFields, forbiddenInEntries_eq, Bool.or_eq_true, List.any_eq_true,
    List.any_eq_true]

theorem fields_list (items : List Payload) :
    containsForbiddenMarketFields (.list items) = true ↔
      ∃ item ∈ items, containsForbiddenMarketFields item = true := by
  rw [containsForbiddenMarketFields, forbiddenInItems_eq, List.any_eq_true]

theorem fields_uncited {v : Payload} (h : containsForbiddenMarketFields (uncited v) = true) :
    containsForbiddenMarketFields v = true := by
  cases v with
  | leaf value => exact h
  | list items => exact h
  | dict entries =>
      rw [uncited, fields_dict] at h
      rw [fields_dict]
      rcases h with ⟨e, hmem, h⟩ | ⟨e, hmem, h⟩
      · exact .inl ⟨e, (List.mem_filter.mp hmem).1, h⟩
      · exact .inr ⟨e, (List.mem_filter.mp hmem).1, h⟩

mutual

theorem texts_withoutProvenance :
    ∀ v, (readerTextValues (withoutEvidenceProvenance v)).Sublist (readerTextValues v)
  | .leaf _ => .refl _
  | .list _ => .refl _
  | .dict entries => texts_entriesWithoutProvenance entries

theorem texts_itemsWithoutProvenance :
    ∀ items, (textsOfItems (itemsWithoutProvenance items)).Sublist (textsOfItems items)
  | [] => .refl _
  | item :: items => (texts_withoutProvenance item).append (texts_itemsWithoutProvenance items)

theorem texts_entriesWithoutProvenance :
    ∀ entries, (textsOfEntries (entriesWithoutProvenance entries)).Sublist (textsOfEntries entries)
  | [] => .refl _
  | (key, .leaf value) :: entries =>
      ((texts_entriesWithoutProvenance entries).append_left _).cons_cons key
  | (key, .dict fields) :: entries =>
      ((texts_entriesWithoutProvenance entries).append_left _).cons_cons key
  | (key, .list items) :: entries => by
      rw [entriesWithoutProvenance, textsOfEntries, textsOfEntries]
      refine (List.Sublist.append ?_ (texts_entriesWithoutProvenance entries)).cons_cons key
      split
      · rw [texts_list, texts_list, List.flatMap_map]
        exact List.Sublist.flatMap_right items fun item _ => texts_uncited item
      · split
        · exact texts_itemsWithoutProvenance items
        · exact .refl _

end

theorem keys_withoutProvenance (entries : List (String × Payload)) :
    (entriesWithoutProvenance entries).map Prod.fst = entries.map Prod.fst := by
  rw [entriesWithoutProvenance_eq, List.map_map]
  rfl

mutual

theorem fields_withoutProvenance : ∀ v,
    containsForbiddenMarketFields (withoutEvidenceProvenance v) = true →
      containsForbiddenMarketFields v = true
  | .leaf _, h => h
  | .list _, h => h
  | .dict entries, h => by
      have hkeys : ∀ l : List (String × Payload),
          (l.any fun e => forbiddenMarketConclusionKeys.contains e.1.toLower) =
            (l.map Prod.fst).any fun k => forbiddenMarketConclusionKeys.contains k.toLower :=
        fun l => by rw [List.any_map]; rfl
      rw [withoutEvidenceProvenance, containsForbiddenMarketFields, hkeys,
        keys_withoutProvenance, ← hkeys, Bool.or_eq_true] at h
      rw [containsForbiddenMarketFields, Bool.or_eq_true]
      exact h.imp_right (fields_entriesWithoutProvenance entries)

theorem fields_itemsWithoutProvenance : ∀ items,
    forbiddenInItems (itemsWithoutProvenance items) = true → forbiddenInItems items = true
  | [], h => h
  | item :: items, h => by
      rw [itemsWithoutProvenance, forbiddenInItems, Bool.or_eq_true] at h
      rw [forbiddenInItems, Bool.or_eq_true]
      exact h.imp (fields_withoutProvenance item) (fields_itemsWithoutProvenance items)

theorem fields_entriesWithoutProvenance : ∀ entries,
    forbiddenInEntries (entriesWithoutProvenance entries) = true → forbiddenInEntries entries = true
  | [], h => h
  | (_, .leaf _) :: entries, h =>
      (Bool.or_eq_true ..).mpr
        (((Bool.or_eq_true ..).mp h).imp_right (fields_entriesWithoutProvenance entries))
  | (_, .dict _) :: entries, h =>
      (Bool.or_eq_true ..).mpr
        (((Bool.or_eq_true ..).mp h).imp_right (fields_entriesWithoutProvenance entries))
  | (_, .list items) :: entries, h => by
      rw [entriesWithoutProvenance, forbiddenInEntries, Bool.or_eq_true] at h
      rw [forbiddenInEntries, Bool.or_eq_true]
      refine h.imp (fun h => ?_) (fields_entriesWithoutProvenance entries)
      split at h
      · obtain ⟨_, hmem, h⟩ := (fields_list _).mp h
        obtain ⟨item, hitem, rfl⟩ := List.mem_map.mp hmem
        exact (fields_list _).mpr ⟨item, hitem, fields_uncited h⟩
      · split at h
        · exact fields_itemsWithoutProvenance items h
        · exact h

end

variable {v : Payload}

theorem texts_asInsights (v : Payload) :
    (readerTextValues (asInsights v)).Sublist (readerTextValues v) := by
  cases v with
  | leaf value => exact .refl _
  | dict entries => exact .refl _
  | list items =>
      rw [texts_insights, texts_list]
      exact List.Sublist.flatMap_right items fun item _ => texts_withoutProvenance item

theorem fields_asInsights (h : containsForbiddenMarketFields (asInsights v) = true) :
    containsForbiddenMarketFields v = true := by
  cases v with
  | leaf value => exact h
  | dict entries => exact h
  | list items =>
      rw [asInsights, ← itemsWithoutProvenance_eq] at h
      exact fields_itemsWithoutProvenance items h

/-! ## Unsafe outputs -/

variable {isAlnum : Char → Bool} {names : List String}

variable {w : Payload}

theorem unsafe_of (hnames : ∀ name ∈ names, '\n' ∉ name.toList)
    (hfields : containsForbiddenMarketFields v = true → containsForbiddenMarketFields w = true)
    (htexts : (readerTextValues v).Sublist (readerTextValues w))
    (hread : (readerTextValues (withoutEvidenceProvenance v)).Sublist
      (readerTextValues (withoutEvidenceProvenance w)))
    (h : containsUnsafeMarketOutput isAlnum v names = true) :
    containsUnsafeMarketOutput isAlnum w names = true := by
  simp only [containsUnsafeMarketOutput, containsPerSecurityActionInValues, Bool.or_eq_true]
    at h ⊢
  rcases h with ((h | h) | h) | h | h
  · exact .inl (.inl (.inl (hfields h)))
  · exact .inl (.inl (.inr (any_sublist htexts h)))
  · exact .inl (.inr (any_sublist htexts h))
  · exact .inr (.inl (any_sublist hread h))
  · exact .inr (.inr (action_lines hnames hread h))

/-! ## Nesting -/

inductive Step
  | key (key : String)
  | item
deriving DecidableEq

/-- A value that is found at a place in another. -/
inductive At (v : Payload) : List Step → Payload → Prop
  | here : At v [] v
  | field {key : String} {child : Payload} {entries : List (String × Payload)}
      {path : List Step} : (key, child) ∈ entries → At v path child →
      At v (.key key :: path) (.dict entries)
  | item {child : Payload} {items : List Payload} {path : List Step} : child ∈ items →
      At v path child → At v (.item :: path) (.list items)

/-- The place is that of the insights of the whole, or of one of its insights. -/
def contracted : List Step → Bool
  | [.key key] => key = "insights"
  | .key key :: .item :: path => key = "insights" && contracted path
  | _ => false

def readAt : List Step → Payload → Payload
  | [], v => withoutEvidenceProvenance v
  | [.key key], v => if key = "insights" then asInsights v else v
  | .key key :: .item :: path, v => if key = "insights" then readAt path v else v
  | _, v => v

theorem sublist_flatMap {α β : Type} {f : α → List β} {x : α} {l : List α} (h : x ∈ l) :
    (f x).Sublist (l.flatMap f) := by
  rw [List.flatMap_def]
  exact List.sublist_flatten_of_mem (List.mem_map_of_mem h)

variable {path : List Step}

theorem texts_at (h : At v path w) : (readerTextValues v).Sublist (readerTextValues w) := by
  induction h with
  | here => exact .refl _
  | field hmem _ ih =>
      rw [texts_dict]
      exact (ih.trans (List.sublist_cons_self _ _)).trans
        (sublist_flatMap (f := fun e => e.1 :: readerTextValues e.2) hmem)
  | item hmem _ ih =>
      rw [texts_list]
      exact ih.trans (sublist_flatMap hmem)

theorem fields_at (h : At v path w)
    (hv : containsForbiddenMarketFields v = true) : containsForbiddenMarketFields w = true := by
  induction h with
  | here => exact hv
  | field hmem _ ih => exact (fields_dict _).mpr (.inr ⟨_, hmem, ih⟩)
  | item hmem _ ih => exact (fields_list _).mpr ⟨_, hmem, ih⟩

/-- A list under `insights` has the place of the whole's insights. The induction
follows the place from there, so that it is about both. -/
theorem read_at (h : At v path w) (hpath : .key "evidence" ∉ path) :
    (readerTextValues (readAt path v)).Sublist (readerTextValues (withoutEvidenceProvenance w)) ∧
      ∀ items, w = .list items → (readerTextValues (readAt (.key "insights" :: path) v)).Sublist
        (readerTextValues (asInsights (.list items))) := by
  induction h with
  | here =>
      refine ⟨.refl _, fun items hw => ?_⟩
      rw [hw]
      exact .refl _
  | @field key child entries path hmem hat ih =>
      refine ⟨?_, fun items hw => by cases hw⟩
      have hne : key ≠ "evidence" := fun heq => hpath (heq ▸ List.mem_cons_self)
      obtain ⟨hchild, hitems⟩ := ih fun hmem => hpath (List.mem_cons_of_mem _ hmem)
      rw [texts_dict_read]
      refine List.Sublist.trans ?_
        (sublist_flatMap (f := fun e => e.1 :: readerTextValues (readUnder e.1 e.2)) hmem)
      refine List.Sublist.trans ?_ (List.sublist_cons_self _ _)
      dsimp only
      by_cases hkey : key = "insights"
      · subst hkey
        cases child with
        | list items => exact hitems items rfl
        | leaf value =>
            cases hat
            exact .refl _
        | dict fields =>
            cases hat with
            | here => exact .refl _
            | field hfield hat =>
                exact texts_at (.field hfield hat)
      · have hread : readUnder key child = child := by
          cases child with
          | leaf value => rfl
          | dict fields => rfl
          | list items => rw [readUnder, if_neg hne, if_neg hkey]
        have hat' : readAt (.key key :: path) v = v := by
          cases path with
          | nil => rw [readAt, if_neg hkey]
          | cons step path =>
              cases step with
              | key key' => rfl
              | item => rw [readAt, if_neg hkey]
        rw [hread, hat']
        exact texts_at hat
  | @item child items path hmem hat ih =>
      obtain ⟨hchild, -⟩ := ih fun hmem => hpath (List.mem_cons_of_mem _ hmem)
      refine ⟨texts_at (.item hmem hat), fun items' hw => ?_⟩
      cases hw
      rw [texts_insights]
      exact hchild.trans
        (sublist_flatMap (f := fun item => readerTextValues (withoutEvidenceProvenance item)) hmem)

theorem readAt_of_contracted {v : Payload} :
    ∀ {path : List Step}, contracted path = true → readAt path v = asInsights v
  | [], h => by cases h
  | [.key key], h => if_pos (of_decide_eq_true h)
  | .key key :: .item :: path, h => by
      rw [contracted, Bool.and_eq_true] at h
      rw [readAt, if_pos (of_decide_eq_true h.1)]
      exact readAt_of_contracted h.2
  | .key _ :: .key _ :: _, h => by cases h
  | .item :: _, h => by cases h

theorem texts_readAt {v : Payload} : ∀ {path : List Step}, contracted path = false →
    (readerTextValues (withoutEvidenceProvenance v)).Sublist (readerTextValues (readAt path v))
  | [], _ => .refl _
  | [.key key], h => by
      rw [readAt, if_neg (of_decide_eq_false h)]
      exact texts_withoutProvenance v
  | .key key :: .item :: path, h => by
      rw [readAt]
      split
      · next hkey =>
          rw [contracted, decide_eq_true hkey, Bool.true_and] at h
          exact texts_readAt h
      · exact texts_withoutProvenance v
  | .key _ :: .key _ :: _, _ => texts_withoutProvenance v
  | .item :: _, _ => texts_withoutProvenance v

/-! ## Additions -/

/-- A field or an element more, at some depth. -/
inductive Adds : Payload → Payload → Prop
  | field {before after : List (String × Payload)} {key : String} {value : Payload} :
      Adds (.dict (before ++ after)) (.dict (before ++ (key, value) :: after))
  | element {before after : List Payload} {value : Payload} :
      Adds (.list (before ++ after)) (.list (before ++ value :: after))
  | inField {before after : List (String × Payload)} {key : String} {v w : Payload} :
      Adds v w → Adds (.dict (before ++ (key, v) :: after)) (.dict (before ++ (key, w) :: after))
  | inElement {before after : List Payload} {v w : Payload} :
      Adds v w → Adds (.list (before ++ v :: after)) (.list (before ++ w :: after))

/-- What an addition does to what is read of a value. -/
structure Grows (v w : Payload) : Prop where
  fields : containsForbiddenMarketFields v = true → containsForbiddenMarketFields w = true
  texts : (readerTextValues v).Sublist (readerTextValues w)
  read : (readerTextValues (withoutEvidenceProvenance v)).Sublist
    (readerTextValues (withoutEvidenceProvenance w))
  uncited : (readerTextValues (uncited v)).Sublist (readerTextValues (uncited w))
  under : ∀ key, (readerTextValues (readUnder key v)).Sublist (readerTextValues (readUnder key w))

def itemTexts (key : String) (item : Payload) : List String :=
  readerTextValues (if key = "evidence" then uncited item
    else if key = "insights" then withoutEvidenceProvenance item else item)

theorem texts_under_list (key : String) (items : List Payload) :
    readerTextValues (readUnder key (.list items)) = items.flatMap (itemTexts key) := by
  rw [readUnder]
  split
  · next hkey =>
      rw [texts_list, List.flatMap_map]
      exact List.flatMap_congr fun item _ => by rw [itemTexts, if_pos hkey]
  · next hkey =>
      split
      · next hinsights =>
          rw [texts_insights]
          exact List.flatMap_congr fun item _ => by rw [itemTexts, if_neg hkey, if_pos hinsights]
      · next hinsights =>
          rw [texts_list]
          exact List.flatMap_congr fun item _ => by rw [itemTexts, if_neg hkey, if_neg hinsights]

def citedTexts (e : String × Payload) : List String :=
  if e.1 ∈ ["source", "locator", "evidence_id", "observed_at"] then []
  else e.1 :: readerTextValues e.2

theorem texts_dict_uncited (entries : List (String × Payload)) :
    readerTextValues (uncited (.dict entries)) = entries.flatMap citedTexts := by
  rw [uncited, texts_dict]
  induction entries with
  | nil => rfl
  | cons e entries ih =>
      rw [List.flatMap_cons, citedTexts, List.filter_cons, ← ih]
      by_cases he : e.1 ∈ ["source", "locator", "evidence_id", "observed_at"]
      · rw [if_neg (fun h => absurd he (of_decide_eq_true h)), if_pos he, List.nil_append]
      · rw [if_pos (decide_eq_true he), if_neg he, List.flatMap_cons]

theorem insert_sublist {α β : Type} (f : α → List β) (before after : List α) (x : α) :
    ((before ++ after).flatMap f).Sublist ((before ++ x :: after).flatMap f) :=
  ((List.sublist_cons_self x after).append_left before).flatMap f

theorem replace_sublist {α β : Type} (f : α → List β) (before after : List α) {x y : α}
    (h : (f x).Sublist (f y)) :
    ((before ++ x :: after).flatMap f).Sublist ((before ++ y :: after).flatMap f) := by
  rw [List.flatMap_append, List.flatMap_append, List.flatMap_cons, List.flatMap_cons]
  exact (List.Sublist.refl _).append (h.append (.refl _))

theorem Adds.grows (h : Adds v w) : Grows v w := by
  induction h with
  | @field before after key value =>
      refine ⟨fun h => ?_, ?_, ?_, ?_, fun key' => ?_⟩
      · have hsub : (before ++ after) ⊆ before ++ (key, value) :: after :=
          ((List.sublist_cons_self _ after).append_left before).subset
        rw [fields_dict] at h ⊢
        exact h.imp (fun ⟨e, hmem, h⟩ => ⟨e, hsub hmem, h⟩) fun ⟨e, hmem, h⟩ => ⟨e, hsub hmem, h⟩
      · rw [texts_dict, texts_dict]
        exact insert_sublist _ before after _
      · rw [texts_dict_read, texts_dict_read]
        exact insert_sublist _ before after _
      · rw [texts_dict_uncited, texts_dict_uncited]
        exact insert_sublist _ before after _
      · show (readerTextValues (.dict _)).Sublist (readerTextValues (.dict _))
        rw [texts_dict, texts_dict]
        exact insert_sublist _ before after _
  | @element before after value =>
      have htexts := insert_sublist readerTextValues before after value
      rw [← texts_list, ← texts_list] at htexts
      refine ⟨fun h => ?_, htexts, htexts, htexts, fun key => ?_⟩
      · rw [fields_list] at h ⊢
        obtain ⟨item, hmem, h⟩ := h
        exact ⟨item, ((List.sublist_cons_self _ after).append_left before).subset hmem, h⟩
      · rw [texts_under_list, texts_under_list]
        exact insert_sublist _ before after value
  | @inField before after key v w _ ih =>
      have htexts := replace_sublist (fun e : String × Payload => e.1 :: readerTextValues e.2)
        before after (x := (key, v)) (y := (key, w)) (ih.texts.cons_cons key)
      rw [← texts_dict, ← texts_dict] at htexts
      refine ⟨fun h => ?_, htexts, ?_, ?_, fun _ => htexts⟩
      · rw [fields_dict] at h ⊢
        simp only [List.mem_append, List.mem_cons] at h ⊢
        rcases h with ⟨e, hmem | rfl | hmem, h⟩ | ⟨e, hmem | rfl | hmem, h⟩
        · exact .inl ⟨e, .inl hmem, h⟩
        · exact .inl ⟨(key, w), .inr (.inl rfl), h⟩
        · exact .inl ⟨e, .inr (.inr hmem), h⟩
        · exact .inr ⟨e, .inl hmem, h⟩
        · exact .inr ⟨(key, w), .inr (.inl rfl), ih.fields h⟩
        · exact .inr ⟨e, .inr (.inr hmem), h⟩
      · rw [texts_dict_read, texts_dict_read]
        exact replace_sublist _ before after ((ih.under key).cons_cons key)
      · rw [texts_dict_uncited, texts_dict_uncited]
        refine replace_sublist _ before after ?_
        rw [citedTexts, citedTexts]
        split
        · exact .refl _
        · exact ih.texts.cons_cons key
  | @inElement before after v w _ ih =>
      have htexts := replace_sublist readerTextValues before after ih.texts
      rw [← texts_list, ← texts_list] at htexts
      refine ⟨fun h => ?_, htexts, htexts, htexts, fun key => ?_⟩
      · rw [fields_list] at h ⊢
        simp only [List.mem_append, List.mem_cons] at h ⊢
        obtain ⟨item, hmem | rfl | hmem, h⟩ := h
        · exact ⟨item, .inl hmem, h⟩
        · exact ⟨w, .inr (.inl rfl), ih.fields h⟩
        · exact ⟨item, .inr (.inr hmem), h⟩
      · rw [texts_under_list, texts_under_list]
        refine replace_sublist _ before after ?_
        rw [itemTexts, itemTexts]
        split
        · exact ih.uncited
        · split
          · exact ih.read
          · exact ih.texts

/-! ## An unsafe output stays unsafe -/

/-- Where no security's name has a line break, what contains a value that is rejected
is rejected, at any depth and under any keys but `evidence`; a list that is put
where the contract has insights is, if it is without the provenance of their
evidence. Whatever is added to a value that is rejected, it stays rejected. -/
theorem rejected_stays (hnames : ∀ name ∈ names, '\n' ∉ name.toList) {v : Payload}
    (h : containsUnsafeMarketOutput isAlnum v names = true) :
    (∀ path w, At v path w → .key "evidence" ∉ path →
      (contracted path = true → containsUnsafeMarketOutput isAlnum (asInsights v) names = true) →
      containsUnsafeMarketOutput isAlnum w names = true) ∧
    ∀ w, Relation.ReflTransGen Adds v w → containsUnsafeMarketOutput isAlnum w names = true := by
  constructor
  · intro path w hat hpath hinsights
    have hread := (read_at hat hpath).1
    cases hplace : contracted path with
    | false =>
        exact unsafe_of hnames (fields_at hat) (texts_at hat)
          ((texts_readAt hplace).trans hread) h
    | true =>
        rw [readAt_of_contracted hplace] at hread
        exact unsafe_of hnames (fun hv => fields_at hat (fields_asInsights hv))
          ((texts_asInsights v).trans (texts_at hat))
          ((texts_withoutProvenance _).trans hread) (hinsights hplace)
  · intro w hw
    induction hw with
    | refl => exact h
    | tail _ hadds ih =>
        have hgrows := hadds.grows
        exact unsafe_of hnames hgrows.fields hgrows.texts hgrows.read ih

def sampleInsights : Payload :=
  .list [.dict [("text", .leaf (.text "买入")),
    ("evidence", .list [.dict [("source", .leaf (.text "600519"))]])]]

theorem rejected_stays_sample :
    containsUnsafeMarketOutput Char.isAlphanum (.dict [("details", sampleInsights)]) [] = true ∧
    containsUnsafeMarketOutput Char.isAlphanum
      (.list [.dict [("text", .leaf (.text "买入")), ("evidence",
        .list [.dict [("source", .leaf (.text "600519")), ("locator", .leaf .null)]])]]) [] =
      true := by
  have h := @rejected_stays Char.isAlphanum [] (fun _ hname => by cases hname) sampleInsights
    (by decide +kernel)
  refine ⟨h.1 [.key "details"] _ (.field List.mem_cons_self .here) (by decide)
    (fun hplace => absurd hplace (by decide)), h.2 _ (.single ?_)⟩
  exact @Adds.inElement [] [] _ _ (@Adds.inField [_] [] _ _ _ (@Adds.inElement [] [] _ _
    (@Adds.field [_] [] _ _)))

/-- The source of an insight that is moved to `insights` is not looked at any more, and
a name of two lines is no longer found when a text comes between its lines. -/
theorem rejected_stays_counterexample :
    (containsUnsafeMarketOutput Char.isAlphanum sampleInsights [] = true ∧
      containsUnsafeMarketOutput Char.isAlphanum (.dict [("insights", sampleInsights)]) [] =
        false) ∧
    (containsUnsafeMarketOutput Char.isAlphanum
        (.list [.leaf (.text "买入甲"), .leaf (.text "乙")]) ["甲\n乙"] = true ∧
      containsUnsafeMarketOutput Char.isAlphanum
        (.list [.leaf (.text "买入甲"), .leaf (.text "和"), .leaf (.text "乙")]) ["甲\n乙"] =
        false) := by
  decide +kernel

end Ahunter.Market
