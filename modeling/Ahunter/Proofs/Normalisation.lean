import Ahunter.Mx.Migration

/-!
# Normalising twice

Cleaning drops values and never makes a new one that it would drop: a `msg` that is kept is
no disclaimer, whatever else of its object goes, and what is left of a `type` can still be
made a string. So a message without the property `__proto__` and without numbers beyond
the doubles comes out of a second cleaning, and out of storage, as it went in. With one of
these it need not: the assignment to `__proto__` sets a prototype, which storage drops, and
an infinite number is stored as null.
-/

namespace Ahunter.Mx

open Ahunter.Lib

/-! ## Plain values -/

mutual

/-- A value of distinct keys without `__proto__` and without infinite numbers. -/
def Json.plain : Json → Bool
  | .number (.infinite _) => false
  | .array items => plainItems items
  | .object entries => decide (entries.map Prod.fst).Nodup && plainEntries entries
  | _ => true

def plainItems : List Json → Bool
  | [] => true
  | item :: items => item.plain && plainItems items

def plainEntries : List (String × Json) → Bool
  | [] => true
  | (key, value) :: entries => decide (key ≠ protoKey) && value.plain && plainEntries entries

end

mutual

theorem restored_plain (value : Json) (h : value.plain = true) : value.restored = value := by
  match value with
  | .null | .bool _ | .string _ | .number (.finite _) => rfl
  | .number (.infinite _) => cases h
  | .array items =>
      rw [Json.restored, restoredItems_plain items h]
  | .object entries =>
      rw [Json.plain, Bool.and_eq_true] at h
      rw [Json.restored, restoredEntries_plain entries h.2]

theorem restoredItems_plain (items : List Json) (h : plainItems items = true) :
    restoredItems items = items := by
  match items with
  | [] => rfl
  | item :: items =>
      rw [plainItems, Bool.and_eq_true] at h
      rw [restoredItems, restored_plain item h.1, restoredItems_plain items h.2]

theorem restoredEntries_plain (entries : List (String × Json)) (h : plainEntries entries = true) :
    restoredEntries entries = entries := by
  match entries with
  | [] => rfl
  | (key, value) :: entries =>
      rw [plainEntries, Bool.and_eq_true, Bool.and_eq_true, decide_eq_true_eq] at h
      rw [restoredEntries, if_neg h.1.1, restored_plain value h.1.2,
        restoredEntries_plain entries h.2]

end

/-! ## What cleaning leaves -/

section Clean

variable {rt : Runtime} {cleaned : List (String × Json)} {value : Json} {key : String}
  {entries : List (String × Json)}

theorem cleanEntries_cons_ok {child : Json} (hkey : key ≠ protoKey) :
    cleanEntries rt ((key, child) :: entries) = .ok cleaned ↔
      ∃ kept rest, clean rt (if key = "msg" then .msg else .property) child = .ok kept ∧
        cleanEntries rt entries = .ok rest ∧
        cleaned = (kept.map fun value => (key, value)).toList ++ rest := by
  rw [cleanEntries]
  constructor
  · intro h
    obtain ⟨kept, hclean, h⟩ := bind_ok.mp h
    obtain ⟨rest, hrest, h⟩ := bind_ok.mp h
    refine ⟨kept, rest, hclean, hrest, ?_⟩
    cases h
    cases kept with
    | none => rfl
    | some value => cases value <;> simp [hkey]
  · rintro ⟨kept, rest, hclean, hrest, rfl⟩
    refine bind_ok.mpr ⟨kept, hclean, bind_ok.mpr ⟨rest, hrest, ?_⟩⟩
    cases kept with
    | none => rfl
    | some value => cases value <;> simp [hkey]

theorem cleanItems_cons_ok {item : Json} {items cleaned : List Json} :
    cleanItems rt (item :: items) = .ok cleaned ↔
      ∃ kept rest, clean rt .array item = .ok kept ∧ cleanItems rt items = .ok rest ∧
        cleaned = kept.toList ++ rest := by
  rw [cleanItems]
  constructor
  · intro h
    obtain ⟨kept, hclean, h⟩ := bind_ok.mp h
    obtain ⟨rest, hrest, h⟩ := bind_ok.mp h
    cases h
    exact ⟨kept, rest, hclean, hrest, rfl⟩
  · rintro ⟨kept, rest, hclean, hrest, rfl⟩
    exact bind_ok.mpr ⟨kept, hclean, bind_ok.mpr ⟨rest, hrest, rfl⟩⟩

variable {location : Location}

theorem clean_array_ok {items : List Json} :
    clean rt location (.array items) = .ok (some value) ↔
      ∃ cleaned, cleanItems rt items = .ok cleaned ∧ value = .array cleaned := by
  rw [clean]
  constructor
  · intro h
    obtain ⟨cleaned, hcleaned, h⟩ := bind_ok.mp h
    cases h
    exact ⟨cleaned, hcleaned, rfl⟩
  · rintro ⟨cleaned, hcleaned, rfl⟩
    exact bind_ok.mpr ⟨cleaned, hcleaned, rfl⟩

def isDisclaimerNode (type : String) (entries : List (String × Json)) : Prop :=
  type = "text" ∧ (entries.all fun e => e.1 ∈ ["type", "msg"]) = true ∧
    isMxDisclaimer (firstEntry entries "msg") = true

theorem clean_object_ok :
    clean rt location (.object entries) = .ok (some value) ↔
      ∃ type cleaned, typeName rt own (.object entries) = .ok type ∧
        ¬ isDisclaimerNode type entries ∧ cleanEntries rt entries = .ok cleaned ∧
        value = .object cleaned := by
  rw [clean]
  constructor
  · intro h
    obtain ⟨type, htype, h⟩ := bind_ok.mp h
    split at h
    · cases h
    · next hnode =>
        obtain ⟨cleaned, hcleaned, h⟩ := bind_ok.mp h
        cases h
        exact ⟨type, cleaned, htype, hnode, hcleaned, rfl⟩
  · rintro ⟨type, cleaned, htype, hnode, hcleaned, rfl⟩
    exact bind_ok.mpr ⟨type, htype,
      (if_neg hnode).trans (bind_ok.mpr ⟨cleaned, hcleaned, rfl⟩)⟩

theorem clean_string_ok {text : String} :
    clean rt location (.string text) = .ok (some value) ↔ value = .string text ∧
        ¬ (isMxDisclaimer (some (.string text)) = true ∧ location ≠ .property) := by
  rw [clean]
  split
  · next h => simp [h]
  · next h =>
      simp only [Except.ok.injEq, Option.some.injEq, h, not_false_eq_true, and_true]
      exact eq_comm

theorem cleanEntries_mem (hplain : plainEntries entries = true)
    (hclean : cleanEntries rt entries = .ok cleaned) (hmem : (key, value) ∈ cleaned) :
    ∃ child, (key, child) ∈ entries ∧
      clean rt (if key = "msg" then .msg else .property) child = .ok (some value) := by
  induction entries generalizing cleaned with
  | nil =>
      cases hclean
      cases hmem
  | cons entry rest ih =>
      obtain ⟨name, child⟩ := entry
      rw [plainEntries, Bool.and_eq_true, Bool.and_eq_true, decide_eq_true_eq] at hplain
      obtain ⟨kept, others, hkept, hothers, rfl⟩ := (cleanEntries_cons_ok hplain.1.1).mp hclean
      rcases List.mem_append.mp hmem with hfirst | hlater
      · rw [Option.mem_toList, Option.map_eq_some_iff] at hfirst
        obtain ⟨found, rfl, heq⟩ := hfirst
        cases heq
        exact ⟨child, List.mem_cons_self, hkept⟩
      · obtain ⟨other, hother, hvalue⟩ := ih hplain.2 hothers hlater
        exact ⟨other, List.mem_cons_of_mem _ hother, hvalue⟩

theorem cleanEntries_keys (hplain : plainEntries entries = true)
    (hclean : cleanEntries rt entries = .ok cleaned) :
    (cleaned.map Prod.fst).Sublist (entries.map Prod.fst) := by
  induction entries generalizing cleaned with
  | nil =>
      cases hclean
      exact .slnil
  | cons entry rest ih =>
      obtain ⟨name, child⟩ := entry
      rw [plainEntries, Bool.and_eq_true, Bool.and_eq_true, decide_eq_true_eq] at hplain
      obtain ⟨kept, others, hkept, hothers, rfl⟩ := (cleanEntries_cons_ok hplain.1.1).mp hclean
      cases kept with
      | none => exact (ih hplain.2 hothers).cons _
      | some value => exact (ih hplain.2 hothers).cons_cons _

theorem cleaned_msg (hplain : plainEntries entries = true)
    (hclean : cleanEntries rt entries = .ok cleaned) :
    isMxDisclaimer (firstEntry cleaned "msg") = false := by
  cases hmsg : firstEntry cleaned "msg" with
  | none => rfl
  | some value =>
      obtain ⟨entry, hfind, rfl⟩ := Option.map_eq_some_iff.mp hmsg
      have hkey : entry.1 = "msg" := by simpa using List.find?_some hfind
      obtain ⟨child, -, hchild⟩ := cleanEntries_mem hplain hclean
        (show (entry.1, entry.2) ∈ _ from List.mem_of_find?_eq_some hfind)
      rw [if_pos hkey] at hchild
      cases child with
      | string text =>
          obtain ⟨heq, hnot⟩ := clean_string_ok.mp hchild
          rw [heq]
          refine Bool.eq_false_iff.mpr fun htrue => hnot ⟨htrue, nofun⟩
      | array items =>
          obtain ⟨_, -, heq⟩ := clean_array_ok.mp hchild
          rw [heq]
          rfl
      | object entries =>
          obtain ⟨_, _, -, -, -, heq⟩ := clean_object_ok.mp hchild
          rw [heq]
          rfl
      | _ =>
          simp only [clean, Except.ok.injEq, Option.some.injEq] at hchild
          rw [← hchild]
          rfl

/-! ## What is left of a type -/

theorem firstEntry_mem (h : firstEntry entries key = some value) : (key, value) ∈ entries := by
  obtain ⟨entry, hfind, rfl⟩ := Option.map_eq_some_iff.mp h
  have hkey : entry.1 = key := by simpa using List.find?_some hfind
  rw [← hkey]
  exact List.mem_of_find?_eq_some hfind

theorem firstEntry_none : firstEntry entries key = none ↔ key ∉ entries.map Prod.fst := by
  rw [firstEntry, Option.map_eq_none_iff, List.find?_eq_none]
  simp only [decide_eq_true_eq, List.mem_map, not_exists, not_and]

theorem firstEntry_of_mem (hnodup : (entries.map Prod.fst).Nodup) (h : (key, value) ∈ entries) :
    firstEntry entries key = some value := by
  induction entries with
  | nil => cases h
  | cons entry rest ih =>
      rw [List.map_cons, List.nodup_cons] at hnodup
      rcases List.mem_cons.mp h with rfl | hmem
      · simp [firstEntry]
      · have hne : entry.1 ≠ key := by
          rintro rfl
          exact hnodup.1 (List.mem_map.mpr ⟨_, hmem, rfl⟩)
        have hrest := ih hnodup.2 hmem
        unfold firstEntry at hrest ⊢
        rw [List.find?_cons_of_neg (by simpa using hne)]
        exact hrest

theorem jsStrings_cons {item : Json} {items : List Json} :
    (∃ texts, jsStrings rt own (item :: items) = .ok texts) ↔
      (∃ text, jsString rt own item = .ok text) ∧ ∃ texts, jsStrings rt own items = .ok texts := by
  cases item with
  | null =>
      rw [jsStrings]
      constructor
      · intro ⟨_, h⟩
        obtain ⟨rest, hrest, -⟩ := bind_ok.mp h
        exact ⟨⟨"null", rfl⟩, rest, hrest⟩
      · intro ⟨_, rest, hrest⟩
        exact ⟨"" :: rest, bind_ok.mpr ⟨rest, hrest, rfl⟩⟩
  | _ =>
      rw [jsStrings]
      · constructor
        · intro ⟨_, h⟩
          obtain ⟨text, htext, h⟩ := bind_ok.mp h
          obtain ⟨rest, hrest, -⟩ := bind_ok.mp h
          exact ⟨⟨text, htext⟩, rest, hrest⟩
        · intro ⟨⟨text, htext⟩, rest, hrest⟩
          exact ⟨text :: rest, bind_ok.mpr ⟨text, htext, bind_ok.mpr ⟨rest, hrest, rfl⟩⟩⟩
      · nofun

mutual

theorem cleaned_string (location : Location) (value cleaned : Json) (hplain : value.plain = true)
    (hclean : clean rt location value = .ok (some cleaned)) {text : String}
    (hstring : jsString rt own value = .ok text) :
    ∃ other, jsString rt own cleaned = .ok other := by
  match value with
  | .null | .bool _ | .number _ =>
      simp only [clean, Except.ok.injEq, Option.some.injEq] at hclean
      exact ⟨text, hclean ▸ hstring⟩
  | .string _ => exact ⟨text, (clean_string_ok.mp hclean).1 ▸ hstring⟩
  | .array items =>
      obtain ⟨others, hothers, rfl⟩ := clean_array_ok.mp hclean
      rw [jsString] at hstring
      obtain ⟨texts, htexts, -⟩ := bind_ok.mp hstring
      obtain ⟨left, hleft⟩ := cleaned_strings items others hplain hothers htexts
      exact ⟨_, by rw [jsString]; exact bind_ok.mpr ⟨left, hleft, rfl⟩⟩
  | .object entries =>
      obtain ⟨_, others, -, -, hothers, rfl⟩ := clean_object_ok.mp hclean
      rw [Json.plain, Bool.and_eq_true] at hplain
      have hnone : firstEntry entries "toString" = none := by
        rw [jsString] at hstring
        cases hfirst : firstEntry entries "toString" with
        | none => rfl
        | some found =>
            simp only [own, hfirst] at hstring
            cases hstring
      have hleft : firstEntry others "toString" = none := by
        rw [firstEntry_none] at hnone ⊢
        exact fun hmem => hnone ((cleanEntries_keys hplain.2 hothers).subset hmem)
      refine ⟨"[object Object]", ?_⟩
      rw [jsString]
      simp only [own, hleft]

theorem cleaned_strings (items cleaned : List Json) (hplain : plainItems items = true)
    (hclean : cleanItems rt items = .ok cleaned) {texts : List String}
    (hstrings : jsStrings rt own items = .ok texts) :
    ∃ others, jsStrings rt own cleaned = .ok others := by
  match items with
  | [] =>
      cases hclean
      exact ⟨[], rfl⟩
  | item :: items =>
      rw [plainItems, Bool.and_eq_true] at hplain
      obtain ⟨kept, rest, hkept, hrest, rfl⟩ := cleanItems_cons_ok.mp hclean
      obtain ⟨⟨text, htext⟩, others, hothers⟩ := jsStrings_cons.mp ⟨texts, hstrings⟩
      have hleft := cleaned_strings items rest hplain.2 hrest hothers
      cases kept with
      | none => exact hleft
      | some value =>
          exact jsStrings_cons.mpr ⟨cleaned_string .array item value hplain.1 hkept htext, hleft⟩

end

variable {value : Json}

theorem firstEntry_cleaned {entries cleaned : List (String × Json)}
    (hplain : plainEntries entries = true) (hnodup : (entries.map Prod.fst).Nodup)
    (hclean : cleanEntries rt entries = .ok cleaned) {key : String}
    (hfirst : firstEntry cleaned key = some value) :
    ∃ child, firstEntry entries key = some child ∧
      clean rt (if key = "msg" then .msg else .property) child = .ok (some value) := by
  obtain ⟨child, hmem, hchild⟩ := cleanEntries_mem hplain hclean (firstEntry_mem hfirst)
  exact ⟨child, firstEntry_of_mem hnodup hmem, hchild⟩

theorem plainEntries_mem {entries : List (String × Json)} (hplain : plainEntries entries = true)
    {key : String} (h : (key, value) ∈ entries) : value.plain = true := by
  induction entries with
  | nil => cases h
  | cons entry rest ih =>
      obtain ⟨name, child⟩ := entry
      rw [plainEntries, Bool.and_eq_true, Bool.and_eq_true] at hplain
      rcases List.mem_cons.mp h with heq | hmem
      · cases heq
        exact hplain.1.2
      · exact ih hplain.2 hmem

theorem clean_truthy {location : Location} {child : Json}
    (hclean : clean rt location child = .ok (some value)) :
    truthy (some value) = truthy (some child) := by
  cases child with
  | string text => rw [(clean_string_ok.mp hclean).1]
  | array items =>
      obtain ⟨_, -, rfl⟩ := clean_array_ok.mp hclean
      rfl
  | object entries =>
      obtain ⟨_, _, -, -, -, rfl⟩ := clean_object_ok.mp hclean
      rfl
  | _ =>
      simp only [clean, Except.ok.injEq, Option.some.injEq] at hclean
      rw [← hclean]

theorem typeName_cleaned {entries cleaned : List (String × Json)}
    (hplain : plainEntries entries = true) (hnodup : (entries.map Prod.fst).Nodup)
    (hclean : cleanEntries rt entries = .ok cleaned) {type : String}
    (htype : typeName rt own (.object entries) = .ok type) :
    ∃ other, typeName rt own (.object cleaned) = .ok other := by
  have hnamed : ∀ value : Json, (∃ text, jsString rt own value = .ok text) →
      ∃ other, (do
        let text ← jsString rt own value
        .ok text.toLower : Except String String) = .ok other := by
    intro value ⟨text, htext⟩
    exact ⟨_, bind_ok.mpr ⟨text, htext, rfl⟩⟩
  unfold typeName
  cases hfirst : firstEntry cleaned "type" with
  | none =>
      simp only [own, hfirst, orElse, truthy]
      exact hnamed _ ⟨"", rfl⟩
  | some value =>
      simp only [own, hfirst, orElse]
      by_cases htruthy : truthy (some value) = true
      · rw [if_pos htruthy]
        refine hnamed value ?_
        obtain ⟨child, hchild, hcleaned⟩ := firstEntry_cleaned hplain hnodup hclean hfirst
        rw [if_neg (by decide)] at hcleaned
        unfold typeName at htype
        rw [clean_truthy hcleaned] at htruthy
        simp only [own, hchild, orElse, htruthy, if_true] at htype
        obtain ⟨text, htext, -⟩ := bind_ok.mp htype
        exact cleaned_string .property child value
          (plainEntries_mem hplain (firstEntry_mem hchild)) hcleaned htext
      · rw [if_neg htruthy]
        exact hnamed _ ⟨"", rfl⟩

/-! ## Cleaning again -/

mutual

theorem clean_again (location : Location) (value cleaned : Json) (hplain : value.plain = true)
    (hclean : clean rt location value = .ok (some cleaned)) :
    clean rt location cleaned = .ok (some cleaned) ∧ cleaned.plain = true := by
  match value with
  | .null | .bool _ | .number _ =>
      simp only [clean, Except.ok.injEq, Option.some.injEq] at hclean
      subst hclean
      exact ⟨rfl, hplain⟩
  | .string text =>
      obtain ⟨rfl, hkept⟩ := clean_string_ok.mp hclean
      exact ⟨hclean, hplain⟩
  | .array items =>
      obtain ⟨others, hothers, rfl⟩ := clean_array_ok.mp hclean
      obtain ⟨hagain, hleft⟩ := cleanItems_again items others hplain hothers
      exact ⟨clean_array_ok.mpr ⟨others, hagain, rfl⟩, hleft⟩
  | .object entries =>
      obtain ⟨type, others, htype, -, hothers, rfl⟩ := clean_object_ok.mp hclean
      rw [Json.plain, Bool.and_eq_true, decide_eq_true_eq] at hplain
      obtain ⟨hagain, hleft⟩ := cleanEntries_again entries others hplain.2 hothers
      obtain ⟨other, hother⟩ := typeName_cleaned hplain.2 hplain.1 hothers htype
      have hnode : ¬ isDisclaimerNode other others := by
        intro hnode
        exact absurd hnode.2.2 (Bool.eq_false_iff.mp (cleaned_msg hplain.2 hothers))
      refine ⟨clean_object_ok.mpr ⟨other, others, hother, hnode, hagain, rfl⟩, ?_⟩
      rw [Json.plain, Bool.and_eq_true, decide_eq_true_eq]
      exact ⟨hplain.1.sublist (cleanEntries_keys hplain.2 hothers), hleft⟩

theorem cleanItems_again (items cleaned : List Json) (hplain : plainItems items = true)
    (hclean : cleanItems rt items = .ok cleaned) :
    cleanItems rt cleaned = .ok cleaned ∧ plainItems cleaned = true := by
  match items with
  | [] =>
      cases hclean
      exact ⟨rfl, rfl⟩
  | item :: items =>
      rw [plainItems, Bool.and_eq_true] at hplain
      obtain ⟨kept, rest, hkept, hrest, rfl⟩ := cleanItems_cons_ok.mp hclean
      obtain ⟨hagain, hleft⟩ := cleanItems_again items rest hplain.2 hrest
      cases kept with
      | none => exact ⟨hagain, hleft⟩
      | some value =>
          obtain ⟨hvalue, hvaluePlain⟩ := clean_again .array item value hplain.1 hkept
          refine ⟨cleanItems_cons_ok.mpr ⟨some value, rest, hvalue, hagain, rfl⟩, ?_⟩
          show plainItems (value :: rest) = true
          rw [plainItems, hvaluePlain, hleft]
          rfl

theorem cleanEntries_again (entries cleaned : List (String × Json))
    (hplain : plainEntries entries = true) (hclean : cleanEntries rt entries = .ok cleaned) :
    cleanEntries rt cleaned = .ok cleaned ∧ plainEntries cleaned = true := by
  match entries with
  | [] =>
      cases hclean
      exact ⟨rfl, rfl⟩
  | (key, child) :: entries =>
      rw [plainEntries, Bool.and_eq_true, Bool.and_eq_true, decide_eq_true_eq] at hplain
      obtain ⟨kept, rest, hkept, hrest, rfl⟩ := (cleanEntries_cons_ok hplain.1.1).mp hclean
      obtain ⟨hagain, hleft⟩ := cleanEntries_again entries rest hplain.2 hrest
      cases kept with
      | none => exact ⟨hagain, hleft⟩
      | some value =>
          obtain ⟨hvalue, hvaluePlain⟩ := clean_again _ child value hplain.1.2 hkept
          refine ⟨(cleanEntries_cons_ok hplain.1.1).mpr
            ⟨some value, rest, hvalue, hagain, rfl⟩, ?_⟩
          show plainEntries ((key, value) :: rest) = true
          rw [plainEntries, hvaluePlain, hleft, decide_eq_true hplain.1.1]
          rfl

end

theorem normalize_again {normalized : Json} (hplain : value.plain = true)
    (h : normalizeMxContent rt value = .ok normalized) :
    normalizeMxContent rt normalized = .ok normalized ∧ normalized.plain = true := by
  obtain ⟨cleaned, hclean, h⟩ := bind_ok.mp h
  cases h
  cases cleaned with
  | none => exact ⟨rfl, rfl⟩
  | some cleaned =>
      obtain ⟨hagain, hleft⟩ := clean_again .root value cleaned hplain hclean
      exact ⟨bind_ok.mpr ⟨some cleaned, hagain, rfl⟩, hleft⟩

/-! ## Extraction -/

variable {message : Json}

/-- What JSON text starts an array or an object with is no string. -/
def Runtime.ParsesNested (rt : Runtime) : Prop :=
  ∀ text value, ("[".isPrefixOf text || "\x7b".isPrefixOf text) = true →
    rt.parse text = some value → ∀ other, value ≠ .string other

theorem parseNested_string (hrt : rt.ParsesNested) {text : String}
    (h : parseNestedMessage rt message = .string text) : message = .string text := by
  cases message with
  | string own =>
      unfold parseNestedMessage at h
      dsimp only at h
      split at h
      · next hprefix =>
          cases hparse : rt.parse (jsTrim own) with
          | none =>
              rw [hparse] at h
              exact h
          | some value =>
              rw [hparse] at h
              exact absurd h (hrt _ value hprefix hparse text)
      · exact h
  | _ => cases h

theorem parseNested_normalized (hrt : rt.ParsesNested) {normalized : Json}
    (h : normalizeMxContent rt (parseNestedMessage rt message) = .ok normalized) :
    parseNestedMessage rt normalized = normalized := by
  obtain ⟨cleaned, hclean, h⟩ := bind_ok.mp h
  cases h
  cases cleaned with
  | none => rfl
  | some cleaned =>
      show parseNestedMessage rt cleaned = cleaned
      cases hparsed : parseNestedMessage rt message with
      | string text =>
          rw [hparsed] at hclean
          rw [(clean_string_ok.mp hclean).1]
          rw [parseNested_string hrt hparsed] at hparsed
          exact hparsed
      | array items =>
          rw [hparsed] at hclean
          obtain ⟨_, -, rfl⟩ := clean_array_ok.mp hclean
          rfl
      | object entries =>
          rw [hparsed] at hclean
          obtain ⟨_, _, -, -, -, rfl⟩ := clean_object_ok.mp hclean
          rfl
      | _ =>
          rw [hparsed] at hclean
          simp only [clean, Except.ok.injEq, Option.some.injEq] at hclean
          rw [← hclean]
          rfl

theorem extractContent_ok {content : Content} :
    extractContent rt message = .ok content ↔
      ∃ found, normalizeMxContent rt (parseNestedMessage rt message) = .ok content.parsed ∧
        visit rt content.parsed = .ok found ∧ content.texts = found.texts.eraseDups ∧
        content.imageUrls = found.imageUrls.eraseDups := by
  constructor
  · intro h
    obtain ⟨parsed, hparsed, h⟩ := bind_ok.mp h
    obtain ⟨found, hfound, h⟩ := bind_ok.mp h
    cases h
    exact ⟨found, hparsed, hfound, rfl, rfl⟩
  · obtain ⟨parsed, texts, imageUrls⟩ := content
    rintro ⟨found, hparsed, hfound, rfl, rfl⟩
    exact bind_ok.mpr ⟨parsed, hparsed, bind_ok.mpr ⟨found, hfound, rfl⟩⟩

theorem extract_again (hrt : rt.ParsesNested) {content : Content}
    (hplain : (parseNestedMessage rt message).plain = true)
    (h : extractContent rt message = .ok content) :
    extractContent rt content.parsed.restored = .ok content ∧ content.parsed.plain = true := by
  obtain ⟨found, hparsed, hfound, htexts, hurls⟩ := extractContent_ok.mp h
  obtain ⟨hagain, hleft⟩ := normalize_again hplain hparsed
  refine ⟨?_, hleft⟩
  rw [restored_plain _ hleft]
  refine extractContent_ok.mpr ⟨found, ?_, hfound, htexts, hurls⟩
  rw [parseNested_normalized hrt hparsed]
  exact hagain

end Clean

/-! ## The migration -/

section Migration

variable {rt : Runtime}

/-- What `JSON.parse` reads back of a content that was stored. -/
def Runtime.RoundTrips (rt : Runtime) (content : Content) : Prop :=
  rt.parse (rt.stringify content.json) = some content.json.restored

structure Runtime.Classifies (rt : Runtime) (event : Event) (message : Json) : Prop where
  accepted : ∃ allowedRids frame receivedAt value,
    classifyFrame rt allowedRids frame receivedAt = .accepted event ∧
      rt.decodeRoomFrame frame receivedAt = .ok value ∧ own "msg" value = some message
  plain : (parseNestedMessage rt message).plain = true

def Runtime.Current (rt : Runtime) (row : ContentRow) : Prop :=
  ∃ event message, rt.Classifies event message ∧ rt.RoundTrips event.parsedContent ∧
    row = event.contentRow rt

def Runtime.Unnormalised (rt : Runtime) (row : ContentRow) (event : Event) : Prop :=
  ∃ message stored, rt.Classifies event message ∧ rt.parse row.parsedContentJson = some stored ∧
    own "parsed" stored = some (parseNestedMessage rt message).restored

def Runtime.Storable (rt : Runtime) (row : ContentRow) : Prop :=
  ∀ parsed, storedParsed rt row = .ok parsed → (parseNestedMessage rt parsed).plain = true ∧
    ∀ content, extractContent rt parsed = .ok content → rt.RoundTrips content

theorem parseNested_twice (hrt : rt.ParsesNested) (message : Json) :
    parseNestedMessage rt (parseNestedMessage rt message) = parseNestedMessage rt message := by
  cases hparsed : parseNestedMessage rt message with
  | string text => rw [← parseNested_string hrt hparsed, hparsed, parseNested_string hrt hparsed]
  | _ => rfl

variable {event : Event}

theorem Runtime.Classifies.content {message : Json} (h : rt.Classifies event message) :
    extractContent rt (parseNestedMessage rt message) = .ok event.parsedContent ∧
      event.schemaVersion = 2 ∧
      event.decodedText = String.intercalate "\n" event.parsedContent.texts ∧
      event.contentHash = rt.sha256 (rt.stringify event.parsedContent.parsed) := by
  obtain ⟨_, frame, receivedAt, value, haccepted, hdecoded, hmessage⟩ := h.accepted
  obtain ⟨value', hvalue, rid, -, haccept⟩ := classifyFrame_accepted haccepted
  rw [hdecoded] at hvalue
  cases hvalue
  simp only [acceptMessage, bind_ok, need_ok, pure_ok] at haccept
  obtain ⟨msg, hmsg, content, hcontent, identity, -, _, -, _, -, rfl⟩ := haccept
  rw [hmessage] at hmsg
  cases hmsg
  exact ⟨hcontent, rfl, rfl, rfl⟩

def contentColumns (rt : Runtime) (eventId : String) (content : Content) : ContentRow :=
  ⟨eventId, 2, String.intercalate "\n" content.texts, rt.stringify content.json,
    rt.sha256 (rt.stringify content.parsed)⟩

theorem Runtime.Classifies.contentRow {message : Json} (h : rt.Classifies event message) :
    event.contentRow rt = contentColumns rt event.eventId event.parsedContent := by
  obtain ⟨-, hschema, htext, hhash⟩ := h.content
  rw [Event.contentRow, contentColumns, hschema, htext, hhash]

variable {content : Content}

theorem ne_contentColumns_iff {row : ContentRow} :
    row ≠ contentColumns rt row.eventId content ↔
      row.schemaVersion ≠ 2 ∨ row.decodedText ≠ String.intercalate "\n" content.texts ∨
        row.parsedContentJson ≠ rt.stringify content.json ∨
        row.contentHash ≠ rt.sha256 (rt.stringify content.parsed) := by
  obtain ⟨eventId, schemaVersion, decodedText, parsedContentJson, contentHash⟩ := row
  simp only [contentColumns, ne_eq, ContentRow.mk.injEq, true_and, not_and_or]

variable {updated : Bool}

theorem migrateRow_ok {row after : ContentRow} :
    migrateRow rt row = .ok (after, updated) ↔
      ∃ parsed content, storedParsed rt row = .ok parsed ∧ extractContent rt parsed = .ok content ∧
        after = contentColumns rt row.eventId content ∧
        updated = decide (row ≠ contentColumns rt row.eventId content) := by
  have hcolumns : ∀ content : Content,
      ((if row.schemaVersion ≠ 2 ∨ row.decodedText ≠ String.intercalate "\n" content.texts ∨
          row.parsedContentJson ≠ rt.stringify content.json ∨
          row.contentHash ≠ rt.sha256 (rt.stringify content.parsed) then
        pure (contentColumns rt row.eventId content, true)
      else pure (row, false)) : Except String (ContentRow × Bool)) =
        .ok (contentColumns rt row.eventId content,
          decide (row ≠ contentColumns rt row.eventId content)) := by
    intro content
    split
    · next h =>
        rw [decide_eq_true (ne_contentColumns_iff.mpr h)]
        rfl
    · next h =>
        have heq : row = contentColumns rt row.eventId content :=
          not_not.mp fun hne => h (ne_contentColumns_iff.mp hne)
        rw [decide_eq_false (not_not.mpr heq), ← heq]
        rfl
  unfold migrateRow
  simp only [bind_ok]
  refine exists_congr fun parsed => ?_
  constructor
  · rintro ⟨hparsed, content, hcontent, h⟩
    have hrow := (hcolumns content).symm.trans h
    cases hrow
    exact ⟨content, hparsed, hcontent, rfl, rfl⟩
  · rintro ⟨content, hparsed, hcontent, rfl, rfl⟩
    exact ⟨hparsed, content, hcontent, hcolumns content⟩

theorem storedParsed_columns {eventId : String} (hround : rt.RoundTrips content) :
    storedParsed rt (contentColumns rt eventId content) = .ok content.parsed.restored := by
  unfold storedParsed
  refine bind_ok.mpr ⟨content.json.restored, need_ok.mpr hround, need_ok.mpr ?_⟩
  rfl

theorem migrateRow_same {eventId : String} (hround : rt.RoundTrips content)
    (hagain : extractContent rt content.parsed.restored = .ok content) :
    migrateRow rt (contentColumns rt eventId content) =
      .ok (contentColumns rt eventId content, false) :=
  migrateRow_ok.mpr ⟨content.parsed.restored, content, storedParsed_columns hround, hagain, rfl,
    (decide_eq_false (not_not.mpr rfl)).symm⟩

theorem migrateRow_current (hrt : rt.ParsesNested) {row : ContentRow} (h : rt.Current row) :
    migrateRow rt row = .ok (row, false) := by
  obtain ⟨event, message, hclassifies, hround, rfl⟩ := h
  have hplain : (parseNestedMessage rt (parseNestedMessage rt message)).plain = true := by
    rw [parseNested_twice hrt]
    exact hclassifies.plain
  rw [hclassifies.contentRow]
  exact migrateRow_same hround (extract_again hrt hplain hclassifies.content.1).1

theorem migrateRow_unnormalised {row after : ContentRow}
    (h : rt.Unnormalised row event) (hok : migrateRow rt row = .ok (after, updated)) :
    after = { event.contentRow rt with eventId := row.eventId } := by
  obtain ⟨message, stored, hclassifies, hparse, hown⟩ := h
  obtain ⟨parsed, content, hparsed, hcontent, rfl, -⟩ := migrateRow_ok.mp hok
  have hmessage : parsed = parseNestedMessage rt message := by
    unfold storedParsed at hparsed
    obtain ⟨found, hfound, hparsed⟩ := bind_ok.mp hparsed
    rw [need_ok, hparse] at hfound
    cases hfound
    rw [need_ok, hown, restored_plain _ hclassifies.plain] at hparsed
    exact (Option.some.inj hparsed).symm
  rw [hmessage, hclassifies.content.1] at hcontent
  cases hcontent
  rw [hclassifies.contentRow]
  rfl

theorem migrateRow_twice (hrt : rt.ParsesNested) {row after : ContentRow}
    (h : rt.Storable row) (hok : migrateRow rt row = .ok (after, updated)) :
    migrateRow rt after = .ok (after, false) := by
  obtain ⟨parsed, content, hparsed, hcontent, rfl, -⟩ := migrateRow_ok.mp hok
  obtain ⟨hplain, hround⟩ := h parsed hparsed
  exact migrateRow_same (hround content hcontent) (extract_again hrt hplain hcontent).1

/-! ## The whole table -/

variable {database : ContentDatabase} {after : ContentDatabase}

theorem migrate_ok {report : Migrated}
    (h : migrateDisclaimerContent rt database = (.ok report, after)) :
    database.orphans = 0 ∧ ∃ rows, gather (migrateRow rt) database.events = .ok rows ∧
      after = { database with events := rows.map Prod.fst } := by
  unfold migrateDisclaimerContent at h
  dsimp only at h
  split at h
  · cases h
  · next rows hrows =>
      cases h
      obtain ⟨_, horphans, hrows⟩ := bind_ok.mp hrows
      exact ⟨not_not.mp (refuse_ok.mp horphans), rows, hrows, rfl⟩

theorem migrate_error {e : String}
    (h : migrateDisclaimerContent rt database = (.error e, after)) : after = database := by
  unfold migrateDisclaimerContent at h
  dsimp only at h
  split at h
  · cases h
    rfl
  · cases h

theorem migrate_rows {report : Migrated}
    (h : migrateDisclaimerContent rt database = (.ok report, after)) :
    List.Forall₂ (fun row next => ∃ updated, migrateRow rt row = .ok (next, updated))
      database.events after.events := by
  obtain ⟨-, rows, hrows, rfl⟩ := migrate_ok h
  rw [gather_ok] at hrows
  rw [List.forall₂_map_right_iff]
  exact hrows.imp fun row next hnext => ⟨next.2, hnext⟩

theorem migrate_same (horphans : database.orphans = 0)
    (hsame : ∀ row ∈ database.events, migrateRow rt row = .ok (row, false)) :
    (migrateDisclaimerContent rt database).2 = database := by
  have hrows : gather (migrateRow rt) database.events =
      .ok (database.events.map fun row => (row, false)) := by
    rw [gather_ok, List.forall₂_map_right_iff, List.forall₂_same]
    exact hsame
  have hattempt : (do
      refuse (database.orphans ≠ 0) "Error"
      gather (migrateRow rt) database.events : Except String (List (ContentRow × Bool))) =
        .ok (database.events.map fun row => (row, false)) :=
    bind_ok.mpr ⟨(), refuse_ok.mpr (not_not.mpr horphans), hrows⟩
  unfold migrateDisclaimerContent
  simp only [hattempt, List.map_map]
  show { database with events := database.events.map id } = database
  rw [List.map_id]

end Migration

/-! ## Samples -/

def contentRuntime : Runtime where
  sha256 := fun text => text
  sha256Bytes := fun _ => ""
  stringify := fun _ => "null"
  parse := fun text => if text = "null" then some .null else none
  render := fun _ => "0"
  decodeRoomFrame := fun _ _ => .error "Error"
  eventDate := fun _ => "2026-07-03"

theorem contentRuntime_parses : contentRuntime.ParsesNested := by
  intro text value hprefix hparse other heq
  unfold contentRuntime at hparse
  dsimp only at hparse
  split at hparse
  · cases hparse
    cases heq
  · cases hparse

theorem lower_of_chars {text : String} (h : text.toList.map Char.toLower = text.toList) :
    text.toLower = text := by
  rw [← String.toList_inj, show text.toLower = text.map Char.toLower from rfl, String.toList_map]
  exact h

def noticedMessage : Json :=
  .array [.object [("type", .string "text"), ("msg", .string "hi")], .string mxDisclaimer]

def noticedContent : Content :=
  ⟨.array [.object [("type", .string "text"), ("msg", .string "hi")]], ["hi"], []⟩

theorem noticed_extracted : extractContent contentRuntime noticedMessage = .ok noticedContent := by
  have htext : "text".toLower = "text" := lower_of_chars (by decide)
  have hkept : isMxDisclaimer (some (.string "hi")) = false := by decide
  have hdropped : isMxDisclaimer (some (.string mxDisclaimer)) = true := by decide
  have hclean : clean contentRuntime .root noticedMessage = .ok (some noticedContent.parsed) := by
    simp [noticedMessage, noticedContent, clean, cleanItems, cleanEntries, typeName, orElse, own,
      firstEntry, truthy, jsString, protoKey, htext, hkept, hdropped, bind, Except.bind]
  have hvisit : visit contentRuntime noticedContent.parsed = .ok ⟨["hi"], []⟩ := by
    simp [noticedContent, visit, visitItems, visitEntries, Found.append, Found.empty, ownContent,
      typeName, orElse, inherited, prototyped, firstEntry, truthy, jsString, protoKey, htext,
      bind, Except.bind]
  have hnormal : normalizeMxContent contentRuntime noticedMessage = .ok noticedContent.parsed := by
    simp [normalizeMxContent, hclean, bind, Except.bind]
  exact extractContent_ok.mpr ⟨_, hnormal, hvisit, rfl, rfl⟩

/-- A picture whose address is inherited: `\x7b"__proto__":\x7b"type":"image","url":"…"}}`. -/
def inheritedPicture : Json :=
  .object [("__proto__", .object [("type", .string "image"), ("url", .string "http://x/a.png")])]

theorem inheritedPicture_extracted : extractContent contentRuntime inheritedPicture =
    .ok ⟨inheritedPicture, [], ["http://x/a.png"]⟩ := by
  have himage : "image".toLower = "image" := lower_of_chars (by decide)
  have hempty : "".toLower = "" := lower_of_chars (by decide)
  have hclean : clean contentRuntime .root inheritedPicture = .ok (some inheritedPicture) := by
    simp [inheritedPicture, clean, cleanEntries, typeName, orElse, own, firstEntry, truthy,
      jsString, protoKey, himage, hempty, bind, Except.bind]
  have hvisit : visit contentRuntime inheritedPicture = .ok ⟨[], ["http://x/a.png"]⟩ := by
    simp [inheritedPicture, visit, visitEntries, Found.append, Found.empty, ownContent, typeName,
      orElse, inherited, prototyped, firstEntry, truthy, jsString, protoKey, himage, bind,
      Except.bind]
  have hnormal : normalizeMxContent contentRuntime inheritedPicture = .ok inheritedPicture := by
    simp [normalizeMxContent, hclean, bind, Except.bind]
  exact extractContent_ok.mpr ⟨_, hnormal, hvisit, rfl, rfl⟩

end Ahunter.Mx
