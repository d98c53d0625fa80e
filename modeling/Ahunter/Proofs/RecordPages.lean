import Ahunter.Lib.Paging
import Ahunter.Proofs.RecordLog

/-!
# A listing is complete

Records are only ever added, each behind all others, so what a first page's
ceiling leaves out is exactly what is written later. Every further page then
reads on in the same list, whatever was inserted in between and whatever its
size: a cursor's sequence stands for everything up to it.
-/

namespace Ahunter.Records

open Ahunter.Lib

variable {R P V A : Type}

/-! ## Stores that grow -/

structure Db.Keyed (db : Db R P V) : Prop where
  ordered : db.records.Pairwise fun r s => r.recordId ≠ s.recordId ∧ r.sequence < s.sequence
  positive : ∀ r ∈ db.records, 0 < r.sequence

inductive Db.Writes (db : Db R P V) : Db R P V → Prop
  | same {t : Db R P V} (h : t.records = db.records) : Db.Writes db t
  | added {t : Db R P V} (r : Record R) (h : t.records = db.records ++ [r])
      (hfresh : ∀ x ∈ db.records, x.recordId ≠ r.recordId)
      (hnext : r.sequence = nextSequence (db.records.map Record.sequence)) : Db.Writes db t

/-- Any number of writes, by anyone. -/
abbrev Db.Later : Db R P V → Db R P V → Prop := Relation.ReflTransGen Db.Writes

namespace Db

variable {db t : Db R P V}

theorem ceiling_lt_next (db : Db R P V) :
    nextSequence (db.records.map Record.sequence) = db.ceiling + 1 := rfl

variable {r : Record R}

theorem le_ceiling (hr : r ∈ db.records) : r.sequence ≤ db.ceiling :=
  Nat.lt_succ_iff.mp (lt_nextSequence (List.mem_map_of_mem hr))

theorem ceiling_le {n : ℕ} (h : ∀ r ∈ db.records, r.sequence ≤ n) : db.ceiling ≤ n := by
  unfold ceiling
  generalize db.records = l at h
  induction l with
  | nil => exact Nat.zero_le n
  | cons r l ih =>
      exact max_le (h r List.mem_cons_self) (ih fun x hx => h x (List.mem_cons_of_mem r hx))

theorem Writes.keyed (h : db.Writes t) (hkeyed : db.Keyed) : t.Keyed := by
  cases h with
  | same h => exact ⟨h ▸ hkeyed.ordered, h ▸ hkeyed.positive⟩
  | added r h hfresh hnext =>
      rw [ceiling_lt_next] at hnext
      constructor
      · rw [h, List.pairwise_append]
        refine ⟨hkeyed.ordered, List.pairwise_singleton _ _, fun s hs b hb => ?_⟩
        rw [List.mem_singleton.mp hb, hnext]
        exact ⟨hfresh s hs, Nat.lt_succ_of_le (le_ceiling hs)⟩
      · intro s hs
        rw [h] at hs
        rcases List.mem_append.mp hs with hs | hs
        · exact hkeyed.positive s hs
        · rw [List.mem_singleton.mp hs, hnext]
          exact Nat.succ_pos _

theorem Later.appended (h : db.Later t) :
    ∃ new, t.records = db.records ++ new ∧ ∀ r ∈ new, db.ceiling < r.sequence := by
  induction h with
  | refl => exact ⟨[], (List.append_nil _).symm, fun _ hr => absurd hr List.not_mem_nil⟩
  | @tail u v _ hlast ih =>
      obtain ⟨new, hnew, hlater⟩ := ih
      cases hlast with
      | same h => exact ⟨new, h.trans hnew, hlater⟩
      | added r h _ hnext =>
          refine ⟨new ++ [r], by rw [h, hnew, List.append_assoc], fun x hx => ?_⟩
          rcases List.mem_append.mp hx with hx | hx
          · exact hlater x hx
          · -- The ceiling of the larger store is at least that of the smaller.
            rw [List.mem_singleton.mp hx, hnext, ceiling_lt_next, Nat.lt_succ_iff]
            exact ceiling_le fun r hr => le_ceiling (hnew ▸ List.mem_append_left new hr)

theorem Later.keyed (h : db.Later t) (hkeyed : db.Keyed) : t.Keyed := by
  induction h with
  | refl => exact hkeyed
  | tail _ hlast ih => exact hlast.keyed ih

/-! ## One page -/

variable {experimentId : String} {kind : Option RecordKind}

theorem read_mem (h : db.Keyed) (hr : r ∈ db.records) : db.read r.recordId = .ok r := by
  rw [read, need_ok]
  obtain ⟨before, after, heq⟩ := List.append_of_mem hr
  have hbefore := (List.pairwise_append.mp (heq ▸ h.ordered)).2.2
  rw [heq]
  rw [List.find?_append, List.find?_eq_none.mpr fun x hx => ?_]
  · simp
  · simpa using (hbefore x hx r List.mem_cons_self).1

def listing (db : Db R P V) (experimentId : String) (kind : Option RecordKind) :
    List (Record R) :=
  db.records.filter (listed experimentId kind)

theorem listing_sorted (h : db.Keyed) :
    (db.listing experimentId kind).Pairwise fun r s => (r.sequence : ℤ) < s.sequence :=
  (h.ordered.imp fun hrs => Int.ofNat_lt.mpr hrs.2).filter _

def remaining (db : Db R P V) (experimentId : String) (kind : Option RecordKind) (after : ℤ) :
    List (Record R) :=
  afterKey (fun r => (r.sequence : ℤ)) (db.listing experimentId kind) after

theorem remaining_zero (h : db.Keyed) :
    db.remaining experimentId kind 0 = db.listing experimentId kind :=
  List.filter_eq_self.mpr fun r hr =>
    decide_eq_true (Int.ofNat_lt.mpr (h.positive r (List.mem_of_mem_filter hr)))

theorem remaining_next (h : db.Keyed) {after : ℤ} {n : ℕ}
    (hr : (db.remaining experimentId kind after)[n]? = some r) :
    db.remaining experimentId kind r.sequence
      = (db.remaining experimentId kind after).drop (n + 1) :=
  afterKey_next (listing_sorted h) hr

theorem remaining_mem {after : ℤ} (h : r ∈ db.remaining experimentId kind after) : r ∈ db.records :=
  List.mem_of_mem_filter (List.mem_of_mem_filter h)

theorem rowsAfter_later (hkeyed : db.Keyed) (h : db.Later t) (c : PageCursor)
    (hceiling : c.ceiling = db.ceiling) :
    t.rowsAfter experimentId kind c = db.remaining experimentId kind c.after := by
  have hsorted : (t.records.filter fun r => listed experimentId kind r
      && decide (c.after < r.sequence) && decide (r.sequence ≤ c.ceiling)).Pairwise
        fun a b => a.sequence ≤ b.sequence :=
    ((h.keyed hkeyed).ordered.imp fun hrs => hrs.2.le).filter _
  obtain ⟨new, hnew, hlater⟩ := h.appended
  have hnone : new.filter (fun r => listed experimentId kind r
      && decide (c.after < r.sequence) && decide (r.sequence ≤ c.ceiling)) = [] :=
    List.filter_eq_nil_iff.mpr fun r hr => by
      have := hlater r hr
      simp only [hceiling, Bool.and_eq_true, decide_eq_true_eq, not_and]
      omega
  rw [rowsAfter, hsorted.insertionSort_eq, hnew, List.filter_append, hnone, List.append_nil,
    remaining, afterKey, listing, List.filter_filter]
  refine List.filter_congr fun r hr => ?_
  have hle : (r.sequence : ℤ) ≤ c.ceiling := hceiling ▸ Int.ofNat_le.mpr (le_ceiling hr)
  rw [decide_eq_true hle, Bool.and_true, Bool.and_comm]

theorem page_later (hkeyed : db.Keyed) (h : db.Later t) {limit : ℕ} (hlimit : 0 < limit)
    {cursor : Option PageCursor} {c : PageCursor}
    (hfrom : t.pageFrom experimentId kind cursor = .ok c) (hceiling : c.ceiling = db.ceiling) :
    t.page experimentId kind limit cursor = .ok
      ⟨(db.remaining experimentId kind c.after).take limit,
        if limit < (db.remaining experimentId kind c.after).length then
          ((db.remaining experimentId kind c.after)[limit - 1]?).map fun r =>
            { c with after := r.sequence }
        else none⟩ := by
  have hrows : t.rowsAfter experimentId kind c = _ := rowsAfter_later hkeyed h c hceiling
  generalize hrest : db.remaining experimentId kind c.after = rest at hrows ⊢
  have hmem : ∀ r ∈ rest, r ∈ t.records := by
    intro r hr
    obtain ⟨new, hnew, -⟩ := h.appended
    rw [hnew]
    exact List.mem_append_left _ (remaining_mem (hrest ▸ hr))
  have hitems : gather (fun r => t.read r.recordId) (rest.take limit) = .ok (rest.take limit) := by
    rw [gather_ok, List.forall₂_same]
    exact fun r hr => read_mem (h.keyed hkeyed) (hmem r (List.mem_of_mem_take hr))
  have htake : (rest.take (limit + 1)).take limit = rest.take limit := by
    rw [List.take_take, Nat.min_eq_left (Nat.le_succ _)]
  have hmore : limit < (rest.take (limit + 1)).length ↔ limit < rest.length := by
    rw [List.length_take]
    omega
  have hlast : (rest.take (limit + 1))[limit - 1]? = rest[limit - 1]? :=
    List.getElem?_take_of_lt (by omega)
  simp only [page, bind_ok, refuse_ok, pure_ok]
  refine ⟨(), hlimit.ne', c, hfrom, rest.take limit, ?_, ?_⟩
  · rw [hrows, htake]
    exact hitems
  · rw [hrows, hlast]
    simp only [hmore]

/-! ## Following the cursors -/

/-- The pages from a cursor on, where request `n` meets `stores n` and asks for
`limits n` records, until one comes without a cursor. -/
inductive Follows (experimentId : String) (kind : Option RecordKind) (stores : ℕ → Db R P V)
    (limits : ℕ → ℕ) : ℕ → Option PageCursor → List (RecordPage R) → Prop
  | last {n : ℕ} {cursor : Option PageCursor} {page : RecordPage R}
      (h : (stores n).page experimentId kind (limits n) cursor = .ok page)
      (hend : page.nextCursor = none) : Follows experimentId kind stores limits n cursor [page]
  | more {n : ℕ} {cursor : Option PageCursor} {page : RecordPage R} {next : PageCursor}
      {pages : List (RecordPage R)}
      (h : (stores n).page experimentId kind (limits n) cursor = .ok page)
      (hnext : page.nextCursor = some next)
      (hrest : Follows experimentId kind stores limits (n + 1) (some next) pages) :
      Follows experimentId kind stores limits n cursor (page :: pages)

section Listing

variable {stores : ℕ → Db R P V} {limits : ℕ → ℕ}

theorem Follows.unique {n : ℕ} {cursor : Option PageCursor} {pages pages' : List (RecordPage R)}
    (h : Follows experimentId kind stores limits n cursor pages)
    (h' : Follows experimentId kind stores limits n cursor pages') : pages = pages' := by
  induction h generalizing pages' with
  | last hpage hend =>
      cases h' with
      | last hpage' hend' => rw [Except.ok.inj (hpage.symm.trans hpage')]
      | more hpage' hnext' hrest' =>
          cases Except.ok.inj (hpage.symm.trans hpage')
          cases hend.symm.trans hnext'
  | more hpage hnext hrest ih =>
      cases h' with
      | last hpage' hend' =>
          cases Except.ok.inj (hpage.symm.trans hpage')
          cases hend'.symm.trans hnext
      | more hpage' hnext' hrest' =>
          cases Except.ok.inj (hpage.symm.trans hpage')
          cases hnext.symm.trans hnext'
          rw [ih hrest']

theorem follows_rest (hkeyed : db.Keyed) (hstores : ∀ n, db.Later (stores n))
    (hlimits : ∀ n, 0 < limits n) (left : ℕ) :
    ∀ (n : ℕ) (cursor : Option PageCursor) (c : PageCursor),
      (stores n).pageFrom experimentId kind cursor = .ok c →
      c.experimentId = experimentId → c.kind = kind → c.ceiling = db.ceiling →
      (db.remaining experimentId kind c.after).length ≤ left →
      ∃ pages, Follows experimentId kind stores limits n cursor pages ∧
        pages.flatMap RecordPage.items = db.remaining experimentId kind c.after := by
  induction left with
  | zero =>
      intro n cursor c hfrom _ _ hceiling hleft
      have hpage := page_later hkeyed (hstores n) (hlimits n) hfrom hceiling
      have hnil := List.length_eq_zero_iff.mp (Nat.le_zero.mp hleft)
      rw [hnil] at hpage ⊢
      exact ⟨_, .last hpage (by simp), by simp⟩
  | succ left ih =>
      intro n cursor c hfrom hexperiment hkind hceiling hleft
      have hpage := page_later hkeyed (hstores n) (hlimits n) hfrom hceiling
      generalize hrest : db.remaining experimentId kind c.after = rest at hpage hleft ⊢
      by_cases hmore : limits n < rest.length
      · obtain ⟨r, hr⟩ : ∃ r, rest[limits n - 1]? = some r :=
          ⟨_, List.getElem?_eq_getElem (by omega)⟩
        rw [if_pos hmore, hr, Option.map_some] at hpage
        have hmem : r ∈ db.records := remaining_mem (hrest ▸ List.mem_of_getElem? hr)
        have hdrop : db.remaining experimentId kind r.sequence = rest.drop (limits n) := by
          rw [← hrest] at hr ⊢
          rw [remaining_next hkeyed hr, Nat.sub_add_cancel (hlimits n)]
        have hnext : (stores (n + 1)).pageFrom experimentId kind
            (some { c with after := r.sequence }) = .ok { c with after := r.sequence } := by
          simp only [pageFrom, bind_ok, refuse_ok, pure_ok]
          refine ⟨(), by simp [hexperiment, hkind], (), ?_, trivial⟩
          rw [not_not, hceiling]
          exact ⟨Int.natCast_nonneg _, Int.ofNat_le.mpr (le_ceiling hmem)⟩
        have hless : (db.remaining experimentId kind r.sequence).length ≤ left := by
          rw [hdrop, List.length_drop]
          have := hlimits n
          omega
        obtain ⟨pages, hfollows, hitems⟩ :=
          ih (n + 1) _ _ hnext hexperiment hkind hceiling hless
        refine ⟨_, .more hpage rfl hfollows, ?_⟩
        rw [List.flatMap_cons, hitems]
        show rest.take (limits n) ++ db.remaining experimentId kind r.sequence = rest
        rw [hdrop, List.take_append_drop]
      · rw [if_neg hmore] at hpage
        exact ⟨_, .last hpage rfl, by simp [List.take_of_length_le (not_lt.mp hmore)]⟩

/-- A listing followed to its end, while others write to the store and with any
sizes of its pages, shows every record that was there at its first page once, in
the order of the sequences, and no other. -/
theorem page_complete (hkeyed : (stores 0).Keyed)
    (hwrites : ∀ n, (stores n).Later (stores (n + 1))) (hlimits : ∀ n, 0 < limits n) :
    ∃ pages, Follows experimentId kind stores limits 0 none pages ∧
      (∀ pages', Follows experimentId kind stores limits 0 none pages' → pages' = pages) ∧
      (pages.flatMap RecordPage.items).Pairwise (fun r s => r.sequence < s.sequence) ∧
      ∀ n r, r ∈ pages.flatMap RecordPage.items ↔
        r ∈ (stores n).records ∧ listed experimentId kind r ∧ r.sequence ≤ (stores 0).ceiling := by
  have hstores : ∀ n, (stores 0).Later (stores n) := by
    intro n
    induction n with
    | zero => exact .refl
    | succ n ih => exact ih.trans (hwrites n)
  have hfrom : (stores 0).pageFrom experimentId kind none
      = .ok ⟨experimentId, kind, 0, (stores 0).ceiling⟩ := rfl
  obtain ⟨pages, hfollows, hitems⟩ :=
    follows_rest hkeyed hstores hlimits _ 0 none _ hfrom rfl rfl rfl le_rfl
  rw [remaining_zero hkeyed] at hitems
  refine ⟨pages, hfollows, fun pages' h => h.unique hfollows, ?_, fun n r => ?_⟩
  · rw [hitems]
    exact (hkeyed.ordered.imp fun hrs => hrs.2).filter _
  · obtain ⟨new, hnew, hlater⟩ := (hstores n).appended
    rw [hitems, listing, List.mem_filter, hnew, List.mem_append]
    constructor
    · rintro ⟨hr, hlisted⟩
      exact ⟨.inl hr, hlisted, le_ceiling hr⟩
    · rintro ⟨hr | hr, hlisted, hle⟩
      · exact ⟨hr, hlisted⟩
      · exact absurd hle (not_le.mpr (hlater r hr))

end Listing

/-! ## A listing with an insertion between its pages -/

def sampleRecord (experimentId : String) (n : ℕ) : Record Unit where
  experimentId := experimentId
  kind := .test
  recordId := toString n
  submissionIdentity := toString n
  value := .data ()
  links := []
  artifactHashes := []
  sourcePolicyHashes := []
  sequence := n
  createdAt := 0

def sampleStore (records : List (Record Unit)) : Db Unit Unit Unit where
  experiments := ["a", "b"]
  records := records
  events := []
  projections := Dict.empty
  outbox := []
  leases := Dict.empty
  work := Dict.empty
  service := none

def sampleStores : ℕ → Db Unit Unit Unit
  | 0 => sampleStore [sampleRecord "a" 1, sampleRecord "b" 2, sampleRecord "a" 3]
  | _ => sampleStore
      [sampleRecord "a" 1, sampleRecord "b" 2, sampleRecord "a" 3, sampleRecord "a" 4]

theorem sampleStores_keyed : (sampleStores 0).Keyed :=
  ⟨by decide, by decide⟩

theorem sampleStores_writes (n : ℕ) : (sampleStores n).Later (sampleStores (n + 1)) := by
  cases n with
  | zero => exact .single (.added (sampleRecord "a" 4) rfl (by decide) rfl)
  | succ n => exact .refl

theorem page_complete_sample :
    ∃ pages, Follows "a" (some .test) sampleStores (fun _ => 1) 0 none pages ∧
      (∀ pages', Follows "a" (some .test) sampleStores (fun _ => 1) 0 none pages' →
        pages' = pages) ∧
      (pages.flatMap RecordPage.items).Pairwise (fun r s => r.sequence < s.sequence) ∧
      ∀ n r, r ∈ pages.flatMap RecordPage.items ↔
        r ∈ (sampleStores n).records ∧ listed "a" (some .test) r ∧
          r.sequence ≤ (sampleStores 0).ceiling :=
  page_complete sampleStores_keyed sampleStores_writes fun _ => Nat.one_pos

end Db

end Ahunter.Records
