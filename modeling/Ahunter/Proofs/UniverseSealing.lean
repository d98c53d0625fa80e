import Ahunter.Market.Universe

/-!
# Which universes are sealed in any order

Whether the records of a code are accepted depends on the records alone, and
the greatest key among them too; which record is kept depends on their order
when several have that key. So the universe is the same for every order exactly
when no code has two records of its greatest key, and it keeps every known end
of a listing exactly when the kept record has it.
-/

namespace Ahunter.Market

open Ahunter.Lib
open Ahunter.Sim (Date Stamp monthStart)

/-! ## Records of one code -/

variable {group : List ExchangeSecurity} {r : ExchangeSecurity}

structure Agreeing (r s : ExchangeSecurity) : Prop where
  exchange : s.exchange = r.exchange
  listDate : s.listDate = r.listDate
  name : s.name = r.name
  ends : ∀ d ∈ r.delistDate, ∀ e ∈ s.delistDate, d = e

def Best (group : List ExchangeSecurity) (r : ExchangeSecurity) : Prop :=
  r ∈ group ∧ ∀ s ∈ group, s.key ≤ r.key

def Written (r : ExchangeSecurity) : Prop :=
  (strip r.name ≠ "" ∧ r.name.length ≤ 256) ∧ strip r.source ≠ "" ∧ r.source.length ≤ 128

theorem checkCandidate_ok {code : String} {first candidate : ExchangeSecurity} :
    checkCandidate code first candidate = .ok () ↔
      candidate.exchange = first.exchange ∧ candidate.listDate = first.listDate ∧
        candidate.name = first.name := by
  simp only [checkCandidate, bind_ok, refuse_ok, not_not, exists_and_left, exists_const, ne_eq]

theorem knownDelistDates_card :
    ¬ 1 < (knownDelistDates group).card ↔
      ∀ r ∈ group, ∀ s ∈ group, ∀ d ∈ r.delistDate, ∀ e ∈ s.delistDate, d = e := by
  rw [not_lt, Finset.card_le_one]
  simp only [knownDelistDates, List.mem_toFinset, List.mem_filterMap, Option.mem_def]
  constructor
  · exact fun h r hr s hs d hd e he => h d ⟨r, hr, hd⟩ e ⟨s, hs, he⟩
  · rintro h d ⟨r, hr, hd⟩ e ⟨s, hs, he⟩
    exact h r hr s hs d hd e he

theorem contractTextOf_ok {value field : String} {maximum : ℕ}
    {text : {text : String // strip text = text ∧ text ≠ "" ∧ text.length ≤ maximum}} :
    contractTextOf value field maximum = .ok text ↔
      (strip value ≠ "" ∧ value.length ≤ maximum) ∧ text.1 = strip value := by
  rw [contractTextOf]
  split
  next h =>
    rw [Except.ok.injEq, and_iff_right h, Subtype.ext_iff]
    exact eq_comm
  next h => exact iff_of_false nofun fun hvalue => h hvalue.1

structure Kept (r : ExchangeSecurity) (b : SealedSecurity) : Prop where
  written : Written r
  code : b.content.code = r.code
  listDate : b.content.listDate = r.listDate
  delistDate : b.content.delistDate = r.delistDate
  isSt : b.content.isSt = r.isSt
  fetchedAt : b.fetchedAt = r.fetchedAt

theorem toMarketSecurity_kept {b : SealedSecurity} (h : r.toMarketSecurity = .ok b) : Kept r b := by
  simp only [ExchangeSecurity.toMarketSecurity, bind_ok, contractTextOf_ok, pure_ok] at h
  obtain ⟨name, ⟨hname, -⟩, source, ⟨hsource, -⟩, rfl⟩ := h
  exact ⟨⟨hname, hsource⟩, rfl, rfl, rfl, rfl, rfl⟩

theorem written_isSealed (h : Written r) : ∃ b, r.toMarketSecurity = .ok b := by
  have htext : ∀ {value : String} (field : String) {maximum : ℕ},
      strip value ≠ "" ∧ value.length ≤ maximum →
        ∃ text, contractTextOf value field maximum = .ok text :=
    fun _ _ hvalue => ⟨_, dif_pos hvalue⟩
  obtain ⟨name, hname⟩ := htext "name" h.1
  obtain ⟨source, hsource⟩ := htext "source" h.2
  exact ⟨_, bind_ok.mpr ⟨name, hname, bind_ok.mpr ⟨source, hsource, rfl⟩⟩⟩

theorem isoKey_inj {a b : Stamp} (h : isoKey a = isoKey b) : a = b := by
  obtain ⟨a, ⟨x⟩⟩ := a
  obtain ⟨b, ⟨y⟩⟩ := b
  have hparts : a + x = b + y ∧ toLex (decide (x < 0), |x|) = toLex (decide (y < 0), |y|) :=
    Prod.mk.inj (toLex.injective h)
  obtain ⟨hlocal, hoffset⟩ := hparts
  obtain ⟨hsign, hsize⟩ := Prod.mk.inj (toLex.injective hoffset)
  have hnegative : x < 0 ↔ y < 0 := decide_eq_decide.mp hsign
  have hxy : x = y := by
    rcases abs_eq_abs.mp hsize with hsame | hopposite
    · exact hsame
    · omega
  subst hxy
  rw [add_right_cancel hlocal]

theorem key_inj {s : ExchangeSecurity} (h : r.key = s.key) :
    r.status = s.status ∧ r.sourceAt = s.sourceAt ∧ r.source = s.source := by
  obtain ⟨hpriority, hrest⟩ := Prod.mk.inj (toLex.injective h)
  obtain ⟨htime, hsource⟩ := Prod.mk.inj (toLex.injective hrest)
  refine ⟨?_, isoKey_inj htime, hsource⟩
  cases hr : r.status <;> cases hs : s.status <;> rw [hr, hs] at hpriority <;>
    first
    | rfl
    | cases hpriority

theorem sealCode_ok {code : String} {b : SealedSecurity} :
    sealCode code group = .ok b ↔ (∀ r ∈ group, ∀ s ∈ group, Agreeing r s) ∧
        ∃ first rest, group = first :: rest ∧
          (greatest ExchangeSecurity.key first rest).toMarketSecurity = .ok b := by
  cases group with
  | nil => exact iff_of_false nofun fun ⟨_, _, _, h, _⟩ => nomatch h
  | cons first rest =>
      simp only [sealCode, bind_ok, refuse_ok, walk_unit, checkCandidate_ok,
        knownDelistDates_card, exists_and_left, exists_const]
      constructor
      · rintro ⟨hends, hsame, hsealed⟩
        have hall : ∀ r ∈ first :: rest, r.exchange = first.exchange ∧
            r.listDate = first.listDate ∧ r.name = first.name :=
          List.forall_mem_cons.mpr ⟨⟨rfl, rfl, rfl⟩, hsame⟩
        refine ⟨fun r hr s hs => ?_, first, rest, rfl, hsealed⟩
        obtain ⟨hr1, hr2, hr3⟩ := hall r hr
        obtain ⟨hs1, hs2, hs3⟩ := hall s hs
        exact ⟨hs1.trans hr1.symm, hs2.trans hr2.symm, hs3.trans hr3.symm,
          hends r hr s hs⟩
      · rintro ⟨hagree, _, _, hgroup, hsealed⟩
        cases hgroup
        refine ⟨fun r hr s hs => (hagree r hr s hs).ends, fun s hs => ?_, hsealed⟩
        have hfirst := hagree first List.mem_cons_self s (List.mem_cons_of_mem _ hs)
        exact ⟨hfirst.exchange, hfirst.listDate, hfirst.name⟩

theorem best_greatest (first : ExchangeSecurity) (rest : List ExchangeSecurity) :
    Best (first :: rest) (greatest ExchangeSecurity.key first rest) :=
  ⟨greatest_mem first rest, le_greatest first rest⟩

theorem best_key {s : ExchangeSecurity} (hr : Best group r) (hs : Best group s) : r.key = s.key :=
  le_antisymm (hs.2 r hr.1) (hr.2 s hs.1)

theorem sealCode_best {code : String} (hties : ∀ r s, Best group r → Best group s → r = s)
    {b : SealedSecurity} :
    sealCode code group = .ok b ↔ (∀ r ∈ group, ∀ s ∈ group, Agreeing r s) ∧
        ∃ r, Best group r ∧ r.toMarketSecurity = .ok b := by
  rw [sealCode_ok]
  refine and_congr_right fun _ => ?_
  constructor
  · rintro ⟨first, rest, rfl, hsealed⟩
    exact ⟨_, best_greatest first rest, hsealed⟩
  · rintro ⟨r, hr, hsealed⟩
    cases group with
    | nil => exact absurd hr.1 List.not_mem_nil
    | cons first rest =>
        rw [hties r _ hr (best_greatest first rest)] at hsealed
        exact ⟨first, rest, rfl, hsealed⟩

/-! ## Groups -/

variable {records : List ExchangeSecurity}

theorem mem_codesOf {code : String} : code ∈ codesOf records ↔ ∃ r ∈ records, r.code = code := by
  rw [codesOf, Dict.mem_keys, Dict.mem_keys_ofList, List.map_map, List.mem_map]
  rfl

theorem codesOf_perm {order : List ExchangeSecurity} (h : order.Perm records) :
    codesOf order = codesOf records := by
  have hsame : (codesOf order).Perm (codesOf records) := by
    refine (List.perm_ext_iff_of_nodup (Dict.keys_nodup _) (Dict.keys_nodup _)).mpr fun c => ?_
    rw [← codesOf, ← codesOf, mem_codesOf, mem_codesOf]
    simp only [h.mem_iff]
  exact hsame.eq_of_pairwise (fun a b _ _ hab hba => absurd hab hba.asymm)
    (Dict.keys_sorted _) (Dict.keys_sorted _)

theorem mem_recordsFor {code : String} :
    r ∈ recordsFor records code ↔ r ∈ records ∧ r.code = code := by
  rw [recordsFor, List.mem_filter, decide_eq_true_eq]

def Selected (records : List ExchangeSecurity) (r : ExchangeSecurity) : Prop :=
  r ∈ records ∧ ∀ s ∈ records, s.code = r.code → s.key ≤ r.key

theorem best_recordsFor {code : String} :
    Best (recordsFor records code) r ↔ r.code = code ∧ Selected records r := by
  simp only [Best, Selected, mem_recordsFor]
  constructor
  · rintro ⟨⟨hr, rfl⟩, hall⟩
    exact ⟨rfl, hr, fun s hs hcode => hall s ⟨hs, hcode⟩⟩
  · rintro ⟨rfl, hr, hall⟩
    exact ⟨⟨hr, rfl⟩, fun s hs => hall s hs.1 hs.2⟩

structure Sealable (records : List ExchangeSecurity) : Prop where
  nonempty : records ≠ []
  agreeing : ∀ r ∈ records, ∀ s ∈ records, s.code = r.code → Agreeing r s
  written : ∀ r, Selected records r → Written r

theorem Sealable.perm {order : List ExchangeSecurity} (hperm : order.Perm records)
    (h : Sealable records) : Sealable order where
  nonempty hnil := h.nonempty (hnil ▸ hperm).nil_eq.symm
  agreeing r hr s hs := h.agreeing r (hperm.subset hr) s (hperm.subset hs)
  written r hr := h.written r
    ⟨hperm.subset hr.1, fun s hs => hr.2 s (hperm.symm.subset hs)⟩

theorem sealUniverse_ok {u : List SealedSecurity} :
    sealUniverse records = .ok u ↔ records ≠ [] ∧
      gather (fun code => sealCode code (recordsFor records code)) (codesOf records) = .ok u := by
  simp only [sealUniverse, bind_ok, refuse_ok, exists_and_left, exists_const, ne_eq]

theorem sealCode_of_mem {u : List SealedSecurity} (h : sealUniverse records = .ok u)
    (hr : r ∈ records) : ∃ b ∈ u, sealCode r.code (recordsFor records r.code) = .ok b :=
  gather_mem (sealUniverse_ok.mp h).2 (mem_codesOf.mpr ⟨r, hr, rfl⟩)

theorem sealable_of_ok {u : List SealedSecurity} (h : sealUniverse records = .ok u) :
    Sealable records where
  nonempty := (sealUniverse_ok.mp h).1
  agreeing r hr s hs hcode := by
    obtain ⟨b, -, hb⟩ := sealCode_of_mem h hr
    exact (sealCode_ok.mp hb).1 r (mem_recordsFor.mpr ⟨hr, rfl⟩)
      s (mem_recordsFor.mpr ⟨hs, hcode⟩)
  written r hr := by
    obtain ⟨b, -, hb⟩ := sealCode_of_mem h hr.1
    obtain ⟨hagree, first, rest, hgroup, hsealed⟩ := sealCode_ok.mp hb
    have hr' : Best (recordsFor records r.code) r := best_recordsFor.mpr ⟨rfl, hr⟩
    rw [hgroup] at hr' hagree
    have hbest := best_greatest first rest
    obtain ⟨-, -, hsource⟩ := key_inj (best_key hr' hbest)
    have hname := (hagree _ hr'.1 _ hbest.1).name
    have hwritten := (toMarketSecurity_kept hsealed).written
    rw [Written, hname, ← hsource] at hwritten
    exact hwritten

theorem ok_of_sealable (h : Sealable records) : ∃ u, sealUniverse records = .ok u := by
  have hcodes : ∀ code ∈ codesOf records, ∃ b,
      sealCode code (recordsFor records code) = .ok b ∧ True := by
    intro code hcode
    obtain ⟨r, hr, hrcode⟩ := mem_codesOf.mp hcode
    obtain ⟨first, rest, hgroup⟩ : ∃ first rest, recordsFor records code = first :: rest :=
      List.exists_cons_of_ne_nil
        (List.ne_nil_of_mem (mem_recordsFor.mpr ⟨hr, hrcode⟩))
    have hbest := best_greatest first rest
    rw [← hgroup] at hbest
    obtain ⟨b, hb⟩ := written_isSealed (h.written _ (best_recordsFor.mp hbest).2)
    refine ⟨b, sealCode_ok.mpr ⟨fun r hr s hs => ?_, first, rest, hgroup, hb⟩, trivial⟩
    obtain ⟨hr, hrcode⟩ := mem_recordsFor.mp hr
    obtain ⟨hs, hscode⟩ := mem_recordsFor.mp hs
    exact h.agreeing r hr s hs (hscode.trans hrcode.symm)
  obtain ⟨u, hu, -⟩ := gather_all hcodes
  exact ⟨u, sealUniverse_ok.mpr ⟨h.nonempty, hu⟩⟩

/-! ## Every order -/

def OrderFree (records : List ExchangeSecurity) : Prop :=
  ∀ order, order.Perm records → ∀ u, sealUniverse order = .ok u ↔ sealUniverse records = .ok u

def KeepsEnds (records : List ExchangeSecurity) : Prop :=
  ∀ u, sealUniverse records = .ok u → ∀ r ∈ records, r.delistDate ≠ none →
    ∃ s ∈ u, s.content.code = r.code ∧ s.content.delistDate ≠ none

def OneDecides (records : List ExchangeSecurity) : Prop :=
  Sealable records → ∀ r, Selected records r → ∀ s ∈ records, s.code = r.code →
    (s.key = r.key → s = r) ∧ (s.delistDate ≠ none → r.delistDate ≠ none)

theorem orderFree_of_oneDecides (h : OneDecides records) : OrderFree records := by
  intro order hperm u
  suffices hsame : Sealable records →
      (sealUniverse order = .ok u ↔ sealUniverse records = .ok u) by
    exact ⟨fun hu => (hsame ((sealable_of_ok hu).perm hperm.symm)).mp hu,
      fun hu => (hsame (sealable_of_ok hu)).mpr hu⟩
  intro hsealable
  have hone := h hsealable
  rw [sealUniverse_ok, sealUniverse_ok, codesOf_perm hperm]
  refine and_congr ⟨fun hne hnil => hne ?_, fun hne hnil => hne ?_⟩
    (gather_ok_congr fun code _ b => ?_)
  · exact (hnil ▸ hperm).eq_nil
  · exact (hnil ▸ hperm).nil_eq.symm
  have hgroups : (recordsFor order code).Perm (recordsFor records code) := hperm.filter _
  have hbest : ∀ r, Best (recordsFor order code) r ↔ Best (recordsFor records code) r := by
    intro r
    simp only [Best, hgroups.mem_iff]
  have hties : ∀ r s, Best (recordsFor records code) r →
      Best (recordsFor records code) s → r = s := by
    intro r s hr hs
    obtain ⟨hrcode, hselected⟩ := best_recordsFor.mp hs
    obtain ⟨hscode, hr'⟩ := best_recordsFor.mp hr
    exact (hone s hselected r hr'.1 (hscode.trans hrcode.symm)).1 (best_key hr hs)
  rw [sealCode_best hties,
    sealCode_best fun r s hr hs => hties r s ((hbest r).mp hr) ((hbest s).mp hs)]
  simp only [hbest, hgroups.mem_iff]

theorem keepsEnds_of_oneDecides (h : OneDecides records) : KeepsEnds records := by
  intro u hu r hr hend
  obtain ⟨b, hmem, hb⟩ := sealCode_of_mem hu hr
  obtain ⟨-, first, rest, hgroup, hsealed⟩ := sealCode_ok.mp hb
  have hbest := best_greatest first rest
  rw [← hgroup] at hbest
  obtain ⟨hcode, hselected⟩ := best_recordsFor.mp hbest
  have hkept := (h (sealable_of_ok hu) _ hselected r hr hcode.symm).2 hend
  have hsame := toMarketSecurity_kept hsealed
  refine ⟨b, hmem, hsame.code.trans hcode, ?_⟩
  rw [hsame.delistDate]
  exact hkept

theorem gather_both {α β ε : Type} {f g : α → Except ε β} {as : List α} {bs : List β}
    (hf : gather f as = .ok bs) (hg : gather g as = .ok bs) {a : α} (ha : a ∈ as) :
    ∃ b, f a = .ok b ∧ g a = .ok b := by
  induction as generalizing bs with
  | nil => cases ha
  | cons x as ih =>
      simp only [gather, bind_ok, pure_ok] at hf hg
      obtain ⟨b, hb, bs', hbs, rfl⟩ := hf
      obtain ⟨c, hc, cs, hcs, hsame⟩ := hg
      obtain ⟨rfl, rfl⟩ := List.cons.inj hsame
      rcases List.mem_cons.mp ha with rfl | ha
      · exact ⟨c, hb, hc⟩
      · exact ih hbs hcs ha

theorem selected_sealed (hfree : OrderFree records) (hsealable : Sealable records)
    (hr : Selected records r) :
    ∃ b, r.toMarketSecurity = .ok b ∧ sealCode r.code (recordsFor records r.code) = .ok b := by
  have hperm : (r :: records.erase r).Perm records := (List.perm_cons_erase hr.1).symm
  obtain ⟨u, hu⟩ := ok_of_sealable (hsealable.perm hperm)
  have hown := (sealUniverse_ok.mp ((hfree _ hperm u).mp hu)).2
  have horder := (sealUniverse_ok.mp hu).2
  rw [codesOf_perm hperm] at horder
  obtain ⟨b, hb, hsealed⟩ := gather_both horder hown (mem_codesOf.mpr ⟨r, hr.1, rfl⟩)
  refine ⟨b, ?_, hsealed⟩
  have hgroup : recordsFor (r :: records.erase r) r.code =
      r :: recordsFor (records.erase r) r.code :=
    List.filter_cons_of_pos (decide_eq_true rfl)
  obtain ⟨-, first, rest, hcons, hfirst⟩ := sealCode_ok.mp hb
  rw [hgroup] at hcons
  obtain ⟨rfl, rfl⟩ := List.cons.inj hcons
  rw [greatest_first] at hfirst
  · exact hfirst
  · intro s hs
    obtain ⟨hmem, hcode⟩ := mem_recordsFor.mp hs
    exact hr.2 s (List.mem_of_mem_erase hmem) hcode

theorem toMarketSecurity_inj {s : ExchangeSecurity} (hagree : Agreeing r s)
    (hcode : s.code = r.code) (hkey : s.key = r.key) {b : SealedSecurity}
    (hr : r.toMarketSecurity = .ok b) (hs : s.toMarketSecurity = .ok b) : s = r := by
  have hleft := toMarketSecurity_kept hr
  have hright := toMarketSecurity_kept hs
  obtain ⟨hstatus, htime, hsource⟩ := key_inj hkey
  have hend := hright.delistDate.symm.trans hleft.delistDate
  have hst := hright.isSt.symm.trans hleft.isSt
  have hfetched := hright.fetchedAt.symm.trans hleft.fetchedAt
  obtain ⟨hexchange, hlist, hname, -⟩ := hagree
  cases r
  cases s
  dsimp only at *
  subst_vars
  rfl

theorem oneDecides_of_law (hfree : OrderFree records) (hkeeps : KeepsEnds records) :
    OneDecides records := by
  intro hsealable r hr s hs hcode
  obtain ⟨b, hb, hsealed⟩ := selected_sealed hfree hsealable hr
  refine ⟨fun hkey => ?_, fun hend => ?_⟩
  · have hselected : Selected records s := by
      refine ⟨hs, fun t ht htcode => ?_⟩
      rw [hkey]
      exact hr.2 t ht (htcode.trans hcode)
    obtain ⟨c, hc, hother⟩ := selected_sealed hfree hsealable hselected
    rw [hcode, hsealed] at hother
    cases hother
    exact toMarketSecurity_inj (hsealable.agreeing r hr.1 s hs hcode) hcode hkey hb hc
  · obtain ⟨u, hu⟩ := ok_of_sealable hsealable
    obtain ⟨e, hmem, hecode, heend⟩ := hkeeps u hu s hs hend
    obtain ⟨code, -, hfound⟩ := gather_from (sealUniverse_ok.mp hu).2 hmem
    obtain ⟨-, first, rest, hgroup, hfirst⟩ := sealCode_ok.mp hfound
    have hbest := best_greatest first rest
    rw [← hgroup] at hbest
    have hcodes : e.content.code = code :=
      (toMarketSecurity_kept hfirst).code.trans (best_recordsFor.mp hbest).1
    rw [← hcodes, hecode, hcode, hsealed] at hfound
    cases hfound
    rw [(toMarketSecurity_kept hb).delistDate] at heend
    exact heend

/-- A universe does not depend on the order of its records and keeps every
known end of a listing exactly when one record decides for each code. -/
theorem sealing_iff (records : List ExchangeSecurity) :
    (OrderFree records ∧ KeepsEnds records) ↔ OneDecides records :=
  ⟨fun h => oneDecides_of_law h.1 h.2,
    fun h => ⟨orderFree_of_oneDecides h, keepsEnds_of_oneDecides h⟩⟩

/-! ## Two pages of one security -/

def suspendedRecord (delistDate : Option Date)
    (interval : ∀ d ∈ delistDate, monthStart 1999 5 + 26 ≤ d) : ExchangeSecurity where
  code := "600193"
  name := "退市创兴"
  exchange := .sh
  listDate := monthStart 1999 5 + 26
  delistDate := delistDate
  status := .suspended
  source := "sse"
  sourceAt := ⟨0, shanghai⟩
  fetchedAt := ⟨0, shanghai⟩
  isSt := false
  codeValid := by decide
  notReceipt := by decide +kernel
  exchangeOf := by decide
  interval := interval
  ended := nofun
  named := by decide

def openPage : ExchangeSecurity := suspendedRecord none nofun

def endedPage : ExchangeSecurity := suspendedRecord (some (monthStart 2026 7 + 5)) (by decide)

theorem pages_sealed :
    (fun u => u.map fun s => s.content.delistDate) <$> sealUniverse [openPage, endedPage]
        = .ok [none] ∧
      (fun u => u.map fun s => s.content.delistDate) <$> sealUniverse [endedPage, openPage]
        = .ok [some (monthStart 2026 7 + 5)] := by
  constructor <;> decide +kernel

theorem sealing_depends_on_order :
    ¬ OrderFree [openPage, endedPage] ∧ ¬ KeepsEnds [openPage, endedPage] := by
  obtain ⟨u, hu, hopen⟩ := map_ok.mp pages_sealed.1
  obtain ⟨v, hv, hended⟩ := map_ok.mp pages_sealed.2
  refine ⟨fun hfree => ?_, fun hkeeps => ?_⟩
  · have hsame := (hfree _ (.swap _ _ _) v).mp hv
    rw [hu] at hsame
    cases hsame
    rw [hopen] at hended
    cases hended
  · obtain ⟨s, hs, -, hend⟩ := hkeeps u hu endedPage
      (List.mem_cons_of_mem _ List.mem_cons_self) nofun
    have hnone : s.content.delistDate ∈ u.map fun s => s.content.delistDate :=
      List.mem_map_of_mem hs
    rw [hopen] at hnone
    exact hend (List.mem_singleton.mp hnone)

end Ahunter.Market
