import Ahunter.Proofs.LiveShares
import Ahunter.Proofs.TaxReserve

/-!
# Tax under any partition of a disposal

What a disposal takes off an obligation is in proportion to the shares it
takes, and the tax assessed so far is always the exact tax so far, rounded. So
the fills of a day can be cut in any way: the increments telescope, and the
obligation ends as one disposal of the day's shares would have left it.
-/

namespace Ahunter.Sim

open Ahunter.Lib

variable {spec : AccountSpec} {z : Zone} {at_ : Instant}

/-! ## One disposal -/

variable {lotId : String} {quantity : ℤ} {o : Obligation} {acc : Assessment}

def Obligation.rateAt (o : Obligation) (z : Zone) (at_ : Instant) : ℚ :=
  match o.policy.rate o.acquiredOn (z.date at_) with
  | .ok rate => rate
  | .error _ => 0

def Obligation.LiveOn (o : Obligation) (lotId : String) : Prop :=
  o.lotId = lotId ∧ 0 < o.sharesRemaining

instance (o : Obligation) (lotId : String) : Decidable (o.LiveOn lotId) :=
  inferInstanceAs (Decidable (_ ∧ _))

def Obligation.Meets (o : Obligation) (z : Zone) (lotId : String) (f : ℤ × Instant) :
    Prop :=
  o.LiveOn lotId →
    f.1 ≤ o.sharesRemaining ∧ o.policy.covers (z.date f.2) ∧ o.acquiredOn ≤ z.date f.2

def Obligation.after (o : Obligation) (z : Zone) (lotId : String) (f : ℤ × Instant) :
    Obligation :=
  if o.LiveOn lotId then o.disposedOf f.1 (o.rateAt z f.2) else o

theorem Assesses.after {o' : Obligation} (h : Assesses z at_ lotId quantity o o') :
    o' = o.after z lotId (quantity, at_) := by
  unfold Assesses at h
  split at h
  next hlive =>
    obtain ⟨-, rate, hrate, rfl⟩ := h
    rw [Obligation.after, if_pos (show o.LiveOn lotId from hlive), Obligation.rateAt, hrate]
  next hlive =>
    rw [Obligation.after, if_neg (show ¬ o.LiveOn lotId from hlive)]
    exact h

def collected (key : String) (es : List Entry) : ℚ :=
  (es.map fun e => match e with
    | .dividendTaxAssessed amount k => if k = key then amount else 0
    | _ => 0).sum

def NoneBack (es : List Entry) : Prop :=
  ∀ amount key, Entry.dividendTaxAssessed amount key ∈ es → 0 ≤ amount

theorem collected_append (key : String) (es fs : List Entry) :
    collected key (es ++ fs) = collected key es + collected key fs := by
  rw [collected, List.map_append, List.sum_append]
  rfl

theorem assessOne_collected {acc' : Assessment} {key : String}
    (h : assessOne z lotId quantity at_ acc (key, o) = .ok acc')
    (ho : acc.state.dividendObligations.get? key = some o) :
    ∃ o', (∀ k, acc'.state.dividendObligations.get? k =
        if k = key then some o' else acc.state.dividendObligations.get? k) ∧
      ∀ k, collected k acc'.entries = collected k acc.entries +
        if k = key then o'.assessed - o.assessed else 0 := by
  have hone : ∀ (increment : ℚ) k, collected k [.dividendTaxAssessed increment key] =
      if k = key then increment else 0 := by
    intro increment k
    rw [collected, List.map_singleton, List.sum_singleton]
    exact if_congr eq_comm rfl rfl
  rcases assessOne_ok h with rfl | ⟨rate, action, -, -, -, -, -, ⟨-, rfl⟩ | ⟨-, rfl⟩⟩
  · refine ⟨o, fun k => ?_, fun k => ?_⟩
    · split
      next hk => rw [hk, ho]
      next => rfl
    · rw [sub_self, ite_self, add_zero]
  · refine ⟨_, fun k => Dict.get?_set _ _ _ _, fun k => ?_⟩
    rw [collected_append, hone]
  · refine ⟨_, fun k => Dict.get?_set _ _ _ _, fun k => ?_⟩
    rw [collected_append, ← List.singleton_append, collected_append, hone]
    simp [collected]

theorem assessWalk_collected {es : List (String × Obligation)} {acc' : Assessment}
    (h : walk (assessOne z lotId quantity at_) acc es = .ok acc') (hnodup : (es.map Prod.fst).Nodup)
    (hget : ∀ e ∈ es, acc.state.dividendObligations.get? e.1 = some e.2) (key : String) :
    collected key acc'.entries - collected key acc.entries =
      ((acc'.state.dividendObligations.get? key).elim 0 Obligation.assessed -
        (acc.state.dividendObligations.get? key).elim 0 Obligation.assessed) := by
  induction es generalizing acc with
  | nil =>
      cases h
      rw [sub_self, sub_self]
  | cons e es ih =>
      obtain ⟨mid, hone, hrest⟩ := walk_cons_ok.mp h
      rw [List.map_cons, List.nodup_cons] at hnodup
      have ho := hget e List.mem_cons_self
      obtain ⟨o', hset, hcollected⟩ := assessOne_collected hone ho
      have hlater := ih hrest hnodup.2 fun x hx => by
        have hne : x.1 ≠ e.1 := fun heq => hnodup.1 (heq ▸ List.mem_map_of_mem hx)
        rw [hset, if_neg hne]
        exact hget x (List.mem_cons_of_mem _ hx)
      rw [hset key, hcollected key] at hlater
      by_cases hkey : key = e.1
      · rw [if_pos hkey, if_pos hkey] at hlater
        rw [hkey, ho]
        rw [hkey] at hlater
        simp only [Option.elim_some] at hlater ⊢
        linarith
      · rw [if_neg hkey, if_neg hkey] at hlater
        linarith

variable {s s' : AccountState} {es : List Entry}

theorem assessDisposal_collected {tax : ℚ}
    (h : assessDisposal z s lotId quantity at_ = .ok (s', tax, es)) (key : String) :
    collected key es = (s'.dividendObligations.get? key).elim 0 Obligation.assessed -
      (s.dividendObligations.get? key).elim 0 Obligation.assessed := by
  obtain ⟨a, fees, hwalk, rfl, -, rfl⟩ := assessDisposal_ok h
  have hboth := assessWalk_collected hwalk s.dividendObligations.keys_nodup
    (fun e he => Dict.mem_entries.mp he) key
  rw [collected, collected, List.map_nil, List.sum_nil, sub_zero] at hboth
  exact hboth

theorem assessDisposal_noneBack {tax : ℚ}
    (h : assessDisposal z s lotId quantity at_ = .ok (s', tax, es)) (hq : 0 ≤ quantity)
    (hs : Sound s) : NoneBack es := by
  obtain ⟨a, fees, hwalk, -, -, rfl⟩ := assessDisposal_ok h
  refine (walk_induction (P := fun a : Assessment => NoneBack a.entries) hwalk nofun
    fun acc e acc' he hacc hone => ?_)
  obtain ⟨key, o⟩ := e
  have ho := hs.obligations key o (Dict.mem_entries.mp he)
  rcases assessOne_ok hone with rfl | ⟨rate, action, hrate, -, hshares, -, -, hcase⟩
  · exact hacc
  have hincrement : 0 ≤ rounded (o.taxExact + o.basisRemaining * quantity
      / o.sharesRemaining * rate) - o.assessed := by
    have hsharesQ : (0 : ℚ) < o.sharesRemaining := by exact_mod_cast hshares
    have hqQ : (0 : ℚ) ≤ quantity := by exact_mod_cast hq
    have hbasis := ho.basis
    rw [ho.assessed]
    exact sub_nonneg.mpr (rounded_mono (le_add_of_nonneg_right (by positivity)))
  rcases hcase with ⟨-, rfl⟩ | ⟨-, rfl⟩
  · intro amount k hmem
    rcases List.mem_append.mp hmem with hmem | hmem
    · exact hacc amount k hmem
    · cases List.mem_singleton.mp hmem
      exact hincrement
  · intro amount k hmem
    rcases List.mem_append.mp hmem with hmem | hmem
    · exact hacc amount k hmem
    · rcases List.mem_cons.mp hmem with heq | hmem
      · cases heq
      · cases List.mem_singleton.mp hmem
        exact hincrement

theorem assessOne_isOk {key : String} (hmeets : o.Meets z lotId (quantity, at_))
    (haction : ∃ action, acc.state.corporateActions.get? o.actionId = some action) :
    ∃ acc', assessOne z lotId quantity at_ acc (key, o) = .ok acc' := by
  by_cases hlive : o.LiveOn lotId
  · obtain ⟨hle, hcovers, hheld⟩ := hmeets hlive
    obtain ⟨band, -, hrate⟩ := o.policy.rate_of_held hheld
    obtain ⟨action, haction⟩ := haction
    have hskip : ¬ (o.lotId ≠ lotId ∨ o.sharesRemaining ≤ 0) := by
      rw [not_or, not_not, not_le]
      exact hlive
    simp only [assessOne, if_neg hskip, bind_ok, refuse_ok, need_ok]
    cases hdistributed : action.distributed with
    | true =>
        exact ⟨_, (), not_lt.mpr hle, (), not_not.mpr hcovers, _, hrate, action, haction,
          if_pos hdistributed⟩
    | false =>
        exact ⟨_, (), not_lt.mpr hle, (), not_not.mpr hcovers, _, hrate, action, haction,
          if_neg (by rw [hdistributed]; exact Bool.false_ne_true)⟩
  · have hskip : o.lotId ≠ lotId ∨ o.sharesRemaining ≤ 0 := by
      rw [Obligation.LiveOn, not_and_or, not_lt] at hlive
      exact hlive
    exact ⟨acc, by simp only [assessOne, if_pos hskip, pure, Except.pure]⟩

theorem assessOne_actions {acc' : Assessment} {e : String × Obligation}
    (h : assessOne z lotId quantity at_ acc e = .ok acc') :
    ActionsKept acc.state.corporateActions acc'.state.corporateActions := by
  rcases assessOne_ok h with rfl | ⟨_, found, -, -, -, -, hfound, ⟨-, rfl⟩ | ⟨-, rfl⟩⟩
  · exact .refl _
  · exact .refl _
  · exact .set hfound rfl rfl

theorem assessWalk_isOk (es : List (String × Obligation)) (acc : Assessment)
    (hmeets : ∀ e ∈ es, e.2.Meets z lotId (quantity, at_))
    (haction : ∀ e ∈ es, ∃ action, acc.state.corporateActions.get? e.2.actionId = some action) :
    ∃ acc', walk (assessOne z lotId quantity at_) acc es = .ok acc' := by
  induction es generalizing acc with
  | nil => exact ⟨acc, rfl⟩
  | cons e es ih =>
      obtain ⟨mid, hmid⟩ := assessOne_isOk (hmeets e List.mem_cons_self)
        (haction e List.mem_cons_self)
      obtain ⟨acc', hrest⟩ := ih mid (fun x hx => hmeets x (List.mem_cons_of_mem _ hx))
        fun x hx => by
          obtain ⟨action, hget⟩ := haction x (List.mem_cons_of_mem _ hx)
          obtain ⟨kept, hkept, -⟩ := assessOne_actions hmid _ action hget
          exact ⟨kept, hkept⟩
      exact ⟨acc', walk_cons_ok.mpr ⟨mid, hmid, hrest⟩⟩

variable {f : ℤ × Instant}

theorem assessDisposal_isOk {s : AccountState} (hs : Sound s) :
    (∃ r, assessDisposal z s lotId f.1 f.2 = .ok r) ↔
      ∀ k o, s.dividendObligations.get? k = some o → o.Meets z lotId f := by
  constructor
  · rintro ⟨⟨s', tax, es⟩, h⟩ k o ho hlive
    obtain ⟨a, fees, hwalk, -⟩ := assessDisposal_ok h
    obtain ⟨c, c', hone⟩ := walk_mem hwalk (Dict.mem_entries.mpr ho)
    have hskip : ¬ (o.lotId ≠ lotId ∨ o.sharesRemaining ≤ 0) := by
      rw [not_or, not_not, not_le]
      exact hlive
    simp only [assessOne, if_neg hskip, bind_ok, refuse_ok, not_lt, not_not] at hone
    obtain ⟨-, hle, -, hcovers, rate, hrate, -⟩ := hone
    refine ⟨hle, hcovers, ?_⟩
    simp only [DividendTaxPolicy.rate, DividendTaxPolicy.bandIndex, bind_ok, refuse_ok,
      not_lt] at hrate
    obtain ⟨-, ⟨-, hheld, -⟩, -⟩ := hrate
    exact hheld
  · intro hmeets
    obtain ⟨a, hwalk⟩ := assessWalk_isOk s.dividendObligations.entries ⟨s, 0, 0, []⟩
      (fun e he => hmeets e.1 e.2 (Dict.mem_entries.mp he)) fun e he => by
        obtain ⟨i, hi, -⟩ := (hs.obligations e.1 e.2 (Dict.mem_entries.mp he)).dividend
        exact ⟨i, hi⟩
    exact ⟨_, bind_ok.mpr ⟨a, hwalk, rfl⟩⟩

/-! ## Disposals in parts -/

variable {fills : List (ℤ × Instant)}

def disposeNext (z : Zone) (lotId : String) (acc : AccountState × List Entry)
    (f : ℤ × Instant) : Attempt (AccountState × List Entry) := do
  let (s', _, es) ← assessDisposal z acc.1 lotId f.1 f.2
  pure (s', acc.2 ++ es)

def disposals (z : Zone) (lotId : String) (s : AccountState)
    (fills : List (ℤ × Instant)) : Attempt (AccountState × List Entry) :=
  walk (disposeNext z lotId) (s, []) fills

structure Parts (z : Zone) (whole : ℤ × Instant) (fills : List (ℤ × Instant)) : Prop where
  nonempty : fills ≠ []
  positive : ∀ f ∈ fills, 0 < f.1
  shares : (fills.map Prod.fst).sum = whole.1
  date : ∀ f ∈ fills, z.date f.2 = z.date whole.2

def Obligation.through (o : Obligation) (z : Zone) (lotId : String)
    (fills : List (ℤ × Instant)) : Obligation :=
  fills.foldl (fun o f => o.after z lotId f) o

def Obligation.MeetsAll (o : Obligation) (z : Zone) (lotId : String) :
    List (ℤ × Instant) → Prop
  | [] => True
  | f :: fills => o.Meets z lotId f ∧ (o.after z lotId f).MeetsAll z lotId fills

theorem Obligation.through_append (o : Obligation) (lotId : String) (fs gs : List (ℤ × Instant)) :
    o.through z lotId (fs ++ gs) = (o.through z lotId fs).through z lotId gs :=
  List.foldl_append

theorem Obligation.meetsAll_append (o : Obligation) (lotId : String) (fs gs : List (ℤ × Instant)) :
    o.MeetsAll z lotId (fs ++ gs) ↔
      o.MeetsAll z lotId fs ∧ (o.through z lotId fs).MeetsAll z lotId gs := by
  induction fs generalizing o with
  | nil => exact (iff_of_eq (true_and _)).symm
  | cons f fs ih =>
      rw [List.cons_append, Obligation.MeetsAll, Obligation.MeetsAll, ih, and_assoc]
      rfl

theorem Obligation.after_idle (h : ¬ o.LiveOn lotId) (f : ℤ × Instant) : o.after z lotId f = o :=
  if_neg h

theorem Obligation.through_idle (h : ¬ o.LiveOn lotId) (fills : List (ℤ × Instant)) :
    o.through z lotId fills = o := by
  induction fills with
  | nil => rfl
  | cons f fills ih =>
      rw [through, List.foldl_cons, after_idle h]
      exact ih

theorem Obligation.meetsAll_idle (h : ¬ o.LiveOn lotId) (fills : List (ℤ × Instant)) :
    o.MeetsAll z lotId fills := by
  induction fills with
  | nil => trivial
  | cons f fills ih =>
      refine ⟨fun hlive => absurd hlive h, ?_⟩
      rw [after_idle h]
      exact ih

theorem Obligation.after_live (h : o.LiveOn lotId) (f : ℤ × Instant) :
    o.after z lotId f = o.disposedOf f.1 (o.rateAt z f.2) :=
  if_pos h

theorem Obligation.rateAt_congr (o : Obligation) {t u : Instant}
    (h : z.date t = z.date u) : o.rateAt z t = o.rateAt z u := by
  rw [rateAt, h, rateAt]

theorem Obligation.disposedOf_add {a b : ℤ} {rate : ℚ} (hshares : 0 < o.sharesRemaining)
    (hleft : 0 < o.sharesRemaining - a) :
    (o.disposedOf a rate).disposedOf b rate = o.disposedOf (a + b) rate := by
  have hs : (o.sharesRemaining : ℚ) ≠ 0 := by exact_mod_cast hshares.ne'
  have hl : (o.sharesRemaining : ℚ) - a ≠ 0 := by exact_mod_cast hleft.ne'
  have hbasis : o.basisRemaining - o.basisRemaining * a / o.sharesRemaining
      = o.basisRemaining * (o.sharesRemaining - a) / o.sharesRemaining := by
    field_simp
  have hpart : o.basisRemaining * (o.sharesRemaining - a) / o.sharesRemaining * b
      / (o.sharesRemaining - a) = o.basisRemaining * b / o.sharesRemaining := by
    field_simp
  have hexact : o.taxExact + o.basisRemaining * a / o.sharesRemaining * rate
      + o.basisRemaining * b / o.sharesRemaining * rate
      = o.taxExact + o.basisRemaining * (a + b) / o.sharesRemaining * rate := by
    ring
  have hrest : o.basisRemaining * (o.sharesRemaining - a) / o.sharesRemaining
      - o.basisRemaining * b / o.sharesRemaining
      = o.basisRemaining - o.basisRemaining * (a + b) / o.sharesRemaining := by
    field_simp
    ring
  simp only [disposedOf, Int.cast_sub, Int.cast_add, hbasis, hpart, hexact, hrest,
    sub_sub]

theorem Obligation.through_parts {whole : ℤ × Instant} (hparts : Parts z whole fills)
    (hshares : o.LiveOn lotId → whole.1 ≤ o.sharesRemaining) :
    (o.MeetsAll z lotId fills ↔ o.Meets z lotId whole) ∧
      o.through z lotId fills = o.after z lotId whole := by
  by_cases hlive : o.LiveOn lotId
  swap
  · rw [through_idle hlive, after_idle hlive]
    exact ⟨iff_of_true (meetsAll_idle hlive fills) fun h => absurd h hlive, rfl⟩
  obtain ⟨hne, hpos, hsum, hdate⟩ := hparts
  induction fills generalizing o whole with
  | nil => exact absurd rfl hne
  | cons f fills ih =>
      have hfdate := hdate f List.mem_cons_self
      have hf := hpos f List.mem_cons_self
      rw [List.map_cons, List.sum_cons] at hsum
      cases fills with
      | nil =>
          rw [List.map_nil, List.sum_nil, add_zero] at hsum
          constructor
          · simp only [MeetsAll, Meets, hsum, hfdate, and_true]
          · rw [through, List.foldl_cons, List.foldl_nil, after_live hlive, after_live hlive,
              hsum, rateAt_congr o hfdate]
      | cons g fills =>
          have hrestpos : 0 < ((g :: fills).map Prod.fst).sum :=
            List.sum_pos _ (fun q hq => by
              obtain ⟨x, hx, rfl⟩ := List.mem_map.mp hq
              exact hpos x (List.mem_cons_of_mem _ hx)) (by simp)
          have hle := hshares hlive
          have hafter := after_live (z := z) hlive f
          have hstill : (o.after z lotId f).LiveOn lotId := by
            rw [hafter]
            refine ⟨hlive.1, ?_⟩
            show 0 < o.sharesRemaining - f.1
            omega
          have hcount : (o.after z lotId f).sharesRemaining = o.sharesRemaining - f.1 := by
            rw [hafter]
            rfl
          obtain ⟨hmeets, hthrough⟩ := @ih _ (((g :: fills).map Prod.fst).sum, whole.2)
            (fun _ => by show _ ≤ _; rw [hcount]; omega) hstill (List.cons_ne_nil _ _)
            (fun x hx => hpos x (List.mem_cons_of_mem _ hx)) rfl
            (fun x hx => hdate x (List.mem_cons_of_mem _ hx))
          constructor
          · rw [MeetsAll, hmeets, Meets, Meets, Meets, hcount, hafter, hfdate]
            rw [hafter] at hstill
            constructor
            · rintro ⟨hfirst, -⟩ -
              exact ⟨hle, (hfirst hlive).2⟩
            · intro hall
              obtain ⟨-, hheld⟩ := hall hlive
              refine ⟨fun _ => ⟨?_, hheld⟩, fun _ => ⟨?_, hheld⟩⟩
              · omega
              · show ((g :: fills).map Prod.fst).sum ≤ _
                omega
          · rw [through, List.foldl_cons]
            refine hthrough.trans ?_
            rw [after_live hstill, after_live hlive whole, hafter]
            have hrate : (o.disposedOf f.1 (o.rateAt z f.2)).rateAt z whole.2
                = o.rateAt z whole.2 := rfl
            rw [hrate, rateAt_congr o hfdate]
            show (o.disposedOf f.1 _).disposedOf ((g :: fills).map Prod.fst).sum _ = _
            rw [disposedOf_add hlive.2 (by omega), hsum]

/-! ## A lot's disposals, day after day -/

theorem disposeNext_ok {acc acc' : AccountState × List Entry}
    (h : disposeNext z lotId acc f = .ok acc') :
    ∃ tax es, assessDisposal z acc.1 lotId f.1 f.2 = .ok (acc'.1, tax, es) ∧
      acc'.2 = acc.2 ++ es := by
  simp only [disposeNext, bind_ok, pure_ok] at h
  obtain ⟨⟨s', tax, es⟩, hassess, rfl⟩ := h
  exact ⟨tax, es, hassess, rfl⟩

theorem assessDisposal_after {tax : ℚ}
    (h : assessDisposal z s lotId f.1 f.2 = .ok (s', tax, es)) (k : String) :
    s'.dividendObligations.get? k =
      (s.dividendObligations.get? k).map fun o => o.after z lotId f := by
  obtain ⟨hnone, hsome⟩ := assessDisposal_obligations h
  cases ho : s.dividendObligations.get? k with
  | none => exact hnone k ho
  | some o =>
      obtain ⟨o', ho', hassesses⟩ := hsome k o ho
      rw [ho', hassesses.after]
      rfl

theorem disposals_sound {acc acc' : AccountState × List Entry}
    (h : walk (disposeNext z lotId) acc fills = .ok acc') (hs : Sound acc.1)
    (hfills : ∀ f ∈ fills, 0 ≤ f.1) : Sound acc'.1 :=
  walk_induction (P := fun acc : AccountState × List Entry => Sound acc.1) h hs
    fun _ f _ hf hacc hone => by
      obtain ⟨tax, es, hassess, -⟩ := disposeNext_ok hone
      exact (assessDisposal_sound hassess (hfills f hf) hacc).1

theorem disposals_walk {acc acc' : AccountState × List Entry}
    (h : walk (disposeNext z lotId) acc fills = .ok acc') (hs : Sound acc.1)
    (hfills : ∀ f ∈ fills, 0 ≤ f.1) (hback : NoneBack acc.2) :
    NoneBack acc'.2 ∧ ∀ k, acc'.1.dividendObligations.get? k =
        (acc.1.dividendObligations.get? k).map (fun o => o.through z lotId fills) ∧
      collected k acc'.2 - collected k acc.2 =
        (acc'.1.dividendObligations.get? k).elim 0 Obligation.assessed -
          (acc.1.dividendObligations.get? k).elim 0 Obligation.assessed := by
  induction fills generalizing acc with
  | nil =>
      cases h
      refine ⟨hback, fun k => ⟨?_, by rw [sub_self, sub_self]⟩⟩
      exact Option.map_id'.symm
  | cons f fills ih =>
      obtain ⟨mid, hone, hrest⟩ := walk_cons_ok.mp h
      obtain ⟨tax, es, hassess, hentries⟩ := disposeNext_ok hone
      have hf := hfills f List.mem_cons_self
      have hfirst : NoneBack mid.2 := by
        intro amount key hmem
        rw [hentries] at hmem
        rcases List.mem_append.mp hmem with hmem | hmem
        · exact hback amount key hmem
        · exact assessDisposal_noneBack hassess hf hs amount key hmem
      obtain ⟨hnone, hall⟩ := ih hrest (assessDisposal_sound hassess hf hs).1
        (fun x hx => hfills x (List.mem_cons_of_mem _ hx)) hfirst
      refine ⟨hnone, fun k => ?_⟩
      obtain ⟨hget, hsum⟩ := hall k
      have hcollected := assessDisposal_collected hassess k
      constructor
      · rw [hget, assessDisposal_after hassess k, Option.map_map]
        rfl
      · rw [hentries, collected_append] at hsum
        linarith

theorem disposals_isOk (fills : List (ℤ × Instant)) (acc : AccountState × List Entry)
    (hs : Sound acc.1) (hfills : ∀ f ∈ fills, 0 ≤ f.1) :
    (∃ r, walk (disposeNext z lotId) acc fills = .ok r) ↔
      ∀ k o, acc.1.dividendObligations.get? k = some o → o.MeetsAll z lotId fills := by
  induction fills generalizing acc with
  | nil => exact iff_of_true ⟨acc, rfl⟩ fun _ _ _ => trivial
  | cons f fills ih =>
      have hf := hfills f List.mem_cons_self
      have hlater := fun x hx => hfills x (List.mem_cons_of_mem f hx)
      have hnext : ∀ {mid tax es}, assessDisposal z acc.1 lotId f.1 f.2 = .ok (mid, tax, es) →
          ((∃ r, walk (disposeNext z lotId) (mid, acc.2 ++ es) fills = .ok r) ↔
            ∀ k o, acc.1.dividendObligations.get? k = some o →
              (o.after z lotId f).MeetsAll z lotId fills) := by
        intro mid tax es hassess
        rw [ih _ (assessDisposal_sound hassess hf hs).1 hlater]
        constructor
        · intro hall k o ho
          refine hall k _ ?_
          rw [assessDisposal_after hassess k, ho, Option.map_some]
        · intro hall k o' ho'
          rw [assessDisposal_after hassess k] at ho'
          obtain ⟨o, ho, rfl⟩ := Option.map_eq_some_iff.mp ho'
          exact hall k o ho
      constructor
      · rintro ⟨r, h⟩ k o ho
        obtain ⟨mid, hone, hrest⟩ := walk_cons_ok.mp h
        obtain ⟨tax, es, hassess, hentries⟩ := disposeNext_ok hone
        refine ⟨(assessDisposal_isOk hs).mp ⟨_, hassess⟩ k o ho, ?_⟩
        refine (hnext hassess).mp ⟨r, ?_⟩ k o ho
        rw [← hentries]
        exact hrest
      · intro hall
        obtain ⟨⟨mid, tax, es⟩, hassess⟩ :=
          (assessDisposal_isOk hs).mpr fun k o ho => (hall k o ho).1
        obtain ⟨r, hrest⟩ := (hnext hassess).mpr fun k o ho => (hall k o ho).2
        exact ⟨r, walk_cons_ok.mpr ⟨_, bind_ok.mpr ⟨_, hassess, rfl⟩, hrest⟩⟩

def sharesOf (fills : List (ℤ × Instant)) : ℤ := (fills.map Prod.fst).sum

def Obligation.exactTax (o : Obligation) (z : Zone) (fills : List (ℤ × Instant)) : ℚ :=
  (fills.map fun f => o.basisRemaining * f.1 / o.sharesRemaining * o.rateAt z f.2).sum

theorem Obligation.through_exact (hlive : o.LiveOn lotId) (hpos : ∀ f ∈ fills, 0 < f.1)
    (hle : sharesOf fills ≤ o.sharesRemaining) :
    (o.through z lotId fills).taxExact = o.taxExact + o.exactTax z fills := by
  induction fills generalizing o with
  | nil => exact (add_zero _).symm
  | cons f fills ih =>
      have hf := hpos f List.mem_cons_self
      have hlater := fun x hx => hpos x (List.mem_cons_of_mem f hx)
      have hsum : sharesOf (f :: fills) = f.1 + sharesOf fills := by
        rw [sharesOf, List.map_cons, List.sum_cons, sharesOf]
      have hcons : o.exactTax z (f :: fills) = o.basisRemaining * f.1 / o.sharesRemaining *
          o.rateAt z f.2 + o.exactTax z fills := by
        rw [exactTax, List.map_cons, List.sum_cons, exactTax]
      rw [hsum] at hle
      rw [through, List.foldl_cons, after_live hlive, hcons]
      by_cases hleft : 0 < o.sharesRemaining - f.1
      · have hstill : (o.disposedOf f.1 (o.rateAt z f.2)).LiveOn lotId := ⟨hlive.1, hleft⟩
        refine (ih hstill hlater (show _ ≤ o.sharesRemaining - f.1 by omega)).trans ?_
        -- A share's part of the basis is what it was.
        have hshare : ∀ q : ℤ, (o.disposedOf f.1 (o.rateAt z f.2)).basisRemaining * q
            / (o.disposedOf f.1 (o.rateAt z f.2)).sharesRemaining
            = o.basisRemaining * q / o.sharesRemaining := by
          intro q
          have hs : (o.sharesRemaining : ℚ) ≠ 0 := by exact_mod_cast hlive.2.ne'
          have hl : (o.sharesRemaining : ℚ) - f.1 ≠ 0 := by exact_mod_cast hleft.ne'
          simp only [disposedOf, Int.cast_sub]
          field_simp
        have hrest : (o.disposedOf f.1 (o.rateAt z f.2)).exactTax z fills
            = o.exactTax z fills := by
          rw [exactTax, exactTax]
          exact congrArg List.sum (List.map_congr_left fun g _ => by rw [hshare]; rfl)
        rw [hrest, ← add_assoc]
        rfl
      · have hdone : fills = [] := by
          by_contra hne
          have hmore : 0 < sharesOf fills := List.sum_pos _ (fun q hq => by
            obtain ⟨x, hx, rfl⟩ := List.mem_map.mp hq
            exact hlater x hx) (by simpa using hne)
          omega
        subst hdone
        show _ = o.taxExact + (_ + 0)
        rw [add_zero]
        rfl

theorem Parts.positive_whole {whole : ℤ × Instant} (h : Parts z whole fills) : 0 < whole.1 := by
  rw [← h.shares]
  refine List.sum_pos _ (fun q hq => ?_) (by simpa using h.nonempty)
  obtain ⟨x, hx, rfl⟩ := List.mem_map.mp hq
  exact h.positive x hx

theorem Obligation.through_days {days : List ((ℤ × Instant) × List (ℤ × Instant))}
    (hparts : ∀ d ∈ days, Parts z d.1 d.2)
    (hshares : o.LiveOn lotId → sharesOf (days.map Prod.fst) ≤ o.sharesRemaining) :
    (o.MeetsAll z lotId (days.flatMap Prod.snd) ↔ o.MeetsAll z lotId (days.map Prod.fst)) ∧
      o.through z lotId (days.flatMap Prod.snd) = o.through z lotId (days.map Prod.fst) := by
  induction days generalizing o with
  | nil => exact ⟨.rfl, rfl⟩
  | cons d days ih =>
      have hd := hparts d List.mem_cons_self
      have hlater := fun x hx => hparts x (List.mem_cons_of_mem d hx)
      have hsum : sharesOf ((d :: days).map Prod.fst) =
          d.1.1 + sharesOf (days.map Prod.fst) := by
        rw [sharesOf, List.map_cons, List.map_cons, List.sum_cons, sharesOf]
      rw [hsum] at hshares
      have hrest : 0 ≤ sharesOf (days.map Prod.fst) := List.sum_nonneg fun q hq => by
        rw [List.map_map] at hq
        obtain ⟨x, hx, rfl⟩ := List.mem_map.mp hq
        exact (hlater x hx).positive_whole.le
      obtain ⟨hmeets, hthrough⟩ := through_parts hd fun hlive => by
        have := hshares hlive
        omega
      obtain ⟨hmeets', hthrough'⟩ := ih (o := o.after z lotId d.1) hlater fun hlive => by
        by_cases hbefore : o.LiveOn lotId
        · have := hshares hbefore
          rw [after_live hbefore]
          show _ ≤ o.sharesRemaining - d.1.1
          omega
        · rw [after_idle hbefore] at hlive
          exact absurd hlive hbefore
      constructor
      · rw [List.flatMap_cons, meetsAll_append, hmeets, hthrough, hmeets', List.map_cons,
          MeetsAll]
      · rw [List.flatMap_cons, through_append, hthrough, hthrough']
        rfl

/-! ## Any partition collects the same tax -/

/-- In a run that writes each lot key once the live obligations count the shares
of their lots, and the tax on a lot's disposals does not depend on how the fills
of each day are cut. -/
theorem tax_any_partition {t : AccountState} (h : FreshState spec t) :
    (∀ k o, t.dividendObligations.get? k = some o → 0 < o.sharesRemaining →
      ∃ l, t.stockLots.get? o.lotId = some l ∧ l.quantity = o.sharesRemaining) ∧
    ∀ (lotId : String) (days : List ((ℤ × Instant) × List (ℤ × Instant))),
      (∀ d ∈ days, Parts spec.zone d.1 d.2) →
      (∀ l, t.stockLots.get? lotId = some l →
        sharesOf (days.map Prod.fst) ≤ l.quantity) →
      ((∃ r, disposals spec.zone lotId t (days.flatMap Prod.snd) = .ok r) ↔
        ∃ r, disposals spec.zone lotId t (days.map Prod.fst) = .ok r) ∧
      ∀ s es, disposals spec.zone lotId t (days.flatMap Prod.snd) = .ok (s, es) →
        NoneBack es ∧ ∀ k o, t.dividendObligations.get? k = some o →
          (∀ s' es', disposals spec.zone lotId t (days.map Prod.fst) = .ok (s', es') →
            s'.dividendObligations.get? k = s.dividendObligations.get? k ∧
              collected k es' = collected k es) ∧
          o.assessed = rounded o.taxExact ∧
          (o.LiveOn lotId → o.assessed + collected k es =
            rounded (o.taxExact + o.exactTax spec.zone (days.map Prod.fst))) ∧
          (¬ o.LiveOn lotId → collected k es = 0) := by
  have hsound := h.taxSound
  have hs := hsound.funded.sound
  refine ⟨fun k o ho hlive => hsound.live_units ho hlive, fun lotId days hparts hlot => ?_⟩
  have hwhole : ∀ f ∈ days.map Prod.fst, 0 < f.1 := by
    intro f hf
    obtain ⟨d, hd, rfl⟩ := List.mem_map.mp hf
    exact (hparts d hd).positive_whole
  have hcut : ∀ f ∈ days.flatMap Prod.snd, 0 < f.1 := by
    intro f hf
    obtain ⟨d, hd, hmem⟩ := List.mem_flatMap.mp hf
    exact (hparts d hd).positive f hmem
  have hcounted : ∀ k o, t.dividendObligations.get? k = some o → o.LiveOn lotId →
      sharesOf (days.map Prod.fst) ≤ o.sharesRemaining := by
    rintro k o ho ⟨rfl, hlive⟩
    obtain ⟨l, hl, hquantity⟩ := hsound.live_units ho hlive
    rw [← hquantity]
    exact hlot l hl
  have hsame := fun k o ho => Obligation.through_days hparts (hcounted k o ho)
  constructor
  · rw [disposals, disposals, disposals_isOk _ _ hs fun f hf => (hcut f hf).le,
      disposals_isOk _ _ hs fun f hf => (hwhole f hf).le]
    exact forall_congr' fun k => forall_congr' fun o => forall_congr' fun ho =>
      (hsame k o ho).1
  · intro s es hdone
    have hempty : NoneBack [] := nofun
    obtain ⟨hback, hfinal⟩ := disposals_walk hdone hs (fun f hf => (hcut f hf).le) hempty
    refine ⟨hback, fun k o ho => ?_⟩
    obtain ⟨hget, hsum⟩ := hfinal k
    have hthrough := (hsame k o ho).2
    have hassessed := (hs.obligations k o ho).assessed
    rw [ho, Option.map_some, hthrough] at hget
    have hnil : collected k [] = 0 := rfl
    simp only [ho, hget, Option.elim_some, hnil, sub_zero] at hsum
    refine ⟨fun s' es' hdone' => ?_, hassessed, fun hlive => ?_, fun hidle => ?_⟩
    · obtain ⟨-, hfinal'⟩ := disposals_walk hdone' hs (fun f hf => (hwhole f hf).le) hempty
      obtain ⟨hget', hsum'⟩ := hfinal' k
      rw [ho, Option.map_some] at hget'
      simp only [ho, hget', Option.elim_some, hnil, sub_zero] at hsum'
      exact ⟨hget'.trans hget.symm, hsum'.trans hsum.symm⟩
    · rw [hsum, add_sub_cancel, ← Obligation.through_exact hlive hwhole
        (hcounted k o ho hlive)]
      have hsound' := disposals_sound hdone hs fun f hf => (hcut f hf).le
      exact (hsound'.obligations k _ hget).assessed
    · rw [hsum, Obligation.through_idle hidle, sub_self]

def sampleDays : List ((ℤ × Instant) × List (ℤ × Instant)) := [
  ((100, sampleAt 1 600), [(40, sampleAt 1 590), (60, sampleAt 1 610)]),
  ((50, sampleAt 2 600), [(50, sampleAt 2 600)])]

theorem tax_any_partition_sample : ∃ t o, FreshState sampleSpec t ∧
    t.dividendObligations.get? "dividend:initial:SH600000" = some o ∧
    o.sharesRemaining = 150 ∧
    ∃ s es, disposals sampleSpec.zone "initial:SH600000" t
        (sampleDays.flatMap Prod.snd) = .ok (s, es) ∧
      o.assessed + collected "dividend:initial:SH600000" es =
        rounded (o.taxExact + o.exactTax sampleSpec.zone (sampleDays.map Prod.fst)) := by
  obtain ⟨w, hw, htest⟩ := ReachableIf.of_check sampleSpec FreshLots taxedHolding
    (fun w => w.account.any fun t =>
      (t.dividendObligations.get? "dividend:initial:SH600000").any fun o =>
        decide (o.LiveOn "initial:SH600000" ∧ o.sharesRemaining = 150 ∧
          (t.stockLots.get? "initial:SH600000").map StockLot.quantity = some 150 ∧
          (disposals sampleSpec.zone "initial:SH600000" t
            (sampleDays.map Prod.fst)).toOption.isSome))
    (by decide +kernel)
  obtain ⟨t, ht, htest⟩ := (Option.any_eq_true _ _).mp htest
  obtain ⟨o, ho, htest⟩ := (Option.any_eq_true _ _).mp htest
  obtain ⟨hlive, hshares, hlot, hwhole⟩ := of_decide_eq_true htest
  have hfresh : FreshState sampleSpec t := ⟨w, t, [], [], hw, ht, .refl, .nil, nofun⟩
  obtain ⟨hiff, hdone⟩ := (tax_any_partition hfresh).2 "initial:SH600000" sampleDays
    (fun d hd => by
      rcases List.mem_cons.mp hd with rfl | hd
      · exact ⟨List.cons_ne_nil _ _, by decide, by decide, by decide⟩
      · cases List.mem_singleton.mp hd
        exact ⟨List.cons_ne_nil _ _, by decide, by decide, by decide⟩)
    (fun l hl => by
      rw [hl, Option.map_some, Option.some_inj] at hlot
      rw [hlot]
      decide)
  have hdisposed : ∃ r, disposals sampleSpec.zone "initial:SH600000" t
      (sampleDays.map Prod.fst) = .ok r := by
    cases hr : disposals sampleSpec.zone "initial:SH600000" t (sampleDays.map Prod.fst) with
    | ok r => exact ⟨r, rfl⟩
    | error e =>
        rw [hr] at hwhole
        cases hwhole
  obtain ⟨⟨s, es⟩, hcut⟩ := hiff.mpr hdisposed
  exact ⟨t, o, hfresh, ho, hshares, s, es, hcut,
    ((hdone s es hcut).2 _ o ho).2.2.1 hlive⟩

def taxedOverwrite : List Command := taxedHolding ++ [
  .account "offer" (.reserveBatch
    [sampleOrder "buy" .buy 100 10] (sampleAt 1 600)),
  .account "initial:SH600000" (.fill "buy" 100 10 (sampleAt 1 601))]

/-- A live obligation counts shares that its lot does not have. -/
theorem obligation_outlives_lot : ∃ w t o l, Reachable sampleSpec w ∧
    w.account = some t ∧
    t.dividendObligations.get? "dividend:initial:SH600000" = some o ∧
    0 < o.sharesRemaining ∧ t.stockLots.get? o.lotId = some l ∧
    o.sharesRemaining = 150 ∧ l.quantity = 100 := by
  obtain ⟨w, hw, htest⟩ := ReachableIf.of_check sampleSpec (fun _ _ _ => True)
    taxedOverwrite
    (fun w => w.account.any fun t =>
      (t.dividendObligations.get? "dividend:initial:SH600000").any fun o =>
        (t.stockLots.get? o.lotId).any fun l =>
          decide (o.sharesRemaining = 150 ∧ l.quantity = 100))
    (by decide +kernel)
  obtain ⟨t, ht, htest⟩ := (Option.any_eq_true _ _).mp htest
  obtain ⟨o, ho, htest⟩ := (Option.any_eq_true _ _).mp htest
  obtain ⟨l, hl, htest⟩ := (Option.any_eq_true _ _).mp htest
  obtain ⟨hshares, hquantity⟩ := of_decide_eq_true htest
  exact ⟨w, t, o, l, hw, ht, ho, by omega, hl, hshares, hquantity⟩

end Ahunter.Sim
