import Ahunter.Ledger.Model
import Mathlib.Data.List.TakeWhile

/-!
# Folding a ledger

One transaction moves the shares of one code and, between cash, cost and
realized profit, nothing: a purchase turns cash into cost, a sale turns cost
into cash and books the difference. So what a list of transactions leaves is
a sum over it, in whatever order it was applied, and the order decides only
whether a sale finds its shares. A day applied with its sales last succeeds
exactly when what the day opens with and buys covers what it sells, which is
what any order of it needs.
-/

namespace Ahunter.Ledger

open Ahunter.Lib
open Ahunter.Sim (Date)

/-! ## What a list of transactions moves -/

variable {l m : List LedgerTransaction} {t : LedgerTransaction}

def Valid (t : LedgerTransaction) : Prop := validateLedgerTransaction t = .ok ()

def moved (type : TransactionType) (code : String) (l : List LedgerTransaction) : ℤ :=
  (l.map fun t => if t.transactionType = type ∧ t.code = some code then t.quantity else 0).sum

def nonTrade (l : List LedgerTransaction) : ℚ :=
  (l.map fun t => if isTrade t.transactionType then 0 else t.amount).sum

def net (code : String) (l : List LedgerTransaction) : ℤ :=
  moved .buy code l - moved .sell code l

@[simp] theorem moved_nil (type : TransactionType) (code : String) : moved type code [] = 0 := rfl

theorem moved_cons (type : TransactionType) (code : String) (t : LedgerTransaction)
    (l : List LedgerTransaction) :
    moved type code (t :: l) = moved type code [t] + moved type code l := by
  simp [moved]

theorem moved_one (type : TransactionType) (code : String) (t : LedgerTransaction) :
    moved type code [t]
      = if t.transactionType = type ∧ t.code = some code then t.quantity else 0 := by
  rw [moved, List.map_singleton, List.sum_singleton]

theorem moved_append (type : TransactionType) (code : String) (l m : List LedgerTransaction) :
    moved type code (l ++ m) = moved type code l + moved type code m := by
  simp [moved]

variable {code : String}

theorem moved_perm {type : TransactionType} (h : l.Perm m) :
    moved type code l = moved type code m :=
  (h.map _).sum_eq

theorem nonTrade_append (l m : List LedgerTransaction) :
    nonTrade (l ++ m) = nonTrade l + nonTrade m := by
  simp [nonTrade]

theorem nonTrade_perm (h : l.Perm m) : nonTrade l = nonTrade m :=
  (h.map _).sum_eq

theorem Valid.trade (h : Valid t) (ht : isTrade t.transactionType = true) :
    ∃ code, t.code = some code ∧ 0 < t.quantity ∧ 0 ≤ t.fees ∧
      (t.transactionType = .buy → t.amount < 0) := by
  rw [Valid, validateLedgerTransaction, if_pos ht] at h
  simp only [validateTrade, bind_ok, refuse_ok, not_not, not_or, not_le, not_lt,
    not_and] at h
  obtain ⟨-, -, -, -, -, ⟨code, hcode, -⟩, -, ⟨hquantity, -, hfees⟩, -, hbuy, -⟩ := h
  exact ⟨code, hcode, hquantity, hfees, hbuy⟩

theorem Valid.quantity_nonneg (h : Valid t) : 0 ≤ t.quantity := by
  simp only [Valid, validateLedgerTransaction, bind_ok, refuse_ok, not_not] at h
  obtain ⟨-, -, -, ⟨hquantity, -⟩, -⟩ := h
  exact hquantity

theorem moved_nonneg (type : TransactionType) (code : String) (h : ∀ t ∈ l, Valid t) :
    0 ≤ moved type code l := by
  induction l with
  | nil => exact le_refl 0
  | cons t l ih =>
      have hrest := ih fun x hx => h x (List.mem_cons_of_mem t hx)
      have hquantity := (h t List.mem_cons_self).quantity_nonneg
      rw [moved_cons]
      have hone : 0 ≤ moved type code [t] := by
        rw [moved_one]
        split
        · exact hquantity
        · exact le_refl 0
      omega

/-! ## One transaction -/

variable {s : LedgerState}

structure Sound (s : LedgerState) : Prop where
  positive : ∀ code q, s.positions.get? code = some q → 0 < q
  keys : ∀ code, (s.costBasis.get? code).isSome = (s.positions.get? code).isSome

theorem Sound.held_nonneg (h : Sound s) (code : String) : 0 ≤ s.held code := by
  unfold LedgerState.held
  cases hget : s.positions.get? code with
  | none => exact le_refl 0
  | some q => exact (h.positive code q hget).le

theorem Sound.new : Sound LedgerState.new :=
  ⟨fun _ _ h => absurd h (by simp [LedgerState.new]), fun _ => rfl⟩

/-- What no trade changes. -/
def LedgerState.worth (s : LedgerState) : ℚ :=
  s.cash + s.costBasis.sum (fun _ cost => cost) - s.realizedPnl

structure Folds (l : List LedgerTransaction) (s s' : LedgerState) : Prop where
  sound : Sound s'
  held : ∀ code, s'.held code = s.held code + net code l
  worth : s'.worth = s.worth + nonTrade l

theorem Folds.nil (h : Sound s) : Folds [] s s :=
  ⟨h, fun code => by simp [net], by simp [nonTrade]⟩

theorem Folds.append {s' s'' : LedgerState} (h : Folds l s s') (h' : Folds m s' s'') :
    Folds (l ++ m) s s'' where
  sound := h'.sound
  held := fun code => by
    have hl := h.held code
    have hm := h'.held code
    simp only [net, moved_append] at hl hm ⊢
    omega
  worth := by
    rw [h'.worth, h.worth, nonTrade_append]
    ring

theorem Folds.perm {s' : LedgerState} (h : Folds l s s') (hperm : l.Perm m) : Folds m s s' where
  sound := h.sound
  held := fun code => by
    rw [h.held, net, net, moved_perm hperm, moved_perm hperm]
  worth := by rw [h.worth, nonTrade_perm hperm]

theorem LedgerState.cost_sum_set (s : LedgerState) (code : String) (c : ℚ) :
    (s.costBasis.set code c).sum (fun _ cost => cost) + s.cost code
      = s.costBasis.sum (fun _ cost => cost) + c := by
  have h := Dict.sum_set s.costBasis code c fun _ cost => cost
  unfold LedgerState.cost
  cases hget : s.costBasis.get? code with
  | none => rw [hget] at h; simpa using h
  | some v => rw [hget] at h; simpa using h

theorem LedgerState.cost_sum_erase (s : LedgerState) (code : String) :
    (s.costBasis.erase code).sum (fun _ cost => cost) + s.cost code
      = s.costBasis.sum (fun _ cost => cost) := by
  have h := Dict.sum_erase s.costBasis code fun _ cost => cost
  unfold LedgerState.cost
  cases hget : s.costBasis.get? code with
  | none => rw [hget] at h; simpa using h
  | some v => rw [hget] at h; simpa using h

theorem bought_folds (hs : Sound s) (htype : t.transactionType = .buy)
    (hcode : t.code = some code) (hquantity : 0 < t.quantity) (hamount : t.amount < 0) :
    Folds [t] s (s.bought code t) := by
  have hheld := hs.held_nonneg code
  constructor
  · constructor
    · intro c q hget
      rw [LedgerState.bought, Dict.get?_set] at hget
      split at hget
      · have hq : s.held code + t.quantity = q := Option.some.inj hget
        omega
      · exact hs.positive c q hget
    · intro c
      rw [LedgerState.bought, Dict.get?_set, Dict.get?_set]
      split
      · rfl
      · exact hs.keys c
  · intro c
    rw [net, moved_one, moved_one, htype, hcode]
    unfold LedgerState.held
    rw [LedgerState.bought, Dict.get?_set]
    by_cases hc : c = code
    · subst hc
      simp [LedgerState.held]
    · rw [if_neg hc]
      simp [Ne.symm hc]
  · have hsum := s.cost_sum_set code (s.cost code + |t.amount| + t.fees)
    rw [abs_of_neg hamount] at hsum
    have hnonTrade : nonTrade [t] = 0 := by
      rw [nonTrade, List.map_singleton, List.sum_singleton, htype]
      rfl
    rw [hnonTrade, add_zero, LedgerState.worth, LedgerState.worth, LedgerState.bought,
      abs_of_neg hamount]
    linarith

theorem sold_folds (hs : Sound s) (htype : t.transactionType = .sell)
    (hcode : t.code = some code) (hquantity : 0 < t.quantity) (henough : t.quantity ≤ s.held code) :
    Folds [t] s (s.sold code t) := by
  have hpositive : 0 < s.held code := by omega
  constructor
  · constructor
    · intro c q hget
      rw [LedgerState.sold] at hget
      dsimp only at hget
      split at hget
      · rw [Dict.get?_erase] at hget
        split at hget
        · cases hget
        · exact hs.positive c q hget
      · next hsome =>
          rw [Dict.get?_set] at hget
          split at hget
          · have hq : s.held code - t.quantity = q := Option.some.inj hget
            omega
          · exact hs.positive c q hget
    · intro c
      rw [LedgerState.sold]
      dsimp only
      split
      · rw [Dict.get?_erase, Dict.get?_erase]
        split
        · rfl
        · exact hs.keys c
      · rw [Dict.get?_set, Dict.get?_set]
        split
        · rfl
        · exact hs.keys c
  · intro c
    rw [net, moved_one, moved_one, htype, hcode]
    show (((s.sold code t).positions.get? c).getD 0) = _
    rw [LedgerState.sold]
    dsimp only
    by_cases hc : c = code
    · subst hc
      split
      · rw [Dict.get?_erase, if_pos rfl]
        simp
        omega
      · rw [Dict.get?_set_self]
        simp
        omega
    · split
      · rw [Dict.get?_erase, if_neg hc]
        simp [LedgerState.held, Ne.symm hc]
      · rw [Dict.get?_set_of_ne hc]
        simp [LedgerState.held, Ne.symm hc]
  · have hnonTrade : nonTrade [t] = 0 := by
      rw [nonTrade, List.map_singleton, List.sum_singleton, htype]
      rfl
    rw [hnonTrade, add_zero, LedgerState.worth, LedgerState.worth, LedgerState.sold]
    dsimp only
    split
    · next hall =>
        -- All the shares go, and all of their cost with them.
        have hcost : s.soldCost code t = s.cost code := by
          have heq : t.quantity = s.held code := by omega
          have hne : (s.held code : ℚ) ≠ 0 := by
            exact_mod_cast hpositive.ne'
          rw [LedgerState.soldCost, heq, div_self hne, mul_one]
        have hsum := s.cost_sum_erase code
        rw [hcost]
        linarith
    · have hsum := s.cost_sum_set code (s.cost code - s.soldCost code t)
      linarith

theorem applied_spec (hs : Sound s) (ht : Valid t) :
    (∃ s', applied s t = .ok s' ∧ Folds [t] s s' ∧ ∀ code, moved .sell code [t] ≤ s.held code) ∨
      (∃ message, applied s t = .error (.value message)) ∧
        t.transactionType = .sell ∧ ∃ code, s.held code < moved .sell code [t] := by
  by_cases htrade : isTrade t.transactionType = true
  · obtain ⟨code, hcode, hquantity, -, hbuy⟩ := ht.trade htrade
    cases htype : t.transactionType with
    | buy =>
        refine .inl ⟨s.bought code t, ?_, bought_folds hs htype hcode hquantity
          (hbuy htype), fun c => ?_⟩
        · simp [applied, htype, requireCode, hcode, need, bind, Except.bind, pure,
            Except.pure]
        · have hheld := hs.held_nonneg c
          simpa [moved, htype] using hheld
    | sell =>
        by_cases henough : t.quantity ≤ s.held code
        · have hpositive : s.held code ≠ 0 := by omega
          refine .inl ⟨s.sold code t, ?_, sold_folds hs htype hcode hquantity henough,
            fun c => ?_⟩
          · simp [applied, htype, requireCode, hcode, need, refuse, bind, Except.bind,
              pure, Except.pure, not_lt.mpr henough, hpositive]
          · have hheld := hs.held_nonneg c
            rw [moved_one, htype, hcode]
            split
            · next hc =>
                have : code = c := by simpa using hc
                rwa [← this]
            · exact hheld
        · refine .inr ⟨⟨s!"cannot sell {t.quantity} shares of {code}; only {s.held code} held",
            ?_⟩, rfl, code, ?_⟩
          · rw [applied, htype]
            simp only [requireCode, hcode, need, refuse, bind, Except.bind,
              if_pos (not_le.mp henough)]
          · rw [moved_one, htype, hcode]
            simpa using henough
    | cashDeposit => rw [htype] at htrade; cases htrade
    | cashWithdrawal => rw [htype] at htrade; cases htrade
    | fee => rw [htype] at htrade; cases htrade
    | tax => rw [htype] at htrade; cases htrade
  · rw [Bool.not_eq_true] at htrade
    have hmoved : ∀ type code, isTrade type = true → moved type code [t] = 0 := by
      intro type code htype
      have hne : t.transactionType ≠ type := by
        rintro rfl
        rw [htrade] at htype
        cases htype
      simp [moved, hne]
    have happlied : applied s t = .ok { s with cash := s.cash + t.amount } := by
      unfold applied
      split
      · rfl
      · rfl
      · rfl
      · rfl
      · next htype => rw [htype] at htrade; cases htrade
      · next htype => rw [htype] at htrade; cases htrade
    refine .inl ⟨_, happlied, ⟨⟨hs.positive, hs.keys⟩, fun code => ?_, ?_⟩,
      fun code => ?_⟩
    · show s.held code = s.held code + net code [t]
      rw [net, hmoved .buy code rfl, hmoved .sell code rfl]
      omega
    · rw [nonTrade, List.map_singleton, List.sum_singleton, htrade]
      simp only [LedgerState.worth, Bool.false_eq_true, if_false]
      ring
    · rw [hmoved .sell code rfl]
      exact hs.held_nonneg code

/-! ## A list in one order -/

theorem applyEach_spec (hs : Sound s) (hl : ∀ t ∈ l, Valid t) :
    (∃ s', applyEach l s = (.ok (), s') ∧ Folds l s s') ∨
      ∃ message s', applyEach l s = (.error (.value message), s') := by
  induction l generalizing s with
  | nil => exact .inl ⟨s, rfl, .nil hs⟩
  | cons t rest ih =>
      have hrest : ∀ x ∈ rest, Valid x := fun x hx => hl x (List.mem_cons_of_mem t hx)
      rcases applied_spec hs (hl t List.mem_cons_self) with
        ⟨s', happlied, hone, -⟩ | ⟨⟨message, happlied⟩, -⟩
      · have hstep : applyEach (t :: rest) s = applyEach rest s' := by
          simp only [applyEach, applySingleTransaction, happlied]
        rw [hstep]
        rcases ih hone.sound hrest with ⟨s'', hrun, hfolds⟩ | hfailed
        · exact .inl ⟨s'', hrun, hone.append hfolds⟩
        · exact .inr hfailed
      · refine .inr ⟨message, s, ?_⟩
        simp only [applyEach, applySingleTransaction, happlied]

theorem applyEach_salesLast (hs : Sound s) (hl : ∀ t ∈ l, Valid t)
    (horder : l.Pairwise fun a b => a.transactionType = .sell → b.transactionType = .sell)
    (hcovers : ∀ code, moved .sell code l ≤ s.held code + moved .buy code l) :
    ∃ s', applyEach l s = (.ok (), s') := by
  induction l generalizing s with
  | nil => exact ⟨s, rfl⟩
  | cons t rest ih =>
      have hrest : ∀ x ∈ rest, Valid x := fun x hx => hl x (List.mem_cons_of_mem t hx)
      obtain ⟨hafter, horder⟩ := List.pairwise_cons.mp horder
      rcases applied_spec hs (hl t List.mem_cons_self) with
        ⟨s', happlied, hone, -⟩ | ⟨-, hsale, code, hshort⟩
      · have hstep : applyEach (t :: rest) s = applyEach rest s' := by
          simp only [applyEach, applySingleTransaction, happlied]
        rw [hstep]
        refine ih hone.sound hrest horder fun code => ?_
        have hcode := hcovers code
        have hheld := hone.held code
        rw [moved_cons, moved_cons .buy] at hcode
        rw [net] at hheld
        omega
      · -- A sale is followed by sales alone, so nothing is bought any more.
        exfalso
        have hcode := hcovers code
        have hbought : moved .buy code (t :: rest) = 0 := by
          rw [moved]
          refine List.sum_eq_zero fun q hq => ?_
          obtain ⟨x, hx, rfl⟩ := List.mem_map.mp hq
          have hxsale : x.transactionType = .sell := by
            rcases List.mem_cons.mp hx with rfl | hx
            · exact hsale
            · exact hafter x hx hsale
          simp [hxsale]
        have hsold := moved_nonneg .sell code hrest
        rw [hbought, moved_cons] at hcode
        omega

/-! ## A day -/

variable {day : List LedgerTransaction}

def DayCovered (held : String → ℤ) (day : List LedgerTransaction) : Prop :=
  ∀ code, moved .sell code day ≤ held code + moved .buy code day

theorem Folds.covered {s' : LedgerState} (h : Folds day s s') : DayCovered s.held day := by
  intro code
  have hheld := h.held code
  have hafter := h.sound.held_nonneg code
  rw [net] at hheld
  omega

theorem fallbackOrder_perm (day : List LedgerTransaction) : (fallbackOrder day).Perm day :=
  List.perm_insertionSort _ _

theorem fallbackOrder_salesLast (day : List LedgerTransaction) :
    (fallbackOrder day).Pairwise fun a b =>
      a.transactionType = .sell → b.transactionType = .sell := by
  have hsorted : (fallbackOrder day).Pairwise fun a b =>
      (toLex (decide (a.transactionType = .sell), a.transactionId) : Bool ×ₗ String)
        ≤ toLex (decide (b.transactionType = .sell), b.transactionId) :=
    List.pairwise_insertionSort _ _
  refine hsorted.imp fun {a b} hle ha => ?_
  rw [Prod.Lex.toLex_le_toLex, decide_eq_true ha] at hle
  by_contra hb
  rw [decide_eq_false hb] at hle
  rcases hle with hlt | ⟨heq, -⟩
  · cases (show ¬ (true : Bool) < false by decide) hlt
  · cases heq

theorem tallied_walk (type : TransactionType) (htype : isTrade type = true)
    (hl : ∀ t ∈ l, Valid t) (d : Dict String ℤ) :
    ∃ d', walk (tallied type) d l = .ok d' ∧
      ∀ code, (d'.get? code).getD 0 = (d.get? code).getD 0 + moved type code l := by
  induction l generalizing d with
  | nil => exact ⟨d, rfl, fun code => by simp⟩
  | cons t rest ih =>
      have hrest : ∀ x ∈ rest, Valid x := fun x hx => hl x (List.mem_cons_of_mem t hx)
      by_cases ht : t.transactionType = type
      · obtain ⟨code, hcode, -⟩ := (hl t List.mem_cons_self).trade (by rw [ht]; exact htype)
        obtain ⟨d', hwalk, hcount⟩ :=
          ih hrest (d.set code ((d.get? code).getD 0 + t.quantity))
        refine ⟨d', walk_cons_ok.mpr ⟨_, ?_, hwalk⟩, fun c => ?_⟩
        · simp [tallied, ht, requireCode, hcode, need, bind, Except.bind, pure, Except.pure]
        · rw [hcount, moved_cons, moved_one, Dict.get?_set, hcode, ht]
          by_cases hc : c = code
          · subst hc
            simp [add_assoc]
          · simp [hc, Ne.symm hc]
      · obtain ⟨d', hwalk, hcount⟩ := ih hrest d
        refine ⟨d', walk_cons_ok.mpr ⟨d, ?_, hwalk⟩, fun c => ?_⟩
        · rw [tallied, if_neg ht]
        · rw [hcount, moved_cons, moved_one]
          simp [ht]

theorem sameDayNetAvailable_spec (hs : Sound s) (hday : ∀ t ∈ day, Valid t) :
    ∃ b, sameDayNetAvailable s day = .ok b ∧ (b = true ↔ DayCovered s.held day) := by
  obtain ⟨buys, hbuys, hbought⟩ := tallied_walk .buy rfl hday Dict.empty
  obtain ⟨sells, hsells, hsold⟩ := tallied_walk .sell rfl hday Dict.empty
  refine ⟨sells.entries.all fun e =>
    decide (e.2 ≤ s.held e.1 + (buys.get? e.1).getD 0), ?_, ?_⟩
  · simp only [sameDayNetAvailable, hbuys, hsells, bind, Except.bind, pure, Except.pure]
  · rw [List.all_eq_true]
    simp only [decide_eq_true_eq, Dict.get?_empty, Option.getD_none, zero_add] at hbought hsold ⊢
    constructor
    · intro hall code
      rw [← hsold, ← hbought]
      cases hget : sells.get? code with
      | none =>
          have hheld := hs.held_nonneg code
          have hnonneg := moved_nonneg .buy code hday
          rw [hbought, Option.getD_none]
          omega
      | some q => exact hall (code, q) (Dict.mem_entries.mpr hget)
    · intro hcovered e he
      have hget := Dict.mem_entries.mp he
      have hcode := hcovered e.1
      rw [← hsold, ← hbought, hget, Option.getD_some] at hcode
      exact hcode

theorem applySameDay_spec (hs : Sound s) (hday : ∀ t ∈ day, Valid t) :
    (DayCovered s.held day ∧ ∃ s', applySameDayTransactions day s = (.ok (), s') ∧ Folds day s s') ∨
      (¬ DayCovered s.held day ∧ ∃ e, applySameDayTransactions day s = (.error e, s)) := by
  rcases applyEach_spec hs hday with ⟨s', hrun, hfolds⟩ | ⟨message, left, hfailed⟩
  · refine .inl ⟨hfolds.covered, s', ?_, hfolds⟩
    rw [applySameDayTransactions, hrun]
  · obtain ⟨b, hnet, hb⟩ := sameDayNetAvailable_spec hs hday
    by_cases hcovered : DayCovered s.held day
    · have hperm := fallbackOrder_perm day
      have hvalid : ∀ t ∈ fallbackOrder day, Valid t := fun t ht =>
        hday t (hperm.mem_iff.mp ht)
      obtain ⟨s', hrun⟩ := applyEach_salesLast hs hvalid (fallbackOrder_salesLast day)
        fun code => by
          rw [moved_perm hperm, moved_perm hperm]
          exact hcovered code
      refine .inl ⟨hcovered, s', ?_, ?_⟩
      · rw [applySameDayTransactions, hfailed]
        dsimp only
        rw [hnet, hb.mpr hcovered]
        dsimp only
        rw [applyFallback, hrun]
      · rcases applyEach_spec hs hvalid with ⟨s'', hrun', hfolds⟩ | ⟨_, _, hfailed'⟩
        · rw [hrun] at hrun'
          cases hrun'
          exact hfolds.perm hperm
        · rw [hrun] at hfailed'
          cases hfailed'
    · refine .inr ⟨hcovered, .value message, ?_⟩
      rw [applySameDayTransactions, hfailed]
      dsimp only
      have hfalse : b = false := by
        rw [← Bool.not_eq_true]
        exact fun h => hcovered (hb.mp h)
      rw [hnet, hfalse]

/-! ## Days in order -/

def onDay (d : Date) (l : List LedgerTransaction) : List LedgerTransaction :=
  l.filter fun t => t.tradeDate = d

def beforeDay (d : Date) (l : List LedgerTransaction) : List LedgerTransaction :=
  l.filter fun t => t.tradeDate < d

def Covered (held : String → ℤ) (l : List LedgerTransaction) : Prop :=
  ∀ d, DayCovered (fun code => held code + net code (beforeDay d l)) (onDay d l)

theorem covered_append {held : String → ℤ} {later : List LedgerTransaction} {d : Date}
    (hheld : ∀ code, 0 ≤ held code) (hday : ∀ t ∈ day, t.tradeDate = d)
    (hlater : ∀ t ∈ later, d < t.tradeDate) :
    Covered held (day ++ later) ↔
      DayCovered held day ∧ Covered (fun code => held code + net code day) later := by
  have hon : ∀ d', onDay d' (day ++ later)
      = if d' = d then day else onDay d' later := by
    intro d'
    rw [onDay, List.filter_append]
    split
    · next h =>
        subst h
        rw [List.filter_eq_self.mpr (by simpa using hday), List.filter_eq_nil_iff.mpr,
          List.append_nil]
        intro t ht
        simpa using (hlater t ht).ne'
    · next h =>
        rw [List.filter_eq_nil_iff.mpr, List.nil_append]
        · rfl
        · intro t ht
          rw [hday t ht]
          simpa using Ne.symm h
  have hbefore : ∀ d', beforeDay d' (day ++ later)
      = (if d < d' then day else []) ++ beforeDay d' later := by
    intro d'
    rw [beforeDay, List.filter_append]
    congr 1
    split
    · next h => exact List.filter_eq_self.mpr fun t ht => by simpa [hday t ht] using h
    · next h =>
        refine List.filter_eq_nil_iff.mpr fun t ht => ?_
        rw [hday t ht]
        simpa using h
  have hnone : ∀ d', ¬ d < d' → beforeDay d' later = [] ∧ (d' ≠ d → onDay d' later = []) := by
    intro d' hd
    refine ⟨List.filter_eq_nil_iff.mpr fun t ht => ?_,
      fun hne => List.filter_eq_nil_iff.mpr fun t ht => ?_⟩
    · rw [decide_eq_true_eq]
      exact fun h => hd ((hlater t ht).trans h)
    · rw [decide_eq_true_eq]
      rintro rfl
      exact hd (hlater t ht)
  constructor
  · intro h
    have hfirst : DayCovered held day := by
      intro code
      have hcode := h d code
      rw [hon, if_pos rfl, hbefore, if_neg (lt_irrefl d), (hnone d (lt_irrefl d)).1] at hcode
      simpa [net] using hcode
    refine ⟨hfirst, fun d' code => ?_⟩
    by_cases hd : d < d'
    · have hcode := h d' code
      rw [hon, if_neg (ne_of_gt hd), hbefore, if_pos hd] at hcode
      simp only [net, moved_append] at hcode ⊢
      omega
    · have hcode := hfirst code
      have hempty : onDay d' later = [] := by
        refine List.filter_eq_nil_iff.mpr fun t ht => ?_
        rw [decide_eq_true_eq]
        rintro rfl
        exact hd (hlater t ht)
      simp only [hempty, (hnone d' hd).1, net, moved_nil]
      omega
  · rintro ⟨hfirst, hrest⟩ d' code
    rw [hon, hbefore]
    by_cases heq : d' = d
    · subst heq
      have hcode := hfirst code
      rw [if_pos rfl, if_neg (lt_irrefl d'), (hnone d' (lt_irrefl d')).1]
      simpa [net] using hcode
    · rw [if_neg heq]
      by_cases hd : d < d'
      · have hcode := hrest d' code
        rw [if_pos hd]
        simp only [net, moved_append] at hcode ⊢
        omega
      · have hcode := hheld code
        rw [if_neg hd, (hnone d' hd).1, (hnone d' hd).2 heq]
        simpa [net] using hcode

theorem applyDays_day {d : Date} {rest : List LedgerTransaction} (hne : day ≠ []) :
    applyDays (some d) day rest s =
      match applySameDayTransactions (day ++ rest.takeWhile (·.tradeDate = d)) s with
      | (.ok (), s') =>
          match rest.dropWhile (·.tradeDate = d) with
          | [] => (.ok (), s')
          | t :: more => applyDays (some t.tradeDate) [t] more s'
      | (.error e, s') => (.error e, s') := by
  induction rest generalizing day with
  | nil =>
      rw [List.takeWhile_nil, List.dropWhile_nil, List.append_nil]
      show (if day = [] then (.ok (), s) else applySameDayTransactions day s) = _
      rw [if_neg hne]
      rcases applySameDayTransactions day s with ⟨_ | ⟨⟨⟩⟩, s'⟩ <;> rfl
  | cons t rest ih =>
      rw [applyDays]
      beta_reduce
      by_cases ht : t.tradeDate = d
      · rw [if_pos (show (some d).getD t.tradeDate = t.tradeDate from ht.symm),
          List.takeWhile_cons_of_pos (by simpa using ht),
          List.dropWhile_cons_of_pos (by simpa using ht)]
        rw [Option.getD_some, ih (by simp), List.append_assoc, List.singleton_append]
      · rewrite [if_neg (show ¬ (some d).getD t.tradeDate = t.tradeDate from fun h => ht h.symm),
          List.takeWhile_cons_of_neg (by simpa using ht),
          List.dropWhile_cons_of_neg (by simpa using ht), List.append_nil]
        rcases applySameDayTransactions day s with ⟨_ | ⟨⟨⟩⟩, s'⟩ <;> rfl

theorem applyDays_spec (hs : Sound s) (hvalid : ∀ x ∈ t :: l, Valid x)
    (hsorted : (t :: l).Pairwise fun a b => a.tradeDate ≤ b.tradeDate) :
    (Covered s.held (t :: l) ∧
        ∃ s', applyDays (some t.tradeDate) [t] l s = (.ok (), s') ∧ Folds (t :: l) s s') ∨
      (¬ Covered s.held (t :: l) ∧
        ∃ e s', applyDays (some t.tradeDate) [t] l s = (.error e, s')) := by
  induction hlength : l.length using Nat.strong_induction_on generalizing l t s with
  | _ n ih =>
      obtain ⟨hfirst, hrest⟩ := List.pairwise_cons.mp hsorted
      have hsplit : t :: l = (t :: l.takeWhile (·.tradeDate = t.tradeDate))
          ++ l.dropWhile (·.tradeDate = t.tradeDate) := by
        rw [List.cons_append, List.takeWhile_append_dropWhile]
      have hday : ∀ x ∈ t :: l.takeWhile (·.tradeDate = t.tradeDate),
          x.tradeDate = t.tradeDate := by
        intro x hx
        rcases List.mem_cons.mp hx with rfl | hx
        · rfl
        · simpa using List.mem_takeWhile_imp hx
      have hlater : ∀ x ∈ l.dropWhile (·.tradeDate = t.tradeDate),
          t.tradeDate < x.tradeDate := by
        intro x hx
        have hdropped := hrest.sublist (List.dropWhile_sublist (·.tradeDate = t.tradeDate))
        cases hdrop : l.dropWhile (·.tradeDate = t.tradeDate) with
        | nil => rw [hdrop] at hx; cases hx
        | cons y ys =>
            have hy : ¬ y.tradeDate = t.tradeDate := by
              have hhead := List.head_dropWhile_not (p := (·.tradeDate = t.tradeDate))
                (l := l) (by rw [hdrop]; simp)
              simpa [hdrop] using hhead
            have hty : t.tradeDate ≤ y.tradeDate := hfirst y
              (List.dropWhile_subset _ (by rw [hdrop]; exact List.mem_cons_self))
            rw [hdrop] at hx hdropped
            have hyx : y.tradeDate ≤ x.tradeDate := by
              rcases List.mem_cons.mp hx with rfl | hx
              · exact le_refl _
              · exact (List.pairwise_cons.mp hdropped).1 x hx
            show (t.tradeDate : ℤ) < x.tradeDate
            have hlt : (t.tradeDate : ℤ) < y.tradeDate := lt_of_le_of_ne hty (Ne.symm hy)
            exact lt_of_lt_of_le hlt hyx
      have hcovered := covered_append hs.held_nonneg hday hlater
      rw [← hsplit] at hcovered
      rw [hcovered, applyDays_day (by simp), List.singleton_append]
      have hvalidDay : ∀ x ∈ t :: l.takeWhile (·.tradeDate = t.tradeDate), Valid x :=
        fun x hx => hvalid x (by rw [hsplit]; exact List.mem_append_left _ hx)
      rcases applySameDay_spec hs hvalidDay with ⟨hcover, s', hrun, hfolds⟩ |
        ⟨hshort, e, hrun⟩
      · rw [hrun]
        dsimp only
        have hheld : (fun code => s.held code
            + net code (t :: l.takeWhile (·.tradeDate = t.tradeDate))) = s'.held :=
          funext fun code => (hfolds.held code).symm
        rw [hheld]
        cases hdrop : l.dropWhile (·.tradeDate = t.tradeDate) with
        | nil =>
            refine .inl ⟨⟨hcover, fun d code => ?_⟩, s', rfl, ?_⟩
            · have hafter := hfolds.sound.held_nonneg code
              simpa [onDay, beforeDay, net] using hafter
            · rw [hsplit, hdrop, List.append_nil]
              exact hfolds
        | cons y ys =>
            dsimp only
            have hlen : ys.length < n := by
              have hle := (List.dropWhile_sublist
                (·.tradeDate = t.tradeDate) (l := l)).length_le
              rw [hdrop, List.length_cons] at hle
              omega
            have hmem : ∀ x ∈ y :: ys, x ∈ l := fun x hx =>
              List.dropWhile_subset _ (by rw [hdrop]; exact hx)
            have hsortedRest : (y :: ys).Pairwise fun a b => a.tradeDate ≤ b.tradeDate := by
              rw [← hdrop]
              exact hrest.sublist (List.dropWhile_sublist _)
            rcases ih ys.length hlen hfolds.sound
              (fun x hx => hvalid x (List.mem_cons_of_mem t (hmem x hx))) hsortedRest rfl
              with ⟨hrestCovered, s'', hrun', hfolds'⟩ | ⟨hrestShort, e, s'', hrun'⟩
            · refine .inl ⟨⟨hcover, hrestCovered⟩, s'', hrun', ?_⟩
              rw [hsplit, hdrop]
              exact hfolds.append hfolds'
            · exact .inr ⟨fun h => hrestShort h.2, e, s'', hrun'⟩
      · rw [hrun]
        exact .inr ⟨fun h => hshort h.1, e, s, rfl⟩

theorem applyTransactions_spec (hvalid : ∀ t ∈ l, Valid t)
    (hsorted : l.Pairwise fun a b => a.tradeDate ≤ b.tradeDate) :
    (Covered (fun _ => 0) l ∧ ∃ s, applyTransactions l = .ok s ∧ Folds l LedgerState.new s) ∨
      (¬ Covered (fun _ => 0) l ∧ ∃ e, applyTransactions l = .error e) := by
  cases l with
  | nil =>
      refine .inl ⟨fun d code => le_refl _, LedgerState.new, rfl, .nil .new⟩
  | cons t l =>
      have hopen : applyDays none [] (t :: l) LedgerState.new
          = applyDays (some t.tradeDate) [t] l LedgerState.new := by
        rw [applyDays]
        beta_reduce
        rw [if_pos (show (none : Option Date).getD t.tradeDate = t.tradeDate from rfl)]
        rfl
      have hheld : LedgerState.new.held = fun _ => 0 := rfl
      rcases applyDays_spec Sound.new hvalid hsorted with
        ⟨hcovered, s, hrun, hfolds⟩ | ⟨hshort, e, s, hrun⟩
      · rw [hheld] at hcovered
        refine .inl ⟨hcovered, s, ?_, hfolds⟩
        rw [applyTransactions, hopen, hrun]
      · rw [hheld] at hshort
        refine .inr ⟨hshort, e, ?_⟩
        rw [applyTransactions, hopen, hrun]

/-! ## The law of the fold -/

structure FoldLaw (l : List LedgerTransaction) : Prop where
  succeeds : (∃ s, applyTransactions l = .ok s) ↔
    ∀ d code, moved .sell code (onDay d l)
      ≤ net code (beforeDay d l) + moved .buy code (onDay d l)
  quantities : ∀ s, applyTransactions l = .ok s → ∀ code,
    (s.positions.get? code).getD 0 = moved .buy code l - moved .sell code l
  positive : ∀ s, applyTransactions l = .ok s → ∀ code,
    (s.positions.get? code).isSome = true ↔ 0 < moved .buy code l - moved .sell code l
  keys : ∀ s, applyTransactions l = .ok s → s.positions.keys = s.costBasis.keys
  conserved : ∀ s, applyTransactions l = .ok s →
    s.cash + s.costBasis.sum (fun _ cost => cost) - s.realizedPnl = nonTrade l
  restored : ∀ day s e left, applyEach day s = (.error e, left) →
    applySameDayTransactions day s = applyEach (fallbackOrder day) s ∨
      (applySameDayTransactions day s).2 = s
  unchanged : ∀ day s e, (applySameDayTransactions day s).1 = .error e →
    (applySameDayTransactions day s).2 = s

theorem applyFallback_cases (day : List LedgerTransaction) (s : LedgerState) :
    (∃ s', applyEach (fallbackOrder day) s = (.ok (), s') ∧ applyFallback day s = (.ok (), s')) ∨
      ∃ e, applyFallback day s = (.error e, s) := by
  unfold applyFallback
  rcases applyEach (fallbackOrder day) s with ⟨e | ⟨⟨⟩⟩, s'⟩
  · exact .inr ⟨e, rfl⟩
  · exact .inl ⟨s', rfl, rfl⟩

theorem applySameDay_restores {left : LedgerState} {e : LedgerError}
    (h : applyEach day s = (.error e, left)) :
    (∃ s', applyEach (fallbackOrder day) s = (.ok (), s') ∧
        applySameDayTransactions day s = (.ok (), s')) ∨
      ∃ e', applySameDayTransactions day s = (.error e', s) := by
  unfold applySameDayTransactions
  rw [h]
  cases e with
  | value message =>
      dsimp only
      cases sameDayNetAvailable s day with
      | error e' => exact .inr ⟨e', rfl⟩
      | ok b =>
          cases b with
          | false => exact .inr ⟨.value message, rfl⟩
          | true => exact applyFallback_cases day s
  | zeroDivision => exact .inr ⟨_, rfl⟩
  | missingKey key => exact .inr ⟨_, rfl⟩
  | overflow => exact .inr ⟨_, rfl⟩
  | capacity message => exact .inr ⟨_, rfl⟩
  | conflict message => exact .inr ⟨_, rfl⟩

theorem Sound.keys_eq (h : Sound s) : s.positions.keys = s.costBasis.keys := by
  have hperm : s.positions.keys.Perm s.costBasis.keys := by
    refine (List.perm_ext_iff_of_nodup s.positions.keys_nodup s.costBasis.keys_nodup).mpr
      fun code => ?_
    rw [Dict.mem_keys, Dict.mem_keys, ← Option.isSome_iff_exists,
      ← Option.isSome_iff_exists, h.keys]
  refine List.Perm.eq_of_pairwise (fun a b _ _ hab hba => ?_) s.positions.keys_sorted
    s.costBasis.keys_sorted hperm
  exact absurd (hab.trans hba) (lt_irrefl a)

/-- Folding a sorted ledger of valid transactions succeeds exactly when every
day has the shares it sells, and moves nothing but what was traded. -/
theorem ledger_fold_exact {l : List LedgerTransaction} (hvalid : ∀ t ∈ l, Valid t)
    (hsorted : l.Pairwise fun a b =>
      ledgerTransactionSortKey a ≤ ledgerTransactionSortKey b) : FoldLaw l := by
  have hdates : l.Pairwise fun a b => a.tradeDate ≤ b.tradeDate :=
    hsorted.imp fun {a b} hab => by
      rcases Prod.Lex.toLex_le_toLex.mp hab with hlt | ⟨heq, -⟩
      · exact hlt.le
      · exact heq.le
  have hspec := applyTransactions_spec hvalid hdates
  have hfolds : ∀ s, applyTransactions l = .ok s → Folds l LedgerState.new s := by
    intro s hs
    rcases hspec with ⟨-, s', hrun, hfolds⟩ | ⟨-, e, hrun⟩
    · rw [hs] at hrun
      cases hrun
      exact hfolds
    · rw [hs] at hrun
      cases hrun
  have hheld : ∀ s, applyTransactions l = .ok s → ∀ code,
      s.held code = moved .buy code l - moved .sell code l := by
    intro s hs code
    rw [(hfolds s hs).held, net]
    exact zero_add _
  constructor
  case succeeds =>
    constructor
    · rintro ⟨s, hs⟩ d code
      rcases hspec with ⟨hcovered, -⟩ | ⟨-, e, hrun⟩
      · have hcode := hcovered d code
        dsimp only at hcode
        omega
      · rw [hs] at hrun
        cases hrun
    · intro hcovered
      rcases hspec with ⟨-, s, hrun, -⟩ | ⟨hshort, -⟩
      · exact ⟨s, hrun⟩
      · refine absurd (fun d code => ?_) hshort
        have hcode := hcovered d code
        dsimp only
        omega
  case quantities => exact hheld
  case positive =>
    intro s hs code
    rw [← hheld s hs code, LedgerState.held]
    cases hget : s.positions.get? code with
    | none => simp
    | some q => simpa using (hfolds s hs).sound.positive code q hget
  case keys => exact fun s hs => (hfolds s hs).sound.keys_eq
  case conserved =>
    intro s hs
    have hworth := (hfolds s hs).worth
    have hnew : LedgerState.new.worth = 0 := by
      simp [LedgerState.worth, LedgerState.new, Dict.sum_empty]
    rw [hnew, zero_add] at hworth
    exact hworth
  case restored =>
    intro day s e left hfailed
    rcases applySameDay_restores hfailed with ⟨s', hrun, hday⟩ | ⟨e', hday⟩
    · exact .inl (by rw [hday, hrun])
    · exact .inr (by rw [hday])
  case unchanged =>
    intro day s e hfailed
    rcases hrun : applyEach day s with ⟨e' | ⟨⟨⟩⟩, left⟩
    · rcases applySameDay_restores hrun with ⟨s', -, hday⟩ | ⟨e'', hday⟩
      · rw [hday] at hfailed
        cases hfailed
      · rw [hday]
    · rw [applySameDayTransactions, hrun] at hfailed
      cases hfailed

def sampleLedger : List LedgerTransaction := [
  ⟨"a1", 10, .cashDeposit, none, 0, 0, 5000, 0⟩,
  ⟨"a2", 10, .buy, some "600000", 100, 10, -1000, 5⟩,
  ⟨"b1", 11, .sell, some "600000", 150, 12, 1800, 6⟩,
  ⟨"b2", 11, .buy, some "600000", 100, 11, -1100, 5⟩]

example : ((applyTransactions sampleLedger).toOption.map fun s => s.held "600000")
    = some 50 := by decide +kernel

theorem ledger_fold_exact_sample : FoldLaw sampleLedger :=
  ledger_fold_exact (by unfold Valid; decide +kernel)
    (by unfold sampleLedger; decide +kernel)

end Ahunter.Ledger
