import Ahunter.Lib.Sorting
import Ahunter.Proofs.LedgerFold

/-!
# Each security on its own

A trade reads and writes the shares and the cost of its own code, so a ledger
leaves of a code what the code's own transactions leave, taken in the order
they were applied in. That order is the ledger's: a day that does not go
through by its identities is tried again with every sale last, the sales of
the codes that were not short among them. So the position of a code is that of
its own ledger always, its cost and its profit where the second attempt finds
its day no other than its own ledger does.
-/

namespace Ahunter.Ledger

open Ahunter.Lib
open Ahunter.Sim (Date)

/-! ## The order a ledger is applied in -/

variable {t : LedgerTransaction} {l : List LedgerTransaction}

def dayOrder (day : List LedgerTransaction) (s : LedgerState) : List LedgerTransaction :=
  match applyEach day s with
  | (.ok (), _) => day
  | (.error _, _) => fallbackOrder day

/-- What the loop of `apply_transactions` applies, in the order it does. -/
def orderedDays (active : Option Date) (day : List LedgerTransaction) :
    List LedgerTransaction → LedgerState → List LedgerTransaction
  | [] => dayOrder day
  | t :: rest => fun s =>
      if active.getD t.tradeDate = t.tradeDate then
        orderedDays (some (active.getD t.tradeDate)) (day ++ [t]) rest s
      else
        dayOrder day s ++
          orderedDays (some t.tradeDate) [t] rest (applySameDayTransactions day s).2

/-- The transactions of a ledger in the order `apply_transactions` applies them. -/
def appliedOrder (l : List LedgerTransaction) : List LedgerTransaction :=
  orderedDays none [] l LedgerState.new

def ownOf (code : String) (l : List LedgerTransaction) : List LedgerTransaction :=
  l.filter fun t => t.code = some code

def realizedOver (code : String) : List LedgerTransaction → LedgerState → ℚ
  | [], _ => 0
  | t :: rest, s =>
      match applied s t with
      | .ok s' =>
          (if t.code = some code then s'.realizedPnl - s.realizedPnl else 0)
            + realizedOver code rest s'
      | .error _ => 0

theorem ownOf_append (code : String) (l m : List LedgerTransaction) :
    ownOf code (l ++ m) = ownOf code l ++ ownOf code m :=
  List.filter_append l m

variable {code : String}

theorem ownOf_cons_own (h : t.code = some code) (l : List LedgerTransaction) :
    ownOf code (t :: l) = t :: ownOf code l :=
  List.filter_cons_of_pos (decide_eq_true h)

theorem ownOf_cons_other (h : t.code ≠ some code) (l : List LedgerTransaction) :
    ownOf code (t :: l) = ownOf code l :=
  List.filter_cons_of_neg (by simpa using h)

theorem mem_ownOf (h : t ∈ ownOf code l) : t ∈ l :=
  (List.mem_filter.mp h).1

/-! ## Two states at one code -/

variable {s u s' : LedgerState}

structure Agrees (code : String) (s u : LedgerState) : Prop where
  positions : s.positions.get? code = u.positions.get? code
  cost : s.costBasis.get? code = u.costBasis.get? code

theorem Agrees.refl (code : String) (s : LedgerState) : Agrees code s s := ⟨rfl, rfl⟩

theorem Agrees.trans {t : LedgerState} (h : Agrees code s t)
    (h' : Agrees code t u) : Agrees code s u :=
  ⟨h.positions.trans h'.positions, h.cost.trans h'.cost⟩

theorem Agrees.held (h : Agrees code s u) : s.held code = u.held code := by
  rw [LedgerState.held, h.positions, LedgerState.held]

theorem Agrees.costOf (h : Agrees code s u) : s.cost code = u.cost code := by
  rw [LedgerState.cost, h.cost, LedgerState.cost]

theorem Agrees.bought (h : Agrees code s u) (t : LedgerTransaction) :
    Agrees code (s.bought code t) (u.bought code t) := by
  constructor
  · simp only [LedgerState.bought, Dict.get?_set, h.held, if_true]
  · simp only [LedgerState.bought, Dict.get?_set, h.costOf, if_true]

theorem Agrees.sold (h : Agrees code s u) (t : LedgerTransaction) :
    Agrees code (s.sold code t) (u.sold code t) := by
  constructor
  · simp only [LedgerState.sold, h.held]
    split
    · rw [Dict.get?_erase, Dict.get?_erase, if_pos rfl, if_pos rfl]
    · rw [Dict.get?_set, Dict.get?_set, if_pos rfl, if_pos rfl]
  · simp only [LedgerState.sold, LedgerState.soldCost, h.held, h.costOf]
    split
    · rw [Dict.get?_erase, Dict.get?_erase, if_pos rfl, if_pos rfl]
    · rw [Dict.get?_set, Dict.get?_set, if_pos rfl, if_pos rfl]

theorem bought_other {code other : String} (h : other ≠ code) (s : LedgerState)
    (t : LedgerTransaction) : Agrees code (s.bought other t) s := by
  constructor
  · rw [LedgerState.bought, Dict.get?_set, if_neg h.symm]
  · rw [LedgerState.bought, Dict.get?_set, if_neg h.symm]

theorem sold_other {code other : String} (h : other ≠ code) (s : LedgerState)
    (t : LedgerTransaction) : Agrees code (s.sold other t) s := by
  constructor
  · simp only [LedgerState.sold]
    split
    · rw [Dict.get?_erase, if_neg h.symm]
    · rw [Dict.get?_set, if_neg h.symm]
  · simp only [LedgerState.sold]
    split
    · rw [Dict.get?_erase, if_neg h.symm]
    · rw [Dict.get?_set, if_neg h.symm]

theorem applied_cash (h : isTrade t.transactionType = false) (s : LedgerState) :
    applied s t = .ok { s with cash := s.cash + t.amount } := by
  unfold applied
  cases htype : t.transactionType with
  | buy => rw [htype] at h; cases h
  | sell => rw [htype] at h; cases h
  | cashDeposit => rfl
  | cashWithdrawal => rfl
  | fee => rfl
  | tax => rfl

theorem applied_cases (h : applied s t = .ok s') :
    (isTrade t.transactionType = false ∧ s' = { s with cash := s.cash + t.amount }) ∨
      ∃ code, t.code = some code ∧
        ((t.transactionType = .buy ∧ s' = s.bought code t) ∨
          (t.transactionType = .sell ∧ ¬ s.held code < t.quantity ∧ s.held code ≠ 0 ∧
            s' = s.sold code t)) := by
  by_cases htrade : isTrade t.transactionType = false
  · rw [applied_cash htrade] at h
    cases h
    exact .inl ⟨htrade, rfl⟩
  · unfold applied at h
    cases htype : t.transactionType with
    | buy =>
        simp only [htype, requireCode, bind_ok, need_ok, pure_ok] at h
        obtain ⟨code, hcode, rfl⟩ := h
        exact .inr ⟨code, hcode, .inl ⟨rfl, rfl⟩⟩
    | sell =>
        simp only [htype, requireCode, bind_ok, need_ok, refuse_ok, pure_ok] at h
        obtain ⟨code, hcode, -, hheld, -, hsome, rfl⟩ := h
        exact .inr ⟨code, hcode, .inr ⟨rfl, hheld, hsome, rfl⟩⟩
    | cashDeposit => rw [htype] at htrade; exact absurd rfl htrade
    | cashWithdrawal => rw [htype] at htrade; exact absurd rfl htrade
    | fee => rw [htype] at htrade; exact absurd rfl htrade
    | tax => rw [htype] at htrade; exact absurd rfl htrade

theorem applied_agrees (h : applied s t = .ok s') (hcode : t.code = some code)
    (hagree : Agrees code s u) :
    ∃ u', applied u t = .ok u' ∧ Agrees code s' u' ∧
      u'.realizedPnl - u.realizedPnl = s'.realizedPnl - s.realizedPnl := by
  rcases applied_cases h with ⟨hcash, rfl⟩ | ⟨own, hown, hbranch⟩
  · exact ⟨_, applied_cash hcash u, ⟨hagree.positions, hagree.cost⟩, by rw [sub_self, sub_self]⟩
  · rw [hcode, Option.some_inj] at hown
    subst hown
    rcases hbranch with ⟨htype, rfl⟩ | ⟨htype, hheld, hsome, rfl⟩
    · refine ⟨u.bought code t, ?_, hagree.bought t, ?_⟩
      · simp only [applied, htype, requireCode, hcode]
        rfl
      · rw [LedgerState.bought, LedgerState.bought, sub_self, sub_self]
    · rw [hagree.held] at hheld hsome
      refine ⟨u.sold code t, ?_, hagree.sold t, ?_⟩
      · simp only [applied, htype, requireCode, hcode, bind_ok, need_ok, refuse_ok]
        exact ⟨code, rfl, (), hheld, (), hsome, rfl⟩
      · simp only [LedgerState.sold, LedgerState.soldCost, hagree.held, hagree.costOf]
        ring

theorem applied_other (h : applied s t = .ok s') (hcode : t.code ≠ some code) :
    Agrees code s' s := by
  rcases applied_cases h with ⟨-, rfl⟩ | ⟨other, hother, hbranch⟩
  · exact ⟨rfl, rfl⟩
  · have hne : other ≠ code := fun heq => hcode (heq ▸ hother)
    rcases hbranch with ⟨-, rfl⟩ | ⟨-, -, -, rfl⟩
    · exact bought_other hne s t
    · exact sold_other hne s t

variable {rest : List LedgerTransaction}

theorem applyEach_cons_ok {s'' : LedgerState} :
    applyEach (t :: rest) s = (.ok (), s'') ↔
      ∃ s', applied s t = .ok s' ∧ applyEach rest s' = (.ok (), s'') := by
  simp only [applyEach, applySingleTransaction]
  cases applied s t with
  | ok s' => simp
  | error e => simp

theorem applyEach_append_ok {m : List LedgerTransaction} {s'' : LedgerState} :
    applyEach (l ++ m) s = (.ok (), s'') ↔
      ∃ s', applyEach l s = (.ok (), s') ∧ applyEach m s' = (.ok (), s'') := by
  induction l generalizing s with
  | nil =>
      constructor
      · exact fun h => ⟨s, rfl, h⟩
      · rintro ⟨s', h, h'⟩
        cases h
        exact h'
  | cons t l ih =>
      simp only [List.cons_append, applyEach_cons_ok, ih]
      constructor
      · rintro ⟨s1, h1, s2, h2, h3⟩
        exact ⟨s2, ⟨s1, h1, h2⟩, h3⟩
      · rintro ⟨s2, ⟨s1, h1, h2⟩, h3⟩
        exact ⟨s1, h1, s2, h2, h3⟩

theorem applyEach_own (h : applyEach l s = (.ok (), s')) (hagree : Agrees code s u) :
    ∃ u', applyEach (ownOf code l) u = (.ok (), u') ∧ Agrees code s' u' ∧
      u'.realizedPnl = u.realizedPnl + realizedOver code l s := by
  induction l generalizing s u with
  | nil =>
      cases h
      exact ⟨u, rfl, hagree, (add_zero _).symm⟩
  | cons t rest ih =>
      obtain ⟨mid, happlied, hrest⟩ := applyEach_cons_ok.mp h
      by_cases hcode : t.code = some code
      · obtain ⟨v, hv, hmid, hgain⟩ := applied_agrees happlied hcode hagree
        obtain ⟨u', hrun, hsame, hrealized⟩ := ih hrest hmid
        refine ⟨u', ?_, hsame, ?_⟩
        · rw [ownOf_cons_own hcode]
          exact applyEach_cons_ok.mpr ⟨v, hv, hrun⟩
        · simp only [realizedOver, happlied, if_pos hcode]
          linarith
      · have hmid := (applied_other happlied hcode).trans hagree
        obtain ⟨u', hrun, hsame, hrealized⟩ := ih hrest hmid
        refine ⟨u', ?_, hsame, ?_⟩
        · rw [ownOf_cons_other hcode]
          exact hrun
        · simp only [realizedOver, happlied, if_neg hcode, zero_add]
          exact hrealized

/-! ## A day among the days -/

variable {day : List LedgerTransaction} {d : Date}

theorem dayOrder_of_ok (h : applyEach day s = (.ok (), s')) : dayOrder day s = day := by
  rw [dayOrder, h]

theorem dayOrder_of_error {left : LedgerState} {e : LedgerError}
    (h : applyEach day s = (.error e, left)) : dayOrder day s = fallbackOrder day := by
  rw [dayOrder, h]

theorem applySameDay_ordered (h : applySameDayTransactions day s = (.ok (), s')) :
    applyEach (dayOrder day s) s = (.ok (), s') := by
  rcases hrun : applyEach day s with ⟨e | ⟨⟨⟩⟩, left⟩
  · rw [dayOrder_of_error hrun]
    rcases applySameDay_restores hrun with ⟨s'', hfallback, hday⟩ | ⟨e', hday⟩
    · rw [h] at hday
      cases hday
      exact hfallback
    · rw [h] at hday
      cases hday
  · rw [dayOrder_of_ok hrun, hrun]
    rw [applySameDayTransactions, hrun] at h
    exact h

variable {active : Option Date}

theorem applyDays_stay (day rest : List LedgerTransaction)
    (s : LedgerState) (h : active.getD t.tradeDate = t.tradeDate) :
    applyDays active day (t :: rest) s = applyDays (some t.tradeDate) (day ++ [t]) rest s ∧
      orderedDays active day (t :: rest) s =
        orderedDays (some t.tradeDate) (day ++ [t]) rest s := by
  constructor
  · rw [applyDays]
    beta_reduce
    rw [if_pos h, h]
  · rw [orderedDays]
    beta_reduce
    rw [if_pos h, h]

theorem applyDays_turn (day rest : List LedgerTransaction)
    (s : LedgerState) (h : ¬ active.getD t.tradeDate = t.tradeDate) :
    applyDays active day (t :: rest) s =
        (match applySameDayTransactions day s with
        | (.ok (), s') => applyDays (some t.tradeDate) [t] rest s'
        | (.error e, s') => (.error e, s')) ∧
      orderedDays active day (t :: rest) s = dayOrder day s ++
        orderedDays (some t.tradeDate) [t] rest (applySameDayTransactions day s).2 := by
  constructor
  · cases hday : applySameDayTransactions day s with
    | mk result s' =>
        cases result with
        | error e =>
            rw [applyDays]
            beta_reduce
            rw [if_neg h, hday]
        | ok u =>
            rw [applyDays]
            beta_reduce
            rw [if_neg h, hday]
  · rw [orderedDays]
    beta_reduce
    rw [if_neg h]

theorem applyDays_same (hne : day ≠ []) (hrest : ∀ x ∈ rest, x.tradeDate = d) :
    applyDays (some d) day rest s = applySameDayTransactions (day ++ rest) s ∧
      orderedDays (some d) day rest s = dayOrder (day ++ rest) s := by
  induction rest generalizing day with
  | nil =>
      rw [List.append_nil]
      exact ⟨if_neg hne, rfl⟩
  | cons t rest ih =>
      have ht := hrest t List.mem_cons_self
      obtain ⟨hrun, horder⟩ := applyDays_stay day rest s
        (show (some d).getD t.tradeDate = t.tradeDate from ht.symm)
      have hboth := ih (show day ++ [t] ≠ [] by simp)
        fun x hx => hrest x (List.mem_cons_of_mem t hx)
      rw [List.append_assoc, List.singleton_append, ← ht] at hboth
      rw [hrun, horder]
      exact hboth

theorem applyDays_append {pending : List LedgerTransaction}
    (hpending : (active = none ∧ pending = []) ∨ ∃ d', active = some d' ∧ pending ≠ [] ∧ d' < d)
    (hl : ∀ x ∈ l, x.tradeDate < d) (hday : ∀ x ∈ day, x.tradeDate = d) :
    applyDays active pending (l ++ day) s =
        (match applyDays active pending l s with
        | (.ok (), s') => applySameDayTransactions day s'
        | (.error e, s') => (.error e, s')) ∧
      ∀ s', applyDays active pending l s = (.ok (), s') →
        orderedDays active pending (l ++ day) s
          = orderedDays active pending l s ++ dayOrder day s' := by
  induction l generalizing active pending s with
  | nil =>
      rw [List.nil_append]
      rcases hpending with ⟨rfl, rfl⟩ | ⟨d', rfl, hne, hd⟩
      · show _ = applySameDayTransactions day s ∧ _
        cases day with
        | nil => exact ⟨rfl, fun s' h => by cases h; rfl⟩
        | cons t rest =>
            have hrest := fun x hx => (hday x (List.mem_cons_of_mem t hx)).trans
              (hday t List.mem_cons_self).symm
            obtain ⟨hstay, horder⟩ := applyDays_stay [] rest s
              (show (none : Option Date).getD t.tradeDate = t.tradeDate from rfl)
            obtain ⟨hrun, hall⟩ := applyDays_same (s := s) (List.cons_ne_nil t []) hrest
            refine ⟨hstay.trans hrun, fun s' h => ?_⟩
            cases h
            exact horder.trans hall
      · have hclose : applyDays (some d') pending [] s = applySameDayTransactions pending s :=
          if_neg hne
        cases day with
        | nil =>
            refine ⟨?_, fun s' h => (List.append_nil _).symm⟩
            rw [hclose]
            rcases applySameDayTransactions pending s with ⟨e | ⟨⟨⟩⟩, s'⟩
            · rfl
            · rfl
        | cons t rest =>
            have ht := hday t List.mem_cons_self
            have hrest := fun x hx => (hday x (List.mem_cons_of_mem t hx)).trans ht.symm
            have hturn : ¬ (some d').getD t.tradeDate = t.tradeDate := by
              rw [ht]
              exact hd.ne
            obtain ⟨hturned, horder⟩ := applyDays_turn pending rest s hturn
            rw [hturned, horder, hclose]
            rcases applySameDayTransactions pending s with ⟨e | ⟨⟨⟩⟩, s1⟩
            · exact ⟨rfl, fun s' h => by cases h⟩
            · obtain ⟨hrun, hall⟩ := applyDays_same (s := s1) (List.cons_ne_nil t []) hrest
              refine ⟨hrun, fun s' h => ?_⟩
              cases h
              exact congrArg _ hall
  | cons t l ih =>
      have ht := hl t List.mem_cons_self
      have hrest := fun x hx => hl x (List.mem_cons_of_mem t hx)
      rw [List.cons_append]
      by_cases hsame : active.getD t.tradeDate = t.tradeDate
      · obtain ⟨hrun, horder⟩ := applyDays_stay pending (l ++ day) s hsame
        obtain ⟨hrun', horder'⟩ := applyDays_stay pending l s hsame
        rw [hrun, horder, hrun', horder']
        exact ih (.inr ⟨_, rfl, by simp, ht⟩) hrest
      · obtain ⟨hrun, horder⟩ := applyDays_turn pending (l ++ day) s hsame
        obtain ⟨hrun', horder'⟩ := applyDays_turn pending l s hsame
        rw [hrun, horder, hrun', horder']
        rcases applySameDayTransactions pending s with ⟨e | ⟨⟨⟩⟩, s1⟩
        · exact ⟨rfl, fun s' h => by cases h⟩
        · obtain ⟨hlater, hall⟩ := ih (s := s1) (.inr ⟨_, rfl, List.cons_ne_nil t [], ht⟩) hrest
          refine ⟨hlater, fun s' h => ?_⟩
          rw [hall s' h, List.append_assoc]

theorem applyTransactions_ok :
    applyTransactions l = .ok s ↔ applyDays none [] l LedgerState.new = (.ok (), s) := by
  rw [applyTransactions]
  rcases applyDays none [] l LedgerState.new with ⟨e | ⟨⟨⟩⟩, s'⟩
  · simp
  · simp

theorem applyTransactions_append (hl : ∀ x ∈ l, x.tradeDate < d)
    (hday : ∀ x ∈ day, x.tradeDate = d) :
    (applyTransactions (l ++ day) = .ok s ↔ ∃ mid, applyTransactions l = .ok mid ∧
      applySameDayTransactions day mid = (.ok (), s)) ∧ ∀ mid, applyTransactions l = .ok mid →
      appliedOrder (l ++ day) = appliedOrder l ++ dayOrder day mid := by
  obtain ⟨hrun, horder⟩ := applyDays_append (s := LedgerState.new) (.inl ⟨rfl, rfl⟩) hl hday
  constructor
  · rw [applyTransactions_ok, hrun]
    simp only [applyTransactions_ok]
    rcases applyDays none [] l LedgerState.new with ⟨e | ⟨⟨⟩⟩, mid⟩
    · simp
    · simp
  · exact fun mid hmid => horder mid (applyTransactions_ok.mp hmid)

theorem split_last (hsorted : l.Pairwise fun a b => a.tradeDate ≤ b.tradeDate)
    (hl : ∀ x ∈ l, x.tradeDate ≤ d) : l = beforeDay d l ++ onDay d l := by
  induction l with
  | nil => rfl
  | cons t l ih =>
      obtain ⟨hfirst, hrest⟩ := List.pairwise_cons.mp hsorted
      have hlater := fun x hx => hl x (List.mem_cons_of_mem t hx)
      have hsplit := ih hrest hlater
      rcases lt_or_eq_of_le (hl t List.mem_cons_self) with ht | ht
      · have hno : ¬ t.tradeDate = d := ht.ne
        rw [beforeDay, onDay, List.filter_cons_of_pos (by simpa using ht),
          List.filter_cons_of_neg (by simpa using hno), List.cons_append]
        exact congrArg _ hsplit
      · have hsame : ∀ x ∈ t :: l, x.tradeDate = d := by
          intro x hx
          rcases List.mem_cons.mp hx with rfl | hx
          · exact ht
          · exact le_antisymm (hlater x hx) (ht ▸ hfirst x hx)
        rw [beforeDay, onDay, List.filter_eq_nil_iff.mpr fun x hx => by
            rw [hsame x hx]
            simp, List.filter_eq_self.mpr fun x hx => decide_eq_true (hsame x hx),
          List.nil_append]

theorem days_induction {P : List LedgerTransaction → Prop} (hnil : P [])
    (hday : ∀ d l day, (∀ x ∈ l, x.tradeDate < d) → (∀ x ∈ day, x.tradeDate = d) →
      l.Pairwise (fun a b => a.tradeDate ≤ b.tradeDate) → P l → P (l ++ day))
    (hsorted : l.Pairwise fun a b => a.tradeDate ≤ b.tradeDate) : P l := by
  induction hlength : l.length using Nat.strong_induction_on generalizing l with
  | _ n ih =>
      rcases List.eq_nil_or_concat l with rfl | ⟨front, last, rfl⟩
      · exact hnil
      · rw [List.concat_eq_append] at hsorted hlength ⊢
        have hle : ∀ x ∈ front ++ [last], x.tradeDate ≤ last.tradeDate := by
          intro x hx
          rcases List.mem_append.mp hx with hx | hx
          · exact (List.pairwise_append.mp hsorted).2.2 x hx last (List.mem_singleton.mpr rfl)
          · rw [List.mem_singleton.mp hx]
        have hshorter : (beforeDay last.tradeDate (front ++ [last])).length < n := by
          rw [← hlength, beforeDay]
          exact List.length_filter_lt_length_iff_exists.mpr
            ⟨last, by simp, by simp⟩
        rw [split_last hsorted hle]
        have hearlier : (beforeDay last.tradeDate (front ++ [last])).Pairwise
            fun a b => a.tradeDate ≤ b.tradeDate := hsorted.sublist List.filter_sublist
        exact hday last.tradeDate _ _ (fun x hx => of_decide_eq_true (List.mem_filter.mp hx).2)
          (fun x hx => of_decide_eq_true (List.mem_filter.mp hx).2) hearlier
          (ih _ hshorter hearlier rfl)

/-! ## A code's own ledger -/

def FellBack (l : List LedgerTransaction) (d : Date) : Prop :=
  ∃ s e left, applyTransactions (beforeDay d l) = .ok s ∧
    applyEach (onDay d l) s = (.error e, left)

/-- Every sale after every purchase. -/
def SalesLast (l : List LedgerTransaction) : Prop :=
  l.Pairwise fun a b => a.transactionType = .sell → b.transactionType = .sell

def InStep (code : String) (l : List LedgerTransaction) : Prop :=
  ∀ d, FellBack l d → FellBack (ownOf code l) d ∨ SalesLast (onDay d (ownOf code l))

theorem ownOf_days (code : String) (d : Date) (l : List LedgerTransaction) :
    beforeDay d (ownOf code l) = ownOf code (beforeDay d l) ∧
      onDay d (ownOf code l) = ownOf code (onDay d l) :=
  ⟨List.filter_comm _ _ l, List.filter_comm _ _ l⟩

theorem ownOf_fallbackOrder (code : String) (day : List LedgerTransaction) :
    ownOf code (fallbackOrder day) = fallbackOrder (ownOf code day) :=
  filter_insertionSort _ day

theorem fellBack_earlier {d' : Date} (hday : ∀ x ∈ day, x.tradeDate = d) (hd : d' < d) :
    (FellBack (l ++ day) d' ↔ FellBack l d') ∧ onDay d' (l ++ day) = onDay d' l := by
  have hon : onDay d' day = [] := List.filter_eq_nil_iff.mpr fun x hx => by
    rw [hday x hx, decide_eq_true_eq]
    exact hd.ne'
  have hbefore : beforeDay d' day = [] := List.filter_eq_nil_iff.mpr fun x hx => by
    rw [hday x hx, decide_eq_true_eq]
    exact hd.le.not_gt
  have hboth : onDay d' (l ++ day) = onDay d' l := by
    rw [onDay, List.filter_append]
    exact (congrArg _ hon).trans (List.append_nil _)
  have hearlier : beforeDay d' (l ++ day) = beforeDay d' l := by
    rw [beforeDay, List.filter_append]
    exact (congrArg _ hbefore).trans (List.append_nil _)
  rw [FellBack, FellBack, hboth, hearlier]
  exact ⟨.rfl, rfl⟩

theorem last_day (hl : ∀ x ∈ l, x.tradeDate < d) (hday : ∀ x ∈ day, x.tradeDate = d) :
    beforeDay d (l ++ day) = l ∧ onDay d (l ++ day) = day := by
  constructor
  · rw [beforeDay, List.filter_append, List.filter_eq_self.mpr fun x hx =>
      decide_eq_true (hl x hx), List.filter_eq_nil_iff.mpr fun x hx => by
        rw [hday x hx]
        simp, List.append_nil]
  · rw [onDay, List.filter_append, List.filter_eq_nil_iff.mpr fun x hx => by
        rw [decide_eq_true_eq]
        exact (hl x hx).ne, List.filter_eq_self.mpr fun x hx =>
      decide_eq_true (hday x hx), List.nil_append]

theorem InStep.earlier (h : InStep code (l ++ day))
    (hl : ∀ x ∈ l, x.tradeDate < d) (hday : ∀ x ∈ day, x.tradeDate = d) : InStep code l := by
  intro d' hback
  have hown : ∀ x ∈ ownOf code day, x.tradeDate = d := fun x hx => hday x (mem_ownOf hx)
  by_cases hd : d' < d
  · rcases h d' ((fellBack_earlier hday hd).1.mpr hback) with hfell | hlast
    · rw [ownOf_append] at hfell
      exact .inl ((fellBack_earlier hown hd).1.mp hfell)
    · rw [ownOf_append, (fellBack_earlier hown hd).2] at hlast
      exact .inr hlast
  · -- From the last day on there is nothing to apply.
    obtain ⟨s, e, left, -, hrun⟩ := hback
    have hnone : onDay d' l = [] := List.filter_eq_nil_iff.mpr fun x hx => by
      rw [decide_eq_true_eq]
      rintro rfl
      exact hd (hl x hx)
    rw [hnone] at hrun
    cases hrun

theorem fallbackOrder_self (hids : day.Pairwise fun a b => a.transactionId ≤ b.transactionId)
    (hlast : SalesLast day) : fallbackOrder day = day := by
  refine List.Pairwise.insertionSort_eq (hids.imp₂ (fun a b hid hsale => ?_) hlast)
  rw [Prod.Lex.toLex_le_toLex]
  by_cases ha : a.transactionType = .sell
  · rw [decide_eq_true ha, decide_eq_true (hsale ha)]
    exact .inr ⟨rfl, hid⟩
  · by_cases hb : b.transactionType = .sell
    · rw [decide_eq_false ha, decide_eq_true hb]
      exact .inl (show (false : Bool) < true by decide)
    · rw [decide_eq_false ha, decide_eq_false hb]
      exact .inr ⟨rfl, hid⟩

theorem applyEach_appliedOrder (hsorted : l.Pairwise fun a b => a.tradeDate ≤ b.tradeDate) :
    ∀ s, applyTransactions l = .ok s →
      applyEach (appliedOrder l) LedgerState.new = (.ok (), s) ∧ (appliedOrder l).Perm l := by
  refine days_induction (P := fun l => ∀ s, applyTransactions l = .ok s →
      applyEach (appliedOrder l) LedgerState.new = (.ok (), s) ∧ (appliedOrder l).Perm l)
    (fun s h => ?_) (fun d l day hl hday _ ih s h => ?_) hsorted
  · cases h
    exact ⟨rfl, .refl _⟩
  · obtain ⟨hruns, horders⟩ := applyTransactions_append (s := s) hl hday
    obtain ⟨mid, hmid, hlast⟩ := hruns.mp h
    obtain ⟨hfirst, hperm⟩ := ih mid hmid
    rw [horders mid hmid]
    refine ⟨applyEach_append_ok.mpr ⟨mid, hfirst, applySameDay_ordered hlast⟩,
      hperm.append ?_⟩
    unfold dayOrder
    split
    · exact .refl _
    · exact fallbackOrder_perm day

theorem agrees_of_order
    (hsorted : l.Pairwise fun a b => a.tradeDate ≤ b.tradeDate) {own : LedgerState}
    (h : applyTransactions l = .ok s) (hown : applyTransactions (ownOf code l) = .ok own)
    (horder : ownOf code (appliedOrder l) = appliedOrder (ownOf code l)) :
    Agrees code s own ∧ own.realizedPnl = realizedOver code (appliedOrder l) .new := by
  obtain ⟨hrun, -⟩ := applyEach_appliedOrder hsorted s h
  have hsortedOwn : (ownOf code l).Pairwise fun a b => a.tradeDate ≤ b.tradeDate :=
    hsorted.sublist List.filter_sublist
  obtain ⟨hrunOwn, -⟩ := applyEach_appliedOrder hsortedOwn own hown
  obtain ⟨u, hu, hagree, hrealized⟩ := applyEach_own hrun (Agrees.refl code _)
  rw [horder, hrunOwn] at hu
  cases hu
  exact ⟨hagree, hrealized.trans (zero_add _)⟩

theorem dates_of_keys
    (h : l.Pairwise fun a b => ledgerTransactionSortKey a ≤ ledgerTransactionSortKey b) :
    l.Pairwise fun a b => a.tradeDate ≤ b.tradeDate :=
  h.imp fun {a b} hab => by
    rcases Prod.Lex.toLex_le_toLex.mp hab with hlt | ⟨heq, -⟩
    · exact hlt.le
    · exact heq.le

theorem ids_of_keys
    (h : day.Pairwise fun a b => ledgerTransactionSortKey a ≤ ledgerTransactionSortKey b)
    (hday : ∀ x ∈ day, x.tradeDate = d) :
    day.Pairwise fun a b => a.transactionId ≤ b.transactionId := by
  refine List.Pairwise.imp_of_mem (fun {a b} ha hb hab => ?_) h
  rcases Prod.Lex.toLex_le_toLex.mp hab with hlt | ⟨-, hle⟩
  · have hsame : a.tradeDate = b.tradeDate := (hday a ha).trans (hday b hb).symm
    exact absurd hsame hlt.ne
  · exact hle

theorem ownOf_appliedOrder (code : String)
    (hsorted : l.Pairwise fun a b => ledgerTransactionSortKey a ≤ ledgerTransactionSortKey b) :
    ∀ s own, applyTransactions l = .ok s → applyTransactions (ownOf code l) = .ok own →
      InStep code l → ownOf code (appliedOrder l) = appliedOrder (ownOf code l) := by
  refine days_induction (P := fun l => l.Pairwise (fun a b =>
      ledgerTransactionSortKey a ≤ ledgerTransactionSortKey b) →
    ∀ s own, applyTransactions l = .ok s → applyTransactions (ownOf code l) = .ok own →
      InStep code l → ownOf code (appliedOrder l) = appliedOrder (ownOf code l))
    (fun _ _ _ _ _ _ => rfl) (fun d l day hl hday hdates ih hkeys s own h hown hstep => ?_)
    (dates_of_keys hsorted) hsorted
  obtain ⟨hearlier, hdayKeys, -⟩ := List.pairwise_append.mp hkeys
  have hownl : ∀ x ∈ ownOf code l, x.tradeDate < d := fun x hx => hl x (mem_ownOf hx)
  have hownday : ∀ x ∈ ownOf code day, x.tradeDate = d := fun x hx => hday x (mem_ownOf hx)
  rw [ownOf_append] at hown ⊢
  obtain ⟨hruns, horders⟩ := applyTransactions_append (s := s) hl hday
  obtain ⟨hownRuns, hownOrders⟩ := applyTransactions_append (s := own) hownl hownday
  obtain ⟨mid, hmid, hlast⟩ := hruns.mp h
  obtain ⟨ownMid, hownMid, hownLast⟩ := hownRuns.mp hown
  have hmeet := ih hearlier mid ownMid hmid hownMid (hstep.earlier hl hday)
  obtain ⟨hagree, -⟩ := agrees_of_order hdates hmid hownMid hmeet
  rw [horders mid hmid, hownOrders ownMid hownMid, ownOf_append, hmeet]
  refine congrArg _ ?_
  rcases hrun : applyEach day mid with ⟨e | ⟨⟨⟩⟩, left⟩
  · -- The whole day falls back.
    rw [dayOrder_of_error hrun, ownOf_fallbackOrder]
    obtain ⟨hbefore, hon⟩ := last_day hl hday
    have hback : FellBack (l ++ day) d := ⟨mid, e, left, by rw [hbefore]; exact hmid,
      by rw [hon]; exact hrun⟩
    obtain ⟨hownBefore, hownOn⟩ := last_day hownl hownday
    rcases hstep d hback with ⟨u, e', left', hu, hfailed⟩ | hsales
    · rw [ownOf_append, hownBefore, hownMid] at hu
      cases hu
      rw [ownOf_append, hownOn] at hfailed
      exact (dayOrder_of_error hfailed).symm
    · rw [ownOf_append, hownOn] at hsales
      have hids := ids_of_keys (hdayKeys.sublist List.filter_sublist) hownday
      have hself := fallbackOrder_self hids hsales
      unfold dayOrder
      split
      · exact hself
      · rfl
  · obtain ⟨u, hu, -⟩ := applyEach_own hrun hagree
    rw [dayOrder_of_ok hrun, dayOrder_of_ok hu]

/-! ## Isolation -/

theorem moved_own (type : TransactionType) (code other : String) (l : List LedgerTransaction) :
    moved type other (ownOf code l) = if other = code then moved type other l else 0 := by
  induction l with
  | nil => simp [ownOf]
  | cons t l ih =>
      by_cases hcode : t.code = some code
      · rw [ownOf_cons_own hcode, moved_cons, ih]
        by_cases hother : other = code
        · rw [if_pos hother, if_pos hother, ← moved_cons]
        · rw [if_neg hother, if_neg hother, moved_one, if_neg fun h => hother
            (Option.some_inj.mp (hcode.symm.trans h.2)).symm, add_zero]
      · rw [ownOf_cons_other hcode, ih]
        by_cases hother : other = code
        · rw [if_pos hother, if_pos hother, moved_cons type other t l, moved_one, hother,
            if_neg fun h => hcode h.2, zero_add]
        · rw [if_neg hother, if_neg hother]

theorem own_position (hvalid : ∀ t ∈ l, Valid t)
    (hsorted : l.Pairwise fun a b => ledgerTransactionSortKey a ≤ ledgerTransactionSortKey b)
    (h : applyTransactions l = .ok s) (code : String) :
    ∃ own, applyTransactions (ownOf code l) = .ok own ∧
      own.positions.get? code = s.positions.get? code := by
  have hlaw := ledger_fold_exact hvalid hsorted
  have hown : FoldLaw (ownOf code l) := ledger_fold_exact
    (fun t ht => hvalid t (mem_ownOf ht)) (hsorted.sublist List.filter_sublist)
  have hcovered := hlaw.succeeds.mp ⟨s, h⟩
  obtain ⟨own, hrun⟩ := hown.succeeds.mpr fun d other => by
    rw [(ownOf_days code d l).1, (ownOf_days code d l).2, net, moved_own, moved_own, moved_own,
      moved_own]
    by_cases hother : other = code
    · rw [if_pos hother, if_pos hother, if_pos hother, if_pos hother]
      exact hcovered d other
    · rw [if_neg hother, if_neg hother, if_neg hother, if_neg hother, sub_zero, add_zero]
  have hsold : ∀ type, moved type code (ownOf code l) = moved type code l := fun type => by
    rw [moved_own, if_pos rfl]
  have hcount := hlaw.quantities s h code
  have hpositive := hlaw.positive s h code
  have hownCount := hown.quantities own hrun code
  have hownPositive := hown.positive own hrun code
  rw [hsold, hsold] at hownCount hownPositive
  refine ⟨own, hrun, ?_⟩
  cases hget : s.positions.get? code with
  | none =>
      rw [hget] at hpositive
      rw [← hpositive] at hownPositive
      cases hgetOwn : own.positions.get? code with
      | none => rfl
      | some q =>
          rw [hgetOwn] at hownPositive
          exact absurd (hownPositive.mp rfl) Bool.false_ne_true
  | some q =>
      rw [hget] at hpositive hcount
      rw [← hpositive] at hownPositive
      obtain ⟨q', hq'⟩ := Option.isSome_iff_exists.mp (hownPositive.mpr rfl)
      rw [hq', ← hcount] at hownCount
      rw [hq']
      exact congrArg some hownCount

/-- A ledger leaves of each code what the code's own transactions leave in the
order the ledger applies them, and what the code's own ledger leaves wherever
the days of the code are in step. -/
theorem ledger_isolated {l : List LedgerTransaction} (hvalid : ∀ t ∈ l, Valid t)
    (hsorted : l.Pairwise fun a b =>
      ledgerTransactionSortKey a ≤ ledgerTransactionSortKey b)
    {s : LedgerState} (h : applyTransactions l = .ok s) (code : String) :
    ∃ own, applyTransactions (ownOf code l) = .ok own ∧
      own.positions.get? code = s.positions.get? code ∧
      (∃ left, (appliedOrder l).Perm l ∧
        applyEach (appliedOrder l) LedgerState.new = (.ok (), s) ∧
        applyEach (ownOf code (appliedOrder l)) LedgerState.new = (.ok (), left) ∧
        left.positions.get? code = s.positions.get? code ∧
        left.costBasis.get? code = s.costBasis.get? code ∧
        left.realizedPnl = realizedOver code (appliedOrder l) LedgerState.new) ∧
      (InStep code l → own.costBasis.get? code = s.costBasis.get? code ∧
        own.realizedPnl = realizedOver code (appliedOrder l) LedgerState.new) := by
  obtain ⟨own, hown, hposition⟩ := own_position hvalid hsorted h code
  have hdates := dates_of_keys hsorted
  obtain ⟨hrun, hperm⟩ := applyEach_appliedOrder hdates s h
  obtain ⟨left, hleft, hagree, hrealized⟩ := applyEach_own hrun (Agrees.refl code _)
  refine ⟨own, hown, hposition, ⟨left, hperm, hrun, hleft, hagree.positions.symm,
    hagree.cost.symm, hrealized.trans (zero_add _)⟩, fun hstep => ?_⟩
  obtain ⟨hsame, hprofit⟩ := agrees_of_order hdates h hown
    (ownOf_appliedOrder code hsorted s own h hown hstep)
  exact ⟨hsame.cost.symm, hprofit⟩

theorem ledger_isolated_sample : ∃ s own left, applyTransactions sampleLedger = .ok s ∧
    applyTransactions (ownOf "600000" sampleLedger) = .ok own ∧
    own.positions.get? "600000" = s.positions.get? "600000" ∧
    applyEach (ownOf "600000" (appliedOrder sampleLedger)) LedgerState.new = (.ok (), left) ∧
    left.costBasis.get? "600000" = s.costBasis.get? "600000" := by
  have hruns : (applyTransactions sampleLedger).isOk = true := by decide +kernel
  obtain ⟨s, hs⟩ := isOk_iff.mp hruns
  obtain ⟨own, hown, hposition, ⟨left, -, -, hleft, -, hcost, -⟩, -⟩ := ledger_isolated
    (l := sampleLedger) (by unfold Valid; decide +kernel)
    (by unfold sampleLedger; decide +kernel) hs "600000"
  exact ⟨s, own, left, hs, hown, hposition, hleft, hcost⟩

def crossedLedger : List LedgerTransaction := [
  ⟨"a1", 10, .cashDeposit, none, 0, 0, 10000, 0⟩,
  ⟨"a2", 10, .buy, some "600000", 100, 10, -1000, 0⟩,
  ⟨"b1", 11, .sell, some "600000", 50, 12, 600, 0⟩,
  ⟨"b2", 11, .buy, some "600000", 100, 20, -2000, 0⟩,
  ⟨"c1", 11, .sell, some "000001", 100, 10, 1000, 0⟩,
  ⟨"c2", 11, .buy, some "000001", 100, 10, -1000, 0⟩]

/-- The trades of the other code change what the first one's shares cost and
what selling them realized. -/
theorem cost_crosses_codes : (∀ t ∈ crossedLedger, Valid t) ∧
    (crossedLedger.Pairwise fun a b =>
      ledgerTransactionSortKey a ≤ ledgerTransactionSortKey b) ∧
    ∃ s own, applyTransactions crossedLedger = .ok s ∧
      applyTransactions (ownOf "600000" crossedLedger) = .ok own ∧
      s.costBasis.get? "600000" = some 2250 ∧ own.costBasis.get? "600000" = some 2500 ∧
      realizedOver "600000" (appliedOrder crossedLedger) LedgerState.new = -150 ∧
      own.realizedPnl = 100 := by
  refine ⟨by unfold Valid; decide +kernel, by unfold crossedLedger; decide +kernel, ?_⟩
  have hruns : (match applyTransactions crossedLedger,
        applyTransactions (ownOf "600000" crossedLedger) with
      | .ok s, .ok own => decide (s.costBasis.get? "600000" = some 2250 ∧
          own.costBasis.get? "600000" = some 2500 ∧
          realizedOver "600000" (appliedOrder crossedLedger) LedgerState.new = -150 ∧
          own.realizedPnl = 100)
      | _, _ => false) = true := by decide +kernel
  split at hruns
  · next s own hs hown => exact ⟨s, own, hs, hown, of_decide_eq_true hruns⟩
  · cases hruns

end Ahunter.Ledger
