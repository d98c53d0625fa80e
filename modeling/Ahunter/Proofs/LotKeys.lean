import Ahunter.Proofs.Acceptance
import Ahunter.Proofs.Clock
import Ahunter.Proofs.Journal
import Mathlib.Data.List.Induction

/-!
# Lot keys and the names they are made of

A lot is stored under a key that is put together from names: a position's
security, the identity a purchase was filled under, a corporate action and the
lot it is entitled on, a settlement and the lot it retires. Lots stay under
their keys, so the keys in use are exactly those the log has made, and a
purchase takes a new one exactly when its identity is none of them. Nothing in
the account looks at that: `fill` writes its key without a look at the lots.
-/

namespace Ahunter.Sim

open Ahunter.Lib

variable {spec : AccountSpec} {d : Discipline}

/-! ## Keys after a step -/

variable {s t : AccountState} {k : String}

def KeyTaken (s : AccountState) (k : String) : Prop :=
  (∃ l, s.stockLots.get? k = some l) ∨
    ∃ id item, s.corporateActions.get? id = some item ∧ k ∈ item.lotKeys id

theorem CorporateItem.lotKeys_congr {i j : CorporateItem} (id : String)
    (hterms : j.terms = i.terms) (hentitled : j.entitlements = i.entitlements) :
    j.lotKeys id = i.lotKeys id := by
  rw [CorporateItem.lotKeys, CorporateItem.lotKeys, hterms, hentitled]

theorem KeyTaken.kept {keys : List String} (h : KeyTaken s k) (hkeeps : Keeps s keys t) :
    KeyTaken t k := by
  rcases h with ⟨l, hl⟩ | ⟨id, item, hitem, hk⟩
  · exact Or.inl (hkeeps.lots.1 k l hl)
  · obtain ⟨item', hitem', hterms, hentitled⟩ := hkeeps.actions id item hitem
    refine Or.inr ⟨id, item', hitem', ?_⟩
    rwa [CorporateItem.lotKeys_congr id hterms hentitled]

variable {at_ : Instant}

theorem fill_stored {aid id : String} {quantity : ℤ} {price : ℚ} {o : Outcome}
    {order : Order} (h : fill spec aid id quantity price at_ s = .ok o)
    (horder : s.orders.get? id = some order) (hside : order.side = .buy) :
    ∃ new, o.state.stockLots = s.stockLots.set aid new := by
  obtain ⟨t, s1, es, order1, hterms, hbranch, -, rfl⟩ := fill_ok h
  obtain ⟨hget, -, -, -, -, haid, -⟩ := fillTerms_ok hterms
  cases horder.symm.trans hget
  simp only [fillSide, hside, fillBuy, bind_ok, refuse_ok, pure_ok,
    Prod.mk.injEq] at hbranch
  obtain ⟨-, -, lots, -, sellable, -, rfl, -⟩ := hbranch
  exact ⟨_, by rw [← haid]; rfl⟩

theorem conversions_stored {terms : SettlementTerms}
    {acc acc' : Conversion} {as : List LotConsideration}
    (h : walk (convertOne spec terms at_) acc as = .ok acc') :
    ∀ k ∈ as.flatMap fun a => a.newKeys terms.settlementId,
      ∃ l, acc'.state.stockLots.get? k = some l := by
  induction as generalizing acc with
  | nil => simp
  | cons a as ih =>
      obtain ⟨mid, hone, hrest⟩ := walk_cons_ok.mp h
      have hkeeps : ∀ k l, mid.state.stockLots.get? k = some l →
          ∃ l', acc'.state.stockLots.get? k = some l' :=
        walk_induction (P := fun c : Conversion => ∀ k l,
          mid.state.stockLots.get? k = some l →
            ∃ l', c.state.stockLots.get? k = some l') hrest
          (fun _ l hl => ⟨l, hl⟩) fun _ _ _ _ hc hstep k l hl => by
            obtain ⟨l', hl'⟩ := hc k l hl
            exact (convertOne_keeps hstep).lots.1 k l' hl'
      intro k hk
      rw [List.flatMap_cons, List.mem_append] at hk
      rcases hk with hk | hk
      · obtain ⟨lot, s1, tax, es1, s2, es2, created, retired, rfl, -, -, hreplace,
          hretired⟩ := convertOne_ok hone
        rcases replaceLot_ok hreplace with ⟨h0, -⟩ | ⟨h0, new, next, rfl, -⟩
        · simp [LotConsideration.newKeys, h0] at hk
        · rw [LotConsideration.newKeys, if_pos h0, List.mem_singleton] at hk
          subst hk
          have hkept := @LotsWithin.set_old _ _ { retired with quantity := 0 } _ hretired
          obtain ⟨l, hl⟩ := hkept.1 _ new (Dict.get?_set_self _ _ _)
          exact hkeeps _ l hl
      · exact ih hrest k hk

theorem perform_taken {aid : String} {r : AccountRequest} {o : Outcome}
    (h : perform spec aid r s = .ok o) (hk : k ∈ r.lotKeys aid o.state) : KeyTaken o.state k := by
  cases r with
  | fill id quantity price at_ =>
      obtain ⟨order, horder, hw⟩ := fill_writes h
      obtain ⟨order', horder', hres⟩ := hw.orders _ _ horder
      simp only [AccountRequest.lotKeys, horder', hres] at hk
      split at hk
      · next hside =>
          obtain ⟨new, hnew⟩ := fill_stored h horder hside
          rw [List.mem_singleton.mp hk]
          exact Or.inl ⟨new, by rw [hnew, Dict.get?_set_self]⟩
      · cases hk
  | corporateApply id at_ =>
      obtain ⟨item, hitem, hw⟩ := corporateApply_writes h
      obtain ⟨item', hitem', hterms, hentitled⟩ := hw.actions _ _ hitem
      refine Or.inr ⟨id, item', hitem', ?_⟩
      simpa only [AccountRequest.lotKeys, hitem', CorporateItem.lotKeys] using hk
  | specialSettlement terms at_ =>
      simp only [perform, bind_ok] at h
      obtain ⟨_, -, h⟩ := h
      obtain ⟨-, c, receivables, item, claim, hwalk, -, -, -, rfl⟩ :=
        specialSettlement_ok h
      refine Or.inl (conversions_stored hwalk k ?_)
      rwa [show (AccountRequest.specialSettlement terms at_).lotKeys aid _
        = _ from filter_map_flatMap _ _ _] at hk
  | reserveBatch _ _ => cases hk
  | cancelRequest _ _ => cases hk
  | release _ _ _ => cases hk
  | checkpoint _ => cases hk
  | settlePayables _ => cases hk
  | corporateRegister _ _ => cases hk
  | corporatePay _ _ => cases hk
  | specialSettlementPay _ _ => cases hk

variable {es : List Entry}

theorem LedgerStep.taken {as : List Act} (h : LedgerStep spec d s as es t)
    (hk : k ∈ as.flatMap fun a => a.2.lotKeys a.1 t) : KeyTaken t k := by
  cases h with
  | @account aid r _ o o' hcheck hrun hseal hact =>
      obtain ⟨keys, hw, hkeys⟩ := perform_writes hrun
      obtain ⟨obligations, total, -, -, hstate⟩ := (prepareState_ok hseal).state
      have hsealed : Keeps o.state [] o'.state := by
        rw [hstate]
        exact ⟨OrdersKept.refl _, ActionsKept.refl _, LotsWithin.refl _⟩
      have hsame : r.lotKeys aid o'.state = r.lotKeys aid o.state :=
        (hkeys _ (hw.orders.trans hsealed.orders) (hw.actions.trans hsealed.actions)).trans
          (hkeys _ hw.orders hw.actions).symm
      simp only [List.flatMap_cons, List.flatMap_nil, List.append_nil,
        StageRequest.lotKeys, hsame] at hk
      exact (perform_taken hrun hk).kept hsealed
  | moved horder hheld hmove hrun hseal => simp [StageRequest.lotKeys] at hk
  | marked horder hstatus => cases hk
  | resealed hseal => cases hk

theorem LedgerRun.keys {as : List Act} (h : LedgerRun spec d s as es t) :
    Keeps s (as.flatMap fun a => a.2.lotKeys a.1 t) t ∧
      ∀ k ∈ as.flatMap fun a => a.2.lotKeys a.1 t, KeyTaken t k := by
  obtain ⟨keys, hw, hkeys⟩ := h.writes
  rw [hkeys t (OrdersKept.refl _) (ActionsKept.refl _)]
  refine ⟨hw.toKeeps, ?_⟩
  rw [← hkeys t (OrdersKept.refl _) (ActionsKept.refl _)]
  clear hw hkeys keys
  induction h with
  | refl => simp
  | @tail as bs es fs t u hrun hstep ih =>
      obtain ⟨ks, hw, hks⟩ := hrun.writes
      obtain ⟨js, hw', -⟩ := hstep.writes
      intro k hk
      rw [List.flatMap_append, List.mem_append] at hk
      rcases hk with hk | hk
      · rw [hks u hw'.orders hw'.actions,
          ← hks t (OrdersKept.refl _) (ActionsKept.refl _)] at hk
        exact (ih k hk).kept hw'.toKeeps
      · exact hstep.taken hk

theorem LedgerStep.of_account {aid : String} {r : AccountRequest}
    (h : LedgerStep spec d s [(aid, .account r)] es t) :
    ∃ o o', perform spec aid r s = .ok o ∧
      prepareState spec r.operation o = .ok o' ∧ t = o'.state := by
  cases h with
  | account hcheck hrun hseal hact => exact ⟨_, _, hrun, hseal, rfl⟩

theorem LedgerRun.split {as bs : List Act} {a : Act} (h : LedgerRun spec d s (as ++ a :: bs) es t) :
    ∃ u v es1 es2 es3, LedgerRun spec d s as es1 u ∧
      LedgerStep spec d u [a] es2 v ∧ LedgerRun spec d v bs es3 t := by
  generalize hall : as ++ a :: bs = all at h
  induction h generalizing bs with
  | refl => simp at hall
  | @tail cs ds es fs t u hrun hstep ih =>
      have hshort : ds = [] ∨ ∃ x, ds = [x] := by
        cases hstep <;> simp
      rcases hshort with rfl | ⟨x, rfl⟩
      · rw [List.append_nil] at hall
        obtain ⟨v, v', es1, es2, es3, h1, h2, h3⟩ := ih hall
        exact ⟨v, v', es1, es2, _, h1, h2, by simpa using h3.tail hstep⟩
      · rcases List.eq_nil_or_concat bs with rfl | ⟨bs', last, rfl⟩
        · obtain ⟨rfl, hx⟩ := List.append_inj' hall rfl
          cases hx
          exact ⟨t, u, _, _, [], hrun, hstep, LedgerRun.refl⟩
        · have hsplit : (as ++ a :: bs') ++ [last] = cs ++ [x] := by
            simpa using hall
          obtain ⟨hcs, hx⟩ := List.append_inj' hsplit rfl
          cases hx
          obtain ⟨v, v', es1, es2, es3, h1, h2, h3⟩ := ih hcs
          exact ⟨v, v', es1, es2, _, h1, h2, by simpa using h3.tail hstep⟩

/-! ## The log as a chain of runs -/

variable {w : World}

def initialLotIds (spec : AccountSpec) : List String :=
  spec.initialPositions.map fun p => "initial:" ++ p.security

theorem initialState_keys {opens : Date} :
    (∃ l, (initialState spec opens).stockLots.get? k = some l) ↔ k ∈ initialLotIds spec := by
  rw [initialState, Dict.mem_keys_ofList, List.map_map, initialLotIds]
  have hfst : (Prod.fst ∘ fun (e : Position × ℕ) =>
      ("initial:" ++ e.1.security, initialLot spec opens e.1 e.2))
      = (fun p : Position => "initial:" ++ p.security) ∘ Prod.fst := rfl
  rw [hfst, ← List.map_map, List.zipIdx_map_fst]

structure LogChained (spec : AccountSpec) (w : World) : Prop where
  opened : ∀ e post, w.events = e :: post → e.acts = [] ∧
    e.state.corporateActions = Dict.empty ∧
    ∃ opens, e.state.stockLots = (initialState spec opens).stockLots
  chained : ∀ pre p e post, w.events = pre ++ p :: e :: post →
    LedgerRun spec .any p.state e.acts e.entries e.state
  projected : w.account = w.events.getLast?.map AccountEvent.state

theorem step_logChained {w' : World} {c : Command} (hw : LogChained spec w)
    (h : step spec w c = .ok w') : LogChained spec w' := by
  cases step_account h with
  | none haccount hevents =>
      exact ⟨by rw [hevents]; exact hw.opened, by rw [hevents]; exact hw.chained,
        by rw [haccount, hevents]; exact hw.projected⟩
  | @opened o o' ev hnone hinit hseal haccount hevents hstate _ _ _ _ _ hacts =>
      have hempty : w.events = [] := by
        have := hw.projected
        rw [hnone] at this
        simpa using this
      rw [hempty, List.nil_append] at hevents
      refine ⟨fun e post heq => ?_, fun pre p e post heq => ?_,
        by rw [haccount, hevents]; rfl⟩
      · rw [hevents] at heq
        cases heq
        simp only [initializeAccount, bind_ok, refuse_ok, pure_ok] at hinit
        obtain ⟨-, -, rfl⟩ := hinit
        obtain ⟨_, _, -, -, hsealed⟩ := (prepareState_ok hseal).state
        rw [hstate, hsealed]
        exact ⟨hacts, rfl, _, rfl⟩
      · rw [hevents] at heq
        have hlength := congrArg List.length heq
        simp only [List.length_append, List.length_cons, List.length_nil] at hlength
        omega
  | @event s ev acts hs haccount hevents hkeys hrun hsealed hacts =>
      have hlast := hw.projected
      rw [hs] at hlast
      obtain ⟨last, hlast', rfl⟩ := Option.map_eq_some_iff.mp hlast.symm
      obtain ⟨front, hfront⟩ := List.getLast?_eq_some_iff.mp hlast'
      refine ⟨fun e post heq => ?_, fun pre p e post heq => ?_,
        by rw [haccount, hevents]; simp⟩
      · rw [hevents] at heq
        cases hall : w.events with
        | nil => rw [hall] at hfront; simp at hfront
        | cons e' post' =>
            rw [hall] at heq
            cases heq
            exact hw.opened _ _ hall
      · rw [hevents] at heq
        rcases List.eq_nil_or_concat post with rfl | ⟨post', x, rfl⟩
        · have hsplit : w.events ++ [ev] = (pre ++ [p]) ++ [e] := by simpa using heq
          obtain ⟨hpre, he⟩ := List.append_inj' hsplit rfl
          cases he
          obtain ⟨-, hp⟩ := List.append_inj' (hfront.symm.trans hpre) rfl
          cases hp
          rw [hacts]
          exact hrun
        · have hsplit : w.events ++ [ev] = (pre ++ p :: e :: post') ++ [x] := by
            simpa using heq
          exact hw.chained _ _ _ _ (List.append_inj' hsplit rfl).1

theorem reachable_logChained (h : Reachable spec w) : LogChained spec w :=
  h.invariant ⟨by simp [World.start], by simp [World.start], rfl⟩
    fun _ _ _ _ hw hstep _ => step_logChained hw hstep

def namedBy (spec : AccountSpec) (events : List AccountEvent) : List String :=
  initialLotIds spec ++ events.flatMap AccountEvent.lotKeys

variable {pre post : List AccountEvent}

theorem LogChained.keys (h : LogChained spec w) {e : AccountEvent}
    (hevents : w.events = pre ++ e :: post) :
    (∀ k l, e.state.stockLots.get? k = some l → k ∈ namedBy spec (pre ++ [e])) ∧
      ∀ k ∈ namedBy spec (pre ++ [e]), KeyTaken e.state k := by
  induction pre using List.reverseRecOn generalizing e post with
  | nil =>
      obtain ⟨hacts, -, opens, hlots⟩ := h.opened e post hevents
      have hkeys : e.lotKeys = [] := by rw [AccountEvent.lotKeys_eq, hacts]; rfl
      simp only [namedBy, List.nil_append, List.flatMap_cons, List.flatMap_nil, hkeys,
        List.append_nil, hlots]
      exact ⟨fun k l hl => initialState_keys.mp ⟨l, hl⟩, fun k hk =>
        Or.inl (by rw [hlots]; exact initialState_keys.mpr hk)⟩
  | append_singleton pre p ih =>
      rw [List.append_assoc, List.singleton_append] at hevents
      obtain ⟨hnamed, htaken⟩ := ih hevents
      obtain ⟨hkeeps, hmade⟩ := (h.chained _ _ _ _ hevents).keys
      rw [← AccountEvent.lotKeys_eq] at hkeeps hmade
      have hsplit : namedBy spec (pre ++ [p] ++ [e])
          = namedBy spec (pre ++ [p]) ++ e.lotKeys := by
        simp [namedBy]
      rw [hsplit]
      refine ⟨fun k l hl => List.mem_append.mpr ?_, fun k hk => ?_⟩
      · cases hold : p.state.stockLots.get? k with
        | none => exact Or.inr (hkeeps.lots.2 k l hl hold)
        | some l' => exact Or.inl (hnamed k l' hold)
      · rcases List.mem_append.mp hk with hk | hk
        · exact (htaken k hk).kept hkeeps
        · exact hmade k hk

theorem LogChained.actions (h : LogChained spec w)
    {e : AccountEvent} (hevents : w.events = pre ++ e :: post) (hs : w.account = some s) :
    ActionsKept e.state.corporateActions s.corporateActions := by
  induction post generalizing pre e with
  | nil =>
      have hlast := h.projected
      rw [hs, hevents, List.getLast?_append_cons, List.getLast?_singleton] at hlast
      cases hlast
      exact ActionsKept.refl _
  | cons f post ih =>
      have hstep := (h.chained _ _ _ _ hevents).keys.1.actions
      have hnext : w.events = (pre ++ [e]) ++ f :: post := by
        rw [hevents, List.append_assoc, List.singleton_append]
      exact hstep.trans (ih hnext)

/-! ## Purchases -/

/-- A purchase filled in a run: the events before the one that filled it, the
steps of that event before and after the fill, the fill, and the account it
found and left. -/
structure Purchase where
  pre : List AccountEvent
  last : AccountEvent
  event : AccountEvent
  before : List Act
  after : List Act
  identity : String
  orderId : String
  quantity : ℤ
  price : ℚ
  at_ : Instant
  found : AccountState
  left : AccountState

namespace Purchase

def act (p : Purchase) : Act :=
  (p.identity, .account (.fill p.orderId p.quantity p.price p.at_))

structure MadeIn (spec : AccountSpec) (w : World) (p : Purchase) : Prop where
  logged : ∃ post, w.events = p.pre ++ p.last :: p.event :: post
  acts : p.event.acts = p.before ++ p.act :: p.after
  reached : ∃ es, LedgerRun spec .any p.last.state p.before es p.found
  filled : ∃ es, LedgerStep spec .any p.found [p.act] es p.left
  completed : ∃ es, LedgerRun spec .any p.left p.after es p.event.state
  buys : ∃ o, p.found.orders.get? p.orderId = some o ∧ o.side = .buy

structure TakesNewKey (spec : AccountSpec) (w : World) (p : Purchase) : Prop where
  absent : p.found.stockLots.get? p.identity = none
  notInitial : p.identity ∉ initialLotIds spec
  notCorporate : ∀ s, w.account = some s → ∀ id item,
    s.corporateActions.get? id = some item → p.identity ∉ item.lotKeys id
  kept : ∀ k l, p.found.stockLots.get? k = some l →
    p.left.stockLots.get? k = some l

def namesBefore (spec : AccountSpec) (p : Purchase) : List String :=
  namedBy spec (p.pre ++ [p.last]) ++
    p.before.flatMap fun a => a.2.lotKeys a.1 p.found

structure NamedApart (spec : AccountSpec) (w : World) (p : Purchase) : Prop where
  before : p.identity ∉ p.namesBefore spec
  corporate : ∀ s, w.account = some s → ∀ id item,
    s.corporateActions.get? id = some item → p.identity ∉ item.lotKeys id

variable {p : Purchase}

theorem MadeIn.keys {w : World} (h : p.MadeIn spec w) (hw : LogChained spec w) :
    (∀ k l, p.found.stockLots.get? k = some l → k ∈ p.namesBefore spec) ∧
      ∀ k ∈ p.namesBefore spec, KeyTaken p.found k := by
  obtain ⟨post, hevents⟩ := h.logged
  obtain ⟨es, hreached⟩ := h.reached
  obtain ⟨hnamed, htaken⟩ := hw.keys hevents
  obtain ⟨hkeeps, hmade⟩ := hreached.keys
  refine ⟨fun k l hl => List.mem_append.mpr ?_, fun k hk => ?_⟩
  · cases hold : p.last.state.stockLots.get? k with
    | none => exact Or.inr (hkeeps.lots.2 k l hl hold)
    | some l' => exact Or.inl (hnamed k l' hold)
  · rcases List.mem_append.mp hk with hk | hk
    · exact (htaken k hk).kept hkeeps
    · exact hmade k hk

theorem MadeIn.stored {w : World} (h : p.MadeIn spec w) :
    ∃ new, p.left.stockLots = p.found.stockLots.set p.identity new := by
  obtain ⟨es, hfilled⟩ := h.filled
  obtain ⟨order, horder, hside⟩ := h.buys
  obtain ⟨o, o', hrun, hseal, hleft⟩ := LedgerStep.of_account hfilled
  obtain ⟨new, hnew⟩ := fill_stored hrun horder hside
  obtain ⟨_, _, -, -, hstate⟩ := (prepareState_ok hseal).state
  exact ⟨new, by rw [hleft, hstate]; exact hnew⟩

theorem MadeIn.takesNewKey_iff {w : World} (h : p.MadeIn spec w)
    (hw : LogChained spec w) : p.TakesNewKey spec w ↔ p.NamedApart spec w := by
  obtain ⟨hnamed, htaken⟩ := h.keys hw
  constructor
  · intro hnew
    refine ⟨fun hk => ?_, hnew.notCorporate⟩
    rcases htaken _ hk with ⟨l, hl⟩ | ⟨id, item, hitem, hk⟩
    · rw [hnew.absent] at hl
      cases hl
    · -- A corporate action of the account at the fill is one of the run's.
      obtain ⟨post, hevents⟩ := h.logged
      have hevents' : w.events = (p.pre ++ [p.last]) ++ p.event :: post := by
        simpa using hevents
      obtain ⟨s, hs⟩ : ∃ s, w.account = some s := by
        rw [hw.projected, hevents', List.getLast?_append_cons]
        exact ⟨_, by rw [List.getLast?_eq_some_getLast (List.cons_ne_nil _ _)]; rfl⟩
      obtain ⟨es1, hfilled⟩ := h.filled
      obtain ⟨es2, hcompleted⟩ := h.completed
      have hkept := (LedgerRun.single hfilled).keys.1.actions.trans
        (hcompleted.keys.1.actions.trans (hw.actions hevents' hs))
      obtain ⟨item', hitem', hterms, hentitled⟩ := hkept id item hitem
      refine hnew.notCorporate s hs id item' hitem' ?_
      rwa [CorporateItem.lotKeys_congr id hterms hentitled]
  · intro hapart
    have habsent : p.found.stockLots.get? p.identity = none := by
      cases hold : p.found.stockLots.get? p.identity with
      | none => rfl
      | some l => exact absurd (hnamed _ l hold) hapart.before
    refine ⟨habsent, fun hk => hapart.before ?_, hapart.corporate, fun k l hl => ?_⟩
    · exact List.mem_append_left _ (List.mem_append_left _ hk)
    · obtain ⟨new, hnew⟩ := h.stored
      have hne : k ≠ p.identity := fun hk => by rw [hk, habsent] at hl; cases hl
      rw [hnew, Dict.get?_set_of_ne hne, hl]

end Purchase

theorem LogChained.purchase (hw : LogChained spec w)
    {last e : AccountEvent} {before after : List Act} {id : String} {q : ℤ} {price : ℚ}
    {o : Order} (hevents : w.events = pre ++ last :: e :: post)
    (hacts : e.acts = before ++ (k, .account (.fill id q price at_)) :: after)
    (horder : e.state.orders.get? id = some o) (hside : o.side = .buy) :
    ∃ u v, (⟨pre, last, e, before, after, k, id, q, price, at_, u, v⟩ :
      Purchase).MadeIn spec w := by
  have hrun := hw.chained _ _ _ _ hevents
  rw [hacts] at hrun
  obtain ⟨u, v, es1, es2, es3, h1, h2, h3⟩ := hrun.split
  refine ⟨u, v, ⟨post, hevents⟩, hacts, ⟨es1, h1⟩, ⟨es2, h2⟩, ⟨es3, h3⟩, ?_⟩
  obtain ⟨out, sealed, hperform, hseal, rfl⟩ := h2.of_account
  obtain ⟨order, horder1, hw1⟩ := fill_writes hperform
  refine ⟨order, horder1, ?_⟩
  have hkept := ((prepareState_ok hseal).writes hw1).orders.trans h3.keys.1.orders
  obtain ⟨order', horder', hres⟩ := hkept id order horder1
  cases horder.symm.trans horder'
  have hsame : o.side = order.side := congrArg Reservation.side hres
  rw [← hsame]
  exact hside

structure PurchasesKeyed (spec : AccountSpec) (w : World) : Prop where
  recorded : ∀ pre last e post before k id q price at_ after o,
    w.events = pre ++ last :: e :: post →
    e.acts = before ++ (k, .account (.fill id q price at_)) :: after →
    e.state.orders.get? id = some o → o.side = .buy →
    ∃ u v, (⟨pre, last, e, before, after, k, id, q, price, at_, u, v⟩ :
      Purchase).MadeIn spec w
  keyed : ∀ p : Purchase, p.MadeIn spec w →
    (p.TakesNewKey spec w ↔ p.NamedApart spec w)

def sharedKey : List Command := [
  .opening "open" true,
  .acceptBatch "first" [sampleOrder "x" .buy 100 10]
    [earlyProof (sampleAt 0 600)] (sampleAt 0 600),
  .advanceMinute "day:1" (sampleMinute 601),
  .acceptBatch "second" [sampleOrder "1:x" .buy 100 10]
    [earlyProof (sampleAt 0 603)] (sampleAt 0 603),
  .advanceMinute "day" (sampleMinute 604)]

def openingKey : List Command := [
  .opening "open" true,
  .acceptBatch "first" [sampleOrder "SH600000" .buy 100 10]
    [earlyProof (sampleAt 0 600)] (sampleAt 0 600),
  .advanceMinute "initial" (sampleMinute 601)]

def lastFill (actionId key orderId : String) (minute before after : ℤ)
    (w : World) : Bool :=
  match w.events.reverse with
  | e :: last :: _ =>
      e.actionId = actionId ∧
      e.acts = [(key, .account (.fill orderId 100 10 (sampleAt 0 minute)))] ∧
      ((e.state.orders.get? orderId).any fun o => o.side = .buy) ∧
      (last.state.stockLots.get? key).isSome ∧
      sharesOver last.state.stockLots sampleSecurity = before ∧
      sharesOver e.state.stockLots sampleSecurity = after
  | _ => false

def Overwrites (spec : AccountSpec) (actionId key orderId : String)
    (before after : ℤ) : Prop :=
  ∃ (w : World) (p : Purchase), Reachable spec w ∧ p.MadeIn spec w ∧
    p.event.actionId = actionId ∧ p.identity = key ∧ p.orderId = orderId ∧
    p.quantity = 100 ∧ ¬ p.TakesNewKey spec w ∧
    sharesOver p.last.state.stockLots sampleSecurity = before ∧
    sharesOver p.event.state.stockLots sampleSecurity = after

theorem Overwrites.of_lastFill {actionId key orderId : String} {minute before after : ℤ}
    (hw : Reachable spec w) (h : lastFill actionId key orderId minute before after w = true) :
    Overwrites spec actionId key orderId before after := by
  unfold lastFill at h
  split at h
  · next e last rest hevents =>
      obtain ⟨haction, hacts, hbuys, hstored, hbefore, hafter⟩ := of_decide_eq_true h
      obtain ⟨o, ho, hside⟩ := (Option.any_eq_true _ _).mp hbuys
      obtain ⟨l, hl⟩ := Option.isSome_iff_exists.mp hstored
      have hlog : w.events = rest.reverse ++ last :: e :: [] := by
        have := congrArg List.reverse hevents
        simpa using this
      have hsplit : e.acts = [] ++ (key, .account (.fill orderId 100 10
          (sampleAt 0 minute))) :: [] := hacts
      obtain ⟨u, v, hmade⟩ := (reachable_logChained hw).purchase hlog hsplit ho
        (of_decide_eq_true hside)
      refine ⟨w, _, hw, hmade, haction, rfl, rfl, rfl, fun hnew => ?_, hbefore, hafter⟩
      obtain ⟨es, hreached⟩ := hmade.reached
      obtain ⟨l', hl'⟩ := hreached.keys.1.lots.1 key l hl
      have habsent := hnew.absent
      rw [hl'] at habsent
      cases habsent
  · cases h

end Ahunter.Sim
