import OutcomeExchange.SequentialRequests

set_option autoImplicit false

/-! # Time priority

Histories of requests that run one after the other, where every new order is created later
than the orders that are there. The counterparty query sorts the resting side only, so that
it is the oldest order that is taken follows from the query, but that the incoming order
overtakes nobody follows from the history: an older order with its terms would have crossed
the counterparty before (`sequential_not_crossed`).

Any operation may fail except those that keep a placement from its matching attempt. -/

namespace OutcomeExchange

open Txn Redis Jobs Async

/-- The two orders compete for the same counterparties. -/
def Order.SameTerms (a b : Order) : Prop :=
  a.marketId = b.marketId ∧ a.side = b.side ∧ a.priceCents = b.priceCents ∧ a.quantity = b.quantity

instance (a b : Order) : Decidable (a.SameTerms b) :=
  inferInstanceAs (Decidable (_ ∧ _ ∧ _ ∧ _))

/-- A new order is created later than every order that is there. -/
def InOrder (w : World) : Occurrence → Prop
  | .response (.placeOrder _ _ ids) _ => ∀ o ∈ w.db.orders.rows, o.createdAt < ids.createdAt
  | _ => True

/-- The order was cancelled, or it belongs to a trade. -/
def Db.Spent (db : Db) (id : Uuid) : Prop :=
  ∃ o, db.orders.find? id = some o ∧
    (o.status = .CANCELLED ∨ ∃ trade ∈ db.trades.rows, trade.Has id)

/-- An order that is new is later than the orders that were there. -/
def NewIsLater (s t : Db) : Prop :=
  ∀ id o, t.orders.find? id = some o →
    (∃ st, s.orders.find? id = some (o.withStatus st)) ∨
      ∀ o' ∈ s.orders.rows, o'.createdAt < o.createdAt

section Orders

variable {s t u : Db}

/-- An order that is no longer open is spent. -/
theorem spent_of_not_open (hs : s.Coherent) {id : Uuid} {o : Order}
    (ho : s.orders.find? id = some o) (hnot : o.status ≠ .OPEN) : s.Spent id := by
  refine ⟨o, ho, ?_⟩
  by_cases hcancelled : o.status = .CANCELLED
  · exact Or.inl hcancelled
  · have htraded : o.status.Traded := by
      cases hst : o.status with
      | OPEN => exact absurd hst hnot
      | MATCH_PENDING => exact ⟨.PENDING_SETTLEMENT, rfl⟩
      | MATCHED => exact ⟨.SETTLED, rfl⟩
      | CANCELLED => exact absurd hst hcancelled
      | SETTLEMENT_FAILED => exact ⟨.FAILED, rfl⟩
    exact Or.inr (Coherent.traded hs ho htraded)

theorem NewIsLater.refl (s : Db) : NewIsLater s s := fun _ o ho => Or.inl ⟨o.status, ho⟩

theorem NewIsLater.trans (h : NewIsLater s t) (hkept : OrdersKept s t) (h' : NewIsLater t u) :
    NewIsLater s u := by
  intro id o ho
  rcases h' id o ho with ⟨st, hst⟩ | hlater
  · rcases h id _ hst with ⟨st', hst'⟩ | hlater
    · exact Or.inl ⟨st', hst'⟩
    · exact Or.inr hlater
  · refine Or.inr fun o' ho' => ?_
    obtain ⟨st, hst, -⟩ := hkept _ _ (Table.find?_key ho')
    exact hlater (o'.withStatus st) (Table.mem_of_find? hst)

theorem NothingNew.newIsLater (h : NothingNew s t) : NewIsLater s t := by
  intro id o ho
  obtain ⟨st, hst, -⟩ := h.orders ho
  exact Or.inl ⟨st, hst⟩

end Orders

section Placement

variable {keyPrefix : String} {A : ServiceOp → Infra → Prop} {w w' : World} {userId : Uuid}
  {dto : PlaceOrderDto} {ids : PlacementIds} {order : OrderEntity}

/-- The one order that a placement can add is the order that it returns. -/
theorem PlacementRun.orders_before (h : PlacementRun keyPrefix A userId dto ids order w w')
    (hs : w.db.Coherent) {id : Uuid} {o : Order} (ho : w'.db.orders.find? id = some o) :
    (∃ st, w.db.orders.find? id = some (o.withStatus st)) ∨
      (∃ st, o.withStatus st = dto.order userId ids.orderId ids.createdAt) := by
  obtain @⟨busy, w₁, hexec, -, hattempted⟩ := h
  have hs₁ : w₁.db.Coherent :=
    hs.effect (exec_tx_effect hs (a := .placeOrder userId dto ids.orderId ids.now ids.createdAt)
      trivial hexec)
  -- the attempt only changes the status of orders
  have hafter : ∃ st, w₁.db.orders.find? id = some (o.withStatus st) := by
    cases hattempted with
    | nothing unmatched same =>
        rw [same] at ho
        exact ⟨o.status, ho⟩
    | matched found isOpen oldest run rest =>
        rename_i c t busy r
        have heff : (Action.tryMatchOrder order.row.id ids.tradeId).Effect _ w₁.db t :=
          exec_tx_effect hs₁ (a := .tryMatchOrder order.row.id ids.tradeId) trivial (exec_of_run run)
        obtain ⟨st, hst, -⟩ :=
          (runs_beside (uses_afterMatch_beside _ _) rest (hs₁.effect heff)).2.orders ho
        rcases orders_of_tx hs₁ (a := .tryMatchOrder order.row.id ids.tradeId) trivial
          (exec_of_run run) hst with ⟨st', hst', -⟩ | hopened
        · exact ⟨st', hst'⟩
        · exact hopened.elim
  obtain ⟨st, hst⟩ := hafter
  rcases exec_placeOrder hexec with ⟨hsame, -⟩ | ⟨-, hplaced, -⟩
  · rw [hsame] at hst
    exact Or.inl ⟨st, hst⟩
  · rw [Table.find?_insert hplaced.inserted] at hst
    split at hst
    · exact Or.inr ⟨st, (Option.some.inj hst).symm⟩
    · exact Or.inl ⟨st, hst⟩

/-- **What a placement does to the trades**: an open order that anything complements becomes a
trade with the oldest such order; otherwise the trades are as they were. -/
theorem PlacementRun.trades (h : PlacementRun keyPrefix A userId dto ids order w w')
    (hs : w.db.Coherent) :
    ((order.row.status = .OPEN → w.db.Unmatched order.row) ∧ w'.db.trades = w.db.trades) ∨
      ∃ c st, order.row.status = .OPEN ∧ w.db.OldestMatch order.row c ∧ w'.db.trades.find? ids.tradeId =
        some ((matchedTrade order.row c ids.tradeId).withStatus st) ∧
        ∀ id, id ≠ ids.tradeId → (∃ trade, w'.db.trades.find? id = some trade) →
          ∃ trade, w.db.trades.find? id = some trade := by
  obtain @⟨busy, w₁, hexec, -, hattempted⟩ := h
  have heff : (Action.placeOrder userId dto ids.orderId ids.now ids.createdAt).Effect _ w.db w₁.db :=
    exec_tx_effect hs (a := .placeOrder userId dto ids.orderId ids.now ids.createdAt) trivial hexec
  have hs₁ : w₁.db.Coherent := hs.effect heff
  have htrades : w₁.db.trades = w.db.trades := heff.trades_eq rfl
  have hfound : w₁.db.orders.find? order.row.id = some order.row := placeOrder_row hexec
  -- apart from the order itself, the placement leaves the orders as they are
  have hrows : ∀ o, o.id ≠ order.row.id → (o ∈ w₁.db.orders.rows ↔ o ∈ w.db.orders.rows) := by
    intro o hid
    rcases exec_placeOrder hexec with ⟨hsame, -⟩ | ⟨rfl, hplaced, -⟩
    · rw [hsame]
    · rw [Table.mem_insert hplaced.inserted]
      refine or_iff_left ?_
      rintro rfl
      exact hid rfl
  have hother : ∀ {o}, order.row.complements o = true → o.id ≠ order.row.id := fun hcomp =>
    (Order.complements_iff.mp hcomp).2.2.2.2.2
  cases hattempted with
  | nothing unmatched same =>
      refine Or.inl ⟨fun hopen o ho => ?_, by rw [same, htrades]⟩
      by_contra hcomp
      rw [Bool.not_eq_false] at hcomp
      have hnone := unmatched order.row hfound hopen o ((hrows o (hother hcomp)).mpr ho)
      rw [hcomp] at hnone
      cases hnone
  | matched found isOpen oldest run rest =>
      rename_i order' c t busy' r
      rw [hfound] at found
      cases found
      have hrun := exec_of_run run
      have heff' : (Action.tryMatchOrder order.row.id ids.tradeId).Effect _ w₁.db t :=
        exec_tx_effect hs₁ (a := .tryMatchOrder order.row.id ids.tradeId) trivial hrun
      have hst := hs₁.effect heff'
      have hnew := (runs_beside (uses_afterMatch_beside _ _) rest hst).2
      have honward := (runs_regular ((uses_afterMatch_beside _ _).mono
        fun op hop => hop.regular) rest hst).2
      rcases exec_tryMatchOrder_result hrun with ⟨hnone, -⟩ | ⟨matched, hr, hby⟩
      · cases hnone
      cases hr
      have hinsert : w₁.db.trades.insert? (matchedTrade order.row c ids.tradeId) = some t.trades :=
        hby.trade_inserted
      have hthere : t.trades.find? ids.tradeId = some (matchedTrade order.row c ids.tradeId) := by
        rw [Table.find?_insert hinsert]
        exact if_pos rfl
      obtain ⟨st, hmade⟩ := honward.trades hthere
      refine Or.inr ⟨c, st, isOpen, ⟨?_, oldest.complements, fun o ho hcomp => ?_⟩, hmade, ?_⟩
      · exact (hrows c (hother oldest.complements)).mp oldest.row
      · exact oldest.oldest o ((hrows o (hother hcomp)).mpr ho) hcomp
      · rintro id hid ⟨trade, htrade⟩
        obtain ⟨trade', htrade'⟩ := hnew.trades htrade
        have hne : Row.key (matchedTrade order.row c ids.tradeId) ≠ id := Ne.symm hid
        rw [show World.db _ = t from rfl, Table.find?_insert hinsert, if_neg hne, htrades] at htrade'
        exact ⟨trade', htrade'⟩

/-- An order that becomes a trade in a book without pairs that cross is the one just placed. -/
theorem PlacementRun.placed (h : PlacementRun keyPrefix A userId dto ids order w w')
    (hcrossed : ¬ w.db.Crossed) (hopen : order.row.status = .OPEN) {c : Order}
    (hc : w.db.OldestMatch order.row c) :
    order.row = dto.order userId ids.orderId ids.createdAt ∧
      ∀ o ∈ w.db.orders.rows, o.id ≠ order.row.id := by
  obtain @⟨busy, w₁, hexec, -, -⟩ := h
  rcases exec_placeOrder hexec with ⟨-, -, hmem, -⟩ | ⟨rfl, hplaced, -⟩
  · have hnone := unmatched_of_not_crossed hcrossed (hmem.resolve_left id) hopen c hc.row
    rw [hc.complements] at hnone
    cases hnone
  · refine ⟨rfl, fun o ho hid => ?_⟩
    exact (Table.insert?_eq_some hplaced.inserted).1 o ho (Or.inl hid)

/-- **The step lemma of time priority**: when a trade is made, an order with the terms of one
of its orders that was created before it is spent already. -/
theorem PlacementRun.no_overtaking (h : PlacementRun keyPrefix A userId dto ids order w w')
    (hs : w.db.Coherent) (hcrossed : ¬ w.db.Crossed)
    (hlater : ∀ o ∈ w.db.orders.rows, o.createdAt < ids.createdAt) {trade : Trade}
    (ht : w'.db.trades.find? trade.id = some trade) (hnew : w.db.trades.find? trade.id = none)
    {a b : Order} (ha : w'.db.orders.find? a.id = some a) (hb : w'.db.orders.find? b.id = some b)
    (hhas : trade.Has b.id) (hterms : a.SameTerms b) (hlt : a.createdAt < b.createdAt) :
    w.db.Spent a.id := by
  rcases h.trades hs with ⟨-, hsame⟩ | ⟨c, st, hopen, hc, hmade, hothers⟩
  · rw [hsame, hnew] at ht
    cases ht
  have hid : trade.id = ids.tradeId := by
    by_contra hne
    obtain ⟨trade', ht'⟩ := hothers trade.id hne ⟨trade, ht⟩
    rw [hnew] at ht'
    cases ht'
  rw [hid, hmade] at ht
  have htrade : (matchedTrade order.row c ids.tradeId).withStatus st = trade := Option.some.inj ht
  have hpair : b.id = order.row.id ∨ b.id = c.id := by
    rw [← htrade] at hhas
    exact matchedTrade_has (show (matchedTrade order.row c ids.tradeId).Has b.id from hhas)
  obtain ⟨horder, hfresh⟩ := h.placed hcrossed hopen hc
  obtain ⟨hmarket, hside, hprice, hquantity, hopenc, -⟩ := Order.complements_iff.mp hc.complements
  obtain ⟨htmarket, htside, htprice, htquantity⟩ := hterms
  -- the order of the trade is the new one, or the one that was found
  have hbcase : (∃ sb, b.withStatus sb = order.row) ∨ ∃ sb, b.withStatus sb = c := by
    rcases h.orders_before hs hb with ⟨sb, hsb⟩ | ⟨sb, hsb⟩
    · rcases hpair with hpair | hpair
      · exact absurd hpair (hfresh (b.withStatus sb) (Table.mem_of_find? hsb))
      · refine Or.inr ⟨sb, ?_⟩
        exact w.db.orders.eq_of_key (Table.mem_of_find? hsb) hc.row hpair
    · exact Or.inl ⟨sb, hsb.trans horder.symm⟩
  rcases h.orders_before hs ha with ⟨sa, hsa⟩ | ⟨sa, hsa⟩
  case inr =>
    have hcreated : a.createdAt = ids.createdAt := congrArg Order.createdAt hsa
    exfalso
    rcases hbcase with ⟨sb, hsb⟩ | ⟨sb, hsb⟩
    · rw [horder] at hsb
      have hcreatedb : b.createdAt = ids.createdAt := congrArg Order.createdAt hsb
      rw [hcreated, hcreatedb] at hlt
      exact lt_irrefl _ hlt
    · have hcreatedb : (b.withStatus sb).createdAt = c.createdAt := congrArg Order.createdAt hsb
      rw [Order.withStatus_createdAt] at hcreatedb
      rw [hcreated, hcreatedb] at hlt
      exact lt_asymm hlt (hlater c hc.row)
  have hrow : a.withStatus sa ∈ w.db.orders.rows := Table.mem_of_find? hsa
  by_contra hspent
  have hopena : sa = .OPEN := by
    by_contra hnot
    exact hspent (spent_of_not_open hs hsa hnot)
  rcases hbcase with ⟨sb, hsb⟩ | ⟨sb, rfl⟩
  · -- the older order and the counterparty crossed before
    rw [← hsb] at hmarket hside hprice hquantity
    refine hcrossed ⟨a.withStatus sa, hrow, c, hc.row, hopena, hopenc, ?_⟩
    refine ⟨hmarket.trans htmarket.symm, ?_, hquantity.trans htquantity.symm, ?_⟩
    · rw [hside, Order.withStatus_side, Order.withStatus_side, htside]
    · rw [Order.withStatus_priceCents] at hprice ⊢
      omega
  · -- the older order was a counterparty, too
    have hcomp : order.row.complements (a.withStatus sa) = true := by
      rw [Order.complements_iff]
      refine ⟨htmarket.trans hmarket, htside.trans hside, htprice.trans hprice,
        htquantity.trans hquantity, hopena, hfresh _ hrow⟩
    have hle := hc.oldest _ hrow hcomp
    rw [Order.withStatus_createdAt, Order.withStatus_createdAt] at hle
    exact absurd hlt (not_lt.mpr hle)

end Placement

/-! ## Histories -/

section History

variable {keyPrefix : String} {w w' : World} {es : List Occurrence}

/-- The histories of this module. -/
abbrev ordered (keyPrefix : String) : System World Occurrence :=
  (sequential keyPrefix AttemptsWork).restrict InOrder

/-- Only a placement makes a trade or adds an order. -/
theorem ordered_step_cases {e : Occurrence} (h : (ordered keyPrefix).step w e w')
    (hs : w.db.Coherent) : NothingNew w.db w'.db ∨ ∃ userId dto ids order,
      PlacementRun keyPrefix AttemptsWork userId dto ids order w w' ∧
        ∀ o ∈ w.db.orders.rows, o.createdAt < ids.createdAt := by
  by_cases he : ∃ userId dto ids r, e = .response (.placeOrder userId dto ids) r
  · obtain ⟨userId, dto, ids, r, rfl⟩ := he
    obtain ⟨hlater, hfresh, hruns⟩ := h
    rcases runs_placeOrder (fun _ _ hc => hc) hs hfresh hruns with ⟨rfl, -⟩ | ⟨order, -, hplacement⟩
    · exact Or.inl (NothingNew.refl _)
    · exact Or.inr ⟨userId, dto, ids, order, hplacement, hlater⟩
  · refine Or.inl (sequential_nothingNew h.2 hs ?_)
    rintro userId dto ids r rfl
    exact he ⟨userId, dto, ids, r, rfl⟩

/-- The orders that a run adds are later than those at its start. -/
theorem ordered_newIsLater (h : (ordered keyPrefix).Run w es w') (hs : w.db.Coherent) :
    NewIsLater w.db w'.db := by
  induction h with
  | nil => exact NewIsLater.refl _
  | snoc hrun hstep ih =>
      obtain ⟨hs₁, honward⟩ := sequential_run_onward hrun hs
      refine ih.trans honward.orders ?_
      rcases ordered_step_cases hstep hs₁ with hnew | ⟨userId, dto, ids, order, hplacement, hlater⟩
      · exact hnew.newIsLater
      · intro id o ho
        refine (hplacement.orders_before hs₁ ho).imp_right ?_
        rintro ⟨st, hst⟩ o' ho'
        have hcreated : o.createdAt = ids.createdAt := congrArg Order.createdAt hst
        rw [hcreated]
        exact hlater o' ho'

theorem ordered_reachable (h : (ordered keyPrefix).Run World.empty es w) :
    w.db.Coherent ∧ ¬ w.db.Crossed := by
  have hreach : (ordered keyPrefix).Reachable w := h.reachable (.init rfl)
  exact ⟨sequential_coherent hreach, sequential_not_crossed (fun _ _ hc => hc) hreach⟩

/-- An order of a trade is as old at the end of a run as at its start. -/
theorem Onward.order_of_trade {s t : Db} (h : Onward s t) (hs : s.Coherent) {trade : Trade}
    (ht : s.trades.find? trade.id = some trade) {o : Order} (ho : o ∈ t.orders.rows)
    (hhas : trade.Has o.id) : ∃ st, s.orders.find? o.id = some (o.withStatus st) := by
  obtain ⟨y, n, hy, hn, -⟩ := Coherent.pair hs ht
  obtain ⟨old, hold⟩ : ∃ old, s.orders.find? o.id = some old := by
    rcases hhas with hid | hid
    · exact ⟨y, hid ▸ hy⟩
    · exact ⟨n, hid ▸ hn⟩
  obtain ⟨st, hst, -⟩ := h.orders _ _ hold
  have hid : old.id = o.id := Table.key_of_find? hold
  have heq : o = old.withStatus st := t.orders.eq_of_key ho (Table.mem_of_find? hst) hid.symm
  refine ⟨old.status, ?_⟩
  rw [hold, heq]
  rfl

/-- **Time priority**: no order is overtaken by a later one with the same terms, and an order
that finds anything to be matched with is matched at once with the oldest. -/
theorem time_priority (h : (ordered keyPrefix).Run World.empty es w) :
    (∀ trade ∈ w.db.trades.rows, ∀ earlier ∈ w.db.orders.rows, ∀ later ∈ w.db.orders.rows,
        trade.Has later.id → earlier.SameTerms later → earlier.createdAt < later.createdAt →
        ∃ before e after u v, es = before ++ e :: after ∧
          (ordered keyPrefix).Run World.empty before u ∧ (ordered keyPrefix).step u e v ∧
          (ordered keyPrefix).Run v after w ∧ u.db.trades.find? trade.id = none ∧
          v.db.trades.find? trade.id ≠ none ∧ u.db.Spent earlier.id) ∧
      ∀ userId dto ids order w',
        (ordered keyPrefix).step w (.response (.placeOrder userId dto ids) (.ok order)) w' →
        order.row.status = .OPEN → (∃ o ∈ w.db.orders.rows, order.row.complements o = true) →
        ∃ c trade, w.db.OldestMatch order.row c ∧ trade ∈ w'.db.trades.rows ∧
          w.db.trades.find? trade.id = none ∧ trade.Has order.row.id ∧ trade.Has c.id := by
  constructor
  · intro trade htrade earlier hearlier later hlater hhas hterms hlt
    have hnone : ¬ World.empty.db.trades.find? trade.id ≠ none := fun hthere => hthere rfl
    have hthere : w.db.trades.find? trade.id ≠ none := by
      rw [show w.db.trades.find? trade.id = some trade from Table.find?_key htrade]
      simp
    obtain ⟨u, e, v, before, after, hbefore, hstep, hafter, hu, hv, hes⟩ :=
      h.exists_step (fun x => x.db.trades.find? trade.id ≠ none) hnone hthere
    rw [not_not] at hu
    obtain ⟨hs, hcrossed⟩ := ordered_reachable hbefore
    obtain ⟨hsv, -⟩ := sequential_onward hstep.2 hs
    obtain ⟨-, honward⟩ := sequential_run_onward hafter hsv
    refine ⟨before, e, after, u, v, hes, hbefore, hstep, hafter, hu, hv, ?_⟩
    obtain ⟨made, hmade⟩ := Option.ne_none_iff_exists'.mp hv
    rcases ordered_step_cases hstep hs with hnew | ⟨userId, dto, ids, order, hplacement, hlate⟩
    · obtain ⟨trade', htrade'⟩ := hnew.trades hmade
      rw [hu] at htrade'
      cases htrade'
    -- what the trade and its order were when the trade was made
    have hid : made.id = trade.id := Table.key_of_find? hmade
    have hmadeHas : made.Has later.id := by
      obtain ⟨st, hst⟩ := honward.trades hmade
      rw [show w.db.trades.find? trade.id = some trade from Table.find?_key htrade] at hst
      rw [Option.some.inj hst] at hhas
      exact hhas
    rw [← hid] at hu hmade
    obtain ⟨sl, hsl⟩ := honward.order_of_trade hsv hmade hlater hmadeHas
    rcases ordered_newIsLater hafter hsv _ _ (Table.find?_key hearlier) with ⟨se, hse⟩ | hafterAll
    · exact hplacement.no_overtaking (a := earlier.withStatus se) (b := later.withStatus sl) hs
        hcrossed hlate hmade hu hse hsl hmadeHas hterms hlt
    · exact absurd hlt (lt_asymm (hafterAll (later.withStatus sl) (Table.mem_of_find? hsl)))
  · intro userId dto ids order w' hstep hopen hfinds
    obtain ⟨hs, -⟩ := ordered_reachable h
    obtain ⟨-, hfresh, hruns⟩ := hstep
    rcases runs_placeOrder (fun _ _ hc => hc) hs hfresh hruns with
      ⟨-, e, he, -⟩ | ⟨order', hr, hplacement⟩
    · cases he
    cases hr
    rcases hplacement.trades hs with ⟨hnone, -⟩ | ⟨c, st, -, hc, hmade, -⟩
    · obtain ⟨o, ho, hcomp⟩ := hfinds
      have hno := hnone hopen o ho
      rw [hcomp] at hno
      cases hno
    · refine ⟨c, _, hc, Table.mem_of_find? hmade, ?_, ?_⟩
      · exact Table.find?_eq_none_iff.mpr fun trade htrade => hfresh trade htrade
      · unfold Trade.Has matchedTrade
        cases order.row.side with
        | YES => simp
        | NO => simp

end History

/-! ## Two sellers and two buyers -/

namespace Sample

def laterDto : PlaceOrderDto :=
  { yesDto with idempotencyKey := "yes-order-later", key_min := by decide }

def otherDto : PlaceOrderDto :=
  { noDto with idempotencyKey := "no-order-later", key_min := by decide }

def laterOrder : Uuid := ⟨"00000000-0000-4000-8000-000000000025", by decide⟩
def otherOrder : Uuid := ⟨"00000000-0000-4000-8000-000000000026", by decide⟩
def otherTrade : Uuid := ⟨"00000000-0000-4000-8000-000000000027", by decide⟩

/-- Alice places two orders with the same terms, and Bob two that complement them. -/
def queued : List ServiceCall :=
  openingRequests ++
  [ .placeOrder alice yesDto ⟨yesOrder, 2, 2, trade, 2⟩
  , .placeOrder alice laterDto ⟨laterOrder, 3, 3, trade, 3⟩
  , .placeOrder bob noDto ⟨noOrder, 4, 4, trade, 4⟩
  , .placeOrder bob otherDto ⟨otherOrder, 5, 5, otherTrade, 5⟩ ]

def inOrder (w : World) (q : ServiceCall) : Bool :=
  fresh w q && match q with
    | .placeOrder _ _ ids => w.db.orders.rows.all fun o => o.createdAt < ids.createdAt
    | _ => true

theorem inOrder_allows {w : World} {q : ServiceCall} (r : Except Err q.Answer)
    (h : inOrder w q = true) : q.Fresh w.db ∧ InOrder w (.response q r) := by
  unfold inOrder at h
  rw [Bool.and_eq_true] at h
  refine ⟨fresh_iff.mp h.1, ?_⟩
  cases q with
  | placeOrder userId dto ids => simpa [InOrder] using h.2
  | _ => trivial

/-- A later order with the terms of Alice's first one belongs to a trade. -/
def laterMatched (w : World) : Bool :=
  w.db.trades.rows.any fun t => w.db.orders.rows.any fun a => w.db.orders.rows.any fun b =>
    a.id = yesOrder && t.yesOrderId = b.id && a.SameTerms b && a.createdAt < b.createdAt

end Sample

/-- When Alice's later order is matched, her earlier one is spent. -/
theorem time_priority_sample : ∃ (es : List Occurrence) (w u : World) (id : Uuid),
    (ordered "olx").Run World.empty es w ∧ u.db.trades.find? id = none ∧
      w.db.trades.find? id ≠ none ∧ u.db.Spent Sample.yesOrder := by
  have hall : (Sample.respondAll Sample.inOrder Sample.queued World.empty).any
      Sample.laterMatched = true := by
    decide +kernel
  obtain ⟨w, hw, hmatched⟩ := (Option.any_eq_true _ _).mp hall
  simp only [Sample.laterMatched, List.any_eq_true, Bool.and_eq_true, decide_eq_true_eq] at hmatched
  obtain ⟨t, ht, a, ha, b, hb, ⟨⟨haid, htb⟩, hterms⟩, hlt⟩ := hmatched
  obtain ⟨es, hrun⟩ := Sample.run_of_respondAll (A := AttemptsWork) (C := InOrder)
    (fun op => ⟨fun _ => rfl, fun _ => rfl⟩) (fun w q r => Sample.inOrder_allows r) hw
  obtain ⟨-, -, -, u, -, -, -, -, -, hnone, -, hspent⟩ :=
    (time_priority hrun).1 t ht a ha b hb (Or.inl htb) hterms hlt
  refine ⟨es, w, u, t.id, hrun, hnone, ?_, haid ▸ hspent⟩
  rw [show w.db.trades.find? t.id = some t from Table.find?_key ht]
  simp

end OutcomeExchange
