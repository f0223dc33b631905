import OutcomeExchange.TradeSettlement

set_option autoImplicit false

/-! # MatchingEngineService

`tryMatchOrder` pairs an open order with the oldest open order on the other side at the
complementary price, and `recoverOrphanMatchPendingOrders` reopens, at startup, the
orders that are marked as matched without a trade. -/

namespace OutcomeExchange

open Txn

def OutcomeSide.complementary : OutcomeSide → OutcomeSide
  | .YES => .NO
  | .NO => .YES

/-- The `WHERE` clause of the counterparty query for `order`. -/
def Order.complements (order o : Order) : Bool :=
  o.marketId = order.marketId && o.side = order.side.complementary &&
    o.priceCents = 100 - order.priceCents && o.quantity = order.quantity && o.status = .OPEN &&
    o.id ≠ order.id

/-- The `ORDER BY` column of the counterparty query. -/
def orderCreatedAt : (r : RowId) → r.Slice → ℤ
  | .order _ => fun o : Option Order => (o.map Order.createdAt).getD 0
  | .market _ => fun _ => 0
  | .trade _ => fun _ => 0
  | .wallet _ => fun _ => 0

/-- The rows that match the counterparty query for `order`. -/
def counterparties (order : Order) (db : Db) : List RowId :=
  (db.orders.rows.filter fun o => order.complements o).map fun o => .order o.id

theorem mem_counterparties {order : Order} {db : Db} {r : RowId} :
    r ∈ counterparties order db ↔
      ∃ o, db.orders.find? o.id = some o ∧ order.complements o = true ∧ r = .order o.id := by
  simp only [counterparties, List.mem_map, List.mem_filter]
  constructor
  · rintro ⟨o, ⟨ho, hc⟩, rfl⟩
    exact ⟨o, Table.find?_key ho, hc, rfl⟩
  · rintro ⟨o, ho, hc, rfl⟩
    exact ⟨o, ⟨Table.mem_of_find? ho, hc⟩, rfl⟩

/-- The counterparty query: `SELECT … ORDER BY created_at FOR UPDATE SKIP LOCKED`, of which
`getOne` takes the first row. -/
def counterpartyQuery (order : Order) : Query dbStore where
  scan := counterparties order
  rank := orderCreatedAt
  scan_congr {s s'} r h := by
    rw [mem_counterparties, mem_counterparties]
    constructor
    · rintro ⟨o, ho, hc, rfl⟩
      exact ⟨o, (show s.orders.find? o.id = s'.orders.find? o.id from h) ▸ ho, hc, rfl⟩
    · rintro ⟨o, ho, hc, rfl⟩
      exact ⟨o, (show s.orders.find? o.id = s'.orders.find? o.id from h) ▸ ho, hc, rfl⟩

def findCounterparty (order : Order) : Tx (Option Order) := do
  match ← (Prog.skipLocked (counterpartyQuery order) : Tx (Option RowId)) with
  | some (.order id) => findOrderForUpdate id
  | _ => return none

/-- The trade between two orders, one on each side; `tradeId` is the identifier the
database generates. -/
def matchedTrade (order counterparty : Order) (tradeId : Uuid) : Trade :=
  let yesOrder := if order.side = .YES then order else counterparty
  let noOrder := if order.side = .NO then order else counterparty
  { id := tradeId
    marketId := order.marketId
    yesOrderId := yesOrder.id
    noOrderId := noOrder.id
    yesPriceCents := yesOrder.priceCents
    noPriceCents := noOrder.priceCents
    quantity := order.quantity
    status := .PENDING_SETTLEMENT }

/-- The status of the orders does not go into the trade. -/
theorem matchedTrade_status (order counterparty : Order) (tradeId : Uuid) (st st' : OrderStatus) :
    matchedTrade (order.withStatus st) (counterparty.withStatus st') tradeId =
      matchedTrade order counterparty tradeId := by
  unfold matchedTrade
  cases hside : order.side <;> simp [hside]

structure Matched where
  trade : Trade
  order : Order
  counterparty : Order
  deriving DecidableEq

/-- The two orders are marked as matched, and the trade between them is saved. -/
def makeTrade (order counterparty : Order) (tradeId : Uuid) : Tx (Option Matched) := do
  let order := order.withStatus .MATCH_PENDING
  let counterparty := counterparty.withStatus .MATCH_PENDING
  saveOrders [order, counterparty]
  let trade := matchedTrade order counterparty tradeId
  insertTrade trade
  return some ⟨trade, order, counterparty⟩

/-- `tryMatchOrder` from the counterparty query on, for an open order that it has locked. -/
def matchOpenOrder (order : Order) (tradeId : Uuid) : Tx (Option Matched) := do
  match ← findCounterparty order with
  | none => return none
  | some counterparty => makeTrade order counterparty tradeId

/-- The transaction of `tryMatchOrder`. -/
def tryMatchOrder (orderId tradeId : Uuid) : Tx (Option Matched) := do
  match ← findOrderForUpdate orderId with
  | none => return none
  | some order =>
      if order.status ≠ .OPEN then return none
      else matchOpenOrder order tradeId

/-! ## Startup recovery -/

/-- The query of `recoverOrphanMatchPendingOrders`, which runs outside its transaction. -/
def orphanOrders (db : Db) : List Order :=
  db.orders.rows.filter fun o => o.status = .MATCH_PENDING &&
    db.trades.rows.all fun trade => trade.yesOrderId ≠ o.id && trade.noOrderId ≠ o.id

/-- The transaction of `recoverOrphanMatchPendingOrders`. -/
def reopenOrders (orphanOrders : List Order) : Tx Unit :=
  saveOrders (orphanOrders.map fun order => order.withStatus .OPEN)

/-- The trades that `recoverPendingSettlementTrades` enqueues again. -/
def pendingTrades (db : Db) : List Trade :=
  db.trades.rows.filter fun trade => trade.status = .PENDING_SETTLEMENT

/-! ## What the transactions do -/

/-- Two open orders that complement each other become a pending trade. -/
inductive TradeMade (orderId tradeId : Uuid) (s t : Db) : Prop
  | intro {order counterparty : Order} {os : Table Order}
      (found : s.orders.find? orderId = some order)
      (isOpen : order.status = .OPEN)
      (other : s.orders.find? counterparty.id = some counterparty)
      (complements : order.complements counterparty = true)
      (saved : s.orders.update? (order.withStatus .MATCH_PENDING) = some os)
      (otherSaved : os.update? (counterparty.withStatus .MATCH_PENDING) = some t.orders)
      (columns : tradeColumns (matchedTrade order counterparty tradeId) = true)
      (inserted : s.trades.insert? (matchedTrade order counterparty tradeId) = some t.trades)
      (rest : t.ledger = s.ledger ∧ t.markets = s.markets ∧ t.outcomes = s.outcomes)

section Exec

variable {m : Mode RowId} {s t : Db}

/-- The counterparty found is an order that matches the query. Outside of concurrent
executions, none is found only if every match is locked. -/
theorem exec_findCounterparty {order : Order} {o : Option Order}
    (h : Exec m (findCounterparty order) s o t) :
    s = t ∧ match o with
      | some c => s.orders.find? c.id = some c ∧ order.complements c = true
      | none => m.stale ∨ (counterpartyQuery order).Returns s m none := by
  unfold findCounterparty at h
  obtain ⟨found, s₁, hread, h⟩ := exec_bind.mp h
  obtain ⟨rfl, hreturns⟩ := exec_skipLocked.mp hread
  -- whatever the mode, the query returns a matching order
  have hmem : ∀ r, found = some r → r ∈ counterparties order s := by
    intro r hr
    subst hr
    cases m with
    | serial busy => exact hreturns.1
    | concurrent => exact hreturns
  match found, hmem, hreturns, h with
  | none, _, hreturns, h =>
      obtain ⟨rfl, rfl⟩ := exec_pure.mp h
      exact ⟨rfl, Or.inr hreturns⟩
  | some (.order id), hmem, _, h =>
      obtain ⟨rfl, hfound⟩ := exec_findOrderForUpdate.mp h
      refine ⟨rfl, ?_⟩
      obtain ⟨c, hc, hcomp, hrow⟩ := mem_counterparties.mp (hmem _ rfl)
      cases hrow
      rcases hfound with hfound | ⟨hm, rfl⟩
      · rw [hc] at hfound
        subst hfound
        exact ⟨hc, hcomp⟩
      · exact Or.inl hm
  -- rows of the other tables never match
  | some (.market id), hmem, _, _ =>
      obtain ⟨c, -, -, hrow⟩ := mem_counterparties.mp (hmem _ rfl)
      cases hrow
  | some (.trade id), hmem, _, _ =>
      obtain ⟨c, -, -, hrow⟩ := mem_counterparties.mp (hmem _ rfl)
      cases hrow
  | some (.wallet id), hmem, _, _ =>
      obtain ⟨c, -, -, hrow⟩ := mem_counterparties.mp (hmem _ rfl)
      cases hrow

theorem exec_makeTrade {order counterparty : Order} {tradeId : Uuid} {r : Option Matched}
    (h : Exec m (makeTrade order counterparty tradeId) s r t) :
    r = some ⟨matchedTrade order counterparty tradeId, order.withStatus .MATCH_PENDING,
      counterparty.withStatus .MATCH_PENDING⟩ ∧ ∃ os : Table Order,
      s.orders.update? (order.withStatus .MATCH_PENDING) = some os ∧
      os.update? (counterparty.withStatus .MATCH_PENDING) = some t.orders ∧
      tradeColumns (matchedTrade order counterparty tradeId) = true ∧
      s.trades.insert? (matchedTrade order counterparty tradeId) = some t.trades ∧
      t.ledger = s.ledger ∧ t.markets = s.markets ∧ t.outcomes = s.outcomes := by
  unfold makeTrade at h
  obtain ⟨_, s₁, hsave, h⟩ := exec_bind.mp h
  obtain ⟨os, os', hos, hos', rfl⟩ := exec_saveOrders_pair hsave
  obtain ⟨_, s₂, hinsert, h⟩ := exec_bind.mp h
  obtain ⟨hcol, trades, htrades, rfl⟩ := exec_insertTrade.mp hinsert
  obtain ⟨rfl, rfl⟩ := exec_pure.mp h
  rw [matchedTrade_status] at hcol htrades
  dsimp only
  rw [matchedTrade_status]
  exact ⟨rfl, os, hos, hos', hcol, htrades, rfl, rfl, rfl⟩

/-- What a `tryMatchOrder` that returns `matched` has done. -/
inductive MatchedBy (orderId tradeId : Uuid) (s t : Db) : Matched → Prop
  | intro {order counterparty : Order} {os : Table Order}
      (found : s.orders.find? orderId = some order)
      (isOpen : order.status = .OPEN)
      (other : s.orders.find? counterparty.id = some counterparty)
      (complements : order.complements counterparty = true)
      (saved : s.orders.update? (order.withStatus .MATCH_PENDING) = some os)
      (otherSaved : os.update? (counterparty.withStatus .MATCH_PENDING) = some t.orders)
      (columns : tradeColumns (matchedTrade order counterparty tradeId) = true)
      (inserted : s.trades.insert? (matchedTrade order counterparty tradeId) = some t.trades)
      (rest : t.ledger = s.ledger ∧ t.markets = s.markets ∧ t.outcomes = s.outcomes) :
      MatchedBy orderId tradeId s t ⟨matchedTrade order counterparty tradeId,
        order.withStatus .MATCH_PENDING, counterparty.withStatus .MATCH_PENDING⟩

theorem MatchedBy.tradeMade {orderId tradeId : Uuid} {matched : Matched}
    (h : MatchedBy orderId tradeId s t matched) :
    matched.trade.id = tradeId ∧ TradeMade orderId tradeId s t := by
  cases h with
  | intro found isOpen other complements saved otherSaved columns inserted rest =>
      exact ⟨rfl, .intro found isOpen other complements saved otherSaved columns inserted rest⟩

/-- A `tryMatchOrder` returns what it has matched, or changes nothing. -/
theorem exec_tryMatchOrder_result {orderId tradeId : Uuid} {r : Option Matched}
    (h : Exec m (tryMatchOrder orderId tradeId) s r t) :
    (r = none ∧ t = s) ∨ ∃ matched, r = some matched ∧ MatchedBy orderId tradeId s t matched := by
  unfold tryMatchOrder at h
  obtain ⟨o, s₁, hread, h⟩ := exec_bind.mp h
  obtain ⟨rfl, hfound⟩ := exec_findOrderForUpdate.mp hread
  cases o with
  | none =>
      obtain ⟨hnone, rfl⟩ := exec_pure.mp h
      exact Or.inl ⟨hnone.symm, rfl⟩
  | some order =>
      simp only [reduceCtorEq, and_false, or_false] at hfound
      dsimp only at h
      by_cases hopen : order.status = .OPEN
      case neg =>
        rw [if_pos hopen] at h
        obtain ⟨hnone, rfl⟩ := exec_pure.mp h
        exact Or.inl ⟨hnone.symm, rfl⟩
      rw [if_neg (not_not.mpr hopen), matchOpenOrder] at h
      obtain ⟨oc, s₁, hread', h⟩ := exec_bind.mp h
      obtain ⟨rfl, hother⟩ := exec_findCounterparty hread'
      cases oc with
      | none =>
          obtain ⟨hnone, rfl⟩ := exec_pure.mp h
          exact Or.inl ⟨hnone.symm, rfl⟩
      | some counterparty =>
          obtain ⟨hreturns, os, hos, hos', hcol, htrades, hrest⟩ := exec_makeTrade h
          exact Or.inr ⟨_, hreturns,
            .intro hfound.symm hopen hother.1 hother.2 hos hos' hcol htrades hrest⟩

/-- A `tryMatchOrder` returns the trade that it makes, or changes nothing. -/
theorem exec_tryMatchOrder {orderId tradeId : Uuid} {r : Option Matched}
    (h : Exec m (tryMatchOrder orderId tradeId) s r t) :
    (r = none ∧ t = s) ∨
      ((∃ matched, r = some matched ∧ matched.trade.id = tradeId) ∧
        TradeMade orderId tradeId s t) := by
  rcases exec_tryMatchOrder_result h with hnone | ⟨matched, hr, hby⟩
  · exact Or.inl hnone
  · exact Or.inr ⟨⟨matched, hr, hby.tradeMade.1⟩, hby.tradeMade.2⟩

/-- Reopening no orders changes nothing. -/
theorem exec_reopenOrders_nil {u : Unit} (h : Exec m (reopenOrders []) s u t) : t = s :=
  (exec_pure.mp h).2.symm

end Exec

end OutcomeExchange
