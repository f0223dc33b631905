import OutcomeExchange.MarketsService

set_option autoImplicit false

/-! # OrdersService

The transactions of `placeOrder` and `cancelOrder`. The matching attempt that follows a
placement is a transaction of its own (`MatchingEngineService.lean`). -/

namespace OutcomeExchange

open Txn

/-- The order that `placeOrder` creates; `orderId` is the identifier the database
generates. -/
def PlaceOrderDto.created (dto : PlaceOrderDto) (userId orderId : Uuid) (createdAt : Timestamp) :
    Order where
  id := orderId
  userId := userId
  marketId := dto.marketId.uuid
  side := dto.side
  priceCents := dto.priceCents
  quantity := dto.quantity
  reservedCents := dto.priceCents * dto.quantity
  status := .OPEN
  idempotencyKey := dto.idempotencyKey
  createdAt := createdAt

/-- The row that it becomes. -/
def PlaceOrderDto.order (dto : PlaceOrderDto) (userId orderId : Uuid) (createdAt : Timestamp) :
    Order :=
  (dto.created userId orderId createdAt).stored

/-- An order as the services hold it: the columns of its row, but the market and the key in the
texts that the entity has. -/
structure OrderEntity where
  row : Order
  marketId : UuidString
  idempotencyKey : String

/-- The entity that is read from a row. -/
def Order.entity (o : Order) : OrderEntity := ⟨o, o.marketId, o.idempotencyKey⟩

instance : Coe Order OrderEntity := ⟨Order.entity⟩

/-- The entity that `placeOrder` has created: `save` leaves the texts of the request in it. -/
def PlaceOrderDto.entity (dto : PlaceOrderDto) (userId orderId : Uuid) (createdAt : Timestamp) :
    OrderEntity :=
  ⟨dto.order userId orderId createdAt, dto.marketId, dto.idempotencyKey⟩

/-- `orderRepo.findOne({ where: { userId, idempotencyKey } })` -/
def findOrder (userId : Uuid) (idempotencyKey : String) : Tx (Option Order) :=
  if isPgText idempotencyKey = false then Prog.throw (.query "invalid byte sequence")
  else Prog.query fun db : Db =>
    db.orders.rows.find? fun o => o.userId = userId && o.idempotencyKey = idempotencyKey

def placeOrder (userId : Uuid) (dto : PlaceOrderDto) (orderId : Uuid) (now createdAt : Timestamp) :
    Tx OrderEntity :=
  let reservedCents := dto.priceCents * dto.quantity
  if isSafeInteger reservedCents = false ∨ reservedCents ≤ 0 then
    Prog.throw (.badRequest "Invalid order reserve amount")
  else do
    match ← findOrder userId dto.idempotencyKey with
    | some existing => return existing.entity
    | none => do
        let _ ← getOpenMarketForOrderPlacement dto.marketId.uuid now
        insertOrder (dto.created userId orderId createdAt)
        let saved := dto.entity userId orderId createdAt
        let _ ← reserve userId (.int reservedCents) (EngineKey.orderReserve dto.idempotencyKey).text
          saved.row.id.text createdAt
        return saved

def cancelOrder (userId orderId : Uuid) (createdAt : Timestamp) : Tx Order := do
  match ← findOrderForUpdate orderId with
  | none => Prog.throw (.notFound "Order not found")
  | some order =>
      -- the `WHERE` clause also asks for the user
      if order.userId ≠ userId then Prog.throw (.notFound "Order not found")
      else if order.status ≠ .OPEN then
        Prog.throw (.badRequest "Only OPEN orders can be cancelled")
      else do
        let cancelled := order.withStatus .CANCELLED
        saveOrder cancelled
        let _ ← release userId (.int order.reservedCents) (EngineKey.orderCancel order.id).text
          order.id.text createdAt
        return cancelled

/-! ## What the transactions do -/

/-- A new open order is inserted, and its collateral reserved. -/
structure Placed (userId : Uuid) (dto : PlaceOrderDto) (orderId : Uuid) (now createdAt : Timestamp)
    (s t : Db) : Prop where
  market : ∃ market, s.markets.find? dto.marketId.uuid = some market ∧ market.status = .OPEN ∧
    ∀ closesAt, market.closesAt = some closesAt → now < closesAt
  columns : orderColumns (dto.created userId orderId createdAt) = true
  inserted : s.orders.insert? (dto.order userId orderId createdAt) = some t.orders
  reserved : Mutated (reserveParams userId (.int (dto.priceCents * dto.quantity))
    (EngineKey.orderReserve dto.idempotencyKey).text orderId.text createdAt) s.ledger t.ledger
  rest : t.markets = s.markets ∧ t.outcomes = s.outcomes ∧ t.trades = s.trades

/-- An open order of the user is cancelled, and its collateral released. -/
inductive Cancelled (userId orderId : Uuid) (createdAt : Timestamp) (s t : Db) : Prop
  | intro {order : Order}
      (found : s.orders.find? orderId = some order)
      (own : order.userId = userId)
      (isOpen : order.status = .OPEN)
      (saved : s.orders.update? (order.withStatus .CANCELLED) = some t.orders)
      (released : Mutated (releaseParams userId (.int order.reservedCents)
        (EngineKey.orderCancel orderId).text orderId.text createdAt) s.ledger t.ledger)
      (rest : t.markets = s.markets ∧ t.outcomes = s.outcomes ∧ t.trades = s.trades)

section Exec

variable {m : Mode RowId} {s t : Db} {userId orderId : Uuid} {now createdAt : Timestamp}

theorem exec_getOpenMarketForOrderPlacement {marketId : Uuid} {r : Market}
    (h : Exec m (getOpenMarketForOrderPlacement marketId now) s r t) :
    s = t ∧ s.markets.find? marketId = some r ∧ r.status = .OPEN ∧
      ∀ closesAt, r.closesAt = some closesAt → now < closesAt := by
  unfold getOpenMarketForOrderPlacement at h
  obtain ⟨o, s₁, hread, h⟩ := exec_bind.mp h
  obtain ⟨rfl, hfound⟩ := exec_findMarketForUpdate.mp hread
  cases o with
  | none => exact (exec_throw.mp h).elim
  | some market =>
      simp only [reduceCtorEq, and_false, or_false] at hfound
      dsimp only at h
      by_cases hopen : market.status = .OPEN
      case neg =>
        rw [if_pos hopen] at h
        exact (exec_throw.mp h).elim
      rw [if_neg (not_not.mpr hopen)] at h
      by_cases hclosed : market.closesAt.any (fun closesAt => closesAt ≤ now) = true
      · rw [if_pos hclosed] at h
        exact (exec_throw.mp h).elim
      · rw [if_neg hclosed] at h
        obtain ⟨rfl, rfl⟩ := exec_pure.mp h
        refine ⟨rfl, hfound.symm, hopen, fun closesAt hat => ?_⟩
        rw [hat] at hclosed
        simpa using hclosed

theorem exec_findOrder {key : String} {o : Option Order} (h : Exec m (findOrder userId key) s o t) :
    t = s ∧ (∀ r, o = some r →
        (m.stale ∨ r ∈ s.orders.rows) ∧ r.userId = userId ∧ r.idempotencyKey = key) ∧
      (o = none → m.stale ∨ ∀ r ∈ s.orders.rows, r.userId = userId → r.idempotencyKey ≠ key) := by
  unfold findOrder at h
  by_cases htext : isPgText key = false
  · rw [if_pos htext] at h
    exact (exec_throw.mp h).elim
  rw [if_neg htext] at h
  obtain ⟨rfl, hfound⟩ := exec_query.mp h
  refine ⟨rfl, ?_, ?_⟩
  -- what is found was there when it was read, which may be a while ago
  case refine_2 =>
    rintro rfl
    rcases hfound with hnow | ⟨hm, -⟩
    · right
      intro r hr huser hkey
      have hnot := List.find?_eq_none.mp hnow.symm r hr
      simp [huser, hkey] at hnot
    · exact Or.inl hm
  rintro r rfl
  have hkey : ∀ db : Db, some r = db.orders.rows.find? (fun o =>
      o.userId = userId && o.idempotencyKey = key) →
      r ∈ db.orders.rows ∧ r.userId = userId ∧ r.idempotencyKey = key := by
    intro db hdb
    have hp := List.find?_some hdb.symm
    rw [Bool.and_eq_true, decide_eq_true_eq, decide_eq_true_eq] at hp
    exact ⟨List.mem_of_find?_eq_some hdb.symm, hp⟩
  rcases hfound with hnow | ⟨hm, s₀, hold⟩
  · exact ⟨Or.inr (hkey s hnow).1, (hkey s hnow).2⟩
  · exact ⟨Or.inl hm, (hkey s₀ hold).2⟩

/-- A successful `placeOrder` returns an order that is there already (or, among concurrent
transactions, was there), or places one. -/
theorem exec_placeOrder {dto : PlaceOrderDto} {r : OrderEntity}
    (h : Exec m (placeOrder userId dto orderId now createdAt) s r t) :
    (t = s ∧ r = r.row.entity ∧ (m.stale ∨ r.row ∈ s.orders.rows) ∧ r.row.userId = userId ∧
        r.row.idempotencyKey = dto.idempotencyKey) ∨
      (r = dto.entity userId orderId createdAt ∧ Placed userId dto orderId now createdAt s t ∧
        (m.stale ∨ ∀ o ∈ s.orders.rows, o.userId = userId →
          o.idempotencyKey ≠ dto.idempotencyKey)) := by
  unfold placeOrder at h
  dsimp only at h
  by_cases hbad : isSafeInteger (dto.priceCents * dto.quantity) = false ∨
      dto.priceCents * dto.quantity ≤ 0
  · rw [if_pos hbad] at h
    exact (exec_throw.mp h).elim
  rw [if_neg hbad] at h
  obtain ⟨o, s₁, hread, h⟩ := exec_bind.mp h
  obtain ⟨rfl, hfound, habsent⟩ := exec_findOrder hread
  -- a row with the key is returned as it is; otherwise it is inserted and the money reserved
  cases o with
  | some existing =>
      obtain ⟨rfl, rfl⟩ := exec_pure.mp h
      exact Or.inl ⟨rfl, rfl, hfound existing rfl⟩
  | none =>
      right
      obtain ⟨market, s₁, hmarket, h⟩ := exec_bind.mp h
      obtain ⟨rfl, hm, hopen, hcloses⟩ := exec_getOpenMarketForOrderPlacement hmarket
      obtain ⟨_, s₂, hinsert, h⟩ := exec_bind.mp h
      obtain ⟨hcol, os, hos, rfl⟩ := exec_insertOrder.mp hinsert
      obtain ⟨_, s₃, hcall, h⟩ := exec_bind.mp h
      obtain ⟨L, rfl, hmut⟩ := exec_movement hcall
      obtain ⟨rfl, rfl⟩ := exec_pure.mp h
      exact ⟨rfl, ⟨⟨market, hm, hopen, hcloses⟩, hcol, hos, hmut, rfl, rfl, rfl⟩, habsent rfl⟩

/-- What a placement returns is the entity of a row. -/
theorem placeOrder_row {busy : RowId → Prop} {dto : PlaceOrderDto} {order : OrderEntity}
    (h : Exec (.serial busy) (placeOrder userId dto orderId now createdAt) s order t) :
    t.orders.find? order.row.id = some order.row := by
  rcases exec_placeOrder h with ⟨rfl, -, hmem, -⟩ | ⟨rfl, hplaced, -⟩
  · exact Table.find?_key (hmem.resolve_left id)
  · rw [Table.find?_insert hplaced.inserted]
    exact if_pos rfl

/-- It spells the market as the row does, if the request does. -/
theorem placeOrder_spelled {busy : RowId → Prop} {dto : PlaceOrderDto} {order : OrderEntity}
    (hdto : dto.marketId.Canonical)
    (h : Exec (.serial busy) (placeOrder userId dto orderId now createdAt) s order t) :
    order.marketId = order.row.marketId := by
  rcases exec_placeOrder h with ⟨-, hentity, -⟩ | ⟨rfl, -⟩
  · rw [hentity]
    rfl
  · exact hdto

/-- A placement that does not throw has a text for its key. -/
theorem placeOrder_text {dto : PlaceOrderDto} {r : OrderEntity}
    (h : Exec m (placeOrder userId dto orderId now createdAt) s r t) :
    isPgText dto.idempotencyKey = true := by
  by_contra hnul
  unfold placeOrder at h
  dsimp only at h
  by_cases hbad : isSafeInteger (dto.priceCents * dto.quantity) = false ∨
      dto.priceCents * dto.quantity ≤ 0
  · rw [if_pos hbad] at h
    exact (exec_throw.mp h).elim
  rw [if_neg hbad] at h
  obtain ⟨o, s₁, hread, -⟩ := exec_bind.mp h
  unfold findOrder at hread
  rw [if_pos (Bool.not_eq_true _ ▸ hnul)] at hread
  exact (exec_throw.mp hread).elim

theorem exec_cancelOrder {r : Order}
    (h : Exec m (cancelOrder userId orderId createdAt) s r t) :
    Cancelled userId orderId createdAt s t ∧ t.orders.find? orderId = some r := by
  unfold cancelOrder at h
  obtain ⟨o, s₁, hread, h⟩ := exec_bind.mp h
  obtain ⟨rfl, hfound⟩ := exec_findOrderForUpdate.mp hread
  cases o with
  | none => exact (exec_throw.mp h).elim
  | some order =>
      simp only [reduceCtorEq, and_false, or_false] at hfound
      dsimp only at h
      -- the guards in the order of the source
      by_cases hown : order.userId = userId
      case neg =>
        rw [if_pos hown] at h
        exact (exec_throw.mp h).elim
      rw [if_neg (not_not.mpr hown)] at h
      by_cases hopen : order.status = .OPEN
      case neg =>
        rw [if_pos hopen] at h
        exact (exec_throw.mp h).elim
      rw [if_neg (not_not.mpr hopen)] at h
      obtain ⟨_, s₁, hsave, h⟩ := exec_bind.mp h
      obtain ⟨os, hos, rfl⟩ := exec_saveOrder.mp hsave
      obtain ⟨_, s₂, hcall, h⟩ := exec_bind.mp h
      obtain ⟨L, rfl, hmut⟩ := exec_movement hcall
      obtain ⟨rfl, rfl⟩ := exec_pure.mp h
      have hid : order.id = orderId := Table.key_of_find? hfound.symm
      subst hid
      exact ⟨.intro hfound.symm hown hopen hos hmut ⟨rfl, rfl, rfl⟩,
        Table.find?_update_self hos hfound.symm⟩

end Exec

end OutcomeExchange
