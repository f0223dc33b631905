import OutcomeExchange.Runs

set_option autoImplicit false

/-! # Coherence of orders and trades

The statuses of an order and of the trade it belongs to are kept in two tables and are
changed by transactions of four services. `Coherent` is the invariant that ties the two
tables together: a trade pairs a YES order with a NO order, records their data, and
determines their status; an order with one of the three statuses of a traded order
belongs to a trade. Whatever a transaction does not check of the other table follows
from it. -/

namespace OutcomeExchange

open Txn

/-! ## Pairs of orders -/

/-- The status of both orders of a trade. -/
def TradeStatus.orderStatus : TradeStatus → OrderStatus
  | .PENDING_SETTLEMENT => .MATCH_PENDING
  | .SETTLED => .MATCHED
  | .FAILED => .SETTLEMENT_FAILED

/-- The status of an order that belongs to a trade. -/
def OrderStatus.Traded (st : OrderStatus) : Prop := ∃ ts : TradeStatus, ts.orderStatus = st

theorem TradeStatus.orderStatus_injective {a b : TradeStatus}
    (h : a.orderStatus = b.orderStatus) : a = b := by
  cases a <;> cases b <;> simp [TradeStatus.orderStatus] at h ⊢

theorem OrderStatus.not_traded_open : ¬ OrderStatus.OPEN.Traded := by
  rintro ⟨ts, h⟩
  cases ts <;> cases h

theorem OrderStatus.not_traded_cancelled : ¬ OrderStatus.CANCELLED.Traded := by
  rintro ⟨ts, h⟩
  cases ts <;> cases h

/-- The order with this identifier is one of the two orders of the trade. -/
def Trade.Has (trade : Trade) (orderId : Uuid) : Prop :=
  trade.yesOrderId = orderId ∨ trade.noOrderId = orderId

/-- The collateral of an order is its price times its quantity, and its key is no longer than
the column for it. -/
structure Order.Sound (o : Order) : Prop where
  reserved : o.reservedCents = o.priceCents * o.quantity
  reserved_pos : 0 < o.reservedCents
  quantity_pos : 0 < o.quantity
  key_length : o.idempotencyKey.length ≤ 100

/-- What a trade records of its two orders, and what it says about them. -/
structure Pairing (trade : Trade) (y n : Order) : Prop where
  yes_side : y.side = .YES
  no_side : n.side = .NO
  yes_market : y.marketId = trade.marketId
  no_market : n.marketId = trade.marketId
  yes_quantity : y.quantity = trade.quantity
  no_quantity : n.quantity = trade.quantity
  yes_price : y.priceCents = trade.yesPriceCents
  no_price : n.priceCents = trade.noPriceCents
  prices : trade.yesPriceCents + trade.noPriceCents = 100
  yes_status : y.status = trade.status.orderStatus
  no_status : n.status = trade.status.orderStatus

/-- The invariant of the tables `orders` and `trades`. -/
structure Coherent (orders : Table Order) (trades : Table Trade) : Prop where
  sound : ∀ {id o}, orders.find? id = some o → o.Sound
  pair : ∀ {id trade}, trades.find? id = some trade → ∃ y n,
    orders.find? trade.yesOrderId = some y ∧ orders.find? trade.noOrderId = some n ∧
      Pairing trade y n
  traded : ∀ {id o}, orders.find? id = some o → o.status.Traded →
    ∃ trade ∈ trades.rows, trade.Has id

/-- `Coherent` for the database. -/
def Db.Coherent (db : Db) : Prop := OutcomeExchange.Coherent db.orders db.trades

namespace Coherent

variable {orders orders' : Table Order} {trades trades' : Table Trade}

theorem empty : Coherent (Table.empty : Table Order) (Table.empty : Table Trade) where
  sound h := by cases h
  pair h := by cases h
  traded h := by cases h

/-- The order of a trade has the status the trade says. -/
theorem status_of_has (h : Coherent orders trades) {trade : Trade} (ht : trade ∈ trades.rows)
    {id : Uuid} (hid : trade.Has id) {o : Order} (ho : orders.find? id = some o) :
    o.status = trade.status.orderStatus := by
  obtain ⟨y, n, hy, hn, hp⟩ := h.pair (Table.find?_key ht)
  rcases hid with rfl | rfl
  · rw [hy] at ho
    cases ho
    exact hp.yes_status
  · rw [hn] at ho
    cases ho
    exact hp.no_status

/-- An open or cancelled order belongs to no trade. -/
theorem not_has (h : Coherent orders trades) {trade : Trade} (ht : trade ∈ trades.rows)
    {id : Uuid} {o : Order} (ho : orders.find? id = some o) (hst : ¬ o.status.Traded) :
    ¬ trade.Has id := by
  intro hid
  exact hst ⟨trade.status, (h.status_of_has ht hid ho).symm⟩

/-- An order belongs to at most one trade: two trades cannot share an order on the same
side, by the unique constraints, nor on different sides, because its side is one. -/
theorem unique (h : Coherent orders trades) {a b : Trade} (ha : a ∈ trades.rows)
    (hb : b ∈ trades.rows) {id : Uuid} (hia : a.Has id) (hib : b.Has id) : a = b := by
  obtain ⟨y, n, hy, hn, hp⟩ := h.pair (Table.find?_key ha)
  obtain ⟨y', n', hy', hn', hp'⟩ := h.pair (Table.find?_key hb)
  have hsides : ∀ {o : Order}, o.side = .YES → o.side = .NO → False := by
    intro o hyes hno
    rw [hyes] at hno
    cases hno
  rcases hia with rfl | rfl <;> rcases hib with hib | hib
  · exact trades.eq_of_clash ha hb (Or.inr (Or.inl hib.symm))
  · rw [← hib, hn'] at hy
    cases hy
    exact (hsides hp.yes_side hp'.no_side).elim
  · rw [← hib, hy'] at hn
    cases hn
    exact (hsides hp'.yes_side hp.no_side).elim
  · exact trades.eq_of_clash ha hb (Or.inr (Or.inr hib.symm))

/-- The two orders of a trade are different. -/
theorem yes_ne_no (h : Coherent orders trades) {trade : Trade} (ht : trade ∈ trades.rows) :
    trade.yesOrderId ≠ trade.noOrderId := by
  obtain ⟨y, n, hy, hn, hp⟩ := h.pair (Table.find?_key ht)
  intro heq
  rw [heq, hn] at hy
  cases hy
  have hside := hp.yes_side
  rw [hp.no_side] at hside
  cases hside

end Coherent

/-! ## Changes of status -/

/-- The orders `ids` are set to status `st`, and no other order changes. -/
def StatusSet (ids : List Uuid) (st : OrderStatus) (orders orders' : Table Order) : Prop :=
  ∀ id, orders'.find? id =
    (orders.find? id).map fun o => if id ∈ ids then (o.withStatus st) else o

namespace StatusSet

variable {ids : List Uuid} {st : OrderStatus} {orders orders' os : Table Order}

/-- One `save`. -/
theorem single {o : Order} {id : Uuid} (ho : orders.find? id = some o)
    (h : orders.update? (o.withStatus st) = some orders') :
    StatusSet [id] st orders orders' := by
  have hid : o.id = id := Table.key_of_find? ho
  subst hid
  intro id
  rw [Table.find?_update h ho, key_order, Order.withStatus_id]
  by_cases hid : id = o.id
  · subst hid
    rw [if_pos rfl, ho]
    simp
  · rw [if_neg hid]
    simp [hid]

/-- Two orders that were read together and are saved one after the other. -/
theorem pair {a b : Order} {ia ib : Uuid} (ha : orders.find? ia = some a)
    (hb : orders.find? ib = some b) (hsa : orders.update? (a.withStatus st) = some os)
    (hsb : os.update? (b.withStatus st) = some orders') :
    StatusSet [ia, ib] st orders orders' := by
  have hia : a.id = ia := Table.key_of_find? ha
  have hib : b.id = ib := Table.key_of_find? hb
  subst hia hib
  have hos := single ha hsa
  obtain ⟨b', hb'⟩ : ∃ b', os.find? b.id = some b' := by
    rw [hos, hb]
    exact ⟨_, rfl⟩
  intro id
  rw [Table.find?_update hsb hb', key_order, Order.withStatus_id]
  by_cases hid : id = b.id
  · subst hid
    rw [if_pos rfl, hb]
    simp
  · rw [if_neg hid, hos]
    simp [hid]

theorem swap {a b : Uuid} (h : StatusSet [a, b] st orders orders') :
    StatusSet [b, a] st orders orders' := by
  intro id
  rw [h id]
  have hmem : id ∈ [a, b] ↔ id ∈ [b, a] := by
    rw [List.mem_pair, List.mem_pair]
    exact or_comm
  simp only [hmem]

theorem find?_mem (h : StatusSet ids st orders orders') {id : Uuid} (hid : id ∈ ids) {o : Order}
    (ho : orders.find? id = some o) : orders'.find? id = some (o.withStatus st) := by
  rw [h, ho, Option.map_some, if_pos hid]

theorem find?_not_mem (h : StatusSet ids st orders orders') {id : Uuid} (hid : id ∉ ids) :
    orders'.find? id = orders.find? id := by
  rw [h]
  cases orders.find? id with
  | none => rfl
  | some o => rw [Option.map_some, if_neg hid]

/-- Where an order of the new table comes from. -/
theorem find?_some (h : StatusSet ids st orders orders') {id : Uuid} {o' : Order}
    (ho' : orders'.find? id = some o') :
    ∃ o, orders.find? id = some o ∧
      ((id ∈ ids ∧ o' = (o.withStatus st)) ∨ (id ∉ ids ∧ o' = o)) := by
  rw [h] at ho'
  obtain ⟨o, ho, rfl⟩ := Option.map_eq_some_iff.mp ho'
  refine ⟨o, ho, ?_⟩
  by_cases hid : id ∈ ids
  · exact Or.inl ⟨hid, if_pos hid⟩
  · exact Or.inr ⟨hid, if_neg hid⟩

theorem sound (h : StatusSet ids st orders orders')
    (hs : ∀ {id o}, orders.find? id = some o → o.Sound) {id : Uuid} {o' : Order}
    (ho' : orders'.find? id = some o') : o'.Sound := by
  obtain ⟨o, ho, ⟨-, rfl⟩ | ⟨-, rfl⟩⟩ := h.find?_some ho'
  · exact ⟨(hs ho).reserved, (hs ho).reserved_pos, (hs ho).quantity_pos, (hs ho).key_length⟩
  · exact hs ho

end StatusSet

/-! ## The four changes keep the invariant -/

namespace Coherent

variable {orders orders' : Table Order} {trades trades' : Table Trade}

/-- A new open order. -/
theorem insert (h : Coherent orders trades) {o : Order} (hs : o.Sound) (hopen : o.status = .OPEN)
    (hin : orders.insert? o = some orders') : Coherent orders' trades where
  sound {id o'} ho' := by
    rw [Table.find?_insert hin] at ho'
    by_cases hid : Row.key o = id
    · rw [if_pos hid] at ho'
      cases ho'
      exact hs
    · rw [if_neg hid] at ho'
      exact h.sound ho'
  pair {id trade} ht := by
    obtain ⟨y, n, hy, hn, hp⟩ := h.pair ht
    exact ⟨y, n, Table.find?_insert_of_some hin hy, Table.find?_insert_of_some hin hn, hp⟩
  traded {id o'} ho' htr := by
    rw [Table.find?_insert hin] at ho'
    by_cases hid : Row.key o = id
    · rw [if_pos hid] at ho'
      cases ho'
      rw [hopen] at htr
      exact absurd htr OrderStatus.not_traded_open
    · rw [if_neg hid] at ho'
      exact h.traded ho' htr

/-- An order without a trade changes to a status without a trade. -/
theorem cancel (h : Coherent orders trades) {id : Uuid} {o : Order} {st : OrderStatus}
    (ho : orders.find? id = some o) (hfree : ¬ o.status.Traded) (hst : ¬ st.Traded)
    (hset : StatusSet [id] st orders orders') : Coherent orders' trades where
  sound ho' := hset.sound h.sound ho'
  pair {tid trade} ht := by
    obtain ⟨y, n, hy, hn, hp⟩ := h.pair ht
    have hnot := h.not_has (Table.mem_of_find? ht) ho hfree
    have hyid : trade.yesOrderId ∉ [id] := fun hm => hnot (Or.inl (List.mem_singleton.mp hm))
    have hnid : trade.noOrderId ∉ [id] := fun hm => hnot (Or.inr (List.mem_singleton.mp hm))
    exact ⟨y, n, by rw [hset.find?_not_mem hyid, hy], by rw [hset.find?_not_mem hnid, hn], hp⟩
  traded {id' o'} ho' htr := by
    obtain ⟨o₀, ho₀, ⟨-, rfl⟩ | ⟨-, rfl⟩⟩ := hset.find?_some ho'
    · exact absurd htr hst
    · exact h.traded ho₀ htr

/-- Two orders without a trade are paired in a new trade. -/
theorem pairUp (h : Coherent orders trades) {trade : Trade} {y n : Order} {st : OrderStatus}
    (hy : orders.find? trade.yesOrderId = some y) (hn : orders.find? trade.noOrderId = some n)
    (hyfree : ¬ y.status.Traded) (hnfree : ¬ n.status.Traded)
    (hp : Pairing trade (y.withStatus st) (n.withStatus st))
    (hset : StatusSet [trade.yesOrderId, trade.noOrderId] st orders orders')
    (hin : trades.insert? trade = some trades') : Coherent orders' trades' where
  sound ho' := hset.sound h.sound ho'
  pair {tid trade'} ht := by
    rcases (Table.mem_insert hin).mp (Table.mem_of_find? ht) with ht' | rfl
    · -- an old trade has neither of the two orders
      obtain ⟨y', n', hy', hn', hp'⟩ := h.pair (Table.find?_key ht')
      have hnoty := h.not_has ht' hy hyfree
      have hnotn := h.not_has ht' hn hnfree
      have hyid : trade'.yesOrderId ∉ [trade.yesOrderId, trade.noOrderId] := by
        intro hm
        rcases List.mem_pair.mp hm with hm | hm
        · exact hnoty (Or.inl hm)
        · exact hnotn (Or.inl hm)
      have hnid : trade'.noOrderId ∉ [trade.yesOrderId, trade.noOrderId] := by
        intro hm
        rcases List.mem_pair.mp hm with hm | hm
        · exact hnoty (Or.inr hm)
        · exact hnotn (Or.inr hm)
      exact ⟨y', n', by rw [hset.find?_not_mem hyid, hy'], by rw [hset.find?_not_mem hnid, hn'],
        hp'⟩
    · exact ⟨_, _, hset.find?_mem (by simp) hy, hset.find?_mem (by simp) hn, hp⟩
  traded {id o'} ho' htr := by
    obtain ⟨o, ho, ⟨hid, rfl⟩ | ⟨-, rfl⟩⟩ := hset.find?_some ho'
    · refine ⟨trade, (Table.mem_insert hin).mpr (Or.inr rfl), ?_⟩
      exact (List.mem_pair.mp hid).imp Eq.symm Eq.symm
    · obtain ⟨trade', ht', hhas⟩ := h.traded ho htr
      exact ⟨trade', (Table.mem_insert hin).mpr (Or.inl ht'), hhas⟩

/-- A trade and both its orders change their status together. -/
theorem move (h : Coherent orders trades) {tid : Uuid} {trade : Trade} {ts : TradeStatus}
    (ht : trades.find? tid = some trade)
    (hset : StatusSet [trade.yesOrderId, trade.noOrderId] ts.orderStatus orders orders')
    (hup : trades.update? (trade.withStatus ts) = some trades') :
    Coherent orders' trades' where
  sound ho' := hset.sound h.sound ho'
  pair {tid' trade'} ht' := by
    rcases (Table.mem_update hup).mp (Table.mem_of_find? ht') with ⟨hmem, hne⟩ | ⟨rfl, -⟩
    · -- another trade shares no order with this one
      obtain ⟨y', n', hy', hn', hp'⟩ := h.pair (Table.find?_key hmem)
      have hdisjoint : ∀ id, trade'.Has id → id ∉ [trade.yesOrderId, trade.noOrderId] := by
        intro id hhas hm
        have hhas' : trade.Has id := (List.mem_pair.mp hm).imp Eq.symm Eq.symm
        have heq := h.unique hmem (Table.mem_of_find? ht) hhas hhas'
        exact hne (by rw [heq]; rfl)
      exact ⟨y', n', by rw [hset.find?_not_mem (hdisjoint _ (Or.inl rfl)), hy'],
        by rw [hset.find?_not_mem (hdisjoint _ (Or.inr rfl)), hn'], hp'⟩
    · obtain ⟨y, n, hy, hn, hp⟩ := h.pair ht
      exact ⟨_, _, hset.find?_mem (by simp) hy, hset.find?_mem (by simp) hn,
        hp.yes_side, hp.no_side, hp.yes_market, hp.no_market, hp.yes_quantity, hp.no_quantity,
        hp.yes_price, hp.no_price, hp.prices, rfl, rfl⟩
  traded {id o'} ho' htr := by
    have hkey : Row.key trade = Row.key (trade.withStatus ts) := rfl
    have hself : ∃ c ∈ trades.rows, Row.key c = Row.key (trade.withStatus ts) :=
      ⟨trade, Table.mem_of_find? ht, hkey⟩
    obtain ⟨o, ho, ⟨hid, rfl⟩ | ⟨hid, rfl⟩⟩ := hset.find?_some ho'
    · exact ⟨_, (Table.mem_update hup).mpr (Or.inr ⟨rfl, hself⟩),
        (List.mem_pair.mp hid).imp Eq.symm Eq.symm⟩
    · obtain ⟨trade', hmem, hhas⟩ := h.traded ho htr
      refine ⟨trade', (Table.mem_update hup).mpr (Or.inl ⟨hmem, fun hk => ?_⟩), hhas⟩
      have heq := trades.eq_of_key hmem (Table.mem_of_find? ht) (hk.trans hkey.symm)
      subst heq
      exact hid (List.mem_pair.mpr (hhas.imp Eq.symm Eq.symm))

/-- The startup recovery finds no orphan. -/
theorem orphanOrders_eq_nil {db : Db} (h : db.Coherent) : orphanOrders db = [] := by
  unfold orphanOrders
  rw [List.filter_eq_nil_iff]
  intro o ho horphan
  rw [Bool.and_eq_true, decide_eq_true_eq, List.all_eq_true] at horphan
  obtain ⟨trade, ht, hhas⟩ := h.traded (Table.find?_key ho)
    ⟨.PENDING_SETTLEMENT, horphan.1.symm⟩
  have hnone := horphan.2 trade ht
  rw [Bool.and_eq_true, decide_eq_true_eq, decide_eq_true_eq] at hnone
  rcases hhas with hhas | hhas
  · exact hnone.1 hhas
  · exact hnone.2 hhas

end Coherent

/-! ## Every action keeps the invariant -/

section Effect

variable {m : Mode RowId} {s t : Db}

/-- The new statuses of a move fit together. -/
def TradeMove.Consistent (v : TradeMove) : Prop := v.orderStatus = v.tradeStatus.orderStatus

theorem Moved.statusSet {v : TradeMove} {trade : Trade} (h : Moved v trade s t) :
    StatusSet [trade.yesOrderId, trade.noOrderId] v.orderStatus s.orders t.orders := by
  obtain ⟨hy, hn, -, -, -, hsy, hsn, -, -⟩ := h
  exact StatusSet.pair hy hn hsy hsn

theorem Moved.tradeSaved' {v : TradeMove} {trade : Trade} (h : Moved v trade s t) :
    s.trades.update? (trade.withStatus v.tradeStatus) = some t.trades := by
  obtain ⟨-, -, -, -, -, -, -, ht, -⟩ := h
  exact ht

theorem MovedFrom.coherent {st : TradeStatus} {v : TradeMove} {tradeId : Uuid}
    (hv : v.Consistent) (hs : s.Coherent) (h : MovedFrom st v tradeId s t) : t.Coherent := by
  obtain ⟨trade, ht, -, hmoved⟩ := h
  have hset := hmoved.statusSet
  rw [show v.orderStatus = v.tradeStatus.orderStatus from hv] at hset
  exact Coherent.move hs ht hset hmoved.tradeSaved'

theorem PlaceOrderDto.order_sound {dto : PlaceOrderDto} {userId orderId : Uuid}
    {createdAt : Timestamp} : (dto.order userId orderId createdAt).Sound where
  reserved := rfl
  reserved_pos := by
    have hp : 0 < dto.priceCents := by have := dto.price_min; omega
    have hq : 0 < dto.quantity := by have := dto.quantity_min; omega
    exact Int.mul_pos hp hq
  quantity_pos := by
    have := dto.quantity_min
    show 0 < dto.quantity
    omega
  key_length := length_varchar 100 dto.idempotencyKey

theorem Placed.coherent {userId orderId : Uuid} {dto : PlaceOrderDto} {now createdAt : Timestamp}
    (hs : s.Coherent) (h : Placed userId dto orderId now createdAt s t) : t.Coherent := by
  have hins := Coherent.insert hs PlaceOrderDto.order_sound rfl h.inserted
  rw [Db.Coherent, h.rest.2.2]
  exact hins

/-- Only a new key of the user gets an order. -/
theorem Placed.absent {userId orderId : Uuid} {dto : PlaceOrderDto} {now createdAt : Timestamp}
    (hs : s.Coherent) (h : Placed userId dto orderId now createdAt s t) :
    ¬ ∃ o ∈ s.orders.rows, o.userId = userId ∧ o.idempotencyKey = dto.idempotencyKey := by
  rintro ⟨o, ho, huser, hkey⟩
  -- the column holds the key as it is, so that order would have clashed with the new one
  have hshort : dto.idempotencyKey.length ≤ 100 :=
    hkey ▸ (Coherent.sound hs (Table.find?_key ho)).key_length
  exact (Table.insert?_eq_some h.inserted).1 o ho
    (Or.inr ⟨huser, hkey.trans (varchar_of_le hshort).symm⟩)

theorem Cancelled.statusSet {userId orderId : Uuid} {createdAt : Timestamp}
    (h : Cancelled userId orderId createdAt s t) : StatusSet [orderId] .CANCELLED s.orders t.orders := by
  obtain ⟨hfound, -, -, hsaved, -, -⟩ := h
  exact StatusSet.single hfound hsaved

theorem Cancelled.coherent {userId orderId : Uuid} {createdAt : Timestamp}
    (hs : s.Coherent) (h : Cancelled userId orderId createdAt s t) : t.Coherent := by
  obtain ⟨hfound, -, hopen, hsaved, -, -, -, htrades⟩ := h
  rw [Db.Coherent, htrades]
  refine Coherent.cancel hs hfound ?_ OrderStatus.not_traded_cancelled
    (StatusSet.single hfound hsaved)
  rw [hopen]
  exact OrderStatus.not_traded_open

/-- The clauses of the counterparty query. -/
theorem Order.complements_iff {order o : Order} :
    order.complements o = true ↔ o.marketId = order.marketId ∧
      o.side = order.side.complementary ∧ o.priceCents = 100 - order.priceCents ∧
        o.quantity = order.quantity ∧ o.status = .OPEN ∧ o.id ≠ order.id := by
  simp [Order.complements, and_assoc]

/-- **The new trade of a match**: its two orders were open, and it pairs them. -/
theorem TradeMade.paired {orderId tradeId : Uuid} (h : TradeMade orderId tradeId s t) :
    ∃ trade y n, trade.id = tradeId ∧ trade.status = .PENDING_SETTLEMENT ∧
      s.orders.find? trade.yesOrderId = some y ∧ s.orders.find? trade.noOrderId = some n ∧
      y.status = .OPEN ∧ n.status = .OPEN ∧
      Pairing trade (y.withStatus .MATCH_PENDING) (n.withStatus .MATCH_PENDING) ∧
      StatusSet [trade.yesOrderId, trade.noOrderId] .MATCH_PENDING s.orders t.orders ∧
      s.trades.insert? trade = some t.trades := by
  obtain @⟨order, other, os, hfound, hopen, hother, hcomp, hsaved, hsaved', -, hin, -⟩ := h
  obtain ⟨hmarket, hside, hprice, hqty, hopen', -⟩ := Order.complements_iff.mp hcomp
  have hid : order.id = orderId := Table.key_of_find? hfound
  subst hid
  have hset := StatusSet.pair hfound hother hsaved hsaved'
  refine ⟨matchedTrade order other tradeId, ?_⟩
  cases horder : order.side with
  | YES =>
      rw [horder] at hside
      refine ⟨order, other, rfl, rfl, ?_⟩
      simp only [matchedTrade, horder, reduceCtorEq, if_true, if_false] at hin ⊢
      refine ⟨hfound, hother, hopen, hopen', ?_, hset, hin⟩
      constructor <;> simp [TradeStatus.orderStatus, OutcomeSide.complementary, *]
  | NO =>
      rw [horder] at hside
      refine ⟨other, order, rfl, rfl, ?_⟩
      simp only [matchedTrade, horder, reduceCtorEq, if_true, if_false] at hin ⊢
      refine ⟨hother, hfound, hopen', hopen, ?_, hset.swap, hin⟩
      constructor <;> simp [TradeStatus.orderStatus, OutcomeSide.complementary, *]

theorem TradeMade.coherent {orderId tradeId : Uuid} (hs : s.Coherent)
    (h : TradeMade orderId tradeId s t) : t.Coherent := by
  obtain ⟨trade, y, n, -, -, hy, hn, hyopen, hnopen, hp, hset, hin⟩ := h.paired
  refine Coherent.pairUp hs hy hn ?_ ?_ hp hset hin
  · rw [hyopen]
    exact OrderStatus.not_traded_open
  · rw [hnopen]
    exact OrderStatus.not_traded_open

/-- **The step lemma of coherence**, for executions alone and among others. -/
theorem Db.Coherent.effect {a : Action} (hs : s.Coherent) (h : a.Effect m s t) : t.Coherent := by
  -- what each kind of transaction does to orders and trades, if anything
  have same : ∀ {t : Db}, t = s → t.Coherent := fun heq => heq ▸ hs
  cases a with
  | createWalletForUser userId walletId =>
      rcases h with heq | ⟨L, -, rfl⟩
      · exact same heq
      · exact hs
  | deposit userId dto createdAt =>
      obtain ⟨L, rfl, -⟩ := h
      exact hs
  | withdraw userId dto createdAt =>
      obtain ⟨L, rfl, -⟩ := h
      exact hs
  | createMarket closesAt marketId now =>
      obtain ⟨-, -, horders, htrades, -⟩ := h
      rw [Db.Coherent, horders, htrades]
      exact hs
  | closeMarket marketId now =>
      obtain ⟨-, -, -, horders, htrades⟩ := h
      rw [Db.Coherent, horders, htrades]
      exact hs
  | closeExpiredMarkets now =>
      obtain ⟨-, -, -, horders, htrades⟩ := h
      rw [Db.Coherent, horders, htrades]
      exact hs
  | resolveMarket marketId winningSide createdAt =>
      obtain ⟨-, -, -, -, -, -, horders, htrades⟩ := h
      rw [Db.Coherent, horders, htrades]
      exact hs
  | placeOrder userId dto orderId now createdAt => exact h.elim same (Placed.coherent hs)
  | cancelOrder userId orderId createdAt => exact Cancelled.coherent hs h
  | tryMatchOrder orderId tradeId => exact h.elim same (TradeMade.coherent hs)
  | failPendingTradeAndReleaseFunds tradeId createdAt =>
      exact h.elim same (MovedFrom.coherent rfl hs)
  | handleSettlement tradeId createdAt => exact h.elim same (MovedFrom.coherent rfl hs)
  | markSettlementFailure tradeId createdAt => exact h.elim same (MovedFrom.coherent rfl hs)
  | prepareTradeForRetry tradeId createdAt => exact h.elim same (MovedFrom.coherent rfl hs)
  | reopenOrders orders => exact same h

/-- A recovery that begins in a coherent state has nothing to reopen. -/
theorem Action.Starts.nil {a : Action} (h : a.Starts s) (hs : s.Coherent) :
    ∀ orders, a = .reopenOrders orders → orders = [] := by
  rintro orders rfl
  exact h.trans (Coherent.orphanOrders_eq_nil hs)

end Effect

/-! ## Proof rules for the two systems

An invariant may use that the states before and after a step are coherent. -/

/-- Invariants of the exchange with one transaction at a time, whose steps meet `C`. -/
theorem exchange_invariant {C : Db → Call → Prop} (I : Db → Prop) (hinit : I Db.empty)
    (hstep : ∀ (busy : RowId → Prop) (s : Db) (a : Action) (t : Db), s.Coherent → t.Coherent →
      I s → C s (.committed a) → a.Effect (.serial busy) s t → I t)
    {s : Db} (h : (exchange.restrict C).Reachable s) : s.Coherent ∧ I s := by
  refine h.invariant (fun s => s.Coherent ∧ I s) ?_ ?_
  · intro s hs
    rw [show s = Db.empty from hs]
    exact ⟨Coherent.empty, hinit⟩
  · rintro s c t ⟨hcoh, hI⟩ ⟨hC, hc⟩
    cases c with
    | committed a =>
        obtain ⟨hstarts, busy, hexec⟩ := hc
        have heff := exec_effect (hstarts.nil hcoh) hexec
        have hcoh' := hcoh.effect heff
        exact ⟨hcoh', hstep busy s a t hcoh hcoh' hI hC heff⟩
    | rolledBack a =>
        rw [show t = s from hc]
        exact ⟨hcoh, hI⟩

section Interleaved

variable {A : Action → Prop} {I : Db → Prop}

/-- What an action does among others, once it has started in a coherent state. -/
theorem interleaved_effect {s₀ s t : Db} {a : Action} {u : Unit} (h₀ : s₀.Coherent)
    (hstart : A a ∧ a.Starts s₀) (hs : s.Coherent) (h : Exec .concurrent a.prog s u t) :
    a.Effect .concurrent s t ∧ t.Coherent := by
  have heff := exec_effect (hstart.2.nil h₀) h
  exact ⟨heff, hs.effect heff⟩

/-- Invariants of the interleaved exchange. -/
theorem interleaved_invariant (I : Db → Prop) (hinit : I Db.empty)
    (hstep : ∀ (s : Db) (a : Action) (t : Db), s.Coherent → t.Coherent → I s → A a →
      a.Effect .concurrent s t → I t)
    {c : Conf dbStore Err Unit Action} (h : (interleaved A).Reachable c) :
    c.committed.Coherent ∧ I c.committed := by
  refine (Conf.invariant (I := fun s => s.Coherent ∧ I s) ?_ ?_ h).1
  · intro s hs
    rw [show s = Db.empty from hs]
    exact ⟨Coherent.empty, hinit⟩
  · rintro s₀ a s u t ⟨h₀, -⟩ hstart ⟨hs, hI⟩ hexec
    obtain ⟨heff, ht⟩ := interleaved_effect h₀ hstart hs hexec
    exact ⟨ht, hstep s a t hs ht hI hstart.1 heff⟩

/-- What one event of the interleaved exchange does to the committed state: nothing, or one
whole action, which changes only rows that its session holds. -/
theorem interleaved_step {c c' : Conf dbStore Err Unit Action} {e : Event Action}
    (h : (interleaved A).Reachable c) (hst : (interleaved A).step c e c') :
    c'.committed = c.committed ∨ ∃ i x, e = .commit i ∧ c.session i = some x ∧ A x.call ∧
      x.call.Effect .concurrent c.committed c'.committed ∧
      ∀ r, r ∉ x.held → r.slice c'.committed = r.slice c.committed := by
  have hinit : ∀ s, s = Db.empty → s.Coherent := by
    rintro s rfl
    exact Coherent.empty
  have hstep : ∀ s₀ a s (u : Unit) t, s₀.Coherent → (A a ∧ a.Starts s₀) → s.Coherent →
      Exec .concurrent a.prog s u t → t.Coherent :=
    fun s₀ a s u t h₀ hstart hs hexec => (interleaved_effect h₀ hstart hs hexec).2
  rcases Conf.step_cases hinit hstep h hst with
    hsame | ⟨s₀, i, x, u, he, hx, h₀, hstart, hexec, hframe⟩
  · exact Or.inl hsame
  · have hcoh := (Conf.invariant hinit hstep h).1
    exact Or.inr ⟨i, x, he, hx, hstart.1, (interleaved_effect h₀ hstart hcoh hexec).1, hframe⟩

/-- What a commit does, also if it changes nothing. -/
theorem interleaved_commit {c c' : Conf dbStore Err Unit Action} {i : ℕ}
    {x : Session dbStore Err Unit Action} (h : (interleaved A).Reachable c)
    (hx : c.session i = some x) (hst : (interleaved A).step c (.commit i) c') :
    x.call.Effect .concurrent c.committed c'.committed := by
  have hinit : ∀ s, s = Db.empty → s.Coherent := by
    rintro s rfl
    exact Coherent.empty
  have hstep : ∀ s₀ a s (u : Unit) t, s₀.Coherent → (A a ∧ a.Starts s₀) → s.Coherent →
      Exec .concurrent a.prog s u t → t.Coherent :=
    fun s₀ a s u t h₀ hstart hs hexec => (interleaved_effect h₀ hstart hs hexec).2
  have hcoh := (Conf.invariant hinit hstep h).1
  obtain ⟨s₀, u, h₀, hstart, hexec⟩ := Conf.commit_exec hinit hstep h hx hst
  exact (interleaved_effect h₀ hstart hcoh hexec).1

end Interleaved

/-! ## Coherence of every interleaving -/

theorem coherent_of_interleaved {A : Action → Prop} {c : Conf dbStore Err Unit Action}
    (h : (interleaved A).Reachable c) : c.committed.Coherent :=
  (interleaved_invariant (fun _ => True) trivial (fun _ _ _ _ _ _ _ _ => trivial) h).1

/-- What the two tables say of each other, spelled out. -/
structure OrderTradeCoherence (db : Db) : Prop where
  /-- an order belongs to at most one trade -/
  unique : ∀ o ∈ db.orders.rows, ∀ a ∈ db.trades.rows, ∀ b ∈ db.trades.rows,
    a.Has o.id → b.Has o.id → a = b
  /-- open and cancelled orders belong to none -/
  free : ∀ o ∈ db.orders.rows, o.status = .OPEN ∨ o.status = .CANCELLED →
    ∀ trade ∈ db.trades.rows, ¬ trade.Has o.id
  /-- the two orders of a trade exist, and it records them as they are -/
  orders : ∀ trade ∈ db.trades.rows, ∃ y n,
    db.orders.find? trade.yesOrderId = some y ∧ db.orders.find? trade.noOrderId = some n ∧
      (trade.status = .PENDING_SETTLEMENT ↔
        y.status = .MATCH_PENDING ∧ n.status = .MATCH_PENDING) ∧
      (trade.status = .SETTLED ↔ y.status = .MATCHED ∧ n.status = .MATCHED) ∧
      (trade.status = .FAILED ↔ y.status = .SETTLEMENT_FAILED ∧ n.status = .SETTLEMENT_FAILED) ∧
      (y.side = .YES ∧ n.side = .NO) ∧
      (y.marketId = trade.marketId ∧ n.marketId = trade.marketId) ∧
      (y.quantity = trade.quantity ∧ n.quantity = trade.quantity) ∧
      (y.priceCents = trade.yesPriceCents ∧ n.priceCents = trade.noPriceCents) ∧
      y.priceCents + n.priceCents = 100 ∧
      (y.reservedCents = y.priceCents * y.quantity ∧ n.reservedCents = n.priceCents * n.quantity)
  /-- the startup recovery finds nothing -/
  orphans : orphanOrders db = []

theorem Pairing.status_iff {trade : Trade} {y n : Order} (h : Pairing trade y n)
    (ts : TradeStatus) :
    trade.status = ts ↔ y.status = ts.orderStatus ∧ n.status = ts.orderStatus := by
  rw [h.yes_status, h.no_status, and_self]
  constructor
  · intro heq
    rw [heq]
  · exact TradeStatus.orderStatus_injective

theorem Coherent.spelled_out {db : Db} (h : db.Coherent) : OrderTradeCoherence db where
  unique _ _ _ ha _ hb := Coherent.unique h ha hb
  free o ho hst trade ht := by
    refine Coherent.not_has h ht (Table.find?_key ho) ?_
    rcases hst with hst | hst
    · rw [hst]
      exact OrderStatus.not_traded_open
    · rw [hst]
      exact OrderStatus.not_traded_cancelled
  orders trade ht := by
    obtain ⟨y, n, hy, hn, hp⟩ := Coherent.pair h (Table.find?_key ht)
    refine ⟨y, n, hy, hn, hp.status_iff _, hp.status_iff _, hp.status_iff _,
      ⟨hp.yes_side, hp.no_side⟩, ⟨hp.yes_market, hp.no_market⟩,
      ⟨hp.yes_quantity, hp.no_quantity⟩, ⟨hp.yes_price, hp.no_price⟩, ?_,
      (Coherent.sound h hy).reserved, (Coherent.sound h hn).reserved⟩
    rw [hp.yes_price, hp.no_price, hp.prices]
  orphans := Coherent.orphanOrders_eq_nil h

/-- **Orders and trades are coherent** in every state that an interleaving of the
transactions commits. -/
theorem orders_and_trades_coherent {A : Action → Prop} {c : Conf dbStore Err Unit Action}
    (h : (interleaved A).Reachable c) : OrderTradeCoherence c.committed :=
  Coherent.spelled_out (coherent_of_interleaved h)

/-- A state with a settled trade, and one with a trade that failed and was re-armed. -/
theorem orders_and_trades_coherent_sample :
    ∃ s t, OrderTradeCoherence s ∧ OrderTradeCoherence t ∧
      s.trades.rows.map Trade.status = [.SETTLED] ∧
      t.trades.rows.map Trade.status = [.PENDING_SETTLEMENT] := by
  have any : ∀ (s : Db) (a : Action), true = true → True := fun _ _ _ => trivial
  obtain ⟨s, hs, hsettled⟩ := interleaved_of_leads any
    (show leads (fun _ _ => true) (Sample.matching ++ [.handleSettlement Sample.trade 4])
      (fun db => db.trades.rows.map Trade.status = [.SETTLED]) = true by decide +kernel)
  obtain ⟨t, ht, hrearmed⟩ := interleaved_of_leads any
    (show leads (fun _ _ => true) (Sample.matching ++
        [.markSettlementFailure Sample.trade 4, .prepareTradeForRetry Sample.trade 5])
      (fun db => db.trades.rows.map Trade.status = [.PENDING_SETTLEMENT]) = true by
        decide +kernel)
  exact ⟨s, t, orders_and_trades_coherent hs, orders_and_trades_coherent ht,
    of_decide_eq_true hsettled, of_decide_eq_true hrearmed⟩

end OutcomeExchange
