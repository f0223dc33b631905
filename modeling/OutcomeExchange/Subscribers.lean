import OutcomeExchange.Async.Publication
import OutcomeExchange.ProjectionAgreement

set_option autoImplicit false

/-! # What subscribers see

A call that changes the projection of a market reads its order book afterwards, in several
commands, and emits it. The invariant (`Converging`) is that the last order book emitted for a
market is the present one, or a call in flight is bound to emit the present one.

Two steps can break it (`Untimely`): a call emits an order book that has changed since it was
read, or the enqueue of a settlement fails after the matched orders have been removed; either
is harmless if another call is still to emit the present order book. -/

namespace OutcomeExchange

open Txn Redis Async

/-! ## Messages -/

/-- The order book that was emitted last for a market. -/
def lastOrderBook (emitted : List Message) (marketId : UuidString) : Option OrderBookView :=
  emitted.findSome? fun
    | .orderBookUpdate marketId' orderBook => if marketId' = marketId then some orderBook else none
    | _ => none

/-- The last order book that was emitted for the market is what a reader would get now. -/
def UpToDate (keyPrefix : String) (w : World) (marketId : UuidString) : Prop :=
  ∃ orderBook, lastOrderBook w.emitted marketId = some orderBook ∧
    getOrderBook keyPrefix w.redis marketId = .ok orderBook

def ServiceOp.isEnqueue : ServiceOp → Bool
  | .addJob _ => true
  | _ => false

/-- Neither Redis nor a broadcast fails. -/
def BroadcastWorks (op : ServiceOp) (c : Infra) : Prop :=
  op.isRedis = true ∨ op.isEmit = true → c.failing = none

/-- The enqueue does not fail either. -/
def EnqueueWorks (op : ServiceOp) (c : Infra) : Prop :=
  op.isRedis = true ∨ op.isEmit = true ∨ op.isEnqueue = true → c.failing = none

/-! ## Reading an order book -/

/-- The commands that read the order book of a market. -/
def ReadsBook (w : World) (marketId : Uuid) : ServiceOp → Prop
  | .zrevrange marketId' _ => marketId' = marketId
  | .zrange marketId' _ => marketId' = marketId
  | .hmget orderId => ∃ o ∈ w.db.orders.rows, o.marketId = marketId ∧ o.id.text = orderId
  | _ => False

/-- The message with the present order book of the market. -/
def SendsBook (keyPrefix : String) (w : World) (marketId : Uuid) : ServiceOp → Prop
  | .emit (.orderBookUpdate marketId' orderBook) =>
      marketId' = marketId ∧ getOrderBook keyPrefix w.redis marketId = .ok orderBook
  | _ => False

/-- Reading and emitting the order book of a market. -/
def bookOf (keyPrefix : String) (marketId : Uuid) : Publication (machine keyPrefix) where
  Allowed := EnqueueWorks
  Sound := World.Sound keyPrefix
  Reads w op := ReadsBook w marketId op
  Current w op := SendsBook keyPrefix w marketId op

section Reading

open MatchingEngineBroadcastService

variable {keyPrefix : String} {w w' : World} {marketId : Uuid}

theorem getOrderBook_eq (hw : w.Sound keyPrefix) : getOrderBook keyPrefix w.redis marketId =
    .ok ⟨marketId,
      levelsOf keyPrefix w.redis
        ((sideSet keyPrefix w.redis marketId .YES).map Entry.member).reverse,
      levelsOf keyPrefix w.redis ((sideSet keyPrefix w.redis marketId .NO).map Entry.member)⟩ := by
  have hyes := Store.zrange_of_forZSet (hw.typed.sides marketId .YES)
  have hno := Store.zrange_of_forZSet (hw.typed.sides marketId .NO)
  unfold getOrderBook Store.zrevrange
  rw [hyes, hno]
  rfl

/-- What the sorted sets of a market hold are identifiers of its orders. -/
theorem orders_of_side (hw : w.Sound keyPrefix) {side : OutcomeSide} {orderId : String}
    (h : orderId ∈ (sideSet keyPrefix w.redis marketId side).map Entry.member) :
    ∃ o ∈ w.db.orders.rows, o.marketId = marketId ∧ o.id.text = orderId := by
  obtain ⟨e, he, rfl⟩ := List.mem_map.mp h
  obtain ⟨o, ho, hat, rfl, -⟩ := hw.filed marketId side e he
  exact ⟨o, ho, Uuid.string_injective hat.1, rfl⟩

theorem yields_hmgets {orderIds : List String}
    (h : ∀ orderId ∈ orderIds, ∃ o ∈ w.db.orders.rows, o.marketId = marketId ∧ o.id.text = orderId) :
    (OrderBookProjectionService.hmgets orderIds).Yields (bookOf keyPrefix marketId) w
      (orderIds.map fun orderId =>
        w.redis.hmget (getOrderHashKey keyPrefix orderId) levelFields) := by
  induction orderIds with
  | nil => rfl
  | cons orderId orderIds ih =>
      have hreply : (ServiceOp.hmget orderId).call.Yields (bookOf keyPrefix marketId) w
          (w.redis.hmget (getOrderHashKey keyPrefix orderId) levelFields) := by
        refine Code.yields_call (h orderId (List.mem_cons_self ..)) fun c hc => ?_
        rw [machine_works (hc (Or.inl rfl))]
        rfl
      have hreplies := ih fun id hid => h id (List.mem_cons_of_mem _ hid)
      exact Code.yields_bind hreply (Code.yields_bind hreplies rfl)

/-- Read without interruption, the order book is what Redis holds. -/
theorem yields_getOrderBook (hw : w.Sound keyPrefix) {orderBook : OrderBookView}
    (h : getOrderBook keyPrefix w.redis marketId = .ok orderBook) :
    (OrderBookProjectionService.getOrderBook marketId).Yields (bookOf keyPrefix marketId) w
      orderBook := by
  rw [getOrderBook_eq hw] at h
  cases h
  have hyes := Store.zrange_of_forZSet (hw.typed.sides marketId .YES)
  have hno := Store.zrange_of_forZSet (hw.typed.sides marketId .NO)
  refine Code.yields_bind (Code.yields_call rfl fun c hc => ?_)
    (Code.yields_bind (Code.yields_call rfl fun c hc => ?_)
      (Code.yields_bind (yields_hmgets fun orderId hid => ?_)
        (Code.yields_bind (yields_hmgets fun orderId hid => ?_) rfl)))
  · rw [machine_works (hc (Or.inl rfl))]
    simp only [World.perform, Store.zrevrange]
    rw [hyes]
    rfl
  · rw [machine_works (hc (Or.inl rfl))]
    simp only [World.perform]
    rw [hno]
    rfl
  · exact orders_of_side hw (List.mem_reverse.mp hid)
  · exact orders_of_side hw hid

/-- A broadcast emits the present order book. -/
theorem delivers_broadcastOrderBookUpdate (hw : w.Sound keyPrefix) :
    (broadcastOrderBookUpdate marketId).Delivers (bookOf keyPrefix marketId) w :=
  Code.delivers_of_yields (yields_getOrderBook hw (getOrderBook_eq hw))
    (Code.delivers_call ⟨rfl, getOrderBook_eq hw⟩)

end Reading

/-! ## What does not concern the order book of a market -/

/-- The part of Redis from which the order book of the market is read. -/
structure SameBook (keyPrefix : String) (marketId : Uuid) (w w' : World) : Prop where
  sides : ∀ side, w'.redis (getOrderBookSideKey keyPrefix marketId side) =
    w.redis (getOrderBookSideKey keyPrefix marketId side)
  hashes : ∀ o ∈ w.db.orders.rows, o.marketId = marketId →
    w'.redis (getOrderHashKey keyPrefix o.id.text) = w.redis (getOrderHashKey keyPrefix o.id.text)
  kept : OrdersKept w.db w'.db

section SameBook

variable {keyPrefix : String} {w w' : World} {marketId : Uuid}

theorem SameBook.of_redis (hredis : w'.redis = w.redis) (hkept : OrdersKept w.db w'.db) :
    SameBook keyPrefix marketId w w' := by
  constructor
  · intro side
    rw [hredis]
  · intro o _ _
    rw [hredis]
  · exact hkept

theorem SameBook.getOrderBook_eq (h : SameBook keyPrefix marketId w w') (hw : w.Sound keyPrefix) :
    getOrderBook keyPrefix w'.redis marketId = getOrderBook keyPrefix w.redis marketId := by
  have hlevels : ∀ orderIds : List String,
      (∀ orderId ∈ orderIds, ∃ o ∈ w.db.orders.rows, o.marketId = marketId ∧ o.id.text = orderId) →
      levelsOf keyPrefix w'.redis orderIds = levelsOf keyPrefix w.redis orderIds := by
    intro orderIds hids
    unfold levelsOf
    refine congrArg buildLevels (List.map_congr_left fun orderId hid => ?_)
    obtain ⟨o, ho, hmarket, rfl⟩ := hids orderId hid
    exact Store.hmget_congr (h.hashes o ho hmarket) levelFields
  have hyes := Store.zrange_of_forZSet (hw.typed.sides marketId .YES)
  have hno := Store.zrange_of_forZSet (hw.typed.sides marketId .NO)
  rw [OutcomeExchange.getOrderBook_eq hw]
  unfold getOrderBook Store.zrevrange
  rw [Store.zrange_congr (h.sides .YES), Store.zrange_congr (h.sides .NO), hyes, hno]
  show Except.ok (OrderBookView.mk marketId
    (levelsOf keyPrefix w'.redis ((sideSet keyPrefix w.redis marketId .YES).map Entry.member).reverse)
    (levelsOf keyPrefix w'.redis ((sideSet keyPrefix w.redis marketId .NO).map Entry.member))) = _
  rw [hlevels _ fun orderId hid => orders_of_side hw (List.mem_reverse.mp hid),
    hlevels _ fun orderId hid => orders_of_side hw hid]

/-- What a call has read so far is still there. -/
theorem SameBook.delivers (h : SameBook keyPrefix marketId w w') (hw : w.Sound keyPrefix)
    {p : Service Unit} (hp : p.Delivers (bookOf keyPrefix marketId) w) :
    p.Delivers (bookOf keyPrefix marketId) w' := by
  refine Code.delivers_congr (fun op hop => ?_) (fun op hop => ?_) hp
  · show SendsBook keyPrefix w' marketId op
    unfold SendsBook
    rw [h.getOrderBook_eq hw]
    exact hop
  · cases op with
    | zrevrange marketId' side =>
        have hmarket : marketId' = marketId := hop
        refine ⟨hop, fun c hc => ?_⟩
        rw [machine_works (hc (Or.inl rfl)), machine_works (hc (Or.inl rfl))]
        simp only [World.perform, Store.zrevrange, hmarket]
        rw [Store.zrange_congr (h.sides side)]
    | zrange marketId' side =>
        have hmarket : marketId' = marketId := hop
        refine ⟨hop, fun c hc => ?_⟩
        rw [machine_works (hc (Or.inl rfl)), machine_works (hc (Or.inl rfl))]
        simp only [World.perform, hmarket]
        rw [Store.zrange_congr (h.sides side)]
    | hmget orderId =>
        obtain ⟨o, ho, hmarket, rfl⟩ := hop
        obtain ⟨st, hst, -⟩ := h.kept o.id o (Table.find?_key ho)
        refine ⟨⟨o.withStatus st, Table.mem_of_find? hst, hmarket, rfl⟩, fun c hc => ?_⟩
        rw [machine_works (hc (Or.inl rfl)), machine_works (hc (Or.inl rfl))]
        simp only [World.perform]
        rw [Store.hmget_congr (h.hashes o ho hmarket)]
    | _ => exact hop.elim

end SameBook

/-! ## What the calls have to do -/

section Contract

open MatchingEngineBroadcastService

variable {keyPrefix : String} {marketId : Uuid} {α β : Type} {w : World}

/-- Whatever the world is by then, the code is bound to emit the present order book. -/
def WillBroadcast (keyPrefix : String) (marketId : Uuid) (p : Service α) : Prop :=
  ∀ w : World, w.Sound keyPrefix → p.Delivers (bookOf keyPrefix marketId) w

/-- After a placement, and after a change of the projection, the order book is to be emitted. -/
def OwesBroadcast (keyPrefix : String) :
    (op : ServiceOp) → Except Err op.Answer → {α : Type} → Service α → Prop
  | .transaction (.placeOrder _ _ _ _ _), .ok order, _, p =>
      WillBroadcast keyPrefix (OrderEntity.row order).marketId p
  | .projectOpenOrder order, .ok _, _, p => WillBroadcast keyPrefix order.row.marketId p
  | .removeOpenOrder order, .ok _, _, p => WillBroadcast keyPrefix order.marketId p
  | _, _, _, _ => True

def broadcastContract (keyPrefix : String) : Contract (machine keyPrefix) BookWorks where
  rely _ _ := True
  rely_refl _ := trivial
  rely_trans _ _ := trivial
  before _ _ := True
  rely_step _ _ := trivial
  owes := OwesBroadcast keyPrefix
  owes_bind {op r _ _ _ _} h := by
    unfold OwesBroadcast at h ⊢
    split at h
    · exact fun w hw => Code.delivers_bind (h w hw)
    · exact fun w hw => Code.delivers_bind (h w hw)
    · exact fun w hw => Code.delivers_bind (h w hw)
    · trivial
  owes_attempt {op r _ _ _} h := by
    unfold OwesBroadcast at h ⊢
    split at h
    · exact fun w hw => Code.delivers_attempt (h w hw)
    · exact fun w hw => Code.delivers_attempt (h w hw)
    · exact fun w hw => Code.delivers_attempt (h w hw)
    · trivial

theorem willBroadcast_broadcastOrderBookUpdate :
    WillBroadcast keyPrefix marketId (broadcastOrderBookUpdate marketId) :=
  fun _ hw => delivers_broadcastOrderBookUpdate hw

theorem WillBroadcast.bind {p : Service α} {f : α → Service β}
    (h : WillBroadcast keyPrefix marketId p) : WillBroadcast keyPrefix marketId (p >>= f) :=
  fun w hw => Code.delivers_bind (h w hw)

theorem WillBroadcast.logged {p : Service Unit} (h : WillBroadcast keyPrefix marketId p) :
    WillBroadcast keyPrefix marketId (logged p) := fun w hw => Code.delivers_attempt (h w hw)

/-- The code that changes the projection of the market before it broadcasts it. -/
theorem WillBroadcast.after {p : Service α} {f : α → Service β} {Q : α → Prop}
    (hp : p.Returns (bookOf keyPrefix marketId) Q)
    (h : ∀ a, Q a → WillBroadcast keyPrefix marketId (f a)) :
    WillBroadcast keyPrefix marketId (p >>= f) :=
  fun w hw => Code.delivers_of_returns hp fun a ha => h a ha w hw

/-- The commands that change the projection of the market. -/
def ChangesBook (marketId : Uuid) : ServiceOp → Prop
  | .projectOpenOrder order => order.row.marketId = marketId
  | .removeOpenOrder order => order.marketId = marketId
  | _ => False

theorem answer_projectOpenOrder {c : Infra} {order : OrderEntity} (h : c.failing = none) :
    ((machine keyPrefix).step c w (.projectOpenOrder order)).1 = .ok () := by
  rw [machine_works h]
  rfl

theorem answer_removeOpenOrder {c : Infra} {order : Order} (h : c.failing = none) :
    ((machine keyPrefix).step c w (.removeOpenOrder order)).1 = .ok () := by
  rw [machine_works h]
  rfl

theorem returns_projectOpenOrder (order : OrderEntity) :
    (OrderBookProjectionService.projectOpenOrder order).Returns (bookOf keyPrefix marketId)
      fun _ => True := by
  by_cases hopen : order.row.status = .OPEN
  · rw [OrderBookProjectionService.projectOpenOrder_of_open hopen]
    exact Code.returns_call fun _ _ _ hc =>
      ⟨(), answer_projectOpenOrder (hc (Or.inl rfl)), trivial⟩
  · rw [OrderBookProjectionService.projectOpenOrder_of_not_open hopen]
    trivial

theorem returns_removeOpenOrder (order : Order) :
    (OrderBookProjectionService.removeOpenOrder order).Returns (bookOf keyPrefix marketId)
      fun _ => True :=
  Code.returns_call fun _ _ _ hc => ⟨(), answer_removeOpenOrder (hc (Or.inl rfl)), trivial⟩

/-- Code that changes the projection of the market, and then emits its order book. -/
theorem keeps_of_changes {p : Service α} {f : α → Service β} (hp : p.Uses (ChangesBook marketId))
    (hreturns : p.Returns (bookOf keyPrefix marketId) fun _ => True)
    (hf : ∀ a, WillBroadcast keyPrefix marketId (f a))
    (hf' : ∀ a w, (f a).Keeps (broadcastContract keyPrefix) w) :
    (p >>= f).Keeps (broadcastContract keyPrefix) w := by
  show (p.bind f).Keeps (broadcastContract keyPrefix) w
  induction p generalizing w with
  | pure a => exact hf' a w
  | throw e => trivial
  | await op k ih =>
      intro w₁ _
      refine ⟨trivial, fun c hc => ?_⟩
      have hrest := hreturns World.empty Infra.ok sound_empty fun _ => rfl
      cases op with
      | projectOpenOrder order =>
          have hmarket : order.row.marketId = marketId := hp.1
          subst hmarket
          rw [answer_projectOpenOrder rfl] at hrest
          rw [answer_projectOpenOrder (hc.1 rfl)]
          exact ⟨WillBroadcast.after hrest fun a _ => hf a, ih _ (hp.2 _) hrest⟩
      | removeOpenOrder order =>
          have hmarket : order.marketId = marketId := hp.1
          subst hmarket
          rw [answer_removeOpenOrder rfl] at hrest
          rw [answer_removeOpenOrder (hc.1 rfl)]
          exact ⟨WillBroadcast.after hrest fun a _ => hf a, ih _ (hp.2 _) hrest⟩
      | _ => exact hp.1.elim

/-- The contract says nothing about what neither places an order nor changes the projection. -/
theorem broadcastContract_free {op : ServiceOp} (h : op.isProjection = false)
    (ha : ∀ userId dto orderId now createdAt,
      op ≠ .transaction (.placeOrder userId dto orderId now createdAt)) :
    (broadcastContract keyPrefix).Free op := by
  refine ⟨fun w => trivial, fun r α p => ?_⟩
  cases op with
  | transaction a =>
      cases a with
      | placeOrder userId dto orderId now createdAt => exact absurd rfl (ha _ _ _ _ _)
      | _ => cases r <;> trivial
  | projectOpenOrder order => cases h
  | removeOpenOrder order => cases h
  | _ => trivial

theorem free_of_not_transaction {op : ServiceOp} (h : op.isProjection = false)
    (hop : op.isTransaction = false) : (broadcastContract keyPrefix).Free op := by
  refine broadcastContract_free h fun _ _ _ _ _ heq => ?_
  rw [heq] at hop
  cases hop

theorem uses_broadcast (marketId : UuidString) :
    (broadcastOrderBookUpdate marketId).Uses (broadcastContract keyPrefix).Free :=
  uses_broadcastOrderBookUpdate (fun _ _ => free_of_not_transaction rfl rfl)
    (fun _ _ => free_of_not_transaction rfl rfl) (fun _ => free_of_not_transaction rfl rfl)
    (fun _ => free_of_not_transaction rfl rfl) marketId

theorem uses_failPendingTradeAndReleaseFunds (tradeId : Uuid) (createdAt : Timestamp) :
    (MatchingEngineService.failPendingTradeAndReleaseFunds tradeId createdAt).Uses
      (broadcastContract keyPrefix).Free := by
  refine Code.uses_bind (Code.uses_call (broadcastContract_free rfl ?_)) fun userIds => ?_
  · intro _ _ _ _ _ heq
    cases heq
  · exact uses_broadcastBalances (fun _ => free_of_not_transaction rfl rfl)
      (fun _ => free_of_not_transaction rfl rfl) _

/-- What follows the removals of a match broadcasts, if the enqueue succeeds. -/
theorem willBroadcast_broadcastTrade (trade : Trade) :
    WillBroadcast keyPrefix trade.marketId (broadcastTradeAndOrderBookUpdate trade) := by
  refine WillBroadcast.logged (WillBroadcast.after (Q := fun _ => True) ?_ fun _ _ =>
    willBroadcast_broadcastOrderBookUpdate)
  refine Code.returns_call fun w c _ hc => ⟨(), ?_, trivial⟩
  rw [machine_works (hc (Or.inr (Or.inl rfl)))]
  rfl

theorem returns_removeMatched (matched : Matched) :
    (logged (MatchingEngineService.removeMatched matched)).Returns (bookOf keyPrefix marketId)
      fun _ => True := by
  refine Code.returns_attempt (Code.returns_bind (Q := fun removed => removed = none)
    (Code.returns_attempt (Code.returns_bind (returns_removeOpenOrder _) fun _ _ => rfl)) ?_)
  rintro removed rfl
  exact Code.returns_bind (returns_removeOpenOrder _) fun _ _ => trivial

theorem uses_removeMatched {matched : Matched} (horder : matched.order.marketId = marketId)
    (hcounterparty : matched.counterparty.marketId = marketId) :
    (logged (MatchingEngineService.removeMatched matched)).Uses (ChangesBook marketId) := by
  refine uses_logged (Code.uses_bind (Code.uses_attempt (Code.uses_bind (Code.uses_call horder)
    fun _ => trivial) fun _ => trivial) fun removed => ?_)
  refine Code.uses_bind (Code.uses_call hcounterparty) fun _ => ?_
  cases removed with
  | none => trivial
  | some e => trivial

/-- Both orders of a match and its trade are of one market. -/
theorem MatchedBy.market {orderId tradeId : Uuid} {s t : Db} {matched : Matched}
    (h : MatchedBy orderId tradeId s t matched) :
    matched.order.marketId = matched.trade.marketId ∧
      matched.counterparty.marketId = matched.trade.marketId := by
  obtain ⟨-, -, -, hcomp, -, -, -, -, -⟩ := h
  exact ⟨rfl, (Order.complements_iff.mp hcomp).1⟩

theorem keeps_afterMatch_broadcast {matched : Matched} (failedAt : Timestamp)
    (horder : matched.order.marketId = matched.trade.marketId)
    (hcounterparty : matched.counterparty.marketId = matched.trade.marketId) :
    (MatchingEngineService.afterMatch matched failedAt).Keeps (broadcastContract keyPrefix) w := by
  refine keeps_of_changes (uses_removeMatched horder hcounterparty) (returns_removeMatched matched)
    (fun _ => ?_) fun _ w => ?_
  · -- the enqueue succeeds
    refine WillBroadcast.after (Q := fun added => added = true) ?_ ?_
    · refine Code.returns_attempt (Code.returns_bind (Q := fun _ => True) ?_ fun _ _ => rfl)
      refine Code.returns_call fun w c _ hc => ⟨(), ?_, trivial⟩
      rw [machine_works (hc (Or.inr (Or.inr rfl)))]
      rfl
    · rintro added rfl
      exact willBroadcast_broadcastTrade matched.trade
  · refine Code.keeps_of_uses (Code.uses_bind (Code.uses_attempt (Code.uses_bind
      (Code.uses_call (free_of_not_transaction rfl rfl)) fun _ => Code.uses_pure _) fun _ => ?_)
      fun added => ?_) w
    · exact Code.uses_bind (uses_logged (uses_failPendingTradeAndReleaseFunds _ _)) fun _ =>
        Code.uses_pure _
    · cases added with
      | false => trivial
      | true =>
          exact uses_logged (Code.uses_bind (Code.uses_call (free_of_not_transaction rfl rfl))
            fun _ => uses_broadcast _)

theorem keeps_tryMatchOrder_broadcast (orderId tradeId : Uuid) (failedAt : Timestamp) :
    (MatchingEngineService.tryMatchOrder orderId tradeId failedAt).Keeps
      (broadcastContract keyPrefix) w := by
  refine Code.keeps_call_bind (fun _ _ => trivial) (fun _ => trivial) ?_
  intro w₁ c r w₂ _ _ hstep
  refine ⟨trivial, ?_⟩
  rcases machine_transaction hstep with ⟨e, hr, -⟩ | ⟨x, db, hr, -, -, hrun⟩
  · cases hr
  · cases hr
    rcases exec_tryMatchOrder_result (exec_of_run hrun) with ⟨rfl, -⟩ | ⟨matched, rfl, hby⟩
    · exact Code.keeps_pure _
    · exact keeps_afterMatch_broadcast failedAt hby.market.1 hby.market.2

theorem keeps_placeOrder_broadcast (userId : Uuid) (dto : PlaceOrderDto) (ids : PlacementIds) :
    (OrdersService.placeOrder userId dto ids).Keeps (broadcastContract keyPrefix) w := by
  refine Code.keeps_call_bind (fun _ _ => trivial) (fun _ => trivial) ?_
  intro w₁ c order w₂ _ hc hstep
  have hspelled : OrderEntity.marketId order = (OrderEntity.row order).marketId := by
    rcases machine_transaction hstep with ⟨e, hr, -⟩ | ⟨x, db, hr, -, -, hrun⟩
    · cases hr
    · cases hr
      exact placeOrder_spelled hc.2 (exec_of_run hrun)
  have hrest : ∀ f : Unit → Service OrderEntity,
      WillBroadcast keyPrefix (OrderEntity.row order).marketId
        (logged (broadcastOrderBookUpdate (OrderEntity.marketId order)) >>= f) := by
    intro f
    rw [hspelled]
    exact willBroadcast_broadcastOrderBookUpdate.logged.bind
  refine ⟨WillBroadcast.after (returns_projectOpenOrder order) fun _ _ => hrest _, ?_⟩
  refine keeps_of_changes ?_ (returns_projectOpenOrder order) (fun _ => hrest _) fun _ w => ?_
  · by_cases hopen : (OrderEntity.row order).status = .OPEN
    · rw [OrderBookProjectionService.projectOpenOrder_of_open hopen]
      exact Code.uses_call (I := services) rfl
    · rw [OrderBookProjectionService.projectOpenOrder_of_not_open hopen]
      exact Code.uses_pure _
  · refine Code.keeps_bind (Code.keeps_of_uses (uses_logged (uses_broadcast _)) w) fun _ w _ => ?_
    refine Code.keeps_bind (Code.keeps_attempt (keeps_tryMatchOrder_broadcast _ _ _) ?_) ?_
    · exact fun _ _ _ => Code.keeps_pure _
    · exact fun _ _ _ => Code.keeps_pure _

theorem keeps_cancelOrder_broadcast (userId orderId : Uuid) (createdAt : Timestamp) :
    (OrdersService.cancelOrder userId orderId createdAt).Keeps (broadcastContract keyPrefix) w := by
  refine Code.keeps_call_bind (fun _ _ => trivial) (fun _ => trivial) ?_
  intro w₁ c cancelled w₂ _ _ _
  refine ⟨trivial, keeps_of_changes (Code.uses_call (I := services) rfl)
    (returns_removeOpenOrder cancelled) (fun _ => ?_) fun _ w => ?_⟩
  · exact willBroadcast_broadcastOrderBookUpdate.logged.bind
  · exact Code.keeps_bind (Code.keeps_of_uses (uses_logged (uses_broadcast _)) w) fun _ _ _ =>
      Code.keeps_pure _

theorem keeps_code_broadcast (call : ExchangeCall) :
    call.code.Keeps (broadcastContract keyPrefix) w := by
  cases call with
  | placeOrder userId dto ids =>
      exact Code.keeps_bind (keeps_placeOrder_broadcast userId dto ids) fun _ _ _ =>
        Code.keeps_pure _
  | cancelOrder userId orderId createdAt =>
      exact Code.keeps_bind (keeps_cancelOrder_broadcast userId orderId createdAt) fun _ _ _ =>
        Code.keeps_pure _
  | tryMatchOrder orderId tradeId failedAt =>
      exact keeps_tryMatchOrder_broadcast orderId tradeId failedAt
  | other a h =>
      refine Code.keeps_of_uses (Code.uses_bind (Code.uses_call (broadcastContract_free rfl ?_))
        fun _ => Code.uses_pure _) w
      intro _ _ _ _ _ heq
      cases heq
      cases h

end Contract

/-! ## The invariant -/

/-- The order book of a market with orders has been emitted, or will be. -/
def Converging (keyPrefix : String) (b : Pool services Err World) : Prop :=
  ∀ marketId, (∃ o ∈ b.world.db.orders.rows, o.marketId = marketId) →
    UpToDate keyPrefix b.world marketId ∨
      b.Some fun p => p.Delivers (bookOf keyPrefix marketId) b.world

/-- The next step of a call emits an order book of a market that is no longer the present one, or
is the failing enqueue of a call that would have emitted the present one; and no other call is
bound to emit the present one. -/
def Untimely (keyPrefix : String) (b : Pool services Err World) :
    Async.Event ExchangeCall Infra → Prop
  | .begin _ _ => False
  | .step i c => ∃ marketId,
      ¬ b.Others i (fun p => p.Delivers (bookOf keyPrefix marketId) b.world) ∧
      ((∃ orderBook k, b.running i = some (.await (.emit (.orderBookUpdate marketId orderBook)) k) ∧
          getOrderBook keyPrefix b.world.redis marketId ≠ .ok orderBook) ∨
        ∃ tradeId k, b.running i = some (.await (.addJob tradeId) k) ∧ c.failing ≠ none ∧
          Code.Delivers (bookOf keyPrefix marketId) b.world
            (.await (.addJob tradeId) k : Service Unit) ∧
          ¬ UpToDate keyPrefix b.world marketId)

section Steps

variable {keyPrefix : String} {w : World} {c : Infra} {op : ServiceOp} {marketId : Uuid}

/-- What an operation is to the order book of a market: a change, after which the order book is
to be broadcast, or nothing. -/
theorem owed_or_sameBook {α : Type} {p : Service α} (hw : w.Sound keyPrefix)
    (hc : RedisWorks op c) (hbefore : Before w op)
    (howes : OwesBroadcast keyPrefix op ((machine keyPrefix).step c w op).1 p)
    (hsome : ∃ o ∈ ((machine keyPrefix).step c w op).2.db.orders.rows, o.marketId = marketId) :
    WillBroadcast keyPrefix marketId p ∨
      (SameBook keyPrefix marketId w ((machine keyPrefix).step c w op).2 ∧
        ∃ o ∈ w.db.orders.rows, o.marketId = marketId) := by
  have hkept := (kept_step keyPrefix hc hbefore hw).2
  -- what changes neither Redis nor the database changes no book
  have hsame : ((machine keyPrefix).step c w op).2.redis = w.redis →
      ((machine keyPrefix).step c w op).2.db = w.db →
      SameBook keyPrefix marketId w ((machine keyPrefix).step c w op).2 ∧
        ∃ o ∈ w.db.orders.rows, o.marketId = marketId := by
    intro hredis hdb
    rw [hdb] at hsome
    exact ⟨.of_redis hredis hkept, hsome⟩
  cases op with
  | transaction a =>
      cases hstep : (machine keyPrefix).step c w (.transaction a) with
      | mk r w' =>
          rw [hstep] at hsome howes hkept hsame
          rcases machine_transaction hstep with ⟨e, -, rfl⟩ | ⟨x, db, rfl, rfl, -, hrun⟩
          · exact Or.inr (hsame rfl rfl)
          · obtain ⟨o, ho, hmarket⟩ := hsome
            rcases orders_of_tx hw.coherent hbefore (exec_of_run hrun) (Table.find?_key ho) with
              ⟨st, hst, -⟩ | hopened
            · exact Or.inr ⟨.of_redis rfl hkept, o.withStatus st, Table.mem_of_find? hst, hmarket⟩
            · -- a new order
              left
              cases a with
              | placeOrder userId dto orderId now createdAt =>
                  obtain ⟨rfl, -⟩ := hopened
                  rw [← hmarket]
                  exact howes
              | _ => exact hopened.elim
  | projectOpenOrder order =>
      rw [answer_projectOpenOrder (hc rfl)] at howes
      -- the caller broadcasts the market of the order; the books of other markets stay
      by_cases hmarket : order.row.marketId = marketId
      · rw [← hmarket]
        exact Or.inl howes
      obtain ⟨hspelled, st, hst⟩ := hbefore
      rw [machine_works (hc rfl)] at hsome hkept ⊢
      simp only [World.perform, projectCommands_of_spelled hspelled] at hsome hkept ⊢
      have hne : (order.row.marketId : UuidString) ≠ marketId :=
        fun heq => hmarket (Uuid.string_injective heq)
      refine Or.inr ⟨⟨project_side_of_ne hne, fun o ho hof => ?_, hkept⟩, hsome⟩
      refine project_hash_of_ne fun hid => hmarket ?_
      rw [← hof, row_of_found hst ho hid]
      rfl
  | removeOpenOrder order =>
      rw [answer_removeOpenOrder (hc rfl)] at howes
      by_cases hmarket : order.marketId = marketId
      · rw [← hmarket]
        exact Or.inl howes
      obtain ⟨st, hst, -⟩ := hbefore
      rw [machine_works (hc rfl)] at hsome hkept ⊢
      have hne : (order.marketId : UuidString) ≠ marketId :=
        fun heq => hmarket (Uuid.string_injective heq)
      refine Or.inr ⟨⟨remove_side_of_ne hne, fun o ho hof => ?_, hkept⟩, hsome⟩
      refine remove_hash_of_ne fun hid => hmarket ?_
      rw [← hof, row_of_found hst ho hid]
      rfl
  | _ => exact Or.inr (hsame (machine_redis rfl) (machine_db rfl))

/-- Only messages about the market change what was emitted last for it. -/
theorem lastOrderBook_step (hc : BroadcastWorks op c)
    (hop : ∀ orderBook, op ≠ .emit (.orderBookUpdate marketId orderBook)) :
    lastOrderBook ((machine keyPrefix).step c w op).2.emitted marketId =
      lastOrderBook w.emitted marketId := by
  cases op with
  | emit m =>
      rw [machine_works (hc (Or.inr rfl))]
      simp only [World.perform, lastOrderBook, List.findSome?_cons]
      cases m with
      | orderBookUpdate marketId' orderBook =>
          have hne : marketId' ≠ marketId := fun heq => hop orderBook (by rw [heq])
          simp only [if_neg hne]
      | tradeCreated marketId' trade => rfl
      | balanceUpdate userId available reserved => rfl
  | _ => rw [machine_emitted rfl]

theorem UpToDate.step (h : UpToDate keyPrefix w marketId) (hw : w.Sound keyPrefix)
    (hsame : SameBook keyPrefix marketId w ((machine keyPrefix).step c w op).2)
    (hc : BroadcastWorks op c)
    (hop : ∀ orderBook, op ≠ .emit (.orderBookUpdate marketId orderBook)) :
    UpToDate keyPrefix ((machine keyPrefix).step c w op).2 marketId := by
  obtain ⟨orderBook, hlast, hbook⟩ := h
  refine ⟨orderBook, ?_, ?_⟩
  · rw [lastOrderBook_step hc hop]
    exact hlast
  · rw [hsame.getOrderBook_eq hw]
    exact hbook

/-- **The step lemma of the invariant.** -/
theorem Converging.step {b : Pool services Err World} {i : ℕ}
    {k : Except Err op.Answer → Service Unit} (h : Converging keyPrefix b)
    (hs : b.world.Sound keyPrefix) (hi : b.running i = some (.await (I := services) op k))
    (hc : RedisWorks op c) (hbroadcast : BroadcastWorks op c)
    (htimely : ¬ Untimely keyPrefix b (.step i c)) (hbefore : Before b.world op)
    (howes : OwesBroadcast keyPrefix op ((machine keyPrefix).step c b.world op).1
      (k ((machine keyPrefix).step c b.world op).1)) :
    Converging keyPrefix (b.set ((machine keyPrefix).step c b.world op).2 i
      (some (k ((machine keyPrefix).step c b.world op).1))) := by
  intro marketId hsome
  have hs' := (kept_step keyPrefix hc hbefore hs).1
  rcases owed_or_sameBook hs hc hbefore howes hsome with hwill | ⟨hsame, hsome⟩
  · exact Or.inr (Pool.some_update (hwill _ hs'))
  -- a call that is bound to emit the book still is, since the book is the same
  have hothers : b.Others i (fun p => p.Delivers (bookOf keyPrefix marketId) b.world) →
      (b.set ((machine keyPrefix).step c b.world op).2 i
        (some (k ((machine keyPrefix).step c b.world op).1))).Some fun p =>
          p.Delivers (bookOf keyPrefix marketId) ((machine keyPrefix).step c b.world op).2 :=
    fun hothers => hothers.update fun p hp => hsame.delivers hs hp
  by_cases hemits : ∃ orderBook, op = .emit (.orderBookUpdate marketId orderBook)
  · -- the order book of the market is emitted
    obtain ⟨orderBook, rfl⟩ := hemits
    by_cases hcurrent : getOrderBook keyPrefix b.world.redis marketId = .ok orderBook
    · left
      show UpToDate keyPrefix ((machine keyPrefix).step c b.world _).2 marketId
      rw [machine_works (hbroadcast (Or.inr rfl))]
      exact ⟨orderBook, by simp [World.perform, lastOrderBook], hcurrent⟩
    · right
      apply hothers
      by_contra hnone
      exact htimely ⟨marketId, hnone, Or.inl ⟨orderBook, k, hi, hcurrent⟩⟩
  · have hop : ∀ orderBook, op ≠ .emit (.orderBookUpdate marketId orderBook) :=
      fun orderBook heq => hemits ⟨orderBook, heq⟩
    rcases h marketId hsome with hup | hdelivers
    · exact Or.inl (hup.step hs hsame hbroadcast hop)
    rcases hdelivers.cases hi with hself | hother
    case inr => exact Or.inr (hothers hother)
    -- otherwise it was this call that was to emit the book
    by_cases henqueue : EnqueueWorks op c
    · rcases hself.step hs henqueue with hcurrent | hrest
      · exfalso
        cases op with
        | emit m =>
            cases m with
            | orderBookUpdate marketId' orderBook =>
                obtain ⟨rfl, -⟩ := hcurrent
                exact hop orderBook rfl
            | _ => exact hcurrent.elim
        | _ => exact hcurrent.elim
      · exact Or.inr (Pool.some_update (hsame.delivers hs hrest))
    · -- the enqueue fails
      by_cases hup : UpToDate keyPrefix b.world marketId
      · exact Or.inl (hup.step hs hsame hbroadcast hop)
      right
      apply hothers
      by_contra hnone
      cases op with
      | addJob tradeId =>
          have hfails : c.failing ≠ none := fun hworks => henqueue fun _ => hworks
          exact htimely ⟨marketId, hnone, Or.inr ⟨tradeId, k, hi, hfails, hself, hup⟩⟩
      | emit m => exact henqueue fun _ => hbroadcast (Or.inr rfl)
      | projectOpenOrder order => exact henqueue fun _ => hc rfl
      | removeOpenOrder order => exact henqueue fun _ => hc rfl
      | zrevrange marketId side => exact henqueue fun _ => hc rfl
      | zrange marketId side => exact henqueue fun _ => hc rfl
      | hmget orderId => exact henqueue fun _ => hc rfl
      | _ => exact henqueue fun hkind => by simp [ServiceOp.isRedis, ServiceOp.isEmit,
          ServiceOp.isEnqueue] at hkind

end Steps

/-! ## Every run -/

section Runs

variable {keyPrefix : String} {b : Pool services Err World}

/-- And the markets of the placements are spelled as PostgreSQL does. -/
def SubscribersServed (op : ServiceOp) (c : Infra) : Prop := BroadcastWorks op c ∧ op.Spelled

/-- The steps under which subscribers keep up. -/
def Timely (keyPrefix : String) (b : Pool services Err World)
    (e : Async.Event ExchangeCall Infra) : Prop :=
  Meets SubscribersServed b e ∧ ¬ Untimely keyPrefix b e

theorem bookWorks_of_meets {e : Async.Event ExchangeCall Infra}
    (h : Meets SubscribersServed b e) : Meets BookWorks b e := by
  cases e with
  | begin i k => trivial
  | step i c =>
      intro op k hi
      obtain ⟨hworks, hspelled⟩ := h op k hi
      exact ⟨fun hredis => hworks (Or.inl hredis), hspelled⟩

theorem converging_of_reachable
    (h : ((exchangeCalls keyPrefix).restrict (Timely keyPrefix)).Reachable b) :
    Converging keyPrefix b := by
  refine (((bookContract keyPrefix).and (broadcastContract keyPrefix)).invariant
    (World.Sound keyPrefix) (Converging keyPrefix) (fun b e hC => bookWorks_of_meets hC.1)
    ?_ (fun w w' hw hkept => (hkept.1 hw).1)
    (fun k w hw => (keeps_code k hw).and (keeps_code_broadcast k)) ?_ ?_ ?_ ?_ h).2
  · intro w hw
    rw [hw]
    exact sound_empty
  · intro b hw _ marketId hsome
    obtain ⟨o, ho, -⟩ := hsome
    rw [hw] at ho
    cases ho
  · intro b i k _ hinv hnew marketId hsome
    refine (hinv marketId hsome).imp_right fun hdelivers => hdelivers.update fun p hp _ => ?_
    rw [hnew] at hp
    cases hp
  · intro b i c op k hs hinv hi hc hC hbefore howes
    exact hinv.step hs hi hc.1 (hC.1 op k hi).1 hC.2 hbefore.1 howes.2
  · intro b i p _ hinv hi hended marketId hsome
    refine (hinv marketId hsome).imp_right fun hdelivers => hdelivers.update fun q hq hP => ?_
    rw [hi] at hq
    cases hq
    cases p with
    | await op k => exact hended.elim
    | pure a => exact hP.elim
    | throw e => exact hP.elim

/-- **Subscribers converge**: whenever no call is in flight, the last order book emitted for a
market with an order is the present one, in every run without an untimely step in which the
placements spell their markets as PostgreSQL does. -/
theorem subscribers_converge
    (h : ((exchangeCalls keyPrefix).restrict (Timely keyPrefix)).Reachable b) (hrest : b.AtRest)
    {marketId : Uuid} (hplaced : ∃ o ∈ b.world.db.orders.rows, o.marketId = marketId) :
    UpToDate keyPrefix b.world marketId :=
  (converging_of_reachable h marketId hplaced).resolve_right (hrest.not_some _)

end Runs

/-! ## A match whose enqueue fails -/

namespace Sample

/-- What is emitted is the present order book, and nothing fails. -/
def timely (b : Pool services Err World) (e : Async.Event ExchangeCall Infra) : Bool :=
  faultless b e && spelled b e && match e with
    | .begin _ _ => true
    | .step i _ =>
        match b.running i with
        | some (.await (.emit (.orderBookUpdate marketId orderBook)) _) =>
            match getOrderBook "olx" b.world.redis marketId with
            | .ok orderBook' => orderBook' = orderBook
            | .error _ => false
        | _ => true

theorem timely_of_check {b : Pool services Err World} {e : Async.Event ExchangeCall Infra}
    (h : timely b e = true) : Timely "olx" b e := by
  unfold timely at h
  rw [Bool.and_eq_true, Bool.and_eq_true] at h
  obtain ⟨⟨hworks, hspelled⟩, hemitted⟩ := h
  cases e with
  | begin i k => exact ⟨trivial, fun huntimely => huntimely⟩
  | step i c =>
      have hnone : c.failing = none := Option.isNone_iff_eq_none.mp hworks
      refine ⟨fun op k hi => ⟨fun _ => hnone, spelled_of_check hspelled hi⟩, ?_⟩
      rintro ⟨marketId, -, ⟨orderBook, k, hi, hstale⟩ | ⟨tradeId, k, -, hfails, -⟩⟩
      · simp only [hi] at hemitted
        split at hemitted
        · rename_i orderBook' hbook
          rw [of_decide_eq_true hemitted] at hbook
          exact hstale hbook
        · cases hemitted
      · exact hfails hnone

/-- Redis and the broadcasts do not fail. -/
def broadcasting (b : Pool services Err World) : Async.Event ExchangeCall Infra → Bool
  | .begin _ _ => true
  | .step i c =>
      match b.running i with
      | some (.await op _) => c.failing.isNone || !(op.isRedis || op.isEmit)
      | _ => true

theorem meets_of_broadcasting {b : Pool services Err World} {e : Async.Event ExchangeCall Infra}
    (h : broadcasting b e = true) : Meets BroadcastWorks b e := by
  cases e with
  | begin i k => trivial
  | step i c =>
      intro op k hi hkind
      simp only [broadcasting, hi, Bool.or_eq_true, Bool.not_eq_true', Bool.or_eq_false_iff] at h
      rcases h with hnone | ⟨hredis, hemit⟩
      · exact Option.isNone_iff_eq_none.mp hnone
      · simp [hredis, hemit] at hkind

/-- Bob's order is matched with Alice's, and the enqueue of the settlement fails. -/
def enqueueFails : List (Async.Event ExchangeCall Infra) :=
  openingCalls ++ steps 5 aliceOrders 8 ++ steps 6 bobOrders 10 ++
    .step 6 ⟨fun _ => false, some 0⟩ :: List.replicate 6 (.step 6 Infra.ok)

/-- The order book that was emitted last for the market shows levels. -/
def emittedLevels (w : World) : Bool :=
  match lastOrderBook w.emitted market with
  | some orderBook => !orderBook.yes.isEmpty
  | none => false

/-- The order book that was emitted last shows levels, and the present one has none. -/
def emittedStale (w : World) : Bool :=
  emittedLevels w && (w.db.orders.rows.any fun o => o.marketId = market) &&
    match getOrderBook "olx" w.redis market with
    | .ok orderBook => orderBook.yes.isEmpty
    | .error _ => false

end Sample

/-- One placement, up to its end. -/
theorem subscribers_converge_sample : ∃ b : Pool services Err World,
    Sample.emittedLevels b.world = true ∧ UpToDate "olx" b.world Sample.market := by
  have hrun : Sample.ends Sample.timely (Sample.openingCalls ++ Sample.steps 5 Sample.aliceOrders 8)
      6 (fun w => Sample.emittedLevels w && w.db.orders.rows.any fun o =>
        o.marketId = Sample.market) = true := by
    decide +kernel
  obtain ⟨b, hb, hrest, hlevels⟩ := Sample.exists_of_ends (C := Timely "olx")
    (fun _ _ => Sample.timely_of_check) hrun
  rw [Bool.and_eq_true, List.any_eq_true] at hlevels
  obtain ⟨hlevels, o, ho, hmarket⟩ := hlevels
  exact ⟨b, hlevels, subscribers_converge hb hrest ⟨o, ho, of_decide_eq_true hmarket⟩⟩

/-- The matched orders are gone, and subscribers still see them. -/
theorem subscribers_left_behind : ¬ ∀ (b : Pool services Err World) (marketId : Uuid),
    ((exchangeCalls "olx").restrict (Meets BroadcastWorks)).Reachable b → b.AtRest →
      (∃ o ∈ b.world.db.orders.rows, o.marketId = marketId) → UpToDate "olx" b.world marketId := by
  intro hclaim
  have hrun : Sample.ends Sample.broadcasting Sample.enqueueFails 7 Sample.emittedStale = true := by
    decide +kernel
  obtain ⟨b, hb, hrest, hstale⟩ := Sample.exists_of_ends (C := Meets BroadcastWorks)
    (fun _ _ => Sample.meets_of_broadcasting) hrun
  rw [Sample.emittedStale, Bool.and_eq_true, Bool.and_eq_true, List.any_eq_true] at hstale
  obtain ⟨⟨hlevels, o, ho, hmarket⟩, hnow⟩ := hstale
  obtain ⟨orderBook, hlast, hbook⟩ :=
    hclaim b Sample.market hb hrest ⟨o, ho, of_decide_eq_true hmarket⟩
  simp only [Sample.emittedLevels, hlast] at hlevels
  simp only [hbook] at hnow
  simp [hnow] at hlevels

end OutcomeExchange
