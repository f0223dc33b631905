import OutcomeExchange.Async.Code
import OutcomeExchange.OrderBookProjection
import OutcomeExchange.SettlementQueueService

set_option autoImplicit false

/-! # The services

The methods of the services as asynchronous code: transactions on PostgreSQL, commands to
Redis, calls of the settlement queue and messages to the subscribers, in the order in which
the methods await them, with their `try`/`catch` blocks. `machine` gives the operations
their meaning on the `World`, in which the two stores, the queue and the messages are side by
side. -/

namespace OutcomeExchange

open Txn Redis Jobs Async

/-! ## Results of the transactions -/

@[reducible] def Action.Result : Action → Type
  | .createWalletForUser _ _ => Wallet
  | .deposit _ _ _ => Wallet
  | .withdraw _ _ _ => Wallet
  | .createMarket _ _ _ => Market
  | .closeMarket _ _ => Market
  | .closeExpiredMarkets _ => ℕ
  | .resolveMarket _ _ _ => Market
  | .placeOrder _ _ _ _ _ => OrderEntity
  | .cancelOrder _ _ _ => Order
  | .tryMatchOrder _ _ => Option Matched
  | .failPendingTradeAndReleaseFunds _ _ => List Uuid
  | .handleSettlement _ _ => List Uuid
  | .markSettlementFailure _ _ => List Uuid
  | .prepareTradeForRetry _ _ => RetryPreparation
  | .reopenOrders _ => Unit

/-- The program of an action, with its return value. -/
def Action.tx : (a : Action) → Tx a.Result
  | .createWalletForUser userId walletId => OutcomeExchange.createWalletForUser userId walletId
  | .deposit userId dto createdAt =>
      OutcomeExchange.deposit userId (.int dto.amountCents) dto.idempotencyKey createdAt
  | .withdraw userId dto createdAt =>
      OutcomeExchange.withdraw userId (.int dto.amountCents) dto.idempotencyKey createdAt
  | .createMarket closesAt marketId now => OutcomeExchange.createMarket closesAt marketId now
  | .closeMarket marketId now => OutcomeExchange.closeMarket marketId now
  | .closeExpiredMarkets now => OutcomeExchange.closeExpiredMarkets now
  | .resolveMarket marketId winningSide createdAt =>
      OutcomeExchange.resolveMarket marketId winningSide createdAt
  | .placeOrder userId dto orderId now createdAt =>
      OutcomeExchange.placeOrder userId dto orderId now createdAt
  | .cancelOrder userId orderId createdAt => OutcomeExchange.cancelOrder userId orderId createdAt
  | .tryMatchOrder orderId tradeId => OutcomeExchange.tryMatchOrder orderId tradeId
  | .failPendingTradeAndReleaseFunds tradeId createdAt =>
      OutcomeExchange.failPendingTradeAndReleaseFunds tradeId createdAt
  | .handleSettlement tradeId createdAt => OutcomeExchange.handleSettlement tradeId createdAt
  | .markSettlementFailure tradeId createdAt =>
      OutcomeExchange.markSettlementFailure tradeId createdAt
  | .prepareTradeForRetry tradeId createdAt =>
      OutcomeExchange.prepareTradeForRetry tradeId createdAt
  | .reopenOrders orphanOrders => OutcomeExchange.reopenOrders orphanOrders

theorem Action.exec_prog {m : Mode RowId} {s t : Db} {a : Action} {r : a.Result}
    (h : Exec m a.tx s r t) : Exec m a.prog s () t := by
  cases a with
  | reopenOrders orders => exact h
  | createWalletForUser userId walletId => exact exec_discard.mpr ⟨r, h⟩
  | deposit userId dto createdAt => exact exec_discard.mpr ⟨r, h⟩
  | withdraw userId dto createdAt => exact exec_discard.mpr ⟨r, h⟩
  | createMarket closesAt marketId now => exact exec_discard.mpr ⟨r, h⟩
  | closeMarket marketId now => exact exec_discard.mpr ⟨r, h⟩
  | closeExpiredMarkets now => exact exec_discard.mpr ⟨r, h⟩
  | resolveMarket marketId winningSide createdAt => exact exec_discard.mpr ⟨r, h⟩
  | placeOrder userId dto orderId now createdAt => exact exec_discard.mpr ⟨r, h⟩
  | cancelOrder userId orderId createdAt => exact exec_discard.mpr ⟨r, h⟩
  | tryMatchOrder orderId tradeId => exact exec_discard.mpr ⟨r, h⟩
  | failPendingTradeAndReleaseFunds tradeId createdAt => exact exec_discard.mpr ⟨r, h⟩
  | handleSettlement tradeId createdAt => exact exec_discard.mpr ⟨r, h⟩
  | markSettlementFailure tradeId createdAt => exact exec_discard.mpr ⟨r, h⟩
  | prepareTradeForRetry tradeId createdAt => exact exec_discard.mpr ⟨r, h⟩

/-! ## Operations -/

/-- What is sent to the subscribers. -/
inductive Message
  | orderBookUpdate (marketId : UuidString) (orderBook : OrderBookView)
  | tradeCreated (marketId : UuidString) (trade : Trade)
  | balanceUpdate (userId : Uuid) (availableBalanceCents reservedBalanceCents : ℤ)
  deriving DecidableEq

/-- What the methods await. -/
inductive ServiceOp
  | transaction (a : Action)
  | getWalletByUserId (userId : Uuid)
  /-- `MULTI`, `ZADD`, `HSET`, `EXEC` -/
  | projectOpenOrder (order : OrderEntity)
  /-- `MULTI`, `ZREM`, `DEL`, `EXEC` -/
  | removeOpenOrder (order : Order)
  | zrevrange (marketId : UuidString) (side : OutcomeSide)
  | zrange (marketId : UuidString) (side : OutcomeSide)
  | hmget (orderId : String)
  /-- `queue.add('settle-trade', { tradeId }, buildJobOptions(tradeId))` -/
  | addJob (tradeId : UuidString)
  /-- `queue.getJob(jobId)`, for the data of the job -/
  | getTradeIdByJobId (jobId : String)
  /-- `queue.getJob(jobId)`, for the job; the answer says whether there is one -/
  | getJob (jobId : String)
  | getState (jobId : String)
  | retryJob (jobId : String)
  | removeJob (jobId : String)
  | emit (m : Message)

@[reducible] def ServiceOp.Answer : ServiceOp → Type
  | .transaction a => a.Result
  | .getWalletByUserId _ => Wallet
  | .projectOpenOrder _ => Unit
  | .removeOpenOrder _ => Unit
  | .zrevrange _ _ => List String
  | .zrange _ _ => List String
  | .hmget _ => Except String (List (Option String))
  | .addJob _ => Unit
  | .getTradeIdByJobId _ => Option UuidString
  | .getJob _ => Bool
  | .getState _ => Option JobState
  | .retryJob _ => Unit
  | .removeJob _ => Unit
  | .emit _ => Unit

@[reducible] def services : Interface where
  Op := ServiceOp
  Answer := ServiceOp.Answer

abbrev Service (α : Type) : Type := Code services Err α

/-- `await op` -/
def ServiceOp.call (op : ServiceOp) : Service op.Answer := Code.call (I := services) op

/-- PostgreSQL, Redis, the settlement queue, and the messages sent so far, newest first. -/
structure World where
  db : Db
  redis : Store
  queue : Queue UuidString
  emitted : List Message

/-- What an operation meets: the rows that others have locked, and whether it fails; a
transaction may fail at any of its statements. -/
structure Infra where
  busy : RowId → Bool
  failing : Option ℕ

def Infra.ok : Infra := ⟨fun _ => false, none⟩

def connectionError : Err := .error "Connection terminated unexpectedly"

/-- The program of a transaction as its statements succeed or fail. -/
def Action.under (a : Action) (c : Infra) : Tx a.Result :=
  match c.failing with
  | none => a.tx
  | some n => a.tx.failAt connectionError n

/-- A read of Redis. -/
def replied {α : Type} : Except String α → Except Err α
  | .ok a => .ok a
  | .error message => .error (.error message)

/-- What an operation answers and does under the conditions `c`; only a transaction has
statements that could fail one by one. -/
def World.perform (keyPrefix : String) (c : Infra) (w : World) :
    (op : ServiceOp) → Except Err op.Answer × World
  | .transaction a =>
      match (a.under c).run c.busy w.db with
      | .ok (r, db) => (.ok r, { w with db := db })
      | .error e => (.error e, w)
  | .getWalletByUserId userId =>
      match w.db.ledger.wallets.find? userId with
      | some wallet => (.ok wallet, w)
      | none => (.error (.notFound "Wallet not found for user"), w)
  | .projectOpenOrder order =>
      (.ok (), { w with redis := w.redis.multi (projectCommands keyPrefix order) })
  | .removeOpenOrder order =>
      (.ok (), { w with redis := w.redis.multi (removeCommands keyPrefix order) })
  | .zrevrange marketId side =>
      (replied (w.redis.zrevrange (getOrderBookSideKey keyPrefix marketId side)), w)
  | .zrange marketId side =>
      (replied (w.redis.zrange (getOrderBookSideKey keyPrefix marketId side)), w)
  | .hmget orderId => (.ok (w.redis.hmget (getOrderHashKey keyPrefix orderId) levelFields), w)
  | .addJob tradeId =>
      (.ok (), { w with queue := w.queue.add (buildJobId tradeId) tradeId })
  | .getTradeIdByJobId jobId => (.ok ((w.queue jobId).map Job.data), w)
  | .getJob jobId => (.ok (w.queue jobId).isSome, w)
  | .getState jobId => (.ok ((w.queue jobId).map Job.state), w)
  | .retryJob jobId =>
      if (w.queue jobId).any fun job => job.state = .failed then
        (.ok (), { w with queue := w.queue.retry jobId })
      else (.error (.error "Job is not in the failed state"), w)
  | .removeJob jobId =>
      if (w.queue jobId).any fun job => job.state = .active then
        (.error (.error "Job could not be removed because it is locked by another worker"), w)
      else (.ok (), { w with queue := w.queue.remove jobId })
  | .emit m => (.ok (), { w with emitted := m :: w.emitted })

def ServiceOp.isTransaction : ServiceOp → Bool
  | .transaction _ => true
  | _ => false

/-- The commands to Redis. -/
def ServiceOp.isRedis : ServiceOp → Bool
  | .projectOpenOrder _ => true
  | .removeOpenOrder _ => true
  | .zrevrange _ _ => true
  | .zrange _ _ => true
  | .hmget _ => true
  | _ => false

/-- The commands that change the projection. -/
def ServiceOp.isProjection : ServiceOp → Bool
  | .projectOpenOrder _ => true
  | .removeOpenOrder _ => true
  | _ => false

def ServiceOp.isEmit : ServiceOp → Bool
  | .emit _ => true
  | _ => false

def machine (keyPrefix : String) : Machine services Err World Infra where
  step c w op :=
    if op.isTransaction = false ∧ c.failing.isSome = true then (.error connectionError, w)
    else w.perform keyPrefix c op

/-! ## OrderBookProjectionService -/

namespace OrderBookProjectionService

def projectOpenOrder (order : OrderEntity) : Service Unit :=
  if order.row.status ≠ .OPEN then return ()
  else (ServiceOp.projectOpenOrder order).call

/-- Its callers have all read the order from its row. -/
def removeOpenOrder (order : Order) : Service Unit := (ServiceOp.removeOpenOrder order).call

theorem projectOpenOrder_of_open {order : OrderEntity} (h : order.row.status = .OPEN) :
    projectOpenOrder order = (ServiceOp.projectOpenOrder order).call := if_neg (not_not.mpr h)

theorem projectOpenOrder_of_not_open {order : OrderEntity} (h : order.row.status ≠ .OPEN) :
    projectOpenOrder order = pure () := if_pos h

/-- The pipeline of `buildLevels`, with one reply for each order. -/
def hmgets : List String → Service (List (Except String (List (Option String))))
  | [] => return []
  | orderId :: orderIds => do
      let reply ← (ServiceOp.hmget orderId).call
      let replies ← hmgets orderIds
      return reply :: replies

def getOrderBook (marketId : UuidString) : Service OrderBookView := do
  let yesIds ← (ServiceOp.zrevrange marketId .YES).call
  let noIds ← (ServiceOp.zrange marketId .NO).call
  let yes ← hmgets yesIds
  let no ← hmgets noIds
  return ⟨marketId, buildLevels yes, buildLevels no⟩

end OrderBookProjectionService

/-! ## MatchingEngineBroadcastService -/

namespace MatchingEngineBroadcastService

def broadcastOrderBookUpdate (marketId : UuidString) : Service Unit := do
  let orderBook ← OrderBookProjectionService.getOrderBook marketId
  (ServiceOp.emit (.orderBookUpdate marketId orderBook)).call

/-- `try { p } catch (error) { log }` -/
def logged (p : Service Unit) : Service Unit := p.attempt fun _ => return ()

def broadcastTradeAndOrderBookUpdate (trade : Trade) : Service Unit :=
  logged do
    (ServiceOp.emit (.tradeCreated trade.marketId trade)).call
    broadcastOrderBookUpdate trade.marketId

def broadcastBalances : List Uuid → Service Unit
  | [] => return ()
  | userId :: userIds => do
      logged do
        let wallet ← (ServiceOp.getWalletByUserId userId).call
        (ServiceOp.emit (.balanceUpdate userId wallet.availableBalanceCents
          wallet.reservedBalanceCents)).call
      broadcastBalances userIds

/-- `new Set(userIds)` keeps the first of equal elements. -/
def broadcastBalanceUpdates (userIds : List Uuid) : Service Unit :=
  broadcastBalances userIds.eraseDups

end MatchingEngineBroadcastService

/-! ## MatchingEngineService -/

namespace MatchingEngineService

open MatchingEngineBroadcastService

/-- `Promise.all`: both removals are sent, and an error of either is an error of both. -/
def removeMatched (matched : Matched) : Service Unit := do
  let removed ← (do
    OrderBookProjectionService.removeOpenOrder matched.order
    return none : Service (Option Err)).attempt fun e => return some e
  OrderBookProjectionService.removeOpenOrder matched.counterparty
  match removed with
  | none => return ()
  | some e => Code.throw e

def failPendingTradeAndReleaseFunds (tradeId : Uuid) (createdAt : Timestamp) : Service Unit := do
  let userIds ← (ServiceOp.transaction (.failPendingTradeAndReleaseFunds tradeId createdAt)).call
  broadcastBalanceUpdates userIds

/-- `tryMatchOrder` once its transaction has made a trade. -/
def afterMatch (matched : Matched) (failedAt : Timestamp) : Service Unit := do
  logged (removeMatched matched)
  let added ← (do
    (ServiceOp.addJob matched.trade.id).call
    return true : Service Bool).attempt fun _ => do
      logged (failPendingTradeAndReleaseFunds matched.trade.id failedAt)
      return false
  if added then broadcastTradeAndOrderBookUpdate matched.trade
  else return ()

/-- `tradeId` is the identifier that the database generates, `failedAt` the time of a rollback. -/
def tryMatchOrder (orderId tradeId : Uuid) (failedAt : Timestamp) : Service Unit := do
  let matched ← (ServiceOp.transaction (.tryMatchOrder orderId tradeId)).call
  match (matched : Option Matched) with
  | none => return ()
  | some matched => afterMatch matched failedAt

end MatchingEngineService

/-! ## OrdersService -/

/-- What the database and the clocks contribute to a placement. -/
structure PlacementIds where
  orderId : Uuid
  now : Timestamp
  createdAt : Timestamp
  tradeId : Uuid
  failedAt : Timestamp

namespace OrdersService

open MatchingEngineBroadcastService

def placeOrder (userId : Uuid) (dto : PlaceOrderDto) (ids : PlacementIds) :
    Service OrderEntity := do
  let order ← (ServiceOp.transaction
    (.placeOrder userId dto ids.orderId ids.now ids.createdAt)).call
  OrderBookProjectionService.projectOpenOrder order
  logged (broadcastOrderBookUpdate order.marketId)
  logged (MatchingEngineService.tryMatchOrder order.row.id ids.tradeId ids.failedAt)
  return order

def cancelOrder (userId orderId : Uuid) (createdAt : Timestamp) : Service Order := do
  let cancelled ← (ServiceOp.transaction (.cancelOrder userId orderId createdAt)).call
  OrderBookProjectionService.removeOpenOrder cancelled
  logged (broadcastOrderBookUpdate cancelled.marketId)
  return cancelled

end OrdersService

/-! ## SettlementQueueService, SettlementRecoveryService and SettlementWorkerService -/

inductive RetryAction
  | enqueued | retried | alreadyPending
  deriving DecidableEq

structure SettlementQueueRetryResult where
  action : RetryAction
  jobId : String
  tradeId : UuidString
  state : JobState

structure SettlementRecoveryResult where
  tradeId : UuidString
  queue : SettlementQueueRetryResult
  preparation : RetryPreparation

namespace SettlementQueueService

def enqueue (tradeId : UuidString) : Service SettlementQueueRetryResult := do
  (ServiceOp.addJob tradeId).call
  return ⟨.enqueued, buildJobId tradeId, tradeId, .waiting⟩

/-- A job that is not failed and not pending is removed first, unless it is locked. -/
def replace (tradeId : UuidString) : Service SettlementQueueRetryResult := do
  MatchingEngineBroadcastService.logged (ServiceOp.removeJob (buildJobId tradeId)).call
  enqueue tradeId

def retrySettlementByTradeId (tradeId : UuidString) : Service SettlementQueueRetryResult := do
  let jobId := buildJobId tradeId
  let existingJob ← (ServiceOp.getJob jobId).call
  match (existingJob : Bool) with
  | false => enqueue tradeId
  | true => do
      match (← (ServiceOp.getState jobId).call : Option JobState) with
      -- the state is `unknown`
      | none => replace tradeId
      | some existingState =>
          if existingState = .failed then do
            (ServiceOp.retryJob jobId).call
            return ⟨.retried, jobId, tradeId, .waiting⟩
          else if isPendingState existingState then
            return ⟨.alreadyPending, jobId, tradeId, existingState⟩
          else replace tradeId

end SettlementQueueService

namespace SettlementRecoveryService

def retryByTradeId (tradeId : UuidString) (createdAt : Timestamp) :
    Service SettlementRecoveryResult := do
  let preparation ← (ServiceOp.transaction (.prepareTradeForRetry tradeId.uuid createdAt)).call
  let queue ← SettlementQueueService.retrySettlementByTradeId tradeId
  return ⟨tradeId, queue, preparation⟩

def retryByJobId (jobId : String) (createdAt : Timestamp) : Service SettlementRecoveryResult := do
  match (← (ServiceOp.getTradeIdByJobId jobId).call : Option UuidString) with
  | none => Code.throw (.notFound ("Settlement job not found: " ++ jobId))
  | some tradeId => retryByTradeId tradeId createdAt

end SettlementRecoveryService

namespace SettlementWorkerService

open MatchingEngineBroadcastService

def handleSettlement (tradeId : UuidString) (createdAt failedAt : Timestamp) : Service Unit :=
  (do
    let settledUserIds ← (ServiceOp.transaction (.handleSettlement tradeId.uuid createdAt)).call
    broadcastBalanceUpdates settledUserIds : Service Unit).attempt fun error => do
      let releasedUserIds ←
        (ServiceOp.transaction (.markSettlementFailure tradeId.uuid failedAt)).call
      broadcastBalanceUpdates releasedUserIds
      Code.throw error

end SettlementWorkerService

/-! ## Requests -/

/-- The calls of users and administrators that move money, orders or trades. -/
inductive ApiCall
  | deposit (userId : Uuid) (dto : DepositDto) (createdAt : Timestamp)
  | withdraw (userId : Uuid) (dto : WithdrawDto) (createdAt : Timestamp)
  | resolveMarket (marketId : Uuid) (winningSide : OutcomeSide) (createdAt : Timestamp)
  | placeOrder (userId : Uuid) (dto : PlaceOrderDto) (ids : PlacementIds)
  | cancelOrder (userId orderId : Uuid) (createdAt : Timestamp)
  | retryByTradeId (tradeId : UuidString) (createdAt : Timestamp)
  | retryByJobId (jobId : String) (createdAt : Timestamp)

def ApiCall.code : ApiCall → Service Unit
  | .deposit userId dto createdAt =>
      (ServiceOp.transaction (.deposit userId dto createdAt)).call.discard
  | .withdraw userId dto createdAt =>
      (ServiceOp.transaction (.withdraw userId dto createdAt)).call.discard
  | .resolveMarket marketId winningSide createdAt =>
      (ServiceOp.transaction (.resolveMarket marketId winningSide createdAt)).call.discard
  | .placeOrder userId dto ids => (OrdersService.placeOrder userId dto ids).discard
  | .cancelOrder userId orderId createdAt =>
      (OrdersService.cancelOrder userId orderId createdAt).discard
  | .retryByTradeId tradeId createdAt =>
      (SettlementRecoveryService.retryByTradeId tradeId createdAt).discard
  | .retryByJobId jobId createdAt =>
      (SettlementRecoveryService.retryByJobId jobId createdAt).discard

/-! ## What the methods do besides their transaction -/

section Uses

open MatchingEngineBroadcastService

theorem neverThrows_logged (p : Service Unit) : (logged p).NeverThrows :=
  Code.neverThrows_attempt fun _ => trivial

variable {P : ServiceOp → Prop}

theorem uses_logged {p : Service Unit} (h : p.Uses P) : (logged p).Uses P :=
  Code.uses_attempt h fun _ => trivial

theorem uses_hmgets (h : ∀ orderId, P (.hmget orderId)) (orderIds : List String) :
    (OrderBookProjectionService.hmgets orderIds).Uses P := by
  induction orderIds with
  | nil => trivial
  | cons orderId orderIds ih =>
      refine Code.uses_bind (Code.uses_call (h orderId)) fun reply => ?_
      exact Code.uses_bind ih fun replies => trivial

/-- A broadcast reads the order book and emits it. -/
theorem uses_broadcastOrderBookUpdate (hzrevrange : ∀ marketId side, P (.zrevrange marketId side))
    (hzrange : ∀ marketId side, P (.zrange marketId side)) (hhmget : ∀ orderId, P (.hmget orderId))
    (hemit : ∀ m, P (.emit m)) (marketId : UuidString) :
    (broadcastOrderBookUpdate marketId).Uses P := by
  refine Code.uses_bind ?_ fun orderBook => Code.uses_call (hemit _)
  refine Code.uses_bind (Code.uses_call (hzrevrange _ _)) fun yesIds => ?_
  refine Code.uses_bind (Code.uses_call (hzrange _ _)) fun noIds => ?_
  refine Code.uses_bind (uses_hmgets hhmget _) fun yes => ?_
  exact Code.uses_bind (uses_hmgets hhmget _) fun no => trivial

theorem uses_broadcastBalances (hwallet : ∀ userId, P (.getWalletByUserId userId))
    (hemit : ∀ m, P (.emit m)) (userIds : List Uuid) : (broadcastBalances userIds).Uses P := by
  induction userIds with
  | nil => trivial
  | cons userId userIds ih =>
      refine Code.uses_bind (uses_logged ?_) fun _ => ih
      exact Code.uses_bind (Code.uses_call (hwallet userId)) fun wallet =>
        Code.uses_call (hemit _)

end Uses

/-! ## One operation -/

section Machine

variable {keyPrefix : String} {c : Infra} {w w' : World}

theorem machine_step (op : ServiceOp) : (machine keyPrefix).step c w op =
    if op.isTransaction = false ∧ c.failing.isSome = true then (.error connectionError, w)
    else w.perform keyPrefix c op := rfl

theorem machine_works {op : ServiceOp} (h : c.failing = none) :
    (machine keyPrefix).step c w op = w.perform keyPrefix c op := by
  rw [machine_step, if_neg]
  simp [h]

theorem machine_fails {op : ServiceOp} (hop : op.isTransaction = false) (h : c.failing ≠ none) :
    (machine keyPrefix).step c w op = (.error connectionError, w) := by
  rw [machine_step, if_pos ⟨hop, Option.isSome_iff_ne_none.mpr h⟩]

/-- A transaction commits an execution of its program, or changes nothing. -/
theorem machine_transaction {a : Action} {r : Except Err a.Result}
    (h : (machine keyPrefix).step c w (.transaction a) = (r, w')) :
    (∃ e, r = .error e ∧ w' = w) ∨ ∃ x db, r = .ok x ∧ w' = { w with db := db } ∧
      c.failing = none ∧ a.tx.run c.busy w.db = .ok (x, db) := by
  rw [machine_step, if_neg fun hfails => by cases hfails.1] at h
  simp only [World.perform] at h
  cases hrun : (a.under c).run c.busy w.db with
  | error e =>
      rw [hrun] at h
      cases h
      exact Or.inl ⟨e, rfl, rfl⟩
  | ok x =>
      rw [hrun] at h
      cases h
      refine Or.inr ⟨x.1, x.2, rfl, rfl, ?_⟩
      unfold Action.under at hrun
      cases hfail : c.failing with
      | none =>
          rw [hfail] at hrun
          exact ⟨rfl, hrun⟩
      | some n =>
          rw [hfail] at hrun
          exact absurd hrun Prog.run_failAt

/-- What every operation of a kind that can be performed leaves alone. -/
theorem machine_keeps {β : Type} {f : World → β} {op : ServiceOp}
    (h : f (w.perform keyPrefix c op).2 = f w) : f ((machine keyPrefix).step c w op).2 = f w := by
  rw [machine_step]
  by_cases hfails : op.isTransaction = false ∧ c.failing.isSome = true
  · rw [if_pos hfails]
  · rw [if_neg hfails]
    exact h

/-- Only transactions change the database. -/
theorem machine_db {op : ServiceOp} (hop : op.isTransaction = false) :
    ((machine keyPrefix).step c w op).2.db = w.db := by
  apply machine_keeps (f := World.db)
  cases op with
  | transaction a => cases hop
  | getWalletByUserId userId =>
      simp only [World.perform]
      split <;> rfl
  | retryJob jobId =>
      simp only [World.perform]
      split <;> rfl
  | removeJob jobId =>
      simp only [World.perform]
      split <;> rfl
  | _ => rfl

/-- Only the commands of the projection change Redis. -/
theorem machine_redis {op : ServiceOp} (hop : op.isProjection = false) :
    ((machine keyPrefix).step c w op).2.redis = w.redis := by
  apply machine_keeps (f := World.redis)
  cases op with
  | projectOpenOrder order => cases hop
  | removeOpenOrder order => cases hop
  | transaction a =>
      simp only [World.perform]
      split <;> rfl
  | getWalletByUserId userId =>
      simp only [World.perform]
      split <;> rfl
  | retryJob jobId =>
      simp only [World.perform]
      split <;> rfl
  | removeJob jobId =>
      simp only [World.perform]
      split <;> rfl
  | _ => rfl

/-- Only `emit` sends a message. -/
theorem machine_emitted {op : ServiceOp} (hop : op.isEmit = false) :
    ((machine keyPrefix).step c w op).2.emitted = w.emitted := by
  apply machine_keeps (f := World.emitted)
  cases op with
  | emit m => cases hop
  | transaction a =>
      simp only [World.perform]
      split <;> rfl
  | getWalletByUserId userId =>
      simp only [World.perform]
      split <;> rfl
  | retryJob jobId =>
      simp only [World.perform]
      split <;> rfl
  | removeJob jobId =>
      simp only [World.perform]
      split <;> rfl
  | _ => rfl

end Machine

end OutcomeExchange
