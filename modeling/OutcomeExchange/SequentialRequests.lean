import OutcomeExchange.MatchingAttempt
import OutcomeExchange.ProjectedBook

set_option autoImplicit false

/-! # One request after the other

Histories in which every request runs to completion before the next one starts. Between two
requests the worker and the clock may do anything to the queue, and the application may be
restarted.

`PlacementRun` and `runs_cancelOrder` say what the two requests that touch the order book come
to when nobody else holds a row; every other request is `Beside` the book. -/

namespace OutcomeExchange

open Txn Redis Jobs Async

/-! ## Requests -/

/-- The requests of users and administrators, the closing of markets by the clock, and the
attempts of the settlement worker. -/
inductive ServiceCall
  | register (userId walletId : Uuid)
  | deposit (userId : Uuid) (dto : DepositDto) (createdAt : Timestamp)
  | withdraw (userId : Uuid) (dto : WithdrawDto) (createdAt : Timestamp)
  | createMarket (closesAt : Timestamp) (marketId : Uuid) (now : Timestamp)
  | closeMarket (marketId : Uuid) (now : Timestamp)
  | closeExpiredMarkets (now : Timestamp)
  | resolveMarket (marketId : Uuid) (winningSide : OutcomeSide) (createdAt : Timestamp)
  | placeOrder (userId : Uuid) (dto : PlaceOrderDto) (ids : PlacementIds)
  | cancelOrder (userId orderId : Uuid) (createdAt : Timestamp)
  | handleSettlement (tradeId : UuidString) (createdAt failedAt : Timestamp)
  | retryByTradeId (tradeId : UuidString) (createdAt : Timestamp)
  | retryByJobId (jobId : String) (createdAt : Timestamp)

@[reducible] def ServiceCall.Answer : ServiceCall → Type
  | .register _ _ => Wallet
  | .deposit _ _ _ => Wallet
  | .withdraw _ _ _ => Wallet
  | .createMarket _ _ _ => Market
  | .closeMarket _ _ => Market
  | .closeExpiredMarkets _ => ℕ
  | .resolveMarket _ _ _ => Market
  | .placeOrder _ _ _ => OrderEntity
  | .cancelOrder _ _ _ => Order
  | .handleSettlement _ _ _ => Unit
  | .retryByTradeId _ _ => SettlementRecoveryResult
  | .retryByJobId _ _ => SettlementRecoveryResult

def ServiceCall.code : (q : ServiceCall) → Service q.Answer
  | .register userId walletId =>
      (ServiceOp.transaction (.createWalletForUser userId walletId)).call
  | .deposit userId dto createdAt => (ServiceOp.transaction (.deposit userId dto createdAt)).call
  | .withdraw userId dto createdAt => (ServiceOp.transaction (.withdraw userId dto createdAt)).call
  | .createMarket closesAt marketId now =>
      (ServiceOp.transaction (.createMarket closesAt marketId now)).call
  | .closeMarket marketId now => (ServiceOp.transaction (.closeMarket marketId now)).call
  | .closeExpiredMarkets now => (ServiceOp.transaction (.closeExpiredMarkets now)).call
  | .resolveMarket marketId winningSide createdAt =>
      (ServiceOp.transaction (.resolveMarket marketId winningSide createdAt)).call
  | .placeOrder userId dto ids => OrdersService.placeOrder userId dto ids
  | .cancelOrder userId orderId createdAt => OrdersService.cancelOrder userId orderId createdAt
  | .handleSettlement tradeId createdAt failedAt =>
      SettlementWorkerService.handleSettlement tradeId createdAt failedAt
  | .retryByTradeId tradeId createdAt => SettlementRecoveryService.retryByTradeId tradeId createdAt
  | .retryByJobId jobId createdAt => SettlementRecoveryService.retryByJobId jobId createdAt

/-- The identifier that the database generates for the trade of a placement is a new one. -/
def ServiceCall.Fresh (db : Db) : ServiceCall → Prop
  | .placeOrder _ _ ids => ∀ trade ∈ db.trades.rows, trade.id ≠ ids.tradeId
  | _ => True

/-! ## Histories -/

/-- What a placement consists of up to the end of its matching attempt. -/
def ServiceOp.isAttempt : ServiceOp → Bool
  | .projectOpenOrder _ => true
  | .transaction (.tryMatchOrder _ _) => true
  | _ => false

/-- Nobody else holds a row, and no fault keeps a placement from its matching attempt. -/
def AttemptsWork (op : ServiceOp) (c : Infra) : Prop :=
  (∀ r, c.busy r = false) ∧ (op.isAttempt = true → c.failing = none)

/-- Nobody else holds a row, and nothing fails except that the queue cannot be reached. -/
def OnlyEnqueuesFail (op : ServiceOp) (c : Infra) : Prop :=
  (∀ r, c.busy r = false) ∧ (c.failing ≠ none → ∃ tradeId, op = .addJob tradeId)

theorem OnlyEnqueuesFail.attemptsWork {op : ServiceOp} {c : Infra} (h : OnlyEnqueuesFail op c) :
    AttemptsWork op c := by
  refine ⟨h.1, fun hop => ?_⟩
  by_contra hfails
  obtain ⟨tradeId, rfl⟩ := h.2 hfails
  cases hop

/-- What happens between two states of a history. -/
inductive Occurrence
  | response (q : ServiceCall) (r : Except Err q.Answer)
  /-- the worker and the clock move jobs -/
  | queue
  /-- `onApplicationBootstrap`, of which the projection and the queue are left open -/
  | restart

/-- Histories whose operations meet conditions that `A` allows. -/
def sequential (keyPrefix : String) (A : ServiceOp → Infra → Prop) : System World Occurrence where
  init w := w = World.empty
  step w e w' :=
    match e with
    | .response q r => q.Fresh w.db ∧ q.code.Runs (machine keyPrefix) A w r w'
    | .queue => ∃ queue, w' = { w with queue := queue }
    | .restart => ∃ busy r, Exec (.serial busy) (reopenOrders (orphanOrders w.db)) w.db r w'.db

/-! ## Requests beside the order book -/

open MatchingEngineBroadcastService in
/-- `tryMatchOrder` once the two orders are removed from the projection. -/
def MatchingEngineService.afterRemoval (matched : Matched) (failedAt : Timestamp) :
    Service Unit := do
  let added ← (do
    (ServiceOp.addJob matched.trade.id).call
    return true : Service Bool).attempt fun _ => do
      logged (failPendingTradeAndReleaseFunds matched.trade.id failedAt)
      return false
  if added then broadcastTradeAndOrderBookUpdate matched.trade
  else return ()

theorem afterMatch_eq (matched : Matched) (failedAt : Timestamp) :
    MatchingEngineService.afterMatch matched failedAt = (do
      MatchingEngineBroadcastService.logged (MatchingEngineService.removeMatched matched)
      MatchingEngineService.afterRemoval matched failedAt) := rfl

/-- An operation that neither places, cancels, matches nor reopens an order. -/
def ServiceOp.Beside (op : ServiceOp) : Prop := ∀ a, op = .transaction a → a.besideBook = true

/-- The requests that have nothing to do with the order book. -/
def ServiceCall.beside : ServiceCall → Bool
  | .placeOrder _ _ _ => false
  | .cancelOrder _ _ _ => false
  | _ => true

section Uses

open MatchingEngineBroadcastService

variable {P : ServiceOp → Prop}

theorem uses_settlementQueue (hop : ∀ op : ServiceOp, op.isTransaction = false →
    op.isProjection = false → P op) (tradeId : UuidString) :
    (SettlementQueueService.retrySettlementByTradeId tradeId).Uses P := by
  have henqueue : (SettlementQueueService.enqueue tradeId).Uses P :=
    Code.uses_bind (Code.uses_call (hop _ rfl rfl)) fun _ => trivial
  have hreplace : (SettlementQueueService.replace tradeId).Uses P :=
    Code.uses_bind (uses_logged (Code.uses_call (hop _ rfl rfl))) fun _ => henqueue
  refine Code.uses_bind (Code.uses_call (hop _ rfl rfl)) fun existingJob => ?_
  cases existingJob with
  | false => exact henqueue
  | true =>
      refine Code.uses_bind (Code.uses_call (hop _ rfl rfl)) fun existingState => ?_
      cases existingState with
      | none => exact hreplace
      | some st =>
          dsimp only
          split
          · exact Code.uses_bind (Code.uses_call (hop _ rfl rfl)) fun _ => trivial
          · split
            · trivial
            · exact hreplace

/-- What the requests beside the order book consist of. -/
theorem uses_beside (htx : ∀ a : Action, a.besideBook = true → P (.transaction a))
    (hop : ∀ op : ServiceOp, op.isTransaction = false → op.isProjection = false → P op)
    {q : ServiceCall} (hq : q.beside = true) : q.code.Uses P := by
  have hbalances : ∀ userIds, (broadcastBalanceUpdates userIds).Uses P := fun userIds =>
    uses_broadcastBalances (fun _ => hop _ rfl rfl) (fun _ => hop _ rfl rfl) _
  have hretry : ∀ tradeId createdAt,
      (SettlementRecoveryService.retryByTradeId tradeId createdAt).Uses P := by
    intro tradeId createdAt
    refine Code.uses_bind (Code.uses_call (htx _ rfl)) fun _ => ?_
    exact Code.uses_bind (uses_settlementQueue hop tradeId) fun _ => trivial
  -- each of these calls is a transaction, at most with broadcasts or queue commands around it
  cases q with
  | placeOrder userId dto ids => cases hq
  | cancelOrder userId orderId createdAt => cases hq
  | handleSettlement tradeId createdAt failedAt =>
      refine Code.uses_attempt (Code.uses_bind (Code.uses_call (htx _ rfl)) hbalances) fun e => ?_
      refine Code.uses_bind (Code.uses_call (htx _ rfl)) fun userIds => ?_
      exact Code.uses_bind (hbalances _) fun _ => trivial
  | retryByTradeId tradeId createdAt => exact hretry tradeId createdAt
  | retryByJobId jobId createdAt =>
      refine Code.uses_bind (Code.uses_call (hop _ rfl rfl)) fun tradeId => ?_
      cases tradeId with
      | none => trivial
      | some tradeId => exact hretry tradeId createdAt
  | register userId walletId => exact Code.uses_call (htx _ rfl)
  | deposit userId dto createdAt => exact Code.uses_call (htx _ rfl)
  | withdraw userId dto createdAt => exact Code.uses_call (htx _ rfl)
  | createMarket closesAt marketId now => exact Code.uses_call (htx _ rfl)
  | closeMarket marketId now => exact Code.uses_call (htx _ rfl)
  | closeExpiredMarkets now => exact Code.uses_call (htx _ rfl)
  | resolveMarket marketId winningSide createdAt => exact Code.uses_call (htx _ rfl)

theorem uses_orderBookBroadcast (hop : ∀ op : ServiceOp, op.isTransaction = false →
    op.isProjection = false → P op) (marketId : UuidString) :
    (broadcastOrderBookUpdate marketId).Uses P :=
  uses_broadcastOrderBookUpdate (fun _ _ => hop _ rfl rfl) (fun _ _ => hop _ rfl rfl)
    (fun _ => hop _ rfl rfl) (fun _ => hop _ rfl rfl) marketId

/-- What follows the two removals of a match. -/
theorem uses_afterRemoval (htx : ∀ a : Action, a.besideBook = true → P (.transaction a))
    (hop : ∀ op : ServiceOp, op.isTransaction = false → op.isProjection = false → P op)
    (matched : Matched) (failedAt : Timestamp) :
    (MatchingEngineService.afterRemoval matched failedAt).Uses P := by
  refine Code.uses_bind (Code.uses_attempt ?_ fun e => ?_) fun added => ?_
  · exact Code.uses_bind (Code.uses_call (hop _ rfl rfl)) fun _ => trivial
  · refine Code.uses_bind (uses_logged ?_) fun _ => trivial
    refine Code.uses_bind (Code.uses_call (htx _ rfl)) fun userIds => ?_
    exact uses_broadcastBalances (fun _ => hop _ rfl rfl) (fun _ => hop _ rfl rfl) _
  · cases added with
    | false => trivial
    | true =>
        refine uses_logged (Code.uses_bind (Code.uses_call (hop _ rfl rfl)) fun _ => ?_)
        exact uses_orderBookBroadcast hop _

end Uses

/-! ## What the requests come to -/

section Runs

open MatchingEngineBroadcastService

variable {keyPrefix : String} {A : ServiceOp → Infra → Prop} {w w' : World}

theorem runs_transaction {a : Action} {r : Except Err a.Result}
    (h : (ServiceOp.transaction a).call.Runs (machine keyPrefix) A w r w') :
    (∃ e, r = .error e ∧ w' = w) ∨ ∃ x db c, A (.transaction a) c ∧ r = .ok x ∧
      w' = { w with db := db } ∧ a.tx.run c.busy w.db = .ok (x, db) := by
  have hruns : (Code.call (I := services) (ServiceOp.transaction a)).Runs (machine keyPrefix) A
      w r w' := h
  obtain ⟨c, hc, hstep⟩ := Code.runs_call.mp hruns
  rcases machine_transaction hstep with hfailed | ⟨x, db, hx, hw, -, hrun⟩
  · exact Or.inl hfailed
  · exact Or.inr ⟨x, db, c, hc, hx, hw, hrun⟩

/-- A transaction that meets no fault, and whose program returns, commits. -/
theorem runs_committed {a : Action} (hA : ∀ c, A (.transaction a) c → c.failing = none)
    {r : Except Err a.Result} (h : (ServiceOp.transaction a).call.Runs (machine keyPrefix) A w r w')
    (hreturns : ∀ c, A (.transaction a) c → ∃ x, a.tx.run c.busy w.db = .ok x) :
    ∃ x db c, A (.transaction a) c ∧ r = .ok x ∧ w' = { w with db := db } ∧
      a.tx.run c.busy w.db = .ok (x, db) := by
  have hruns : (Code.call (I := services) (ServiceOp.transaction a)).Runs (machine keyPrefix) A
      w r w' := h
  obtain ⟨c, hc, hperform⟩ := Code.runs_call.mp hruns
  obtain ⟨⟨x, db⟩, hrun⟩ := hreturns c hc
  have hunder : a.under c = a.tx := by
    rw [Action.under, hA c hc]
  rw [machine_works (hA c hc)] at hperform
  simp only [World.perform, hunder, hrun, Prod.mk.injEq] at hperform
  exact ⟨x, db, c, hc, hperform.1.symm, hperform.2.symm, hrun⟩

/-- An operation that cannot fail answers, and does what it does. -/
theorem runs_works {op : ServiceOp} (hop : ∀ c, A op c → c.failing = none) {r : Except Err op.Answer}
    (h : op.call.Runs (machine keyPrefix) A w r w') : ∃ c, w.perform keyPrefix c op = (r, w') := by
  have hruns : (Code.call (I := services) op).Runs (machine keyPrefix) A w r w' := h
  obtain ⟨c, hc, hstep⟩ := Code.runs_call.mp hruns
  rw [machine_works (hop c hc)] at hstep
  exact ⟨c, hstep⟩

theorem runs_logged {p : Service Unit} {r : Except Err Unit}
    (h : (logged p).Runs (machine keyPrefix) A w r w') :
    r = .ok () ∧ ∃ r', p.Runs (machine keyPrefix) A w r' w' := by
  rcases Code.runs_attempt.mp h with ⟨a, rfl, hp⟩ | ⟨e, w₁, hp, hhandler⟩
  · exact ⟨rfl, _, hp⟩
  · obtain ⟨rfl, rfl⟩ := Code.runs_pure.mp hhandler
    exact ⟨rfl, _, hp⟩

/-- Code without transactions and without commands to the projection changes neither store. -/
theorem runs_reads {α : Type} {p : Service α} (hp : p.Uses fun op : ServiceOp =>
    op.isTransaction = false ∧ op.isProjection = false) {r : Except Err α}
    (h : p.Runs (machine keyPrefix) A w r w') : w'.db = w.db ∧ w'.redis = w.redis := by
  refine hp.runs (J := fun w₁ : World => w₁.db = w.db ∧ w₁.redis = w.redis) ?_ h ⟨rfl, rfl⟩
  intro c w₁ op hop hJ
  rw [machine_db hop.1, machine_redis hop.2]
  exact hJ

theorem runs_broadcast {marketId : UuidString} {r : Except Err Unit}
    (h : (logged (broadcastOrderBookUpdate marketId)).Runs (machine keyPrefix) A w r w') :
    w'.db = w.db ∧ w'.redis = w.redis :=
  runs_reads (uses_logged (uses_orderBookBroadcast (fun _ htx hproj => ⟨htx, hproj⟩) marketId)) h

/-- What the attempt of `tryMatchOrder` comes to: it finds nothing and changes nothing, or it
makes a trade with the oldest order that complements it, and `rest` is what follows. -/
inductive Attempted (keyPrefix : String) (A : ServiceOp → Infra → Prop) (orderId tradeId : Uuid)
    (failedAt : Timestamp) (w w' : World) : Prop
  | nothing (unmatched : ∀ order, w.db.orders.find? orderId = some order → order.status = .OPEN →
        w.db.Unmatched order) (same : w' = w)
  | matched {order c : Order} {t : Db} {busy : RowId → Bool} {r : Except Err Unit}
      (found : w.db.orders.find? orderId = some order) (isOpen : order.status = .OPEN)
      (oldest : w.db.OldestMatch order c)
      (run : (tryMatchOrder orderId tradeId).run busy w.db = .ok (some
        ⟨matchedTrade order c tradeId, order.withStatus .MATCH_PENDING,
          c.withStatus .MATCH_PENDING⟩, t))
      (rest : (MatchingEngineService.afterMatch ⟨matchedTrade order c tradeId,
        order.withStatus .MATCH_PENDING, c.withStatus .MATCH_PENDING⟩ failedAt).Runs
          (machine keyPrefix) A { w with db := t } r w')

/-- While nobody else holds a row the transaction of an attempt commits. -/
theorem runs_tryMatchOrder (hA : ∀ op c, A op c → AttemptsWork op c) (hs : w.db.Coherent)
    {orderId tradeId : Uuid} (hnew : ∀ trade ∈ w.db.trades.rows, trade.id ≠ tradeId)
    {failedAt : Timestamp} {r : Except Err Unit}
    (h : (MatchingEngineService.tryMatchOrder orderId tradeId failedAt).Runs (machine keyPrefix) A
      w r w') : Attempted keyPrefix A orderId tradeId failedAt w w' := by
  have hworks : ∀ c, A (.transaction (.tryMatchOrder orderId tradeId)) c → c.failing = none :=
    fun c hc => (hA _ c hc).2 rfl
  have hreturns : ∀ c, A (.transaction (.tryMatchOrder orderId tradeId)) c →
      ∃ x, (tryMatchOrder orderId tradeId).run c.busy w.db = .ok x := by
    intro c hc
    rcases run_tryMatchOrder hs (hA _ c hc).1 hnew orderId with
      ⟨order, counterparty, t, -, -, -, hrun⟩ | ⟨-, hrun⟩
    · exact ⟨_, hrun⟩
    · exact ⟨_, hrun⟩
  rcases Code.runs_bind.mp h with ⟨x, w₁, htx, hrest⟩ | ⟨e, -, htx⟩
  · obtain ⟨x', db, c, hc, hx, rfl, hrun⟩ := runs_committed hworks htx hreturns
    cases hx
    have hrun : (tryMatchOrder orderId tradeId).run c.busy w.db = .ok (x, db) := hrun
    rcases run_tryMatchOrder hs (hA _ c hc).1 hnew orderId with
      ⟨order, counterparty, t, hfound, hopen, holdest, hrun'⟩ | ⟨hnone, hrun'⟩
    · rw [hrun'] at hrun
      cases hrun
      exact .matched hfound hopen holdest hrun' hrest
    · rw [hrun'] at hrun
      cases hrun
      exact .nothing hnone (Code.runs_pure.mp hrest).2
  · obtain ⟨x, db, c, -, hx, -⟩ := runs_committed hworks htx hreturns
    cases hx

/-- What a placement that returns `order` comes to: its transaction leaves `db`, an open order
is projected, and in `w₁` the attempt for it is made. -/
inductive PlacementRun (keyPrefix : String) (A : ServiceOp → Infra → Prop) (userId : Uuid)
    (dto : PlaceOrderDto) (ids : PlacementIds) (order : OrderEntity) (w w' : World) : Prop
  | intro {busy : RowId → Prop} {w₁ : World}
      (exec : Exec (.serial busy) (placeOrder userId dto ids.orderId ids.now ids.createdAt)
        w.db order w₁.db)
      (projected : w₁.redis = if order.row.status = .OPEN then
        w.redis.multi (projectCommands keyPrefix order) else w.redis)
      (attempted : Attempted keyPrefix A order.row.id ids.tradeId ids.failedAt w₁ w')

/-- A placement is rejected without a trace, or it returns its order. -/
theorem runs_placeOrder (hA : ∀ op c, A op c → AttemptsWork op c) (hs : w.db.Coherent)
    {userId : Uuid} {dto : PlaceOrderDto} {ids : PlacementIds}
    (hnew : (ServiceCall.placeOrder userId dto ids).Fresh w.db) {r : Except Err OrderEntity}
    (h : (OrdersService.placeOrder userId dto ids).Runs (machine keyPrefix) A w r w') :
    (w' = w ∧ ∃ e, r = .error e ∧ (ServiceOp.transaction (.placeOrder userId dto ids.orderId ids.now
        ids.createdAt)).call.Runs (machine keyPrefix) A w (.error e) w) ∨
      ∃ order, r = .ok order ∧ PlacementRun keyPrefix A userId dto ids order w w' := by
  rcases Code.runs_bind.mp h with ⟨order, w₁, htx, hrest⟩ | ⟨e, rfl, htx⟩
  case inr =>
    rcases runs_transaction htx with ⟨e', -, rfl⟩ | ⟨x, db, c, -, hx, -⟩
    · exact Or.inl ⟨rfl, e, rfl, htx⟩
    · cases hx
  rcases runs_transaction htx with ⟨e', he, -⟩ | ⟨x, db, c, -, hx, rfl, hrun⟩
  · cases he
  cases hx
  have hexec : Exec _ (placeOrder userId dto ids.orderId ids.now ids.createdAt) w.db order db :=
    exec_of_run hrun
  have heff : (Action.placeOrder userId dto ids.orderId ids.now ids.createdAt).Effect _ w.db db :=
    exec_tx_effect hs (a := .placeOrder userId dto ids.orderId ids.now ids.createdAt) trivial hexec
  have hsdb : db.Coherent := hs.effect heff
  have htrades : db.trades = w.db.trades := heff.trades_eq rfl
  -- the order is projected
  have hproject : ∀ {r₁ : Except Err Unit} {w₂ : World},
      (OrderBookProjectionService.projectOpenOrder order).Runs (machine keyPrefix) A
        { w with db := db } r₁ w₂ → r₁ = .ok () ∧ w₂.db = db ∧
          w₂.redis = if order.row.status = .OPEN then
            w.redis.multi (projectCommands keyPrefix order) else w.redis := by
    intro r₁ w₂ hruns
    by_cases hopen : order.row.status = .OPEN
    · rw [OrderBookProjectionService.projectOpenOrder_of_open hopen] at hruns
      obtain ⟨c, hperform⟩ := runs_works (fun c hc => (hA _ c hc).2 rfl) hruns
      cases hperform
      exact ⟨rfl, rfl, (if_pos hopen).symm⟩
    · rw [OrderBookProjectionService.projectOpenOrder_of_not_open hopen] at hruns
      obtain ⟨rfl, rfl⟩ := Code.runs_pure.mp hruns
      exact ⟨rfl, rfl, (if_neg hopen).symm⟩
  rcases Code.runs_bind.mp hrest with ⟨_, w₂, hp, hrest⟩ | ⟨e, -, hp⟩
  case inr =>
    obtain ⟨hok, -⟩ := hproject hp
    cases hok
  obtain ⟨-, hdb₂, hredis₂⟩ := hproject hp
  rcases Code.runs_bind.mp hrest with ⟨_, w₃, hbroadcast, hrest⟩ | ⟨e, -, hbroadcast⟩
  case inr =>
    obtain ⟨hok, -⟩ := runs_logged hbroadcast
    cases hok
  obtain ⟨hdb₃, hredis₃⟩ := runs_broadcast hbroadcast
  rcases Code.runs_bind.mp hrest with ⟨_, w₄, hattempt, hrest⟩ | ⟨e, -, hattempt⟩
  case inr =>
    obtain ⟨hok, -⟩ := runs_logged hattempt
    cases hok
  obtain ⟨-, r', hattempt⟩ := runs_logged hattempt
  obtain ⟨rfl, rfl⟩ := Code.runs_pure.mp hrest
  have hdb : w₃.db = db := hdb₃.trans hdb₂
  have hexec₃ : Exec _ (placeOrder userId dto ids.orderId ids.now ids.createdAt) w.db order w₃.db :=
    hdb.symm ▸ hexec
  refine Or.inr ⟨order, rfl, .intro hexec₃ (hredis₃.trans hredis₂) ?_⟩
  refine runs_tryMatchOrder hA (by rw [hdb]; exact hsdb) ?_ hattempt
  rw [hdb, htrades]
  exact hnew

/-- A cancellation is rejected without a trace, or its transaction commits; if Redis works the
order is then removed from the projection. -/
theorem runs_cancelOrder {userId orderId : Uuid} {createdAt : Timestamp} {r : Except Err Order}
    (h : (OrdersService.cancelOrder userId orderId createdAt).Runs (machine keyPrefix) A w r w') :
    w' = w ∨ ∃ cancelled busy, Exec (.serial busy) (cancelOrder userId orderId createdAt) w.db
      cancelled w'.db ∧ ((∀ c, A (.removeOpenOrder cancelled) c → c.failing = none) →
        w'.redis = w.redis.multi (removeCommands keyPrefix cancelled)) := by
  rcases Code.runs_bind.mp h with ⟨cancelled, w₁, htx, hrest⟩ | ⟨e, -, htx⟩
  case inr =>
    rcases runs_transaction htx with ⟨e', -, hw⟩ | ⟨x, db, c, -, hx, -⟩
    · exact Or.inl hw
    · cases hx
  rcases runs_transaction htx with ⟨e', he, -⟩ | ⟨x, db, c, -, hx, rfl, hrun⟩
  · cases he
  cases hx
  have hexec : Exec _ (cancelOrder userId orderId createdAt) w.db cancelled db := exec_of_run hrun
  -- what follows the transaction leaves the database alone
  have hdb : ∀ {r₁ : Except Err Unit} {w₂ : World},
      (OrderBookProjectionService.removeOpenOrder cancelled).Runs (machine keyPrefix) A
        { w with db := db } r₁ w₂ → w₂.db = db := by
    intro r₁ w₂ hruns
    have huses : (OrderBookProjectionService.removeOpenOrder cancelled).Uses
        fun op : ServiceOp => op.isTransaction = false := Code.uses_call rfl
    refine huses.runs (J := fun w₂ : World => w₂.db = db) ?_ hruns rfl
    intro c w₂ op hop hw₂
    rw [machine_db hop, hw₂]
  -- the removal, then a broadcast whose errors are logged
  rcases Code.runs_bind.mp hrest with ⟨_, w₂, hremove, hrest⟩ | ⟨e, -, hremove⟩
  case inr =>
    refine Or.inr ⟨cancelled, _, (hdb hremove).symm ▸ hexec, fun hworks => ?_⟩
    obtain ⟨c, hperform⟩ := runs_works hworks hremove
    cases hperform
  rcases Code.runs_bind.mp hrest with ⟨_, w₃, hbroadcast, hrest⟩ | ⟨e, -, hbroadcast⟩
  case inr =>
    obtain ⟨hok, -⟩ := runs_logged hbroadcast
    cases hok
  obtain ⟨hdb₃, hredis₃⟩ := runs_broadcast hbroadcast
  obtain ⟨-, rfl⟩ := Code.runs_pure.mp hrest
  refine Or.inr ⟨cancelled, _, (hdb₃.trans (hdb hremove)).symm ▸ hexec, fun hworks => ?_⟩
  obtain ⟨c, hperform⟩ := runs_works hworks hremove
  cases hperform
  exact hredis₃

end Runs

/-! ## What every request leaves -/

/-- Orders and trades keep their terms, and the ledger only grows. -/
structure Onward (s t : Db) : Prop where
  orders : OrdersKept s t
  trades : ∀ {id trade}, s.trades.find? id = some trade →
    ∃ st, t.trades.find? id = some (trade.withStatus st)
  ledger : LedgerGrows s.ledger t.ledger

/-- No order is placed or opened, and no trade is made. -/
structure NothingNew (s t : Db) : Prop where
  orders : ∀ {id o}, t.orders.find? id = some o →
    ∃ st, s.orders.find? id = some (o.withStatus st) ∧ (o.status = .OPEN → st = .OPEN)
  trades : ∀ {id trade}, t.trades.find? id = some trade → ∃ trade', s.trades.find? id = some trade'

section Onward

variable {s t u : Db} {m : Mode RowId}

theorem Onward.refl (s : Db) : Onward s s where
  orders := OrdersKept.refl s
  trades {_ trade} h := ⟨trade.status, h⟩
  ledger := LedgerGrows.refl _

theorem Onward.trans (h : Onward s t) (h' : Onward t u) : Onward s u where
  orders := h.orders.trans h'.orders
  trades ht := by
    obtain ⟨st, ht⟩ := h.trades ht
    obtain ⟨st', ht⟩ := h'.trades ht
    exact ⟨st', ht⟩
  ledger := h.ledger.trans h'.ledger

theorem Evolves.onward (h : Evolves s t) : Onward s t where
  orders := h.ordersKept
  trades ht := by
    obtain ⟨trade', ht', st, rfl, -⟩ := h.trades ht
    exact ⟨st, ht'⟩
  ledger := h.ledger

theorem NothingNew.refl (s : Db) : NothingNew s s where
  orders {_ o} h := ⟨o.status, h, fun hopen => hopen⟩
  trades {_ trade} h := ⟨trade, h⟩

theorem NothingNew.trans (h : NothingNew s t) (h' : NothingNew t u) : NothingNew s u where
  orders ho := by
    obtain ⟨st, ho', hopen⟩ := h'.orders ho
    obtain ⟨st', ho'', hopen'⟩ := h.orders ho'
    exact ⟨st', ho'', fun heq => hopen' (hopen heq)⟩
  trades ht := by
    obtain ⟨trade', ht'⟩ := h'.trades ht
    exact h.trades ht'

/-- The open orders were open before. -/
theorem NothingNew.open_before (h : NothingNew s t) {o : Order} (ho : o ∈ t.orders.rows)
    (hopen : o.status = .OPEN) : o ∈ s.orders.rows := by
  obtain ⟨st, hst, hwas⟩ := h.orders (Table.find?_key ho)
  rw [hwas hopen, ← hopen] at hst
  exact Table.mem_of_find? hst

theorem NothingNew.not_crossed (h : NothingNew s t) (hs : ¬ s.Crossed) : ¬ t.Crossed :=
  not_crossed_of_open hs fun _ ho hopen => h.open_before ho hopen

/-- Only a placement opens an order, and only an attempt makes a trade. -/
theorem nothingNew_of_tx {a : Action} {r : a.Result} (hs : s.Coherent) (ha : a.Starts s)
    (h : Exec m a.tx s r t) (hopens : ∀ o, ¬ a.opens r o)
    (hmatch : ∀ orderId tradeId, a ≠ .tryMatchOrder orderId tradeId) : NothingNew s t where
  orders {id o} ho := by
    have hkept : OrdersKept s t := ((exec_tx_effect hs ha h).evolves hs).ordersKept
    rcases orders_of_tx hs ha h ho with ⟨st, hst, -⟩ | hopened
    · refine ⟨st, hst, fun hopen => ?_⟩
      obtain ⟨st', hst', hwas⟩ := hkept _ _ hst
      rw [ho] at hst'
      have hstatus : o.status = st' := congrArg Order.status (Option.some.inj hst')
      exact hwas (hstatus.symm.trans hopen)
    · exact absurd hopened (hopens o)
  trades ht := (exec_tx_effect hs ha h).trade_before hmatch ht

theorem nothingNew_of_beside {a : Action} {r : a.Result} (hbeside : a.besideBook = true)
    (hs : s.Coherent) (h : Exec m a.tx s r t) : NothingNew s t := by
  have hstarts : a.Starts s := by
    cases a with
    | reopenOrders orders => cases hbeside
    | _ => trivial
  refine nothingNew_of_tx hs hstarts h ?_ ?_
  · intro o hopened
    cases a with
    | placeOrder => cases hbeside
    | _ => exact hopened.elim
  · rintro orderId tradeId rfl
    cases hbeside

end Onward

section Requests

open MatchingEngineBroadcastService

variable {keyPrefix : String} {A : ServiceOp → Infra → Prop} {w w' : World}

/-- Code beside the order book places, opens and matches nothing. -/
theorem runs_beside {α : Type} {p : Service α} (hp : p.Uses ServiceOp.Beside) {r : Except Err α}
    (h : p.Runs (machine keyPrefix) A w r w') (hs : w.db.Coherent) :
    w'.db.Coherent ∧ NothingNew w.db w'.db := by
  refine hp.runs (J := fun w₁ : World => w₁.db.Coherent ∧ NothingNew w.db w₁.db) ?_ h
    ⟨hs, NothingNew.refl _⟩
  intro c w₁ op hop hJ
  obtain ⟨hs₁, hnew⟩ := hJ
  by_cases htx : op.isTransaction = false
  · rw [machine_db htx]
    exact ⟨hs₁, hnew⟩
  cases op with
  | transaction a =>
      have hbeside : a.besideBook = true := hop a rfl
      have hstarts : a.Starts w₁.db := by
        cases a with
        | reopenOrders orders => cases hbeside
        | _ => trivial
      cases hstep : (machine keyPrefix).step c w₁ (.transaction a) with
      | mk r w₂ =>
          rcases machine_transaction hstep with ⟨e, -, rfl⟩ | ⟨x, db, -, rfl, -, hrun⟩
          · exact ⟨hs₁, hnew⟩
          · have hexec := exec_of_run hrun
            exact ⟨hs₁.effect (exec_tx_effect hs₁ hstarts hexec),
              hnew.trans (nothingNew_of_beside hbeside hs₁ hexec)⟩
  | _ => exact absurd rfl htx

theorem uses_afterMatch_beside (matched : Matched) (failedAt : Timestamp) :
    (MatchingEngineService.afterMatch matched failedAt).Uses ServiceOp.Beside := by
  have hop : ∀ op : ServiceOp, op.isTransaction = false → ServiceOp.Beside op := by
    rintro op hop a rfl
    cases hop
  have hremove : ∀ order, (OrderBookProjectionService.removeOpenOrder order).Uses
      ServiceOp.Beside := fun order => Code.uses_call (hop _ rfl)
  rw [afterMatch_eq]
  refine Code.uses_bind (uses_logged ?_) fun _ => uses_afterRemoval ?_ ?_ matched failedAt
  · refine Code.uses_bind (Code.uses_attempt ?_ fun _ => trivial) fun removed => ?_
    · exact Code.uses_bind (hremove _) fun _ => trivial
    · refine Code.uses_bind (hremove _) fun _ => ?_
      cases removed <;> trivial
  · rintro a hbeside a' ⟨⟩
    exact hbeside
  · exact fun op htx _ => hop op htx

theorem uses_beside_code {q : ServiceCall} (hq : q.beside = true) :
    q.code.Uses ServiceOp.Beside := by
  refine uses_beside ?_ ?_ hq
  · rintro a hbeside a' ⟨⟩
    exact hbeside
  · rintro op htx - a rfl
    cases htx

/-- An operation that does not reopen orders. -/
def ServiceOp.Regular (op : ServiceOp) : Prop :=
  ∀ orders, op ≠ .transaction (.reopenOrders orders)

theorem ServiceOp.Beside.regular {op : ServiceOp} (h : op.Beside) : op.Regular := by
  rintro orders rfl
  cases h _ rfl

/-- No request reopens orders. -/
theorem uses_regular (q : ServiceCall) : q.code.Uses ServiceOp.Regular := by
  have hbroadcast : ∀ marketId : UuidString, (logged (broadcastOrderBookUpdate marketId)).Uses
      ServiceOp.Regular := by
    refine fun marketId => uses_logged (uses_orderBookBroadcast ?_ marketId)
    rintro op htx - orders rfl
    cases htx
  by_cases hq : q.beside = true
  · exact (uses_beside_code hq).mono fun op hop => hop.regular
  cases q with
  | placeOrder userId dto ids =>
      refine Code.uses_bind (Code.uses_call fun orders h => by cases h) fun order => ?_
      refine Code.uses_bind ?_ fun _ => Code.uses_bind (hbroadcast _) fun _ => ?_
      · unfold OrderBookProjectionService.projectOpenOrder
        split
        · trivial
        · exact Code.uses_call fun orders h => by cases h
      · refine Code.uses_bind (uses_logged ?_) fun _ => trivial
        refine Code.uses_bind (Code.uses_call fun orders h => by cases h) fun matched => ?_
        cases matched with
        | none => trivial
        | some matched => exact (uses_afterMatch_beside matched _).mono fun op hop => hop.regular
  | cancelOrder userId orderId createdAt =>
      refine Code.uses_bind (Code.uses_call fun orders h => by cases h) fun cancelled => ?_
      refine Code.uses_bind (Code.uses_call fun orders h => by cases h) fun _ => ?_
      exact Code.uses_bind (hbroadcast _) fun _ => trivial
  | _ => exact absurd rfl hq

/-- Code that reopens no orders keeps the database coherent, and every row. -/
theorem runs_regular {α : Type} {p : Service α} (hp : p.Uses ServiceOp.Regular) {r : Except Err α}
    (h : p.Runs (machine keyPrefix) A w r w') (hs : w.db.Coherent) :
    w'.db.Coherent ∧ Onward w.db w'.db := by
  refine hp.runs (J := fun w₁ : World => w₁.db.Coherent ∧ Onward w.db w₁.db) ?_ h
    ⟨hs, Onward.refl _⟩
  intro c w₁ op hop hJ
  obtain ⟨hs₁, honward⟩ := hJ
  by_cases htx : op.isTransaction = false
  · rw [machine_db htx]
    exact ⟨hs₁, honward⟩
  cases op with
  | transaction a =>
      have hstarts : a.Starts w₁.db := by
        cases a with
        | reopenOrders orders => exact absurd rfl (hop orders)
        | _ => trivial
      cases hstep : (machine keyPrefix).step c w₁ (.transaction a) with
      | mk r w₂ =>
          rcases machine_transaction hstep with ⟨e, -, rfl⟩ | ⟨x, db, -, rfl, -, hrun⟩
          · exact ⟨hs₁, honward⟩
          · have heff := exec_tx_effect hs₁ hstarts (exec_of_run hrun)
            exact ⟨hs₁.effect heff, honward.trans (heff.evolves hs₁).onward⟩
  | _ => exact absurd rfl htx

/-- **The step lemma of a history**: coherence is kept, and so is every row. -/
theorem sequential_onward {e : Occurrence} (h : (sequential keyPrefix A).step w e w')
    (hs : w.db.Coherent) : w'.db.Coherent ∧ Onward w.db w'.db := by
  cases e with
  | response q r => exact runs_regular (uses_regular q) h.2 hs
  | queue =>
      obtain ⟨queue, rfl⟩ := h
      exact ⟨hs, Onward.refl _⟩
  | restart =>
      obtain ⟨busy, r, hexec⟩ := h
      -- there is no orphan to reopen
      rw [Coherent.orphanOrders_eq_nil hs] at hexec
      rw [exec_reopenOrders_nil hexec]
      exact ⟨hs, Onward.refl _⟩

theorem sequential_coherent {C : World → Occurrence → Prop}
    (h : ((sequential keyPrefix A).restrict C).Reachable w) : w.db.Coherent := by
  refine h.invariant (fun w => w.db.Coherent) ?_ ?_
  · rintro w rfl
    exact Coherent.empty
  · exact fun w e w' hs hstep => (sequential_onward hstep.2 hs).1

/-- What is in the database stays there. -/
theorem sequential_run_onward {C : World → Occurrence → Prop} {es : List Occurrence}
    (h : ((sequential keyPrefix A).restrict C).Run w es w') (hs : w.db.Coherent) :
    w'.db.Coherent ∧ Onward w.db w'.db := by
  induction h with
  | nil => exact ⟨hs, Onward.refl _⟩
  | snoc _ hstep ih =>
      obtain ⟨hs₁, h₁⟩ := ih
      obtain ⟨hs₂, h₂⟩ := sequential_onward hstep.2 hs₁
      exact ⟨hs₂, h₁.trans h₂⟩

/-! ## No pair that crosses -/

/-- **A placement leaves no pair that crosses**, whatever follows its attempt. -/
theorem PlacementRun.not_crossed {userId : Uuid} {dto : PlaceOrderDto} {ids : PlacementIds}
    {order : OrderEntity} (h : PlacementRun keyPrefix A userId dto ids order w w') (hs : w.db.Coherent)
    (hcrossed : ¬ w.db.Crossed) : ¬ w'.db.Crossed := by
  obtain @⟨busy, w₁, hexec, -, hattempted⟩ := h
  have hs₁ : w₁.db.Coherent :=
    hs.effect (exec_tx_effect hs (a := .placeOrder userId dto ids.orderId ids.now ids.createdAt)
      trivial hexec)
  have honly : w₁.db.CrossedOnlyAt order.row.id := by
    rcases exec_placeOrder hexec with ⟨hsame, -⟩ | ⟨rfl, hplaced, -⟩
    · rw [hsame]
      exact crossedOnlyAt_of_not_crossed hcrossed _
    · exact crossedOnlyAt_of_insert hcrossed hplaced.inserted
  cases hattempted with
  | nothing unmatched same =>
      rw [same]
      exact honly.not_crossed unmatched
  | matched found isOpen oldest run rest =>
      rcases exec_tryMatchOrder_result (exec_of_run run) with ⟨hnone, -⟩ | ⟨matched, hr, hby⟩
      · cases hnone
      · cases hr
        have hst := hs₁.effect (exec_tx_effect hs₁ (a := .tryMatchOrder order.row.id ids.tradeId)
          trivial (exec_of_run run))
        exact (runs_beside (uses_afterMatch_beside _ _) rest hst).2.not_crossed
          (hby.not_crossed honly)

theorem nothingNew_of_cancelOrder {userId orderId : Uuid} {createdAt : Timestamp} {s t : Db}
    {cancelled : Order} {m : Mode RowId} (hs : s.Coherent)
    (h : Exec m (cancelOrder userId orderId createdAt) s cancelled t) : NothingNew s t :=
  nothingNew_of_tx (a := .cancelOrder userId orderId createdAt) hs trivial h
    (fun _ hopened => hopened) fun _ _ heq => by cases heq

/-- What a request other than a placement, or a restart, leaves of the order book. -/
theorem sequential_nothingNew {e : Occurrence} (h : (sequential keyPrefix A).step w e w')
    (hs : w.db.Coherent) (he : ∀ userId dto ids r, e ≠ .response (.placeOrder userId dto ids) r) :
    NothingNew w.db w'.db := by
  cases e with
  | response q r =>
      by_cases hq : q.beside = true
      · exact (runs_beside (uses_beside_code hq) h.2 hs).2
      cases q with
      | placeOrder userId dto ids => exact absurd rfl (he userId dto ids r)
      | cancelOrder userId orderId createdAt =>
          rcases runs_cancelOrder h.2 with rfl | ⟨cancelled, busy, hexec, -⟩
          · exact NothingNew.refl _
          · exact nothingNew_of_cancelOrder hs hexec
      | _ => exact absurd rfl hq
  | queue =>
      obtain ⟨queue, rfl⟩ := h
      exact NothingNew.refl _
  | restart =>
      obtain ⟨busy, r, hexec⟩ := h
      rw [Coherent.orphanOrders_eq_nil hs] at hexec
      rw [exec_reopenOrders_nil hexec]
      exact NothingNew.refl _

/-- **One request after the other never leaves two orders that could be matched.** -/
theorem sequential_not_crossed (hA : ∀ op c, A op c → AttemptsWork op c)
    {C : World → Occurrence → Prop} (h : ((sequential keyPrefix A).restrict C).Reachable w) :
    ¬ w.db.Crossed := by
  refine h.invariant_of (fun w => ¬ w.db.Crossed) (fun w => w.db.Coherent)
    (fun w hw => sequential_coherent hw) ?_ ?_
  · rintro w rfl ⟨a, ha, -⟩
    cases ha
  · intro w e w' hs hcrossed hstep
    by_cases he : ∃ userId dto ids r, e = .response (.placeOrder userId dto ids) r
    · obtain ⟨userId, dto, ids, r, rfl⟩ := he
      obtain ⟨hfresh, hruns⟩ := hstep.2
      rcases runs_placeOrder hA hs hfresh hruns with ⟨rfl, -⟩ | ⟨order, -, hplacement⟩
      · exact hcrossed
      · exact hplacement.not_crossed hs hcrossed
    · refine (sequential_nothingNew hstep.2 hs ?_).not_crossed hcrossed
      rintro userId dto ids r rfl
      exact he ⟨userId, dto, ids, r, rfl⟩

end Requests

/-! ## Histories that can be computed -/

namespace Sample

/-- What becomes of a request when nothing fails. -/
def respond (w : World) (q : ServiceCall) : Except Err q.Answer × World :=
  q.code.run (machine "olx") Infra.ok [] w

/-- The requests one after the other, as long as `D` allows each. -/
def respondAll (D : World → ServiceCall → Bool) : List ServiceCall → World → Option World
  | [], w => some w
  | q :: qs, w => if D w q then respondAll D qs (respond w q).2 else none

def fresh (w : World) : ServiceCall → Bool
  | .placeOrder _ _ ids => w.db.trades.rows.all fun trade => trade.id ≠ ids.tradeId
  | _ => true

theorem fresh_iff {w : World} {q : ServiceCall} : fresh w q = true ↔ q.Fresh w.db := by
  cases q with
  | placeOrder userId dto ids => simp [fresh, ServiceCall.Fresh]
  | _ => simp [fresh, ServiceCall.Fresh]

/-- What `opening` does, as requests. -/
def openingRequests : List ServiceCall :=
  [ .register alice alice
  , .register bob bob
  , .createMarket 1000 market 0
  , .deposit alice (depositDto "alice-pays-in" (by decide) (by decide)) 1
  , .deposit bob (depositDto "bob-pays-in" (by decide) (by decide)) 1 ]

variable {A : ServiceOp → Infra → Prop} {C : World → Occurrence → Prop} {w w' : World}
  {D : World → ServiceCall → Bool}

theorem step_respond (hA : ∀ op, A op Infra.ok) {q : ServiceCall} (hfresh : q.Fresh w.db) :
    (sequential "olx" A).step w (.response q (respond w q).1) (respond w q).2 := by
  refine ⟨hfresh, Code.runs_run hA ?_ _ _⟩
  intro c hc
  cases hc

theorem run_of_respondAll (hA : ∀ op, A op Infra.ok)
    (hD : ∀ w q r, D w q = true → q.Fresh w.db ∧ C w (.response q r)) {qs : List ServiceCall}
    (h : respondAll D qs w = some w') :
    ∃ es, ((sequential "olx" A).restrict C).Run w es w' := by
  induction qs generalizing w with
  | nil =>
      cases h
      exact ⟨[], .nil _⟩
  | cons q qs ih =>
      simp only [respondAll] at h
      by_cases hq : D w q = true
      · rw [if_pos hq] at h
        obtain ⟨es, hes⟩ := ih h
        obtain ⟨hfresh, hC⟩ := hD w q (respond w q).1 hq
        have hstep : ((sequential "olx" A).restrict C).step w (.response q (respond w q).1)
            (respond w q).2 := ⟨hC, step_respond hA hfresh⟩
        exact ⟨_, (System.Run.single hstep).append hes⟩
      · rw [if_neg hq] at h
        cases h

end Sample

end OutcomeExchange
