import OutcomeExchange.WalletService
import OutcomeExchange.IdempotencyKeys

set_option autoImplicit false

/-! # The settlement transactions

Four transactions take a trade and its two orders from one status to another and move
the collateral of both sides: `failPendingTradeAndReleaseFunds` of the matching engine,
`handleSettlement` and `markSettlementFailure` of the settlement worker, and
`prepareTradeForRetry` of the settlement recovery. They share their second half, from the
locks on the two orders on: `TradeMove.run`. -/

namespace OutcomeExchange

open Txn

/-- `orderRepo.save([…])` -/
def saveOrders : List Order → Tx Unit
  | [] => return ()
  | order :: orders => do
      saveOrder order
      saveOrders orders

/-- What one of the four transactions does once it has accepted the status of the trade. -/
structure TradeMove where
  /-- thrown when one of the orders is missing -/
  missing : Trade → Err
  /-- thrown when the orders are not in the status it expects -/
  refuse : Order → Order → Option Err
  /-- the wallet movement for the order on a side -/
  movement : OutcomeSide → Trade → Order → MutateWalletParams
  orderStatus : OrderStatus
  tradeStatus : TradeStatus
  /-- the trade is saved before the orders -/
  tradeFirst : Bool

/-- From the lock on the NO order on: move the collateral of both orders, save the new
statuses. -/
def TradeMove.finish (v : TradeMove) (trade : Trade) (yesOrder : Option Order) :
    Tx (List Uuid) := do
  let noOrder ← findOrderForUpdate trade.noOrderId
  match yesOrder, noOrder with
  | some yesOrder, some noOrder =>
      match v.refuse yesOrder noOrder with
      | some e => Prog.throw e
      | none => do
          let _ ← mutateWallet (v.movement .YES trade yesOrder)
          let _ ← mutateWallet (v.movement .NO trade noOrder)
          let orders := [yesOrder.withStatus v.orderStatus, noOrder.withStatus v.orderStatus]
          if v.tradeFirst then do
            saveTrade (trade.withStatus v.tradeStatus)
            saveOrders orders
            return [yesOrder.userId, noOrder.userId]
          else do
            saveOrders orders
            saveTrade (trade.withStatus v.tradeStatus)
            return [yesOrder.userId, noOrder.userId]
  | _, _ => Prog.throw (v.missing trade)

/-- Lock both orders and finish the move. -/
def TradeMove.run (v : TradeMove) (trade : Trade) : Tx (List Uuid) := do
  let yesOrder ← findOrderForUpdate trade.yesOrderId
  v.finish trade yesOrder

/-! ## The matching engine -/

def failPendingMove (createdAt : Timestamp) : TradeMove where
  missing trade := .error ("Related orders missing for pending trade " ++ trade.id.text)
  refuse _ _ := none
  movement _ trade order :=
    releaseParams order.userId (.int order.reservedCents)
      (EngineKey.trade trade.id (.enqueueRelease order.id)).text order.id.text createdAt
  orderStatus := .SETTLEMENT_FAILED
  tradeStatus := .FAILED
  tradeFirst := false

/-- The rollback of a trade whose settlement job could not be enqueued. -/
def failPendingTradeAndReleaseFunds (tradeId : Uuid) (createdAt : Timestamp) : Tx (List Uuid) := do
  match ← findTradeForUpdate tradeId with
  | none => return []
  | some trade =>
      if trade.status ≠ .PENDING_SETTLEMENT then return []
      else (failPendingMove createdAt).run trade

/-! ## The settlement worker -/

def settleMove (createdAt : Timestamp) : TradeMove where
  missing _ := .error "Related orders were not found for settlement"
  refuse _ _ := none
  movement side trade order :=
    settleDebitParams order.userId (.int order.reservedCents)
      (EngineKey.trade trade.id (.debit side)).text trade.id.text createdAt
  orderStatus := .MATCHED
  tradeStatus := .SETTLED
  tradeFirst := false

/-- The transaction of `handleSettlement`. -/
def handleSettlement (tradeId : Uuid) (createdAt : Timestamp) : Tx (List Uuid) := do
  match ← findTradeForUpdate tradeId with
  | none => return []
  | some trade =>
      if trade.status = .FAILED then
        Prog.throw (.error ("Trade " ++ tradeId.text ++
          " is marked as failed and requires manual recovery"))
      else if trade.status ≠ .PENDING_SETTLEMENT then return []
      else (settleMove createdAt).run trade

def settlementFailureMove (createdAt : Timestamp) : TradeMove where
  missing _ := .error "Related orders were not found while marking settlement failure"
  refuse _ _ := none
  movement side trade order :=
    releaseParams order.userId (.int order.reservedCents)
      (EngineKey.trade trade.id (.release side)).text order.id.text createdAt
  orderStatus := .SETTLEMENT_FAILED
  tradeStatus := .FAILED
  tradeFirst := true

/-- The transaction in the `catch` block of `handleSettlement`. -/
def markSettlementFailure (tradeId : Uuid) (createdAt : Timestamp) : Tx (List Uuid) := do
  match ← findTradeForUpdate tradeId with
  | none => return []
  | some trade =>
      if trade.status ≠ .PENDING_SETTLEMENT then return []
      else (settlementFailureMove createdAt).run trade

/-! ## The settlement recovery -/

structure RetryPreparation where
  tradeStatusBefore : TradeStatus
  tradeStatusAfter : TradeStatus
  rearmed : Bool
  deriving DecidableEq

def retryMove (createdAt : Timestamp) : TradeMove where
  missing trade := .notFound ("Related orders were not found for trade " ++ trade.id.text)
  refuse yesOrder noOrder :=
    if yesOrder.status ≠ .SETTLEMENT_FAILED ∨ noOrder.status ≠ .SETTLEMENT_FAILED then
      some (.badRequest "Trade orders are not in settlement failed state")
    else none
  movement _ trade order :=
    reserveParams order.userId (.int order.reservedCents)
      (EngineKey.trade trade.id (.retryReserve order.id)).text order.id.text createdAt
  orderStatus := .MATCH_PENDING
  tradeStatus := .PENDING_SETTLEMENT
  tradeFirst := false

def prepareTradeForRetry (tradeId : Uuid) (createdAt : Timestamp) : Tx RetryPreparation := do
  match ← findTradeForUpdate tradeId with
  | none => Prog.throw (.notFound ("Trade not found: " ++ tradeId.text))
  | some trade =>
      if trade.status = .PENDING_SETTLEMENT then
        return ⟨.PENDING_SETTLEMENT, .PENDING_SETTLEMENT, false⟩
      else if trade.status ≠ .FAILED then
        Prog.throw (.badRequest "Only failed settlement trades can be retried")
      else do
        let _ ← (retryMove createdAt).run trade
        return ⟨.FAILED, .PENDING_SETTLEMENT, true⟩

/-! ## What the transactions do -/

/-- Both movements were made and the trade and its orders took their new statuses. -/
inductive Moved (v : TradeMove) (trade : Trade) (s t : Db) : Prop
  | intro {y n : Order} {L : Ledger} {os : Table Order}
      (yes : s.orders.find? trade.yesOrderId = some y)
      (no : s.orders.find? trade.noOrderId = some n)
      (accepted : v.refuse y n = none)
      (yesMoved : Mutated (v.movement .YES trade y) s.ledger L)
      (noMoved : Mutated (v.movement .NO trade n) L t.ledger)
      (yesSaved : s.orders.update? (y.withStatus v.orderStatus) = some os)
      (noSaved : os.update? (n.withStatus v.orderStatus) = some t.orders)
      (tradeSaved : s.trades.update? (trade.withStatus v.tradeStatus) = some t.trades)
      (rest : t.markets = s.markets ∧ t.outcomes = s.outcomes)

/-- The trade `tradeId` was found in status `status` and moved. -/
def MovedFrom (status : TradeStatus) (v : TradeMove) (tradeId : Uuid) (s t : Db) : Prop :=
  ∃ trade, s.trades.find? tradeId = some trade ∧ trade.status = status ∧ Moved v trade s t

section Exec

variable {m : Mode RowId} {s t : Db}

/-- A pair of orders is saved one after the other. -/
theorem exec_saveOrders_pair {a b : Order} {u : Unit}
    (h : Exec m (saveOrders [a, b]) s u t) :
    ∃ os os', s.orders.update? a = some os ∧ os.update? b = some os' ∧
      t = { s with orders := os' } := by
  simp only [saveOrders] at h
  obtain ⟨_, s₁, hsave, h⟩ := exec_bind.mp h
  obtain ⟨os, hos, rfl⟩ := exec_saveOrder.mp hsave
  obtain ⟨_, s₂, hsave', h⟩ := exec_bind.mp h
  obtain ⟨os', hos', rfl⟩ := exec_saveOrder.mp hsave'
  obtain ⟨-, rfl⟩ := exec_pure.mp h
  exact ⟨os, os', hos, hos', rfl⟩

theorem exec_run {v : TradeMove} {trade : Trade} {r : List Uuid}
    (h : Exec m (v.run trade) s r t) : Moved v trade s t := by
  unfold TradeMove.run TradeMove.finish at h
  obtain ⟨oy, s₁, hread, h⟩ := exec_bind.mp h
  obtain ⟨rfl, hyes⟩ := exec_findOrderForUpdate.mp hread
  obtain ⟨on, s₁, hread', h⟩ := exec_bind.mp h
  obtain ⟨rfl, hno⟩ := exec_findOrderForUpdate.mp hread'
  cases oy with
  | none => exact (exec_throw.mp h).elim
  | some y =>
  cases on with
  | none => exact (exec_throw.mp h).elim
  | some n =>
      simp only [reduceCtorEq, and_false, or_false] at hyes hno
      dsimp only at h
      cases hrefuse : v.refuse y n with
      | some e =>
          rw [hrefuse] at h
          exact (exec_throw.mp h).elim
      | none =>
          rw [hrefuse] at h
          obtain ⟨_, s₁, hcall, h⟩ := exec_bind.mp h
          obtain ⟨L₁, rfl, hmut⟩ := exec_mutateWallet hcall
          obtain ⟨_, s₂, hcall', h⟩ := exec_bind.mp h
          obtain ⟨L₂, rfl, hmut'⟩ := exec_mutateWallet hcall'
          dsimp only at h
          -- the two orders of saving the rows lead to the same state
          by_cases hfirst : v.tradeFirst = true
          · rw [if_pos hfirst] at h
            obtain ⟨_, s₃, hsave, h⟩ := exec_bind.mp h
            obtain ⟨trades, htrades, rfl⟩ := exec_saveTrade.mp hsave
            obtain ⟨_, s₄, hsave', h⟩ := exec_bind.mp h
            obtain ⟨os, os', hos, hos', rfl⟩ := exec_saveOrders_pair hsave'
            obtain ⟨-, rfl⟩ := exec_pure.mp h
            exact .intro hyes.symm hno.symm hrefuse hmut hmut' hos hos' htrades ⟨rfl, rfl⟩
          · rw [if_neg hfirst] at h
            obtain ⟨_, s₃, hsave, h⟩ := exec_bind.mp h
            obtain ⟨os, os', hos, hos', rfl⟩ := exec_saveOrders_pair hsave
            obtain ⟨_, s₄, hsave', h⟩ := exec_bind.mp h
            obtain ⟨trades, htrades, rfl⟩ := exec_saveTrade.mp hsave'
            obtain ⟨-, rfl⟩ := exec_pure.mp h
            exact .intro hyes.symm hno.symm hrefuse hmut hmut' hos hos' htrades ⟨rfl, rfl⟩

/-- What a transaction that moves pending trades has done: it has moved the trade, or it has
found it in another status and left everything alone. -/
theorem exec_movePending {v : TradeMove} {tradeId : Uuid} {P : Trade → Prop}
    {body : Option Trade → Tx (List Uuid)} {r : List Uuid} (missing : body none = pure [])
    (pending : ∀ trade : Trade, trade.status = .PENDING_SETTLEMENT →
      body (some trade) = v.run trade)
    (other : ∀ trade : Trade, trade.status ≠ .PENDING_SETTLEMENT →
      Exec m (body (some trade)) s r t → t = s ∧ P trade)
    (h : Exec m (findTradeForUpdate tradeId >>= body) s r t) :
    (t = s ∧ (m.stale ∨ ∀ trade, s.trades.find? tradeId = some trade → P trade)) ∨
      MovedFrom .PENDING_SETTLEMENT v tradeId s t := by
  obtain ⟨o, s₁, hread, h⟩ := exec_bind.mp h
  obtain ⟨rfl, hfound⟩ := exec_findTradeForUpdate.mp hread
  cases o with
  | none =>
      rw [missing] at h
      obtain ⟨-, rfl⟩ := exec_pure.mp h
      refine Or.inl ⟨rfl, ?_⟩
      rcases hfound with hnone | ⟨hstale, -⟩
      · right
        intro trade htrade
        rw [htrade] at hnone
        cases hnone
      · exact Or.inl hstale
  | some trade =>
      simp only [reduceCtorEq, and_false, or_false] at hfound
      by_cases hpending : trade.status = .PENDING_SETTLEMENT
      · rw [pending trade hpending] at h
        exact Or.inr ⟨trade, hfound.symm, hpending, exec_run h⟩
      · obtain ⟨hsame, hP⟩ := other trade hpending h
        refine Or.inl ⟨hsame, Or.inr fun trade' htrade => ?_⟩
        rw [← hfound] at htrade
        cases htrade
        exact hP

/-- A failure that returns has moved the trade, or found it in another status. -/
theorem exec_failPendingTradeAndReleaseFunds {tradeId : Uuid} {createdAt : Timestamp}
    {r : List Uuid} (h : Exec m (failPendingTradeAndReleaseFunds tradeId createdAt) s r t) :
    (t = s ∧ (m.stale ∨ ∀ trade, s.trades.find? tradeId = some trade →
        trade.status ≠ .PENDING_SETTLEMENT)) ∨
      MovedFrom .PENDING_SETTLEMENT (failPendingMove createdAt) tradeId s t := by
  refine exec_movePending rfl (fun trade hpending => if_neg (not_not.mpr hpending))
    (fun trade hpending h => ?_) h
  dsimp only at h
  rw [if_pos hpending] at h
  obtain ⟨-, rfl⟩ := exec_pure.mp h
  exact ⟨rfl, hpending⟩

/-- A settlement that returns has settled the trade, or found it settled. -/
theorem exec_handleSettlement {tradeId : Uuid} {createdAt : Timestamp} {r : List Uuid}
    (h : Exec m (handleSettlement tradeId createdAt) s r t) :
    (t = s ∧ (m.stale ∨
        ∀ trade, s.trades.find? tradeId = some trade → trade.status = .SETTLED)) ∨
      MovedFrom .PENDING_SETTLEMENT (settleMove createdAt) tradeId s t := by
  refine exec_movePending rfl (fun trade hpending => ?_) (fun trade hpending h => ?_) h
  · dsimp only
    rw [hpending, if_neg (by decide), if_neg (by decide)]
  · dsimp only at h
    -- a failed trade is refused before the status is compared with pending
    by_cases hfailed : trade.status = .FAILED
    · rw [if_pos hfailed] at h
      exact (exec_throw.mp h).elim
    rw [if_neg hfailed, if_pos hpending] at h
    obtain ⟨-, rfl⟩ := exec_pure.mp h
    refine ⟨rfl, ?_⟩
    cases hst : trade.status with
    | PENDING_SETTLEMENT => exact absurd hst hpending
    | SETTLED => rfl
    | FAILED => exact absurd hst hfailed

theorem exec_markSettlementFailure {tradeId : Uuid} {createdAt : Timestamp}
    {r : List Uuid} (h : Exec m (markSettlementFailure tradeId createdAt) s r t) :
    (t = s ∧ (m.stale ∨ ∀ trade, s.trades.find? tradeId = some trade →
        trade.status ≠ .PENDING_SETTLEMENT)) ∨
      MovedFrom .PENDING_SETTLEMENT (settlementFailureMove createdAt) tradeId s t := by
  refine exec_movePending rfl (fun trade hpending => if_neg (not_not.mpr hpending))
    (fun trade hpending h => ?_) h
  dsimp only at h
  rw [if_pos hpending] at h
  obtain ⟨-, rfl⟩ := exec_pure.mp h
  exact ⟨rfl, hpending⟩

/-- A retry that does not fail has found its trade, and says whether it has rearmed it. -/
theorem exec_prepareTradeForRetry {tradeId : Uuid} {createdAt : Timestamp} {r : RetryPreparation}
    (h : Exec m (prepareTradeForRetry tradeId createdAt) s r t) :
    (t = s ∧ (∃ trade, s.trades.find? tradeId = some trade ∧
        trade.status = .PENDING_SETTLEMENT) ∧ r.rearmed = false) ∨
      (MovedFrom .FAILED (retryMove createdAt) tradeId s t ∧ r.rearmed = true) := by
  unfold prepareTradeForRetry at h
  obtain ⟨o, s₁, hread, h⟩ := exec_bind.mp h
  obtain ⟨rfl, hfound⟩ := exec_findTradeForUpdate.mp hread
  cases o with
  | none => exact (exec_throw.mp h).elim
  | some trade =>
      simp only [reduceCtorEq, and_false, or_false] at hfound
      dsimp only at h
      by_cases hpending : trade.status = .PENDING_SETTLEMENT
      · rw [if_pos hpending] at h
        obtain ⟨rfl, rfl⟩ := exec_pure.mp h
        exact Or.inl ⟨rfl, ⟨trade, hfound.symm, hpending⟩, rfl⟩
      rw [if_neg hpending] at h
      by_cases hfailed : trade.status = .FAILED
      · rw [if_neg (not_not.mpr hfailed)] at h
        obtain ⟨_, s₂, hrun, h⟩ := exec_bind.mp h
        obtain ⟨rfl, rfl⟩ := exec_pure.mp h
        exact Or.inr ⟨⟨trade, hfound.symm, hfailed, exec_run hrun⟩, rfl⟩
      · rw [if_pos hfailed] at h
        exact (exec_throw.mp h).elim

end Exec

end OutcomeExchange
