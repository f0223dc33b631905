import OutcomeExchange.OrdersService
import OutcomeExchange.MatchingEngineService
import OutcomeExchange.Txn.RowLock

set_option autoImplicit false

/-! # The exchange

All transactions of the services that change the database are one type, `Action`, and
`Action.prog` gives the program of each. Two systems run them: `exchange` executes each
transaction by itself, `interleaved` executes the statements of any number of them in any
order under row locks.

`exec_effect` says what a committed action has done, in either system; every invariant is
proved from `Action.Effect`, and no later module takes a program apart. -/

namespace OutcomeExchange

open Txn

inductive Action
  | createWalletForUser (userId walletId : Uuid)
  | deposit (userId : Uuid) (dto : DepositDto) (createdAt : Timestamp)
  | withdraw (userId : Uuid) (dto : WithdrawDto) (createdAt : Timestamp)
  | createMarket (closesAt : Timestamp) (marketId : Uuid) (now : Timestamp)
  | closeMarket (marketId : Uuid) (now : Timestamp)
  | closeExpiredMarkets (now : Timestamp)
  | resolveMarket (marketId : Uuid) (winningSide : OutcomeSide) (createdAt : Timestamp)
  | placeOrder (userId : Uuid) (dto : PlaceOrderDto) (orderId : Uuid) (now createdAt : Timestamp)
  | cancelOrder (userId orderId : Uuid) (createdAt : Timestamp)
  | tryMatchOrder (orderId tradeId : Uuid)
  | failPendingTradeAndReleaseFunds (tradeId : Uuid) (createdAt : Timestamp)
  | handleSettlement (tradeId : Uuid) (createdAt : Timestamp)
  | markSettlementFailure (tradeId : Uuid) (createdAt : Timestamp)
  | prepareTradeForRetry (tradeId : Uuid) (createdAt : Timestamp)
  | reopenOrders (orphanOrders : List Order)

/-- The program of an action without its return value. -/
def Tx.discard {α : Type} (p : Tx α) : Tx Unit := do
  let _ ← p
  return ()

def Action.prog : Action → Tx Unit
  | .createWalletForUser userId walletId =>
      Tx.discard (OutcomeExchange.createWalletForUser userId walletId)
  | .deposit userId dto createdAt =>
      Tx.discard (OutcomeExchange.deposit userId (.int dto.amountCents) dto.idempotencyKey createdAt)
  | .withdraw userId dto createdAt =>
      Tx.discard (OutcomeExchange.withdraw userId (.int dto.amountCents) dto.idempotencyKey createdAt)
  | .createMarket closesAt marketId now =>
      Tx.discard (OutcomeExchange.createMarket closesAt marketId now)
  | .closeMarket marketId now => Tx.discard (OutcomeExchange.closeMarket marketId now)
  | .closeExpiredMarkets now => Tx.discard (OutcomeExchange.closeExpiredMarkets now)
  | .resolveMarket marketId winningSide createdAt =>
      Tx.discard (OutcomeExchange.resolveMarket marketId winningSide createdAt)
  | .placeOrder userId dto orderId now createdAt =>
      Tx.discard (OutcomeExchange.placeOrder userId dto orderId now createdAt)
  | .cancelOrder userId orderId createdAt =>
      Tx.discard (OutcomeExchange.cancelOrder userId orderId createdAt)
  | .tryMatchOrder orderId tradeId => Tx.discard (OutcomeExchange.tryMatchOrder orderId tradeId)
  | .failPendingTradeAndReleaseFunds tradeId createdAt =>
      Tx.discard (OutcomeExchange.failPendingTradeAndReleaseFunds tradeId createdAt)
  | .handleSettlement tradeId createdAt =>
      Tx.discard (OutcomeExchange.handleSettlement tradeId createdAt)
  | .markSettlementFailure tradeId createdAt =>
      Tx.discard (OutcomeExchange.markSettlementFailure tradeId createdAt)
  | .prepareTradeForRetry tradeId createdAt =>
      Tx.discard (OutcomeExchange.prepareTradeForRetry tradeId createdAt)
  | .reopenOrders orphanOrders => OutcomeExchange.reopenOrders orphanOrders

/-- The startup recovery reopens the orders that its query has found. -/
def Action.Starts (s : Db) : Action → Prop
  | .reopenOrders orders => orders = orphanOrders s
  | _ => True

/-- The actions that have nothing to do with trades. -/
def Action.leavesTrades : Action → Bool
  | .createWalletForUser _ _ => true
  | .deposit _ _ _ => true
  | .withdraw _ _ _ => true
  | .createMarket _ _ _ => true
  | .closeMarket _ _ => true
  | .closeExpiredMarkets _ => true
  | .resolveMarket _ _ _ => true
  | .placeOrder _ _ _ _ _ => true
  | .cancelOrder _ _ _ => true
  | .tryMatchOrder _ _ => false
  | .failPendingTradeAndReleaseFunds _ _ => false
  | .handleSettlement _ _ => false
  | .markSettlementFailure _ _ => false
  | .prepareTradeForRetry _ _ => false
  | .reopenOrders _ => false

/-! ## The two systems -/

/-- A call of a transaction, with its outcome. -/
inductive Call
  | committed (a : Action)
  | rolledBack (a : Action)

/-- Each transaction is executed by itself; the rows others have locked (`busy`) only
matter to `SKIP LOCKED`. A transaction that fails changes nothing. -/
def exchange : System Db Call where
  init s := s = Db.empty
  step s c t :=
    match c with
    | .committed a => a.Starts s ∧ ∃ busy, Exec (.serial busy) a.prog s () t
    | .rolledBack _ => t = s

/-- The statements of the transactions that `A` allows are interleaved under row locks,
and any transaction may be aborted at any statement. -/
def interleaved (A : Action → Prop) : System (Conf dbStore Err Unit Action) (Event Action) :=
  rowLock Action.prog (fun s a => A a ∧ a.Starts s) (fun s => s = Db.empty)

/-! ## What an action does -/

/-- What a committed action has done to the database. -/
def Action.Effect (m : Mode RowId) (s t : Db) : Action → Prop
  | .createWalletForUser userId walletId =>
      t = s ∨ ∃ L, s.ledger.insertWallet ⟨walletId, userId, 0, 0⟩ = .ok L ∧
        t = { s with ledger := L }
  | .deposit userId dto createdAt =>
      ∃ L, t = { s with ledger := L } ∧
        Mutated (depositParams userId (.int dto.amountCents) dto.idempotencyKey createdAt) s.ledger L
  | .withdraw userId dto createdAt =>
      ∃ L, t = { s with ledger := L } ∧
        Mutated (withdrawParams userId (.int dto.amountCents) dto.idempotencyKey createdAt)
          s.ledger L
  | .createMarket closesAt marketId _ =>
      s.markets.insert? ⟨marketId, .OPEN, some closesAt, none⟩ = some t.markets ∧
        t.ledger = s.ledger ∧ t.orders = s.orders ∧ t.trades = s.trades ∧
        t.outcomes = s.outcomes ++ [⟨marketId, .YES⟩, ⟨marketId, .NO⟩]
  | .closeMarket _ _ => MarketsClosed s t
  | .closeExpiredMarkets _ => MarketsClosed s t
  | .resolveMarket marketId winningSide createdAt => Resolved m marketId winningSide createdAt s t
  | .placeOrder userId dto orderId now createdAt =>
      t = s ∨ Placed userId dto orderId now createdAt s t
  | .cancelOrder userId orderId createdAt => Cancelled userId orderId createdAt s t
  | .tryMatchOrder orderId tradeId => t = s ∨ TradeMade orderId tradeId s t
  | .failPendingTradeAndReleaseFunds tradeId createdAt =>
      t = s ∨ MovedFrom .PENDING_SETTLEMENT (failPendingMove createdAt) tradeId s t
  | .handleSettlement tradeId createdAt =>
      t = s ∨ MovedFrom .PENDING_SETTLEMENT (settleMove createdAt) tradeId s t
  | .markSettlementFailure tradeId createdAt =>
      t = s ∨ MovedFrom .PENDING_SETTLEMENT (settlementFailureMove createdAt) tradeId s t
  | .prepareTradeForRetry tradeId createdAt =>
      t = s ∨ MovedFrom .FAILED (retryMove createdAt) tradeId s t
  | .reopenOrders _ => t = s

section Exec

variable {m : Mode RowId} {s t : Db}

theorem exec_discard {α : Type} {p : Tx α} {u : Unit} :
    Exec m (Tx.discard p) s u t ↔ ∃ r, Exec m p s r t := by
  rw [Tx.discard, exec_bind]
  constructor
  · rintro ⟨r, s₁, hp, hret⟩
    obtain ⟨-, rfl⟩ := exec_pure.mp hret
    exact ⟨r, hp⟩
  · rintro ⟨r, hp⟩
    exact ⟨r, t, hp, exec_pure.mpr ⟨rfl, rfl⟩⟩

/-- **The inversion lemma** of the exchange, for a startup recovery without orphans. -/
theorem exec_effect {a : Action} {u : Unit} (hnil : ∀ orders, a = .reopenOrders orders → orders = [])
    (h : Exec m a.prog s u t) : a.Effect m s t := by
  cases a with
  | reopenOrders orders =>
      cases hnil orders rfl
      exact exec_reopenOrders_nil h
  | createWalletForUser userId walletId =>
      obtain ⟨r, h⟩ := exec_discard.mp h
      exact exec_createWalletForUser h
  | deposit userId dto createdAt =>
      obtain ⟨r, h⟩ := exec_discard.mp h
      exact exec_movement h
  | withdraw userId dto createdAt =>
      obtain ⟨r, h⟩ := exec_discard.mp h
      exact exec_movement h
  | createMarket closesAt marketId now =>
      obtain ⟨r, h⟩ := exec_discard.mp h
      exact exec_createMarket h
  | closeMarket marketId now =>
      obtain ⟨r, h⟩ := exec_discard.mp h
      exact exec_closeMarket h
  | closeExpiredMarkets now =>
      obtain ⟨r, h⟩ := exec_discard.mp h
      exact exec_closeExpiredMarkets h
  | resolveMarket marketId winningSide createdAt =>
      obtain ⟨r, h⟩ := exec_discard.mp h
      exact exec_resolveMarket h
  | placeOrder userId dto orderId now createdAt =>
      obtain ⟨r, h⟩ := exec_discard.mp h
      rcases exec_placeOrder h with ⟨hsame, -⟩ | ⟨-, hplaced, -⟩
      · exact Or.inl hsame
      · exact Or.inr hplaced
  | cancelOrder userId orderId createdAt =>
      obtain ⟨r, h⟩ := exec_discard.mp h
      exact (exec_cancelOrder h).1
  | tryMatchOrder orderId tradeId =>
      obtain ⟨r, h⟩ := exec_discard.mp h
      exact (exec_tryMatchOrder h).imp And.right And.right
  | failPendingTradeAndReleaseFunds tradeId createdAt =>
      obtain ⟨r, h⟩ := exec_discard.mp h
      exact (exec_failPendingTradeAndReleaseFunds h).imp And.left id
  | handleSettlement tradeId createdAt =>
      obtain ⟨r, h⟩ := exec_discard.mp h
      exact (exec_handleSettlement h).imp And.left id
  | markSettlementFailure tradeId createdAt =>
      obtain ⟨r, h⟩ := exec_discard.mp h
      exact (exec_markSettlementFailure h).imp And.left id
  | prepareTradeForRetry tradeId createdAt =>
      obtain ⟨r, h⟩ := exec_discard.mp h
      exact (exec_prepareTradeForRetry h).imp And.left And.left

end Exec

end OutcomeExchange
