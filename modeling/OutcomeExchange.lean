import OutcomeExchange.Coherence
import OutcomeExchange.Reconciliation
import OutcomeExchange.ExactlyOnce
import OutcomeExchange.Collateral
import OutcomeExchange.Conservation
import OutcomeExchange.Requests
import OutcomeExchange.Payouts
import OutcomeExchange.Closing
import OutcomeExchange.Jobs.Queue
import OutcomeExchange.RestingBook
import OutcomeExchange.SettlementQueueService
import OutcomeExchange.StrandedSettlements
import OutcomeExchange.MarketLifeCycle
import OutcomeExchange.RetryCycles
import OutcomeExchange.Resolution
import OutcomeExchange.Async.Code
import OutcomeExchange.OrderBookProjection
import OutcomeExchange.Services
import OutcomeExchange.RejectedCalls
import OutcomeExchange.Async.Pool
import OutcomeExchange.OrderBookCalls
import OutcomeExchange.ProjectionAgreement
import OutcomeExchange.Async.Publication
import OutcomeExchange.Subscribers
import OutcomeExchange.AuthService
import OutcomeExchange.Revocation
import OutcomeExchange.BalanceGateway
import OutcomeExchange.History
import OutcomeExchange.Cancellation
import OutcomeExchange.ResolutionPayout
import OutcomeExchange.OrderBookRebuild
import OutcomeExchange.SequentialRequests
import OutcomeExchange.TimePriority
import OutcomeExchange.RetrySafety
import OutcomeExchange.LockOrder
import OutcomeExchange.Txn.Schedule
import OutcomeExchange.SettlementAttempt
import OutcomeExchange.Startup
import OutcomeExchange.WindDown
import OutcomeExchange.Clearing.House
import OutcomeExchange.Txn.Refinement
import OutcomeExchange.ClearingHouse
import OutcomeExchange.HouseRefinement
import OutcomeExchange.Accounts
import OutcomeExchange.Registration
import OutcomeExchange.AuthUserCacheService
import OutcomeExchange.Deadlocks
import OutcomeExchange.PayoutSnapshot
