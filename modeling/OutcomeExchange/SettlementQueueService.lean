import OutcomeExchange.Jobs.Queue
import OutcomeExchange.Exchange

set_option autoImplicit false

/-! # The settlement jobs

The trades are in PostgreSQL and their settlement jobs in a BullMQ queue, and the matching
engine, the settlement worker, the retry endpoints and the startup recovery update the two
in separate steps. `Task` is the code between two such steps, and `Task.next` the
transaction or the call of the queue that comes next. A crash drops all tasks; a restart
begins with `onApplicationBootstrap`. -/

namespace OutcomeExchange

open Txn Jobs

/-! ## SettlementQueueService -/

/-- `attempts` is that of `buildJobOptions`, `maxStalledCount` the default of the worker. -/
def settlementOptions : Options where
  attempts := 3
  maxStalledCount := 1

def buildJobId (tradeId : UuidString) : String := "trade-" ++ tradeId.text

def isPendingState : JobState → Bool
  | .waiting => true
  | .active => true
  | .delayed => true
  | .prioritized => true
  | .failed => false

/-- The code that is under way, at a point where a transaction or a call of the queue comes
next. -/
inductive Task
  -- MatchingEngineService.tryMatchOrder
  | tryMatchOrder (orderId tradeId : Uuid)
  | addSettlementJob (tradeId : UuidString)
  -- SettlementRecoveryService
  | retryByJobId (jobId : String)
  | retryByTradeId (tradeId : UuidString)
  -- SettlementQueueService.retrySettlementByTradeId, which may also go on to `addSettlementJob`
  | getJob (tradeId : UuidString)
  | getState (tradeId : UuidString)
  | retryJob (tradeId : UuidString)
  | removeJob (tradeId : UuidString)
  -- SettlementWorkerService.handleSettlement
  | handleSettlement (tradeId : UuidString)
  | markSettlementFailure (tradeId : UuidString)
  | attemptReturns (tradeId : UuidString)
  | attemptThrows (tradeId : UuidString)
  -- MatchingEngineService.onApplicationBootstrap
  | recoverOrphanMatchPendingOrders
  | reopenOrders (orphanOrders : List Order)
  | recoverPendingSettlementTrades
  | reenqueue (tradeIds : List Uuid)

/-- What a step meets: the rows that others have locked, whether the settlement handler
fails for a reason of its own, and the time. -/
structure Conditions where
  busy : RowId → Bool
  fails : Bool
  createdAt : Timestamp

/-- What a step leaves, with the code that goes on. -/
structure TaskResult where
  db : Db
  queue : Queue UuidString
  task : Option Task

/-- The next transaction, or call of the queue, of a task. -/
def Task.next (c : Conditions) (db : Db) (queue : Queue UuidString) : Task → TaskResult
  | .tryMatchOrder orderId tradeId =>
      match (OutcomeExchange.tryMatchOrder orderId tradeId).run c.busy db with
      | .ok (some matched, db') => ⟨db', queue, some (.addSettlementJob matched.trade.id)⟩
      | .ok (none, db') => ⟨db', queue, none⟩
      | .error _ => ⟨db, queue, none⟩
  | .addSettlementJob tradeId => ⟨db, queue.add (buildJobId tradeId) tradeId, none⟩
  | .retryByJobId jobId =>
      match queue jobId with
      | none => ⟨db, queue, none⟩
      | some job => ⟨db, queue, some (.retryByTradeId job.data)⟩
  | .retryByTradeId tradeId =>
      match (prepareTradeForRetry tradeId.uuid c.createdAt).run c.busy db with
      | .ok (_, db') => ⟨db', queue, some (.getJob tradeId)⟩
      | .error _ => ⟨db, queue, none⟩
  | .getJob tradeId =>
      match queue (buildJobId tradeId) with
      | none => ⟨db, queue, some (.addSettlementJob tradeId)⟩
      | some _ => ⟨db, queue, some (.getState tradeId)⟩
  | .getState tradeId =>
      match queue (buildJobId tradeId) with
      -- the state of a job that is no longer there is `unknown`
      | none => ⟨db, queue, some (.removeJob tradeId)⟩
      | some job =>
          if job.state = .failed then ⟨db, queue, some (.retryJob tradeId)⟩
          else if isPendingState job.state then ⟨db, queue, none⟩
          else ⟨db, queue, some (.removeJob tradeId)⟩
  | .retryJob tradeId => ⟨db, queue.retry (buildJobId tradeId), none⟩
  | .removeJob tradeId =>
      ⟨db, queue.remove (buildJobId tradeId), some (.addSettlementJob tradeId)⟩
  | .handleSettlement tradeId =>
      if c.fails then ⟨db, queue, some (.markSettlementFailure tradeId)⟩
      else
        match (OutcomeExchange.handleSettlement tradeId.uuid c.createdAt).run c.busy db with
        | .ok (_, db') => ⟨db', queue, some (.attemptReturns tradeId)⟩
        | .error _ => ⟨db, queue, some (.markSettlementFailure tradeId)⟩
  | .markSettlementFailure tradeId =>
      if c.fails then ⟨db, queue, some (.attemptThrows tradeId)⟩
      else
        match (OutcomeExchange.markSettlementFailure tradeId.uuid c.createdAt).run c.busy db with
        | .ok (_, db') => ⟨db', queue, some (.attemptThrows tradeId)⟩
        | .error _ => ⟨db, queue, some (.attemptThrows tradeId)⟩
  | .attemptReturns tradeId => ⟨db, queue.set (buildJobId tradeId) none, none⟩
  | .attemptThrows tradeId =>
      ⟨db, queue.modify (buildJobId tradeId) (Job.afterThrow settlementOptions), none⟩
  | .recoverOrphanMatchPendingOrders => ⟨db, queue, some (.reopenOrders (orphanOrders db))⟩
  | .reopenOrders orders =>
      match (OutcomeExchange.reopenOrders orders).run c.busy db with
      | .ok (_, db') => ⟨db', queue, some .recoverPendingSettlementTrades⟩
      -- the application does not start
      | .error _ => ⟨db, queue, some (.reopenOrders orders)⟩
  | .recoverPendingSettlementTrades =>
      ⟨db, queue, some (.reenqueue ((pendingTrades db).map Trade.id))⟩
  | .reenqueue [] => ⟨db, queue, none⟩
  | .reenqueue (tradeId :: tradeIds) =>
      ⟨db, queue.add (buildJobId tradeId) tradeId, some (.reenqueue tradeIds)⟩

/-! ## The system -/

/-- The two stores, whether the process is up, and what it is doing. -/
structure Settlement where
  db : Db
  queue : Queue UuidString
  up : Bool
  tasks : List Task

/-- A matching attempt, or a call of a retry endpoint. -/
def Task.isRequest : Task → Bool
  | .tryMatchOrder _ _ => true
  | .retryByJobId _ => true
  | .retryByTradeId _ => true
  | _ => false

def Task.isBootstrap : Task → Bool
  | .recoverOrphanMatchPendingOrders => true
  | .reopenOrders _ => true
  | .recoverPendingSettlementTrades => true
  | .reenqueue _ => true
  | _ => false

/-- An attempt of the worker at the job of a trade. -/
def Task.isAttemptAt (tradeId : UuidString) : Task → Bool
  | .handleSettlement id => id = tradeId
  | .markSettlementFailure id => id = tradeId
  | .attemptReturns id => id = tradeId
  | .attemptThrows id => id = tradeId
  | _ => false

inductive SettlementEvent
  /-- a transaction of another part of the exchange -/
  | action (a : Action) (busy : RowId → Bool)
  | request (task : Task)
  /-- the worker takes a job -/
  | attempt (jobId : String)
  /-- the next step of a task -/
  | step (i : ℕ) (c : Conditions)
  /-- BullMQ notices that the worker of a job has died -/
  | stalled (jobId : String)
  | crash
  | restart

/-- Task `i` goes on as `task`, or is over. -/
def advance (tasks : List Task) (i : ℕ) (task : Option Task) : List Task :=
  tasks.take i ++ task.toList ++ tasks.drop (i + 1)

/-- The process listens once the bootstrap is over. -/
def Settlement.listening (b : Settlement) : Bool := b.up && b.tasks.all (!·.isBootstrap)

/-- One event, if it can happen. -/
def Settlement.next (b : Settlement) : SettlementEvent → Option Settlement
  | .action a busy =>
      if b.listening && a.leavesTrades then
        match a.prog.run busy b.db with
        | .ok (_, db) => some { b with db := db }
        | .error _ => none
      else none
  | .request task =>
      if b.listening && task.isRequest then some { b with tasks := b.tasks ++ [task] } else none
  | .attempt jobId =>
      match b.queue jobId with
      | none => none
      | some job =>
          if b.up && job.state.runnable then
            some { b with
              queue := b.queue.modify jobId fun job => { job with state := .active }
              tasks := b.tasks ++ [.handleSettlement job.data] }
          else none
  | .step i c =>
      match b.tasks[i]? with
      | none => none
      | some task =>
          let r := task.next c b.db b.queue
          some { b with db := r.db, queue := r.queue, tasks := advance b.tasks i r.task }
  | .stalled jobId =>
      match b.queue jobId with
      | none => none
      | some job =>
          if b.up && job.state = .active && b.tasks.all (!·.isAttemptAt job.data) then
            some { b with queue := b.queue.modify jobId (Job.afterStall settlementOptions) }
          else none
  | .crash => if b.up then some { b with up := false, tasks := [] } else none
  | .restart =>
      if b.up then none
      else some { b with up := true, tasks := [.recoverOrphanMatchPendingOrders] }

/-- The matches, attempts, retries, crashes and restarts in any order. -/
def settlement : System Settlement SettlementEvent where
  init b := b = ⟨Db.empty, Queue.empty, false, []⟩
  step b e b' := b.next e = some b'

/-- No request, attempt or bootstrap is in progress. -/
def Settlement.AtRest (b : Settlement) : Prop :=
  b.up = true ∧ b.tasks = [] ∧
    ∀ trade ∈ b.db.trades.rows, ∀ job ∈ b.queue (buildJobId trade.id), job.state ≠ .active

end OutcomeExchange
