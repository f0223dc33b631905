import OutcomeExchange.SettlementQueueService
import OutcomeExchange.LifeCycle
import OutcomeExchange.Runs

set_option autoImplicit false

/-! # Stranded settlements

Every trade that waits for its settlement has a job that a worker will run, or somebody
who is about to see to that: the request that made the trade, a retry that has yet to look
at the job, or the bootstrap. `Settlement.Served` is this invariant.

`strands` are the steps that break it. A job that fails is kept, and adding a job again does
nothing while the failed one is there, so a trade is stranded if its job fails while the trade
is pending and no retry will look at the job any more, or if the process crashes between the
commit of a retry and the retry of the failed job. A retry that spells the identifier of the
trade in upper case looks for the job under another name. -/

namespace OutcomeExchange

open Txn Jobs

/-! ## Who takes care of a trade -/

/-- The task will add a job for the trade, if there is none. -/
def Task.adds (tradeId : Uuid) : Task → Bool
  | .addSettlementJob id => id = tradeId
  | .getJob id => id = tradeId
  | .getState id => id = tradeId
  | .removeJob id => id = tradeId
  | .recoverOrphanMatchPendingOrders => true
  | .reopenOrders _ => true
  | .recoverPendingSettlementTrades => true
  | .reenqueue tradeIds => tradeId ∈ tradeIds
  | _ => false

/-- The task is a retry of the trade that will retry its job, if it has failed. -/
def Task.watches (tradeId : Uuid) : Task → Bool
  | .retryByJobId jobId => jobId = buildJobId tradeId
  | .retryByTradeId id => id = tradeId
  | .getJob id => id = tradeId
  | .getState id => id = tradeId
  | .retryJob id => id = tradeId
  | .removeJob id => id = tradeId
  | _ => false

/-- A trade that waits for its settlement, without a retry that has yet to look at its job. -/
def Settlement.unwatched (b : Settlement) (tradeId : Uuid) : Bool :=
  (b.db.trades.find? tradeId).any (fun trade => trade.status = .PENDING_SETTLEMENT) &&
    b.tasks.all fun task => !task.watches tradeId

/-- The event lets the job of a pending trade fail (its last attempt throws, or it has
stalled too often) while no retry will look at it any more, or it is a crash while the job
of a pending trade has failed, or a retry that spells the trade otherwise than its job does. -/
def strands (b : Settlement) : SettlementEvent → Bool
  | .step i _ =>
      match b.tasks[i]? with
      | some (.attemptThrows tradeId) =>
          (b.queue (buildJobId tradeId)).any (fun job =>
            (job.afterThrow settlementOptions).state = .failed) && b.unwatched tradeId.uuid
      | _ => false
  | .stalled jobId =>
      (b.queue jobId).any fun job =>
        (job.afterStall settlementOptions).state = .failed && b.unwatched job.data.uuid
  | .crash =>
      b.db.trades.rows.any fun trade => trade.status = .PENDING_SETTLEMENT &&
        (b.queue (buildJobId trade.id)).any fun job => job.state = .failed
  | .request (.retryByTradeId tradeId) => !decide tradeId.Canonical
  | _ => false

/-- The runs in which no event does so. -/
def carefulSettlement : System Settlement SettlementEvent :=
  settlement.restrict fun b e => strands b e = false

def Db.Pending (db : Db) (tradeId : Uuid) : Prop :=
  ∃ trade, db.trades.find? tradeId = some trade ∧ trade.status = .PENDING_SETTLEMENT

/-- The task takes care of the trade, as its job stands. -/
def Task.TakesCare (queue : Queue UuidString) (tradeId : Uuid) (task : Task) : Prop :=
  match queue (buildJobId tradeId) with
  | none => task.adds tradeId = true
  | some _ => task.watches tradeId = true

/-- The text is that of a trade which is there, as PostgreSQL writes it. -/
def Db.Spells (db : Db) (id : UuidString) : Prop :=
  id.Canonical ∧ ∃ trade, db.trades.find? id.uuid = some trade

/-- What a task may rely on: the trades that it is about are there. -/
def Task.Sound (db : Db) : Task → Prop
  | .addSettlementJob id => db.Spells id
  | .retryByTradeId id => id.Canonical
  | .getJob id => db.Spells id
  | .getState id => db.Spells id
  | .removeJob id => db.Spells id
  | .handleSettlement id => db.Spells id
  | .attemptReturns id => ∃ trade, db.trades.find? id.uuid = some trade ∧ trade.status = .SETTLED
  | .reenqueue tradeIds => ∀ id ∈ tradeIds, ∃ trade, db.trades.find? id = some trade
  | _ => True

theorem buildJobId_injective {a b : UuidString} (h : buildJobId a = buildJobId b) : a = b := by
  unfold buildJobId at h
  exact UuidString.ext_text (String.append_right_inj _ |>.mp h)

theorem Db.Spells.mono {s t : Db} {id : UuidString} (h : s.Spells id)
    (hkept : ∀ {id trade}, s.trades.find? id = some trade → ∃ trade', t.trades.find? id = some trade') :
    t.Spells id := by
  obtain ⟨hcanonical, trade, htrade⟩ := h
  exact ⟨hcanonical, hkept htrade⟩

theorem Db.spells_uuid {db : Db} {id : Uuid} {trade : Trade}
    (h : db.trades.find? id = some trade) : db.Spells id :=
  ⟨id.canonical_string, trade, by rw [Uuid.string_uuid, h]⟩

/-! ## What the transactions do to the trades -/

/-- No trade is lost, and a settled trade stays settled. -/
def TradesKept (s t : Db) : Prop :=
  ∀ {id : Uuid} {trade : Trade}, s.trades.find? id = some trade →
    ∃ trade', t.trades.find? id = some trade' ∧ (trade.status = .SETTLED → trade'.status = .SETTLED)

section Trades

variable {s t : Db} {m : Mode RowId}

theorem tradesKept_of_eq (h : t.trades = s.trades) : TradesKept s t := by
  intro id trade htrade
  exact ⟨trade, by rw [h, htrade], fun hsettled => hsettled⟩

theorem pending_of_eq (h : t.trades = s.trades) {tradeId : Uuid} (hp : t.Pending tradeId) :
    s.Pending tradeId := by
  unfold Db.Pending at hp ⊢
  rwa [h] at hp

/-- A trade that is not settled yet is moved. -/
theorem MovedFrom.tradesKept {st : TradeStatus} {v : TradeMove} {tradeId : Uuid}
    (h : MovedFrom st v tradeId s t) (hst : st ≠ .SETTLED) : TradesKept s t := by
  obtain ⟨moved, hfound, hfrom, hfind⟩ := h.find?_trade
  intro id trade htrade
  by_cases hid : id = tradeId
  · subst hid
    rw [hfound] at htrade
    cases htrade
    refine ⟨_, by rw [hfind, if_pos rfl], fun hsettled => ?_⟩
    rw [hfrom] at hsettled
    exact absurd hsettled hst
  · exact ⟨trade, by rw [hfind, if_neg hid, htrade], fun hsettled => hsettled⟩

/-- A move makes no trade pending but the one that it moves. -/
theorem MovedFrom.pending {st : TradeStatus} {v : TradeMove} {tradeId : Uuid}
    (h : MovedFrom st v tradeId s t) {id : Uuid} (hp : t.Pending id) :
    (id = tradeId ∧ v.tradeStatus = .PENDING_SETTLEMENT) ∨ s.Pending id := by
  obtain ⟨moved, -, -, hfind⟩ := h.find?_trade
  obtain ⟨trade, htrade, hpending⟩ := hp
  rw [hfind] at htrade
  by_cases hid : id = tradeId
  · rw [if_pos hid] at htrade
    cases htrade
    exact Or.inl ⟨hid, hpending⟩
  · rw [if_neg hid] at htrade
    exact Or.inr ⟨trade, htrade, hpending⟩

theorem exec_tryMatchOrder_trades {orderId tradeId : Uuid} {r : Option Matched}
    (h : Exec m (tryMatchOrder orderId tradeId) s r t) : TradesKept s t ∧
      (∀ id, t.Pending id → s.Pending id ∨
        (s.trades.find? id = none ∧ ∃ matched, r = some matched ∧ matched.trade.id = id)) ∧
      ∀ matched, r = some matched → ∃ trade, t.trades.find? matched.trade.id = some trade := by
  rcases exec_tryMatchOrder h with ⟨rfl, rfl⟩ | ⟨⟨matched, rfl, hid⟩, hmade⟩
  · exact ⟨tradesKept_of_eq rfl, fun id hp => Or.inl hp, fun matched hr => by cases hr⟩
  obtain @⟨order, other, os, -, -, -, -, -, -, -, hin, -⟩ := hmade
  refine ⟨fun {id trade} htrade => ⟨trade, Table.find?_insert_of_some hin htrade, fun hst => hst⟩,
    fun id hp => ?_, fun matched' hr => ?_⟩
  · obtain ⟨trade, htrade, hpending⟩ := hp
    by_cases hnew : id = tradeId
    · subst hnew
      exact Or.inr ⟨Table.find?_insert_self hin, matched, rfl, hid⟩
    · left
      have hkey : ¬ Row.key (matchedTrade order other tradeId) = id := Ne.symm hnew
      rw [Table.find?_insert hin, if_neg hkey] at htrade
      exact ⟨trade, htrade, hpending⟩
  · cases hr
    have hkey : Row.key (matchedTrade order other tradeId) = matched.trade.id := hid.symm
    exact ⟨_, by rw [Table.find?_insert hin, if_pos hkey]⟩

/-- A `handleSettlement` that returns leaves the trade settled. -/
theorem exec_handleSettlement_trades {busy : RowId → Prop} {tradeId : Uuid} {createdAt : Timestamp}
    {r : List Uuid} (h : Exec (.serial busy) (handleSettlement tradeId createdAt) s r t) :
    TradesKept s t ∧ (∀ id, t.Pending id → s.Pending id) ∧
      ((∃ trade, s.trades.find? tradeId = some trade) →
        ∃ trade, t.trades.find? tradeId = some trade ∧ trade.status = .SETTLED) := by
  rcases exec_handleSettlement h with ⟨rfl, hsettled⟩ | hmoved
  · refine ⟨tradesKept_of_eq rfl, fun id hp => hp, fun hthere => ?_⟩
    obtain ⟨trade, htrade⟩ := hthere
    exact ⟨trade, htrade, hsettled.resolve_left (stale_serial busy).mp trade htrade⟩
  · refine ⟨hmoved.tradesKept (by decide), fun id hp => ?_, fun _ => ?_⟩
    · exact (hmoved.pending hp).resolve_left fun hnew => by cases hnew.2
    · obtain ⟨trade, -, -, hfind⟩ := hmoved.find?_trade
      exact ⟨_, by rw [hfind, if_pos rfl], rfl⟩

theorem exec_markSettlementFailure_trades {tradeId : Uuid} {createdAt : Timestamp} {r : List Uuid}
    (h : Exec m (markSettlementFailure tradeId createdAt) s r t) :
    TradesKept s t ∧ ∀ id, t.Pending id → s.Pending id := by
  rcases exec_markSettlementFailure h with ⟨rfl, -⟩ | hmoved
  · exact ⟨tradesKept_of_eq rfl, fun id hp => hp⟩
  · refine ⟨hmoved.tradesKept (by decide), fun id hp => ?_⟩
    exact (hmoved.pending hp).resolve_left fun hnew => by cases hnew.2

theorem exec_prepareTradeForRetry_trades {tradeId : Uuid} {createdAt : Timestamp}
    {r : RetryPreparation} (h : Exec m (prepareTradeForRetry tradeId createdAt) s r t) :
    TradesKept s t ∧ (∀ id, t.Pending id → id = tradeId ∨ s.Pending id) ∧
      ∃ trade, t.trades.find? tradeId = some trade := by
  rcases exec_prepareTradeForRetry h with ⟨rfl, ⟨trade, htrade, -⟩, -⟩ | ⟨hmoved, -⟩
  · exact ⟨tradesKept_of_eq rfl, fun id hp => Or.inr hp, trade, htrade⟩
  · obtain ⟨trade, -, -, hfind⟩ := hmoved.find?_trade
    exact ⟨hmoved.tradesKept (by decide), fun id hp => (hmoved.pending hp).imp_left And.left,
      _, by rw [hfind, if_pos rfl]⟩

theorem exec_reopenOrders_trades {orders : List Order} {u : Unit}
    (h : Exec m (reopenOrders orders) s u t) : t.trades = s.trades := by
  have save : ∀ {orders : List Order} {s : Db}, Exec m (saveOrders orders) s u t →
      t.trades = s.trades := by
    intro orders
    induction orders with
    | nil =>
        intro s h
        obtain ⟨-, rfl⟩ := exec_pure.mp h
        rfl
    | cons order orders ih =>
        intro s h
        obtain ⟨u', s₁, hsave, hrest⟩ := exec_bind.mp h
        obtain ⟨os, -, rfl⟩ := exec_saveOrder.mp hsave
        exact (ih hrest).trans rfl
  exact save h

/-- A retry of a pending trade goes on to its job. -/
theorem run_prepareTradeForRetry {busy : RowId → Bool} {tradeId : Uuid} {createdAt : Timestamp}
    (hp : s.Pending tradeId) :
    (prepareTradeForRetry tradeId createdAt).run busy s =
      .ok (⟨.PENDING_SETTLEMENT, .PENDING_SETTLEMENT, false⟩, s) := by
  obtain ⟨trade, htrade, hpending⟩ := hp
  have hslice : dbStore.slice (RowId.trade tradeId) s = some trade := htrade
  unfold prepareTradeForRetry
  show Prog.run busy (Prog.bind _ _) s = _
  simp only [findTradeForUpdate, Prog.forUpdate, Prog.bind, Prog.run, hslice, if_pos hpending]
  rfl

end Trades

/-! ## What a step of a task does -/

section Next

variable {c : Conditions} {db : Db} {queue : Queue UuidString} {task : Task}

/-- **The trades after a step.** A trade that becomes pending is one that the task goes on
to add a job for. -/
theorem Task.Sound.next_trades (h : task.Sound db) (c : Conditions) (queue : Queue UuidString) :
    TradesKept db (task.next c db queue).db ∧
    ∀ id, (task.next c db queue).db.Pending id → db.Pending id ∨
      ((task.next c db queue).queue = queue ∧
        ((db.trades.find? id = none ∧ (task.next c db queue).task = some (.addSettlementJob id)) ∨
          (task.next c db queue).task = some (.getJob id))) := by
  have same : ∀ {r : TaskResult}, r.db.trades = db.trades → TradesKept db r.db ∧
      ∀ id, r.db.Pending id → db.Pending id ∨
        (r.queue = queue ∧ ((db.trades.find? id = none ∧ r.task = some (.addSettlementJob id)) ∨
          r.task = some (.getJob id))) :=
    fun {r} h => ⟨tradesKept_of_eq h, fun id hp => Or.inl (pending_of_eq h hp)⟩
  -- only a match and a re-arm make a trade pending, and both go on with its job
  cases task with
  | tryMatchOrder orderId tradeId =>
      simp only [Task.next]
      split
      · rename_i matched db' hrun
        obtain ⟨hkept, hpending, -⟩ := exec_tryMatchOrder_trades (exec_of_run hrun)
        refine ⟨hkept, fun id hp => (hpending id hp).imp_right fun hnew => ?_⟩
        obtain ⟨hnone, matched', hr, hid⟩ := hnew
        cases hr
        exact ⟨rfl, Or.inl ⟨hnone, by rw [hid]⟩⟩
      · rename_i db' hrun
        obtain ⟨hkept, hpending, -⟩ := exec_tryMatchOrder_trades (exec_of_run hrun)
        refine ⟨hkept, fun id hp => Or.inl ((hpending id hp).resolve_right fun hnew => ?_)⟩
        obtain ⟨-, matched', hr, -⟩ := hnew
        cases hr
      · exact same rfl
  | addSettlementJob tradeId => exact same rfl
  | retryByJobId jobId =>
      simp only [Task.next]
      split
      · exact same rfl
      · exact same rfl
  | retryByTradeId tradeId =>
      simp only [Task.next]
      split
      · rename_i r db' hrun
        obtain ⟨hkept, hpending, -⟩ := exec_prepareTradeForRetry_trades (exec_of_run hrun)
        refine ⟨hkept, fun id hp => ?_⟩
        rcases hpending id hp with rfl | hp
        · exact Or.inr ⟨rfl, Or.inr (congrArg (fun id => some (Task.getJob id)) h)⟩
        · exact Or.inl hp
      · exact same rfl
  | getJob tradeId =>
      simp only [Task.next]
      split
      · exact same rfl
      · exact same rfl
  | getState tradeId =>
      simp only [Task.next]
      split
      · exact same rfl
      · split
        · exact same rfl
        · split
          · exact same rfl
          · exact same rfl
  | retryJob tradeId => exact same rfl
  | removeJob tradeId => exact same rfl
  | handleSettlement tradeId =>
      simp only [Task.next]
      split
      · exact same rfl
      · split
        · rename_i r db' hrun
          obtain ⟨hkept, hpending, -⟩ := exec_handleSettlement_trades (exec_of_run hrun)
          exact ⟨hkept, fun id hp => Or.inl (hpending id hp)⟩
        · exact same rfl
  | markSettlementFailure tradeId =>
      simp only [Task.next]
      split
      · exact same rfl
      · split
        · rename_i r db' hrun
          obtain ⟨hkept, hpending⟩ := exec_markSettlementFailure_trades (exec_of_run hrun)
          exact ⟨hkept, fun id hp => Or.inl (hpending id hp)⟩
        · exact same rfl
  | attemptReturns tradeId => exact same rfl
  | attemptThrows tradeId => exact same rfl
  | recoverOrphanMatchPendingOrders => exact same rfl
  | reopenOrders orders =>
      simp only [Task.next]
      split
      · rename_i u db' hrun
        exact same (exec_reopenOrders_trades (exec_of_run hrun))
      · exact same rfl
  | recoverPendingSettlementTrades => exact same rfl
  | reenqueue tradeIds =>
      cases tradeIds with
      | nil => exact same rfl
      | cons tradeId tradeIds => exact same rfl

theorem Task.Sound.mono {db' : Db} (h : task.Sound db) (hkept : TradesKept db db') :
    task.Sound db' := by
  have there : ∀ {id : Uuid} {trade : Trade}, db.trades.find? id = some trade →
      ∃ trade', db'.trades.find? id = some trade' := by
    intro id trade htrade
    obtain ⟨trade', htrade', -⟩ := hkept htrade
    exact ⟨trade', htrade'⟩
  -- trades do not vanish, and a settled one stays settled
  cases task with
  | addSettlementJob tradeId => exact Db.Spells.mono h there
  | getJob tradeId => exact Db.Spells.mono h there
  | getState tradeId => exact Db.Spells.mono h there
  | removeJob tradeId => exact Db.Spells.mono h there
  | handleSettlement tradeId => exact Db.Spells.mono h there
  | attemptReturns tradeId =>
      obtain ⟨trade, htrade, hsettled⟩ := h
      obtain ⟨trade', htrade', hstays⟩ := hkept htrade
      exact ⟨trade', htrade', hstays hsettled⟩
  | reenqueue tradeIds =>
      intro id hid
      obtain ⟨trade, htrade⟩ := h id hid
      exact there htrade
  | tryMatchOrder orderId tradeId => trivial
  | retryByJobId jobId => trivial
  | retryByTradeId tradeId => exact h
  | retryJob tradeId => trivial
  | markSettlementFailure tradeId => trivial
  | attemptThrows tradeId => trivial
  | recoverOrphanMatchPendingOrders => trivial
  | reopenOrders orders => trivial
  | recoverPendingSettlementTrades => trivial

/-- What a task goes on with is about trades that are there. -/
theorem Task.Sound.next (h : task.Sound db)
    (hjobs : ∀ {jobId : String} {job : Job UuidString}, queue jobId = some job → job.data.Canonical) :
    ∀ task' ∈ (task.next c db queue).task,
    task'.Sound (task.next c db queue).db := by
  have ended : ∀ {db' : Db}, ∀ task' ∈ (none : Option Task), task'.Sound db' := by
    intro db' task' hnext
    cases hnext
  have goesOn : ∀ {db' : Db} {next : Task}, next.Sound db' →
      ∀ task' ∈ some next, task'.Sound db' := by
    intro db' next hsound task' hnext
    cases hnext
    exact hsound
  -- what a task knows about its trade is handed on to the task that follows
  cases task with
  | tryMatchOrder orderId tradeId =>
      simp only [Task.next]
      split
      · rename_i matched db' hrun
        obtain ⟨-, -, hthere⟩ := exec_tryMatchOrder_trades (exec_of_run hrun)
        obtain ⟨trade, htrade⟩ := hthere matched rfl
        exact goesOn (Db.spells_uuid htrade)
      · exact ended
      · exact ended
  | addSettlementJob tradeId => exact ended
  | retryByJobId jobId =>
      simp only [Task.next]
      split
      · exact ended
      · rename_i job hjob
        exact goesOn (hjobs hjob)
  | retryByTradeId tradeId =>
      simp only [Task.next]
      split
      · rename_i r db' hrun
        obtain ⟨-, -, hthere⟩ := exec_prepareTradeForRetry_trades (exec_of_run hrun)
        exact goesOn ⟨h, hthere⟩
      · exact ended
  | getJob tradeId =>
      simp only [Task.next]
      split
      · exact goesOn h
      · exact goesOn h
  | getState tradeId =>
      simp only [Task.next]
      split
      · exact goesOn h
      · split
        · exact goesOn trivial
        · split
          · exact ended
          · exact goesOn h
  | retryJob tradeId => exact ended
  | removeJob tradeId => exact goesOn h
  | handleSettlement tradeId =>
      simp only [Task.next]
      split
      · exact goesOn trivial
      · split
        · rename_i r db' hrun
          obtain ⟨-, -, hsettled⟩ := exec_handleSettlement_trades (exec_of_run hrun)
          exact goesOn (hsettled h.2)
        · exact goesOn trivial
  | markSettlementFailure tradeId =>
      simp only [Task.next]
      split
      · exact goesOn trivial
      · split
        · exact goesOn trivial
        · exact goesOn trivial
  | attemptReturns tradeId => exact ended
  | attemptThrows tradeId => exact ended
  | recoverOrphanMatchPendingOrders => exact goesOn trivial
  | reopenOrders orders =>
      simp only [Task.next]
      split
      · exact goesOn trivial
      · exact goesOn trivial
  | recoverPendingSettlementTrades =>
      refine goesOn fun id hid => ?_
      obtain ⟨trade, htrade, rfl⟩ := List.mem_map.mp hid
      exact ⟨trade, Table.find?_key (List.mem_filter.mp htrade).1⟩
  | reenqueue tradeIds =>
      cases tradeIds with
      | nil => exact ended
      | cons tradeId tradeIds => exact goesOn fun id hid => h id (List.mem_cons_of_mem _ hid)

/-- The calls of the queue. -/
inductive QueueStep (db : Db) (queue : Queue UuidString) (task : Task) (r : TaskResult) : Prop
  | same (h : r.queue = queue)
  | added {tradeId : UuidString} (h : r.queue = queue.add (buildJobId tradeId) tradeId)
      (by_task : task = .addSettlementJob tradeId ∨
        ∃ (id : Uuid) (ids : List Uuid), tradeId = id ∧ task = .reenqueue (id :: ids))
  | retried {tradeId : UuidString} (h : r.queue = queue.retry (buildJobId tradeId))
  | removed {tradeId : UuidString} (h : r.queue = queue.remove (buildJobId tradeId))
      (goesOn : r.task = some (.addSettlementJob tradeId))
  | completed {tradeId : UuidString} (h : r.queue = queue.set (buildJobId tradeId) none)
      (by_task : task = .attemptReturns tradeId) (unchanged : r.db = db)
  | threw {tradeId : UuidString}
      (h : r.queue = queue.modify (buildJobId tradeId) (Job.afterThrow settlementOptions))
      (by_task : task = .attemptThrows tradeId)

theorem Task.queueStep : QueueStep db queue task (task.next c db queue) := by
  cases task with
  | addSettlementJob tradeId => exact .added rfl (Or.inl rfl)
  | retryJob tradeId => exact .retried rfl
  | removeJob tradeId => exact .removed rfl rfl
  | attemptReturns tradeId => exact .completed rfl rfl rfl
  | attemptThrows tradeId => exact .threw rfl rfl
  | recoverOrphanMatchPendingOrders => exact .same rfl
  | recoverPendingSettlementTrades => exact .same rfl
  | reenqueue tradeIds =>
      cases tradeIds with
      | nil => exact .same rfl
      | cons tradeId tradeIds => exact .added rfl (Or.inr ⟨tradeId, tradeIds, rfl, rfl⟩)
  | tryMatchOrder orderId tradeId =>
      simp only [Task.next]
      split
      · exact .same rfl
      · exact .same rfl
      · exact .same rfl
  | retryByJobId jobId =>
      simp only [Task.next]
      split
      · exact .same rfl
      · exact .same rfl
  | retryByTradeId tradeId =>
      simp only [Task.next]
      split
      · exact .same rfl
      · exact .same rfl
  | getJob tradeId =>
      simp only [Task.next]
      split
      · exact .same rfl
      · exact .same rfl
  | getState tradeId =>
      simp only [Task.next]
      split
      · exact .same rfl
      · split
        · exact .same rfl
        · split
          · exact .same rfl
          · exact .same rfl
  | handleSettlement tradeId =>
      simp only [Task.next]
      split
      · exact .same rfl
      · split
        · exact .same rfl
        · exact .same rfl
  | markSettlementFailure tradeId =>
      simp only [Task.next]
      split
      · exact .same rfl
      · split
        · exact .same rfl
        · exact .same rfl
  | reopenOrders orders =>
      simp only [Task.next]
      split
      · exact .same rfl
      · exact .same rfl

/-- A job after a step was there before it, or is one that the task has added. -/
theorem Task.Sound.next_jobs (h : task.Sound db) {jobId : String} {job : Job UuidString}
    (hjob : (task.next c db queue).queue jobId = some job) :
    (∃ job', queue jobId = some job' ∧ job.data = job'.data) ∨
      (jobId = buildJobId job.data ∧ db.Spells job.data) := by
  have hstep : QueueStep db queue task (task.next c db queue) := Task.queueStep
  generalize task.next c db queue = r at hstep hjob
  -- a job that is there was there, or has just been added
  cases hstep with
  | same hq =>
      rw [hq] at hjob
      exact Or.inl ⟨job, hjob, rfl⟩
  | @added tradeId hq by_task =>
      rw [hq] at hjob
      rcases Queue.add_eq_some hjob with hold | ⟨hid, hdata⟩
      · exact Or.inl ⟨job, hold, rfl⟩
      · rw [hdata]
        refine Or.inr ⟨hid, ?_⟩
        rcases by_task with rfl | ⟨id, ids, rfl, rfl⟩
        · exact h
        · obtain ⟨trade, htrade⟩ := h id (List.mem_cons_self ..)
          exact Db.spells_uuid htrade
  | retried hq =>
      rw [hq] at hjob
      exact Or.inl (Queue.retry_eq_some hjob)
  | removed hq goesOn =>
      rw [hq] at hjob
      exact Or.inl ⟨job, Queue.remove_eq_some hjob, rfl⟩
  | completed hq by_task unchanged =>
      rw [hq] at hjob
      exact Or.inl ⟨job, Queue.set_none_eq_some hjob, rfl⟩
  | threw hq by_task =>
      rw [hq] at hjob
      exact Or.inl (Queue.modify_eq_some (f := Job.afterThrow settlementOptions) (fun _ => rfl) hjob)

/-- **The frame of a step.** The job of a trade that is still pending after the step is as
it was, or a worker will run it, or the task goes on to take care of the trade, or its last
attempt has thrown. -/
theorem Task.Sound.frame (h : task.Sound db) {tradeId : Uuid}
    (hp : (task.next c db queue).db.Pending tradeId) :
    (task.next c db queue).queue (buildJobId tradeId) = queue (buildJobId tradeId) ∨
      (task.next c db queue).queue.Alive (buildJobId tradeId) ∨
      (∃ task' ∈ (task.next c db queue).task, task'.TakesCare (task.next c db queue).queue tradeId) ∨
      (task = .attemptThrows tradeId ∧ ∃ job, queue (buildJobId tradeId) = some job ∧
        (job.afterThrow settlementOptions).state = .failed) := by
  have hstep : QueueStep db queue task (task.next c db queue) := Task.queueStep
  generalize task.next c db queue = r at hstep hp
  -- only the job of one trade is touched
  have other : ∀ {id : UuidString}, id ≠ tradeId → buildJobId tradeId ≠ buildJobId id :=
    fun hne heq => hne (buildJobId_injective heq).symm
  cases hstep with
  | same hq => exact Or.inl (by rw [hq])
  | @added id hq by_task =>
      rw [hq]
      by_cases hid : id = (tradeId : UuidString)
      · subst hid
        cases hjob : queue (buildJobId tradeId) with
        | none => exact Or.inr (Or.inl ⟨_, Queue.add_of_none hjob, by simp⟩)
        | some job => exact Or.inl (by rw [Queue.add_of_some hjob, hjob])
      · exact Or.inl (Queue.add_of_ne (other hid))
  | @retried id hq =>
      rw [hq]
      by_cases hid : id = (tradeId : UuidString)
      · subst hid
        rcases Queue.retry_cases queue (buildJobId tradeId) with hsame | halive
        · exact Or.inl (by rw [hsame])
        · exact Or.inr (Or.inl halive)
      · exact Or.inl (Queue.retry_of_ne (other hid))
  | @removed id hq goesOn =>
      rw [hq, goesOn]
      by_cases hid : id = (tradeId : UuidString)
      · subst hid
        rcases Queue.remove_cases queue (buildJobId tradeId) with hnone | halive
        · refine Or.inr (Or.inr (Or.inl ⟨_, rfl, ?_⟩))
          simp [Task.TakesCare, hnone, Task.adds]
        · exact Or.inr (Or.inl halive)
      · exact Or.inl (Queue.remove_of_ne (other hid))
  | @completed id hq by_task unchanged =>
      rw [hq]
      by_cases hid : id = (tradeId : UuidString)
      · -- the trade is settled
        subst hid by_task
        obtain ⟨trade, htrade, hsettled⟩ := h
        obtain ⟨trade', htrade', hpending⟩ := hp
        rw [Uuid.string_uuid] at htrade
        rw [unchanged, htrade] at htrade'
        cases htrade'
        rw [hsettled] at hpending
        cases hpending
      · exact Or.inl (Queue.set_of_ne (other hid) _)
  | @threw id hq by_task =>
      rw [hq]
      by_cases hid : id = (tradeId : UuidString)
      · subst hid by_task
        cases hjob : queue (buildJobId tradeId) with
        | none => exact Or.inl (by rw [Queue.modify_self, hjob]; rfl)
        | some job =>
            by_cases hfailed : (job.afterThrow settlementOptions).state = .failed
            · exact Or.inr (Or.inr (Or.inr ⟨rfl, job, rfl, hfailed⟩))
            · exact Or.inr (Or.inl ⟨_, by rw [Queue.modify_self, hjob]; rfl, hfailed⟩)
      · exact Or.inl (Queue.modify_of_ne (other hid) _)

/-- **The step lemma of the task that takes care.** It goes on to take care of the trade,
unless a worker will now run its job. -/
theorem Task.TakesCare.next {tradeId : Uuid} (h : task.TakesCare queue tradeId)
    (hp : db.Pending tradeId)
    (hjobs : ∀ {jobId : String} {job : Job UuidString}, queue jobId = some job → jobId = buildJobId job.data) :
    (task.next c db queue).queue.Alive (buildJobId tradeId) ∨
      ∃ task' ∈ (task.next c db queue).task,
        task'.TakesCare (task.next c db queue).queue tradeId := by
  -- without a job, somebody is on his way to add it
  cases hjob : queue (buildJobId tradeId) with
  | none =>
      simp only [Task.TakesCare, hjob] at h
      cases task with
      | addSettlementJob id =>
          left
          have hid : id = (tradeId : UuidString) := by simpa [Task.adds] using h
          subst hid
          exact ⟨_, Queue.add_of_none hjob, by simp⟩
      | getJob id =>
          right
          have hid : id = (tradeId : UuidString) := by simpa [Task.adds] using h
          subst hid
          simp [Task.next, hjob, Task.TakesCare, Task.adds]
      | getState id =>
          right
          have hid : id = (tradeId : UuidString) := by simpa [Task.adds] using h
          subst hid
          simp [Task.next, hjob, Task.TakesCare, Task.adds]
      | removeJob id =>
          have hid : id = (tradeId : UuidString) := by simpa [Task.adds] using h
          subst hid
          rcases Queue.remove_cases queue (buildJobId tradeId) with hnone | halive
          · right
            simp [Task.next, hnone, Task.TakesCare, Task.adds]
          · exact Or.inl halive
      | recoverOrphanMatchPendingOrders =>
          right
          simp [Task.next, hjob, Task.TakesCare, Task.adds]
      | reopenOrders orders =>
          right
          simp only [Task.next]
          split
          · simp [hjob, Task.TakesCare, Task.adds]
          · simp [hjob, Task.TakesCare, Task.adds]
      | recoverPendingSettlementTrades =>
          right
          obtain ⟨trade, htrade, hpending⟩ := hp
          have hmem : trade ∈ pendingTrades db :=
            List.mem_filter.mpr ⟨Table.mem_of_find? htrade, by simpa using hpending⟩
          have hid : trade.id = tradeId := Table.key_of_find? htrade
          simp only [Task.next, Option.mem_some_iff, exists_eq_left', Task.TakesCare, hjob,
            Task.adds, decide_eq_true_eq]
          exact List.mem_map.mpr ⟨trade, hmem, hid⟩
      | reenqueue tradeIds =>
          cases tradeIds with
          | nil => simp [Task.adds] at h
          | cons id ids =>
              by_cases hid : id = tradeId
              · subst hid
                exact Or.inl ⟨_, Queue.add_of_none hjob, by simp⟩
              · right
                have hrest : tradeId ∈ ids := by
                  simp only [Task.adds, decide_eq_true_eq] at h
                  exact (List.mem_cons.mp h).resolve_left (Ne.symm hid)
                have hkey : buildJobId tradeId ≠ buildJobId id :=
                  fun heq => hid (Uuid.string_injective (buildJobId_injective heq)).symm
                refine ⟨_, rfl, ?_⟩
                simp only [Task.TakesCare, Task.next, Queue.add_of_ne hkey, hjob, Task.adds]
                exact decide_eq_true hrest
      | tryMatchOrder orderId id => simp [Task.adds] at h
      | retryByJobId jobId => simp [Task.adds] at h
      | retryByTradeId id => simp [Task.adds] at h
      | retryJob id => simp [Task.adds] at h
      | handleSettlement id => simp [Task.adds] at h
      | markSettlementFailure id => simp [Task.adds] at h
      | attemptReturns id => simp [Task.adds] at h
      | attemptThrows id => simp [Task.adds] at h
  -- with a failed job, somebody is on his way to read its state
  | some job =>
      simp only [Task.TakesCare, hjob] at h
      cases task with
      | retryByJobId jobId =>
          right
          have hid : jobId = buildJobId tradeId := by simpa [Task.watches] using h
          subst hid
          have hdata : job.data = (tradeId : UuidString) := (buildJobId_injective (hjobs hjob)).symm
          simp [Task.next, hjob, Task.TakesCare, Task.watches, hdata]
      | retryByTradeId id =>
          right
          have hid : id = (tradeId : UuidString) := by simpa [Task.watches] using h
          subst hid
          simp [Task.next, run_prepareTradeForRetry hp, hjob, Task.TakesCare, Task.watches]
      | getJob id =>
          right
          have hid : id = (tradeId : UuidString) := by simpa [Task.watches] using h
          subst hid
          simp [Task.next, hjob, Task.TakesCare, Task.watches]
      | getState id =>
          have hid : id = (tradeId : UuidString) := by simpa [Task.watches] using h
          subst hid
          by_cases hfailed : job.state = .failed
          · right
            simp [Task.next, hjob, hfailed, Task.TakesCare, Task.watches]
          · left
            have hsame : (Task.next c db queue (.getState tradeId)).queue = queue := by
              simp only [Task.next, hjob, if_neg hfailed]
              split
              · rfl
              · rfl
            rw [hsame]
            exact ⟨job, hjob, hfailed⟩
      | retryJob id =>
          left
          have hid : id = (tradeId : UuidString) := by simpa [Task.watches] using h
          subst hid
          by_cases hfailed : job.state = .failed
          · exact Queue.retry_of_failed hjob hfailed
          · rcases Queue.retry_cases queue (buildJobId tradeId) with hsame | halive
            · show (queue.retry (buildJobId tradeId)).Alive (buildJobId tradeId)
              rw [hsame]
              exact ⟨job, hjob, hfailed⟩
            · exact halive
      | removeJob id =>
          have hid : id = (tradeId : UuidString) := by simpa [Task.watches] using h
          subst hid
          rcases Queue.remove_cases queue (buildJobId tradeId) with hnone | halive
          · right
            simp [Task.next, hnone, Task.TakesCare, Task.adds]
          · exact Or.inl halive
      | tryMatchOrder orderId id => simp [Task.watches] at h
      | addSettlementJob id => simp [Task.watches] at h
      | handleSettlement id => simp [Task.watches] at h
      | markSettlementFailure id => simp [Task.watches] at h
      | attemptReturns id => simp [Task.watches] at h
      | attemptThrows id => simp [Task.watches] at h
      | recoverOrphanMatchPendingOrders => simp [Task.watches] at h
      | reopenOrders orders => simp [Task.watches] at h
      | recoverPendingSettlementTrades => simp [Task.watches] at h
      | reenqueue tradeIds => simp [Task.watches] at h

end Next

/-! ## The invariant -/

section Advance

variable {tasks : List Task} {i : ℕ} {task task' : Task} {o : Option Task}

theorem mem_of_advance (h : task ∈ advance tasks i o) : task ∈ tasks ∨ task ∈ o := by
  simp only [advance, List.mem_append, Option.mem_toList] at h
  rcases h with (h | h) | h
  · exact Or.inl (List.mem_of_mem_take h)
  · exact Or.inr h
  · exact Or.inl (List.mem_of_mem_drop h)

theorem mem_advance_self (h : task ∈ o) : task ∈ advance tasks i o := by
  simp only [advance, List.mem_append, Option.mem_toList]
  exact Or.inl (Or.inr h)

/-- The tasks that are not taking the step are still there. -/
theorem mem_advance_other (hi : tasks[i]? = some task') (h : task ∈ tasks) :
    task = task' ∨ task ∈ advance tasks i o := by
  obtain ⟨hlt, hget⟩ := List.getElem?_eq_some_iff.mp hi
  rw [← List.take_append_drop i tasks, List.mem_append, List.drop_eq_getElem_cons hlt,
    List.mem_cons, hget] at h
  simp only [advance, List.mem_append]
  rcases h with h | h | h
  · exact Or.inr (Or.inl (Or.inl h))
  · exact Or.inl h
  · exact Or.inr (Or.inr h)

end Advance

/-- The trade has a job that a worker runs or will run, or somebody takes care of it. -/
def Settlement.Served (b : Settlement) (tradeId : Uuid) : Prop :=
  b.queue.Alive (buildJobId tradeId) ∨ (b.up = false ∧ b.queue (buildJobId tradeId) = none) ∨
    ∃ task ∈ b.tasks, task.TakesCare b.queue tradeId

/-- Every pending trade is served. -/
structure Settlement.Invariant (b : Settlement) : Prop where
  jobs : ∀ {jobId : String} {job : Job UuidString}, b.queue jobId = some job →
    jobId = buildJobId job.data ∧ b.db.Spells job.data
  sound : ∀ task ∈ b.tasks, task.Sound b.db
  down : b.up = false → b.tasks = []
  served : ∀ tradeId, b.db.Pending tradeId → b.Served tradeId

section Events

variable {b b' : Settlement}

theorem Task.TakesCare.congr {queue queue' : Queue UuidString} {tradeId : Uuid} {task : Task}
    (h : task.TakesCare queue tradeId)
    (hsame : queue' (buildJobId tradeId) = queue (buildJobId tradeId)) :
    task.TakesCare queue' tradeId := by
  unfold Task.TakesCare at h ⊢
  rwa [hsame]

/-- A change of one job, which a worker now runs or will run, or which a retry watches. -/
theorem Settlement.Served.modify {tradeId : Uuid} (h : b.Served tradeId) {jobId : String}
    {f : Job UuidString → Job UuidString} {tasks : List Task} (htasks : ∀ task ∈ b.tasks, task ∈ tasks)
    (hjob : ∀ job, jobId = buildJobId tradeId → b.queue jobId = some job →
      (f job).state ≠ .failed ∨ ∃ task ∈ b.tasks, task.watches tradeId = true) :
    Settlement.Served { b with queue := b.queue.modify jobId f, tasks := tasks } tradeId := by
  -- the job of the trade, or another one
  by_cases hid : buildJobId tradeId = jobId
  · subst hid
    cases hq : b.queue (buildJobId tradeId) with
    | none =>
        have hsame : b.queue.modify (buildJobId tradeId) f (buildJobId tradeId) = none := by
          rw [Queue.modify_self, hq]
          rfl
        rcases h with ⟨job, halive, -⟩ | hdown | ⟨task, htask, hcare⟩
        · rw [hq] at halive
          cases halive
        · exact Or.inr (Or.inl ⟨hdown.1, hsame⟩)
        · exact Or.inr (Or.inr ⟨task, htasks task htask, hcare.congr (hsame.trans hq.symm)⟩)
    | some job =>
        have hnow : b.queue.modify (buildJobId tradeId) f (buildJobId tradeId) = some (f job) := by
          rw [Queue.modify_self, hq]
          rfl
        rcases hjob job rfl hq with halive | ⟨task, htask, hwatch⟩
        · exact Or.inl ⟨f job, hnow, halive⟩
        · refine Or.inr (Or.inr ⟨task, htasks task htask, ?_⟩)
          simp only [Task.TakesCare, hnow]
          exact hwatch
  · have hsame := Queue.modify_of_ne (q := b.queue) hid f
    rcases h with ⟨job, halive⟩ | hdown | ⟨task, htask, hcare⟩
    · exact Or.inl ⟨job, hsame.trans halive.1, halive.2⟩
    · exact Or.inr (Or.inl ⟨hdown.1, hsame.trans hdown.2⟩)
    · exact Or.inr (Or.inr ⟨task, htasks task htask, hcare.congr hsame⟩)

/-- A pending trade that nobody watches, as a test. -/
theorem watched_of_not_unwatched {tradeId : Uuid} (hp : b.db.Pending tradeId)
    (h : b.unwatched tradeId = false) : ∃ task ∈ b.tasks, task.watches tradeId = true := by
  obtain ⟨trade, htrade, hpending⟩ := hp
  by_contra hnone
  have hall : b.tasks.all (fun task => !task.watches tradeId) = true := by
    rw [List.all_eq_true]
    intro task htask
    by_contra hwatch
    exact hnone ⟨task, htask, by simpa using hwatch⟩
  rw [Settlement.unwatched, htrade, hall] at h
  simp [hpending] at h

theorem Settlement.Invariant.action (hb : b.Invariant) {a : Action} {busy : RowId → Bool}
    (h : b.next (.action a busy) = some b') : b'.Invariant := by
  simp only [Settlement.next] at h
  by_cases hmay : (b.listening && a.leavesTrades) = true
  case neg =>
    rw [if_neg hmay] at h
    cases h
  rw [if_pos hmay] at h
  split at h
  case h_2 => cases h
  rename_i u db hrun
  cases h
  have hleaves : a.leavesTrades = true := (Bool.and_eq_true _ _ ▸ hmay).2
  have heffect : a.Effect (.serial fun r => busy r = true) b.db db := by
    refine exec_effect (fun orders ha => ?_) (exec_of_run hrun)
    rw [ha] at hleaves
    cases hleaves
  have htrades := Action.Effect.trades_eq hleaves heffect
  refine ⟨fun {jobId job} hjob => ?_, fun task htask => (hb.sound task htask).mono
    (tradesKept_of_eq htrades), hb.down, fun id hp => hb.served id (pending_of_eq htrades hp)⟩
  obtain ⟨hid, hspells⟩ := hb.jobs hjob
  refine ⟨hid, hspells.mono fun {id trade} htrade => ⟨trade, ?_⟩⟩
  rw [htrades]
  exact htrade

theorem Settlement.Invariant.request (hb : b.Invariant) {task : Task}
    (hsafe : strands b (.request task) = false) (h : b.next (.request task) = some b') :
    b'.Invariant := by
  simp only [Settlement.next] at h
  by_cases hmay : (b.listening && task.isRequest) = true
  case neg =>
    rw [if_neg hmay] at h
    cases h
  rw [if_pos hmay] at h
  cases h
  rw [Bool.and_eq_true, Settlement.listening, Bool.and_eq_true] at hmay
  refine ⟨hb.jobs, fun task' htask => ?_, fun hdown => ?_, fun id hp => ?_⟩
  -- the new request has just begun, the tasks before it go on
  · rcases List.mem_append.mp htask with hold | hnew
    · exact hb.sound task' hold
    · rw [List.mem_singleton.mp hnew]
      have hrequest := hmay.2
      cases task with
      | tryMatchOrder orderId tradeId => trivial
      | retryByJobId jobId => trivial
      | retryByTradeId tradeId =>
          have hcanonical : tradeId.Canonical := by simpa [strands] using hsafe
          exact hcanonical
      | _ => cases hrequest
  · have hup : b.up = false := hdown
    rw [hmay.1.1] at hup
    cases hup
  · rcases hb.served id hp with halive | hdown | ⟨task', htask, hcare⟩
    · exact Or.inl halive
    · exact Or.inr (Or.inl hdown)
    · exact Or.inr (Or.inr ⟨task', List.mem_append_left _ htask, hcare⟩)

/-- The jobs after a change of one of them. -/
theorem Settlement.Invariant.modify_jobs (hb : b.Invariant) {jobId jobId' : String}
    {f : Job UuidString → Job UuidString} (hf : ∀ job, (f job).data = job.data) {job : Job UuidString}
    (hjob : b.queue.modify jobId f jobId' = some job) :
    jobId' = buildJobId job.data ∧ b.db.Spells job.data := by
  obtain ⟨job', hjob', hdata⟩ := Queue.modify_eq_some hf hjob
  rw [hdata]
  exact hb.jobs hjob'

theorem Settlement.Invariant.attempt (hb : b.Invariant) {jobId : String}
    (h : b.next (.attempt jobId) = some b') : b'.Invariant := by
  simp only [Settlement.next] at h
  split at h
  case h_1 => cases h
  rename_i job hjob
  by_cases hmay : (b.up && job.state.runnable) = true
  case neg =>
    rw [if_neg hmay] at h
    cases h
  rw [if_pos hmay] at h
  cases h
  have hup : b.up = true := (Bool.and_eq_true _ _ ▸ hmay).1
  refine ⟨fun {jobId' job'} hjob' => ?_, fun task htask => ?_, fun hdown => ?_, fun id hp => ?_⟩
  · exact hb.modify_jobs (f := fun job => { job with state := .active }) (fun _ => rfl) hjob'
  · rcases List.mem_append.mp htask with hold | hnew
    · exact hb.sound task hold
    · rw [List.mem_singleton.mp hnew]
      exact (hb.jobs hjob).2
  · have hdown' : b.up = false := hdown
    rw [hup] at hdown'
    cases hdown'
  · exact (hb.served id hp).modify (fun task htask => List.mem_append_left _ htask)
      fun job' _ _ => Or.inl (by simp)

theorem Settlement.Invariant.stalled (hb : b.Invariant) {jobId : String}
    (hsafe : strands b (.stalled jobId) = false) (h : b.next (.stalled jobId) = some b') :
    b'.Invariant := by
  simp only [Settlement.next] at h
  split at h
  case h_1 => cases h
  rename_i job hjob
  split at h
  case isFalse => cases h
  cases h
  refine ⟨fun {jobId' job'} hjob' => hb.modify_jobs (f := Job.afterStall settlementOptions)
    (fun _ => rfl) hjob', hb.sound, hb.down, fun id hp => ?_⟩
  refine (hb.served id hp).modify (fun task htask => htask) fun job' hid hjob' => ?_
  rw [hjob] at hjob'
  cases hjob'
  by_cases hfailed : (job.afterStall settlementOptions).state = .failed
  · right
    have hdata : job.data = (id : UuidString) := (buildJobId_injective (hid.symm.trans (hb.jobs hjob).1)).symm
    rw [strands, hjob] at hsafe
    simp only [Option.any_some, hfailed, decide_true, Bool.true_and, hdata, Uuid.string_uuid]
      at hsafe
    exact watched_of_not_unwatched hp hsafe
  · exact Or.inl hfailed

theorem Settlement.Invariant.crash (hb : b.Invariant) (hsafe : strands b .crash = false)
    (h : b.next .crash = some b') : b'.Invariant := by
  simp only [Settlement.next] at h
  split at h
  case isFalse => cases h
  cases h
  refine ⟨hb.jobs, fun task htask => (by cases htask), fun _ => rfl, fun id hp => ?_⟩
  obtain ⟨trade, htrade, hpending⟩ := hp
  have hid : trade.id = id := Table.key_of_find? htrade
  cases hjob : b.queue (buildJobId id) with
  | none => exact Or.inr (Or.inl ⟨rfl, hjob⟩)
  | some job =>
      refine Or.inl ⟨job, hjob, fun hfailed => ?_⟩
      have hstranded : strands b .crash = true := by
        rw [strands, List.any_eq_true]
        refine ⟨trade, Table.mem_of_find? htrade, ?_⟩
        simp [hpending, hid, hjob, hfailed]
      rw [hsafe] at hstranded
      cases hstranded

theorem Settlement.Invariant.restart (hb : b.Invariant) (h : b.next .restart = some b') :
    b'.Invariant := by
  simp only [Settlement.next] at h
  split at h
  case isTrue => cases h
  rename_i hdown
  cases h
  refine ⟨hb.jobs, fun task htask => ?_, fun hup => (by cases hup), fun id hp => ?_⟩
  · rw [List.mem_singleton.mp htask]
    trivial
  · rcases hb.served id hp with halive | hnone | ⟨task, htask, -⟩
    · exact Or.inl halive
    · refine Or.inr (Or.inr ⟨_, List.mem_singleton_self _, ?_⟩)
      simp [Task.TakesCare, hnone.2, Task.adds]
    · rw [hb.down (by simpa using hdown)] at htask
      cases htask

theorem Settlement.Invariant.step (hb : b.Invariant) {i : ℕ} {c : Conditions}
    (hsafe : strands b (.step i c) = false) (h : b.next (.step i c) = some b') :
    b'.Invariant := by
  simp only [Settlement.next] at h
  split at h
  case h_1 => cases h
  rename_i task hi
  cases h
  have hmem : task ∈ b.tasks := List.mem_of_getElem? hi
  have hsound := hb.sound task hmem
  obtain ⟨hkept, hpending⟩ := hsound.next_trades c b.queue
  have hstays : ∀ {id trade}, b.db.trades.find? id = some trade →
      ∃ trade', (task.next c b.db b.queue).db.trades.find? id = some trade' := by
    intro id trade htrade
    obtain ⟨trade', htrade', -⟩ := hkept htrade
    exact ⟨trade', htrade'⟩
  refine ⟨fun {jobId job} hjob => ?_, fun task' htask => ?_, fun hdown => ?_, fun id hp => ?_⟩
  · rcases hsound.next_jobs hjob with ⟨job', hjob', hdata⟩ | ⟨hid, hspells⟩
    · obtain ⟨hid, hspells⟩ := hb.jobs hjob'
      rw [hdata]
      exact ⟨hid, hspells.mono hstays⟩
    · exact ⟨hid, hspells.mono hstays⟩
  · rcases mem_of_advance htask with hold | hnew
    · exact (hb.sound task' hold).mono hkept
    · exact hsound.next (fun hjob => (hb.jobs hjob).2.1) task' hnew
  · rw [hb.down hdown] at hmem
    cases hmem
  -- the task that takes the step goes on to take care
  have goesOn : (∃ task' ∈ (task.next c b.db b.queue).task,
      task'.TakesCare (task.next c b.db b.queue).queue id) →
      Settlement.Served ⟨(task.next c b.db b.queue).db, (task.next c b.db b.queue).queue, b.up,
        advance b.tasks i (task.next c b.db b.queue).task⟩ id := by
    intro hnext
    obtain ⟨task', hnext, hcare⟩ := hnext
    exact Or.inr (Or.inr ⟨task', mem_advance_self hnext, hcare⟩)
  rcases hpending id hp with hold | ⟨hqueue, hnew⟩
  case inr =>
    -- a trade that has become pending
    rcases hnew with ⟨hnone, hnext⟩ | hnext
    · have hjob : b.queue (buildJobId id) = none := by
        by_contra hjob
        obtain ⟨job, hjob⟩ := Option.ne_none_iff_exists'.mp hjob
        obtain ⟨hid, -, trade, htrade⟩ := hb.jobs hjob
        rw [← buildJobId_injective hid, Uuid.string_uuid, hnone] at htrade
        cases htrade
      refine goesOn ⟨_, hnext, ?_⟩
      simp [Task.TakesCare, hqueue, hjob, Task.adds]
    · refine goesOn ⟨_, hnext, ?_⟩
      unfold Task.TakesCare
      split
      · simp [Task.adds]
      · simp [Task.watches]
  rcases hsound.frame hp with hsame | halive | hnext | ⟨rfl, job, hjob, hfailed⟩
  · rcases hb.served id hold with ⟨job, hjob, halive⟩ | hdown | ⟨task', htask, hcare⟩
    · exact Or.inl ⟨job, hsame.trans hjob, halive⟩
    · exact Or.inr (Or.inl ⟨hdown.1, hsame.trans hdown.2⟩)
    · rcases mem_advance_other (o := (task.next c b.db b.queue).task) hi htask with rfl | hother
      · rcases hcare.next (c := c) hold fun hjob => (hb.jobs hjob).1 with halive | hnext
        · exact Or.inl halive
        · exact goesOn hnext
      · exact Or.inr (Or.inr ⟨task', hother, hcare.congr hsame⟩)
  · exact Or.inl halive
  · exact goesOn hnext
  · -- the job fails, so a retry watches the trade
    have hunwatched : b.unwatched id = false := by
      simpa [strands, hi, hjob, hfailed] using hsafe
    obtain ⟨task', htask, hwatch⟩ := watched_of_not_unwatched hold hunwatched
    rcases mem_advance_other (o := none) hi htask with rfl | hother
    · cases hwatch
    · refine Or.inr (Or.inr ⟨task', hother, ?_⟩)
      simp only [Task.TakesCare, Task.next, Queue.modify_self, hjob, Option.map_some]
      exact hwatch

/-- **The step lemma.** Every event that strands no trade keeps the invariant. -/
theorem Settlement.Invariant.next (hb : b.Invariant) {e : SettlementEvent}
    (hsafe : strands b e = false) (h : b.next e = some b') : b'.Invariant := by
  cases e with
  | action a busy => exact hb.action h
  | request task => exact hb.request hsafe h
  | attempt jobId => exact hb.attempt h
  | step i c => exact hb.step hsafe h
  | stalled jobId => exact hb.stalled hsafe h
  | crash => exact hb.crash hsafe h
  | restart => exact hb.restart h

end Events

theorem invariant_of_careful {b : Settlement} (h : carefulSettlement.Reachable b) :
    b.Invariant := by
  refine h.invariant Settlement.Invariant ?_ ?_
  · intro b hinit
    subst hinit
    refine ⟨fun hjob => (by cases hjob), fun task htask => (by cases htask), fun _ => rfl,
      fun id hp => ?_⟩
    obtain ⟨trade, htrade, -⟩ := hp
    cases htrade
  · intro b e b' hb hstep
    exact hb.next hstep.1 hstep.2

/-- **No stranded settlement**, in every run in which no job of a pending trade fails without
a retry that has yet to look at it, no crash finds a pending trade with a failed job, and every
retry spells its trade as PostgreSQL does. -/
theorem pending_trade_has_job {b : Settlement} (h : carefulSettlement.Reachable b)
    (hrest : b.AtRest) {trade : Trade} (htrade : trade ∈ b.db.trades.rows)
    (hpending : trade.status = .PENDING_SETTLEMENT) :
    ∃ job, b.queue (buildJobId trade.id) = some job ∧ job.state.runnable = true := by
  obtain ⟨hup, htasks, hactive⟩ := hrest
  have hp : b.db.Pending trade.id := ⟨trade, Table.find?_key htrade, hpending⟩
  rcases (invariant_of_careful h).served trade.id hp with ⟨job, hjob, hfailed⟩ | hdown | htask
  · refine ⟨job, hjob, ?_⟩
    have hidle := hactive trade htrade job hjob
    cases hst : job.state with
    | waiting => rfl
    | delayed => rfl
    | prioritized => rfl
    | active => exact absurd hst hidle
    | failed => exact absurd hst hfailed
  · rw [hup] at hdown
    cases hdown.1
  · obtain ⟨task, htask, -⟩ := htask
    rw [htasks] at htask
    cases htask

/-! ## Runs -/

/-- The events one after the other, as long as each meets `C`. -/
def play (C : Settlement → SettlementEvent → Bool) : List SettlementEvent → Settlement →
    Option Settlement
  | [], b => some b
  | e :: es, b =>
      if C b e then
        match b.next e with
        | some b' => play C es b'
        | none => none
      else none

/-- The state after some events from the start, as a test. -/
def playsTo (C : Settlement → SettlementEvent → Bool) (es : List SettlementEvent)
    (p : Settlement → Bool) : Bool :=
  (play C es ⟨Db.empty, Queue.empty, false, []⟩).any p

theorem reachable_of_play {C : Settlement → SettlementEvent → Bool} {es : List SettlementEvent}
    {b b' : Settlement} (hb : (settlement.restrict fun b e => C b e = true).Reachable b)
    (h : play C es b = some b') : (settlement.restrict fun b e => C b e = true).Reachable b' := by
  induction es generalizing b with
  | nil =>
      cases h
      exact hb
  | cons e es ih =>
      simp only [play] at h
      by_cases hC : C b e = true
      case neg =>
        rw [if_neg hC] at h
        cases h
      rw [if_pos hC] at h
      split at h
      · rename_i b₁ hnext
        exact ih (.step hb ⟨hC, hnext⟩) h
      · cases h

theorem reachable_of_playsTo {C : Settlement → SettlementEvent → Bool} {es : List SettlementEvent}
    {p : Settlement → Bool} (h : playsTo C es p = true) :
    ∃ b, (settlement.restrict fun b e => C b e = true).Reachable b ∧ p b = true := by
  unfold playsTo at h
  rw [Option.any_eq_true] at h
  obtain ⟨b, hb, hp⟩ := h
  exact ⟨b, reachable_of_play (.init rfl) hb, hp⟩

/-- Some tests of a state at rest. -/
def Settlement.rests (b : Settlement) : Bool :=
  b.up && b.tasks.isEmpty && b.db.trades.rows.all fun trade =>
    (b.queue (buildJobId trade.id)).all fun job => job.state ≠ .active

theorem atRest_of_rests {b : Settlement} (h : b.rests = true) : b.AtRest := by
  simp only [Settlement.rests, Bool.and_eq_true, List.isEmpty_iff, List.all_eq_true] at h
  obtain ⟨⟨hup, htasks⟩, hactive⟩ := h
  refine ⟨hup, htasks, fun trade htrade job hjob => ?_⟩
  have hall := hactive trade htrade
  rw [Option.mem_def.mp hjob] at hall
  simpa using hall

namespace Sample

def calm (createdAt : Timestamp) : Conditions := ⟨fun _ => false, false, createdAt⟩

/-- The process starts with two empty stores, and a trade is made. -/
def enqueuing : List SettlementEvent :=
  [.restart, .step 0 (calm 0), .step 0 (calm 0), .step 0 (calm 0), .step 0 (calm 0)] ++
  (opening ++ [ Action.placeOrder alice yesDto yesOrder 2 2
              , Action.placeOrder bob noDto noOrder 3 3 ]).map
    (fun a => SettlementEvent.action a fun _ => false) ++
  [.request (.tryMatchOrder noOrder trade), .step 0 (calm 4), .step 0 (calm 4)]

/-- The settlement handler fails once, which marks the trade as failed, so that the job fails
for good at the third attempt. -/
def failing : List SettlementEvent :=
  [ .attempt (buildJobId trade), .step 0 ⟨fun _ => false, true, 5⟩, .step 0 (calm 5)
  , .step 0 (calm 5)
  , .attempt (buildJobId trade), .step 0 (calm 6), .step 0 (calm 6), .step 0 (calm 6)
  , .attempt (buildJobId trade), .step 0 (calm 7), .step 0 (calm 7), .step 0 (calm 7) ]

/-- A retry rearms the trade and finds its job failed, but the process crashes before the
retry of the job. -/
def crashing : List SettlementEvent :=
  [ .request (.retryByTradeId trade), .step 0 (calm 8), .step 0 (calm 8), .step 0 (calm 8), .crash
  , .restart, .step 0 (calm 9), .step 0 (calm 9), .step 0 (calm 9), .step 0 (calm 9)
  , .step 0 (calm 9) ]

end Sample

/-- The trade of the sample waits for its settlement. -/
theorem pending_trade_has_job_sample : ∃ b : Settlement, ∃ trade ∈ b.db.trades.rows,
    trade.status = .PENDING_SETTLEMENT ∧
      ∃ job, b.queue (buildJobId trade.id) = some job ∧ job.state.runnable = true := by
  obtain ⟨b, hb, hp⟩ := reachable_of_playsTo
    (show playsTo (fun b e => !strands b e) Sample.enqueuing (fun b => b.rests &&
      b.db.trades.rows.any fun trade => trade.status = .PENDING_SETTLEMENT) = true by
      decide +kernel)
  simp only [Bool.and_eq_true, List.any_eq_true, decide_eq_true_eq] at hp
  obtain ⟨hrest, trade, htrade, hpending⟩ := hp
  have hcareful : carefulSettlement.Reachable b := by
    simpa only [carefulSettlement, Bool.not_eq_true'] using hb
  exact ⟨b, trade, htrade, hpending,
    pending_trade_has_job hcareful (atRest_of_rests hrest) htrade hpending⟩

/-- A crash between the commit of a retry and the retry of the failed job: after the restart
the trade is pending, and its job has failed. -/
theorem pending_trade_without_job : ¬ ∀ b, settlement.Reachable b → b.AtRest →
    ∀ trade ∈ b.db.trades.rows, trade.status = .PENDING_SETTLEMENT →
      ∃ job, b.queue (buildJobId trade.id) = some job ∧ job.state.runnable = true := by
  intro hall
  obtain ⟨b, hb, hp⟩ := reachable_of_playsTo
    (show playsTo (fun _ _ => true) (Sample.enqueuing ++ Sample.failing ++ Sample.crashing)
      (fun b => b.rests && b.db.trades.rows.any fun trade => trade.status = .PENDING_SETTLEMENT &&
        (b.queue (buildJobId trade.id)).any fun job => job.state = .failed) = true by
      decide +kernel)
  simp only [Bool.and_eq_true, List.any_eq_true, Option.any_eq_true, decide_eq_true_eq] at hp
  obtain ⟨hrest, trade, htrade, hpending, job, hjob, hfailed⟩ := hp
  obtain ⟨job', hjob', hrunnable⟩ := hall b hb.of_restrict (atRest_of_rests hrest) trade htrade
    hpending
  rw [hjob] at hjob'
  cases hjob'
  rw [hfailed] at hrunnable
  cases hrunnable

end OutcomeExchange
