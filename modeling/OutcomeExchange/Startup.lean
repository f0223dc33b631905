import OutcomeExchange.Coherence
import OutcomeExchange.OrderBookRebuild
import OutcomeExchange.StrandedSettlements

set_option autoImplicit false

/-! # Starting up

`onApplicationBootstrap` rebuilds the order books in Redis, reopens the orphans among the
orders, which are to be matched but belong to no trade, and enqueues the pending trades. It
takes the database as it finds it: the order books it leaves are those of the open orders,
the reopened ones among them, also where no run of the exchange could have led there. -/

namespace OutcomeExchange

open Txn Redis Jobs

/-! ## The three steps -/

structure Stores where
  db : Db
  redis : Store
  queue : Queue UuidString

/-- What the process meets: how PostgreSQL arranges the rows of a query without an `ORDER BY`,
what Redis replies to the `SCAN`s, and the trades for which adding a job fails. -/
structure Surroundings where
  orders : List Order → List Order
  trades : List Trade → List Trade
  orders_perm : ∀ l, (orders l).Perm l
  trades_perm : ∀ l, (trades l).Perm l
  replies : List ScanReply
  unreachable : Uuid → Bool

/-- The query for the open orders. -/
def openOrders (db : Db) : List Order := db.orders.rows.filter fun o => o.status = .OPEN

/-- `orphanOrders` is what the query for the orphans has found. -/
def recoverOrphanMatchPendingOrders (keyPrefix : String) (orphanOrders : List Order)
    (b : Stores) : Option Stores :=
  if orphanOrders.length = 0 then some b
  else
    match (reopenOrders orphanOrders).run (fun _ => false) b.db with
    | .error _ => none
    | .ok (_, db) =>
        let reopened := orphanOrders.map fun order => order.withStatus .OPEN
        some { b with db := db, redis := reopened.foldl (projectOpenOrder keyPrefix) b.redis }

/-- An error of the queue is logged, and the next trade is tried. -/
def recoverPendingSettlementTrades (unreachable : Uuid → Bool) (pendingTrades : List Trade)
    (queue : Queue UuidString) : Queue UuidString :=
  pendingTrades.foldl (fun queue trade =>
    if unreachable trade.id then queue else queue.add (buildJobId trade.id) trade.id) queue

/-- The bootstrap, with the calls of its `SCAN`s, while PostgreSQL and Redis answer. -/
def onApplicationBootstrap (keyPrefix : String) (c : Surroundings) (b : Stores) :
    Option (List ScanCall × Stores) := do
  let (calls, redis) ←
    rebuildFromOpenOrders keyPrefix (c.orders (openOrders b.db)) c.replies b.redis
  let b ← recoverOrphanMatchPendingOrders keyPrefix (c.orders (orphanOrders b.db))
    { b with redis := redis }
  return (calls, { b with
    queue := recoverPendingSettlementTrades c.unreachable (c.trades (pendingTrades b.db)) b.queue })

/-! ## What it should leave -/

/-- The order books are those of the open orders. -/
def BooksShow (keyPrefix : String) (db : Db) (redis : Store) : Prop :=
  ∀ marketId : Uuid, ∃ view, getOrderBook keyPrefix redis marketId = .ok view ∧
    view.marketId = marketId ∧ IsBook (ordersAt db.orders.rows marketId .YES) view.yes ∧
      IsBook (ordersAt db.orders.rows marketId .NO) view.no

structure Restored (keyPrefix : String) (c : Surroundings) (b t : Stores) : Prop where
  /-- the orphans are open, and nothing else in the database has changed -/
  reopened : StatusSet ((orphanOrders b.db).map Order.id) .OPEN b.db.orders t.db.orders
  db : t.db = { b.db with orders := t.db.orders }
  books : BooksShow keyPrefix t.db t.redis
  others : ∀ key, ¬ InProjection keyPrefix key → t.redis key = b.redis key
  /-- a pending trade without a job gets one, and no other job is touched -/
  enqueued : ∀ trade ∈ pendingTrades b.db, c.unreachable trade.id = false →
    b.queue (buildJobId trade.id) = none →
      t.queue (buildJobId trade.id) = some ⟨trade.id, .waiting, 0, 0⟩
  kept : ∀ jobId, (b.queue jobId ≠ none ∨ ∀ trade ∈ pendingTrades b.db,
    c.unreachable trade.id = false → buildJobId trade.id ≠ jobId) → t.queue jobId = b.queue jobId

/-! ## The orphans -/

section Orphans

variable {busy : RowId → Bool} {s : Db}

/-- Several orders are saved with a new status. -/
theorem run_saveOrders_status {st : OrderStatus} {orders : List Order}
    (hfound : ∀ o ∈ orders, s.orders.find? o.id = some o)
    (hdistinct : (orders.map Order.id).Nodup) :
    ∃ os, (saveOrders (orders.map fun o => o.withStatus st)).run busy s =
        .ok ((), { s with orders := os }) ∧
      StatusSet (orders.map Order.id) st s.orders os := by
  -- by induction on the orders that are saved
  induction orders generalizing s with
  | nil =>
      refine ⟨s.orders, rfl, fun id => ?_⟩
      simp
  | cons o orders ih =>
      obtain ⟨hnew, hrest⟩ := List.nodup_cons.mp hdistinct
      have ho : s.orders.find? o.id = some o := hfound o (List.mem_cons_self ..)
      obtain ⟨os, hos⟩ : ∃ os, s.orders.update? (o.withStatus st) = some os :=
        Table.exists_update (b := o) ho fun c hc => hc
      have hset := StatusSet.single ho hos
      have hleft : ∀ o' ∈ orders, os.find? o'.id = some o' := by
        intro o' ho'
        rw [hset.find?_not_mem fun hid => hnew ?_]
        · exact hfound o' (List.mem_cons_of_mem _ ho')
        · rw [← List.mem_singleton.mp hid]
          exact List.mem_map_of_mem ho'
      obtain ⟨os', hrun, hset'⟩ := @ih { s with orders := os } hleft hrest
      refine ⟨os', ?_, fun id => ?_⟩
      · rw [List.map_cons, saveOrders, Prog.run_bind (run_saveOrder hos)]
        exact hrun
      -- the order saved first is not saved again
      · rw [hset' id, hset id, List.map_cons]
        cases hid : s.orders.find? id with
        | none => rfl
        | some o' =>
            simp only [Option.map_some, List.mem_cons, List.not_mem_nil, or_false]
            by_cases hhead : id = o.id
            · rw [if_pos hhead, if_pos (Or.inl hhead), if_neg]
              rw [hhead]
              exact hnew
            · simp [hhead]

/-- The orphans are reopened together. -/
theorem run_reopenOrders {orders : List Order} (horphans : orders.Perm (orphanOrders s)) :
    ∃ os, (reopenOrders orders).run busy s = .ok ((), { s with orders := os }) ∧
      StatusSet (orders.map Order.id) .OPEN s.orders os := by
  refine run_saveOrders_status (fun o ho => ?_) ?_
  · exact Table.find?_key (List.mem_filter.mp (horphans.mem_iff.mp ho)).1
  · refine (horphans.map _).nodup_iff.mpr (List.Nodup.sublist ?_ (nodup_orderIds s.orders))
    exact List.filter_sublist.map _

/-- The open orders after that. -/
theorem openOrders_reopened {os : Table Order}
    (hset : StatusSet ((orphanOrders s).map Order.id) .OPEN s.orders os) :
    (openOrders { s with orders := os }).Perm
      (openOrders s ++ (orphanOrders s).map fun order => order.withStatus .OPEN) := by
  have hpending : ∀ {o}, o ∈ orphanOrders s → o ∈ s.orders.rows ∧ o.status = .MATCH_PENDING := by
    intro o ho
    have hmem := List.mem_filter.mp ho
    simp only [Bool.and_eq_true, decide_eq_true_eq] at hmem
    exact ⟨hmem.1, hmem.2.1⟩
  have hopen : ∀ {db : Db} {o}, o ∈ openOrders db ↔ o ∈ db.orders.rows ∧ o.status = .OPEN := by
    intro db o
    simp [openOrders]
  have hreopened : (((orphanOrders s).map fun order => order.withStatus .OPEN).map
      Order.id).Nodup := by
    rw [List.map_map]
    exact List.Nodup.sublist (List.filter_sublist.map _) (nodup_orderIds s.orders)
  -- an orphan is not open before
  have hdisjoint : (openOrders s).Disjoint
      ((orphanOrders s).map fun order => order.withStatus .OPEN) := by
    intro o ho hreopen
    obtain ⟨o', ho', rfl⟩ := List.mem_map.mp hreopen
    have heq : o'.withStatus .OPEN = o' :=
      s.orders.eq_of_key (hopen.mp ho).1 (hpending ho').1 rfl
    have hst := (hpending ho').2
    rw [← heq] at hst
    cases hst
  refine (List.perm_ext_iff_of_nodup ?_ ?_).mpr fun o => ?_
  · exact os.nodup_rows.sublist List.filter_sublist
  · exact (s.orders.nodup_rows.sublist List.filter_sublist).append (hreopened.of_map _) hdisjoint
  -- an open order was open before, or is one of the orphans
  · rw [hopen, List.mem_append, hopen, List.mem_map]
    constructor
    · rintro ⟨ho, hst⟩
      obtain ⟨o', ho', ⟨hid, rfl⟩ | ⟨-, rfl⟩⟩ := hset.find?_some (Table.find?_key ho)
      · obtain ⟨orphan, horphan, hkey⟩ := List.mem_map.mp hid
        have heq : orphan = o' := s.orders.eq_of_key (hpending horphan).1 (Table.mem_of_find? ho')
          (hkey.trans (Table.key_of_find? ho').symm)
        subst heq
        exact Or.inr ⟨_, horphan, rfl⟩
      · exact Or.inl ⟨Table.mem_of_find? ho', hst⟩
    · rintro (⟨ho, hst⟩ | ⟨orphan, horphan, rfl⟩)
      · have hout : o.id ∉ (orphanOrders s).map Order.id := by
          intro hid
          obtain ⟨orphan, horphan, hkey⟩ := List.mem_map.mp hid
          have heq := s.orders.eq_of_key (hpending horphan).1 ho hkey
          have hpend := (hpending horphan).2
          rw [heq, hst] at hpend
          cases hpend
        refine ⟨?_, hst⟩
        exact Table.mem_of_find? ((hset.find?_not_mem hout).trans (Table.find?_key ho))
      · refine ⟨?_, rfl⟩
        exact Table.mem_of_find? (hset.find?_mem (List.mem_map_of_mem horphan)
          (Table.find?_key (hpending horphan).1))

/-- None of them is left. -/
theorem orphanOrders_reopened {os : Table Order}
    (hset : StatusSet ((orphanOrders s).map Order.id) .OPEN s.orders os) :
    orphanOrders { s with orders := os } = [] := by
  refine List.filter_eq_nil_iff.mpr fun o ho horphan => ?_
  obtain ⟨o', ho', ⟨-, rfl⟩ | ⟨hid, rfl⟩⟩ := hset.find?_some (Table.find?_key ho)
  · simp at horphan
  · refine hid (List.mem_map.mpr ⟨o, ?_, rfl⟩)
    exact List.mem_filter.mpr ⟨Table.mem_of_find? ho', horphan⟩

theorem StatusSet.perm {ids ids' : List Uuid} {st : OrderStatus} {orders orders' : Table Order}
    (h : StatusSet ids st orders orders') (hperm : ids.Perm ids') :
    StatusSet ids' st orders orders' := by
  intro id
  rw [h id]
  simp only [hperm.mem_iff]

/-- The second step of the bootstrap, with or without orphans. -/
theorem recoverOrphanMatchPendingOrders_reopens {keyPrefix : String} {b : Stores}
    {orders : List Order} (horphans : orders.Perm (orphanOrders b.db)) :
    ∃ os, recoverOrphanMatchPendingOrders keyPrefix orders b = some { b with
        db := { b.db with orders := os }
        redis := (orders.map fun order => order.withStatus .OPEN).foldl
          (projectOpenOrder keyPrefix) b.redis } ∧
      StatusSet ((orphanOrders b.db).map Order.id) .OPEN b.db.orders os := by
  obtain ⟨os, hrun, hset⟩ := @run_reopenOrders (fun _ => false) b.db orders horphans
  unfold recoverOrphanMatchPendingOrders
  by_cases hnone : orders.length = 0
  · have hnil := List.eq_nil_of_length_eq_zero hnone
    subst hnil
    refine ⟨b.db.orders, by simp, ?_⟩
    rw [← horphans.nil_eq]
    intro id
    simp
  · rw [if_neg hnone, hrun]
    exact ⟨os, rfl, hset.perm (horphans.map _)⟩

end Orphans

/-! ## The jobs -/

section Jobs

variable {unreachable : Uuid → Bool} {trades : List Trade} {queue : Queue UuidString} {jobId : String}

theorem recoverPendingSettlementTrades_other (h : queue jobId ≠ none ∨ ∀ trade ∈ trades,
    unreachable trade.id = false → buildJobId trade.id ≠ jobId) :
    recoverPendingSettlementTrades unreachable trades queue jobId = queue jobId := by
  induction trades generalizing queue with
  | nil => rfl
  | cons trade trades ih =>
      have hrest : ∀ t ∈ trades, t ∈ trade :: trades := fun t ht => List.mem_cons_of_mem _ ht
      rw [recoverPendingSettlementTrades, List.foldl_cons]
      by_cases hout : unreachable trade.id = true
      · rw [if_pos hout]
        exact ih (h.imp_right fun hother t ht => hother t (hrest t ht))
      · rw [if_neg hout]
        -- the job is there already, or it is another one
        have hkept : queue.add (buildJobId trade.id) trade.id jobId = queue jobId := by
          by_cases hid : jobId = buildJobId trade.id
          · rcases h with hthere | hother
            · obtain ⟨job, hjob⟩ := Option.ne_none_iff_exists'.mp hthere
              rw [hid] at hjob
              rw [Queue.add_of_some hjob]
            · exact absurd hid.symm (hother trade (List.mem_cons_self ..) (by simpa using hout))
          · exact Queue.add_of_ne hid
        rw [← hkept]
        refine ih (h.imp (fun hthere => ?_) fun hother t ht => hother t (hrest t ht))
        rwa [hkept]

theorem recoverPendingSettlementTrades_job {trade : Trade} (ht : trade ∈ trades)
    (hreach : unreachable trade.id = false) (hnone : queue (buildJobId trade.id) = none) :
    recoverPendingSettlementTrades unreachable trades queue (buildJobId trade.id) =
      some ⟨trade.id, .waiting, 0, 0⟩ := by
  induction trades generalizing queue with
  | nil => cases ht
  | cons head trades ih =>
      rw [recoverPendingSettlementTrades, List.foldl_cons]
      by_cases hid : head.id = trade.id
      · rw [hid, hreach, if_neg (by decide)]
        have hadded : queue.add (buildJobId trade.id) trade.id (buildJobId trade.id) =
            some ⟨trade.id, .waiting, 0, 0⟩ := Queue.add_of_none hnone
        rw [← hadded]
        refine recoverPendingSettlementTrades_other (Or.inl ?_)
        rw [hadded]
        exact Option.some_ne_none _
      · have hmem : trade ∈ trades := by
          rcases List.mem_cons.mp ht with rfl | hmem
          · exact absurd rfl hid
          · exact hmem
        split
        · exact ih hmem hnone
        · have hne : buildJobId trade.id ≠ buildJobId head.id :=
            fun heq => hid (Uuid.string_injective (buildJobId_injective heq)).symm
          exact ih hmem ((Queue.add_of_ne hne).trans hnone)

end Jobs

/-! ## The bootstrap -/

theorem ordersAt_openOrders (db : Db) (marketId : Uuid) (side : OutcomeSide) :
    ordersAt (openOrders db) marketId side = ordersAt db.orders.rows marketId side := by
  rw [ordersAt, ordersAt, openOrders, List.filter_filter]
  refine List.filter_congr fun o _ => ?_
  by_cases hst : o.status = .OPEN
  · simp [hst]
  · simp [hst]

/-- It completes when the `SCAN`s end their cycle. -/
theorem onApplicationBootstrap_restored {keyPrefix : String} (hplain : PlainPrefix keyPrefix)
    {c : Surroundings} (hends : ∃ reply ∈ c.replies, reply.cursor = "0") {b : Stores}
    (hcolumns : ∀ o ∈ b.db.orders.rows, orderColumns o = true) :
    ∃ calls t, onApplicationBootstrap keyPrefix c b = some (calls, t) ∧
      (Promised calls → Restored keyPrefix c b t ∧ orphanOrders t.db = []) := by
  have hopen : ∀ {db : Db} {o}, o ∈ openOrders db → o ∈ db.orders.rows ∧ o.status = .OPEN := by
    intro db o ho
    simpa [openOrders] using ho
  have hfound := c.orders_perm (openOrders b.db)
  have horphans := c.orders_perm (orphanOrders b.db)
  have hids : ∀ {db : Db} {orders : List Order}, orders.Perm (openOrders db) →
      (orders.map Order.id).Nodup := by
    intro db orders hperm
    refine (hperm.map _).nodup_iff.mpr (List.Nodup.sublist ?_ (nodup_orderIds db.orders))
    exact List.filter_sublist.map _
  obtain ⟨calls, redis, hrebuild, hshows⟩ := rebuild_showsExactly (s := b.redis) hplain
    (fun o ho => (hopen (hfound.mem_iff.mp ho)).2) (hids hfound) hends
  obtain ⟨os, hrecover, hset⟩ :=
    @recoverOrphanMatchPendingOrders_reopens keyPrefix { b with redis := redis } _ horphans
  let t : Stores := {
    db := { b.db with orders := os }
    redis := ((c.orders (orphanOrders b.db)).map fun order => order.withStatus .OPEN).foldl
      (projectOpenOrder keyPrefix) redis
    queue := recoverPendingSettlementTrades c.unreachable (c.trades (pendingTrades b.db)) b.queue }
  refine ⟨calls, t, ?_, fun hpromised => ?_⟩
  · simp only [onApplicationBootstrap, hrebuild, hrecover, Option.bind_eq_bind, Option.bind_some,
      Option.pure_def]
    rfl
  obtain ⟨hexactly, hleft⟩ := hshows hpromised
  -- what Redis shows in the end, as the open rows of the new table
  have hperm : (c.orders (openOrders b.db) ++
      (c.orders (orphanOrders b.db)).map fun order => order.withStatus .OPEN).Perm
      (openOrders { b.db with orders := os }) :=
    (hfound.append (horphans.map _)).trans (openOrders_reopened hset).symm
  have hshown := hexactly.foldl (fun o ho => ?_) (hids hperm)
  · refine ⟨{ reopened := hset, db := rfl, books := ?_, others := ?_, enqueued := ?_, kept := ?_ },
      orphanOrders_reopened hset⟩
    · intro marketId
      have hcount : ∀ o ∈ openOrders { b.db with orders := os },
          Countable o.term := by
        intro o ho
        obtain ⟨o', ho', hsame⟩ := hset.find?_some (Table.find?_key (hopen ho).1)
        have hcount : Countable o'.term := countable_of_columns (hcolumns o' (Table.mem_of_find? ho'))
        rcases hsame with ⟨-, rfl⟩ | ⟨-, rfl⟩
        · exact hcount
        · exact hcount
      obtain ⟨view, hview, hid, hyes, hno⟩ := hshown.getOrderBook
        (fun o ho => (hopen (hperm.mem_iff.mp ho)).2) (hids hperm)
        (fun o ho => hcount o (hperm.mem_iff.mp ho)) marketId
      have hat : ∀ side, (ordersAt _ marketId side).Perm (ordersAt os.rows marketId side) :=
        fun side => (hperm.filter _).trans
          (List.Perm.of_eq (ordersAt_openOrders { b.db with orders := os } marketId side))
      exact ⟨view, hview, hid, hyes.perm (hat .YES), hno.perm (hat .NO)⟩
    · intro key hkey
      exact (foldl_projectOpenOrder_of_not_in hkey _).trans (hleft key hkey)
    · intro trade ht hreach hnone
      have hmem : trade ∈ c.trades (pendingTrades b.db) := (c.trades_perm _).mem_iff.mpr ht
      exact recoverPendingSettlementTrades_job hmem hreach hnone
    · intro jobId hother
      refine recoverPendingSettlementTrades_other (hother.imp_right fun hnot trade ht => ?_)
      exact hnot trade ((c.trades_perm _).mem_iff.mp ht)
  · obtain ⟨orphan, -, rfl⟩ := List.mem_map.mp ho
    rfl

/-- The columns of the orders are as before. -/
theorem Restored.columns {keyPrefix : String} {c : Surroundings} {b t : Stores}
    (h : Restored keyPrefix c b t) (hcolumns : ∀ o ∈ b.db.orders.rows, orderColumns o = true) :
    ∀ o ∈ t.db.orders.rows, orderColumns o = true := by
  intro o ho
  obtain ⟨o', ho', ⟨-, rfl⟩ | ⟨-, rfl⟩⟩ := h.reopened.find?_some (Table.find?_key ho)
  · exact hcolumns o' (Table.mem_of_find? ho')
  · exact hcolumns o (Table.mem_of_find? ho')

/-- Without orphans the database stays as it is. -/
theorem onApplicationBootstrap_db {keyPrefix : String} {c : Surroundings} {b t : Stores}
    {calls : List ScanCall} (h : onApplicationBootstrap keyPrefix c b = some (calls, t))
    (hnone : orphanOrders b.db = []) : t.db = b.db := by
  have hnil : c.orders (orphanOrders b.db) = [] := by
    rw [hnone]
    exact (c.orders_perm []).eq_nil
  obtain ⟨⟨calls', redis⟩, -, hrest⟩ := Option.bind_eq_some_iff.mp h
  simp only [recoverOrphanMatchPendingOrders, hnil, List.length_nil, if_true,
    Option.bind_eq_bind, Option.bind_some, Option.pure_def, Option.some.injEq,
    Prod.mk.injEq] at hrest
  rw [← hrest.2]

/-- Numbers can count the quantities at every price of the market. -/
def ExactQuantities (db : Db) (marketId : Uuid) : Prop :=
  ∀ side price, quantityAt (ordersAt db.orders.rows marketId side) price ≤ 2 ^ 53

/-- The levels at the prices of a book, if the quantities are exact. -/
theorem IsBook.eq_map {orders : List Order} {levels : List OrderBookLevel} {prices : List ℤ}
    (h : IsBook orders levels) (hexact : ∀ price, quantityAt orders price ≤ 2 ^ 53)
    (hprices : levels.map OrderBookLevel.priceCents = prices.map JsNumber.int) :
    levels = prices.map fun price => ⟨.int price, .int (quantityAt orders price)⟩ := by
  have hquantities : ∀ level ∈ levels, ∀ price, level.priceCents = .int price →
      level.quantity = .int (quantityAt orders price) :=
    fun level hmem price hprice => h.quantities level hmem price hprice (hexact price)
  clear h
  induction levels generalizing prices with
  | nil => simpa using hprices
  | cons level rest ih =>
      cases prices with
      | nil => simp at hprices
      | cons price prices =>
          rw [List.map_cons, List.map_cons] at hprices
          obtain ⟨hprice, hrest⟩ := List.cons.inj hprices
          have hquantity := hquantities level List.mem_cons_self price hprice
          have hlevel : level = ⟨.int price, .int (quantityAt orders price)⟩ := by
            rw [← hprice, ← hquantity]
          rw [List.map_cons, ← hlevel,
            ← ih hrest fun other hmem => hquantities other (List.mem_cons_of_mem _ hmem)]

/-- There is one book for a list of orders, if its quantities are exact. -/
theorem IsBook.unique {orders : List Order} {levels levels' : List OrderBookLevel}
    (h : IsBook orders levels) (h' : IsBook orders levels')
    (hexact : ∀ price, quantityAt orders price ≤ 2 ^ 53) : levels = levels' := by
  obtain ⟨prices, hprices, hdescending, hmem⟩ := h.prices
  obtain ⟨prices', hprices', hdescending', hmem'⟩ := h'.prices
  have hnodup : ∀ {l : List ℤ}, (l.Pairwise fun a b => b < a) → l.Nodup :=
    fun hl => hl.imp fun hlt heq => by simp [heq] at hlt
  have hperm : prices.Perm prices' := by
    refine (List.perm_ext_iff_of_nodup (hnodup hdescending) (hnodup hdescending')).mpr ?_
    intro price
    rw [hmem, hmem']
  have heq : prices = prices' := hperm.eq_of_pairwise
    (fun a b _ _ hab hba => absurd (hab.trans hba) (lt_irrefl _)) hdescending hdescending'
  rw [h.eq_map hexact hprices, h'.eq_map hexact hprices', heq]

/-- **The bootstrap restores the exchange**: from any database whose orders meet their checks,
and whatever was in Redis and in the queue, it completes when the `SCAN`s end their cycle. Then
no order is orphaned, Redis shows the open orders, those that have been reopened among them,
and another bootstrap would change neither the database nor an order book whose quantities are
exact, and no job where it reaches no other trade. -/
theorem bootstrap_restores (keyPrefix : String) (hplain : PlainPrefix keyPrefix) (c : Surroundings)
    (hends : ∃ reply ∈ c.replies, reply.cursor = "0") (b : Stores)
    (hcolumns : ∀ o ∈ b.db.orders.rows, orderColumns o = true) :
    ∃ calls t, onApplicationBootstrap keyPrefix c b = some (calls, t) ∧
      (Promised calls → Restored keyPrefix c b t ∧ orphanOrders t.db = [] ∧
        ∀ c' : Surroundings, (∃ reply ∈ c'.replies, reply.cursor = "0") →
          ∃ calls' t', onApplicationBootstrap keyPrefix c' t = some (calls', t') ∧
            (Promised calls' → t'.db = t.db ∧
              (∀ marketId : Uuid, ExactQuantities t.db marketId →
                getOrderBook keyPrefix t'.redis marketId =
                  getOrderBook keyPrefix t.redis marketId) ∧
              ((∀ id, c.unreachable id = true → c'.unreachable id = true) →
                t'.queue = t.queue))) := by
  obtain ⟨calls, t, hboot, hrestored⟩ := onApplicationBootstrap_restored hplain hends hcolumns
  refine ⟨calls, t, hboot, fun hpromised => ?_⟩
  obtain ⟨ht, hnone⟩ := hrestored hpromised
  refine ⟨ht, hnone, fun c' hends' => ?_⟩
  obtain ⟨calls', t', hboot', hrestored'⟩ :=
    onApplicationBootstrap_restored hplain hends' (ht.columns hcolumns)
  refine ⟨calls', t', hboot', fun hpromised' => ?_⟩
  obtain ⟨ht', -⟩ := hrestored' hpromised'
  have hdb := onApplicationBootstrap_db hboot' hnone
  refine ⟨hdb, fun marketId hexact => ?_, fun hreach => funext fun jobId => ?_⟩
  -- both bootstraps show the same open orders
  · obtain ⟨view, hview, hid, hyes, hno⟩ := ht.books marketId
    obtain ⟨view', hview', hid', hyes', hno'⟩ := ht'.books marketId
    rw [hdb] at hyes' hno'
    have heq : view' = view := by
      cases view
      cases view'
      simp only [OrderBookView.mk.injEq]
      exact ⟨hid'.trans hid.symm, hyes'.unique hyes (hexact .YES), hno'.unique hno (hexact .NO)⟩
    rw [hview, hview', heq]
  · refine ht'.kept jobId ?_
    by_cases hjob : t.queue jobId = none
    · -- the first bootstrap has tried every trade that the second one reaches
      refine Or.inr fun trade htrade hreached hid => ?_
      have hfirst : c.unreachable trade.id = false := by
        by_contra hout
        have hagain := hreach trade.id (by simpa using hout)
        rw [hreached] at hagain
        cases hagain
      have hpending : trade ∈ pendingTrades b.db := by
        rw [ht.db] at htrade
        exact htrade
      by_cases hbefore : b.queue (buildJobId trade.id) = none
      · have hadded := ht.enqueued trade hpending hfirst hbefore
        rw [hid, hjob] at hadded
        cases hadded
      · have hkept := ht.kept _ (Or.inl hbefore)
        rw [hid, hjob] at hkept
        rw [hid] at hbefore
        exact hbefore hkept.symm
    · exact Or.inl hjob

/-! ## A sample bootstrap -/

namespace Sample

def orphan : Order := ⟨noOrder, bob, market, .NO, 60, 5, 300, .MATCH_PENDING, "orphaned-no", 3⟩

def orphanedStores : Stores where
  db := { Db.empty with
    orders := {
      rows := [⟨yesOrder, alice, market, .YES, 45, 5, 225, .OPEN, "open-yes", 2⟩, orphan]
      distinct := List.pairwise_pair.mpr (by decide +kernel) } }
  redis := Store.empty
  queue := Queue.empty

def emptyScan : Surroundings where
  orders := id
  trades := id
  orders_perm _ := List.Perm.refl _
  trades_perm _ := List.Perm.refl _
  replies := [⟨"0", []⟩]
  unreachable _ := false

end Sample

theorem bootstrap_restores_sample : ∃ calls t,
    onApplicationBootstrap "olx" Sample.emptyScan Sample.orphanedStores = some (calls, t) ∧
      Sample.orphan.withStatus .OPEN ∈ t.db.orders.rows ∧
      ∃ view, getOrderBook "olx" t.redis Sample.market = .ok view ∧
        IsBook (ordersAt t.db.orders.rows Sample.market .NO) view.no := by
  obtain ⟨calls, t, hboot, hresult⟩ := bootstrap_restores "olx" Sample.plainPrefix_olx
    Sample.emptyScan
    ⟨_, List.mem_singleton_self _, rfl⟩ Sample.orphanedStores (by decide +kernel)
  have hcalls : calls = [⟨"0", getOrderBookScanPattern "olx", Store.empty, ⟨"0", []⟩⟩] := by
    have hsteps := hboot
    unfold onApplicationBootstrap at hsteps
    obtain ⟨⟨calls', redis⟩, hrebuild, hrest⟩ := Option.bind_eq_some_iff.mp hsteps
    obtain ⟨b, -, hend⟩ := Option.bind_eq_some_iff.mp hrest
    simp only [Option.pure_def, Option.some.injEq, Prod.mk.injEq] at hend
    simp only [rebuildFromOpenOrders, deleteProjectionKeys, Sample.emptyScan,
      deleteProjectionKeysFrom] at hrebuild
    simp at hrebuild
    rw [← hend.1, ← hrebuild.1]
    rfl
  obtain ⟨hrestored, -⟩ := hresult (by rw [hcalls]; exact Sample.promised_empty)
  obtain ⟨view, hview, -, -, hno⟩ := hrestored.books Sample.market
  refine ⟨calls, t, hboot, ?_, view, hview, hno⟩
  have horphan : t.db.orders.find? Sample.noOrder = some (Sample.orphan.withStatus .OPEN) :=
    hrestored.reopened.find?_mem (by decide +kernel) (by decide +kernel)
  exact Table.mem_of_find? horphan

end OutcomeExchange
