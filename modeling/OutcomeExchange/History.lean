import OutcomeExchange.Runs
import OutcomeExchange.Sql.Paging

set_option autoImplicit false

/-! # Paging through a history

`getEntriesForUser` and `getMyOrders`: the entries of a wallet and the orders of a user, newest
first, one page at a time. Both sort by `created_at` alone, which the rows of one transaction
share; `order` is what PostgreSQL makes of that in one query. -/

namespace OutcomeExchange

open Txn Sql

/-- With the values of `DEFAULT_PAGINATION`. -/
structure PaginationParams where
  limit : ℕ := 100
  offset : ℕ := 0

/-- One of the orders that `ORDER BY created_at DESC` allows. -/
def OrdersBy {α : Type} (createdAt : α → Timestamp) (order : List α → List α) : Prop :=
  ∀ rows, Arranges createdAt rows (order rows)

def getEntriesForUser (order : List WalletEntry → List WalletEntry) (db : Db) (userId : Uuid)
    (pagination : PaginationParams) : Except Err (List WalletEntry) :=
  match db.ledger.wallets.find? userId with
  | none => .error (.notFound "Wallet not found for user")
  | some wallet =>
      .ok (page pagination.limit pagination.offset (order (db.ledger.entriesOf wallet)))

/-- The orders of a user, in commit order. -/
def Db.ordersOf (db : Db) (userId : Uuid) : List Order :=
  db.orders.rows.filter fun o => o.userId = userId

def getMyOrders (order : List Order → List Order) (db : Db) (userId : Uuid)
    (pagination : PaginationParams) : List Order :=
  page pagination.limit pagination.offset (order (db.ordersOf userId))

/-- What a page of entries can be. -/
def EntriesPage (db : Db) (userId : Uuid) (limit offset : ℕ) (answer : List WalletEntry) : Prop :=
  ∃ order, OrdersBy WalletEntry.createdAt order ∧
    getEntriesForUser order db userId ⟨limit, offset⟩ = .ok answer

/-- What a page of orders can be. -/
def OrdersPage (db : Db) (userId : Uuid) (limit offset : ℕ) (answer : List Order) : Prop :=
  ∃ order, OrdersBy Order.createdAt order ∧
    getMyOrders order db userId ⟨limit, offset⟩ = answer

section Pages

variable {db : Db} {userId : Uuid} {limit offset : ℕ} {wallet : Wallet}

/-- Every arrangement of the rows is what some order makes of them. -/
theorem exists_ordersBy {α : Type} {createdAt : α → Timestamp} {rows arranged : List α}
    (h : Arranges createdAt rows arranged) : ∃ order, OrdersBy createdAt order ∧ order rows = arranged := by
  classical
  refine ⟨fun other => if other = rows then arranged
    else (exists_arranges createdAt other).choose, fun other => ?_, if_pos rfl⟩
  by_cases heq : other = rows
  · subst heq
    simp only [if_true]
    exact h
  · simp only [if_neg heq]
    exact (exists_arranges createdAt other).choose_spec

theorem entriesPage_iff (hwallet : db.ledger.wallets.find? userId = some wallet)
    (answer : List WalletEntry) : EntriesPage db userId limit offset answer ↔
      Answers WalletEntry.createdAt (db.ledger.entriesOf wallet) limit offset answer := by
  constructor
  · rintro ⟨order, horder, hanswer⟩
    simp only [getEntriesForUser, hwallet, Except.ok.injEq] at hanswer
    exact ⟨order (db.ledger.entriesOf wallet), horder _, hanswer.symm⟩
  · rintro ⟨arranged, harranged, rfl⟩
    obtain ⟨order, horder, heq⟩ := exists_ordersBy harranged
    refine ⟨order, horder, ?_⟩
    simp only [getEntriesForUser, hwallet, heq]

theorem ordersPage_iff (answer : List Order) : OrdersPage db userId limit offset answer ↔
    Answers Order.createdAt (db.ordersOf userId) limit offset answer := by
  constructor
  · rintro ⟨order, horder, rfl⟩
    exact ⟨order (db.ordersOf userId), horder _, rfl⟩
  · rintro ⟨arranged, harranged, rfl⟩
    obtain ⟨order, horder, heq⟩ := exists_ordersBy harranged
    exact ⟨order, horder, by rw [getMyOrders, heq]⟩

/-- The rows of a table differ from each other. -/
theorem Table.rows_nodup {α κ : Type} [Row α κ] (t : Table α) : t.rows.Nodup :=
  t.distinct.imp fun h heq => h (Row.clash_of_key (by rw [heq]))

theorem entriesPage_eq (hwallet : db.ledger.wallets.find? userId = some wallet) :
    EntriesPage db userId limit =
      Answers WalletEntry.createdAt (db.ledger.entriesOf wallet) limit := by
  funext offset answer
  exact propext (entriesPage_iff hwallet answer)

theorem ordersPage_eq : OrdersPage db userId limit =
    Answers Order.createdAt (db.ordersOf userId) limit := by
  funext offset answer
  exact propext (ordersPage_iff answer)

/-- **The pages partition the history exactly where no page begins between two rows of one
`created_at`**: only then does putting the pages together list every row once and newest first,
whatever PostgreSQL makes of the equal keys in each query. -/
theorem pages_partition_history (db : Db) (userId : Uuid) {limit : ℕ} (hlimit : 0 < limit) :
    (∀ wallet, db.ledger.wallets.find? userId = some wallet →
      ((∀ listed, Pages (EntriesPage db userId limit) limit 0 listed →
          Arranges WalletEntry.createdAt (db.ledger.entriesOf wallet) listed) ↔
        ¬ Straddles WalletEntry.createdAt (db.ledger.entriesOf wallet) limit)) ∧
      ((∀ listed, Pages (OrdersPage db userId limit) limit 0 listed →
          Arranges Order.createdAt (db.ordersOf userId) listed) ↔
        ¬ Straddles Order.createdAt (db.ordersOf userId) limit) := by
  constructor
  · intro wallet hwallet
    rw [entriesPage_eq hwallet]
    exact pages_arrange_iff hlimit ((Table.rows_nodup db.ledger.entries).filter _)
  · rw [ordersPage_eq]
    exact pages_arrange_iff hlimit ((Table.rows_nodup db.orders).filter _)

/-- In particular, paging is right for every limit where no two rows share their `created_at`. -/
theorem pages_partition_of_distinct (db : Db) (userId : Uuid)
    (h : ((db.ordersOf userId).map Order.createdAt).Nodup) {limit : ℕ} (hlimit : 0 < limit)
    {listed : List Order} (hpages : Pages (OrdersPage db userId limit) limit 0 listed) :
    Arranges Order.createdAt (db.ordersOf userId) listed := by
  rw [ordersPage_eq] at hpages
  exact (pages_arrange_iff hlimit ((Table.rows_nodup db.orders).filter _)).mpr
    (not_straddles_of_distinct h limit) listed hpages

end Pages

/-! ## A trade between two orders of one user -/

namespace Sample

/-- Both debits of the settlement are entries of Alice's wallet. -/
def ownTrade : List Action :=
  [ .createWalletForUser alice alice
  , .createMarket 1000 market 0
  , .deposit alice (depositDto "own-trade-1" (by decide) (by decide)) 1
  , .placeOrder alice yesDto yesOrder 2 2
  , .placeOrder alice noDto noOrder 3 3
  , .tryMatchOrder noOrder trade
  , .handleSettlement trade 4 ]

/-- The debits fill the first two positions of the history. -/
def debitsFirst (db : Db) : Bool :=
  match db.ledger.wallets.find? alice with
  | none => false
  | some wallet =>
      above WalletEntry.createdAt (db.ledger.entriesOf wallet) 4 = 0 &&
        atLeast WalletEntry.createdAt (db.ledger.entriesOf wallet) 4 = 2

theorem exists_debitsFirst :
    ∃ db, exchange.Reachable db ∧ ∃ wallet, db.ledger.wallets.find? alice = some wallet ∧
      above WalletEntry.createdAt (db.ledger.entriesOf wallet) 4 = 0 ∧
      atLeast WalletEntry.createdAt (db.ledger.entriesOf wallet) 4 = 2 := by
  have hleads : leads (fun _ _ => true) ownTrade debitsFirst = true := by decide +kernel
  obtain ⟨db, hdb, hp⟩ := exchange_of_leads (C := fun _ _ => True) (fun _ _ _ => trivial) hleads
  refine ⟨db, hdb.of_restrict, ?_⟩
  unfold debitsFirst at hp
  split at hp
  · cases hp
  · rename_i wallet hwallet
    rw [Bool.and_eq_true, decide_eq_true_eq, decide_eq_true_eq] at hp
    exact ⟨wallet, hwallet, hp⟩

end Sample

theorem pages_partition_history_of_two :
    ∃ db, exchange.Reachable db ∧ ∃ wallet, db.ledger.wallets.find? Sample.alice = some wallet ∧
      ((∀ listed, Pages (EntriesPage db Sample.alice 2) 2 0 listed →
          Arranges WalletEntry.createdAt (db.ledger.entriesOf wallet) listed) ↔
        ¬ Straddles WalletEntry.createdAt (db.ledger.entriesOf wallet) 2) := by
  obtain ⟨db, hdb, wallet, hwallet, -, -⟩ := Sample.exists_debitsFirst
  exact ⟨db, hdb, wallet, hwallet,
    (pages_partition_history db Sample.alice (show 0 < 2 by decide)).1 wallet hwallet⟩

/-- With one entry on a page, one debit of a settlement can be listed twice, and the other not at
all. -/
theorem own_trade_listed_twice :
    ∃ db, exchange.Reachable db ∧ ∃ wallet, db.ledger.wallets.find? Sample.alice = some wallet ∧
      ∃ listed, Pages (EntriesPage db Sample.alice 1) 1 0 listed ∧
        ¬ Arranges WalletEntry.createdAt (db.ledger.entriesOf wallet) listed := by
  obtain ⟨db, hdb, wallet, hwallet, habove, hatLeast⟩ := Sample.exists_debitsFirst
  have hstraddles : Straddles WalletEntry.createdAt (db.ledger.entriesOf wallet) 1 :=
    ⟨4, 1, by omega, by omega⟩
  obtain ⟨listed, hpages, htwice⟩ := exists_pages_twice Nat.one_pos hstraddles
  refine ⟨db, hdb, wallet, hwallet, listed, ?_, fun harranges => htwice ?_⟩
  · rw [entriesPage_eq hwallet]
    exact hpages
  · exact harranges.perm.nodup_iff.mpr ((Table.rows_nodup db.ledger.entries).filter _)

end OutcomeExchange
