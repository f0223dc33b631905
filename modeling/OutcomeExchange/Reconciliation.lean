import Mathlib
import OutcomeExchange.Runs
import OutcomeExchange.Txn.Journal

set_option autoImplicit false

/-! # Reconciliation of the wallets

The stored balances of a wallet are the effects of its entries, folded from zero, and
were never negative. `WalletTx` describes the transactions for which this is proved: any
program in which the wallet tables are only written by the methods of `WalletService`,
whatever else it reads, locks or writes. Every action of the exchange is such a program
(`Action.walletTx`). -/

namespace OutcomeExchange

open Txn

/-! ## The invariant -/

/-- What an entry adds to the available and the reserved balance. -/
def WalletEntry.effect (e : WalletEntry) : ℤ × ℤ := e.entryType.effect e.amountCents

/-- The stored balances of a wallet. -/
def Wallet.balances (w : Wallet) : ℤ × ℤ := (w.availableBalanceCents, w.reservedBalanceCents)

theorem Wallet.balances_moved (w : Wallet) (entryType : WalletEntryType) (amount : ℤ) :
    (w.moved entryType amount).balances = w.balances + entryType.effect amount := rfl

/-- Every wallet is the fold of its journal, which is solvent. -/
structure Ledger.Reconciled (L : Ledger) : Prop where
  balances : ∀ {u w}, L.wallets.find? u = some w → balance WalletEntry.effect (L.history u) = w.balances
  solvent : ∀ u, Solvent WalletEntry.effect (L.history u)

namespace Ledger.Reconciled

theorem empty : Ledger.empty.Reconciled where
  balances h := by cases h
  solvent _ := solvent_nil

/-- A posting moves the balances by the effect of the entry that it appends. -/
theorem posted {L L' : Ledger} {params : MutateWalletParams} {w : Wallet} {a : ℤ}
    (h : L.Reconciled) (hp : Posted params w a L L') : L'.Reconciled := by
  have hbal := h.balances hp.wallet
  have heff : (params.entry w.id a).effect = params.entryType.effect a := rfl
  refine ⟨fun {u v} hv => ?_, fun u => ?_⟩
  · rw [hp.find?_wallet] at hv
    by_cases hu : u = params.userId
    · subst hu
      rw [if_pos rfl] at hv
      cases hv
      rw [hp.history_self, balance_concat, hbal, heff, Wallet.balances_moved]
    · rw [if_neg hu] at hv
      rw [hp.history_of_ne hu]
      exact h.balances hv
  · by_cases hu : u = params.userId
    · subst hu
      rw [hp.history_self]
      refine (h.solvent _).concat ?_
      rw [hbal, heff, ← Wallet.balances_moved]
      exact ⟨hp.available_nonneg, hp.reserved_nonneg⟩
    · rw [hp.history_of_ne hu]
      exact h.solvent u

theorem mutated {L L' : Ledger} {params : MutateWalletParams}
    (h : L.Reconciled) (hm : Mutated params L L') : L'.Reconciled := by
  cases hm with
  | replay used same =>
      rw [same]
      exact h
  | posted hp => exact h.posted hp

/-- A new wallet is empty and has no entries. -/
theorem insertWallet {L L' : Ledger} {walletId userId : Uuid} (h : L.Reconciled)
    (hin : L.insertWallet ⟨walletId, userId, 0, 0⟩ = .ok L') : L'.Reconciled := by
  refine ⟨fun {u w} hw => ?_, fun u => ?_⟩
  · rw [Ledger.find?_insertWallet hin] at hw
    rw [Ledger.history_insertWallet hin]
    by_cases hu : userId = u
    · rw [if_pos hu] at hw ⊢
      cases hw
      rfl
    · rw [if_neg hu] at hw ⊢
      exact h.balances hw
  · rw [Ledger.history_insertWallet hin]
    by_cases hu : userId = u
    · rw [if_pos hu]
      exact solvent_nil
    · rw [if_neg hu]
      exact h.solvent u

end Ledger.Reconciled

/-! ## Transactions that use the wallet service -/

/-- A transaction that writes the wallet tables through `WalletService` only. -/
inductive WalletTx : {α : Type} → Tx α → Prop
  | deposit (userId : Uuid) (amountCents : JsNumber) (idempotencyKey : String) (now : Timestamp) :
      WalletTx (deposit userId amountCents idempotencyKey now)
  | withdraw (userId : Uuid) (amountCents : JsNumber) (idempotencyKey : String) (now : Timestamp) :
      WalletTx (withdraw userId amountCents idempotencyKey now)
  | reserve (userId : Uuid) (amountCents : JsNumber) (idempotencyKey referenceId : String)
      (now : Timestamp) : WalletTx (reserve userId amountCents idempotencyKey referenceId now)
  | release (userId : Uuid) (amountCents : JsNumber) (idempotencyKey referenceId : String)
      (now : Timestamp) : WalletTx (release userId amountCents idempotencyKey referenceId now)
  | settleDebit (userId : Uuid) (amountCents : JsNumber) (idempotencyKey referenceId : String)
      (now : Timestamp) : WalletTx (settleDebit userId amountCents idempotencyKey referenceId now)
  | settleCredit (userId : Uuid) (amountCents : JsNumber) (idempotencyKey referenceId : String)
      (now : Timestamp) : WalletTx (settleCredit userId amountCents idempotencyKey referenceId now)
  /-- the procedure behind the six -/
  | mutate (params : MutateWalletParams) : WalletTx (mutateWallet params)
  | createWallet (userId walletId : Uuid) : WalletTx (createWalletForUser userId walletId)
  | pure {α : Type} (a : α) : WalletTx (pure a)
  | throw {α : Type} (e : Err) : WalletTx (Prog.throw e : Tx α)
  | bind {α β : Type} {p : Tx α} {f : α → Tx β} (hp : WalletTx p) (hf : ∀ a, WalletTx (f a)) :
      WalletTx (p >>= f)
  | forUpdate (r : RowId) : WalletTx (Prog.forUpdate r : Tx (dbStore.Slice r))
  | query {α : Type} (f : Db → α) : WalletTx (Prog.query f)
  | skipLocked (q : Query dbStore) : WalletTx (Prog.skipLocked q)
  /-- a write of other tables -/
  | save (u : Update dbStore Err) (h : ∀ s t, u.apply s = .ok t → t.ledger = s.ledger) :
      WalletTx (Prog.save u)

/-- **Every such transaction keeps the wallets reconciled**, alone and among others. -/
theorem WalletTx.reconciled {m : Mode RowId} {α : Type} {p : Tx α} (hp : WalletTx p) {s t : Db}
    {a : α} (hs : s.ledger.Reconciled) (h : Exec m p s a t) : t.ledger.Reconciled := by
  -- by induction on how the transaction is put together
  induction hp generalizing s t with
  | deposit | withdraw | reserve | release | settleDebit | settleCredit =>
      obtain ⟨L, ht, hm⟩ := exec_movement h
      subst ht
      exact hs.mutated hm
  | mutate params =>
      obtain ⟨L, ht, hm⟩ := exec_mutateWallet h
      subst ht
      exact hs.mutated hm
  | createWallet userId walletId =>
      rcases exec_createWalletForUser h with rfl | ⟨L, hL, rfl⟩
      · exact hs
      · exact hs.insertWallet hL
  | pure b =>
      obtain ⟨-, rfl⟩ := exec_pure.mp h
      exact hs
  | throw e => exact (exec_throw.mp h).elim
  | bind hp hf ihp ihf =>
      obtain ⟨b, s₁, h₁, h₂⟩ := exec_bind.mp h
      exact ihf b (ihp hs h₁) h₂
  | forUpdate r =>
      obtain ⟨rfl, -⟩ := exec_forUpdate.mp h
      exact hs
  | query f =>
      obtain ⟨rfl, -⟩ := exec_query.mp h
      exact hs
  | skipLocked q =>
      obtain ⟨rfl, -⟩ := exec_skipLocked.mp h
      exact hs
  | save u hu =>
      rw [hu s t (exec_save.mp h)]
      exact hs

/-! ## The actions of the exchange use the wallet service -/

section Actions

theorem WalletTx.ite {α : Type} {c : Prop} [Decidable c] {p q : Tx α} (hp : WalletTx p)
    (hq : WalletTx q) : WalletTx (if c then p else q) := by
  by_cases hc : c
  · rw [if_pos hc]
    exact hp
  · rw [if_neg hc]
    exact hq

theorem WalletTx.write {α : Type} [Row α Uuid] (T : TableOf α) (k : Uuid)
    (op : Table α → Except Err (Table α)) (h : TouchesOnly k op)
    (hT : ∀ t db, (T.set t db).ledger = db.ledger) : WalletTx (Prog.save (T.write k op h)) := by
  refine .save _ fun s t hst => ?_
  obtain ⟨u, -, rfl⟩ := TableOf.write_apply.mp hst
  exact hT u s

theorem walletTx_saveMarket (x : Market) : WalletTx (saveMarket x) :=
  .write marketsTable _ _ _ fun _ _ => rfl

theorem walletTx_insertMarket (x : Market) : WalletTx (insertMarket x) :=
  .write marketsTable _ _ _ fun _ _ => rfl

theorem walletTx_saveOrder (x : Order) : WalletTx (saveOrder x) :=
  .write ordersTable _ _ _ fun _ _ => rfl

theorem walletTx_insertOrder (x : Order) : WalletTx (insertOrder x) :=
  .write ordersTable _ _ _ fun _ _ => rfl

theorem walletTx_saveTrade (x : Trade) : WalletTx (saveTrade x) :=
  .write tradesTable _ _ _ fun _ _ => rfl

theorem walletTx_insertTrade (x : Trade) : WalletTx (insertTrade x) :=
  .write tradesTable _ _ _ fun _ _ => rfl

theorem walletTx_insertOutcomes (os : List Outcome) : WalletTx (insertOutcomes os) :=
  .save _ fun _ _ h => by cases h; rfl

theorem walletTx_saveOrders (orders : List Order) : WalletTx (saveOrders orders) := by
  induction orders with
  | nil => exact .pure ()
  | cons order orders ih => exact .bind (walletTx_saveOrder order) fun _ => ih

theorem walletTx_closeExpired (now : Timestamp) (ids : List Uuid) :
    WalletTx (closeExpired now ids) := by
  induction ids with
  | nil => exact .pure 0
  | cons id ids ih =>
      refine .bind (.forUpdate (RowId.market id)) fun o => ?_
      cases o with
      | none => exact ih
      | some market =>
          exact .ite (.bind (walletTx_saveMarket _) fun _ => .bind ih fun _ => .pure _) ih

theorem walletTx_creditWinners (market : Market) (winningSide : OutcomeSide) (orders : List Order)
    (createdAt : Timestamp) (trades : List Trade) :
    WalletTx (creditWinners market winningSide orders createdAt trades) := by
  induction trades with
  | nil => exact .pure ()
  | cons trade rest ih =>
      rw [creditWinners]
      cases orders.find? (fun order => order.id = trade.orderOn winningSide) with
      | none => exact .throw _
      | some winner =>
          exact .ite (.throw _) (.bind (.settleCredit _ _ _ _ _) fun _ => ih)

theorem walletTx_getOpenMarket (marketId : Uuid) (now : Timestamp) :
    WalletTx (getOpenMarketForOrderPlacement marketId now) := by
  refine .bind (.forUpdate (RowId.market marketId)) fun o => ?_
  cases o with
  | none => exact .throw _
  | some market => exact .ite (.throw _) (.ite (.throw _) (.pure _))

theorem walletTx_findCounterparty (order : Order) : WalletTx (findCounterparty order) := by
  refine .bind (.skipLocked _) fun o => ?_
  match o with
  | none => exact .pure _
  | some (.order id) => exact .forUpdate (RowId.order id)
  | some (.market id) => exact .pure _
  | some (.trade id) => exact .pure _
  | some (.wallet id) => exact .pure _

/-- The second half of the settlement transactions. -/
theorem walletTx_run (v : TradeMove) (trade : Trade) : WalletTx (v.run trade) := by
  refine .bind (.forUpdate (RowId.order _)) fun oy => .bind (.forUpdate (RowId.order _)) fun on => ?_
  cases oy with
  | none => exact .throw _
  | some y =>
      cases on with
      | none => exact .throw _
      | some n =>
          dsimp only
          cases v.refuse y n with
          | some e => exact .throw _
          | none =>
              refine .bind (.mutate _) fun _ => .bind (.mutate _) fun _ => .ite ?_ ?_
              · exact .bind (walletTx_saveTrade _) fun _ => .bind (walletTx_saveOrders _) fun _ =>
                  .pure _
              · exact .bind (walletTx_saveOrders _) fun _ => .bind (walletTx_saveTrade _) fun _ =>
                  .pure _

theorem WalletTx.discard {α : Type} {p : Tx α} (hp : WalletTx p) : WalletTx (Tx.discard p) :=
  .bind hp fun _ => .pure ()

/-- **Every action writes the wallet tables through the wallet service only.** -/
theorem Action.walletTx (a : Action) : WalletTx a.prog := by
  cases a with
  | createWalletForUser userId walletId => exact .discard (.createWallet _ _)
  | deposit userId dto createdAt => exact .discard (.deposit _ _ _ _)
  | withdraw userId dto createdAt => exact .discard (.withdraw _ _ _ _)
  | createMarket closesAt marketId now =>
      exact .discard (.ite (.throw _) (.bind (walletTx_insertMarket _) fun _ =>
        .bind (walletTx_insertOutcomes _) fun _ => .pure _))
  | closeMarket marketId now =>
      refine .discard (.bind (.forUpdate (RowId.market marketId)) fun o => ?_)
      cases o with
      | none => exact .throw _
      | some market =>
          exact .ite (.throw _) (.ite (.pure _) (.bind (walletTx_saveMarket _) fun _ => .pure _))
  | closeExpiredMarkets now => exact .discard (.bind (.query _) fun ids => walletTx_closeExpired now ids)
  | resolveMarket marketId winningSide createdAt =>
      refine .discard (.bind (.forUpdate (RowId.market marketId)) fun o => ?_)
      cases o with
      | none => exact .throw _
      | some market =>
          refine .ite (.throw _) (.bind (.query _) fun _ => .ite (.throw _) ?_)
          refine .bind (.query _) fun _ => .ite (.throw _) (.bind (.query _) fun trades => ?_)
          exact .bind (.query _) fun orders => .bind (walletTx_creditWinners _ _ _ _ _) fun _ =>
            .bind (walletTx_saveMarket _) fun _ => .pure _
  | placeOrder userId dto orderId now createdAt =>
      refine .discard (.ite (.throw _)
        (.bind (.ite (.throw _) (.query _)) fun o => ?_))
      cases o with
      | some existing => exact .pure _
      | none =>
          exact .bind (walletTx_getOpenMarket _ _) fun _ => .bind (walletTx_insertOrder _) fun _ =>
            .bind (.reserve _ _ _ _ _) fun _ => .pure _
  | cancelOrder userId orderId createdAt =>
      refine .discard (.bind (.forUpdate (RowId.order orderId)) fun o => ?_)
      cases o with
      | none => exact .throw _
      | some order =>
          exact .ite (.throw _) (.ite (.throw _) (.bind (walletTx_saveOrder _) fun _ =>
            .bind (.release _ _ _ _ _) fun _ => .pure _))
  | tryMatchOrder orderId tradeId =>
      refine .discard (.bind (.forUpdate (RowId.order orderId)) fun o => ?_)
      cases o with
      | none => exact .pure _
      | some order =>
          refine .ite (.pure _) (.bind (walletTx_findCounterparty _) fun oc => ?_)
          cases oc with
          | none => exact .pure _
          | some counterparty =>
              exact .bind (walletTx_saveOrders _) fun _ => .bind (walletTx_insertTrade _) fun _ =>
                .pure _
  | failPendingTradeAndReleaseFunds tradeId createdAt =>
      refine .discard (.bind (.forUpdate (RowId.trade tradeId)) fun o => ?_)
      cases o with
      | none => exact .pure _
      | some trade => exact .ite (.pure _) (walletTx_run _ _)
  | handleSettlement tradeId createdAt =>
      refine .discard (.bind (.forUpdate (RowId.trade tradeId)) fun o => ?_)
      cases o with
      | none => exact .pure _
      | some trade => exact .ite (.throw _) (.ite (.pure _) (walletTx_run _ _))
  | markSettlementFailure tradeId createdAt =>
      refine .discard (.bind (.forUpdate (RowId.trade tradeId)) fun o => ?_)
      cases o with
      | none => exact .pure _
      | some trade => exact .ite (.pure _) (walletTx_run _ _)
  | prepareTradeForRetry tradeId createdAt =>
      refine .discard (.bind (.forUpdate (RowId.trade tradeId)) fun o => ?_)
      cases o with
      | none => exact .throw _
      | some trade =>
          exact .ite (.pure _) (.ite (.throw _) (.bind (walletTx_run _ _) fun _ => .pure _))
  | reopenOrders orders => exact walletTx_saveOrders _

end Actions

/-! ## The wallets of every interleaving -/

theorem reconciled_of_rowLock {κ : Type} {body : κ → Tx Unit}
    {start : Db → κ → Prop} {init : Db → Prop} (hbody : ∀ k, WalletTx (body k))
    (hinit : ∀ s, init s → s.ledger = Ledger.empty) {c : Conf dbStore Err Unit κ}
    (h : (rowLock body start init).Reachable c) : c.committed.ledger.Reconciled := by
  refine (Conf.invariant (I := fun s => s.ledger.Reconciled) ?_ ?_ h).1
  · intro s hs
    rw [hinit s hs]
    exact Ledger.Reconciled.empty
  · intro _ k s _ t _ _ hs hexec
    exact (hbody k).reconciled hs hexec

/-- Any number of sessions run transactions that use the wallet service, interleaved
under row locks, from a database without wallets; any session may be aborted. -/
def walletSystem : System (Conf dbStore Err Unit {p : Tx Unit // WalletTx p})
    (Event {p : Tx Unit // WalletTx p}) :=
  rowLock (fun p => p.1) (fun _ _ => True) (fun s => s.ledger = Ledger.empty)

theorem reconciled_of_walletSystem {c : Conf dbStore Err Unit {p : Tx Unit // WalletTx p}}
    (h : walletSystem.Reachable c) : c.committed.ledger.Reconciled :=
  reconciled_of_rowLock (fun p => p.2) (fun _ hs => hs) h

theorem reconciled_of_interleaved {A : Action → Prop} {c : Conf dbStore Err Unit Action}
    (h : (interleaved A).Reachable c) : c.committed.ledger.Reconciled :=
  reconciled_of_rowLock Action.walletTx (fun s hs => by rw [hs]; rfl) h

/-- No two entries of a wallet share an idempotency key. -/
theorem Ledger.keys_distinct (L : Ledger) (w : Wallet) :
    (L.entriesOf w).Pairwise (fun a b => a.idempotencyKey ≠ b.idempotencyKey) := by
  have hdistinct := (L.entries.distinct.filter (fun e => e.walletId = w.id)).and
    (List.pairwise_of_forall_mem_list (l := L.entriesOf w) (r := fun a b => a.walletId = b.walletId)
      fun a ha b hb => by
        have hwa := of_decide_eq_true (List.mem_filter.mp ha).2
        have hwb := of_decide_eq_true (List.mem_filter.mp hb).2
        rw [hwa, hwb])
  exact hdistinct.imp fun h hkey => h.1 ⟨h.2, hkey⟩

/-- **Ledger reconciliation.** For every wallet, the committed entries folded from zero
give the stored balances, neither balance was negative at any prefix, and no two entries
share a key. -/
theorem ledger_reconciles {c : Conf dbStore Err Unit {p : Tx Unit // WalletTx p}}
    (h : walletSystem.Reachable c) (w : Wallet) (hw : w ∈ c.committed.ledger.wallets.rows) :
    (∀ pre, pre <+: c.committed.ledger.entriesOf w →
      0 ≤ (balance WalletEntry.effect pre).1 ∧ 0 ≤ (balance WalletEntry.effect pre).2) ∧
    balance WalletEntry.effect (c.committed.ledger.entriesOf w) =
      (w.availableBalanceCents, w.reservedBalanceCents) ∧
    (c.committed.ledger.entriesOf w).Pairwise (fun a b => a.idempotencyKey ≠ b.idempotencyKey) := by
  have hrec := reconciled_of_walletSystem h
  have hfind : c.committed.ledger.wallets.find? w.userId = some w := Table.find?_key hw
  have hhist : c.committed.ledger.history w.userId = c.committed.ledger.entriesOf w := by
    rw [Ledger.history, hfind]
  refine ⟨fun pre hpre => ?_, ?_, Ledger.keys_distinct _ w⟩
  · have hnonneg := hrec.solvent w.userId pre (hhist ▸ hpre)
    exact ⟨hnonneg.1, hnonneg.2⟩
  · rw [← hhist]
    exact hrec.balances hfind

/-- A deposit, a reserve, a replay of the deposit with another amount, and a release. -/
def Sample.walletCalls : Tx Unit := do
  let _ ← createWalletForUser alice alice
  let _ ← deposit alice (.int 1000) "deposit-1" 1
  let _ ← reserve alice (.int 400) "reserve-1" "order-1" 2
  let _ ← deposit alice (.int 5) "deposit-1" 3
  let _ ← release alice (.int 100) "release-1" "order-1" 4
  return ()

theorem Sample.walletTx_walletCalls : WalletTx Sample.walletCalls :=
  .bind (.createWallet _ _) fun _ => .bind (.deposit _ _ _ _) fun _ => .bind (.reserve _ _ _ _ _)
    fun _ => .bind (.deposit _ _ _ _) fun _ => .bind (.release _ _ _ _ _) fun _ => .pure ()

theorem ledger_reconciles_sample : ∃ L : Ledger, ∃ w ∈ L.wallets.rows,
    (w.availableBalanceCents, w.reservedBalanceCents) = (700, 300) ∧
      balance WalletEntry.effect (L.entriesOf w) = (700, 300) := by
  have hrun : ∃ t, Sample.walletCalls.run (fun _ => false) Db.empty = .ok ((), t) ∧
      t.ledger.wallets.rows = [⟨Sample.alice, Sample.alice, 700, 300⟩] := by
    have hdec : (match Sample.walletCalls.run (fun _ => false) Db.empty with
        | .ok r => decide (r.2.ledger.wallets.rows = [⟨Sample.alice, Sample.alice, 700, 300⟩])
        | .error _ => false) = true := by decide +kernel
    split at hdec
    · rename_i r hr
      exact ⟨r.2, hr, of_decide_eq_true hdec⟩
    · cases hdec
  obtain ⟨t, ht, hrows⟩ := hrun
  have hserial : ∃ ls, (walletSystem.restrict fun _ _ => True).Run (Conf.idle Db.empty) ls
      (Conf.idle t) :=
    Conf.run_of_run (k := ⟨_, Sample.walletTx_walletCalls⟩) (fun _ _ _ => trivial)
      (fun _ _ => trivial) (fun _ _ => trivial) trivial ht
  obtain ⟨ls, hserial⟩ := hserial
  have hreach : walletSystem.Reachable (Conf.idle t) :=
    hserial.of_restrict.reachable (.init ⟨rfl, fun _ => rfl⟩)
  have hmem : (⟨Sample.alice, Sample.alice, 700, 300⟩ : Wallet) ∈ t.ledger.wallets.rows := by
    rw [hrows]
    exact List.mem_singleton_self _
  exact ⟨t.ledger, _, hmem, rfl, (ledger_reconciles hreach _ hmem).2.1⟩

end OutcomeExchange
