import OutcomeExchange.MarketLifeCycle
import OutcomeExchange.Payouts
import OutcomeExchange.ResolutionPayout
import OutcomeExchange.SettlementAttempt

set_option autoImplicit false

/-! # Winding down

The exchange can always be wound up: the pending trades are settled, the open orders cancelled
by their owners and the markets resolved, each of these transactions completes, and then all
the money that was paid in and not withdrawn is in the available balances (`wind_down`).

`Action.Orderly` says what a run has to respect: no client uses a key of the engine, no
movement of collateral is taken for a replay, and no trade becomes pending in a market that is
already resolved. The transactions of these runs are executed one after the other: a resolution
that overlaps with settlements of its market pays only those that it has read
(`PayoutSnapshot.lean`). `Solvent` collects what then holds in every state. -/

namespace OutcomeExchange

open Txn

/-! ## Orderly runs -/

/-- The action makes no trade pending in a resolved market. -/
def Action.KeepsOff (s : Db) : Action → Prop
  | .tryMatchOrder orderId _ => ∀ o ∈ s.orders.find? orderId,
      ∀ market ∈ s.markets.find? o.marketId, market.status ≠ .RESOLVED
  | .prepareTradeForRetry tradeId _ => ∀ trade ∈ s.trades.find? tradeId,
      ∀ market ∈ s.markets.find? trade.marketId, market.status ≠ .RESOLVED
  | _ => True

structure Action.Orderly (s : Db) (a : Action) : Prop where
  keys : a.AvoidsKeys fun _ => True
  fresh : a.FreshKeys s
  unresolved : a.KeepsOff s

def Call.Orderly (s : Db) : Call → Prop
  | .committed a => a.Orderly s
  | .rolledBack _ => True

/-! ## The keys of the cancellations -/

section Keys

variable {m : Mode RowId} {s t : Db} {a : Action}

/-- An entry under the key of a cancellation belongs to a cancelled order. -/
def CancelledByKey (db : Db) : Prop :=
  ∀ e ∈ db.ledger.entries.rows, ∀ orderId, e.idempotencyKey = (EngineKey.orderCancel orderId).text →
    ∃ o, db.orders.find? orderId = some o ∧ o.status = .CANCELLED

/-- Only a cancellation appends an entry under the key of one. -/
theorem Action.Effect.cancelKeys (h : a.Effect m s t) (ha : a.AvoidsKeys fun _ => True) :
    Appends (fun e => ∀ orderId, e.idempotencyKey = (EngineKey.orderCancel orderId).text →
      ∃ userId createdAt, a = .cancelOrder userId orderId createdAt) s.ledger t.ledger := by
  have same : ∀ {P}, t = s → Appends P s.ledger t.ledger := by
    rintro P rfl
    exact Appends.of_eq rfl
  have none : ∀ {P}, a.entryType = none → Appends P s.ledger t.ledger := by
    intro P hty
    refine h.appends.mono fun e he => ?_
    rw [hty] at he
    cases he
  -- an engine key of another kind
  have engine : ∀ {params : MutateWalletParams} {Q : Uuid → Prop} (k : EngineKey),
      params.idempotencyKey = k.text → (∀ orderId, k.stored ≠ .orderCancel orderId) →
        ∀ walletId amount orderId, (params.entry walletId amount).idempotencyKey =
          (EngineKey.orderCancel orderId).text → Q orderId := by
    intro params Q k htext hk walletId amount orderId hkey
    rw [MutateWalletParams.entry_idempotencyKey, MutateWalletParams.storedKey_of_text htext] at hkey
    exact absurd (EngineKey.text_injective hkey) (hk orderId)
  cases a with
  | createWalletForUser userId walletId => exact none rfl
  | createMarket closesAt marketId now => exact none rfl
  | closeMarket marketId now => exact none rfl
  | closeExpiredMarkets now => exact none rfl
  | tryMatchOrder orderId tradeId => exact none rfl
  | reopenOrders orders => exact none rfl
  | deposit userId dto createdAt =>
      obtain ⟨L, rfl, hmut⟩ := h
      refine hmut.appends fun _ _ orderId hkey => absurd ?_ (ha _ rfl (.orderCancel orderId) trivial)
      exact (MutateWalletParams.storedKey_of_le dto.key_max).symm.trans hkey
  | withdraw userId dto createdAt =>
      obtain ⟨L, rfl, hmut⟩ := h
      refine hmut.appends fun _ _ orderId hkey => absurd ?_ (ha _ rfl (.orderCancel orderId) trivial)
      exact (MutateWalletParams.storedKey_of_le dto.key_max).symm.trans hkey
  | resolveMarket marketId winningSide createdAt =>
      obtain @⟨market, _, _, -, -, -, hcredited, -, -⟩ := h
      exact hcredited.appends fun trade _ _ =>
        engine (.credit market.id trade.id winningSide) rfl (by rintro _ ⟨⟩)
  | placeOrder userId dto orderId now createdAt =>
      exact h.elim same fun hplaced => hplaced.reserved.appends
        (engine (.orderReserve dto.idempotencyKey) rfl (by rintro _ ⟨⟩))
  | cancelOrder userId orderId createdAt =>
      obtain ⟨-, -, -, -, hmut, -⟩ := h
      refine hmut.appends fun _ _ orderId' hkey => ?_
      have heq : EngineKey.orderCancel orderId = .orderCancel orderId' :=
        EngineKey.text_injective
          ((MutateWalletParams.storedKey_of_text (k := .orderCancel orderId) rfl).symm.trans hkey)
      cases heq
      exact ⟨userId, createdAt, rfl⟩
  | failPendingTradeAndReleaseFunds tradeId createdAt =>
      exact h.elim same fun hmove => hmove.appends fun _ trade o =>
        engine (.trade trade.id (.enqueueRelease o.id)) rfl (by rintro _ ⟨⟩)
  | handleSettlement tradeId createdAt =>
      exact h.elim same fun hmove => hmove.appends fun side trade _ =>
        engine (.trade trade.id (.debit side)) rfl (by rintro _ ⟨⟩)
  | markSettlementFailure tradeId createdAt =>
      exact h.elim same fun hmove => hmove.appends fun side trade _ =>
        engine (.trade trade.id (.release side)) rfl (by rintro _ ⟨⟩)
  | prepareTradeForRetry tradeId createdAt =>
      exact h.elim same fun hmove => hmove.appends fun _ trade o =>
        engine (.trade trade.id (.retryReserve o.id)) rfl (by rintro _ ⟨⟩)

/-- A cancelled order stays cancelled. -/
theorem Evolves.cancelled (h : Evolves s t) {id : Uuid} {o : Order}
    (ho : s.orders.find? id = some o) (hst : o.status = .CANCELLED) :
    t.orders.find? id = some o := by
  obtain ⟨o', ho', st, rfl, hcase⟩ := h.orders ho
  rcases hcase with rfl | hnext
  · exact ho'
  · rw [hst] at hnext
    cases hnext

/-- **The step lemma.** -/
theorem CancelledByKey.effect (h : CancelledByKey s) (hs : s.Coherent)
    (ha : a.AvoidsKeys fun _ => True) (heff : a.Effect m s t) : CancelledByKey t := by
  obtain ⟨new, hnew, hkeys⟩ := heff.cancelKeys ha
  intro e he orderId hkey
  rw [hnew] at he
  rcases List.mem_append.mp he with hold | hadded
  · obtain ⟨o, ho, hst⟩ := h e hold orderId hkey
    exact ⟨o, (heff.evolves hs).cancelled ho hst, hst⟩
  · obtain ⟨userId, createdAt, rfl⟩ := hkeys e hadded orderId hkey
    obtain @⟨order, hfound, -, -, hsaved, -, -⟩ := heff
    have hset := StatusSet.single hfound hsaved
    exact ⟨_, hset.find?_mem (List.mem_singleton_self _) hfound, rfl⟩

/-- The key of the cancellation of an open order is new in every wallet. -/
theorem CancelledByKey.fresh (h : CancelledByKey s) {orderId : Uuid} {o : Order}
    (ho : s.orders.find? orderId = some o) (hst : o.status ≠ .CANCELLED) (u : Uuid) :
    ¬ s.ledger.KeyUsed u (EngineKey.orderCancel orderId).text := by
  rintro ⟨e, he, hkey⟩
  obtain ⟨o', ho', hst'⟩ := h e (mem_of_history he) orderId hkey
  rw [ho] at ho'
  cases ho'
  exact hst hst'

end Keys

/-! ## The markets of the trades -/

section Markets

variable {s t : Db} {a : Action}

/-- Every order is in a market. -/
def MarketsKnown (db : Db) : Prop :=
  ∀ {id o}, db.orders.find? id = some o → ∃ market, db.markets.find? o.marketId = some market

/-- No trade of a resolved market is pending. -/
def NonePendingAfter (db : Db) : Prop :=
  ∀ {id trade}, db.trades.find? id = some trade → trade.status = .PENDING_SETTLEMENT →
    ∀ {market}, db.markets.find? trade.marketId = some market → market.status ≠ .RESOLVED

theorem MarketsKnown.effect {m : Mode RowId} (h : MarketsKnown s) (hs : s.Coherent)
    (heff : a.Effect m s t) : MarketsKnown t := by
  have hev := heff.evolves hs
  intro id o ho
  rcases heff.order_before ho with
    ⟨old, hold⟩ | ⟨userId, dto, orderId, now, createdAt, -, rfl, hplaced⟩
  · obtain ⟨o', ho', st, rfl, -⟩ := hev.orders hold
    rw [ho] at ho'
    cases ho'
    obtain ⟨market, hm⟩ := h hold
    obtain ⟨market', hm', -⟩ := hev.markets hm
    exact ⟨market', hm'⟩
  · obtain ⟨market, hm, -⟩ := hplaced.market
    obtain ⟨market', hm', -⟩ := hev.markets hm
    exact ⟨market', hm'⟩

theorem MarketsKnown.of_trade (h : MarketsKnown s) (hs : s.Coherent) {id : Uuid} {trade : Trade}
    (ht : s.trades.find? id = some trade) :
    ∃ market, s.markets.find? trade.marketId = some market := by
  obtain ⟨y, n, hy, -, hpair⟩ := Coherent.pair hs ht
  rw [← hpair.yes_market]
  exact h hy

/-- Where a pending trade comes from. -/
theorem Action.Effect.pending_before {m : Mode RowId} (h : a.Effect m s t) {id : Uuid}
    {trade : Trade} (ht : t.trades.find? id = some trade)
    (hst : trade.status = .PENDING_SETTLEMENT) :
    s.trades.find? id = some trade ∨
      (∃ orderId order, a = .tryMatchOrder orderId id ∧ s.orders.find? orderId = some order ∧
        order.marketId = trade.marketId) ∨
      ∃ createdAt old, a = .prepareTradeForRetry id createdAt ∧ s.trades.find? id = some old ∧
        old.marketId = trade.marketId := by
  have same : t.trades = s.trades → s.trades.find? id = some trade := fun heq => heq ▸ ht
  have unchanged : t = s → s.trades.find? id = some trade := fun heq => same (by rw [heq])
  -- a move to another status leaves a trade that is not pending
  have moved : ∀ {st v tradeId}, v.tradeStatus ≠ .PENDING_SETTLEMENT →
      MovedFrom st v tradeId s t → s.trades.find? id = some trade := by
    intro st v tradeId hv hmoved
    obtain ⟨old, -, -, hfind⟩ := hmoved.find?_trade
    rw [hfind] at ht
    by_cases hid : id = tradeId
    · rw [if_pos hid] at ht
      cases ht
      exact absurd hst hv
    · rw [if_neg hid] at ht
      exact ht
  by_cases hleaves : a.leavesTrades = true
  · exact Or.inl (same (h.trades_eq hleaves))
  cases a with
  | tryMatchOrder orderId tradeId =>
      rcases h with hsame | hmade
      · exact Or.inl (unchanged hsame)
      · obtain @⟨order, counterparty, os, found, -, -, -, -, -, -, inserted, -⟩ := hmade
        rw [Table.find?_insert inserted] at ht
        by_cases hid : tradeId = id
        · rw [if_pos (show Row.key (matchedTrade order counterparty tradeId) = id from hid)] at ht
          cases ht
          exact Or.inr (Or.inl ⟨orderId, order, by rw [hid], found, rfl⟩)
        · rw [if_neg (show ¬ Row.key (matchedTrade order counterparty tradeId) = id from hid)] at ht
          exact Or.inl ht
  | failPendingTradeAndReleaseFunds tradeId createdAt =>
      exact Or.inl (h.elim unchanged (moved (by rintro ⟨⟩)))
  | handleSettlement tradeId createdAt => exact Or.inl (h.elim unchanged (moved (by rintro ⟨⟩)))
  | markSettlementFailure tradeId createdAt =>
      exact Or.inl (h.elim unchanged (moved (by rintro ⟨⟩)))
  | prepareTradeForRetry tradeId createdAt =>
      rcases h with hsame | hmoved
      · exact Or.inl (unchanged hsame)
      · obtain ⟨old, hold, -, hfind⟩ := hmoved.find?_trade
        rw [hfind] at ht
        by_cases hid : id = tradeId
        · rw [if_pos hid] at ht
          cases ht
          exact Or.inr (Or.inr ⟨createdAt, old, by rw [hid], by rw [hid, hold], rfl⟩)
        · rw [if_neg hid] at ht
          exact Or.inl ht
  | reopenOrders orders => exact Or.inl (unchanged h)
  | _ => exact absurd rfl hleaves

theorem NonePendingAfter.effect {m : Mode RowId} (h : NonePendingAfter s) (hm : ¬ m.stale)
    (ha : a.KeepsOff s) (heff : a.Effect m s t) : NonePendingAfter t := by
  intro id trade ht hst market hmarket hres
  have hbefore := heff.pending_before ht hst
  -- a resolution checks, the other transactions keep off resolved markets
  by_cases hresolve : ∃ marketId winningSide createdAt,
      a = .resolveMarket marketId winningSide createdAt
  · obtain ⟨marketId, winningSide, createdAt, rfl⟩ := hresolve
    rcases hbefore with ht' | ⟨_, _, heq, -⟩ | ⟨_, _, heq, -⟩
    · obtain @⟨resolved, _, _, hfound, -, hsnapshot, -, hsaved, -⟩ := heff
      obtain ⟨hnone, -⟩ := hsnapshot hm
      have hid : resolved.id = marketId := Table.key_of_find? hfound
      by_cases hsame : trade.marketId = marketId
      · -- the resolution has seen no pending trade of its market
        have hsome : hasPendingSettlements marketId s = true := by
          rw [hasPendingSettlements, List.any_eq_true]
          exact ⟨trade, Table.mem_of_find? ht', by simp [hsame, hst]⟩
        rw [hnone] at hsome
        cases hsome
      · have hother : trade.marketId ≠ resolved.id := by
          rw [hid]
          exact hsame
        rw [Table.find?_update_of_ne hsaved hother] at hmarket
        exact h ht' hst hmarket hres
    · cases heq
    · cases heq
  have hmarket' : s.markets.find? trade.marketId = some market :=
    heff.resolved_before (fun i side at' heq => hresolve ⟨i, side, at', heq⟩) hmarket hres
  rcases hbefore with ht' | ⟨orderId, order, rfl, ho, hsame⟩ | ⟨createdAt, old, rfl, hold, hsame⟩
  · exact h ht' hst hmarket' hres
  · exact ha order ho market (by rw [hsame]; exact hmarket') hres
  · exact ha old hold market (by rw [hsame]; exact hmarket') hres

end Markets

/-! ## Every state of an orderly run, one transaction after the other -/

/-- What holds in every state of an orderly run. -/
structure Solvent (db : Db) : Prop where
  coherent : db.Coherent
  provided : db.Provided
  backed : Backed db
  balanced : Balanced db
  paid : AllPaid db
  credits : CreditedAfterResolution db
  cancels : CancelledByKey db
  markets : MarketsKnown db
  pending : NonePendingAfter db

section Solvency

variable {s t : Db} {a : Action}

theorem solvent_empty : Solvent Db.empty where
  coherent := Coherent.empty
  provided := provided_empty
  backed := backed_empty
  balanced := balanced_empty
  paid _ _ _ ht := by cases ht
  credits _ he := by cases he
  cancels _ he := by cases he
  markets ho := by cases ho
  pending ht := by cases ht

/-- In an orderly run no settlement comes too late, and no payout is taken for a replay. -/
theorem Solvent.payoutSafe {m : Mode RowId} (h : Solvent s) (heff : a.Effect m s t) :
    a.PayoutSafe s := by
  cases a with
  | handleSettlement tradeId createdAt =>
      intro trade ht hst market hm
      exact h.pending ht hst hm
  | resolveMarket marketId winningSide createdAt =>
      intro trade _ o _
      exact h.credits.fresh (Resolved.unresolved heff) o.userId trade.id winningSide
  | _ => trivial

/-- **The step lemma.** -/
theorem Solvent.effect {busy : RowId → Prop} (h : Solvent s) (ha : a.Orderly s)
    (heff : a.Effect (.serial busy) s t) : Solvent t := by
  have hserial : ¬ (Mode.serial busy).stale := fun hm => by cases hm
  have avoids : ∀ {K : EngineKey → Prop}, a.AvoidsKeys K :=
    fun key hkey k _ => ha.keys key hkey k trivial
  constructor
  · exact h.coherent.effect heff
  · exact h.provided.effect h.coherent heff
  · exact h.backed.effect h.coherent ha.fresh heff
  · exact h.balanced.effect h.coherent hserial avoids heff
  · refine h.paid.effect h.balanced.paid h.coherent (h.payoutSafe heff) heff ?_
    rintro marketId winningSide createdAt rfl
    exact Resolved.paysSettled hserial heff
  · exact h.credits.effect h.coherent avoids heff
  · exact h.cancels.effect h.coherent ha.keys heff
  · exact MarketsKnown.effect h.markets h.coherent heff
  · exact NonePendingAfter.effect h.pending hserial ha.unresolved heff

theorem solvent_of_reachable {db : Db}
    (h : (exchange.restrict fun s c => c.Orderly s).Reachable db) : Solvent db :=
  (exchange_invariant Solvent solvent_empty
    (fun _ _ _ _ _ _ hI ha heff => hI.effect ha heff) h).2

end Solvency

/-! ## The money of the exchange -/

section Money

variable {s t : Db}

/-- What was paid in and not withdrawn. -/
def Db.money (db : Db) : ℤ := db.ledger.amountOf .DEPOSIT - db.ledger.amountOf .WITHDRAW

theorem Solvent.money_eq (h : Solvent s) :
    s.ledger.total + unpaid s.trades s.ledger = s.money := by
  have hconserved : s.ledger.owed = unpaid s.trades s.ledger := h.balanced.conserved
  unfold Ledger.owed at hconserved
  unfold Db.money
  omega

theorem amountOf_of_appends {L L' : Ledger} {entryType : WalletEntryType}
    (h : Appends (fun e => e.entryType ≠ entryType) L L') :
    L'.amountOf entryType = L.amountOf entryType := by
  obtain ⟨new, hnew, hother⟩ := h
  have hzero : (new.map fun e => if e.entryType = entryType then e.amountCents else 0).sum = 0 :=
    List.sum_eq_zero fun x hx => by
      obtain ⟨e, he, rfl⟩ := List.mem_map.mp hx
      exact if_neg (hother e he)
  simp only [Ledger.amountOf, Table.sum] at hzero ⊢
  rw [hnew, List.map_append, List.sum_append, hzero, add_zero]

/-- An action that neither pays in nor withdraws. -/
theorem Action.Effect.money_same {m : Mode RowId} {a : Action} (h : a.Effect m s t)
    (hin : a.entryType ≠ some .DEPOSIT) (hout : a.entryType ≠ some .WITHDRAW) :
    t.money = s.money := by
  have hother : ∀ ty, a.entryType ≠ some ty → t.ledger.amountOf ty = s.ledger.amountOf ty :=
    fun ty hty => amountOf_of_appends (h.appends.mono fun e he heq => hty (heq ▸ he))
  unfold Db.money
  rw [hother _ hin, hother _ hout]

/-- No user has more than all wallets together. -/
theorem Ledger.le_total {L : Ledger} (hL : L.InRange) (u : Uuid) :
    L.available u + L.reserved u ≤ L.total := by
  have hnonneg : ∀ w ∈ L.wallets.rows, 0 ≤ w.availableBalanceCents + w.reservedBalanceCents := by
    intro w hw
    obtain ⟨⟨hav, -⟩, hres, -⟩ := hL w.userId
    have hfound : L.wallets.find? w.userId = some w := Table.find?_key hw
    rw [Ledger.available, hfound] at hav
    rw [Ledger.reserved, hfound] at hres
    exact add_nonneg hav hres
  unfold Ledger.total
  cases hw : L.wallets.find? u with
  | none =>
      rw [Ledger.available, Ledger.reserved, hw]
      exact List.sum_nonneg fun x hx => by
        obtain ⟨w, hw, rfl⟩ := List.mem_map.mp hx
        exact hnonneg w hw
  | some w =>
      have hle := Table.sum_le hnonneg (List.pairwise_singleton _ w) (by
        intro a ha
        rw [List.mem_singleton.mp ha]
        exact Table.mem_of_find? hw)
      rw [Ledger.available, Ledger.reserved, hw]
      simpa using hle

theorem Trade.unpaid_nonneg (hs : s.Coherent) {trade : Trade} (ht : trade ∈ s.trades.rows) :
    0 ≤ trade.unpaid s.ledger := by
  obtain ⟨y, n, hy, -, hpair⟩ := Coherent.pair hs (Table.find?_key ht)
  have hq := (Coherent.sound hs hy).quantity_pos
  rw [hpair.yes_quantity] at hq
  unfold Trade.unpaid
  split
  · omega
  · exact le_refl 0

/-- What a resolution will pay is owed to the settled trades. -/
theorem Solvent.payoutsDue_le (h : Solvent s) {marketId : Uuid}
    (hun : ∀ market, s.markets.find? marketId = some market → market.status ≠ .RESOLVED)
    (winningSide : OutcomeSide) (u : Uuid) :
    payoutsDue marketId winningSide s u ≤ unpaid s.trades s.ledger := by
  have hnone := h.balanced.paid.unpaid_of_unresolved hun
  have hdue : ∀ trade ∈ settledTradesOf marketId s,
      payoutDue marketId winningSide (ordersOf (settledTradesOf marketId s) s) s.ledger u trade ≤
        trade.unpaid s.ledger := by
    intro trade ht
    obtain ⟨hrow, -, hst⟩ := mem_settledTradesOf.mp ht
    have hworth : trade.unpaid s.ledger = 100 * trade.quantity :=
      if_pos ⟨hst, hnone trade ht⟩
    have hnonneg := Trade.unpaid_nonneg h.coherent hrow
    unfold payoutDue
    split <;> omega
  calc payoutsDue marketId winningSide s u
      ≤ ((settledTradesOf marketId s).map (Trade.unpaid s.ledger)).sum := List.sum_le_sum hdue
    _ ≤ unpaid s.trades s.ledger :=
        Table.sum_le (fun trade ht => Trade.unpaid_nonneg h.coherent ht)
          (s.trades.nodup_rows.filter _) fun trade ht => (mem_settledTradesOf.mp ht).1

theorem unpaid_nonneg (hs : s.Coherent) : 0 ≤ unpaid s.trades s.ledger :=
  Table.sum_le (fun _ ht => Trade.unpaid_nonneg hs ht) List.nodup_nil fun _ ht => by cases ht

end Money

/-! ## The three kinds of steps -/

/-- The transactions of a winding up: settlements, cancellations, and a resolution of each
market with the winning side that is given for it. -/
def Call.windsUp (winningSide : Uuid → OutcomeSide) : Call → Prop
  | .committed (.handleSettlement _ _) => True
  | .committed (.cancelOrder _ _ _) => True
  | .committed (.resolveMarket marketId side _) => side = winningSide marketId
  | _ => False

def windingUp (winningSide : Uuid → OutcomeSide) : System Db Call :=
  exchange.restrict fun _ c => c.windsUp winningSide

/-- The pending trades, the open orders and the unresolved markets. -/
def Db.unfinished (db : Db) : ℤ :=
  db.trades.sum (fun trade => if trade.status = .PENDING_SETTLEMENT then 1 else 0) +
    db.orders.sum (fun o => if o.status = .OPEN then 1 else 0) +
    db.markets.sum (fun market => if market.status = .RESOLVED then 0 else 1)

/-- A step that leaves less to be done, and all the money. -/
structure Advances (winningSide : Uuid → OutcomeSide) (s : Db) (c : Call) (t : Db) : Prop where
  step : (windingUp winningSide).step s c t
  solvent : Solvent t
  money : t.money = s.money
  less : t.unfinished < s.unfinished

section Steps

variable {winningSide : Uuid → OutcomeSide} {s : Db} {createdAt : Timestamp}

/-- What is left to show of a transaction that completes. -/
theorem Solvent.advances (h : Solvent s) {a : Action} {busy : RowId → Prop} {t : Db}
    (hwinds : (Call.committed a).windsUp winningSide) (hexec : Exec (.serial busy) a.prog s () t)
    (ha : a.Orderly s) (hless : t.unfinished < s.unfinished) :
    Advances winningSide s (.committed a) t := by
  have hstarts : a.Starts s := by
    cases a with
    | reopenOrders orders => cases hwinds
    | _ => trivial
  have heff := exec_effect (hstarts.nil h.coherent) hexec
  have hentry : a.entryType ≠ some .DEPOSIT ∧ a.entryType ≠ some .WITHDRAW := by
    cases a with
    | deposit userId dto createdAt => cases hwinds
    | withdraw userId dto createdAt => cases hwinds
    | _ => exact ⟨by rintro ⟨⟩, by rintro ⟨⟩⟩
  exact ⟨⟨hwinds, hstarts, busy, hexec⟩, h.effect ha heff, heff.money_same hentry.1 hentry.2, hless⟩

/-- A pending trade can be settled. -/
theorem Solvent.settle (h : Solvent s) {trade : Trade} (ht : trade ∈ s.trades.rows)
    (hst : trade.status = .PENDING_SETTLEMENT) :
    ∃ t, Advances winningSide s (.committed (.handleSettlement trade.id createdAt)) t := by
  have hfound : s.trades.find? trade.id = some trade := Table.find?_key ht
  have hfresh : (Action.handleSettlement trade.id createdAt).FreshKeys s :=
    h.balanced.debits.fresh hfound hst createdAt
  obtain ⟨r, t, hrun⟩ : ∃ r t, (handleSettlement trade.id createdAt).run (fun _ => false) s =
      .ok (r, t) := run_handleSettlement h.coherent h.provided h.backed hfound hst hfresh
  have hexec := exec_of_run hrun
  refine ⟨t, h.advances trivial (exec_discard.mpr ⟨r, hexec⟩) ⟨?_, hfresh, trivial⟩ ?_⟩
  · intro key hkey
    cases hkey
  rcases exec_handleSettlement hexec with ⟨-, hstale | hsettled⟩ | ⟨trade', ht', -, hmoved⟩
  · cases hstale
  · rw [hsettled trade hfound] at hst
    cases hst
  rw [hfound] at ht'
  cases ht'
  -- one pending trade less, and as many open orders as before
  obtain @⟨y, n, L, os, hy, hn, -, -, -, hsy, hsn, hts, hrest, -⟩ := hmoved
  have hyid : y.id = trade.yesOrderId := Table.key_of_find? hy
  have hnid : n.id = trade.noOrderId := Table.key_of_find? hn
  have hyst := Coherent.status_of_has h.coherent ht (Or.inl rfl) hy
  have hnst := Coherent.status_of_has h.coherent ht (Or.inr rfl) hn
  have horders := Table.sum_update_pair (a := y.withStatus .MATCHED)
    (b := n.withStatus .MATCHED) (show s.orders.find? y.id = some y by rw [hyid, hy])
    (show s.orders.find? n.id = some n by rw [hnid, hn])
    (show y.id ≠ n.id by rw [hyid, hnid]; exact Coherent.yes_ne_no h.coherent ht) hsy hsn
    (fun o => if o.status = .OPEN then (1 : ℤ) else 0)
  have htrades := Table.sum_update hts hfound
    (fun trade => if trade.status = .PENDING_SETTLEMENT then (1 : ℤ) else 0)
  rw [hst] at hyst hnst
  simp only [hyst, hnst, hst, Order.withStatus_status, Trade.withStatus_status, settleMove,
    TradeStatus.orderStatus, reduceCtorEq, if_true, if_false] at horders htrades
  unfold Db.unfinished
  rw [hrest]
  omega

/-- An open order can be cancelled by its owner. -/
theorem Solvent.cancel (h : Solvent s) (hmoney : s.money ≤ maxInt4) {o : Order}
    (ho : o ∈ s.orders.rows) (hst : o.status = .OPEN) :
    ∃ t, Advances winningSide s (.committed (.cancelOrder o.userId o.id createdAt)) t := by
  have hfound : s.orders.find? o.id = some o := Table.find?_key ho
  have hcovers : o.reservedCents ≤ s.ledger.reserved o.userId := by
    have hneeds := h.backed.covers h.coherent o.userId (List.pairwise_singleton _ o) (by
      intro o' ho'
      rw [List.mem_singleton.mp ho']
      exact ho)
    simpa [Order.needs, hst, OrderStatus.active] using hneeds
  -- all the money together fits a balance column
  have hroom : s.ledger.available o.userId + o.reservedCents ≤ maxInt4 := by
    have htotal := Ledger.le_total h.provided.balances o.userId
    have hunpaid := unpaid_nonneg h.coherent
    have heq := h.money_eq
    omega
  obtain ⟨r, t, hrun⟩ : ∃ r t, (cancelOrder o.userId o.id createdAt).run (fun _ => false) s =
      .ok (r, t) := run_cancelOrder h.coherent h.provided hfound hst hcovers hroom
  have hexec := exec_of_run hrun
  have hfresh : (Action.cancelOrder o.userId o.id createdAt).FreshKeys s :=
    h.cancels.fresh hfound (by rw [hst]; rintro ⟨⟩) o.userId
  refine ⟨t, h.advances trivial (exec_discard.mpr ⟨r, hexec⟩) ⟨?_, hfresh, trivial⟩ ?_⟩
  · intro key hkey
    cases hkey
  obtain @⟨o', hfound', -, -, hsaved, -, hmarkets, -, htrades⟩ := (exec_cancelOrder hexec).1
  rw [hfound] at hfound'
  cases hfound'
  -- one open order less
  have horders := Table.sum_update hsaved hfound
    (fun o => if o.status = .OPEN then (1 : ℤ) else 0)
  simp only [hst, Order.withStatus_status, reduceCtorEq, if_true, if_false] at horders
  unfold Db.unfinished
  rw [hmarkets, htrades]
  omega

/-- A market without pending trades can be resolved. -/
theorem Solvent.resolve (h : Solvent s) (hmoney : s.money ≤ maxInt4)
    (hnone : ∀ trade ∈ s.trades.rows, trade.status ≠ .PENDING_SETTLEMENT) {market : Market}
    (hm : market ∈ s.markets.rows) (hst : market.status ≠ .RESOLVED) :
    ∃ t, Advances winningSide s
      (.committed (.resolveMarket market.id (winningSide market.id) createdAt)) t := by
  have hfound : s.markets.find? market.id = some market := Table.find?_key hm
  have hun : ∀ m, s.markets.find? market.id = some m → m.status ≠ .RESOLVED := by
    intro m hm'
    rw [hfound] at hm'
    cases hm'
    exact hst
  have hpending : hasPendingSettlements market.id s = false := by
    rw [hasPendingSettlements, List.any_eq_false]
    intro trade ht hp
    rw [Bool.and_eq_true, decide_eq_true_eq, decide_eq_true_eq] at hp
    exact hnone trade ht hp.2
  -- what is due to one user is part of all the money
  have hroom : ∀ u, s.ledger.available u +
      payoutsDue market.id (winningSide market.id) s u ≤ maxInt4 := by
    intro u
    have htotal := Ledger.le_total h.provided.balances u
    have hres := (h.provided.balances u).2.1
    have hdue := h.payoutsDue_le hun (winningSide market.id) u
    have heq := h.money_eq
    omega
  obtain ⟨r, t, hrun⟩ : ∃ r t,
      (resolveMarket market.id (winningSide market.id) createdAt).run (fun _ => false) s =
        .ok (r, t) :=
    run_resolveMarket h.coherent h.provided hfound hst hpending _ createdAt hroom
  have hexec := exec_of_run hrun
  refine ⟨t, h.advances rfl (exec_discard.mpr ⟨r, hexec⟩) ⟨?_, trivial, trivial⟩ ?_⟩
  · intro key hkey
    cases hkey
  obtain @⟨market', _, _, hfound', -, -, -, hsaved, -, horders, htrades⟩ := exec_resolveMarket hexec
  rw [hfound] at hfound'
  cases hfound'
  -- one unresolved market less
  have hmarkets := Table.sum_update hsaved hfound
    (fun market => if market.status = .RESOLVED then (0 : ℤ) else 1)
  simp only [hst, if_true, if_false] at hmarkets
  unfold Db.unfinished
  rw [horders, htrades]
  omega

end Steps

/-! ## The whole run -/

/-- Nothing is pending, open or unresolved. -/
structure Finished (db : Db) : Prop where
  trades : ∀ trade ∈ db.trades.rows, trade.status ≠ .PENDING_SETTLEMENT
  orders : ∀ o ∈ db.orders.rows, o.status ≠ .OPEN
  markets : ∀ market ∈ db.markets.rows, market.status = .RESOLVED

/-- Every market is resolved, nothing is reserved, and the available balances hold `money`. -/
structure WoundUp (money : ℤ) (db : Db) : Prop where
  markets : ∀ market ∈ db.markets.rows, market.status = .RESOLVED
  trades : ∀ trade ∈ db.trades.rows, trade.status ≠ .PENDING_SETTLEMENT
  orders : ∀ o ∈ db.orders.rows, o.status.active = false
  reserved : ∀ u, db.ledger.reserved u = 0
  available : (db.ledger.wallets.sum fun w => w.availableBalanceCents) = money

section Run

variable {s t : Db}

theorem Db.unfinished_nonneg (db : Db) : 0 ≤ db.unfinished := by
  refine add_nonneg (add_nonneg ?_ ?_) ?_
  all_goals
    refine List.sum_nonneg fun x hx => ?_
    obtain ⟨row, -, rfl⟩ := List.mem_map.mp hx
    split <;> decide

/-- Until everything is finished there is a step to take. -/
theorem Solvent.exists_step (h : Solvent s) (hmoney : s.money ≤ maxInt4)
    (winningSide : Uuid → OutcomeSide) (createdAt : Timestamp) (hunfinished : ¬ Finished s) :
    ∃ c t, Advances winningSide s c t := by
  by_cases htrades : ∀ trade ∈ s.trades.rows, trade.status ≠ .PENDING_SETTLEMENT
  case neg =>
    push Not at htrades
    obtain ⟨trade, ht, hst⟩ := htrades
    exact ⟨.committed (.handleSettlement trade.id createdAt), h.settle ht hst⟩
  by_cases horders : ∀ o ∈ s.orders.rows, o.status ≠ .OPEN
  case neg =>
    push Not at horders
    obtain ⟨o, ho, hst⟩ := horders
    exact ⟨.committed (.cancelOrder o.userId o.id createdAt), h.cancel hmoney ho hst⟩
  by_cases hmarkets : ∀ market ∈ s.markets.rows, market.status = .RESOLVED
  case neg =>
    push Not at hmarkets
    obtain ⟨market, hm, hst⟩ := hmarkets
    exact ⟨.committed (.resolveMarket market.id (winningSide market.id) createdAt),
      h.resolve hmoney htrades hm hst⟩
  exact absurd ⟨htrades, horders, hmarkets⟩ hunfinished

/-- When everything is finished, nothing holds collateral and every settled trade is paid. -/
theorem Solvent.woundUp (h : Solvent s) (hdone : Finished s) : WoundUp s.money s := by
  have hinactive : ∀ o ∈ s.orders.rows, o.status.active = false := by
    intro o ho
    cases hst : o.status with
    | OPEN => exact absurd hst (hdone.orders o ho)
    | MATCH_PENDING =>
        -- the trade of such an order is pending
        obtain ⟨trade, ht, hhas⟩ := h.coherent.traded (Table.find?_key ho)
          ⟨.PENDING_SETTLEMENT, hst.symm⟩
        have hsame := Coherent.status_of_has h.coherent ht hhas (Table.find?_key ho)
        rw [hst] at hsame
        exact absurd (TradeStatus.orderStatus_injective hsame.symm) (hdone.trades trade ht)
    | _ => rfl
  have hreserved : ∀ u, s.ledger.reserved u = 0 := by
    intro u
    rw [h.backed u, collateral, Table.sum_congr (g := fun _ => 0) fun o ho =>
      Order.needs_of_inactive (hinactive o ho)]
    simp [Table.sum]
  have hpaid : unpaid s.trades s.ledger = 0 := by
    have hzero : ∀ trade ∈ s.trades.rows, Trade.unpaid s.ledger trade = 0 := by
      intro trade ht
      refine if_neg ?_
      rintro ⟨hst, hnone⟩
      obtain ⟨market, hm⟩ := MarketsKnown.of_trade h.markets h.coherent (Table.find?_key ht)
      have hres := hdone.markets market (Table.mem_of_find? hm)
      obtain ⟨_, _, _, e, _, _, _, he, -⟩ :=
        h.paid _ trade market (Table.find?_key ht) hst hm hres
      rw [hnone] at he
      cases he
    rw [unpaid, Table.sum_congr (g := fun _ => 0) hzero]
    simp [Table.sum]
  refine ⟨hdone.markets, hdone.trades, hinactive, hreserved, ?_⟩
  have hwallets : (s.ledger.wallets.sum fun w => w.availableBalanceCents) = s.ledger.total := by
    refine Table.sum_congr fun w hw => ?_
    have hzero := hreserved w.userId
    have hfound : s.ledger.wallets.find? w.userId = some w := Table.find?_key hw
    rw [Ledger.reserved, hfound] at hzero
    rw [show w.reservedBalanceCents = 0 from hzero, add_zero]
  rw [hwallets, ← h.money_eq, hpaid, add_zero]

end Run

/-- **The exchange can be wound up** from every state of an orderly run, whichever sides the
markets are resolved to, if its money fits a balance column: in the end nothing is reserved
and everything that was paid in and not withdrawn is available. -/
theorem wind_down {db : Db} (h : (exchange.restrict fun s c => c.Orderly s).Reachable db)
    (hmoney : db.money ≤ maxInt4) (winningSide : Uuid → OutcomeSide) (createdAt : Timestamp) :
    ∃ cs t, (windingUp winningSide).Run db cs t ∧ WoundUp db.money t := by
  obtain ⟨cs, t, hrun, ⟨ht, hsame⟩, hdone⟩ := (windingUp winningSide).exists_run
    (I := fun s => Solvent s ∧ s.money = db.money) (D := Finished)
    (fun s => s.unfinished.toNat) (by
      rintro s ⟨hs, hsame⟩ hunfinished
      obtain ⟨c, t, hstep⟩ :=
        hs.exists_step (hsame ▸ hmoney) winningSide createdAt hunfinished
      refine ⟨c, t, hstep.step, ⟨hstep.solvent, hstep.money.trans hsame⟩, ?_⟩
      have hless := hstep.less
      have hnonneg := t.unfinished_nonneg
      omega)
    ⟨solvent_of_reachable h, rfl⟩
  exact ⟨cs, t, hrun, hsame ▸ ht.woundUp hdone⟩

/-! ## The sample trade, before it is settled -/

instance (s : Db) (a : Action) : Decidable (a.KeepsOff s) :=
  match a with
  | .tryMatchOrder orderId _ => inferInstanceAs (Decidable (∀ o ∈ s.orders.find? orderId,
      ∀ market ∈ s.markets.find? o.marketId, market.status ≠ .RESOLVED))
  | .prepareTradeForRetry tradeId _ => inferInstanceAs (Decidable
      (∀ trade ∈ s.trades.find? tradeId,
        ∀ market ∈ s.markets.find? trade.marketId, market.status ≠ .RESOLVED))
  | .createWalletForUser _ _ => inferInstanceAs (Decidable True)
  | .deposit _ _ _ => inferInstanceAs (Decidable True)
  | .withdraw _ _ _ => inferInstanceAs (Decidable True)
  | .createMarket _ _ _ => inferInstanceAs (Decidable True)
  | .closeMarket _ _ => inferInstanceAs (Decidable True)
  | .closeExpiredMarkets _ => inferInstanceAs (Decidable True)
  | .resolveMarket _ _ _ => inferInstanceAs (Decidable True)
  | .placeOrder _ _ _ _ _ => inferInstanceAs (Decidable True)
  | .cancelOrder _ _ _ => inferInstanceAs (Decidable True)
  | .failPendingTradeAndReleaseFunds _ _ => inferInstanceAs (Decidable True)
  | .handleSettlement _ _ => inferInstanceAs (Decidable True)
  | .markSettlementFailure _ _ => inferInstanceAs (Decidable True)
  | .reopenOrders _ => inferInstanceAs (Decidable True)

/-- No key of the engine begins with `d`. -/
theorem EngineKey.text_head (k : EngineKey) : k.text.toList.head? ≠ some 'd' := by
  cases k <;> simp [EngineKey.text]

namespace Sample

/-- `Action.Orderly`, for clients whose keys begin with `d`. -/
def orderly (s : Db) (a : Action) : Bool :=
  a.clientKey.all (fun key => key.toList.head? = some 'd') && decide (a.FreshKeys s) &&
    decide (a.KeepsOff s)

theorem orderly_allows (s : Db) (a : Action) (h : orderly s a = true) :
    (Call.committed a).Orderly s := by
  simp only [orderly, Bool.and_eq_true, decide_eq_true_eq] at h
  obtain ⟨⟨hkeys, hfresh⟩, hoff⟩ := h
  refine ⟨?_, hfresh, hoff⟩
  rintro key hkey k - rfl
  rw [show a.clientKey = some k.text from hkey, Option.all_some, decide_eq_true_eq] at hkeys
  exact k.text_head hkeys

def restingDto : PlaceOrderDto :=
  { yesDto with idempotencyKey := "resting-yes-order", key_min := by decide }

def resting : Uuid := ⟨"00000000-0000-4000-8000-000000000051", by decide⟩

/-- The trade is pending, another order is open, and the market is not resolved. -/
def unfinishedBusiness : List Action :=
  matching ++ [.placeOrder alice restingDto resting 4 4]

end Sample

theorem wind_down_sample : ∃ db cs t, (exchange.restrict fun s c => c.Orderly s).Reachable db ∧
    db.unfinished = 3 ∧ (windingUp fun _ => .YES).Run db cs t ∧ WoundUp 2000 t := by
  obtain ⟨db, hdb, hp⟩ := exchange_of_leads Sample.orderly_allows
    (show leads Sample.orderly Sample.unfinishedBusiness
      (fun db => db.unfinished = 3 && db.money = 2000) = true by decide +kernel)
  rw [Bool.and_eq_true, decide_eq_true_eq, decide_eq_true_eq] at hp
  obtain ⟨cs, t, hrun, hwound⟩ := wind_down hdb (by rw [hp.2]; decide) (fun _ => .YES) 9
  exact ⟨db, cs, t, hdb, hp.1, hrun, hp.2 ▸ hwound⟩

end OutcomeExchange
