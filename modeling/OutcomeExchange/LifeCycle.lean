import OutcomeExchange.Coherence

set_option autoImplicit false

/-! # Life cycles

What any action may do to a row that is there: an order or a trade changes its status
only, along `OrderStatus.Next` or `TradeStatus.Next`, a market moves forward, a wallet
keeps its identity, and the ledger only grows. `Evolves` says all of it of one action,
and what has no next status never changes again. -/

namespace OutcomeExchange

open Txn

/-! ## The transitions -/

inductive OrderStatus.Next : OrderStatus → OrderStatus → Prop
  | cancelled : Next .OPEN .CANCELLED
  | paired : Next .OPEN .MATCH_PENDING
  | settled : Next .MATCH_PENDING .MATCHED
  | failed : Next .MATCH_PENDING .SETTLEMENT_FAILED
  | rearmed : Next .SETTLEMENT_FAILED .MATCH_PENDING

inductive TradeStatus.Next : TradeStatus → TradeStatus → Prop
  | settled : Next .PENDING_SETTLEMENT .SETTLED
  | failed : Next .PENDING_SETTLEMENT .FAILED
  | rearmed : Next .FAILED .PENDING_SETTLEMENT

/-- A settled trade is final. -/
theorem TradeStatus.not_next_settled {st : TradeStatus} : ¬ TradeStatus.SETTLED.Next st := by
  intro h
  cases h

/-- A matched order is final, and so is a cancelled one. -/
theorem OrderStatus.not_next_matched {st : OrderStatus} : ¬ OrderStatus.MATCHED.Next st := by
  intro h
  cases h

/-- No order becomes open again. -/
theorem OrderStatus.not_next_open {st : OrderStatus} : ¬ st.Next .OPEN := by
  intro h
  cases h

/-- The status of the orders of a trade follows the status of the trade. -/
theorem TradeStatus.Next.orders {a b : TradeStatus} (h : a.Next b) :
    a.orderStatus.Next b.orderStatus := by
  cases h with
  | settled => exact .settled
  | failed => exact .failed
  | rearmed => exact .rearmed

/-- An order keeps its terms and moves along its life cycle. -/
def Order.Evolves (o o' : Order) : Prop :=
  ∃ st, o' = o.withStatus st ∧ (st = o.status ∨ o.status.Next st)

def Trade.Evolves (trade trade' : Trade) : Prop :=
  ∃ st, trade' = trade.withStatus st ∧ (st = trade.status ∨ trade.status.Next st)

/-- A market stays as it is, is closed, or is resolved. -/
def Market.Evolves (a b : Market) : Prop :=
  a.Closes b ∨ (a.status ≠ .RESOLVED ∧ ∃ winningSide,
    b = { a with status := .RESOLVED, resolvedOutcome := some winningSide })

theorem Order.Evolves.refl (o : Order) : o.Evolves o := ⟨o.status, rfl, Or.inl rfl⟩

theorem Trade.Evolves.refl (trade : Trade) : trade.Evolves trade := ⟨trade.status, rfl, Or.inl rfl⟩

theorem Market.Evolves.refl (a : Market) : a.Evolves a := Or.inl (Or.inl rfl)

/-- Wallets keep their identity, and the ledger only grows. -/
structure LedgerGrows (L L' : Ledger) : Prop where
  wallets : ∀ {u w}, L.wallets.find? u = some w → ∃ w', L'.wallets.find? u = some w' ∧ w'.id = w.id
  entries : L.entries.rows <+: L'.entries.rows

/-- What an action may do to the rows that are there. -/
structure Evolves (s t : Db) : Prop where
  orders : ∀ {id o}, s.orders.find? id = some o → ∃ o', t.orders.find? id = some o' ∧ o.Evolves o'
  trades : ∀ {id trade}, s.trades.find? id = some trade →
    ∃ trade', t.trades.find? id = some trade' ∧ trade.Evolves trade'
  markets : ∀ {id a}, s.markets.find? id = some a → ∃ b, t.markets.find? id = some b ∧ a.Evolves b
  ledger : LedgerGrows s.ledger t.ledger

/-! ## The parts of an action -/

section Parts

variable {s t : Db}

theorem orders_evolve_of_eq (h : t.orders = s.orders) {id : Uuid} {o : Order}
    (ho : s.orders.find? id = some o) : ∃ o', t.orders.find? id = some o' ∧ o.Evolves o' :=
  ⟨o, by rw [h, ho], Order.Evolves.refl o⟩

theorem trades_evolve_of_eq (h : t.trades = s.trades) {id : Uuid} {trade : Trade}
    (ht : s.trades.find? id = some trade) :
    ∃ trade', t.trades.find? id = some trade' ∧ trade.Evolves trade' :=
  ⟨trade, by rw [h, ht], Trade.Evolves.refl trade⟩

theorem markets_evolve_of_eq (h : t.markets = s.markets) {id : Uuid} {a : Market}
    (ha : s.markets.find? id = some a) : ∃ b, t.markets.find? id = some b ∧ a.Evolves b :=
  ⟨a, by rw [h, ha], Market.Evolves.refl a⟩

/-- The orders `ids` have statuses from which `st` is next. -/
theorem StatusSet.evolves {ids : List Uuid} {st : OrderStatus} {orders orders' : Table Order}
    (h : StatusSet ids st orders orders')
    (hnext : ∀ id ∈ ids, ∀ o, orders.find? id = some o → o.status.Next st) {id : Uuid} {o : Order}
    (ho : orders.find? id = some o) : ∃ o', orders'.find? id = some o' ∧ o.Evolves o' := by
  by_cases hid : id ∈ ids
  · exact ⟨_, h.find?_mem hid ho, st, rfl, Or.inr (hnext id hid o ho)⟩
  · exact ⟨o, by rw [h.find?_not_mem hid, ho], Order.Evolves.refl o⟩

theorem LedgerGrows.refl (L : Ledger) : LedgerGrows L L :=
  ⟨fun hw => ⟨_, hw, rfl⟩, List.prefix_refl _⟩

theorem ledger_grows_of_eq (h : t.ledger = s.ledger) : LedgerGrows s.ledger t.ledger := by
  rw [h]
  exact LedgerGrows.refl _

theorem LedgerGrows.trans {L₁ L₂ L₃ : Ledger} (h : LedgerGrows L₁ L₂) (h' : LedgerGrows L₂ L₃) :
    LedgerGrows L₁ L₃ where
  wallets hw := by
    obtain ⟨w₂, hw₂, hid₂⟩ := h.wallets hw
    obtain ⟨w₃, hw₃, hid₃⟩ := h'.wallets hw₂
    exact ⟨w₃, hw₃, hid₃.trans hid₂⟩
  entries := h.entries.trans h'.entries

/-- A key that is used stays used. -/
theorem LedgerGrows.keyUsed {L L' : Ledger} (h : LedgerGrows L L') {u : Uuid} {key : String}
    (hused : L.KeyUsed u key) : L'.KeyUsed u key := by
  obtain ⟨e, he, hkey⟩ := hused
  refine ⟨e, ?_, hkey⟩
  unfold Ledger.history at he ⊢
  cases hw : L.wallets.find? u with
  | none =>
      rw [hw] at he
      cases he
  | some w =>
      obtain ⟨w', hw', hid⟩ := h.wallets hw
      rw [hw] at he
      rw [hw']
      obtain ⟨hmem, hwallet⟩ := List.mem_filter.mp he
      exact List.mem_filter.mpr ⟨h.entries.subset hmem, by rw [hid]; exact hwallet⟩

theorem Mutated.grows {params : MutateWalletParams} {L L' : Ledger} (h : Mutated params L L') :
    LedgerGrows L L' := by
  cases h with
  | replay used same =>
      rw [same]
      exact LedgerGrows.refl L
  | @posted w a hp =>
      refine ⟨fun {u v} hv => ?_, ?_⟩
      · rw [hp.find?_wallet]
        by_cases hu : u = params.userId
        · rw [if_pos hu]
          rw [hu, hp.wallet] at hv
          cases hv
          exact ⟨_, rfl, rfl⟩
        · rw [if_neg hu]
          exact ⟨v, hv, rfl⟩
      · rw [hp.entries_rows]
        exact List.prefix_append _ _

theorem Credited.grows {market : Market} {winningSide : OutcomeSide} {orders : List Order}
    {createdAt : Timestamp} {trades : List Trade} {L L' : Ledger}
    (h : Credited market winningSide orders createdAt trades L L') : LedgerGrows L L' := by
  induction h with
  | nil L => exact LedgerGrows.refl L
  | cons winner credited others ih => exact credited.grows.trans ih

theorem grows_insertWallet {L L' : Ledger} {w : Wallet} (h : L.insertWallet w = .ok L') :
    LedgerGrows L L' where
  wallets {u v} hv := ⟨v, Table.find?_insert_of_some (Ledger.insertWallet_eq_ok h).1 hv, rfl⟩
  entries := by
    have hsame : L'.entries = L.entries := (Ledger.insertWallet_eq_ok h).2
    exact ⟨[], by rw [hsame, List.append_nil]⟩

/-- A change of the ledger only. -/
theorem evolves_ledger {L : Ledger} (h : LedgerGrows s.ledger L) :
    Evolves s { s with ledger := L } where
  orders := orders_evolve_of_eq rfl
  trades := trades_evolve_of_eq rfl
  markets := markets_evolve_of_eq rfl
  ledger := h

theorem Evolves.refl (s : Db) : Evolves s s := evolves_ledger (LedgerGrows.refl s.ledger)

theorem MarketsClosed.evolves (h : MarketsClosed s t) : Evolves s t := by
  obtain ⟨hmarkets, hledger, -, horders, htrades⟩ := h
  refine ⟨orders_evolve_of_eq horders, trades_evolve_of_eq htrades, fun {id a} ha => ?_,
    ledger_grows_of_eq hledger⟩
  have hrel := hmarkets id
  rw [ha] at hrel
  generalize t.markets.find? id = o at hrel
  cases hrel with
  | @some a b hcloses => exact ⟨b, rfl, Or.inl hcloses⟩

theorem Resolved.evolves {m : Mode RowId} {marketId : Uuid} {winningSide : OutcomeSide}
    {createdAt : Timestamp} (h : Resolved m marketId winningSide createdAt s t) : Evolves s t := by
  obtain @⟨market, trades, orders, hfound, hunresolved, -, hcredited, hsaved, -, horders, htrades⟩
    := h
  have hid : market.id = marketId := Table.key_of_find? hfound
  subst hid
  refine ⟨orders_evolve_of_eq horders, trades_evolve_of_eq htrades, fun {id a} ha => ?_,
    hcredited.grows⟩
  rw [Table.find?_update hsaved hfound]
  by_cases hid : id = market.id
  · subst hid
    rw [hfound] at ha
    cases ha
    exact ⟨_, if_pos rfl, Or.inr ⟨hunresolved, winningSide, rfl⟩⟩
  · exact ⟨a, by rw [if_neg (show ¬ id = Row.key _ from hid), ha], Market.Evolves.refl a⟩

theorem Placed.evolves {userId orderId : Uuid} {dto : PlaceOrderDto} {now createdAt : Timestamp}
    (h : Placed userId dto orderId now createdAt s t) : Evolves s t := by
  obtain ⟨-, -, hin, hmut, hmarkets, -, htrades⟩ := h
  exact ⟨fun {id o} ho => ⟨o, Table.find?_insert_of_some hin ho, Order.Evolves.refl o⟩,
    trades_evolve_of_eq htrades, markets_evolve_of_eq hmarkets, hmut.grows⟩

theorem Cancelled.evolves {userId orderId : Uuid} {createdAt : Timestamp}
    (h : Cancelled userId orderId createdAt s t) : Evolves s t := by
  obtain @⟨order, hfound, -, hopen, hsaved, hmut, hmarkets, -, htrades⟩ := h
  have hset := StatusSet.single hfound hsaved
  refine ⟨hset.evolves ?_, trades_evolve_of_eq htrades, markets_evolve_of_eq hmarkets,
    hmut.grows⟩
  intro id hid o ho
  rw [List.mem_singleton.mp hid, hfound] at ho
  cases ho
  rw [hopen]
  exact .cancelled

theorem TradeMade.evolves {orderId tradeId : Uuid} (h : TradeMade orderId tradeId s t) :
    Evolves s t := by
  obtain ⟨trade, y, n, -, -, hy, hn, hyopen, hnopen, -, hset, hin⟩ := h.paired
  obtain ⟨-, -, -, -, -, -, -, -, hledger, hmarkets, -⟩ := h
  refine ⟨hset.evolves ?_, fun {id tr} htr => ⟨tr, Table.find?_insert_of_some hin htr,
    Trade.Evolves.refl tr⟩, markets_evolve_of_eq hmarkets,
    ledger_grows_of_eq hledger⟩
  intro id hid o ho
  have hopen : o.status = .OPEN := by
    rcases List.mem_pair.mp hid with rfl | rfl
    · rw [hy] at ho
      cases ho
      exact hyopen
    · rw [hn] at ho
      cases ho
      exact hnopen
  rw [hopen]
  exact .paired

theorem MovedFrom.evolves {st : TradeStatus} {v : TradeMove} {tradeId : Uuid} (hs : s.Coherent)
    (hv : v.Consistent) (hnext : st.Next v.tradeStatus) (h : MovedFrom st v tradeId s t) :
    Evolves s t := by
  obtain ⟨trade, hfound, hst, hmoved⟩ := h
  have hset := hmoved.statusSet
  obtain ⟨-, -, -, hmut, hmut', -, -, hsaved, hmarkets, -⟩ := hmoved
  refine ⟨hset.evolves ?_, fun {id tr} htr => ?_, markets_evolve_of_eq hmarkets,
    hmut.grows.trans hmut'.grows⟩
  · intro id hid o ho
    have hhas : trade.Has id := (List.mem_pair.mp hid).imp Eq.symm Eq.symm
    rw [Coherent.status_of_has hs (Table.mem_of_find? hfound) hhas ho, hst,
      show v.orderStatus = v.tradeStatus.orderStatus from hv]
    exact hnext.orders
  · have hid : trade.id = tradeId := Table.key_of_find? hfound
    subst hid
    rw [Table.find?_update hsaved hfound]
    by_cases hid : id = trade.id
    · subst hid
      rw [hfound] at htr
      cases htr
      refine ⟨_, if_pos rfl, v.tradeStatus, rfl, Or.inr ?_⟩
      rw [hst]
      exact hnext
    · exact ⟨tr, by rw [if_neg (show ¬ id = Row.key _ from hid), htr], Trade.Evolves.refl tr⟩

end Parts

/-- **Every action respects the life cycles.** -/
theorem Action.Effect.evolves {m : Mode RowId} {s t : Db} {a : Action} (hs : s.Coherent)
    (h : a.Effect m s t) : Evolves s t := by
  have same : t = s → Evolves s t := by
    rintro rfl
    exact Evolves.refl t
  cases a with
  | createWalletForUser userId walletId =>
      refine h.elim same ?_
      rintro ⟨L, hL, rfl⟩
      exact evolves_ledger (grows_insertWallet hL)
  | deposit userId dto createdAt =>
      obtain ⟨L, rfl, hmut⟩ := h
      exact evolves_ledger hmut.grows
  | withdraw userId dto createdAt =>
      obtain ⟨L, rfl, hmut⟩ := h
      exact evolves_ledger hmut.grows
  | createMarket closesAt marketId now =>
      obtain ⟨hin, hledger, horders, htrades, -⟩ := h
      exact ⟨orders_evolve_of_eq horders, trades_evolve_of_eq htrades,
        fun {id a} ha => ⟨a, Table.find?_insert_of_some hin ha, Market.Evolves.refl a⟩,
        ledger_grows_of_eq hledger⟩
  | closeMarket marketId now => exact MarketsClosed.evolves h
  | closeExpiredMarkets now => exact MarketsClosed.evolves h
  | resolveMarket marketId winningSide createdAt => exact Resolved.evolves h
  | placeOrder userId dto orderId now createdAt => exact h.elim same Placed.evolves
  | cancelOrder userId orderId createdAt => exact Cancelled.evolves h
  | tryMatchOrder orderId tradeId => exact h.elim same TradeMade.evolves
  | failPendingTradeAndReleaseFunds tradeId createdAt =>
      exact h.elim same (MovedFrom.evolves hs rfl .failed)
  | handleSettlement tradeId createdAt => exact h.elim same (MovedFrom.evolves hs rfl .settled)
  | markSettlementFailure tradeId createdAt =>
      exact h.elim same (MovedFrom.evolves hs rfl .failed)
  | prepareTradeForRetry tradeId createdAt =>
      exact h.elim same (MovedFrom.evolves hs rfl .rearmed)
  | reopenOrders orders => exact same h

/-! ## What only one action does -/

section Only

variable {s t : Db} {m : Mode RowId}

/-- These actions leave the trades alone. -/
theorem Action.Effect.trades_eq {a : Action} (ha : a.leavesTrades = true) (h : a.Effect m s t) :
    t.trades = s.trades := by
  have same : t = s → t.trades = s.trades := by
    intro heq
    rw [heq]
  cases a with
  | createWalletForUser userId walletId =>
      refine h.elim same ?_
      rintro ⟨L, -, rfl⟩
      rfl
  | deposit userId dto createdAt =>
      obtain ⟨L, rfl, -⟩ := h
      rfl
  | withdraw userId dto createdAt =>
      obtain ⟨L, rfl, -⟩ := h
      rfl
  | createMarket closesAt marketId now => exact h.2.2.2.1
  | closeMarket marketId now =>
      obtain ⟨-, -, -, -, htrades⟩ := h
      exact htrades
  | closeExpiredMarkets now =>
      obtain ⟨-, -, -, -, htrades⟩ := h
      exact htrades
  | resolveMarket marketId winningSide createdAt =>
      obtain ⟨-, -, -, -, -, -, -, htrades⟩ := h
      exact htrades
  | placeOrder userId dto orderId now createdAt => exact h.elim same fun hplaced => hplaced.rest.2.2
  | cancelOrder userId orderId createdAt =>
      obtain ⟨-, -, -, -, -, -, -, htrades⟩ := h
      exact htrades
  | tryMatchOrder orderId tradeId => cases ha
  | failPendingTradeAndReleaseFunds tradeId createdAt => cases ha
  | handleSettlement tradeId createdAt => cases ha
  | markSettlementFailure tradeId createdAt => cases ha
  | prepareTradeForRetry tradeId createdAt => cases ha
  | reopenOrders orders => cases ha

/-- The trades after a move. -/
theorem MovedFrom.find?_trade {st : TradeStatus} {v : TradeMove} {tradeId : Uuid}
    (h : MovedFrom st v tradeId s t) : ∃ trade, s.trades.find? tradeId = some trade ∧
      trade.status = st ∧ ∀ id, t.trades.find? id =
        if id = tradeId then some (trade.withStatus v.tradeStatus) else s.trades.find? id := by
  obtain ⟨trade, hfound, hst, hmoved⟩ := h
  have hid : trade.id = tradeId := Table.key_of_find? hfound
  subst hid
  exact ⟨trade, hfound, hst, fun id => Table.find?_update hmoved.tradeSaved' hfound id⟩

/-- A move to another status than settled settles no trade. -/
theorem MovedFrom.settled_before {st : TradeStatus} {v : TradeMove} {tradeId : Uuid}
    (h : MovedFrom st v tradeId s t) (hv : v.tradeStatus ≠ .SETTLED) {id : Uuid} {trade : Trade}
    (ht : t.trades.find? id = some trade) (hst : trade.status = .SETTLED) :
    s.trades.find? id = some trade := by
  obtain ⟨moved, hfound, -, hfind⟩ := h.find?_trade
  rw [hfind] at ht
  by_cases hid : id = tradeId
  · rw [if_pos hid] at ht
    cases ht
    exact absurd hst hv
  · rw [if_neg hid] at ht
    exact ht

/-- Only `handleSettlement` settles a trade. -/
theorem Action.Effect.settled_before {a : Action} (h : a.Effect m s t)
    (ha : ∀ tradeId createdAt, a ≠ .handleSettlement tradeId createdAt) {id : Uuid} {trade : Trade}
    (ht : t.trades.find? id = some trade) (hst : trade.status = .SETTLED) :
    s.trades.find? id = some trade := by
  -- most transactions leave the trades alone, and of the others only one settles
  by_cases hleaves : a.leavesTrades = true
  · rw [← h.trades_eq hleaves]
    exact ht
  have same : t = s → s.trades.find? id = some trade := by
    rintro rfl
    exact ht
  cases a with
  | tryMatchOrder orderId tradeId =>
      refine h.elim same fun hmade => ?_
      obtain ⟨made, -, -, -, hpending, -, -, -, -, -, -, hin⟩ := hmade.paired
      rw [Table.find?_insert hin] at ht
      by_cases hid : Row.key made = id
      · rw [if_pos hid] at ht
        cases ht
        rw [hpending] at hst
        cases hst
      · rw [if_neg hid] at ht
        exact ht
  | failPendingTradeAndReleaseFunds tradeId createdAt =>
      exact h.elim same fun hmove => hmove.settled_before (by rintro ⟨⟩) ht hst
  | handleSettlement tradeId createdAt => exact absurd rfl (ha tradeId createdAt)
  | markSettlementFailure tradeId createdAt =>
      exact h.elim same fun hmove => hmove.settled_before (by rintro ⟨⟩) ht hst
  | prepareTradeForRetry tradeId createdAt =>
      exact h.elim same fun hmove => hmove.settled_before (by rintro ⟨⟩) ht hst
  | reopenOrders orders => exact same h
  | _ => exact absurd rfl hleaves

/-- Only `tryMatchOrder` makes a trade. -/
theorem Action.Effect.trade_before {a : Action} (h : a.Effect m s t)
    (ha : ∀ orderId tradeId, a ≠ .tryMatchOrder orderId tradeId) {id : Uuid} {trade : Trade}
    (ht : t.trades.find? id = some trade) : ∃ trade', s.trades.find? id = some trade' := by
  by_cases hleaves : a.leavesTrades = true
  · exact ⟨trade, by rw [← h.trades_eq hleaves, ht]⟩
  have same : t = s → ∃ trade', s.trades.find? id = some trade' := by
    rintro rfl
    exact ⟨trade, ht⟩
  have moved : ∀ {st v tradeId}, MovedFrom st v tradeId s t →
      ∃ trade', s.trades.find? id = some trade' := by
    intro st v tradeId hmoved
    obtain ⟨old, hfound, -, hfind⟩ := hmoved.find?_trade
    by_cases hid : id = tradeId
    · exact ⟨old, by rw [hid, hfound]⟩
    · rw [hfind, if_neg hid] at ht
      exact ⟨trade, ht⟩
  cases a with
  | tryMatchOrder orderId tradeId => exact absurd rfl (ha orderId tradeId)
  | failPendingTradeAndReleaseFunds tradeId createdAt => exact h.elim same moved
  | handleSettlement tradeId createdAt => exact h.elim same moved
  | markSettlementFailure tradeId createdAt => exact h.elim same moved
  | prepareTradeForRetry tradeId createdAt => exact h.elim same moved
  | reopenOrders orders => exact same h
  | _ => exact absurd rfl hleaves

/-- What a transaction does to the markets. -/
inductive MarketsStep (a : Action) (s t : Db) : Prop
  | same (unchanged : t.markets = s.markets)
  | created {closesAt now : Timestamp} {marketId : Uuid}
      (action : a = .createMarket closesAt marketId now)
      (inserted : s.markets.insert? ⟨marketId, .OPEN, some closesAt, none⟩ = some t.markets)
  | closed (closed : MarketsClosed s t)
  | resolved {marketId : Uuid} {winningSide : OutcomeSide} {createdAt : Timestamp} {market : Market}
      (action : a = .resolveMarket marketId winningSide createdAt)
      (found : s.markets.find? marketId = some market)
      (saved : s.markets.update?
        { market with status := .RESOLVED, resolvedOutcome := some winningSide } = some t.markets)

theorem Action.Effect.marketsStep {a : Action} (h : a.Effect m s t) : MarketsStep a s t := by
  have same : t = s → MarketsStep a s t := by
    rintro rfl
    exact .same rfl
  have moved : ∀ {st v tradeId}, MovedFrom st v tradeId s t → MarketsStep a s t := by
    rintro st v tradeId ⟨trade, -, -, -, -, -, -, -, -, -, -, hmarkets, -⟩
    exact .same hmarkets
  cases a with
  | createWalletForUser userId walletId =>
      refine h.elim same ?_
      rintro ⟨L, -, rfl⟩
      exact .same rfl
  | deposit userId dto createdAt =>
      obtain ⟨L, rfl, -⟩ := h
      exact .same rfl
  | withdraw userId dto createdAt =>
      obtain ⟨L, rfl, -⟩ := h
      exact .same rfl
  | createMarket closesAt marketId now => exact .created rfl h.1
  | closeMarket marketId now => exact .closed h
  | closeExpiredMarkets now => exact .closed h
  | resolveMarket marketId winningSide createdAt =>
      obtain ⟨hfound, -, -, -, hsaved, -⟩ := h
      exact .resolved rfl hfound hsaved
  | placeOrder userId dto orderId now createdAt =>
      exact h.elim same fun hplaced => .same hplaced.rest.1
  | cancelOrder userId orderId createdAt =>
      obtain ⟨-, -, -, -, -, hmarkets, -⟩ := h
      exact .same hmarkets
  | tryMatchOrder orderId tradeId =>
      refine h.elim same fun hmade => ?_
      obtain ⟨-, -, -, -, -, -, -, -, -, hmarkets, -⟩ := hmade
      exact .same hmarkets
  | failPendingTradeAndReleaseFunds tradeId createdAt => exact h.elim same moved
  | handleSettlement tradeId createdAt => exact h.elim same moved
  | markSettlementFailure tradeId createdAt => exact h.elim same moved
  | prepareTradeForRetry tradeId createdAt => exact h.elim same moved
  | reopenOrders orders => exact same h

/-- Closing markets resolves none. -/
theorem MarketsClosed.resolved_before (h : MarketsClosed s t) {id : Uuid} {market : Market}
    (hm : t.markets.find? id = some market) (hst : market.status = .RESOLVED) :
    s.markets.find? id = some market := by
  have hrel := h.markets id
  rw [hm] at hrel
  generalize s.markets.find? id = o at hrel
  cases hrel with
  | @some a b hcloses =>
      rcases hcloses with rfl | ⟨-, hclosed, -⟩
      · rfl
      · rw [hst] at hclosed
        cases hclosed

/-- Only `resolveMarket` resolves a market. -/
theorem Action.Effect.resolved_before {a : Action} (h : a.Effect m s t)
    (ha : ∀ marketId winningSide createdAt, a ≠ .resolveMarket marketId winningSide createdAt)
    {id : Uuid} {market : Market} (hm : t.markets.find? id = some market)
    (hst : market.status = .RESOLVED) : s.markets.find? id = some market := by
  cases h.marketsStep with
  | same unchanged =>
      rw [← unchanged]
      exact hm
  | @created closesAt now marketId action inserted =>
      -- a market is created open, so it is not the one that is resolved
      rw [Table.find?_insert inserted, key_market] at hm
      by_cases hid : marketId = id
      · rw [if_pos hid] at hm
        cases hm
        cases hst
      · rw [if_neg hid] at hm
        exact hm
  | closed closed => exact closed.resolved_before hm hst
  | resolved action found saved => exact absurd action (ha _ _ _)

end Only

/-! ## What is final -/

section Final

variable {s t : Db}

theorem Evolves.settled (h : Evolves s t) {id : Uuid} {trade : Trade}
    (ht : s.trades.find? id = some trade) (hst : trade.status = .SETTLED) :
    t.trades.find? id = some trade := by
  obtain ⟨trade', ht', st, rfl, hcase⟩ := h.trades ht
  rcases hcase with rfl | hnext
  · exact ht'
  · rw [hst] at hnext
    exact absurd hnext TradeStatus.not_next_settled

theorem Evolves.matched (h : Evolves s t) {id : Uuid} {o : Order}
    (ho : s.orders.find? id = some o) (hst : o.status = .MATCHED) :
    t.orders.find? id = some o := by
  obtain ⟨o', ho', st, rfl, hcase⟩ := h.orders ho
  rcases hcase with rfl | hnext
  · exact ho'
  · rw [hst] at hnext
    exact absurd hnext OrderStatus.not_next_matched

/-- A resolved market stays resolved. -/
theorem Evolves.resolved (h : Evolves s t) {id : Uuid} {market : Market}
    (hm : s.markets.find? id = some market) (hst : market.status = .RESOLVED) :
    t.markets.find? id = some market := by
  obtain ⟨market', hm', hcase⟩ := h.markets hm
  rcases hcase with (rfl | ⟨hopen, -⟩) | ⟨hne, -⟩
  · exact hm'
  · rw [hst] at hopen
    cases hopen
  · exact absurd hst hne

/-- A market that is not open does not open again. -/
theorem Evolves.not_open (h : Evolves s t) {id : Uuid} {market : Market}
    (hm : s.markets.find? id = some market) (hst : market.status ≠ .OPEN) :
    ∃ market', t.markets.find? id = some market' ∧ market'.status ≠ .OPEN := by
  obtain ⟨market', hm', hcase⟩ := h.markets hm
  refine ⟨market', hm', ?_⟩
  rcases hcase with (rfl | ⟨hopen, -⟩) | ⟨-, winningSide, rfl⟩
  · exact hst
  · exact absurd hopen hst
  · rintro ⟨⟩

variable {A : Action → Prop} {c c' : Conf dbStore Err Unit Action}

/-- What one event of the interleaved exchange does to the committed rows. -/
theorem interleaved_evolves {e : Event Action} (h : (interleaved A).Reachable c)
    (hst : (interleaved A).step c e c') : Evolves c.committed c'.committed := by
  rcases interleaved_step h hst with hsame | ⟨i, x, -, -, -, heff, -⟩
  · rw [hsame]
    exact Evolves.refl _
  · exact heff.evolves (coherent_of_interleaved h)

/-- A settled trade is as it is in every later state. -/
theorem settled_final {ls : List (Event Action)} (h : (interleaved A).Reachable c)
    (hrun : (interleaved A).Run c ls c') {id : Uuid} {trade : Trade}
    (ht : c.committed.trades.find? id = some trade) (hst : trade.status = .SETTLED) :
    c'.committed.trades.find? id = some trade := by
  refine hrun.preserves (fun c => c.committed.trades.find? id = some trade) ?_ h ht
  intro d e d' hd htd hstep
  exact (interleaved_evolves hd hstep).settled htd hst

/-- A matched order is as it is in every later state. -/
theorem matched_final {ls : List (Event Action)} (h : (interleaved A).Reachable c)
    (hrun : (interleaved A).Run c ls c') {id : Uuid} {o : Order}
    (ho : c.committed.orders.find? id = some o) (hst : o.status = .MATCHED) :
    c'.committed.orders.find? id = some o := by
  refine hrun.preserves (fun c => c.committed.orders.find? id = some o) ?_ h ho
  intro d e d' hd hod hstep
  exact (interleaved_evolves hd hstep).matched hod hst

end Final

end OutcomeExchange
