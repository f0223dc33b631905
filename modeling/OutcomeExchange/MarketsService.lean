import OutcomeExchange.WalletService
import OutcomeExchange.IdempotencyKeys

set_option autoImplicit false

/-! # MarketsService and MarketAccessService

The life of a market: created open, closed by an administrator or by the clock, resolved
once, which pays the winner of every settled trade. Identifiers the database generates
and the clocks are parameters: `now` is the clock of the process (`Date.now()`),
`createdAt` that of the database. -/

namespace OutcomeExchange

open Txn

/-! ## Opening and closing -/

/-- `createMarket`; `marketId` is the identifier the database generates. -/
def createMarket (closesAt : Timestamp) (marketId : Uuid) (now : Timestamp) : Tx Market :=
  if closesAt ≤ now then Prog.throw (.badRequest "closesAt must be in the future")
  else do
    let market : Market := ⟨marketId, .OPEN, some closesAt, none⟩
    insertMarket market
    insertOutcomes [⟨marketId, .YES⟩, ⟨marketId, .NO⟩]
    return market

def getOpenMarketForOrderPlacement (marketId : Uuid) (now : Timestamp) : Tx Market := do
  match ← findMarketForUpdate marketId with
  | none => Prog.throw (.notFound "Market not found")
  | some market =>
      if market.status ≠ .OPEN then Prog.throw (.badRequest "Market is not open")
      else if market.closesAt.any (fun closesAt => closesAt ≤ now) then
        Prog.throw (.badRequest "Market is closed")
      else return market

/-- The market as `closeMarket` saves it. -/
def Market.closed (market : Market) (now : Timestamp) : Market :=
  { market with
    status := .CLOSED
    closesAt := if market.closesAt.all (fun closesAt => now < closesAt) then some now
      else market.closesAt }

def closeMarket (marketId : Uuid) (now : Timestamp) : Tx Market := do
  match ← findMarketForUpdate marketId with
  | none => Prog.throw (.notFound "Market not found")
  | some market =>
      if market.status = .RESOLVED then
        Prog.throw (.badRequest "Resolved market cannot be closed")
      else if market.status = .CLOSED then return market
      else do
        saveMarket (market.closed now)
        return market.closed now

/-- The `WHERE` clause of `closeExpiredMarkets`. -/
def Market.expired (market : Market) (now : Timestamp) : Bool :=
  market.status = .OPEN && market.closesAt.any (fun closesAt => closesAt ≤ now)

/-- The rows of a bulk `UPDATE`, one after the other: each row is locked and the `WHERE`
clause is checked again on it. -/
def closeExpired (now : Timestamp) : List Uuid → Tx ℕ
  | [] => return 0
  | id :: ids => do
      match ← findMarketForUpdate id with
      | none => closeExpired now ids
      | some market =>
          if market.expired now then do
            saveMarket { market with status := .CLOSED }
            let affected ← closeExpired now ids
            return affected + 1
          else closeExpired now ids

def closeExpiredMarkets (now : Timestamp) : Tx ℕ := do
  let ids ← Prog.query fun db : Db =>
    (db.markets.rows.filter (fun market => market.expired now)).map Market.id
  closeExpired now ids

/-! ## Resolution -/

/-- The order on the winning side of a trade. -/
def Trade.orderOn (trade : Trade) : OutcomeSide → Uuid
  | .YES => trade.yesOrderId
  | .NO => trade.noOrderId

/-- The loop of `resolveMarket` over the settled trades. -/
def creditWinners (market : Market) (winningSide : OutcomeSide) (orders : List Order)
    (createdAt : Timestamp) : List Trade → Tx Unit
  | [] => return ()
  | trade :: rest => do
      match orders.find? (fun order => order.id = trade.orderOn winningSide) with
      | none => Prog.throw (.notFound ("Winning order not found for trade " ++ trade.id.text))
      | some winnerOrder =>
          let payoutCents := trade.quantity * 100
          if isSafeInteger payoutCents = false ∨ payoutCents ≤ 0 then
            Prog.throw (.badRequest ("Invalid payout amount for trade " ++ trade.id.text))
          else do
            let _ ← settleCredit winnerOrder.userId (.int payoutCents)
              (EngineKey.credit market.id trade.id winningSide).text trade.id.text createdAt
            creditWinners market winningSide orders createdAt rest

def hasPendingSettlements (marketId : Uuid) (db : Db) : Bool :=
  db.trades.rows.any (fun trade => trade.marketId = marketId && trade.status = .PENDING_SETTLEMENT)

def settledTradesOf (marketId : Uuid) (db : Db) : List Trade :=
  db.trades.rows.filter (fun trade => trade.marketId = marketId && trade.status = .SETTLED)

/-- The orders of the settled trades, `id IN (…)`. -/
def ordersOf (settledTrades : List Trade) (db : Db) : List Order :=
  db.orders.rows.filter fun order =>
    (settledTrades.flatMap fun trade => [trade.yesOrderId, trade.noOrderId]).contains order.id

def resolveMarket (marketId : Uuid) (winningSide : OutcomeSide) (createdAt : Timestamp) :
    Tx Market := do
  match ← findMarketForUpdate marketId with
  | none => Prog.throw (.notFound "Market not found")
  | some market =>
      if market.status = .RESOLVED then Prog.throw (.badRequest "Market is already resolved")
      else do
        let hasWinningOutcome ← Prog.query fun db : Db =>
          db.outcomes.any (fun o => o.marketId = marketId && o.side = winningSide)
        if hasWinningOutcome = false then
          Prog.throw (.badRequest "Winning side is not defined for this market")
        else do
          let pending ← Prog.query (hasPendingSettlements marketId)
          if pending = true then
            Prog.throw (.conflict "Cannot resolve market while settlements are pending")
          else do
            let settledTrades ← Prog.query (settledTradesOf marketId)
            let orders ← Prog.query (ordersOf settledTrades)
            creditWinners market winningSide orders createdAt settledTrades
            saveMarket { market with status := .RESOLVED, resolvedOutcome := some winningSide }
            return { market with status := .RESOLVED, resolvedOutcome := some winningSide }

/-! ## What the transactions do -/

/-- A closing time that is set is not moved later. -/
def NotLater (old new : Option Timestamp) : Prop :=
  ∀ closesAt, old = some closesAt → ∃ closesAt', new = some closesAt' ∧ closesAt' ≤ closesAt

theorem NotLater.refl (closesAt : Option Timestamp) : NotLater closesAt closesAt :=
  fun time h => ⟨time, h, le_refl time⟩

theorem NotLater.trans {a b c : Option Timestamp} (h : NotLater a b) (h' : NotLater b c) :
    NotLater a c := by
  intro time ha
  obtain ⟨time', hb, hle⟩ := h time ha
  obtain ⟨time'', hc, hle'⟩ := h' time' hb
  exact ⟨time'', hc, le_trans hle' hle⟩

theorem Market.closed_notLater (market : Market) (now : Timestamp) :
    NotLater market.closesAt (market.closed now).closesAt := by
  intro time htime
  by_cases hlate : now < time
  · exact ⟨now, by simp [Market.closed, htime, hlate], le_of_lt hlate⟩
  · exact ⟨time, by simp [Market.closed, htime, hlate], le_refl time⟩

/-- A market stays as it is, or an open one is closed. -/
def Market.Closes (a b : Market) : Prop :=
  b = a ∨ (a.status = .OPEN ∧ b.status = .CLOSED ∧ b.resolvedOutcome = a.resolvedOutcome ∧
    NotLater a.closesAt b.closesAt)

/-- Some open markets are closed and nothing else happens. -/
structure MarketsClosed (s t : Db) : Prop where
  markets : ∀ id, Option.Rel Market.Closes (s.markets.find? id) (t.markets.find? id)
  rest : t.ledger = s.ledger ∧ t.outcomes = s.outcomes ∧ t.orders = s.orders ∧ t.trades = s.trades

theorem Market.Closes.trans {a b c : Market} (h : a.Closes b) (h' : b.Closes c) : a.Closes c := by
  rcases h with rfl | ⟨ha, hb, hr, htime⟩
  · exact h'
  rcases h' with rfl | ⟨hb', -, -, -⟩
  · exact Or.inr ⟨ha, hb, hr, htime⟩
  · rw [hb] at hb'
    cases hb'

theorem MarketsClosed.refl (s : Db) : MarketsClosed s s where
  markets id := by
    cases s.markets.find? id with
    | none => exact .none
    | some market => exact .some (Or.inl rfl)
  rest := ⟨rfl, rfl, rfl, rfl⟩

theorem MarketsClosed.trans {s t u : Db} (h : MarketsClosed s t) (h' : MarketsClosed t u) :
    MarketsClosed s u where
  markets id := by
    have hst := h.markets id
    have htu := h'.markets id
    generalize s.markets.find? id = a at hst
    generalize t.markets.find? id = b at hst htu
    generalize u.markets.find? id = c at htu
    cases hst with
    | none => exact htu
    | some hab =>
        cases htu with
        | some hbc => exact .some (hab.trans hbc)
  rest := by
    obtain ⟨h₁, h₂, h₃, h₄⟩ := h.rest
    obtain ⟨h₁', h₂', h₃', h₄'⟩ := h'.rest
    exact ⟨h₁'.trans h₁, h₂'.trans h₂, h₃'.trans h₃, h₄'.trans h₄⟩

/-- Saving one market closed. -/
theorem MarketsClosed.single {s : Db} {a b : Market} {markets : Table Market}
    (ha : s.markets.find? b.id = some a) (h : a.Closes b)
    (hsave : s.markets.update? b = some markets) :
    MarketsClosed s { s with markets := markets } where
  markets id := by
    show Option.Rel Market.Closes (s.markets.find? id) (markets.find? id)
    rw [Table.find?_update hsave ha]
    by_cases hid : id = b.id
    · rw [if_pos (show id = Row.key b from hid), hid, ha]
      exact .some h
    · rw [if_neg (show ¬ id = Row.key b from hid)]
      exact (MarketsClosed.refl s).markets id
  rest := ⟨rfl, rfl, rfl, rfl⟩

/-- The payouts of `resolveMarket`, one after the other. -/
inductive Credited (market : Market) (winningSide : OutcomeSide) (orders : List Order)
    (createdAt : Timestamp) : List Trade → Ledger → Ledger → Prop
  | nil (L : Ledger) : Credited market winningSide orders createdAt [] L L
  | cons {trade : Trade} {rest : List Trade} {winnerOrder : Order} {L₁ L₂ L₃ : Ledger}
      (winner : orders.find? (fun order => order.id = trade.orderOn winningSide) = some winnerOrder)
      (credited : Mutated (settleCreditParams winnerOrder.userId (.int (trade.quantity * 100))
        (EngineKey.credit market.id trade.id winningSide).text trade.id.text createdAt) L₁ L₂)
      (others : Credited market winningSide orders createdAt rest L₂ L₃) :
      Credited market winningSide orders createdAt (trade :: rest) L₁ L₃

/-- A market is resolved. Only an execution by itself pays from the trades as they are. -/
inductive Resolved (m : Mode RowId) (marketId : Uuid) (winningSide : OutcomeSide)
    (createdAt : Timestamp) (s t : Db) : Prop
  | intro {market : Market} {trades : List Trade} {orders : List Order}
      (found : s.markets.find? marketId = some market)
      (unresolved : market.status ≠ .RESOLVED)
      (snapshot : ¬ m.stale → hasPendingSettlements marketId s = false ∧
        trades = settledTradesOf marketId s ∧ orders = ordersOf trades s)
      (credited : Credited market winningSide orders createdAt trades s.ledger t.ledger)
      (saved : s.markets.update?
        { market with status := .RESOLVED, resolvedOutcome := some winningSide } = some t.markets)
      (rest : t.outcomes = s.outcomes ∧ t.orders = s.orders ∧ t.trades = s.trades)

section Exec

variable {m : Mode RowId} {s t : Db}

/-- A new market is open and has no orders yet. -/
theorem exec_createMarket {closesAt now : Timestamp} {marketId : Uuid} {r : Market}
    (h : Exec m (createMarket closesAt marketId now) s r t) :
    s.markets.insert? ⟨marketId, .OPEN, some closesAt, none⟩ = some t.markets ∧
      t.ledger = s.ledger ∧ t.orders = s.orders ∧ t.trades = s.trades ∧
      t.outcomes = s.outcomes ++ [⟨marketId, .YES⟩, ⟨marketId, .NO⟩] := by
  unfold createMarket at h
  by_cases hpast : closesAt ≤ now
  · rw [if_pos hpast] at h
    exact (exec_throw.mp h).elim
  rw [if_neg hpast] at h
  obtain ⟨_, s₁, hinsert, h⟩ := exec_bind.mp h
  obtain ⟨markets, hmarkets, rfl⟩ := exec_insertMarket.mp hinsert
  obtain ⟨_, s₂, hinsert', h⟩ := exec_bind.mp h
  cases exec_insertOutcomes.mp hinsert'
  obtain ⟨-, rfl⟩ := exec_pure.mp h
  exact ⟨hmarkets, rfl, rfl, rfl, rfl⟩

theorem exec_closeMarket {marketId : Uuid} {now : Timestamp} {r : Market}
    (h : Exec m (closeMarket marketId now) s r t) : MarketsClosed s t := by
  unfold closeMarket at h
  obtain ⟨o, s₁, hread, h⟩ := exec_bind.mp h
  obtain ⟨rfl, hfound⟩ := exec_findMarketForUpdate.mp hread
  cases o with
  | none => exact (exec_throw.mp h).elim
  | some market =>
      simp only [reduceCtorEq, and_false, or_false] at hfound
      dsimp only at h
      -- the guards in the order of the source
      by_cases hresolved : market.status = .RESOLVED
      · rw [if_pos hresolved] at h
        exact (exec_throw.mp h).elim
      rw [if_neg hresolved] at h
      by_cases hclosed : market.status = .CLOSED
      · rw [if_pos hclosed] at h
        obtain ⟨-, rfl⟩ := exec_pure.mp h
        exact MarketsClosed.refl s
      rw [if_neg hclosed] at h
      obtain ⟨_, s₁, hsave, h⟩ := exec_bind.mp h
      obtain ⟨markets, hmarkets, rfl⟩ := exec_saveMarket.mp hsave
      obtain ⟨-, rfl⟩ := exec_pure.mp h
      have hopen : market.status = .OPEN := by
        cases hst : market.status with
        | OPEN => rfl
        | CLOSED => exact absurd hst hclosed
        | RESOLVED => exact absurd hst hresolved
      have hid : market.id = marketId := Table.key_of_find? hfound.symm
      subst hid
      exact MarketsClosed.single (b := market.closed now) hfound.symm
        (Or.inr ⟨hopen, rfl, rfl, market.closed_notLater now⟩) hmarkets

theorem exec_closeExpired {now : Timestamp} {ids : List Uuid} {r : ℕ}
    (h : Exec m (closeExpired now ids) s r t) : MarketsClosed s t := by
  induction ids generalizing s r with
  | nil =>
      obtain ⟨-, rfl⟩ := exec_pure.mp h
      exact MarketsClosed.refl s
  | cons id ids ih =>
      simp only [closeExpired] at h
      obtain ⟨o, s₁, hread, h⟩ := exec_bind.mp h
      obtain ⟨rfl, hfound⟩ := exec_findMarketForUpdate.mp hread
      cases o with
      | none => exact ih h
      | some market =>
          simp only [reduceCtorEq, and_false, or_false] at hfound
          dsimp only at h
          -- the market may have been closed since it was found to be expired
          by_cases hexp : market.expired now = true
          case neg =>
            rw [if_neg hexp] at h
            exact ih h
          rw [if_pos hexp] at h
          obtain ⟨_, s₁, hsave, h⟩ := exec_bind.mp h
          obtain ⟨markets, hmarkets, rfl⟩ := exec_saveMarket.mp hsave
          obtain ⟨n, s₂, hrec, h⟩ := exec_bind.mp h
          obtain ⟨-, rfl⟩ := exec_pure.mp h
          have hopen : market.status = .OPEN := by
            rw [Market.expired, Bool.and_eq_true, decide_eq_true_eq] at hexp
            exact hexp.1
          have hid : market.id = id := Table.key_of_find? hfound.symm
          subst hid
          exact (MarketsClosed.single (b := { market with status := .CLOSED }) hfound.symm
            (Or.inr ⟨hopen, rfl, rfl, NotLater.refl _⟩) hmarkets).trans (ih hrec)

theorem exec_closeExpiredMarkets {now : Timestamp} {r : ℕ}
    (h : Exec m (closeExpiredMarkets now) s r t) : MarketsClosed s t := by
  unfold closeExpiredMarkets at h
  obtain ⟨ids, s₁, hread, h⟩ := exec_bind.mp h
  obtain ⟨rfl, -⟩ := exec_query.mp hread
  exact exec_closeExpired h

theorem exec_creditWinners {market : Market} {winningSide : OutcomeSide} {orders : List Order}
    {createdAt : Timestamp} {trades : List Trade} {u : Unit}
    (h : Exec m (creditWinners market winningSide orders createdAt trades) s u t) :
    ∃ L, t = { s with ledger := L } ∧
      Credited market winningSide orders createdAt trades s.ledger L := by
  induction trades generalizing s with
  | nil =>
      obtain ⟨-, rfl⟩ := exec_pure.mp h
      exact ⟨s.ledger, rfl, .nil _⟩
  | cons trade rest ih =>
      simp only [creditWinners] at h
      cases hwinner : orders.find? (fun order => order.id = trade.orderOn winningSide) with
      | none =>
          rw [hwinner] at h
          exact (exec_throw.mp h).elim
      | some winnerOrder =>
          rw [hwinner] at h
          dsimp only at h
          by_cases hbad : isSafeInteger (trade.quantity * 100) = false ∨ trade.quantity * 100 ≤ 0
          · rw [if_pos hbad] at h
            exact (exec_throw.mp h).elim
          rw [if_neg hbad] at h
          obtain ⟨_, s₁, hcall, h⟩ := exec_bind.mp h
          obtain ⟨L₁, rfl, hmut⟩ := exec_movement hcall
          obtain ⟨L₂, rfl, hrest⟩ := ih h
          exact ⟨L₂, rfl, .cons hwinner hmut hrest⟩

theorem exec_resolveMarket {marketId : Uuid} {winningSide : OutcomeSide} {createdAt : Timestamp}
    {r : Market} (h : Exec m (resolveMarket marketId winningSide createdAt) s r t) :
    Resolved m marketId winningSide createdAt s t := by
  unfold resolveMarket at h
  obtain ⟨o, s₁, hread, h⟩ := exec_bind.mp h
  obtain ⟨rfl, hfound⟩ := exec_findMarketForUpdate.mp hread
  cases o with
  | none => exact (exec_throw.mp h).elim
  | some market =>
      simp only [reduceCtorEq, and_false, or_false] at hfound
      dsimp only at h
      -- the guards in the order of the source
      by_cases hresolved : market.status = .RESOLVED
      · rw [if_pos hresolved] at h
        exact (exec_throw.mp h).elim
      rw [if_neg hresolved] at h
      obtain ⟨has, s₁, hread', h⟩ := exec_bind.mp h
      obtain ⟨rfl, -⟩ := exec_query.mp hread'
      by_cases hhas : has = false
      · rw [if_pos hhas] at h
        exact (exec_throw.mp h).elim
      rw [if_neg hhas] at h
      obtain ⟨pending, s₁, hreadPending, h⟩ := exec_bind.mp h
      obtain ⟨rfl, hpend⟩ := exec_query.mp hreadPending
      by_cases hpending : pending = true
      · rw [if_pos hpending] at h
        exact (exec_throw.mp h).elim
      rw [if_neg hpending] at h
      obtain ⟨trades, s₁, hreadTrades, h⟩ := exec_bind.mp h
      obtain ⟨rfl, htrades⟩ := exec_query.mp hreadTrades
      obtain ⟨orders, s₁, hreadOrders, h⟩ := exec_bind.mp h
      obtain ⟨rfl, horders⟩ := exec_query.mp hreadOrders
      obtain ⟨_, s₁, hcredit, h⟩ := exec_bind.mp h
      obtain ⟨L, rfl, hcredited⟩ := exec_creditWinners hcredit
      obtain ⟨_, s₂, hsave, h⟩ := exec_bind.mp h
      obtain ⟨markets, hmarkets, rfl⟩ := exec_saveMarket.mp hsave
      obtain ⟨-, rfl⟩ := exec_pure.mp h
      -- what is read without a lock is known to be true only if nobody else runs
      refine .intro hfound.symm hresolved (fun hm => ?_) hcredited hmarkets ⟨rfl, rfl, rfl⟩
      refine ⟨?_, ?_, ?_⟩
      · rcases hpend with rfl | ⟨hm', -⟩
        · simpa using hpending
        · exact absurd hm' hm
      · rcases htrades with htrades | ⟨hm', -⟩
        · exact htrades
        · exact absurd hm' hm
      · rcases horders with horders | ⟨hm', -⟩
        · exact horders
        · exact absurd hm' hm

end Exec

end OutcomeExchange
