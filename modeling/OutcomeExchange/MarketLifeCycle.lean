import OutcomeExchange.LifeCycle
import OutcomeExchange.Runs

set_option autoImplicit false

/-! # The life cycle of a market

A market is open, then closed, then resolved; a step may be left out and none is taken
back. Orders are placed while it is open and before its closing time. Both are facts about
one committed transaction (`Evolves` and `Action.Effect.order_before`), carried along every
interleaving. -/

namespace OutcomeExchange

open Txn

def MarketStatus.rank : MarketStatus → ℕ
  | .OPEN => 0
  | .CLOSED => 1
  | .RESOLVED => 2

/-- What may become of a market. -/
structure Market.Forward (a b : Market) : Prop where
  status : a.status.rank ≤ b.status.rank
  outcome : a.status = .RESOLVED → b.resolvedOutcome = a.resolvedOutcome
  closesAt : NotLater a.closesAt b.closesAt

/-- The orders of a market after `s` are those that it had in `s`. -/
def NoNewOrders (marketId : Uuid) (s t : Db) : Prop :=
  ∀ order ∈ t.orders.rows, order.marketId = marketId → ∃ order' ∈ s.orders.rows, order'.id = order.id

/-- A market has an outcome exactly when it is resolved. -/
def Market.Decided (market : Market) : Prop :=
  market.resolvedOutcome.isSome = true ↔ market.status = .RESOLVED

section Market

variable {a b c : Market}

theorem Market.Forward.refl (a : Market) : a.Forward a where
  status := le_refl _
  outcome _ := rfl
  closesAt := NotLater.refl _

theorem MarketStatus.rank_resolved {st : MarketStatus} : 2 ≤ st.rank ↔ st = .RESOLVED := by
  cases st <;> simp [MarketStatus.rank]

theorem Market.Forward.trans (h : a.Forward b) (h' : b.Forward c) : a.Forward c where
  status := le_trans h.status h'.status
  outcome ha := by
    have hb : b.status = .RESOLVED := by
      rw [← MarketStatus.rank_resolved] at ha ⊢
      have hle := h.status
      omega
    rw [h'.outcome hb, h.outcome ha]
  closesAt := h.closesAt.trans h'.closesAt

theorem Market.Evolves.forward (h : a.Evolves b) : a.Forward b := by
  rcases h with (rfl | ⟨hopen, hclosed, -, htime⟩) | ⟨hne, winningSide, rfl⟩
  · exact Market.Forward.refl _
  · refine ⟨?_, fun hres => ?_, htime⟩
    · rw [hopen, hclosed]
      decide
    · rw [hres] at hopen
      cases hopen
  · refine ⟨?_, fun hres => absurd hres hne, NotLater.refl _⟩
    show a.status.rank ≤ MarketStatus.RESOLVED.rank
    cases a.status <;> decide

theorem Market.Decided.evolves (h : a.Decided) (hev : a.Evolves b) : b.Decided := by
  rcases hev with (rfl | ⟨hopen, hclosed, hres, -⟩) | ⟨-, winningSide, rfl⟩
  · exact h
  · unfold Market.Decided at h ⊢
    rw [hres, h, hopen, hclosed]
    decide
  · simp [Market.Decided]

end Market

/-! ## What only one action does -/

section Only

variable {m : Mode RowId} {s t : Db}

/-- Only `createMarket` makes a market, which is then open. -/
theorem Action.Effect.market_before {a : Action} (h : a.Effect m s t) {id : Uuid} {market : Market}
    (hm : t.markets.find? id = some market) :
    (∃ market', s.markets.find? id = some market') ∨
      ((∃ closesAt now, a = .createMarket closesAt id now) ∧
        market.status = .OPEN ∧ market.resolvedOutcome = none) := by
  cases h.marketsStep with
  | same unchanged => exact Or.inl ⟨market, by rw [← unchanged, hm]⟩
  | @created closesAt now marketId action inserted =>
      rw [Table.find?_insert inserted, key_market] at hm
      by_cases hid : marketId = id
      · rw [if_pos hid] at hm
        cases hm
        exact Or.inr ⟨⟨closesAt, now, by rw [action, hid]⟩, rfl, rfl⟩
      · rw [if_neg hid] at hm
        exact Or.inl ⟨market, hm⟩
  | closed closed =>
      -- closing keeps the rows, so the market is one of the old ones
      have hrel := closed.markets id
      rw [hm] at hrel
      generalize s.markets.find? id = o at hrel
      cases hrel with
      | @some old _ hcloses => exact Or.inl ⟨old, rfl⟩
  | @resolved marketId winningSide createdAt old action found saved =>
      have hid : old.id = marketId := Table.key_of_find? found
      rw [Table.find?_update saved (hid ▸ found)] at hm
      by_cases hsame : id = marketId
      · exact Or.inl ⟨old, by rw [hsame, found]⟩
      · rw [if_neg (by rw [key_market, hid]; exact hsame)] at hm
        exact Or.inl ⟨market, hm⟩

/-- Only `placeOrder` inserts an order. -/
theorem Action.Effect.order_before {a : Action} (h : a.Effect m s t) {id : Uuid} {order : Order}
    (ho : t.orders.find? id = some order) : (∃ order', s.orders.find? id = some order') ∨
      ∃ userId dto orderId now createdAt, a = .placeOrder userId dto orderId now createdAt ∧
        order = dto.order userId orderId createdAt ∧ Placed userId dto orderId now createdAt s t := by
  have orders : t.orders = s.orders → ∃ order', s.orders.find? id = some order' :=
    fun heq => ⟨order, heq ▸ ho⟩
  have same : t = s → ∃ order', s.orders.find? id = some order' := fun heq => orders (by rw [heq])
  -- a change of status keeps the identifiers
  have set : ∀ {ids st}, StatusSet ids st s.orders t.orders →
      ∃ order', s.orders.find? id = some order' := by
    intro ids st hset
    obtain ⟨order', ho', -⟩ := hset.find?_some ho
    exact ⟨order', ho'⟩
  have moved : ∀ {st v tradeId}, MovedFrom st v tradeId s t →
      ∃ order', s.orders.find? id = some order' := by
    intro st v tradeId hmoved
    obtain ⟨trade, -, -, hmoved⟩ := hmoved
    exact set hmoved.statusSet
  cases a with
  | createWalletForUser userId walletId =>
      left
      refine h.elim same ?_
      rintro ⟨L, -, rfl⟩
      exact ⟨order, ho⟩
  | deposit userId dto createdAt =>
      obtain ⟨L, rfl, -⟩ := h
      exact Or.inl ⟨order, ho⟩
  | withdraw userId dto createdAt =>
      obtain ⟨L, rfl, -⟩ := h
      exact Or.inl ⟨order, ho⟩
  | createMarket closesAt marketId now => exact Or.inl (orders h.2.2.1)
  | closeMarket marketId now => exact Or.inl (orders h.rest.2.2.1)
  | closeExpiredMarkets now => exact Or.inl (orders h.rest.2.2.1)
  | resolveMarket marketId winningSide createdAt =>
      obtain ⟨-, -, -, -, -, -, horders, -⟩ := h
      exact Or.inl (orders horders)
  | placeOrder userId dto orderId now createdAt =>
      rcases h with hsame | hplaced
      · exact Or.inl (same hsame)
      rw [Table.find?_insert hplaced.inserted] at ho
      split at ho
      · cases ho
        exact Or.inr ⟨userId, dto, orderId, now, createdAt, rfl, rfl, hplaced⟩
      · exact Or.inl ⟨order, ho⟩
  | cancelOrder userId orderId createdAt => exact Or.inl (set h.statusSet)
  | tryMatchOrder orderId tradeId =>
      left
      refine h.elim same fun hmade => ?_
      obtain ⟨trade, y, n, -, -, -, -, -, -, -, hset, -⟩ := hmade.paired
      exact set hset
  | failPendingTradeAndReleaseFunds tradeId createdAt => exact Or.inl (h.elim same moved)
  | handleSettlement tradeId createdAt => exact Or.inl (h.elim same moved)
  | markSettlementFailure tradeId createdAt => exact Or.inl (h.elim same moved)
  | prepareTradeForRetry tradeId createdAt => exact Or.inl (h.elim same moved)
  | reopenOrders orders => exact Or.inl (same h)

/-- An order is inserted only into a market that is open, before its closing time. -/
theorem Placed.admitted {userId orderId : Uuid} {dto : PlaceOrderDto} {now createdAt : Timestamp}
    (h : Placed userId dto orderId now createdAt s t) :
    ∃ market ∈ s.markets.rows, market.id = dto.marketId.uuid ∧ market.status = .OPEN ∧
      ∀ closesAt, market.closesAt = some closesAt → now < closesAt := by
  obtain ⟨market, hm, hopen, htime⟩ := h.market
  exact ⟨market, Table.mem_of_find? hm, Table.key_of_find? hm, hopen, htime⟩

end Only

/-! ## Every interleaving -/

section Runs

variable {c c' : Conf dbStore Err Unit Action} {ls : List (Event Action)}

theorem markets_decided (h : (interleaved fun _ => True).Reachable c) :
    ∀ market ∈ c.committed.markets.rows, market.Decided := by
  refine (interleaved_invariant (fun s => ∀ market ∈ s.markets.rows, market.Decided) ?_ ?_ h).2
  · intro market hm
    cases hm
  · intro s a t hs _ hI _ heff market hm
    rcases heff.market_before (Table.find?_key hm) with ⟨old, hold⟩ | ⟨-, hopen, hnone⟩
    · obtain ⟨new, hnew, hev⟩ := (heff.evolves hs).markets hold
      rw [Table.find?_key hm] at hnew
      cases hnew
      exact (hI old (Table.mem_of_find? hold)).evolves hev
    · unfold Market.Decided
      rw [hopen, hnone]
      decide

/-- **The run lemma of a market**: it goes forward, and gets no orders once it is not open. -/
theorem market_forward (h : (interleaved fun _ => True).Reachable c)
    (hrun : (interleaved fun _ => True).Run c ls c') {market : Market}
    (hm : market ∈ c.committed.markets.rows) :
    ∃ market' ∈ c'.committed.markets.rows, market'.id = market.id ∧ market.Forward market' ∧
      (market.status ≠ .OPEN → NoNewOrders market.id c.committed c'.committed) := by
  refine hrun.preserves (fun d => ∃ market' ∈ d.committed.markets.rows, market'.id = market.id ∧
    market.Forward market' ∧ (market.status ≠ .OPEN → NoNewOrders market.id c.committed d.committed))
    ?_ h ⟨market, hm, rfl, Market.Forward.refl _, fun _ order ho _ => ⟨order, ho, rfl⟩⟩
  intro d e d' hd hI hst
  obtain ⟨now, hnow, hid, hforward, hnone⟩ := hI
  obtain ⟨later, hlater, hev⟩ := (interleaved_evolves hd hst).markets (Table.find?_key hnow)
  refine ⟨later, Table.mem_of_find? hlater, (Table.key_of_find? hlater).trans hid,
    hforward.trans hev.forward, fun hclosed order ho hmarket => ?_⟩
  rcases interleaved_step hd hst with hsame | ⟨i, x, -, -, -, heff, -⟩
  · exact hnone hclosed order (hsame ▸ ho) hmarket
  rcases heff.order_before (Table.find?_key ho) with
    ⟨old, hold⟩ | ⟨userId, dto, orderId, time, createdAt, -, rfl, hplaced⟩
  · -- an order never changes its market
    obtain ⟨same, hsame, st, rfl, -⟩ := (interleaved_evolves hd hst).orders hold
    have horder : old.withStatus st = order :=
      Option.some.inj (hsame.symm.trans (Table.find?_key ho))
    subst horder
    obtain ⟨first, hfirst, hfid⟩ := hnone hclosed old (Table.mem_of_find? hold) hmarket
    exact ⟨first, hfirst, hfid⟩
  · -- a placement finds the market open, but it has not been open since
    obtain ⟨found, hfound, hopen, -⟩ := hplaced.market
    have hdto : dto.marketId.uuid = market.id := hmarket
    rw [hdto, ← hid] at hfound
    have heq : now = found := Option.some.inj ((Table.find?_key hnow).symm.trans hfound)
    rw [← heq] at hopen
    have hrank := hforward.status
    rw [hopen] at hrank
    exact absurd (by cases hst : market.status <;> simp [hst, MarketStatus.rank] at hrank ⊢) hclosed

end Runs

/-- **The life cycle of a market and the admission of orders**, in every interleaving: a
market goes forward only, has an outcome exactly when it is resolved, and gets no order
once it is closed, nor from a placement that has read the closing time or a later one. -/
theorem market_life_cycle {c : Conf dbStore Err Unit Action}
    (h : (interleaved fun _ => True).Reachable c) :
    (∀ market ∈ c.committed.markets.rows,
      market.resolvedOutcome.isSome = true ↔ market.status = .RESOLVED) ∧
    (∀ ls c', (interleaved fun _ => True).Run c ls c' → ∀ market ∈ c.committed.markets.rows,
      ∃ market' ∈ c'.committed.markets.rows, market'.id = market.id ∧ market.Forward market' ∧
        (market.status ≠ .OPEN → NoNewOrders market.id c.committed c'.committed)) ∧
    (∀ e c', (interleaved fun _ => True).step c e c' → ∀ order ∈ c'.committed.orders.rows,
      (∀ order' ∈ c.committed.orders.rows, order'.id ≠ order.id) →
        ∃ i x userId dto orderId now createdAt, e = .commit i ∧ c.session i = some x ∧
          x.call = .placeOrder userId dto orderId now createdAt ∧
          order = dto.order userId orderId createdAt ∧
          ∃ market ∈ c.committed.markets.rows, market.id = order.marketId ∧ market.status = .OPEN ∧
            ∀ closesAt, market.closesAt = some closesAt → now < closesAt) := by
  refine ⟨markets_decided h, fun ls c' hrun market hm => market_forward h hrun hm,
    fun e c' hst order ho hnew => ?_⟩
  have absent : ∀ old, c.committed.orders.find? order.id ≠ some old := fun old hold =>
    hnew old (Table.mem_of_find? hold) (Table.key_of_find? hold)
  rcases interleaved_step h hst with hsame | ⟨i, x, rfl, hx, -, heff, -⟩
  · rw [hsame] at ho
    exact absurd (Table.find?_key ho) (absent order)
  rcases heff.order_before (Table.find?_key ho) with
    ⟨old, hold⟩ | ⟨userId, dto, orderId, now, createdAt, hcall, rfl, hplaced⟩
  · exact absurd hold (absent old)
  · exact ⟨i, x, userId, dto, orderId, now, createdAt, rfl, hx, hcall, rfl, hplaced.admitted⟩

/-- A market is closed before its closing time, and resolved. -/
theorem market_life_cycle_sample : ∃ s t : Db, ∃ market ∈ s.markets.rows,
    ∃ market' ∈ t.markets.rows, market'.id = market.id ∧ market.Forward market' ∧
      market.status = .CLOSED ∧ NoNewOrders market.id s t ∧ market ∉ t.markets.rows := by
  obtain ⟨s, hs, hlater⟩ := exists_of_leads
    (show leads (fun _ _ => true) (Sample.opening ++ [.closeMarket Sample.market 4])
      (fun s => leadsFrom (fun _ _ => true) [.resolveMarket Sample.market .YES 5]
        (fun t => s.markets.rows.any fun market => market.status = .CLOSED &&
          t.markets.rows.all fun market' => market' ≠ market) s) = true by decide +kernel)
  obtain ⟨t, ht, hp⟩ := exists_of_leads hlater
  simp only [Bool.and_eq_true, decide_eq_true_eq, List.any_eq_true, List.all_eq_true] at hp
  obtain ⟨market, hm, hclosed, hgone⟩ := hp
  obtain ⟨ls, hbefore⟩ := interleaved_run (A := fun _ => True) (fun _ _ _ => trivial) hs
  obtain ⟨ls', hafter⟩ := interleaved_run (A := fun _ => True) (fun _ _ _ => trivial) ht
  obtain ⟨market', hm', hid, hforward, hnone⟩ :=
    (market_life_cycle (hbefore.reachable interleaved_idle_empty)).2.1 ls' _ hafter market hm
  exact ⟨s, t, market, hm, market', hm', hid, hforward, hclosed, hnone (by rw [hclosed]; decide),
    fun hsame => hgone market hsame rfl⟩

end OutcomeExchange
