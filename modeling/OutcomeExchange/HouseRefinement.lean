import OutcomeExchange.ClearingHouse

set_option autoImplicit false

/-! # The exchange refines the clearing house

The moves of a trade and the resolution of a market, and with the other actions the whole
run of transactions that are executed one after the other: `exchange_refines_house`. What the
clearing house says about a group of users who bet only among themselves then holds of their
wallets (`group_worth`). -/

namespace OutcomeExchange

open Txn Clearing

/-! ## The moves of a trade -/

section Moves

variable {s t : Db} {tradeId : Uuid} {createdAt : Timestamp}

theorem Solvent.unresolved_of_pending (h : Solvent s) {trade : Trade}
    (ht : s.trades.find? tradeId = some trade) (hst : trade.status = .PENDING_SETTLEMENT) :
    s.house.Unresolved trade.marketId :=
  unresolved_house fun _ hmarket => h.pending ht hst hmarket

/-- The wallets still mirror the clearing house, if the movements are what the new phase of
the deal makes of the accounts. -/
theorem MovesDeal.mirrored {st : TradeStatus} {v : TradeMove} {ty : WalletEntryType}
    {d : Deal Uuid Uuid} {rest : Multiset (Deal Uuid Uuid)}
    (h : MovesDeal st v ty tradeId s t d rest) (hm : Mirrored s)
    (hphase : ∀ u, { d with phase := v.tradeStatus.phase : Deal Uuid Uuid }.account
      s.house.stage u = d.account s.house.stage u + ty.effect (d.share u)) : Mirrored t := by
  intro u
  rw [h.balances, hm u, h.house, House.account_rephase h.before, hphase u]
  abel

theorem follows_settle (h : Solvent s) (hm : Mirrored s) (hev : Evolves s t)
    (hfresh : (Action.handleSettlement tradeId createdAt).FreshKeys s)
    (hmove : MovedFrom .PENDING_SETTLEMENT (settleMove createdAt) tradeId s t) :
    Follows s t := by
  obtain ⟨d, rest, hd⟩ := hmove.movesDeal h.coherent hev (settleMove_moves createdAt)
    (by rintro ⟨⟩) (fun _ => rfl) hfresh
  obtain ⟨trade, ht, hst, hmarket⟩ := hd.market
  have hunresolved : s.house.Unresolved d.market := by
    rw [hmarket]
    exact h.unresolved_of_pending ht hst
  constructor
  · refine Or.inr ⟨.settle d, ?_⟩
    rw [hd.house]
    exact .settle hd.before hd.phase hunresolved
  · refine hd.mirrored hm fun u => ?_
    -- until the market is resolved there is no prize
    have hprize : ({ d with phase := .settled } : Deal Uuid Uuid).prize
        (s.house.stage d.market) u = 0 := Deal.prize_of_unresolved hunresolved _ u
    have hphase : d.phase = .pending := hd.phase
    simp only [settleMove, TradeStatus.phase, Deal.account, hphase, hprize, WalletEntryType.effect]
    ext
    · simp [Deal.share]
    · simp

theorem follows_fail {v : TradeMove} (hs : s.Coherent) (hm : Mirrored s) (hev : Evolves s t)
    (hv : v.Moves .PENDING_SETTLEMENT .RELEASE) (hfailed : v.tradeStatus = .FAILED)
    (hclosed : v.orderStatus ≠ .OPEN) (hfresh : v.FreshKeys .PENDING_SETTLEMENT tradeId s)
    (hmove : MovedFrom .PENDING_SETTLEMENT v tradeId s t) : Follows s t := by
  obtain ⟨d, rest, hd⟩ := hmove.movesDeal hs hev hv hclosed (fun _ => rfl) hfresh
  have hphase : d.phase = .pending := hd.phase
  constructor
  · refine Or.inr ⟨.fail d, ?_⟩
    rw [hd.house, hfailed]
    exact .fail hd.before hphase
  · refine hd.mirrored hm fun u => ?_
    simp only [hfailed, TradeStatus.phase, Deal.account, hphase, WalletEntryType.effect]
    ext
    · simp
    · simp

theorem follows_rearm (hs : s.Coherent) (hm : Mirrored s) (ht : t.ledger.InRange)
    (hev : Evolves s t) (hoff : (Action.prepareTradeForRetry tradeId createdAt).KeepsOff s)
    (hfresh : (Action.prepareTradeForRetry tradeId createdAt).FreshKeys s)
    (hmove : MovedFrom .FAILED (retryMove createdAt) tradeId s t) : Follows s t := by
  obtain ⟨d, rest, hd⟩ := hmove.movesDeal hs hev (retryMove_moves createdAt) (by rintro ⟨⟩)
    (fun _ => rfl) hfresh
  obtain ⟨trade, htrade, -, hmarket⟩ := hd.market
  have hphase : d.phase = .failed := hd.phase
  constructor
  · refine Or.inr ⟨.rearm d, ?_⟩
    rw [hd.house]
    refine .rearm hd.before hphase ?_ fun u _ => ?_
    · rw [hmarket]
      exact unresolved_house (hoff trade htrade)
    · -- what is left is not negative
      have hleft := (ht u).1.1
      have hdown : t.ledger.available u = s.ledger.available u + -d.share u :=
        congrArg Prod.fst (hd.balances u)
      rw [hm.cash_eq]
      omega
  · refine hd.mirrored hm fun u => ?_
    simp only [retryMove, TradeStatus.phase, Deal.account, hphase, WalletEntryType.effect, zero_add]
    rfl

end Moves

/-! ## The resolution of a market -/

section Resolution

variable {s t : Db} {marketId : Uuid} {winningSide : OutcomeSide}

theorem Deal.owner_eq {trade : Trade} {y n o : Order}
    (hy : s.orders.find? trade.yesOrderId = some y)
    (hn : s.orders.find? trade.noOrderId = some n)
    (ho : s.orders.find? (trade.orderOn winningSide) = some o) (phase : DealPhase) :
    (⟨trade.marketId, y.userId, n.userId, y.reservedCents, n.reservedCents, phase⟩ :
      Deal Uuid Uuid).owner winningSide.toSide = o.userId := by
  cases winningSide with
  | YES =>
      cases hy.symm.trans ho
      rfl
  | NO =>
      cases hn.symm.trans ho
      rfl

/-- A sum over the deals is one over the trades. -/
theorem sum_dealsOf (hs : s.Coherent) {f : Deal Uuid Uuid → ℤ} {g : Trade → ℤ}
    (hfg : ∀ trade ∈ s.trades.rows, ∀ d ∈ trade.deal s.orders, f d = g trade) :
    (s.house.deals.map f).sum = s.trades.sum g := by
  have hsome : ∀ trade ∈ s.trades.rows, ∃ d, trade.deal s.orders = some d := by
    intro trade ht
    obtain ⟨y, n, hy, hn, -⟩ := Coherent.pair hs (Table.find?_key ht)
    exact ⟨_, Trade.deal_eq hy hn⟩
  show (((s.trades.rows.filterMap (Trade.deal s.orders)).map f : List ℤ) : Multiset ℤ).sum = _
  rw [Multiset.sum_coe, Table.sum]
  generalize s.trades.rows = rows at hfg hsome
  induction rows with
  | nil => rfl
  | cons trade rows ih =>
      obtain ⟨d, hd⟩ := hsome trade List.mem_cons_self
      have hrest := ih (fun t ht => hfg t (List.mem_cons_of_mem _ ht))
        (fun t ht => hsome t (List.mem_cons_of_mem _ ht))
      rw [List.filterMap_cons_some hd, List.map_cons, List.sum_cons, List.map_cons, List.sum_cons,
        hrest, hfg trade List.mem_cons_self d hd]

/-- A deal pays the stakes of both users, which is 100 cents for each unit. -/
theorem house_payouts (hs : s.Coherent) (u : Uuid) :
    s.house.payouts marketId winningSide.toSide u =
      100 * wonQuantity marketId winningSide s u := by
  -- the deal of a trade pays out what the trade has won
  have hdeals : s.house.payouts marketId winningSide.toSide u = s.trades.sum fun trade =>
      if trade.marketId = marketId ∧ trade.status = .SETTLED ∧
        trade.wonBy winningSide s u = true then 100 * trade.quantity else 0 := by
    refine sum_dealsOf hs fun trade ht d hd => ?_
    obtain ⟨y, n, hy, hn, hpair⟩ := Coherent.pair hs (Table.find?_key ht)
    obtain ⟨o, ho⟩ : ∃ o, s.orders.find? (trade.orderOn winningSide) = some o := by
      cases winningSide with
      | YES => exact ⟨y, hy⟩
      | NO => exact ⟨n, hn⟩
    cases (Trade.deal_eq hy hn).symm.trans hd
    have hvalue := hpair.reserved_add (Coherent.sound hs hy) (Coherent.sound hs hn)
    have hwon : trade.wonBy winningSide s u = true ↔ o.userId = u := by
      simp [Trade.wonBy, ho]
    have hsettled : trade.status.phase = .settled ↔ trade.status = .SETTLED := by
      cases trade.status <;> simp [TradeStatus.phase]
    simp only [Deal.owner_eq hy hn ho, hvalue, hwon, hsettled]
  -- both sums run over the trades of the table
  rw [hdeals, wonQuantity, settledTradesOf, List.filter_filter, Table.sum]
  induction s.trades.rows with
  | nil => rfl
  | cons trade rows ih =>
      rw [List.map_cons, List.sum_cons, ih, List.filter_cons]
      have hboth : (trade.wonBy winningSide s u &&
          (decide (trade.marketId = marketId) && decide (trade.status = .SETTLED))) = true ↔
            trade.marketId = marketId ∧ trade.status = .SETTLED ∧
              trade.wonBy winningSide s u = true := by
        simp only [Bool.and_eq_true, decide_eq_true_eq]
        tauto
      simp only [hboth]
      split
      · rw [List.map_cons, List.sum_cons, mul_add]
      · rw [zero_add]

/-- The payouts pay nothing in. -/
theorem Credited.paidIn_same {market : Market} {orders : List Order} {createdAt : Timestamp}
    {trades : List Trade} {L L' : Ledger}
    (h : Credited market winningSide orders createdAt trades L L') : L'.paidIn = L.paidIn := by
  induction h with
  | nil => rfl
  | cons _ credited _ ih => exact ih.trans (credited.paidIn_same fun _ => rfl)

/-- The deal of a trade that the resolution does not see as pending. -/
theorem Trade.deal_not_pending (hnone : hasPendingSettlements marketId s = false)
    {d : Deal Uuid Uuid} (hd : d ∈ s.house.deals) (hmarket : d.market = marketId) :
    d.phase ≠ .pending := by
  intro hpending
  obtain ⟨trade, ht, hdeal⟩ := List.mem_filterMap.mp (Multiset.mem_coe.mp hd)
  simp only [Trade.deal, Option.bind_eq_bind, Option.pure_def] at hdeal
  obtain ⟨y, -, hdeal⟩ := Option.bind_eq_some_iff.mp hdeal
  obtain ⟨n, -, hdeal⟩ := Option.bind_eq_some_iff.mp hdeal
  cases hdeal
  have hst : trade.status = .PENDING_SETTLEMENT := by
    cases hst : trade.status <;> simp [hst, TradeStatus.phase] at hpending ⊢
  have hsome : hasPendingSettlements marketId s = true := by
    rw [hasPendingSettlements, List.any_eq_true]
    exact ⟨trade, ht, by simp [hst, show trade.marketId = marketId from hmarket]⟩
  rw [hnone] at hsome
  cases hsome

/-- The payouts of a resolution are those of the clearing house. -/
theorem follows_resolve {m : Mode RowId} {createdAt : Timestamp} (h : Solvent s)
    (hm : Mirrored s) (hserial : ¬ m.stale)
    (hresolved : Resolved m marketId winningSide createdAt s t) : Follows s t := by
  have hpaid := hresolved.paidOut hserial h.credits
  obtain ⟨market, hmarket, hmarket'⟩ := hpaid.market
  have hunresolved : s.house.Unresolved marketId :=
    unresolved_house fun market hmarket => hresolved.unresolved market hmarket
  -- the house is as before, but for the stage of this market
  have hhouse : t.house = s.house.withStage (Function.update s.house.stage marketId
      (some (.resolved winningSide.toSide))) := by
    refine House.ext ?_ (funext fun id => ?_) ?_ ?_
    · obtain @⟨_, _, _, -, -, -, hcredited, -⟩ := hresolved
      exact hcredited.paidIn_same
    · show (t.markets.find? id).map Market.stage = Function.update s.house.stage marketId
        (some (.resolved winningSide.toSide)) id
      by_cases hid : id = marketId
      · subst hid
        rw [hmarket', Function.update_self]
        rfl
      · rw [hpaid.markets id hid, Function.update_of_ne hid]
        rfl
    · exact congrArg offersOf hpaid.orders
    · show dealsOf t.orders t.trades = dealsOf s.orders s.trades
      rw [hpaid.orders, hpaid.trades]
  constructor
  · refine Or.inr ⟨.resolve marketId winningSide.toSide, ?_⟩
    rw [hhouse]
    refine .resolve ?_ hunresolved ?_
    · show (s.markets.find? marketId).map Market.stage ≠ none
      rw [hmarket]
      rintro ⟨⟩
    · obtain @⟨_, _, _, -, -, hsnapshot, -⟩ := hresolved
      exact fun d => Trade.deal_not_pending (hsnapshot hserial).1
  · intro u
    rw [hhouse, House.account_resolve hunresolved, house_payouts h.coherent, ← hm u]
    exact Prod.ext (hpaid.available u) ((hpaid.reserved u).trans (add_zero _).symm)

end Resolution

/-! ## The refinement -/

section Refinement

variable {s t : Db}

/-- **The step lemma.** -/
theorem Solvent.follows {a : Action} {busy : RowId → Prop} (h : Solvent s) (hm : Mirrored s)
    (ha : a.Orderly s) (heff : a.Effect (.serial busy) s t) : Follows s t := by
  have hs := h.coherent
  have hev : Evolves s t := heff.evolves hs
  have ht : t.ledger.InRange := (h.effect ha heff).provided.balances
  have hfresh := ha.fresh
  have hoff := ha.unresolved
  have same : t = s → Follows s t := by
    rintro rfl
    exact .refl hm
  -- one lemma for each kind of transaction
  cases a with
  | createWalletForUser userId walletId =>
      rcases heff with hsame | ⟨L, hL, rfl⟩
      · exact same hsame
      · exact follows_createWallet hm hL
  | deposit userId dto createdAt =>
      obtain ⟨L, rfl, hmut⟩ := heff
      exact follows_deposit hm hmut
  | withdraw userId dto createdAt =>
      obtain ⟨L, rfl, hmut⟩ := heff
      exact follows_withdraw hm ht hmut
  | createMarket closesAt marketId now =>
      obtain ⟨hinsert, hledger, horders, htrades, -⟩ := heff
      exact follows_createMarket hm hinsert hledger horders htrades
  | closeMarket marketId now => exact follows_close hm heff
  | closeExpiredMarkets now => exact follows_close hm heff
  | resolveMarket marketId winningSide createdAt =>
      exact follows_resolve h hm (by rintro ⟨⟩) heff
  | placeOrder userId dto orderId now createdAt =>
      exact heff.elim same (follows_place hs hm ht hev hfresh)
  | cancelOrder userId orderId createdAt => exact follows_cancel hs hm hev hfresh heff
  | tryMatchOrder orderId tradeId => exact heff.elim same (follows_tryMatchOrder hs hm hev hoff)
  | failPendingTradeAndReleaseFunds tradeId createdAt =>
      exact heff.elim same (follows_fail hs hm hev (failPendingMove_moves createdAt) rfl
        (by rintro ⟨⟩) hfresh)
  | handleSettlement tradeId createdAt => exact heff.elim same (follows_settle h hm hev hfresh)
  | markSettlementFailure tradeId createdAt =>
      exact heff.elim same (follows_fail hs hm hev (settlementFailureMove_moves createdAt) rfl
        (by rintro ⟨⟩) hfresh)
  | prepareTradeForRetry tradeId createdAt =>
      exact heff.elim same (follows_rearm hs hm ht hev hoff hfresh)
  | reopenOrders orders => exact same heff

theorem mirrored_empty : Mirrored Db.empty := by
  intro u
  show ((0 : ℤ), (0 : ℤ)) = (0, 0) + 0 + 0
  simp

theorem mirrored_of_reachable {db : Db}
    (h : (exchange.restrict fun s c => c.Orderly s).Reachable db) : Solvent db ∧ Mirrored db :=
  (exchange_invariant (fun db => Solvent db ∧ Mirrored db) ⟨solvent_empty, mirrored_empty⟩
    (fun _ _ _ _ _ _ hI ha heff =>
      ⟨hI.1.effect ha heff, (hI.1.follows hI.2 ha heff).mirrored⟩) h).2

/-- Every step of an orderly run is a step of the clearing house, or none. -/
theorem exchange_refines :
    (exchange.restrict fun s c => c.Orderly s).Refines (house Uuid Uuid) Db.house where
  init s hs := by
    rw [show s = Db.empty from hs]
    exact House.ext rfl rfl rfl rfl
  step s c t hreach hstep := by
    obtain ⟨hc, hstep⟩ := hstep
    obtain ⟨hsolvent, hm⟩ := mirrored_of_reachable hreach
    cases c with
    | rolledBack a => exact Or.inl (congrArg Db.house hstep)
    | committed a =>
        obtain ⟨hstarts, busy, hexec⟩ := hstep
        exact (hsolvent.follows hm hc (exec_effect (hstarts.nil hsolvent.coherent) hexec)).step

/-- **The exchange is a clearing house**: an orderly run is a run of the clearing house with no
more steps, and what a user has in his wallet is what the clearing house computes from the
money paid in, the open offers, the deals and the outcomes of the markets. -/
theorem exchange_refines_house {db : Db} {calls : List Call}
    (hrun : (exchange.restrict fun s c => c.Orderly s).Run Db.empty calls db) :
    ∃ moves, (house Uuid Uuid).Run House.empty moves db.house ∧ moves.length ≤ calls.length ∧
      ∀ u, db.ledger.available u = db.house.cash u ∧ db.ledger.reserved u = db.house.staked u := by
  have hempty : (exchange.restrict fun s c => c.Orderly s).Reachable Db.empty := .init rfl
  obtain ⟨moves, hmoves, hlength⟩ := exchange_refines.run hempty hrun
  obtain ⟨-, hm⟩ := mirrored_of_reachable (hrun.reachable hempty)
  refine ⟨moves, ?_, hlength, fun u => Prod.mk.inj (hm u)⟩
  rw [show House.empty = Db.house Db.empty from House.ext rfl rfl rfl rfl]
  exact hmoves

end Refinement

/-- A trade that is given up, re-armed, settled and won. -/
theorem exchange_refines_house_sample : ∃ db calls,
    (exchange.restrict fun s c => c.Orderly s).Run Db.empty calls db ∧
      (∃ moves, (house Uuid Uuid).Run House.empty moves db.house ∧
        moves.length ≤ calls.length ∧ ∀ u, db.ledger.available u = db.house.cash u ∧
          db.ledger.reserved u = db.house.staked u) ∧
      db.ledger.available Sample.alice = 1300 := by
  obtain ⟨db, hdb, hwon⟩ := exchange_of_leads Sample.orderly_allows
    (show leads Sample.orderly (Sample.matching ++
        [ .markSettlementFailure Sample.trade 4, .prepareTradeForRetry Sample.trade 5
        , .handleSettlement Sample.trade 6, .resolveMarket Sample.market .YES 7 ])
      (fun db => db.ledger.available Sample.alice = 1300) = true by decide +kernel)
  obtain ⟨_, calls, rfl, hrun⟩ := hdb.exists_run
  exact ⟨db, calls, hrun, exchange_refines_house hrun, of_decide_eq_true hwon⟩

/-! ## A group of users who bet among themselves -/

/-- A user of the group owns the order on this side of the trade. -/
def Trade.Inside (db : Db) (S : Finset Uuid) (trade : Trade) (side : OutcomeSide) : Prop :=
  ∃ o ∈ db.orders.find? (trade.orderOn side), o.userId ∈ S

instance (db : Db) (S : Finset Uuid) (trade : Trade) (side : OutcomeSide) :
    Decidable (trade.Inside db S side) :=
  inferInstanceAs (Decidable (∃ o ∈ db.orders.find? (trade.orderOn side), o.userId ∈ S))

/-- What a settled trade inside the group will pay, as long as its market is not resolved. -/
def Trade.owed (db : Db) (S : Finset Uuid) (trade : Trade) : ℤ :=
  if trade.status = .SETTLED ∧ trade.Inside db S .YES ∧
    ∀ market ∈ db.markets.find? trade.marketId, market.status ≠ .RESOLVED then
  100 * trade.quantity else 0

section Group

variable {db : Db} {S : Finset Uuid}

theorem Trade.inside_iff {trade : Trade} {side : OutcomeSide} {o : Order}
    (ho : db.orders.find? (trade.orderOn side) = some o) :
    trade.Inside db S side ↔ o.userId ∈ S := by
  simp [Trade.Inside, ho]

/-- A settled trade is owed its value until its market is resolved. -/
theorem Trade.due_deal {trade : Trade} {y n : Order} (hs : db.Coherent) (hp : AllPaid db)
    (ht : trade ∈ db.trades.rows) (hy : db.orders.find? trade.yesOrderId = some y)
    (hn : db.orders.find? trade.noOrderId = some n) :
    Deal.due db.house.stage ⟨trade.marketId, y.userId, n.userId, y.reservedCents, n.reservedCents,
      trade.status.phase⟩ =
      if trade.status = .SETTLED ∧
        ∀ market ∈ db.markets.find? trade.marketId, market.status ≠ .RESOLVED then
      100 * trade.quantity else 0 := by
  obtain ⟨y', n', hy', hn', hpair⟩ := Coherent.pair hs (Table.find?_key ht)
  cases hy.symm.trans hy'
  cases hn.symm.trans hn'
  have hvalue := hpair.reserved_add (Coherent.sound hs hy) (Coherent.sound hs hn)
  cases hst : trade.status with
  | PENDING_SETTLEMENT => simp [Deal.due, TradeStatus.phase]
  | FAILED => simp [Deal.due, TradeStatus.phase]
  | SETTLED =>
      by_cases hun : ∀ market ∈ db.markets.find? trade.marketId, market.status ≠ .RESOLVED
      · have hstage := unresolved_house hun
        rw [if_pos ⟨rfl, hun⟩, ← hvalue]
        exact Deal.due_of_unresolved rfl hstage
      · push Not at hun
        obtain ⟨market, hmarket, hres⟩ := hun
        -- a settled trade of a resolved market has been paid
        obtain ⟨winningSide, _, _, _, houtcome, -⟩ :=
          hp _ trade market (Table.find?_key ht) hst hmarket hres
        have hstage : db.house.stage trade.marketId = some (.resolved winningSide.toSide) := by
          show (db.markets.find? trade.marketId).map Market.stage = _
          rw [hmarket]
          simp [Market.stage, hres, houtcome]
        rw [if_neg fun h => h.2 market hmarket hres]
        simp only [Deal.due, TradeStatus.phase, hstage]

/-- **No money comes into a group of users who trade only among themselves, and none gets
lost**: what they have, and what their settled trades will pay, is what they have paid in and
not withdrawn. -/
theorem group_worth (h : (exchange.restrict fun s c => c.Orderly s).Reachable db)
    (hclosed : ∀ trade ∈ db.trades.rows, trade.Inside db S .YES ↔ trade.Inside db S .NO) :
    ∑ u ∈ S, (db.ledger.available u + db.ledger.reserved u) + db.trades.sum (Trade.owed db S) =
      ∑ u ∈ S, db.ledger.paidIn u := by
  obtain ⟨hsolvent, hm⟩ := mirrored_of_reachable h
  have hs := hsolvent.coherent
  have hworth : ∀ u, db.ledger.available u + db.ledger.reserved u = db.house.worth u := by
    intro u
    obtain ⟨hav, hres⟩ := Prod.mk.inj (hm u)
    rw [hav, hres]
    rfl
  have howed : (db.house.deals.map fun d => if d.yesOwner ∈ S then d.due db.house.stage
      else 0).sum = db.trades.sum (Trade.owed db S) := by
    refine sum_dealsOf hs fun trade ht d hd => ?_
    obtain ⟨y, n, hy, hn, -⟩ := Coherent.pair hs (Table.find?_key ht)
    cases (Trade.deal_eq hy hn).symm.trans hd
    have hyes : trade.Inside db S .YES ↔ y.userId ∈ S := Trade.inside_iff hy
    rw [Trade.due_deal hs hsolvent.paid ht hy hn, Trade.owed]
    by_cases hin : y.userId ∈ S
    · simp only [hyes, hin, if_true, true_and]
    · simp only [hyes, hin, if_false, false_and, and_false]
  -- the owners of a deal are those of the two orders of its trade
  have hinside : ∀ d ∈ db.house.deals, d.yesOwner ∈ S ↔ d.noOwner ∈ S := by
    intro d hd
    obtain ⟨trade, ht, hdeal⟩ := List.mem_filterMap.mp (Multiset.mem_coe.mp hd)
    obtain ⟨y, n, hy, hn, -⟩ := Coherent.pair hs (Table.find?_key ht)
    cases (Trade.deal_eq hy hn).symm.trans hdeal
    have hyes : trade.Inside db S .YES ↔ y.userId ∈ S := Trade.inside_iff hy
    have hno : trade.Inside db S .NO ↔ n.userId ∈ S := Trade.inside_iff hn
    exact hyes.symm.trans ((hclosed trade ht).trans hno)
  simp only [hworth]
  rw [← howed]
  exact House.sum_worth db.house hinside

end Group

/-- The trade is settled, its market is not resolved, and Alice has another open order. -/
theorem group_worth_sample : ∃ db : Db, ∃ S : Finset Uuid,
    (exchange.restrict fun s c => c.Orderly s).Reachable db ∧
      ∑ u ∈ S, (db.ledger.available u + db.ledger.reserved u) +
        db.trades.sum (Trade.owed db S) = ∑ u ∈ S, db.ledger.paidIn u ∧
      db.trades.sum (Trade.owed db S) = 500 ∧ db.ledger.reserved Sample.alice = 200 := by
  obtain ⟨db, hdb, hp⟩ := exchange_of_leads Sample.orderly_allows
    (show leads Sample.orderly (Sample.unfinishedBusiness ++ [.handleSettlement Sample.trade 6])
      (fun db => decide (∀ trade ∈ db.trades.rows,
          trade.Inside db {Sample.alice, Sample.bob} .YES ↔
            trade.Inside db {Sample.alice, Sample.bob} .NO) &&
        decide (db.trades.sum (Trade.owed db {Sample.alice, Sample.bob}) = 500) &&
        decide (db.ledger.reserved Sample.alice = 200)) = true by decide +kernel)
  simp only [Bool.and_eq_true, decide_eq_true_eq] at hp
  obtain ⟨⟨hclosed, howed⟩, hreserved⟩ := hp
  exact ⟨db, {Sample.alice, Sample.bob}, hdb, group_worth hdb hclosed, howed, hreserved⟩

end OutcomeExchange
