import OutcomeExchange.Clearing.House
import OutcomeExchange.Txn.Refinement
import OutcomeExchange.WindDown

set_option autoImplicit false

/-! # The exchange as a clearing house

`Db.house` forgets the ledger, its wallets and its idempotency keys but for what the users have
paid in and taken out, and it keeps the open orders and the trades as offers and deals. The
exchange, one transaction after the other, refines the clearing house along it (`step_house`),
and the balances in the wallets are the accounts that the clearing house computes
(`Mirrored`). -/

namespace OutcomeExchange

open Txn Clearing

/-! ## The clearing house of a database -/

def OutcomeSide.toSide : OutcomeSide → Side
  | .YES => .yes
  | .NO => .no

def Market.stage (market : Market) : MarketStage :=
  match market.status, market.resolvedOutcome with
  | .RESOLVED, some winningSide => .resolved winningSide.toSide
  | .OPEN, _ => .open
  | _, _ => .closed

def TradeStatus.phase : TradeStatus → DealPhase
  | .PENDING_SETTLEMENT => .pending
  | .SETTLED => .settled
  | .FAILED => .failed

/-- An order wins 100 cents for each unit. -/
def Order.offer (o : Order) : Offer Uuid Uuid :=
  ⟨o.userId, o.marketId, o.side.toSide, o.reservedCents, 100 * o.quantity⟩

def Order.openOffer (o : Order) : Option (Offer Uuid Uuid) :=
  if o.status = .OPEN then some o.offer else none

/-- The deal of a trade and its two orders. -/
def Trade.deal (orders : Table Order) (trade : Trade) : Option (Deal Uuid Uuid) := do
  let y ← orders.find? trade.yesOrderId
  let n ← orders.find? trade.noOrderId
  return ⟨trade.marketId, y.userId, n.userId, y.reservedCents, n.reservedCents, trade.status.phase⟩

/-- What an entry of this type adds to the money that its user has paid in. -/
def WalletEntryType.paysIn : WalletEntryType → ℤ → ℤ
  | .DEPOSIT, a => a
  | .WITHDRAW, a => -a
  | _, _ => 0

/-- The deposits of a user less the withdrawals. -/
def Ledger.paidIn (L : Ledger) (u : Uuid) : ℤ :=
  ((L.history u).map fun e => e.entryType.paysIn e.amountCents).sum

def offersOf (orders : Table Order) : Multiset (Offer Uuid Uuid) :=
  (orders.rows.filterMap Order.openOffer : List _)

def dealsOf (orders : Table Order) (trades : Table Trade) : Multiset (Deal Uuid Uuid) :=
  (trades.rows.filterMap (Trade.deal orders) : List _)

def Db.house (db : Db) : House Uuid Uuid where
  paidIn := db.ledger.paidIn
  stage id := (db.markets.find? id).map Market.stage
  offers := offersOf db.orders
  deals := dealsOf db.orders db.trades

/-- The wallets show the accounts of the clearing house. -/
def Mirrored (db : Db) : Prop := ∀ u, db.ledger.balances u = db.house.account u

/-! ## The parts of the clearing house -/

section Parts

variable {s t : Db} {L L' : Ledger} {params : MutateWalletParams}

theorem Order.openOffer_of_open {o : Order} (h : o.status = .OPEN) : o.openOffer = some o.offer :=
  if_pos h

theorem Order.openOffer_of_ne {o : Order} (h : o.status ≠ .OPEN) : o.openOffer = none := if_neg h

@[simp] theorem Order.offer_withStatus (o : Order) (st : OrderStatus) :
    (o.withStatus st).offer = o.offer := rfl

theorem Trade.deal_eq {orders : Table Order} {trade : Trade} {y n : Order}
    (hy : orders.find? trade.yesOrderId = some y) (hn : orders.find? trade.noOrderId = some n) :
    trade.deal orders = some ⟨trade.marketId, y.userId, n.userId, y.reservedCents,
      n.reservedCents, trade.status.phase⟩ := by
  simp [Trade.deal, hy, hn]

/-- A trade that is moved keeps its deal but for the phase. -/
theorem Trade.deal_withStatus {orders : Table Order} {trade : Trade} {d : Deal Uuid Uuid}
    (h : trade.deal orders = some d) (st : TradeStatus) :
    (trade.withStatus st).deal orders = some { d with phase := st.phase } := by
  simp only [Trade.deal, Option.bind_eq_bind, Option.pure_def] at h ⊢
  obtain ⟨y, hy, h⟩ := Option.bind_eq_some_iff.mp h
  obtain ⟨n, hn, h⟩ := Option.bind_eq_some_iff.mp h
  cases h
  simp [hy, hn]

theorem offersOf_insert {orders orders' : Table Order} {o : Order}
    (h : orders.insert? o = some orders') (hopen : o.status = .OPEN) :
    offersOf orders' = o.offer ::ₘ offersOf orders := by
  have hone : [o].filterMap Order.openOffer = [o.offer] := by
    simp [Order.openOffer_of_open hopen]
  rw [offersOf, (Table.insert?_eq_some h).2, List.filterMap_append, hone, ← Multiset.coe_add,
    add_comm, offersOf]
  exact Multiset.singleton_add _ _

/-- One offer less, when an open order gets another status. -/
theorem offersOf_close {orders orders' : Table Order} {o : Order} {st : OrderStatus}
    (h : orders.update? (o.withStatus st) = some orders') (ho : orders.find? o.id = some o)
    (hopen : o.status = .OPEN) (hst : st ≠ .OPEN) :
    offersOf orders = o.offer ::ₘ offersOf orders' := by
  obtain ⟨before, after, hrows, hrows'⟩ := Table.exists_rows_update h ho
  have hnone : (o.withStatus st).openOffer = none := Order.openOffer_of_ne hst
  simp only [offersOf, hrows, hrows', List.filterMap_append, List.filterMap_cons, hnone,
    Order.openOffer_of_open hopen]
  exact Multiset.coe_eq_coe.mpr List.perm_middle

/-- The offers do not depend on the status of orders that are not open. -/
theorem offersOf_same {orders orders' : Table Order} {o : Order} {st : OrderStatus}
    (h : orders.update? (o.withStatus st) = some orders') (ho : orders.find? o.id = some o)
    (hnot : o.status ≠ .OPEN) (hst : st ≠ .OPEN) : offersOf orders' = offersOf orders := by
  obtain ⟨before, after, hrows, hrows'⟩ := Table.exists_rows_update h ho
  have hnone : (o.withStatus st).openOffer = none := Order.openOffer_of_ne hst
  simp only [offersOf, hrows, hrows', List.filterMap_append, List.filterMap_cons, hnone,
    Order.openOffer_of_ne hnot]

/-- The deals do not depend on what happens to the orders. -/
theorem deal_congr (hs : s.Coherent) (hev : Evolves s t) {trade : Trade}
    (ht : trade ∈ s.trades.rows) : trade.deal t.orders = trade.deal s.orders := by
  obtain ⟨y, n, hy, hn, -⟩ := Coherent.pair hs (Table.find?_key ht)
  obtain ⟨y', hy', sty, rfl, -⟩ := hev.orders hy
  obtain ⟨n', hn', stn, rfl, -⟩ := hev.orders hn
  rw [Trade.deal_eq hy hn, Trade.deal_eq hy' hn']
  rfl

theorem dealsOf_congr (hs : s.Coherent) (hev : Evolves s t) :
    dealsOf t.orders s.trades = dealsOf s.orders s.trades := by
  rw [dealsOf, dealsOf, List.filterMap_congr fun trade ht => deal_congr hs hev ht]

theorem dealsOf_insert {orders : Table Order} {trades trades' : Table Trade} {trade : Trade}
    {d : Deal Uuid Uuid} (h : trades.insert? trade = some trades')
    (hd : trade.deal orders = some d) : dealsOf orders trades' = d ::ₘ dealsOf orders trades := by
  have hone : [trade].filterMap (Trade.deal orders) = [d] := by
    simp [hd]
  rw [dealsOf, (Table.insert?_eq_some h).2, List.filterMap_append, hone, ← Multiset.coe_add,
    add_comm, dealsOf]
  exact Multiset.singleton_add _ _

theorem dealsOf_update {orders : Table Order} {trades trades' : Table Trade} {trade : Trade}
    {st : TradeStatus} {d : Deal Uuid Uuid} (ht : trades.find? trade.id = some trade)
    (h : trades.update? (trade.withStatus st) = some trades') (hd : trade.deal orders = some d) :
    ∃ rest, dealsOf orders trades = d ::ₘ rest ∧
      dealsOf orders trades' = { d with phase := st.phase } ::ₘ rest := by
  obtain ⟨before, after, hrows, hrows'⟩ := Table.exists_rows_update h ht
  refine ⟨((before ++ after).filterMap (Trade.deal orders) : List _), ?_, ?_⟩
  · simp only [dealsOf, hrows, List.filterMap_append, List.filterMap_cons, hd]
    exact Multiset.coe_eq_coe.mpr List.perm_middle
  · simp only [dealsOf, hrows', List.filterMap_append, List.filterMap_cons,
      Trade.deal_withStatus hd]
    exact Multiset.coe_eq_coe.mpr List.perm_middle

/-! ## What has been paid in -/

theorem Posted.paidIn_eq {w : Wallet} {a : ℤ} (h : Posted params w a L L') (u : Uuid) :
    L'.paidIn u = L.paidIn u + if params.userId = u then params.entryType.paysIn a else 0 := by
  unfold Ledger.paidIn
  by_cases hu : u = params.userId
  · subst hu
    rw [h.history_self, List.map_append, List.sum_append, if_pos rfl, List.map_singleton,
      List.sum_singleton]
    rfl
  · rw [h.history_of_ne hu, if_neg (Ne.symm hu), add_zero]

/-- A movement between the two balances of a wallet, or from one of them. -/
theorem Mutated.paidIn_same (h : Mutated params L L') (hty : ∀ a, params.entryType.paysIn a = 0) :
    L'.paidIn = L.paidIn := by
  cases h with
  | replay used same => rw [same]
  | posted hp =>
      funext u
      rw [hp.paidIn_eq, hty, ite_self, add_zero]

theorem paidIn_insertWallet {walletId userId : Uuid}
    (h : L.insertWallet ⟨walletId, userId, 0, 0⟩ = .ok L') : L'.paidIn = L.paidIn := by
  obtain ⟨hw, -⟩ := Ledger.insertWallet_eq_ok h
  funext u
  unfold Ledger.paidIn
  rw [Ledger.history_insertWallet h]
  by_cases hu : userId = u
  · have hnone : L.wallets.find? u = none := hu ▸ Table.find?_insert_self hw
    rw [if_pos hu, Ledger.history, hnone]
  · rw [if_neg hu]

theorem balances_insertWallet {walletId userId : Uuid}
    (h : L.insertWallet ⟨walletId, userId, 0, 0⟩ = .ok L') (u : Uuid) :
    L'.balances u = L.balances u := by
  obtain ⟨hw, -⟩ := Ledger.insertWallet_eq_ok h
  have hav : L'.available u = L.available u := by
    rw [Ledger.available, Ledger.available, Ledger.find?_insertWallet h]
    by_cases hu : userId = u
    · have hnone : L.wallets.find? u = none := hu ▸ Table.find?_insert_self hw
      rw [if_pos hu, hnone]
      rfl
    · rw [if_neg hu]
  rw [Ledger.balances, Ledger.balances, hav, reserved_insertWallet h]

end Parts

/-! ## The actions, one by one -/

/-- The action is a step of the clearing house, or none, and the wallets still mirror it. -/
structure Follows (s t : Db) : Prop where
  step : t.house = s.house ∨ ∃ move, House.Step s.house move t.house
  mirrored : Mirrored t

section Actions

variable {s t : Db}

theorem Mirrored.cash_eq (h : Mirrored s) (u : Uuid) : s.house.cash u = s.ledger.available u :=
  (congrArg Prod.fst (h u)).symm

/-- A movement of collateral or of money whose key is new. -/
theorem Mutated.mirrored {params : MutateWalletParams} {L' : Ledger} {h' : House Uuid Uuid}
    (hm : Mirrored s) (h : Mutated params s.ledger L') {amount : ℤ}
    (hamount : params.amountCents = .int amount)
    (hfresh : ¬ s.ledger.KeyUsed params.userId params.idempotencyKey)
    (haccount : ∀ u, h'.account u = s.house.account u +
      if params.userId = u then params.entryType.effect amount else 0) (u : Uuid) :
    L'.balances u = h'.account u := by
  rw [h.balances_fresh hamount hfresh, hm u, haccount]

/-- What it does to the user himself. -/
theorem Mutated.balances_own {params : MutateWalletParams} {L L' : Ledger}
    (h : Mutated params L L') {amount : ℤ} (hamount : params.amountCents = .int amount)
    (hfresh : ¬ L.KeyUsed params.userId params.idempotencyKey) :
    L'.balances params.userId =
      L.balances params.userId + params.entryType.effect amount := by
  rw [h.balances_fresh hamount hfresh, if_pos rfl]

/-- Without a change in the tables and in what has been paid in. -/
theorem Follows.of_same (hm : Mirrored s) (hhouse : t.house = s.house)
    (hbalances : ∀ u, t.ledger.balances u = s.ledger.balances u) : Follows s t where
  step := Or.inl hhouse
  mirrored u := by
    rw [hbalances, hm u, hhouse]

theorem Follows.refl (hm : Mirrored s) : Follows s s := .of_same hm rfl fun _ => rfl

theorem follows_createWallet {userId walletId : Uuid} {L : Ledger} (hm : Mirrored s)
    (h : s.ledger.insertWallet ⟨walletId, userId, 0, 0⟩ = .ok L) :
    Follows s { s with ledger := L } := by
  refine .of_same hm ?_ (balances_insertWallet h)
  exact House.ext (paidIn_insertWallet h) rfl rfl rfl

theorem follows_deposit {userId : Uuid} {amount : ℤ} {key : String} {createdAt : Timestamp}
    {L : Ledger} (hm : Mirrored s)
    (h : Mutated (depositParams userId (.int amount) key createdAt) s.ledger L) :
    Follows s { s with ledger := L } := by
  cases h with
  | replay used same =>
      subst same
      exact .refl hm
  | @posted w a hp =>
      have ha : a = amount := (JsNumber.int.inj hp.amount_eq).symm
      subst ha
      have hhouse : Db.house { s with ledger := L } = s.house.pay userId a :=
        House.ext (funext hp.paidIn_eq) rfl rfl rfl
      constructor
      · refine Or.inr ⟨.deposit userId a, ?_⟩
        rw [hhouse]
        exact .deposit hp.amount_pos
      · refine fun u => Mutated.mirrored hm (.posted hp) rfl hp.fresh (fun u => ?_) u
        rw [hhouse, House.account_pay]
        rfl

theorem follows_withdraw {userId : Uuid} {amount : ℤ} {key : String} {createdAt : Timestamp}
    {L : Ledger} (hm : Mirrored s) (ht : L.InRange)
    (h : Mutated (withdrawParams userId (.int amount) key createdAt) s.ledger L) :
    Follows s { s with ledger := L } := by
  cases h with
  | replay used same =>
      subst same
      exact .refl hm
  | @posted w a hp =>
      have ha : a = amount := (JsNumber.int.inj hp.amount_eq).symm
      subst ha
      have hhouse : Db.house { s with ledger := L } = s.house.pay userId (-a) :=
        House.ext (funext hp.paidIn_eq) rfl rfl rfl
      constructor
      · refine Or.inr ⟨.withdraw userId a, ?_⟩
        rw [hhouse]
        refine .withdraw hp.amount_pos ?_
        -- what is left is not negative
        have hleft := (ht userId).1.1
        have hdown : L.available userId = s.ledger.available userId + -a :=
          congrArg Prod.fst (Mutated.balances_own (.posted hp) rfl hp.fresh)
        rw [hm.cash_eq]
        omega
      · refine fun u => Mutated.mirrored hm (.posted hp) rfl hp.fresh (fun u => ?_) u
        rw [hhouse, House.account_pay]
        rfl

theorem follows_createMarket {marketId : Uuid} {closesAt : Timestamp} (hm : Mirrored s)
    (hinsert : s.markets.insert? ⟨marketId, .OPEN, some closesAt, none⟩ = some t.markets)
    (hledger : t.ledger = s.ledger) (horders : t.orders = s.orders)
    (htrades : t.trades = s.trades) : Follows s t := by
  -- the house is as before, with one more stage
  have hhouse : t.house =
      s.house.withStage (Function.update s.house.stage marketId (some .open)) := by
    refine House.ext ?_ (funext fun id => ?_) ?_ ?_
    · exact congrArg Ledger.paidIn hledger
    · show (t.markets.find? id).map Market.stage =
        Function.update s.house.stage marketId (some .open) id
      rw [Table.find?_insert hinsert, key_market]
      by_cases hid : id = marketId
      · subst hid
        rw [if_pos rfl, Function.update_self]
        rfl
      · rw [if_neg (Ne.symm hid), Function.update_of_ne hid]
        rfl
    · exact congrArg offersOf horders
    · show dealsOf t.orders t.trades = dealsOf s.orders s.trades
      rw [horders, htrades]
  have hnew : s.house.stage marketId = none :=
    congrArg (Option.map Market.stage) (Table.find?_insert_self hinsert)
  constructor
  · refine Or.inr ⟨.list marketId, ?_⟩
    rw [hhouse]
    exact .list hnew
  -- no deal is in a market that has just been listed
  · intro u
    rw [hledger, hm u, hhouse, House.account_restage]
    intro market winner
    by_cases hid : market = marketId
    · rw [hid, Function.update_self, hnew]
      simp
    · rw [Function.update_of_ne hid]

theorem follows_close (hm : Mirrored s) (h : MarketsClosed s t) : Follows s t := by
  obtain ⟨hledger, -, horders, htrades⟩ := h.rest
  have hhouse : t.house = s.house.withStage t.house.stage := by
    refine House.ext ?_ rfl ?_ ?_
    · exact congrArg Ledger.paidIn hledger
    · exact congrArg offersOf horders
    · show dealsOf t.orders t.trades = dealsOf s.orders s.trades
      rw [horders, htrades]
  -- a market that closes was open, so no prize changes
  have hstage : ∀ market, t.house.stage market = s.house.stage market ∨
      s.house.stage market = some .open ∧ t.house.stage market = some .closed := by
    intro id
    have hrel := h.markets id
    show (t.markets.find? id).map Market.stage = (s.markets.find? id).map Market.stage ∨
      (s.markets.find? id).map Market.stage = some .open ∧
        (t.markets.find? id).map Market.stage = some .closed
    cases hs : s.markets.find? id with
    | none =>
        rw [hs] at hrel
        cases hrel' : t.markets.find? id with
        | none => exact Or.inl rfl
        | some b =>
            rw [hrel'] at hrel
            cases hrel
    | some a =>
        cases ht : t.markets.find? id with
        | none =>
            rw [hs, ht] at hrel
            cases hrel
        | some b =>
            rw [hs, ht] at hrel
            cases hrel with
            | some hcloses =>
                rcases hcloses with rfl | ⟨hopen, hclosed, -, -⟩
                · exact Or.inl rfl
                · refine Or.inr ⟨?_, ?_⟩
                  · simp [Market.stage, hopen]
                  · simp [Market.stage, hclosed]
  constructor
  · refine Or.inr ⟨.close, ?_⟩
    rw [hhouse]
    exact .close hstage
  · intro u
    rw [hledger, hm u, hhouse, House.account_restage]
    intro market winner
    rcases hstage market with hsame | ⟨hopen, hclosed⟩
    · rw [hsame]
    · rw [hopen, hclosed]
      simp

theorem follows_place {userId orderId : Uuid} {dto : PlaceOrderDto} {now createdAt : Timestamp}
    (hs : s.Coherent) (hm : Mirrored s) (ht : t.ledger.InRange) (hev : Evolves s t)
    (hfresh : (Action.placeOrder userId dto orderId now createdAt).FreshKeys s)
    (h : Placed userId dto orderId now createdAt s t) : Follows s t := by
  obtain ⟨hmarkets, -, htrades⟩ := h.rest
  obtain ⟨market, hmarket, hopen, -⟩ := h.market
  have hnew : ¬ s.ledger.KeyUsed userId (EngineKey.orderReserve dto.idempotencyKey).text :=
    hfresh.resolve_left (h.absent hs)
  have hpos : 0 < dto.priceCents * dto.quantity := Int.mul_pos dto.price_min dto.quantity_min
  -- the house has one more offer
  have hhouse : t.house =
      s.house.withOffers ((dto.order userId orderId createdAt).offer ::ₘ s.house.offers) := by
    refine House.ext ?_ ?_ ?_ ?_
    · exact h.reserved.paidIn_same fun _ => rfl
    · show (fun id => (t.markets.find? id).map Market.stage) = _
      rw [hmarkets]
      rfl
    · exact offersOf_insert h.inserted rfl
    · show dealsOf t.orders t.trades = dealsOf s.orders s.trades
      rw [htrades, dealsOf_congr hs hev]
  constructor
  · refine Or.inr ⟨.place (dto.order userId orderId createdAt).offer, ?_⟩
    rw [hhouse]
    refine .place ?_ hpos ?_
    · show (s.markets.find? dto.marketId.uuid).map Market.stage = some .open
      rw [hmarket]
      simp [Market.stage, hopen]
    · -- what is left is not negative
      have hleft := (ht userId).1.1
      have hdown : t.ledger.available userId =
          s.ledger.available userId + -(dto.priceCents * dto.quantity) :=
        congrArg Prod.fst (h.reserved.balances_own rfl hnew)
      show dto.priceCents * dto.quantity ≤ s.house.cash userId
      rw [hm.cash_eq]
      omega
  · refine h.reserved.mirrored hm rfl hnew fun u => ?_
    rw [hhouse, House.account_place]
    rfl

theorem follows_cancel {userId orderId : Uuid} {createdAt : Timestamp} (hs : s.Coherent)
    (hm : Mirrored s) (hev : Evolves s t)
    (hfresh : ¬ s.ledger.KeyUsed userId (EngineKey.orderCancel orderId).text)
    (h : Cancelled userId orderId createdAt s t) : Follows s t := by
  obtain @⟨o, hfound, hown, hopen, hsaved, hmut, hmarkets, -, htrades⟩ := h
  have hid : o.id = orderId := Table.key_of_find? hfound
  subst hid hown
  have hoffers : s.house.offers = o.offer ::ₘ t.house.offers :=
    offersOf_close hsaved hfound hopen (by rintro ⟨⟩)
  have hhouse : t.house = s.house.withOffers t.house.offers := by
    refine House.ext ?_ ?_ rfl ?_
    · exact hmut.paidIn_same fun _ => rfl
    · show (fun id => (t.markets.find? id).map Market.stage) = _
      rw [hmarkets]
      rfl
    · show dealsOf t.orders t.trades = dealsOf s.orders s.trades
      rw [htrades, dealsOf_congr hs hev]
  constructor
  · refine Or.inr ⟨.cancel o.offer, ?_⟩
    rw [hhouse]
    exact .cancel hoffers
  · refine hmut.mirrored hm rfl hfresh fun u => ?_
    rw [hhouse, House.account_cancel hoffers, sub_eq_add_neg]
    congr 1
    show -(if o.userId = u then (-o.reservedCents, o.reservedCents) else (0 : ℤ × ℤ)) =
      if o.userId = u then (o.reservedCents, -o.reservedCents) else 0
    split
    · simp
    · simp

theorem Market.unresolved {market : Market} (h : market.status ≠ .RESOLVED) (winner : Side) :
    market.stage ≠ .resolved winner := by
  unfold Market.stage
  cases hst : market.status with
  | RESOLVED => exact absurd hst h
  | OPEN => simp
  | CLOSED => simp

theorem unresolved_house {marketId : Uuid}
    (h : ∀ market ∈ s.markets.find? marketId, market.status ≠ .RESOLVED) :
    s.house.Unresolved marketId := by
  intro winner hstage
  obtain ⟨market, hmarket, hresolved⟩ := Option.map_eq_some_iff.mp hstage
  exact Market.unresolved (h market hmarket) winner hresolved

/-- A match, seen from its YES order. -/
theorem follows_match {trade : Trade} {y n : Order} (hs : s.Coherent) (hm : Mirrored s)
    (hev : Evolves s t) (hy : s.orders.find? y.id = some y) (hn : s.orders.find? n.id = some n)
    (hyes : y.side = .YES) (hno : n.side = .NO) (hmarket : n.marketId = y.marketId)
    (hprice : n.priceCents = 100 - y.priceCents) (hquantity : n.quantity = y.quantity)
    (hunresolved : s.house.Unresolved y.marketId)
    (htrade : trade.marketId = y.marketId ∧ trade.yesOrderId = y.id ∧ trade.noOrderId = n.id ∧
      trade.status = .PENDING_SETTLEMENT)
    (hoffers : offersOf s.orders = y.offer ::ₘ n.offer ::ₘ offersOf t.orders)
    (hinserted : s.trades.insert? trade = some t.trades)
    (hrest : t.ledger = s.ledger ∧ t.markets = s.markets ∧ t.outcomes = s.outcomes) :
    Follows s t := by
  obtain ⟨htm, hty, htn, hst⟩ := htrade
  obtain ⟨hledger, hmarkets, -⟩ := hrest
  -- the deal of the new trade is the one that the two offers make
  have hdeal : trade.deal t.orders = some (House.dealOf y.offer n.offer) := by
    obtain ⟨y', hy', st, rfl, -⟩ := hev.orders hy
    obtain ⟨n', hn', st', rfl, -⟩ := hev.orders hn
    rw [Trade.deal_eq (hty ▸ hy') (htn ▸ hn'), htm, hst]
    rfl
  have hhouse : t.house = (s.house.withOffers (offersOf t.orders)).withDeals
      (House.dealOf y.offer n.offer ::ₘ s.house.deals) := by
    refine House.ext ?_ ?_ rfl ?_
    · exact congrArg Ledger.paidIn hledger
    · show (fun id => (t.markets.find? id).map Market.stage) = _
      rw [hmarkets]
      rfl
    · show dealsOf t.orders t.trades = House.dealOf y.offer n.offer ::ₘ dealsOf s.orders s.trades
      rw [dealsOf_insert hinserted hdeal, dealsOf_congr hs hev]
  -- complementary prices, so the stakes are a hundred cents a unit
  have hvalue : y.reservedCents + n.reservedCents = 100 * y.quantity := by
    rw [(Coherent.sound hs hy).reserved, (Coherent.sound hs hn).reserved, hprice, hquantity,
      Int.sub_mul]
    omega
  constructor
  · refine Or.inr ⟨.pair y.offer n.offer, ?_⟩
    rw [hhouse]
    refine .pair hoffers ?_ ?_ hmarket hvalue ?_ hunresolved
    · exact congrArg OutcomeSide.toSide hyes
    · exact congrArg OutcomeSide.toSide hno
    · exact congrArg (100 * ·) hquantity
  · intro u
    rw [hledger, hm u, hhouse, House.account_pair hoffers]

theorem follows_tryMatchOrder {orderId tradeId : Uuid} (hs : s.Coherent) (hm : Mirrored s)
    (hev : Evolves s t) (hoff : (Action.tryMatchOrder orderId tradeId).KeepsOff s)
    (h : TradeMade orderId tradeId s t) : Follows s t := by
  obtain @⟨order, other, os, hfound, hopen, hother, hcomp, hsaved, hsaved', -, hin, hrest⟩ := h
  obtain ⟨hmarket, hside, hprice, hqty, hopen', hne⟩ := Order.complements_iff.mp hcomp
  have hid : order.id = orderId := Table.key_of_find? hfound
  subst hid
  have hos : os.find? other.id = some other := by
    rw [Table.find?_update_of_ne hsaved hne]
    exact hother
  have hoffers : offersOf s.orders = order.offer ::ₘ other.offer ::ₘ offersOf t.orders := by
    rw [offersOf_close hsaved hfound hopen (by rintro ⟨⟩),
      offersOf_close hsaved' hos hopen' (by rintro ⟨⟩)]
  have hunresolved : s.house.Unresolved order.marketId := unresolved_house (hoff order hfound)
  cases horder : order.side with
  | YES =>
      rw [horder] at hside
      refine follows_match hs hm hev hfound hother horder hside hmarket hprice hqty hunresolved ?_
        hoffers hin hrest
      simp [matchedTrade, horder]
  | NO =>
      rw [horder] at hside
      refine follows_match hs hm hev hother hfound hside horder hmarket.symm ?_ hqty.symm
        (hmarket ▸ hunresolved) ?_ (hoffers.trans (Multiset.cons_swap ..)) hin hrest
      · omega
      · simp [matchedTrade, horder, hmarket]

/-! ### The moves of a trade -/

theorem WalletEntryType.effect_add (ty : WalletEntryType) (a b : ℤ) :
    ty.effect (a + b) = ty.effect a + ty.effect b := by
  cases ty <;> simp [WalletEntryType.effect, add_comm]

theorem WalletEntryType.effect_zero (ty : WalletEntryType) : ty.effect 0 = 0 := by
  cases ty <;> rfl

/-- A move changes the phase of one deal, and moves the stakes of its two users. -/
structure MovesDeal (st : TradeStatus) (v : TradeMove) (ty : WalletEntryType) (tradeId : Uuid)
    (s t : Db) (d : Deal Uuid Uuid) (rest : Multiset (Deal Uuid Uuid)) : Prop where
  before : s.house.deals = d ::ₘ rest
  phase : d.phase = st.phase
  house : t.house = s.house.withDeals ({ d with phase := v.tradeStatus.phase } ::ₘ rest)
  balances : ∀ u, t.ledger.balances u = s.ledger.balances u + ty.effect (d.share u)
  market : ∃ trade, s.trades.find? tradeId = some trade ∧ trade.status = st ∧
    d.market = trade.marketId

theorem MovedFrom.movesDeal {st : TradeStatus} {v : TradeMove} {ty : WalletEntryType}
    {tradeId : Uuid} (hs : s.Coherent) (hev : Evolves s t) (hv : v.Moves st ty)
    (hclosed : v.orderStatus ≠ .OPEN) (hty : ∀ a, ty.paysIn a = 0)
    (hfresh : v.FreshKeys st tradeId s) (hmove : MovedFrom st v tradeId s t) :
    ∃ d rest, MovesDeal st v ty tradeId s t d rest := by
  obtain ⟨trade, hfound, hst, hmoved⟩ := hmove
  obtain @⟨y, n, L, os, hy, hn, -, hmut, hmut', hsy, hsn, htrade, hmarkets, -⟩ := id hmoved
  have hmem := Table.mem_of_find? hfound
  have htid : trade.id = tradeId := Table.key_of_find? hfound
  have hyid : y.id = trade.yesOrderId := Table.key_of_find? hy
  have hnid : n.id = trade.noOrderId := Table.key_of_find? hn
  have hne : y.id ≠ n.id := by
    rw [hyid, hnid]
    exact Coherent.yes_ne_no hs hmem
  have hy' : s.orders.find? y.id = some y := hyid ▸ hy
  have hn' : s.orders.find? n.id = some n := hnid ▸ hn
  -- an order of a trade is not open, so no offer comes or goes
  have hnot : ∀ {o : Order}, trade.Has o.id → s.orders.find? o.id = some o → o.status ≠ .OPEN := by
    intro o hhas ho hopen
    have hstatus := Coherent.status_of_has hs hmem hhas ho
    rw [hopen] at hstatus
    exact OrderStatus.not_traded_open ⟨_, hstatus.symm⟩
  have hoffers : offersOf t.orders = offersOf s.orders := by
    have hn₁ : os.find? n.id = some n := by
      rw [Table.find?_update_of_ne hsy hne.symm]
      exact hn'
    rw [offersOf_same hsn hn₁ (hnot (Or.inr hnid.symm) hn') hclosed,
      offersOf_same hsy hy' (hnot (Or.inl hyid.symm) hy') hclosed]
  -- one deal changes its phase, the others stay
  have hdeal := Trade.deal_eq hy hn
  obtain ⟨rest, hbefore, hafter⟩ := dealsOf_update (htid ▸ hfound) htrade
    ((deal_congr hs hev hmem).trans hdeal)
  rw [dealsOf_congr hs hev] at hbefore
  have hpaid : t.ledger.paidIn = s.ledger.paidIn := by
    have hsame : ∀ side o a, (v.movement side trade o).entryType.paysIn a = 0 := by
      intro side o a
      rw [hv.entryType]
      exact hty a
    exact (hmut'.paidIn_same (hsame _ _)).trans (hmut.paidIn_same (hsame _ _))
  refine ⟨_, rest, hbefore, congrArg TradeStatus.phase hst, ?_, fun u => ?_,
    trade, hfound, hst, rfl⟩
  · refine House.ext hpaid ?_ hoffers hafter
    show (fun id => (t.markets.find? id).map Market.stage) = _
    rw [hmarkets]
    rfl
  · rw [Moved.balances hs hv (htid ▸ hfound) hst (htid ▸ hfresh) hmoved hy hn, Deal.share,
      WalletEntryType.effect_add, add_assoc]
    congr 2
    · split
      · rfl
      · exact ty.effect_zero.symm
    · split
      · rfl
      · exact ty.effect_zero.symm

end Actions

end OutcomeExchange
