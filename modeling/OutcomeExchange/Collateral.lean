import OutcomeExchange.LifeCycle

set_option autoImplicit false

/-! # Collateral

An open order, and one whose trade is being settled, is backed by reserved money of its
owner. Six actions move collateral, each under an idempotency key of its own; a movement
whose key is already in the ledger of the wallet is taken for a replay and does not
happen, while the statuses change all the same. `Action.FreshKeys` is the condition that
none of the movements of an action is swallowed in this way: under it every action keeps
the wallets backed (`Backed.effect`). -/

namespace OutcomeExchange

open Txn

/-! ## Backing -/

/-- The statuses in which an order holds collateral. -/
def OrderStatus.active : OrderStatus → Bool
  | .OPEN => true
  | .MATCH_PENDING => true
  | _ => false

/-- The collateral that an order needs from a user. -/
def Order.needs (u : Uuid) (o : Order) : ℤ :=
  if o.userId = u ∧ o.status.active = true then o.reservedCents else 0

/-- The collateral that the orders of a user need. -/
def collateral (orders : Table Order) (u : Uuid) : ℤ := orders.sum (Order.needs u)

/-- Every wallet has exactly the collateral of its user reserved. -/
def Backed (db : Db) : Prop := ∀ u, db.ledger.reserved u = collateral db.orders u

theorem Order.needs_of_active {u : Uuid} {o : Order} (h : o.status.active = true) :
    o.needs u = if o.userId = u then o.reservedCents else 0 := by
  simp [Order.needs, h]

theorem Order.needs_of_inactive {u : Uuid} {o : Order} (h : o.status.active = false) :
    o.needs u = 0 := by
  simp [Order.needs, h]

/-! ## The condition -/

/-- The keys of the movements of a trade are new in the wallets concerned. -/
def TradeMove.FreshKeys (v : TradeMove) (status : TradeStatus) (tradeId : Uuid) (s : Db) : Prop :=
  ∀ trade ∈ s.trades.find? tradeId, trade.status = status →
    ∀ side ∈ [OutcomeSide.YES, .NO], ∀ o ∈ s.orders.find? (trade.orderOn side),
      ¬ s.ledger.KeyUsed o.userId (v.movement side trade o).idempotencyKey

/-- The keys under which the action moves collateral are new in the wallets concerned. -/
def Action.FreshKeys (s : Db) : Action → Prop
  | .placeOrder userId dto _ _ _ =>
      (∃ o ∈ s.orders.rows, o.userId = userId ∧ o.idempotencyKey = dto.idempotencyKey) ∨
        ¬ s.ledger.KeyUsed userId (EngineKey.orderReserve dto.idempotencyKey).text
  | .cancelOrder userId orderId _ => ¬ s.ledger.KeyUsed userId (EngineKey.orderCancel orderId).text
  | .failPendingTradeAndReleaseFunds tradeId createdAt =>
      (failPendingMove createdAt).FreshKeys .PENDING_SETTLEMENT tradeId s
  | .handleSettlement tradeId createdAt =>
      (settleMove createdAt).FreshKeys .PENDING_SETTLEMENT tradeId s
  | .markSettlementFailure tradeId createdAt =>
      (settlementFailureMove createdAt).FreshKeys .PENDING_SETTLEMENT tradeId s
  | .prepareTradeForRetry tradeId createdAt => (retryMove createdAt).FreshKeys .FAILED tradeId s
  | _ => True

instance (v : TradeMove) (status : TradeStatus) (tradeId : Uuid) (s : Db) :
    Decidable (v.FreshKeys status tradeId s) :=
  inferInstanceAs (Decidable (∀ trade ∈ s.trades.find? tradeId, trade.status = status →
    ∀ side ∈ [OutcomeSide.YES, .NO], ∀ o ∈ s.orders.find? (trade.orderOn side),
      ¬ s.ledger.KeyUsed o.userId (v.movement side trade o).idempotencyKey))

instance (s : Db) (a : Action) : Decidable (a.FreshKeys s) :=
  match a with
  | .placeOrder userId dto _ _ _ => inferInstanceAs (Decidable
      ((∃ o ∈ s.orders.rows, o.userId = userId ∧ o.idempotencyKey = dto.idempotencyKey) ∨
        ¬ s.ledger.KeyUsed userId (EngineKey.orderReserve dto.idempotencyKey).text))
  | .cancelOrder userId orderId _ =>
      inferInstanceAs (Decidable (¬ s.ledger.KeyUsed userId (EngineKey.orderCancel orderId).text))
  | .failPendingTradeAndReleaseFunds tradeId createdAt => inferInstanceAs
      (Decidable ((failPendingMove createdAt).FreshKeys .PENDING_SETTLEMENT tradeId s))
  | .handleSettlement tradeId createdAt =>
      inferInstanceAs (Decidable ((settleMove createdAt).FreshKeys .PENDING_SETTLEMENT tradeId s))
  | .markSettlementFailure tradeId createdAt => inferInstanceAs
      (Decidable ((settlementFailureMove createdAt).FreshKeys .PENDING_SETTLEMENT tradeId s))
  | .prepareTradeForRetry tradeId createdAt =>
      inferInstanceAs (Decidable ((retryMove createdAt).FreshKeys .FAILED tradeId s))
  | .createWalletForUser _ _ => inferInstanceAs (Decidable True)
  | .deposit _ _ _ => inferInstanceAs (Decidable True)
  | .withdraw _ _ _ => inferInstanceAs (Decidable True)
  | .createMarket _ _ _ => inferInstanceAs (Decidable True)
  | .closeMarket _ _ => inferInstanceAs (Decidable True)
  | .closeExpiredMarkets _ => inferInstanceAs (Decidable True)
  | .resolveMarket _ _ _ => inferInstanceAs (Decidable True)
  | .tryMatchOrder _ _ => inferInstanceAs (Decidable True)
  | .reopenOrders _ => inferInstanceAs (Decidable True)

def Call.FreshKeys (s : Db) : Call → Prop
  | .committed a => a.FreshKeys s
  | .rolledBack _ => True

/-! ## Movements -/

section Movements

variable {params : MutateWalletParams} {L L' : Ledger}

/-- A movement that leaves the reserved balance alone, carried out or not. -/
theorem Mutated.reserved_same (h : Mutated params L L')
    (heff : ∀ a, (params.entryType.effect a).2 = 0) (u : Uuid) : L'.reserved u = L.reserved u := by
  cases h with
  | replay used same => rw [same]
  | @posted w a hp =>
      rw [hp.reserved_eq, heff]
      simp

/-- A movement with a new key is carried out. -/
theorem Mutated.reserved_fresh (h : Mutated params L L') {amount : ℤ}
    (hamount : params.amountCents = .int amount)
    (hfresh : ¬ L.KeyUsed params.userId params.idempotencyKey) (u : Uuid) :
    L'.reserved u = L.reserved u +
      if params.userId = u then (params.entryType.effect amount).2 else 0 := by
  cases h with
  | replay used same => exact absurd used hfresh
  | @posted w a hp =>
      have ha : amount = a := by
        have heq := hp.amount_eq
        rw [hamount] at heq
        exact JsNumber.int.inj heq
      rw [hp.reserved_eq, ha]
      simp only [eq_comm]

theorem Credited.reserved_same {market : Market} {winningSide : OutcomeSide}
    {orders : List Order} {createdAt : Timestamp} {trades : List Trade}
    (h : Credited market winningSide orders createdAt trades L L') (u : Uuid) :
    L'.reserved u = L.reserved u := by
  induction h with
  | nil L => rfl
  | cons winner credited others ih => rw [ih, credited.reserved_same (fun _ => rfl)]

theorem reserved_insertWallet {walletId userId : Uuid}
    (h : L.insertWallet ⟨walletId, userId, 0, 0⟩ = .ok L') (u : Uuid) :
    L'.reserved u = L.reserved u := by
  rw [Ledger.reserved, Ledger.reserved, Ledger.find?_insertWallet h]
  by_cases hu : userId = u
  · subst hu
    have hnone : L.wallets.find? userId = none :=
      Table.find?_insert_self (Ledger.insertWallet_eq_ok h).1
    rw [if_pos rfl, hnone]
    rfl
  · rw [if_neg hu]

end Movements

/-! ## Every action keeps the wallets backed -/

section Effect

variable {s t : Db} {m : Mode RowId}

/-- The settlement moves are all of this form: both movements have the amount of the order
and one entry type, whose effect on the collateral is that of the change of status. -/
structure TradeMove.Moves (v : TradeMove) (status : TradeStatus) (ty : WalletEntryType) :
    Prop where
  userId : ∀ side trade o, (v.movement side trade o).userId = o.userId
  amount : ∀ side trade o, (v.movement side trade o).amountCents = .int o.reservedCents
  entryType : ∀ side trade o, (v.movement side trade o).entryType = ty
  keys : ∀ trade y n, y.id ≠ n.id →
    (v.movement .YES trade y).idempotencyKey ≠ (v.movement .NO trade n).idempotencyKey
  engine : ∀ side (trade : Trade) o, ∃ key : TradeKey,
    (v.movement side trade o).idempotencyKey = (EngineKey.trade trade.id key).text
  change : ∀ a : ℤ, (ty.effect a).2 =
    (if v.orderStatus.active then a else 0) - (if status.orderStatus.active then a else 0)

theorem failPendingMove_moves (createdAt : Timestamp) :
    (failPendingMove createdAt).Moves .PENDING_SETTLEMENT .RELEASE where
  userId _ _ _ := rfl
  amount _ _ _ := rfl
  entryType _ _ _ := rfl
  keys trade y n hne hkey := by
    have hk := EngineKey.text_injective
      (show (EngineKey.trade trade.id (.enqueueRelease y.id)).text =
        (EngineKey.trade trade.id (.enqueueRelease n.id)).text from hkey)
    simp only [EngineKey.trade.injEq, TradeKey.enqueueRelease.injEq, true_and] at hk
    exact hne hk
  engine _ _ _ := ⟨_, rfl⟩
  change a := (zero_sub a).symm

theorem settleMove_moves (createdAt : Timestamp) :
    (settleMove createdAt).Moves .PENDING_SETTLEMENT .SETTLE_DEBIT where
  userId _ _ _ := rfl
  amount _ _ _ := rfl
  entryType _ _ _ := rfl
  keys trade y n _ hkey := by
    have hk := EngineKey.text_injective
      (show (EngineKey.trade trade.id (.debit .YES)).text =
        (EngineKey.trade trade.id (.debit .NO)).text from hkey)
    cases hk
  engine _ _ _ := ⟨_, rfl⟩
  change a := (zero_sub a).symm

theorem settlementFailureMove_moves (createdAt : Timestamp) :
    (settlementFailureMove createdAt).Moves .PENDING_SETTLEMENT .RELEASE where
  userId _ _ _ := rfl
  amount _ _ _ := rfl
  entryType _ _ _ := rfl
  keys trade y n _ hkey := by
    have hk := EngineKey.text_injective
      (show (EngineKey.trade trade.id (.release .YES)).text =
        (EngineKey.trade trade.id (.release .NO)).text from hkey)
    cases hk
  engine _ _ _ := ⟨_, rfl⟩
  change a := (zero_sub a).symm

theorem retryMove_moves (createdAt : Timestamp) :
    (retryMove createdAt).Moves .FAILED .RESERVE where
  userId _ _ _ := rfl
  amount _ _ _ := rfl
  entryType _ _ _ := rfl
  keys trade y n hne hkey := by
    have hk := EngineKey.text_injective
      (show (EngineKey.trade trade.id (.retryReserve y.id)).text =
        (EngineKey.trade trade.id (.retryReserve n.id)).text from hkey)
    simp only [EngineKey.trade.injEq, TradeKey.retryReserve.injEq, true_and] at hk
    exact hne hk
  engine _ _ _ := ⟨_, rfl⟩
  change a := (sub_zero a).symm

/-- Their column holds the keys of a move as they are. -/
theorem TradeMove.Moves.storedKey {v : TradeMove} {status : TradeStatus} {ty : WalletEntryType}
    (hv : v.Moves status ty) (side : OutcomeSide) (trade : Trade) (o : Order) :
    (v.movement side trade o).storedKey = (v.movement side trade o).idempotencyKey := by
  obtain ⟨key, hkey⟩ := hv.engine side trade o
  rw [MutateWalletParams.storedKey_of_text hkey, hkey]
  rfl

/-- What a change of status does to the collateral of an order. -/
theorem Order.needs_withStatus (u : Uuid) (o : Order) (st : OrderStatus) :
    (o.withStatus st).needs u - o.needs u = if o.userId = u then
      (if st.active then o.reservedCents else 0) - (if o.status.active then o.reservedCents else 0)
      else 0 := by
  by_cases hu : o.userId = u
  · simp [Order.needs, hu]
  · simp [Order.needs, hu]

/-- A move whose keys are new keeps the wallets backed. -/
theorem Backed.moved {st : TradeStatus} {v : TradeMove} {ty : WalletEntryType}
    {tradeId : Uuid} (h : Backed s) (hs : s.Coherent) (hv : v.Moves st ty)
    (hfresh : v.FreshKeys st tradeId s) (hmove : MovedFrom st v tradeId s t) : Backed t := by
  obtain ⟨trade, hfound, hst, hmoved⟩ := hmove
  obtain @⟨y, n, L, os, hy, hn, -, hmut, hmut', hsy, hsn, -, -⟩ := hmoved
  have hmem := Table.mem_of_find? hfound
  have hyid : y.id = trade.yesOrderId := Table.key_of_find? hy
  have hnid : n.id = trade.noOrderId := Table.key_of_find? hn
  have hne : y.id ≠ n.id := by
    rw [hyid, hnid]
    exact Coherent.yes_ne_no hs hmem
  have hyst : y.status = st.orderStatus := by
    rw [Coherent.status_of_has hs hmem (Or.inl rfl) hy, hst]
  have hnst : n.status = st.orderStatus := by
    rw [Coherent.status_of_has hs hmem (Or.inr rfl) hn, hst]
  have hfy := hfresh trade hfound hst .YES (by simp) y hy
  have hfn := hfresh trade hfound hst .NO (by simp) n hn
  intro u
  -- the first movement does not use the key of the second
  have hfn' : ¬ L.KeyUsed (v.movement .NO trade n).userId
      (v.movement .NO trade n).idempotencyKey := by
    rw [hv.userId]
    cases hmut with
    | replay used same =>
        rw [same]
        exact hfn
    | posted hp =>
        rw [hp.keyUsed_iff]
        rintro (hold | ⟨-, hkey⟩)
        · exact hfn hold
        · rw [hv.storedKey] at hkey
          exact hv.keys trade y n hne hkey.symm
  have hfy' : ¬ s.ledger.KeyUsed (v.movement .YES trade y).userId
      (v.movement .YES trade y).idempotencyKey := by
    rw [hv.userId]
    exact hfy
  have hL := hmut.reserved_fresh (hv.amount .YES trade y) hfy' u
  have ht := hmut'.reserved_fresh (hv.amount .NO trade n) hfn' u
  rw [hv.userId, hv.entryType, hv.change, ← hyst] at hL
  rw [hv.userId, hv.entryType, hv.change, ← hnst] at ht
  have hsum : collateral t.orders u = collateral s.orders u - y.needs u +
      (y.withStatus v.orderStatus).needs u - n.needs u + (n.withStatus v.orderStatus).needs u :=
    Table.sum_update_pair (a := y.withStatus v.orderStatus) (b := n.withStatus v.orderStatus)
      (show s.orders.find? y.id = some y by rw [hyid, hy])
      (show s.orders.find? n.id = some n by rw [hnid, hn]) hne hsy hsn _
  have hchangey := Order.needs_withStatus u y v.orderStatus
  have hchangen := Order.needs_withStatus u n v.orderStatus
  have hbacked := h u
  omega

theorem Backed.placed {userId orderId : Uuid} {dto : PlaceOrderDto} {now createdAt : Timestamp}
    (h : Backed s) (hs : s.Coherent) (hfresh : (Action.placeOrder userId dto orderId now createdAt).FreshKeys s)
    (hplaced : Placed userId dto orderId now createdAt s t) : Backed t := by
  intro u
  have hnew : ¬ s.ledger.KeyUsed userId (EngineKey.orderReserve dto.idempotencyKey).text :=
    hfresh.resolve_left (hplaced.absent hs)
  have hreserved := hplaced.reserved.reserved_fresh rfl hnew u
  have hsum : collateral t.orders u =
      collateral s.orders u + (dto.order userId orderId createdAt).needs u :=
    Table.sum_insert hplaced.inserted _
  rw [Order.needs_of_active rfl] at hsum
  have hbacked := h u
  calc t.ledger.reserved u
      = s.ledger.reserved u + if userId = u then dto.priceCents * dto.quantity else 0 := hreserved
    _ = collateral s.orders u + if userId = u then dto.priceCents * dto.quantity else 0 := by
        rw [hbacked]
    _ = collateral t.orders u := hsum.symm

theorem Backed.cancelled {userId orderId : Uuid} {createdAt : Timestamp} (h : Backed s)
    (hfresh : ¬ s.ledger.KeyUsed userId (EngineKey.orderCancel orderId).text)
    (hcancelled : Cancelled userId orderId createdAt s t) : Backed t := by
  obtain @⟨o, hfound, hown, hopen, hsaved, hmut, -⟩ := hcancelled
  intro u
  have hid : o.id = orderId := Table.key_of_find? hfound
  subst hid hown
  have hreserved : t.ledger.reserved u =
      s.ledger.reserved u + if o.userId = u then -o.reservedCents else 0 :=
    hmut.reserved_fresh rfl hfresh u
  have hsum : collateral t.orders u =
      collateral s.orders u - o.needs u + (o.withStatus .CANCELLED).needs u :=
    Table.sum_update (a := o.withStatus .CANCELLED) hsaved
      (show s.orders.find? o.id = some o from hfound) _
  rw [Order.needs_of_active (by rw [hopen]; rfl), Order.needs_of_inactive rfl] at hsum
  have hbacked := h u
  by_cases hu : o.userId = u
  · rw [if_pos hu] at hreserved hsum
    omega
  · rw [if_neg hu] at hreserved hsum
    omega

/-- A match takes no collateral: both orders hold theirs before and after. -/
theorem Backed.tradeMade {orderId tradeId : Uuid} (h : Backed s)
    (hmade : TradeMade orderId tradeId s t) : Backed t := by
  obtain @⟨o, c, os, hfound, hopen, hother, hcomp, hsaved, hsaved', -, -, hledger, -⟩ := hmade
  obtain ⟨-, -, -, -, hopen', hne⟩ := Order.complements_iff.mp hcomp
  have hid : o.id = orderId := Table.key_of_find? hfound
  subst hid
  intro u
  have hsum : collateral t.orders u = collateral s.orders u - o.needs u +
      (o.withStatus .MATCH_PENDING).needs u - c.needs u +
      (c.withStatus .MATCH_PENDING).needs u :=
    Table.sum_update_pair (a := o.withStatus .MATCH_PENDING) (b := c.withStatus .MATCH_PENDING)
      (show s.orders.find? o.id = some o from hfound) hother hne.symm hsaved hsaved' _
  have hchange := Order.needs_withStatus u o .MATCH_PENDING
  have hchange' := Order.needs_withStatus u c .MATCH_PENDING
  rw [hopen] at hchange
  rw [hopen'] at hchange'
  simp only [OrderStatus.active, if_true, sub_self, ite_self] at hchange hchange'
  have hbacked := h u
  rw [hledger]
  omega

/-- **The step lemma of backing.** -/
theorem Backed.effect {a : Action} (h : Backed s) (hs : s.Coherent) (hfresh : a.FreshKeys s)
    (heff : a.Effect m s t) : Backed t := by
  have same : t = s → Backed t := by
    rintro rfl
    exact h
  -- neither an order nor reserved money changes
  have keeps : t.orders = s.orders → (∀ u, t.ledger.reserved u = s.ledger.reserved u) →
      Backed t := by
    intro horders hreserved u
    rw [hreserved, horders]
    exact h u
  cases a with
  | createWalletForUser userId walletId =>
      refine heff.elim same ?_
      rintro ⟨L, hL, rfl⟩
      exact keeps rfl (reserved_insertWallet hL)
  | deposit userId dto createdAt =>
      obtain ⟨L, rfl, hmut⟩ := heff
      exact keeps rfl (hmut.reserved_same fun _ => rfl)
  | withdraw userId dto createdAt =>
      obtain ⟨L, rfl, hmut⟩ := heff
      exact keeps rfl (hmut.reserved_same fun _ => rfl)
  | createMarket closesAt marketId now =>
      obtain ⟨-, hledger, horders, -⟩ := heff
      exact keeps horders fun u => by rw [hledger]
  | closeMarket marketId now =>
      obtain ⟨-, hledger, -, horders, -⟩ := heff
      exact keeps horders fun u => by rw [hledger]
  | closeExpiredMarkets now =>
      obtain ⟨-, hledger, -, horders, -⟩ := heff
      exact keeps horders fun u => by rw [hledger]
  | resolveMarket marketId winningSide createdAt =>
      obtain ⟨-, -, -, hcredited, -, -, horders, -⟩ := heff
      exact keeps horders hcredited.reserved_same
  | placeOrder userId dto orderId now createdAt => exact heff.elim same (h.placed hs hfresh)
  | cancelOrder userId orderId createdAt => exact h.cancelled hfresh heff
  | tryMatchOrder orderId tradeId => exact heff.elim same h.tradeMade
  | failPendingTradeAndReleaseFunds tradeId createdAt =>
      exact heff.elim same (h.moved hs (failPendingMove_moves createdAt) hfresh)
  | handleSettlement tradeId createdAt =>
      exact heff.elim same (h.moved hs (settleMove_moves createdAt) hfresh)
  | markSettlementFailure tradeId createdAt =>
      exact heff.elim same (h.moved hs (settlementFailureMove_moves createdAt) hfresh)
  | prepareTradeForRetry tradeId createdAt =>
      exact heff.elim same (h.moved hs (retryMove_moves createdAt) hfresh)
  | reopenOrders orders => exact same heff

end Effect

theorem backed_empty : Backed Db.empty := fun _ => rfl

/-- **Collateral backing**, in every run in which no movement of collateral is taken for a
replay. -/
theorem collateral_backed {db : Db}
    (h : (exchange.restrict fun s c => c.FreshKeys s).Reachable db) (u : Uuid) :
    db.ledger.reserved u = collateral db.orders u :=
  (exchange_invariant Backed backed_empty
    (fun _ _ _ _ hs _ hI hfresh heff => hI.effect hs hfresh heff) h).2 u

/-- The collateral of a trade that has failed once and was re-armed. -/
theorem collateral_backed_rearmed : ∃ db,
    (exchange.restrict fun s c => c.FreshKeys s).Reachable db ∧
      db.ledger.reserved Sample.alice = collateral db.orders Sample.alice ∧
      collateral db.orders Sample.alice = 200 := by
  have fresh : ∀ (s : Db) (a : Action), decide (a.FreshKeys s) = true →
      (Call.committed a).FreshKeys s := by
    intro s a h
    exact of_decide_eq_true (p := a.FreshKeys s) h
  obtain ⟨db, hdb, hneeds⟩ := exchange_of_leads fresh
    (show leads (fun s a => a.FreshKeys s) (Sample.matching ++
        [.markSettlementFailure Sample.trade 4, .prepareTradeForRetry Sample.trade 5])
      (fun db => collateral db.orders Sample.alice = 200) = true by decide +kernel)
  exact ⟨db, hdb, collateral_backed hdb Sample.alice, of_decide_eq_true hneeds⟩

/-- The second failure of a trade releases nothing: its keys are those of the first. -/
theorem collateral_not_backed :
    ¬ ∀ db, exchange.Reachable db → ∀ u, db.ledger.reserved u = collateral db.orders u := by
  intro hall
  obtain ⟨db, hdb, hstuck⟩ := exchange_of_leads (C := fun _ _ => True) (fun _ _ _ => trivial)
    (show leads (fun _ _ => true) (Sample.matching ++
        [ .markSettlementFailure Sample.trade 4, .prepareTradeForRetry Sample.trade 5
        , .markSettlementFailure Sample.trade 6 ])
      (fun db => db.ledger.reserved Sample.alice = 200 &&
        collateral db.orders Sample.alice = 0) = true by decide +kernel)
  rw [Bool.and_eq_true, decide_eq_true_eq, decide_eq_true_eq] at hstuck
  have hbacked := hall db hdb.of_restrict Sample.alice
  omega

end OutcomeExchange
