import Mathlib.Algebra.Order.Group.Int
import OutcomeExchange.Cancellation
import OutcomeExchange.Collateral

set_option autoImplicit false

/-! # A settlement attempt

The worker gives a trade up, and the collateral back, whenever an attempt to settle it throws.
`settlement_commits` says that the attempt itself gives no reason to: while the wallets are
backed and no client has taken the keys of the debits, the transaction of `handleSettlement`
for a pending trade completes, so only the infrastructure can make it fail. -/

namespace OutcomeExchange

open Txn

/-! ## The keys of the debits -/

theorem EngineKey.debit_length (tradeId : Uuid) (side : OutcomeSide) :
    42 ≤ (EngineKey.trade tradeId (.debit side)).text.length := by
  have hprefix : "trade:".length = 6 := by decide
  have hyes : ":yes-debit".length = 10 := by decide
  have hno : ":no-debit".length = 9 := by decide
  cases side <;>
    simp only [EngineKey.text, TradeKey.suffix, String.length_append, Uuid.text_length, hprefix,
      hyes, hno] <;> omega

theorem assertIdempotencyKey_debit (tradeId : Uuid) (side : OutcomeSide) :
    assertIdempotencyKey (EngineKey.trade tradeId (.debit side)).text = .ok () := by
  have hlen := EngineKey.debit_length tradeId side
  have htrim : (EngineKey.trade tradeId (.debit side)).text.length ≤
      jsTrimLength (EngineKey.trade tradeId (.debit side)).text := by
    refine length_le_jsTrimLength (a := 't') (b := 't') ?_ ?_ (by decide) (by decide)
    · cases side <;> simp [EngineKey.text]
    · cases side <;> simp [EngineKey.text, TradeKey.suffix]
  unfold assertIdempotencyKey
  rw [if_neg]
  rintro (hempty | hshort)
  · rw [hempty] at hlen
    exact absurd hlen (by decide)
  · omega

/-! ## The debits -/

section Debit

variable {s : Db} {userId : Uuid} {amount : ℤ}

/-- A debit that the reserved balance covers succeeds. -/
theorem run_settleDebit (busy : RowId → Bool) {key : EngineKey} (referenceId : Uuid)
    (createdAt : Timestamp) (hL : s.ledger.InRange) (hpos : 0 < amount)
    (hkey : assertIdempotencyKey key.text = .ok ()) (hfixed : key.Fixed) {w : Wallet}
    (hw : s.ledger.wallets.find? userId = some w) (hcovers : amount ≤ s.ledger.reserved userId) :
    ∃ r t, (mutateWallet (settleDebitParams userId (.int amount) key.text referenceId.text
      createdAt)).run busy s = .ok (r, t) := by
  have havail : s.ledger.available userId = w.availableBalanceCents := by
    rw [Ledger.available, hw]
    rfl
  have hres : s.ledger.reserved userId = w.reservedBalanceCents := by
    rw [Ledger.reserved, hw]
    rfl
  obtain ⟨⟨hav, havmax⟩, hres₀, hresmax⟩ := hL userId
  have hmoved : w.moved .SETTLE_DEBIT amount =
      { w with reservedBalanceCents := w.reservedBalanceCents - amount } := by
    simp [Wallet.moved, WalletEntryType.effect, sub_eq_add_neg]
  have happly : WalletEntryType.apply .SETTLE_DEBIT w amount =
      .ok (w.moved .SETTLE_DEBIT amount) := by
    rw [hmoved]
    exact if_neg (by omega)
  refine run_mutateWallet busy
    (settleDebitParams userId (.int amount) key.text referenceId.text createdAt)
    (if_neg (by omega)) hkey hfixed rfl rfl hw ?_
  intro _
  refine ⟨happly, ?_⟩
  simp only [settleDebitParams, hmoved]
  exact ⟨⟨by omega, by omega⟩, ⟨by omega, by omega⟩, by omega⟩

end Debit

/-! ## Enough collateral for both sides -/

section Backing

variable {s : Db}

theorem Order.needs_nonneg (hs : s.Coherent) (u : Uuid) {o : Order} (ho : o ∈ s.orders.rows) :
    0 ≤ o.needs u := by
  unfold Order.needs
  split
  · exact le_of_lt (Coherent.sound hs (Table.find?_key ho)).reserved_pos
  · exact le_refl 0

/-- The reserved balance of a user covers any of the active orders together. -/
theorem Backed.covers (h : Backed s) (hs : s.Coherent) (u : Uuid) {l : List Order} (hl : l.Nodup)
    (hsub : ∀ o ∈ l, o ∈ s.orders.rows) : (l.map (Order.needs u)).sum ≤ s.ledger.reserved u := by
  rw [h u]
  exact Table.sum_le (fun o ho => Order.needs_nonneg hs u ho) hl hsub

/-- The reserved balances cover both orders of a pending trade, also if one user has both. -/
theorem Backed.covers_pair (h : Backed s) (hs : s.Coherent) {trade : Trade}
    (ht : trade ∈ s.trades.rows) (hst : trade.status = .PENDING_SETTLEMENT) {y n : Order}
    (hy : s.orders.find? trade.yesOrderId = some y) (hn : s.orders.find? trade.noOrderId = some n)
    (u : Uuid) :
    (if y.userId = u then y.reservedCents else 0) + (if n.userId = u then n.reservedCents else 0) ≤
      s.ledger.reserved u := by
  have hactive : ∀ {id o}, trade.Has id → s.orders.find? id = some o → o.status.active = true := by
    intro id o hhas ho
    rw [Coherent.status_of_has hs ht hhas ho, hst]
    rfl
  have hne : y ≠ n := by
    rintro rfl
    have hyid : y.id = trade.yesOrderId := Table.key_of_find? hy
    have hnid : y.id = trade.noOrderId := Table.key_of_find? hn
    exact Coherent.yes_ne_no hs ht (hyid.symm.trans hnid)
  have hcovers := h.covers hs u (l := [y, n]) (by simpa using hne) (by
    intro o ho
    rcases List.mem_pair.mp ho with rfl | rfl
    · exact Table.mem_of_find? hy
    · exact Table.mem_of_find? hn)
  rw [← Order.needs_of_active (hactive (Or.inl rfl) hy),
    ← Order.needs_of_active (hactive (Or.inr rfl) hn)]
  simpa using hcovers

end Backing

/-! ## The transaction -/

section Attempt

variable {busy : RowId → Bool} {s s₁ s₂ : Db} {v : TradeMove} {trade : Trade} {y n : Order}

theorem run_saveOrders_pair {a b : Order} {os os' : Table Order}
    (ha : s.orders.update? a = some os) (hb : os.update? b = some os') :
    (saveOrders [a, b]).run busy s = .ok ((), { s with orders := os' }) := by
  simp only [saveOrders]
  rw [Prog.run_bind (run_saveOrder ha),
    Prog.run_bind (run_saveOrder (s := { s with orders := os }) hb)]
  rfl

/-- A move whose two wallet movements succeed completes. -/
theorem run_tradeMove (hs : s.Coherent) (ht : s.trades.find? trade.id = some trade)
    (hy : s.orders.find? trade.yesOrderId = some y) (hn : s.orders.find? trade.noOrderId = some n)
    (hrefuse : v.refuse y n = none) {r₁ r₂ : MutationResult}
    (hyes : (mutateWallet (v.movement .YES trade y)).run busy s = .ok (r₁, s₁))
    (hno : (mutateWallet (v.movement .NO trade n)).run busy s₁ = .ok (r₂, s₂)) :
    ∃ r t, (v.run trade).run busy s = .ok (r, t) := by
  obtain ⟨L₁, rfl, -⟩ := exec_mutateWallet (exec_of_run hyes)
  obtain ⟨L₂, rfl, -⟩ := exec_mutateWallet (exec_of_run hno)
  have hyid : y.id = trade.yesOrderId := Table.key_of_find? hy
  have hnid : n.id = trade.noOrderId := Table.key_of_find? hn
  have hne : n.id ≠ y.id := by
    rw [hyid, hnid]
    exact (Coherent.yes_ne_no hs (Table.mem_of_find? ht)).symm
  obtain ⟨os, hos⟩ : ∃ os, s.orders.update? (y.withStatus v.orderStatus) = some os :=
    Table.exists_update (b := y) (by rw [← hyid] at hy; exact hy) fun c hc => hc
  have hn' : os.find? n.id = some n := by
    rw [Table.find?_update_of_ne hos hne, hnid]
    exact hn
  obtain ⟨os', hos'⟩ : ∃ os', os.update? (n.withStatus v.orderStatus) = some os' :=
    Table.exists_update (b := n) hn' fun c hc => hc
  obtain ⟨trades, htrades⟩ : ∃ trades, s.trades.update? (trade.withStatus v.tradeStatus) =
      some trades :=
    Table.exists_update (b := trade) ht fun c hc => hc
  unfold TradeMove.run TradeMove.finish
  rw [Prog.run_bind (run_findOrderForUpdate trade.yesOrderId), hy,
    Prog.run_bind (run_findOrderForUpdate trade.noOrderId), hn]
  dsimp only
  rw [hrefuse]
  dsimp only
  rw [Prog.run_bind hyes, Prog.run_bind hno]
  -- the ledger is the one after both movements, the other tables are as before
  by_cases hfirst : v.tradeFirst = true
  · rw [if_pos hfirst, Prog.run_bind (run_saveTrade (s := { s with ledger := L₂ }) htrades),
      Prog.run_bind (run_saveOrders_pair (s := { s with ledger := L₂, trades := trades }) hos hos')]
    exact ⟨_, _, rfl⟩
  · rw [if_neg hfirst, Prog.run_bind (run_saveOrders_pair (s := { s with ledger := L₂ }) hos hos'),
      Prog.run_bind (run_saveTrade (s := { s with ledger := L₂, orders := os' }) htrades)]
    exact ⟨_, _, rfl⟩

/-- With fresh keys for the debits the settlement of a pending trade completes. -/
theorem run_handleSettlement (hs : s.Coherent) (hp : s.Provided) (hb : Backed s)
    {createdAt : Timestamp} (ht : s.trades.find? trade.id = some trade)
    (hst : trade.status = .PENDING_SETTLEMENT)
    (hfresh : (Action.handleSettlement trade.id createdAt).FreshKeys s) :
    ∃ r t, (handleSettlement trade.id createdAt).run busy s = .ok (r, t) := by
  obtain ⟨y, n, hy, hn, -⟩ := Coherent.pair hs ht
  have hmem : trade ∈ s.trades.rows := Table.mem_of_find? ht
  have hypos := (Coherent.sound hs hy).reserved_pos
  have hnpos := (Coherent.sound hs hn).reserved_pos
  have hcovers := hb.covers_pair hs hmem hst hy hn
  have hfixed : ∀ side, (EngineKey.trade trade.id (.debit side)).Fixed := by rintro side _ ⟨⟩
  obtain ⟨wy, hwy⟩ := hp.owners hy
  have hyes := hcovers y.userId
  rw [if_pos rfl] at hyes
  obtain ⟨r₁, s₁, hrun⟩ := run_settleDebit busy trade.id createdAt hp.balances hypos
    (assertIdempotencyKey_debit trade.id .YES) (hfixed .YES) hwy (by
      split at hyes <;> omega)
  obtain ⟨L, rfl, hmut⟩ := exec_mutateWallet (exec_of_run hrun)
  -- what the first debit leaves to the owner of the second order
  have hleft : n.reservedCents ≤ L.reserved n.userId := by
    have hres : L.reserved n.userId = s.ledger.reserved n.userId +
        if y.userId = n.userId then -y.reservedCents else 0 :=
      hmut.reserved_fresh rfl (hfresh trade ht hst .YES (by simp) y hy) n.userId
    have hno := hcovers n.userId
    rw [if_pos (rfl : n.userId = n.userId)] at hno
    rw [hres]
    by_cases hsame : y.userId = n.userId
    · rw [if_pos hsame] at hno ⊢
      omega
    · rw [if_neg hsame] at hno ⊢
      omega
  obtain ⟨wn, hwn⟩ := hp.owners hn
  obtain ⟨wn', hwn', -⟩ := hmut.grows.wallets hwn
  obtain ⟨r₂, s₂, hrun'⟩ := run_settleDebit (s := { s with ledger := L }) busy trade.id
    createdAt ((LedgerStep.moved hmut).inRange hp.balances) hnpos
    (assertIdempotencyKey_debit trade.id .NO) (hfixed .NO) hwn' hleft
  obtain ⟨r, t, hmove⟩ := run_tradeMove (v := settleMove createdAt) hs ht hy hn rfl hrun hrun'
  refine ⟨r, t, ?_⟩
  unfold handleSettlement
  rw [Prog.run_bind (run_findTradeForUpdate trade.id), ht]
  dsimp only
  rw [if_neg (by simp [hst]), if_neg (by simp [hst])]
  exact hmove

/-! ## What it leaves -/

/-- The trade is settled and its orders are matched, the collateral of both sides is out of
their reserved balances, the ledger has the two debits as new entries, and nothing else has
changed. -/
structure TradeSettled (trade : Trade) (y n : Order) (createdAt : Timestamp) (s t : Db) :
    Prop where
  balances : ∀ u, t.ledger.balances u = s.ledger.balances u -
    (0, (if y.userId = u then y.reservedCents else 0) +
      (if n.userId = u then n.reservedCents else 0))
  entries : ∃ wy wn, s.ledger.wallets.find? y.userId = some wy ∧
    s.ledger.wallets.find? n.userId = some wn ∧ t.ledger.entries.rows = s.ledger.entries.rows ++
      [ ((settleMove createdAt).movement .YES trade y).entry wy.id y.reservedCents
      , ((settleMove createdAt).movement .NO trade n).entry wn.id n.reservedCents ]
  orders : StatusSet [trade.yesOrderId, trade.noOrderId] .MATCHED s.orders t.orders
  trades : ∀ id, t.trades.find? id =
    if id = trade.id then some (trade.withStatus .SETTLED) else s.trades.find? id
  rest : t.markets = s.markets ∧ t.outcomes = s.outcomes

/-- A movement under a new key is carried out. -/
theorem Mutated.balances_fresh {params : MutateWalletParams} {L L' : Ledger}
    (h : Mutated params L L') {amount : ℤ} (hamount : params.amountCents = .int amount)
    (hfresh : ¬ L.KeyUsed params.userId params.idempotencyKey) (u : Uuid) :
    L'.balances u = L.balances u +
      if params.userId = u then params.entryType.effect amount else 0 := by
  rw [h.balances_eq hamount, if_neg hfresh]

theorem Mutated.posted_fresh {params : MutateWalletParams} {L L' : Ledger}
    (h : Mutated params L L') {amount : ℤ} (hamount : params.amountCents = .int amount)
    (hfresh : ¬ L.KeyUsed params.userId params.idempotencyKey) :
    ∃ w, Posted params w amount L L' := by
  cases h with
  | replay used _ => exact absurd used hfresh
  | @posted w a hp =>
      have ha : amount = a := JsNumber.int.inj (hamount.symm.trans hp.amount_eq)
      rw [ha]
      exact ⟨w, hp⟩

/-- Both movements of a move are carried out where their keys are new. -/
theorem Moved.posted {t : Db} {st : TradeStatus} {v : TradeMove} {ty : WalletEntryType}
    (hs : s.Coherent) (hv : v.Moves st ty) (ht : s.trades.find? trade.id = some trade)
    (hst : trade.status = st) (hfresh : v.FreshKeys st trade.id s) (h : Moved v trade s t)
    (hy : s.orders.find? trade.yesOrderId = some y)
    (hn : s.orders.find? trade.noOrderId = some n) : ∃ wy wn L,
      Posted (v.movement .YES trade y) wy y.reservedCents s.ledger L ∧
      Posted (v.movement .NO trade n) wn n.reservedCents L t.ledger := by
  obtain @⟨y', n', L, os, hy', hn', -, hmut, hmut', -⟩ := h
  rw [hy] at hy'
  rw [hn] at hn'
  cases hy'
  cases hn'
  have hne : y.id ≠ n.id := by
    rw [show y.id = trade.yesOrderId from Table.key_of_find? hy,
      show n.id = trade.noOrderId from Table.key_of_find? hn]
    exact Coherent.yes_ne_no hs (Table.mem_of_find? ht)
  have hfy := hfresh trade ht hst .YES (by simp) y hy
  have hfn := hfresh trade ht hst .NO (by simp) n hn
  rw [← hv.userId .YES trade y] at hfy
  rw [← hv.userId .NO trade n] at hfn
  -- the first movement does not use the key of the second
  have hfn' : ¬ L.KeyUsed (v.movement .NO trade n).userId
      (v.movement .NO trade n).idempotencyKey := by
    intro hused
    have hkeys := (hv.keys trade y n hne).symm
    rw [← hv.storedKey .YES trade y] at hkeys
    exact hfn ((hmut.keyUsed_of_ne hkeys).mp hused)
  obtain ⟨wy, hyes⟩ := hmut.posted_fresh (hv.amount .YES trade y) hfy
  obtain ⟨wn, hno⟩ := hmut'.posted_fresh (hv.amount .NO trade n) hfn'
  exact ⟨wy, wn, L, hyes, hno⟩

theorem Moved.balances {t : Db} {st : TradeStatus} {v : TradeMove} {ty : WalletEntryType}
    (hs : s.Coherent) (hv : v.Moves st ty) (ht : s.trades.find? trade.id = some trade)
    (hst : trade.status = st) (hfresh : v.FreshKeys st trade.id s) (h : Moved v trade s t)
    (hy : s.orders.find? trade.yesOrderId = some y)
    (hn : s.orders.find? trade.noOrderId = some n) (u : Uuid) :
    t.ledger.balances u = s.ledger.balances u +
      (if y.userId = u then ty.effect y.reservedCents else 0) +
        (if n.userId = u then ty.effect n.reservedCents else 0) := by
  obtain ⟨wy, wn, L, hyes, hno⟩ := h.posted hs hv ht hst hfresh hy hn
  have hfirst := (Mutated.posted hyes).balances_fresh (hv.amount .YES trade y) hyes.fresh u
  have hsecond := (Mutated.posted hno).balances_fresh (hv.amount .NO trade n) hno.fresh u
  rw [hv.userId, hv.entryType] at hfirst hsecond
  rw [hsecond, hfirst]

/-- The entries of the two movements, in wallets that were there before. -/
theorem Moved.entries {t : Db} {st : TradeStatus} {v : TradeMove} {ty : WalletEntryType}
    (hs : s.Coherent) (hv : v.Moves st ty) (ht : s.trades.find? trade.id = some trade)
    (hst : trade.status = st) (hfresh : v.FreshKeys st trade.id s) (h : Moved v trade s t)
    (hy : s.orders.find? trade.yesOrderId = some y)
    (hn : s.orders.find? trade.noOrderId = some n) :
    ∃ wy wn, s.ledger.wallets.find? y.userId = some wy ∧
      s.ledger.wallets.find? n.userId = some wn ∧ t.ledger.entries.rows = s.ledger.entries.rows ++
        [ (v.movement .YES trade y).entry wy.id y.reservedCents
        , (v.movement .NO trade n).entry wn.id n.reservedCents ] := by
  obtain ⟨wy, wn, L, hyes, hno⟩ := h.posted hs hv ht hst hfresh hy hn
  have hwy := hyes.wallet
  have hwn := hno.wallet
  rw [hv.userId] at hwy hwn
  have hrows : t.ledger.entries.rows = s.ledger.entries.rows ++
      [ (v.movement .YES trade y).entry wy.id y.reservedCents
      , (v.movement .NO trade n).entry wn.id n.reservedCents ] := by
    rw [hno.entries_rows, hyes.entries_rows, List.append_assoc]
    rfl
  -- the first movement may have moved the wallet of the second, which keeps its identifier
  by_cases hsame : n.userId = y.userId
  · rw [hsame, ← hv.userId .YES trade y, hyes.find?_wallet, if_pos rfl] at hwn
    obtain rfl := Option.some.inj hwn
    refine ⟨wy, wy, hwy, ?_, hrows⟩
    rw [hsame]
    exact hwy
  · rw [hyes.find?_wallet, if_neg (by rw [hv.userId]; exact hsame)] at hwn
    exact ⟨wy, wn, hwy, hwn, hrows⟩

theorem Moved.tradeSettled {t : Db} {createdAt : Timestamp} (hs : s.Coherent)
    (ht : s.trades.find? trade.id = some trade) (hst : trade.status = .PENDING_SETTLEMENT)
    (hfresh : (Action.handleSettlement trade.id createdAt).FreshKeys s)
    (h : Moved (settleMove createdAt) trade s t)
    (hy : s.orders.find? trade.yesOrderId = some y)
    (hn : s.orders.find? trade.noOrderId = some n) : TradeSettled trade y n createdAt s t := by
  have hbalances := h.balances hs (settleMove_moves createdAt) ht hst hfresh hy hn
  have hentries := h.entries hs (settleMove_moves createdAt) ht hst hfresh hy hn
  obtain @⟨y', n', L, os, hy', hn', -, -, -, hsy, hsn, hts, hrest⟩ := h
  rw [hy] at hy'
  rw [hn] at hn'
  cases hy'
  cases hn'
  constructor
  · intro u
    rw [hbalances u]
    simp only [WalletEntryType.effect]
    by_cases hyu : y.userId = u <;> by_cases hnu : n.userId = u <;>
      simp only [hyu, hnu, if_true, if_false] <;> apply Prod.ext <;> simp <;> omega
  · exact hentries
  · exact StatusSet.pair hy hn hsy hsn
  · exact fun id => Table.find?_update hts ht id
  · exact hrest

end Attempt

/-! ## Every interleaving -/

/-- No movement of collateral of a transaction that commits is taken for a replay. -/
def CommitsFresh (c : Conf dbStore Err Unit Action) : Event Action → Prop
  | .commit i => ∀ x, c.session i = some x → x.call.FreshKeys c.committed
  | _ => True

section Interleavings

variable {A : Action → Prop} {c : Conf dbStore Err Unit Action}

theorem backed_of_interleaved (h : ((interleaved A).restrict CommitsFresh).Reachable c) :
    Backed c.committed := by
  refine h.invariant_of (fun c => Backed c.committed) (fun c => (interleaved A).Reachable c)
    (fun c hc => hc.of_restrict) ?_ ?_
  · rintro c ⟨hempty, -⟩
    rw [hempty]
    exact backed_empty
  · rintro c e c' hreach hbacked ⟨hfresh, hst⟩
    rcases interleaved_step hreach hst with hsame | ⟨i, x, rfl, hx, -, heff, -⟩
    · rw [hsame]
      exact hbacked
    · exact hbacked.effect (coherent_of_interleaved hreach) (hfresh x hx) heff

/-- A pending trade has no debit yet, whatever attempts there were before. -/
theorem DebitsMatch.fresh {s : Db} (h : DebitsMatch s) {trade : Trade}
    (ht : s.trades.find? trade.id = some trade) (hst : trade.status = .PENDING_SETTLEMENT)
    (createdAt : Timestamp) : (Action.handleSettlement trade.id createdAt).FreshKeys s := by
  rintro trade' ht' - side - o - ⟨e, he, hkey⟩
  rw [ht] at ht'
  cases ht'
  exact (h.undebited ht (by rw [hst]; decide)).keys e (mem_of_history he) side hkey

/-- **A settlement never fails by itself**: wherever a trade is pending, the transaction that
settles it completes, and takes exactly the collateral of its two orders. -/
theorem settlement_commits
    (h : ((interleaved (Action.AvoidsKeys EngineKey.OfTrade)).restrict CommitsFresh).Reachable c)
    {tradeId : Uuid} {trade : Trade} (ht : c.committed.trades.find? tradeId = some trade)
    (hst : trade.status = .PENDING_SETTLEMENT) (createdAt : Timestamp) (busy : RowId → Bool) :
    ∃ y n r t, c.committed.orders.find? trade.yesOrderId = some y ∧
      c.committed.orders.find? trade.noOrderId = some n ∧
      (handleSettlement tradeId createdAt).run busy c.committed = .ok (r, t) ∧
      TradeSettled trade y n createdAt c.committed t := by
  have hinter := h.of_restrict
  have hs : c.committed.Coherent := coherent_of_interleaved hinter
  have hid : trade.id = tradeId := Table.key_of_find? ht
  subst hid
  obtain ⟨y, n, hy, hn, -⟩ := Coherent.pair hs ht
  have hfresh : (Action.handleSettlement trade.id createdAt).FreshKeys c.committed :=
    (debitsMatch_of_interleaved hinter).fresh ht hst createdAt
  obtain ⟨r, t, hrun⟩ := run_handleSettlement hs (provided_of_interleaved hinter)
    (backed_of_interleaved h) ht hst hfresh
  refine ⟨y, n, r, t, hy, hn, hrun, ?_⟩
  -- the run is one that settles, because the trade is pending
  rcases exec_handleSettlement (exec_of_run hrun) with ⟨-, hstale | hsettled⟩ | ⟨tr, htr, -, hmoved⟩
  · cases hstale
  · rw [hsettled trade ht] at hst
    cases hst
  · rw [ht] at htr
    cases htr
    exact hmoved.tradeSettled hs ht hst hfresh hy hn

end Interleavings

/-- The keys of an action are fresh, and its caller's are short. -/
def Action.fresh (s : Db) (a : Action) : Bool := decide (a.FreshKeys s) && a.shortKeys

/-- A trade that has failed once and was re-armed. -/
theorem settlement_commits_sample : ∃ (c : Conf dbStore Err Unit Action) (trade : Trade),
    ((interleaved (Action.AvoidsKeys EngineKey.OfTrade)).restrict CommitsFresh).Reachable c ∧
      ∃ y n r t, c.committed.orders.find? trade.yesOrderId = some y ∧
        c.committed.orders.find? trade.noOrderId = some n ∧
        (handleSettlement Sample.trade 6).run (fun _ => false) c.committed = .ok (r, t) ∧
        TradeSettled trade y n 6 c.committed t := by
  obtain ⟨s, hs, hpending⟩ := exists_of_leads
    (show leads Action.fresh (Sample.matching ++
        [.markSettlementFailure Sample.trade 4, .prepareTradeForRetry Sample.trade 5])
      (fun s => (s.trades.find? Sample.trade).any fun trade =>
        trade.status = .PENDING_SETTLEMENT) = true by decide +kernel)
  obtain ⟨ls, hrun⟩ := interleaved_of_runWhere (A := Action.AvoidsKeys EngineKey.OfTrade)
    (C := CommitsFresh)
    (fun s a ha => avoidsKeys_of_short (fun _ hk => hk.length) (Bool.and_eq_true_iff.mp ha).2)
    (fun _ _ _ => trivial) (fun _ _ => trivial)
    (by
      rintro s a y ha rfl x hx
      have hxy : y = x := Option.some.inj ((Conf.alone_session s y).symm.trans hx)
      rw [← hxy]
      exact of_decide_eq_true (Bool.and_eq_true_iff.mp ha).1) hs
  obtain ⟨trade, htrade, hst⟩ := (Option.any_eq_true _ _).mp hpending
  have hreach : ((interleaved (Action.AvoidsKeys EngineKey.OfTrade)).restrict
      CommitsFresh).Reachable (Conf.idle s) := hrun.reachable (.init ⟨rfl, fun _ => rfl⟩)
  exact ⟨_, trade, hreach, settlement_commits hreach htrade (of_decide_eq_true hst) 6 _⟩

end OutcomeExchange
