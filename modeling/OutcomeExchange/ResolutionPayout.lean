import OutcomeExchange.Collateral
import OutcomeExchange.Resolution

set_option autoImplicit false

/-! # Resolution payout

What a resolution that completes pays, and what one that does not leaves behind. The loop of
`resolveMarket` credits the same wallet once for every trade that its user has won, each time
under the key `market:…:credit` of the trade; `CreditedAfterResolution` is the invariant that
makes these keys new while the market is unresolved, in every run in which no client chooses
one of them. -/

namespace OutcomeExchange

open Txn

/-! ## What a resolution pays -/

/-- The user owns the order on the winning side of the trade. -/
def Trade.wonBy (winningSide : OutcomeSide) (s : Db) (u : Uuid) (trade : Trade) : Bool :=
  (s.orders.find? (trade.orderOn winningSide)).any fun order => order.userId = u

/-- The quantity that a user has won in the settled trades of a market. -/
def wonQuantity (marketId : Uuid) (winningSide : OutcomeSide) (s : Db) (u : Uuid) : ℤ :=
  (((settledTradesOf marketId s).filter (Trade.wonBy winningSide s u)).map Trade.quantity).sum

/-- The entry is the payout of the trade, in the wallet of the owner of the winning order. -/
def IsPayout (winningSide : OutcomeSide) (db : Db) (trade : Trade) (e : WalletEntry) : Prop :=
  ∃ winner wallet, db.orders.find? (trade.orderOn winningSide) = some winner ∧
    db.ledger.wallets.find? winner.userId = some wallet ∧ e.walletId = wallet.id ∧
    e.entryType = .SETTLE_CREDIT ∧ e.amountCents = 100 * trade.quantity ∧
    e.referenceType = .TRADE ∧ e.referenceId = trade.id.text

/-- The market is resolved and every settled trade of it is paid; nothing else has changed. -/
structure PaidOut (marketId : Uuid) (winningSide : OutcomeSide) (s t : Db) : Prop where
  available : ∀ u, t.ledger.available u =
    s.ledger.available u + 100 * wonQuantity marketId winningSide s u
  reserved : ∀ u, t.ledger.reserved u = s.ledger.reserved u
  orders : t.orders = s.orders
  trades : t.trades = s.trades
  outcomes : t.outcomes = s.outcomes
  entries : ∃ new, t.ledger.entries.rows = s.ledger.entries.rows ++ new ∧
    List.Forall₂ (IsPayout winningSide t) (settledTradesOf marketId s) new
  market : ∃ market, s.markets.find? marketId = some market ∧ t.markets.find? marketId =
    some { market with status := .RESOLVED, resolvedOutcome := some winningSide }
  markets : ∀ id, id ≠ marketId → t.markets.find? id = s.markets.find? id

/-! ## The keys of the payouts -/

/-- The keys of the payouts, `market:…:credit`. -/
def EngineKey.OfCredit (k : EngineKey) : Prop :=
  ∃ marketId tradeId winningSide, k = .credit marketId tradeId winningSide

/-- The key of an entry that an action makes: its client's, or an engine key, and the key of
a payout only if the action resolves the market. -/
def Action.EntryKey (a : Action) (key : String) : Prop :=
  a.clientKey = some key ∨ ∃ k : EngineKey, key = k.text ∧
    ∀ marketId tradeId winningSide, k = .credit marketId tradeId winningSide →
      ∃ createdAt, a = .resolveMarket marketId winningSide createdAt

theorem Action.entryKey_engine {a : Action} {params : MutateWalletParams} (k : EngineKey)
    (hkey : params.idempotencyKey = k.text) (hk : ¬ k.stored.OfCredit) (walletId : Uuid)
    (amount : ℤ) : a.EntryKey (params.entry walletId amount).idempotencyKey := by
  refine Or.inr ⟨k.stored, MutateWalletParams.storedKey_of_text hkey, ?_⟩
  intro marketId tradeId winningSide heq
  exact absurd ⟨marketId, tradeId, winningSide, heq⟩ hk

section Keys

variable {m : Mode RowId} {s t : Db} {a : Action}

theorem Action.Effect.entryKeys (h : a.Effect m s t) :
    Appends (fun e => a.EntryKey e.idempotencyKey) s.ledger t.ledger := by
  have same : ∀ {P}, t = s → Appends P s.ledger t.ledger := by
    rintro P rfl
    exact Appends.of_eq rfl
  -- whoever writes no entry has no key to show
  have none : a.entryType = none →
      Appends (fun e => a.EntryKey e.idempotencyKey) s.ledger t.ledger := by
    intro hty
    refine h.appends.mono fun e he => ?_
    rw [hty] at he
    cases he
  cases a with
  | createWalletForUser userId walletId => exact none rfl
  | createMarket closesAt marketId now => exact none rfl
  | closeMarket marketId now => exact none rfl
  | closeExpiredMarkets now => exact none rfl
  | tryMatchOrder orderId tradeId => exact none rfl
  | reopenOrders orders => exact none rfl
  | deposit userId dto createdAt =>
      obtain ⟨L, rfl, hmut⟩ := h
      refine hmut.appends fun _ _ => Or.inl ?_
      rw [MutateWalletParams.entry_idempotencyKey, MutateWalletParams.storedKey_of_le dto.key_max]
      rfl
  | withdraw userId dto createdAt =>
      obtain ⟨L, rfl, hmut⟩ := h
      refine hmut.appends fun _ _ => Or.inl ?_
      rw [MutateWalletParams.entry_idempotencyKey, MutateWalletParams.storedKey_of_le dto.key_max]
      rfl
  | resolveMarket marketId winningSide createdAt =>
      obtain @⟨market, _, _, hfound, -, -, hcredited, -, -⟩ := h
      have hid : market.id = marketId := Table.key_of_find? hfound
      subst hid
      refine hcredited.appends fun trade _ _ _ _ =>
        Or.inr ⟨.credit market.id trade.id winningSide, ?_, ?_⟩
      · rw [MutateWalletParams.entry_idempotencyKey, settleCredit_storedKey]
      rintro _ _ _ ⟨⟩
      exact ⟨createdAt, rfl⟩
  | placeOrder userId dto orderId now createdAt =>
      refine h.elim same fun hplaced => hplaced.reserved.appends
        (Action.entryKey_engine (.orderReserve dto.idempotencyKey) rfl ?_)
      rintro ⟨_, _, _, ⟨⟩⟩
  | cancelOrder userId orderId createdAt =>
      obtain ⟨-, -, -, -, hmut, -⟩ := h
      refine hmut.appends (Action.entryKey_engine (.orderCancel orderId) rfl ?_)
      rintro ⟨_, _, _, ⟨⟩⟩
  | failPendingTradeAndReleaseFunds tradeId createdAt =>
      refine h.elim same fun hmove => hmove.appends fun _ trade o =>
        Action.entryKey_engine (.trade trade.id (.enqueueRelease o.id)) rfl ?_
      rintro ⟨_, _, _, ⟨⟩⟩
  | handleSettlement tradeId createdAt =>
      refine h.elim same fun hmove => hmove.appends fun side trade _ =>
        Action.entryKey_engine (.trade trade.id (.debit side)) rfl ?_
      rintro ⟨_, _, _, ⟨⟩⟩
  | markSettlementFailure tradeId createdAt =>
      refine h.elim same fun hmove => hmove.appends fun side trade _ =>
        Action.entryKey_engine (.trade trade.id (.release side)) rfl ?_
      rintro ⟨_, _, _, ⟨⟩⟩
  | prepareTradeForRetry tradeId createdAt =>
      refine h.elim same fun hmove => hmove.appends fun _ trade o =>
        Action.entryKey_engine (.trade trade.id (.retryReserve o.id)) rfl ?_
      rintro ⟨_, _, _, ⟨⟩⟩

/-- An entry under the key of a payout belongs to a resolved market. -/
def CreditedAfterResolution (db : Db) : Prop :=
  ∀ e ∈ db.ledger.entries.rows, ∀ marketId tradeId winningSide,
    e.idempotencyKey = (EngineKey.credit marketId tradeId winningSide).text →
      ∃ market, db.markets.find? marketId = some market ∧ market.status = .RESOLVED

/-- **The step lemma.** -/
theorem CreditedAfterResolution.effect (h : CreditedAfterResolution s) (hs : s.Coherent)
    (ha : a.AvoidsKeys EngineKey.OfCredit) (heff : a.Effect m s t) :
    CreditedAfterResolution t := by
  obtain ⟨new, hnew, hkeys⟩ := heff.entryKeys
  intro e he marketId tradeId winningSide hkey
  rw [hnew] at he
  rcases List.mem_append.mp he with hold | hadded
  · obtain ⟨market, hm, hres⟩ := h e hold marketId tradeId winningSide hkey
    exact ⟨market, (heff.evolves hs).resolved hm hres, hres⟩
  · rcases hkeys e hadded with hclient | ⟨k, hk, hcredit⟩
    · exact absurd hkey (ha _ hclient _ ⟨marketId, tradeId, winningSide, rfl⟩)
    · -- the key is that of a payout, so the action resolves the market
      have heq : k = .credit marketId tradeId winningSide :=
        EngineKey.text_injective (hk.symm.trans hkey)
      obtain ⟨createdAt, rfl⟩ := hcredit _ _ _ heq
      obtain @⟨market, _, _, hfound, -, -, -, hsaved, -⟩ := heff
      have hid : market.id = marketId := Table.key_of_find? hfound
      subst hid
      have hfind : t.markets.find? market.id = some
          { market with status := .RESOLVED, resolvedOutcome := some winningSide } :=
        Table.find?_update_self hsaved hfound
      exact ⟨_, hfind, rfl⟩

/-- The keys of the payouts of an unresolved market are new in every wallet. -/
theorem CreditedAfterResolution.fresh (h : CreditedAfterResolution s) {marketId : Uuid}
    (hun : ∀ market, s.markets.find? marketId = some market → market.status ≠ .RESOLVED)
    (u tradeId : Uuid) (winningSide : OutcomeSide) :
    ¬ s.ledger.KeyUsed u (EngineKey.credit marketId tradeId winningSide).text := by
  rintro ⟨e, he, hkey⟩
  obtain ⟨market, hm, hres⟩ := h e (mem_of_history he) marketId tradeId winningSide hkey
  exact hun market hm hres

end Keys

theorem creditedAfterResolution_of_interleaved {c : Conf dbStore Err Unit Action}
    (h : (interleaved (Action.AvoidsKeys EngineKey.OfCredit)).Reachable c) :
    CreditedAfterResolution c.committed := by
  refine (interleaved_invariant CreditedAfterResolution ?_ ?_ h).2
  · intro e he
    cases he
  · intro s a t hs _ hI ha heff
    exact hI.effect hs ha heff

/-! ## The loop -/

section Loop

variable {market : Market} {winningSide : OutcomeSide} {orders : List Order}
  {createdAt : Timestamp} {trades : List Trade} {L L' : Ledger} {s t : Db}

/-- **The loop adds one payout for each trade**, if their keys are new. -/
theorem Credited.entries (h : Credited market winningSide orders createdAt trades L L')
    (hdistinct : trades.Pairwise fun a b => a.id ≠ b.id)
    (hfresh : ∀ trade ∈ trades, ∀ u,
      ¬ L.KeyUsed u (EngineKey.credit market.id trade.id winningSide).text) :
    ∃ new, L'.entries.rows = L.entries.rows ++ new ∧ List.Forall₂ (fun trade e =>
      ∃ winner wallet, orders.find? (fun order => order.id = trade.orderOn winningSide) =
        some winner ∧ L'.wallets.find? winner.userId = some wallet ∧ e =
          (settleCreditParams winner.userId (.int (trade.quantity * 100))
            (EngineKey.credit market.id trade.id winningSide).text trade.id.text createdAt).entry
              wallet.id (trade.quantity * 100)) trades new := by
  -- by induction on the trades that are paid
  induction h with
  | nil L => exact ⟨[], (List.append_nil _).symm, .nil⟩
  | @cons trade rest winner L₁ L₂ L₃ hwinner credited others ih =>
      obtain ⟨hne, hrest⟩ := List.pairwise_cons.mp hdistinct
      cases credited with
      | replay used _ => exact absurd used (hfresh trade (List.mem_cons_self ..) _)
      | @posted w a hp =>
          have ha : trade.quantity * 100 = a := JsNumber.int.inj hp.amount_eq
          subst ha
          obtain ⟨new, hnew, hall⟩ := ih hrest (by
            intro other hother u
            rw [hp.keyUsed_iff]
            rintro (hold | ⟨-, hkey⟩)
            · exact hfresh other (List.mem_cons_of_mem _ hother) u hold
            · -- the key that was just used is that of another trade
              have heq := EngineKey.text_injective (show
                (EngineKey.credit market.id other.id winningSide).text =
                  (EngineKey.credit market.id trade.id winningSide).text from
                    hkey.trans (settleCredit_storedKey market.id trade.id winningSide))
              simp only [EngineKey.credit.injEq, true_and, and_true] at heq
              exact hne other hother heq.symm)
          have hwallet : L₂.wallets.find? winner.userId =
              some (w.moved .SETTLE_CREDIT (trade.quantity * 100)) := by
            rw [hp.find?_wallet]
            exact if_pos rfl
          -- later payouts keep the wallet's identifier
          obtain ⟨w', hw', hid⟩ := others.grows.wallets hwallet
          refine ⟨_ :: new, ?_, .cons ⟨winner, w', hwinner, hw', rfl⟩ hall⟩
          rw [hnew, hp.entries_rows, List.append_assoc, List.singleton_append, hid]
          rfl

/-- The orders that are loaded have all winning orders of the trades. -/
theorem find?_ordersOf_eq {trade : Trade} (ht : trade ∈ trades) (winningSide : OutcomeSide) :
    (ordersOf trades s).find? (fun order => order.id = trade.orderOn winningSide) =
      s.orders.find? (trade.orderOn winningSide) := by
  have hloaded : trade.orderOn winningSide ∈
      trades.flatMap fun trade => [trade.yesOrderId, trade.noOrderId] := by
    refine List.mem_flatMap.mpr ⟨trade, ht, ?_⟩
    cases winningSide <;> simp [Trade.orderOn]
  rw [ordersOf, List.find?_filter]
  show _ = s.orders.rows.find? fun order => order.id = trade.orderOn winningSide
  congr 1
  funext order
  by_cases hid : order.id = trade.orderOn winningSide
  · simp [hid, hloaded]
  · simp [hid]

/-- What is due to a user, if the keys of the payouts are new. -/
theorem payoutsDue_eq {marketId : Uuid} (hfresh : ∀ tradeId u,
      ¬ s.ledger.KeyUsed u (EngineKey.credit marketId tradeId winningSide).text) (u : Uuid) :
    payoutsDue marketId winningSide s u = 100 * wonQuantity marketId winningSide s u := by
  have hdue : ∀ trade ∈ settledTradesOf marketId s,
      payoutDue marketId winningSide (ordersOf (settledTradesOf marketId s) s) s.ledger u trade =
        if trade.wonBy winningSide s u = true then 100 * trade.quantity else 0 := by
    intro trade ht
    rw [payoutDue, find?_ordersOf_eq ht]
    by_cases hwon : trade.wonBy winningSide s u = true
    · rw [if_pos hwon, if_pos ⟨hwon, hfresh trade.id u⟩, Int.mul_comm]
    · rw [if_neg hwon, if_neg fun hdue => hwon hdue.1]
  rw [payoutsDue, List.map_congr_left hdue, wonQuantity]
  induction settledTradesOf marketId s with
  | nil => rfl
  | cons trade rest ih =>
      rw [List.map_cons, List.sum_cons, ih]
      by_cases hwon : trade.wonBy winningSide s u = true
      · rw [if_pos hwon, List.filter_cons_of_pos hwon, List.map_cons, List.sum_cons]
        omega
      · rw [if_neg hwon, List.filter_cons_of_neg hwon]
        omega

theorem Resolved.paidOut {m : Mode RowId} {marketId : Uuid} (hm : ¬ m.stale)
    (hafter : CreditedAfterResolution s)
    (h : Resolved m marketId winningSide createdAt s t) : PaidOut marketId winningSide s t := by
  have hfresh := fun tradeId u => hafter.fresh h.unresolved u tradeId winningSide
  obtain @⟨market, trades, orders, hfound, -, hsnapshot, hcredited, hsaved, hrest⟩ := h
  obtain ⟨houtcomes, horders, htrades⟩ := hrest
  obtain ⟨-, rfl, rfl⟩ := hsnapshot hm
  have hid : market.id = marketId := Table.key_of_find? hfound
  subst hid
  have hdistinct := settledTradesOf_distinct s market.id
  constructor
  · intro u
    rw [hcredited.available_eq hdistinct, ← payoutsDue_eq hfresh u]
    rfl
  · exact hcredited.reserved_same
  · exact horders
  · exact htrades
  · exact houtcomes
  · obtain ⟨new, hnew, hall⟩ := hcredited.entries hdistinct fun trade _ u => hfresh trade.id u
    refine ⟨new, hnew, hall.imp ?_⟩
    rintro trade e ⟨winner, wallet, hwinner, hwallet, rfl⟩
    have hwinner' : t.orders.find? (trade.orderOn winningSide) = some winner := by
      rw [horders]
      exact find?_ordersOf hwinner
    exact ⟨winner, wallet, hwinner', hwallet, rfl, rfl, Int.mul_comm .., rfl,
      trade.id.varchar_text (by decide)⟩
  · exact ⟨market, hfound, Table.find?_update_self hsaved hfound⟩
  · intro id hne
    exact Table.find?_update_of_ne hsaved hne

end Loop

/-! ## A resolution that rejects, and a second one -/

section Interleaved

variable {A : Action → Prop} {c c' : Conf dbStore Err Unit Action} {i : ℕ}
  {x : Session dbStore Err Unit Action}

/-- Until a session commits nothing changes. -/
theorem uncommitted_unchanged {ls : List (Event Action)} (h : (interleaved A).Run c ls c')
    (hls : ∀ i, .commit i ∉ ls) : c'.committed = c.committed := by
  induction h with
  | nil => rfl
  | snoc _ hstep ih =>
      have hbefore := ih fun i hi => hls i (List.mem_append_left _ hi)
      rw [← hbefore]
      cases hstep with
      | begin _ _ => rfl
      | statement _ _ _ => rfl
      | abort _ => rfl
      | commit _ _ _ => exact absurd (List.mem_append_right _ (List.mem_singleton_self _)) (hls _)

/-- A session that has rejected its call does not commit. -/
theorem rejected_not_committed {e : Err} (hx : c.session i = some x) (hrest : x.rest = .throw e) :
    ¬ (interleaved A).step c (.commit i) c' := by
  intro hstep
  cases hstep with
  | commit hx' ha _ =>
      rw [hx] at hx'
      cases hx'
      rw [hrest] at ha
      cases ha

/-- A resolved market is not resolved again. -/
theorem resolved_not_committed (h : (interleaved A).Reachable c) {marketId : Uuid}
    {market : Market} (hm : c.committed.markets.find? marketId = some market)
    (hst : market.status = .RESOLVED) (hx : c.session i = some x) {winningSide : OutcomeSide}
    {createdAt : Timestamp} (hcall : x.call = .resolveMarket marketId winningSide createdAt) :
    ¬ (interleaved A).step c (.commit i) c' := by
  intro hstep
  have heff := interleaved_commit h hx hstep
  rw [hcall] at heff
  exact Resolved.unresolved heff market hm hst

/-- A resolved market stays as it is. -/
theorem resolved_final (h : (interleaved A).Reachable c) {ls : List (Event Action)}
    (hrun : (interleaved A).Run c ls c') {marketId : Uuid} {market : Market}
    (hm : c.committed.markets.find? marketId = some market) (hst : market.status = .RESOLVED) :
    c'.committed.markets.find? marketId = some market := by
  refine hrun.preserves (fun c => c.committed.markets.find? marketId = some market) ?_ h hm
  intro d e d' hd hmd hstep
  exact (interleaved_evolves hd hstep).resolved hmd hst

end Interleaved

theorem run_resolveMarket_resolved {s : Db} {marketId : Uuid} {market : Market}
    (hm : s.markets.find? marketId = some market) (hst : market.status = .RESOLVED)
    (winningSide : OutcomeSide) (createdAt : Timestamp) (busy : RowId → Bool) :
    (resolveMarket marketId winningSide createdAt).run busy s =
      .error (.badRequest "Market is already resolved") := by
  unfold resolveMarket
  rw [Prog.run_bind (run_findMarketForUpdate marketId), hm]
  dsimp only
  rw [if_pos hst]
  rfl

/-- **The payout of a resolution**, from every state that an interleaving of the exchange
leads to: a resolution that completes pays every settled trade of the market and changes
nothing else but the market; the statements of one that rejects change nothing, wherever in
the loop it does; and in every continuation a resolved market is not resolved again. -/
theorem resolution_payout {c : Conf dbStore Err Unit Action}
    (h : (interleaved (Action.AvoidsKeys EngineKey.OfCredit)).Reachable c) (marketId : Uuid) :
    (∀ winningSide createdAt busy r t,
      (resolveMarket marketId winningSide createdAt).run busy c.committed = .ok (r, t) →
        PaidOut marketId winningSide c.committed t) ∧
    (∀ ls c', (interleaved (Action.AvoidsKeys EngineKey.OfCredit)).Run c ls c' →
      ((∀ i, .commit i ∉ ls) → c'.committed = c.committed) ∧
      (∀ i x e c'', c'.session i = some x → x.rest = .throw e →
        ¬ (interleaved (Action.AvoidsKeys EngineKey.OfCredit)).step c' (.commit i) c'')) ∧
    (∀ market, c.committed.markets.find? marketId = some market → market.status = .RESOLVED →
      ∀ ls c', (interleaved (Action.AvoidsKeys EngineKey.OfCredit)).Run c ls c' →
        c'.committed.markets.find? marketId = some market ∧
        (∀ winningSide createdAt busy,
          (resolveMarket marketId winningSide createdAt).run busy c'.committed =
            .error (.badRequest "Market is already resolved")) ∧
        (∀ i x winningSide createdAt c'', c'.session i = some x →
          x.call = .resolveMarket marketId winningSide createdAt →
            ¬ (interleaved (Action.AvoidsKeys EngineKey.OfCredit)).step c' (.commit i) c'')) := by
  refine ⟨?_, ?_, ?_⟩
  · intro winningSide createdAt busy r t hrun
    exact (exec_resolveMarket (exec_of_run hrun)).paidOut (stale_serial _).mp
      (creditedAfterResolution_of_interleaved h)
  · intro ls c' hrun
    exact ⟨uncommitted_unchanged hrun, fun i x e c'' => rejected_not_committed⟩
  · intro market hm hst ls c' hrun
    have hm' := resolved_final h hrun hm hst
    refine ⟨hm', run_resolveMarket_resolved hm' hst, ?_⟩
    intro i x winningSide createdAt c'' hx hcall
    exact resolved_not_committed (hrun.reachable h) hm' hst hx hcall

/-! ## The sample market -/

namespace Sample

def ownYes : Uuid := ⟨"00000000-0000-4000-8000-000000000005", by decide⟩
def ownNo : Uuid := ⟨"00000000-0000-4000-8000-000000000006", by decide⟩
def ownMatch : Uuid := ⟨"00000000-0000-4000-8000-000000000007", by decide⟩

def ownYesDto : PlaceOrderDto :=
  ⟨market, .YES, 70, 3, "own-yes-order", by decide, by decide, by decide, by decide⟩

def ownNoDto : PlaceOrderDto :=
  ⟨market, .NO, 30, 3, "own-no-order", by decide, by decide, by decide, by decide⟩

/-- Alice has a trade with Bob, which is settled, and one with herself. -/
def twoTrades : List Action :=
  matching ++
  [ .handleSettlement trade 4
  , .placeOrder alice ownYesDto ownYes 5 5
  , .placeOrder alice ownNoDto ownNo 6 6
  , .tryMatchOrder ownNo ownMatch
  , .handleSettlement ownMatch 7 ]

end Sample

/-- Alice wins both of her trades. -/
theorem resolution_payout_sample : ∃ c : Conf dbStore Err Unit Action,
    (interleaved (Action.AvoidsKeys EngineKey.OfCredit)).Reachable c ∧ ∃ r t,
      (resolveMarket Sample.market .YES 8).run (fun _ => false) c.committed = .ok (r, t) ∧
      PaidOut Sample.market .YES c.committed t ∧
      t.ledger.available Sample.alice = c.committed.ledger.available Sample.alice + 800 := by
  have hcredit : ∀ k : EngineKey, k.OfCredit → 42 ≤ k.text.length := by
    rintro k ⟨marketId, tradeId, winningSide, rfl⟩
    simp only [EngineKey.text, String.length_append, marketId.text_length, tradeId.text_length]
    omega
  obtain ⟨s, hs, hwon⟩ := interleaved_of_leads
    (fun _ _ h => avoidsKeys_of_short hcredit h)
    (show leads (fun _ a => a.shortKeys) Sample.twoTrades
      (fun s => wonQuantity Sample.market .YES s Sample.alice = 8 &&
        (resolveMarket Sample.market .YES 8).leaves (fun _ _ => true) s) = true by decide +kernel)
  rw [Bool.and_eq_true, decide_eq_true_eq] at hwon
  obtain ⟨hquantity, hcompletes⟩ := hwon
  unfold Tx.leaves at hcompletes
  split at hcompletes
  · rename_i r t hrun
    have hpaid := (resolution_payout hs Sample.market).1 .YES 8 (fun _ => false) r t hrun
    have havailable := hpaid.available Sample.alice
    rw [show (Conf.idle s : Conf dbStore Err Unit Action).committed = s from rfl, hquantity]
      at havailable
    exact ⟨Conf.idle s, hs, r, t, hrun, hpaid, havailable⟩
  · cases hcompletes

end OutcomeExchange
