import OutcomeExchange.Coherence
import OutcomeExchange.Txn.Deadlock

set_option autoImplicit false

/-! # The order of the row locks

A transaction locks its market first, or its trade and then the YES order and the NO order of
that trade, and wallets last: `Action.locks` is this order, and `asks_prog` proves it of every
transaction. It speaks of the rows that a transaction names in `FOR UPDATE`, `INSERT` and
`UPDATE` statements. What PostgreSQL locks on its own behalf is not modelled: the row that a
foreign key refers to (`FOR KEY SHARE`), and the waits on a unique index.

The bulk `UPDATE` of `closeExpiredMarkets` locks several markets, in the order in which the
database scans them, and is left out. -/

namespace OutcomeExchange

open Txn

/-! ## Which row may be locked when -/

/-- The transactions that lock the wallets of two users, one after the other. -/
def Action.locksTwoWallets : Action → Bool
  | .resolveMarket _ _ _ => true
  | .failPendingTradeAndReleaseFunds _ _ => true
  | .handleSettlement _ _ => true
  | .markSettlementFailure _ _ => true
  | .prepareTradeForRetry _ _ => true
  | _ => false

/-- Markets and trades are locked before orders. -/
def RowId.aboveOrders : RowId → Prop
  | .market _ => True
  | .trade _ => True
  | _ => False

/-- The NO order of a trade of which the row, and the YES order if there is one, are held. -/
def SecondOrder (held : List RowId) (db : Db) (id : Uuid) : Prop :=
  ∃ trade : Trade, db.trades.find? trade.id = some trade ∧ RowId.trade trade.id ∈ held ∧
    id = trade.noOrderId ∧ ∀ r ∈ held, r = .trade trade.id ∨ r = .order trade.yesOrderId

/-- The rows that the statements of a transaction may lock. -/
def Action.locks (a : Action) : Guard Db RowId where
  ask clean held db r := r ∈ held ∨
    match r with
    | .market _ => held = []
    | .trade id =>
        (held = [] ∧ db.trades.find? id ≠ none) ∨ ∃ orderId, a = .tryMatchOrder orderId id
    | .order id => (∀ r ∈ held, r.aboveOrders) ∨ (clean = true ∧ SecondOrder held db id)
    | .wallet _ => (∀ u, RowId.wallet u ∉ held) ∨ a.locksTwoWallets = true
  pick r := ∃ id, r = .order id

section Asks

variable {G : Guard Db RowId} {clean : Bool} {held : List RowId} {s : Db} {a : Action}

/-! ## The statements -/

theorem asks_findMarketForUpdate {id : Uuid} {Q : Option Market → Bool → List RowId → Db → Prop}
    (hfound : ∀ market, s.markets.find? id = some market →
      G.ask clean held s (.market id) ∧ Q (some market) clean (.market id :: held) s)
    (hnone : Q none clean held s) : (findMarketForUpdate id).Asks G clean held s Q := by
  refine (asks_forUpdate (S := dbStore) (r := RowId.market id)).mpr ⟨fun hthere => ?_, ?_⟩
  · obtain ⟨market, hmarket⟩ := Option.isSome_iff_exists.mp hthere
    rw [hmarket]
    exact hfound market hmarket
  · intro v hv
    rw [isSome_false.mp hv]
    exact hnone

theorem asks_findOrderForUpdate {id : Uuid} {Q : Option Order → Bool → List RowId → Db → Prop}
    (hfound : ∀ order, s.orders.find? id = some order →
      G.ask clean held s (.order id) ∧ Q (some order) clean (.order id :: held) s)
    (hnone : Q none clean held s) : (findOrderForUpdate id).Asks G clean held s Q := by
  refine (asks_forUpdate (S := dbStore) (r := RowId.order id)).mpr ⟨fun hthere => ?_, ?_⟩
  · obtain ⟨order, horder⟩ := Option.isSome_iff_exists.mp hthere
    rw [horder]
    exact hfound order horder
  · intro v hv
    rw [isSome_false.mp hv]
    exact hnone

theorem asks_findTradeForUpdate {id : Uuid} {Q : Option Trade → Bool → List RowId → Db → Prop}
    (hfound : ∀ trade, s.trades.find? id = some trade →
      G.ask clean held s (.trade id) ∧ Q (some trade) clean (.trade id :: held) s)
    (hnone : Q none clean held s) : (findTradeForUpdate id).Asks G clean held s Q := by
  refine (asks_forUpdate (S := dbStore) (r := RowId.trade id)).mpr ⟨fun hthere => ?_, ?_⟩
  · obtain ⟨trade, htrade⟩ := Option.isSome_iff_exists.mp hthere
    rw [htrade]
    exact hfound trade htrade
  · intro v hv
    rw [isSome_false.mp hv]
    exact hnone

/-- A write of a row that may be locked. -/
theorem asks_saveRow {r : RowId} {u : Update dbStore Err}
    {Q : Unit → Bool → List RowId → Db → Prop} (hrows : u.rows = [r]) (hask : G.ask clean held s r)
    (hQ : ∀ t, Q () false (r :: held) t) : (Prog.save u).Asks G clean held s Q := by
  refine asks_save.mpr ⟨fun r' hr' => ?_, fun t _ => ?_⟩
  · rw [hrows, List.mem_singleton] at hr'
    rw [hr']
    exact hask
  · rw [hrows]
    exact hQ t

end Asks

section Locks

variable {clean : Bool} {held : List RowId} {s : Db} {a : Action}

theorem Action.locks_held {r : RowId} (h : r ∈ held) : a.locks.ask clean held s r := Or.inl h

theorem Action.locks_first_wallet {u : Uuid} (h : ∀ u, RowId.wallet u ∉ held) :
    a.locks.ask clean held s (.wallet u) := Or.inr (Or.inl h)

theorem Action.locks_any_wallet {u : Uuid} (h : a.locksTwoWallets = true) :
    a.locks.ask clean held s (.wallet u) := Or.inr (Or.inr h)

theorem asks_ofExcept {α : Type} {x : Except Err α} {Q : α → Bool → List RowId → Db → Prop}
    (h : ∀ v, x = .ok v → Q v clean held s) : (ofExcept x).Asks a.locks clean held s Q := by
  cases x with
  | error e => trivial
  | ok v => exact h v rfl

theorem asks_findWalletForUpdate {u : Uuid} {Q : Option Wallet → Bool → List RowId → Db → Prop}
    (hask : a.locks.ask clean held s (.wallet u))
    (hfound : ∀ wallet, wallet.userId = u → Q (some wallet) clean (.wallet u :: held) s)
    (hnone : Q none clean held s) : (findWalletForUpdate u).Asks a.locks clean held s Q := by
  unfold findWalletForUpdate
  refine asks_bind.mpr ((asks_forUpdate (S := dbStore)).mpr ⟨fun hthere => ⟨hask, ?_⟩, ?_⟩)
  · refine asks_pure.mpr ?_
    obtain ⟨v, hslice⟩ := Option.isSome_iff_exists.mp hthere
    obtain ⟨wallet, hwallet, rfl⟩ := Option.map_eq_some_iff.mp hslice
    rw [hslice]
    exact hfound wallet (Table.key_of_find? hwallet)
  · intro v hv
    rw [isSome_false.mp hv]
    exact asks_pure.mpr hnone

/-- The entries are read under the lock of the wallet. -/
theorem asks_findEntry {u : Uuid} {key : String}
    {Q : Option WalletEntry → Bool → List RowId → Db → Prop} (hheld : RowId.wallet u ∈ held)
    (hQ : ∀ found held', held ⊆ held' → Q found clean held' s) :
    (findEntry u key).Asks a.locks clean held s Q := by
  unfold findEntry
  split
  · exact asks_throw
  refine asks_bind.mpr ((asks_forUpdate (S := dbStore)).mpr ⟨fun _ => ⟨?_, ?_⟩, ?_⟩)
  · exact Action.locks_held hheld
  · exact asks_pure.mpr (hQ _ _ (List.subset_cons_self _ _))
  · intro v _
    exact asks_pure.mpr (hQ _ _ (List.Subset.refl _))

/-- A movement of a wallet locks that wallet, and goes on with the rows held so far. -/
theorem asks_mutateWallet {params : MutateWalletParams}
    {Q : MutationResult → Bool → List RowId → Db → Prop}
    (hask : a.locks.ask clean held s (.wallet params.userId))
    (hQ : ∀ r clean' held' s', held ⊆ held' → Q r clean' held' s') :
    (mutateWallet params).Asks a.locks clean held s Q := by
  unfold mutateWallet
  refine asks_bind.mpr (asks_ofExcept fun amount _ => ?_)
  refine asks_bind.mpr (asks_ofExcept fun _ _ => ?_)
  refine asks_bind.mpr (asks_findWalletForUpdate hask (fun wallet huser => ?_) asks_throw)
  refine asks_bind.mpr (asks_findEntry (List.mem_cons_self ..) fun found rows hrows => ?_)
  have hsub : held ⊆ rows := fun r hr => hrows (List.mem_cons_of_mem _ hr)
  have hown : RowId.wallet params.userId ∈ rows := hrows (List.mem_cons_self ..)
  cases found with
  | some e => exact hQ _ _ _ _ hsub
  | none =>
      refine asks_bind.mpr (asks_ofExcept fun wallet' hwallet => ?_)
      refine asks_bind.mpr (asks_ofExcept fun _ _ => ?_)
      have hsame : wallet'.userId = params.userId := by
        rw [WalletEntryType.apply_eq_ok hwallet]
        exact huser
      -- both writes are to the wallet that is held
      refine asks_bind.mpr (asks_saveRow (r := .wallet wallet'.userId) rfl ?_ fun t => ?_)
      · rw [hsame]
        exact Action.locks_held hown
      · refine asks_bind.mpr (asks_saveRow (r := .wallet params.userId) rfl ?_ fun t' => ?_)
        · exact Action.locks_held (List.mem_cons_of_mem _ hown)
        · exact hQ _ _ _ _ fun r hr => List.mem_cons_of_mem _ (List.mem_cons_of_mem _ (hsub hr))

/-- The same for the methods that return the wallet. -/
theorem asks_movement {params : MutateWalletParams} {Q : Wallet → Bool → List RowId → Db → Prop}
    (hask : a.locks.ask clean held s (.wallet params.userId))
    (hQ : ∀ r clean' held' s', held ⊆ held' → Q r clean' held' s') :
    (mutateWallet params >>= fun mutation => pure mutation.wallet : Tx Wallet).Asks a.locks clean
      held s Q :=
  asks_bind.mpr (asks_mutateWallet hask fun _ _ _ _ hsub => hQ _ _ _ _ hsub)

/-- Orders that are held can be saved. -/
theorem asks_saveOrders {orders : List Order} {Q : Unit → Bool → List RowId → Db → Prop}
    (hheld : ∀ order ∈ orders, RowId.order order.id ∈ held)
    (hQ : ∀ clean' held' s', held ⊆ held' → Q () clean' held' s') :
    (saveOrders orders).Asks a.locks clean held s Q := by
  induction orders generalizing clean held s with
  | nil => exact hQ _ _ _ (List.Subset.refl _)
  | cons order orders ih =>
      refine asks_bind.mpr (asks_saveRow (r := .order order.id) rfl ?_ fun t => ?_)
      · exact Action.locks_held (hheld order (List.mem_cons_self ..))
      · refine ih (fun order' horder' => ?_) fun clean' held' s' hsub => ?_
        · exact List.mem_cons_of_mem _ (hheld order' (List.mem_cons_of_mem _ horder'))
        · exact hQ _ _ _ fun r hr => hsub (List.mem_cons_of_mem _ hr)

/-! ## The transactions -/

/-- Once it is read, the YES order is held if it is there. -/
theorem asks_finish {v : TradeMove} {trade : Trade} {yes : Option Order} {rows : List RowId}
    {Q : List Uuid → Bool → List RowId → Db → Prop} (ha : a.locksTwoWallets = true)
    (hfound : s.trades.find? trade.id = some trade) (hQ : ∀ r clean' held' s', Q r clean' held' s')
    (htrade : RowId.trade trade.id ∈ rows)
    (hyes : ∀ y, yes = some y → y.id = trade.yesOrderId ∧ RowId.order trade.yesOrderId ∈ rows)
    (hrows : ∀ r ∈ rows, r = .trade trade.id ∨ r = .order trade.yesOrderId) :
    (v.finish trade yes).Asks a.locks true rows s Q := by
  refine asks_bind.mpr (asks_findOrderForUpdate (fun no hno => ⟨?_, ?_⟩) ?_)
  · exact Or.inr (Or.inr ⟨rfl, trade, hfound, htrade, rfl, hrows⟩)
  · cases yes with
    | none => exact asks_throw
    | some y =>
        obtain ⟨hy, hyheld⟩ := hyes y rfl
        have hn : no.id = trade.noOrderId := Table.key_of_find? hno
        dsimp only
        cases v.refuse y no with
        | some e => exact asks_throw
        | none =>
            refine asks_bind.mpr (asks_mutateWallet (Action.locks_any_wallet ha) ?_)
            intro _ clean₁ rows₁ s₁ hsub₁
            refine asks_bind.mpr (asks_mutateWallet (Action.locks_any_wallet ha) ?_)
            intro _ clean₂ rows₂ s₂ hsub₂
            have hsub : ∀ r ∈ RowId.order trade.noOrderId :: rows, r ∈ rows₂ :=
              fun r hr => hsub₂ (hsub₁ hr)
            -- what is saved is held
            have hheld : ∀ rows₃, rows₂ ⊆ rows₃ → ∀ order ∈
                [y.withStatus v.orderStatus, no.withStatus v.orderStatus],
                RowId.order order.id ∈ rows₃ := by
              intro rows₃ hsub₃ order horder
              rcases List.mem_cons.mp horder with rfl | horder
              · show RowId.order y.id ∈ rows₃
                rw [hy]
                exact hsub₃ (hsub _ (List.mem_cons_of_mem _ hyheld))
              · rw [List.mem_singleton.mp horder]
                show RowId.order no.id ∈ rows₃
                rw [hn]
                exact hsub₃ (hsub _ (List.mem_cons_self ..))
            have htrade₂ : RowId.trade trade.id ∈ rows₂ := hsub _ (List.mem_cons_of_mem _ htrade)
            by_cases hfirst : v.tradeFirst = true
            · rw [if_pos hfirst]
              refine asks_bind.mpr (asks_saveRow (r := .trade trade.id) rfl ?_ fun t => ?_)
              · exact Action.locks_held htrade₂
              · refine asks_bind.mpr (asks_saveOrders ?_ fun _ _ _ _ => hQ _ _ _ _)
                exact hheld _ (List.subset_cons_self _ _)
            · rw [if_neg hfirst]
              refine asks_bind.mpr (asks_saveOrders (hheld _ (List.Subset.refl _)) ?_)
              intro clean₃ rows₃ s₃ hsub₃
              refine asks_bind.mpr (asks_saveRow (r := .trade trade.id) rfl ?_ fun t => ?_)
              · exact Action.locks_held (hsub₃ htrade₂)
              · exact hQ _ _ _ _
  · cases yes <;> exact asks_throw

/-- The four transactions that lock a trade and its two orders. -/
theorem asks_run {v : TradeMove} {trade : Trade} {Q : List Uuid → Bool → List RowId → Db → Prop}
    (ha : a.locksTwoWallets = true) (hfound : s.trades.find? trade.id = some trade)
    (hQ : ∀ r clean' held' s', Q r clean' held' s') :
    (v.run trade).Asks a.locks true [.trade trade.id] s Q := by
  unfold TradeMove.run
  refine asks_bind.mpr (asks_findOrderForUpdate (fun yes hyes => ⟨?_, ?_⟩) ?_)
  · refine Or.inr (Or.inl fun r hr => ?_)
    rw [List.mem_singleton.mp hr]
    trivial
  · refine asks_finish ha hfound hQ (by simp) (fun y hy => ?_) (fun r hr => ?_)
    · cases hy
      exact ⟨Table.key_of_find? hyes, List.mem_cons_self ..⟩
    · rcases List.mem_cons.mp hr with rfl | hr
      · exact Or.inr rfl
      · exact Or.inl (List.mem_singleton.mp hr)
  · refine asks_finish ha hfound hQ (by simp) (fun y hy => by cases hy) fun r hr => ?_
    exact Or.inl (List.mem_singleton.mp hr)

/-- A transaction that begins by locking a trade. -/
theorem asks_lockTrade {α : Type} {tradeId : Uuid} {f : Option Trade → Tx α}
    {Q : α → Bool → List RowId → Db → Prop}
    (hfound : ∀ trade, s.trades.find? trade.id = some trade →
      (f (some trade)).Asks a.locks true [.trade trade.id] s Q)
    (hnone : (f none).Asks a.locks true [] s Q) :
    (findTradeForUpdate tradeId >>= f).Asks a.locks true [] s Q := by
  refine asks_bind.mpr (asks_findTradeForUpdate (fun trade htrade => ?_) hnone)
  have hid : trade.id = tradeId := Table.key_of_find? htrade
  rw [← hid] at htrade ⊢
  refine ⟨Or.inr (Or.inl ⟨rfl, ?_⟩), hfound trade htrade⟩
  rw [htrade]
  exact Option.some_ne_none trade

/-- The loop over the settled trades moves wallets only. -/
theorem asks_creditWinners {market : Market} {winningSide : OutcomeSide} {orders : List Order}
    {createdAt : Timestamp} {trades : List Trade} {Q : Unit → Bool → List RowId → Db → Prop}
    (ha : a.locksTwoWallets = true)
    (hQ : ∀ clean' held' s', held ⊆ held' → Q () clean' held' s') :
    (creditWinners market winningSide orders createdAt trades).Asks a.locks clean held s Q := by
  induction trades generalizing clean held s with
  | nil => exact hQ _ _ _ (List.Subset.refl _)
  | cons trade trades ih =>
      unfold creditWinners
      cases orders.find? fun order => order.id = trade.orderOn winningSide with
      | none => exact asks_throw
      | some winnerOrder =>
          dsimp only
          by_cases hpayout : isSafeInteger (trade.quantity * 100) = false ∨ trade.quantity * 100 ≤ 0
          · rw [if_pos hpayout]
            exact asks_throw
          · rw [if_neg hpayout]
            refine asks_bind.mpr (asks_movement (Action.locks_any_wallet ha) ?_)
            intro _ clean' held' s' hsub
            exact ih fun clean'' held'' s'' hsub' => hQ _ _ _ fun r hr => hsub' (hsub hr)

theorem asks_resolveMarket {marketId : Uuid} {winningSide : OutcomeSide} {createdAt : Timestamp}
    (ha : a.locksTwoWallets = true) :
    (resolveMarket marketId winningSide createdAt).Asks a.locks true [] s fun _ _ _ _ => True := by
  unfold resolveMarket
  refine asks_bind.mpr ?_
  refine asks_findMarketForUpdate (fun market hmarket => ⟨Or.inr rfl, ?_⟩) asks_throw
  have hid : market.id = marketId := Table.key_of_find? hmarket
  dsimp only
  by_cases hresolved : market.status = .RESOLVED
  · rw [if_pos hresolved]
    exact asks_throw
  rw [if_neg hresolved]
  refine asks_bind.mpr (asks_query.mpr fun s₁ => ?_)
  split
  · exact asks_throw
  refine asks_bind.mpr (asks_query.mpr fun s₂ => ?_)
  split
  · exact asks_throw
  refine asks_bind.mpr (asks_query.mpr fun s₃ => ?_)
  refine asks_bind.mpr (asks_query.mpr fun s₄ => ?_)
  refine asks_bind.mpr (asks_creditWinners ha fun clean' held' s' hsub => ?_)
  -- the market has been held from the first statement on
  refine asks_bind.mpr (asks_saveRow (r := .market market.id) rfl (Action.locks_held ?_) ?_)
  · rw [hid]
    exact hsub (List.mem_cons_self ..)
  · exact fun _ => trivial

theorem asks_placeOrder {userId orderId : Uuid} {dto : PlaceOrderDto} {now createdAt : Timestamp} :
    (placeOrder userId dto orderId now createdAt).Asks a.locks true [] s fun _ _ _ _ => True := by
  unfold placeOrder
  dsimp only
  split
  · exact asks_throw
  refine asks_bind.mpr ?_
  unfold findOrder
  split
  · exact asks_throw
  refine asks_query.mpr fun s₁ => ?_
  split
  · trivial
  unfold getOpenMarketForOrderPlacement
  refine asks_bind.mpr (asks_bind.mpr ?_)
  refine asks_findMarketForUpdate (fun market hmarket => ⟨Or.inr rfl, ?_⟩) asks_throw
  dsimp only
  split
  · exact asks_throw
  split
  · exact asks_throw
  refine asks_pure.mpr (asks_bind.mpr ?_)
  refine asks_saveRow (r := .order orderId) rfl (Or.inr (Or.inl fun r hr => ?_)) fun t => ?_
  · rw [List.mem_singleton.mp hr]
    trivial
  · refine asks_bind.mpr (asks_movement (Action.locks_first_wallet ?_) fun _ _ _ _ _ => trivial)
    intro u
    simp

theorem asks_cancelOrder {userId orderId : Uuid} {createdAt : Timestamp} :
    (cancelOrder userId orderId createdAt).Asks a.locks true [] s fun _ _ _ _ => True := by
  unfold cancelOrder
  refine asks_bind.mpr (asks_findOrderForUpdate (fun order horder => ⟨?_, ?_⟩) asks_throw)
  · exact Or.inr (Or.inl fun r hr => by cases hr)
  have hid : order.id = orderId := Table.key_of_find? horder
  dsimp only
  split
  · exact asks_throw
  split
  · exact asks_throw
  refine asks_bind.mpr (asks_saveRow (r := .order order.id) rfl (Action.locks_held ?_) fun t => ?_)
  · rw [hid]
    exact List.mem_cons_self ..
  · refine asks_bind.mpr (asks_movement (Action.locks_first_wallet ?_) fun _ _ _ _ _ => trivial)
    intro u
    simp

theorem asks_tryMatchOrder {orderId tradeId : Uuid} :
    (tryMatchOrder orderId tradeId).Asks (Action.tryMatchOrder orderId tradeId).locks true [] s
      fun _ _ _ _ => True := by
  unfold tryMatchOrder
  refine asks_bind.mpr (asks_findOrderForUpdate (fun order horder => ⟨?_, ?_⟩) trivial)
  · exact Or.inr (Or.inl fun r hr => by cases hr)
  have hid : order.id = orderId := Table.key_of_find? horder
  dsimp only
  split
  · trivial
  unfold matchOpenOrder findCounterparty
  refine asks_bind.mpr (asks_bind.mpr (asks_skipLocked.mpr ⟨trivial, ?_⟩))
  intro r rows hr hrows
  have horders : ∀ r' ∈ rows, ∃ o : Order, r' = .order o.id := by
    intro r' hr'
    obtain ⟨o, -, -, heq⟩ := mem_counterparties.mp (hrows r' hr')
    exact ⟨o, heq⟩
  refine ⟨fun r' hr' => ?_, ?_⟩
  · obtain ⟨o, heq⟩ := horders r' hr'
    exact ⟨o.id, heq⟩
  obtain ⟨o, rfl⟩ := horders r hr
  dsimp only
  refine asks_findOrderForUpdate (fun c hc => ⟨?_, ?_⟩) trivial
  · exact Action.locks_held (List.mem_append_left _ hr)
  have hcid : c.id = o.id := Table.key_of_find? hc
  dsimp only
  unfold makeTrade
  dsimp only
  -- both orders are held, and the trade is a new row
  refine asks_bind.mpr (asks_saveOrders (fun order' horder' => ?_) fun _ _ _ _ => ?_)
  · rcases List.mem_cons.mp horder' with rfl | horder'
    · show RowId.order order.id ∈ _
      rw [hid]
      simp
    · rw [List.mem_singleton.mp horder']
      show RowId.order c.id ∈ _
      rw [hcid]
      exact List.mem_cons_self ..
  · refine asks_bind.mpr (asks_saveRow (r := .trade tradeId) rfl ?_ fun _ => trivial)
    exact Or.inr (Or.inr ⟨orderId, rfl⟩)

theorem asks_createWalletForUser {userId walletId : Uuid} :
    (createWalletForUser userId walletId).Asks a.locks true [] s fun _ _ _ _ => True := by
  unfold createWalletForUser
  refine asks_bind.mpr (asks_query.mpr fun s₁ => ?_)
  split
  · trivial
  · refine asks_bind.mpr (asks_saveRow (r := .wallet userId) rfl ?_ fun _ => trivial)
    exact Action.locks_first_wallet fun u hu => by cases hu

theorem asks_createMarket {closesAt : Timestamp} {marketId : Uuid} {now : Timestamp} :
    (createMarket closesAt marketId now).Asks a.locks true [] s fun _ _ _ _ => True := by
  unfold createMarket
  split
  · exact asks_throw
  · refine asks_bind.mpr (asks_saveRow (r := .market marketId) rfl (Or.inr rfl) fun t => ?_)
    refine asks_bind.mpr (asks_save.mpr ⟨fun r hr => ?_, fun _ _ => trivial⟩)
    cases hr

theorem asks_closeMarket {marketId : Uuid} {now : Timestamp} :
    (closeMarket marketId now).Asks a.locks true [] s fun _ _ _ _ => True := by
  unfold closeMarket
  refine asks_bind.mpr ?_
  refine asks_findMarketForUpdate (fun market hmarket => ⟨Or.inr rfl, ?_⟩) asks_throw
  have hid : market.id = marketId := Table.key_of_find? hmarket
  dsimp only
  split
  · exact asks_throw
  split
  · trivial
  · refine asks_bind.mpr (asks_saveRow (r := .market market.id) rfl (Action.locks_held ?_) ?_)
    · rw [hid]
      exact List.mem_cons_self ..
    · exact fun _ => trivial

theorem asks_discard {α : Type} {p : Tx α}
    (h : p.Asks a.locks true [] s fun _ _ _ _ => True) :
    (Tx.discard p).Asks a.locks true [] s fun _ _ _ _ => True :=
  asks_bind.mpr h

/-- The bulk `UPDATE`. -/
def Action.closesExpired : Action → Bool
  | .closeExpiredMarkets _ => true
  | _ => false

/-- **Every transaction locks its rows in order.** -/
theorem asks_prog (ha : a.closesExpired = false)
    (hnil : ∀ orders, a = .reopenOrders orders → orders = []) (s : Db) :
    a.prog.Asks a.locks true [] s fun _ _ _ _ => True := by
  -- the first lock of a transaction may be on any wallet
  have hwallet : ∀ {b : Action} {u : Uuid}, b.locks.ask true [] s (.wallet u) :=
    Action.locks_first_wallet fun u hu => by cases hu
  cases a with
  | createWalletForUser userId walletId => exact asks_discard asks_createWalletForUser
  | deposit userId dto createdAt =>
      exact asks_discard (asks_movement hwallet fun _ _ _ _ _ => trivial)
  | withdraw userId dto createdAt =>
      exact asks_discard (asks_movement hwallet fun _ _ _ _ _ => trivial)
  | createMarket closesAt marketId now => exact asks_discard asks_createMarket
  | closeMarket marketId now => exact asks_discard asks_closeMarket
  | closeExpiredMarkets now => cases ha
  | resolveMarket marketId winningSide createdAt => exact asks_discard (asks_resolveMarket rfl)
  | placeOrder userId dto orderId now createdAt => exact asks_discard asks_placeOrder
  | cancelOrder userId orderId createdAt => exact asks_discard asks_cancelOrder
  | tryMatchOrder orderId tradeId => exact asks_discard asks_tryMatchOrder
  | failPendingTradeAndReleaseFunds tradeId createdAt =>
      refine asks_discard (asks_lockTrade (fun trade htrade => ?_) trivial)
      dsimp only
      split
      · trivial
      · exact asks_run rfl htrade fun _ _ _ _ => trivial
  | handleSettlement tradeId createdAt =>
      refine asks_discard (asks_lockTrade (fun trade htrade => ?_) trivial)
      dsimp only
      split
      · exact asks_throw
      split
      · trivial
      · exact asks_run rfl htrade fun _ _ _ _ => trivial
  | markSettlementFailure tradeId createdAt =>
      refine asks_discard (asks_lockTrade (fun trade htrade => ?_) trivial)
      dsimp only
      split
      · trivial
      · exact asks_run rfl htrade fun _ _ _ _ => trivial
  | prepareTradeForRetry tradeId createdAt =>
      refine asks_discard (asks_lockTrade (fun trade htrade => ?_) asks_throw)
      dsimp only
      split
      · trivial
      split
      · exact asks_throw
      · exact asks_bind.mpr (asks_run rfl htrade fun _ _ _ _ => trivial)
  | reopenOrders orders =>
      rw [hnil orders rfl]
      trivial

end Locks

end OutcomeExchange
