import OutcomeExchange.LifeCycle

set_option autoImplicit false

/-! # Exactly-once settlement

The worker, the rollback in the API process and the administrator act on the same trade
in any order, and a job can be delivered any number of times. `DebitsMatch` says that the
ledger nevertheless tells the status of every trade: a settled trade has one debit entry
for each side, and a trade that is not settled has none and has not used a debit key.
The second half is what makes the debits of a settlement take effect: their keys are new. -/

namespace OutcomeExchange

open Txn

/-! ## Entries that an action appends -/

/-- The new entries of the ledger all satisfy `P`. -/
def Appends (P : WalletEntry → Prop) (L L' : Ledger) : Prop :=
  ∃ new, L'.entries.rows = L.entries.rows ++ new ∧ ∀ e ∈ new, P e

section Appends

variable {P : WalletEntry → Prop} {L L' L₁ L₂ L₃ : Ledger}

theorem Appends.of_eq (h : L'.entries = L.entries) : Appends P L L' :=
  ⟨[], by rw [h, List.append_nil], fun e he => by cases he⟩

theorem Appends.trans (h : Appends P L₁ L₂) (h' : Appends P L₂ L₃) : Appends P L₁ L₃ := by
  obtain ⟨new, hnew, hP⟩ := h
  obtain ⟨new', hnew', hP'⟩ := h'
  refine ⟨new ++ new', by rw [hnew', hnew, List.append_assoc], fun e he => ?_⟩
  rcases List.mem_append.mp he with he | he
  · exact hP e he
  · exact hP' e he

theorem Appends.mono {Q : WalletEntry → Prop} (h : Appends P L L') (hPQ : ∀ e, P e → Q e) :
    Appends Q L L' := by
  obtain ⟨new, hnew, hP⟩ := h
  exact ⟨new, hnew, fun e he => hPQ e (hP e he)⟩

theorem Mutated.appends {params : MutateWalletParams} (h : Mutated params L L')
    (hP : ∀ walletId amount, P (params.entry walletId amount)) : Appends P L L' := by
  cases h with
  | replay used same => exact Appends.of_eq (by rw [same])
  | @posted w a hp =>
      refine ⟨_, hp.entries_rows, fun e he => ?_⟩
      rw [List.mem_singleton.mp he]
      exact hP w.id a

theorem Credited.appends {market : Market} {winningSide : OutcomeSide} {orders : List Order}
    {createdAt : Timestamp} {trades : List Trade}
    (h : Credited market winningSide orders createdAt trades L L')
    (hP : ∀ trade ∈ trades, ∀ userId walletId amount,
      P ((settleCreditParams userId (.int (trade.quantity * 100))
        (EngineKey.credit market.id trade.id winningSide).text trade.id.text createdAt).entry
          walletId amount)) :
    Appends P L L' := by
  induction h with
  | nil L => exact Appends.of_eq rfl
  | cons winner credited others ih =>
      have hhead := credited.appends fun walletId amount =>
        hP _ (List.mem_cons_self ..) _ walletId amount
      exact hhead.trans (ih fun trade ht => hP trade (List.mem_cons_of_mem _ ht))

theorem MovedFrom.appends {st : TradeStatus} {v : TradeMove} {tradeId : Uuid} {s t : Db}
    (h : MovedFrom st v tradeId s t) (hP : ∀ side trade o walletId amount,
      P ((v.movement side trade o).entry walletId amount)) : Appends P s.ledger t.ledger := by
  obtain ⟨trade, -, -, hmoved⟩ := h
  obtain ⟨-, -, -, hmut, hmut', -, -, -, -⟩ := hmoved
  exact (hmut.appends (hP _ _ _)).trans (hmut'.appends (hP _ _ _))

end Appends

/-- The type of the entries that an action makes. -/
def Action.entryType : Action → Option WalletEntryType
  | .deposit _ _ _ => some .DEPOSIT
  | .withdraw _ _ _ => some .WITHDRAW
  | .placeOrder _ _ _ _ _ => some .RESERVE
  | .prepareTradeForRetry _ _ => some .RESERVE
  | .cancelOrder _ _ _ => some .RELEASE
  | .failPendingTradeAndReleaseFunds _ _ => some .RELEASE
  | .markSettlementFailure _ _ => some .RELEASE
  | .handleSettlement _ _ => some .SETTLE_DEBIT
  | .resolveMarket _ _ _ => some .SETTLE_CREDIT
  | _ => none

/-- **All entries that an action makes are of its type.** -/
theorem Action.Effect.appends {m : Mode RowId} {s t : Db} {a : Action} (h : a.Effect m s t) :
    Appends (fun e => a.entryType = some e.entryType) s.ledger t.ledger := by
  have same : ∀ {P}, t = s → Appends P s.ledger t.ledger := by
    rintro P rfl
    exact Appends.of_eq rfl
  have ledger : ∀ {P}, t.ledger = s.ledger → Appends P s.ledger t.ledger :=
    fun heq => Appends.of_eq (by rw [heq])
  -- a transaction adds entries of one type only
  cases a with
  | createWalletForUser userId walletId =>
      refine h.elim same ?_
      rintro ⟨L, hL, rfl⟩
      exact Appends.of_eq (Ledger.insertWallet_eq_ok hL).2
  | deposit userId dto createdAt =>
      obtain ⟨L, rfl, hmut⟩ := h
      exact hmut.appends fun _ _ => rfl
  | withdraw userId dto createdAt =>
      obtain ⟨L, rfl, hmut⟩ := h
      exact hmut.appends fun _ _ => rfl
  | createMarket closesAt marketId now => exact ledger h.2.1
  | closeMarket marketId now => exact ledger h.rest.1
  | closeExpiredMarkets now => exact ledger h.rest.1
  | resolveMarket marketId winningSide createdAt =>
      obtain ⟨-, -, -, hcredited, -, -⟩ := h
      exact hcredited.appends fun _ _ _ _ _ => rfl
  | placeOrder userId dto orderId now createdAt =>
      exact h.elim same fun hplaced => hplaced.reserved.appends fun _ _ => rfl
  | cancelOrder userId orderId createdAt =>
      obtain ⟨-, -, -, -, hmut, -⟩ := h
      exact hmut.appends fun _ _ => rfl
  | tryMatchOrder orderId tradeId =>
      refine h.elim same fun hmade => ?_
      obtain ⟨-, -, -, -, -, -, -, -, hledger, -⟩ := hmade
      exact ledger hledger
  | failPendingTradeAndReleaseFunds tradeId createdAt =>
      exact h.elim same fun hmove => hmove.appends fun _ _ _ _ _ => rfl
  | handleSettlement tradeId createdAt =>
      exact h.elim same fun hmove => hmove.appends fun _ _ _ _ _ => rfl
  | markSettlementFailure tradeId createdAt =>
      exact h.elim same fun hmove => hmove.appends fun _ _ _ _ _ => rfl
  | prepareTradeForRetry tradeId createdAt =>
      exact h.elim same fun hmove => hmove.appends fun _ _ _ _ _ => rfl
  | reopenOrders orders => exact same h

/-! ## Debits -/

/-- The debit entries for a trade, oldest first, in all wallets. -/
def debitsOf (L : Ledger) (tradeId : Uuid) : List WalletEntry :=
  L.entries.rows.filter fun e => e.entryType = .SETTLE_DEBIT && e.referenceId = tradeId.text

/-- An entry that is no debit for the trade and does not carry the key of one. -/
structure NoDebit (tradeId : Uuid) (e : WalletEntry) : Prop where
  entry : e.entryType = .SETTLE_DEBIT → e.referenceId ≠ tradeId.text
  key : ∀ side, e.idempotencyKey ≠ (EngineKey.trade tradeId (.debit side)).text

/-- The trade has no debit entry, and its debit keys are unused. -/
structure Undebited (L : Ledger) (tradeId : Uuid) : Prop where
  entries : debitsOf L tradeId = []
  keys : ∀ e ∈ L.entries.rows, ∀ side,
    e.idempotencyKey ≠ (EngineKey.trade tradeId (.debit side)).text

/-- The entry `e` debits the wallet of the owner of `o` by the collateral of `o`. -/
structure IsDebit (L : Ledger) (tradeId : Uuid) (side : OutcomeSide) (o : Order)
    (e : WalletEntry) : Prop where
  wallet : ∃ w, L.wallets.find? o.userId = some w ∧ e.walletId = w.id
  amount : e.amountCents = o.reservedCents
  key : e.idempotencyKey = (EngineKey.trade tradeId (.debit side)).text

/-- The debit entries for the trade are one for each of its orders. -/
def DebitedOnce (db : Db) (trade : Trade) : Prop :=
  ∃ y n yesEntry noEntry,
    db.orders.find? trade.yesOrderId = some y ∧ db.orders.find? trade.noOrderId = some n ∧
      debitsOf db.ledger trade.id = [yesEntry, noEntry] ∧
      IsDebit db.ledger trade.id .YES y yesEntry ∧ IsDebit db.ledger trade.id .NO n noEntry

/-- The ledger tells which trades are settled. -/
structure DebitsMatch (db : Db) : Prop where
  settled : ∀ {id trade}, db.trades.find? id = some trade → trade.status = .SETTLED →
    DebitedOnce db trade
  unsettled : ∀ id, (∀ trade, db.trades.find? id = some trade → trade.status ≠ .SETTLED) →
    Undebited db.ledger id

section Debits

variable {L L' : Ledger} {s t : Db}

theorem debitsOf_append {new : List WalletEntry} (h : L'.entries.rows = L.entries.rows ++ new)
    (tradeId : Uuid) : debitsOf L' tradeId = debitsOf L tradeId ++ new.filter
      (fun e => e.entryType = .SETTLE_DEBIT && e.referenceId = tradeId.text) := by
  rw [debitsOf, h, List.filter_append]
  rfl

theorem debitsOf_of_appends {id : Uuid} (h : Appends (NoDebit id) L L') :
    debitsOf L' id = debitsOf L id := by
  obtain ⟨new, hnew, hno⟩ := h
  have hnil : new.filter (fun e => e.entryType = .SETTLE_DEBIT && e.referenceId = id.text) = [] := by
    rw [List.filter_eq_nil_iff]
    intro e he hdebit
    rw [Bool.and_eq_true, decide_eq_true_eq, decide_eq_true_eq] at hdebit
    exact (hno e he).entry hdebit.1 hdebit.2
  rw [debitsOf_append hnew, hnil, List.append_nil]

theorem Undebited.of_appends {id : Uuid} (h : Undebited L id) (happ : Appends (NoDebit id) L L') :
    Undebited L' id where
  entries := by rw [debitsOf_of_appends happ, h.entries]
  keys e he side := by
    obtain ⟨new, hnew, hno⟩ := happ
    rw [hnew] at he
    rcases List.mem_append.mp he with he | he
    · exact h.keys e he side
    · exact (hno e he).key side

theorem IsDebit.grows {tradeId : Uuid} {side : OutcomeSide} {o : Order} {e : WalletEntry}
    (h : IsDebit L tradeId side o e) (hg : LedgerGrows L L') (st : OrderStatus) :
    IsDebit L' tradeId side (o.withStatus st) e where
  wallet := by
    obtain ⟨w, hw, he⟩ := h.wallet
    obtain ⟨w', hw', hid⟩ := hg.wallets hw
    exact ⟨w', hw', he.trans hid.symm⟩
  amount := h.amount
  key := h.key

theorem DebitedOnce.of_appends {trade : Trade} (h : DebitedOnce s trade) (hev : Evolves s t)
    (happ : Appends (NoDebit trade.id) s.ledger t.ledger) : DebitedOnce t trade := by
  obtain ⟨y, n, ye, ne, hy, hn, hdebits, hye, hne⟩ := h
  obtain ⟨y', hy', st, rfl, -⟩ := hev.orders hy
  obtain ⟨n', hn', st', rfl, -⟩ := hev.orders hn
  exact ⟨_, _, ye, ne, hy', hn', by rw [debitsOf_of_appends happ, hdebits],
    hye.grows hev.ledger st, hne.grows hev.ledger st'⟩

/-- An action that appends no debit and settles no trade. -/
theorem DebitsMatch.frame (h : DebitsMatch s) (hev : Evolves s t)
    (happ : ∀ id, Appends (NoDebit id) s.ledger t.ledger)
    (hold : ∀ {id trade}, t.trades.find? id = some trade → trade.status = .SETTLED →
      s.trades.find? id = some trade) : DebitsMatch t where
  settled ht hst := (h.settled (hold ht hst) hst).of_appends hev (happ _)
  unsettled id hun := by
    refine (h.unsettled id fun trade ht hst => ?_).of_appends (happ id)
    exact hun trade (hev.settled ht hst) hst

/-! ## The settlement -/

theorem mem_of_history {u : Uuid} {e : WalletEntry} (h : e ∈ L.history u) :
    e ∈ L.entries.rows := by
  unfold Ledger.history at h
  cases hw : L.wallets.find? u with
  | none =>
      rw [hw] at h
      cases h
  | some w =>
      rw [hw] at h
      exact (List.mem_filter.mp h).1

theorem debit_key_inj {id id' : Uuid} {side side' : OutcomeSide}
    (h : (EngineKey.trade id (.debit side)).text = (EngineKey.trade id' (.debit side')).text) :
    id = id' ∧ side = side' := by
  have hkey := EngineKey.text_injective h
  simp only [EngineKey.trade.injEq, TradeKey.debit.injEq] at hkey
  exact hkey

theorem settleMove_storedKey {trade : Trade} {o : Order} {side : OutcomeSide}
    {createdAt : Timestamp} : ((settleMove createdAt).movement side trade o).storedKey =
      (EngineKey.trade trade.id (.debit side)).text :=
  MutateWalletParams.storedKey_of_text (k := .trade trade.id (.debit side)) rfl

/-- The debit keys of the trade are new, so both debits of a settlement are carried out. -/
theorem Moved.debits {trade : Trade} {createdAt : Timestamp}
    (hun : Undebited s.ledger trade.id) (h : Moved (settleMove createdAt) trade s t) :
    ∃ y n wy wn ay an L,
      s.orders.find? trade.yesOrderId = some y ∧ s.orders.find? trade.noOrderId = some n ∧
        Posted ((settleMove createdAt).movement .YES trade y) wy ay s.ledger L ∧
        Posted ((settleMove createdAt).movement .NO trade n) wn an L t.ledger := by
  obtain @⟨y, n, L, os, hy, hn, -, hmut, hmut', -, -, -, -⟩ := h
  have hunused : ∀ u side, ¬ s.ledger.KeyUsed u (EngineKey.trade trade.id (.debit side)).text := by
    rintro u side ⟨e, he, hkey⟩
    exact hun.keys e (mem_of_history he) side hkey
  cases hmut with
  | replay used same => exact absurd used (hunused _ .YES)
  | @posted wy ay hp =>
      cases hmut' with
      | replay used same =>
          rcases hp.keyUsed_iff.mp used with hold | ⟨-, hkey⟩
          · exact absurd hold (hunused _ .NO)
          · rw [settleMove_storedKey] at hkey
            cases (debit_key_inj hkey).2
      | @posted wn an hp' => exact ⟨y, n, wy, wn, ay, an, L, hy, hn, hp, hp'⟩

theorem Posted.isDebit {params : MutateWalletParams} {w : Wallet} {a : ℤ}
    (hp : Posted params w a L L') {tradeId : Uuid} {side : OutcomeSide} {o : Order}
    (huser : params.userId = o.userId) (hamount : params.amountCents = .int o.reservedCents)
    (hkey : params.idempotencyKey = (EngineKey.trade tradeId (.debit side)).text) :
    IsDebit L' tradeId side o (params.entry w.id a) where
  wallet := ⟨w.moved params.entryType a, by rw [hp.find?_wallet, if_pos huser.symm], rfl⟩
  amount := by
    have heq := hp.amount_eq
    rw [hamount] at heq
    exact (JsNumber.int.inj heq).symm
  key := MutateWalletParams.storedKey_of_text hkey

theorem DebitsMatch.undebited (h : DebitsMatch s) {id : Uuid} {trade : Trade}
    (hfound : s.trades.find? id = some trade) (hst : trade.status ≠ .SETTLED) :
    Undebited s.ledger id := by
  refine h.unsettled id fun trade' ht' => ?_
  rw [hfound] at ht'
  cases ht'
  exact hst

/-- **The settlement step.** The trade gets its two debits, and no other trade any. -/
theorem DebitsMatch.settle (h : DebitsMatch s) {tradeId : Uuid} {createdAt : Timestamp} (hev : Evolves s t)
    (hmove : MovedFrom .PENDING_SETTLEMENT (settleMove createdAt) tradeId s t) :
    DebitsMatch t := by
  obtain ⟨trade, hfound, hst, hmoved⟩ := hmove
  have hid : trade.id = tradeId := Table.key_of_find? hfound
  subst hid
  have hun : Undebited s.ledger trade.id := h.undebited hfound (by rw [hst]; decide)
  obtain ⟨y, n, wy, wn, ay, an, L, hy, hn, hp, hp'⟩ := hmoved.debits hun
  have hset := hmoved.statusSet
  have hsaved := hmoved.tradeSaved'
  set ye := ((settleMove createdAt).movement .YES trade y).entry wy.id ay with hye
  set ne := ((settleMove createdAt).movement .NO trade n).entry wn.id an with hne
  have hrows : t.ledger.entries.rows = s.ledger.entries.rows ++ [ye, ne] := by
    rw [hp'.entries_rows, hp.entries_rows, List.append_assoc]
    rfl
  -- the entries belong to this trade only
  have hother : ∀ id, id ≠ trade.id → Appends (NoDebit id) s.ledger t.ledger := by
    intro id hne'
    have hkey : ∀ side side', (EngineKey.trade trade.id (.debit side)).text ≠
        (EngineKey.trade id (.debit side')).text :=
      fun side side' hk => hne' (debit_key_inj hk).1.symm
    refine ⟨[ye, ne], hrows, fun e he => ?_⟩
    have href : varchar 255 trade.id.text = id.text → False := fun href =>
      hne' (Uuid.ext_text ((trade.id.varchar_text (by decide)).symm.trans href)).symm
    rcases List.mem_pair.mp he with rfl | rfl
    · refine ⟨fun _ h => href h, fun side => ?_⟩
      rw [MutateWalletParams.entry_idempotencyKey, settleMove_storedKey]
      exact hkey .YES side
    · refine ⟨fun _ h => href h, fun side => ?_⟩
      rw [MutateWalletParams.entry_idempotencyKey, settleMove_storedKey]
      exact hkey .NO side
  have hdebits : debitsOf t.ledger trade.id = [ye, ne] := by
    rw [debitsOf_append hrows, hun.entries, List.nil_append, List.filter_eq_self]
    intro e he
    rcases List.mem_pair.mp he with rfl | rfl
    · simp [hye, settleMove, settleDebitParams, Uuid.varchar_text]
    · simp [hne, settleMove, settleDebitParams, Uuid.varchar_text]
  refine ⟨fun {id tr} htr hsettled => ?_, fun id hunset => ?_⟩
  · rw [Table.find?_update hsaved hfound] at htr
    by_cases hid : id = trade.id
    · rw [if_pos (show id = Row.key _ from hid)] at htr
      cases htr
      have hyd : IsDebit t.ledger trade.id .YES (y.withStatus .MATCHED) ye :=
        (hp.isDebit rfl rfl rfl).grows (Mutated.posted hp').grows _
      have hnd : IsDebit t.ledger trade.id .NO (n.withStatus .MATCHED) ne :=
        hp'.isDebit rfl rfl rfl
      exact ⟨_, _, ye, ne, hset.find?_mem (by simp) hy, hset.find?_mem (by simp) hn, hdebits,
        hyd, hnd⟩
    · rw [if_neg (show ¬ id = Row.key _ from hid)] at htr
      have hkey : tr.id = id := Table.key_of_find? htr
      refine (h.settled htr hsettled).of_appends hev (hother _ ?_)
      rw [hkey]
      exact hid
  · by_cases hid : id = trade.id
    · subst hid
      have hnow : t.trades.find? trade.id = some (trade.withStatus .SETTLED) :=
        Table.find?_update_self hsaved hfound
      exact absurd rfl (hunset _ hnow)
    · refine (h.unsettled id fun tr htr hst' => ?_).of_appends (hother id hid)
      exact hunset tr (hev.settled htr hst') hst'

end Debits

/-! ## The other actions -/

/-- The key of the wallet ledger that the caller of an action has chosen. -/
def Action.clientKey : Action → Option String
  | .deposit _ dto _ => some dto.idempotencyKey
  | .withdraw _ dto _ => some dto.idempotencyKey
  | _ => none

/-- The key that the caller has chosen is not an engine key of the kind `K`. -/
def Action.AvoidsKeys (K : EngineKey → Prop) (a : Action) : Prop :=
  ∀ key ∈ a.clientKey, ∀ k, K k → key ≠ k.text

/-- The keys of the movements for a trade, `trade:…`. -/
def EngineKey.OfTrade (k : EngineKey) : Prop := ∃ tradeId key, k = .trade tradeId key

section Others

variable {s t : Db} {m : Mode RowId}

/-- A movement that is no debit and has an engine key that is not that of a debit. -/
theorem noDebit_engine {params : MutateWalletParams} {k : EngineKey}
    (htype : params.entryType ≠ .SETTLE_DEBIT) (hkey : params.idempotencyKey = k.text)
    (hk : ∀ tradeId side, k.stored ≠ .trade tradeId (.debit side)) (id walletId : Uuid)
    (amount : ℤ) : NoDebit id (params.entry walletId amount) where
  entry h := absurd h htype
  key side heq := by
    rw [MutateWalletParams.entry_idempotencyKey, MutateWalletParams.storedKey_of_text hkey] at heq
    exact hk id side (EngineKey.text_injective heq)

/-- **The step lemma of exactly-once settlement.** -/
theorem DebitsMatch.effect {K : EngineKey → Prop} {a : Action} (h : DebitsMatch s)
    (hs : s.Coherent) (hK : ∀ tradeId side, K (.trade tradeId (.debit side)))
    (ha : a.AvoidsKeys K) (heff : a.Effect m s t) : DebitsMatch t := by
  have hev := heff.evolves hs
  -- when no trade is settled, only the new entries matter
  have others : (∀ tradeId createdAt, a ≠ .handleSettlement tradeId createdAt) →
      (∀ id, Appends (NoDebit id) s.ledger t.ledger) → DebitsMatch t :=
    fun hne happ => h.frame hev happ fun ht hst => heff.settled_before hne ht hst
  have none : (∀ tradeId createdAt, a ≠ .handleSettlement tradeId createdAt) →
      a.entryType = none → DebitsMatch t := by
    intro hne hty
    refine others hne fun id => heff.appends.mono fun e he => ?_
    rw [hty] at he
    cases he
  have same : t = s → DebitsMatch t := by
    rintro rfl
    exact h
  cases a with
  | createWalletForUser userId walletId => exact none (by rintro _ _ ⟨⟩) rfl
  | createMarket closesAt marketId now => exact none (by rintro _ _ ⟨⟩) rfl
  | closeMarket marketId now => exact none (by rintro _ _ ⟨⟩) rfl
  | closeExpiredMarkets now => exact none (by rintro _ _ ⟨⟩) rfl
  | tryMatchOrder orderId tradeId => exact none (by rintro _ _ ⟨⟩) rfl
  | reopenOrders orders => exact none (by rintro _ _ ⟨⟩) rfl
  | deposit userId dto createdAt =>
      obtain ⟨L, rfl, hmut⟩ := heff
      refine others (by rintro _ _ ⟨⟩) fun id => hmut.appends fun _ _ =>
        ⟨fun htype => ?_, fun side => ?_⟩
      · cases htype
      · rw [MutateWalletParams.entry_idempotencyKey, MutateWalletParams.storedKey_of_le dto.key_max]
        exact ha _ rfl _ (hK id side)
  | withdraw userId dto createdAt =>
      obtain ⟨L, rfl, hmut⟩ := heff
      refine others (by rintro _ _ ⟨⟩) fun id => hmut.appends fun _ _ =>
        ⟨fun htype => ?_, fun side => ?_⟩
      · cases htype
      · rw [MutateWalletParams.entry_idempotencyKey, MutateWalletParams.storedKey_of_le dto.key_max]
        exact ha _ rfl _ (hK id side)
  | resolveMarket marketId winningSide createdAt =>
      obtain @⟨market, _, _, -, -, -, hcredited, -, -⟩ := heff
      refine others (by rintro _ _ ⟨⟩) fun id => hcredited.appends fun trade _ _ =>
        noDebit_engine (k := .credit market.id trade.id winningSide) ?_ rfl ?_ id
      · rintro ⟨⟩
      · rintro _ _ ⟨⟩
  | placeOrder userId dto orderId now createdAt =>
      refine heff.elim same fun hplaced => others (by rintro _ _ ⟨⟩) fun id =>
        hplaced.reserved.appends
          (noDebit_engine (k := .orderReserve dto.idempotencyKey) ?_ rfl ?_ id)
      · rintro ⟨⟩
      · rintro _ _ ⟨⟩
  | cancelOrder userId orderId createdAt =>
      obtain ⟨-, -, -, -, hmut, -⟩ := heff
      refine others (by rintro _ _ ⟨⟩) fun id => hmut.appends
        (noDebit_engine (k := .orderCancel orderId) ?_ rfl ?_ id)
      · rintro ⟨⟩
      · rintro _ _ ⟨⟩
  | failPendingTradeAndReleaseFunds tradeId createdAt =>
      refine heff.elim same fun hmove => others (by rintro _ _ ⟨⟩) fun id =>
        hmove.appends fun _ trade o =>
          noDebit_engine (k := .trade trade.id (.enqueueRelease o.id)) ?_ rfl ?_ id
      · rintro ⟨⟩
      · rintro _ _ ⟨⟩
  | handleSettlement tradeId createdAt => exact heff.elim same (h.settle hev)
  | markSettlementFailure tradeId createdAt =>
      refine heff.elim same fun hmove => others (by rintro _ _ ⟨⟩) fun id =>
        hmove.appends fun side trade _ =>
          noDebit_engine (k := .trade trade.id (.release side)) ?_ rfl ?_ id
      · rintro ⟨⟩
      · rintro _ _ ⟨⟩
  | prepareTradeForRetry tradeId createdAt =>
      refine heff.elim same fun hmove => others (by rintro _ _ ⟨⟩) fun id =>
        hmove.appends fun _ trade o =>
          noDebit_engine (k := .trade trade.id (.retryReserve o.id)) ?_ rfl ?_ id
      · rintro ⟨⟩
      · rintro _ _ ⟨⟩

theorem debitsMatch_empty : DebitsMatch Db.empty where
  settled h := by cases h
  unsettled _ _ := ⟨rfl, fun e he => by cases he⟩

end Others

/-! ## Every schedule -/

section Schedules

variable {c c' : Conf dbStore Err Unit Action}

theorem debitsMatch_of_interleaved
    (h : (interleaved (Action.AvoidsKeys EngineKey.OfTrade)).Reachable c) :
    DebitsMatch c.committed :=
  (interleaved_invariant DebitsMatch debitsMatch_empty
    (fun _ _ _ hs _ hI ha heff => hI.effect hs (fun _ _ => ⟨_, _, rfl⟩) ha heff) h).2

/-- **Exactly-once settlement**, for every interleaving of job deliveries, rollbacks and
retries with the rest of the exchange: the debit entries for a settled trade are one of
the collateral of each order, in its owner's wallet; a trade in another status has none;
settled trades and matched orders stay as they are. -/
theorem settlement_exactly_once
    (h : (interleaved (Action.AvoidsKeys EngineKey.OfTrade)).Reachable c) :
    (∀ trade ∈ c.committed.trades.rows, trade.status = .SETTLED →
      ∃ yesOrder noOrder yesWallet noWallet yesEntry noEntry,
        c.committed.orders.find? trade.yesOrderId = some yesOrder ∧
        c.committed.orders.find? trade.noOrderId = some noOrder ∧
        c.committed.ledger.wallets.find? yesOrder.userId = some yesWallet ∧
        c.committed.ledger.wallets.find? noOrder.userId = some noWallet ∧
        debitsOf c.committed.ledger trade.id = [yesEntry, noEntry] ∧
        (yesEntry.walletId = yesWallet.id ∧ yesEntry.amountCents = yesOrder.reservedCents) ∧
        (noEntry.walletId = noWallet.id ∧ noEntry.amountCents = noOrder.reservedCents)) ∧
    (∀ trade ∈ c.committed.trades.rows, trade.status ≠ .SETTLED →
      debitsOf c.committed.ledger trade.id = []) ∧
    (∀ ls c', (interleaved (Action.AvoidsKeys EngineKey.OfTrade)).Run c ls c' →
      (∀ trade ∈ c.committed.trades.rows, trade.status = .SETTLED →
        trade ∈ c'.committed.trades.rows) ∧
      (∀ o ∈ c.committed.orders.rows, o.status = .MATCHED → o ∈ c'.committed.orders.rows)) := by
  have hmatch := debitsMatch_of_interleaved h
  refine ⟨fun trade ht hst => ?_, fun trade ht hst => ?_, fun ls c' hrun => ⟨fun trade ht hst => ?_,
    fun o ho hst => ?_⟩⟩
  · obtain ⟨y, n, ye, ne, hy, hn, hdebits, hye, hne⟩ := hmatch.settled (Table.find?_key ht) hst
    obtain ⟨wy, hwy, hyid⟩ := hye.wallet
    obtain ⟨wn, hwn, hnid⟩ := hne.wallet
    exact ⟨y, n, wy, wn, ye, ne, hy, hn, hwy, hwn, hdebits, ⟨hyid, hye.amount⟩,
      ⟨hnid, hne.amount⟩⟩
  · exact (hmatch.undebited (Table.find?_key ht) hst).entries
  -- nothing leads out of `SETTLED` and of `MATCHED`
  · exact Table.mem_of_find? (settled_final h hrun (Table.find?_key ht) hst)
  · exact Table.mem_of_find? (matched_final h hrun (Table.find?_key ho) hst)

end Schedules

/-- Every key that the engine builds for a trade is long. -/
theorem EngineKey.OfTrade.length {k : EngineKey} (h : k.OfTrade) : 42 ≤ k.text.length := by
  obtain ⟨tradeId, key, rfl⟩ := h
  have hprefix : "trade:".length = 6 := by decide
  rw [EngineKey.text, String.length_append, String.length_append, Uuid.text_length, hprefix]
  omega

/-- The key that the caller has chosen is too short for an identifier to be in it. -/
def Action.shortKeys (a : Action) : Bool := a.clientKey.all fun key => key.length < 42

theorem avoidsKeys_of_short {K : EngineKey → Prop} (hK : ∀ k, K k → 42 ≤ k.text.length) {a : Action}
    (h : a.shortKeys = true) : a.AvoidsKeys K := by
  rintro key hkey k hk rfl
  have hlong := hK k hk
  rw [Action.shortKeys, show a.clientKey = some k.text from hkey, Option.all_some,
    decide_eq_true_eq] at h
  omega

/-- A trade settled by the second of two deliveries, after a failure and a retry. -/
theorem settlement_exactly_once_sample : ∃ c : Conf dbStore Err Unit Action,
    (interleaved (Action.AvoidsKeys EngineKey.OfTrade)).Reachable c ∧
      ∃ trade ∈ c.committed.trades.rows, trade.status = .SETTLED ∧
        (debitsOf c.committed.ledger trade.id).length = 2 := by
  obtain ⟨t, ht, hsettled⟩ := interleaved_of_leads
    (fun _ _ h => avoidsKeys_of_short (fun _ hk => EngineKey.OfTrade.length hk) h)
    (show leads (fun _ a => a.shortKeys) (Sample.matching ++
        [ .markSettlementFailure Sample.trade 4, .prepareTradeForRetry Sample.trade 5
        , .handleSettlement Sample.trade 6, .handleSettlement Sample.trade 7 ])
      (fun db => db.trades.rows.any fun trade => trade.status = .SETTLED) = true by
        decide +kernel)
  obtain ⟨trade, hmem, hst⟩ := List.any_eq_true.mp hsettled
  have hst : trade.status = .SETTLED := of_decide_eq_true hst
  obtain ⟨-, -, -, -, ye, ne, -, -, -, -, hdebits, -⟩ :=
    (settlement_exactly_once ht).1 trade hmem hst
  exact ⟨_, ht, trade, hmem, hst, by rw [hdebits]; rfl⟩

end OutcomeExchange
