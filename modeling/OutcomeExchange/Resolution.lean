import OutcomeExchange.MarketLifeCycle
import OutcomeExchange.Payouts
import Mathlib.Algebra.Order.BigOperators.Group.List

set_option autoImplicit false

/-! # Resolution

`resolveMarket` pays all settled trades of a market in one transaction, and the balances are
kept in `integer` columns. Placement bounds neither a quantity nor a balance by what the
payouts need, so a winner whose balance would leave the range of its column aborts the whole
resolution. `resolution_commits_iff` is the exact condition; everything else that the
transaction needs is provided for in every state (`Db.Provided`). -/

namespace OutcomeExchange

open Txn

/-! ## Balances in their columns -/

/-- The largest value of an `integer` column. -/
def maxInt4 : ℤ := 2147483647

/-- Every balance is in the range of its column, and none is negative. -/
def Ledger.InRange (L : Ledger) : Prop :=
  ∀ u, (0 ≤ L.available u ∧ L.available u ≤ maxInt4) ∧ (0 ≤ L.reserved u ∧ L.reserved u ≤ maxInt4)

theorem le_maxInt4 {n : ℤ} (h : fitsInt4 n = true) : n ≤ maxInt4 := by
  simp only [fitsInt4, Bool.and_eq_true, decide_eq_true_eq] at h
  exact h.2

theorem fitsInt4_of_range {n : ℤ} (h : 0 ≤ n) (hmax : n ≤ maxInt4) : fitsInt4 n = true := by
  simp only [fitsInt4, Bool.and_eq_true, decide_eq_true_eq]
  exact ⟨by omega, hmax⟩

/-- A ledger changes by a movement or by a new wallet. -/
inductive LedgerStep (L L' : Ledger) : Prop
  | moved {params : MutateWalletParams} (h : Mutated params L L')
  | registered {walletId userId : Uuid} (h : L.insertWallet ⟨walletId, userId, 0, 0⟩ = .ok L')

theorem LedgerStep.inRange {L L' : Ledger} (h : LedgerStep L L') (hL : L.InRange) :
    L'.InRange := by
  intro u
  cases h with
  | @moved params h =>
      cases h with
      | replay _ same =>
          rw [same]
          exact hL u
      | posted hp =>
          rw [Ledger.available, Ledger.reserved, hp.find?_wallet]
          by_cases hu : u = params.userId
          · rw [if_pos hu]
            exact ⟨⟨hp.available_nonneg, le_maxInt4 hp.available_fits⟩,
              hp.reserved_nonneg, le_maxInt4 hp.reserved_fits⟩
          · rw [if_neg hu]
            exact hL u
  | @registered walletId userId h =>
      rw [Ledger.available, Ledger.reserved, Ledger.find?_insertWallet h]
      by_cases hu : userId = u
      · rw [if_pos hu]
        simp [maxInt4]
      · rw [if_neg hu]
        exact hL u

theorem Credited.ledgerSteps {market : Market} {winningSide : OutcomeSide} {orders : List Order}
    {createdAt : Timestamp} {trades : List Trade} {L L' : Ledger}
    (h : Credited market winningSide orders createdAt trades L L') :
    Relation.ReflTransGen LedgerStep L L' := by
  induction h with
  | nil L => exact .refl
  | cons _ credited _ ih => exact .head (.moved credited) ih

/-- **What an action does to the ledger**: some movements, or a new wallet. -/
theorem Action.Effect.ledgerSteps {m : Mode RowId} {s t : Db} {a : Action} (h : a.Effect m s t) :
    Relation.ReflTransGen LedgerStep s.ledger t.ledger := by
  have same : t.ledger = s.ledger → Relation.ReflTransGen LedgerStep s.ledger t.ledger := by
    intro heq
    rw [heq]
  have unchanged : t = s → Relation.ReflTransGen LedgerStep s.ledger t.ledger :=
    fun heq => same (by rw [heq])
  have moved : ∀ {st v tradeId}, MovedFrom st v tradeId s t →
      Relation.ReflTransGen LedgerStep s.ledger t.ledger := by
    rintro st v tradeId ⟨trade, -, -, hmoved⟩
    obtain ⟨-, -, -, hmut, hmut', -⟩ := hmoved
    exact .tail (.single (.moved hmut)) (.moved hmut')
  -- no transaction but a move of a trade and a resolution writes the ledger twice
  cases a with
  | createWalletForUser userId walletId =>
      refine h.elim unchanged ?_
      rintro ⟨L, hL, rfl⟩
      exact .single (.registered hL)
  | deposit userId dto createdAt =>
      obtain ⟨L, rfl, hmut⟩ := h
      exact .single (.moved hmut)
  | withdraw userId dto createdAt =>
      obtain ⟨L, rfl, hmut⟩ := h
      exact .single (.moved hmut)
  | createMarket closesAt marketId now => exact same h.2.1
  | closeMarket marketId now => exact same h.rest.1
  | closeExpiredMarkets now => exact same h.rest.1
  | resolveMarket marketId winningSide createdAt =>
      obtain ⟨-, -, -, hcredited, -, -⟩ := h
      exact hcredited.ledgerSteps
  | placeOrder userId dto orderId now createdAt =>
      exact h.elim unchanged fun hplaced => .single (.moved hplaced.reserved)
  | cancelOrder userId orderId createdAt =>
      obtain ⟨-, -, -, -, hmut, -⟩ := h
      exact .single (.moved hmut)
  | tryMatchOrder orderId tradeId =>
      refine h.elim unchanged fun hmade => ?_
      obtain ⟨-, -, -, -, -, -, -, -, hledger, -⟩ := hmade
      exact same hledger
  | failPendingTradeAndReleaseFunds tradeId createdAt => exact h.elim unchanged moved
  | handleSettlement tradeId createdAt => exact h.elim unchanged moved
  | markSettlementFailure tradeId createdAt => exact h.elim unchanged moved
  | prepareTradeForRetry tradeId createdAt => exact h.elim unchanged moved
  | reopenOrders orders => exact unchanged h

theorem Ledger.InRange.steps {L L' : Ledger} (hL : L.InRange)
    (h : Relation.ReflTransGen LedgerStep L L') : L'.InRange := by
  induction h with
  | refl => exact hL
  | tail _ hstep ih => exact hstep.inRange ih

/-! ## A payout -/

/-- A text that neither begins nor ends with white space is as long as it looks. -/
theorem length_le_jsTrimLength {s : String} {a b : Char} (hfirst : s.toList.head? = some a)
    (hlast : s.toList.reverse.head? = some b) (ha : isJsSpace a = false)
    (hb : isJsSpace b = false) : s.length ≤ jsTrimLength s := by
  have keep : ∀ {l : List Char} {c : Char}, l.head? = some c → isJsSpace c = false →
      l.dropWhile isJsSpace = l := by
    intro l c hl hc
    obtain ⟨rest, rfl⟩ := List.head?_eq_some_iff.mp hl
    rw [List.dropWhile_cons_of_neg (by simp [hc])]
  have htrim : (s.toList.dropWhile isJsSpace).reverse.dropWhile isJsSpace =
      s.toList.reverse := by
    rw [keep hfirst ha, keep hlast hb]
  rw [jsTrimLength, htrim]
  have hone : ∀ n ∈ s.toList.reverse.map (fun c : Char => if c.val < 0x10000 then 1 else 2),
      1 ≤ n := by
    intro n hn
    obtain ⟨c, -, rfl⟩ := List.mem_map.mp hn
    split <;> omega
  have hsum := List.length_le_sum_of_one_le _ hone
  rw [List.length_map, List.length_reverse, String.length_toList] at hsum
  exact hsum

theorem EngineKey.credit_length (marketId tradeId : Uuid) (winningSide : OutcomeSide) :
    8 ≤ (EngineKey.credit marketId tradeId winningSide).text.length := by
  have hm := marketId.text_length
  have ht := tradeId.text_length
  cases winningSide <;>
    simp only [EngineKey.text, OutcomeSide.text, String.length_append, hm, ht] <;> decide

theorem assertIdempotencyKey_credit (marketId tradeId : Uuid) (winningSide : OutcomeSide) :
    assertIdempotencyKey (EngineKey.credit marketId tradeId winningSide).text = .ok () := by
  have hlen := EngineKey.credit_length marketId tradeId winningSide
  have htrim : (EngineKey.credit marketId tradeId winningSide).text.length ≤
      jsTrimLength (EngineKey.credit marketId tradeId winningSide).text :=
    length_le_jsTrimLength (a := 'm') (b := 't') (by simp [EngineKey.text])
      (by simp [EngineKey.text]) (by decide) (by decide)
  unfold assertIdempotencyKey
  rw [if_neg]
  rintro (hempty | hshort)
  · rw [hempty] at hlen
    exact absurd hlen (by decide)
  · omega

section Credit

variable {s : Db} {userId : Uuid} {amount : ℤ}

/-- A movement succeeds if its key is used, or if the columns hold the new balances. -/
theorem run_mutateWallet (busy : RowId → Bool) (params : MutateWalletParams) {w : Wallet}
    {key : EngineKey} {referenceId : Uuid}
    (hamount : assertPositiveAmount params.amountCents = .ok amount)
    (hkey : assertIdempotencyKey params.idempotencyKey = .ok ())
    (hfixed : key.Fixed) (htext : params.idempotencyKey = key.text)
    (href : params.referenceId = referenceId.text)
    (hw : s.ledger.wallets.find? params.userId = some w)
    (hroom : ¬ s.ledger.KeyUsed params.userId params.idempotencyKey →
      params.entryType.apply w amount = .ok (w.moved params.entryType amount) ∧
      (0 ≤ (w.moved params.entryType amount).availableBalanceCents ∧
        (w.moved params.entryType amount).availableBalanceCents ≤ maxInt4) ∧
      (0 ≤ (w.moved params.entryType amount).reservedBalanceCents ∧
        (w.moved params.entryType amount).reservedBalanceCents ≤ maxInt4) ∧
      amount ≤ maxInt4) :
    ∃ r t, (mutateWallet params).run busy s = .ok (r, t) := by
  have hstored : params.storedKey = params.idempotencyKey := by
    rw [MutateWalletParams.storedKey_of_text htext, hfixed.stored_eq, htext]
  have hhistory : s.ledger.history params.userId = s.ledger.entriesOf w := by
    rw [Ledger.history, hw]
  have hslice : s.ledger.slice params.userId = some (w, s.ledger.entriesOf w) := by
    rw [Ledger.slice, hw]
    rfl
  unfold mutateWallet
  simp only [hamount, hkey, ofExcept]
  show ∃ r t, Prog.run busy (findWalletForUpdate params.userId >>= _) s = .ok (r, t)
  rw [Prog.run_bind (run_findWalletForUpdate params.userId), hw]
  show ∃ r t, Prog.run busy (findEntry params.userId params.idempotencyKey >>= _) s = .ok (r, t)
  rw [Prog.run_bind (run_findEntry params.userId (htext ▸ hfixed.isPgText)), hslice,
    Option.bind_some]
  cases hentry : (s.ledger.entriesOf w).find?
      (fun e => e.idempotencyKey = params.idempotencyKey) with
  | some e => exact ⟨_, _, rfl⟩
  | none =>
      have hnew : ∀ e ∈ s.ledger.entriesOf w, e.idempotencyKey ≠ params.idempotencyKey := by
        simpa using hentry
      have hfresh : ¬ s.ledger.KeyUsed params.userId params.idempotencyKey := by
        rintro ⟨e, he, hek⟩
        rw [hhistory] at he
        exact hnew e he hek
      obtain ⟨happly, ⟨hav, hav'⟩, ⟨hres, hres'⟩, hfit⟩ := hroom hfresh
      have hpos := (assertPositiveAmount_eq_ok hamount).2
      generalize hmoved : w.moved params.entryType amount = w' at happly hav hav' hres hres'
      have huser : w'.userId = params.userId := by
        rw [← hmoved]
        exact Table.key_of_find? hw
      have hid : w.id = w'.id := by
        rw [← hmoved]
        rfl
      obtain ⟨L, hL⟩ := Ledger.exists_saveWallet (by rw [huser, hw]) hid
        ⟨fitsInt4_of_range hav hav', fitsInt4_of_range hres hres'⟩ ⟨hav, hres⟩
      obtain ⟨-, -, -, hup, hent⟩ := Ledger.saveWallet_eq_ok hL
      -- the wallet is saved, and its entries are still those from before
      have hw' : L.wallets.find? params.userId = some w' := by
        rw [← huser]
        exact Table.find?_update_self hup (by
          rw [show Row.key w' = params.userId from huser, hw])
      have hcolumns : fitsVarchar 255 params.referenceId = true ∧
          fitsVarchar 100 params.idempotencyKey = true := by
        rw [href, htext]
        exact ⟨fitsVarchar_of_le (by rw [referenceId.text_length]; omega) referenceId.isPgText,
          hfixed.fits⟩
      obtain ⟨L', hL'⟩ := Ledger.exists_insertEntry (e := params.created w'.id amount) hw' rfl
        (fitsInt4_of_range (le_of_lt hpos) hfit) hcolumns (by
          intro e he
          rw [Ledger.entriesOf, hent, ← hid] at he
          exact fun hek => hnew e he (hek.trans hstored))
      have hnonneg : assertNonNegative w' = .ok () := by
        unfold assertNonNegative
        rw [if_neg (by omega)]
      simp only [happly]
      show ∃ r t, Prog.run busy (ofExcept (assertNonNegative w') >>= _) s = .ok (r, t)
      rw [hnonneg]
      show ∃ r t, Prog.run busy (saveWallet w' >>= _) s = .ok (r, t)
      rw [Prog.run_bind (run_saveWallet hL), Prog.run_bind (run_insertEntry hL')]
      exact ⟨_, _, rfl⟩

/-- A credit that the balance has room for succeeds; with a used key there is nothing to
do. -/
theorem run_settleCredit (busy : RowId → Bool) {key : EngineKey} (referenceId : Uuid)
    (now : Timestamp) (hL : s.ledger.InRange) (hpos : 0 < amount)
    (hkey : assertIdempotencyKey key.text = .ok ()) (hfixed : key.Fixed) {w : Wallet}
    (hw : s.ledger.wallets.find? userId = some w)
    (hroom : ¬ s.ledger.KeyUsed userId key.text → s.ledger.available userId + amount ≤ maxInt4) :
    ∃ r t, (settleCredit userId (.int amount) key.text referenceId.text now).run busy s =
      .ok (r, t) := by
  have havail : s.ledger.available userId = w.availableBalanceCents := by
    rw [Ledger.available, hw]
    rfl
  have hres : s.ledger.reserved userId = w.reservedBalanceCents := by
    rw [Ledger.reserved, hw]
    rfl
  obtain ⟨⟨hav, -⟩, hres₀, hresmax⟩ := hL userId
  obtain ⟨r, t, hrun⟩ := run_mutateWallet busy
    (settleCreditParams userId (.int amount) key.text referenceId.text now)
    (if_neg (by omega)) hkey hfixed rfl rfl hw (by
      intro hfresh
      have hroom := hroom hfresh
      have hmoved : w.moved .SETTLE_CREDIT amount =
          { w with availableBalanceCents := w.availableBalanceCents + amount } := by
        simp [Wallet.moved, WalletEntryType.effect]
      show WalletEntryType.apply .SETTLE_CREDIT w amount = .ok (w.moved .SETTLE_CREDIT amount) ∧ _
      simp only [settleCreditParams, hmoved]
      exact ⟨rfl, ⟨by omega, by omega⟩, ⟨by omega, by omega⟩, by omega⟩)
  refine ⟨r.wallet, t, ?_⟩
  unfold settleCredit
  rw [Prog.run_bind hrun]
  rfl

end Credit

/-! ## The payouts of a market -/

/-- What the payout for a trade will add to the balance of a user: nothing, if the user is
not the winner or the key of the payout is used. -/
def payoutDue (marketId : Uuid) (winningSide : OutcomeSide) (orders : List Order) (L : Ledger)
    (u : Uuid) (trade : Trade) : ℤ :=
  if (orders.find? (fun order => order.id = trade.orderOn winningSide)).any
      (fun order => order.userId = u) = true ∧
      ¬ L.KeyUsed u (EngineKey.credit marketId trade.id winningSide).text then
    trade.quantity * 100
  else 0

/-- What `resolveMarket` will add to the balance of a user. -/
def payoutsDue (marketId : Uuid) (winningSide : OutcomeSide) (s : Db) (u : Uuid) : ℤ :=
  ((settledTradesOf marketId s).map (payoutDue marketId winningSide
    (ordersOf (settledTradesOf marketId s) s) s.ledger u)).sum

section Payouts

variable {market : Market} {winningSide : OutcomeSide} {orders : List Order}
  {createdAt : Timestamp} {L L' : Ledger} {trade : Trade} {winner : Order}

/-- A payout adds what was due. -/
theorem payout_available
    (hwinner : orders.find? (fun order => order.id = trade.orderOn winningSide) = some winner)
    (h : Mutated (settleCreditParams winner.userId (.int (trade.quantity * 100))
      (EngineKey.credit market.id trade.id winningSide).text trade.id.text createdAt) L L')
    (u : Uuid) : L'.available u =
      L.available u + payoutDue market.id winningSide orders L u trade := by
  have hbal : L'.available u = L.available u +
      (if L.KeyUsed winner.userId (EngineKey.credit market.id trade.id winningSide).text then
        (0 : ℤ × ℤ) else if winner.userId = u then (trade.quantity * 100, 0) else 0).1 :=
    congrArg Prod.fst (h.balances_eq rfl u)
  rw [hbal, payoutDue, hwinner]
  by_cases hu : winner.userId = u
  · subst hu
    by_cases hused : L.KeyUsed winner.userId
        (EngineKey.credit market.id trade.id winningSide).text
    · simp [hused]
    · simp [hused]
  · simp [hu]

/-- A payout leaves the payouts for other trades due. -/
theorem payoutDue_after {userId : Uuid} {amountCents : JsNumber} {referenceId : String}
    (h : Mutated (settleCreditParams userId amountCents
      (EngineKey.credit market.id trade.id winningSide).text referenceId createdAt) L L')
    {other : Trade} (hne : trade.id ≠ other.id) (u : Uuid) :
    payoutDue market.id winningSide orders L' u other =
      payoutDue market.id winningSide orders L u other := by
  have hkey : (EngineKey.credit market.id other.id winningSide).text ≠
      (EngineKey.credit market.id trade.id winningSide).text := by
    intro htext
    have hkey := EngineKey.text_injective htext
    simp only [EngineKey.credit.injEq, true_and, and_true] at hkey
    exact hne hkey.symm
  rw [← settleCredit_storedKey market.id trade.id winningSide] at hkey
  have hused := h.keyUsed_of_ne (u := u) hkey
  unfold payoutDue
  simp only [hused]

theorem payoutsDue_after {userId : Uuid} {amountCents : JsNumber} {referenceId : String}
    (h : Mutated (settleCreditParams userId amountCents
      (EngineKey.credit market.id trade.id winningSide).text referenceId createdAt) L L')
    {rest : List Trade} (hne : ∀ other ∈ rest, trade.id ≠ other.id) (u : Uuid) :
    (rest.map (payoutDue market.id winningSide orders L' u)).sum =
      (rest.map (payoutDue market.id winningSide orders L u)).sum := by
  congr 1
  exact List.map_congr_left fun other hother => payoutDue_after h (hne other hother) u

theorem Credited.available_eq {trades : List Trade}
    (h : Credited market winningSide orders createdAt trades L L')
    (hdistinct : trades.Pairwise fun a b => a.id ≠ b.id) (u : Uuid) :
    L'.available u =
      L.available u + (trades.map (payoutDue market.id winningSide orders L u)).sum := by
  induction h with
  | nil L => simp
  | cons hwinner credited _ ih =>
      obtain ⟨hne, hrest⟩ := List.pairwise_cons.mp hdistinct
      rw [ih hrest, payoutsDue_after credited hne, payout_available hwinner credited,
        List.map_cons, List.sum_cons]
      omega

theorem payoutDue_nonneg (hq : 0 < trade.quantity) (u : Uuid) :
    0 ≤ payoutDue market.id winningSide orders L u trade := by
  unfold payoutDue
  split
  · omega
  · exact le_refl 0

end Payouts

/-- **The loop of `resolveMarket` completes** if every winner has a wallet with room. -/
theorem run_creditWinners {busy : RowId → Bool} {market : Market} {winningSide : OutcomeSide}
    {orders : List Order} {createdAt : Timestamp} {trades : List Trade} {s : Db}
    (hL : s.ledger.InRange) (hdistinct : trades.Pairwise fun a b => a.id ≠ b.id)
    (hqty : ∀ trade ∈ trades, 0 < trade.quantity ∧ trade.quantity ≤ maxInt4)
    (hwinner : ∀ trade ∈ trades, ∃ winner w,
      orders.find? (fun order => order.id = trade.orderOn winningSide) = some winner ∧
        s.ledger.wallets.find? winner.userId = some w)
    (hroom : ∀ u, s.ledger.available u +
      (trades.map (payoutDue market.id winningSide orders s.ledger u)).sum ≤ maxInt4) :
    ∃ t, (creditWinners market winningSide orders createdAt trades).run busy s = .ok ((), t) := by
  induction trades generalizing s with
  | nil => exact ⟨s, rfl⟩
  | cons trade rest ih =>
      obtain ⟨hne, hdistinct⟩ := List.pairwise_cons.mp hdistinct
      obtain ⟨hpos, hmax⟩ := hqty trade (List.mem_cons_self)
      obtain ⟨winner, w, hfound, hw⟩ := hwinner trade (List.mem_cons_self)
      have hsafe : ¬ (isSafeInteger (trade.quantity * 100) = false ∨ trade.quantity * 100 ≤ 0) := by
        rintro (hbig | hneg)
        · simp only [isSafeInteger, Bool.and_eq_false_iff, decide_eq_false_iff_not,
            maxInt4] at hbig hmax
          omega
        · omega
      -- the other payouts of the winner are due as well, so there is room for this one
      have hrest : ∀ u, 0 ≤ (rest.map (payoutDue market.id winningSide orders s.ledger u)).sum := by
        intro u
        refine List.sum_nonneg fun x hx => ?_
        obtain ⟨other, hother, rfl⟩ := List.mem_map.mp hx
        exact payoutDue_nonneg (hqty other (List.mem_cons_of_mem _ hother)).1 u
      have hfirst : ¬ s.ledger.KeyUsed winner.userId
          (EngineKey.credit market.id trade.id winningSide).text →
          s.ledger.available winner.userId + trade.quantity * 100 ≤ maxInt4 := by
        intro hfresh
        have hdue : payoutDue market.id winningSide orders s.ledger winner.userId trade =
            trade.quantity * 100 := by
          rw [payoutDue, hfound]
          exact if_pos ⟨by simp, hfresh⟩
        have hu := hroom winner.userId
        rw [List.map_cons, List.sum_cons, hdue] at hu
        have := hrest winner.userId
        omega
      obtain ⟨r, t, hrun⟩ := run_settleCredit busy trade.id createdAt hL
        (show 0 < trade.quantity * 100 by omega)
        (assertIdempotencyKey_credit market.id trade.id winningSide) (by rintro _ ⟨⟩) hw hfirst
      obtain ⟨L, rfl, hmut⟩ := exec_movement (exec_of_run hrun)
      obtain ⟨t, hothers⟩ := ih (s := { s with ledger := L }) ((LedgerStep.moved hmut).inRange hL)
        hdistinct (fun other hother => hqty other (List.mem_cons_of_mem _ hother))
        (fun other hother => by
          obtain ⟨winner', w', hfound', hw'⟩ := hwinner other (List.mem_cons_of_mem _ hother)
          obtain ⟨w'', hw'', -⟩ := hmut.grows.wallets hw'
          exact ⟨winner', w'', hfound', hw''⟩)
        (fun u => by
          have hu := hroom u
          rw [List.map_cons, List.sum_cons] at hu
          show L.available u + _ ≤ maxInt4
          rw [payoutsDue_after hmut hne, payout_available hfound hmut]
          omega)
      refine ⟨t, ?_⟩
      simp only [creditWinners, hfound]
      rw [if_neg hsafe, Prog.run_bind hrun]
      exact hothers

/-! ## Everything else is provided for -/

/-- What `resolveMarket` needs besides room: balances and quantities are in the range of
their columns, the owner of an order has a wallet, and a market has both outcomes. -/
structure Db.Provided (db : Db) : Prop where
  balances : db.ledger.InRange
  owners : ∀ {id o}, db.orders.find? id = some o → ∃ w, db.ledger.wallets.find? o.userId = some w
  quantities : ∀ {id o}, db.orders.find? id = some o → o.quantity ≤ maxInt4
  outcomes : ∀ {id market}, db.markets.find? id = some market →
    ∀ side, (⟨id, side⟩ : Outcome) ∈ db.outcomes

theorem provided_empty : Db.empty.Provided where
  balances _ := ⟨⟨le_refl 0, (by decide : (0 : ℤ) ≤ maxInt4)⟩,
    le_refl 0, (by decide : (0 : ℤ) ≤ maxInt4)⟩
  owners h := by cases h
  quantities h := by cases h
  outcomes h := by cases h

section Effect

variable {m : Mode RowId} {s t : Db} {a : Action}

/-- No outcome is deleted. -/
theorem Action.Effect.outcomes_subset (h : a.Effect m s t) : ∀ o ∈ s.outcomes, o ∈ t.outcomes := by
  have same : t.outcomes = s.outcomes → ∀ o ∈ s.outcomes, o ∈ t.outcomes := by
    intro heq o ho
    rw [heq]
    exact ho
  have unchanged : t = s → ∀ o ∈ s.outcomes, o ∈ t.outcomes := fun heq => same (by rw [heq])
  have moved : ∀ {st v tradeId}, MovedFrom st v tradeId s t → ∀ o ∈ s.outcomes, o ∈ t.outcomes := by
    rintro st v tradeId ⟨trade, -, -, hmoved⟩
    obtain ⟨-, -, -, -, -, -, -, -, -, houtcomes⟩ := hmoved
    exact same houtcomes
  cases a with
  | createWalletForUser userId walletId =>
      refine h.elim unchanged ?_
      rintro ⟨L, -, rfl⟩
      exact same rfl
  | deposit userId dto createdAt =>
      obtain ⟨L, rfl, -⟩ := h
      exact same rfl
  | withdraw userId dto createdAt =>
      obtain ⟨L, rfl, -⟩ := h
      exact same rfl
  | createMarket closesAt marketId now =>
      intro o ho
      rw [h.2.2.2.2]
      exact List.mem_append_left _ ho
  | closeMarket marketId now => exact same h.rest.2.1
  | closeExpiredMarkets now => exact same h.rest.2.1
  | resolveMarket marketId winningSide createdAt =>
      obtain ⟨-, -, -, -, -, houtcomes, -⟩ := h
      exact same houtcomes
  | placeOrder userId dto orderId now createdAt =>
      exact h.elim unchanged fun hplaced => same hplaced.rest.2.1
  | cancelOrder userId orderId createdAt =>
      obtain ⟨-, -, -, -, -, -, houtcomes, -⟩ := h
      exact same houtcomes
  | tryMatchOrder orderId tradeId =>
      refine h.elim unchanged fun hmade => ?_
      obtain ⟨-, -, -, -, -, -, -, -, -, -, houtcomes⟩ := hmade
      exact same houtcomes
  | failPendingTradeAndReleaseFunds tradeId createdAt => exact h.elim unchanged moved
  | handleSettlement tradeId createdAt => exact h.elim unchanged moved
  | markSettlementFailure tradeId createdAt => exact h.elim unchanged moved
  | prepareTradeForRetry tradeId createdAt => exact h.elim unchanged moved
  | reopenOrders orders => exact unchanged h

/-- A movement leaves its user with a wallet. -/
theorem Mutated.exists_wallet {params : MutateWalletParams} {L L' : Ledger}
    (h : Mutated params L L') : ∃ w, L'.wallets.find? params.userId = some w := by
  cases h with
  | replay used same =>
      obtain ⟨e, he, -⟩ := used
      rw [same]
      unfold Ledger.history at he
      cases hw : L.wallets.find? params.userId with
      | none =>
          rw [hw] at he
          cases he
      | some w => exact ⟨w, rfl⟩
  | posted hp => exact ⟨_, by rw [hp.find?_wallet, if_pos rfl]⟩

/-- **The step lemma.** -/
theorem Db.Provided.effect (h : s.Provided) (hs : s.Coherent) (heff : a.Effect m s t) :
    t.Provided := by
  have hev := heff.evolves hs
  refine ⟨h.balances.steps heff.ledgerSteps, fun {id o} ho => ?_, fun {id o} ho => ?_,
    fun {id market} hm side => ?_⟩
  · rcases heff.order_before ho with
      ⟨old, hold⟩ | ⟨userId, dto, orderId, now, createdAt, -, rfl, hplaced⟩
    · obtain ⟨o', ho', st, rfl, -⟩ := hev.orders hold
      rw [ho] at ho'
      cases ho'
      obtain ⟨w, hw⟩ := h.owners hold
      obtain ⟨w', hw', -⟩ := hev.ledger.wallets hw
      exact ⟨w', hw'⟩
    · exact hplaced.reserved.exists_wallet
  · rcases heff.order_before ho with
      ⟨old, hold⟩ | ⟨userId, dto, orderId, now, createdAt, -, rfl, hplaced⟩
    · obtain ⟨o', ho', st, rfl, -⟩ := hev.orders hold
      rw [ho] at ho'
      cases ho'
      have hqty := h.quantities hold
      exact hqty
    · have hcol := hplaced.columns
      simp only [orderColumns, Bool.and_eq_true] at hcol
      exact le_maxInt4 hcol.1.1.1.1.1.1.2
  · rcases heff.market_before hm with ⟨old, hold⟩ | ⟨⟨closesAt, now, rfl⟩, -, -⟩
    · exact heff.outcomes_subset _ (h.outcomes hold side)
    · rw [heff.2.2.2.2]
      cases side <;> simp

end Effect

theorem provided_of_interleaved {A : Action → Prop} {c : Conf dbStore Err Unit Action}
    (h : (interleaved A).Reachable c) : c.committed.Provided :=
  (interleaved_invariant Db.Provided provided_empty
    (fun _ _ _ hs _ hI _ heff => hI.effect hs heff) h).2

/-! ## When a resolution commits -/

section Resolve

variable {s : Db} {marketId : Uuid} {market : Market}

/-- The order on the winning side of a settled trade is among those that are loaded. -/
theorem exists_winner (hs : s.Coherent) (hp : s.Provided) (winningSide : OutcomeSide)
    {trade : Trade} (ht : trade ∈ settledTradesOf marketId s) :
    ∃ winner w, (ordersOf (settledTradesOf marketId s) s).find?
        (fun order => order.id = trade.orderOn winningSide) = some winner ∧
      s.ledger.wallets.find? winner.userId = some w := by
  obtain ⟨hrow, -, -⟩ := mem_settledTradesOf.mp ht
  obtain ⟨y, n, hy, hn, -⟩ := Coherent.pair hs (Table.find?_key hrow)
  obtain ⟨o, ho, hmem⟩ : ∃ o, s.orders.find? (trade.orderOn winningSide) = some o ∧
      trade.orderOn winningSide ∈ [trade.yesOrderId, trade.noOrderId] := by
    cases winningSide with
    | YES => exact ⟨y, hy, by simp [Trade.orderOn]⟩
    | NO => exact ⟨n, hn, by simp [Trade.orderOn]⟩
  have hid : o.id = trade.orderOn winningSide := Table.key_of_find? ho
  have hloaded : o ∈ ordersOf (settledTradesOf marketId s) s := by
    rw [ordersOf, List.mem_filter]
    refine ⟨Table.mem_of_find? ho, ?_⟩
    rw [List.contains_iff_mem, hid]
    exact List.mem_flatMap.mpr ⟨trade, ht, hmem⟩
  obtain ⟨winner, hwinner⟩ : ∃ winner, (ordersOf (settledTradesOf marketId s) s).find?
      (fun order => order.id = trade.orderOn winningSide) = some winner := by
    rw [← Option.isSome_iff_exists, List.find?_isSome]
    exact ⟨o, hloaded, decide_eq_true hid⟩
  obtain ⟨w, hw⟩ := hp.owners (find?_ordersOf hwinner)
  exact ⟨winner, w, hwinner, hw⟩

/-- With room for all payouts the transaction completes. -/
theorem run_resolveMarket {busy : RowId → Bool} (hs : s.Coherent) (hp : s.Provided)
    (hm : s.markets.find? marketId = some market) (hst : market.status ≠ .RESOLVED)
    (hpending : hasPendingSettlements marketId s = false) (winningSide : OutcomeSide)
    (createdAt : Timestamp)
    (hroom : ∀ u, s.ledger.available u + payoutsDue marketId winningSide s u ≤ maxInt4) :
    ∃ r t, (resolveMarket marketId winningSide createdAt).run busy s = .ok (r, t) := by
  have hid : market.id = marketId := Table.key_of_find? hm
  subst hid
  -- the payouts are positive and fit their column, because the quantities do
  have hqty : ∀ trade ∈ settledTradesOf market.id s, 0 < trade.quantity ∧
      trade.quantity ≤ maxInt4 := by
    intro trade ht
    obtain ⟨hrow, -, -⟩ := mem_settledTradesOf.mp ht
    obtain ⟨y, n, hy, -, hpair⟩ := Coherent.pair hs (Table.find?_key hrow)
    rw [← hpair.yes_quantity]
    exact ⟨(Coherent.sound hs hy).quantity_pos, hp.quantities hy⟩
  obtain ⟨t, hcredit⟩ : ∃ t, (creditWinners market winningSide
      (ordersOf (settledTradesOf market.id s) s) createdAt
      (settledTradesOf market.id s)).run busy s = .ok ((), t) :=
    run_creditWinners hp.balances (settledTradesOf_distinct s market.id) hqty
      (fun trade ht => exists_winner hs hp winningSide ht) hroom
  obtain ⟨L, rfl, -⟩ := exec_creditWinners (exec_of_run hcredit)
  obtain ⟨markets, hmarkets⟩ : ∃ markets, s.markets.update?
      { market with status := .RESOLVED, resolvedOutcome := some winningSide } = some markets :=
    Table.exists_update hm fun c hc => hc
  have hhas : s.outcomes.any (fun o => o.marketId = market.id && o.side = winningSide) = true := by
    rw [List.any_eq_true]
    exact ⟨⟨market.id, winningSide⟩, hp.outcomes hm winningSide, by simp⟩
  unfold resolveMarket
  rw [Prog.run_bind (run_findMarketForUpdate market.id), hm]
  -- each guard of the source, and why it lets the resolution pass
  dsimp only
  rw [if_neg hst, Prog.run_bind (run_query _), hhas]
  rw [if_neg (by decide), Prog.run_bind (run_query _), hpending]
  rw [if_neg (by decide), Prog.run_bind (run_query _), Prog.run_bind (run_query _),
    Prog.run_bind hcredit, Prog.run_bind (run_saveMarket (s := { s with ledger := L }) hmarkets)]
  exact ⟨_, _, rfl⟩

/-- A resolution that completes leaves every balance in the range of its column. -/
theorem room_of_run {busy : RowId → Bool} {winningSide : OutcomeSide} {createdAt : Timestamp}
    {r : Market} {t : Db} (hp : s.Provided)
    (hrun : (resolveMarket marketId winningSide createdAt).run busy s = .ok (r, t)) (u : Uuid) :
    s.ledger.available u + payoutsDue marketId winningSide s u ≤ maxInt4 := by
  obtain @⟨market, trades, orders, hfound, -, hsnapshot, hcredited, -, -⟩ :=
    exec_resolveMarket (exec_of_run hrun)
  obtain ⟨-, rfl, rfl⟩ := hsnapshot (stale_serial _).mp
  have hid : market.id = marketId := Table.key_of_find? hfound
  subst hid
  have hrange := hp.balances.steps hcredited.ledgerSteps
  have havail := hcredited.available_eq (settledTradesOf_distinct s market.id) u
  calc s.ledger.available u + payoutsDue market.id winningSide s u
      = t.ledger.available u := havail.symm
    _ ≤ maxInt4 := (hrange u).1.2

end Resolve

/-- **A resolution commits** if and only if every winner's balance has room for the payouts:
that is the only arithmetic that can block it. -/
theorem resolution_commits_iff {A : Action → Prop} {c : Conf dbStore Err Unit Action}
    (h : (interleaved A).Reachable c) {marketId : Uuid} {market : Market}
    (hm : c.committed.markets.find? marketId = some market) (hst : market.status ≠ .RESOLVED)
    (hpending : hasPendingSettlements marketId c.committed = false) (winningSide : OutcomeSide)
    (createdAt : Timestamp) (busy : RowId → Bool) :
    (∃ r t, (resolveMarket marketId winningSide createdAt).run busy c.committed = .ok (r, t)) ↔
      ∀ u, c.committed.ledger.available u + payoutsDue marketId winningSide c.committed u ≤
        maxInt4 := by
  have hs := coherent_of_interleaved h
  have hp := provided_of_interleaved h
  constructor
  · rintro ⟨r, t, hrun⟩ u
    exact room_of_run hp hrun u
  · exact run_resolveMarket hs hp hm hst hpending winningSide createdAt

/-! ## The sample market, and a rich one -/

namespace Sample

def richDeposit (idempotencyKey : String) (h : 8 ≤ idempotencyKey.length)
    (h' : idempotencyKey.length ≤ 100) : DepositDto :=
  ⟨1000000000, idempotencyKey, by decide, by decide, h, h'⟩

def richDto (side : OutcomeSide) (key : String) (h : 8 ≤ key.length) : PlaceOrderDto :=
  ⟨market, side, 50, 12000000, key, by decide, by decide, by decide, h⟩

/-- Alice deposits two billion cents, and her trade of twelve million shares is settled. -/
def riches : List Action :=
  [ .createWalletForUser alice alice
  , .createWalletForUser bob bob
  , .createMarket 1000 market 0
  , .deposit alice (richDeposit "rich-deposit-1" (by decide) (by decide)) 1
  , .deposit alice (richDeposit "rich-deposit-2" (by decide) (by decide)) 1
  , .deposit bob (richDeposit "rich-deposit-3" (by decide) (by decide)) 1
  , .placeOrder alice (richDto .YES "rich-yes-order" (by decide)) yesOrder 2 2
  , .placeOrder bob (richDto .NO "rich-no-order" (by decide)) noOrder 3 3
  , .tryMatchOrder noOrder trade
  , .handleSettlement trade 4 ]

end Sample

/-- The sample market can be resolved. -/
theorem resolution_commits_sample : ∃ c : Conf dbStore Err Unit Action,
    (interleaved fun _ => True).Reachable c ∧
      ((∃ r t, (resolveMarket Sample.market .YES 5).run (fun _ => false) c.committed =
          .ok (r, t)) ↔
        ∀ u, c.committed.ledger.available u + payoutsDue Sample.market .YES c.committed u ≤
          maxInt4) := by
  obtain ⟨s, hs, hready⟩ := interleaved_of_leads (A := fun _ => True) (fun _ _ _ => trivial)
    (show leads (fun _ _ => true) (Sample.matching ++ [.handleSettlement Sample.trade 4])
      (fun s => s.markets.find? Sample.market = some ⟨Sample.market, .OPEN, some 1000, none⟩ &&
        hasPendingSettlements Sample.market s = false) = true by decide +kernel)
  rw [Bool.and_eq_true, decide_eq_true_eq, decide_eq_true_eq] at hready
  exact ⟨Conf.idle s, hs, resolution_commits_iff hs hready.1 (by decide) hready.2 .YES 5 _⟩

/-- The payout of 1.2 billion cents does not fit on top of the winner's 1.4 billion. -/
theorem resolution_blocked : ¬ ∀ c : Conf dbStore Err Unit Action,
    (interleaved fun _ => True).Reachable c → ∀ marketId market,
      c.committed.markets.find? marketId = some market → market.status ≠ .RESOLVED →
        hasPendingSettlements marketId c.committed = false → ∀ winningSide createdAt busy,
          ∃ r t, (resolveMarket marketId winningSide createdAt).run busy c.committed =
            .ok (r, t) := by
  intro hall
  obtain ⟨s, hs, hblocked⟩ := interleaved_of_leads (A := fun _ => True) (fun _ _ _ => trivial)
    (show leads (fun _ _ => true) Sample.riches
      (fun s => s.markets.find? Sample.market = some ⟨Sample.market, .OPEN, some 1000, none⟩ &&
        hasPendingSettlements Sample.market s = false &&
        (resolveMarket Sample.market .YES 5).leaves (fun _ _ => true) s = false) = true by
          decide +kernel)
  rw [Bool.and_eq_true, Bool.and_eq_true, decide_eq_true_eq, decide_eq_true_eq,
    decide_eq_true_eq] at hblocked
  obtain ⟨⟨hm, hpending⟩, hblocked⟩ := hblocked
  obtain ⟨r, t, hrun⟩ := hall (Conf.idle s) hs Sample.market _ hm (by decide) hpending .YES 5
    fun _ => false
  unfold Tx.leaves at hblocked
  rw [show (resolveMarket Sample.market .YES 5).run (fun _ => false) s = .ok (r, t) from hrun]
    at hblocked
  cases hblocked

end OutcomeExchange
