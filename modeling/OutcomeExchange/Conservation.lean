import OutcomeExchange.ExactlyOnce

set_option autoImplicit false

/-! # Conservation of money

Money enters the wallets by deposits and leaves them by withdrawals. A settlement takes
the collateral of both sides out of the wallets, which is 100 cents per unit, and the
resolution of the market pays the same amount to one side; between the two the exchange
owes it. `Ledger.owed` is what has left the wallets without being withdrawn, and
`Conserved` says that it is what the settled trades without a payout are worth. -/

namespace OutcomeExchange

open Txn

/-! ## What is owed -/

/-- The balances of all wallets. -/
def Ledger.total (L : Ledger) : ℤ :=
  L.wallets.sum fun w => w.availableBalanceCents + w.reservedBalanceCents

/-- The amounts of all entries of a type. -/
def Ledger.amountOf (L : Ledger) (entryType : WalletEntryType) : ℤ :=
  L.entries.sum fun e => if e.entryType = entryType then e.amountCents else 0

/-- The money that is in no wallet and has not been withdrawn. -/
def Ledger.owed (L : Ledger) : ℤ := L.amountOf .DEPOSIT - L.amountOf .WITHDRAW - L.total

/-- The payout entries for the trade, in all wallets. -/
def creditsOf (L : Ledger) (tradeId : Uuid) : List WalletEntry :=
  L.entries.rows.filter fun e => e.entryType = .SETTLE_CREDIT && e.referenceId = tradeId.text

/-- The worth of a settled trade that has not been paid out. -/
def Trade.unpaid (L : Ledger) (trade : Trade) : ℤ :=
  if trade.status = .SETTLED ∧ creditsOf L trade.id = [] then 100 * trade.quantity else 0

/-- The worth of the settled trades that have not been paid out. -/
def unpaid (trades : Table Trade) (L : Ledger) : ℤ := trades.sum (Trade.unpaid L)

def Conserved (db : Db) : Prop := db.ledger.owed = unpaid db.trades db.ledger

/-! ## The ledger -/

/-- What an entry adds to the money that is owed. -/
def WalletEntryType.owes : WalletEntryType → ℤ → ℤ
  | .SETTLE_DEBIT, a => a
  | .SETTLE_CREDIT, a => -a
  | _, _ => 0

section Ledgers

variable {L L' : Ledger} {params : MutateWalletParams}

theorem Posted.amountOf_eq {w : Wallet} {a : ℤ} (h : Posted params w a L L')
    (entryType : WalletEntryType) :
    L'.amountOf entryType = L.amountOf entryType + if params.entryType = entryType then a else 0 :=
  Table.sum_insert h.entries _

theorem Posted.owed_eq {w : Wallet} {a : ℤ} (h : Posted params w a L L') :
    L'.owed = L.owed + params.entryType.owes a := by
  have hdeposit := h.amountOf_eq .DEPOSIT
  have hwithdraw := h.amountOf_eq .WITHDRAW
  have htotal : L'.total = L.total - (w.availableBalanceCents + w.reservedBalanceCents) +
      ((w.availableBalanceCents + (params.entryType.effect a).1) +
        (w.reservedBalanceCents + (params.entryType.effect a).2)) := h.sum_wallets _
  unfold Ledger.owed
  rw [hdeposit, hwithdraw, htotal]
  cases params.entryType <;>
    simp only [WalletEntryType.effect, WalletEntryType.owes, reduceCtorEq, if_true, if_false] <;>
    omega

/-- A movement within the wallets, or by the user, carried out or not. -/
theorem Mutated.owed_same (h : Mutated params L L') (hty : ∀ a, params.entryType.owes a = 0) :
    L'.owed = L.owed := by
  cases h with
  | replay used same => rw [same]
  | posted hp => rw [hp.owed_eq, hty, add_zero]

theorem owed_insertWallet {walletId userId : Uuid}
    (h : L.insertWallet ⟨walletId, userId, 0, 0⟩ = .ok L') : L'.owed = L.owed := by
  obtain ⟨hw, he⟩ := Ledger.insertWallet_eq_ok h
  have htotal : L'.total = L.total + (0 + 0) := Table.sum_insert hw _
  have hamount : ∀ entryType, L'.amountOf entryType = L.amountOf entryType := by
    intro entryType
    rw [Ledger.amountOf, Ledger.amountOf, he]
  unfold Ledger.owed
  rw [hamount, hamount, htotal]
  omega

theorem creditsOf_append {new : List WalletEntry} (h : L'.entries.rows = L.entries.rows ++ new)
    (tradeId : Uuid) : creditsOf L' tradeId = creditsOf L tradeId ++ new.filter
      (fun e => e.entryType = .SETTLE_CREDIT && e.referenceId = tradeId.text) := by
  rw [creditsOf, h, List.filter_append]
  rfl

/-- Entries of other types are no payouts. -/
theorem creditsOf_of_appends (h : Appends (fun e => e.entryType ≠ .SETTLE_CREDIT) L L')
    (tradeId : Uuid) : creditsOf L' tradeId = creditsOf L tradeId := by
  obtain ⟨new, hnew, hno⟩ := h
  have hnil : new.filter
      (fun e => e.entryType = .SETTLE_CREDIT && e.referenceId = tradeId.text) = [] := by
    rw [List.filter_eq_nil_iff]
    intro e he hcredit
    rw [Bool.and_eq_true, decide_eq_true_eq, decide_eq_true_eq] at hcredit
    exact hno e he hcredit.1
  rw [creditsOf_append hnew, hnil, List.append_nil]

theorem Trade.unpaid_congr {trade : Trade} (h : creditsOf L' trade.id = creditsOf L trade.id) :
    trade.unpaid L' = trade.unpaid L := by
  rw [Trade.unpaid, Trade.unpaid, h]

theorem unpaid_of_appends {trades : Table Trade}
    (h : Appends (fun e => e.entryType ≠ .SETTLE_CREDIT) L L') :
    unpaid trades L' = unpaid trades L :=
  Table.sum_congr fun _ _ => Trade.unpaid_congr (creditsOf_of_appends h _)

end Ledgers

/-! ## Payouts

Only the resolution of its market pays for a trade. -/

/-- A trade with a payout is a settled trade of a resolved market. -/
def PaidAfterResolution (db : Db) : Prop :=
  ∀ id, creditsOf db.ledger id ≠ [] → ∃ trade market, db.trades.find? id = some trade ∧
    trade.status = .SETTLED ∧ db.markets.find? trade.marketId = some market ∧
      market.status = .RESOLVED

section Payouts

variable {L L' : Ledger} {s t : Db} {m : Mode RowId}

theorem PaidAfterResolution.of_appends (h : PaidAfterResolution s) (hev : Evolves s t)
    (happ : Appends (fun e => e.entryType ≠ .SETTLE_CREDIT) s.ledger t.ledger) :
    PaidAfterResolution t := by
  intro id hcredit
  rw [creditsOf_of_appends happ] at hcredit
  obtain ⟨trade, market, ht, hst, hm, hres⟩ := h id hcredit
  exact ⟨trade, market, hev.settled ht hst, hst, hev.resolved hm hres, hres⟩

/-- The payouts of a resolution go to the trades that it pays. -/
theorem Credited.creditsOf_ne {market : Market} {winningSide : OutcomeSide} {orders : List Order}
    {createdAt : Timestamp} {trades : List Trade}
    (h : Credited market winningSide orders createdAt trades L L') {id : Uuid}
    (hid : ∀ trade ∈ trades, trade.id ≠ id) : creditsOf L' id = creditsOf L id := by
  have happ : Appends (fun e => e.referenceId ≠ id.text) L L' :=
    h.appends fun trade ht _ _ _ href =>
      hid trade ht (Uuid.ext_text ((trade.id.varchar_text (by decide)).symm.trans href))
  obtain ⟨new, hnew, hno⟩ := happ
  have hnil : new.filter
      (fun e => e.entryType = .SETTLE_CREDIT && e.referenceId = id.text) = [] := by
    rw [List.filter_eq_nil_iff]
    intro e he hcredit
    rw [Bool.and_eq_true, decide_eq_true_eq, decide_eq_true_eq] at hcredit
    exact hno e he hcredit.2
  rw [creditsOf_append hnew, hnil, List.append_nil]

theorem mem_settledTradesOf {marketId : Uuid} {trade : Trade} :
    trade ∈ settledTradesOf marketId s ↔
      trade ∈ s.trades.rows ∧ trade.marketId = marketId ∧ trade.status = .SETTLED := by
  rw [settledTradesOf, List.mem_filter, Bool.and_eq_true, decide_eq_true_eq, decide_eq_true_eq]

theorem settledTradesOf_distinct (s : Db) (marketId : Uuid) :
    (settledTradesOf marketId s).Pairwise fun a b => a.id ≠ b.id :=
  (s.trades.distinct.imp fun hclash heq => hclash (Or.inl heq)).filter _

/-- No trade of an unresolved market has been paid. -/
theorem PaidAfterResolution.unpaid_of_unresolved {marketId : Uuid} (h : PaidAfterResolution s)
    (hun : ∀ market, s.markets.find? marketId = some market → market.status ≠ .RESOLVED) :
    ∀ trade ∈ settledTradesOf marketId s, creditsOf s.ledger trade.id = [] := by
  intro trade ht
  obtain ⟨hrow, hmarket, -⟩ := mem_settledTradesOf.mp ht
  by_contra hcredit
  obtain ⟨tr, market, htr, -, hm, hresolved⟩ := h trade.id hcredit
  rw [show s.trades.find? trade.id = some trade from Table.find?_key hrow] at htr
  cases htr
  rw [hmarket] at hm
  exact hun market hm hresolved

theorem Resolved.unresolved {marketId : Uuid} {winningSide : OutcomeSide} {createdAt : Timestamp}
    (h : Resolved m marketId winningSide createdAt s t) :
    ∀ market, s.markets.find? marketId = some market → market.status ≠ .RESOLVED := by
  obtain @⟨market, -, -, hfound, hunresolved, -, -, -, -⟩ := h
  intro market' hm
  rw [hfound] at hm
  cases hm
  exact hunresolved

/-- One payout: the wallets get back what they had given for the trade. -/
theorem Posted.unpaid_eq {trades : Table Trade} {userId : Uuid} {key : String}
    {createdAt : Timestamp} {trade : Trade} {w : Wallet} {a : ℤ} (ht : trade ∈ trades.rows)
    (hst : trade.status = .SETTLED) (hnone : creditsOf L trade.id = [])
    (h : Posted (settleCreditParams userId (.int (trade.quantity * 100)) key trade.id.text createdAt)
      w a L L') :
    L'.owed - unpaid trades L' = L.owed - unpaid trades L := by
  have ha : a = trade.quantity * 100 := (JsNumber.int.inj h.amount_eq).symm
  have howed := h.owed_eq
  rw [ha] at howed
  -- only the worth of this trade changes
  have hsum : unpaid trades L' = unpaid trades L - trade.unpaid L + trade.unpaid L' := by
    refine Table.sum_change ht fun other hother hne => (Trade.unpaid_congr ?_).symm
    have hid : trade.id ≠ other.id := fun heq => hne (trades.eq_of_key hother ht heq.symm)
    rw [creditsOf_append h.entries_rows, List.filter_eq_nil_iff.mpr, List.append_nil]
    intro e he hcredit
    rw [List.mem_singleton.mp he, Bool.and_eq_true, decide_eq_true_eq, decide_eq_true_eq]
      at hcredit
    exact hid (Uuid.ext_text ((trade.id.varchar_text (by decide)).symm.trans hcredit.2))
  have hbefore : trade.unpaid L = 100 * trade.quantity := if_pos ⟨hst, hnone⟩
  have hafter : trade.unpaid L' = 0 := by
    refine if_neg fun hnil => ?_
    have happ := creditsOf_append h.entries_rows trade.id
    rw [hnil.2, hnone] at happ
    simp [settleCreditParams, Uuid.varchar_text] at happ
  have howes : (settleCreditParams userId (.int (trade.quantity * 100)) key trade.id.text
      createdAt).entryType.owes (trade.quantity * 100) = -(trade.quantity * 100) := rfl
  rw [howes] at howed
  omega

/-- The payouts of a resolution, one after the other. -/
theorem Credited.unpaid_eq {table : Table Trade} {market : Market} {winningSide : OutcomeSide}
    {orders : List Order} {createdAt : Timestamp} {trades : List Trade}
    (h : Credited market winningSide orders createdAt trades L L')
    (hids : trades.Pairwise fun a b => a.id ≠ b.id)
    (htrades : ∀ trade ∈ trades, trade ∈ table.rows ∧ trade.status = .SETTLED)
    (hnone : ∀ trade ∈ trades, creditsOf L trade.id = []) :
    L'.owed - unpaid table L' = L.owed - unpaid table L := by
  induction h with
  | nil L => rfl
  | @cons trade rest winner L₁ L₂ L₃ hwinner credited others ih =>
      rw [List.pairwise_cons] at hids
      have hmem : trade ∈ trade :: rest := List.mem_cons_self ..
      have hhead : L₂.owed - unpaid table L₂ = L₁.owed - unpaid table L₁ := by
        cases credited with
        | replay used same => rw [same]
        | posted hp =>
            exact hp.unpaid_eq (htrades trade hmem).1 (htrades trade hmem).2 (hnone trade hmem)
      have htail : ∀ other ∈ rest, creditsOf L₂ other.id = [] := by
        intro other hother
        have hsingle : Credited market winningSide orders createdAt [trade] L₁ L₂ :=
          .cons hwinner credited (.nil L₂)
        rw [hsingle.creditsOf_ne]
        · exact hnone other (List.mem_cons_of_mem _ hother)
        · intro tr htr
          rw [List.mem_singleton.mp htr]
          exact hids.1 other hother
      rw [ih hids.2 (fun tr htr => htrades tr (List.mem_cons_of_mem _ htr)) htail, hhead]

/-- Only `resolveMarket` makes payouts. -/
theorem Action.Effect.noCredit {a : Action} (h : a.Effect m s t)
    (ha : ∀ marketId winningSide createdAt, a ≠ .resolveMarket marketId winningSide createdAt) :
    Appends (fun e => e.entryType ≠ .SETTLE_CREDIT) s.ledger t.ledger := by
  refine h.appends.mono fun e he hcredit => ?_
  rw [hcredit] at he
  cases a with
  | resolveMarket marketId winningSide createdAt => exact ha _ _ _ rfl
  | _ => cases he

end Payouts

/-! ## Every action conserves the money -/

section Effect

variable {s t : Db} {m : Mode RowId}

/-- The three parts of the invariant. -/
structure Balanced (db : Db) : Prop where
  conserved : Conserved db
  paid : PaidAfterResolution db
  debits : DebitsMatch db

theorem balanced_empty : Balanced Db.empty where
  conserved := rfl
  paid _ h := absurd rfl h
  debits := debitsMatch_empty

/-- An action that leaves the money in the wallets and makes no payout. -/
theorem Conserved.frame (h : Conserved s) (howed : t.ledger.owed = s.ledger.owed)
    (happ : Appends (fun e => e.entryType ≠ .SETTLE_CREDIT) s.ledger t.ledger)
    (htrades : t.trades.sum (Trade.unpaid s.ledger) = s.trades.sum (Trade.unpaid s.ledger)) :
    Conserved t := by
  rw [Conserved, howed, unpaid_of_appends happ, unpaid, htrades]
  exact h

/-- The collateral of a pair is 100 cents per unit. -/
theorem Pairing.reserved_add {trade : Trade} {y n : Order} (h : Pairing trade y n) (hy : y.Sound)
    (hn : n.Sound) : y.reservedCents + n.reservedCents = 100 * trade.quantity := by
  calc y.reservedCents + n.reservedCents
      = trade.yesPriceCents * trade.quantity + trade.noPriceCents * trade.quantity := by
        rw [hy.reserved, hn.reserved, h.yes_price, h.no_price, h.yes_quantity, h.no_quantity]
    _ = (trade.yesPriceCents + trade.noPriceCents) * trade.quantity := by rw [add_mul]
    _ = 100 * trade.quantity := by rw [h.prices]

/-- **A settlement** takes out of the wallets what the trade is worth from now on. -/
theorem Conserved.settle {tradeId : Uuid} {createdAt : Timestamp} (h : Balanced s)
    (hs : s.Coherent) (hmove : MovedFrom .PENDING_SETTLEMENT (settleMove createdAt) tradeId s t) :
    Conserved t := by
  obtain ⟨trade, hfound, hst, hmoved⟩ := id hmove
  have hid : trade.id = tradeId := Table.key_of_find? hfound
  subst hid
  have hnot : ∀ tr, s.trades.find? trade.id = some tr → tr.status ≠ .SETTLED := by
    intro tr htr hsettled
    rw [hfound] at htr
    cases htr
    rw [hst] at hsettled
    cases hsettled
  obtain ⟨y, n, wy, wn, ay, an, L, hy, hn, hp, hp'⟩ :=
    hmoved.debits (h.debits.unsettled trade.id hnot)
  have hsaved := hmoved.tradeSaved'
  -- what leaves the wallets
  have hay : ay = y.reservedCents := (JsNumber.int.inj hp.amount_eq).symm
  have han : an = n.reservedCents := (JsNumber.int.inj hp'.amount_eq).symm
  have hworth : y.reservedCents + n.reservedCents = 100 * trade.quantity := by
    obtain ⟨y', n', hy', hn', hpair⟩ := Coherent.pair hs hfound
    rw [hy] at hy'
    rw [hn] at hn'
    cases hy'
    cases hn'
    exact hpair.reserved_add (Coherent.sound hs hy) (Coherent.sound hs hn)
  have howed : L.owed = s.ledger.owed + ay := hp.owed_eq
  have howed' : t.ledger.owed = L.owed + an := hp'.owed_eq
  -- what the trade is worth
  have happ : Appends (fun e => e.entryType ≠ .SETTLE_CREDIT) s.ledger t.ledger :=
    hmove.appends (by rintro _ _ _ _ _ ⟨⟩)
  have hnone : creditsOf s.ledger trade.id = [] := by
    by_contra hcredit
    obtain ⟨tr, -, htr, hsettled, -⟩ := h.paid trade.id hcredit
    exact hnot tr htr hsettled
  have hbefore : trade.unpaid s.ledger = 0 := if_neg fun hc => hnot trade hfound hc.1
  have hafter : (trade.withStatus .SETTLED).unpaid s.ledger = 100 * trade.quantity :=
    if_pos ⟨rfl, hnone⟩
  have hsum : unpaid t.trades s.ledger = unpaid s.trades s.ledger - trade.unpaid s.ledger +
      (trade.withStatus .SETTLED).unpaid s.ledger :=
    Table.sum_update (a := trade.withStatus .SETTLED) hsaved hfound _
  have hconserved : s.ledger.owed = unpaid s.trades s.ledger := h.conserved
  rw [Conserved, unpaid_of_appends happ]
  omega

/-- A move between the other statuses moves money within the wallets. -/
theorem Conserved.moved {st : TradeStatus} {v : TradeMove} {tradeId : Uuid} (h : Conserved s)
    (hst : st ≠ .SETTLED) (hv : v.tradeStatus ≠ .SETTLED)
    (howes : ∀ side trade o a, (v.movement side trade o).entryType.owes a = 0)
    (happ : Appends (fun e => e.entryType ≠ .SETTLE_CREDIT) s.ledger t.ledger)
    (hmove : MovedFrom st v tradeId s t) : Conserved t := by
  obtain ⟨trade, hfound, hstatus, hmoved⟩ := hmove
  have hid : trade.id = tradeId := Table.key_of_find? hfound
  subst hid
  have hsaved := hmoved.tradeSaved'
  obtain ⟨-, -, -, hmut, hmut', -, -, -, -⟩ := hmoved
  refine h.frame ?_ happ ?_
  · rw [hmut'.owed_same (howes _ _ _), hmut.owed_same (howes _ _ _)]
  · have hbefore : trade.unpaid s.ledger = 0 := if_neg fun hc => hst (hstatus ▸ hc.1)
    have hafter : (trade.withStatus v.tradeStatus).unpaid s.ledger = 0 :=
      if_neg fun hc => hv hc.1
    have hsum := Table.sum_update (a := trade.withStatus v.tradeStatus) hsaved hfound
      (Trade.unpaid s.ledger)
    omega

/-- **A resolution** pays back what the exchange owes for the trades of the market. -/
theorem Conserved.resolved {marketId : Uuid} {winningSide : OutcomeSide} {createdAt : Timestamp}
    (h : Balanced s) (hm : ¬ m.stale) (hres : Resolved m marketId winningSide createdAt s t) :
    Conserved t := by
  have hnone := h.paid.unpaid_of_unresolved hres.unresolved
  obtain @⟨market, trades, orders, -, -, hsnapshot, hcredited, -, -, -, htrades⟩ := hres
  obtain ⟨-, rfl, -⟩ := hsnapshot hm
  have hpaid : t.ledger.owed - unpaid s.trades t.ledger =
      s.ledger.owed - unpaid s.trades s.ledger :=
    hcredited.unpaid_eq (settledTradesOf_distinct s marketId)
      (fun trade ht => ⟨(mem_settledTradesOf.mp ht).1, (mem_settledTradesOf.mp ht).2.2⟩) hnone
  have hconserved : s.ledger.owed = unpaid s.trades s.ledger := h.conserved
  rw [Conserved, htrades]
  omega

/-- Payouts for settled trades of a market that is resolved with them. -/
theorem PaidAfterResolution.credited {market market' : Market} {winningSide : OutcomeSide}
    {orders : List Order} {createdAt : Timestamp} {trades : List Trade}
    (h : PaidAfterResolution s) (hev : Evolves s t)
    (hcredited : Credited market winningSide orders createdAt trades s.ledger t.ledger)
    (hsettled : ∀ trade ∈ trades, trade ∈ settledTradesOf market.id s)
    (hnow : t.markets.find? market.id = some market') (hres : market'.status = .RESOLVED) :
    PaidAfterResolution t := by
  intro id hcredit
  by_cases hpaid : ∃ trade ∈ trades, trade.id = id
  · -- paid by this resolution
    obtain ⟨trade, ht, rfl⟩ := hpaid
    obtain ⟨hrow, hmarket, hst⟩ := mem_settledTradesOf.mp (hsettled trade ht)
    rw [← hmarket] at hnow
    exact ⟨trade, _, hev.settled (Table.find?_key hrow) hst, hst, hnow, hres⟩
  · have hne : ∀ trade ∈ trades, trade.id ≠ id := fun trade ht heq => hpaid ⟨trade, ht, heq⟩
    rw [hcredited.creditsOf_ne hne] at hcredit
    obtain ⟨trade, market', ht, hst, hm', hresolved⟩ := h id hcredit
    exact ⟨trade, market', hev.settled ht hst, hst, hev.resolved hm' hresolved, hresolved⟩

theorem PaidAfterResolution.resolved {marketId : Uuid} {winningSide : OutcomeSide}
    {createdAt : Timestamp} (h : PaidAfterResolution s) (hm : ¬ m.stale) (hev : Evolves s t)
    (hres : Resolved m marketId winningSide createdAt s t) : PaidAfterResolution t := by
  obtain @⟨market, trades, orders, hfound, -, hsnapshot, hcredited, hsaved, -⟩ := hres
  obtain ⟨-, rfl, -⟩ := hsnapshot hm
  have hmid : market.id = marketId := Table.key_of_find? hfound
  subst hmid
  have hnow : t.markets.find? market.id = some
      { market with status := .RESOLVED, resolvedOutcome := some winningSide } :=
    Table.find?_update_self hsaved hfound
  exact h.credited hev hcredited (fun _ ht => ht) hnow rfl

theorem PaidAfterResolution.effect {a : Action} (h : PaidAfterResolution s) (hs : s.Coherent)
    (hm : ¬ m.stale) (heff : a.Effect m s t) : PaidAfterResolution t := by
  have hev := heff.evolves hs
  have plain : (∀ marketId winningSide createdAt,
      a ≠ .resolveMarket marketId winningSide createdAt) → PaidAfterResolution t :=
    fun hne => h.of_appends hev (heff.noCredit hne)
  cases a with
  | resolveMarket marketId winningSide createdAt => exact h.resolved hm hev heff
  | _ => exact plain (by rintro _ _ _ ⟨⟩)

theorem Conserved.effect {a : Action} (h : Balanced s) (hs : s.Coherent) (hm : ¬ m.stale)
    (heff : a.Effect m s t) : Conserved t := by
  have same : t = s → Conserved t := by
    rintro rfl
    exact h.conserved
  -- whoever credits no winner and touches no trade must only keep what is owed
  have ledger : (∀ marketId winningSide createdAt,
      a ≠ .resolveMarket marketId winningSide createdAt) → t.trades = s.trades →
      t.ledger.owed = s.ledger.owed → Conserved t :=
    fun hne htrades howed => h.conserved.frame howed (heff.noCredit hne) (by rw [htrades])
  have hno := heff.noCredit
  cases a with
  | createWalletForUser userId walletId =>
      refine heff.elim same ?_
      rintro ⟨L, hL, rfl⟩
      exact ledger (by rintro _ _ _ ⟨⟩) rfl (owed_insertWallet hL)
  | deposit userId dto createdAt =>
      obtain ⟨L, rfl, hmut⟩ := heff
      exact ledger (by rintro _ _ _ ⟨⟩) rfl (hmut.owed_same fun _ => rfl)
  | withdraw userId dto createdAt =>
      obtain ⟨L, rfl, hmut⟩ := heff
      exact ledger (by rintro _ _ _ ⟨⟩) rfl (hmut.owed_same fun _ => rfl)
  | createMarket closesAt marketId now =>
      exact ledger (by rintro _ _ _ ⟨⟩) heff.2.2.2.1 (by rw [heff.2.1])
  | closeMarket marketId now =>
      exact ledger (by rintro _ _ _ ⟨⟩) heff.rest.2.2.2 (by rw [heff.rest.1])
  | closeExpiredMarkets now =>
      exact ledger (by rintro _ _ _ ⟨⟩) heff.rest.2.2.2 (by rw [heff.rest.1])
  | resolveMarket marketId winningSide createdAt => exact Conserved.resolved h hm heff
  | placeOrder userId dto orderId now createdAt =>
      refine heff.elim same fun hplaced => ?_
      exact ledger (by rintro _ _ _ ⟨⟩) hplaced.rest.2.2 (hplaced.reserved.owed_same fun _ => rfl)
  | cancelOrder userId orderId createdAt =>
      obtain ⟨-, -, -, -, hmut, -, -, htrades⟩ := heff
      exact ledger (by rintro _ _ _ ⟨⟩) htrades (hmut.owed_same fun _ => rfl)
  | tryMatchOrder orderId tradeId =>
      refine heff.elim same fun hmade => ?_
      obtain ⟨trade, -, -, -, hpending, -, -, -, -, -, -, hin⟩ := hmade.paired
      obtain ⟨-, -, -, -, -, -, -, -, hledger, -⟩ := hmade
      -- a pending trade is owed nothing yet
      have hworth : trade.unpaid s.ledger = 0 := by
        refine if_neg fun hc => ?_
        rw [hpending] at hc
        cases hc.1
      refine h.conserved.frame (by rw [hledger]) (hno (by rintro _ _ _ ⟨⟩)) ?_
      rw [Table.sum_insert hin, hworth, add_zero]
  | failPendingTradeAndReleaseFunds tradeId createdAt =>
      exact heff.elim same (h.conserved.moved (by rintro ⟨⟩) (by rintro ⟨⟩) (fun _ _ _ _ => rfl)
        (hno (by rintro _ _ _ ⟨⟩)))
  | handleSettlement tradeId createdAt => exact heff.elim same (Conserved.settle h hs)
  | markSettlementFailure tradeId createdAt =>
      exact heff.elim same (h.conserved.moved (by rintro ⟨⟩) (by rintro ⟨⟩) (fun _ _ _ _ => rfl)
        (hno (by rintro _ _ _ ⟨⟩)))
  | prepareTradeForRetry tradeId createdAt =>
      exact heff.elim same (h.conserved.moved (by rintro ⟨⟩) (by rintro ⟨⟩) (fun _ _ _ _ => rfl)
        (hno (by rintro _ _ _ ⟨⟩)))
  | reopenOrders orders => exact same heff

/-- The keys under which a settlement debits and a resolution credits a wallet. -/
inductive EngineKey.Settles : EngineKey → Prop
  | debit (tradeId : Uuid) (side : OutcomeSide) : Settles (.trade tradeId (.debit side))
  | credit (marketId tradeId : Uuid) (winningSide : OutcomeSide) :
      Settles (.credit marketId tradeId winningSide)

/-- **The step lemma of conservation**, for transactions that are executed alone. -/
theorem Balanced.effect {a : Action} (h : Balanced s) (hs : s.Coherent) (hm : ¬ m.stale)
    (ha : a.AvoidsKeys EngineKey.Settles) (heff : a.Effect m s t) : Balanced t where
  conserved := Conserved.effect h hs hm heff
  paid := h.paid.effect hs hm heff
  debits := h.debits.effect hs EngineKey.Settles.debit ha heff

end Effect

/-! ## Every run -/

/-- The keys that the callers choose are not those of a settlement or a resolution. -/
def Call.AvoidsSettlementKeys : Call → Prop
  | .committed a => a.AvoidsKeys EngineKey.Settles
  | .rolledBack _ => True

theorem balanced_of_reachable {db : Db}
    (h : (exchange.restrict fun _ c => c.AvoidsSettlementKeys).Reachable db) : Balanced db :=
  (exchange_invariant Balanced balanced_empty
    (fun _ _ _ _ hs _ hI ha heff => hI.effect hs (fun hm => by cases hm) ha heff) h).2

/-- **Conservation of money**: what the wallets hold, and what the settled trades without
a payout are worth, is what was deposited and not withdrawn. -/
theorem money_conserved {db : Db}
    (h : (exchange.restrict fun _ c => c.AvoidsSettlementKeys).Reachable db) :
    db.ledger.total + unpaid db.trades db.ledger =
      db.ledger.amountOf .DEPOSIT - db.ledger.amountOf .WITHDRAW := by
  have hconserved : db.ledger.owed = unpaid db.trades db.ledger := (balanced_of_reachable h).conserved
  unfold Ledger.owed at hconserved
  omega

theorem EngineKey.Settles.length {k : EngineKey} (h : k.Settles) : 42 ≤ k.text.length := by
  cases h with
  | debit tradeId side => exact EngineKey.OfTrade.length ⟨tradeId, _, rfl⟩
  | credit marketId tradeId winningSide =>
      have hprefix : "market:".length = 7 := by decide
      simp only [EngineKey.text, String.length_append, Uuid.text_length, hprefix]
      omega

/-- The money between a settlement and the payout, and after it. -/
theorem money_conserved_sample : ∃ s t : Db,
    (s.ledger.total + unpaid s.trades s.ledger =
        s.ledger.amountOf .DEPOSIT - s.ledger.amountOf .WITHDRAW ∧
      unpaid s.trades s.ledger = 500 ∧ s.ledger.total = 1500) ∧
    (t.ledger.total + unpaid t.trades t.ledger =
        t.ledger.amountOf .DEPOSIT - t.ledger.amountOf .WITHDRAW ∧
      unpaid t.trades t.ledger = 0 ∧ t.ledger.total = 2000) := by
  have short : ∀ (s : Db) (a : Action), a.shortKeys = true →
      (Call.committed a).AvoidsSettlementKeys :=
    fun _ _ h => avoidsKeys_of_short (fun _ hk => hk.length) h
  obtain ⟨s, hs, howed⟩ := exchange_of_leads short
    (show leads (fun _ a => a.shortKeys) (Sample.matching ++ [.handleSettlement Sample.trade 4])
      (fun db => unpaid db.trades db.ledger = 500 && db.ledger.total = 1500) = true by
        decide +kernel)
  obtain ⟨t, ht, hpaid⟩ := exchange_of_leads short
    (show leads (fun _ a => a.shortKeys) (Sample.matching ++
        [.handleSettlement Sample.trade 4, .resolveMarket Sample.market .YES 5])
      (fun db => unpaid db.trades db.ledger = 0 && db.ledger.total = 2000) = true by
        decide +kernel)
  rw [Bool.and_eq_true, decide_eq_true_eq, decide_eq_true_eq] at howed hpaid
  exact ⟨s, t, ⟨money_conserved hs, howed⟩, ⟨money_conserved ht, hpaid⟩⟩

end OutcomeExchange
