import OutcomeExchange.Conservation

set_option autoImplicit false

/-! # Payouts

A market is resolved once, and the resolution pays for the trades that are settled at that
moment. Nothing keeps a trade of a resolved market from being settled later: a failed one
is re-armed, or a match makes a new one, and the worker settles it. `Action.PayoutSafe`
is the condition that no action does so, and that no payout is taken for a replay;
`AllPaid.effect` is what such an action keeps, if a resolution pays what is settled when it
commits (`PaysSettled`). One that is executed by itself does. -/

namespace OutcomeExchange

open Txn

/-- The trade has one payout entry, of 100 cents per unit, in the wallet of the owner of
the order on the winning side. -/
def PaidOnce (db : Db) (trade : Trade) (market : Market) : Prop :=
  ∃ winningSide winner wallet e, market.resolvedOutcome = some winningSide ∧
    db.orders.find? (trade.orderOn winningSide) = some winner ∧
    db.ledger.wallets.find? winner.userId = some wallet ∧ creditsOf db.ledger trade.id = [e] ∧
    e.walletId = wallet.id ∧ e.amountCents = 100 * trade.quantity

/-- Every settled trade of a resolved market is paid. -/
def AllPaid (db : Db) : Prop :=
  ∀ id trade market, db.trades.find? id = some trade → trade.status = .SETTLED →
    db.markets.find? trade.marketId = some market → market.status = .RESOLVED →
      PaidOnce db trade market

/-! ## The condition -/

/-- No trade of a resolved market is settled, and the keys of the payouts are new in the
wallets of the winners. -/
def Action.PayoutSafe (s : Db) : Action → Prop
  | .handleSettlement tradeId _ =>
      ∀ trade ∈ s.trades.find? tradeId, trade.status = .PENDING_SETTLEMENT →
        ∀ market ∈ s.markets.find? trade.marketId, market.status ≠ .RESOLVED
  | .resolveMarket marketId winningSide _ =>
      ∀ trade ∈ settledTradesOf marketId s, ∀ o ∈ s.orders.find? (trade.orderOn winningSide),
        ¬ s.ledger.KeyUsed o.userId (EngineKey.credit marketId trade.id winningSide).text
  | _ => True

instance (s : Db) (a : Action) : Decidable (a.PayoutSafe s) :=
  match a with
  | .handleSettlement tradeId _ => inferInstanceAs (Decidable (∀ trade ∈ s.trades.find? tradeId,
      trade.status = .PENDING_SETTLEMENT →
        ∀ market ∈ s.markets.find? trade.marketId, market.status ≠ .RESOLVED))
  | .resolveMarket marketId winningSide _ => inferInstanceAs (Decidable
      (∀ trade ∈ settledTradesOf marketId s, ∀ o ∈ s.orders.find? (trade.orderOn winningSide),
        ¬ s.ledger.KeyUsed o.userId (EngineKey.credit marketId trade.id winningSide).text))
  | .createWalletForUser _ _ => inferInstanceAs (Decidable True)
  | .deposit _ _ _ => inferInstanceAs (Decidable True)
  | .withdraw _ _ _ => inferInstanceAs (Decidable True)
  | .createMarket _ _ _ => inferInstanceAs (Decidable True)
  | .closeMarket _ _ => inferInstanceAs (Decidable True)
  | .closeExpiredMarkets _ => inferInstanceAs (Decidable True)
  | .placeOrder _ _ _ _ _ => inferInstanceAs (Decidable True)
  | .cancelOrder _ _ _ => inferInstanceAs (Decidable True)
  | .tryMatchOrder _ _ => inferInstanceAs (Decidable True)
  | .failPendingTradeAndReleaseFunds _ _ => inferInstanceAs (Decidable True)
  | .markSettlementFailure _ _ => inferInstanceAs (Decidable True)
  | .prepareTradeForRetry _ _ => inferInstanceAs (Decidable True)
  | .reopenOrders _ => inferInstanceAs (Decidable True)

/-! ## The payouts of one resolution -/

section Resolution

variable {s t : Db} {L L' : Ledger} {market : Market} {winningSide : OutcomeSide}
  {orders : List Order} {createdAt : Timestamp} {trades : List Trade}

theorem creditsOf_posted {userId : Uuid} {amountCents : JsNumber} {key : String} {id : Uuid}
    {w : Wallet} {a : ℤ} (h : Posted (settleCreditParams userId amountCents key id.text createdAt)
      w a L L') :
    creditsOf L' id = creditsOf L id ++
      [(settleCreditParams userId amountCents key id.text createdAt).entry w.id a] := by
  rw [creditsOf_append h.entries_rows]
  simp [settleCreditParams, Uuid.varchar_text]

/-- Every trade that the resolution goes through gets its payout, if none is a replay. -/
theorem Credited.paid (h : Credited market winningSide orders createdAt trades L L')
    (hids : trades.Pairwise fun a b => a.id ≠ b.id)
    (hnone : ∀ trade ∈ trades, creditsOf L trade.id = [])
    (hfresh : ∀ trade ∈ trades, ∀ o,
      orders.find? (fun order => order.id = trade.orderOn winningSide) = some o →
        ¬ L.KeyUsed o.userId (EngineKey.credit market.id trade.id winningSide).text) :
    ∀ trade ∈ trades, ∃ winner wallet e,
      orders.find? (fun order => order.id = trade.orderOn winningSide) = some winner ∧
      L'.wallets.find? winner.userId = some wallet ∧ creditsOf L' trade.id = [e] ∧
      e.walletId = wallet.id ∧ e.amountCents = 100 * trade.quantity := by
  induction h with
  | nil L => simp
  | @cons trade rest winner L₁ L₂ L₃ hwinner credited others ih =>
      rw [List.pairwise_cons] at hids
      have hmem : trade ∈ trade :: rest := List.mem_cons_self ..
      have hrest : ∀ {other}, other ∈ rest → other ∈ trade :: rest :=
        fun hother => List.mem_cons_of_mem _ hother
      -- the payout of the first trade is carried out
      cases credited with
      | replay used same => exact absurd used (hfresh trade hmem winner hwinner)
      | @posted w a hp =>
          have ha : a = trade.quantity * 100 := (JsNumber.int.inj hp.amount_eq).symm
          have hsingle : Credited market winningSide orders createdAt [trade] L₁ L₂ :=
            .cons hwinner (.posted hp) (.nil L₂)
          have htail := ih hids.2
            (fun other hother => by
              rw [hsingle.creditsOf_ne, hnone other (hrest hother)]
              intro tr htr
              rw [List.mem_singleton.mp htr]
              exact hids.1 other hother)
            (fun other hother o ho => by
              rw [hp.keyUsed_iff]
              rintro (hold | ⟨-, hkey⟩)
              · exact hfresh other (hrest hother) o ho hold
              · -- the key of another trade
                have heq := EngineKey.text_injective
                  (show (EngineKey.credit market.id other.id winningSide).text =
                    (EngineKey.credit market.id trade.id winningSide).text from
                      hkey.trans (settleCredit_storedKey market.id trade.id winningSide))
                simp only [EngineKey.credit.injEq, true_and, and_true] at heq
                exact hids.1 other hother heq.symm)
          intro tr htr
          rcases List.mem_cons.mp htr with rfl | htr
          · have hcredits := creditsOf_posted hp
            rw [hnone tr hmem, List.nil_append] at hcredits
            have hwallet : L₂.wallets.find? winner.userId = some (w.moved .SETTLE_CREDIT a) := by
              rw [hp.find?_wallet]
              exact if_pos rfl
            obtain ⟨w', hw', hwid⟩ := others.grows.wallets hwallet
            have hlater := others.creditsOf_ne fun other hother => (hids.1 other hother).symm
            refine ⟨winner, w', _, hwinner, hw', hlater.trans hcredits, hwid.symm, ?_⟩
            show a = 100 * tr.quantity
            omega
          · exact htail tr htr

theorem find?_ordersOf {trades : List Trade} {id : Uuid} {o : Order}
    (h : (ordersOf trades s).find? (fun order => order.id = id) = some o) :
    s.orders.find? id = some o := by
  have hmem := List.mem_of_find?_eq_some h
  have hid : o.id = id := by simpa using List.find?_some h
  rw [ordersOf, List.mem_filter] at hmem
  exact Table.find?_eq_some_iff.mpr ⟨hmem.1, hid⟩

end Resolution

/-! ## Every action -/

section Effect

variable {s t : Db} {m : Mode RowId}

theorem PaidOnce.evolves {trade : Trade} {market : Market} (h : PaidOnce s trade market)
    (hev : Evolves s t) (hcredits : creditsOf t.ledger trade.id = creditsOf s.ledger trade.id) :
    PaidOnce t trade market := by
  obtain ⟨winningSide, o, w, e, hside, ho, hw, he, hwallet, hamount⟩ := h
  obtain ⟨o', ho', st, rfl, -⟩ := hev.orders ho
  obtain ⟨w', hw', hid⟩ := hev.ledger.wallets hw
  exact ⟨winningSide, _, w', e, hside, ho', hw', by rw [hcredits, he], hwallet.trans hid.symm,
    hamount⟩

/-- A settlement in a market that is not resolved. -/
theorem AllPaid.settled {tradeId : Uuid} {createdAt : Timestamp} (h : AllPaid s)
    (hsafe : (Action.handleSettlement tradeId createdAt).PayoutSafe s) (hev : Evolves s t)
    (heff : (Action.handleSettlement tradeId createdAt).Effect m s t) : AllPaid t := by
  intro id trade market ht hst hm hres
  have hm' := heff.resolved_before (by rintro _ _ _ ⟨⟩) hm hres
  have hcredits := creditsOf_of_appends (heff.noCredit (by rintro _ _ _ ⟨⟩)) trade.id
  have old : s.trades.find? id = some trade → PaidOnce t trade market :=
    fun ht' => (h id trade market ht' hst hm' hres).evolves hev hcredits
  rcases heff with rfl | ⟨moved, hfound, hpending, hmoved⟩
  · exact old ht
  · have hid : moved.id = tradeId := Table.key_of_find? hfound
    subst hid
    rw [Table.find?_update hmoved.tradeSaved' hfound] at ht
    by_cases hid : id = moved.id
    · rw [if_pos (show id = Row.key _ from hid)] at ht
      cases ht
      exact absurd hres (hsafe moved hfound hpending market hm')
    · rw [if_neg (show ¬ id = Row.key _ from hid)] at ht
      exact old ht

/-- A resolution that pays for the trades that are settled when it commits, each to the
owner of its winning order. -/
inductive PaysSettled (marketId : Uuid) (winningSide : OutcomeSide) (createdAt : Timestamp)
    (s t : Db) : Prop
  | intro {market : Market} {trades : List Trade} {orders : List Order}
      (found : s.markets.find? marketId = some market)
      (unresolved : market.status ≠ .RESOLVED)
      (distinct : trades.Pairwise fun a b => a.id ≠ b.id)
      (settled : ∀ trade, trade ∈ trades ↔ trade ∈ settledTradesOf marketId s)
      (owners : ∀ {trade o}, trade ∈ trades →
        orders.find? (fun order => order.id = trade.orderOn winningSide) = some o →
          ∃ o', s.orders.find? (trade.orderOn winningSide) = some o' ∧ o'.userId = o.userId)
      (credited : Credited market winningSide orders createdAt trades s.ledger t.ledger)
      (saved : s.markets.update?
        { market with status := .RESOLVED, resolvedOutcome := some winningSide } = some t.markets)
      (sameTrades : t.trades = s.trades)

/-- A resolution that is executed by itself. -/
theorem Resolved.paysSettled {marketId : Uuid} {winningSide : OutcomeSide} {createdAt : Timestamp}
    (hm : ¬ m.stale) (h : Resolved m marketId winningSide createdAt s t) :
    PaysSettled marketId winningSide createdAt s t := by
  obtain @⟨market, trades, orders, hfound, hunresolved, hsnapshot, hcredited, hsaved, -, -,
    htrades⟩ := h
  obtain ⟨-, rfl, rfl⟩ := hsnapshot hm
  exact .intro hfound hunresolved (settledTradesOf_distinct s marketId) (fun _ => Iff.rfl)
    (fun _ ho => ⟨_, find?_ordersOf ho, rfl⟩) hcredited hsaved htrades

/-- A resolution whose payouts are all carried out. -/
theorem AllPaid.resolved {marketId : Uuid} {winningSide : OutcomeSide} {createdAt : Timestamp}
    (h : AllPaid s) (hpaid : PaidAfterResolution s) (hev : Evolves s t)
    (hsafe : (Action.resolveMarket marketId winningSide createdAt).PayoutSafe s)
    (hres : PaysSettled marketId winningSide createdAt s t) : AllPaid t := by
  intro id trade market' ht hst hm' hresolved
  obtain @⟨market, trades, orders, hfound, hunresolved, hdistinct, hsettled, howners, hcredited,
    hsaved, htrades⟩ := hres
  -- before the resolution no trade of the market has been credited
  have hnone : ∀ trade ∈ settledTradesOf marketId s, creditsOf s.ledger trade.id = [] := by
    refine hpaid.unpaid_of_unresolved fun market' hm => ?_
    rw [hfound] at hm
    cases hm
    exact hunresolved
  have hmid : market.id = marketId := Table.key_of_find? hfound
  subst hmid
  rw [htrades] at ht
  have hrow := Table.mem_of_find? ht
  by_cases hmarket : trade.marketId = market.id
  · -- a trade of the market that is being resolved
    have hnow : t.markets.find? market.id = some
        { market with status := .RESOLVED, resolvedOutcome := some winningSide } :=
      Table.find?_update_self hsaved hfound
    rw [hmarket, hnow] at hm'
    cases hm'
    have hfresh : ∀ tr ∈ trades, ∀ o,
        orders.find? (fun order => order.id = tr.orderOn winningSide) = some o →
          ¬ s.ledger.KeyUsed o.userId (EngineKey.credit market.id tr.id winningSide).text := by
      intro tr htr o ho
      obtain ⟨o', ho', huser⟩ := howners htr ho
      rw [← huser]
      exact hsafe tr ((hsettled tr).mp htr) o' ho'
    have hin : trade ∈ trades :=
      (hsettled trade).mpr (mem_settledTradesOf.mpr ⟨hrow, hmarket, hst⟩)
    obtain ⟨o, w, e, ho, hw, he, hwallet, hamount⟩ := hcredited.paid hdistinct
      (fun tr htr => hnone tr ((hsettled tr).mp htr)) hfresh trade hin
    obtain ⟨o', ho', huser⟩ := howners hin ho
    obtain ⟨o'', ho'', st, rfl, -⟩ := hev.orders ho'
    rw [← huser] at hw
    exact ⟨winningSide, _, w, e, rfl, ho'', hw, he, hwallet, hamount⟩
  · rw [Table.find?_update_of_ne hsaved hmarket] at hm'
    refine (h id trade market' ht hst hm' hresolved).evolves hev
      (hcredited.creditsOf_ne fun tr htr hid => ?_)
    obtain ⟨hrow', hmarket', -⟩ := mem_settledTradesOf.mp ((hsettled tr).mp htr)
    rw [s.trades.eq_of_key hrow' hrow hid] at hmarket'
    exact hmarket hmarket'

/-- **The step lemma of the payouts.** -/
theorem AllPaid.effect {a : Action} (h : AllPaid s) (hpaid : PaidAfterResolution s)
    (hs : s.Coherent) (hsafe : a.PayoutSafe s) (heff : a.Effect m s t)
    (hres : ∀ marketId winningSide createdAt, a = .resolveMarket marketId winningSide createdAt →
      PaysSettled marketId winningSide createdAt s t) : AllPaid t := by
  have hev := heff.evolves hs
  have others : (∀ tradeId createdAt, a ≠ .handleSettlement tradeId createdAt) →
      (∀ marketId winningSide createdAt, a ≠ .resolveMarket marketId winningSide createdAt) →
      AllPaid t := by
    intro hne hne' id trade market ht hst hmarket hres
    have ht' := heff.settled_before hne ht hst
    have hmarket' := heff.resolved_before hne' hmarket hres
    exact (h id trade market ht' hst hmarket' hres).evolves hev
      (creditsOf_of_appends (heff.noCredit hne') _)
  cases a with
  | handleSettlement tradeId createdAt => exact h.settled hsafe hev heff
  | resolveMarket marketId winningSide createdAt =>
      exact h.resolved hpaid hev hsafe (hres marketId winningSide createdAt rfl)
  | _ => exact others (by rintro _ _ ⟨⟩) (by rintro _ _ _ ⟨⟩)

/-- Payouts also go to settled trades of resolved markets only if a resolution pays what is
settled when it commits. -/
theorem PaidAfterResolution.effect_of_pays {a : Action} (h : PaidAfterResolution s)
    (hs : s.Coherent) (heff : a.Effect m s t)
    (hres : ∀ marketId winningSide createdAt, a = .resolveMarket marketId winningSide createdAt →
      PaysSettled marketId winningSide createdAt s t) : PaidAfterResolution t := by
  have hev := heff.evolves hs
  by_cases hresolve : ∃ marketId winningSide createdAt,
      a = .resolveMarket marketId winningSide createdAt
  · obtain ⟨marketId, winningSide, createdAt, rfl⟩ := hresolve
    obtain @⟨market, trades, orders, hfound, -, -, hsettled, -, hcredited, hsaved, -⟩ :=
      hres marketId winningSide createdAt rfl
    have hmid : market.id = marketId := Table.key_of_find? hfound
    subst hmid
    have hnow : t.markets.find? market.id = some
        { market with status := .RESOLVED, resolvedOutcome := some winningSide } :=
      Table.find?_update_self hsaved hfound
    exact h.credited hev hcredited (fun trade ht => (hsettled trade).mp ht) hnow rfl
  · exact h.of_appends hev (heff.noCredit fun marketId winningSide createdAt heq =>
      hresolve ⟨marketId, winningSide, createdAt, heq⟩)

end Effect

end OutcomeExchange
