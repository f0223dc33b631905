import OutcomeExchange.LifeCycle

set_option autoImplicit false

/-! # Trading after the close of a market

The market of an order is checked when the order is placed and never again: a matching
attempt that comes after the close of the market (because it was under way, or because an
earlier placement is replayed) still makes a trade. `QuietAfterClose` is the condition
that no attempt commits with the lock of a counterparty in a market that is not open. -/

namespace OutcomeExchange

open Txn

/-- A matching attempt for an open order, in a market that is not open, has not locked any
counterparty when it commits. -/
def QuietAfterClose (c : Conf dbStore Err Unit Action) : Event Action → Prop
  | .commit i => ∀ x ∈ c.session i, ∀ orderId tradeId, x.call = .tryMatchOrder orderId tradeId →
      ∀ order ∈ c.committed.orders.find? orderId, order.status = .OPEN →
        ∀ market ∈ c.committed.markets.find? order.marketId, market.status ≠ .OPEN →
          ∀ r ∈ counterparties order c.committed, r ∉ x.held
  | _ => True

/-- Every interleaving of all transactions in which no attempt does so. -/
def quietExchange : System (Conf dbStore Err Unit Action) (Event Action) :=
  (interleaved fun _ => True).restrict QuietAfterClose

/-- The trades of a market after `s` are those that it had in `s`. -/
def NoNewTrades (marketId : Uuid) (s t : Db) : Prop :=
  ∀ trade ∈ t.trades.rows, trade.marketId = marketId →
    ∃ trade' ∈ s.trades.rows, trade'.id = trade.id

section Closing

variable {s t : Db} {c c' : Conf dbStore Err Unit Action} {e : Event Action}

/-- A match changes the row of the counterparty. -/
theorem TradeMade.counterparty {orderId tradeId : Uuid} (h : TradeMade orderId tradeId s t) :
    ∃ order, s.orders.find? orderId = some order ∧ order.status = .OPEN ∧
      (∃ r ∈ counterparties order s, r.slice t ≠ r.slice s) ∧
      ∀ {id trade}, t.trades.find? id = some trade → s.trades.find? id = none →
        trade.marketId = order.marketId := by
  obtain @⟨order, other, os, hfound, hopen, hother, hcomp, hsaved, hsaved', -, hin, -⟩ := h
  have hid : order.id = orderId := Table.key_of_find? hfound
  subst hid
  refine ⟨order, hfound, hopen, ⟨.order other.id, mem_counterparties.mpr
    ⟨other, hother, hcomp, rfl⟩, ?_⟩, fun {id trade} ht hnone => ?_⟩
  · have hset := StatusSet.pair hfound hother hsaved hsaved'
    have hnow : t.orders.find? other.id = some (other.withStatus .MATCH_PENDING) :=
      hset.find?_mem (by simp) hother
    intro hslice
    have hsame : t.orders.find? other.id = s.orders.find? other.id := hslice
    rw [hnow, hother] at hsame
    have hst := congrArg Order.status (Option.some.inj hsame)
    rw [(Order.complements_iff.mp hcomp).2.2.2.2.1] at hst
    cases hst
  · rw [Table.find?_insert hin] at ht
    by_cases hid : Row.key (matchedTrade order other tradeId) = id
    · rw [if_pos hid] at ht
      cases ht
      rfl
    · rw [if_neg hid, hnone] at ht
      cases ht

/-- One event makes no trade in a market that is not open. -/
theorem QuietAfterClose.no_trade (hq : QuietAfterClose c e)
    (h : (interleaved fun _ => True).Reachable c) (hst : (interleaved fun _ => True).step c e c')
    {id : Uuid} {trade : Trade} (ht : c'.committed.trades.find? id = some trade) {market : Market}
    (hm : c.committed.markets.find? trade.marketId = some market) (hclosed : market.status ≠ .OPEN) :
    ∃ trade', c.committed.trades.find? id = some trade' := by
  rcases interleaved_step h hst with hsame | ⟨i, x, rfl, hx, -, heff, hframe⟩
  · exact ⟨trade, hsame ▸ ht⟩
  by_cases hmatch : ∃ orderId tradeId, x.call = .tryMatchOrder orderId tradeId
  · obtain ⟨orderId, tradeId, hcall⟩ := hmatch
    rw [hcall] at heff
    rcases heff with hsame | hmade
    · exact ⟨trade, hsame ▸ ht⟩
    · obtain ⟨order, hfound, hopen, ⟨r, hr, hchanged⟩, hmarket⟩ := hmade.counterparty
      cases hold : c.committed.trades.find? id with
      | some trade' => exact ⟨trade', rfl⟩
      | none =>
          -- the row of the counterparty has changed, so the attempt held its lock
          have hheld : r ∈ x.held := by
            by_contra hfree
            exact hchanged (hframe r hfree)
          rw [hmarket ht hold] at hm
          exact absurd hheld (hq x hx orderId tradeId hcall order hfound hopen market hm hclosed r hr)
  · exact heff.trade_before (fun orderId tradeId heq => hmatch ⟨orderId, tradeId, heq⟩) ht

end Closing

/-- **No trading after the close**, in every interleaving whose matching attempts have not
locked a counterparty when they commit in a market that is not open. -/
theorem no_trade_after_close {c c' : Conf dbStore Err Unit Action} {ls : List (Event Action)}
    (h : quietExchange.Reachable c) (hrun : quietExchange.Run c ls c') {marketId : Uuid}
    {market : Market} (hm : c.committed.markets.find? marketId = some market)
    (hclosed : market.status ≠ .OPEN) : NoNewTrades marketId c.committed c'.committed := by
  have hkept : (∃ market, c'.committed.markets.find? marketId = some market ∧
      market.status ≠ .OPEN) ∧ NoNewTrades marketId c.committed c'.committed := by
    refine hrun.preserves (fun d => (∃ market, d.committed.markets.find? marketId = some market ∧
      market.status ≠ .OPEN) ∧ NoNewTrades marketId c.committed d.committed) ?_ h
      ⟨⟨market, hm, hclosed⟩, fun trade ht _ => ⟨trade, ht, rfl⟩⟩
    rintro d e d' hd ⟨⟨market, hm, hclosed⟩, hold⟩ ⟨hq, hst⟩
    refine ⟨(interleaved_evolves hd.of_restrict hst).not_open hm hclosed, fun trade ht hmarket => ?_⟩
    obtain ⟨trade', ht'⟩ := hq.no_trade hd.of_restrict hst (Table.find?_key ht)
      (by rw [hmarket]; exact hm) hclosed
    have hrow := Table.mem_of_find? ht'
    have hid : trade'.id = trade.id := Table.key_of_find? ht'
    -- a trade never changes its market
    obtain ⟨later, hlater, st, rfl, -⟩ :=
      (interleaved_evolves hd.of_restrict hst).trades ht'
    have hsame : d'.committed.trades.find? trade.id = some trade := Table.find?_key ht
    rw [show (Row.key trade : Uuid) = trade.id from rfl, hsame] at hlater
    cases hlater
    obtain ⟨first, hfirst, hfid⟩ := hold trade' hrow hmarket
    exact ⟨first, hfirst, hfid.trans hid⟩
  exact hkept.2

/-- An attempt for an order whose market is open. -/
def Action.inOpenMarket (s : Db) : Action → Bool
  | .tryMatchOrder orderId _ => (s.orders.find? orderId).all fun order =>
      (s.markets.find? order.marketId).all fun market => market.status = .OPEN
  | _ => true

theorem quietAfterClose_of_open {s : Db} {a : Action} {y : Session dbStore Err Unit Action}
    (h : a.inOpenMarket s = true) (hy : y.call = a) :
    QuietAfterClose (Conf.alone s y) (.commit 0) := by
  rintro x hx orderId tradeId hcall order horder - market hm hclosed
  have hxy : y = x := Option.some.inj ((Conf.alone_session s y).symm.trans hx)
  subst hxy hy
  rw [hcall] at h
  have horder' : s.orders.find? orderId = some order := horder
  have hm' : s.markets.find? order.marketId = some market := hm
  simp only [Action.inOpenMarket, horder', hm', Option.all_some, decide_eq_true_eq] at h
  exact absurd h hclosed

/-- A run that goes on after a state, for which the attempts are in open markets. -/
theorem quietExchange_of_leads {as bs : List Action} {p : Db → Db → Bool}
    (h : leads (fun s a => a.inOpenMarket s) as
      (fun s => leadsFrom (fun s a => a.inOpenMarket s) bs (p s) s) = true) :
    ∃ s t ls, quietExchange.Reachable (Conf.idle s) ∧
      quietExchange.Run (Conf.idle s) ls (Conf.idle t) ∧ p s t = true := by
  obtain ⟨s, hs, h⟩ := exists_of_leads h
  obtain ⟨t, ht, hp⟩ := exists_of_leads h
  have quiet : ∀ {as s t}, runWhere (fun s a => a.inOpenMarket s) as s = .ok t →
      ∃ ls, quietExchange.Run (Conf.idle s) ls (Conf.idle t) := by
    intro as s t hrun
    exact interleaved_of_runWhere (fun _ _ _ => trivial) (fun _ _ _ => trivial)
      (fun _ _ => trivial) (fun _ _ _ ha hy => quietAfterClose_of_open ha hy) hrun
  obtain ⟨ls, hbefore⟩ := quiet hs
  obtain ⟨ls', hafter⟩ := quiet ht
  exact ⟨s, t, ls', hbefore.reachable (.init ⟨rfl, fun _ => rfl⟩), hafter, hp⟩

/-- A market with a trade is closed, and the trade is settled afterwards. -/
theorem no_trade_after_close_sample : ∃ s t : Db, NoNewTrades Sample.market s t ∧
    s.trades.rows.length = 1 ∧ s.trades.rows ≠ t.trades.rows := by
  obtain ⟨s, t, ls, hs, hrun, hp⟩ := quietExchange_of_leads
    (show leads (fun s a => a.inOpenMarket s) (Sample.matching ++ [.closeMarket Sample.market 4])
      (fun s => leadsFrom (fun s a => a.inOpenMarket s) [.handleSettlement Sample.trade 5]
        (fun t => (s.markets.find? Sample.market).any (fun market => market.status ≠ .OPEN) &&
          s.trades.rows.length = 1 && s.trades.rows ≠ t.trades.rows) s) = true by decide +kernel)
  simp only [Bool.and_eq_true, decide_eq_true_eq, Option.any_eq_true] at hp
  obtain ⟨⟨⟨market, hm, hclosed⟩, hlength⟩, hchanged⟩ := hp
  exact ⟨s, t, no_trade_after_close hs hrun hm hclosed, hlength, hchanged⟩

/-- Two orders are placed, the market is closed, and the attempt for the second of them
comes after it. -/
theorem trade_after_close : ¬ ∀ c c' ls, (interleaved fun _ => True).Reachable c →
    (interleaved fun _ => True).Run c ls c' → ∀ marketId market,
      c.committed.markets.find? marketId = some market → market.status ≠ .OPEN →
        NoNewTrades marketId c.committed c'.committed := by
  intro hall
  obtain ⟨s, hs, hlater⟩ := exists_of_leads
    (show leads (fun _ _ => true) (Sample.opening ++
        [ .placeOrder Sample.alice Sample.yesDto Sample.yesOrder 2 2
        , .placeOrder Sample.bob Sample.noDto Sample.noOrder 3 3, .closeMarket Sample.market 4 ])
      (fun s => leadsFrom (fun _ _ => true) [.tryMatchOrder Sample.noOrder Sample.trade]
        (fun t => (s.markets.find? Sample.market).any (fun market => market.status ≠ .OPEN) &&
          s.trades.rows = [] && t.trades.rows.any (fun trade => trade.marketId = Sample.market)) s)
        = true by decide +kernel)
  obtain ⟨t, ht, hp⟩ := exists_of_leads hlater
  simp only [Bool.and_eq_true, decide_eq_true_eq, Option.any_eq_true, List.any_eq_true] at hp
  obtain ⟨⟨⟨market, hm, hclosed⟩, hnone⟩, trade, htrade, hmarket⟩ := hp
  obtain ⟨ls, hbefore⟩ := interleaved_run (A := fun _ => True) (fun _ _ _ => trivial) hs
  obtain ⟨ls', hafter⟩ := interleaved_run (A := fun _ => True) (fun _ _ _ => trivial) ht
  obtain ⟨old, hold, -⟩ := hall _ _ _ (hbefore.reachable interleaved_idle_empty) hafter
    Sample.market market hm hclosed trade htrade hmarket
  have hrows : old ∈ s.trades.rows := hold
  rw [hnone] at hrows
  cases hrows

end OutcomeExchange
