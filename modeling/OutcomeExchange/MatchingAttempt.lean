import OutcomeExchange.OrderBookCalls
import OutcomeExchange.RestingBook

set_option autoImplicit false

/-! # A matching attempt by itself

While nobody else holds a row, `tryMatchOrder` for an open order finds the oldest order that
complements it and cannot fail to make a trade with it, and it does nothing only if there is
no such order. An attempt for the newest order of a book that is not crossed otherwise leaves
a book that is not crossed. -/

namespace OutcomeExchange

open Txn

/-- The counterparty query of `order` has a first row, which is `c`. -/
structure Db.OldestMatch (db : Db) (order c : Order) : Prop where
  row : c ∈ db.orders.rows
  complements : order.complements c = true
  oldest : ∀ o ∈ db.orders.rows, order.complements o = true → c.createdAt ≤ o.createdAt

/-- No order matches the counterparty query of `order`. -/
def Db.Unmatched (db : Db) (order : Order) : Prop :=
  ∀ o ∈ db.orders.rows, order.complements o = false

section Run

variable {busy : RowId → Bool} {s : Db} {order c : Order} {tradeId : Uuid}

theorem run_findCounterparty (hbusy : ∀ r, busy r = false) (order : Order) (s : Db) :
    (∃ c, s.OldestMatch order c ∧ (findCounterparty order).run busy s = .ok (some c, s)) ∨
      (s.Unmatched order ∧ (findCounterparty order).run busy s = .ok (none, s)) := by
  have hfree : ∀ r, ¬ busy r = true := fun r => by simp [hbusy r]
  have hreturns := (counterpartyQuery order).returns_first busy s
  have hrun : (findCounterparty order).run busy s =
      Prog.run busy (afterQuery ((counterpartyQuery order).first s
        (((counterpartyQuery order).scan s).filter fun r => !busy r))) s := rfl
  rw [hrun]
  cases hfirst : (counterpartyQuery order).first s
      (((counterpartyQuery order).scan s).filter fun r => !busy r) with
  | none =>
      rw [hfirst] at hreturns
      refine Or.inr ⟨fun o ho => ?_, rfl⟩
      by_contra hcomp
      rw [Bool.not_eq_false] at hcomp
      -- the query leaves out only rows that somebody holds
      refine hfree _ (hreturns (RowId.order o.id) ?_)
      exact mem_counterparties.mpr ⟨o, Table.find?_key ho, hcomp, rfl⟩
  | some r =>
      rw [hfirst] at hreturns
      obtain ⟨hmem, -, hmin⟩ := hreturns
      obtain ⟨c, hc, hcomp, rfl⟩ := mem_counterparties.mp hmem
      refine Or.inl ⟨c, ⟨Table.mem_of_find? hc, hcomp, fun o ho hcompo => ?_⟩, ?_⟩
      · have hle := hmin (RowId.order o.id)
          (mem_counterparties.mpr ⟨o, Table.find?_key ho, hcompo, rfl⟩) (hfree _)
        have hrank : ∀ {x : Order}, s.orders.find? x.id = some x →
            (counterpartyQuery order).rank (RowId.order x.id)
              (dbStore.slice (RowId.order x.id) s) = x.createdAt := by
          intro x hx
          have hslice : dbStore.slice (RowId.order x.id) s = some x := hx
          rw [hslice]
          rfl
        rw [hrank hc, hrank (Table.find?_key ho)] at hle
        exact hle
      · rw [afterQuery, run_findOrderForUpdate, hc]

/-- The orders of the new trade are the two that are matched. -/
theorem matchedTrade_has {id : Uuid} (h : (matchedTrade order c tradeId).Has id) :
    id = order.id ∨ id = c.id := by
  unfold matchedTrade Trade.Has at h
  cases hside : order.side with
  | YES =>
      simp only [hside, if_true, reduceCtorEq, if_false] at h
      exact h.imp Eq.symm Eq.symm
  | NO =>
      simp only [hside, if_true, reduceCtorEq, if_false] at h
      exact h.symm.imp Eq.symm Eq.symm

theorem matchedTrade_columns (hs : s.Coherent) (horder : s.orders.find? order.id = some order)
    (hcomp : order.complements c = true) :
    tradeColumns (matchedTrade order c tradeId) = true := by
  obtain ⟨-, -, hprice, -, -, -⟩ := Order.complements_iff.mp hcomp
  have hquantity : 0 < order.quantity := (Coherent.sound hs horder).quantity_pos
  unfold tradeColumns matchedTrade
  rw [Bool.and_eq_true, decide_eq_true_eq, decide_eq_true_eq]
  refine ⟨?_, hquantity⟩
  cases hside : order.side with
  | YES =>
      simp only [if_true, reduceCtorEq, if_false]
      omega
  | NO =>
      simp only [if_true, reduceCtorEq, if_false]
      omega

/-- Two open orders that complement each other can be made a trade: they belong to none, so
the unique constraints of `trades` have nothing against it. -/
theorem run_makeTrade (hs : s.Coherent) (horder : s.orders.find? order.id = some order)
    (hopen : order.status = .OPEN) (hc : s.orders.find? c.id = some c)
    (hcomp : order.complements c = true) (hnew : ∀ trade ∈ s.trades.rows, trade.id ≠ tradeId) :
    ∃ t, (makeTrade order c tradeId).run busy s = .ok (some ⟨matchedTrade order c tradeId,
      order.withStatus .MATCH_PENDING, c.withStatus .MATCH_PENDING⟩, t) := by
  obtain ⟨-, -, -, -, hopenc, hne⟩ := Order.complements_iff.mp hcomp
  obtain ⟨os, hos⟩ : ∃ os, s.orders.update? (order.withStatus .MATCH_PENDING) = some os :=
    Table.exists_update horder fun _ hclash => hclash
  have hc' : os.find? c.id = some c := by
    rw [Table.find?_update_of_ne hos (by simpa using hne), hc]
  obtain ⟨os', hos'⟩ : ∃ os', os.update? (c.withStatus .MATCH_PENDING) = some os' :=
    Table.exists_update hc' fun _ hclash => hclash
  -- the unique columns of the new trade: neither order has one yet
  have hnone : ∀ trade ∈ s.trades.rows, ∀ id, (matchedTrade order c tradeId).Has id →
      ¬ trade.Has id := by
    intro trade htrade id hid
    rcases matchedTrade_has hid with rfl | rfl
    · refine Coherent.not_has hs htrade horder ?_
      rw [hopen]
      exact OrderStatus.not_traded_open
    · refine Coherent.not_has hs htrade hc ?_
      rw [hopenc]
      exact OrderStatus.not_traded_open
  obtain ⟨ts, hts⟩ : ∃ ts, s.trades.insert? (matchedTrade order c tradeId) = some ts := by
    refine Table.exists_insert fun trade htrade hclash => ?_
    rcases hclash with hid | hyes | hno
    · exact hnew trade htrade hid
    · exact hnone trade htrade _ (Or.inl rfl) (Or.inl hyes)
    · exact hnone trade htrade _ (Or.inr rfl) (Or.inr hno)
  have hsave : (saveOrders [order.withStatus .MATCH_PENDING, c.withStatus .MATCH_PENDING]).run busy s =
      .ok ((), { s with orders := os' }) := by
    unfold saveOrders
    rw [Prog.run_bind (run_saveOrder hos)]
    unfold saveOrders
    rw [Prog.run_bind (run_saveOrder hos')]
    rfl
  unfold makeTrade
  dsimp only
  rw [Prog.run_bind hsave, matchedTrade_status]
  have hinsert : (insertTrade (matchedTrade order c tradeId)).run busy { s with orders := os' } =
      .ok ((), { s with orders := os', trades := ts }) :=
    run_insertTrade (matchedTrade_columns hs horder hcomp) hts
  rw [Prog.run_bind hinsert]
  exact ⟨_, rfl⟩

/-- **What an attempt by itself does**: for an open order it makes a trade with the oldest
order that complements it; it does nothing if there is none, or no open order. -/
theorem run_tryMatchOrder (hs : s.Coherent) (hbusy : ∀ r, busy r = false)
    (hnew : ∀ trade ∈ s.trades.rows, trade.id ≠ tradeId) (orderId : Uuid) :
    (∃ order c t, s.orders.find? orderId = some order ∧ order.status = .OPEN ∧
      s.OldestMatch order c ∧ (tryMatchOrder orderId tradeId).run busy s =
        .ok (some ⟨matchedTrade order c tradeId, order.withStatus .MATCH_PENDING,
          c.withStatus .MATCH_PENDING⟩, t)) ∨
      ((∀ order, s.orders.find? orderId = some order → order.status = .OPEN → s.Unmatched order) ∧
        (tryMatchOrder orderId tradeId).run busy s = .ok (none, s)) := by
  unfold tryMatchOrder
  rw [Prog.run_bind (run_findOrderForUpdate orderId)]
  cases hfound : s.orders.find? orderId with
  | none =>
      refine Or.inr ⟨?_, rfl⟩
      intro order horder
      cases horder
  | some order =>
      have hid : order.id = orderId := Table.key_of_find? hfound
      subst hid
      dsimp only
      -- an order that is not open is left alone
      by_cases hopen : order.status = .OPEN
      case neg =>
        rw [if_pos hopen]
        refine Or.inr ⟨fun order' horder' hopen' => ?_, rfl⟩
        cases horder'
        exact absurd hopen' hopen
      rw [if_neg (not_not.mpr hopen), matchOpenOrder]
      rcases run_findCounterparty hbusy order s with ⟨c, hc, hrun⟩ | ⟨hnone, hrun⟩
      · rw [Prog.run_bind hrun]
        obtain ⟨t, hmake⟩ : ∃ t, (makeTrade order c tradeId).run busy s = .ok (_, t) :=
          run_makeTrade hs hfound hopen (Table.find?_key hc.row) hc.complements hnew
        exact Or.inl ⟨order, c, t, rfl, hopen, hc, hmake⟩
      · rw [Prog.run_bind hrun]
        refine Or.inr ⟨fun order' horder' _ => ?_, rfl⟩
        cases horder'
        exact hnone

end Run

/-! ## What it does to the pairs that cross -/

/-- Every pair that crosses involves the order `id`. -/
def Db.CrossedOnlyAt (db : Db) (id : Uuid) : Prop :=
  ∀ a ∈ db.orders.rows, ∀ c ∈ db.orders.rows, a.Crosses c → a.id = id ∨ c.id = id

section Crossed

variable {s t : Db} {order c : Order} {orderId tradeId : Uuid}

theorem Order.crosses_of_complements (hopen : order.status = .OPEN)
    (hcomp : order.complements c = true) : order.Crosses c := by
  obtain ⟨hmarket, hside, hprice, hquantity, hopenc, -⟩ := Order.complements_iff.mp hcomp
  exact ⟨hopen, hopenc, hmarket, hside, hquantity, by omega⟩

/-- A pair that crosses is found by the counterparty query of either order. -/
theorem Order.Crosses.complements (ha : order ∈ s.orders.rows) (hc : c ∈ s.orders.rows)
    (h : order.Crosses c) : order.complements c = true := by
  obtain ⟨o, ho, hcomp, hrow⟩ := OutcomeExchange.mem_counterparties.mp (h.mem_counterparties ha hc)
  have hid : o.id = c.id := (RowId.order.inj hrow).symm
  rw [s.orders.eq_of_key hc (Table.mem_of_find? ho) hid.symm]
  exact hcomp

/-- No order of a book that is not crossed has anything to be matched with. -/
theorem unmatched_of_not_crossed (h : ¬ s.Crossed) (horder : order ∈ s.orders.rows)
    (hopen : order.status = .OPEN) : s.Unmatched order := by
  intro o ho
  by_contra hcomp
  rw [Bool.not_eq_false] at hcomp
  exact h ⟨order, horder, o, ho, Order.crosses_of_complements hopen hcomp⟩

/-- Pairs that cross only come from open orders. -/
theorem not_crossed_of_open (h : ¬ s.Crossed)
    (hopen : ∀ o ∈ t.orders.rows, o.status = .OPEN → o ∈ s.orders.rows) : ¬ t.Crossed := by
  rintro ⟨a, ha, b, hb, hcross⟩
  exact h ⟨a, hopen a ha hcross.1, b, hopen b hb hcross.2.1, hcross⟩

theorem crossedOnlyAt_of_not_crossed (h : ¬ s.Crossed) (id : Uuid) : s.CrossedOnlyAt id :=
  fun a ha b hb hcross => absurd ⟨a, ha, b, hb, hcross⟩ h

/-- The newest order is the only one that can cross others. -/
theorem crossedOnlyAt_of_insert (h : ¬ s.Crossed) {o : Order}
    (hin : s.orders.insert? o = some t.orders) : t.CrossedOnlyAt o.id := by
  intro a ha b hb hcross
  rcases (Table.mem_insert hin).mp ha with ha | rfl
  · rcases (Table.mem_insert hin).mp hb with hb | rfl
    · exact absurd ⟨a, ha, b, hb, hcross⟩ h
    · exact Or.inr rfl
  · exact Or.inl rfl

/-- An attempt that finds nothing leaves no pair that crosses. -/
theorem Db.CrossedOnlyAt.not_crossed (h : s.CrossedOnlyAt orderId)
    (hnone : ∀ order, s.orders.find? orderId = some order → order.status = .OPEN →
      s.Unmatched order) : ¬ s.Crossed := by
  -- the order of the pair that has this identifier finds the other
  have hfinds : ∀ {a b : Order}, a ∈ s.orders.rows → b ∈ s.orders.rows → a.Crosses b →
      a.id ≠ orderId := by
    intro a b ha hb hcross hid
    have hunmatched := hnone a (by rw [← hid]; exact Table.find?_key ha) hcross.1 b hb
    rw [hcross.complements ha hb] at hunmatched
    cases hunmatched
  rintro ⟨a, ha, b, hb, hcross⟩
  rcases h a ha b hb hcross with hid | hid
  · exact hfinds ha hb hcross hid
  · exact hfinds hb ha hcross.symm hid

theorem MatchedBy.trade_inserted {matched : Matched}
    (h : MatchedBy orderId tradeId s t matched) :
    s.trades.insert? matched.trade = some t.trades := by
  cases h with
  | intro _ _ _ _ _ _ _ inserted => exact inserted

/-- An attempt that makes a trade leaves no pair that crosses. -/
theorem MatchedBy.not_crossed {matched : Matched} (hmatched : MatchedBy orderId tradeId s t matched)
    (h : s.CrossedOnlyAt orderId) : ¬ t.Crossed := by
  have hset := hmatched.found.1
  have hid : matched.order.id = orderId := by
    cases hmatched with
    | intro found => exact Table.key_of_find? found
  -- an open order is none of the two, and so it was there before
  have hbefore : ∀ o ∈ t.orders.rows, o.status = .OPEN → o ∈ s.orders.rows ∧ o.id ≠ orderId := by
    intro o ho hopen
    obtain ⟨old, hold, ⟨-, rfl⟩ | ⟨hnot, rfl⟩⟩ := hset.find?_some (Table.find?_key ho)
    · cases hopen
    · refine ⟨Table.mem_of_find? hold, fun heq => hnot ?_⟩
      rw [hid]
      exact List.mem_cons.mpr (Or.inl heq)
  rintro ⟨a, ha, b, hb, hcross⟩
  obtain ⟨ha, hna⟩ := hbefore a ha hcross.1
  obtain ⟨hb, hnb⟩ := hbefore b hb hcross.2.1
  exact (h a ha b hb hcross).elim hna hnb

end Crossed

end OutcomeExchange
