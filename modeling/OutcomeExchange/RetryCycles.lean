import OutcomeExchange.Collateral
import Mathlib.Algebra.Group.Prod
import Mathlib.Tactic.Abel

set_option autoImplicit false

/-! # Failures and retries of a trade

A trade whose settlement failed gives its collateral back, and a retry takes it again, any
number of times. `Cycles` is what can befall a matched trade: its failures and retries, and
whatever else the exchange does in between.

A movement whose key the owner's wallet has used already is taken for a replay, and none of
the keys says which attempt it belongs to. So a failure and a retry are exact inverses as
long as no path is taken twice (`fail_retry_exact`). -/

namespace OutcomeExchange

open Txn

/-! ## Balances -/

/-- What a movement for the whole collateral of the order does to the balances of a user. -/
def Order.moves (o : Order) (entryType : WalletEntryType) (u : Uuid) : ℤ × ℤ :=
  if o.userId = u then entryType.effect o.reservedCents else 0

/-- What a retry takes is what a failure gives back. -/
theorem Order.moves_reserve (o : Order) (u : Uuid) :
    o.moves .RESERVE u = -o.moves .RELEASE u := by
  unfold Order.moves
  by_cases hu : o.userId = u
  · simp [hu, WalletEntryType.effect]
  · simp [hu]

theorem Order.moves_reserve_self (o : Order) : (o.moves .RESERVE o.userId).2 = o.reservedCents := by
  simp [Order.moves, WalletEntryType.effect]

theorem Order.moves_reserve_nonneg (o : Order) (hpos : 0 < o.reservedCents) (u : Uuid) :
    0 ≤ (o.moves .RESERVE u).2 := by
  unfold Order.moves
  by_cases hu : o.userId = u
  · simp only [hu, if_true, WalletEntryType.effect]
    omega
  · simp [hu]

/-! ## The steps of a cycle -/

/-- The two paths on which a trade fails, and its retry. -/
inductive CycleStep
  | markSettlementFailure
  | failPendingTradeAndReleaseFunds
  | prepareTradeForRetry
  deriving DecidableEq

namespace CycleStep

def action (tradeId : Uuid) (createdAt : Timestamp) : CycleStep → Action
  | markSettlementFailure => .markSettlementFailure tradeId createdAt
  | failPendingTradeAndReleaseFunds => .failPendingTradeAndReleaseFunds tradeId createdAt
  | prepareTradeForRetry => .prepareTradeForRetry tradeId createdAt

/-- The status of the trade that the step changes; with another one it does nothing. -/
def finds : CycleStep → TradeStatus
  | markSettlementFailure => .PENDING_SETTLEMENT
  | failPendingTradeAndReleaseFunds => .PENDING_SETTLEMENT
  | prepareTradeForRetry => .FAILED

def move (createdAt : Timestamp) : CycleStep → TradeMove
  | markSettlementFailure => settlementFailureMove createdAt
  | failPendingTradeAndReleaseFunds => failPendingMove createdAt
  | prepareTradeForRetry => retryMove createdAt

def entryType : CycleStep → WalletEntryType
  | markSettlementFailure => .RELEASE
  | failPendingTradeAndReleaseFunds => .RELEASE
  | prepareTradeForRetry => .RESERVE

/-- The key of the movement for the order on a side. -/
def key (side : OutcomeSide) (orderId : Uuid) : CycleStep → TradeKey
  | markSettlementFailure => .release side
  | failPendingTradeAndReleaseFunds => .enqueueRelease orderId
  | prepareTradeForRetry => .retryReserve orderId

/-- The wallets of the two owners have not used the keys of the step. -/
def KeysNew (l : CycleStep) (tradeId : Uuid) (yes no : Order) (L : Ledger) : Prop :=
  ¬ L.KeyUsed yes.userId (EngineKey.trade tradeId (l.key .YES yes.id)).text ∧
    ¬ L.KeyUsed no.userId (EngineKey.trade tradeId (l.key .NO no.id)).text

theorem moves (l : CycleStep) (createdAt : Timestamp) :
    (l.move createdAt).Moves l.finds l.entryType := by
  cases l with
  | markSettlementFailure => exact settlementFailureMove_moves createdAt
  | failPendingTradeAndReleaseFunds => exact failPendingMove_moves createdAt
  | prepareTradeForRetry => exact retryMove_moves createdAt

theorem movement_key (l : CycleStep) (createdAt : Timestamp) (side : OutcomeSide) (trade : Trade)
    (o : Order) : ((l.move createdAt).movement side trade o).idempotencyKey =
      (EngineKey.trade trade.id (l.key side o.id)).text := by
  cases l <;> rfl

section Step

variable {s t : Db} {l : CycleStep} {tradeId : Uuid} {createdAt : Timestamp} {trade : Trade}
  {yes no : Order}

/-- A step that commits moves the trade that it finds in its status. -/
theorem movedFrom {busy : RowId → Prop} {u : Unit}
    (h : Exec (.serial busy) (l.action tradeId createdAt).prog s u t)
    (hfound : s.trades.find? tradeId = some trade) (hst : trade.status = l.finds) :
    MovedFrom l.finds (l.move createdAt) tradeId s t := by
  cases l with
  | markSettlementFailure =>
      obtain ⟨r, h⟩ := exec_discard.mp h
      rcases exec_markSettlementFailure h with ⟨-, hnot⟩ | hmoved
      · rcases hnot with hstale | hnot
        · exact hstale.elim
        · exact absurd hst (hnot trade hfound)
      · exact hmoved
  | failPendingTradeAndReleaseFunds =>
      obtain ⟨r, h⟩ := exec_discard.mp h
      rcases exec_failPendingTradeAndReleaseFunds h with ⟨-, hnot⟩ | hmoved
      · rcases hnot with hstale | hnot
        · exact hstale.elim
        · exact absurd hst (hnot trade hfound)
      · exact hmoved
  | prepareTradeForRetry =>
      obtain ⟨r, h⟩ := exec_discard.mp h
      rcases exec_prepareTradeForRetry h with ⟨-, ⟨trade', hfound', hpending⟩, -⟩ | ⟨hmoved, -⟩
      · rw [hfound] at hfound'
        cases hfound'
        rw [hst] at hpending
        cases hpending
      · exact hmoved

/-- The two movements of a step, as the tables have it. -/
theorem mutated (h : MovedFrom l.finds (l.move createdAt) tradeId s t)
    (hfound : s.trades.find? tradeId = some trade)
    (hyes : s.orders.find? trade.yesOrderId = some yes)
    (hno : s.orders.find? trade.noOrderId = some no) :
    ∃ L, Mutated ((l.move createdAt).movement .YES trade yes) s.ledger L ∧
      Mutated ((l.move createdAt).movement .NO trade no) L t.ledger := by
  obtain ⟨trade', hfound', -, hmoved⟩ := h
  rw [hfound] at hfound'
  cases hfound'
  obtain @⟨y, n, L, os, hy, hn, -, hmut, hmut', -⟩ := hmoved
  rw [hyes] at hy
  rw [hno] at hn
  cases hy
  cases hn
  exact ⟨L, hmut, hmut'⟩

/-- The keys of the two movements of a step are different. -/
theorem keys_ne (l : CycleStep) (tradeId : Uuid) (hne : yes.id ≠ no.id) :
    (EngineKey.trade tradeId (l.key .YES yes.id)).text ≠
      (EngineKey.trade tradeId (l.key .NO no.id)).text := by
  intro htext
  have hkey := EngineKey.text_injective htext
  cases l with
  | markSettlementFailure => cases hkey
  | failPendingTradeAndReleaseFunds =>
      simp only [key, EngineKey.trade.injEq, TradeKey.enqueueRelease.injEq, true_and] at hkey
      exact hne hkey
  | prepareTradeForRetry =>
      simp only [key, EngineKey.trade.injEq, TradeKey.retryReserve.injEq, true_and] at hkey
      exact hne hkey

/-- **What a step moves**: the collateral of an order, unless the key is used. -/
theorem balances_eq (h : MovedFrom l.finds (l.move createdAt) tradeId s t)
    (hfound : s.trades.find? tradeId = some trade)
    (hyes : s.orders.find? trade.yesOrderId = some yes)
    (hno : s.orders.find? trade.noOrderId = some no) (hne : yes.id ≠ no.id) (u : Uuid) :
    t.ledger.balances u = s.ledger.balances u +
      (if s.ledger.KeyUsed yes.userId (EngineKey.trade tradeId (l.key .YES yes.id)).text then 0
        else yes.moves l.entryType u) +
      (if s.ledger.KeyUsed no.userId (EngineKey.trade tradeId (l.key .NO no.id)).text then 0
        else no.moves l.entryType u) := by
  have hid : trade.id = tradeId := Table.key_of_find? hfound
  have hv := l.moves createdAt
  obtain ⟨L, hmut, hmut'⟩ := mutated h hfound hyes hno
  have hL := hmut.balances_eq (hv.amount .YES trade yes) u
  have ht := hmut'.balances_eq (hv.amount .NO trade no) u
  -- the first movement does not use the key of the second
  have hsecond : L.KeyUsed no.userId (EngineKey.trade tradeId (l.key .NO no.id)).text ↔
      s.ledger.KeyUsed no.userId (EngineKey.trade tradeId (l.key .NO no.id)).text := by
    apply hmut.keyUsed_of_ne
    rw [hv.storedKey, movement_key, hid]
    exact (keys_ne l tradeId hne).symm
  rw [hv.userId, hv.entryType, movement_key, hid] at hL ht
  rw [ht, hL]
  simp only [hsecond, Order.moves]

/-- Afterwards the key of the second movement is used. -/
theorem key_used (h : MovedFrom l.finds (l.move createdAt) tradeId s t)
    (hfound : s.trades.find? tradeId = some trade)
    (hyes : s.orders.find? trade.yesOrderId = some yes)
    (hno : s.orders.find? trade.noOrderId = some no) :
    t.ledger.KeyUsed no.userId (EngineKey.trade tradeId (l.key .NO no.id)).text := by
  have hid : trade.id = tradeId := Table.key_of_find? hfound
  obtain ⟨L, -, hmut⟩ := mutated h hfound hyes hno
  have hused := hmut.keyUsed
  rw [(l.moves createdAt).userId, (l.moves createdAt).storedKey, movement_key, hid] at hused
  exact hused

/-- A step is exact if and only if its keys are new. -/
theorem exact_iff (h : MovedFrom l.finds (l.move createdAt) tradeId s t)
    (hfound : s.trades.find? tradeId = some trade)
    (hyes : s.orders.find? trade.yesOrderId = some yes)
    (hno : s.orders.find? trade.noOrderId = some no) (hne : yes.id ≠ no.id)
    (hposy : 0 < yes.reservedCents) (hposn : 0 < no.reservedCents) :
    (∀ u, t.ledger.balances u = s.ledger.balances u + yes.moves l.entryType u +
        no.moves l.entryType u) ↔ l.KeysNew tradeId yes no s.ledger := by
  have heq := balances_eq h hfound hyes hno hne
  constructor
  · intro hexact
    -- a movement that did not happen is missing from the reserved balance of its owner
    constructor
    · intro hused
      have hu := congrArg Prod.snd ((hexact yes.userId).symm.trans (heq yes.userId))
      rw [if_pos hused] at hu
      cases l <;> simp [Order.moves, entryType, WalletEntryType.effect] at hu <;>
        split at hu <;> split at hu <;> simp at hu <;> omega
    · intro hused
      have hu := congrArg Prod.snd ((hexact no.userId).symm.trans (heq no.userId))
      rw [if_pos hused] at hu
      cases l <;> simp [Order.moves, entryType, WalletEntryType.effect] at hu <;>
        split at hu <;> split at hu <;> simp at hu <;> omega
  · rintro ⟨hnewy, hnewn⟩ u
    rw [heq u, if_neg hnewy, if_neg hnewn]

end Step

end CycleStep

/-! ## The history of a trade -/

/-- The call that places an order, with the identifier and the times of its database. -/
structure Placement where
  userId : Uuid
  dto : PlaceOrderDto
  orderId : Uuid
  now : Timestamp
  createdAt : Timestamp

def Placement.action (p : Placement) : Action :=
  .placeOrder p.userId p.dto p.orderId p.now p.createdAt

/-- The wallet has not used the key of the reserve. -/
def Placement.KeyNew (p : Placement) (L : Ledger) : Prop :=
  ¬ L.KeyUsed p.userId (EngineKey.orderReserve p.dto.idempotencyKey).text

/-- The order is new and the placement commits. -/
structure Placement.Commits (p : Placement) (s t : Db) : Prop where
  step : exchange.step s (.committed p.action) t
  absent : s.orders.find? p.orderId = none
  present : t.orders.find? p.orderId ≠ none

/-- A matched trade with its history: its two orders are placed, and matched, and anything
may happen in between. -/
structure MatchedTrade where
  trade : Trade
  yes : Order
  no : Order
  first : Placement
  second : Placement
  {firstStart firstPlaced secondStart secondPlaced matchStart matched : Db}
  reachable : exchange.Reachable firstStart
  places : first.Commits firstStart firstPlaced
  waits : ∃ cs, exchange.Run firstPlaced cs secondStart
  places' : second.Commits secondStart secondPlaced
  waits' : ∃ cs, exchange.Run secondPlaced cs matchStart
  matching : ∃ orderId,
    exchange.step matchStart (.committed (.tryMatchOrder orderId trade.id)) matched
  absent : matchStart.trades.find? trade.id = none
  found : matched.trades.find? trade.id = some trade
  yesFound : matched.orders.find? trade.yesOrderId = some yes
  noFound : matched.orders.find? trade.noOrderId = some no
  has : trade.Has first.orderId ∧ trade.Has second.orderId

/-- What others have moved in the wallet of a user until the match. -/
def MatchedTrade.meanwhile (h : MatchedTrade) (u : Uuid) : ℤ × ℤ :=
  (h.secondStart.ledger.balances u - h.firstPlaced.ledger.balances u) +
    (h.matchStart.ledger.balances u - h.secondPlaced.ledger.balances u)

/-- A failure or a retry that was committed, with the states around it. -/
structure Cycled where
  before : Db
  step : CycleStep
  after : Db

/-- A run of the exchange from `s`: the failures and retries of the trade that it commits,
and what all its other steps move in the wallet of each user. -/
inductive Cycles (tradeId : Uuid) (s : Db) : List Cycled → (Uuid → ℤ × ℤ) → Db → Prop
  | start : Cycles tradeId s [] (fun _ => 0) s
  | cycle {xs : List Cycled} {others : Uuid → ℤ × ℤ} {t t' : Db} {l : CycleStep}
      {createdAt : Timestamp} {trade : Trade} (h : Cycles tradeId s xs others t)
      (hfound : t.trades.find? tradeId = some trade) (hst : trade.status = l.finds)
      (hstep : exchange.step t (.committed (l.action tradeId createdAt)) t') :
      Cycles tradeId s (xs ++ [⟨t, l, t'⟩]) others t'
  | other {xs : List Cycled} {others : Uuid → ℤ × ℤ} {t t' : Db} {c : Call}
      (h : Cycles tradeId s xs others t)
      (hother : ∀ l createdAt, c = .committed (CycleStep.action tradeId createdAt l) →
        ∀ trade ∈ t.trades.find? tradeId, trade.status ≠ l.finds)
      (hstep : exchange.step t c t') :
      Cycles tradeId s xs (fun u => others u + (t'.ledger.balances u - t.ledger.balances u)) t'

/-- Failures and retries are exact inverses: each moves the collateral of both orders, after
`n` full cycles the balances are those right after the match, and after one more failure
those before the orders were placed, apart from what others have moved. -/
structure MatchedTrade.ExactInverses (h : MatchedTrade) (xs : List Cycled)
    (others : Uuid → ℤ × ℤ) (t : Db) : Prop where
  steps : ∀ x ∈ xs, ∀ u, x.after.ledger.balances u = x.before.ledger.balances u +
    h.yes.moves x.step.entryType u + h.no.moves x.step.entryType u
  rearmed : ∀ n, xs.length = 2 * n → ∀ u,
    t.ledger.balances u = h.matched.ledger.balances u + others u
  failed : ∀ n, xs.length = 2 * n + 1 → ∀ u,
    t.ledger.balances u = h.firstStart.ledger.balances u + (h.meanwhile u + others u)

/-- All keys of the failures and retries are new where they are used; if the last step is a
failure, so were those of the two placements. -/
structure MatchedTrade.KeysNew (h : MatchedTrade) (xs : List Cycled) : Prop where
  steps : ∀ x ∈ xs, x.step.KeysNew h.trade.id h.yes h.no x.before.ledger
  placements : ∀ n, xs.length = 2 * n + 1 →
    h.first.KeyNew h.firstStart.ledger ∧ h.second.KeyNew h.secondStart.ledger

/-! ## What keeps the trade in its cycle -/

/-- Whatever is no step of its cycle leaves a trade alone, or settles it. -/
theorem Action.Effect.trade_kept {m : Mode RowId} {s t : Db} {a : Action} (h : a.Effect m s t)
    {tradeId : Uuid} {trade : Trade} (hfound : s.trades.find? tradeId = some trade)
    (hother : ∀ l createdAt, a = CycleStep.action tradeId createdAt l → trade.status ≠ l.finds) :
    ∃ st, t.trades.find? tradeId = some (trade.withStatus st) ∧
      (st = trade.status ∨ st = .SETTLED) := by
  by_cases hleaves : a.leavesTrades = true
  · exact ⟨trade.status, by rw [h.trades_eq hleaves, hfound]; rfl, Or.inl rfl⟩
  have same : t = s → ∃ st, t.trades.find? tradeId = some (trade.withStatus st) ∧
      (st = trade.status ∨ st = .SETTLED) := by
    rintro rfl
    exact ⟨trade.status, hfound, Or.inl rfl⟩
  -- the step moves another trade, or is a settlement
  have moved : ∀ {st : TradeStatus} {v : TradeMove} {id : Uuid}, MovedFrom st v id s t →
      (id = tradeId → trade.status = st → v.tradeStatus = .SETTLED) →
      ∃ st, t.trades.find? tradeId = some (trade.withStatus st) ∧
        (st = trade.status ∨ st = .SETTLED) := by
    intro st v id hmoved hsettles
    obtain ⟨old, hold, hst, hfind⟩ := hmoved.find?_trade
    rw [hfind]
    by_cases hid : tradeId = id
    · subst hid
      rw [hfound] at hold
      cases hold
      exact ⟨v.tradeStatus, if_pos rfl, Or.inr (hsettles rfl hst)⟩
    · exact ⟨trade.status, by rw [if_neg hid, hfound]; rfl, Or.inl rfl⟩
  cases a with
  | tryMatchOrder orderId id =>
      refine h.elim same fun hmade => ?_
      obtain ⟨made, -, -, -, -, -, -, -, -, -, -, hin⟩ := hmade.paired
      exact ⟨trade.status, Table.find?_insert_of_some hin hfound, Or.inl rfl⟩
  | failPendingTradeAndReleaseFunds id createdAt =>
      refine h.elim same fun hmove => moved hmove fun hid hst => ?_
      exact absurd hst (hother .failPendingTradeAndReleaseFunds createdAt (by rw [hid]; rfl))
  | handleSettlement id createdAt => exact h.elim same fun hmove => moved hmove fun _ _ => rfl
  | markSettlementFailure id createdAt =>
      refine h.elim same fun hmove => moved hmove fun hid hst => ?_
      exact absurd hst (hother .markSettlementFailure createdAt (by rw [hid]; rfl))
  | prepareTradeForRetry id createdAt =>
      refine h.elim same fun hmove => moved hmove fun hid hst => ?_
      exact absurd hst (hother .prepareTradeForRetry createdAt (by rw [hid]; rfl))
  | reopenOrders orders => exact same h
  | _ => exact absurd rfl hleaves

/-! ## The orders of the trade -/

section Steps

variable {s t : Db} {c : Call}

theorem exchange_step (hs : s.Coherent) (hstep : exchange.step s c t) :
    t.Coherent ∧ Evolves s t := by
  cases c with
  | rolledBack a =>
      rw [show t = s from hstep]
      exact ⟨hs, Evolves.refl s⟩
  | committed a =>
      obtain ⟨hstarts, busy, hexec⟩ := hstep
      have heff := exec_effect (hstarts.nil hs) hexec
      exact ⟨hs.effect heff, heff.evolves hs⟩

/-- An order keeps its terms. -/
theorem Evolves.order_kept (h : Evolves s t) {id : Uuid} {o : Order} {st : OrderStatus}
    (ho : s.orders.find? id = some (o.withStatus st)) :
    ∃ st', t.orders.find? id = some (o.withStatus st') := by
  obtain ⟨o', ho', st', rfl, -⟩ := h.orders ho
  exact ⟨st', ho'⟩

theorem exchange_run {cs : List Call} (hs : s.Coherent) (hrun : exchange.Run s cs t) :
    t.Coherent ∧ ∀ {id : Uuid} {o : Order} {st : OrderStatus},
      s.orders.find? id = some (o.withStatus st) →
        ∃ st', t.orders.find? id = some (o.withStatus st') := by
  induction hrun with
  | nil => exact ⟨hs, fun {id o st} ho => ⟨st, ho⟩⟩
  | snoc _ hstep ih =>
      obtain ⟨hcoh, hev⟩ := exchange_step ih.1 hstep
      refine ⟨hcoh, fun {id o st} ho => ?_⟩
      obtain ⟨st', ho'⟩ := ih.2 ho
      exact hev.order_kept ho'

/-- The order of a placement. -/
def Placement.order (p : Placement) : Order := p.dto.order p.userId p.orderId p.createdAt

theorem Placement.Commits.placed {p : Placement} (h : p.Commits s t) :
    Placed p.userId p.dto p.orderId p.now p.createdAt s t := by
  obtain ⟨⟨-, busy, hexec⟩, habsent, hpresent⟩ := h
  obtain ⟨r, hexec⟩ := exec_discard.mp hexec
  rcases exec_placeOrder hexec with ⟨rfl, -⟩ | ⟨-, hplaced, -⟩
  · exact absurd habsent hpresent
  · exact hplaced

theorem Placement.Commits.found {p : Placement} (h : p.Commits s t) :
    t.orders.find? p.orderId = some (p.order.withStatus .OPEN) := by
  rw [Table.find?_insert h.placed.inserted]
  exact if_pos rfl

theorem Placement.Commits.balances_eq {p : Placement} (h : p.Commits s t) (u : Uuid) :
    t.ledger.balances u = s.ledger.balances u +
      if s.ledger.KeyUsed p.userId (EngineKey.orderReserve p.dto.idempotencyKey).text then 0
      else p.order.moves .RESERVE u :=
  h.placed.reserved.balances_eq rfl u

end Steps

namespace MatchedTrade

variable (h : MatchedTrade)

theorem coherent_placed : h.secondPlaced.Coherent := by
  have hstart := (exchange_invariant (fun _ => True) trivial (fun _ _ _ _ _ _ _ _ _ => trivial)
    h.reachable.restrict_true).1
  obtain ⟨cs, hrun⟩ := h.waits
  exact (exchange_step (exchange_run (exchange_step hstart h.places.step).1 hrun).1
    h.places'.step).1

theorem coherent_matchStart : h.matchStart.Coherent := by
  obtain ⟨cs, hrun⟩ := h.waits'
  exact (exchange_run h.coherent_placed hrun).1

theorem made : ∃ orderId, TradeMade orderId h.trade.id h.matchStart h.matched := by
  obtain ⟨orderId, -, busy, hexec⟩ := h.matching
  obtain ⟨r, hexec⟩ := exec_discard.mp hexec
  rcases exec_tryMatchOrder hexec with ⟨-, hsame⟩ | ⟨-, hmade⟩
  · have hfound := h.found
    rw [hsame, h.absent] at hfound
    cases hfound
  · exact ⟨orderId, hmade⟩

theorem coherent : h.matched.Coherent := by
  obtain ⟨orderId, hmade⟩ := h.made
  exact hmade.coherent h.coherent_matchStart

theorem pending : h.trade.status = .PENDING_SETTLEMENT := by
  obtain ⟨orderId, hmade⟩ := h.made
  obtain ⟨made, -, -, hid, hst, -, -, -, -, -, -, hin⟩ := hmade.paired
  have hfound := h.found
  rw [Table.find?_insert hin, key_trade, hid, if_pos rfl] at hfound
  cases hfound
  exact hst

/-- The two orders of the trade are those that were placed. -/
theorem terms : ∃ st st',
    (h.yes = h.first.order.withStatus st ∧ h.no = h.second.order.withStatus st') ∨
      (h.yes = h.second.order.withStatus st' ∧ h.no = h.first.order.withStatus st) := by
  have hstart := (exchange_invariant (fun _ => True) trivial (fun _ _ _ _ _ _ _ _ _ => trivial)
    h.reachable.restrict_true).1
  obtain ⟨cs, hwaits⟩ := h.waits
  obtain ⟨cs', hwaits'⟩ := h.waits'
  obtain ⟨orderId, hmatching⟩ := h.matching
  have hplaced := (exchange_step hstart h.places.step).1
  have hsecond := exchange_run hplaced hwaits
  have hrest := exchange_run h.coherent_placed hwaits'
  have hmatch := exchange_step hrest.1 hmatching
  -- follow both orders from their placement to the match
  obtain ⟨st₁, h₁⟩ := hsecond.2 h.places.found
  obtain ⟨st₂, h₂⟩ := (exchange_step hsecond.1 h.places'.step).2.order_kept h₁
  obtain ⟨st₃, h₃⟩ := hrest.2 h₂
  obtain ⟨st, hfirst⟩ := hmatch.2.order_kept h₃
  obtain ⟨st₄, h₄⟩ := hrest.2 h.places'.found
  obtain ⟨st', hsecond'⟩ := hmatch.2.order_kept h₄
  have hne : h.first.orderId ≠ h.second.orderId := by
    intro heq
    have habsent := h.places'.absent
    rw [← heq, h₁] at habsent
    cases habsent
  refine ⟨st, st', ?_⟩
  rcases h.has with ⟨hy | hn, hy' | hn'⟩
  · exact absurd (hy.symm.trans hy') hne
  · left
    rw [← hy] at hfirst
    rw [← hn'] at hsecond'
    exact ⟨Option.some.inj (h.yesFound.symm.trans hfirst),
      Option.some.inj (h.noFound.symm.trans hsecond')⟩
  · right
    rw [← hn] at hfirst
    rw [← hy'] at hsecond'
    exact ⟨Option.some.inj (h.yesFound.symm.trans hsecond'),
      Option.some.inj (h.noFound.symm.trans hfirst)⟩
  · exact absurd (hn.symm.trans hn') hne

theorem moves_eq (entryType : WalletEntryType) (u : Uuid) :
    h.yes.moves entryType u + h.no.moves entryType u =
      h.first.order.moves entryType u + h.second.order.moves entryType u := by
  obtain ⟨st, st', ⟨hyes, hno⟩ | ⟨hyes, hno⟩⟩ := h.terms
  · rw [hyes, hno]
    rfl
  · rw [hyes, hno]
    exact add_comm _ _

theorem yes_ne_no : h.yes.id ≠ h.no.id := by
  rw [show h.yes.id = h.trade.yesOrderId from Table.key_of_find? h.yesFound,
    show h.no.id = h.trade.noOrderId from Table.key_of_find? h.noFound]
  exact Coherent.yes_ne_no h.coherent (Table.mem_of_find? h.found)

/-- The balances right after the match, from those before the first placement. -/
theorem balances_matched (u : Uuid) :
    h.matched.ledger.balances u = h.firstStart.ledger.balances u + h.meanwhile u +
      (if h.firstStart.ledger.KeyUsed h.first.userId
          (EngineKey.orderReserve h.first.dto.idempotencyKey).text then 0
        else h.first.order.moves .RESERVE u) +
      (if h.secondStart.ledger.KeyUsed h.second.userId
          (EngineKey.orderReserve h.second.dto.idempotencyKey).text then 0
        else h.second.order.moves .RESERVE u) := by
  obtain ⟨orderId, hmade⟩ := h.made
  have hledger : h.matched.ledger = h.matchStart.ledger := by
    obtain ⟨-, -, -, -, -, -, -, -, hrest, -⟩ := hmade
    exact hrest
  rw [hledger, meanwhile, h.places.balances_eq u, h.places'.balances_eq u]
  abel

end MatchedTrade

/-! ## Runs of a matched trade -/

/-- The trade and its orders keep their terms, and the status of the trade says how many
failures and retries there have been. -/
structure MatchedTrade.InCycle (h : MatchedTrade) (xs : List Cycled) (t : Db) : Prop where
  coherent : t.Coherent
  trade : ∃ st, t.trades.find? h.trade.id = some (h.trade.withStatus st) ∧
    (st = .PENDING_SETTLEMENT → xs.length % 2 = 0) ∧ (st = .FAILED → xs.length % 2 = 1)
  yes : ∃ st, t.orders.find? h.trade.yesOrderId = some (h.yes.withStatus st)
  no : ∃ st, t.orders.find? h.trade.noOrderId = some (h.no.withStatus st)

/-- A step of the cycle, from a state in the cycle. -/
structure MatchedTrade.Step (h : MatchedTrade) (xs : List Cycled) (t : Db) (l : CycleStep)
    (t' : Db) : Prop where
  state : h.InCycle xs t
  moved : ∃ createdAt, MovedFrom l.finds (l.move createdAt) h.trade.id t t'
  found : t.trades.find? h.trade.id = some (h.trade.withStatus l.finds)
  pending : l.finds = .PENDING_SETTLEMENT → xs.length % 2 = 0
  failed : l.finds = .FAILED → xs.length % 2 = 1

namespace MatchedTrade

variable {h : MatchedTrade} {xs : List Cycled} {others : Uuid → ℤ × ℤ} {t t' : Db}
  {l : CycleStep}

theorem InCycle.step (hin : h.InCycle xs t) {createdAt : Timestamp} {trade : Trade}
    (hfound : t.trades.find? h.trade.id = some trade) (hst : trade.status = l.finds)
    (hstep : exchange.step t (.committed (l.action h.trade.id createdAt)) t') :
    h.Step xs t l t' := by
  obtain ⟨st, hfound', hpending, hfailed⟩ := hin.trade
  rw [hfound'] at hfound
  cases hfound
  obtain ⟨-, busy, hexec⟩ := hstep
  have hmoved := CycleStep.movedFrom hexec hfound' hst
  rw [Trade.withStatus_status] at hst
  subst hst
  exact ⟨hin, ⟨createdAt, hmoved⟩, hfound', hpending, hfailed⟩

theorem Step.inCycle (hx : h.Step xs t l t') (hev : Evolves t t') (hcoh : t'.Coherent) :
    h.InCycle (xs ++ [⟨t, l, t'⟩]) t' := by
  obtain ⟨createdAt, hmoved⟩ := hx.moved
  obtain ⟨old, hold, -, hfind⟩ := hmoved.find?_trade
  rw [hx.found] at hold
  cases hold
  obtain ⟨sty, hyes⟩ := hx.state.yes
  obtain ⟨stn, hno⟩ := hx.state.no
  refine ⟨hcoh, ⟨(l.move createdAt).tradeStatus, by rw [hfind, if_pos rfl]; rfl, ?_, ?_⟩,
    hev.order_kept hyes, hev.order_kept hno⟩
  · rw [List.length_append, List.length_singleton]
    intro hst
    have hodd : xs.length % 2 = 1 := by
      cases l with
      | markSettlementFailure => cases hst
      | failPendingTradeAndReleaseFunds => cases hst
      | prepareTradeForRetry => exact hx.failed rfl
    omega
  · rw [List.length_append, List.length_singleton]
    intro hst
    have heven : xs.length % 2 = 0 := by
      cases l with
      | markSettlementFailure => exact hx.pending rfl
      | failPendingTradeAndReleaseFunds => exact hx.pending rfl
      | prepareTradeForRetry => cases hst
    omega

/-- **The run lemma** of the cycle: a trade that is not settled goes back and forth. -/
theorem inCycle (hc : Cycles h.trade.id h.matched xs others t) : h.InCycle xs t := by
  induction hc with
  | start =>
      refine ⟨h.coherent, ⟨h.trade.status, h.found, fun _ => rfl, fun hfailed => ?_⟩,
        ⟨h.yes.status, h.yesFound⟩, ⟨h.no.status, h.noFound⟩⟩
      rw [h.pending] at hfailed
      cases hfailed
  | cycle _ hfound hst hstep ih =>
      obtain ⟨hcoh, hev⟩ := exchange_step ih.coherent hstep
      exact (ih.step hfound hst hstep).inCycle hev hcoh
  | @other xs others t t' c _ hother hstep ih =>
      obtain ⟨hcoh, hev⟩ := exchange_step ih.coherent hstep
      obtain ⟨st, hfound, hpending, hfailed⟩ := ih.trade
      obtain ⟨sty, hyes⟩ := ih.yes
      obtain ⟨stn, hno⟩ := ih.no
      refine ⟨hcoh, ?_, hev.order_kept hyes, hev.order_kept hno⟩
      cases c with
      | rolledBack a =>
          rw [show t' = t from hstep]
          exact ih.trade
      | committed a =>
          obtain ⟨hstarts, busy, hexec⟩ := hstep
          have heff := exec_effect (hstarts.nil ih.coherent) hexec
          obtain ⟨st', hfound', hkept⟩ := heff.trade_kept hfound fun l createdAt ha =>
            hother l createdAt (by rw [ha]) _ hfound
          refine ⟨st', hfound', ?_⟩
          rcases hkept with rfl | rfl
          · exact ⟨hpending, hfailed⟩
          · exact ⟨fun hst => (by cases hst), fun hst => (by cases hst)⟩

theorem Step.exact_iff (hx : h.Step xs t l t') :
    (∀ u, t'.ledger.balances u = t.ledger.balances u + h.yes.moves l.entryType u +
      h.no.moves l.entryType u) ↔ l.KeysNew h.trade.id h.yes h.no t.ledger := by
  obtain ⟨createdAt, hmoved⟩ := hx.moved
  obtain ⟨sty, hyes⟩ := hx.state.yes
  obtain ⟨stn, hno⟩ := hx.state.no
  have hiff := CycleStep.exact_iff hmoved hx.found hyes hno h.yes_ne_no
    (Coherent.sound hx.state.coherent hyes).reserved_pos
    (Coherent.sound hx.state.coherent hno).reserved_pos
  exact hiff

/-- Each failure and each retry of a run is exact if and only if its keys are new. -/
theorem exact_iff (hc : Cycles h.trade.id h.matched xs others t) : ∀ x ∈ xs,
    (∀ u, x.after.ledger.balances u = x.before.ledger.balances u +
      h.yes.moves x.step.entryType u + h.no.moves x.step.entryType u) ↔
    x.step.KeysNew h.trade.id h.yes h.no x.before.ledger := by
  induction hc with
  | start =>
      intro x hx
      cases hx
  | cycle hc hfound hst hstep ih =>
      intro x hx
      rcases List.mem_append.mp hx with hx | hx
      · exact ih x hx
      · rw [List.mem_singleton.mp hx]
        exact ((inCycle hc).step hfound hst hstep).exact_iff
  | other _ _ _ ih => exact ih

/-- The balances after a run whose failures and retries are exact. -/
theorem balances_of_exact (hc : Cycles h.trade.id h.matched xs others t)
    (hexact : ∀ x ∈ xs, ∀ u, x.after.ledger.balances u = x.before.ledger.balances u +
      h.yes.moves x.step.entryType u + h.no.moves x.step.entryType u) (u : Uuid) :
    t.ledger.balances u = h.matched.ledger.balances u + others u +
      if xs.length % 2 = 1 then h.yes.moves .RELEASE u + h.no.moves .RELEASE u else 0 := by
  induction hc with
  | start => simp
  | @cycle xs others t t' l createdAt trade hc hfound hst hstep ih =>
      have hx := (inCycle hc).step hfound hst hstep
      have hprev := ih fun x hx => hexact x (List.mem_append_left _ hx)
      have hlast := hexact ⟨t, l, t'⟩ (List.mem_append_right _ (List.mem_singleton_self _)) u
      have hlen : (xs ++ [(⟨t, l, t'⟩ : Cycled)]).length = xs.length + 1 := by simp
      dsimp only at hlast
      rw [hlast, hprev, hlen]
      -- a failure comes after an even number of steps, a retry after an odd number
      have failure : l.entryType = .RELEASE → xs.length % 2 = 0 →
          h.matched.ledger.balances u + others u + (if xs.length % 2 = 1 then
            h.yes.moves .RELEASE u + h.no.moves .RELEASE u else 0) +
            h.yes.moves l.entryType u + h.no.moves l.entryType u =
          h.matched.ledger.balances u + others u + if (xs.length + 1) % 2 = 1 then
            h.yes.moves .RELEASE u + h.no.moves .RELEASE u else 0 := by
        intro hty heven
        rw [hty, if_neg (by omega), if_pos (by omega)]
        abel
      cases l with
      | markSettlementFailure => exact failure rfl (hx.pending rfl)
      | failPendingTradeAndReleaseFunds => exact failure rfl (hx.pending rfl)
      | prepareTradeForRetry =>
          have hodd := hx.failed rfl
          rw [if_pos hodd, if_neg (by omega)]
          simp only [CycleStep.entryType, Order.moves_reserve]
          abel
  | @other xs others t t' c _ _ _ ih =>
      calc t'.ledger.balances u
          = t.ledger.balances u + (t'.ledger.balances u - t.ledger.balances u) := by abel
        _ = h.matched.ledger.balances u + others u + (if xs.length % 2 = 1 then
              h.yes.moves .RELEASE u + h.no.moves .RELEASE u else 0) +
            (t'.ledger.balances u - t.ledger.balances u) :=
            congrArg (· + (t'.ledger.balances u - t.ledger.balances u)) (ih hexact)
        _ = h.matched.ledger.balances u +
              (others u + (t'.ledger.balances u - t.ledger.balances u)) +
            (if xs.length % 2 = 1 then
              h.yes.moves .RELEASE u + h.no.moves .RELEASE u else 0) := by abel

/-- The keys of every failure and retry of a run are used from then on. -/
theorem keys_used (hc : Cycles h.trade.id h.matched xs others t) : ∀ x ∈ xs,
    t.ledger.KeyUsed h.no.userId (EngineKey.trade h.trade.id (x.step.key .NO h.no.id)).text := by
  induction hc with
  | start =>
      intro x hx
      cases hx
  | cycle hc hfound hst hstep ih =>
      intro x hx
      rcases List.mem_append.mp hx with hx | hx
      · exact (exchange_step (inCycle hc).coherent hstep).2.ledger.keyUsed (ih x hx)
      · rw [List.mem_singleton.mp hx]
        have hx := (inCycle hc).step hfound hst hstep
        obtain ⟨createdAt, hmoved⟩ := hx.moved
        obtain ⟨sty, hyes⟩ := hx.state.yes
        obtain ⟨stn, hno⟩ := hx.state.no
        have hused := CycleStep.key_used hmoved hx.found hyes hno
        exact hused
  | other hc _ hstep ih =>
      intro x hx
      exact (exchange_step (inCycle hc).coherent hstep).2.ledger.keyUsed (ih x hx)

/-- If all keys are new, no path is taken twice. -/
theorem nodup_of_keysNew (hc : Cycles h.trade.id h.matched xs others t)
    (hnew : ∀ x ∈ xs, x.step.KeysNew h.trade.id h.yes h.no x.before.ledger) :
    (xs.map Cycled.step).Nodup := by
  induction hc with
  | start => exact List.nodup_nil
  | @cycle xs others t t' l createdAt trade hc hfound hst hstep ih =>
      have hprev := ih fun x hx => hnew x (List.mem_append_left _ hx)
      have hlast := hnew ⟨t, l, t'⟩ (List.mem_append_right _ (List.mem_singleton_self _))
      rw [List.map_append, List.map_singleton]
      refine List.nodup_append.mpr ⟨hprev, by simp, ?_⟩
      intro l' hl' l'' hl'' heq
      rw [List.mem_singleton] at hl''
      subst hl'' heq
      obtain ⟨x, hx, rfl⟩ := List.mem_map.mp hl'
      exact hlast.2 (keys_used hc x hx)
  | other _ _ _ ih => exact ih hnew

/-- What the collateral of the two orders leaves behind after the last failure. -/
theorem placements_iff (h : MatchedTrade) (others : Uuid → ℤ × ℤ) (t : Db)
    (ht : ∀ u, t.ledger.balances u = h.matched.ledger.balances u + others u +
      (h.yes.moves .RELEASE u + h.no.moves .RELEASE u)) :
    (∀ u, t.ledger.balances u =
        h.firstStart.ledger.balances u + (h.meanwhile u + others u)) ↔
      h.first.KeyNew h.firstStart.ledger ∧ h.second.KeyNew h.secondStart.ledger := by
  have hposf : 0 < h.first.order.reservedCents := PlaceOrderDto.order_sound.reserved_pos
  have hposs : 0 < h.second.order.reservedCents := PlaceOrderDto.order_sound.reserved_pos
  -- the balances are the exact ones but for a reserve that was swallowed
  have heq : ∀ u, t.ledger.balances u = h.firstStart.ledger.balances u +
      (h.meanwhile u + others u) +
      ((if h.firstStart.ledger.KeyUsed h.first.userId
          (EngineKey.orderReserve h.first.dto.idempotencyKey).text then 0
        else h.first.order.moves .RESERVE u) - h.first.order.moves .RESERVE u) +
      ((if h.secondStart.ledger.KeyUsed h.second.userId
          (EngineKey.orderReserve h.second.dto.idempotencyKey).text then 0
        else h.second.order.moves .RESERVE u) - h.second.order.moves .RESERVE u) := by
    intro u
    rw [ht u, h.moves_eq, h.balances_matched u, Order.moves_reserve, Order.moves_reserve]
    abel
  constructor
  -- a swallowed reserve shows in the reserved balance of its user
  · intro hall
    constructor
    · intro hused
      have hu := congrArg Prod.snd ((hall h.first.userId).symm.trans (heq h.first.userId))
      rw [if_pos hused] at hu
      have hself : (h.first.order.moves .RESERVE h.first.userId).2 = h.first.order.reservedCents :=
        h.first.order.moves_reserve_self
      have hother := h.second.order.moves_reserve_nonneg hposs h.first.userId
      split at hu <;> simp only [Prod.snd_add, Prod.snd_sub, Prod.snd_zero] at hu <;> omega
    · intro hused
      have hu := congrArg Prod.snd ((hall h.second.userId).symm.trans (heq h.second.userId))
      rw [if_pos hused] at hu
      have hself : (h.second.order.moves .RESERVE h.second.userId).2 =
          h.second.order.reservedCents := h.second.order.moves_reserve_self
      have hother := h.first.order.moves_reserve_nonneg hposf h.second.userId
      split at hu <;> simp only [Prod.snd_add, Prod.snd_sub, Prod.snd_zero] at hu <;> omega
  · rintro ⟨hnewf, hnews⟩ u
    rw [heq u, if_neg hnewf, if_neg hnews]
    abel

end MatchedTrade

/-! ## When failures and retries are exact inverses -/

/-- **Failures and retries are exact inverses** if and only if all their keys are new, and
those of the placements were; no path is then taken twice. -/
theorem fail_retry_exact {h : MatchedTrade} {xs : List Cycled} {others : Uuid → ℤ × ℤ} {t : Db}
    (hc : Cycles h.trade.id h.matched xs others t) :
    (h.ExactInverses xs others t ↔ h.KeysNew xs) ∧
      (h.KeysNew xs → (xs.map Cycled.step).Nodup) := by
  have hiff := MatchedTrade.exact_iff hc
  refine ⟨⟨fun hexact => ?_, fun hnew => ?_⟩, fun hnew =>
    MatchedTrade.nodup_of_keysNew hc hnew.steps⟩
  · refine ⟨fun x hx => (hiff x hx).mp (hexact.steps x hx), fun n hn => ?_⟩
    have hbal : ∀ u, t.ledger.balances u = h.matched.ledger.balances u + others u +
        (h.yes.moves .RELEASE u + h.no.moves .RELEASE u) := by
      intro u
      have hu := MatchedTrade.balances_of_exact hc hexact.steps u
      rwa [if_pos (by omega)] at hu
    exact (h.placements_iff others t hbal).mp (hexact.failed n hn)
  · have hsteps : ∀ x ∈ xs, ∀ u, x.after.ledger.balances u = x.before.ledger.balances u +
        h.yes.moves x.step.entryType u + h.no.moves x.step.entryType u :=
      fun x hx => (hiff x hx).mpr (hnew.steps x hx)
    have hbal := MatchedTrade.balances_of_exact hc hsteps
    refine ⟨hsteps, fun n hn u => ?_, fun n hn => ?_⟩
    · rw [hbal u, if_neg (by omega), add_zero]
    · refine (h.placements_iff others t fun u => ?_).mpr (hnew.placements n hn)
      rw [hbal u, if_pos (by omega)]

/-! ## The sample trade -/

theorem step_of_runWhere {s t : Db} {a : Action}
    (h : runWhere (fun _ _ => true) [a] s = .ok t) : exchange.step s (.committed a) t := by
  obtain ⟨hstarts, -, s₁, hrun, hrest⟩ := runWhere_cons h
  cases hrest
  exact ⟨hstarts, _, exec_of_run hrun⟩

namespace Sample

def pendingTrade : Trade := ⟨trade, market, yesOrder, noOrder, 40, 60, 5, .PENDING_SETTLEMENT⟩

def first : Placement := ⟨alice, yesDto, yesOrder, 2, 2⟩

def second : Placement := ⟨bob, noDto, noOrder, 3, 3⟩

/-- The run `matching`, with a test of the state that it leaves. -/
def history (p : Db → Bool) : Bool :=
  leads (fun _ _ => true) opening fun s => s.orders.find? yesOrder = none &&
    leadsFrom (fun _ _ => true) [first.action] (fun s =>
      s.orders.find? yesOrder ≠ none && s.orders.find? noOrder = none &&
      leadsFrom (fun _ _ => true) [second.action] (fun s =>
        s.orders.find? noOrder ≠ none && s.trades.find? trade = none &&
        leadsFrom (fun _ _ => true) [.tryMatchOrder noOrder trade] (fun s =>
          s.trades.find? trade = some pendingTrade &&
          s.orders.find? yesOrder = some (first.order.withStatus .MATCH_PENDING) &&
          s.orders.find? noOrder = some (second.order.withStatus .MATCH_PENDING) && p s) s) s) s

theorem exists_matchedTrade {p : Db → Bool} (hp : history p = true) : ∃ h : MatchedTrade,
    h.trade = pendingTrade ∧ h.yes = first.order.withStatus .MATCH_PENDING ∧
      h.no = second.order.withStatus .MATCH_PENDING ∧ p h.matched = true := by
  unfold history at hp
  -- each stage of the history is tested on its own state
  obtain ⟨s₀, h₀, htest⟩ := exists_of_leads hp
  simp only [Bool.and_eq_true, decide_eq_true_eq] at htest
  obtain ⟨habsent, htest⟩ := htest
  obtain ⟨s₁, h₁, htest⟩ := exists_of_leads htest
  simp only [Bool.and_eq_true, decide_eq_true_eq] at htest
  obtain ⟨⟨hpresent, habsent'⟩, htest⟩ := htest
  obtain ⟨s₂, h₂, htest⟩ := exists_of_leads htest
  simp only [Bool.and_eq_true, decide_eq_true_eq] at htest
  obtain ⟨⟨hpresent', hnone⟩, htest⟩ := htest
  obtain ⟨s₃, h₃, htest⟩ := exists_of_leads htest
  simp only [Bool.and_eq_true, decide_eq_true_eq] at htest
  obtain ⟨⟨⟨htrade, hyes⟩, hno⟩, hp⟩ := htest
  have hs₀ : exchange.Reachable s₀ :=
    (reachable_of_runWhere (C := fun _ _ => True) (fun _ _ _ => trivial) (.init rfl)
      h₀).of_restrict
  exact ⟨
    { trade := pendingTrade
      yes := first.order.withStatus .MATCH_PENDING
      no := second.order.withStatus .MATCH_PENDING
      first := first
      second := second
      reachable := hs₀
      places := ⟨step_of_runWhere h₁, habsent, hpresent⟩
      waits := ⟨[], .nil s₁⟩
      places' := ⟨step_of_runWhere h₂, habsent', hpresent'⟩
      waits' := ⟨[], .nil s₂⟩
      matching := ⟨noOrder, step_of_runWhere h₃⟩
      absent := hnone
      found := htrade
      yesFound := hyes
      noFound := hno
      has := ⟨Or.inl rfl, Or.inr rfl⟩ }, rfl, rfl, rfl, hp⟩

/-- Failures and retries of the sample trade, one after the other. -/
def cycling (p : Db → Bool) : List CycleStep → Db → Bool
  | [], s => p s
  | l :: ls, s => (s.trades.find? trade).any (fun found => found.status = l.finds) &&
      leadsFrom (fun _ _ => true) [l.action trade 4] (cycling p ls) s

theorem cycles_of_cycling {p : Db → Bool} {s₀ s : Db} {xs : List Cycled} {ls : List CycleStep}
    (hc : Cycles trade s₀ xs (fun _ => 0) s) (h : cycling p ls s = true) :
    ∃ ys t, Cycles trade s₀ (xs ++ ys) (fun _ => 0) t ∧ ys.map Cycled.step = ls ∧ p t = true := by
  induction ls generalizing s xs with
  | nil => exact ⟨[], s, by rwa [List.append_nil], rfl, h⟩
  | cons l ls ih =>
      rw [cycling, Bool.and_eq_true, Option.any_eq_true] at h
      obtain ⟨⟨found, hfound, hst⟩, hrun⟩ := h
      obtain ⟨t, ht, hrest⟩ := exists_of_leads hrun
      obtain ⟨ys, t', hc', hys, hp⟩ := ih
        (hc.cycle hfound (of_decide_eq_true hst) (step_of_runWhere ht)) hrest
      rw [List.append_assoc] at hc'
      exact ⟨_, t', hc', congrArg (l :: ·) hys, hp⟩

end Sample

/-- A failure, a retry and a failure on the other path are exact. -/
theorem fail_retry_exact_sample : ∃ (h : MatchedTrade) (xs : List Cycled) (t : Db),
    xs.length = 3 ∧ Cycles h.trade.id h.matched xs (fun _ => 0) t ∧
      (h.ExactInverses xs (fun _ => 0) t ↔ h.KeysNew xs) := by
  obtain ⟨h, htrade, -, -, hp⟩ := Sample.exists_matchedTrade
    (show Sample.history (Sample.cycling (fun _ => true)
      [.markSettlementFailure, .prepareTradeForRetry, .failPendingTradeAndReleaseFunds]) = true by
        decide +kernel)
  have hid : h.trade.id = Sample.trade := by
    rw [htrade]
    rfl
  obtain ⟨xs, t, hc, hxs, -⟩ := Sample.cycles_of_cycling .start hp
  rw [← hid] at hc
  exact ⟨h, xs, t, by rw [← List.length_map Cycled.step, hxs]; rfl, hc, (fail_retry_exact hc).1⟩

/-- A second failure on the same path moves nothing. -/
theorem fail_retry_not_exact : ¬ ∀ (h : MatchedTrade) (xs : List Cycled)
    (others : Uuid → ℤ × ℤ) (t : Db), Cycles h.trade.id h.matched xs others t →
      h.ExactInverses xs others t := by
  intro hall
  obtain ⟨h, htrade, hyes, hno, hp⟩ := Sample.exists_matchedTrade
    (show Sample.history (fun s => Sample.cycling
      (fun t => t.ledger.reserved Sample.alice = s.ledger.reserved Sample.alice)
      [.markSettlementFailure, .prepareTradeForRetry, .markSettlementFailure] s) = true by
        decide +kernel)
  have hid : h.trade.id = Sample.trade := by
    rw [htrade]
    rfl
  obtain ⟨xs, t, hc, hxs, hstuck⟩ := Sample.cycles_of_cycling .start hp
  have hlen : xs.length = 3 := by
    rw [← List.length_map Cycled.step, hxs]
    rfl
  rw [List.nil_append, ← hid] at hc
  -- the collateral of Alice would have been released
  have hbal := congrArg Prod.snd
    (MatchedTrade.balances_of_exact hc (hall h xs _ t hc).steps Sample.alice)
  rw [hlen, if_pos rfl, hyes, hno] at hbal
  have hsame : (t.ledger.balances Sample.alice).2 = (h.matched.ledger.balances Sample.alice).2 :=
    of_decide_eq_true hstuck
  have hmoves : ((Sample.first.order.withStatus .MATCH_PENDING).moves .RELEASE Sample.alice +
      (Sample.second.order.withStatus .MATCH_PENDING).moves .RELEASE Sample.alice).2 = -200 := by
    decide +kernel
  rw [Prod.snd_add, Prod.snd_add, hmoves, hsame] at hbal
  simp at hbal

end OutcomeExchange
