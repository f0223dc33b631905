import OutcomeExchange.Async.Pool
import OutcomeExchange.LifeCycle
import OutcomeExchange.Runs
import OutcomeExchange.Services

set_option autoImplicit false

/-! # Calls of the order book

`ExchangeCall` is what runs concurrently around the order book: the three calls that read and
write its projection, and any other transaction of the services.

The rest of the module says what the transactions return: `Action.opens` is the order that a
call goes on to project, `Action.consumes` are the orders that it goes on to remove, and
`orders_of_tx` says that no other order becomes or ceases to be open. -/

namespace OutcomeExchange

open Txn Redis Jobs Async

/-! ## The calls -/

/-- The actions that no call of the order book consists of. -/
def Action.besideBook : Action → Bool
  | .createWalletForUser _ _ => true
  | .deposit _ _ _ => true
  | .withdraw _ _ _ => true
  | .createMarket _ _ _ => true
  | .closeMarket _ _ => true
  | .closeExpiredMarkets _ => true
  | .resolveMarket _ _ _ => true
  | .placeOrder _ _ _ _ _ => false
  | .cancelOrder _ _ _ => false
  | .tryMatchOrder _ _ => false
  | .failPendingTradeAndReleaseFunds _ _ => true
  | .handleSettlement _ _ => true
  | .markSettlementFailure _ _ => true
  | .prepareTradeForRetry _ _ => true
  | .reopenOrders _ => false

/-- The calls of the order book, and the transactions of all other calls. -/
inductive ExchangeCall
  | placeOrder (userId : Uuid) (dto : PlaceOrderDto) (ids : PlacementIds)
  | cancelOrder (userId orderId : Uuid) (createdAt : Timestamp)
  | tryMatchOrder (orderId tradeId : Uuid) (failedAt : Timestamp)
  | other (a : Action) (h : a.besideBook = true)

def ExchangeCall.code : ExchangeCall → Service Unit
  | .placeOrder userId dto ids => (OrdersService.placeOrder userId dto ids).discard
  | .cancelOrder userId orderId createdAt =>
      (OrdersService.cancelOrder userId orderId createdAt).discard
  | .tryMatchOrder orderId tradeId failedAt =>
      MatchingEngineService.tryMatchOrder orderId tradeId failedAt
  | .other a _ => (ServiceOp.transaction a).call.discard

def World.empty : World := ⟨Db.empty, Store.empty, Queue.empty, []⟩

/-- Any number of these calls, from an empty exchange on. -/
def exchangeCalls (keyPrefix : String) :
    System (Pool services Err World) (Async.Event ExchangeCall Infra) :=
  pool (machine keyPrefix) ExchangeCall.code fun w => w = World.empty

/-! ## What becomes of the orders -/

/-- The orders keep their terms, and none becomes open. -/
def OrdersKept (s t : Db) : Prop :=
  ∀ (id : Uuid) (o : Order), s.orders.find? id = some o →
    ∃ st, t.orders.find? id = some (o.withStatus st) ∧ (st = .OPEN → o.status = .OPEN)

/-- The order that the call goes on to project. -/
def Action.opens : (a : Action) → a.Result → Order → Prop
  | .placeOrder _ _ _ _ _, order, o => order.row = o ∧ o.status = .OPEN
  | _, _, _ => False

/-- The orders that the call goes on to remove. -/
def Action.consumes : (a : Action) → a.Result → Order → Prop
  | .cancelOrder _ _ _, cancelled, o => cancelled = o
  | .tryMatchOrder _ _, some matched, o => matched.order = o ∨ matched.counterparty = o
  | _, _, _ => False

section Orders

variable {m : Mode RowId} {s t u : Db} {a : Action} {r : a.Result} {id : Uuid} {o : Order}

theorem OrdersKept.refl (s : Db) : OrdersKept s s := fun _ o ho => ⟨o.status, ho, fun h => h⟩

theorem OrdersKept.trans (h : OrdersKept s t) (h' : OrdersKept t u) : OrdersKept s u := by
  intro id o ho
  obtain ⟨st, hst, hopen⟩ := h id o ho
  obtain ⟨st', hst', hopen'⟩ := h' id _ hst
  exact ⟨st', hst', fun heq => hopen (hopen' heq)⟩

theorem Evolves.ordersKept (h : Evolves s t) : OrdersKept s t := by
  intro id o ho
  obtain ⟨o', ho', st, rfl, hst⟩ := h.orders ho
  refine ⟨st, ho', fun heq => ?_⟩
  rcases hst with hsame | hnext
  · rw [← hsame, heq]
  · rw [heq] at hnext
    exact absurd hnext OrderStatus.not_next_open

theorem exec_tx_effect (hs : s.Coherent) (ha : a.Starts s) (h : Exec m a.tx s r t) :
    a.Effect m s t := exec_effect (ha.nil hs) (Action.exec_prog h)

/-- The two orders that a match returns are there, and no longer open. -/
theorem MatchedBy.found {orderId tradeId : Uuid} {matched : Matched}
    (h : MatchedBy orderId tradeId s t matched) :
    StatusSet [matched.order.id, matched.counterparty.id] .MATCH_PENDING s.orders t.orders ∧
      t.orders.find? matched.order.id = some matched.order ∧
      t.orders.find? matched.counterparty.id = some matched.counterparty := by
  obtain ⟨hfound, -, hother, -, hsaved, hsaved', -, -, -⟩ := h
  rename_i order counterparty os
  have hid : order.id = orderId := Table.key_of_find? hfound
  subst hid
  have hset := StatusSet.pair hfound hother hsaved hsaved'
  exact ⟨hset, hset.find?_mem (by simp) hfound, hset.find?_mem (by simp) hother⟩

/-- An order that is returned to be removed is a row, and it is not open. -/
theorem consumes_found (h : Exec m a.tx s r t) (ho : a.consumes r o) :
    t.orders.find? o.id = some o ∧ o.status ≠ .OPEN := by
  cases a with
  | cancelOrder userId orderId createdAt =>
      cases ho
      obtain ⟨hcancelled, hfound⟩ := exec_cancelOrder h
      have hid : o.id = orderId := Table.key_of_find? hfound
      refine ⟨hid.symm ▸ hfound, ?_⟩
      obtain ⟨old, -, ⟨-, hr⟩ | ⟨hnot, -⟩⟩ := hcancelled.statusSet.find?_some hfound
      · rw [hr]
        simp
      · exact absurd (List.mem_singleton.mpr rfl) hnot
  | tryMatchOrder orderId tradeId =>
      cases r with
      | none => exact ho.elim
      | some matched =>
          rcases exec_tryMatchOrder_result h with ⟨hnone, -⟩ | ⟨_, hr, hby⟩
          · cases hnone
          · cases hr
            obtain ⟨-, horder, hcounterparty⟩ := hby.found
            cases hby with
            | intro =>
                rcases ho with rfl | rfl
                · exact ⟨horder, by simp⟩
                · exact ⟨hcounterparty, by simp⟩
  | _ => exact ho.elim

/-- **What becomes of the open orders**: an order of the new state was there before, and no
longer being open it is one that the call removes; or it is the order that the call projects. -/
theorem orders_of_tx (hs : s.Coherent) (ha : a.Starts s) (h : Exec m a.tx s r t)
    (ho : t.orders.find? id = some o) :
    (∃ st, s.orders.find? id = some (o.withStatus st) ∧
        (st = .OPEN → o.status = .OPEN ∨ a.consumes r o)) ∨ a.opens r o := by
  have heff := exec_tx_effect hs ha h
  have orders : t.orders = s.orders → ∃ st, s.orders.find? id = some (o.withStatus st) ∧
      (st = .OPEN → o.status = .OPEN ∨ a.consumes r o) := by
    intro heq
    exact ⟨o.status, heq ▸ ho, Or.inl⟩
  have same : t = s → ∃ st, s.orders.find? id = some (o.withStatus st) ∧
      (st = .OPEN → o.status = .OPEN ∨ a.consumes r o) := fun heq => orders (by rw [heq])
  have set : ∀ {ids st}, StatusSet ids st s.orders t.orders →
      (∀ i ∈ ids, i = id → ∀ old, s.orders.find? i = some old → old.status = .OPEN →
        a.consumes r o) →
      ∃ st, s.orders.find? id = some (o.withStatus st) ∧
        (st = .OPEN → o.status = .OPEN ∨ a.consumes r o) := by
    intro ids st hset hconsumes
    obtain ⟨old, hold, ⟨hid, rfl⟩ | ⟨-, rfl⟩⟩ := hset.find?_some ho
    · exact ⟨old.status, hold, fun hopen => Or.inr (hconsumes id hid rfl old hold hopen)⟩
    · exact ⟨o.status, hold, Or.inl⟩
  have moved : ∀ {st v tradeId}, MovedFrom st v tradeId s t →
      ∃ st, s.orders.find? id = some (o.withStatus st) ∧
        (st = .OPEN → o.status = .OPEN ∨ a.consumes r o) := by
    intro st v tradeId hmoved
    obtain ⟨trade, hfound, -, hmoved⟩ := hmoved
    refine set hmoved.statusSet fun i hi _ old hold hopen => ?_
    -- the orders of a trade are not open
    have hhas : trade.Has i := (List.mem_pair.mp hi).imp Eq.symm Eq.symm
    have hstatus := Coherent.status_of_has hs (Table.mem_of_find? hfound) hhas hold
    exact absurd ⟨trade.status, hstatus.symm.trans hopen⟩ OrderStatus.not_traded_open
  cases a with
  | createWalletForUser userId walletId =>
      left
      rcases heff with hsame | ⟨L, -, hL⟩
      · exact same hsame
      · exact orders (by rw [hL])
  | deposit userId dto createdAt =>
      obtain ⟨L, hL, -⟩ := heff
      exact Or.inl (orders (by rw [hL]))
  | withdraw userId dto createdAt =>
      obtain ⟨L, hL, -⟩ := heff
      exact Or.inl (orders (by rw [hL]))
  | createMarket closesAt marketId now => exact Or.inl (orders heff.2.2.1)
  | closeMarket marketId now => exact Or.inl (orders heff.rest.2.2.1)
  | closeExpiredMarkets now => exact Or.inl (orders heff.rest.2.2.1)
  | resolveMarket marketId winningSide createdAt =>
      obtain ⟨-, -, -, -, -, -, horders, -⟩ := heff
      exact Or.inl (orders horders)
  | placeOrder userId dto orderId now createdAt =>
      rcases exec_placeOrder h with ⟨hsame, -⟩ | ⟨hr, hplaced, -⟩
      · exact Or.inl (same hsame)
      · rw [Table.find?_insert hplaced.inserted] at ho
        split at ho
        · cases ho
          exact Or.inr ⟨congrArg OrderEntity.row hr, rfl⟩
        · exact Or.inl ⟨o.status, ho, Or.inl⟩
  | cancelOrder userId orderId createdAt =>
      obtain ⟨hcancelled, hfound⟩ := exec_cancelOrder h
      refine Or.inl (set hcancelled.statusSet fun i hi hid old hold _ => ?_)
      subst hid
      rw [List.mem_singleton.mp hi, hfound] at ho
      exact Option.some.inj ho
  | tryMatchOrder orderId tradeId =>
      left
      rcases exec_tryMatchOrder_result h with ⟨-, hsame⟩ | ⟨matched, rfl, hby⟩
      · exact same hsame
      · obtain ⟨hset, horder, hcounterparty⟩ := hby.found
        refine set hset fun i hi hid old hold _ => ?_
        subst hid
        rcases List.mem_pair.mp hi with rfl | rfl
        · exact Or.inl (Option.some.inj (horder.symm.trans ho))
        · exact Or.inr (Option.some.inj (hcounterparty.symm.trans ho))
  | failPendingTradeAndReleaseFunds tradeId createdAt => exact Or.inl (heff.elim same moved)
  | handleSettlement tradeId createdAt => exact Or.inl (heff.elim same moved)
  | markSettlementFailure tradeId createdAt => exact Or.inl (heff.elim same moved)
  | prepareTradeForRetry tradeId createdAt => exact Or.inl (heff.elim same moved)
  | reopenOrders orders => exact Or.inl (same heff)

end Orders

/-! ## Runs that can be computed -/

namespace Sample

/-- Call `i` begins and takes `n` steps. -/
def steps (i : ℕ) (call : ExchangeCall) (n : ℕ) : List (Async.Event ExchangeCall Infra) :=
  .begin i call :: List.replicate n (.step i Infra.ok)

/-- What `opening` does, one call after the other. -/
def openingCalls : List (Async.Event ExchangeCall Infra) :=
  steps 0 (.other (.createWalletForUser alice alice) rfl) 2 ++
  steps 1 (.other (.createWalletForUser bob bob) rfl) 2 ++
  steps 2 (.other (.createMarket 1000 market 0) rfl) 2 ++
  steps 3 (.other (.deposit alice (depositDto "deposit-alice" (by decide) (by decide)) 1) rfl) 2 ++
  steps 4 (.other (.deposit bob (depositDto "deposit-bob" (by decide) (by decide)) 1) rfl) 2

/-- The exchange, as it is played. -/
def play (D : Pool services Err World → Async.Event ExchangeCall Infra → Bool)
    (es : List (Async.Event ExchangeCall Infra)) : Option (Pool services Err World) :=
  Pool.play (machine "olx") ExchangeCall.code D es ⟨World.empty, fun _ => none⟩

/-- A run of calls below `n`, each of which has returned at the end. -/
def ends (D : Pool services Err World → Async.Event ExchangeCall Infra → Bool)
    (es : List (Async.Event ExchangeCall Infra)) (n : ℕ) (p : World → Bool) : Bool :=
  es.all (fun e => e.call < n) && (play D es).any fun b => b.endedBelow n && p b.world

theorem exists_of_ends {C : Pool services Err World → Async.Event ExchangeCall Infra → Prop}
    {D : Pool services Err World → Async.Event ExchangeCall Infra → Bool}
    (hD : ∀ b e, D b e = true → C b e) {es : List (Async.Event ExchangeCall Infra)} {n : ℕ}
    {p : World → Bool} (h : ends D es n p = true) :
    ∃ b, ((exchangeCalls "olx").restrict C).Reachable b ∧ b.AtRest ∧ p b.world = true := by
  unfold exchangeCalls
  refine Pool.exists_of_play hD ?_ n h
  rfl

end Sample

end OutcomeExchange
