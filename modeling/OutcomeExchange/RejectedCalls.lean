import OutcomeExchange.LifeCycle
import OutcomeExchange.Runs
import OutcomeExchange.Services

set_option autoImplicit false

/-! # Rejected calls

A call is executed from any state, and at most one of its operations meets a fault. Some of
what a call does follows its transaction, and what follows is guarded by a `try`/`catch` in
some places only: `FaultHarmless` says which faults leave a call that rejects without a
trace in the database. -/

namespace OutcomeExchange

open Txn Redis Jobs Async

/-- An operation that meets no fault. -/
def Works (_ : ServiceOp) (c : Infra) : Prop := c.failing = none

/-- An operation that meets a fault; a transaction meets it at any one of its statements. -/
def Fails (_ : ServiceOp) (c : Infra) : Prop := c.failing ≠ none

/-- Executed on `w`, with a fault at the operation `fault` or none at all, `p` can end with `r`
and leave `w'`. -/
def Ends {α : Type} (keyPrefix : String) (fault : Option ServiceOp) (p : Service α) (w : World)
    (r : Except Err α) (w' : World) : Prop :=
  match fault with
  | none => p.Runs (machine keyPrefix) Works w r w'
  | some op => p.Faulted (machine keyPrefix) Works Fails w op r w'

def Rejects {α : Type} (r : Except Err α) : Prop := ∃ e, r = .error e

/-- The calls of the queue by which `retrySettlementByTradeId` brings a job back. -/
def ServiceOp.bringsBack : ServiceOp → Bool
  | .getJob _ => true
  | .getState _ => true
  | .retryJob _ => true
  | .addJob _ => true
  | _ => false

/-- The trade is there and has failed. -/
def Db.TradeFailed (db : Db) (tradeId : Uuid) : Prop :=
  ∃ trade, db.trades.find? tradeId = some trade ∧ trade.status = .FAILED

/-- The user has an order with this key. -/
def Db.HasOrder (db : Db) (userId : Uuid) (idempotencyKey : String) : Prop :=
  ∃ o ∈ db.orders.rows, o.userId = userId ∧ o.idempotencyKey = idempotencyKey

/-- A fault at this operation does no harm: the call has committed nothing when it comes to
the operation, or catches the error. -/
def FaultHarmless (w : World) (fault : Option ServiceOp) : ApiCall → Prop
  | .deposit _ _ _ => True
  | .withdraw _ _ _ => True
  | .resolveMarket _ _ _ => True
  | .placeOrder userId dto _ =>
      (∃ order, fault = some (.projectOpenOrder order)) → w.db.HasOrder userId dto.idempotencyKey
  | .cancelOrder _ _ _ => ¬ ∃ order, fault = some (.removeOpenOrder order)
  | .retryByTradeId tradeId _ =>
      (∃ op, fault = some op ∧ op.bringsBack = true) → ¬ w.db.TradeFailed tradeId.uuid
  | .retryByJobId jobId _ =>
      (∃ op, fault = some op ∧ op.bringsBack = true) →
        ∀ job, w.queue jobId = some job → ¬ w.db.TradeFailed job.data.uuid

section Ends

variable {α β : Type} {keyPrefix : String} {fault : Option ServiceOp} {w w' : World}

theorem not_rejects_ok {a : α} : ¬ Rejects (.ok a) := by
  rintro ⟨e, he⟩
  cases he

theorem ends_bind {p : Service α} {f : α → Service β} {r : Except Err β}
    (h : Ends keyPrefix fault (p >>= f) w r w') :
    (∃ a w₁, Ends keyPrefix fault p w (.ok a) w₁ ∧ Ends keyPrefix none (f a) w₁ r w') ∨
      (∃ e, r = .error e ∧ Ends keyPrefix fault p w (.error e) w') ∨
        ∃ a w₁, Ends keyPrefix none p w (.ok a) w₁ ∧ Ends keyPrefix fault (f a) w₁ r w' := by
  cases fault with
  | none => exact (Code.runs_bind.mp h).imp_right Or.inl
  | some op => exact Code.faulted_bind.mp h

theorem ends_pure {a : α} {r : Except Err α}
    (h : Ends keyPrefix fault (pure a : Service α) w r w') : fault = none ∧ r = .ok a ∧ w' = w := by
  cases fault with
  | none => exact ⟨rfl, h⟩
  | some op => exact h.elim

theorem ends_throw {e : Err} {r : Except Err α}
    (h : Ends keyPrefix fault (Code.throw e : Service α) w r w') :
    fault = none ∧ r = .error e ∧ w' = w := by
  cases fault with
  | none => exact ⟨rfl, h⟩
  | some op => exact h.elim

/-- The operation fails exactly if the fault is there. -/
theorem ends_call {op : ServiceOp} {r : Except Err op.Answer}
    (h : Ends keyPrefix fault op.call w r w') : ∃ c, (machine keyPrefix).step c w op = (r, w') ∧
      ((fault = none ∧ c.failing = none) ∨ (fault = some op ∧ c.failing ≠ none)) := by
  cases fault with
  | none =>
      have hruns : (Code.call (I := services) op).Runs (machine keyPrefix) Works w r w' := h
      obtain ⟨c, hc, hstep⟩ := Code.runs_call.mp hruns
      exact ⟨c, hstep, Or.inl ⟨rfl, hc⟩⟩
  | some op' =>
      have hfaulted :
          (Code.call (I := services) op).Faulted (machine keyPrefix) Works Fails w op' r w' := h
      obtain ⟨hop, c, hc, hstep⟩ := Code.faulted_call.mp hfaulted
      exact ⟨c, hstep, Or.inr ⟨by rw [hop], hc⟩⟩

/-- Code that begins with a transaction: it is rolled back, or it commits without a fault. -/
theorem ends_transaction {a : Action} {f : a.Result → Service β} {r : Except Err β}
    (h : Ends keyPrefix fault ((ServiceOp.transaction a).call >>= f) w r w') :
    (Rejects r ∧ w' = w ∧ (fault = none ∨ fault = some (.transaction a))) ∨
      ∃ x db busy, Exec (.serial busy) a.tx w.db x db ∧
        Ends keyPrefix fault (f x) { w with db := db } r w' := by
  have commits : ∀ {fault' : Option ServiceOp} {x : a.Result} {w₁ : World},
      Ends keyPrefix fault' (ServiceOp.transaction a).call w (.ok x) w₁ →
        fault' = none ∧ ∃ db busy, w₁ = { w with db := db } ∧
          Exec (.serial busy) a.tx w.db x db := by
    intro fault' x w₁ hcall
    obtain ⟨c, hstep, hfault⟩ := ends_call hcall
    rcases machine_transaction hstep with ⟨e, he, -⟩ | ⟨x', db, hx, hw, hc, hrun⟩
    · cases he
    · cases hx
      rcases hfault with ⟨hf, -⟩ | ⟨-, hc'⟩
      · exact ⟨hf, db, _, hw, exec_of_run hrun⟩
      · exact absurd hc hc'
  rcases ends_bind h with ⟨x, w₁, htx, hrest⟩ | ⟨e, rfl, htx⟩ | ⟨x, w₁, htx, hrest⟩
  · obtain ⟨rfl, db, busy, rfl, hexec⟩ := commits htx
    exact Or.inr ⟨x, db, busy, hexec, hrest⟩
  · obtain ⟨c, hstep, hfault⟩ := ends_call htx
    rcases machine_transaction hstep with ⟨e', -, hw⟩ | ⟨x', db, hx, -⟩
    · exact Or.inl ⟨⟨e, rfl⟩, hw, hfault.imp And.left And.left⟩
    · cases hx
  · obtain ⟨-, db, busy, rfl, hexec⟩ := commits htx
    exact Or.inr ⟨x, db, busy, hexec, hrest⟩

/-- Code that begins with another operation: it meets the fault there, or it answers as the
operation does. -/
theorem ends_perform {op : ServiceOp} (hop : op.isTransaction = false) {f : op.Answer → Service β}
    {r : Except Err β} (h : Ends keyPrefix fault (op.call >>= f) w r w') :
    (fault = some op ∧ Rejects r ∧ w' = w) ∨
      (∃ c e, fault = none ∧ Rejects r ∧ w.perform keyPrefix c op = (.error e, w')) ∨
        ∃ c x w₁, w.perform keyPrefix c op = (.ok x, w₁) ∧ Ends keyPrefix fault (f x) w₁ r w' := by
  have works : ∀ {fault' : Option ServiceOp} {x : op.Answer} {w₁ : World},
      Ends keyPrefix fault' op.call w (.ok x) w₁ →
        fault' = none ∧ ∃ c, w.perform keyPrefix c op = (.ok x, w₁) := by
    intro fault' x w₁ hcall
    obtain ⟨c, hstep, ⟨hf, hc⟩ | ⟨-, hc⟩⟩ := ends_call hcall
    · rw [machine_works hc] at hstep
      exact ⟨hf, c, hstep⟩
    · rw [machine_fails hop hc] at hstep
      cases hstep
  rcases ends_bind h with ⟨x, w₁, hcall, hrest⟩ | ⟨e, rfl, hcall⟩ | ⟨x, w₁, hcall, hrest⟩
  · obtain ⟨rfl, c, hperform⟩ := works hcall
    exact Or.inr (Or.inr ⟨c, x, w₁, hperform, hrest⟩)
  · obtain ⟨c, hstep, ⟨hf, hc⟩ | ⟨hf, hc⟩⟩ := ends_call hcall
    · rw [machine_works hc] at hstep
      exact Or.inr (Or.inl ⟨c, e, hf, ⟨e, rfl⟩, hstep⟩)
    · rw [machine_fails hop hc] at hstep
      cases hstep
      exact Or.inl ⟨hf, ⟨_, rfl⟩, rfl⟩
  · obtain ⟨-, c, hperform⟩ := works hcall
    exact Or.inr (Or.inr ⟨c, x, w₁, hperform, hrest⟩)

theorem ends_discard {p : Service α} {r : Except Err Unit}
    (h : Ends keyPrefix fault p.discard w r w') :
    ∃ r', Ends keyPrefix fault p w r' w' ∧ (Rejects r ↔ Rejects r') := by
  rcases ends_bind h with ⟨a, w₁, hp, hret⟩ | ⟨e, rfl, hp⟩ | ⟨a, w₁, hp, hret⟩
  · obtain ⟨-, rfl, rfl⟩ := ends_pure hret
    exact ⟨_, hp, by simp [Rejects]⟩
  · exact ⟨_, hp, by simp [Rejects]⟩
  · obtain ⟨rfl, rfl, rfl⟩ := ends_pure hret
    exact ⟨_, hp, by simp [Rejects]⟩

theorem ends_neverThrows {p : Service α} (hp : p.NeverThrows) {r : Except Err α}
    (h : Ends keyPrefix fault p w r w') : ¬ Rejects r := by
  have hok : ∃ a, r = .ok a := by
    cases fault with
    | none => exact hp.runs h
    | some op => exact hp.faulted h
  obtain ⟨a, rfl⟩ := hok
  exact not_rejects_ok

/-- The fault is at one of the operations of the code. -/
theorem ends_uses {P : ServiceOp → Prop} {p : Service α} (hp : p.Uses P) {r : Except Err α}
    {op : ServiceOp} (h : Ends keyPrefix (some op) p w r w') : P op :=
  hp.faulted h

/-- Code without a transaction leaves the database alone. -/
theorem ends_db {p : Service α} (hp : p.Uses fun op : ServiceOp => op.isTransaction = false)
    {r : Except Err α} (h : Ends keyPrefix fault p w r w') : w'.db = w.db := by
  have hkeep : ∀ (c : Infra) (w₁ : World) (op : ServiceOp), op.isTransaction = false →
      w₁.db = w.db → ((machine keyPrefix).step c w₁ op).2.db = w.db := by
    intro c w₁ op hop hdb
    rw [machine_db hop, hdb]
  cases fault with
  | none => exact hp.runs (J := fun w₁ : World => w₁.db = w.db) hkeep h rfl
  | some op => exact hp.faulted_keeps (J := fun w₁ : World => w₁.db = w.db) hkeep h rfl

end Ends

/-! ## Placements and cancellations -/

section Uses

open MatchingEngineBroadcastService

/-- An operation that is not the projection of an order. -/
def ServiceOp.NoProjection (op : ServiceOp) : Prop := ∀ order, op ≠ .projectOpenOrder order

theorem uses_broadcast_noProjection (marketId : UuidString) :
    (broadcastOrderBookUpdate marketId).Uses ServiceOp.NoProjection :=
  uses_broadcastOrderBookUpdate (fun _ _ _ h => by cases h) (fun _ _ _ h => by cases h)
    (fun _ _ h => by cases h) (fun _ _ h => by cases h) marketId

theorem uses_afterMatch_noProjection (matched : Matched) (failedAt : Timestamp) :
    (MatchingEngineService.afterMatch matched failedAt).Uses ServiceOp.NoProjection := by
  have hremove : ∀ order, (OrderBookProjectionService.removeOpenOrder order).Uses
      ServiceOp.NoProjection := fun order => Code.uses_call fun _ h => by cases h
  refine Code.uses_bind (uses_logged ?_) fun _ => Code.uses_bind (Code.uses_attempt ?_ ?_) ?_
  · refine Code.uses_bind (Code.uses_attempt ?_ fun _ => trivial) fun removed => ?_
    · exact Code.uses_bind (hremove _) fun _ => trivial
    · refine Code.uses_bind (hremove _) fun _ => ?_
      cases removed <;> trivial
  · exact Code.uses_bind (Code.uses_call fun _ h => by cases h) fun _ => trivial
  · refine fun _ => Code.uses_bind (uses_logged ?_) fun _ => trivial
    refine Code.uses_bind (Code.uses_call fun _ h => by cases h) fun userIds => ?_
    exact uses_broadcastBalances (fun _ _ h => by cases h) (fun _ _ h => by cases h) _
  · intro added
    cases added with
    | false => trivial
    | true =>
        refine uses_logged (Code.uses_bind (Code.uses_call fun _ h => by cases h) fun _ => ?_)
        exact uses_broadcast_noProjection _

theorem uses_tryMatchOrder_noProjection (orderId tradeId : Uuid) (failedAt : Timestamp) :
    (MatchingEngineService.tryMatchOrder orderId tradeId failedAt).Uses ServiceOp.NoProjection := by
  refine Code.uses_bind (Code.uses_call fun _ h => by cases h) fun matched => ?_
  cases matched with
  | none => trivial
  | some matched => exact uses_afterMatch_noProjection matched failedAt

end Uses

section Calls

open MatchingEngineBroadcastService

variable {keyPrefix : String} {fault : Option ServiceOp} {w w' : World}

/-- A placement changes the database only if the user has no order with this key, and then it
returns an open order. -/
theorem placeOrder_cases {userId : Uuid} {dto : PlaceOrderDto} {orderId : Uuid}
    {now createdAt : Timestamp} {busy : RowId → Prop} {s t : Db} {order : OrderEntity}
    (h : Exec (.serial busy) (placeOrder userId dto orderId now createdAt) s order t) :
    (s.HasOrder userId dto.idempotencyKey ∧ t = s) ∨
      (¬ s.HasOrder userId dto.idempotencyKey ∧ order.row.status = .OPEN ∧ t ≠ s) := by
  rcases exec_placeOrder h with ⟨hsame, -, hmem, huser, hkey⟩ | ⟨rfl, hplaced, habsent⟩
  · rw [stale_serial, false_or] at hmem
    exact Or.inl ⟨⟨order.row, hmem, huser, hkey⟩, hsame⟩
  · rw [stale_serial, false_or] at habsent
    obtain ⟨-, hrows⟩ := Table.insert?_eq_some hplaced.inserted
    refine Or.inr ⟨?_, rfl, ?_⟩
    · rintro ⟨o, ho, huser, hkey⟩
      exact habsent o ho huser hkey
    · intro hsame
      rw [hsame] at hrows
      have hlen := congrArg List.length hrows
      simp at hlen

theorem ends_placeOrder {userId : Uuid} {dto : PlaceOrderDto} {ids : PlacementIds}
    {r : Except Err OrderEntity}
    (h : Ends keyPrefix fault (OrdersService.placeOrder userId dto ids) w r w') :
    (Rejects r → w'.db = w.db) ↔
      ((∃ order, fault = some (.projectOpenOrder order)) → w.db.HasOrder userId dto.idempotencyKey) := by
  have hreturn : ∀ order : OrderEntity, (do
      logged (broadcastOrderBookUpdate order.marketId)
      logged (MatchingEngineService.tryMatchOrder order.row.id ids.tradeId ids.failedAt)
      return order : Service OrderEntity).NeverThrows := fun order =>
    Code.neverThrows_bind (neverThrows_logged _) fun _ =>
      Code.neverThrows_bind (neverThrows_logged _) fun _ => trivial
  have huses : ∀ order : OrderEntity, (do
      logged (broadcastOrderBookUpdate order.marketId)
      logged (MatchingEngineService.tryMatchOrder order.row.id ids.tradeId ids.failedAt)
      return order : Service OrderEntity).Uses ServiceOp.NoProjection := fun order =>
    Code.uses_bind (uses_logged (uses_broadcast_noProjection _)) fun _ =>
      Code.uses_bind (uses_logged (uses_tryMatchOrder_noProjection _ _ _)) fun _ => trivial
  rcases ends_transaction h with ⟨-, hw, hfault⟩ | ⟨order, db, busy, hexec, hrest⟩
  · refine iff_of_true (fun _ => by rw [hw]) ?_
    rintro ⟨order, horder⟩
    rcases hfault with hfault | hfault <;> rw [hfault] at horder <;> cases horder
  -- what is left of the call, with an open order and without
  have after : ∀ {w₁ : World}, Ends keyPrefix fault (do
      logged (broadcastOrderBookUpdate order.marketId)
      logged (MatchingEngineService.tryMatchOrder order.row.id ids.tradeId ids.failedAt)
      return order : Service OrderEntity) w₁ r w' →
        ¬ Rejects r ∧ ¬ ∃ o, fault = some (.projectOpenOrder o) := by
    intro w₁ hends
    refine ⟨ends_neverThrows (hreturn order) hends, ?_⟩
    rintro ⟨o, rfl⟩
    exact ends_uses (huses order) hends o rfl
  rcases placeOrder_cases hexec with ⟨hhas, hsame⟩ | ⟨hnew, hopen, hne⟩
  · refine iff_of_true (fun hrejects => ?_) fun _ => hhas
    subst hsame
    by_cases hopen : order.row.status = .OPEN
    · rw [OrderBookProjectionService.projectOpenOrder_of_open hopen] at hrest
      rcases ends_perform rfl hrest with ⟨-, -, hw⟩ | ⟨c, e, -, -, hperform⟩ | ⟨c, x, w₁, -, hrest⟩
      · rw [hw]
      · cases hperform
      · exact absurd hrejects (after hrest).1
    · rw [OrderBookProjectionService.projectOpenOrder_of_not_open hopen] at hrest
      exact absurd hrejects (after hrest).1
  · rw [OrderBookProjectionService.projectOpenOrder_of_open hopen] at hrest
    rcases ends_perform rfl hrest with ⟨hf, hr, hw⟩ | ⟨c, e, -, -, hperform⟩ | ⟨c, x, w₁, -, hrest⟩
    · refine iff_of_false (fun hkeeps => hne ?_) fun hharmless => hnew (hharmless ⟨order, hf⟩)
      rw [← hkeeps hr, hw]
    · cases hperform
    · obtain ⟨hok, hno⟩ := after hrest
      exact iff_of_true (fun hr => absurd hr hok) fun hf => absurd hf hno

/-- A cancellation that commits changes the database. -/
theorem cancelOrder_changes {userId orderId : Uuid} {createdAt : Timestamp} {busy : RowId → Prop}
    {s t : Db} {order : Order}
    (h : Exec (.serial busy) (cancelOrder userId orderId createdAt) s order t) : t ≠ s := by
  intro hsame
  have hcancelled := (exec_cancelOrder h).1
  have hset := hcancelled.statusSet
  obtain @⟨order', hfound, -, hopen, -, -, -⟩ := hcancelled
  have hafter := hset.find?_mem (List.mem_singleton_self _) hfound
  rw [hsame, hfound] at hafter
  have hstatus := congrArg (fun o : Option Order => o.map Order.status) hafter
  simp [hopen] at hstatus

theorem ends_cancelOrder {userId orderId : Uuid} {createdAt : Timestamp} {r : Except Err Order}
    (h : Ends keyPrefix fault (OrdersService.cancelOrder userId orderId createdAt) w r w') :
    (Rejects r → w'.db = w.db) ↔ ¬ ∃ order, fault = some (.removeOpenOrder order) := by
  rcases ends_transaction h with ⟨-, hw, hfault⟩ | ⟨order, db, busy, hexec, hrest⟩
  · refine iff_of_true (fun _ => by rw [hw]) ?_
    rintro ⟨order, horder⟩
    rcases hfault with hfault | hfault <;> rw [hfault] at horder <;> cases horder
  have hne : db ≠ w.db := cancelOrder_changes hexec
  rcases ends_perform rfl hrest with ⟨hf, hr, hw⟩ | ⟨c, e, -, -, hperform⟩ | ⟨c, x, w₁, -, hrest⟩
  · refine iff_of_false (fun hkeeps => hne ?_) fun hharmless => hharmless ⟨order, hf⟩
    rw [← hkeeps hr, hw]
  · cases hperform
  · have hok : ¬ Rejects r := by
      refine ends_neverThrows ?_ hrest
      exact Code.neverThrows_bind (neverThrows_logged _) fun _ => trivial
    refine iff_of_true (fun hr => absurd hr hok) ?_
    rintro ⟨o, rfl⟩
    -- the broadcast removes nothing from the projection
    have huses : (do
        logged (broadcastOrderBookUpdate order.marketId)
        return order : Service Order).Uses fun op : ServiceOp => ∀ o, op ≠ .removeOpenOrder o :=
      Code.uses_bind (uses_logged (uses_broadcastOrderBookUpdate (fun _ _ _ h => by cases h)
        (fun _ _ _ h => by cases h) (fun _ _ h => by cases h) (fun _ _ h => by cases h) _))
        fun _ => trivial
    exact ends_uses huses hrest o rfl

end Calls

/-! ## Retries -/

section Retries

open MatchingEngineBroadcastService SettlementQueueService

variable {keyPrefix : String} {fault : Option ServiceOp} {w w' : World} {tradeId : UuidString}

theorem ends_enqueue {r : Except Err SettlementQueueRetryResult}
    (h : Ends keyPrefix fault (enqueue tradeId) w r w') :
    w'.db = w.db ∧ (Rejects r ↔ ∃ op, fault = some op ∧ op.bringsBack = true) := by
  rcases ends_perform rfl h with ⟨hf, hr, hw⟩ | ⟨c, e, -, -, hperform⟩ | ⟨c, x, w₁, hperform, hrest⟩
  · exact ⟨by rw [hw], iff_of_true hr ⟨_, hf, rfl⟩⟩
  · cases hperform
  · obtain ⟨rfl, rfl, rfl⟩ := ends_pure hrest
    cases hperform
    refine ⟨rfl, iff_of_false not_rejects_ok ?_⟩
    rintro ⟨op, hop, -⟩
    cases hop

theorem ends_replace {r : Except Err SettlementQueueRetryResult}
    (h : Ends keyPrefix fault (SettlementQueueService.replace tradeId) w r w') :
    w'.db = w.db ∧ (Rejects r ↔ ∃ op, fault = some op ∧ op.bringsBack = true) := by
  have huses : ∀ {P : ServiceOp → Prop}, P (.removeJob (buildJobId tradeId)) →
      (logged (ServiceOp.removeJob (buildJobId tradeId)).call).Uses P :=
    fun hP => uses_logged (Code.uses_call hP)
  rcases ends_bind h with ⟨x, w₁, hremove, hrest⟩ | ⟨e, rfl, hremove⟩ | ⟨x, w₁, hremove, hrest⟩
  · have hdb := ends_db (huses rfl) hremove
    obtain ⟨hdb', hok⟩ := ends_enqueue hrest
    refine ⟨by rw [hdb', hdb], ?_⟩
    rw [hok]
    -- a fault at `remove` is caught
    refine iff_of_false (by simp) ?_
    rintro ⟨op, rfl, hop⟩
    have hremoves : ServiceOp.removeJob (buildJobId tradeId) = op := ends_uses (huses rfl) hremove
    rw [← hremoves] at hop
    cases hop
  · exact absurd ⟨e, rfl⟩ (ends_neverThrows (neverThrows_logged _) hremove)
  · have hdb := ends_db (huses rfl) hremove
    obtain ⟨hdb', hok⟩ := ends_enqueue hrest
    exact ⟨by rw [hdb', hdb], hok⟩

theorem ends_retrySettlement {r : Except Err SettlementQueueRetryResult}
    (h : Ends keyPrefix fault (retrySettlementByTradeId tradeId) w r w') :
    w'.db = w.db ∧ (Rejects r ↔ ∃ op, fault = some op ∧ op.bringsBack = true) := by
  rcases ends_perform rfl h with ⟨hf, hr, hw⟩ | ⟨c, e, -, -, hperform⟩ | ⟨c, x, w₁, hperform, hrest⟩
  · exact ⟨by rw [hw], iff_of_true hr ⟨_, hf, rfl⟩⟩
  · cases hperform
  cases hperform
  -- the branches on the state of the job, in the order of the source
  cases hsome : (w.queue (buildJobId tradeId)).isSome with
  | false =>
      simp only [hsome] at hrest
      exact ends_enqueue hrest
  | true =>
      simp only [hsome] at hrest
      rcases ends_perform rfl hrest with
        ⟨hf, hr, hw⟩ | ⟨c', e, -, -, hperform⟩ | ⟨c', x, w₁, hperform, hrest⟩
      · exact ⟨by rw [hw], iff_of_true hr ⟨_, hf, rfl⟩⟩
      · cases hperform
      cases hperform
      cases hjob : w.queue (buildJobId tradeId) with
      | none => simp [hjob] at hsome
      | some job =>
          simp only [hjob, Option.map_some] at hrest
          by_cases hfailed : job.state = .failed
          · rw [if_pos hfailed] at hrest
            -- a failed job is moved back, which nothing can refuse
            have hretry : ∀ c, w.perform keyPrefix c (.retryJob (buildJobId tradeId)) =
                (.ok (), { w with queue := w.queue.retry (buildJobId tradeId) }) := by
              intro c
              simp [World.perform, hjob, hfailed]
            rcases ends_perform rfl hrest with
              ⟨hf, hr, hw⟩ | ⟨c, e, -, -, hperform⟩ | ⟨c, x, w₁, hperform, hret⟩
            · exact ⟨by rw [hw], iff_of_true hr ⟨_, hf, rfl⟩⟩
            · rw [hretry] at hperform
              cases hperform
            · rw [hretry] at hperform
              cases hperform
              obtain ⟨rfl, rfl, rfl⟩ := ends_pure hret
              exact ⟨rfl, iff_of_false not_rejects_ok (by simp)⟩
          · rw [if_neg hfailed] at hrest
            by_cases hpending : isPendingState job.state = true
            · rw [if_pos hpending] at hrest
              obtain ⟨rfl, rfl, rfl⟩ := ends_pure hrest
              exact ⟨rfl, iff_of_false not_rejects_ok (by simp)⟩
            · rw [if_neg hpending] at hrest
              exact ends_replace hrest

/-- A retry that commits has rearmed its trade, if the trade has failed, and has changed
nothing otherwise. -/
theorem prepareTradeForRetry_cases {createdAt : Timestamp} {busy : RowId → Prop} {s t : Db}
    {x : RetryPreparation}
    (h : Exec (.serial busy) (prepareTradeForRetry tradeId.uuid createdAt) s x t) :
    (¬ s.TradeFailed tradeId.uuid ∧ t = s) ∨ (s.TradeFailed tradeId.uuid ∧ t ≠ s) := by
  rcases exec_prepareTradeForRetry h with ⟨hsame, ⟨trade, hfound, hpending⟩, -⟩ | ⟨hmoved, -⟩
  · refine Or.inl ⟨?_, hsame⟩
    rintro ⟨trade', hfound', hfailed⟩
    rw [hfound] at hfound'
    cases hfound'
    rw [hpending] at hfailed
    cases hfailed
  · obtain ⟨trade, hfound, hfailed, hafter⟩ := hmoved.find?_trade
    refine Or.inr ⟨⟨trade, hfound, hfailed⟩, ?_⟩
    intro hsame
    have htrade := hafter tradeId.uuid
    rw [if_pos rfl, hsame, hfound] at htrade
    have hstatus := congrArg (fun o : Option Trade => o.map Trade.status) htrade
    simp [hfailed, retryMove] at hstatus

theorem ends_retryByTradeId {createdAt : Timestamp} {r : Except Err SettlementRecoveryResult}
    (h : Ends keyPrefix fault (SettlementRecoveryService.retryByTradeId tradeId createdAt) w r w') :
    (Rejects r → w'.db = w.db) ↔
      ((∃ op, fault = some op ∧ op.bringsBack = true) → ¬ w.db.TradeFailed tradeId.uuid) := by
  rcases ends_transaction h with ⟨-, hw, hfault⟩ | ⟨x, db, busy, hexec, hrest⟩
  · refine iff_of_true (fun _ => by rw [hw]) ?_
    rintro ⟨op, hop, hbrings⟩
    rcases hfault with hfault | hfault
    · rw [hfault] at hop
      cases hop
    · rw [hfault] at hop
      cases hop
      cases hbrings
  have hqueue : w'.db = db ∧ (Rejects r ↔ ∃ op, fault = some op ∧ op.bringsBack = true) := by
    rcases ends_bind hrest with ⟨q, w₁, hretry, hret⟩ | ⟨e, rfl, hretry⟩ | ⟨q, w₁, hretry, hret⟩
    · obtain ⟨hdb, hrejects⟩ := ends_retrySettlement hretry
      obtain ⟨-, rfl, rfl⟩ := ends_pure hret
      exact ⟨hdb, by rw [← hrejects]; exact iff_of_false not_rejects_ok not_rejects_ok⟩
    · obtain ⟨hdb, hrejects⟩ := ends_retrySettlement hretry
      exact ⟨hdb, by rw [← hrejects]; exact iff_of_true ⟨e, rfl⟩ ⟨e, rfl⟩⟩
    · obtain ⟨hdb, hrejects⟩ := ends_retrySettlement hretry
      obtain ⟨rfl, rfl, rfl⟩ := ends_pure hret
      exact ⟨hdb, iff_of_false not_rejects_ok (by simp)⟩
  obtain ⟨hdb, hrejects⟩ := hqueue
  rw [hdb, hrejects]
  rcases prepareTradeForRetry_cases hexec with ⟨hnot, hsame⟩ | ⟨hfailed, hne⟩
  · exact iff_of_true (fun _ => hsame) fun _ => hnot
  · exact imp_congr_right fun _ => iff_of_false hne (not_not.mpr hfailed)

theorem ends_retryByJobId {jobId : String} {createdAt : Timestamp}
    {r : Except Err SettlementRecoveryResult}
    (h : Ends keyPrefix fault (SettlementRecoveryService.retryByJobId jobId createdAt) w r w') :
    (Rejects r → w'.db = w.db) ↔ ((∃ op, fault = some op ∧ op.bringsBack = true) →
      ∀ job, w.queue jobId = some job → ¬ w.db.TradeFailed job.data.uuid) := by
  rcases ends_perform rfl h with ⟨hf, -, hw⟩ | ⟨c, e, -, -, hperform⟩ | ⟨c, x, w₁, hperform, hrest⟩
  · refine iff_of_true (fun _ => by rw [hw]) ?_
    rintro ⟨op, hop, hbrings⟩
    rw [hf] at hop
    cases hop
    cases hbrings
  · cases hperform
  cases hperform
  cases hjob : w.queue jobId with
  | none =>
      simp only [hjob, Option.map_none] at hrest
      obtain ⟨-, -, hw⟩ := ends_throw hrest
      refine iff_of_true (fun _ => by rw [hw]) ?_
      rintro - job ⟨⟩
  | some job =>
      simp only [hjob, Option.map_some] at hrest
      rw [ends_retryByTradeId hrest]
      simp

end Retries

/-! ## Every fault point -/

section Theorem

variable {keyPrefix : String} {fault : Option ServiceOp} {w w' : World}

theorem ends_single {a : Action} {r : Except Err Unit}
    (h : Ends keyPrefix fault (ServiceOp.transaction a).call.discard w r w') :
    Rejects r → w'.db = w.db := by
  intro hr
  rcases ends_transaction h with ⟨-, hw, -⟩ | ⟨x, db, busy, -, hret⟩
  · rw [hw]
  · obtain ⟨-, rfl, -⟩ := ends_pure hret
    exact absurd hr not_rejects_ok

/-- **A rejected call leaves the database as it was, unless it was hit by a fault that does
harm.** -/
theorem rejected_call_unchanged_iff {p : ApiCall} {r : Except Err Unit}
    (h : Ends keyPrefix fault p.code w r w') :
    (Rejects r → w'.db = w.db) ↔ FaultHarmless w fault p := by
  cases p with
  | deposit userId dto createdAt => exact iff_of_true (ends_single h) trivial
  | withdraw userId dto createdAt => exact iff_of_true (ends_single h) trivial
  | resolveMarket marketId winningSide createdAt => exact iff_of_true (ends_single h) trivial
  | placeOrder userId dto ids =>
      obtain ⟨r', h', hr⟩ := ends_discard h
      rw [hr]
      exact ends_placeOrder h'
  | cancelOrder userId orderId createdAt =>
      obtain ⟨r', h', hr⟩ := ends_discard h
      rw [hr]
      exact ends_cancelOrder h'
  | retryByTradeId tradeId createdAt =>
      obtain ⟨r', h', hr⟩ := ends_discard h
      rw [hr]
      exact ends_retryByTradeId h'
  | retryByJobId jobId createdAt =>
      obtain ⟨r', h', hr⟩ := ends_discard h
      rw [hr]
      exact ends_retryByJobId h'

end Theorem

/-! ## A placement whose projection fails

Alice places an order, and Redis fails at one of the commands that follow the transaction. -/

namespace Sample

def placement : ApiCall := .placeOrder alice yesDto ⟨yesOrder, 2, 2, trade, 3⟩

/-- The exchange before any order, with an empty Redis. -/
def worldOf (s : Db) : World := ⟨s, Store.empty, Queue.empty, []⟩

def broken : Infra := ⟨fun _ => false, some 0⟩

/-- The placement, with a fault at operation number `n`. -/
def placed (n : ℕ) (s : Db) : Except Err Unit × World :=
  placement.code.run (machine "olx") Infra.ok (List.replicate n Infra.ok ++ [broken]) (worldOf s)

/-- Operation number `n` of the placement. -/
def placementOp (n : ℕ) (s : Db) : Option ServiceOp :=
  placement.code.opAt (machine "olx") Infra.ok n (worldOf s)

theorem ends_placed {n : ℕ} {s : Db} {op : ServiceOp} (h : placementOp n s = some op) :
    Ends "olx" (some op) placement.code (worldOf s) (placed n s).1 (placed n s).2 := by
  have hbroken : Fails op broken := by simp [Fails, broken]
  exact Code.faulted_run (A := Works) (fun _ => rfl) hbroken h

/-- The fault hits the projection, and the rejected call has placed an order. -/
def projectionFails (s : Db) : Bool :=
  (match placementOp 1 s with
    | some (.projectOpenOrder _) => true
    | _ => false) &&
  (match (placed 1 s).1 with
    | .error _ => true
    | .ok _ => false) &&
  (placed 1 s).2.db.orders.rows.length ≠ s.orders.rows.length

/-- The fault hits the transaction, and the call is rejected. -/
def transactionFails (s : Db) : Bool :=
  (match placementOp 0 s with
    | some (.transaction _) => true
    | _ => false) &&
  (match (placed 0 s).1 with
    | .error _ => true
    | .ok _ => false)

end Sample

/-- A fault at the first statement of the transaction. -/
theorem rejected_call_unchanged_sample : ∃ s : Db, ∃ fault : ServiceOp,
    Ends "olx" (some fault) Sample.placement.code (Sample.worldOf s) (Sample.placed 0 s).1
        (Sample.placed 0 s).2 ∧
      Rejects (Sample.placed 0 s).1 ∧ (Sample.placed 0 s).2.db = s := by
  have hrun : leads (fun _ _ => true) Sample.opening Sample.transactionFails = true := by
    decide +kernel
  obtain ⟨s, -, hs⟩ := exists_of_leads hrun
  unfold Sample.transactionFails at hs
  rw [Bool.and_eq_true] at hs
  obtain ⟨hop, herror⟩ := hs
  split at hop
  · rename_i a hop'
    have hends := Sample.ends_placed hop'
    split at herror
    · rename_i e he
      have hrejects : Rejects (Sample.placed 0 s).1 := ⟨e, he⟩
      refine ⟨s, _, hends, hrejects, (rejected_call_unchanged_iff hends).mpr ?_ hrejects⟩
      rintro ⟨order, horder⟩
      cases horder
    · cases herror
  · cases hop

/-- The placement is rejected, and the order has been placed. -/
theorem rejected_call_changes : ¬ ∀ (s : Db) (fault : ServiceOp) (p : ApiCall)
    (r : Except Err Unit) (w' : World), exchange.Reachable s →
      Ends "olx" (some fault) p.code (Sample.worldOf s) r w' → Rejects r → w'.db = s := by
  intro hclaim
  have hrun : leads (fun _ _ => true) Sample.opening Sample.projectionFails = true := by
    decide +kernel
  obtain ⟨s, hreach, hs⟩ := exchange_of_leads (C := fun _ _ => True) (fun _ _ _ => trivial) hrun
  unfold Sample.projectionFails at hs
  rw [Bool.and_eq_true, Bool.and_eq_true] at hs
  obtain ⟨⟨hop, hrejects⟩, hlength⟩ := hs
  split at hop
  · rename_i order hop'
    split at hrejects
    · rename_i e he
      have hsame := hclaim s _ _ _ _ hreach.of_restrict (Sample.ends_placed hop') ⟨e, he⟩
      rw [hsame] at hlength
      simp at hlength
    · cases hrejects
  · cases hop

end OutcomeExchange
