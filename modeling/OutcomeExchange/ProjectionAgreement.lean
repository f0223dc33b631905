import OutcomeExchange.ProjectedBook

set_option autoImplicit false

/-! # The projection against the database

Every call that opens an order projects it in a later step, and every call that cancels or
matches an order removes it in a later step. The invariant (`Tracked`) is that an order
that is missing is still to be projected by a call in flight, and that one that is stale is
still to be removed by one.

Two steps can break it. One projects an order that is no longer open when no call is left that
will remove it (`Stale`): the order was read before it was matched or cancelled. The other is a
placement that spells its market otherwise than PostgreSQL does: the order is then projected
into a sorted set of that spelling. -/

namespace OutcomeExchange

open Txn Redis Async

/-- No command to Redis fails. -/
def RedisWorks (op : ServiceOp) (c : Infra) : Prop := op.isRedis = true → c.failing = none

/-- A placement spells its market as PostgreSQL does. -/
def ServiceOp.Spelled : ServiceOp → Prop
  | .transaction (.placeOrder _ dto _ _ _) => dto.marketId.Canonical
  | _ => True

/-- No command to Redis fails, and the markets of the placements are spelled as PostgreSQL does. -/
def BookWorks (op : ServiceOp) (c : Infra) : Prop := RedisWorks op c ∧ op.Spelled

def Projects (id : Uuid) : ServiceOp → Prop
  | .projectOpenOrder order => order.row.id = id
  | _ => False

def Removes (id : Uuid) : ServiceOp → Prop
  | .removeOpenOrder order => order.id = id
  | _ => False

/-! ## What the calls may assume and have to do -/

section Contract

variable (keyPrefix : String)

def Before (w : World) : ServiceOp → Prop
  | .transaction a => a.Starts w.db
  | .projectOpenOrder order => order.marketId = order.row.marketId ∧
      ∃ st, w.db.orders.find? order.row.id = some (order.row.withStatus st)
  | .removeOpenOrder order =>
      ∃ st, w.db.orders.find? order.id = some (order.withStatus st) ∧ st ≠ .OPEN
  | _ => True

/-- After a transaction, the order that it has opened is to be projected, and the orders that
it has cancelled or matched are to be removed. -/
def Owes : (op : ServiceOp) → Except Err op.Answer → {α : Type} → Service α → Prop
  | .transaction a, .ok r, _, p =>
      (∀ o, a.opens r o → p.Will (Projects o.id)) ∧ ∀ o, a.consumes r o → p.Will (Removes o.id)
  | _, _, _, _ => True

/-- The world stays sound, and the orders are kept. -/
def Kept (w w' : World) : Prop :=
  w.Sound keyPrefix → w'.Sound keyPrefix ∧ OrdersKept w.db w'.db

theorem kept_of_eq {w w' : World} (hdb : w'.db = w.db) (hredis : w'.redis = w.redis) :
    Kept keyPrefix w w' := by
  intro hw
  refine ⟨hw.congr hdb hredis, ?_⟩
  rw [hdb]
  exact OrdersKept.refl w.db

theorem kept_step {c : Infra} {w : World} {op : ServiceOp} (hc : RedisWorks op c)
    (hbefore : Before w op) : Kept keyPrefix w ((machine keyPrefix).step c w op).2 := by
  cases op with
  | transaction a =>
      cases hstep : (machine keyPrefix).step c w (.transaction a) with
      | mk r w' =>
          rcases machine_transaction hstep with ⟨e, -, rfl⟩ | ⟨x, db, -, rfl, -, hrun⟩
          · exact kept_of_eq keyPrefix rfl rfl
          · exact fun hw => hw.transaction hbefore (exec_of_run hrun) rfl
  | projectOpenOrder order =>
      rw [machine_works (hc rfl)]
      obtain ⟨hspelled, st, hst⟩ := hbefore
      refine fun hw => ⟨hw.project hst rfl ?_, OrdersKept.refl w.db⟩
      rw [← projectCommands_of_spelled hspelled]
      rfl
  | removeOpenOrder order =>
      rw [machine_works (hc rfl)]
      obtain ⟨st, hst, -⟩ := hbefore
      exact fun hw => ⟨hw.remove hst rfl rfl, OrdersKept.refl w.db⟩
  | _ => exact kept_of_eq keyPrefix (machine_db rfl) (machine_redis rfl)

def bookContract : Contract (machine keyPrefix) BookWorks where
  rely := Kept keyPrefix
  rely_refl _ := kept_of_eq keyPrefix rfl rfl
  rely_trans h h' hw :=
    ⟨(h' (h hw).1).1, (h hw).2.trans (h' (h hw).1).2⟩
  before := Before
  rely_step hc hbefore := kept_step keyPrefix hc.1 hbefore
  owes := Owes
  owes_bind {op r _ _ _ _} h := by
    unfold Owes at h ⊢
    split at h
    · exact ⟨fun o ho => Code.will_bind (h.1 o ho), fun o ho => Code.will_bind (h.2 o ho)⟩
    · trivial
  owes_attempt {op r _ _ _} h := by
    unfold Owes at h ⊢
    split at h
    · exact ⟨fun o ho => Code.will_attempt (h.1 o ho), fun o ho => Code.will_attempt (h.2 o ho)⟩
    · trivial

end Contract

/-! ## The calls keep the contract -/

section Keeps

open MatchingEngineBroadcastService

variable {keyPrefix : String} {w : World}

/-- The contract says nothing about the other transactions and about what only reads. -/
theorem bookContract_free {op : ServiceOp} (h : op.isProjection = false)
    (ha : ∀ a, op = .transaction a → a.besideBook = true) :
    (bookContract keyPrefix).Free op := by
  cases op with
  | transaction a =>
      have hbeside : a.besideBook = true := ha a rfl
      constructor
      · intro w
        cases a with
        | reopenOrders orders => cases hbeside
        | _ => trivial
      · intro r α p
        cases r with
        | error e => trivial
        | ok r =>
            cases a with
            | placeOrder => cases hbeside
            | cancelOrder => cases hbeside
            | tryMatchOrder => cases hbeside
            | _ => exact ⟨fun o ho => ho.elim, fun o ho => ho.elim⟩
  | projectOpenOrder order => cases h
  | removeOpenOrder order => cases h
  | _ => exact ⟨fun w => trivial, fun r α p => trivial⟩

theorem bookContract_free' {op : ServiceOp} (h : op.isProjection = false)
    (hop : op.isTransaction = false) : (bookContract keyPrefix).Free op := by
  refine bookContract_free h fun a ha => ?_
  rw [ha] at hop
  cases hop

theorem keeps_projectOpenOrder {order : OrderEntity} (hw : w.Sound keyPrefix)
    (hspelled : order.marketId = order.row.marketId)
    (hfound : w.db.orders.find? order.row.id = some order.row) :
    (OrderBookProjectionService.projectOpenOrder order).Keeps (bookContract keyPrefix) w := by
  by_cases hopen : order.row.status = .OPEN
  · rw [OrderBookProjectionService.projectOpenOrder_of_open hopen]
    refine Code.keeps_call (fun w₁ hw₁ => ⟨hspelled, ?_⟩) fun _ _ _ => trivial
    obtain ⟨st, hst, -⟩ := (hw₁ hw).2 _ _ hfound
    exact ⟨st, hst⟩
  · rw [OrderBookProjectionService.projectOpenOrder_of_not_open hopen]
    exact Code.keeps_pure _

theorem keeps_removeOpenOrder {order : Order} (hw : w.Sound keyPrefix)
    (hfound : w.db.orders.find? order.id = some order) (hnot : order.status ≠ .OPEN) :
    (OrderBookProjectionService.removeOpenOrder order).Keeps (bookContract keyPrefix) w := by
  refine Code.keeps_call (fun w₁ hw₁ => ?_) fun _ _ _ => trivial
  obtain ⟨st, hst, hopen⟩ := (hw₁ hw).2 _ _ hfound
  exact ⟨st, hst, fun heq => hnot (hopen heq)⟩

theorem keeps_logged {p : Service Unit} (h : p.Keeps (bookContract keyPrefix) w) :
    (logged p).Keeps (bookContract keyPrefix) w :=
  Code.keeps_attempt h fun _ _ _ => Code.keeps_pure _

theorem keeps_broadcastOrderBookUpdate (marketId : UuidString) :
    (broadcastOrderBookUpdate marketId).Keeps (bookContract keyPrefix) w :=
  Code.keeps_of_uses (uses_broadcastOrderBookUpdate (fun _ _ => bookContract_free' rfl rfl)
    (fun _ _ => bookContract_free' rfl rfl) (fun _ => bookContract_free' rfl rfl)
    (fun _ => bookContract_free' rfl rfl) marketId) w

theorem keeps_failPendingTradeAndReleaseFunds (tradeId : Uuid) (createdAt : Timestamp) :
    (MatchingEngineService.failPendingTradeAndReleaseFunds tradeId createdAt).Keeps
      (bookContract keyPrefix) w := by
  refine Code.keeps_of_uses (Code.uses_bind (Code.uses_call ?_) fun userIds => ?_) w
  · refine bookContract_free rfl ?_
    rintro a ⟨⟩
    rfl
  · exact uses_broadcastBalances (fun _ => bookContract_free' rfl rfl)
      (fun _ => bookContract_free' rfl rfl) _

/-- Both removals are sent, whatever becomes of the first. -/
theorem will_removeMatched (matched : Matched) :
    (MatchingEngineService.removeMatched matched).Will (Removes matched.order.id) ∧
      (MatchingEngineService.removeMatched matched).Will (Removes matched.counterparty.id) := by
  constructor
  · exact Code.will_bind (Code.will_attempt (Code.will_bind (Code.will_call (I := services) rfl)))
  · refine Code.will_bind_rest (Code.neverThrows_attempt fun e => trivial) fun removed => ?_
    exact Code.will_bind (Code.will_call (I := services) rfl)

theorem will_afterMatch (matched : Matched) (failedAt : Timestamp) :
    (MatchingEngineService.afterMatch matched failedAt).Will (Removes matched.order.id) ∧
      (MatchingEngineService.afterMatch matched failedAt).Will (Removes matched.counterparty.id) :=
  ⟨Code.will_bind (Code.will_attempt (will_removeMatched matched).1),
    Code.will_bind (Code.will_attempt (will_removeMatched matched).2)⟩

theorem keeps_afterMatch {matched : Matched} (failedAt : Timestamp) (hw : w.Sound keyPrefix)
    (horder : w.db.orders.find? matched.order.id = some matched.order ∧
      matched.order.status ≠ .OPEN)
    (hcounterparty : w.db.orders.find? matched.counterparty.id = some matched.counterparty ∧
      matched.counterparty.status ≠ .OPEN) :
    (MatchingEngineService.afterMatch matched failedAt).Keeps (bookContract keyPrefix) w := by
  -- both removals are tried, then the enqueue, then the broadcasts
  refine Code.keeps_bind (keeps_logged ?_) fun _ w₁ _ => ?_
  · refine Code.keeps_bind (Code.keeps_attempt (Code.keeps_bind ?_ ?_) ?_) ?_
    · exact keeps_removeOpenOrder hw horder.1 horder.2
    · exact fun _ _ _ => Code.keeps_pure _
    · exact fun _ _ _ => Code.keeps_pure _
    -- the counterparty stays matched while the first removal is on its way
    · intro removed w₁ hw₁
      obtain ⟨hw₁, hkept⟩ := hw₁ hw
      obtain ⟨st, hst, hopen⟩ := hkept _ _ hcounterparty.1
      refine Code.keeps_bind ?_ fun _ _ _ => ?_
      · refine Code.keeps_call (fun w₂ hw₂ => ?_) fun _ _ _ => trivial
        obtain ⟨st', hst', hopen'⟩ := (hw₂ hw₁).2 _ _ hst
        exact ⟨st', hst', fun heq => hcounterparty.2 (hopen (hopen' heq))⟩
      · cases removed with
        | none => exact Code.keeps_pure _
        | some e => exact Code.keeps_throw _
  · refine Code.keeps_bind (Code.keeps_attempt (Code.keeps_bind ?_ ?_) ?_) fun added w₂ _ => ?_
    · exact Code.keeps_of_uses (Code.uses_call (bookContract_free' rfl rfl)) _
    · exact fun _ _ _ => Code.keeps_pure _
    · intro _ w₂ _
      exact Code.keeps_bind (keeps_logged (keeps_failPendingTradeAndReleaseFunds _ _))
        fun _ _ _ => Code.keeps_pure _
    · cases added with
      | false => exact Code.keeps_pure _
      | true =>
          refine keeps_logged (Code.keeps_bind ?_ fun _ _ _ => keeps_broadcastOrderBookUpdate _)
          exact Code.keeps_of_uses (Code.uses_call (bookContract_free' rfl rfl)) _

/-- What holds once a transaction has committed. -/
theorem transaction_answered {a : Action} {c : Infra} {r : a.Result} {w' : World}
    (hw : w.Sound keyPrefix) (h : (machine keyPrefix).step c w (.transaction a) = (.ok r, w'))
    (ha : a.Starts w.db) :
    w'.Sound keyPrefix ∧ ∃ busy, Exec (.serial busy) a.tx w.db r w'.db := by
  rcases machine_transaction h with ⟨e, hr, -⟩ | ⟨x, db, hr, rfl, -, hrun⟩
  · cases hr
  · cases hr
    have hexec := exec_of_run hrun
    have hsound := hw.transaction ha
      (show Exec _ a.tx w.db _ (World.mk db w.redis w.queue w.emitted).db from hexec) rfl
    exact ⟨hsound.1, _, hexec⟩

theorem keeps_tryMatchOrder (orderId tradeId : Uuid) (failedAt : Timestamp) (hw : w.Sound keyPrefix) :
    (MatchingEngineService.tryMatchOrder orderId tradeId failedAt).Keeps
      (bookContract keyPrefix) w := by
  refine Code.keeps_call_bind (fun _ _ => trivial) (fun _ => trivial) ?_
  intro w₁ c r w₂ hw₁ _ hstep
  obtain ⟨hw₂, busy, hexec⟩ := transaction_answered (hw₁ hw).1 hstep trivial
  have hfound : ∀ o, (Action.tryMatchOrder orderId tradeId).consumes r o →
      w₂.db.orders.find? o.id = some o ∧ o.status ≠ .OPEN := fun o ho => consumes_found hexec ho
  cases r with
  | none => exact ⟨⟨fun o ho => ho.elim, fun o ho => ho.elim⟩, Code.keeps_pure _⟩
  | some matched =>
      refine ⟨⟨fun o ho => ho.elim, ?_⟩, ?_⟩
      · rintro o (rfl | rfl)
        · exact (will_afterMatch matched failedAt).1
        · exact (will_afterMatch matched failedAt).2
      · exact keeps_afterMatch failedAt hw₂ (hfound _ (Or.inl rfl)) (hfound _ (Or.inr rfl))

theorem keeps_placeOrder (userId : Uuid) (dto : PlaceOrderDto) (ids : PlacementIds)
    (hw : w.Sound keyPrefix) :
    (OrdersService.placeOrder userId dto ids).Keeps (bookContract keyPrefix) w := by
  refine Code.keeps_call_bind (fun _ _ => trivial) (fun _ => trivial) ?_
  intro w₁ c order w₂ hw₁ hc hstep
  obtain ⟨hw₂, busy, hexec⟩ := transaction_answered (hw₁ hw).1 hstep trivial
  constructor
  · refine ⟨?_, fun o ho => ho.elim⟩
    rintro o ⟨rfl, hopen⟩
    rw [OrderBookProjectionService.projectOpenOrder_of_open hopen]
    exact Code.will_bind (Code.will_call (I := services) rfl)
  · have hproject := keeps_projectOpenOrder hw₂ (placeOrder_spelled hc.2 hexec)
      (placeOrder_row hexec)
    refine Code.keeps_bind hproject fun _ w₃ hw₃ => ?_
    refine Code.keeps_bind (keeps_logged (keeps_broadcastOrderBookUpdate _)) fun _ w₄ hw₄ => ?_
    have hw₄ := (hw₄ (hw₃ hw₂).1).1
    exact Code.keeps_bind (keeps_logged (keeps_tryMatchOrder _ _ _ hw₄)) fun _ _ _ =>
      Code.keeps_pure _

theorem keeps_cancelOrder (userId orderId : Uuid) (createdAt : Timestamp) (hw : w.Sound keyPrefix) :
    (OrdersService.cancelOrder userId orderId createdAt).Keeps (bookContract keyPrefix) w := by
  refine Code.keeps_call_bind (fun _ _ => trivial) (fun _ => trivial) ?_
  intro w₁ c cancelled w₂ hw₁ _ hstep
  obtain ⟨hw₂, busy, hexec⟩ := transaction_answered (hw₁ hw).1 hstep trivial
  have hfound := consumes_found (o := cancelled) hexec rfl
  constructor
  · refine ⟨fun o ho => ho.elim, ?_⟩
    rintro o rfl
    exact Code.will_bind (Code.will_call (I := services) rfl)
  · refine Code.keeps_bind (keeps_removeOpenOrder hw₂ hfound.1 hfound.2) fun _ _ _ => ?_
    exact Code.keeps_bind (keeps_logged (keeps_broadcastOrderBookUpdate _)) fun _ _ _ =>
      Code.keeps_pure _

/-- Every call keeps the contract. -/
theorem keeps_code (call : ExchangeCall) (hw : w.Sound keyPrefix) :
    call.code.Keeps (bookContract keyPrefix) w := by
  cases call with
  | placeOrder userId dto ids =>
      exact Code.keeps_bind (keeps_placeOrder userId dto ids hw) fun _ _ _ => Code.keeps_pure _
  | cancelOrder userId orderId createdAt =>
      exact Code.keeps_bind (keeps_cancelOrder userId orderId createdAt hw) fun _ _ _ =>
        Code.keeps_pure _
  | tryMatchOrder orderId tradeId failedAt => exact keeps_tryMatchOrder orderId tradeId failedAt hw
  | other a h =>
      refine Code.keeps_of_uses (Code.uses_bind (Code.uses_call ?_) fun _ => Code.uses_pure _) w
      refine bookContract_free rfl ?_
      rintro a' ⟨⟩
      exact h

end Keeps

/-! ## The invariant -/

/-- Where the projection differs from the database, a call in flight will put it right. -/
def Tracked (keyPrefix : String) (b : Pool services Err World) : Prop :=
  AgreesUpTo keyPrefix (fun id => b.Some (Code.Will (Projects id)))
    (fun id => b.Some (Code.Will (Removes id))) b.world

/-- The next step of a call projects an order that is no longer open, and no call is left that
will remove it. -/
def Stale (b : Pool services Err World) : Async.Event ExchangeCall Infra → Prop
  | .begin _ _ => False
  | .step i _ => ∃ order k, b.running i = some (.await (.projectOpenOrder order) k) ∧
      (∃ o ∈ b.world.db.orders.rows, o.id = order.row.id ∧ o.status ≠ .OPEN) ∧
      ¬ b.Some (Code.Will (Removes order.row.id))

/-- **The step lemma of the invariant.** -/
theorem Tracked.step {keyPrefix : String} {b : Pool services Err World} {i : ℕ} {c : Infra}
    {op : ServiceOp} {k : Except Err op.Answer → Service Unit} (h : Tracked keyPrefix b)
    (hs : b.world.Sound keyPrefix) (hi : b.running i = some (.await (I := services) op k))
    (hc : RedisWorks op c) (hfresh : ¬ Stale b (.step i c)) (hbefore : Before b.world op)
    (howes : Owes op ((machine keyPrefix).step c b.world op).1
      (k ((machine keyPrefix).step c b.world op).1)) :
    Tracked keyPrefix (b.set ((machine keyPrefix).step c b.world op).2 i
      (some (k ((machine keyPrefix).step c b.world op).1))) := by
  -- a call that still owes an operation owes it after any other operation
  have hkeep : ∀ P, ¬ P op → b.Some (Code.Will P) →
      (b.set ((machine keyPrefix).step c b.world op).2 i
        (some (k ((machine keyPrefix).step c b.world op).1))).Some (Code.Will P) :=
    fun P hP hsome => hsome.will_step hi hP _
  cases op with
  | transaction a =>
      cases hstep : (machine keyPrefix).step c b.world (.transaction a) with
      | mk r w' =>
          rw [hstep] at howes hkeep
          rcases machine_transaction hstep with ⟨e, -, rfl⟩ | ⟨x, db, rfl, rfl, -, hrun⟩
          · exact h.congr rfl rfl (fun id => hkeep _ fun hP => hP) fun id => hkeep _ fun hP => hP
          · exact h.transaction hs hbefore (exec_of_run hrun) rfl (fun id => hkeep _ fun hP => hP)
              (fun id => hkeep _ fun hP => hP) (fun o ho => Pool.some_update (howes.1 o ho))
              fun o ho => Pool.some_update (howes.2 o ho)
  | projectOpenOrder order =>
      obtain ⟨hspelled, st, hst⟩ := hbefore
      have hworks : (machine keyPrefix).step c b.world (.projectOpenOrder order) = _ :=
        machine_works (hc rfl)
      rw [hworks] at hkeep ⊢
      have hredis := congrArg b.world.redis.multi
        (show projectCommands keyPrefix order = projectCommands keyPrefix order.row from
          projectCommands_of_spelled hspelled)
      refine h.project hs hst rfl hredis (fun id hne => hkeep _ hne)
        (fun id => hkeep _ fun hP => hP) fun hnot => ?_
      -- otherwise the step would be the stale one that is excluded
      by_contra hnone
      exact hfresh ⟨order, k, hi, ⟨_, Table.mem_of_find? hst, rfl, hnot⟩, hnone⟩
  | removeOpenOrder order =>
      obtain ⟨st, hst, hnot⟩ := hbefore
      have hworks : (machine keyPrefix).step c b.world (.removeOpenOrder order) = _ :=
        machine_works (hc rfl)
      rw [hworks] at hkeep ⊢
      exact h.remove hst hnot rfl rfl (fun id => hkeep _ fun hP => hP) fun id hne => hkeep _ hne
  | _ =>
      exact h.congr (machine_db rfl) (machine_redis rfl) (fun id => hkeep _ fun hP => hP)
        fun id => hkeep _ fun hP => hP

/-! ## Every run -/

section Runs

variable {keyPrefix : String} {b : Pool services Err World}

/-- The steps under which the projection keeps up. -/
def KeepsUp (b : Pool services Err World) (e : Async.Event ExchangeCall Infra) : Prop :=
  Meets BookWorks b e ∧ ¬ Stale b e

theorem tracked_of_reachable (h : ((exchangeCalls keyPrefix).restrict KeepsUp).Reachable b) :
    b.world.Sound keyPrefix ∧ Tracked keyPrefix b := by
  refine (bookContract keyPrefix).invariant (World.Sound keyPrefix) (Tracked keyPrefix)
    (fun b e hC => hC.1) ?_ (fun w w' hw hkept => (hkept hw).1) (fun k w hw => keeps_code k hw)
    ?_ ?_ ?_ ?_ h
  · intro w hw
    rw [hw]
    exact sound_empty
  · intro b hw _
    unfold Tracked
    rw [hw]
    exact agreesUpTo_empty
  · intro b i k _ hinv hnew
    exact hinv.congr rfl rfl (fun id hsome => hsome.will_begin hnew _) fun id hsome =>
      hsome.will_begin hnew _
  · intro b i c op k hs hinv hi hc hC hbefore howes
    exact hinv.step hs hi hc.1 hC.2 hbefore howes
  · intro b i p _ hinv hi hended
    exact hinv.congr rfl rfl (fun id hsome => hsome.will_end hi hended) fun id hsome =>
      hsome.will_end hi hended

/-- **The projection agrees at rest**, whenever no call is in flight: in every run in which the
placements spell their markets as PostgreSQL does and no call projects an order that is no
longer open and that nobody is left to remove. -/
theorem projection_agrees (h : ((exchangeCalls keyPrefix).restrict KeepsUp).Reachable b)
    (hrest : b.AtRest) : Agrees keyPrefix b.world := by
  obtain ⟨hs, hinv⟩ := tracked_of_reachable h
  exact agrees_of_agreesUpTo hs (hinv.congr rfl rfl (fun id => hrest.not_some _)
    fun id => hrest.not_some _)

end Runs

/-! ## Two placements that overlap -/

namespace Sample

/-- No fault. -/
def faultless (_ : Pool services Err World) : Async.Event ExchangeCall Infra → Bool
  | .begin _ _ => true
  | .step _ c => c.failing.isNone

/-- A placement spells its market as PostgreSQL does. -/
def spelled (b : Pool services Err World) : Async.Event ExchangeCall Infra → Bool
  | .begin _ _ => true
  | .step i _ =>
      match b.running i with
      | some (.await (.transaction (.placeOrder _ dto _ _ _)) _) => dto.marketId.Canonical
      | _ => true

/-- No fault, and what is projected is open. -/
def upToDate (b : Pool services Err World) (e : Async.Event ExchangeCall Infra) : Bool :=
  faultless b e && spelled b e && match e with
    | .begin _ _ => true
    | .step i _ =>
        match b.running i with
        | some (.await (.projectOpenOrder order) _) =>
            b.world.db.orders.rows.all fun o => o.id ≠ order.row.id || o.status = .OPEN
        | _ => true

theorem meets_of_faultless {b : Pool services Err World} {e : Async.Event ExchangeCall Infra}
    (h : faultless b e = true) : Meets RedisWorks b e := by
  cases e with
  | begin i k => trivial
  | step i c => exact fun op k hi _ => Option.isNone_iff_eq_none.mp h

theorem spelled_of_check {b : Pool services Err World} {i : ℕ} {c : Infra} {op : ServiceOp}
    {k : Except Err op.Answer → Service Unit} (h : spelled b (.step i c) = true)
    (hi : b.running i = some (.await (I := services) op k)) : op.Spelled := by
  cases op with
  | transaction a =>
      cases a with
      | placeOrder userId dto orderId now createdAt =>
          simp only [spelled, hi] at h
          exact of_decide_eq_true (p := dto.marketId.Canonical) h
      | _ => trivial
  | _ => trivial

theorem keepsUp_of_upToDate {b : Pool services Err World} {e : Async.Event ExchangeCall Infra}
    (h : upToDate b e = true) : KeepsUp b e := by
  unfold upToDate at h
  rw [Bool.and_eq_true, Bool.and_eq_true] at h
  obtain ⟨⟨hworks, hspelled⟩, hopen⟩ := h
  cases e with
  | begin i k => exact ⟨trivial, fun hstale => hstale⟩
  | step i c =>
      have hmeets : Meets RedisWorks b (.step i c) := meets_of_faultless hworks
      refine ⟨fun op k hi => ⟨hmeets op k hi, spelled_of_check hspelled hi⟩, ?_⟩
      rintro ⟨order, k, hi, ⟨o, ho, hid, hnot⟩, -⟩
      simp only [hi, List.all_eq_true] at hopen
      have hrow := hopen o ho
      simp [hid, hnot] at hrow

def aliceOrders : ExchangeCall := .placeOrder alice yesDto ⟨yesOrder, 2, 2, trade, 9⟩

def bobOrders : ExchangeCall := .placeOrder bob noDto ⟨noOrder, 3, 3, trade, 9⟩

/-- Bob's order is matched with Alice's before Alice's is projected. -/
def overtaking : List (Async.Event ExchangeCall Infra) :=
  openingCalls ++ steps 5 aliceOrders 1 ++ steps 6 bobOrders 15 ++
    List.replicate 7 (.step 5 Infra.ok)

/-- Alice's order is in the book. -/
def showsOrder (w : World) : Bool :=
  sideSet "olx" w.redis market .YES == [⟨40, yesOrder.text⟩]

/-- The book shows an order, and no order is open. -/
def showsMatched (w : World) : Bool :=
  !(sideSet "olx" w.redis market .YES).isEmpty && w.db.orders.rows.all fun o => o.status ≠ .OPEN

end Sample

/-- One placement, up to its end. -/
theorem projection_agrees_sample : ∃ b : Pool services Err World,
    sideSet "olx" b.world.redis Sample.market .YES = [⟨40, Sample.yesOrder.text⟩] ∧
      Agrees "olx" b.world := by
  have hrun : Sample.ends Sample.upToDate
      (Sample.openingCalls ++ Sample.steps 5 Sample.aliceOrders 8) 6 Sample.showsOrder = true := by
    decide +kernel
  obtain ⟨b, hb, hrest, hset⟩ := Sample.exists_of_ends (C := KeepsUp)
    (fun _ _ => Sample.keepsUp_of_upToDate) hrun
  exact ⟨b, eq_of_beq hset, projection_agrees hb hrest⟩

/-- Alice's order stays in the book after it has been matched. -/
theorem projection_stays_stale : ¬ ∀ b : Pool services Err World,
    ((exchangeCalls "olx").restrict (Meets RedisWorks)).Reachable b → b.AtRest →
      Agrees "olx" b.world := by
  intro hclaim
  have hrun : Sample.ends Sample.faultless Sample.overtaking 7 Sample.showsMatched = true := by
    decide +kernel
  obtain ⟨b, hb, hrest, hshows⟩ := Sample.exists_of_ends (C := Meets RedisWorks)
    (fun _ _ => Sample.meets_of_faultless) hrun
  rw [Sample.showsMatched, Bool.and_eq_true, List.all_eq_true] at hshows
  obtain ⟨hsome, hall⟩ := hshows
  have hagrees := (hclaim b hb hrest).sets Sample.market .YES
  cases hset : sideSet "olx" b.world.redis Sample.market .YES with
  | nil => simp [hset] at hsome
  | cons e es =>
      obtain ⟨o, ho, hopen, -⟩ := (hagrees e).mp (by rw [hset]; exact List.mem_cons_self ..)
      simpa [hopen] using hall o ho

end OutcomeExchange
