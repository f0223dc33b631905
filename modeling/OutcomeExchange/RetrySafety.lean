import OutcomeExchange.SequentialRequests

set_option autoImplicit false

/-! # Repeated requests

Histories of requests that run one after the other, without faults other than a queue that
cannot be reached. A deposit or a withdrawal that is sent again finds the key of the first one
used. A placement that is sent again finds the order of the first one; what it does with that
order is not nothing, but it comes to nothing: an open order is projected as it is projected
already, and the attempt for it finds no counterparty, because between two requests the
projection agrees with the database and no pair of orders crosses (`Quiet`). -/

namespace OutcomeExchange

open Txn Redis Jobs Async

/-- What holds between two requests. -/
structure Quiet (keyPrefix : String) (w : World) : Prop where
  sound : w.Sound keyPrefix
  agrees : AgreesUpTo keyPrefix (fun _ => False) (fun _ => False) w
  uncrossed : ¬ w.db.Crossed

/-- The application is not restarted. -/
def NoRestart (_ : World) (e : Occurrence) : Prop := e ≠ .restart

/-- The histories of this module. -/
abbrev histories (keyPrefix : String) : System World Occurrence :=
  (sequential keyPrefix OnlyEnqueuesFail).restrict NoRestart

/-- PostgreSQL stores the texts of the request as they are. -/
structure PlaceOrderDto.Verbatim (dto : PlaceOrderDto) : Prop where
  market : dto.marketId.Canonical
  key : dto.idempotencyKey.length ≤ 100

instance (dto : PlaceOrderDto) : Decidable dto.Verbatim :=
  decidable_of_iff (dto.marketId.Canonical ∧ dto.idempotencyKey.length ≤ 100)
    ⟨fun h => ⟨h.1, h.2⟩, fun h => ⟨h.market, h.key⟩⟩

/-- Nor does a placement come in a text that PostgreSQL would store otherwise. -/
def Calm (w : World) (e : Occurrence) : Prop :=
  NoRestart w e ∧ ∀ userId dto ids r, e = .response (.placeOrder userId dto ids) r → dto.Verbatim

/-- The histories with verbatim placements only. -/
abbrev calm (keyPrefix : String) : System World Occurrence :=
  (sequential keyPrefix OnlyEnqueuesFail).restrict Calm

theorem OnlyEnqueuesFail.works {op : ServiceOp} {c : Infra} (h : OnlyEnqueuesFail op c)
    (hop : ∀ tradeId, op ≠ .addJob tradeId) : c.failing = none := by
  by_contra hfails
  obtain ⟨tradeId, heq⟩ := h.2 hfails
  exact hop tradeId heq

section Requests

variable {keyPrefix : String} {w w' : World}

/-- An operation beside the order book that does not touch the projection. -/
def ServiceOp.Aside (op : ServiceOp) : Prop := op.Beside ∧ op.isProjection = false

/-- Such operations leave the projection in agreement. -/
theorem runs_aside {α : Type} {A : ServiceOp → Infra → Prop} {p : Service α}
    (hp : p.Uses ServiceOp.Aside) {r : Except Err α} (h : p.Runs (machine keyPrefix) A w r w')
    (hw : w.Sound keyPrefix)
    (hagrees : AgreesUpTo keyPrefix (fun _ => False) (fun _ => False) w) :
    w'.Sound keyPrefix ∧ AgreesUpTo keyPrefix (fun _ => False) (fun _ => False) w' := by
  refine hp.runs (J := fun w₁ : World => w₁.Sound keyPrefix ∧
    AgreesUpTo keyPrefix (fun _ => False) (fun _ => False) w₁) ?_ h ⟨hw, hagrees⟩
  intro c w₁ op hop hJ
  obtain ⟨hw₁, hagrees₁⟩ := hJ
  -- only a transaction touches the database, and none of these opens or takes an order
  by_cases htx : op.isTransaction = false
  · have hdb : ((machine keyPrefix).step c w₁ op).2.db = w₁.db := machine_db htx
    have hredis : ((machine keyPrefix).step c w₁ op).2.redis = w₁.redis := machine_redis hop.2
    exact ⟨hw₁.congr hdb hredis, hagrees₁.congr hdb hredis (fun _ h => h) fun _ h => h⟩
  cases op with
  | transaction a =>
      have hbeside : a.besideBook = true := hop.1 a rfl
      cases hstep : (machine keyPrefix).step c w₁ (.transaction a) with
      | mk r w₂ =>
          rcases machine_transaction hstep with ⟨e, -, rfl⟩ | ⟨x, db, -, rfl, -, hrun⟩
          · exact ⟨hw₁, hagrees₁⟩
          have hstarts : a.Starts w₁.db := by
            cases a with
            | reopenOrders orders => cases hbeside
            | _ => trivial
          have hexec : Exec _ a.tx w₁.db x (World.mk db w₁.redis w₁.queue w₁.emitted).db :=
            exec_of_run hrun
          refine ⟨(hw₁.transaction hstarts hexec rfl).1, hagrees₁.transaction hw₁ hstarts hexec rfl
            (fun _ h => h) (fun _ h => h) (fun o ho => ?_) fun o ho => ?_⟩
          · cases a with
            | placeOrder => cases hbeside
            | _ => exact ho.elim
          · cases a with
            | cancelOrder => cases hbeside
            | tryMatchOrder => cases hbeside
            | _ => exact ho.elim
  | _ => exact absurd rfl htx

theorem aside_of_beside (a : Action) (h : a.besideBook = true) :
    ServiceOp.Aside (.transaction a) := by
  refine ⟨?_, rfl⟩
  rintro a' ⟨⟩
  exact h

theorem aside_of_other (op : ServiceOp) (htx : op.isTransaction = false)
    (hproj : op.isProjection = false) : op.Aside := by
  refine ⟨?_, hproj⟩
  rintro a rfl
  cases htx

/-- Both orders of a match are removed. -/
theorem runs_removeMatched {matched : Matched} {r : Except Err Unit}
    (h : (MatchingEngineService.removeMatched matched).Runs (machine keyPrefix) OnlyEnqueuesFail
      w r w') :
    w'.db = w.db ∧
      w'.redis = (w.redis.multi (removeCommands keyPrefix matched.order)).multi
        (removeCommands keyPrefix matched.counterparty) := by
  have hremove : ∀ {order : Order} {r₁ : Except Err Unit} {w₁ w₂ : World},
      (OrderBookProjectionService.removeOpenOrder order).Runs (machine keyPrefix) OnlyEnqueuesFail
        w₁ r₁ w₂ → r₁ = .ok () ∧ w₂.db = w₁.db ∧
          w₂.redis = w₁.redis.multi (removeCommands keyPrefix order) := by
    intro order r₁ w₁ w₂ hruns
    obtain ⟨c, hperform⟩ :=
      runs_works (fun c hc => OnlyEnqueuesFail.works hc fun _ heq => by cases heq) hruns
    cases hperform
    exact ⟨rfl, rfl, rfl⟩
  -- the first removal, whose error would be kept for later
  have hfirst : ∀ {removed : Except Err (Option Err)} {w₁ : World},
      ((do
        OrderBookProjectionService.removeOpenOrder matched.order
        return none : Service (Option Err)).attempt fun e => return some e).Runs
          (machine keyPrefix) OnlyEnqueuesFail w removed w₁ → removed = .ok none ∧ w₁.db = w.db ∧
            w₁.redis = w.redis.multi (removeCommands keyPrefix matched.order) := by
    intro removed w₁ hruns
    rcases Code.runs_attempt.mp hruns with ⟨a, rfl, hp⟩ | ⟨e, w₂, hp, -⟩
    · rcases Code.runs_bind.mp hp with ⟨u, w₂, hop, hret⟩ | ⟨e, he, -⟩
      · obtain ⟨-, hdb, hredis⟩ := hremove hop
        obtain ⟨hnone, rfl⟩ := Code.runs_pure.mp hret
        exact ⟨hnone, hdb, hredis⟩
      · cases he
    · rcases Code.runs_bind.mp hp with ⟨u, w₃, -, hret⟩ | ⟨e', -, hop⟩
      · cases (Code.runs_pure.mp hret).1
      · cases (hremove hop).1
  rcases Code.runs_bind.mp h with ⟨removed, w₁, hone, hrest⟩ | ⟨e, -, hone⟩
  case inr => cases (hfirst hone).1
  obtain ⟨hremoved, hdb₁, hredis₁⟩ := hfirst hone
  cases hremoved
  rcases Code.runs_bind.mp hrest with ⟨u, w₂, htwo, hret⟩ | ⟨e, -, htwo⟩
  case inr => cases (hremove htwo).1
  obtain ⟨-, hdb₂, hredis₂⟩ := hremove htwo
  obtain ⟨-, rfl⟩ := Code.runs_pure.mp hret
  exact ⟨hdb₂.trans hdb₁, hredis₂.trans (by rw [hredis₁])⟩

/-- The attempt for an order leaves the projection in agreement. -/
theorem Attempted.agrees {orderId tradeId : Uuid} {failedAt : Timestamp}
    (h : Attempted keyPrefix OnlyEnqueuesFail orderId tradeId failedAt w w')
    (hw : w.Sound keyPrefix)
    (hagrees : AgreesUpTo keyPrefix (fun _ => False) (fun _ => False) w) :
    w'.Sound keyPrefix ∧ AgreesUpTo keyPrefix (fun _ => False) (fun _ => False) w' := by
  cases h with
  | nothing unmatched same =>
      rw [same]
      exact ⟨hw, hagrees⟩
  | @matched order c t busy r found isOpen oldest run rest =>
      have hexec : Exec _ (tryMatchOrder orderId tradeId) w.db _
          (World.mk t w.redis w.queue w.emitted).db := exec_of_run run
      have hst := (hw.transaction (a := .tryMatchOrder orderId tradeId) trivial hexec rfl).1
      have hagreesT : AgreesUpTo keyPrefix (fun _ => False) (fun id => order.id = id ∨ c.id = id)
          { w with db := t } :=
        hagrees.transaction (a := .tryMatchOrder orderId tradeId) hw trivial hexec rfl
          (fun _ h => h) (fun _ h => h.elim) (fun _ ho => ho.elim)
          (by
            rintro o (rfl | rfl)
            · exact Or.inl rfl
            · exact Or.inr rfl)
      obtain ⟨horder, -⟩ :=
        consumes_found (a := .tryMatchOrder orderId tradeId) hexec (Or.inl rfl)
      obtain ⟨hcounterparty, -⟩ :=
        consumes_found (a := .tryMatchOrder orderId tradeId) hexec (Or.inr rfl)
      rw [afterMatch_eq] at rest
      rcases Code.runs_bind.mp rest with ⟨_, w₂, hremoved, hrest⟩ | ⟨e, -, hremoved⟩
      case inr => cases (runs_logged hremoved).1
      obtain ⟨-, r', hremoved⟩ := runs_logged hremoved
      obtain ⟨hdb, hredis⟩ := runs_removeMatched hremoved
      -- the world between the two removals
      let w₁ : World := { w with db := t, redis := w.redis.multi (removeCommands keyPrefix order) }
      have hw₁ : w₁.Sound keyPrefix := hst.remove horder rfl rfl
      have hagrees₁ : AgreesUpTo keyPrefix (fun _ => False) (fun id => c.id = id) w₁ :=
        hagreesT.remove horder (by simp) rfl rfl (fun _ h => h)
          fun id hne hstale => hstale.resolve_left hne
      have hw₂ : w₂.Sound keyPrefix := hw₁.remove hcounterparty hdb hredis
      have hagrees₂ : AgreesUpTo keyPrefix (fun _ => False) (fun _ => False) w₂ :=
        hagrees₁.remove hcounterparty (by simp) hdb hredis (fun _ h => h)
          fun id hne hstale => hne hstale
      exact runs_aside (uses_afterRemoval aside_of_beside aside_of_other _ _) hrest hw₂ hagrees₂

/-- A placement leaves the projection in agreement. -/
theorem PlacementRun.agrees {userId : Uuid} {dto : PlaceOrderDto} {ids : PlacementIds}
    {order : OrderEntity} (hdto : dto.marketId.Canonical)
    (h : PlacementRun keyPrefix OnlyEnqueuesFail userId dto ids order w w')
    (hw : w.Sound keyPrefix)
    (hagrees : AgreesUpTo keyPrefix (fun _ => False) (fun _ => False) w) :
    w'.Sound keyPrefix ∧ AgreesUpTo keyPrefix (fun _ => False) (fun _ => False) w' := by
  obtain @⟨busy, w₁, hexec, hprojected, hattempted⟩ := h
  -- the world between the transaction and the projection
  let w₀ : World := { w with db := w₁.db }
  have hexec₀ : Exec _ (placeOrder userId dto ids.orderId ids.now ids.createdAt) w.db order w₀.db :=
    hexec
  let a : Action := .placeOrder userId dto ids.orderId ids.now ids.createdAt
  have hw₀ : w₀.Sound keyPrefix := (hw.transaction (a := a) trivial hexec₀ rfl).1
  have hagrees₀ : AgreesUpTo keyPrefix (fun id => order.row.status = .OPEN ∧ order.row.id = id)
      (fun _ => False) w₀ := by
    refine hagrees.transaction (a := a) hw trivial hexec₀ rfl (fun _ h => h.elim) (fun _ h => h)
      ?_ fun _ ho => ho.elim
    rintro o ⟨rfl, hopen⟩
    exact ⟨hopen, rfl⟩
  have hw₁ : w₁.Sound keyPrefix ∧ AgreesUpTo keyPrefix (fun _ => False) (fun _ => False) w₁ := by
    by_cases hopen : order.row.status = .OPEN
    · have hspelled := placeOrder_spelled hdto hexec₀
      rw [if_pos hopen, projectCommands_of_spelled hspelled] at hprojected
      have hfound : w₀.db.orders.find? order.row.id =
          some (order.row.withStatus order.row.status) := placeOrder_row hexec₀
      refine ⟨hw₀.project hfound rfl hprojected, ?_⟩
      refine hagrees₀.project hw₀ hfound rfl hprojected ?_ (fun _ h => h) fun hnot => ?_
      · exact fun id hne hmissing => hne hmissing.2
      · exact absurd hopen hnot
    · rw [if_neg hopen] at hprojected
      refine ⟨hw₀.congr rfl hprojected, hagrees₀.congr rfl hprojected ?_ fun _ h => h⟩
      exact fun id hmissing => hopen hmissing.1
  exact hattempted.agrees hw₁.1 hw₁.2

/-- A cancellation leaves the projection in agreement. -/
theorem cancelOrder_agrees {userId orderId : Uuid} {createdAt : Timestamp} {r : Except Err Order}
    (h : (OrdersService.cancelOrder userId orderId createdAt).Runs (machine keyPrefix)
      OnlyEnqueuesFail w r w') (hw : w.Sound keyPrefix)
    (hagrees : AgreesUpTo keyPrefix (fun _ => False) (fun _ => False) w) :
    w'.Sound keyPrefix ∧ AgreesUpTo keyPrefix (fun _ => False) (fun _ => False) w' := by
  rcases runs_cancelOrder h with rfl | ⟨cancelled, busy, hexec, hremoved⟩
  · exact ⟨hw, hagrees⟩
  let w₀ : World := { w with db := w'.db }
  let a : Action := .cancelOrder userId orderId createdAt
  have hexec₀ : Exec _ (cancelOrder userId orderId createdAt) w.db cancelled w₀.db := hexec
  have hw₀ : w₀.Sound keyPrefix := (hw.transaction (a := a) trivial hexec₀ rfl).1
  have hagrees₀ : AgreesUpTo keyPrefix (fun _ => False) (fun id => cancelled.id = id) w₀ := by
    refine hagrees.transaction (a := a) hw trivial hexec₀ rfl (fun _ h => h) (fun _ h => h.elim)
      (fun _ ho => ho.elim) ?_
    rintro o rfl
    rfl
  obtain ⟨hfound, hnot⟩ := consumes_found (a := a) (o := cancelled) hexec₀ rfl
  have hfound : w₀.db.orders.find? cancelled.id = some (cancelled.withStatus cancelled.status) :=
    hfound
  have hredis := hremoved fun c hc => OnlyEnqueuesFail.works hc fun _ heq => by cases heq
  refine ⟨hw₀.remove hfound rfl hredis, hagrees₀.remove hfound hnot rfl hredis (fun _ h => h) ?_⟩
  exact fun id hne hstale => hne hstale

/-- **The invariant of quiet histories.** -/
theorem quiet_of_reachable (h : (calm keyPrefix).Reachable w) : Quiet keyPrefix w := by
  have hagrees := h.invariant (fun w => w.Sound keyPrefix ∧
      AgreesUpTo keyPrefix (fun _ => False) (fun _ => False) w) ?_ ?_
  · exact ⟨hagrees.1, hagrees.2, sequential_not_crossed (fun _ _ hc => hc.attemptsWork) h⟩
  · rintro w rfl
    exact ⟨sound_empty, agreesUpTo_empty⟩
  · intro w e w' hw hstep
    obtain ⟨hcalm, hstep⟩ := hstep
    cases e with
    | restart => exact absurd rfl hcalm.1
    | queue =>
        obtain ⟨queue, rfl⟩ := hstep
        exact ⟨hw.1.congr rfl rfl, hw.2.congr rfl rfl (fun _ h => h) fun _ h => h⟩
    | response q r =>
        obtain ⟨hfresh, hruns⟩ := hstep
        by_cases hq : q.beside = true
        · exact runs_aside (uses_beside aside_of_beside aside_of_other hq) hruns hw.1 hw.2
        cases q with
        | placeOrder userId dto ids =>
            rcases runs_placeOrder (fun _ _ hc => hc.attemptsWork) hw.1.coherent hfresh hruns with
              ⟨rfl, -⟩ | ⟨order, -, hplacement⟩
            · exact hw
            · exact hplacement.agrees (hcalm.2 _ _ _ _ rfl).market hw.1 hw.2
        | cancelOrder userId orderId createdAt => exact cancelOrder_agrees hruns hw.1 hw.2
        | _ => exact absurd rfl hq

end Requests

/-! ## Requests that are sent again -/

/-- The same request once more; what the database and the clocks contribute is new. -/
inductive ServiceCall.Again : ServiceCall → ServiceCall → Prop
  | deposit (userId : Uuid) (dto : DepositDto) (createdAt createdAt' : Timestamp) :
      Again (.deposit userId dto createdAt) (.deposit userId dto createdAt')
  | withdraw (userId : Uuid) (dto : WithdrawDto) (createdAt createdAt' : Timestamp) :
      Again (.withdraw userId dto createdAt) (.withdraw userId dto createdAt')
  | placeOrder (userId : Uuid) (dto : PlaceOrderDto) (ids ids' : PlacementIds) :
      Again (.placeOrder userId dto ids) (.placeOrder userId dto ids')

/-- A response to the request when it is sent again. -/
def Occurrence.Repeats (q : ServiceCall) : Occurrence → Prop
  | .response q' _ => q.Again q'
  | _ => False

/-- The order that a placement returns. -/
def Occurrence.order? : Occurrence → Option OrderEntity
  | .response (.placeOrder _ _ _) (.ok order) => some order
  | _ => none

/-- The order is there, under the key of the request. -/
structure PlaceOrderDto.Filed (dto : PlaceOrderDto) (userId : Uuid) (row : Order) (db : Db) :
    Prop where
  text : isPgText dto.idempotencyKey = true
  amount : isSafeInteger (dto.priceCents * dto.quantity) = true ∧ 0 < dto.priceCents * dto.quantity
  mem : row ∈ db.orders.rows
  user : row.userId = userId
  key : row.idempotencyKey = dto.idempotencyKey

/-- What an acknowledged request has left in the database. -/
def ServiceCall.OnRecord (db : Db) : (q : ServiceCall) → q.Answer → Prop
  | .deposit userId dto _, _ => db.ledger.KeyUsed userId dto.idempotencyKey
  | .withdraw userId dto _, _ => db.ledger.KeyUsed userId dto.idempotencyKey
  | .placeOrder userId dto _, order => ∃ row : Order, row.id = (OrderEntity.row order).id ∧
      dto.Filed userId row db
  | _, _ => True

section Again

variable {keyPrefix : String} {w w' : World} {userId : Uuid} {dto : PlaceOrderDto}
  {ids : PlacementIds} {row : Order} {s t : Db}

theorem placeOrder_amount {m : Mode RowId} {orderId : Uuid} {now createdAt : Timestamp}
    {r : OrderEntity}
    (h : Exec m (placeOrder userId dto orderId now createdAt) s r t) :
    isSafeInteger (dto.priceCents * dto.quantity) = true ∧ 0 < dto.priceCents * dto.quantity := by
  by_contra hbad
  have hreject : isSafeInteger (dto.priceCents * dto.quantity) = false ∨
      dto.priceCents * dto.quantity ≤ 0 := by
    rw [not_and_or, Bool.not_eq_true, not_lt] at hbad
    exact hbad
  unfold placeOrder at h
  dsimp only at h
  rw [if_pos hreject] at h
  exact (exec_throw.mp h).elim

/-- A placement whose order is there returns that order. -/
theorem PlaceOrderDto.Filed.run_placeOrder (h : dto.Filed userId row s) (busy : RowId → Bool)
    (orderId : Uuid) (now createdAt : Timestamp) :
    (placeOrder userId dto orderId now createdAt).run busy s = .ok (row.entity, s) := by
  have hfound : (s.orders.rows.find? fun o =>
      o.userId = userId && o.idempotencyKey = dto.idempotencyKey) = some row := by
    cases hfind : s.orders.rows.find? fun o =>
        o.userId = userId && o.idempotencyKey = dto.idempotencyKey with
    | none =>
        have hnot := List.find?_eq_none.mp hfind row h.mem
        simp [h.user, h.key] at hnot
    | some o =>
        have hp := List.find?_some hfind
        rw [Bool.and_eq_true, decide_eq_true_eq, decide_eq_true_eq] at hp
        refine congrArg some (s.orders.eq_of_clash (List.mem_of_find?_eq_some hfind) h.mem ?_)
        exact Or.inr ⟨hp.1.trans h.user.symm, hp.2.trans h.key.symm⟩
  have haccept : ¬ (isSafeInteger (dto.priceCents * dto.quantity) = false ∨
      dto.priceCents * dto.quantity ≤ 0) := by
    rintro (hoverflow | hle)
    · rw [h.amount.1] at hoverflow
      cases hoverflow
    · exact absurd h.amount.2 (not_lt.mpr hle)
  have hread : (findOrder userId dto.idempotencyKey).run busy s = .ok (some row, s) := by
    unfold findOrder
    rw [if_neg (by rw [h.text]; exact Bool.true_eq_false_eq_False), ← hfound]
    exact run_query _
  unfold placeOrder
  dsimp only
  rw [if_neg haccept, Prog.run_bind hread]
  rfl

/-- No other order has the key. -/
theorem PlaceOrderDto.Filed.unique (h : dto.Filed userId row s) {busy : RowId → Prop}
    {orderId : Uuid} {now createdAt : Timestamp} {r : OrderEntity}
    (hexec : Exec (.serial busy) (placeOrder userId dto orderId now createdAt) s r t) :
    r = row.entity ∧ t = s := by
  rcases exec_placeOrder hexec with ⟨hsame, hr, hmem, huser, hkey⟩ | ⟨-, hplaced, hnone⟩
  · have hrow : r.row = row := s.orders.eq_of_clash (hmem.resolve_left id) h.mem
      (Or.inr ⟨huser.trans h.user.symm, hkey.trans h.key.symm⟩)
    rw [hr, hrow]
    exact ⟨rfl, hsame⟩
  · exact absurd h.key (hnone.resolve_left id row h.mem h.user)

/-- What is projected already is projected again without effect. -/
theorem Quiet.project_again (hw : Quiet keyPrefix w) (hrow : row ∈ w.db.orders.rows)
    (hopen : row.status = .OPEN) :
    w.redis.multi (projectCommands keyPrefix row.entity) = w.redis := by
  have hagrees := agrees_of_agreesUpTo hw.sound hw.agrees
  have hshown : row.entry ∈ sideSet keyPrefix w.redis row.marketId row.side :=
    (hagrees.sets _ _ _).mpr ⟨row, hrow, hopen, ⟨rfl, rfl⟩, rfl⟩
  have hzadd : w.redis.zadd (getOrderBookSideKey keyPrefix row.marketId row.side) row.priceCents
      row.id.text = w.redis := Store.zadd_eq_self hshown
  have hhset : w.redis.hset (getOrderHashKey keyPrefix row.id.text) (hashFields row.entity) =
      w.redis :=
    Store.hset_eq_self (by simp [hashFields]) (hagrees.hashes row hrow hopen)
  rw [projectCommands_row, Store.multi, List.foldl_cons, List.foldl_cons, List.foldl_nil, Store.apply,
    Store.apply, hzadd, hhset]

/-- **A placement that is sent again** returns the order that is there, and changes nothing:
the order is projected as it was, and there is nothing that it could be matched with. -/
theorem Quiet.placeOrder_again (hw : Quiet keyPrefix w) (hfiled : dto.Filed userId row w.db)
    (hfresh : (ServiceCall.placeOrder userId dto ids).Fresh w.db) {r : Except Err OrderEntity}
    (h : (OrdersService.placeOrder userId dto ids).Runs (machine keyPrefix) OnlyEnqueuesFail w r
      w') :
    r = .ok row.entity ∧ w'.db = w.db ∧ w'.redis = w.redis := by
  rcases runs_placeOrder (fun _ _ hc => hc.attemptsWork) hw.sound.coherent hfresh h with
    ⟨-, e, -, hrejected⟩ | ⟨order, rfl, hplacement⟩
  · obtain ⟨x, db, c, -, hx, -⟩ := runs_committed
      (fun c hc => OnlyEnqueuesFail.works hc fun _ heq => by cases heq) hrejected
      fun c _ => ⟨_, hfiled.run_placeOrder c.busy _ _ _⟩
    cases hx
  obtain @⟨busy, w₁, hexec, hprojected, hattempted⟩ := hplacement
  obtain ⟨rfl, hdb⟩ := hfiled.unique hexec
  have hredis : w₁.redis = w.redis := by
    rw [hprojected]
    by_cases hopen : row.status = .OPEN
    · exact (if_pos hopen).trans (hw.project_again hfiled.mem hopen)
    · exact if_neg hopen
  refine ⟨rfl, ?_⟩
  cases hattempted with
  | nothing unmatched same =>
      rw [same]
      exact ⟨hdb, hredis⟩
  | @matched order' c t busy' r found isOpen oldest run rest =>
      -- the book would have been crossed
      rw [hdb] at found oldest
      have hnone := unmatched_of_not_crossed hw.uncrossed (Table.mem_of_find? found) isOpen c
        oldest.row
      rw [oldest.complements] at hnone
      cases hnone

/-- A movement whose key is used is not made again. -/
theorem Mutated.again {params : MutateWalletParams} {L L' : Ledger} (h : Mutated params L L')
    (hused : L.KeyUsed params.userId params.idempotencyKey) : L' = L := by
  cases h with
  | replay used same => exact same
  | posted hp => exact absurd hused hp.fresh

/-- A row that is there stays there, whatever its status. -/
theorem PlaceOrderDto.Filed.onward (h : dto.Filed userId row s) (hst : Onward s t) :
    ∃ st, dto.Filed userId (row.withStatus st) t := by
  obtain ⟨st, hrow, -⟩ := hst.orders _ _ (Table.find?_key h.mem)
  exact ⟨st, h.text, h.amount, Table.mem_of_find? hrow, h.user, h.key⟩

/-- What is on record stays on record. -/
theorem ServiceCall.OnRecord.onward {q : ServiceCall} {a : q.Answer} (h : q.OnRecord s a)
    (hst : Onward s t) : q.OnRecord t a := by
  cases q with
  | deposit userId dto createdAt => exact hst.ledger.keyUsed h
  | withdraw userId dto createdAt => exact hst.ledger.keyUsed h
  | placeOrder userId dto ids =>
      obtain ⟨row, hid, hfiled⟩ := h
      obtain ⟨st, hfiled⟩ := hfiled.onward hst
      exact ⟨row.withStatus st, hid, hfiled⟩
  | _ => trivial

/-- What the attempt for an order leaves. -/
theorem Attempted.onward {A : ServiceOp → Infra → Prop} {orderId tradeId : Uuid}
    {failedAt : Timestamp} (h : Attempted keyPrefix A orderId tradeId failedAt w w')
    (hs : w.db.Coherent) : Onward w.db w'.db := by
  cases h with
  | nothing unmatched same =>
      rw [same]
      exact Onward.refl _
  | @matched order c t busy r found isOpen oldest run rest =>
      have heff : (Action.tryMatchOrder orderId tradeId).Effect _ w.db t :=
        exec_tx_effect hs (a := .tryMatchOrder orderId tradeId) trivial (exec_of_run run)
      refine (heff.evolves hs).onward.trans ?_
      exact (runs_regular ((uses_afterMatch_beside _ _).mono fun op hop => hop.regular) rest
        (hs.effect heff)).2

/-- **An acknowledged request is on record.** -/
theorem onRecord_of_acknowledged {q : ServiceCall} {a : q.Answer} (hs : w.db.Coherent)
    (h : (calm keyPrefix).step w (.response q (.ok a)) w') : q.OnRecord w'.db a := by
  obtain ⟨hcalm, hfresh, hruns⟩ := h
  -- a movement that is acknowledged has used its key
  have hmovement : ∀ (a : Action) (params : MutateWalletParams) {x : a.Result},
      (∀ {m s t}, Exec m a.tx s x t → ∃ L, t = { s with ledger := L } ∧
        Mutated params s.ledger L) →
      (ServiceOp.transaction a).call.Runs (machine keyPrefix) OnlyEnqueuesFail w (.ok x) w' →
      params.idempotencyKey.length ≤ 100 →
      w'.db.ledger.KeyUsed params.userId params.idempotencyKey := by
    intro a params x hexec hcall hlength
    rcases runs_transaction hcall with ⟨e, he, -⟩ | ⟨x', db, c, -, hx, rfl, hrun⟩
    · cases he
    · cases hx
      obtain ⟨L, rfl, hmutated⟩ := hexec (exec_of_run hrun)
      have hused : L.KeyUsed params.userId params.storedKey := hmutated.keyUsed
      rw [MutateWalletParams.storedKey_of_le hlength] at hused
      exact hused
  cases q with
  | deposit userId dto createdAt =>
      exact hmovement (.deposit userId dto createdAt) _ (fun h => exec_movement h) hruns dto.key_max
  | withdraw userId dto createdAt =>
      exact hmovement (.withdraw userId dto createdAt) _ (fun h => exec_movement h) hruns dto.key_max
  | placeOrder userId dto ids =>
      have hverbatim : dto.Verbatim := hcalm.2 _ _ _ _ rfl
      rcases runs_placeOrder (fun _ _ hc => hc.attemptsWork) hs hfresh hruns with
        ⟨-, e, he, -⟩ | ⟨order, hr, hplacement⟩
      · cases he
      cases hr
      obtain @⟨busy, w₁, hexec, -, hattempted⟩ := hplacement
      have hs₁ : w₁.db.Coherent := hs.effect (exec_tx_effect hs
        (a := .placeOrder userId dto ids.orderId ids.now ids.createdAt) trivial hexec)
      have hfiled : dto.Filed userId a.row w₁.db := by
        refine ⟨placeOrder_text hexec, placeOrder_amount hexec, ?_, ?_, ?_⟩
        · exact Table.mem_of_find? (placeOrder_row hexec)
        · rcases exec_placeOrder hexec with ⟨-, -, -, huser, -⟩ | ⟨rfl, -⟩
          · exact huser
          · rfl
        · rcases exec_placeOrder hexec with ⟨-, -, -, -, hkey⟩ | ⟨rfl, -⟩
          · exact hkey
          · exact varchar_of_le hverbatim.key
      obtain ⟨st, hfiled⟩ := hfiled.onward (hattempted.onward hs₁)
      exact ⟨Order.withStatus a.row st, rfl, hfiled⟩
  | _ => trivial

/-- **The step lemma of retry safety.** -/
theorem Quiet.again {q q' : ServiceCall} {a : q.Answer} {r : Except Err q'.Answer}
    (hw : Quiet keyPrefix w) (hrecord : q.OnRecord w.db a) (hagain : q.Again q')
    (h : (calm keyPrefix).step w (.response q' r) w') :
    w'.db = w.db ∧ w'.redis = w.redis ∧
      ∀ order, (Occurrence.response q (.ok a)).order? = some order →
        ∃ row, w.db.orders.find? order.row.id = some row ∧
          (Occurrence.response q' r).order? = some row.entity := by
  obtain ⟨-, hfresh, hruns⟩ := h
  -- a movement under a used key changes nothing
  have hmovement : ∀ (a : Action) (params : MutateWalletParams) {r : Except Err a.Result},
      (∀ {m s t x}, Exec m a.tx s x t → ∃ L, t = { s with ledger := L } ∧
        Mutated params s.ledger L) →
      w.db.ledger.KeyUsed params.userId params.idempotencyKey →
      (ServiceOp.transaction a).call.Runs (machine keyPrefix) OnlyEnqueuesFail w r w' →
      w'.db = w.db ∧ w'.redis = w.redis := by
    intro a params r hexec hused hcall
    rcases runs_transaction hcall with ⟨e, -, rfl⟩ | ⟨x, db, c, -, -, rfl, hrun⟩
    · exact ⟨rfl, rfl⟩
    · obtain ⟨L, hdb, hmutated⟩ := hexec (exec_of_run hrun)
      rw [hmutated.again hused] at hdb
      exact ⟨hdb, rfl⟩
  cases hagain with
  | deposit userId dto createdAt createdAt' =>
      have hsame :=
        hmovement (.deposit userId dto createdAt') _ (fun h => exec_movement h) hrecord hruns
      exact ⟨hsame.1, hsame.2, fun order horder => by cases horder⟩
  | withdraw userId dto createdAt createdAt' =>
      have hsame :=
        hmovement (.withdraw userId dto createdAt') _ (fun h => exec_movement h) hrecord hruns
      exact ⟨hsame.1, hsame.2, fun order horder => by cases horder⟩
  | placeOrder userId dto ids ids' =>
      obtain ⟨row, hid, hfiled⟩ := hrecord
      obtain ⟨hr, hdb, hredis⟩ := hw.placeOrder_again hfiled hfresh hruns
      refine ⟨hdb, hredis, fun order horder => ⟨row, ?_, ?_⟩⟩
      · have heq : a = order := Option.some.inj horder
        rw [← heq, ← hid]
        exact Table.find?_key hfiled.mem
      · rw [hr]
        rfl

/-- Sent again and again. -/
theorem run_again {q : ServiceCall} {a : q.Answer} {es : List Occurrence}
    (h : (calm keyPrefix).Run w es w') (hreach : (calm keyPrefix).Reachable w)
    (hrecord : q.OnRecord w.db a) (hall : ∀ e ∈ es, e.Repeats q) :
    w'.db = w.db ∧ w'.redis = w.redis ∧
      ∀ order, (Occurrence.response q (.ok a)).order? = some order → ∀ e ∈ es,
        ∃ row, w.db.orders.find? order.row.id = some row ∧ e.order? = some row.entity := by
  induction h with
  | nil => exact ⟨rfl, rfl, fun order _ e he => by cases he⟩
  | @snoc u v es e hrun hstep ih =>
      obtain ⟨hdb, hredis, horders⟩ := ih fun e he => hall e (List.mem_append_left _ he)
      have hu : Quiet keyPrefix u := quiet_of_reachable (hrun.reachable hreach)
      have hlast : e.Repeats q := hall e (List.mem_append_right _ (List.mem_singleton.mpr rfl))
      cases e with
      | queue => exact hlast.elim
      | restart => exact hlast.elim
      | response q' r =>
          rw [← hdb] at hrecord
          obtain ⟨hdb', hredis', horder'⟩ := hu.again hrecord hlast hstep
          refine ⟨hdb'.trans hdb, hredis'.trans hredis, fun order horder e he => ?_⟩
          rcases List.mem_append.mp he with he | he
          · exact horders order horder e he
          · rw [List.mem_singleton.mp he, ← hdb]
            exact horder' order horder

/-- **Retry safety**: as long as PostgreSQL stores the texts of the placements as they are, a
deposit, a withdrawal or a placement that was acknowledged can be sent again at any later time,
and as often as one likes: the database and the projection stay as they are, and each answer to
a placement is the row of the order that the first one answered. -/
theorem repeated_requests_change_nothing {w₁ w₂ w₃ w₄ : World} {q : ServiceCall} {a : q.Answer}
    {later again : List Occurrence} (hreach : (calm keyPrefix).Reachable w₁)
    (hack : (calm keyPrefix).step w₁ (.response q (.ok a)) w₂)
    (hlater : (calm keyPrefix).Run w₂ later w₃) (hagain : (calm keyPrefix).Run w₃ again w₄)
    (hall : ∀ e ∈ again, e.Repeats q) :
    w₄.db = w₃.db ∧ w₄.redis = w₃.redis ∧
      ∀ order, (Occurrence.response q (.ok a)).order? = some order → ∀ e ∈ again,
        ∃ row, w₃.db.orders.find? order.row.id = some row ∧ e.order? = some row.entity := by
  have hs₁ : w₁.db.Coherent := (quiet_of_reachable hreach).sound.coherent
  have hs₂ : w₂.db.Coherent := (sequential_onward hack.2 hs₁).1
  have hrecord : q.OnRecord w₃.db a :=
    (onRecord_of_acknowledged hs₁ hack).onward (sequential_run_onward hlater hs₂).2
  exact run_again hagain (hlater.reachable (hreach.step hack)) hrecord hall

end Again

/-! ## An order that is matched, and then placed again -/

namespace Sample

def nextTrade : Uuid := ⟨"00000000-0000-4000-8000-000000000008", by decide⟩

def aliceFirst : ServiceCall := .placeOrder alice yesDto ⟨yesOrder, 2, 2, trade, 2⟩

def bobAnswers : ServiceCall := .placeOrder bob noDto ⟨noOrder, 3, 3, trade, 3⟩

def aliceAgain : ServiceCall := .placeOrder alice yesDto ⟨nextTrade, 4, 4, nextTrade, 4⟩

/-- A request that is fresh, and verbatim if it is a placement. -/
def verbatim (w : World) (q : ServiceCall) : Bool :=
  fresh w q && match q with
    | .placeOrder _ dto _ => decide dto.Verbatim
    | _ => true

theorem onlyEnqueuesFail_ok (op : ServiceOp) : OnlyEnqueuesFail op Infra.ok :=
  ⟨fun _ => rfl, fun hfails => absurd rfl hfails⟩

theorem calm_of_verbatim {w : World} {q : ServiceCall} (h : verbatim w q = true)
    (r : Except Err q.Answer) : q.Fresh w.db ∧ Calm w (.response q r) := by
  unfold verbatim at h
  rw [Bool.and_eq_true] at h
  refine ⟨fresh_iff.mp h.1, by rintro ⟨⟩, ?_⟩
  rintro userId dto ids r' heq
  cases heq
  exact of_decide_eq_true h.2

/-- Alice's order is placed, matched with Bob's, and placed twice more. -/
def placedAgain (w : World) : Bool :=
  let w₂ := (respond w aliceFirst).2
  let w₃ := (respond w₂ bobAnswers).2
  let w₄ := (respond w₃ aliceAgain).2
  verbatim w aliceFirst && (respond w aliceFirst).1.isOk && verbatim w₂ bobAnswers &&
    verbatim w₃ aliceAgain && verbatim w₄ aliceAgain && w₃.db.trades.rows.length = 1

end Sample

/-- Alice's order is matched, and her second and third request leave everything as it is. -/
theorem repeated_requests_sample : ∃ w₃ w₄ : World, (calm "olx").Reachable w₃ ∧
    w₃.db.trades.rows.length = 1 ∧
    w₄ = (Sample.respond (Sample.respond w₃ Sample.aliceAgain).2 Sample.aliceAgain).2 ∧
    w₄.db = w₃.db ∧ w₄.redis = w₃.redis := by
  have hall : (Sample.respondAll Sample.verbatim Sample.openingRequests World.empty).any
      Sample.placedAgain = true := by
    decide +kernel
  obtain ⟨w, hw, hagain⟩ := (Option.any_eq_true _ _).mp hall
  simp only [Sample.placedAgain, Bool.and_eq_true, decide_eq_true_eq] at hagain
  obtain ⟨⟨⟨⟨⟨h₁, hok⟩, h₂⟩, h₃⟩, h₄⟩, htrade⟩ := hagain
  have hstep : ∀ {w : World} {q : ServiceCall}, Sample.verbatim w q = true →
      (calm "olx").step w (.response q (Sample.respond w q).1) (Sample.respond w q).2 := by
    intro w q h
    obtain ⟨hfresh, hcalm⟩ := Sample.calm_of_verbatim h (Sample.respond w q).1
    exact ⟨hcalm, Sample.step_respond Sample.onlyEnqueuesFail_ok hfresh⟩
  obtain ⟨es, hes⟩ := Sample.run_of_respondAll Sample.onlyEnqueuesFail_ok
    (fun w q r hq => Sample.calm_of_verbatim hq r) hw
  have hreach : (calm "olx").Reachable w := hes.reachable (.init rfl)
  have hack := hstep h₁
  cases hr : (Sample.respond w Sample.aliceFirst).1 with
  | error e =>
      rw [hr] at hok
      cases hok
  | ok a =>
      rw [hr] at hack
      have hrepeats : ∀ r r',
          ∀ e ∈ [Occurrence.response Sample.aliceAgain r] ++ [.response Sample.aliceAgain r'],
            e.Repeats Sample.aliceFirst := by
        intro r r' e he
        simp only [List.singleton_append, List.mem_cons, List.not_mem_nil, or_false] at he
        rcases he with rfl | rfl
        · exact .placeOrder _ _ _ _
        · exact .placeOrder _ _ _ _
      obtain ⟨hdb, hredis, -⟩ := repeated_requests_change_nothing hreach hack
        (.single (hstep h₂)) ((System.Run.single (hstep h₃)).append (.single (hstep h₄)))
        (hrepeats _ _)
      exact ⟨_, _, (hreach.step hack).step (hstep h₂), htrade, rfl, hdb, hredis⟩

/-! ## Texts that are stored otherwise -/

namespace Sample

def letterMarket : Uuid := ⟨"0000000a-0000-4000-8000-0000000000bc", by decide⟩

/-- The same market in upper case. -/
def capitalMarket : UuidString := ⟨"0000000A-0000-4000-8000-0000000000BC", by decide⟩

def capitalDto : PlaceOrderDto :=
  ⟨capitalMarket, .YES, 41, 6, "capitals", by decide, by decide, by decide, by decide⟩

def capitalOnce : ServiceCall := .placeOrder alice capitalDto ⟨yesOrder, 2, 2, trade, 2⟩

def capitalTwice : ServiceCall := .placeOrder alice capitalDto ⟨nextTrade, 3, 3, nextTrade, 3⟩

/-- A key of 101 characters, of which the column keeps 100. -/
def longDto : PlaceOrderDto :=
  ⟨letterMarket, .YES, 42, 7, "long-key" ++ String.ofList (List.replicate 93 ' '), by decide,
    by decide, by decide, by decide⟩

def longOnce : ServiceCall := .placeOrder alice longDto ⟨yesOrder, 2, 2, trade, 2⟩

def longTwice : ServiceCall := .placeOrder alice longDto ⟨nextTrade, 3, 3, nextTrade, 3⟩

def letterRequests : List ServiceCall :=
  [ .register alice alice
  , .createMarket 1000 letterMarket 0
  , .deposit alice (depositDto "for-letters" (by decide) (by decide)) 1 ]

/-- The first request is acknowledged, and `D` holds of what the second one answers, and of the
worlds before and after it. -/
def sentTwice (first second : ServiceCall) (D : Except Err second.Answer → World → World → Bool)
    (w : World) : Bool :=
  let w₂ := (respond w first).2
  fresh w first && (respond w first).1.isOk && fresh w₂ second &&
    D (respond w₂ second).1 w₂ (respond w₂ second).2

/-- There is a sorted set for the market as PostgreSQL spells it. -/
def shown (w : World) : Bool := (w.redis (getOrderBookSideKey "olx" letterMarket .YES)).isSome

theorem step_histories {w : World} {q : ServiceCall} (hfresh : fresh w q = true) :
    (histories "olx").step w (.response q (respond w q).1) (respond w q).2 :=
  ⟨by rintro ⟨⟩, step_respond onlyEnqueuesFail_ok (fresh_iff.mp hfresh)⟩

theorem histories_of_sentTwice (qs : List ServiceCall) (first second : ServiceCall)
    (D : Except Err second.Answer → World → World → Bool)
    (h : (respondAll fresh qs World.empty).any (sentTwice first second D) = true) :
    ∃ (w₁ w₂ w₃ : World) (a : first.Answer) (r : Except Err second.Answer),
      (histories "olx").Reachable w₁ ∧ (histories "olx").step w₁ (.response first (.ok a)) w₂ ∧
        (histories "olx").step w₂ (.response second r) w₃ ∧ D r w₂ w₃ = true := by
  obtain ⟨w, hw, htwice⟩ := (Option.any_eq_true _ _).mp h
  simp only [sentTwice, Bool.and_eq_true] at htwice
  obtain ⟨⟨⟨hfresh, hok⟩, hfresh'⟩, hD⟩ := htwice
  obtain ⟨es, hes⟩ := run_of_respondAll (C := NoRestart) onlyEnqueuesFail_ok
    (fun w q r hq => ⟨fresh_iff.mp hq, by rintro ⟨⟩⟩) hw
  have hack := step_histories hfresh
  cases hr : (respond w first).1 with
  | error e =>
      rw [hr] at hok
      cases hok
  | ok a =>
      rw [hr] at hack
      exact ⟨w, _, _, a, _, hes.reachable (.init rfl), hack, step_histories hfresh', hD⟩

end Sample

/-- A placement whose market comes in upper case projects its order under that text, and the
same placement projects it once more, under the text of the row. A placement whose key is longer
than its column does not find its order again, and is rejected. -/
theorem repeated_request_changes :
    (∃ (w₁ w₂ w₃ : World) (order : OrderEntity) (r : Except Err OrderEntity),
      (histories "olx").Reachable w₁ ∧
        (histories "olx").step w₁ (.response Sample.capitalOnce (.ok order)) w₂ ∧
        (histories "olx").step w₂ (.response Sample.capitalTwice r) w₃ ∧ w₃.redis ≠ w₂.redis) ∧
    ∃ (w₁ w₂ w₃ : World) (order : OrderEntity) (e : Err), (histories "olx").Reachable w₁ ∧
      (histories "olx").step w₁ (.response Sample.longOnce (.ok order)) w₂ ∧
      (histories "olx").step w₂ (.response Sample.longTwice (.error e)) w₃ := by
  constructor
  · obtain ⟨w₁, w₂, w₃, order, r, hreach, hfirst, hsecond, hD⟩ :=
      Sample.histories_of_sentTwice Sample.letterRequests Sample.capitalOnce
        Sample.capitalTwice (fun _ w₂ w₃ => Sample.shown w₂ = false && Sample.shown w₃)
        (by decide +kernel)
    refine ⟨w₁, w₂, w₃, order, r, hreach, hfirst, hsecond, fun hsame => ?_⟩
    have hshown : Sample.shown w₃ = Sample.shown w₂ := congrArg (fun redis =>
      (redis (getOrderBookSideKey "olx" Sample.letterMarket .YES)).isSome) hsame
    simp [hshown] at hD
  · obtain ⟨w₁, w₂, w₃, order, r, hreach, hfirst, hsecond, hD⟩ :=
      Sample.histories_of_sentTwice Sample.letterRequests Sample.longOnce
        Sample.longTwice (fun r _ _ => !r.isOk) (by decide +kernel)
    cases r with
    | ok a => cases hD
    | error e => exact ⟨w₁, w₂, w₃, order, e, hreach, hfirst, hsecond⟩

end OutcomeExchange
