import OutcomeExchange.ExactlyOnce

set_option autoImplicit false

/-! # What a successful request means

The four requests of a user that move money of their own, and what their caller reads out
of a success: the ledger has the entry the request asked for, and an order that is handed
out has the terms asked for. `Request.Clear` is the condition under which a success means
that; it is exact (`Request.honoured_iff`), and speaks of the keys in the ledger of the
user only, because entries that reserve or release for an order tell its history
(`OrdersOnRecord`). -/

namespace OutcomeExchange

open Txn

inductive Request
  | deposit (userId : Uuid) (dto : DepositDto) (createdAt : Timestamp)
  | withdraw (userId : Uuid) (dto : WithdrawDto) (createdAt : Timestamp)
  | placeOrder (userId : Uuid) (dto : PlaceOrderDto) (orderId : Uuid) (now createdAt : Timestamp)
  | cancelOrder (userId orderId : Uuid) (createdAt : Timestamp)

/-- The transaction of a request, with the row of the order that its caller gets back. -/
def Request.prog : Request → Tx (Option Order)
  | .deposit userId dto createdAt => do
      let _ ← OutcomeExchange.deposit userId (.int dto.amountCents) dto.idempotencyKey createdAt
      return none
  | .withdraw userId dto createdAt => do
      let _ ← OutcomeExchange.withdraw userId (.int dto.amountCents) dto.idempotencyKey createdAt
      return none
  | .placeOrder userId dto orderId now createdAt => do
      let order ← OutcomeExchange.placeOrder userId dto orderId now createdAt
      return some order.row
  | .cancelOrder userId orderId createdAt => do
      let order ← OutcomeExchange.cancelOrder userId orderId createdAt
      return some order

/-! ## The meaning of success -/

/-- The user has an entry of this type and amount. -/
def Ledger.HasEntry (L : Ledger) (userId : Uuid) (entryType : WalletEntryType) (amount : ℤ) :
    Prop :=
  ∃ e ∈ L.history userId, e.entryType = entryType ∧ e.amountCents = amount

/-- The user has an entry of this type and amount for the order. -/
def Ledger.HasOrderEntry (L : Ledger) (userId : Uuid) (entryType : WalletEntryType) (amount : ℤ)
    (orderId : Uuid) : Prop :=
  ∃ e ∈ L.history userId,
    e.entryType = entryType ∧ e.amountCents = amount ∧ e.referenceId = orderId.text

/-- The order has the terms that the request asks for. -/
structure PlaceOrderDto.Terms (dto : PlaceOrderDto) (o : Order) : Prop where
  marketId : o.marketId = dto.marketId.uuid
  side : o.side = dto.side
  priceCents : o.priceCents = dto.priceCents
  quantity : o.quantity = dto.quantity

/-- What the caller concludes from a success, with the order returned. -/
def Request.Honoured (db : Db) : Request → Option Order → Prop
  | .deposit userId dto _, _ => db.ledger.HasEntry userId .DEPOSIT dto.amountCents
  | .withdraw userId dto _, _ => db.ledger.HasEntry userId .WITHDRAW dto.amountCents
  | .placeOrder userId dto _ _ _, some order =>
      db.ledger.HasOrderEntry userId .RESERVE (dto.priceCents * dto.quantity) order.id ∧
        dto.Terms order
  | .cancelOrder userId _ _, some order =>
      db.ledger.HasOrderEntry userId .RELEASE order.reservedCents order.id
  | _, none => False

/-- The order that `placeOrder` returns instead of placing one. -/
def PlaceOrderDto.existing (dto : PlaceOrderDto) (userId : Uuid) (db : Db) : Option Order :=
  db.orders.rows.find? fun o => o.userId = userId && o.idempotencyKey = dto.idempotencyKey

/-- The keys of the request are new, or stand for the same request. -/
def Request.Clear (db : Db) : Request → Prop
  | .deposit userId dto _ =>
      ¬ db.ledger.KeyUsed userId dto.idempotencyKey ∨
        db.ledger.HasEntry userId .DEPOSIT dto.amountCents
  | .withdraw userId dto _ =>
      ¬ db.ledger.KeyUsed userId dto.idempotencyKey ∨
        db.ledger.HasEntry userId .WITHDRAW dto.amountCents
  | .placeOrder userId dto _ _ _ =>
      match dto.existing userId db with
      | none => ¬ db.ledger.KeyUsed userId (EngineKey.orderReserve dto.idempotencyKey).text
      | some order => dto.Terms order ∧
          db.ledger.HasOrderEntry userId .RESERVE (dto.priceCents * dto.quantity) order.id
  | .cancelOrder userId orderId _ =>
      ¬ db.ledger.KeyUsed userId (EngineKey.orderCancel orderId).text

/-! ## Orders on record -/

/-- Entries that reserve or release are for an order that exists, and nothing has been
released for an order that is still open. -/
def OrdersOnRecord (orders : Table Order) (e : WalletEntry) : Prop :=
  e.entryType = .RESERVE ∨ e.entryType = .RELEASE → ∃ id o, orders.find? id = some o ∧
    e.referenceId = id.text ∧ (e.entryType = .RELEASE → o.status ≠ .OPEN)

def Db.OnRecord (db : Db) : Prop := ∀ e ∈ db.ledger.entries.rows, OrdersOnRecord db.orders e

section OnRecord

variable {s t : Db} {m : Mode RowId}

theorem Order.Evolves.not_open {o o' : Order} (h : o.Evolves o') (ho : o.status ≠ .OPEN) :
    o'.status ≠ .OPEN := by
  obtain ⟨st, rfl, hst | hnext⟩ := h
  · rw [Order.withStatus_status, hst]
    exact ho
  · intro hopen
    rw [show st = .OPEN from hopen] at hnext
    exact OrderStatus.not_next_open hnext

theorem Db.OnRecord.of_appends (h : s.OnRecord) (hev : Evolves s t)
    (happ : Appends (OrdersOnRecord t.orders) s.ledger t.ledger) : t.OnRecord := by
  obtain ⟨new, hnew, hP⟩ := happ
  intro e he
  rw [hnew] at he
  rcases List.mem_append.mp he with he | he
  · intro hty
    obtain ⟨id, o, ho, href, hopen⟩ := h e he hty
    obtain ⟨o', ho', hevolves⟩ := hev.orders ho
    exact ⟨id, o', ho', href, fun hrel => hevolves.not_open (hopen hrel)⟩
  · exact hP e he

/-- A movement for an order. -/
theorem Mutated.onRecord {params : MutateWalletParams} {L L' : Ledger} {orders : Table Order}
    {o : Order} {id : Uuid} (h : Mutated params L L') (ho : orders.find? id = some o)
    (href : params.referenceId = id.text) (hopen : params.entryType = .RELEASE → o.status ≠ .OPEN) :
    Appends (OrdersOnRecord orders) L L' :=
  h.appends fun _ _ _ =>
    ⟨id, o, ho, (congrArg (varchar 255) href).trans (id.varchar_text (by decide)), hopen⟩

/-- A move whose movements refer to the orders. -/
theorem MovedFrom.onRecord {st : TradeStatus} {v : TradeMove} {tradeId : Uuid}
    (hv : ∀ side trade o, (v.movement side trade o).referenceId = o.id.text)
    (hopen : v.orderStatus ≠ .OPEN) (h : MovedFrom st v tradeId s t) :
    Appends (OrdersOnRecord t.orders) s.ledger t.ledger := by
  obtain ⟨trade, -, -, hmoved⟩ := h
  have hset := hmoved.statusSet
  obtain @⟨y, n, L, os, hy, hn, -, hmut, hmut', -, -, -, -⟩ := hmoved
  have hyid : y.id = trade.yesOrderId := Table.key_of_find? hy
  have hnid : n.id = trade.noOrderId := Table.key_of_find? hn
  have hyes : t.orders.find? y.id = some (y.withStatus v.orderStatus) :=
    hset.find?_mem (by simp [hyid]) (by rw [hyid, hy])
  have hno : t.orders.find? n.id = some (n.withStatus v.orderStatus) :=
    hset.find?_mem (by simp [hnid]) (by rw [hnid, hn])
  exact (hmut.onRecord hyes (hv _ _ _) fun _ => hopen).trans
    (hmut'.onRecord hno (hv _ _ _) fun _ => hopen)

/-- Every action keeps the orders on record. -/
theorem Db.OnRecord.effect {a : Action} (h : s.OnRecord) (hs : s.Coherent)
    (heff : a.Effect m s t) : t.OnRecord := by
  have hev := heff.evolves hs
  have same : t = s → t.OnRecord := by
    rintro rfl
    exact h
  have appends : Appends (OrdersOnRecord t.orders) s.ledger t.ledger → t.OnRecord :=
    h.of_appends hev
  -- an action whose entries neither reserve nor release
  have others : a.entryType ≠ some .RESERVE → a.entryType ≠ some .RELEASE → t.OnRecord := by
    intro hres hrel
    refine appends (heff.appends.mono fun e he hty => ?_)
    rcases hty with hty | hty <;> rw [hty] at he
    · exact absurd he hres
    · exact absurd he hrel
  cases a with
  | placeOrder userId dto orderId now createdAt =>
      refine heff.elim same fun hplaced => ?_
      have hnew : t.orders.find? orderId = some (dto.order userId orderId createdAt) := by
        rw [Table.find?_insert hplaced.inserted]
        exact if_pos rfl
      exact appends (hplaced.reserved.onRecord hnew rfl (by rintro ⟨⟩))
  | cancelOrder userId orderId createdAt =>
      obtain @⟨o, hfound, -, -, hsaved, hmut, -⟩ := heff
      have hid : o.id = orderId := Table.key_of_find? hfound
      subst hid
      have hnew : t.orders.find? o.id = some (o.withStatus .CANCELLED) :=
        Table.find?_update_self hsaved hfound
      exact appends (hmut.onRecord hnew rfl (by rintro _ ⟨⟩))
  | failPendingTradeAndReleaseFunds tradeId createdAt =>
      exact heff.elim same fun hmove => appends (hmove.onRecord (fun _ _ _ => rfl) (by rintro ⟨⟩))
  | markSettlementFailure tradeId createdAt =>
      exact heff.elim same fun hmove => appends (hmove.onRecord (fun _ _ _ => rfl) (by rintro ⟨⟩))
  | prepareTradeForRetry tradeId createdAt =>
      exact heff.elim same fun hmove => appends (hmove.onRecord (fun _ _ _ => rfl) (by rintro ⟨⟩))
  | _ => exact others (by rintro ⟨⟩) (by rintro ⟨⟩)

theorem onRecord_of_reachable {C : Db → Call → Prop} {db : Db}
    (h : (exchange.restrict C).Reachable db) : db.Coherent ∧ db.OnRecord :=
  exchange_invariant Db.OnRecord (fun e he => by cases he)
    (fun _ _ _ _ hs _ hI _ heff => hI.effect hs heff) h

end OnRecord

/-! ## When a success means what the request asked for -/

section Honoured

variable {s t : Db} {busy : RowId → Prop}

/-- Whether there is an entry of the kind that a movement appends. -/
theorem Mutated.exists_iff {params : MutateWalletParams} {L L' : Ledger} {amount : ℤ}
    (h : Mutated params L L') (hamount : params.amountCents = .int amount)
    {P : WalletEntry → Prop} (hP : ∀ walletId, P (params.entry walletId amount)) :
    (∃ e ∈ L'.history params.userId, P e) ↔
      ¬ L.KeyUsed params.userId params.idempotencyKey ∨ ∃ e ∈ L.history params.userId, P e := by
  cases h with
  | replay used same =>
      subst same
      constructor
      · exact Or.inr
      · rintro (hfresh | hold)
        · exact absurd used hfresh
        · exact hold
  | @posted w a hp =>
      have ha : a = amount := (JsNumber.int.inj (hamount.symm.trans hp.amount_eq)).symm
      subst ha
      constructor
      · intro _
        exact Or.inl hp.fresh
      · intro _
        refine ⟨_, ?_, hP w.id⟩
        rw [hp.history_self]
        exact List.mem_append_right _ (List.mem_singleton.mpr rfl)

/-- An order that is not there has no entries. -/
theorem Db.OnRecord.no_reserve (h : s.OnRecord) {orderId userId : Uuid} {amount : ℤ}
    (hnone : s.orders.find? orderId = none) :
    ¬ s.ledger.HasOrderEntry userId .RESERVE amount orderId := by
  rintro ⟨e, he, hty, -, href⟩
  obtain ⟨id, o, ho, href', -⟩ := h e (mem_of_history he) (Or.inl hty)
  rw [← Uuid.ext_text (href.symm.trans href'), hnone] at ho
  cases ho

/-- Nothing has been released for an open order. -/
theorem Db.OnRecord.no_release (h : s.OnRecord) {orderId userId : Uuid} {amount : ℤ} {o : Order}
    (hfound : s.orders.find? orderId = some o) (hopen : o.status = .OPEN) :
    ¬ s.ledger.HasOrderEntry userId .RELEASE amount orderId := by
  rintro ⟨e, he, hty, -, href⟩
  obtain ⟨id, o', ho', href', hne⟩ := h e (mem_of_history he) (Or.inr hty)
  rw [← Uuid.ext_text (href.symm.trans href'), hfound] at ho'
  cases ho'
  exact hne hty hopen

/-- An order of the user with the key is the one that the query finds. -/
theorem PlaceOrderDto.existing_eq_some {dto : PlaceOrderDto} {userId : Uuid} {o : Order}
    (ho : o ∈ s.orders.rows) (huser : o.userId = userId)
    (hkey : o.idempotencyKey = dto.idempotencyKey) : dto.existing userId s = some o := by
  cases hfound : dto.existing userId s with
  | none =>
      have hnot := List.find?_eq_none.mp hfound o ho
      simp [huser, hkey] at hnot
  | some o' =>
      have hp := List.find?_some hfound
      rw [Bool.and_eq_true, decide_eq_true_eq, decide_eq_true_eq] at hp
      have heq := s.orders.eq_of_clash (List.mem_of_find?_eq_some hfound) ho
        (Or.inr ⟨hp.1.trans huser.symm, hp.2.trans hkey.symm⟩)
      rw [heq]

/-- After a placement there was no order of the user with the key. -/
theorem Placed.existing_eq_none {userId orderId : Uuid} {dto : PlaceOrderDto}
    {now createdAt : Timestamp} (hs : s.Coherent)
    (h : Placed userId dto orderId now createdAt s t) : dto.existing userId s = none := by
  refine List.find?_eq_none.mpr fun o ho hp => ?_
  rw [Bool.and_eq_true, decide_eq_true_eq, decide_eq_true_eq] at hp
  exact h.absent hs ⟨o, ho, hp⟩

theorem placeOrder_honoured_iff {userId orderId : Uuid} {dto : PlaceOrderDto}
    {now createdAt : Timestamp} {r : OrderEntity} (hcoherent : s.Coherent) (hs : s.OnRecord)
    (h : Exec (.serial busy) (placeOrder userId dto orderId now createdAt) s r t) :
    (Request.placeOrder userId dto orderId now createdAt).Honoured t (some r.row) ↔
      (Request.placeOrder userId dto orderId now createdAt).Clear s := by
  rcases exec_placeOrder h with ⟨rfl, -, hrow, huser, hkey⟩ | ⟨rfl, hplaced, -⟩
  · -- the order is one that is there already
    have hr : r.row ∈ t.orders.rows := by
      rcases hrow with hstale | hr
      · cases hstale
      · exact hr
    simp only [Request.Honoured, Request.Clear, PlaceOrderDto.existing_eq_some hr huser hkey]
    exact and_comm
  · -- the order is new
    have hnone : s.orders.find? orderId = none := Table.find?_insert_self hplaced.inserted
    have hiff := hplaced.reserved.exists_iff rfl (P := fun e => e.entryType = .RESERVE ∧
      e.amountCents = dto.priceCents * dto.quantity ∧ e.referenceId = orderId.text)
      (fun _ => ⟨rfl, rfl, orderId.varchar_text (by decide)⟩)
    have hterms : dto.Terms (dto.order userId orderId createdAt) := ⟨rfl, rfl, rfl, rfl⟩
    simp only [Request.Honoured, Request.Clear, hplaced.existing_eq_none hcoherent]
    constructor
    · rintro ⟨hentry, -⟩
      rcases hiff.mp hentry with hfresh | hold
      · exact hfresh
      · exact absurd hold (hs.no_reserve hnone)
    · intro hfresh
      exact ⟨hiff.mpr (Or.inl hfresh), hterms⟩

theorem cancelOrder_honoured_iff {userId orderId : Uuid} {createdAt : Timestamp} {r : Order}
    (hs : s.OnRecord) (h : Exec (.serial busy) (cancelOrder userId orderId createdAt) s r t) :
    (Request.cancelOrder userId orderId createdAt).Honoured t (some r) ↔
      (Request.cancelOrder userId orderId createdAt).Clear s := by
  obtain ⟨hcancelled, hr⟩ := exec_cancelOrder h
  obtain @⟨o, hfound, -, hopen, hsaved, hmut, -⟩ := hcancelled
  have hid : o.id = orderId := Table.key_of_find? hfound
  subst hid
  have hnow : t.orders.find? o.id = some (o.withStatus .CANCELLED) :=
    Table.find?_update_self hsaved hfound
  rw [hnow] at hr
  cases hr
  have hiff := hmut.exists_iff rfl (P := fun e => e.entryType = .RELEASE ∧
    e.amountCents = o.reservedCents ∧ e.referenceId = o.id.text)
    (fun _ => ⟨rfl, rfl, o.id.varchar_text (by decide)⟩)
  constructor
  · intro hentry
    rcases hiff.mp hentry with hfresh | hold
    · exact hfresh
    · exact absurd hold (hs.no_release hfound hopen)
  · intro hfresh
    exact hiff.mpr (Or.inl hfresh)

/-- **What success means**: in every reachable state, a successful request has made the
entry asked for, and hands out an order with the terms asked for, if and only if its keys
were new to the ledger of the user or stand for the same request. -/
theorem Request.honoured_iff (hs : exchange.Reachable s) {req : Request} {r : Option Order}
    (h : Exec (.serial busy) req.prog s r t) : req.Honoured t r ↔ req.Clear s := by
  obtain ⟨hcoherent, hrecord⟩ := onRecord_of_reachable hs.restrict_true
  cases req with
  | deposit userId dto createdAt =>
      obtain ⟨w, s₁, hcall, hret⟩ := exec_bind.mp h
      obtain ⟨-, rfl⟩ := exec_pure.mp hret
      obtain ⟨L, rfl, hmut⟩ := exec_movement hcall
      exact hmut.exists_iff rfl fun _ => ⟨rfl, rfl⟩
  | withdraw userId dto createdAt =>
      obtain ⟨w, s₁, hcall, hret⟩ := exec_bind.mp h
      obtain ⟨-, rfl⟩ := exec_pure.mp hret
      obtain ⟨L, rfl, hmut⟩ := exec_movement hcall
      exact hmut.exists_iff rfl fun _ => ⟨rfl, rfl⟩
  | placeOrder userId dto orderId now createdAt =>
      obtain ⟨o, s₁, hcall, hret⟩ := exec_bind.mp h
      obtain ⟨rfl, rfl⟩ := exec_pure.mp hret
      exact placeOrder_honoured_iff hcoherent hrecord hcall
  | cancelOrder userId orderId createdAt =>
      obtain ⟨o, s₁, hcall, hret⟩ := exec_bind.mp h
      obtain ⟨rfl, rfl⟩ := exec_pure.mp hret
      exact cancelOrder_honoured_iff hrecord hcall

end Honoured

/-- A withdrawal under a key of its own. -/
theorem Request.honoured_iff_withdraw : ∃ s t, exchange.Reachable s ∧
    (Request.withdraw Sample.alice (Sample.depositDto "withdraw-1" (by decide) (by decide)) 2).Honoured
      t none := by
  set req := Request.withdraw Sample.alice
    (Sample.depositDto "withdraw-1" (by decide) (by decide)) 2 with hreq
  obtain ⟨s, hs, hfresh⟩ := exchange_of_leads (C := fun _ _ => True) (fun _ _ _ => trivial)
    (show leads (fun _ _ => true) Sample.opening
      (fun db => !decide (db.ledger.KeyUsed Sample.alice "withdraw-1") &&
        req.prog.leaves (fun r _ => r.isNone) db) = true by decide +kernel)
  rw [Bool.and_eq_true, Bool.not_eq_true', decide_eq_false_iff_not] at hfresh
  obtain ⟨busy, r, t, hexec, hr⟩ := exec_of_leaves hfresh.2
  rw [Option.isNone_iff_eq_none] at hr
  subst hr
  exact ⟨s, t, hs.of_restrict, (Request.honoured_iff hs.of_restrict hexec).mpr (Or.inl hfresh.1)⟩

/-- A withdrawal under the key of an earlier deposit succeeds and withdraws nothing. -/
theorem withdraw_not_honoured : ¬ ∀ s busy (req : Request) r t, exchange.Reachable s →
    Exec (.serial busy) req.prog s r t → req.Honoured t r := by
  intro hall
  set req := Request.withdraw Sample.alice
    (Sample.depositDto "deposit-1" (by decide) (by decide)) 2 with hreq
  obtain ⟨s, hs, hswallowed⟩ := exchange_of_leads (C := fun _ _ => True) (fun _ _ _ => trivial)
    (show leads (fun _ _ => true) Sample.opening (req.prog.leaves fun _ t =>
      t.ledger.entries.rows.all fun e => e.entryType ≠ .WITHDRAW) = true by decide +kernel)
  obtain ⟨busy, r, t, hexec, hnone⟩ := exec_of_leaves hswallowed
  obtain ⟨e, he, hty, -⟩ := hall s busy req r t hs.of_restrict hexec
  exact of_decide_eq_true (List.all_eq_true.mp hnone e (mem_of_history he)) hty

end OutcomeExchange
