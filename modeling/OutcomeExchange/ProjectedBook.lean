import OutcomeExchange.OrderBookCalls

set_option autoImplicit false

/-! # The projected order book

What the projection shows of the database, as a property of the world. `World.Sound` holds
whenever calls are in flight, and `AgreesUpTo` says up to which orders the projection agrees
with the database: an open order that it does not show is `missing`, an order that it shows
although it is no longer open is `stale`. Each kind of operation has one lemma about either. -/

namespace OutcomeExchange

open Txn Redis Async

/-- The projection shows the order. -/
def Order.Shown (keyPrefix : String) (s : Store) (order : Order) : Prop :=
  order.entry ∈ sideSet keyPrefix s order.marketId order.side

/-- What the projection shows is an order of the database, with its price and quantity. -/
def Filed (keyPrefix : String) (w : World) : Prop :=
  ∀ marketId side, ∀ e ∈ sideSet keyPrefix w.redis marketId side, ∃ o ∈ w.db.orders.rows,
    o.At marketId side ∧ e = o.entry ∧ HashShows keyPrefix w.redis o

structure World.Sound (keyPrefix : String) (w : World) : Prop where
  coherent : w.db.Coherent
  typed : WellTyped keyPrefix w.redis
  filed : Filed keyPrefix w

/-- The projection agrees with the database, except that it lacks `missing` orders and still
shows `stale` ones. -/
structure AgreesUpTo (keyPrefix : String) (missing stale : Uuid → Prop) (w : World) : Prop where
  shown : ∀ o ∈ w.db.orders.rows, o.status = .OPEN → o.Shown keyPrefix w.redis ∨ missing o.id
  gone : ∀ o ∈ w.db.orders.rows, o.status ≠ .OPEN → o.Shown keyPrefix w.redis → stale o.id

/-- Each sorted set holds exactly the open orders of its market and side, with their prices, and
their hashes hold their prices and quantities. -/
structure Agrees (keyPrefix : String) (w : World) : Prop where
  sets : ∀ marketId side e, e ∈ sideSet keyPrefix w.redis marketId side ↔
    ∃ o ∈ w.db.orders.rows, o.status = .OPEN ∧ o.At marketId side ∧ e = o.entry
  hashes : ∀ o ∈ w.db.orders.rows, o.status = .OPEN → HashShows keyPrefix w.redis o

section World

variable {keyPrefix : String} {w w' : World} {missing missing' stale stale' : Uuid → Prop}

/-- The row of an order that has been read is the only one with its identifier. -/
theorem row_of_found {db : Db} {order o : Order} {st : OrderStatus}
    (h : db.orders.find? order.id = some (order.withStatus st)) (ho : o ∈ db.orders.rows)
    (hid : o.id = order.id) : o = order.withStatus st :=
  db.orders.eq_of_key ho (Table.mem_of_find? h) hid

theorem sound_empty : World.empty.Sound keyPrefix where
  coherent := Coherent.empty
  typed := wellTyped_empty
  filed _ _ _ he := by cases he

theorem agreesUpTo_empty : AgreesUpTo keyPrefix missing stale World.empty where
  shown _ ho := by cases ho
  gone _ ho := by cases ho

/-- Only the two stores matter. -/
theorem World.Sound.congr (h : w.Sound keyPrefix) (hdb : w'.db = w.db)
    (hredis : w'.redis = w.redis) : w'.Sound keyPrefix := by
  obtain ⟨hcoherent, htyped, hfiled⟩ := h
  refine ⟨?_, ?_, ?_⟩
  · rw [hdb]
    exact hcoherent
  · rw [hredis]
    exact htyped
  · unfold Filed
    rw [hdb, hredis]
    exact hfiled

theorem AgreesUpTo.congr (h : AgreesUpTo keyPrefix missing stale w) (hdb : w'.db = w.db)
    (hredis : w'.redis = w.redis) (hmissing : ∀ id, missing id → missing' id)
    (hstale : ∀ id, stale id → stale' id) : AgreesUpTo keyPrefix missing' stale' w' := by
  constructor
  · intro o ho hopen
    rw [hdb] at ho
    rw [hredis]
    exact (h.shown o ho hopen).imp_right (hmissing o.id)
  · intro o ho hnot hshown
    rw [hdb] at ho
    rw [hredis] at hshown
    exact hstale o.id (h.gone o ho hnot hshown)

/-- Where nothing is missing and nothing stale, the projection agrees. -/
theorem agrees_of_agreesUpTo (hw : w.Sound keyPrefix)
    (h : AgreesUpTo keyPrefix (fun _ => False) (fun _ => False) w) : Agrees keyPrefix w := by
  have hshown : ∀ o ∈ w.db.orders.rows, o.status = .OPEN → o.Shown keyPrefix w.redis :=
    fun o ho hopen => (h.shown o ho hopen).resolve_right fun hmissing => hmissing
  constructor
  · intro marketId side e
    constructor
    · intro he
      obtain ⟨o, ho, hat, rfl, -⟩ := hw.filed marketId side e he
      refine ⟨o, ho, ?_, hat, rfl⟩
      by_contra hnot
      obtain ⟨rfl, rfl⟩ := hat
      exact h.gone o ho hnot he
    · rintro ⟨o, ho, hopen, ⟨rfl, rfl⟩, rfl⟩
      exact hshown o ho hopen
  · intro o ho hopen
    obtain ⟨o', ho', -, hentry, hhash⟩ := hw.filed _ _ _ (hshown o ho hopen)
    have hid : o.id = o'.id := Uuid.ext_text (congrArg Entry.member hentry)
    rw [w.db.orders.eq_of_key ho ho' hid]
    exact hhash

/-! ## A transaction has committed -/

section Transaction

variable {a : Action} {r : a.Result} {busy : RowId → Prop}

theorem World.Sound.transaction (h : w.Sound keyPrefix) (ha : a.Starts w.db)
    (hexec : Exec (.serial busy) a.tx w.db r w'.db) (hredis : w'.redis = w.redis) :
    w'.Sound keyPrefix ∧ OrdersKept w.db w'.db := by
  have heff := exec_tx_effect h.coherent ha hexec
  have hkept : OrdersKept w.db w'.db := (heff.evolves h.coherent).ordersKept
  refine ⟨⟨h.coherent.effect heff, ?_, ?_⟩, hkept⟩
  · rw [hredis]
    exact h.typed
  · intro marketId side e he
    rw [hredis] at he ⊢
    obtain ⟨o, ho, hat, rfl, hhash⟩ := h.filed marketId side e he
    obtain ⟨st, hst, -⟩ := hkept o.id o (Table.find?_key ho)
    exact ⟨o.withStatus st, Table.mem_of_find? hst, hat, rfl, hhash⟩

theorem AgreesUpTo.transaction (h : AgreesUpTo keyPrefix missing stale w)
    (hw : w.Sound keyPrefix) (ha : a.Starts w.db)
    (hexec : Exec (.serial busy) a.tx w.db r w'.db) (hredis : w'.redis = w.redis)
    (hmissing : ∀ id, missing id → missing' id) (hstale : ∀ id, stale id → stale' id)
    (hopens : ∀ o, a.opens r o → missing' o.id) (hconsumes : ∀ o, a.consumes r o → stale' o.id) :
    AgreesUpTo keyPrefix missing' stale' w' := by
  have hkept : OrdersKept w.db w'.db := (hw.transaction ha hexec hredis).2
  constructor
  · intro o ho hopen
    rw [hredis]
    rcases orders_of_tx hw.coherent ha hexec (Table.find?_key ho) with ⟨st, hst, -⟩ | hopened
    · -- the order was open before, too
      obtain ⟨st', hst', hopen'⟩ := hkept _ _ hst
      have hrow : o.withStatus st' = o := Option.some.inj (hst'.symm.trans (Table.find?_key ho))
      have hstatus : st' = o.status := congrArg Order.status hrow
      have hbefore : st = .OPEN := hopen' (hstatus.trans hopen)
      exact (h.shown _ (Table.mem_of_find? hst) hbefore).imp_right (hmissing o.id)
    · exact Or.inr (hopens o hopened)
  · intro o ho hnot hshown
    rw [hredis] at hshown
    rcases orders_of_tx hw.coherent ha hexec (Table.find?_key ho) with
      ⟨st, hst, hconsumed⟩ | hopened
    · by_cases hbefore : st = .OPEN
      · exact hconsumes o ((hconsumed hbefore).resolve_left hnot)
      · exact hstale o.id (h.gone (o.withStatus st) (Table.mem_of_find? hst) hbefore hshown)
    · cases a with
      | placeOrder => exact absurd hopened.2 hnot
      | _ => exact hopened.elim

end Transaction

/-! ## An order has been projected -/

section Project

variable {order : Order} {st : OrderStatus}

theorem World.Sound.project (h : w.Sound keyPrefix)
    (hfound : w.db.orders.find? order.id = some (order.withStatus st)) (hdb : w'.db = w.db)
    (hredis : w'.redis = w.redis.multi (projectCommands keyPrefix order)) :
    w'.Sound keyPrefix := by
  refine ⟨?_, ?_, fun marketId side e he => ?_⟩
  · rw [hdb]
    exact h.coherent
  · rw [hredis]
    exact h.typed.project
  · rw [hredis, mem_sideSet_project h.typed] at he
    rw [hdb, hredis]
    rcases he with ⟨rfl, hat⟩ | ⟨he, hother⟩
    · exact ⟨_, Table.mem_of_find? hfound, hat, rfl, hashShows_project h.typed⟩
    · obtain ⟨o, ho, hat, rfl, hhash⟩ := h.filed marketId side e he
      refine ⟨o, ho, hat, rfl, ?_⟩
      by_cases hid : o.id = order.id
      · rw [row_of_found hfound ho hid]
        exact hashShows_project h.typed
      · exact hhash.congr (project_hash_of_ne hid)

theorem AgreesUpTo.project (h : AgreesUpTo keyPrefix missing stale w) (hw : w.Sound keyPrefix)
    (hfound : w.db.orders.find? order.id = some (order.withStatus st)) (hdb : w'.db = w.db)
    (hredis : w'.redis = w.redis.multi (projectCommands keyPrefix order))
    (hmissing : ∀ id, order.id ≠ id → missing id → missing' id)
    (hstale : ∀ id, stale id → stale' id) (hfresh : st ≠ .OPEN → stale order.id) :
    AgreesUpTo keyPrefix missing' stale' w' := by
  constructor
  · intro o ho hopen
    rw [hdb] at ho
    rw [hredis, Order.Shown, mem_sideSet_project hw.typed]
    by_cases hid : o.id = order.id
    · rw [row_of_found hfound ho hid]
      exact Or.inl (Or.inl ⟨rfl, rfl, rfl⟩)
    · refine (h.shown o ho hopen).imp (fun hshown => Or.inr ⟨hshown, fun hsame => ?_⟩)
        (hmissing o.id (Ne.symm hid))
      exact hid (Uuid.ext_text hsame.2)
  · intro o ho hnot hshown
    rw [hdb] at ho
    rw [hredis, Order.Shown, mem_sideSet_project hw.typed] at hshown
    by_cases hid : o.id = order.id
    · rw [row_of_found hfound ho hid] at hnot
      rw [hid]
      exact hstale order.id (hfresh hnot)
    · rcases hshown with ⟨hentry, -⟩ | ⟨hshown, -⟩
      · exact absurd (Uuid.ext_text (congrArg Entry.member hentry)) hid
      · exact hstale o.id (h.gone o ho hnot hshown)

end Project

/-! ## An order has been removed -/

section Remove

variable {order : Order} {st : OrderStatus}

theorem World.Sound.remove (h : w.Sound keyPrefix)
    (hfound : w.db.orders.find? order.id = some (order.withStatus st)) (hdb : w'.db = w.db)
    (hredis : w'.redis = w.redis.multi (removeCommands keyPrefix order)) :
    w'.Sound keyPrefix := by
  refine ⟨?_, ?_, fun marketId side e he => ?_⟩
  · rw [hdb]
    exact h.coherent
  · rw [hredis]
    exact h.typed.remove
  · rw [hredis, mem_sideSet_remove] at he
    rw [hdb, hredis]
    obtain ⟨o, ho, hat, rfl, hhash⟩ := h.filed marketId side e he.1
    have hid : o.id ≠ order.id := by
      intro hid
      refine he.2 ?_
      rw [row_of_found hfound ho hid] at hat ⊢
      exact ⟨hat, rfl⟩
    exact ⟨o, ho, hat, rfl, hhash.congr (remove_hash_of_ne hid)⟩

theorem AgreesUpTo.remove (h : AgreesUpTo keyPrefix missing stale w)
    (hfound : w.db.orders.find? order.id = some (order.withStatus st)) (hst : st ≠ .OPEN)
    (hdb : w'.db = w.db) (hredis : w'.redis = w.redis.multi (removeCommands keyPrefix order))
    (hmissing : ∀ id, missing id → missing' id)
    (hstale : ∀ id, order.id ≠ id → stale id → stale' id) :
    AgreesUpTo keyPrefix missing' stale' w' := by
  constructor
  · intro o ho hopen
    rw [hdb] at ho
    rw [hredis, Order.Shown, mem_sideSet_remove]
    have hid : o.id ≠ order.id := by
      intro hid
      rw [row_of_found hfound ho hid] at hopen
      exact hst hopen
    refine (h.shown o ho hopen).imp (fun hshown => ⟨hshown, fun hsame => ?_⟩) (hmissing o.id)
    exact hid (Uuid.ext_text hsame.2)
  · intro o ho hnot hshown
    rw [hdb] at ho
    rw [hredis, Order.Shown, mem_sideSet_remove] at hshown
    have hid : o.id ≠ order.id := by
      intro hid
      refine hshown.2 ?_
      rw [row_of_found hfound ho hid]
      exact ⟨⟨rfl, rfl⟩, rfl⟩
    exact hstale o.id (Ne.symm hid) (h.gone o ho hnot hshown.1)

end Remove

end World

end OutcomeExchange
