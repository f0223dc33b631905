import OutcomeExchange.Coherence
import OutcomeExchange.Runs

set_option autoImplicit false

/-! # Orders at rest

Placements, cancellations and the matching attempts that placements start, interleaved
under row locks. An order is matched once, right after its placement, so a pair of orders
that cross must be found by the attempt for one of the two.

The invariant (`Book.Covered`) is that every pair that crosses still has somebody to deal
with it: an attempt that is due or under way, or a cancellation. The one step that can
break it is a counterparty query that comes back empty while a row that matches it is
held by a transaction that will leave that row as it is (`Misses`): two attempts for a
pair, each holding its own order, skip each other. -/

namespace OutcomeExchange

open Txn

/-! ## Requests and the attempts they start -/

/-- The transactions of the `placeOrder` and `cancelOrder` requests. -/
inductive BookCall
  | placeOrder (userId : Uuid) (dto : PlaceOrderDto) (orderId : Uuid) (now createdAt : Timestamp)
  | cancelOrder (userId orderId : Uuid) (createdAt : Timestamp)
  | tryMatchOrder (orderId tradeId : Uuid)

/-- A transaction that no matching attempt follows. -/
def Tx.noMatch {α : Type} (p : Tx α) : Tx (Option Uuid) := do
  let _ ← p
  return none

/-- A placement returns the order that `tryMatchOrder` is called with. -/
def BookCall.prog : BookCall → Tx (Option Uuid)
  | .placeOrder userId dto orderId now createdAt => do
      let order ← OutcomeExchange.placeOrder userId dto orderId now createdAt
      return some order.row.id
  | .cancelOrder userId orderId createdAt =>
      Tx.noMatch (OutcomeExchange.cancelOrder userId orderId createdAt)
  | .tryMatchOrder orderId tradeId => Tx.noMatch (OutcomeExchange.tryMatchOrder orderId tradeId)

/-- An attempt is made for an order whose placement has committed. -/
def BookCall.due (toMatch : List Uuid) : BookCall → Bool
  | .placeOrder _ _ _ _ _ => true
  | .cancelOrder _ _ _ => true
  | .tryMatchOrder orderId _ => orderId ∈ toMatch

/-- The orders left to match once the call has begun. -/
def BookCall.begun (toMatch : List Uuid) : BookCall → List Uuid
  | .placeOrder _ _ _ _ _ => toMatch
  | .cancelOrder _ _ _ => toMatch
  | .tryMatchOrder orderId _ => toMatch.erase orderId

/-- In any state of the database. -/
def BookCall.Starts (_ : Db) (_ : BookCall) : Prop := True

abbrev BookSession : Type := Session dbStore Err (Option Uuid) BookCall

/-- The transactions, and the orders that are placed but not yet matched: the requests
between their two transactions. -/
structure Book where
  conf : Conf dbStore Err (Option Uuid) BookCall
  toMatch : List Uuid

/-- One event; no transaction fails. -/
inductive Book.Step : Book → Event BookCall → Book → Prop
  | begin {b : Book} {i : ℕ} {k : BookCall} {c : Conf dbStore Err (Option Uuid) BookCall}
      (due : k.due b.toMatch = true)
      (h : Conf.Step BookCall.prog BookCall.Starts b.conf (.begin i k) c) :
      Step b (.begin i k) ⟨c, k.begun b.toMatch⟩
  | statement {b : Book} {i : ℕ} {c : Conf dbStore Err (Option Uuid) BookCall}
      (h : Conf.Step BookCall.prog BookCall.Starts b.conf (.statement i) c) :
      Step b (.statement i) ⟨c, b.toMatch⟩
  | commit {b : Book} {i : ℕ} {x : BookSession} {o : Option Uuid}
      {c : Conf dbStore Err (Option Uuid) BookCall} (hx : b.conf.session i = some x)
      (ho : x.rest = .pure o)
      (h : Conf.Step BookCall.prog BookCall.Starts b.conf (.commit i) c) :
      Step b (.commit i) ⟨c, b.toMatch ++ o.toList⟩

/-- Two open orders that could be matched with each other. -/
def Order.Crosses (a c : Order) : Prop :=
  a.status = .OPEN ∧ c.status = .OPEN ∧ c.marketId = a.marketId ∧ c.side = a.side.complementary ∧
    c.quantity = a.quantity ∧ a.priceCents + c.priceCents = 100

instance (a c : Order) : Decidable (a.Crosses c) :=
  inferInstanceAs (Decidable (_ ∧ _ ∧ _ ∧ _ ∧ _ ∧ _))

/-- The book has a pair that crosses. -/
def Db.Crossed (s : Db) : Prop := ∃ a ∈ s.orders.rows, ∃ c ∈ s.orders.rows, a.Crosses c

/-- All requests have returned. -/
def Book.AtRest (b : Book) : Prop := b.toMatch = [] ∧ ∀ i, b.conf.session i = none

/-- Any requests, on any book that is not crossed. -/
def book : System Book (Event BookCall) where
  init b := b.AtRest ∧ ¬ b.conf.committed.Crossed
  step := Book.Step

/-- The next statement of session `i` is a counterparty query that comes back empty,
although an order that matches it is locked by a transaction that will leave that order as
it is. -/
def Misses (b : Book) : Event BookCall → Prop
  | .statement i => ∃ x order k s, b.conf.session i = some x ∧
      x.rest = .selectSkipLocked (counterpartyQuery order) k ∧ x.view b.conf.committed = .ok s ∧
      (∀ r ∈ counterparties order s, b.conf.lockedByOther i r) ∧
      ∃ r ∈ counterparties order s, ∃ j y, j ≠ i ∧ b.conf.session j = some y ∧ r ∈ y.held ∧
        y.Leaves b.conf.committed r
  | _ => False

/-! ## Pairs that cross -/

section Crosses

variable {a c : Order}

theorem OutcomeSide.complementary_complementary (side : OutcomeSide) :
    side.complementary.complementary = side := by
  cases side <;> rfl

theorem Order.Crosses.symm (h : a.Crosses c) : c.Crosses a := by
  obtain ⟨ha, hc, hmarket, hside, hquantity, hprice⟩ := h
  refine ⟨hc, ha, hmarket.symm, ?_, hquantity.symm, by omega⟩
  rw [hside, OutcomeSide.complementary_complementary]

/-- The attempt for either order of the pair looks for the other. -/
theorem Order.Crosses.mem_counterparties {s : Db} (ha : a ∈ s.orders.rows) (hc : c ∈ s.orders.rows)
    (h : a.Crosses c) : RowId.order c.id ∈ counterparties a s := by
  obtain ⟨-, hopen, hmarket, hside, hquantity, hprice⟩ := h
  have hid : c.id ≠ a.id := by
    intro hid
    have heq : c = a := s.orders.eq_of_key hc ha hid
    rw [heq] at hside
    cases hs : a.side <;> simp [hs, OutcomeSide.complementary] at hside
  refine OutcomeExchange.mem_counterparties.mpr ⟨c, Table.find?_key hc, ?_, rfl⟩
  exact Order.complements_iff.mpr ⟨hmarket, hside, by omega, hquantity, hopen, hid⟩

end Crosses

/-! ## How far an attempt has come -/

/-- `tryMatchOrder` once it has read its own order. -/
def afterLock (tradeId : Uuid) : Option Order → Tx (Option Matched)
  | none => return none
  | some order =>
      if order.status ≠ .OPEN then return none
      else matchOpenOrder order tradeId

/-- `tryMatchOrder` once it has read its counterparty. -/
def afterChoice (order : Order) (tradeId : Uuid) : Option Order → Tx (Option Matched)
  | none => return none
  | some counterparty => makeTrade order counterparty tradeId

/-- `findCounterparty` once the query has answered. -/
def afterQuery : Option RowId → Tx (Option Order)
  | some (.order id) => findOrderForUpdate id
  | _ => return none

theorem tryMatchOrder_eq {orderId tradeId : Uuid} : Tx.noMatch (tryMatchOrder orderId tradeId) =
    .selectForUpdate (.order orderId) fun o => Tx.noMatch (afterLock tradeId o) := rfl

theorem matchOpenOrder_eq {order : Order} {tradeId : Uuid} :
    Tx.noMatch (matchOpenOrder order tradeId) =
      .selectSkipLocked (counterpartyQuery order) fun r =>
        Tx.noMatch (afterQuery r >>= afterChoice order tradeId) := rfl

theorem taking_eq {order : Order} {tradeId id : Uuid} :
    Tx.noMatch (afterQuery (some (.order id)) >>= afterChoice order tradeId) =
      .selectForUpdate (.order id) fun o => Tx.noMatch (afterChoice order tradeId o) := rfl

theorem exec_noMatch {α : Type} {m : Mode RowId} {s t : Db} {p : Tx α} {o : Option Uuid} :
    Exec m (Tx.noMatch p) s o t ↔ o = none ∧ ∃ r, Exec m p s r t := by
  rw [Tx.noMatch, exec_bind]
  constructor
  · intro h
    obtain ⟨r, s₁, hp, hret⟩ := h
    obtain ⟨ho, rfl⟩ := exec_pure.mp hret
    exact ⟨ho.symm, r, hp⟩
  · intro h
    obtain ⟨rfl, r, hp⟩ := h
    exact ⟨r, t, hp, exec_pure.mpr ⟨rfl, rfl⟩⟩

theorem exec_makeTrade_statusSet {m : Mode RowId} {s t : Db} {order c : Order} {tradeId : Uuid}
    {r : Option Matched} (h : Exec m (makeTrade order c tradeId) s r t)
    (hfound : s.orders.find? order.id = some order) (hother : s.orders.find? c.id = some c) :
    StatusSet [order.id, c.id] .MATCH_PENDING s.orders t.orders := by
  obtain ⟨-, os, hos, hos', -⟩ := exec_makeTrade h
  exact StatusSet.pair hfound hother hos hos'

/-- How far the attempt of session `x` for `orderId` has come, with the orders that it has
yet to deal with. -/
inductive Stage (s : Db) (x : BookSession) (orderId tradeId : Uuid) : List Uuid → Prop
  | begun (rest : x.rest = (BookCall.tryMatchOrder orderId tradeId).prog) (pending : x.pending = [])
      (held : x.held = []) : Stage s x orderId tradeId [orderId]
  | looking {order : Order} (rest : x.rest = Tx.noMatch (matchOpenOrder order tradeId)) (pending : x.pending = [])
      (held : x.held = [.order orderId]) (found : s.orders.find? orderId = some order) :
      Stage s x orderId tradeId [orderId]
  | chosen {order c : Order} (pending : x.pending = [])
      (rest : x.rest = Tx.noMatch (afterQuery (some (.order c.id)) >>= afterChoice order tradeId))
      (held : RowId.order orderId ∈ x.held ∧ RowId.order c.id ∈ x.held)
      (found : s.orders.find? orderId = some order) (other : s.orders.find? c.id = some c) :
      Stage s x orderId tradeId [orderId, c.id]
  | saving {id : Uuid} (completes : x.Completes s fun t _ v =>
        StatusSet [orderId, id] .MATCH_PENDING t.orders v.orders) :
      Stage s x orderId tradeId [orderId, id]
  | ended (rest : x.rest = .pure none) (pending : x.pending = []) : Stage s x orderId tradeId []

/-- What is left of the transaction of session `x` deals with order `id`. -/
inductive Expects (s : Db) (x : BookSession) (id : Uuid) : Prop
  | cancel {userId : Uuid} {createdAt : Timestamp} (h : x.call = .cancelOrder userId id createdAt)
  | attempt {orderId tradeId : Uuid} {ids : List Uuid}
      (h : x.call = .tryMatchOrder orderId tradeId) (stage : Stage s x orderId tradeId ids)
      (hid : id ∈ ids)

section Stage

variable {s s' u : Db} {x x' : BookSession} {orderId tradeId : Uuid} {ids : List Uuid}
  {busy : RowId → Prop}

/-- What others commit does not set an attempt back. -/
theorem Stage.agree (h : Stage s x orderId tradeId ids) (hag : AgreeOn dbStore x.held s s') :
    Stage s' x orderId tradeId ids := by
  have find : ∀ {id : Uuid} {o : Order}, RowId.order id ∈ x.held → s.orders.find? id = some o →
      s'.orders.find? id = some o := by
    intro id o hid ho
    have hslice : s.orders.find? id = s'.orders.find? id := hag _ hid
    rw [← hslice, ho]
  cases h with
  | begun rest pending held => exact .begun rest pending held
  | looking rest pending held found =>
      exact .looking rest pending held (find (by rw [held]; exact List.mem_singleton_self _) found)
  | chosen pending rest held found other =>
      exact .chosen pending rest held (find held.1 found) (find held.2 other)
  | saving completes => exact .saving (completes.agree hag)
  | ended rest pending => exact .ended rest pending

theorem Expects.agree {id : Uuid} (h : Expects s x id) (hag : AgreeOn dbStore x.held s s') :
    Expects s' x id := by
  cases h with
  | cancel h => exact .cancel h
  | attempt h stage hid => exact .attempt h (stage.agree hag) hid

/-- The first statement of an attempt locks its own order, and the attempt is over if that
order is not open. -/
theorem Stage.next_begun (rest : x.rest = (BookCall.tryMatchOrder orderId tradeId).prog)
    (pending : x.pending = []) (held : x.held = []) (hnext : x.Next busy s x') :
    Stage s x' orderId tradeId [orderId] ∨ (Stage s x' orderId tradeId [] ∧
      ∀ order, s.orders.find? orderId = some order → order.status ≠ .OPEN) := by
  rw [BookCall.prog, tryMatchOrder_eq] at rest
  -- the lock is granted if the order is there; an attempt for an order that is not open ends
  rcases hnext.of_selectForUpdate rest with ⟨-, hthere, rfl⟩ | ⟨habsent, rfl⟩
  · obtain ⟨order, hfound⟩ := Option.isSome_iff_exists.mp hthere
    have hslice : dbStore.slice (RowId.order orderId) s = some order := hfound
    have hfind : s.orders.find? orderId = some order := hfound
    by_cases hopen : order.status = .OPEN
    · refine Or.inl (.looking ?_ pending ?_ hfind)
      · show Tx.noMatch (afterLock tradeId (dbStore.slice (RowId.order orderId) s)) = _
        rw [hslice, afterLock, if_neg (not_not.mpr hopen)]
      · show RowId.order orderId :: x.held = [RowId.order orderId]
        rw [held]
    · refine Or.inr ⟨.ended ?_ pending, fun order' hfound' => ?_⟩
      · show Tx.noMatch (afterLock tradeId (dbStore.slice (RowId.order orderId) s)) = _
        rw [hslice, afterLock, if_pos hopen]
        rfl
      · rw [hfind] at hfound'
        cases hfound'
        exact hopen
  · have hnone : s.orders.find? orderId = none := isSome_false.mp habsent
    have hslice : dbStore.slice (RowId.order orderId) s = none := hnone
    refine Or.inr ⟨.ended ?_ pending, fun order hfound => ?_⟩
    · show Tx.noMatch (afterLock tradeId (dbStore.slice (RowId.order orderId) s)) = _
      rw [hslice]
      rfl
    · rw [hnone] at hfound
      cases hfound

/-- The counterparty query locks the order that is taken, or comes back empty. -/
theorem Stage.next_looking {order : Order} (rest : x.rest = Tx.noMatch (matchOpenOrder order tradeId))
    (pending : x.pending = []) (held : x.held = [.order orderId])
    (found : s.orders.find? orderId = some order) (hnext : x.Next busy s x') :
    (∃ c, Stage s x' orderId tradeId [orderId, c]) ∨ (Stage s x' orderId tradeId [] ∧
      (∃ k, x.rest = .selectSkipLocked (counterpartyQuery order) k) ∧
        ∀ r ∈ counterparties order s, busy r) := by
  rw [matchOpenOrder_eq] at rest
  rcases hnext.of_selectSkipLocked rest with ⟨r, rows, hfirst, hmem, rfl⟩ | ⟨hnone, rfl⟩
  · obtain ⟨c, hc, hcomp, hr⟩ := mem_counterparties.mp hfirst.1
    subst hr
    refine Or.inl ⟨c.id, .chosen pending rfl ⟨?_, List.mem_append_left _ hmem⟩ found hc⟩
    show RowId.order orderId ∈ rows ++ x.held
    rw [held]
    exact List.mem_append_right _ (List.mem_singleton_self _)
  · exact Or.inr ⟨.ended rfl pending, ⟨_, rest⟩, hnone⟩

/-- The order that was taken is read again under its lock, and the trade is saved. -/
theorem Stage.next_chosen {order c : Order} (pending : x.pending = [])
    (rest : x.rest = Tx.noMatch (afterQuery (some (.order c.id)) >>= afterChoice order tradeId))
    (held : RowId.order orderId ∈ x.held ∧ RowId.order c.id ∈ x.held)
    (found : s.orders.find? orderId = some order) (other : s.orders.find? c.id = some c)
    (hnext : x.Next busy s x') : Stage s x' orderId tradeId [orderId, c.id] := by
  rw [taking_eq] at rest
  have hslice : dbStore.slice (RowId.order c.id) s = some c := other
  rcases hnext.of_selectForUpdate rest with ⟨-, -, rfl⟩ | ⟨habsent, -⟩
  · refine .saving ?_
    intro t v a w hag hv hex
    have hvt : v = t := Session.view_of_pending (by exact pending) hv
    subst hvt
    -- both rows are held, so the two orders are still what was read
    have hown : v.orders.find? orderId = some order :=
      (hag _ (List.mem_cons_of_mem _ held.1)).symm.trans found
    have hthere : v.orders.find? c.id = some c := (hag _ (List.mem_cons_self ..)).symm.trans other
    have hid : order.id = orderId := Table.key_of_find? found
    subst hid
    have hrest : Exec .concurrent (Tx.noMatch (afterChoice order tradeId (some c))) v a w :=
      hslice ▸ hex
    obtain ⟨-, r, htrade⟩ := exec_noMatch.mp hrest
    exact exec_makeTrade_statusSet htrade hown hthere
  · rw [hslice] at habsent
    cases habsent

/-- **The statement lemma of an attempt.** It goes on, with all that it had to deal with,
or it is over: its own order is not open, or the counterparty query came back empty. -/
theorem Stage.next (h : Stage s x orderId tradeId ids) (hu : x.view s = .ok u)
    (hnext : x.Next busy u x') :
    (∃ ids', Stage s x' orderId tradeId ids' ∧ ∀ id ∈ ids, id ∈ ids') ∨
      (Stage s x' orderId tradeId [] ∧ ∀ id ∈ ids, id = orderId ∧
        ∀ order, s.orders.find? orderId = some order → order.status = .OPEN →
          (∃ k, x.rest = .selectSkipLocked (counterpartyQuery order) k) ∧ u = s ∧
            ∀ r ∈ counterparties order s, busy r) := by
  -- the stages of an attempt; the order is given up only where the query comes back empty
  cases h with
  | begun rest pending held =>
      have hus := Session.view_of_pending pending hu
      subst hus
      rcases Stage.next_begun rest pending held hnext with h | ⟨h, hnot⟩
      · exact Or.inl ⟨_, h, fun _ => id⟩
      · right
        refine ⟨h, fun id hid => ⟨List.mem_singleton.mp hid, ?_⟩⟩
        intro order hfound hopen
        exact absurd hopen (hnot order hfound)
  | looking rest pending held found =>
      have hus := Session.view_of_pending pending hu
      subst hus
      rcases Stage.next_looking rest pending held found hnext with ⟨c, h⟩ | ⟨h, hquery, hbusy⟩
      · left
        refine ⟨_, h, fun id hid => ?_⟩
        rw [List.mem_singleton.mp hid]
        exact List.mem_cons_self ..
      · right
        refine ⟨h, fun id hid => ⟨List.mem_singleton.mp hid, ?_⟩⟩
        intro order hfound _
        rw [found] at hfound
        cases hfound
        exact ⟨hquery, rfl, hbusy⟩
  | chosen pending rest held found other =>
      have hus := Session.view_of_pending pending hu
      subst hus
      exact Or.inl ⟨_, Stage.next_chosen pending rest held found other hnext, fun _ => id⟩
  | saving completes => exact Or.inl ⟨_, .saving (completes.next hu hnext), fun _ => id⟩
  | ended rest pending => exact (hnext.of_pure rest).elim

end Stage

/-! ## What the transactions leave alone -/

section Leaves

variable {s : Db} {x : BookSession} {id : Uuid}

/-- A commit of the whole transaction that leaves order `id` alone. -/
theorem leaves_of_replays (h : Replays BookCall.prog s x)
    (hcall : ∀ t o v, (∃ c, t.orders.find? id = some c) → Exec .concurrent x.call.prog t o v →
      v.orders.find? id = t.orders.find? id) (hheld : RowId.order id ∈ x.held)
    (hthere : ∃ c, s.orders.find? id = some c) : x.Leaves s (.order id) := by
  intro t u o v hag hu hex
  have hsame : s.orders.find? id = t.orders.find? id := hag _ hheld
  exact hcall t o v (hsame ▸ hthere) (h t u o v hag hu hex)

theorem Placed.find?_of_some {userId orderId : Uuid} {dto : PlaceOrderDto} {now createdAt : Timestamp}
    {t v : Db} (h : Placed userId dto orderId now createdAt t v) {c : Order}
    (hc : t.orders.find? id = some c) : v.orders.find? id = some c :=
  Table.find?_insert_of_some h.inserted hc

/-- An attempt leaves an order alone that it holds but does not have to deal with. -/
theorem Stage.leaves {orderId tradeId : Uuid} {ids : List Uuid} (h : Stage s x orderId tradeId ids)
    (hheld : RowId.order id ∈ x.held) (hid : id ∉ ids) : x.Leaves s (.order id) := by
  intro t u o v hag hu hex
  show v.orders.find? id = t.orders.find? id
  -- an attempt writes the rows it has chosen, and none before it has chosen
  cases h with
  | begun rest pending held =>
      rw [held] at hheld
      cases hheld
  | looking rest pending held found =>
      rw [held] at hheld
      cases List.mem_singleton.mp hheld
      exact absurd (List.mem_singleton_self _) hid
  | @chosen order c pending rest held found other =>
      have hut := Session.view_of_pending pending hu
      subst hut
      have hown : u.orders.find? orderId = some order := (hag _ held.1).symm.trans found
      have hthere : u.orders.find? c.id = some c := (hag _ held.2).symm.trans other
      rw [rest] at hex
      obtain ⟨-, r, hend⟩ := exec_noMatch.mp hex
      obtain ⟨oc, s₁, hread, hchoice⟩ := exec_bind.mp hend
      obtain ⟨rfl, hoc⟩ := exec_findOrderForUpdate.mp hread
      cases oc with
      | none =>
          obtain ⟨-, rfl⟩ := exec_pure.mp hchoice
          rfl
      | some c' =>
          simp only [reduceCtorEq, and_false, or_false] at hoc
          have hcc : c' = c := Option.some.inj (hoc.trans hthere)
          subst hcc
          have hoid : order.id = orderId := Table.key_of_find? found
          subst hoid
          exact (exec_makeTrade_statusSet hchoice hown hthere).find?_not_mem hid
  | saving completes => exact (completes t u o v hag hu hex).find?_not_mem hid
  | ended rest pending =>
      have hut := Session.view_of_pending pending hu
      rw [rest] at hex
      obtain ⟨-, huv⟩ := exec_pure.mp hex
      rw [← huv, hut]

/-- An order that is locked by a session is either one that the session deals with, or one
that it leaves as it is. -/
theorem expects_or_leaves (hr : Replays BookCall.prog s x)
    (hst : ∀ orderId tradeId, x.call = .tryMatchOrder orderId tradeId →
      ∃ ids, Stage s x orderId tradeId ids)
    (hheld : RowId.order id ∈ x.held) (hthere : ∃ c, s.orders.find? id = some c) :
    Expects s x id ∨ x.Leaves s (.order id) := by
  -- a placement adds a row, the other two may change rows that they hold
  cases hcall : x.call with
  | placeOrder userId dto orderId now createdAt =>
      right
      refine leaves_of_replays hr ?_ hheld hthere
      intro t o v hc hex
      obtain ⟨c, hc⟩ := hc
      rw [hcall, BookCall.prog] at hex
      obtain ⟨order, s₁, hplace, hret⟩ := exec_bind.mp hex
      obtain ⟨-, rfl⟩ := exec_pure.mp hret
      rcases exec_placeOrder hplace with ⟨rfl, -⟩ | ⟨-, hplaced, -⟩
      · rfl
      · rw [hplaced.find?_of_some hc, hc]
  | cancelOrder userId orderId createdAt =>
      by_cases hid : id = orderId
      · subst hid
        exact Or.inl (.cancel hcall)
      · right
        refine leaves_of_replays hr ?_ hheld hthere
        intro t o v hc hex
        rw [hcall, BookCall.prog] at hex
        obtain ⟨-, r, hcancel⟩ := exec_noMatch.mp hex
        refine (exec_cancelOrder hcancel).1.statusSet.find?_not_mem ?_
        rwa [List.mem_singleton]
  | tryMatchOrder orderId tradeId =>
      obtain ⟨ids, hstage⟩ := hst orderId tradeId hcall
      by_cases hid : id ∈ ids
      · exact Or.inl (.attempt hcall hstage hid)
      · exact Or.inr (hstage.leaves hheld hid)

/-- An order that is open after a transaction was there before it, or is the one placed. -/
theorem BookCall.open_before {m : Mode RowId} {s v : Db} {k : BookCall} {o : Option Uuid}
    (h : Exec m k.prog s o v) {a : Order} (ha : a ∈ v.orders.rows) (hopen : a.status = .OPEN) :
    o = some a.id ∨ a ∈ s.orders.rows := by
  -- no order becomes open, so what is open afterwards was open before or is new
  have statusSet : ∀ {ids : List Uuid} {st : OrderStatus}, st ≠ .OPEN →
      StatusSet ids st s.orders v.orders → a ∈ s.orders.rows := by
    intro ids st hst hset
    obtain ⟨a', ha', ⟨-, rfl⟩ | ⟨-, rfl⟩⟩ := hset.find?_some (Table.find?_key ha)
    · exact absurd hopen hst
    · exact Table.mem_of_find? ha'
  cases k with
  | placeOrder userId dto orderId now createdAt =>
      obtain ⟨order, s₁, hplace, hret⟩ := exec_bind.mp h
      obtain ⟨ho, rfl⟩ := exec_pure.mp hret
      rcases exec_placeOrder hplace with ⟨hsame, -⟩ | ⟨rfl, hplaced, -⟩
      · right
        rw [← hsame]
        exact ha
      · rcases (Table.mem_insert hplaced.inserted).mp ha with hold | rfl
        · exact Or.inr hold
        · exact Or.inl ho.symm
  | cancelOrder userId orderId createdAt =>
      obtain ⟨-, r, hcancel⟩ := exec_noMatch.mp h
      exact Or.inr (statusSet (by decide) (exec_cancelOrder hcancel).1.statusSet)
  | tryMatchOrder orderId tradeId =>
      obtain ⟨-, r, hmatch⟩ := exec_noMatch.mp h
      right
      rcases exec_tryMatchOrder hmatch with ⟨-, hsame⟩ | ⟨-, hmade⟩
      · rw [← hsame]
        exact ha
      · obtain ⟨trade, y, n, -, -, -, -, -, -, -, hset, -⟩ := hmade.paired
        exact statusSet (by decide) hset

/-- An order that is open after a commit is not one that the session had to deal with. -/
theorem not_expects_of_open {v : Db} {o : Option Uuid} (hr : Replays BookCall.prog s x)
    (ho : x.rest = .pure o) (hv : x.view s = .ok v) {a : Order} (ha : a ∈ v.orders.rows)
    (hopen : a.status = .OPEN) : ¬ Expects s x a.id := by
  have hend : Exec .concurrent x.rest v o v := by
    rw [ho]
    exact ⟨rfl, rfl⟩
  have statusSet : ∀ {ids : List Uuid} {st : OrderStatus}, st ≠ .OPEN →
      StatusSet ids st s.orders v.orders → a.id ∉ ids := by
    intro ids st hst hset hid
    obtain ⟨a', -, ⟨-, rfl⟩ | ⟨hnot, -⟩⟩ := hset.find?_some (Table.find?_key ha)
    · exact hst hopen
    · exact hnot hid
  intro h
  cases h with
  | cancel hcall =>
      have hex := hr s v o v (fun _ _ => rfl) hv hend
      rw [hcall] at hex
      obtain ⟨-, r, hcancel⟩ := exec_noMatch.mp hex
      exact statusSet (by decide) (exec_cancelOrder hcancel).1.statusSet (List.mem_singleton_self _)
  -- before its query an attempt has not reached its end
  | attempt hcall stage hid =>
      cases stage with
      | begun rest pending held =>
          rw [BookCall.prog, tryMatchOrder_eq, ho] at rest
          cases rest
      | looking rest pending held found =>
          rw [matchOpenOrder_eq, ho] at rest
          cases rest
      | chosen pending rest held found other =>
          rw [taking_eq, ho] at rest
          cases rest
      | saving completes =>
          exact statusSet (by decide) (completes s v o v (fun _ _ => rfl) hv hend) hid
      | ended rest pending => cases hid

end Leaves

/-! ## The invariant -/

/-- Somebody still has to deal with order `id`. -/
def Book.Expected (b : Book) (id : Uuid) : Prop :=
  id ∈ b.toMatch ∨ ∃ i x, b.conf.session i = some x ∧ Expects b.conf.committed x id

/-- Every pair that crosses is one that somebody has to deal with. -/
structure Book.Covered (b : Book) : Prop where
  good : Good BookCall.prog b.conf
  stages : ∀ {i : ℕ} {x : BookSession} {orderId tradeId : Uuid}, b.conf.session i = some x →
    x.call = .tryMatchOrder orderId tradeId → ∃ ids, Stage b.conf.committed x orderId tradeId ids
  covered : ∀ {a c : Order}, a ∈ b.conf.committed.orders.rows → c ∈ b.conf.committed.orders.rows →
    a.Crosses c → b.Expected a.id ∨ b.Expected c.id

section Covered

variable {b : Book}

theorem Book.Covered.begin {i : ℕ} {k : BookCall} (hb : b.Covered)
    (new : b.conf.session i = none) (good : Good BookCall.prog
      ⟨b.conf.committed, Function.update b.conf.session i (some ⟨k, k.prog, [], []⟩)⟩) :
    Book.Covered ⟨⟨b.conf.committed,
      Function.update b.conf.session i (some ⟨k, k.prog, [], []⟩)⟩, k.begun b.toMatch⟩ := by
  have expected : ∀ {id : Uuid}, b.Expected id → Book.Expected ⟨⟨b.conf.committed,
      Function.update b.conf.session i (some ⟨k, k.prog, [], []⟩)⟩, k.begun b.toMatch⟩ id := by
    intro id h
    rcases h with h | ⟨j, x, hx, h⟩
    · by_cases hk : ∃ tradeId, k = .tryMatchOrder id tradeId
      · -- the attempt for this order is the session that begins
        obtain ⟨tradeId, rfl⟩ := hk
        exact Or.inr ⟨i, _, Function.update_self .., .attempt rfl (.begun rfl rfl rfl)
          (List.mem_singleton_self _)⟩
      · left
        cases k with
        | placeOrder userId dto orderId now createdAt => exact h
        | cancelOrder userId orderId createdAt => exact h
        | tryMatchOrder orderId tradeId =>
            have hne : id ≠ orderId := by
              rintro rfl
              exact hk ⟨tradeId, rfl⟩
            exact (List.mem_erase_of_ne hne).mpr h
    · have hj : j ≠ i := by
        rintro rfl
        rw [new] at hx
        cases hx
      exact Or.inr ⟨j, x, (Function.update_of_ne hj ..).trans hx, h⟩
  refine ⟨good, fun {j x orderId tradeId} hx hcall => ?_, fun ha hc h => ?_⟩
  · rcases update_some hx with ⟨-, hx⟩ | ⟨-, hx⟩
    · cases hx
      have hk : k = .tryMatchOrder orderId tradeId := hcall
      rw [hk]
      exact ⟨_, .begun rfl rfl rfl⟩
    · exact hb.stages hx hcall
  · exact (hb.covered ha hc h).imp expected expected

/-- A statement that is no miss leaves every pair that crosses to somebody. -/
theorem Book.Covered.statement {i : ℕ} {x x' : BookSession} {u : Db} (hb : b.Covered)
    (hx : b.conf.session i = some x) (hu : x.view b.conf.committed = .ok u)
    (hnext : x.Next (b.conf.lockedByOther i) u x') (hmiss : ¬ Misses b (.statement i))
    (good : Good BookCall.prog ⟨b.conf.committed, Function.update b.conf.session i (some x')⟩) :
    Book.Covered ⟨⟨b.conf.committed, Function.update b.conf.session i (some x')⟩, b.toMatch⟩ := by
  set s := b.conf.committed with hs
  have other : ∀ {id : Uuid} {j : ℕ} {y : BookSession}, j ≠ i → b.conf.session j = some y →
      Expects s y id →
      Book.Expected ⟨⟨s, Function.update b.conf.session i (some x')⟩, b.toMatch⟩ id :=
    fun {id j y} hj hy h => Or.inr ⟨j, y, (Function.update_of_ne hj ..).trans hy, h⟩
  have own : ∀ {id : Uuid}, Expects s x' id →
      Book.Expected ⟨⟨s, Function.update b.conf.session i (some x')⟩, b.toMatch⟩ id :=
    fun {id} h => Or.inr ⟨i, x', Function.update_self .., h⟩
  -- an order that the statement gives up is the session's own, and its query found nothing
  have expected : ∀ {id : Uuid}, b.Expected id →
      Book.Expected ⟨⟨s, Function.update b.conf.session i (some x')⟩, b.toMatch⟩ id ∨
        ∀ order, s.orders.find? id = some order → order.status = .OPEN →
          (∃ k, x.rest = .selectSkipLocked (counterpartyQuery order) k) ∧ u = s ∧
            ∀ r ∈ counterparties order s, b.conf.lockedByOther i r := by
    intro id h
    rcases h with h | ⟨j, y, hy, h⟩
    · exact Or.inl (Or.inl h)
    by_cases hj : j = i
    case neg => exact Or.inl (other hj hy h)
    rw [hj, hx] at hy
    cases hy
    cases h with
    | cancel hcall => exact Or.inl (own (.cancel (hnext.call.trans hcall)))
    | attempt hcall stage hid =>
        rcases stage.next hu hnext with ⟨ids', hstage, hsub⟩ | ⟨hover, hempty⟩
        · exact Or.inl (own (.attempt (hnext.call.trans hcall) hstage (hsub _ hid)))
        · right
          obtain ⟨rfl, hquery⟩ := hempty _ hid
          exact hquery
  -- the other order of the pair is then locked, by a session that deals with it
  have pair : ∀ {a c : Order}, a ∈ s.orders.rows → c ∈ s.orders.rows → a.Crosses c →
      b.Expected a.id →
      Book.Expected ⟨⟨s, Function.update b.conf.session i (some x')⟩, b.toMatch⟩ a.id ∨
        Book.Expected ⟨⟨s, Function.update b.conf.session i (some x')⟩, b.toMatch⟩ c.id := by
    intro a c ha hc hcross hexp
    rcases expected hexp with h | h
    · exact Or.inl h
    right
    obtain ⟨⟨k, hrest⟩, rfl, hbusy⟩ := h a (Table.find?_key ha) hcross.1
    have hmem := hcross.mem_counterparties ha hc
    obtain ⟨j, y, hj, hy, hheld⟩ := hbusy _ hmem
    rcases expects_or_leaves (hb.good.replays hy) (fun _ _ => hb.stages hy) hheld
      ⟨c, Table.find?_key hc⟩ with h | h
    · exact other hj hy h
    · exact absurd ⟨x, a, k, _, hx, hrest, hu, hbusy, _, hmem, j, y, hj, hy, hheld, h⟩ hmiss
  refine ⟨good, fun {j y orderId tradeId} hy hcall => ?_, fun {a c} ha hc h => ?_⟩
  · rcases update_some hy with ⟨-, hy⟩ | ⟨-, hy⟩
    · cases hy
      rw [hnext.call] at hcall
      obtain ⟨ids, hstage⟩ := hb.stages hx hcall
      rcases hstage.next hu hnext with ⟨ids', hstage', -⟩ | ⟨hover, -⟩
      · exact ⟨ids', hstage'⟩
      · exact ⟨[], hover⟩
    · exact hb.stages hy hcall
  · rcases hb.covered ha hc h with hexp | hexp
    · exact pair ha hc h hexp
    · exact (pair hc ha h.symm hexp).symm

theorem Book.Covered.commit {i : ℕ} {x : BookSession} {o : Option Uuid} {v : Db} (hb : b.Covered)
    (hx : b.conf.session i = some x) (ho : x.rest = .pure o)
    (hv : x.view b.conf.committed = .ok v) :
    Book.Covered ⟨⟨v, Function.update b.conf.session i none⟩, b.toMatch ++ o.toList⟩ := by
  have hr := hb.good.replays hx
  have hex : Exec .concurrent x.call.prog b.conf.committed o v := by
    refine hr _ v o v (fun _ _ => rfl) hv ?_
    rw [ho]
    exact ⟨rfl, rfl⟩
  have expected : ∀ {a : Order}, a ∈ v.orders.rows → a.status = .OPEN → b.Expected a.id →
      Book.Expected ⟨⟨v, Function.update b.conf.session i none⟩, b.toMatch ++ o.toList⟩ a.id := by
    intro a ha hopen h
    rcases h with h | ⟨j, y, hy, h⟩
    · exact Or.inl (List.mem_append_left _ h)
    · by_cases hj : j = i
      · rw [hj, hx] at hy
        cases hy
        exact absurd h (not_expects_of_open hr ho hv ha hopen)
      · exact Or.inr ⟨j, y, (Function.update_of_ne hj ..).trans hy,
          h.agree (hb.good.agree hx hv hj hy)⟩
  -- an order that was just placed is now due for its attempt
  have placed : ∀ {a : Order}, o = some a.id →
      Book.Expected ⟨⟨v, Function.update b.conf.session i none⟩, b.toMatch ++ o.toList⟩ a.id := by
    intro a hoa
    refine Or.inl (List.mem_append_right _ ?_)
    rw [hoa]
    exact List.mem_singleton_self _
  refine ⟨hb.good.commit hx hv, fun {j y orderId tradeId} hy hcall => ?_, fun {a c} ha hc h => ?_⟩
  · rcases update_some hy with ⟨-, hy⟩ | ⟨hj, hy⟩
    · cases hy
    · obtain ⟨ids, hstage⟩ := hb.stages hy hcall
      exact ⟨ids, hstage.agree (hb.good.agree hx hv hj hy)⟩
  · rcases BookCall.open_before hex ha h.1 with hoa | ha'
    · exact Or.inl (placed hoa)
    rcases BookCall.open_before hex hc h.2.1 with hoc | hc'
    · exact Or.inr (placed hoc)
    exact (hb.covered ha' hc' h).imp (expected ha h.1) (expected hc h.2.1)

/-- **The step lemma.** Every event that is no miss keeps the invariant. -/
theorem Book.Covered.step {b' : Book} {e : Event BookCall} (hb : b.Covered)
    (hmiss : ¬ Misses b e) (h : book.step b e b') : b'.Covered := by
  cases h with
  | begin due h =>
      have hgood := (hb.good.step h).1
      cases h with
      | begin new _ => exact hb.begin new hgood
  | statement h =>
      have hgood := (hb.good.step h).1
      cases h with
      | statement hx hu hnext => exact hb.statement hx hu hnext hmiss hgood
  | commit hx ho h =>
      cases h with
      | commit hx' _ hv =>
          rw [hx] at hx'
          cases hx'
          exact hb.commit hx ho hv

end Covered

/-- The book in which no counterparty query misses. -/
def attentiveBook : System Book (Event BookCall) := book.restrict fun b e => ¬ Misses b e

theorem covered_of_attentive {b : Book} (h : attentiveBook.Reachable b) : b.Covered := by
  refine h.invariant Book.Covered ?_ ?_
  · intro b hinit
    obtain ⟨⟨-, hidle⟩, huncrossed⟩ := hinit
    refine ⟨good_init hidle, fun {i x orderId tradeId} hx => ?_, fun ha hc hcross => ?_⟩
    · rw [hidle i] at hx
      cases hx
    · exact absurd ⟨_, ha, _, hc, hcross⟩ huncrossed
  · intro b e b' hb hstep
    exact hb.step hstep.1 hstep.2

/-- **No crossed book at rest**, in every interleaving in which no counterparty query comes
back empty while a matching order is held by a transaction that will leave it as it is. -/
theorem uncrossed_at_rest {b : Book} (h : attentiveBook.Reachable b) (hrest : b.AtRest) :
    ¬ b.conf.committed.Crossed := by
  intro hcrossed
  obtain ⟨a, ha, c, hc, hcross⟩ := hcrossed
  have nobody : ∀ id, ¬ b.Expected id := by
    intro id hexp
    rcases hexp with hmem | ⟨i, x, hx, -⟩
    · rw [hrest.1] at hmem
      cases hmem
    · rw [hrest.2 i] at hx
      cases hx
  exact ((covered_of_attentive h).covered ha hc hcross).elim (nobody _) (nobody _)

/-! ## Serial requests -/

/-- The calls executed one after the other, with the orders left to match. -/
def serve : List BookCall → Db → List Uuid → Option (Db × List Uuid)
  | [], s, toMatch => some (s, toMatch)
  | k :: ks, s, toMatch =>
      if k.due toMatch then
        match k.prog.run (fun _ => false) s with
        | .ok (o, t) => serve ks t (k.begun toMatch ++ o.toList)
        | .error _ => none
      else none

section Serial

variable {s t : Db} {toMatch toMatch' : List Uuid}

/-- A session that runs alone misses nothing. -/
theorem attentive_of_statements (toMatch : List Uuid) {c c' : Conf dbStore Err (Option Uuid) BookCall}
    (h : Conf.Statements BookCall.prog BookCall.Starts c c')
    (halone : ∀ j y, c.session j = some y → j = 0) :
    (∀ j y, c'.session j = some y → j = 0) ∧
      ∃ ls, attentiveBook.Run ⟨c, toMatch⟩ ls ⟨c', toMatch⟩ := by
  induction h with
  | refl => exact ⟨halone, [], .nil _⟩
  | tail _ hstep ih =>
      obtain ⟨hbefore, ls, hrun⟩ := ih
      obtain ⟨i, hstep⟩ := hstep
      refine ⟨?_, _, .snoc hrun ⟨?_, .statement hstep⟩⟩
      · cases hstep with
        | statement hx hu hnext =>
            intro j y hy
            rcases update_some hy with ⟨hj, -⟩ | ⟨-, hy⟩
            · rw [hj]
              exact hbefore _ _ hx
            · exact hbefore j y hy
      · intro hmiss
        obtain ⟨x, -, -, -, hx, -, -, -, -, -, j, y, hj, hy, -⟩ := hmiss
        exact hj ((hbefore j y hy).trans (hbefore i x hx).symm)

theorem attentive_of_serve {ks : List BookCall} (h : serve ks s toMatch = some (t, toMatch')) :
    ∃ ls, attentiveBook.Run ⟨Conf.idle s, toMatch⟩ ls ⟨Conf.idle t, toMatch'⟩ := by
  induction ks generalizing s toMatch with
  | nil =>
      cases h
      exact ⟨[], .nil _⟩
  | cons k ks ih =>
      simp only [serve] at h
      by_cases hdue : k.due toMatch = true
      case neg => rw [if_neg hdue] at h; cases h
      rw [if_pos hdue] at h
      split at h
      case h_2 => cases h
      rename_i o s₁ hrun
      have hstart : BookCall.Starts s k := trivial
      -- one call runs through while nobody else does anything
      obtain ⟨y, -, hrest, hfirst, hstmts, hlast⟩ := Conf.serial_run hstart hrun
      have halone : ∀ (x : BookSession) (j : ℕ) (z : BookSession),
          (Conf.alone s x).session j = some z → j = 0 := by
        intro x j z hz
        rcases update_some (c := Conf.idle s) hz with ⟨hj, -⟩ | ⟨-, hz⟩
        · exact hj
        · cases hz
      obtain ⟨-, ls, hmiddle⟩ :=
        attentive_of_statements (k.begun toMatch) hstmts (halone _)
      have hbegin : attentiveBook.Run ⟨Conf.idle s, toMatch⟩ [.begin 0 k]
          ⟨Conf.alone s ⟨k, k.prog, [], []⟩, k.begun toMatch⟩ :=
        System.Run.single ⟨id, .begin hdue hfirst⟩
      have hcommit : attentiveBook.step ⟨Conf.alone s y, k.begun toMatch⟩ (.commit 0)
          ⟨Conf.idle s₁, k.begun toMatch ++ o.toList⟩ :=
        ⟨id, .commit (Conf.alone_session s y) hrest hlast⟩
      obtain ⟨ls', hothers⟩ := ih h
      exact ⟨_, (System.Run.snoc (hbegin.append hmiddle) hcommit).append hothers⟩

theorem reachable_of_serve {ks : List BookCall} (h : serve ks s [] = some (t, toMatch))
    (hs : s.orders.rows = []) : attentiveBook.Reachable ⟨Conf.idle t, toMatch⟩ := by
  obtain ⟨ls, hrun⟩ := attentive_of_serve h
  refine hrun.reachable (.init ⟨⟨rfl, fun _ => rfl⟩, ?_⟩)
  intro hcrossed
  obtain ⟨a, ha, -⟩ := hcrossed
  have hrows : a ∈ s.orders.rows := ha
  rw [hs] at hrows
  cases hrows

end Serial

/-- Two orders that cross, placed and matched one after the other, become a trade. -/
theorem uncrossed_at_rest_sample : ∃ t : Db, ¬ t.Crossed ∧ t.trades.rows.length = 1 := by
  obtain ⟨s, -, hp⟩ := exists_of_leads
    (show leads (fun _ _ => true) Sample.opening (fun s => s.orders.rows = [] &&
      (serve [ .placeOrder Sample.alice Sample.yesDto Sample.yesOrder 2 2
             , .tryMatchOrder Sample.yesOrder Sample.trade
             , .placeOrder Sample.bob Sample.noDto Sample.noOrder 3 3
             , .tryMatchOrder Sample.noOrder Sample.trade ] s []).any
        fun b => b.1.trades.rows.length = 1 && b.2 = []) = true by decide +kernel)
  simp only [Bool.and_eq_true, decide_eq_true_eq, Option.any_eq_true] at hp
  obtain ⟨hempty, ⟨t, toMatch⟩, hserve, hlength, hnone⟩ := hp
  exact ⟨t, uncrossed_at_rest (reachable_of_serve hserve hempty) ⟨hnone, fun _ => rfl⟩, hlength⟩

/-! ## Two attempts that skip each other -/

/-- The sessions of a list, by their position in it. -/
def Conf.sessions (s : Db) (l : List (Option BookSession)) :
    Conf dbStore Err (Option Uuid) BookCall := ⟨s, fun i => l[i]?.join⟩

section Sessions

variable {s : Db} {l : List (Option BookSession)} {i : ℕ} {x x' : BookSession}

theorem Conf.sessions_set (hi : i < l.length) (z : Option BookSession) :
    (⟨s, Function.update (Conf.sessions s l).session i z⟩ :
      Conf dbStore Err (Option Uuid) BookCall) = Conf.sessions s (l.set i z) := by
  have hupdate : Function.update (Conf.sessions s l).session i z =
      (Conf.sessions s (l.set i z)).session := by
    funext j
    by_cases hj : j = i
    · subst hj
      simp [Conf.sessions, hi]
    · have hij : i ≠ j := Ne.symm hj
      simp [Conf.sessions, Function.update_of_ne hj, hij]
  rw [hupdate]
  rfl

theorem book_begin (tradeId : Uuid) {orderId : Uuid} {toMatch : List Uuid}
    (hdue : orderId ∈ toMatch) (hnew : l[i]? = some none) :
    book.step ⟨Conf.sessions s l, toMatch⟩ (.begin i (.tryMatchOrder orderId tradeId))
      ⟨Conf.sessions s (l.set i (some ⟨.tryMatchOrder orderId tradeId,
        (BookCall.tryMatchOrder orderId tradeId).prog, [], []⟩)), toMatch.erase orderId⟩ := by
  obtain ⟨hi, -⟩ := List.getElem?_eq_some_iff.mp hnew
  rw [← Conf.sessions_set hi]
  refine .begin (decide_eq_true hdue) (.begin ?_ trivial)
  show l[i]?.join = none
  rw [hnew]
  rfl

theorem book_statement {toMatch : List Uuid} (hx : l[i]? = some (some x)) (hpending : x.pending = [])
    (hnext : x.Next ((Conf.sessions s l).lockedByOther i) s x') :
    book.step ⟨Conf.sessions s l, toMatch⟩ (.statement i)
      ⟨Conf.sessions s (l.set i (some x')), toMatch⟩ := by
  obtain ⟨hi, -⟩ := List.getElem?_eq_some_iff.mp hx
  rw [← Conf.sessions_set hi]
  refine .statement (.statement (x := x) ?_ ?_ hnext)
  · show l[i]?.join = some x
    rw [hx]
    rfl
  · rw [Session.view, hpending]
    rfl

theorem book_commit {toMatch : List Uuid} (hx : l[i]? = some (some x)) (hpending : x.pending = [])
    (hrest : x.rest = .pure none) :
    book.step ⟨Conf.sessions s l, toMatch⟩ (.commit i) ⟨Conf.sessions s (l.set i none), toMatch⟩ := by
  obtain ⟨hi, -⟩ := List.getElem?_eq_some_iff.mp hx
  have hsession : (Conf.sessions s l).session i = some x := by
    show l[i]?.join = some x
    rw [hx]
    rfl
  have hview : x.view s = .ok s := by
    rw [Session.view, hpending]
    rfl
  have hstep := Book.Step.commit (b := ⟨Conf.sessions s l, toMatch⟩) hsession hrest
    (.commit hsession hrest hview)
  rw [Conf.sessions_set hi, Option.toList_none, List.append_nil] at hstep
  exact hstep

end Sessions

/-- The attempt for an order before its first statement, when it holds its own order, and
when its query has come back empty. -/
def begunFor (order : Order) : BookSession :=
  ⟨.tryMatchOrder order.id Sample.trade, (BookCall.tryMatchOrder order.id Sample.trade).prog, [], []⟩

def lookingFor (order : Order) : BookSession :=
  ⟨.tryMatchOrder order.id Sample.trade, Tx.noMatch (matchOpenOrder order Sample.trade), [],
    [.order order.id]⟩

def emptyHanded (order : Order) : BookSession :=
  ⟨.tryMatchOrder order.id Sample.trade, .pure none, [], [.order order.id]⟩

section Skip

variable {s : Db} {a c : Order} {busy : RowId → Prop}

theorem begunFor_next (ha : s.orders.find? a.id = some a) (hopen : a.status = .OPEN)
    (hfree : ¬ busy (.order a.id)) : (begunFor a).Next busy s (lookingFor a) := by
  have hslice : dbStore.slice (RowId.order a.id) s = some a := ha
  have hthere : dbStore.present (RowId.order a.id) (dbStore.slice (RowId.order a.id) s) = true := by
    rw [hslice]
    rfl
  have hlock := Session.Next.lock (x := begunFor a) tryMatchOrder_eq hfree hthere
  have hrest : Tx.noMatch (afterLock Sample.trade (dbStore.slice (RowId.order a.id) s)) =
      Tx.noMatch (matchOpenOrder a Sample.trade) := by
    rw [hslice, afterLock, if_neg (not_not.mpr hopen)]
  rw [lookingFor, ← hrest]
  exact hlock

theorem lookingFor_next (hbusy : ∀ r ∈ counterparties a s, busy r) :
    (lookingFor a).Next busy s (emptyHanded a) := by
  have hnothing : (counterpartyQuery a).Returns s (.serial busy) none := hbusy
  exact Session.Next.skip (x := lookingFor a) matchOpenOrder_eq hnothing

/-- The attempts for two open orders that match nothing but each other, each holding its
own order when the other one queries. -/
theorem attempts_skip (ha : s.orders.find? a.id = some a) (hc : s.orders.find? c.id = some c)
    (haopen : a.status = .OPEN) (hcopen : c.status = .OPEN) (hne : a.id ≠ c.id)
    (hac : counterparties a s = [.order c.id]) (hca : counterparties c s = [.order a.id]) :
    ∃ ls, book.Run ⟨Conf.sessions s [none, none], [a.id, c.id]⟩ ls
      ⟨Conf.sessions s [none, none], []⟩ := by
  have hbegin : book.step ⟨Conf.sessions s [none, none], [a.id, c.id]⟩
      (.begin 0 (.tryMatchOrder a.id Sample.trade))
      ⟨Conf.sessions s [some (begunFor a), none], [c.id]⟩ := by
    have hstep := book_begin (s := s) (l := [none, none]) (i := 0) Sample.trade
      (List.mem_cons_self (a := a.id) (l := [c.id])) rfl
    rw [List.erase_cons_head] at hstep
    exact hstep
  have hbegin' : book.step ⟨Conf.sessions s [some (begunFor a), none], [c.id]⟩
      (.begin 1 (.tryMatchOrder c.id Sample.trade))
      ⟨Conf.sessions s [some (begunFor a), some (begunFor c)], []⟩ := by
    have hstep := book_begin (s := s) (l := [some (begunFor a), none]) (i := 1) Sample.trade
      (List.mem_cons_self (a := c.id) (l := [])) rfl
    rw [List.erase_cons_head] at hstep
    exact hstep
  -- both lock their own order
  have hlock : book.step ⟨Conf.sessions s [some (begunFor a), some (begunFor c)], []⟩ (.statement 0)
      ⟨Conf.sessions s [some (lookingFor a), some (begunFor c)], []⟩ := by
    refine book_statement (l := [some (begunFor a), some (begunFor c)]) rfl rfl
      (begunFor_next ha haopen ?_)
    rintro ⟨j, y, hj, hy, hheld⟩
    match j with
    | 0 => exact hj rfl
    | 1 =>
        cases hy
        cases hheld
    | j + 2 => cases hy
  have hlock' : book.step ⟨Conf.sessions s [some (lookingFor a), some (begunFor c)], []⟩
      (.statement 1) ⟨Conf.sessions s [some (lookingFor a), some (lookingFor c)], []⟩ := by
    refine book_statement (l := [some (lookingFor a), some (begunFor c)]) rfl rfl
      (begunFor_next hc hcopen ?_)
    rintro ⟨j, y, hj, hy, hheld⟩
    match j with
    | 0 =>
        cases hy
        exact hne (RowId.order.inj (List.mem_singleton.mp hheld)).symm
    | 1 => exact hj rfl
    | j + 2 => cases hy
  -- each finds the other order locked
  have hskip : book.step ⟨Conf.sessions s [some (lookingFor a), some (lookingFor c)], []⟩
      (.statement 0) ⟨Conf.sessions s [some (emptyHanded a), some (lookingFor c)], []⟩ := by
    refine book_statement (l := [some (lookingFor a), some (lookingFor c)]) rfl rfl
      (lookingFor_next fun r hr => ?_)
    rw [hac, List.mem_singleton] at hr
    exact ⟨1, lookingFor c, by omega, rfl, by rw [hr]; exact List.mem_singleton_self _⟩
  have hskip' : book.step ⟨Conf.sessions s [some (emptyHanded a), some (lookingFor c)], []⟩
      (.statement 1) ⟨Conf.sessions s [some (emptyHanded a), some (emptyHanded c)], []⟩ := by
    refine book_statement (l := [some (emptyHanded a), some (lookingFor c)]) rfl rfl
      (lookingFor_next fun r hr => ?_)
    rw [hca, List.mem_singleton] at hr
    exact ⟨0, emptyHanded a, by omega, rfl, by rw [hr]; exact List.mem_singleton_self _⟩
  have hcommit : book.step ⟨Conf.sessions s [some (emptyHanded a), some (emptyHanded c)], []⟩
      (.commit 0) ⟨Conf.sessions s [none, some (emptyHanded c)], []⟩ :=
    book_commit (l := [some (emptyHanded a), some (emptyHanded c)]) (x := emptyHanded a) rfl rfl rfl
  have hcommit' : book.step ⟨Conf.sessions s [none, some (emptyHanded c)], []⟩ (.commit 1)
      ⟨Conf.sessions s [none, none], []⟩ :=
    book_commit (l := [none, some (emptyHanded c)]) (x := emptyHanded c) rfl rfl rfl
  exact ⟨_, ((((((System.Run.single hbegin).snoc hbegin').snoc hlock).snoc hlock').snoc hskip).snoc
    hskip').snoc hcommit |>.snoc hcommit'⟩

end Skip

/-- The two orders of the sample are placed, and only then the two attempts run. -/
theorem crossed_at_rest :
    ¬ ∀ b, book.Reachable b → b.AtRest → ¬ b.conf.committed.Crossed := by
  intro hall
  obtain ⟨s, -, hp⟩ := exists_of_leads
    (show leads (fun _ _ => true) Sample.opening (fun s => s.orders.rows = [] &&
      (serve [ .placeOrder Sample.alice Sample.yesDto Sample.yesOrder 2 2
             , .placeOrder Sample.bob Sample.noDto Sample.noOrder 3 3 ] s []).any fun b =>
        b.2 = [Sample.yesOrder, Sample.noOrder] &&
          b.1.orders.rows = [ Sample.yesDto.order Sample.alice Sample.yesOrder 2
                            , Sample.noDto.order Sample.bob Sample.noOrder 3 ]) = true
      by decide +kernel)
  simp only [Bool.and_eq_true, decide_eq_true_eq, Option.any_eq_true] at hp
  obtain ⟨hempty, ⟨t, toMatch⟩, hserve, hdue, horders⟩ := hp
  dsimp only at hdue horders
  subst hdue
  set yes := Sample.yesDto.order Sample.alice Sample.yesOrder 2
  set no := Sample.noDto.order Sample.bob Sample.noOrder 3
  have hyes : yes ∈ t.orders.rows := by simp [horders]
  have hno : no ∈ t.orders.rows := by simp [horders]
  have hyesAsks : counterparties yes t = [.order no.id] := by
    rw [counterparties, horders]
    decide
  have hnoAsks : counterparties no t = [.order yes.id] := by
    rw [counterparties, horders]
    decide
  obtain ⟨ls, hrun⟩ := attempts_skip (Table.find?_key hyes) (Table.find?_key hno) rfl rfl
    (by decide) hyesAsks hnoAsks
  have hidle : Conf.sessions t [none, none] = Conf.idle t := by
    rw [Conf.sessions, Conf.idle]
    congr 1
    funext j
    rcases j with _ | _ | j
    · rfl
    · rfl
    · rfl
  rw [hidle] at hrun
  have hreach := hrun.reachable (reachable_of_serve hserve hempty).of_restrict
  exact hall _ hreach ⟨rfl, fun _ => rfl⟩ ⟨yes, hyes, no, hno, by decide⟩

end OutcomeExchange
