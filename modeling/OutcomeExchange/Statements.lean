import OutcomeExchange.Database

set_option autoImplicit false

/-! # The statements of the repositories

Each `findOne` with `pessimistic_write`, each `save` and each `INSERT` of the services is
a statement of `Txn.Prog` over `dbStore`, named after the repository it goes to. Next to
each stands what executing it means (`exec_…`): later modules reason with these lemmas
and never unfold a statement.

A `save` of an entity that was read under its lock is an `UPDATE` of that row. An `INSERT` locks
its own row only: it does not wait, as PostgreSQL has it, for the rows that its foreign keys
refer to (`FOR KEY SHARE`) or for another `INSERT` of the same unique key. -/

namespace OutcomeExchange

open Txn

/-! ## Writes of one row of a table -/

/-- A write of the row with key `k` and of no other row. -/
structure TouchesOnly {α : Type} [Row α Uuid] (k : Uuid)
    (op : Table α → Except Err (Table α)) : Prop where
  frame : ∀ {t t' : Table α}, op t = .ok t' → ∀ k', k' ≠ k → t'.find? k' = t.find? k'
  determined : ∀ {t t' u u' : Table α}, op t = .ok t' → op u = .ok u' →
    t.find? k = u.find? k → t'.find? k = u'.find? k

/-- `UPDATE … SET … WHERE id = key a`. -/
def updateRow {α : Type} [Row α Uuid] (a : α) (t : Table α) : Except Err (Table α) :=
  match t.update? a with
  | none => .error (.query "unique constraint")
  | some t' => .ok t'

/-- `INSERT`, if the columns of the new row satisfy the column types and `CHECK`s. -/
def insertRow {α : Type} [Row α Uuid] (columns : Bool) (a : α) (t : Table α) :
    Except Err (Table α) :=
  if columns then
    match t.insert? a with
    | none => .error (.query "unique constraint")
    | some t' => .ok t'
  else .error (.query "column constraint")

section Rows

variable {α : Type} [Row α Uuid]

theorem updateRow_eq_ok {a : α} {t t' : Table α} :
    updateRow a t = .ok t' ↔ t.update? a = some t' := by
  unfold updateRow
  cases t.update? a with
  | none => simp
  | some u => simp

theorem insertRow_eq_ok {columns : Bool} {a : α} {t t' : Table α} :
    insertRow columns a t = .ok t' ↔ columns = true ∧ t.insert? a = some t' := by
  unfold insertRow
  cases columns with
  | false => simp
  | true =>
      cases t.insert? a with
      | none => simp
      | some u => simp

theorem touchesOnly_updateRow (a : α) : TouchesOnly (Row.key a) (updateRow a) where
  frame h _ hk := Table.find?_update_of_ne (updateRow_eq_ok.mp h) hk
  determined h h' heq := by
    rw [Table.find?_update_eq (updateRow_eq_ok.mp h), Table.find?_update_eq (updateRow_eq_ok.mp h'),
      heq]

theorem touchesOnly_insertRow (columns : Bool) (a : α) :
    TouchesOnly (Row.key a) (insertRow columns a) where
  frame h k' hk := by
    rw [Table.find?_insert (insertRow_eq_ok.mp h).2, if_neg hk.symm]
  determined h h' _ := by
    rw [Table.find?_insert (insertRow_eq_ok.mp h).2, Table.find?_insert (insertRow_eq_ok.mp h').2,
      if_pos rfl, if_pos rfl]

end Rows

theorem map_eq_ok {α β : Type} {x : Except Err α} {f : α → β} {b : β} :
    x.map f = .ok b ↔ ∃ a, x = .ok a ∧ f a = b := by
  cases x with
  | error e => simp [Except.map]
  | ok a => simp [Except.map]

/-- A table of the database: how it is read and written, and the locks on its rows. -/
structure TableOf (α : Type) [Row α Uuid] where
  get : Db → Table α
  set : Table α → Db → Db
  row : Uuid → RowId
  get_set : ∀ t db, get (set t db) = t
  own : ∀ k db db', (row k).slice db = (row k).slice db' ↔ (get db).find? k = (get db').find? k
  other : ∀ t db r, (∀ k, r ≠ row k) → r.slice (set t db) = r.slice db

def marketsTable : TableOf Market where
  get := Db.markets
  set t db := { db with markets := t }
  row := .market
  get_set _ _ := rfl
  own _ _ _ := Iff.rfl
  other t db r hr := by
    cases r with
    | market id => exact absurd rfl (hr id)
    | order id => rfl
    | trade id => rfl
    | wallet id => rfl

def ordersTable : TableOf Order where
  get := Db.orders
  set t db := { db with orders := t }
  row := .order
  get_set _ _ := rfl
  own _ _ _ := Iff.rfl
  other t db r hr := by
    cases r with
    | market id => rfl
    | order id => exact absurd rfl (hr id)
    | trade id => rfl
    | wallet id => rfl

def tradesTable : TableOf Trade where
  get := Db.trades
  set t db := { db with trades := t }
  row := .trade
  get_set _ _ := rfl
  own _ _ _ := Iff.rfl
  other t db r hr := by
    cases r with
    | market id => rfl
    | order id => rfl
    | trade id => exact absurd rfl (hr id)
    | wallet id => rfl

/-- The statement that writes the row with key `k` of a table. -/
def TableOf.write {α : Type} [Row α Uuid] (T : TableOf α) (k : Uuid)
    (op : Table α → Except Err (Table α)) (h : TouchesOnly k op) : Update dbStore Err where
  rows := [T.row k]
  apply db := (op (T.get db)).map fun t => T.set t db
  frame {s t} hs r hr := by
    obtain ⟨u, hop, rfl⟩ := map_eq_ok.mp hs
    by_cases hrow : ∃ k', r = T.row k'
    · obtain ⟨k', rfl⟩ := hrow
      have hk : k' ≠ k := fun he => hr (by rw [he]; exact List.mem_singleton_self _)
      refine (T.own k' _ _).mpr ?_
      rw [T.get_set]
      exact h.frame hop k' hk
    · exact T.other u s r fun k' he => hrow ⟨k', he⟩
  determined {s s' t t'} hs hs' r hr heq := by
    obtain ⟨u, hop, rfl⟩ := map_eq_ok.mp hs
    obtain ⟨u', hop', rfl⟩ := map_eq_ok.mp hs'
    rw [List.mem_singleton.mp hr] at heq ⊢
    refine (T.own k _ _).mpr ?_
    rw [T.get_set, T.get_set]
    exact h.determined hop hop' ((T.own k _ _).mp heq)

theorem TableOf.write_apply {α : Type} [Row α Uuid] {T : TableOf α} {k : Uuid}
    {op : Table α → Except Err (Table α)} {h : TouchesOnly k op} {s t : Db} :
    (T.write k op h).apply s = .ok t ↔ ∃ u, op (T.get s) = .ok u ∧ t = T.set u s := by
  show (op (T.get s)).map (fun u => T.set u s) = .ok t ↔ _
  rw [map_eq_ok]
  simp only [eq_comm]

/-! ## Writes of the wallet tables -/

/-- A write of the wallet tables that touches the wallet of `userId` and its entries
only. -/
structure TouchesWallet (userId : Uuid) (op : Ledger → Except Err Ledger) : Prop where
  frame : ∀ {L L' : Ledger}, op L = .ok L' → ∀ u, u ≠ userId →
    L'.wallets.find? u = L.wallets.find? u ∧
      ∀ w, L.wallets.find? u = some w → L'.entriesOf w = L.entriesOf w
  determined : ∀ {L L' M M' : Ledger}, op L = .ok L' → op M = .ok M' →
    L.slice userId = M.slice userId → L'.slice userId = M'.slice userId

/-- The statement that writes the wallet of `userId` or its entries. -/
def writeLedger (userId : Uuid) (op : Ledger → Except Err Ledger)
    (h : TouchesWallet userId op) : Update dbStore Err where
  rows := [.wallet userId]
  apply db := (op db.ledger).map fun L => { db with ledger := L }
  frame {s t} hs r hr := by
    obtain ⟨L, hop, rfl⟩ := map_eq_ok.mp hs
    cases r with
    | market id => rfl
    | order id => rfl
    | trade id => rfl
    | wallet u =>
        have hu : u ≠ userId := fun he => hr (by rw [he]; exact List.mem_singleton_self _)
        obtain ⟨hw, he⟩ := h.frame hop u hu
        show (L.wallets.find? u).map (fun w => (w, L.entriesOf w))
          = (s.ledger.wallets.find? u).map (fun w => (w, s.ledger.entriesOf w))
        rw [hw]
        cases hf : s.ledger.wallets.find? u with
        | none => rfl
        | some w => simp only [Option.map_some, he w hf]
  determined {s s' t t'} hs hs' r hr heq := by
    rw [List.mem_singleton.mp hr] at heq ⊢
    obtain ⟨L, hop, rfl⟩ := map_eq_ok.mp hs
    obtain ⟨L', hop', rfl⟩ := map_eq_ok.mp hs'
    exact h.determined hop hop' heq

theorem writeLedger_apply {userId : Uuid} {op : Ledger → Except Err Ledger}
    {h : TouchesWallet userId op} {s t : Db} :
    (writeLedger userId op h).apply s = .ok t ↔
      ∃ L, op s.ledger = .ok L ∧ t = { s with ledger := L } := by
  show (op s.ledger).map (fun L => { s with ledger := L }) = .ok t ↔ _
  rw [map_eq_ok]
  simp only [eq_comm]

/-- Different users have different wallets, so they share no entry. -/
theorem Ledger.id_ne {L : Ledger} {u v : Uuid} {a b : Wallet} (huv : u ≠ v)
    (ha : L.wallets.find? u = some a) (hb : L.wallets.find? v = some b) : a.id ≠ b.id := by
  intro hid
  have hab : a = b := L.wallets.eq_of_clash (Table.mem_of_find? ha) (Table.mem_of_find? hb)
    (Or.inr hid)
  apply huv
  rw [← Table.key_of_find? ha, ← Table.key_of_find? hb, hab]

theorem touchesWallet_saveWallet (w : Wallet) :
    TouchesWallet w.userId (fun L => L.saveWallet w) where
  frame {L L'} h u hu := by
    obtain ⟨-, -, -, hup, hent⟩ := Ledger.saveWallet_eq_ok h
    exact ⟨Table.find?_update_of_ne hup hu, fun v _ => by rw [Ledger.entriesOf, hent]; rfl⟩
  determined {L L' M M'} h h' heq := by
    obtain ⟨-, -, hid, hup, hent⟩ := Ledger.saveWallet_eq_ok h
    obtain ⟨-, -, hid', hup', hent'⟩ := Ledger.saveWallet_eq_ok h'
    obtain ⟨v, hv, hvid⟩ := Option.map_eq_some_iff.mp hid
    obtain ⟨v', hv', hvid'⟩ := Option.map_eq_some_iff.mp hid'
    rw [Ledger.slice, Ledger.slice, hv, hv', Option.map_some, Option.map_some, Option.some.injEq,
      Prod.mk.injEq] at heq
    have hf : L'.wallets.find? w.userId = some w := Table.find?_update_self hup hv
    have hf' : M'.wallets.find? w.userId = some w := Table.find?_update_self hup' hv'
    have hE : L'.entriesOf w = L.entriesOf v := by
      rw [Ledger.entriesOf, Ledger.entriesOf, hent, hvid]
    have hE' : M'.entriesOf w = M.entriesOf v' := by
      rw [Ledger.entriesOf, Ledger.entriesOf, hent', hvid']
    rw [Ledger.slice, Ledger.slice, hf, hf', Option.map_some, Option.map_some, hE, hE', heq.2]

theorem touchesWallet_insertEntry (userId : Uuid) (e : WalletEntry) :
    TouchesWallet userId (fun L => L.insertEntry userId e) where
  frame {L L'} h u hu := by
    obtain ⟨hid, hin, hwal⟩ := Ledger.insertEntry_eq_ok h
    obtain ⟨v, hv, hvid⟩ := Option.map_eq_some_iff.mp hid
    refine ⟨by rw [hwal], fun w hw => ?_⟩
    have hne : ¬ e.walletId = w.id := by
      rw [← hvid]
      exact Ledger.id_ne (Ne.symm hu) hv hw
    rw [Ledger.entriesOf, Ledger.entriesOf, (Table.insert?_eq_some hin).2, List.filter_append]
    simp [WalletEntry.stored, hne]
  determined {L L' M M'} h h' heq := by
    obtain ⟨hid, hin, hwal⟩ := Ledger.insertEntry_eq_ok h
    obtain ⟨hid', hin', hwal'⟩ := Ledger.insertEntry_eq_ok h'
    obtain ⟨v, hv, -⟩ := Option.map_eq_some_iff.mp hid
    obtain ⟨v', hv', -⟩ := Option.map_eq_some_iff.mp hid'
    rw [Ledger.slice, Ledger.slice, hv, hv', Option.map_some, Option.map_some, Option.some.injEq,
      Prod.mk.injEq] at heq
    have hE : L'.entriesOf v = L.entriesOf v ++ [e.stored].filter (fun e => e.walletId = v.id) := by
      rw [Ledger.entriesOf, Ledger.entriesOf, (Table.insert?_eq_some hin).2, List.filter_append]
    have hE' : M'.entriesOf v' = M.entriesOf v' ++ [e.stored].filter (fun e => e.walletId = v'.id) := by
      rw [Ledger.entriesOf, Ledger.entriesOf, (Table.insert?_eq_some hin').2, List.filter_append]
    rw [Ledger.slice, Ledger.slice, hwal, hwal', hv, hv', Option.map_some, Option.map_some, hE, hE',
      heq.2, heq.1]

theorem touchesWallet_insertWallet (w : Wallet) :
    TouchesWallet w.userId (fun L => L.insertWallet w) where
  frame {L L'} h u hu := by
    obtain ⟨hin, hent⟩ := Ledger.insertWallet_eq_ok h
    have hk : Row.key w ≠ u := Ne.symm hu
    refine ⟨by rw [Table.find?_insert hin, if_neg hk], fun v _ => ?_⟩
    rw [Ledger.entriesOf, Ledger.entriesOf, hent]
  determined {L L' M M'} h h' _ := by
    have key : ∀ {K K' : Ledger}, K.insertWallet w = .ok K' →
        K'.slice w.userId = some (w, []) := by
      intro K K' hK
      have hf : K'.wallets.find? w.userId = some w := by
        rw [Ledger.find?_insertWallet hK, if_pos rfl]
      rw [Ledger.slice, hf, Option.map_some, Ledger.entriesOf_insertWallet hK]
    rw [key h, key h']

/-! ## Locking reads -/

/-- `marketRepo.findOne({ where: { id }, lock: pessimistic_write })` -/
def findMarketForUpdate (id : Uuid) : Tx (Option Market) :=
  (Prog.forUpdate (RowId.market id) : Prog dbStore Err _)

/-- `orderRepo.findOne({ where: { id }, lock: pessimistic_write })` -/
def findOrderForUpdate (id : Uuid) : Tx (Option Order) :=
  (Prog.forUpdate (RowId.order id) : Prog dbStore Err _)

/-- `tradeRepo.findOne({ where: { id }, lock: pessimistic_write })` -/
def findTradeForUpdate (id : Uuid) : Tx (Option Trade) :=
  (Prog.forUpdate (RowId.trade id) : Prog dbStore Err _)

/-- `walletRepo.findOne({ where: { userId }, lock: pessimistic_write })` -/
def findWalletForUpdate (userId : Uuid) : Tx (Option Wallet) := do
  let v ← (Prog.forUpdate (RowId.wallet userId) : Prog dbStore Err (RowId.wallet userId).Slice)
  let v : Option (Wallet × List WalletEntry) := v
  return v.map Prod.fst

/-- `entryRepo.findOne({ where: { walletId, idempotencyKey } })`, issued under the lock of
the wallet of `userId`. -/
def findEntry (userId : Uuid) (idempotencyKey : String) : Tx (Option WalletEntry) :=
  if isPgText idempotencyKey = false then Prog.throw (.query "invalid byte sequence")
  else do
    let v ← (Prog.forUpdate (RowId.wallet userId) : Prog dbStore Err (RowId.wallet userId).Slice)
    let v : Option (Wallet × List WalletEntry) := v
    return v.bind fun v => v.2.find? (fun e => e.idempotencyKey = idempotencyKey)

/-! ## Writes -/

def saveMarket (m : Market) : Tx Unit :=
  Prog.save (marketsTable.write m.id (updateRow m) (touchesOnly_updateRow m))

def insertMarket (m : Market) : Tx Unit :=
  Prog.save (marketsTable.write m.id (insertRow true m) (touchesOnly_insertRow true m))

def saveOrder (o : Order) : Tx Unit :=
  Prog.save (ordersTable.write o.id (updateRow o) (touchesOnly_updateRow o))

/-- The column types and `CHECK` constraints of `orders`. -/
def orderColumns (o : Order) : Bool :=
  fitsInt4 o.priceCents && fitsInt4 o.quantity && fitsInt4 o.reservedCents &&
    1 ≤ o.priceCents && o.priceCents ≤ 99 && 0 < o.quantity && 0 ≤ o.reservedCents &&
    fitsVarchar 100 o.idempotencyKey

def insertOrder (o : Order) : Tx Unit :=
  Prog.save (ordersTable.write o.stored.id (insertRow (orderColumns o) o.stored)
    (touchesOnly_insertRow _ o.stored))

def saveTrade (t : Trade) : Tx Unit :=
  Prog.save (tradesTable.write t.id (updateRow t) (touchesOnly_updateRow t))

/-- The `CHECK` constraints of `trades`. -/
def tradeColumns (t : Trade) : Bool := t.yesPriceCents + t.noPriceCents = 100 && 0 < t.quantity

def insertTrade (t : Trade) : Tx Unit :=
  Prog.save (tradesTable.write t.id (insertRow (tradeColumns t) t) (touchesOnly_insertRow _ t))

def saveWallet (w : Wallet) : Tx Unit :=
  Prog.save (writeLedger w.userId (fun L => L.saveWallet w) (touchesWallet_saveWallet w))

def insertWallet (w : Wallet) : Tx Unit :=
  Prog.save (writeLedger w.userId (fun L => L.insertWallet w) (touchesWallet_insertWallet w))

def insertEntry (userId : Uuid) (e : WalletEntry) : Tx Unit :=
  Prog.save (writeLedger userId (fun L => L.insertEntry userId e)
    (touchesWallet_insertEntry userId e))

/-- `outcomeRepo.save`; nothing locks an outcome. -/
def insertOutcomes (os : List Outcome) : Tx Unit :=
  Prog.save
    { rows := []
      apply := fun db => .ok { db with outcomes := db.outcomes ++ os }
      frame := fun h r _ => by cases h; cases r <;> rfl
      determined := fun _ _ r hr => by cases hr }

/-! ## What the statements do -/

section Exec

variable {m : Mode RowId} {s t : Db}

theorem isSome_false {α : Type} {o : Option α} : o.isSome = false ↔ o = none := by
  cases o <;> simp

theorem exec_findMarketForUpdate {id : Uuid} {o : Option Market} :
    Exec m (findMarketForUpdate id) s o t ↔
      s = t ∧ (o = s.markets.find? id ∨ (m.stale ∧ o = none)) :=
  (exec_forUpdate (S := dbStore) (r := RowId.market id)).trans
    (and_congr_right' (or_congr Iff.rfl (and_congr_right' isSome_false)))

theorem exec_findOrderForUpdate {id : Uuid} {o : Option Order} :
    Exec m (findOrderForUpdate id) s o t ↔
      s = t ∧ (o = s.orders.find? id ∨ (m.stale ∧ o = none)) :=
  (exec_forUpdate (S := dbStore) (r := RowId.order id)).trans
    (and_congr_right' (or_congr Iff.rfl (and_congr_right' isSome_false)))

theorem exec_findTradeForUpdate {id : Uuid} {o : Option Trade} :
    Exec m (findTradeForUpdate id) s o t ↔
      s = t ∧ (o = s.trades.find? id ∨ (m.stale ∧ o = none)) :=
  (exec_forUpdate (S := dbStore) (r := RowId.trade id)).trans
    (and_congr_right' (or_congr Iff.rfl (and_congr_right' isSome_false)))

/-- Reading through the lock of a wallet: `f` of what the lock protects, or of nothing. -/
theorem exec_ofWallet {α : Type} {userId : Uuid} {f : Option (Wallet × List WalletEntry) → α}
    {a : α} :
    Exec m (Prog.forUpdate (RowId.wallet userId) >>= fun v => pure (f v) : Tx α) s a t ↔
      s = t ∧ (a = f (s.ledger.slice userId) ∨ (m.stale ∧ a = f none)) := by
  rw [exec_bind]
  constructor
  · rintro ⟨v, s₁, hread, ha⟩
    obtain ⟨rfl, hv⟩ := exec_forUpdate.mp hread
    obtain ⟨rfl, rfl⟩ := exec_pure.mp ha
    refine ⟨rfl, ?_⟩
    rcases hv with hv | ⟨hm, hv⟩
    · exact Or.inl (congrArg f hv)
    · exact Or.inr ⟨hm, congrArg f (isSome_false.mp hv)⟩
  · rintro ⟨rfl, ha⟩
    rcases ha with rfl | ⟨hm, rfl⟩
    · exact ⟨_, s, exec_forUpdate.mpr ⟨rfl, Or.inl rfl⟩, exec_pure.mpr ⟨rfl, rfl⟩⟩
    · exact ⟨_, s, exec_forUpdate.mpr ⟨rfl, Or.inr ⟨hm, rfl⟩⟩, exec_pure.mpr ⟨rfl, rfl⟩⟩

theorem exec_findWalletForUpdate {userId : Uuid} {o : Option Wallet} :
    Exec m (findWalletForUpdate userId) s o t ↔
      s = t ∧ (o = s.ledger.wallets.find? userId ∨ (m.stale ∧ o = none)) := by
  have h : (s.ledger.slice userId).map Prod.fst = s.ledger.wallets.find? userId := by
    rw [Ledger.slice, Option.map_map]
    exact Option.map_id'
  rw [← h]
  exact exec_ofWallet

theorem exec_findEntry {userId : Uuid} {key : String} {o : Option WalletEntry} :
    Exec m (findEntry userId key) s o t ↔ isPgText key = true ∧
      s = t ∧ (o = (s.ledger.slice userId).bind
          (fun v => v.2.find? (fun e => e.idempotencyKey = key)) ∨ (m.stale ∧ o = none)) := by
  unfold findEntry
  by_cases htext : isPgText key = false
  · rw [if_pos htext, exec_throw, htext]
    simp
  · rw [if_neg htext, and_iff_right (by simpa using htext)]
    exact exec_ofWallet

theorem exec_write {α : Type} [Row α Uuid] {T : TableOf α} {k : Uuid}
    {op : Table α → Except Err (Table α)} {h : TouchesOnly k op} {a : Unit} :
    Exec m (Prog.save (T.write k op h)) s a t ↔ ∃ u, op (T.get s) = .ok u ∧ t = T.set u s :=
  exec_save.trans TableOf.write_apply

theorem exec_writeLedger {userId : Uuid} {op : Ledger → Except Err Ledger}
    {h : TouchesWallet userId op} {a : Unit} :
    Exec m (Prog.save (writeLedger userId op h)) s a t ↔
      ∃ L, op s.ledger = .ok L ∧ t = { s with ledger := L } :=
  exec_save.trans writeLedger_apply

theorem exec_saveMarket {x : Market} {a : Unit} :
    Exec m (saveMarket x) s a t ↔
      ∃ u, s.markets.update? x = some u ∧ t = { s with markets := u } := by
  rw [saveMarket, exec_write]
  simp only [updateRow_eq_ok]
  rfl

theorem exec_insertMarket {x : Market} {a : Unit} :
    Exec m (insertMarket x) s a t ↔
      ∃ u, s.markets.insert? x = some u ∧ t = { s with markets := u } := by
  rw [insertMarket, exec_write]
  simp only [insertRow_eq_ok, true_and]
  rfl

theorem exec_saveOrder {x : Order} {a : Unit} :
    Exec m (saveOrder x) s a t ↔
      ∃ u, s.orders.update? x = some u ∧ t = { s with orders := u } := by
  rw [saveOrder, exec_write]
  simp only [updateRow_eq_ok]
  rfl

theorem exec_insertOrder {x : Order} {a : Unit} :
    Exec m (insertOrder x) s a t ↔
      orderColumns x = true ∧
        ∃ u, s.orders.insert? x.stored = some u ∧ t = { s with orders := u } := by
  rw [insertOrder, exec_write]
  simp only [insertRow_eq_ok, and_assoc, exists_and_left]
  rfl

theorem exec_saveTrade {x : Trade} {a : Unit} :
    Exec m (saveTrade x) s a t ↔
      ∃ u, s.trades.update? x = some u ∧ t = { s with trades := u } := by
  rw [saveTrade, exec_write]
  simp only [updateRow_eq_ok]
  rfl

theorem exec_insertTrade {x : Trade} {a : Unit} :
    Exec m (insertTrade x) s a t ↔
      tradeColumns x = true ∧ ∃ u, s.trades.insert? x = some u ∧ t = { s with trades := u } := by
  rw [insertTrade, exec_write]
  simp only [insertRow_eq_ok, and_assoc, exists_and_left]
  rfl

theorem exec_saveWallet {x : Wallet} {a : Unit} :
    Exec m (saveWallet x) s a t ↔
      ∃ L, s.ledger.saveWallet x = .ok L ∧ t = { s with ledger := L } :=
  exec_writeLedger

theorem exec_insertWallet {x : Wallet} {a : Unit} :
    Exec m (insertWallet x) s a t ↔
      ∃ L, s.ledger.insertWallet x = .ok L ∧ t = { s with ledger := L } :=
  exec_writeLedger

theorem exec_insertEntry {userId : Uuid} {x : WalletEntry} {a : Unit} :
    Exec m (insertEntry userId x) s a t ↔
      ∃ L, s.ledger.insertEntry userId x = .ok L ∧ t = { s with ledger := L } :=
  exec_writeLedger

theorem exec_insertOutcomes {os : List Outcome} {a : Unit} :
    Exec m (insertOutcomes os) s a t ↔ t = { s with outcomes := s.outcomes ++ os } := by
  rw [insertOutcomes, exec_save]
  show (Except.ok { s with outcomes := s.outcomes ++ os } : Except Err Db) = .ok t ↔ _
  rw [Except.ok.injEq, eq_comm]

end Exec

/-! ## Running the statements -/

section Run

variable {busy : RowId → Bool} {s : Db}

theorem run_query {α : Type} (f : Db → α) :
    (Prog.query f : Tx α).run busy s = .ok (f s, s) := rfl

theorem run_findMarketForUpdate (id : Uuid) :
    (findMarketForUpdate id).run busy s = .ok (s.markets.find? id, s) := rfl

theorem run_findOrderForUpdate (id : Uuid) :
    (findOrderForUpdate id).run busy s = .ok (s.orders.find? id, s) := rfl

theorem run_findTradeForUpdate (id : Uuid) :
    (findTradeForUpdate id).run busy s = .ok (s.trades.find? id, s) := rfl

theorem run_findWalletForUpdate (userId : Uuid) :
    (findWalletForUpdate userId).run busy s = .ok (s.ledger.wallets.find? userId, s) := by
  show Except.ok ((s.ledger.slice userId).map Prod.fst, s) = _
  rw [Ledger.slice, Option.map_map]
  exact congrArg (fun o => Except.ok (o, s)) Option.map_id'

theorem run_findEntry (userId : Uuid) {key : String} (h : isPgText key = true) :
    (findEntry userId key).run busy s = .ok ((s.ledger.slice userId).bind
      (fun v => v.2.find? (fun e => e.idempotencyKey = key)), s) := by
  unfold findEntry
  rw [if_neg (by rw [h]; decide)]
  rfl

theorem run_save {u : Update dbStore Err} {t : Db} (h : u.apply s = .ok t) :
    (Prog.save u : Tx Unit).run busy s = .ok ((), t) := by
  show (do let t ← u.apply s; (pure () : Tx Unit).run busy t) = _
  rw [h]
  rfl

theorem run_saveMarket {x : Market} {u : Table Market} (h : s.markets.update? x = some u) :
    (saveMarket x).run busy s = .ok ((), { s with markets := u }) :=
  run_save (TableOf.write_apply.mpr ⟨u, updateRow_eq_ok.mpr h, rfl⟩)

theorem run_saveOrder {x : Order} {u : Table Order} (h : s.orders.update? x = some u) :
    (saveOrder x).run busy s = .ok ((), { s with orders := u }) :=
  run_save (TableOf.write_apply.mpr ⟨u, updateRow_eq_ok.mpr h, rfl⟩)

theorem run_saveTrade {x : Trade} {u : Table Trade} (h : s.trades.update? x = some u) :
    (saveTrade x).run busy s = .ok ((), { s with trades := u }) :=
  run_save (TableOf.write_apply.mpr ⟨u, updateRow_eq_ok.mpr h, rfl⟩)

theorem run_insertTrade {x : Trade} {u : Table Trade} (hcol : tradeColumns x = true)
    (h : s.trades.insert? x = some u) :
    (insertTrade x).run busy s = .ok ((), { s with trades := u }) :=
  run_save (TableOf.write_apply.mpr ⟨u, insertRow_eq_ok.mpr ⟨hcol, h⟩, rfl⟩)

theorem run_saveWallet {x : Wallet} {L : Ledger} (h : s.ledger.saveWallet x = .ok L) :
    (saveWallet x).run busy s = .ok ((), { s with ledger := L }) :=
  run_save (writeLedger_apply.mpr ⟨L, h, rfl⟩)

theorem run_insertEntry {userId : Uuid} {x : WalletEntry} {L : Ledger}
    (h : s.ledger.insertEntry userId x = .ok L) :
    (insertEntry userId x).run busy s = .ok ((), { s with ledger := L }) :=
  run_save (writeLedger_apply.mpr ⟨L, h, rfl⟩)

end Run

end OutcomeExchange
