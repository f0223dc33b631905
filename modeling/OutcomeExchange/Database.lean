import OutcomeExchange.Entities
import OutcomeExchange.Txn.Program

set_option autoImplicit false

/-! # The database

The tables, the rows that `SELECT … FOR UPDATE` locks, and the statements that the
repositories issue. The wallet tables form a sub-state of their own, `Ledger`, whose
foreign key is a field; a lock on a wallet row also protects the entries of that
wallet, because every insert of an entry happens under it. -/

namespace OutcomeExchange

open Txn

/-! ## The tables -/

/-- The tables `wallets` and `wallet_entries`; the entries are in commit order. -/
structure Ledger where
  wallets : Table Wallet
  entries : Table WalletEntry
  /-- `FK_wallet_entries_wallet_id` -/
  walletOf : ∀ e ∈ entries.rows, ∃ w ∈ wallets.rows, w.id = e.walletId
  /-- `idempotency_key character varying(100)` -/
  keyLength : ∀ e ∈ entries.rows, e.idempotencyKey.length ≤ 100

/-- The state of PostgreSQL. -/
structure Db where
  ledger : Ledger
  markets : Table Market
  outcomes : List Outcome
  orders : Table Order
  trades : Table Trade

def Ledger.empty : Ledger :=
  ⟨Table.empty, Table.empty, fun _ h => (nomatch h), fun _ h => (nomatch h)⟩

def Db.empty : Db := ⟨Ledger.empty, Table.empty, [], Table.empty, Table.empty⟩

namespace Ledger

/-- The ledger of a wallet: its entries in commit order. -/
def entriesOf (L : Ledger) (w : Wallet) : List WalletEntry :=
  L.entries.rows.filter (fun e => e.walletId = w.id)

/-- What the lock on the wallet of `userId` protects: the wallet and its entries. -/
def slice (L : Ledger) (userId : Uuid) : Option (Wallet × List WalletEntry) :=
  (L.wallets.find? userId).map fun w => (w, L.entriesOf w)

/-- The two tables after a write, if the foreign key and the column type still hold. -/
def check (ws : Table Wallet) (es : Table WalletEntry) : Except Err Ledger :=
  if hkey : ∀ e ∈ es.rows, e.idempotencyKey.length ≤ 100 then
    if h : ∀ e ∈ es.rows, ∃ w ∈ ws.rows, w.id = e.walletId then .ok ⟨ws, es, h, hkey⟩
    else .error (.query "FK_wallet_entries_wallet_id")
  else .error (.query "character varying")

/-- `INSERT INTO wallets`. -/
def insertWallet (L : Ledger) (w : Wallet) : Except Err Ledger :=
  match L.wallets.insert? w with
  | none => .error (.query "UQ_wallets_user_id")
  | some ws => check ws L.entries

/-- `UPDATE wallets … WHERE id`: the column types and the two `CHECK` constraints are
enforced. -/
def saveWallet (L : Ledger) (w : Wallet) : Except Err Ledger :=
  if fitsInt4 w.availableBalanceCents && fitsInt4 w.reservedBalanceCents then
    if 0 ≤ w.availableBalanceCents then
      if 0 ≤ w.reservedBalanceCents then
        if (L.wallets.find? w.userId).map Wallet.id = some w.id then
          match L.wallets.update? w with
          | none => .error (.query "UQ_wallets_user_id")
          | some ws => check ws L.entries
        else .error (.query "PK_wallets_id")
      else .error (.query "CHK_wallets_reserved_non_negative")
    else .error (.query "CHK_wallets_available_non_negative")
  else .error (.query "integer out of range")

/-- `INSERT INTO wallet_entries`, for the wallet of `userId`. -/
def insertEntry (L : Ledger) (userId : Uuid) (e : WalletEntry) : Except Err Ledger :=
  if fitsInt4 e.amountCents then
    if fitsVarchar 255 e.referenceId = true ∧ fitsVarchar 100 e.idempotencyKey = true then
      if (L.wallets.find? userId).map Wallet.id = some e.walletId then
        match L.entries.insert? e.stored with
        | none => .error (.query "UQ_wallet_entries_wallet_idempotency")
        | some es => check L.wallets es
      else .error (.query "FK_wallet_entries_wallet_id")
    else .error (.query "character varying")
  else .error (.query "integer out of range")

theorem check_eq_ok {ws : Table Wallet} {es : Table WalletEntry} {L : Ledger}
    (h : check ws es = .ok L) : L.wallets = ws ∧ L.entries = es := by
  unfold check at h
  split at h
  · split at h
    · cases h; exact ⟨rfl, rfl⟩
    · cases h
  · cases h

theorem insertWallet_eq_ok {L L' : Ledger} {w : Wallet} (h : L.insertWallet w = .ok L') :
    L.wallets.insert? w = some L'.wallets ∧ L'.entries = L.entries := by
  unfold insertWallet at h
  split at h
  · cases h
  · rename_i ws hws
    obtain ⟨hw, he⟩ := check_eq_ok h
    exact ⟨by rw [hw]; exact hws, he⟩

theorem find?_insertWallet {L L' : Ledger} {w : Wallet} (h : L.insertWallet w = .ok L')
    (u : Uuid) : L'.wallets.find? u = if w.userId = u then some w else L.wallets.find? u :=
  Table.find?_insert (insertWallet_eq_ok h).1 u

/-- No entry refers to a new wallet. -/
theorem entriesOf_insertWallet {L L' : Ledger} {w : Wallet} (h : L.insertWallet w = .ok L') :
    L'.entriesOf w = [] := by
  obtain ⟨hin, hent⟩ := insertWallet_eq_ok h
  rw [entriesOf, hent, List.filter_eq_nil_iff]
  intro e he hid
  -- the identifier of the new wallet is not that of an old one
  obtain ⟨v, hv, hve⟩ := L.walletOf e he
  exact (Table.insert?_eq_some hin).1 v hv (Or.inr (hve.trans (of_decide_eq_true hid)))

/-- What a successful `saveWallet` has checked and done. -/
theorem saveWallet_eq_ok {L L' : Ledger} {w : Wallet} (h : L.saveWallet w = .ok L') :
    (0 ≤ w.availableBalanceCents ∧ 0 ≤ w.reservedBalanceCents) ∧
      (fitsInt4 w.availableBalanceCents = true ∧ fitsInt4 w.reservedBalanceCents = true) ∧
      (L.wallets.find? w.userId).map Wallet.id = some w.id ∧
      L.wallets.update? w = some L'.wallets ∧ L'.entries = L.entries := by
  unfold saveWallet at h
  by_cases hfit : (fitsInt4 w.availableBalanceCents && fitsInt4 w.reservedBalanceCents) = true
  case neg => rw [if_neg hfit] at h; cases h
  by_cases ha : 0 ≤ w.availableBalanceCents
  case neg => rw [if_pos hfit, if_neg ha] at h; cases h
  by_cases hr : 0 ≤ w.reservedBalanceCents
  case neg => rw [if_pos hfit, if_pos ha, if_neg hr] at h; cases h
  by_cases hid : (L.wallets.find? w.userId).map Wallet.id = some w.id
  case neg => rw [if_pos hfit, if_pos ha, if_pos hr, if_neg hid] at h; cases h
  rw [if_pos hfit, if_pos ha, if_pos hr, if_pos hid] at h
  split at h
  · cases h
  · rename_i ws hws
    obtain ⟨hw, he⟩ := check_eq_ok h
    exact ⟨⟨ha, hr⟩, by simpa using hfit, hid, by rw [hw]; exact hws, he⟩

/-- What a successful `insertEntry` has checked and done. -/
theorem insertEntry_eq_ok {L L' : Ledger} {userId : Uuid} {e : WalletEntry}
    (h : L.insertEntry userId e = .ok L') :
    (L.wallets.find? userId).map Wallet.id = some e.walletId ∧
      L.entries.insert? e.stored = some L'.entries ∧ L'.wallets = L.wallets := by
  unfold insertEntry at h
  by_cases hfit : fitsInt4 e.amountCents = true
  case neg => rw [if_neg hfit] at h; cases h
  by_cases hlen : fitsVarchar 255 e.referenceId = true ∧ fitsVarchar 100 e.idempotencyKey = true
  case neg => rw [if_pos hfit, if_neg hlen] at h; cases h
  by_cases hid : (L.wallets.find? userId).map Wallet.id = some e.walletId
  case neg => rw [if_pos hfit, if_pos hlen, if_neg hid] at h; cases h
  rw [if_pos hfit, if_pos hlen, if_pos hid] at h
  split at h
  · cases h
  · rename_i es hes
    obtain ⟨hw, he⟩ := check_eq_ok h
    exact ⟨hid, by rw [he]; exact hes, hw⟩

theorem check_ok {ws : Table Wallet} {es : Table WalletEntry}
    (h : ∀ e ∈ es.rows, ∃ w ∈ ws.rows, w.id = e.walletId)
    (hkey : ∀ e ∈ es.rows, e.idempotencyKey.length ≤ 100) :
    check ws es = .ok ⟨ws, es, h, hkey⟩ := by
  unfold check
  rw [dif_pos hkey, dif_pos h]

/-- New balances that their columns hold can be saved. -/
theorem exists_saveWallet {L : Ledger} {w v : Wallet} (hw : L.wallets.find? w.userId = some v)
    (hid : v.id = w.id)
    (hfit : fitsInt4 w.availableBalanceCents = true ∧ fitsInt4 w.reservedBalanceCents = true)
    (hpos : 0 ≤ w.availableBalanceCents ∧ 0 ≤ w.reservedBalanceCents) :
    ∃ L', L.saveWallet w = .ok L' := by
  have huser : v.userId = w.userId := Table.key_of_find? hw
  obtain ⟨ws, hws⟩ : ∃ ws, L.wallets.update? w = some ws :=
    Table.exists_update hw fun c hc => by
      rcases hc with hc | hc
      · exact Or.inl (huser.trans hc)
      · exact Or.inr (hid.trans hc)
  have hfk : ∀ e ∈ L.entries.rows, ∃ w' ∈ ws.rows, w'.id = e.walletId := by
    intro e he
    obtain ⟨w', hw', hwe⟩ := L.walletOf e he
    by_cases hkey : Row.key w' = Row.key w
    · have heq : w' = v := L.wallets.eq_of_key hw' (Table.mem_of_find? hw) (hkey.trans huser.symm)
      refine ⟨w, (Table.mem_update hws).mpr (Or.inr ⟨rfl, w', hw', hkey⟩), ?_⟩
      rw [← hid, ← heq, hwe]
    · exact ⟨w', (Table.mem_update hws).mpr (Or.inl ⟨hw', hkey⟩), hwe⟩
  unfold saveWallet
  rw [if_pos (by rw [hfit.1, hfit.2]; rfl), if_pos hpos.1, if_pos hpos.2,
    if_pos (by rw [hw, Option.map_some, hid]), hws]
  exact ⟨_, check_ok hfk L.keyLength⟩

/-- A new entry that its columns hold can be inserted. -/
theorem exists_insertEntry {L : Ledger} {userId : Uuid} {v : Wallet} {e : WalletEntry}
    (hw : L.wallets.find? userId = some v) (hid : v.id = e.walletId)
    (hfit : fitsInt4 e.amountCents = true)
    (hlen : fitsVarchar 255 e.referenceId = true ∧ fitsVarchar 100 e.idempotencyKey = true)
    (hnew : ∀ e' ∈ L.entriesOf v, e'.idempotencyKey ≠ e.stored.idempotencyKey) :
    ∃ L', L.insertEntry userId e = .ok L' := by
  obtain ⟨es, hes⟩ : ∃ es, L.entries.insert? e.stored = some es :=
    Table.exists_insert fun e' he' hclash =>
      hnew e' (List.mem_filter.mpr ⟨he', decide_eq_true (hclash.1.trans hid.symm)⟩) hclash.2
  have hfk : ∀ e' ∈ es.rows, ∃ w' ∈ L.wallets.rows, w'.id = e'.walletId := by
    intro e' he'
    rcases (Table.mem_insert hes).mp he' with he' | rfl
    · exact L.walletOf e' he'
    · exact ⟨v, Table.mem_of_find? hw, hid⟩
  have hkey : ∀ e' ∈ es.rows, e'.idempotencyKey.length ≤ 100 := by
    intro e' he'
    rcases (Table.mem_insert hes).mp he' with he' | rfl
    · exact L.keyLength e' he'
    · exact length_varchar 100 e.idempotencyKey
  unfold insertEntry
  rw [if_pos hfit, if_pos hlen, if_pos (by rw [hw, Option.map_some, hid]), hes]
  exact ⟨_, check_ok hfk hkey⟩

end Ledger

/-! ## Rows that can be locked -/

inductive RowId
  | market (id : Uuid)
  | order (id : Uuid)
  | trade (id : Uuid)
  | wallet (userId : Uuid)
  deriving DecidableEq

/-- What the lock on a row protects. -/
def RowId.Slice : RowId → Type
  | .market _ => Option Market
  | .order _ => Option Order
  | .trade _ => Option Trade
  | .wallet _ => Option (Wallet × List WalletEntry)

def RowId.slice : (r : RowId) → Db → r.Slice
  | .market id, db => db.markets.find? id
  | .order id, db => db.orders.find? id
  | .trade id, db => db.trades.find? id
  | .wallet userId, db => db.ledger.slice userId

def RowId.present : (r : RowId) → r.Slice → Bool
  | .market _, v => Option.isSome v
  | .order _, v => Option.isSome v
  | .trade _, v => Option.isSome v
  | .wallet _, v => Option.isSome v

/-- The row locks of the exchange. -/
def dbStore : Store Db RowId where
  Slice := RowId.Slice
  slice := RowId.slice
  present := RowId.present

/-- The body of a transaction of the exchange. -/
abbrev Tx (α : Type) : Type := Prog dbStore Err α

end OutcomeExchange
