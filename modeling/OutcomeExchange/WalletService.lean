import OutcomeExchange.IdempotencyKeys
import OutcomeExchange.Statements
import Mathlib.Algebra.Group.Prod

set_option autoImplicit false

/-! # WalletService

The six money movements of a wallet and the one procedure behind them, `mutateWallet`:
check the amount and the key, lock the wallet, return early if the wallet already has an
entry with the key, else change the balances and append the entry.

`exec_mutateWallet` says once what a successful call did (`Mutated`): either the key was
there and nothing changed, or the balances moved by the effect of the entry type and
exactly one entry was appended. -/

namespace OutcomeExchange

open Txn

/-! ## The effect of an entry type -/

/-- What an entry of this type and amount adds to the available and the reserved balance. -/
def WalletEntryType.effect : WalletEntryType → ℤ → ℤ × ℤ
  | .DEPOSIT, a => (a, 0)
  | .WITHDRAW, a => (-a, 0)
  | .RESERVE, a => (-a, a)
  | .RELEASE, a => (a, -a)
  | .SETTLE_DEBIT, a => (0, -a)
  | .SETTLE_CREDIT, a => (a, 0)

/-- The `apply` callback that the method of this entry type hands to `mutateWallet`. -/
def WalletEntryType.apply (entryType : WalletEntryType) (wallet : Wallet) (amount : ℤ) :
    Except Err Wallet :=
  match entryType with
  | .DEPOSIT =>
      .ok { wallet with availableBalanceCents := wallet.availableBalanceCents + amount }
  | .WITHDRAW =>
      if wallet.availableBalanceCents < amount then
        .error (.badRequest "Insufficient available balance")
      else
        .ok { wallet with availableBalanceCents := wallet.availableBalanceCents - amount }
  | .RESERVE =>
      if wallet.availableBalanceCents < amount then
        .error (.badRequest "Insufficient available balance")
      else
        .ok { wallet with
          availableBalanceCents := wallet.availableBalanceCents - amount
          reservedBalanceCents := wallet.reservedBalanceCents + amount }
  | .RELEASE =>
      if wallet.reservedBalanceCents < amount then
        .error (.badRequest "Insufficient reserved balance")
      else
        .ok { wallet with
          reservedBalanceCents := wallet.reservedBalanceCents - amount
          availableBalanceCents := wallet.availableBalanceCents + amount }
  | .SETTLE_DEBIT =>
      if wallet.reservedBalanceCents < amount then
        .error (.badRequest "Insufficient reserved balance")
      else
        .ok { wallet with reservedBalanceCents := wallet.reservedBalanceCents - amount }
  | .SETTLE_CREDIT =>
      .ok { wallet with availableBalanceCents := wallet.availableBalanceCents + amount }

/-- The wallet with both balances moved by the effect of an entry. -/
def Wallet.moved (w : Wallet) (entryType : WalletEntryType) (amount : ℤ) : Wallet :=
  { w with
    availableBalanceCents := w.availableBalanceCents + (entryType.effect amount).1
    reservedBalanceCents := w.reservedBalanceCents + (entryType.effect amount).2 }

/-- Each callback either rejects or moves the balances by the effect of its entry type. -/
theorem WalletEntryType.apply_eq_ok {entryType : WalletEntryType} {w w' : Wallet} {amount : ℤ}
    (h : entryType.apply w amount = .ok w') : w' = w.moved entryType amount := by
  have hsub : ∀ b : ℤ, b + -amount = b - amount := fun b => (sub_eq_add_neg b amount).symm
  cases entryType <;> simp only [WalletEntryType.apply, Wallet.moved, WalletEntryType.effect,
    add_zero, hsub] at h ⊢
  case DEPOSIT => exact (Except.ok.inj h).symm
  case SETTLE_CREDIT => exact (Except.ok.inj h).symm
  -- the other four check a balance first
  all_goals
    split at h
    · cases h
    · exact (Except.ok.inj h).symm

/-! ## mutateWallet -/

structure MutateWalletParams where
  userId : Uuid
  amountCents : JsNumber
  idempotencyKey : String
  entryType : WalletEntryType
  referenceType : WalletReferenceType
  referenceId : String
  /-- the clock, for `created_at` -/
  now : Timestamp

structure MutationResult where
  wallet : Wallet
  idempotentReplay : Bool

def assertPositiveAmount : JsNumber → Except Err ℤ
  | .int n =>
      if n ≤ 0 then .error (.badRequest "Amount must be a positive integer in cents") else .ok n
  | .other => .error (.badRequest "Amount must be a positive integer in cents")

def assertIdempotencyKey (idempotencyKey : String) : Except Err Unit :=
  if idempotencyKey = "" ∨ jsTrimLength idempotencyKey < 8 then
    .error (.badRequest "Idempotency key must be at least 8 characters")
  else .ok ()

def assertNonNegative (wallet : Wallet) : Except Err Unit :=
  if wallet.availableBalanceCents < 0 ∨ wallet.reservedBalanceCents < 0 then
    .error (.badRequest "Wallet balances cannot be negative")
  else .ok ()

/-- A check of the code between two statements. -/
def ofExcept {α : Type} : Except Err α → Tx α
  | .ok a => pure a
  | .error e => Prog.throw e

/-- The entry that `mutateWallet` saves. -/
def MutateWalletParams.created (params : MutateWalletParams) (walletId : Uuid) (amount : ℤ) :
    WalletEntry where
  walletId := walletId
  entryType := params.entryType
  amountCents := amount
  referenceType := params.referenceType
  referenceId := params.referenceId
  idempotencyKey := params.idempotencyKey
  createdAt := params.now

/-- The row that it becomes. -/
def MutateWalletParams.entry (params : MutateWalletParams) (walletId : Uuid) (amount : ℤ) :
    WalletEntry :=
  (params.created walletId amount).stored

/-- The key of that row. -/
def MutateWalletParams.storedKey (params : MutateWalletParams) : String :=
  varchar 100 params.idempotencyKey

section Entry

variable (params : MutateWalletParams) (walletId : Uuid) (amount : ℤ)

@[simp] theorem MutateWalletParams.entry_walletId :
    (params.entry walletId amount).walletId = walletId := rfl
@[simp] theorem MutateWalletParams.entry_entryType :
    (params.entry walletId amount).entryType = params.entryType := rfl
@[simp] theorem MutateWalletParams.entry_amountCents :
    (params.entry walletId amount).amountCents = amount := rfl
@[simp] theorem MutateWalletParams.entry_referenceType :
    (params.entry walletId amount).referenceType = params.referenceType := rfl
@[simp] theorem MutateWalletParams.entry_referenceId :
    (params.entry walletId amount).referenceId = varchar 255 params.referenceId := rfl
@[simp] theorem MutateWalletParams.entry_idempotencyKey :
    (params.entry walletId amount).idempotencyKey = params.storedKey := rfl

end Entry

theorem MutateWalletParams.storedKey_of_text {params : MutateWalletParams} {k : EngineKey}
    (h : params.idempotencyKey = k.text) : params.storedKey = k.stored.text := by
  rw [MutateWalletParams.storedKey, h, k.varchar_text]

theorem MutateWalletParams.storedKey_of_le {params : MutateWalletParams}
    (h : params.idempotencyKey.length ≤ 100) : params.storedKey = params.idempotencyKey :=
  varchar_of_le h

def mutateWallet (params : MutateWalletParams) : Tx MutationResult := do
  let amount ← ofExcept (assertPositiveAmount params.amountCents)
  ofExcept (assertIdempotencyKey params.idempotencyKey)
  match ← findWalletForUpdate params.userId with
  | none => Prog.throw (.notFound "Wallet not found for user")
  | some wallet =>
      match ← findEntry params.userId params.idempotencyKey with
      | some _ => return ⟨wallet, true⟩
      | none => do
          let wallet ← ofExcept (params.entryType.apply wallet amount)
          ofExcept (assertNonNegative wallet)
          saveWallet wallet
          insertEntry params.userId (params.created wallet.id amount)
          return ⟨wallet, false⟩

/-! ## The six movements -/

section Movements

variable (userId : Uuid) (amountCents : JsNumber) (idempotencyKey referenceId : String)
  (now : Timestamp)

def depositParams : MutateWalletParams :=
  ⟨userId, amountCents, idempotencyKey, .DEPOSIT, .MANUAL_DEPOSIT, idempotencyKey, now⟩

def withdrawParams : MutateWalletParams :=
  ⟨userId, amountCents, idempotencyKey, .WITHDRAW, .MANUAL_WITHDRAW, idempotencyKey, now⟩

def reserveParams : MutateWalletParams :=
  ⟨userId, amountCents, idempotencyKey, .RESERVE, .ORDER, referenceId, now⟩

def releaseParams : MutateWalletParams :=
  ⟨userId, amountCents, idempotencyKey, .RELEASE, .ORDER, referenceId, now⟩

def settleDebitParams : MutateWalletParams :=
  ⟨userId, amountCents, idempotencyKey, .SETTLE_DEBIT, .TRADE, referenceId, now⟩

def settleCreditParams : MutateWalletParams :=
  ⟨userId, amountCents, idempotencyKey, .SETTLE_CREDIT, .TRADE, referenceId, now⟩

def deposit : Tx Wallet := do
  let mutation ← mutateWallet (depositParams userId amountCents idempotencyKey now)
  return mutation.wallet

def withdraw : Tx Wallet := do
  let mutation ← mutateWallet (withdrawParams userId amountCents idempotencyKey now)
  return mutation.wallet

def reserve : Tx Wallet := do
  let mutation ← mutateWallet (reserveParams userId amountCents idempotencyKey referenceId now)
  return mutation.wallet

def release : Tx Wallet := do
  let mutation ← mutateWallet (releaseParams userId amountCents idempotencyKey referenceId now)
  return mutation.wallet

def settleDebit : Tx Wallet := do
  let mutation ← mutateWallet (settleDebitParams userId amountCents idempotencyKey referenceId now)
  return mutation.wallet

def settleCredit : Tx Wallet := do
  let mutation ←
    mutateWallet (settleCreditParams userId amountCents idempotencyKey referenceId now)
  return mutation.wallet

end Movements

theorem settleCredit_storedKey (marketId tradeId : Uuid) (winningSide : OutcomeSide) {userId : Uuid}
    {amountCents : JsNumber} {referenceId : String} {now : Timestamp} :
    (settleCreditParams userId amountCents (EngineKey.credit marketId tradeId winningSide).text
      referenceId now).storedKey = (EngineKey.credit marketId tradeId winningSide).text :=
  MutateWalletParams.storedKey_of_text (k := .credit marketId tradeId winningSide) rfl

/-- `createWalletForUser`; `walletId` is the identifier the database generates. -/
def createWalletForUser (userId walletId : Uuid) : Tx Wallet := do
  match ← Prog.query (fun db : Db => db.ledger.wallets.find? userId) with
  | some existing => return existing
  | none => do
      let wallet : Wallet := ⟨walletId, userId, 0, 0⟩
      insertWallet wallet
      return wallet

/-! ## What a successful mutation did -/

/-- The entries of the wallet of a user, in commit order. -/
def Ledger.history (L : Ledger) (userId : Uuid) : List WalletEntry :=
  match L.wallets.find? userId with
  | none => []
  | some w => L.entriesOf w

/-- The balances of a user; both are zero without a wallet. -/
def Ledger.available (L : Ledger) (userId : Uuid) : ℤ :=
  ((L.wallets.find? userId).map Wallet.availableBalanceCents).getD 0

def Ledger.reserved (L : Ledger) (userId : Uuid) : ℤ :=
  ((L.wallets.find? userId).map Wallet.reservedBalanceCents).getD 0

/-- The wallet of the user has an entry with this idempotency key. -/
def Ledger.KeyUsed (L : Ledger) (userId : Uuid) (key : String) : Prop :=
  ∃ e ∈ L.history userId, e.idempotencyKey = key

instance (L : Ledger) (userId : Uuid) (key : String) : Decidable (L.KeyUsed userId key) :=
  inferInstanceAs (Decidable (∃ e ∈ L.history userId, e.idempotencyKey = key))

/-- A key that is used is one that its column holds as it is. -/
theorem Ledger.KeyUsed.varchar_eq {L : Ledger} {userId : Uuid} {key : String}
    (h : L.KeyUsed userId key) : varchar 100 key = key := by
  obtain ⟨e, he, hkey⟩ := h
  unfold Ledger.history at he
  split at he
  · cases he
  · apply varchar_of_le
    rw [← hkey]
    exact L.keyLength e (List.mem_filter.mp he).1

/-- A new wallet has no history, and no other history changes. -/
theorem Ledger.history_insertWallet {L L' : Ledger} {w : Wallet} (h : L.insertWallet w = .ok L')
    (u : Uuid) : L'.history u = if w.userId = u then [] else L.history u := by
  rw [Ledger.history, Ledger.find?_insertWallet h]
  by_cases hu : w.userId = u
  · rw [if_pos hu, if_pos hu]
    exact Ledger.entriesOf_insertWallet h
  · rw [if_neg hu, if_neg hu, Ledger.history]
    cases L.wallets.find? u with
    | none => rfl
    | some v =>
        show L'.entriesOf v = L.entriesOf v
        rw [Ledger.entriesOf, Ledger.entriesOf, (Ledger.insertWallet_eq_ok h).2]

/-- The mutation was carried out: the balances moved and one entry was appended. -/
structure Posted (params : MutateWalletParams) (w : Wallet) (amount : ℤ) (L L' : Ledger) :
    Prop where
  amount_eq : params.amountCents = .int amount
  amount_pos : 0 < amount
  wallet : L.wallets.find? params.userId = some w
  fresh : ¬ L.KeyUsed params.userId params.idempotencyKey
  available_nonneg : 0 ≤ (w.moved params.entryType amount).availableBalanceCents
  reserved_nonneg : 0 ≤ (w.moved params.entryType amount).reservedBalanceCents
  wallets : L.wallets.update? (w.moved params.entryType amount) = some L'.wallets
  entries : L.entries.insert? (params.entry w.id amount) = some L'.entries
  available_fits : fitsInt4 (w.moved params.entryType amount).availableBalanceCents = true
  reserved_fits : fitsInt4 (w.moved params.entryType amount).reservedBalanceCents = true

/-- A successful `mutateWallet`: a replay, which changes nothing, or a posting. -/
inductive Mutated (params : MutateWalletParams) (L L' : Ledger) : Prop
  | replay (used : L.KeyUsed params.userId params.idempotencyKey) (same : L' = L)
  | posted {w : Wallet} {amount : ℤ} (h : Posted params w amount L L')

section Exec

variable {m : Mode RowId} {s t : Db}

theorem exec_ofExcept {α : Type} {x : Except Err α} {a : α} :
    Exec m (ofExcept x) s a t ↔ x = .ok a ∧ s = t := by
  cases x with
  | error e => simp [ofExcept]
  | ok b => simp [ofExcept]

theorem assertPositiveAmount_eq_ok {x : JsNumber} {a : ℤ}
    (h : assertPositiveAmount x = .ok a) : x = .int a ∧ 0 < a := by
  cases x with
  | other => cases h
  | int n =>
      simp only [assertPositiveAmount] at h
      by_cases hn : n ≤ 0
      · rw [if_pos hn] at h
        cases h
      · rw [if_neg hn] at h
        cases h
        exact ⟨rfl, by omega⟩

/-- Every wallet call is a posting or a replay, and touches the wallet tables only. -/
theorem exec_mutateWallet {params : MutateWalletParams} {r : MutationResult}
    (h : Exec m (mutateWallet params) s r t) :
    ∃ L, t = { s with ledger := L } ∧ Mutated params s.ledger L := by
  unfold mutateWallet at h
  obtain ⟨amount, s₁, hcheck, h⟩ := exec_bind.mp h
  obtain ⟨hamount, rfl⟩ := exec_ofExcept.mp hcheck
  obtain ⟨_, s₁, hcheck, h⟩ := exec_bind.mp h
  obtain ⟨-, rfl⟩ := exec_ofExcept.mp hcheck
  obtain ⟨o, s₁, hread, h⟩ := exec_bind.mp h
  obtain ⟨rfl, hfound⟩ := exec_findWalletForUpdate.mp hread
  cases o with
  | none => exact (exec_throw.mp h).elim
  | some w =>
      have hw : s.ledger.wallets.find? params.userId = some w := by
        rcases hfound with hw | ⟨-, hw⟩
        · exact hw.symm
        · cases hw
      have hist : s.ledger.history params.userId = s.ledger.entriesOf w := by
        rw [Ledger.history, hw]
      obtain ⟨oe, s₁, hread', h⟩ := exec_bind.mp h
      obtain ⟨-, rfl, hentry⟩ := exec_findEntry.mp hread'
      cases oe with
      | some e =>
          obtain ⟨-, rfl⟩ := exec_pure.mp h
          refine ⟨s.ledger, rfl, .replay ?_ rfl⟩
          have he : (s.ledger.entriesOf w).find? (fun e => e.idempotencyKey = params.idempotencyKey)
              = some e := by
            rcases hentry with he | ⟨-, he⟩
            · rw [Ledger.slice, hw] at he
              exact he.symm
            · cases he
          rw [Ledger.KeyUsed, hist]
          exact ⟨e, List.mem_of_find?_eq_some he, by simpa using List.find?_some he⟩
      | none =>
          obtain ⟨w', s₁, hcall, h⟩ := exec_bind.mp h
          obtain ⟨happly, rfl⟩ := exec_ofExcept.mp hcall
          have hmoved := WalletEntryType.apply_eq_ok happly
          subst hmoved
          obtain ⟨_, s₁, hcheck', h⟩ := exec_bind.mp h
          obtain ⟨-, rfl⟩ := exec_ofExcept.mp hcheck'
          obtain ⟨_, s₁, hwrite, h⟩ := exec_bind.mp h
          obtain ⟨L₁, hsave, rfl⟩ := exec_saveWallet.mp hwrite
          obtain ⟨_, s₂, hwrite', h⟩ := exec_bind.mp h
          obtain ⟨L₂, hins, rfl⟩ := exec_insertEntry.mp hwrite'
          obtain ⟨-, rfl⟩ := exec_pure.mp h
          obtain ⟨⟨hav, hres⟩, ⟨hfit, hfit'⟩, -, hup, hent⟩ := Ledger.saveWallet_eq_ok hsave
          obtain ⟨-, hent', hwal⟩ := Ledger.insertEntry_eq_ok hins
          replace hent' : s.ledger.entries.insert? (params.entry w.id amount) = some L₂.entries := by
            rw [← hent]; exact hent'
          obtain ⟨hint, hpos⟩ := assertPositiveAmount_eq_ok hamount
          have hfresh : ¬ s.ledger.KeyUsed params.userId params.idempotencyKey := by
            -- even if the read of the entry was stale, the unique constraint was checked
            rintro ⟨e, he, hek⟩
            rw [hist, Ledger.entriesOf, List.mem_filter] at he
            have hshort : params.idempotencyKey.length ≤ 100 := hek ▸ s.ledger.keyLength e he.1
            exact (Table.insert?_eq_some hent').1 e he.1
              ⟨of_decide_eq_true he.2, hek.trans (varchar_of_le hshort).symm⟩
          have hposted : Posted params w amount s.ledger L₂ :=
            ⟨hint, hpos, hw, hfresh, hav, hres, by rw [hup, ← hwal], hent', hfit, hfit'⟩
          exact ⟨L₂, rfl, .posted hposted⟩

/-- The methods of the service hand out the wallet of a mutation. -/
theorem exec_movement {params : MutateWalletParams} {r : Wallet}
    (h : Exec m (do let mutation ← mutateWallet params; return mutation.wallet : Tx Wallet) s r t) :
    ∃ L, t = { s with ledger := L } ∧ Mutated params s.ledger L := by
  obtain ⟨mutation, s₁, hcall, hret⟩ := exec_bind.mp h
  obtain ⟨-, rfl⟩ := exec_pure.mp hret
  exact exec_mutateWallet hcall

/-- A new wallet is empty, or nothing happens. -/
theorem exec_createWalletForUser {userId walletId : Uuid} {r : Wallet}
    (h : Exec m (createWalletForUser userId walletId) s r t) :
    t = s ∨ ∃ L, s.ledger.insertWallet ⟨walletId, userId, 0, 0⟩ = .ok L ∧
      t = { s with ledger := L } := by
  unfold createWalletForUser at h
  obtain ⟨o, s₁, hread, h⟩ := exec_bind.mp h
  obtain ⟨rfl, -⟩ := exec_query.mp hread
  cases o with
  | some existing =>
      obtain ⟨-, rfl⟩ := exec_pure.mp h
      exact Or.inl rfl
  | none =>
      obtain ⟨_, s₁, hwrite, h⟩ := exec_bind.mp h
      obtain ⟨L, hL, rfl⟩ := exec_insertWallet.mp hwrite
      obtain ⟨-, rfl⟩ := exec_pure.mp h
      exact Or.inr ⟨L, hL, rfl⟩

end Exec

namespace Posted

variable {params : MutateWalletParams} {w : Wallet} {a : ℤ} {L L' : Ledger}

theorem userId_eq (h : Posted params w a L L') : w.userId = params.userId :=
  Table.key_of_find? h.wallet

/-- The wallet of the user after the posting; every other wallet is as before. -/
theorem find?_wallet (h : Posted params w a L L') (u : Uuid) :
    L'.wallets.find? u =
      if u = params.userId then some (w.moved params.entryType a) else L.wallets.find? u := by
  have hkey : Row.key (w.moved params.entryType a) = params.userId := h.userId_eq
  rw [Table.find?_update h.wallets (by rw [hkey]; exact h.wallet), hkey]

theorem entries_rows (h : Posted params w a L L') :
    L'.entries.rows = L.entries.rows ++ [params.entry w.id a] :=
  (Table.insert?_eq_some h.entries).2

theorem history_self (h : Posted params w a L L') :
    L'.history params.userId = L.history params.userId ++ [params.entry w.id a] := by
  have hw' : L'.wallets.find? params.userId = some (w.moved params.entryType a) := by
    rw [h.find?_wallet, if_pos rfl]
  rw [Ledger.history, Ledger.history, hw', h.wallet]
  show L'.entries.rows.filter (fun e => e.walletId = w.id) = L.entriesOf w ++ [params.entry w.id a]
  rw [h.entries_rows, List.filter_append]
  congr 1
  exact List.filter_eq_self.mpr fun e he => by rw [List.mem_singleton.mp he]; exact decide_eq_true rfl

theorem history_of_ne (h : Posted params w a L L') {u : Uuid} (hu : u ≠ params.userId) :
    L'.history u = L.history u := by
  have hw' : L'.wallets.find? u = L.wallets.find? u := by rw [h.find?_wallet, if_neg hu]
  rw [Ledger.history, Ledger.history, hw']
  cases hv : L.wallets.find? u with
  | none => rfl
  | some v =>
      have hne : w.id ≠ v.id := Ledger.id_ne hu.symm h.wallet hv
      show L'.entries.rows.filter (fun e => e.walletId = v.id) = L.entriesOf v
      rw [h.entries_rows, List.filter_append]
      have hnil : [params.entry w.id a].filter (fun e => e.walletId = v.id) = [] :=
        List.filter_eq_nil_iff.mpr fun e he hid => by
          rw [List.mem_singleton.mp he] at hid
          exact hne (of_decide_eq_true hid)
      rw [hnil, List.append_nil]
      rfl

/-- A posting adds its own key to the keys used, and no other. -/
theorem keyUsed_iff (h : Posted params w a L L') {u : Uuid} {k : String} :
    L'.KeyUsed u k ↔ L.KeyUsed u k ∨ (u = params.userId ∧ k = params.storedKey) := by
  by_cases hu : u = params.userId
  · subst hu
    simp only [Ledger.KeyUsed, h.history_self, List.mem_append, List.mem_singleton, true_and]
    constructor
    · rintro ⟨e, he | rfl, hk⟩
      · exact Or.inl ⟨e, he, hk⟩
      · exact Or.inr hk.symm
    · rintro (⟨e, he, hk⟩ | hk)
      · exact ⟨e, Or.inl he, hk⟩
      · exact ⟨_, Or.inr rfl, hk.symm⟩
  · simp only [Ledger.KeyUsed, h.history_of_ne hu, hu, false_and, or_false]

theorem available_eq (h : Posted params w a L L') (u : Uuid) :
    L'.available u = L.available u +
      if u = params.userId then (params.entryType.effect a).1 else 0 := by
  rw [Ledger.available, Ledger.available, h.find?_wallet]
  by_cases hu : u = params.userId
  · subst hu
    rw [if_pos rfl, if_pos rfl, h.wallet]
    rfl
  · rw [if_neg hu, if_neg hu, add_zero]

theorem reserved_eq (h : Posted params w a L L') (u : Uuid) :
    L'.reserved u = L.reserved u +
      if u = params.userId then (params.entryType.effect a).2 else 0 := by
  rw [Ledger.reserved, Ledger.reserved, h.find?_wallet]
  by_cases hu : u = params.userId
  · subst hu
    rw [if_pos rfl, if_pos rfl, h.wallet]
    rfl
  · rw [if_neg hu, if_neg hu, add_zero]

/-- What a posting does to a sum over all wallets of a column expression. -/
theorem sum_wallets (h : Posted params w a L L') (f : Wallet → ℤ) :
    L'.wallets.sum f = L.wallets.sum f - f w + f (w.moved params.entryType a) := by
  have hkey : Row.key (w.moved params.entryType a) = params.userId := h.userId_eq
  exact Table.sum_update h.wallets (by rw [hkey]; exact h.wallet) f

end Posted

/-! ## What a movement does to the balances -/

/-- Both balances of a user. -/
def Ledger.balances (L : Ledger) (u : Uuid) : ℤ × ℤ := (L.available u, L.reserved u)

section Mutated

variable {params : MutateWalletParams} {L L' : Ledger}

/-- A movement is carried out if its key is new. -/
theorem Mutated.balances_eq (h : Mutated params L L') {amount : ℤ}
    (hamount : params.amountCents = .int amount) (u : Uuid) :
    L'.balances u = L.balances u +
      if L.KeyUsed params.userId params.idempotencyKey then 0
      else if params.userId = u then params.entryType.effect amount else 0 := by
  cases h with
  | replay used same => rw [same, if_pos used, add_zero]
  | @posted w a hp =>
      have ha : a = amount := by
        have heq := hp.amount_eq
        rw [hamount] at heq
        exact (JsNumber.int.inj heq).symm
      subst ha
      rw [if_neg hp.fresh]
      -- both balances move by the effect, those of this user only
      apply Prod.ext
      · have hav := hp.available_eq u
        by_cases hu : params.userId = u
        · rw [if_pos hu.symm] at hav
          rw [if_pos hu]
          exact hav
        · rw [if_neg (Ne.symm hu)] at hav
          rw [if_neg hu]
          exact hav
      · have hres := hp.reserved_eq u
        by_cases hu : params.userId = u
        · rw [if_pos hu.symm] at hres
          rw [if_pos hu]
          exact hres
        · rw [if_neg (Ne.symm hu)] at hres
          rw [if_neg hu]
          exact hres

/-- Carried out or not, the key of a movement is used afterwards, as its column holds it. -/
theorem Mutated.keyUsed (h : Mutated params L L') : L'.KeyUsed params.userId params.storedKey := by
  cases h with
  | replay used same =>
      rw [same, MutateWalletParams.storedKey, used.varchar_eq]
      exact used
  | posted hp => exact hp.keyUsed_iff.mpr (Or.inr ⟨rfl, rfl⟩)

/-- Another key is used before the movement if it is used afterwards. -/
theorem Mutated.keyUsed_of_ne (h : Mutated params L L') {u : Uuid} {key : String}
    (hne : key ≠ params.storedKey) : L'.KeyUsed u key ↔ L.KeyUsed u key := by
  cases h with
  | replay used same => rw [same]
  | posted hp =>
      rw [hp.keyUsed_iff]
      constructor
      · rintro (hold | ⟨-, hkey⟩)
        · exact hold
        · exact absurd hkey hne
      · exact Or.inl

end Mutated

end OutcomeExchange
