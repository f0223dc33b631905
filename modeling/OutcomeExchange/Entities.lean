import OutcomeExchange.Txn.Table
import Mathlib.Data.Int.Order.Basic

set_option autoImplicit false

/-! # Entities

The rows of the six tables of the exchange (`entities/*.ts`), their enumerations, the
request bodies the validation pipe lets through, and the errors a call can be rejected
with. Identifiers are UUIDs in their canonical text form, because the services build
idempotency keys out of that text. Money is integer cents. Columns that no service
reads back (`slug`, `title`, `currencyCode`, `updatedAt`) are left out.

The texts of a request are not always those that PostgreSQL keeps: it reads a UUID in either
case and writes it in lower case (`UuidString`), and it cuts spaces off the end of a text that
is longer than its column (`varchar`). -/

namespace OutcomeExchange

/-! ## Identifiers -/

def isHexDigit (c : Char) : Bool := ('0' ≤ c && c ≤ '9') || ('a' ≤ c && c ≤ 'f')

/-- The canonical text of a UUID: 36 characters, hyphens at 8, 13, 18 and 23. -/
def isUuidText (s : String) : Bool :=
  s.length = 36 && s.toList.zipIdx.all fun (c, i) =>
    if i = 8 || i = 13 || i = 18 || i = 23 then c = '-' else isHexDigit c

structure Uuid where
  text : String
  valid : isUuidText text = true
  deriving DecidableEq

theorem Uuid.text_length (u : Uuid) : u.text.length = 36 := by
  have h := u.valid
  simp only [isUuidText, Bool.and_eq_true, decide_eq_true_eq] at h
  exact h.1

theorem Uuid.ext_text {u v : Uuid} (h : u.text = v.text) : u = v := by
  cases u; cases v
  simp only at h
  subst h
  rfl

theorem isHexDigit_toLower {c : Char} (h : isHexDigit c = true) : c.toLower = c := by
  have hrange : ('0' ≤ c ∧ c ≤ '9') ∨ ('a' ≤ c ∧ c ≤ 'f') := by simpa [isHexDigit] using h
  have hnot : ¬ (c.val ≥ 'A'.val ∧ c.val ≤ 'Z'.val) := by
    rintro ⟨hlow, hhigh⟩
    rcases hrange with ⟨-, h9⟩ | ⟨ha, -⟩
    · exact absurd (UInt32.le_trans hlow h9) (by decide)
    · exact absurd (UInt32.le_trans ha hhigh) (by decide)
  exact dif_neg hnot

/-- A UUID as a request spells it, in lower or upper case: `ParseUUIDPipe` and `@IsUUID` accept
both. -/
structure UuidString where
  text : String
  valid : isUuidText (String.ofList (text.toList.map Char.toLower)) = true
  deriving DecidableEq

theorem UuidString.text_length (s : UuidString) : s.text.length = 36 := by
  have h := s.valid
  simp only [isUuidText, Bool.and_eq_true, decide_eq_true_eq, String.length_ofList,
    List.length_map, String.length_toList] at h
  exact h.1

theorem UuidString.ext_text {s t : UuidString} (h : s.text = t.text) : s = t := by
  cases s; cases t
  simp only at h
  subst h
  rfl

/-- The identifier that PostgreSQL reads. -/
def UuidString.uuid (s : UuidString) : Uuid where
  text := String.ofList (s.text.toList.map Char.toLower)
  valid := s.valid

/-- The characters of an identifier. -/
theorem Uuid.mem_text {u : Uuid} {c : Char} (hc : c ∈ u.text.toList) :
    c = '-' ∨ isHexDigit c = true := by
  have h := u.valid
  simp only [isUuidText, Bool.and_eq_true, List.all_eq_true] at h
  obtain ⟨i, hi, hget⟩ := List.mem_iff_getElem.mp hc
  have hchar := h.2 (c, i) (List.mem_iff_getElem.mpr ⟨i, by simpa using hi, by simp [hget]⟩)
  dsimp only at hchar
  split at hchar
  · exact Or.inl (of_decide_eq_true hchar)
  · exact Or.inr hchar

theorem Uuid.map_toLower (u : Uuid) : u.text.toList.map Char.toLower = u.text.toList := by
  refine List.map_congr_left (g := id) (fun c hc => ?_) |>.trans (List.map_id _)
  rcases Uuid.mem_text hc with rfl | hhex
  · decide
  · exact isHexDigit_toLower hhex

/-- The identifier as PostgreSQL writes it. -/
def Uuid.string (u : Uuid) : UuidString where
  text := u.text
  valid := by
    rw [u.map_toLower, String.ofList_toList]
    exact u.valid

instance : Coe Uuid UuidString := ⟨Uuid.string⟩

@[simp] theorem Uuid.string_text (u : Uuid) : u.string.text = u.text := rfl

@[simp] theorem Uuid.string_uuid (u : Uuid) : u.string.uuid = u := by
  apply Uuid.ext_text
  show String.ofList (u.text.toList.map Char.toLower) = u.text
  rw [u.map_toLower, String.ofList_toList]

theorem Uuid.string_injective {u v : Uuid} (h : u.string = v.string) : u = v :=
  Uuid.ext_text (congrArg UuidString.text h)

/-- The request spells the identifier as PostgreSQL does. -/
def UuidString.Canonical (s : UuidString) : Prop := s = s.uuid

instance (s : UuidString) : Decidable s.Canonical := inferInstanceAs (Decidable (s = s.uuid))

theorem Uuid.canonical_string (u : Uuid) : u.string.Canonical := by
  rw [UuidString.Canonical, Uuid.string_uuid]

/-- Milliseconds since the epoch. -/
abbrev Timestamp := ℤ

/-! ## Enumerations -/

inductive WalletEntryType
  | DEPOSIT | WITHDRAW | RESERVE | RELEASE | SETTLE_DEBIT | SETTLE_CREDIT
  deriving DecidableEq, Repr

inductive WalletReferenceType
  | ORDER | TRADE | MANUAL_DEPOSIT | MANUAL_WITHDRAW
  deriving DecidableEq, Repr

inductive MarketStatus
  | OPEN | CLOSED | RESOLVED
  deriving DecidableEq, Repr

inductive OrderStatus
  | OPEN | MATCH_PENDING | MATCHED | CANCELLED | SETTLEMENT_FAILED
  deriving DecidableEq, Repr

inductive OutcomeSide
  | YES | NO
  deriving DecidableEq, Repr

inductive TradeStatus
  | PENDING_SETTLEMENT | SETTLED | FAILED
  deriving DecidableEq, Repr

/-! ## Rows -/

structure Wallet where
  id : Uuid
  userId : Uuid
  availableBalanceCents : ℤ
  reservedBalanceCents : ℤ
  deriving DecidableEq

structure WalletEntry where
  walletId : Uuid
  entryType : WalletEntryType
  amountCents : ℤ
  referenceType : WalletReferenceType
  referenceId : String
  idempotencyKey : String
  createdAt : Timestamp
  deriving DecidableEq

structure Market where
  id : Uuid
  status : MarketStatus
  closesAt : Option Timestamp
  resolvedOutcome : Option OutcomeSide
  deriving DecidableEq

structure Outcome where
  marketId : Uuid
  side : OutcomeSide
  deriving DecidableEq

structure Order where
  id : Uuid
  userId : Uuid
  marketId : Uuid
  side : OutcomeSide
  priceCents : ℤ
  quantity : ℤ
  reservedCents : ℤ
  status : OrderStatus
  idempotencyKey : String
  createdAt : Timestamp
  deriving DecidableEq

structure Trade where
  id : Uuid
  marketId : Uuid
  yesOrderId : Uuid
  noOrderId : Uuid
  yesPriceCents : ℤ
  noPriceCents : ℤ
  quantity : ℤ
  status : TradeStatus
  deriving DecidableEq

/-! ## Changing the status of a row -/

def Order.withStatus (o : Order) (status : OrderStatus) : Order := { o with status := status }

def Trade.withStatus (t : Trade) (status : TradeStatus) : Trade := { t with status := status }

section WithStatus

variable (o : Order) (st : OrderStatus) (t : Trade) (ts : TradeStatus)

@[simp] theorem Order.withStatus_id : (o.withStatus st).id = o.id := rfl
@[simp] theorem Order.withStatus_userId : (o.withStatus st).userId = o.userId := rfl
@[simp] theorem Order.withStatus_marketId : (o.withStatus st).marketId = o.marketId := rfl
@[simp] theorem Order.withStatus_side : (o.withStatus st).side = o.side := rfl
@[simp] theorem Order.withStatus_priceCents : (o.withStatus st).priceCents = o.priceCents := rfl
@[simp] theorem Order.withStatus_quantity : (o.withStatus st).quantity = o.quantity := rfl
@[simp] theorem Order.withStatus_reserved :
    (o.withStatus st).reservedCents = o.reservedCents := rfl
@[simp] theorem Order.withStatus_createdAt : (o.withStatus st).createdAt = o.createdAt := rfl
@[simp] theorem Order.withStatus_status : (o.withStatus st).status = st := rfl
@[simp] theorem Trade.withStatus_id : (t.withStatus ts).id = t.id := rfl
@[simp] theorem Trade.withStatus_marketId : (t.withStatus ts).marketId = t.marketId := rfl
@[simp] theorem Trade.withStatus_yesOrderId : (t.withStatus ts).yesOrderId = t.yesOrderId := rfl
@[simp] theorem Trade.withStatus_noOrderId : (t.withStatus ts).noOrderId = t.noOrderId := rfl
@[simp] theorem Trade.withStatus_quantity : (t.withStatus ts).quantity = t.quantity := rfl
@[simp] theorem Trade.withStatus_status : (t.withStatus ts).status = ts := rfl

end WithStatus

/-! ## Texts in their columns -/

/-- PostgreSQL takes the text as a parameter: no U+0000 is in it. -/
def isPgText (s : String) : Bool := !s.toList.contains '\x00'

/-- PostgreSQL takes the text for a `character varying(n)` column: what is beyond the length is
spaces. -/
def fitsVarchar (n : ℕ) (s : String) : Bool := isPgText s && (s.toList.drop n).all (· = ' ')

/-- The text that the column then holds. -/
def varchar (n : ℕ) (s : String) : String := String.ofList (s.toList.take n)

theorem varchar_of_le {n : ℕ} {s : String} (h : s.length ≤ n) : varchar n s = s := by
  unfold varchar
  rw [List.take_of_length_le (by rw [String.length_toList]; exact h), String.ofList_toList]

/-- The text of an identifier is shorter than any column for it. -/
theorem Uuid.varchar_text {n : ℕ} (u : Uuid) (h : 36 ≤ n) : varchar n u.text = u.text :=
  varchar_of_le (by rw [u.text_length]; exact h)

theorem isPgText_append {s t : String} : isPgText (s ++ t) = (isPgText s && isPgText t) := by
  unfold isPgText
  rw [String.toList_append, List.contains_eq_any_beq, List.any_append, Bool.not_or,
    ← List.contains_eq_any_beq, ← List.contains_eq_any_beq]

theorem Uuid.isPgText (u : Uuid) : isPgText u.text = true := by
  have hnul : '\x00' ∉ u.text.toList := by
    intro h
    rcases Uuid.mem_text h with h | h
    · exact absurd h (by decide)
    · exact absurd h (by decide)
  unfold OutcomeExchange.isPgText
  simpa using hnul

theorem length_varchar (n : ℕ) (s : String) : (varchar n s).length ≤ n := by
  unfold varchar
  rw [String.length_ofList, List.length_take]
  omega

theorem fitsVarchar_of_le {n : ℕ} {s : String} (h : s.length ≤ n) (htext : isPgText s = true) :
    fitsVarchar n s = true := by
  unfold fitsVarchar
  rw [List.drop_of_length_le (by rw [String.length_toList]; exact h), htext]
  rfl

/-- The row of `wallet_entries` that an `INSERT` of these values makes. -/
def WalletEntry.stored (e : WalletEntry) : WalletEntry :=
  { e with
    referenceId := varchar 255 e.referenceId
    idempotencyKey := varchar 100 e.idempotencyKey }

/-- The row of `orders` that an `INSERT` of these values makes. -/
def Order.stored (o : Order) : Order := { o with idempotencyKey := varchar 100 o.idempotencyKey }

/-! ## Keys and unique constraints -/

section Rows

open Txn

/-- `user_id` is unique, and so is the primary key `id`. -/
instance : Row Wallet Uuid where
  key w := w.userId
  clash a b := a.userId = b.userId ∨ a.id = b.id
  clash_symm h := h.imp Eq.symm Eq.symm
  clash_of_key h := Or.inl h

/-- `UQ_wallet_entries_wallet_idempotency`. -/
instance : Row WalletEntry (Uuid × String) where
  key e := (e.walletId, e.idempotencyKey)
  clash a b := a.walletId = b.walletId ∧ a.idempotencyKey = b.idempotencyKey
  clash_symm h := ⟨h.1.symm, h.2.symm⟩
  clash_of_key h := Prod.mk.inj h

instance : Row Market Uuid where
  key m := m.id
  clash a b := a.id = b.id
  clash_symm h := h.symm
  clash_of_key h := h

/-- `UQ_orders_user_idempotency`. -/
instance : Row Order Uuid where
  key o := o.id
  clash a b := a.id = b.id ∨ (a.userId = b.userId ∧ a.idempotencyKey = b.idempotencyKey)
  clash_symm h := h.imp Eq.symm fun h => ⟨h.1.symm, h.2.symm⟩
  clash_of_key h := Or.inl h

/-- `UQ_trades_yes_order` and `UQ_trades_no_order`. -/
instance : Row Trade Uuid where
  key t := t.id
  clash a b := a.id = b.id ∨ a.yesOrderId = b.yesOrderId ∨ a.noOrderId = b.noOrderId
  clash_symm h := h.imp Eq.symm fun h => h.imp Eq.symm Eq.symm
  clash_of_key h := Or.inl h

@[simp] theorem key_wallet (w : Wallet) : Row.key w = w.userId := rfl
@[simp] theorem key_entry (e : WalletEntry) : Row.key e = (e.walletId, e.idempotencyKey) := rfl
@[simp] theorem key_market (m : Market) : Row.key m = m.id := rfl
@[simp] theorem key_order (o : Order) : Row.key o = o.id := rfl
@[simp] theorem key_trade (t : Trade) : Row.key t = t.id := rfl

end Rows

/-! ## Numbers and text

`Number.isInteger` and `Number.isSafeInteger` are checks on JavaScript numbers, and a
number that is not an integer (a fraction, `NaN`, an infinity) is rejected wherever it
could come in; all of these are `JsNumber.other`. -/

inductive JsNumber
  | int (n : ℤ)
  | other
  deriving DecidableEq

/-- `Number.isSafeInteger` on an integer. -/
def isSafeInteger (n : ℤ) : Bool := -9007199254740991 ≤ n && n ≤ 9007199254740991

/-- The range of a PostgreSQL `integer` column. -/
def fitsInt4 (n : ℤ) : Bool := -2147483648 ≤ n && n ≤ 2147483647

/-- White space and line terminators, as `String.prototype.trim` removes them. -/
def isJsSpace (c : Char) : Bool :=
  c ∈ ['\t', '\n', '\x0b', '\x0c', '\r', ' ', '\xa0', '\u1680', '\u2000', '\u2001', '\u2002',
    '\u2003', '\u2004', '\u2005', '\u2006', '\u2007', '\u2008', '\u2009', '\u200a', '\u2028',
    '\u2029', '\u202f', '\u205f', '\u3000', '\ufeff']

theorem isJsSpace_of_ascii {c : Char} (h : 33 ≤ c.val.toNat) (h' : c.val.toNat ≤ 126) :
    isJsSpace c = false := by
  rw [isJsSpace, decide_eq_false_iff_not]
  intro hmem
  have hout := List.all_eq_true (p := fun d : Char => d.val.toNat < 33 || 126 < d.val.toNat).mp
    (by decide) c hmem
  rw [Bool.or_eq_true, decide_eq_true_eq, decide_eq_true_eq] at hout
  omega

/-- `s.trim().length`, in UTF-16 code units. -/
def jsTrimLength (s : String) : ℕ :=
  (((s.toList.dropWhile isJsSpace).reverse.dropWhile isJsSpace).map
    fun c => if c.val < 0x10000 then 1 else 2).sum

/-! ## Request bodies

What the validation pipe lets through. `DepositDto` and `WithdrawDto` carry the same
checks. -/

structure AmountDto where
  amountCents : ℤ
  idempotencyKey : String
  amount_min : 1 ≤ amountCents
  amount_max : amountCents ≤ 1000000000
  key_min : 8 ≤ idempotencyKey.length
  key_max : idempotencyKey.length ≤ 100

abbrev DepositDto := AmountDto

abbrev WithdrawDto := AmountDto

structure PlaceOrderDto where
  marketId : UuidString
  side : OutcomeSide
  priceCents : ℤ
  quantity : ℤ
  idempotencyKey : String
  price_min : 1 ≤ priceCents
  price_max : priceCents ≤ 99
  quantity_min : 1 ≤ quantity
  key_min : 8 ≤ idempotencyKey.length

/-! ## Errors -/

/-- Why a call is rejected: an HTTP exception with its message, a plain `Error`, or a
failed query (with the constraint or column it violates). -/
inductive Err
  | badRequest (message : String)
  | notFound (message : String)
  | conflict (message : String)
  | error (message : String)
  | query (constraint : String)
  deriving DecidableEq, Repr

end OutcomeExchange
