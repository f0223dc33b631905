import OutcomeExchange.Entities

set_option autoImplicit false

/-! # Idempotency keys

All movements of a wallet share one namespace of idempotency keys. `EngineKey` lists the
keys that the services build themselves, `EngineKey.text` builds them. The main result is
`EngineKey.text_injective`: two engine keys with the same text are the same key, so an
engine key can only ever collide with a key that a client has chosen.

The column for the keys holds 100 characters. Only the key of a reserve, which contains a key
of the client, can be longer; `EngineKey.stored` is what the column then holds. -/

namespace OutcomeExchange

def OutcomeSide.text : OutcomeSide → String
  | .YES => "YES"
  | .NO => "NO"

/-- The keys of the movements for a trade. -/
inductive TradeKey
  /-- the debit of one side by `handleSettlement` -/
  | debit (side : OutcomeSide)
  /-- the release of one side by `markSettlementFailure` -/
  | release (side : OutcomeSide)
  /-- the release of an order by `failPendingTradeAndReleaseFunds` -/
  | enqueueRelease (orderId : Uuid)
  /-- the reserve of an order by `prepareTradeForRetry` -/
  | retryReserve (orderId : Uuid)
  deriving DecidableEq

/-- The text after `trade:<id>`. -/
def TradeKey.suffix : TradeKey → String
  | .debit .YES => ":yes-debit"
  | .debit .NO => ":no-debit"
  | .release .YES => ":yes-release"
  | .release .NO => ":no-release"
  | .enqueueRelease orderId => ":release:" ++ orderId.text
  | .retryReserve orderId => ":retry-reserve:" ++ orderId.text

inductive EngineKey
  /-- the reserve of a new order, under the client's key for the order -/
  | orderReserve (idempotencyKey : String)
  /-- the release of a cancelled order -/
  | orderCancel (orderId : Uuid)
  /-- a movement for a trade -/
  | trade (tradeId : Uuid) (key : TradeKey)
  /-- the payout of a trade by `resolveMarket` -/
  | credit (marketId tradeId : Uuid) (winningSide : OutcomeSide)
  deriving DecidableEq

def EngineKey.text : EngineKey → String
  | .orderReserve idempotencyKey => "order-reserve:" ++ idempotencyKey
  | .orderCancel orderId => "order-cancel:" ++ orderId.text
  | .trade tradeId key => "trade:" ++ (tradeId.text ++ key.suffix)
  | .credit marketId tradeId winningSide =>
      "market:" ++ (marketId.text ++ (":resolve:" ++ (tradeId.text ++
        (":" ++ (winningSide.text ++ ":credit")))))

/-! ## Injectivity -/

/-- An identifier in front of a text can be read off. -/
theorem UuidString.append_inj {u v : UuidString} {a b : String} (h : u.text ++ a = v.text ++ b) :
    u = v ∧ a = b := by
  have hlen : u.text.toList.length = v.text.toList.length := by
    rw [String.length_toList, String.length_toList, u.text_length, v.text_length]
  have hl : u.text.toList ++ a.toList = v.text.toList ++ b.toList := by
    rw [← String.toList_append, ← String.toList_append, h]
  obtain ⟨hu, ha⟩ := List.append_inj hl hlen
  exact ⟨UuidString.ext_text (String.toList_injective hu), String.toList_injective ha⟩

theorem Uuid.append_inj {u v : Uuid} {a b : String} (h : u.text ++ a = v.text ++ b) :
    u = v ∧ a = b := by
  obtain ⟨hu, ha⟩ := UuidString.append_inj (u := u) (v := v) h
  exact ⟨Uuid.string_injective hu, ha⟩

theorem OutcomeSide.append_inj {s t : OutcomeSide} {a : String}
    (h : s.text ++ a = t.text ++ a) : s = t := by
  rw [String.append_left_inj] at h
  cases s <;> cases t <;> simp [OutcomeSide.text] at h ⊢

theorem TradeKey.suffix_injective {a b : TradeKey} (h : a.suffix = b.suffix) : a = b := by
  have hl := congrArg String.toList h
  -- two different kinds of suffix differ within their first three characters
  rcases a with (_ | _) | (_ | _) | o | o <;> rcases b with (_ | _) | (_ | _) | o' | o' <;>
    simp [TradeKey.suffix] at hl ⊢
  all_goals exact Uuid.ext_text (String.toList_injective hl)

theorem EngineKey.text_injective {a b : EngineKey} (h : a.text = b.text) : a = b := by
  have hl := congrArg String.toList h
  -- keys of different kinds differ within their first seven characters
  cases a <;> cases b <;> simp only [EngineKey.text, String.append_right_inj] at h <;>
    simp [EngineKey.text] at hl ⊢
  case orderReserve.orderReserve k k' => exact h
  case orderCancel.orderCancel o o' => exact Uuid.ext_text h
  case trade.trade t key t' key' =>
      obtain ⟨ht, hs⟩ := Uuid.append_inj h
      exact ⟨ht, TradeKey.suffix_injective hs⟩
  case credit.credit m t s m' t' s' =>
      obtain ⟨hm, h₁⟩ := Uuid.append_inj h
      rw [String.append_right_inj] at h₁
      obtain ⟨ht, h₂⟩ := Uuid.append_inj h₁
      rw [String.append_right_inj] at h₂
      exact ⟨hm, ht, OutcomeSide.append_inj h₂⟩

/-! ## Keys in their column -/

/-- The key whose text the column holds for this one. -/
def EngineKey.stored : EngineKey → EngineKey
  | .orderReserve idempotencyKey => .orderReserve (varchar 86 idempotencyKey)
  | k => k

/-- The client has no part in the text of the key. -/
def EngineKey.Fixed (k : EngineKey) : Prop := ∀ idempotencyKey, k ≠ .orderReserve idempotencyKey

theorem EngineKey.Fixed.stored_eq {k : EngineKey} (h : k.Fixed) : k.stored = k := by
  cases k with
  | orderReserve idempotencyKey => exact absurd rfl (h idempotencyKey)
  | orderCancel orderId => rfl
  | trade tradeId key => rfl
  | credit marketId tradeId winningSide => rfl

theorem EngineKey.Fixed.length_le {k : EngineKey} (h : k.Fixed) : k.text.length ≤ 100 := by
  cases k with
  | orderReserve idempotencyKey => exact absurd rfl (h idempotencyKey)
  | orderCancel orderId =>
      have hid := orderId.text_length
      simp only [EngineKey.text, String.length_append, hid]
      decide
  | trade tradeId key =>
      have hid := tradeId.text_length
      cases key with
      | debit side =>
          cases side <;> simp only [EngineKey.text, TradeKey.suffix, String.length_append, hid] <;>
            decide
      | release side =>
          cases side <;> simp only [EngineKey.text, TradeKey.suffix, String.length_append, hid] <;>
            decide
      | enqueueRelease orderId =>
          have hid' := orderId.text_length
          simp only [EngineKey.text, TradeKey.suffix, String.length_append, hid, hid']
          decide
      | retryReserve orderId =>
          have hid' := orderId.text_length
          simp only [EngineKey.text, TradeKey.suffix, String.length_append, hid, hid']
          decide
  | credit marketId tradeId winningSide =>
      have hm := marketId.text_length
      have ht := tradeId.text_length
      cases winningSide <;>
        simp only [EngineKey.text, OutcomeSide.text, String.length_append, hm, ht] <;> decide

theorem EngineKey.Fixed.isPgText {k : EngineKey} (h : k.Fixed) : isPgText k.text = true := by
  cases k with
  | orderReserve idempotencyKey => exact absurd rfl (h idempotencyKey)
  | orderCancel orderId =>
      rw [EngineKey.text, isPgText_append, orderId.isPgText]
      decide
  | trade tradeId key =>
      rw [EngineKey.text, isPgText_append, isPgText_append, tradeId.isPgText]
      cases key with
      | debit side => cases side <;> decide
      | release side => cases side <;> decide
      | enqueueRelease orderId =>
          rw [TradeKey.suffix, isPgText_append, orderId.isPgText]
          decide
      | retryReserve orderId =>
          rw [TradeKey.suffix, isPgText_append, orderId.isPgText]
          decide
  | credit marketId tradeId winningSide =>
      rw [EngineKey.text, isPgText_append, isPgText_append, isPgText_append, isPgText_append,
        marketId.isPgText, tradeId.isPgText]
      cases winningSide <;> decide

theorem EngineKey.Fixed.fits {k : EngineKey} (h : k.Fixed) : fitsVarchar 100 k.text = true :=
  fitsVarchar_of_le h.length_le h.isPgText

/-- **The stored text** of an engine key is that of an engine key. -/
theorem EngineKey.varchar_text (k : EngineKey) : varchar 100 k.text = k.stored.text := by
  cases k with
  | orderReserve idempotencyKey =>
      have hlead : "order-reserve:".toList.length = 14 := by decide
      apply String.toList_injective
      simp only [varchar, EngineKey.stored, EngineKey.text, String.toList_append,
        String.toList_ofList]
      rw [List.take_append, List.take_of_length_le (by rw [hlead]; omega), hlead]
  | orderCancel orderId => exact varchar_of_le (EngineKey.Fixed.length_le (by rintro _ ⟨⟩))
  | trade tradeId key => exact varchar_of_le (EngineKey.Fixed.length_le (by rintro _ ⟨⟩))
  | credit marketId tradeId winningSide =>
      exact varchar_of_le (EngineKey.Fixed.length_le (by rintro _ ⟨⟩))

end OutcomeExchange
