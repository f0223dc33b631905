import OutcomeExchange.Numbers.Binary64
import OutcomeExchange.OrdersService
import OutcomeExchange.Redis.Store

set_option autoImplicit false

/-! # The order book projection

`OrderBookProjectionService` keeps, in Redis, a sorted set of order identifiers for each
market and side, with the price as the score, and a hash for each order. `projectOpenOrder`
and `removeOpenOrder` are one `MULTI` each. `getOrderBook` is what the service reads when
nothing changes between its commands. -/

namespace OutcomeExchange

open Redis

/-! ## RedisKeyspaceService -/

def getOrderBookSideKey (keyPrefix : String) (marketId : UuidString) (side : OutcomeSide) : String :=
  keyPrefix ++ (":orderbook:" ++ (marketId.text ++ (":" ++ side.text)))

def getOrderHashKey (keyPrefix orderId : String) : String :=
  keyPrefix ++ (":orderbook:order:" ++ orderId)

theorem sideKey_injective {keyPrefix : String} {marketId marketId' : UuidString}
    {side side' : OutcomeSide}
    (h : getOrderBookSideKey keyPrefix marketId side = getOrderBookSideKey keyPrefix marketId' side') :
    marketId = marketId' ∧ side = side' := by
  simp only [getOrderBookSideKey, String.append_right_inj] at h
  obtain ⟨hmarket, htext⟩ := UuidString.append_inj h
  refine ⟨hmarket, ?_⟩
  cases side <;> cases side' <;> simp [OutcomeSide.text] at htext ⊢

theorem hashKey_injective {keyPrefix orderId orderId' : String}
    (h : getOrderHashKey keyPrefix orderId = getOrderHashKey keyPrefix orderId') :
    orderId = orderId' := by
  simpa only [getOrderHashKey, String.append_right_inj] using h

/-- The two kinds of keys have different lengths. -/
theorem sideKey_ne_hashKey (keyPrefix : String) (marketId : UuidString) (orderId : Uuid)
    (side : OutcomeSide) :
    getOrderBookSideKey keyPrefix marketId side ≠ getOrderHashKey keyPrefix orderId.text := by
  intro h
  have hlen := congrArg String.length h
  have hside : ":orderbook:".length = 11 := by decide
  have hhash : ":orderbook:order:".length = 17 := by decide
  have hcolon : ":".length = 1 := by decide
  have htext : side.text.length ≤ 3 := by cases side <;> decide
  simp only [getOrderBookSideKey, getOrderHashKey, String.length_append, Uuid.text_length,
    UuidString.text_length, hside, hhash, hcolon] at hlen
  omega

/-! ## Writing -/

/-- The fields of the hash of an order. -/
def hashFields (order : OrderEntity) : List (String × String) :=
  [ ("marketId", order.marketId.text)
  , ("side", order.row.side.text)
  , ("priceCents", toString order.row.priceCents)
  , ("quantity", toString order.row.quantity) ]

def projectCommands (keyPrefix : String) (order : OrderEntity) : List Command :=
  [ .zadd (getOrderBookSideKey keyPrefix order.marketId order.row.side) order.row.priceCents
      order.row.id.text
  , .hset (getOrderHashKey keyPrefix order.row.id.text) (hashFields order) ]

def removeCommands (keyPrefix : String) (order : Order) : List Command :=
  [ .zrem (getOrderBookSideKey keyPrefix order.marketId order.side) order.id.text
  , .del (getOrderHashKey keyPrefix order.id.text) ]

/-! ## The sets and hashes of the projection -/

/-- The sorted set of a market and side. -/
def sideSet (keyPrefix : String) (s : Store) (marketId : UuidString) (side : OutcomeSide) : List Entry :=
  s.zset (getOrderBookSideKey keyPrefix marketId side)

/-- The entry of an order in its sorted set. -/
def Order.entry (order : Order) : Entry := ⟨order.priceCents, order.id.text⟩

/-- The hash of the order holds its terms. -/
def HashShows (keyPrefix : String) (s : Store) (order : Order) : Prop :=
  ∀ f ∈ hashFields order, s.hget (getOrderHashKey keyPrefix order.id.text) f.1 = some f.2

/-- The order is in the sorted set of this market and side. -/
def Order.At (order : Order) (marketId : UuidString) (side : OutcomeSide) : Prop :=
  order.marketId = marketId ∧ order.side = side

/-- No key of the projection holds a value of another kind. -/
structure WellTyped (keyPrefix : String) (s : Store) : Prop where
  sides : ∀ marketId side, s.ForZSet (getOrderBookSideKey keyPrefix marketId side)
  hashes : ∀ orderId : Uuid, s.ForHash (getOrderHashKey keyPrefix orderId.text)

section Views

variable {keyPrefix : String} {s : Store} {order : Order}

/-- Only the spelling of its market makes an entity project otherwise than its row. -/
theorem projectCommands_of_spelled {entity : OrderEntity} (h : entity.marketId = entity.row.marketId) :
    projectCommands keyPrefix entity = projectCommands keyPrefix entity.row := by
  unfold projectCommands hashFields
  rw [h]
  rfl

theorem projectCommands_row : projectCommands keyPrefix order =
    [ .zadd (getOrderBookSideKey keyPrefix order.marketId order.side) order.priceCents order.id.text
    , .hset (getOrderHashKey keyPrefix order.id.text) (hashFields order) ] := rfl

theorem wellTyped_empty : WellTyped keyPrefix Store.empty where
  sides _ _ _ h := by cases h
  hashes _ _ h := by cases h

theorem WellTyped.project (h : WellTyped keyPrefix s) :
    WellTyped keyPrefix (s.multi (projectCommands keyPrefix order)) where
  sides marketId side := by
    intro v hv
    have hne := sideKey_ne_hashKey keyPrefix marketId order.id side
    rw [projectCommands_row, Store.multi, List.foldl_cons, List.foldl_cons, List.foldl_nil, Store.apply,
      Store.apply, Store.hset_of_ne hne] at hv
    exact (h.sides marketId side).zadd _ _ v hv
  hashes orderId := by
    refine Store.ForHash.hset ?_ _
    intro v hv
    have hne := (sideKey_ne_hashKey keyPrefix order.marketId orderId order.side).symm
    replace hv : s.zadd (getOrderBookSideKey keyPrefix order.marketId order.side) order.priceCents
      order.id.text (getOrderHashKey keyPrefix orderId.text) = some v := hv
    rw [Store.zadd_of_ne hne] at hv
    exact h.hashes orderId v hv

theorem WellTyped.remove (h : WellTyped keyPrefix s) :
    WellTyped keyPrefix (s.multi (removeCommands keyPrefix order)) where
  sides marketId side := by
    intro v hv
    have hne := sideKey_ne_hashKey keyPrefix marketId order.id side
    rw [removeCommands, Store.multi, List.foldl_cons, List.foldl_cons, List.foldl_nil, Store.apply,
      Store.apply, Store.del_of_ne hne] at hv
    exact (h.sides marketId side).zrem _ v hv
  hashes orderId := by
    refine Store.ForHash.del ?_
    intro v hv
    have hne := (sideKey_ne_hashKey keyPrefix order.marketId orderId order.side).symm
    rw [Store.apply, Store.zrem_of_ne hne] at hv
    exact h.hashes orderId v hv

theorem mem_sideSet_project (h : WellTyped keyPrefix s) {marketId : UuidString} {side : OutcomeSide}
    {e : Entry} : e ∈ sideSet keyPrefix (s.multi (projectCommands keyPrefix order)) marketId side ↔
      (e = order.entry ∧ order.At marketId side) ∨
        (e ∈ sideSet keyPrefix s marketId side ∧
          ¬ (order.At marketId side ∧ e.member = order.id.text)) := by
  have hset : sideSet keyPrefix (s.multi (projectCommands keyPrefix order)) marketId side =
      (s.zadd (getOrderBookSideKey keyPrefix order.marketId order.side) order.priceCents
        order.id.text).zset (getOrderBookSideKey keyPrefix marketId side) :=
    Store.zset_congr (Store.hset_of_ne (sideKey_ne_hashKey keyPrefix marketId order.id side) _)
  rw [hset]
  by_cases hat : order.At marketId side
  · obtain ⟨rfl, rfl⟩ := hat
    rw [Store.mem_zset_zadd (h.sides _ _)]
    simp [Order.At, Order.entry, sideSet]
  · have hne : getOrderBookSideKey keyPrefix marketId side ≠
        getOrderBookSideKey keyPrefix order.marketId order.side := by
      intro hkey
      obtain ⟨hm, hs⟩ := sideKey_injective hkey
      exact hat ⟨hm.symm, hs.symm⟩
    rw [Store.zset_congr (Store.zadd_of_ne hne _ _)]
    simp [hat, sideSet]

theorem mem_sideSet_remove {marketId : UuidString} {side : OutcomeSide} {e : Entry} :
    e ∈ sideSet keyPrefix (s.multi (removeCommands keyPrefix order)) marketId side ↔
      e ∈ sideSet keyPrefix s marketId side ∧
        ¬ (order.At marketId side ∧ e.member = order.id.text) := by
  have hset : sideSet keyPrefix (s.multi (removeCommands keyPrefix order)) marketId side =
      (s.zrem (getOrderBookSideKey keyPrefix order.marketId order.side) order.id.text).zset
        (getOrderBookSideKey keyPrefix marketId side) :=
    Store.zset_congr (Store.del_of_ne (sideKey_ne_hashKey keyPrefix marketId order.id side))
  rw [hset]
  by_cases hat : order.At marketId side
  · obtain ⟨rfl, rfl⟩ := hat
    rw [Store.mem_zset_zrem]
    simp [Order.At, sideSet]
  · have hne : getOrderBookSideKey keyPrefix marketId side ≠
        getOrderBookSideKey keyPrefix order.marketId order.side := by
      intro hkey
      obtain ⟨hm, hs⟩ := sideKey_injective hkey
      exact hat ⟨hm.symm, hs.symm⟩
    rw [Store.zset_congr (Store.zrem_of_ne hne _)]
    simp [hat, sideSet]

/-- Other hashes are left alone. -/
theorem project_hash_of_ne {orderId : Uuid} (hne : orderId ≠ order.id) :
    s.multi (projectCommands keyPrefix order) (getOrderHashKey keyPrefix orderId.text) =
      s (getOrderHashKey keyPrefix orderId.text) := by
  have hkey : getOrderHashKey keyPrefix orderId.text ≠
      getOrderHashKey keyPrefix order.id.text := fun h => hne (Uuid.ext_text (hashKey_injective h))
  have hside := (sideKey_ne_hashKey keyPrefix order.marketId orderId order.side).symm
  rw [projectCommands_row, Store.multi, List.foldl_cons, List.foldl_cons, List.foldl_nil, Store.apply,
    Store.apply, Store.hset_of_ne hkey, Store.zadd_of_ne hside]

theorem remove_hash_of_ne {orderId : Uuid} (hne : orderId ≠ order.id) :
    s.multi (removeCommands keyPrefix order) (getOrderHashKey keyPrefix orderId.text) =
      s (getOrderHashKey keyPrefix orderId.text) := by
  have hkey : getOrderHashKey keyPrefix orderId.text ≠
      getOrderHashKey keyPrefix order.id.text := fun h => hne (Uuid.ext_text (hashKey_injective h))
  have hside := (sideKey_ne_hashKey keyPrefix order.marketId orderId order.side).symm
  rw [removeCommands, Store.multi, List.foldl_cons, List.foldl_cons, List.foldl_nil, Store.apply,
    Store.apply, Store.del_of_ne hkey, Store.zrem_of_ne hside]

/-- The sorted sets of other markets are left alone. -/
theorem project_side_of_ne {marketId : UuidString} (hne : order.marketId ≠ marketId) (side : OutcomeSide) :
    s.multi (projectCommands keyPrefix order) (getOrderBookSideKey keyPrefix marketId side) =
      s (getOrderBookSideKey keyPrefix marketId side) := by
  have hkey : getOrderBookSideKey keyPrefix marketId side ≠
      getOrderBookSideKey keyPrefix order.marketId order.side :=
    fun h => hne (sideKey_injective h).1.symm
  have hhash := sideKey_ne_hashKey keyPrefix marketId order.id side
  rw [projectCommands_row, Store.multi, List.foldl_cons, List.foldl_cons, List.foldl_nil, Store.apply,
    Store.apply, Store.hset_of_ne hhash, Store.zadd_of_ne hkey]

theorem remove_side_of_ne {marketId : UuidString} (hne : order.marketId ≠ marketId) (side : OutcomeSide) :
    s.multi (removeCommands keyPrefix order) (getOrderBookSideKey keyPrefix marketId side) =
      s (getOrderBookSideKey keyPrefix marketId side) := by
  have hkey : getOrderBookSideKey keyPrefix marketId side ≠
      getOrderBookSideKey keyPrefix order.marketId order.side :=
    fun h => hne (sideKey_injective h).1.symm
  have hhash := sideKey_ne_hashKey keyPrefix marketId order.id side
  rw [removeCommands, Store.multi, List.foldl_cons, List.foldl_cons, List.foldl_nil, Store.apply,
    Store.apply, Store.del_of_ne hhash, Store.zrem_of_ne hkey]

/-- The hash of an order that has been projected. -/
theorem hashShows_project (h : WellTyped keyPrefix s) :
    HashShows keyPrefix (s.multi (projectCommands keyPrefix order)) order := by
  intro f hf
  have hhash : (s.zadd (getOrderBookSideKey keyPrefix order.marketId order.side) order.priceCents
      order.id.text).ForHash (getOrderHashKey keyPrefix order.id.text) := by
    intro v hv
    rw [Store.zadd_of_ne (sideKey_ne_hashKey keyPrefix order.marketId order.id order.side).symm] at hv
    exact h.hashes order.id v hv
  show ((s.zadd (getOrderBookSideKey keyPrefix order.marketId order.side) order.priceCents
    order.id.text).hset (getOrderHashKey keyPrefix order.id.text) (hashFields order)).hget
      (getOrderHashKey keyPrefix order.id.text) f.1 = some f.2
  rw [Store.hget_hset hhash]
  simp only [hashFields, Order.entity, List.mem_cons, List.not_mem_nil, or_false] at hf
  rcases hf with rfl | rfl | rfl | rfl <;>
    simp [setFields, hashFields, Order.entity, Function.update]

theorem HashShows.congr {t : Store} (h : HashShows keyPrefix s order)
    (hkey : t (getOrderHashKey keyPrefix order.id.text) = s (getOrderHashKey keyPrefix order.id.text)) :
    HashShows keyPrefix t order := by
  intro f hf
  rw [Store.hget_congr hkey]
  exact h f hf

/-- The status is no term of the order. -/
@[simp] theorem hashShows_withStatus {st : OrderStatus} :
    HashShows keyPrefix s (order.withStatus st) ↔ HashShows keyPrefix s order := Iff.rfl

@[simp] theorem Order.entry_withStatus (st : OrderStatus) : (order.withStatus st).entry = order.entry :=
  rfl

end Views

/-! ## Reading -/

structure OrderBookLevel where
  priceCents : JsNumber
  quantity : JsNumber
  deriving DecidableEq

structure OrderBookView where
  marketId : UuidString
  yes : List OrderBookLevel
  no : List OrderBookLevel
  deriving DecidableEq

/-- The number that stands for an integer, in a type where not every integer is one. -/
def JsNumber.nearest (n : ℤ) : JsNumber :=
  match Binary64.round n with
  | some m => .int m
  | none => .other

theorem JsNumber.nearest_of_le {n : ℤ} (hlow : -2 ^ 53 ≤ n) (hhigh : n ≤ 2 ^ 53) :
    JsNumber.nearest n = .int n := by
  rw [JsNumber.nearest, Binary64.round_of_le hlow hhigh]

/-- `parseInt(s, 10)`: white space, a sign, and as many digits as there are. -/
def parseInt (s : String) : JsNumber :=
  let digits (cs : List Char) : Option ℤ :=
    let ds := cs.takeWhile Char.isDigit
    if ds = [] then none else some (Nat.ofDigitChars 10 ds 0 : ℕ)
  let n :=
    match s.toList.dropWhile isJsSpace with
    | '-' :: cs => (digits cs).map fun n => -n
    | '+' :: cs => digits cs
    | cs => digits cs
  match n with
  | some n => .nearest n
  | none => .other

/-- `x <= 0`; no comparison with `NaN` is true. -/
def JsNumber.nonPositive : JsNumber → Bool
  | .int n => n ≤ 0
  | .other => false

def JsNumber.add : JsNumber → JsNumber → JsNumber
  | .int a, .int b => .nearest (a + b)
  | _, _ => .other

/-- `levels.set(priceCents, (levels.get(priceCents) ?? 0) + quantity)`, on a `Map` in the order
of its insertions. -/
def addLevel (priceCents quantity : JsNumber) : List OrderBookLevel → List OrderBookLevel
  | [] => [⟨priceCents, (JsNumber.int 0).add quantity⟩]
  | level :: levels =>
      if level.priceCents = priceCents then ⟨priceCents, level.quantity.add quantity⟩ :: levels
      else level :: addLevel priceCents quantity levels

/-- The replies to `HMGET … quantity priceCents`, one for each order, as they come in. -/
def collectLevels : List (Except String (List (Option String))) → List OrderBookLevel →
    List OrderBookLevel
  | [], levels => levels
  | .ok [quantityValue, priceValue] :: replies, levels =>
      let quantity := parseInt (quantityValue.getD "0")
      let priceCents := parseInt (priceValue.getD "0")
      if quantity.nonPositive || priceCents.nonPositive then collectLevels replies levels
      else collectLevels replies (addLevel priceCents quantity levels)
  | _ :: replies, levels => collectLevels replies levels

/-- The comparison `b.priceCents - a.priceCents`, where a `NaN` counts as equal. -/
def OrderBookLevel.before (a b : OrderBookLevel) : Bool :=
  match a.priceCents, b.priceCents with
  | .int x, .int y => y ≤ x
  | _, _ => true

/-- `buildLevels`, from the replies on. -/
def buildLevels (replies : List (Except String (List (Option String)))) : List OrderBookLevel :=
  (collectLevels replies []).insertionSort fun a b => a.before b = true

def levelFields : List String := ["quantity", "priceCents"]

/-- The levels of some orders. -/
def levelsOf (keyPrefix : String) (s : Store) (orderIds : List String) : List OrderBookLevel :=
  buildLevels (orderIds.map fun orderId => s.hmget (getOrderHashKey keyPrefix orderId) levelFields)

/-- The order book of a market. -/
def getOrderBook (keyPrefix : String) (s : Store) (marketId : UuidString) :
    Except String OrderBookView := do
  let yesIds ← s.zrevrange (getOrderBookSideKey keyPrefix marketId .YES)
  let noIds ← s.zrange (getOrderBookSideKey keyPrefix marketId .NO)
  return ⟨marketId, levelsOf keyPrefix s yesIds, levelsOf keyPrefix s noIds⟩

end OutcomeExchange
