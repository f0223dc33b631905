import OutcomeExchange.Redis.Scan
import OutcomeExchange.Runs
import OutcomeExchange.Services
import OutcomeExchange.Tally
import Mathlib.Data.List.TakeWhile

set_option autoImplicit false

/-! # Rebuilding the order book

`rebuildFromOpenOrders` deletes all keys of the projection, in a loop of `SCAN` and `DEL`, and
projects the open orders again. Whatever Redis held before, `getOrderBook` then shows one
level for each price among the open orders of a market and side (`IsBook`).

The quantity of a level is a sum of numbers of JavaScript, exact as long as it does not exceed
`2 ^ 53`; and it is the text of the market that the key is made of, so that the book is found
under the identifier as PostgreSQL writes it. -/

namespace OutcomeExchange

open Txn Redis

/-! ## The rebuild -/

def getOrderBookScanPattern (keyPrefix : String) : String := keyPrefix ++ ":orderbook:*"

/-- The loop of `deleteProjectionKeys`: the calls it makes for these replies, and what it
leaves. Without a reply it waits. -/
def deleteProjectionKeysFrom (keyPrefix cursor : String) :
    List ScanReply → Store → Option (List ScanCall × Store)
  | [], _ => none
  | reply :: replies, s =>
      let call : ScanCall := ⟨cursor, getOrderBookScanPattern keyPrefix, s, reply⟩
      let s := if reply.keys.length > 0 then s.delAll reply.keys else s
      if reply.cursor ≠ "0" then
        (deleteProjectionKeysFrom keyPrefix reply.cursor replies s).map fun (calls, t) =>
          (call :: calls, t)
      else some ([call], s)

def deleteProjectionKeys (keyPrefix : String) (replies : List ScanReply) (s : Store) :
    Option (List ScanCall × Store) :=
  deleteProjectionKeysFrom keyPrefix "0" replies s

def projectOpenOrder (keyPrefix : String) (s : Store) (order : Order) : Store :=
  if order.status ≠ .OPEN then s else s.multi (projectCommands keyPrefix order)

/-- This is what the method of the service does to a Redis that answers. -/
theorem run_projectOpenOrder (keyPrefix : String) (w : World) (order : Order) :
    (OrderBookProjectionService.projectOpenOrder order).run (machine keyPrefix) Infra.ok [] w =
      (.ok (), { w with redis := projectOpenOrder keyPrefix w.redis order }) := by
  unfold projectOpenOrder
  by_cases hopen : order.status = .OPEN
  · have hcode : OrderBookProjectionService.projectOpenOrder order =
        (ServiceOp.projectOpenOrder order).call :=
      OrderBookProjectionService.projectOpenOrder_of_open hopen
    rw [hcode, if_neg (not_not.mpr hopen)]
    rfl
  · have hcode : OrderBookProjectionService.projectOpenOrder order = pure () :=
      OrderBookProjectionService.projectOpenOrder_of_not_open hopen
    rw [hcode, if_pos hopen]
    rfl

/-- `openOrders` is what the query for the open orders has found. -/
def rebuildFromOpenOrders (keyPrefix : String) (openOrders : List Order)
    (replies : List ScanReply) (s : Store) : Option (List ScanCall × Store) :=
  (deleteProjectionKeys keyPrefix replies s).map fun (calls, s) =>
    (calls, openOrders.foldl (projectOpenOrder keyPrefix) s)

/-! ## What the order book should show -/

/-- The open orders of a market and side. -/
def ordersAt (orders : List Order) (marketId : Uuid) (side : OutcomeSide) : List Order :=
  orders.filter fun o => o.status = .OPEN && o.marketId = marketId && o.side = side

theorem nodup_orderIds (orders : Table Order) : (orders.rows.map Order.id).Nodup :=
  List.pairwise_map.mpr (orders.distinct.imp fun hclash heq => hclash (Or.inl heq))

/-- The price and the quantity of an order. -/
def Order.term (order : Order) : ℤ × ℤ := (order.priceCents, order.quantity)

/-- The sum of the quantities at a price. -/
def quantityAt (orders : List Order) (price : ℤ) : ℤ :=
  ((orders.filter fun o => o.priceCents = price).map Order.quantity).sum

/-- One level for each price that occurs among the orders, in strictly descending order, with
the sum of the quantities at that price if it is one that numbers can count to. -/
structure IsBook (orders : List Order) (levels : List OrderBookLevel) : Prop where
  prices : ∃ prices : List ℤ, levels.map OrderBookLevel.priceCents = prices.map JsNumber.int ∧
    (prices.Pairwise fun a b => b < a) ∧ ∀ price, price ∈ prices ↔ ∃ o ∈ orders, o.priceCents = price
  quantities : ∀ level ∈ levels, ∀ price, level.priceCents = .int price →
    quantityAt orders price ≤ 2 ^ 53 → level.quantity = .int (quantityAt orders price)

theorem quantityAt_perm {orders orders' : List Order} (hperm : orders.Perm orders') (price : ℤ) :
    quantityAt orders price = quantityAt orders' price := ((hperm.filter _).map _).sum_eq

theorem IsBook.perm {orders orders' : List Order} {levels : List OrderBookLevel}
    (h : IsBook orders levels) (hperm : orders.Perm orders') : IsBook orders' levels := by
  obtain ⟨prices, hlevels, hdescending, hmem⟩ := h.prices
  refine ⟨⟨prices, hlevels, hdescending, fun price => ?_⟩, fun level hlevel price hprice => ?_⟩
  · rw [hmem]
    simp only [hperm.mem_iff]
  · rw [← quantityAt_perm hperm]
    exact h.quantities level hlevel price hprice

/-! ## Deleting -/

/-- The key is one of the projection, `<prefix>:orderbook:*`. -/
def InProjection (keyPrefix key : String) : Prop :=
  ∃ rest, key = keyPrefix ++ (":orderbook:" ++ rest)

/-- The prefix has no character with a meaning in a pattern. -/
def PlainPrefix (keyPrefix : String) : Prop := ∀ c ∈ keyPrefix.toList, c ∉ globSpecials

theorem inProjection_sideKey (keyPrefix : String) (marketId : UuidString) (side : OutcomeSide) :
    InProjection keyPrefix (getOrderBookSideKey keyPrefix marketId side) :=
  ⟨marketId.text ++ (":" ++ side.text), rfl⟩

theorem inProjection_hashKey (keyPrefix orderId : String) :
    InProjection keyPrefix (getOrderHashKey keyPrefix orderId) := by
  refine ⟨"order:" ++ orderId, ?_⟩
  rw [getOrderHashKey, show ":orderbook:order:" = ":orderbook:" ++ "order:" from rfl,
    String.append_assoc]

theorem globMatches_scanPattern {keyPrefix : String} (h : PlainPrefix keyPrefix) {key : String} :
    globMatches (getOrderBookScanPattern keyPrefix) key = true ↔ InProjection keyPrefix key := by
  have hplain : ∀ c ∈ (keyPrefix ++ ":orderbook:").toList, c ∉ globSpecials := by
    intro c hc
    rw [String.toList_append, List.mem_append] at hc
    rcases hc with hc | hc
    · exact h c hc
    · simp only [String.reduceToList, List.mem_cons, List.not_mem_nil, or_false] at hc
      simp only [globSpecials, List.mem_cons, List.not_mem_nil, or_false]
      rcases hc with rfl | rfl | rfl | rfl | rfl | rfl | rfl | rfl | rfl | rfl | rfl <;> simp
  rw [getOrderBookScanPattern, show ":orderbook:*" = ":orderbook:" ++ "*" from rfl,
    ← String.append_assoc, globMatches_star hplain]
  simp only [InProjection, String.append_assoc]

section Delete

variable {keyPrefix cursor : String} {replies : List ScanReply} {s t : Store}

/-- The loop makes the calls of one cycle, and ends with it. -/
theorem deleteProjectionKeysFrom_sweeps (h : ∃ reply ∈ replies, reply.cursor = "0") :
    ∃ calls t, deleteProjectionKeysFrom keyPrefix cursor replies s = some (calls, t) ∧
      CycleFrom cursor calls ∧ Sweeps s calls t ∧
      ∀ call ∈ calls, call.pattern = getOrderBookScanPattern keyPrefix := by
  -- by induction on the replies; the cycle ends at the first cursor 0
  induction replies generalizing cursor s with
  | nil =>
      obtain ⟨reply, hmem, -⟩ := h
      cases hmem
  | cons reply replies ih =>
      -- deleting no key is what the loop skips
      have hdel : (if reply.keys.length > 0 then s.delAll reply.keys else s) =
          s.delAll reply.keys := by
        split
        · rfl
        · rename_i hlen
          have hnil : reply.keys = [] := List.length_eq_zero_iff.mp (by omega)
          rw [hnil]
          rfl
      rw [deleteProjectionKeysFrom]
      simp only [hdel]
      by_cases hlast : reply.cursor = "0"
      · rw [if_neg (not_not.mpr hlast)]
        refine ⟨_, _, rfl, ⟨rfl, Or.inl ⟨hlast, rfl⟩⟩, ⟨rfl, rfl⟩, ?_⟩
        intro call hmem
        rw [List.mem_singleton.mp hmem]
      · obtain ⟨reply', hmem, hzero⟩ := h
        have hlater : reply' ∈ replies := by
          rcases List.mem_cons.mp hmem with rfl | hmem
          · exact absurd hzero hlast
          · exact hmem
        obtain ⟨calls, t, heq, hcycle, hsweeps, hpattern⟩ :=
          @ih reply.cursor (s.delAll reply.keys) ⟨reply', hlater, hzero⟩
        rw [if_pos hlast, heq]
        refine ⟨_, _, rfl, ⟨rfl, Or.inr ⟨hlast, hcycle⟩⟩, ⟨rfl, hsweeps⟩, ?_⟩
        intro call hmem
        rcases List.mem_cons.mp hmem with rfl | hmem
        · rfl
        · exact hpattern call hmem

end Delete

/-! ## Projecting -/

/-- The projection shows these orders, and no others. -/
structure ShowsExactly (keyPrefix : String) (orders : List Order) (s : Store) : Prop where
  typed : WellTyped keyPrefix s
  sets : ∀ marketId side e, e ∈ sideSet keyPrefix s marketId side ↔
    ∃ o ∈ orders, o.At marketId side ∧ e = o.entry
  hashes : ∀ o ∈ orders, HashShows keyPrefix s o

section Project

variable {keyPrefix : String} {orders : List Order} {s : Store}

theorem showsExactly_nil (h : ∀ key, InProjection keyPrefix key → s key = none) :
    ShowsExactly keyPrefix [] s where
  typed := {
    sides := by
      intro marketId side v hv
      rw [h _ (inProjection_sideKey keyPrefix marketId side)] at hv
      cases hv
    hashes := by
      intro orderId v hv
      rw [h _ (inProjection_hashKey keyPrefix orderId.text)] at hv
      cases hv }
  sets marketId side e := by
    rw [sideSet, Store.zset, h _ (inProjection_sideKey keyPrefix marketId side)]
    simp
  hashes o ho := by cases ho

/-- **The step lemma.** -/
theorem ShowsExactly.project (h : ShowsExactly keyPrefix orders s) {order : Order}
    (hopen : order.status = .OPEN) (hnew : ∀ o ∈ orders, o.id ≠ order.id) :
    ShowsExactly keyPrefix (orders ++ [order]) (projectOpenOrder keyPrefix s order) := by
  rw [projectOpenOrder, if_neg (not_not.mpr hopen)]
  constructor
  · exact h.typed.project
  · intro marketId side e
    rw [mem_sideSet_project h.typed, h.sets]
    constructor
    · rintro (⟨rfl, hat⟩ | ⟨⟨o, ho, hat, rfl⟩, -⟩)
      · exact ⟨order, List.mem_append_right _ (List.mem_singleton_self _), hat, rfl⟩
      · exact ⟨o, List.mem_append_left _ ho, hat, rfl⟩
    · rintro ⟨o, ho, hat, rfl⟩
      rcases List.mem_append.mp ho with ho | ho
      · refine Or.inr ⟨⟨o, ho, hat, rfl⟩, ?_⟩
        rintro ⟨-, hmember⟩
        exact hnew o ho (Uuid.ext_text hmember)
      · rw [List.mem_singleton.mp ho] at hat ⊢
        exact Or.inl ⟨rfl, hat⟩
  · intro o ho
    rcases List.mem_append.mp ho with ho | ho
    · exact (h.hashes o ho).congr (project_hash_of_ne (hnew o ho))
    · rw [List.mem_singleton.mp ho]
      exact hashShows_project h.typed

/-- **The run lemma.** -/
theorem ShowsExactly.foldl (h : ShowsExactly keyPrefix orders s) {more : List Order}
    (hopen : ∀ o ∈ more, o.status = .OPEN)
    (hdistinct : ((orders ++ more).map Order.id).Nodup) :
    ShowsExactly keyPrefix (orders ++ more) (more.foldl (projectOpenOrder keyPrefix) s) := by
  induction more generalizing orders s with
  | nil =>
      rw [List.append_nil]
      exact h
  | cons order more ih =>
      rw [List.append_cons] at hdistinct ⊢
      have hnew : ∀ o ∈ orders, o.id ≠ order.id := by
        intro o ho
        rw [List.map_append, List.map_append, List.append_assoc] at hdistinct
        exact (List.nodup_append.mp hdistinct).2.2 o.id (List.mem_map_of_mem ho) order.id
          (List.mem_append_left _ (List.mem_singleton_self _))
      exact ih (h.project (hopen order (List.mem_cons_self ..)) hnew)
        (fun o ho => hopen o (List.mem_cons_of_mem _ ho)) hdistinct

/-- Projecting leaves the other keys alone. -/
theorem projectOpenOrder_of_not_in {key : String} (h : ¬ InProjection keyPrefix key)
    (order : Order) : projectOpenOrder keyPrefix s order key = s key := by
  unfold projectOpenOrder
  split
  · rfl
  · have hside : key ≠ getOrderBookSideKey keyPrefix order.marketId order.side := by
      rintro rfl
      exact h (inProjection_sideKey ..)
    have hhash : key ≠ getOrderHashKey keyPrefix order.id.text := by
      rintro rfl
      exact h (inProjection_hashKey ..)
    rw [projectCommands_row, Store.multi, List.foldl_cons, List.foldl_cons, List.foldl_nil,
      Store.apply, Store.apply, Store.hset_of_ne hhash, Store.zadd_of_ne hside]

theorem foldl_projectOpenOrder_of_not_in {key : String} (h : ¬ InProjection keyPrefix key)
    (more : List Order) : more.foldl (projectOpenOrder keyPrefix) s key = s key := by
  induction more generalizing s with
  | nil => rfl
  | cons order more ih => rw [List.foldl_cons, ih, projectOpenOrder_of_not_in h]

end Project

/-! ## Numbers as text -/

/-- A number that Redis has stored as text is read back. -/
theorem parseInt_toString {n : ℤ} (h : 0 ≤ n) (hmax : n ≤ 2 ^ 53) :
    parseInt (toString n) = .int n := by
  have hnearest : JsNumber.nearest n = .int n := JsNumber.nearest_of_le (by omega) hmax
  obtain ⟨k, rfl⟩ := Int.eq_ofNat_of_zero_le h
  have hdigit : ∀ c ∈ Nat.toDigits 10 k, c.isDigit = true := fun c hc =>
    Nat.isDigit_of_mem_toDigits (by decide) (by decide) hc
  have htext : (toString (k : ℤ)).toList = Nat.toDigits 10 k := Nat.toList_repr
  have hvalue : Nat.ofDigitChars 10 (Nat.toDigits 10 k) 0 = k := Nat.ofDigitChars_ten_toDigits
  unfold parseInt
  rw [htext]
  cases hdigits : Nat.toDigits 10 k with
  | nil => exact absurd hdigits Nat.toDigits_ne_nil
  | cons c cs =>
      rw [hdigits] at hdigit hvalue
      have hc := Char.isDigit_iff_toNat.mp (hdigit c (List.mem_cons_self ..))
      have h0 : '0'.toNat = 48 := rfl
      have h9 : '9'.toNat = 57 := rfl
      have hspace : isJsSpace c = false := isJsSpace_of_ascii
        (show 33 ≤ c.toNat by omega) (show c.toNat ≤ 126 by omega)
      have htake : (c :: cs).takeWhile Char.isDigit = c :: cs := by
        rw [List.takeWhile_eq_self_iff]
        exact hdigit
      -- the text begins with a digit: there is no white space and no sign
      rw [List.dropWhile_cons_of_neg (by simp [hspace])]
      dsimp only
      split
      · rename_i n hn
        split at hn
        · rename_i heq
          cases heq
          exact absurd hc (by decide)
        · rename_i heq
          cases heq
          exact absurd hc (by decide)
        · rw [htake, if_neg (List.cons_ne_nil c cs), hvalue] at hn
          cases hn
          exact hnearest
      · rename_i hn
        split at hn
        · rename_i heq
          cases heq
          exact absurd hc (by decide)
        · rename_i heq
          cases heq
          exact absurd hc (by decide)
        · rw [htake, if_neg (List.cons_ne_nil c cs)] at hn
          cases hn

/-! ## The levels -/

/-- The reply to `HMGET` for an order with this price and quantity. -/
def replyOf (term : ℤ × ℤ) : Except String (List (Option String)) :=
  .ok [some (toString term.2), some (toString term.1)]

/-- The level has the price of the entry, and its quantity if that is one that numbers can count
to. -/
structure Renders (entry : ℤ × ℤ) (level : OrderBookLevel) : Prop where
  price : level.priceCents = .int entry.1
  positive : 0 < entry.2
  quantity : entry.2 ≤ 2 ^ 53 → level.quantity = .int entry.2

/-- **The step lemma**: the partial sums of a sum of positive numbers are exact if the sum is. -/
theorem addLevel_renders {price quantity : ℤ} (hpos : 0 < quantity) (hmax : quantity ≤ 2 ^ 53)
    {entries : List (ℤ × ℤ)} {levels : List OrderBookLevel}
    (h : List.Forall₂ Renders entries levels) :
    List.Forall₂ Renders (Tally.add price quantity entries)
      (addLevel (.int price) (.int quantity) levels) := by
  induction h with
  | nil =>
      refine .cons ⟨rfl, hpos, fun _ => ?_⟩ .nil
      show JsNumber.nearest (0 + quantity) = .int quantity
      rw [Int.zero_add]
      exact JsNumber.nearest_of_le (by omega) hmax
  | @cons entry level entries levels hhead hrest ih =>
      have hiff : level.priceCents = .int price ↔ entry.1 = price := by
        rw [hhead.price, JsNumber.int.injEq]
      unfold Tally.add addLevel
      by_cases hprice : entry.1 = price
      · rw [if_pos hprice, if_pos (hiff.mpr hprice)]
        have hold := hhead.positive
        refine .cons ⟨rfl, by dsimp only; omega, fun hsum => ?_⟩ hrest
        have hexact : level.quantity = .int entry.2 := hhead.quantity (by dsimp only at hsum; omega)
        show level.quantity.add (.int quantity) = _
        rw [hexact]
        exact JsNumber.nearest_of_le (by omega) hsum
      · rw [if_neg hprice, if_neg (mt hiff.mp hprice)]
        exact .cons hhead ih

/-- The price and the quantity are positive, and numbers can count to them. -/
def Countable (term : ℤ × ℤ) : Prop := (0 < term.1 ∧ term.1 ≤ 2 ^ 53) ∧ 0 < term.2 ∧ term.2 ≤ 2 ^ 53

theorem countable_of_columns {o : Order} (h : orderColumns o = true) : Countable o.term := by
  simp only [orderColumns, fitsInt4, Bool.and_eq_true, decide_eq_true_eq] at h
  simp only [Countable, Order.term]
  omega

/-- One more reply, with the term of an order. -/
theorem collectLevels_cons {term : ℤ × ℤ} (h : Countable term)
    (replies : List (Except String (List (Option String)))) (levels : List OrderBookLevel) :
    collectLevels (replyOf term :: replies) levels =
      collectLevels replies (addLevel (.int term.1) (.int term.2) levels) := by
  obtain ⟨⟨hprice, hprice'⟩, hquantity, hquantity'⟩ := h
  have hp : parseInt (toString term.1) = .int term.1 :=
    parseInt_toString (le_of_lt hprice) hprice'
  have hq : parseInt (toString term.2) = .int term.2 :=
    parseInt_toString (le_of_lt hquantity) hquantity'
  rw [replyOf, collectLevels, Option.getD_some, Option.getD_some, hp, hq]
  rw [if_neg]
  simp only [JsNumber.nonPositive, Bool.or_eq_true, decide_eq_true_eq, not_or]
  omega

/-- **The run lemma**: the levels add up the terms of the orders. -/
theorem collectLevels_replies {terms : List (ℤ × ℤ)} (hterms : ∀ term ∈ terms, Countable term)
    {entries : List (ℤ × ℤ)} {levels : List OrderBookLevel}
    (h : List.Forall₂ Renders entries levels) :
    List.Forall₂ Renders (terms.foldl (fun es t => Tally.add t.1 t.2 es) entries)
      (collectLevels (terms.map replyOf) levels) := by
  induction terms generalizing entries levels with
  | nil => exact h
  | cons term terms ih =>
      obtain ⟨hhead, hrest⟩ := List.forall_mem_cons.mp hterms
      rw [List.map_cons, collectLevels_cons hhead, List.foldl_cons]
      exact ih hrest (addLevel_renders hhead.2.1 hhead.2.2 h)

theorem total_term (orders : List Order) (price : ℤ) :
    Tally.total price (orders.map Order.term) = quantityAt orders price := by
  rw [Tally.total, List.filter_map, List.map_map]
  rfl

/-- By descending price. -/
def byPrice (a b : ℤ × ℤ) : Prop := b.1 ≤ a.1

instance : DecidableRel byPrice := fun a b => inferInstanceAs (Decidable (b.1 ≤ a.1))

instance : Std.Total byPrice where
  total a b := by
    unfold byPrice
    omega

instance : IsTrans (ℤ × ℤ) byPrice where
  trans a b c := by
    unfold byPrice
    omega

/-- Sorting entries with distinct prices. -/
theorem insertionSort_descending {entries : List (ℤ × ℤ)}
    (h : (entries.map Prod.fst).Nodup) :
    (entries.insertionSort byPrice).Pairwise fun a b => b.1 < a.1 := by
  have hsorted := List.pairwise_insertionSort byPrice entries
  have hdistinct : ((entries.insertionSort byPrice).map Prod.fst).Nodup :=
    ((List.perm_insertionSort byPrice entries).map _).nodup_iff.mpr h
  refine (hsorted.and (List.pairwise_map.mp hdistinct)).imp ?_
  rintro a b ⟨hle, hne⟩
  unfold byPrice at hle
  omega

/-- Sorting the levels sorts the entries that they render. -/
theorem sorted_renders {entries : List (ℤ × ℤ)} {levels : List OrderBookLevel}
    (h : List.Forall₂ Renders entries levels) :
    ∃ sorted : List ((ℤ × ℤ) × OrderBookLevel),
      sorted.map Prod.fst = entries.insertionSort byPrice ∧
      (sorted.map Prod.snd = levels.insertionSort fun a b => a.before b = true) ∧
      ∀ z ∈ sorted, Renders z.1 z.2 := by
  obtain ⟨hlength, hrenders⟩ := List.forall₂_iff_zip.mp h
  have hpair : ∀ z ∈ entries.zip levels, Renders z.1 z.2 := fun z hz => hrenders hz
  refine ⟨(entries.zip levels).insertionSort fun a b => byPrice a.1 b.1, ?_, ?_, fun z hz => ?_⟩
  · rw [List.map_insertionSort _ byPrice Prod.fst _ fun _ _ _ _ => Iff.rfl,
      List.map_fst_zip (le_of_eq hlength)]
  · rw [List.map_insertionSort _ (fun a b => OrderBookLevel.before a b = true) Prod.snd,
      List.map_snd_zip (le_of_eq hlength.symm)]
    intro a ha b hb
    rw [OrderBookLevel.before, (hpair a ha).price, (hpair b hb).price]
    simp [byPrice]
  · exact hpair z ((List.perm_insertionSort _ _).mem_iff.mp hz)

/-- The levels of some orders, in whatever order Redis lists them. -/
theorem isBook_buildLevels {orders : List Order} {terms : List (ℤ × ℤ)}
    (hterms : terms.Perm (orders.map Order.term)) (hcount : ∀ o ∈ orders, Countable o.term) :
    IsBook orders (buildLevels (terms.map replyOf)) := by
  have hcount' : ∀ term ∈ terms, Countable term := by
    intro term hterm
    obtain ⟨o, ho, rfl⟩ := List.mem_map.mp (hterms.mem_iff.mp hterm)
    exact hcount o ho
  -- the levels are the tally of the replies, whose total at a price is that of the orders
  have htally := Tally.tallies_nil.foldl terms
  rw [List.nil_append] at htally
  have hcollect := collectLevels_replies hcount' .nil
  generalize terms.foldl (fun es t => Tally.add t.1 t.2 es) [] = entries at htally hcollect
  have hbook := htally.perm hterms (List.perm_insertionSort byPrice entries).symm
  obtain ⟨sorted, hentries, hlevels, hrenders⟩ := sorted_renders hcollect
  rw [← hentries] at hbook
  rw [buildLevels, ← hlevels]
  constructor
  · refine ⟨(entries.insertionSort byPrice).map Prod.fst, ?_,
      List.pairwise_map.mpr (insertionSort_descending htally.distinct), fun price => ?_⟩
    · rw [← hentries, List.map_map, List.map_map, List.map_map]
      exact List.map_congr_left fun z hz => (hrenders z hz).price
    · rw [← hentries, hbook.keys, List.map_map]
      simp [Order.term]
  · intro level hlevel price hprice hfits
    obtain ⟨z, hz, rfl⟩ := List.mem_map.mp hlevel
    have hkey : z.1.1 = price := by
      rw [(hrenders z hz).price, JsNumber.int.injEq] at hprice
      exact hprice
    have htotal := ((hbook.mem_iff z.1.1 z.1.2).mp (List.mem_map_of_mem hz)).2
    rw [total_term, hkey] at htotal
    rw [← htotal] at hfits ⊢
    exact (hrenders z hz).quantity hfits

/-! ## Reading -/

section Read

variable {keyPrefix : String} {orders : List Order} {s : Store}

theorem hmget_of_hashShows {order : Order} (h : HashShows keyPrefix s order) :
    s.hmget (getOrderHashKey keyPrefix order.id.text) levelFields = replyOf order.term := by
  have hquantity : s.hget (getOrderHashKey keyPrefix order.id.text) "quantity" =
      some (toString order.quantity) := h ("quantity", _) (by simp [hashFields, Order.entity])
  have hprice : s.hget (getOrderHashKey keyPrefix order.id.text) "priceCents" =
      some (toString order.priceCents) := h ("priceCents", _) (by simp [hashFields, Order.entity])
  unfold Store.hget at hquantity hprice
  unfold Store.hmget
  split at hquantity
  · rename_i fields hkey
    rw [hkey] at hprice ⊢
    show Except.ok [fields "quantity", fields "priceCents"] = replyOf order.term
    rw [hquantity, show fields "priceCents" = some (toString order.priceCents) from hprice]
    rfl
  · cases hquantity

theorem levelsOf_orders (h : ∀ o ∈ orders, HashShows keyPrefix s o) :
    levelsOf keyPrefix s (orders.map fun o => o.id.text) =
      buildLevels ((orders.map Order.term).map replyOf) := by
  rw [levelsOf, List.map_map, List.map_map]
  congr 1
  exact List.map_congr_left fun o ho => hmget_of_hashShows (h o ho)

/-- What a permutation of images is an image of. -/
theorem exists_of_perm_map {α β : Type} {f : α → β} {l : List α} {images : List β}
    (h : images.Perm (l.map f)) : ∃ l' : List α, l'.Perm l ∧ images = l'.map f := by
  generalize hmap : l.map f = target at h
  induction h generalizing l with
  | nil => exact ⟨l, List.Perm.refl l, hmap.symm⟩
  | cons x _ ih =>
      obtain ⟨a, rest, rfl, rfl, hrest⟩ := List.map_eq_cons_iff.mp hmap
      obtain ⟨l', hperm, rfl⟩ := ih hrest
      exact ⟨a :: l', hperm.cons a, rfl⟩
  | swap x y _ =>
      obtain ⟨a, rest, rfl, rfl, hrest⟩ := List.map_eq_cons_iff.mp hmap
      obtain ⟨b, rest, rfl, rfl, rfl⟩ := List.map_eq_cons_iff.mp hrest
      exact ⟨b :: a :: rest, List.Perm.swap .., rfl⟩
  | trans _ _ ih ih' =>
      obtain ⟨l', hperm, rfl⟩ := ih' hmap
      obtain ⟨l'', hperm', rfl⟩ := ih rfl
      exact ⟨l'', hperm'.trans hperm, rfl⟩

/-- The open orders whose row spells the market so. -/
def listedAt (orders : List Order) (marketId : UuidString) (side : OutcomeSide) : List Order :=
  orders.filter fun o => o.status = .OPEN && (o.marketId : UuidString) = marketId && o.side = side

theorem listedAt_uuid (marketId : Uuid) (side : OutcomeSide) :
    listedAt orders marketId side = ordersAt orders marketId side := by
  unfold listedAt ordersAt
  refine List.filter_congr fun o _ => ?_
  have hiff : o.marketId.string = marketId.string ↔ o.marketId = marketId :=
    ⟨Uuid.string_injective, congrArg Uuid.string⟩
  simp only [hiff]

/-- No row spells a market otherwise than PostgreSQL writes it. -/
theorem listedAt_of_not_canonical {marketId : UuidString} (h : ¬ marketId.Canonical)
    (side : OutcomeSide) : listedAt orders marketId side = [] := by
  refine List.filter_eq_nil_iff.mpr fun o _ hlisted => ?_
  simp only [Bool.and_eq_true, decide_eq_true_eq] at hlisted
  rw [← hlisted.1.2] at h
  exact h o.marketId.canonical_string

/-- The sorted set of a market and side lists its orders. -/
theorem ShowsExactly.members (h : ShowsExactly keyPrefix orders s)
    (hopen : ∀ o ∈ orders, o.status = .OPEN) (hdistinct : (orders.map Order.id).Nodup)
    (marketId : UuidString) (side : OutcomeSide) :
    ∃ listed : List Order, listed.Perm (listedAt orders marketId side) ∧
      sideSet keyPrefix s marketId side = listed.map Order.entry := by
  have hentries : ((listedAt orders marketId side).map Order.entry).Nodup := by
    have hids : ((listedAt orders marketId side).map Order.id).Nodup :=
      hdistinct.sublist (List.filter_sublist.map _)
    refine List.pairwise_map.mpr ((List.pairwise_map.mp hids).imp ?_)
    intro a b hne heq
    exact hne (Uuid.ext_text (congrArg Entry.member heq))
  have hperm : (sideSet keyPrefix s marketId side).Perm
      ((listedAt orders marketId side).map Order.entry) := by
    refine (List.perm_ext_iff_of_nodup (Store.zset_nodup ..) hentries).mpr ?_
    intro e
    show e ∈ sideSet keyPrefix s marketId side ↔ _
    rw [h.sets, List.mem_map]
    constructor
    · rintro ⟨o, ho, ⟨hmarket, hside⟩, rfl⟩
      exact ⟨o, by simp [listedAt, ho, hopen o ho, hmarket, hside], rfl⟩
    · rintro ⟨o, ho, rfl⟩
      simp only [listedAt, List.mem_filter, Bool.and_eq_true, decide_eq_true_eq] at ho
      exact ⟨o, ho.1, ⟨ho.2.1.2, ho.2.2⟩, rfl⟩
  exact exists_of_perm_map hperm

/-- What `getOrderBook` makes its levels of. -/
theorem ShowsExactly.getOrderBook_levels (h : ShowsExactly keyPrefix orders s)
    (hopen : ∀ o ∈ orders, o.status = .OPEN) (hdistinct : (orders.map Order.id).Nodup)
    (marketId : UuidString) :
    ∃ (view : OrderBookView) (yes no : List (ℤ × ℤ)),
      getOrderBook keyPrefix s marketId = .ok view ∧ view.marketId = marketId ∧
      yes.Perm ((listedAt orders marketId .YES).map Order.term) ∧
      no.Perm ((listedAt orders marketId .NO).map Order.term) ∧
      view.yes = buildLevels (yes.map replyOf) ∧ view.no = buildLevels (no.map replyOf) := by
  have hlevels : ∀ {side} {listed : List Order}, listed.Perm (listedAt orders marketId side) →
      levelsOf keyPrefix s (listed.map fun o => o.id.text) =
        buildLevels ((listed.map Order.term).map replyOf) := fun hperm =>
    levelsOf_orders fun o ho =>
      h.hashes o (List.mem_filter.mp (hperm.mem_iff.mp ho)).1
  have hmembers : ∀ listed : List Order,
      (listed.map Order.entry).map Entry.member = listed.map fun o => o.id.text := by
    intro listed
    rw [List.map_map]
    rfl
  obtain ⟨yes, hyes, hyesSet⟩ := h.members hopen hdistinct marketId .YES
  obtain ⟨no, hno, hnoSet⟩ := h.members hopen hdistinct marketId .NO
  have hyesIds : s.zrevrange (getOrderBookSideKey keyPrefix marketId .YES) =
      .ok (yes.reverse.map fun o => o.id.text) := by
    rw [Store.zrevrange, Store.zrange_of_forZSet (h.typed.sides marketId .YES),
      show s.zset _ = _ from hyesSet, hmembers, List.map_reverse]
    rfl
  have hnoIds : s.zrange (getOrderBookSideKey keyPrefix marketId .NO) =
      .ok (no.map fun o => o.id.text) := by
    rw [Store.zrange_of_forZSet (h.typed.sides marketId .NO), show s.zset _ = _ from hnoSet,
      hmembers]
  -- the YES side is read from the highest score down
  have hyes' := yes.reverse_perm.trans hyes
  rw [OutcomeExchange.getOrderBook, hyesIds, hnoIds]
  exact ⟨_, _, _, rfl, rfl, hyes'.map _, hno.map _, hlevels hyes', hlevels hno⟩

/-- **The order book of a projection that shows these orders.** -/
theorem ShowsExactly.getOrderBook (h : ShowsExactly keyPrefix orders s)
    (hopen : ∀ o ∈ orders, o.status = .OPEN) (hdistinct : (orders.map Order.id).Nodup)
    (hcount : ∀ o ∈ orders, Countable o.term) (marketId : Uuid) :
    ∃ view, getOrderBook keyPrefix s marketId = .ok view ∧ view.marketId = marketId ∧
      IsBook (ordersAt orders marketId .YES) view.yes ∧
      IsBook (ordersAt orders marketId .NO) view.no := by
  obtain ⟨view, yes, no, hview, hid, hyes, hno, hyesLevels, hnoLevels⟩ :=
    h.getOrderBook_levels hopen hdistinct marketId
  rw [listedAt_uuid] at hyes hno
  have hat : ∀ side, ∀ o ∈ ordersAt orders marketId side, Countable o.term :=
    fun side o ho => hcount o (List.mem_filter.mp ho).1
  refine ⟨view, hview, hid, ?_, ?_⟩
  · rw [hyesLevels]
    exact isBook_buildLevels hyes (hat .YES)
  · rw [hnoLevels]
    exact isBook_buildLevels hno (hat .NO)

/-- Under another spelling of the market there is no book. -/
theorem ShowsExactly.getOrderBook_of_not_canonical (h : ShowsExactly keyPrefix orders s)
    (hopen : ∀ o ∈ orders, o.status = .OPEN) (hdistinct : (orders.map Order.id).Nodup)
    {marketId : UuidString} (hspelled : ¬ marketId.Canonical) :
    OutcomeExchange.getOrderBook keyPrefix s marketId = .ok ⟨marketId, [], []⟩ := by
  obtain ⟨view, yes, no, hview, hid, hyes, hno, hyesLevels, hnoLevels⟩ :=
    h.getOrderBook_levels hopen hdistinct marketId
  rw [listedAt_of_not_canonical hspelled, List.map_nil, List.perm_nil] at hyes hno
  rw [hyes] at hyesLevels
  rw [hno] at hnoLevels
  cases view with
  | mk marketId' yesLevels noLevels =>
      have hempty : yesLevels = [] ∧ noLevels = [] := ⟨hyesLevels, hnoLevels⟩
      have hmarket : marketId' = marketId := hid
      rw [hview, hempty.1, hempty.2, hmarket]

end Read

/-! ## Rebuilding and reading -/

section Rebuild

variable {keyPrefix : String} {replies : List ScanReply} {s : Store}

/-- After the rebuild the projection shows the open orders, and the other keys are as before. -/
theorem rebuild_showsExactly (hplain : PlainPrefix keyPrefix) {orders : List Order}
    (hopen : ∀ o ∈ orders, o.status = .OPEN) (hdistinct : (orders.map Order.id).Nodup)
    (hends : ∃ reply ∈ replies, reply.cursor = "0") :
    ∃ calls t, rebuildFromOpenOrders keyPrefix orders replies s = some (calls, t) ∧
      (Promised calls → ShowsExactly keyPrefix orders t ∧
        ∀ key, ¬ InProjection keyPrefix key → t key = s key) := by
  obtain ⟨calls, cleared, hdeletes, hchain, hsweeps, hpattern⟩ :
      ∃ calls t, deleteProjectionKeys keyPrefix replies s = some (calls, t) ∧
        CycleFrom "0" calls ∧ Sweeps s calls t ∧
        ∀ call ∈ calls, call.pattern = getOrderBookScanPattern keyPrefix :=
    deleteProjectionKeysFrom_sweeps hends
  refine ⟨calls, orders.foldl (projectOpenOrder keyPrefix) cleared, ?_, ?_⟩
  · rw [rebuildFromOpenOrders, hdeletes]
    rfl
  intro hpromised
  have hempty : ∀ key, InProjection keyPrefix key → cleared key = none := fun key hkey =>
    hsweeps.clears hpromised ⟨hchain, hpattern⟩ ((globMatches_scanPattern hplain).mpr hkey)
  constructor
  · have hshows := (showsExactly_nil hempty).foldl hopen (by simpa using hdistinct)
    rwa [List.nil_append] at hshows
  · intro key hkey
    rw [foldl_projectOpenOrder_of_not_in hkey]
    refine hsweeps.leaves hpromised hpattern ?_
    rw [← Bool.not_eq_true, globMatches_scanPattern hplain]
    exact hkey

end Rebuild

/-- **Rebuilding and reading**: whatever Redis held before, the rebuild ends with the cycle
of its `SCAN`s, leaves all other keys as they are, and then every order book shows one level
for each price among the open orders of its market and side. -/
theorem rebuild_and_read (keyPrefix : String) (hplain : PlainPrefix keyPrefix)
    (orders : Table Order) (hcolumns : ∀ o ∈ orders.rows, orderColumns o = true)
    (openOrders : List Order)
    (hfound : openOrders.Perm (orders.rows.filter fun o => o.status = .OPEN))
    (replies : List ScanReply) (hends : ∃ reply ∈ replies, reply.cursor = "0") (s : Store) :
    ∃ calls t, rebuildFromOpenOrders keyPrefix openOrders replies s = some (calls, t) ∧
      (Promised calls →
        (∀ key, ¬ InProjection keyPrefix key → t key = s key) ∧
        ∀ marketId : Uuid, ∃ view, getOrderBook keyPrefix t marketId = .ok view ∧
          view.marketId = marketId ∧ IsBook (ordersAt orders.rows marketId .YES) view.yes ∧
          IsBook (ordersAt orders.rows marketId .NO) view.no) := by
  have hrow : ∀ o ∈ openOrders, o ∈ orders.rows ∧ o.status = .OPEN := by
    intro o ho
    have hmem := List.mem_filter.mp (hfound.mem_iff.mp ho)
    exact ⟨hmem.1, of_decide_eq_true hmem.2⟩
  have hcount : ∀ o ∈ openOrders, Countable o.term := fun o ho =>
    countable_of_columns (hcolumns o (hrow o ho).1)
  have hdistinct : (openOrders.map Order.id).Nodup :=
    (hfound.map _).nodup_iff.mpr ((nodup_orderIds orders).sublist (List.filter_sublist.map _))
  obtain ⟨calls, t, hrebuild, hresult⟩ :=
    rebuild_showsExactly (s := s) hplain (fun o ho => (hrow o ho).2) hdistinct hends
  refine ⟨calls, t, hrebuild, fun hpromised => ?_⟩
  obtain ⟨hshows, hleft⟩ := hresult hpromised
  -- the open orders that were found are those of the table, in some order
  have hat : ∀ marketId side, (ordersAt openOrders marketId side).Perm
      (ordersAt orders.rows marketId side) := by
    intro marketId side
    have hfilter := hfound.filter fun o =>
      o.status = .OPEN && o.marketId = marketId && o.side = side
    rw [List.filter_filter] at hfilter
    refine hfilter.trans (List.Perm.of_eq (List.filter_congr fun o _ => ?_))
    by_cases hst : o.status = .OPEN
    · simp [hst]
    · simp [hst]
  refine ⟨hleft, fun marketId => ?_⟩
  obtain ⟨view, hview, hid, hyes, hno⟩ :=
    hshows.getOrderBook (fun o ho => (hrow o ho).2) hdistinct hcount marketId
  exact ⟨view, hview, hid, hyes.perm (hat marketId .YES), hno.perm (hat marketId .NO)⟩

/-! ## A sample rebuild

Redis holds a text where the sorted set should be, the hash of an order that is gone, and a
key of the authentication; the `SCAN`s return the text three times. -/

namespace Sample

def secondYes : Order := ⟨noOrder, bob, market, .YES, 40, 3, 120, .OPEN, "second-yes", 3⟩

def restingOrders : Table Order where
  rows := [⟨yesOrder, alice, market, .YES, 40, 5, 200, .OPEN, "first-yes", 2⟩, secondYes]
  distinct := List.pairwise_pair.mpr (by decide +kernel)

def textKey : String := getOrderBookSideKey "olx" market .YES
def staleKey : String := getOrderHashKey "olx" trade.text
def authKey : String := "olx:auth:user"

def dirtyStore : Store :=
  ((Store.empty.set textKey (some (.string "text"))).set staleKey
    (some (.hash fun _ => some "1"))).set authKey (some (.string "cached"))

def scanReplies : List ScanReply := [⟨"17", [textKey, textKey]⟩, ⟨"0", [staleKey, textKey]⟩]

end Sample

namespace Sample

theorem plainPrefix_olx : PlainPrefix "olx" := by
  intro c hc
  simp only [String.reduceToList, List.mem_cons, List.not_mem_nil, or_false] at hc
  rcases hc with rfl | rfl | rfl <;> simp [globSpecials]

/-- The one `SCAN` of an empty store. -/
theorem promised_empty :
    Promised [⟨"0", getOrderBookScanPattern "olx", Store.empty, ⟨"0", []⟩⟩] where
  matching := by
    intro call hcall
    rw [List.mem_singleton] at hcall
    simp [hcall]
  complete := by
    intro pattern _ key _ hpresent
    exact absurd rfl (hpresent _ (List.mem_singleton_self _))

end Sample

theorem rebuild_and_read_sample : ∃ calls t,
    rebuildFromOpenOrders "olx" Sample.restingOrders.rows Sample.scanReplies Sample.dirtyStore =
      some (calls, t) ∧ t Sample.authKey = Sample.dirtyStore Sample.authKey ∧
    ∃ view, getOrderBook "olx" t Sample.market = .ok view ∧
      IsBook (ordersAt Sample.restingOrders.rows Sample.market .YES) view.yes := by
  have hplain := Sample.plainPrefix_olx
  obtain ⟨calls, t, hrebuild, hresult⟩ := rebuild_and_read "olx" hplain
    Sample.restingOrders (by decide +kernel) Sample.restingOrders.rows
    (List.Perm.of_eq (by decide +kernel)) Sample.scanReplies
    ⟨_, List.mem_cons_of_mem _ (List.mem_singleton_self _), rfl⟩ Sample.dirtyStore
  have hcalls : ∃ t', calls =
      [ ⟨"0", getOrderBookScanPattern "olx", Sample.dirtyStore,
          ⟨"17", [Sample.textKey, Sample.textKey]⟩⟩
      , ⟨"17", getOrderBookScanPattern "olx", t', ⟨"0", [Sample.staleKey, Sample.textKey]⟩⟩ ] := by
    simp only [rebuildFromOpenOrders, deleteProjectionKeys, Sample.scanReplies,
      deleteProjectionKeysFrom] at hrebuild
    simp at hrebuild
    exact ⟨_, hrebuild.1.symm⟩
  obtain ⟨t', rfl⟩ := hcalls
  have htext : globMatches (getOrderBookScanPattern "olx") Sample.textKey = true :=
    (globMatches_scanPattern hplain).mpr (inProjection_sideKey ..)
  have hstale : globMatches (getOrderBookScanPattern "olx") Sample.staleKey = true :=
    (globMatches_scanPattern hplain).mpr (inProjection_hashKey ..)
  have hauth : ¬ InProjection "olx" Sample.authKey := by
    rintro ⟨rest, hrest⟩
    have hlist := congrArg String.toList hrest
    simp [Sample.authKey] at hlist
  -- the store has three keys, and one of them is not of the projection
  have hkeys : ∀ key, InProjection "olx" key → Sample.dirtyStore key ≠ none →
      key ∈ [Sample.staleKey, Sample.textKey] := by
    intro key hkey hthere
    by_contra hno
    simp only [List.mem_cons, List.not_mem_nil, or_false, not_or] at hno
    have hne : key ≠ Sample.authKey := by
      rintro rfl
      exact hauth hkey
    rw [Sample.dirtyStore, Store.set_of_ne hne, Store.set_of_ne hno.1, Store.set_of_ne hno.2]
      at hthere
    exact hthere rfl
  obtain ⟨hother, hbooks⟩ := hresult {
    matching := by
      simp [htext, hstale]
    complete := by
      intro pattern hcycle key hmatches hpresent
      have hpattern := hcycle.samePattern _ (List.mem_cons_self ..)
      rw [← hpattern, globMatches_scanPattern hplain] at hmatches
      have hreturned := hkeys key hmatches (hpresent _ (List.mem_cons_self ..))
      exact ⟨_, List.mem_cons_of_mem _ (List.mem_singleton_self _), hreturned⟩ }
  obtain ⟨view, hview, -, hyes, -⟩ := hbooks Sample.market
  exact ⟨_, t, hrebuild, hother _ hauth, view, hview, hyes⟩

/-! ## More than numbers can count to

So many open orders at one price that the sum of their quantities is no number of JavaScript. -/

namespace Sample

/-- The last digits of an identifier. -/
def hexDigits : ℕ → ℕ → List Char
  | 0, _ => []
  | width + 1, n => hexDigits width (n / 16) ++ [Nat.digitChar (n % 16)]

theorem length_hexDigits (width n : ℕ) : (hexDigits width n).length = width := by
  induction width generalizing n with
  | zero => rfl
  | succ width ih => rw [hexDigits, List.length_append, ih, List.length_singleton]

theorem isHexDigit_of_mem {width n : ℕ} {c : Char} (hc : c ∈ hexDigits width n) :
    isHexDigit c = true := by
  induction width generalizing n with
  | zero => cases hc
  | succ width ih =>
      rcases List.mem_append.mp hc with hc | hc
      · exact ih hc
      · rw [List.mem_singleton.mp hc]
        have hdigit : ∀ d < 16, isHexDigit (Nat.digitChar d) = true := by decide
        exact hdigit _ (Nat.mod_lt n (by decide))

theorem hexDigits_injective {width n k : ℕ} (hn : n < 16 ^ width) (hk : k < 16 ^ width)
    (h : hexDigits width n = hexDigits width k) : n = k := by
  induction width generalizing n k with
  | zero => omega
  | succ width ih =>
      obtain ⟨hfront, hlast⟩ := List.append_inj' h rfl
      have hdigit : ∀ d < 16, ∀ d' < 16, Nat.digitChar d = Nat.digitChar d' → d = d' := by decide
      have hmod : n % 16 = k % 16 := hdigit _ (Nat.mod_lt n (by decide)) _
        (Nat.mod_lt k (by decide)) (List.singleton_inj.mp hlast)
      have hdiv : n / 16 = k / 16 :=
        ih (by rw [Nat.pow_succ] at hn; omega) (by rw [Nat.pow_succ] at hk; omega) hfront
      omega

def idFront : List Char := "00000000-0000-4000-8000-".toList

/-- The identifier that ends in these digits. -/
def crowdId (i : ℕ) : Uuid where
  text := String.ofList (idFront ++ hexDigits 12 i)
  valid := by
    have hfront : idFront.length = 24 := by decide +kernel
    unfold isUuidText
    rw [Bool.and_eq_true, String.length_ofList, String.toList_ofList, List.length_append,
      length_hexDigits, hfront, List.zipIdx_append, List.all_append, Bool.and_eq_true]
    refine ⟨rfl, by decide +kernel, List.all_eq_true.mpr ?_⟩
    rintro ⟨c, j⟩ hmem
    obtain ⟨hlow, -, hget⟩ := List.mem_zipIdx hmem
    have hc : isHexDigit c = true := isHexDigit_of_mem (hget ▸ List.getElem_mem _)
    have hno : (j = 8 || j = 13 || j = 18 || j = 23) = false := by
      simp only [Bool.or_eq_false_iff, decide_eq_false_iff_not]
      omega
    dsimp only
    rw [hno, hc]
    rfl

theorem crowdId_injective {i j : ℕ} (hi : i < 16 ^ 12) (hj : j < 16 ^ 12)
    (h : crowdId i = crowdId j) : i = j := by
  have htext : (String.ofList (idFront ++ hexDigits 12 i)).toList =
      (String.ofList (idFront ++ hexDigits 12 j)).toList := congrArg (fun id => id.text.toList) h
  rw [String.toList_ofList, String.toList_ofList, List.append_cancel_left_eq] at htext
  exact hexDigits_injective hi hj htext

def crowdMarket : Uuid := ⟨"0000000a-0000-4000-8000-0000000000de", by decide⟩

/-- The same market in upper case. -/
def crowdCapitals : UuidString := ⟨"0000000A-0000-4000-8000-0000000000DE", by decide⟩

/-- An order of the greatest quantity that its column takes. -/
def crowdOrder (i : ℕ) : Order :=
  ⟨crowdId i, alice, crowdMarket, .YES, 1, 2147483647, 2147483647, .OPEN, (crowdId i).text, 1⟩

def crowd (n : ℕ) (h : n ≤ 16 ^ 12) : Table Order where
  rows := (List.range n).map crowdOrder
  distinct := by
    refine List.pairwise_map.mpr (List.pairwise_lt_range.imp_of_mem ?_)
    intro i j hi hj hlt
    have hne : crowdId i ≠ crowdId j := fun heq => by
      have := crowdId_injective (lt_of_lt_of_le (List.mem_range.mp hi) h)
        (lt_of_lt_of_le (List.mem_range.mp hj) h) heq
      omega
    rintro (hid | ⟨-, hkey⟩)
    · exact hne hid
    · exact hne (Uuid.ext_text hkey)

theorem columns_crowd {n : ℕ} (h : n ≤ 16 ^ 12) : ∀ o ∈ (crowd n h).rows, orderColumns o = true := by
  intro o ho
  obtain ⟨i, -, rfl⟩ := List.mem_map.mp ho
  have hkey : fitsVarchar 100 (crowdId i).text = true :=
    fitsVarchar_of_le (by rw [Uuid.text_length]; decide) (crowdId i).isPgText
  simp [orderColumns, crowdOrder, hkey, fitsInt4]

theorem ordersAt_crowd {n : ℕ} (h : n ≤ 16 ^ 12) :
    ordersAt (crowd n h).rows crowdMarket .YES = (crowd n h).rows := by
  refine List.filter_eq_self.mpr fun o ho => ?_
  obtain ⟨i, -, rfl⟩ := List.mem_map.mp ho
  simp [crowdOrder]

theorem terms_crowd {n : ℕ} (h : n ≤ 16 ^ 12) :
    (crowd n h).rows.map Order.term = List.replicate n (1, 2147483647) := by
  rw [crowd, List.map_map, List.eq_replicate_iff, List.length_map, List.length_range]
  refine ⟨rfl, fun term hterm => ?_⟩
  obtain ⟨i, -, rfl⟩ := List.mem_map.mp hterm
  rfl

theorem quantityAt_crowd {n : ℕ} (h : n ≤ 16 ^ 12) :
    quantityAt (crowd n h).rows 1 = n * 2147483647 := by
  rw [← total_term, terms_crowd, Tally.total, List.filter_replicate]
  simp

/-- As long as the sum is exact. -/
theorem collectLevels_crowd {k : ℕ} {a : ℤ} (ha : 0 ≤ a) (hmax : a + k * 2147483647 ≤ 2 ^ 53)
    (replies : List (Except String (List (Option String)))) :
    collectLevels (List.replicate k (replyOf (1, 2147483647)) ++ replies) [⟨.int 1, .int a⟩] =
      collectLevels replies [⟨.int 1, .int (a + k * 2147483647)⟩] := by
  induction k generalizing a with
  | zero => simp
  | succ k ih =>
      rw [List.replicate_succ, List.cons_append, collectLevels_cons (by simp [Countable])]
      have hexact : JsNumber.nearest (a + 2147483647) = .int (a + 2147483647) :=
        JsNumber.nearest_of_le (by omega) (by push_cast at hmax; omega)
      rw [addLevel, if_pos rfl, JsNumber.add, hexact, ih (by omega) (by push_cast at hmax; omega)]
      congr 4
      push_cast
      omega

/-- One order more. -/
theorem buildLevels_crowd {k : ℕ} (hmax : ((k : ℤ) + 1) * 2147483647 ≤ 2 ^ 53) :
    buildLevels ((List.replicate (1 + k + 1) (1, 2147483647)).map replyOf) =
      [⟨.int 1, .nearest (((k : ℤ) + 2) * 2147483647)⟩] := by
  have hexact : JsNumber.nearest (0 + 2147483647) = .int 2147483647 :=
    JsNumber.nearest_of_le (by decide) (by decide)
  rw [buildLevels, List.map_replicate, List.replicate_succ', List.replicate_add,
    List.replicate_one, List.append_assoc, List.singleton_append,
    collectLevels_cons (by simp [Countable]), addLevel, JsNumber.add, hexact,
    collectLevels_crowd (by decide) (by omega), collectLevels_cons (by simp [Countable]), addLevel,
    if_pos rfl, JsNumber.add, collectLevels]
  have hsum : 2147483647 + (k : ℤ) * 2147483647 + 2147483647 = ((k : ℤ) + 2) * 2147483647 := by
    omega
  rw [← hsum]
  rfl

/-- The rebuilt book of a crowd. -/
theorem crowd_book {n : ℕ} (h : n ≤ 16 ^ 12) :
    ∃ (calls : List ScanCall) (t : Store) (view : OrderBookView),
      rebuildFromOpenOrders "olx" (crowd n h).rows [⟨"0", []⟩] Store.empty = some (calls, t) ∧
        Promised calls ∧ getOrderBook "olx" t crowdMarket = .ok view ∧
        view.yes = buildLevels ((List.replicate n (1, 2147483647)).map replyOf) ∧
        getOrderBook "olx" t crowdCapitals = .ok ⟨crowdCapitals, [], []⟩ := by
  have hopen : ∀ o ∈ (crowd n h).rows, o.status = .OPEN := by
    intro o ho
    obtain ⟨i, -, rfl⟩ := List.mem_map.mp ho
    rfl
  have hdistinct := nodup_orderIds (crowd n h)
  obtain ⟨calls, t, hrebuild, hresult⟩ := rebuild_showsExactly (s := Store.empty) plainPrefix_olx
    hopen hdistinct (show ∃ reply ∈ [(⟨"0", []⟩ : ScanReply)], reply.cursor = "0" from
      ⟨_, List.mem_singleton_self _, rfl⟩)
  -- an empty reply that ends the cycle
  have hcalls : calls = [⟨"0", getOrderBookScanPattern "olx", Store.empty, ⟨"0", []⟩⟩] := by
    have hdelete : deleteProjectionKeys "olx" [⟨"0", []⟩] Store.empty =
        some ([⟨"0", getOrderBookScanPattern "olx", Store.empty, ⟨"0", []⟩⟩], Store.empty) := rfl
    have heq := hrebuild
    rw [rebuildFromOpenOrders, hdelete] at heq
    simp only [Option.map_some, Option.some.injEq, Prod.mk.injEq] at heq
    exact heq.1.symm
  have hpromised : Promised calls := by
    rw [hcalls]
    exact promised_empty
  obtain ⟨hshows, -⟩ := hresult hpromised
  obtain ⟨view, yes, no, hview, -, hyes, -, hlevels, -⟩ :=
    hshows.getOrderBook_levels hopen hdistinct crowdMarket
  -- the members are a permutation of equal terms, so their order does not matter
  rw [listedAt_uuid, ordersAt_crowd, terms_crowd, List.perm_replicate] at hyes
  rw [hyes] at hlevels
  exact ⟨calls, t, view, hrebuild, hpromised, hview, hlevels,
    hshows.getOrderBook_of_not_canonical hopen hdistinct (by decide)⟩

end Sample

/-- The level shows one more than the sum, and under the identifier of the market in upper case
the book is empty. -/
theorem rebuild_and_read_inexact : ∃ (orders : Table Order) (calls : List ScanCall) (t : Store)
    (view : OrderBookView), orders.rows = (List.range 4194305).map Sample.crowdOrder ∧
    (∀ o ∈ orders.rows, orderColumns o = true ∧ o.status = .OPEN) ∧
    rebuildFromOpenOrders "olx" orders.rows [⟨"0", []⟩] Store.empty = some (calls, t) ∧
    Promised calls ∧ getOrderBook "olx" t Sample.crowdMarket = .ok view ∧
    view.yes = [⟨.int 1, .int 9007201398030336⟩] ∧
    quantityAt (ordersAt orders.rows Sample.crowdMarket .YES) 1 = 9007201398030335 ∧
    Sample.crowdCapitals.uuid = Sample.crowdMarket ∧
    getOrderBook "olx" t Sample.crowdCapitals = .ok ⟨Sample.crowdCapitals, [], []⟩ := by
  obtain ⟨k, hk⟩ : ∃ k : ℕ, k = 4194303 := ⟨_, rfl⟩
  have hmax : 1 + k + 1 ≤ 16 ^ 12 := by
    rw [show 16 ^ 12 = 281474976710656 from by decide +kernel]
    omega
  obtain ⟨calls, t, view, hrebuild, hpromised, hview, hyes, hcapitals⟩ := Sample.crowd_book hmax
  refine ⟨Sample.crowd _ hmax, calls, t, view, ?_,
    fun o ho => ⟨Sample.columns_crowd hmax o ho, ?_⟩, hrebuild, hpromised, hview, ?_, ?_,
    by decide, hcapitals⟩
  · have hsize : 1 + k + 1 = 4194305 := by omega
    exact congrArg (fun n => (List.range n).map Sample.crowdOrder) hsize
  · obtain ⟨i, -, rfl⟩ := List.mem_map.mp ho
    rfl
  · have hround : JsNumber.nearest 9007201398030335 = .int 9007201398030336 := by decide +kernel
    have hsum : ((k : ℤ) + 2) * 2147483647 = 9007201398030335 := by omega
    rw [hyes, Sample.buildLevels_crowd (by omega), hsum, hround]
  · rw [Sample.ordersAt_crowd, Sample.quantityAt_crowd]
    push_cast
    omega

end OutcomeExchange
