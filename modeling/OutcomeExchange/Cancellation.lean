import OutcomeExchange.Resolution

set_option autoImplicit false

/-! # Cancellation

The collateral of an open order should always come back when its owner cancels the order.
`release` returns it to the available balance, which was compared with the range of its
column while the collateral was out of it: money that was paid in since may have taken the
room. `cancellation_commits_iff` says when there is room. -/

namespace OutcomeExchange

open Txn

/-! ## The key of a release -/

theorem isHexDigit_range {c : Char} (h : isHexDigit c = true) :
    33 ≤ c.val.toNat ∧ c.val.toNat ≤ 126 := by
  simp only [isHexDigit, Bool.or_eq_true, Bool.and_eq_true, decide_eq_true_eq, Char.le_def,
    UInt32.le_iff_toNat_le] at h
  have h0 : ('0' : Char).val.toNat = 48 := rfl
  have h9 : ('9' : Char).val.toNat = 57 := rfl
  have ha : ('a' : Char).val.toNat = 97 := rfl
  have hf : ('f' : Char).val.toNat = 102 := rfl
  omega

/-- There is no white space in an identifier. -/
theorem Uuid.not_space (u : Uuid) {c : Char} (h : c ∈ u.text.toList) : isJsSpace c = false := by
  have hvalid := u.valid
  simp only [isUuidText, Bool.and_eq_true, List.all_eq_true] at hvalid
  obtain ⟨i, hi, rfl⟩ := List.getElem_of_mem h
  have hc := hvalid.2 (u.text.toList[i], i) (List.mem_zipIdx_iff_getElem?.mpr (by simp))
  dsimp only at hc
  split at hc
  · rw [of_decide_eq_true hc]
    decide
  · obtain ⟨hlow, hhigh⟩ := isHexDigit_range hc
    exact isJsSpace_of_ascii hlow hhigh

theorem EngineKey.orderCancel_length (orderId : Uuid) :
    (EngineKey.orderCancel orderId).text.length = 49 := by
  have hprefix : "order-cancel:".length = 13 := by decide
  rw [EngineKey.text, String.length_append, orderId.text_length, hprefix]

theorem assertIdempotencyKey_orderCancel (orderId : Uuid) :
    assertIdempotencyKey (EngineKey.orderCancel orderId).text = .ok () := by
  have hlen := EngineKey.orderCancel_length orderId
  have hne : orderId.text.toList ≠ [] := by
    intro hnil
    have htext := orderId.text_length
    rw [← String.length_toList, hnil] at htext
    cases htext
  have hlast : (EngineKey.orderCancel orderId).text.toList.reverse.head? =
      some (orderId.text.toList.getLast hne) := by
    rw [List.head?_reverse, EngineKey.text, String.toList_append,
      List.getLast?_append_of_ne_nil _ hne, List.getLast?_eq_some_getLast]
  have htrim := length_le_jsTrimLength (a := 'o') (by simp [EngineKey.text]) hlast (by decide)
    (orderId.not_space (List.getLast_mem hne))
  unfold assertIdempotencyKey
  rw [if_neg]
  rintro (hempty | hshort)
  · rw [hempty] at hlen
    cases hlen
  · omega

/-! ## What a cancellation should do -/

/-- The collateral of the order is available to its owner again, and nothing else has
changed. -/
structure TakenBack (order : Order) (s t : Db) : Prop where
  owner : t.ledger.balances order.userId =
    s.ledger.balances order.userId + (order.reservedCents, -order.reservedCents)
  wallets : ∀ u, u ≠ order.userId → t.ledger.wallets.find? u = s.ledger.wallets.find? u
  cancelled : t.orders.find? order.id = some (order.withStatus .CANCELLED)
  orders : ∀ id, id ≠ order.id → t.orders.find? id = s.orders.find? id
  trades : t.trades = s.trades

section Cancel

variable {s t : Db} {orderId : Uuid} {order : Order} {createdAt : Timestamp}

theorem Mutated.wallet_of_ne {params : MutateWalletParams} {L L' : Ledger}
    (h : Mutated params L L') {u : Uuid} (hu : u ≠ params.userId) :
    L'.wallets.find? u = L.wallets.find? u := by
  cases h with
  | replay _ same => rw [same]
  | posted hp => rw [hp.find?_wallet, if_neg hu]

/-- What a cancellation does to the balances of the owner. -/
theorem Cancelled.balances_eq (h : Cancelled order.userId orderId createdAt s t)
    (hfound : s.orders.find? orderId = some order) :
    t.ledger.balances order.userId = s.ledger.balances order.userId +
      if s.ledger.KeyUsed order.userId (EngineKey.orderCancel orderId).text then 0
      else (order.reservedCents, -order.reservedCents) := by
  obtain @⟨order', hfound', -, -, -, hmut, -⟩ := h
  rw [hfound] at hfound'
  cases hfound'
  have hbal : t.ledger.balances order.userId = s.ledger.balances order.userId +
      if s.ledger.KeyUsed order.userId (EngineKey.orderCancel orderId).text then 0
      else if order.userId = order.userId then (order.reservedCents, -order.reservedCents) else 0 :=
    hmut.balances_eq rfl order.userId
  rw [if_pos rfl] at hbal
  exact hbal

/-- A cancellation under a new key. -/
theorem Cancelled.takenBack (h : Cancelled order.userId orderId createdAt s t)
    (hfound : s.orders.find? orderId = some order)
    (hfresh : ¬ s.ledger.KeyUsed order.userId (EngineKey.orderCancel orderId).text) :
    TakenBack order s t := by
  have hbal := h.balances_eq hfound
  rw [if_neg hfresh] at hbal
  obtain @⟨order', hfound', -, -, hsaved, hmut, -, -, htrades⟩ := h
  rw [hfound] at hfound'
  cases hfound'
  have hid : order.id = orderId := Table.key_of_find? hfound
  subst hid
  have hset := StatusSet.single hfound hsaved
  constructor
  · exact hbal
  · intro u hu
    exact hmut.wallet_of_ne hu
  · exact hset.find?_mem (List.mem_singleton_self _) hfound
  · intro id hid
    exact hset.find?_not_mem (by simpa using hid)
  · exact htrades

/-- A cancellation whose key is used moves nothing. -/
theorem Cancelled.not_takenBack (h : Cancelled order.userId orderId createdAt s t)
    (hfound : s.orders.find? orderId = some order) (hpos : 0 < order.reservedCents)
    (hused : s.ledger.KeyUsed order.userId (EngineKey.orderCancel orderId).text) :
    ¬ TakenBack order s t := by
  intro hback
  have hbal := h.balances_eq hfound
  rw [if_pos hused, add_zero, hback.owner] at hbal
  have havail : s.ledger.available order.userId + order.reservedCents =
      s.ledger.available order.userId := congrArg Prod.fst hbal
  omega

/-- The release of an order that its reserved balance covers succeeds if the available
balance has room. -/
theorem run_release (busy : RowId → Bool) {userId : Uuid} {amount : ℤ} {w : Wallet}
    (hL : s.ledger.InRange) (hpos : 0 < amount)
    (hw : s.ledger.wallets.find? userId = some w) (hcovers : amount ≤ s.ledger.reserved userId)
    (hroom : s.ledger.available userId + amount ≤ maxInt4) :
    ∃ r t, (release userId (.int amount) (EngineKey.orderCancel orderId).text orderId.text
      createdAt).run busy s = .ok (r, t) := by
  have havail : s.ledger.available userId = w.availableBalanceCents := by
    rw [Ledger.available, hw]
    rfl
  have hres : s.ledger.reserved userId = w.reservedBalanceCents := by
    rw [Ledger.reserved, hw]
    rfl
  obtain ⟨⟨hav, -⟩, hres₀, hresmax⟩ := hL userId
  -- what the wallet becomes, and that neither balance leaves its column
  have hmoved : w.moved .RELEASE amount =
      { w with availableBalanceCents := w.availableBalanceCents + amount
               reservedBalanceCents := w.reservedBalanceCents - amount } := by
    simp [Wallet.moved, WalletEntryType.effect, sub_eq_add_neg]
  have happly : WalletEntryType.apply .RELEASE w amount = .ok (w.moved .RELEASE amount) := by
    rw [hmoved]
    exact if_neg (by omega)
  -- the key is not bounded by the client, so the length of its text is checked too
  obtain ⟨r, t, hrun⟩ := run_mutateWallet busy
    (releaseParams userId (.int amount) (EngineKey.orderCancel orderId).text orderId.text createdAt)
    (if_neg (by omega)) (assertIdempotencyKey_orderCancel orderId)
    (show (EngineKey.orderCancel orderId).Fixed by rintro _ ⟨⟩) rfl rfl hw (by
      intro _
      refine ⟨happly, ?_⟩
      show (0 ≤ (w.moved .RELEASE amount).availableBalanceCents ∧ _) ∧ _
      simp only [releaseParams, hmoved]
      exact ⟨⟨by omega, by omega⟩, ⟨by omega, by omega⟩, by omega⟩)
  refine ⟨r.wallet, t, ?_⟩
  unfold release
  rw [Prog.run_bind hrun]
  rfl

/-- With room for its collateral the cancellation of an open order completes. -/
theorem run_cancelOrder {busy : RowId → Bool} (hs : s.Coherent) (hp : s.Provided)
    (hfound : s.orders.find? orderId = some order) (hopen : order.status = .OPEN)
    (hcovers : order.reservedCents ≤ s.ledger.reserved order.userId)
    (hroom : s.ledger.available order.userId + order.reservedCents ≤ maxInt4) :
    ∃ r t, (cancelOrder order.userId orderId createdAt).run busy s = .ok (r, t) := by
  have hid : order.id = orderId := Table.key_of_find? hfound
  subst hid
  obtain ⟨w, hw⟩ := hp.owners hfound
  obtain ⟨orders, hsaved⟩ : ∃ orders, s.orders.update? (order.withStatus .CANCELLED) = some orders :=
    Table.exists_update hfound fun c hc => hc
  obtain ⟨r, t, hrelease⟩ : ∃ r t, (release order.userId (.int order.reservedCents)
      (EngineKey.orderCancel order.id).text order.id.text createdAt).run busy
        { s with orders := orders } = .ok (r, t) :=
    run_release busy hp.balances (Coherent.sound hs hfound).reserved_pos hw hcovers hroom
  unfold cancelOrder
  rw [Prog.run_bind (run_findOrderForUpdate order.id), hfound]
  dsimp only
  rw [if_neg (by simp), if_neg (by simp [hopen]), Prog.run_bind (run_saveOrder hsaved),
    Prog.run_bind hrelease]
  exact ⟨_, _, rfl⟩

end Cancel

/-- **Collateral can be taken back** if and only if the available balance of its owner has
room for it and no movement of the wallet has taken the key of the release. -/
theorem cancellation_commits_iff {A : Action → Prop} {c : Conf dbStore Err Unit Action}
    (h : (interleaved A).Reachable c) {orderId : Uuid} {order : Order}
    (hfound : c.committed.orders.find? orderId = some order) (hopen : order.status = .OPEN)
    (hcovers : order.reservedCents ≤ c.committed.ledger.reserved order.userId)
    (createdAt : Timestamp) (busy : RowId → Bool) :
    (∃ r t, (cancelOrder order.userId orderId createdAt).run busy c.committed = .ok (r, t) ∧
        TakenBack order c.committed t) ↔
      c.committed.ledger.available order.userId + order.reservedCents ≤ maxInt4 ∧
        ¬ c.committed.ledger.KeyUsed order.userId (EngineKey.orderCancel orderId).text := by
  have hs := coherent_of_interleaved h
  have hp := provided_of_interleaved h
  constructor
  · rintro ⟨r, t, hrun, hback⟩
    have hcancelled := (exec_cancelOrder (exec_of_run hrun)).1
    constructor
    · -- the balance after the release is in the range of its column
      have heff : (Action.cancelOrder order.userId orderId createdAt).Effect
          (.concurrent : Mode RowId) c.committed t := hcancelled
      have hrange := hp.balances.steps heff.ledgerSteps
      have havail : t.ledger.available order.userId =
          c.committed.ledger.available order.userId + order.reservedCents :=
        congrArg Prod.fst hback.owner
      rw [← havail]
      exact (hrange order.userId).1.2
    · intro hused
      exact hcancelled.not_takenBack hfound (Coherent.sound hs hfound).reserved_pos hused hback
  · rintro ⟨hroom, hfresh⟩
    obtain ⟨r, t, hrun⟩ := run_cancelOrder hs hp hfound hopen hcovers hroom
    exact ⟨r, t, hrun, (exec_cancelOrder (exec_of_run hrun)).1.takenBack hfound hfresh⟩

/-! ## The sample order, and a full wallet -/

namespace Sample

/-- Alice deposits two billion cents, has 600 million of them reserved, and deposits 700
million more. -/
def fullWallet : List Action :=
  [ .createWalletForUser alice alice
  , .createMarket 1000 market 0
  , .deposit alice (richDeposit "full-wallet-1" (by decide) (by decide)) 1
  , .deposit alice (richDeposit "full-wallet-2" (by decide) (by decide)) 1
  , .placeOrder alice (richDto .YES "full-wallet-order" (by decide)) yesOrder 2 2
  , .deposit alice ⟨700000000, "full-wallet-3", by decide, by decide, by decide, by decide⟩ 3 ]

def restingOrder : List Action := opening ++ [.placeOrder alice yesDto yesOrder 2 2]

end Sample

/-- An open order of Alice whose collateral is reserved. -/
def openAndCovered (db : Db) : Bool :=
  (db.orders.find? Sample.yesOrder).any fun order =>
    order.userId = Sample.alice && order.status = .OPEN &&
      order.reservedCents ≤ db.ledger.reserved order.userId

theorem exists_of_openAndCovered {db : Db} (h : openAndCovered db = true) :
    ∃ order, db.orders.find? Sample.yesOrder = some order ∧ order.userId = Sample.alice ∧
      order.status = .OPEN ∧ order.reservedCents ≤ db.ledger.reserved order.userId := by
  unfold openAndCovered at h
  cases hfound : db.orders.find? Sample.yesOrder with
  | none =>
      rw [hfound] at h
      cases h
  | some order =>
      rw [hfound, Option.any_some, Bool.and_eq_true, Bool.and_eq_true, decide_eq_true_eq,
        decide_eq_true_eq, decide_eq_true_eq] at h
      exact ⟨order, rfl, h.1.1, h.1.2, h.2⟩

theorem cancellation_commits_sample : ∃ c : Conf dbStore Err Unit Action,
    (interleaved fun _ => True).Reachable c ∧ ∃ order,
      c.committed.orders.find? Sample.yesOrder = some order ∧
      ((∃ r t, (cancelOrder order.userId Sample.yesOrder 3).run (fun _ => false) c.committed =
          .ok (r, t) ∧ TakenBack order c.committed t) ↔
        c.committed.ledger.available order.userId + order.reservedCents ≤ maxInt4 ∧
          ¬ c.committed.ledger.KeyUsed order.userId
            (EngineKey.orderCancel Sample.yesOrder).text) := by
  obtain ⟨s, hs, hcovered⟩ := interleaved_of_leads (A := fun _ => True) (fun _ _ _ => trivial)
    (show leads (fun _ _ => true) Sample.restingOrder openAndCovered = true by decide +kernel)
  obtain ⟨order, hfound, -, hopen, hcovers⟩ := exists_of_openAndCovered hcovered
  exact ⟨Conf.idle s, hs, order, hfound, cancellation_commits_iff hs hfound hopen hcovers 3 _⟩

/-- The 600 million cents do not fit on top of 2.1 billion. -/
theorem cancellation_blocked : ¬ ∀ c : Conf dbStore Err Unit Action,
    (interleaved fun _ => True).Reachable c → ∀ orderId order,
      c.committed.orders.find? orderId = some order → order.status = .OPEN →
        order.reservedCents ≤ c.committed.ledger.reserved order.userId → ∀ createdAt busy,
          ∃ r t, (cancelOrder order.userId orderId createdAt).run busy c.committed =
            .ok (r, t) ∧ TakenBack order c.committed t := by
  intro hall
  obtain ⟨s, hs, hblocked⟩ := interleaved_of_leads (A := fun _ => True) (fun _ _ _ => trivial)
    (show leads (fun _ _ => true) Sample.fullWallet
      (fun s => openAndCovered s &&
        (cancelOrder Sample.alice Sample.yesOrder 4).leaves (fun _ _ => true) s = false) = true by
          decide +kernel)
  rw [Bool.and_eq_true, decide_eq_true_eq] at hblocked
  obtain ⟨order, hfound, howner, hopen, hcovers⟩ := exists_of_openAndCovered hblocked.1
  obtain ⟨r, t, hrun, -⟩ := hall (Conf.idle s) hs Sample.yesOrder order hfound hopen hcovers 4
    fun _ => false
  have hfails := hblocked.2
  unfold Tx.leaves at hfails
  rw [← howner, show (cancelOrder order.userId Sample.yesOrder 4).run (fun _ => false) s =
    .ok (r, t) from hrun] at hfails
  cases hfails

end OutcomeExchange
