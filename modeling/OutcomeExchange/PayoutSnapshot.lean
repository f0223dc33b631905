import OutcomeExchange.Payouts

set_option autoImplicit false

/-! # The snapshot of a resolution

`resolveMarket` locks the market and then reads, without a lock, which trades of it are
settled. A trade that is settled between this read and the commit is in nobody's list, and
it is never paid, although the market was not resolved when the settlement committed.
`PayoutsSafe` rules this out together with the late settlements of `Action.PayoutSafe`.

`Resolving` says how far a resolution in flight has come; the run theorem follows from it
for every interleaving. -/

namespace OutcomeExchange

open Txn

/-! ## The statements of `resolveMarket` -/

section Parts

variable (market : Market) (marketId : Uuid) (winningSide : OutcomeSide) (createdAt : Timestamp)

/-- The payouts and the last statement. -/
def payWinners (orders : List Order) (settledTrades : List Trade) : Tx Market := do
  creditWinners market winningSide orders createdAt settledTrades
  saveMarket { market with status := .RESOLVED, resolvedOutcome := some winningSide }
  return { market with status := .RESOLVED, resolvedOutcome := some winningSide }

/-- From the read of the orders on. -/
def readOrders (settledTrades : List Trade) : Tx Market := do
  let orders ← Prog.query (ordersOf settledTrades)
  payWinners market winningSide createdAt orders settledTrades

/-- From the read of the settled trades on. -/
def readTrades : Tx Market := do
  let settledTrades ← Prog.query (settledTradesOf marketId)
  readOrders market winningSide createdAt settledTrades

/-- From the check for pending settlements on. -/
def checkPending : Tx Market := do
  let pending ← Prog.query (hasPendingSettlements marketId)
  if pending = true then
    Prog.throw (.conflict "Cannot resolve market while settlements are pending")
  else readTrades market marketId winningSide createdAt

/-- From the check of the winning side on. -/
def checkOutcome : Tx Market := do
  let hasWinningOutcome ← Prog.query fun db : Db =>
    db.outcomes.any (fun o => o.marketId = marketId && o.side = winningSide)
  if hasWinningOutcome = false then
    Prog.throw (.badRequest "Winning side is not defined for this market")
  else checkPending market marketId winningSide createdAt

/-- Once the market is read. -/
def checkMarket : Option Market → Tx Market
  | none => Prog.throw (.notFound "Market not found")
  | some market =>
      if market.status = .RESOLVED then Prog.throw (.badRequest "Market is already resolved")
      else checkOutcome market marketId winningSide createdAt

end Parts

section Statements

variable {market : Market} {marketId : Uuid} {winningSide : OutcomeSide} {createdAt : Timestamp}

theorem resolveMarket_eq : (Action.resolveMarket marketId winningSide createdAt).prog =
    .selectForUpdate (.market marketId) fun o =>
      Tx.discard (checkMarket marketId winningSide createdAt o) := rfl

theorem checkOutcome_eq : Tx.discard (checkOutcome market marketId winningSide createdAt) =
    .select fun db => Tx.discard
      (if db.outcomes.any (fun o => o.marketId = marketId && o.side = winningSide) = false then
        Prog.throw (.badRequest "Winning side is not defined for this market")
      else checkPending market marketId winningSide createdAt) := rfl

theorem checkPending_eq : Tx.discard (checkPending market marketId winningSide createdAt) =
    .select fun db => Tx.discard
      (if hasPendingSettlements marketId db = true then
        Prog.throw (.conflict "Cannot resolve market while settlements are pending")
      else readTrades market marketId winningSide createdAt) := rfl

theorem readTrades_eq : Tx.discard (readTrades market marketId winningSide createdAt) =
    .select fun db => Tx.discard
      (readOrders market winningSide createdAt (settledTradesOf marketId db)) := rfl

theorem readOrders_eq {trades : List Trade} :
    Tx.discard (readOrders market winningSide createdAt trades) =
      .select fun db => Tx.discard
        (payWinners market winningSide createdAt (ordersOf trades db) trades) := rfl

theorem exec_payWinners {m : Mode RowId} {s t : Db} {orders : List Order} {trades : List Trade}
    {r : Market}
    (h : Exec m (payWinners market winningSide createdAt orders trades) s r t) :
    Credited market winningSide orders createdAt trades s.ledger t.ledger ∧
      s.markets.update? { market with status := .RESOLVED, resolvedOutcome := some winningSide } =
        some t.markets ∧ t.trades = s.trades := by
  unfold payWinners at h
  obtain ⟨_, s₁, hcredit, h⟩ := exec_bind.mp h
  obtain ⟨L, rfl, hcredited⟩ := exec_creditWinners hcredit
  obtain ⟨_, s₂, hsave, h⟩ := exec_bind.mp h
  obtain ⟨markets, hmarkets, rfl⟩ := exec_saveMarket.mp hsave
  obtain ⟨-, rfl⟩ := exec_pure.mp h
  exact ⟨hcredited, hmarkets, rfl⟩

end Statements

/-! ## How far a resolution has come -/

/-- A running transaction of the exchange. -/
abbrev Transaction := Session dbStore Err Unit Action

/-- The session has locked the market, which is not resolved. -/
structure Locks (s : Db) (x : Transaction) (marketId : Uuid) (market : Market) : Prop where
  held : RowId.market marketId ∈ x.held
  found : s.markets.find? marketId = some market
  unresolved : market.status ≠ .RESOLVED

/-- The resolution has yet to read the settled trades, or it has been rejected. -/
inductive ToRead (s : Db) (x : Transaction) (marketId : Uuid) (winningSide : OutcomeSide)
    (createdAt : Timestamp) : Prop
  | begun (rest : x.rest = (Action.resolveMarket marketId winningSide createdAt).prog)
      (pending : x.pending = [])
  | outcome {market : Market} (pending : x.pending = []) (locks : Locks s x marketId market)
      (rest : x.rest = Tx.discard (checkOutcome market marketId winningSide createdAt))
  | settlements {market : Market} (pending : x.pending = []) (locks : Locks s x marketId market)
      (rest : x.rest = Tx.discard (checkPending market marketId winningSide createdAt))
  | trades {market : Market} (pending : x.pending = []) (locks : Locks s x marketId market)
      (rest : x.rest = Tx.discard (readTrades market marketId winningSide createdAt))
  | rejected {e : Err} (rest : x.rest = .throw e)

/-- The list has every settled trade of the market once. -/
structure Snapshot (s : Db) (marketId : Uuid) (trades : List Trade) : Prop where
  distinct : trades.Pairwise fun a b => a.id ≠ b.id
  settled : ∀ trade, trade ∈ trades ↔ trade ∈ settledTradesOf marketId s

/-- The winning orders among `orders` belong to those who have them in `s`. -/
def KnowsOwners (s : Db) (winningSide : OutcomeSide) (trades : List Trade) (orders : List Order) :
    Prop :=
  ∀ {trade o}, trade ∈ trades →
    orders.find? (fun order => order.id = trade.orderOn winningSide) = some o →
      ∃ o', s.orders.find? (trade.orderOn winningSide) = some o' ∧ o'.userId = o.userId

/-- How far the resolution of session `x` has come. -/
inductive Resolving (s : Db) (x : Transaction) (marketId : Uuid) (winningSide : OutcomeSide)
    (createdAt : Timestamp) : Prop
  | toRead (h : ToRead s x marketId winningSide createdAt)
  | orders {market : Market} {trades : List Trade} (pending : x.pending = [])
      (locks : Locks s x marketId market) (snapshot : Snapshot s marketId trades)
      (rest : x.rest = Tx.discard (readOrders market winningSide createdAt trades))
  | paying {market : Market} {trades : List Trade} {orders : List Order}
      (locks : Locks s x marketId market) (snapshot : Snapshot s marketId trades)
      (owners : KnowsOwners s winningSide trades orders)
      (completes : x.Completes s fun t _ v =>
        Credited market winningSide orders createdAt trades t.ledger v.ledger ∧
          t.markets.update? { market with status := .RESOLVED, resolvedOutcome := some winningSide }
            = some v.markets ∧ v.trades = t.trades)

section Resolving

variable {s s' : Db} {x x' : Transaction} {marketId : Uuid} {winningSide : OutcomeSide}
  {createdAt : Timestamp} {busy : RowId → Prop}

theorem Locks.next {market : Market} {u : Db} (h : Locks s x marketId market)
    (hnext : x.Next busy u x') : Locks s x' marketId market :=
  ⟨hnext.held_mono h.held, h.found, h.unresolved⟩

theorem Locks.agree {market : Market} (h : Locks s x marketId market)
    (hag : AgreeOn dbStore x.held s s') : Locks s' x marketId market := by
  have hslice : s.markets.find? marketId = s'.markets.find? marketId := hag _ h.held
  exact ⟨h.held, hslice ▸ h.found, h.unresolved⟩

theorem ToRead.agree (h : ToRead s x marketId winningSide createdAt)
    (hag : AgreeOn dbStore x.held s s') : ToRead s' x marketId winningSide createdAt := by
  cases h with
  | begun rest pending => exact .begun rest pending
  | outcome pending locks rest => exact .outcome pending (locks.agree hag) rest
  | settlements pending locks rest => exact .settlements pending (locks.agree hag) rest
  | trades pending locks rest => exact .trades pending (locks.agree hag) rest
  | rejected rest => exact .rejected rest

/-- **The statement lemma before the read.** A resolution locks the market, makes its checks
and reads the trades that are settled at that moment. -/
theorem ToRead.next (h : ToRead s x marketId winningSide createdAt)
    (hnext : x.Next busy s x') : Resolving s x' marketId winningSide createdAt := by
  cases h with
  | begun rest pending =>
      rw [resolveMarket_eq] at rest
      -- no market, or one that is resolved: the transaction throws
      have rejects : ∀ {o : Option Market} {e : Err},
          checkMarket marketId winningSide createdAt o = .throw e →
            dbStore.slice (RowId.market marketId) s = o → x'.rest = Tx.discard
              (checkMarket marketId winningSide createdAt (dbStore.slice (.market marketId) s)) →
            Resolving s x' marketId winningSide createdAt := by
        intro o e hthrow hslice hrest
        refine .toRead (.rejected (e := e) ?_)
        rw [hrest, hslice, hthrow]
        rfl
      rcases hnext.of_selectForUpdate rest with ⟨-, hthere, rfl⟩ | ⟨habsent, rfl⟩
      · obtain ⟨market, hfound⟩ := Option.isSome_iff_exists.mp hthere
        by_cases hresolved : market.status = .RESOLVED
        · exact rejects (by rw [checkMarket, if_pos hresolved]) hfound rfl
        · refine .toRead (.outcome pending ⟨List.mem_cons_self .., hfound, hresolved⟩ ?_)
          show Tx.discard (checkMarket marketId winningSide createdAt
            (dbStore.slice (RowId.market marketId) s)) = _
          rw [show dbStore.slice (RowId.market marketId) s = some market from hfound, checkMarket,
            if_neg hresolved]
      · exact rejects rfl (isSome_false.mp habsent) rfl
  | outcome pending locks rest =>
      rw [checkOutcome_eq] at rest
      have hlocks := locks.next hnext
      cases hnext.of_select rest
      by_cases hmissing : s.outcomes.any
          (fun o => o.marketId = marketId && o.side = winningSide) = false
      · exact .toRead (.rejected (congrArg Tx.discard (if_pos hmissing)))
      · exact .toRead (.settlements pending hlocks (congrArg Tx.discard (if_neg hmissing)))
  | settlements pending locks rest =>
      rw [checkPending_eq] at rest
      have hlocks := locks.next hnext
      cases hnext.of_select rest
      by_cases hpending : hasPendingSettlements marketId s = true
      · exact .toRead (.rejected (congrArg Tx.discard (if_pos hpending)))
      · exact .toRead (.trades pending hlocks (congrArg Tx.discard (if_neg hpending)))
  | trades pending locks rest =>
      rw [readTrades_eq] at rest
      have hlocks := locks.next hnext
      cases hnext.of_select rest
      -- the list is what is settled at this moment
      exact .orders pending hlocks ⟨settledTradesOf_distinct s marketId, fun _ => Iff.rfl⟩ rfl
  | rejected rest => exact absurd rest hnext.of_throw

theorem ToRead.view {u : Db} (h : ToRead s x marketId winningSide createdAt)
    (hu : x.view s = .ok u) (hnext : x.Next busy u x') : u = s := by
  cases h with
  | begun rest pending => exact Session.view_of_pending pending hu
  | outcome pending locks rest => exact Session.view_of_pending pending hu
  | settlements pending locks rest => exact Session.view_of_pending pending hu
  | trades pending locks rest => exact Session.view_of_pending pending hu
  | rejected rest => exact absurd rest hnext.of_throw

/-- The orders are read under the snapshot, and from then on the session only pays. -/
theorem Resolving.next_orders {market : Market} {trades : List Trade} (pending : x.pending = [])
    (locks : Locks s x marketId market) (snapshot : Snapshot s marketId trades)
    (rest : x.rest = Tx.discard (readOrders market winningSide createdAt trades))
    (hnext : x.Next busy s x') : Resolving s x' marketId winningSide createdAt := by
  rw [readOrders_eq] at rest
  have hlocks := locks.next hnext
  cases hnext.of_select rest
  have howners : KnowsOwners s winningSide trades (ordersOf trades s) :=
    fun _ ho => ⟨_, find?_ordersOf ho, rfl⟩
  refine .paying hlocks snapshot howners ?_
  intro t u a v _ hview hexec
  have hut : u = t := Session.view_of_pending (by exact pending) hview
  subst hut
  obtain ⟨r, hpay⟩ := exec_discard.mp hexec
  exact exec_payWinners hpay

/-- **The statement lemma of a resolution.** -/
theorem Resolving.next {u : Db} (h : Resolving s x marketId winningSide createdAt)
    (hu : x.view s = .ok u) (hnext : x.Next busy u x') :
    Resolving s x' marketId winningSide createdAt := by
  cases h with
  | toRead h =>
      have hus := h.view hu hnext
      rw [hus] at hnext
      exact h.next hnext
  | orders pending locks snapshot rest =>
      have hus := Session.view_of_pending pending hu
      rw [hus] at hnext
      exact Resolving.next_orders pending locks snapshot rest hnext
  | paying locks snapshot owners completes =>
      exact .paying (locks.next hnext) snapshot owners (completes.next hu hnext)

/-- No trade of the market has been settled between `s` and `s'`. -/
def NoneSettled (marketId : Uuid) (s s' : Db) : Prop :=
  ∀ {id trade}, s'.trades.find? id = some trade → trade.status = .SETTLED →
    trade.marketId = marketId → s.trades.find? id = some trade

theorem Snapshot.evolves {trades : List Trade} (h : Snapshot s marketId trades)
    (hev : Evolves s s') (hnone : NoneSettled marketId s s') : Snapshot s' marketId trades := by
  refine ⟨h.distinct, fun trade => (h.settled trade).trans ?_⟩
  rw [mem_settledTradesOf, mem_settledTradesOf]
  constructor
  · rintro ⟨hrow, hmarket, hst⟩
    exact ⟨Table.mem_of_find? (hev.settled (Table.find?_key hrow) hst), hmarket, hst⟩
  · rintro ⟨hrow, hmarket, hst⟩
    exact ⟨Table.mem_of_find? (hnone (Table.find?_key hrow) hst hmarket), hmarket, hst⟩

theorem KnowsOwners.evolves {trades : List Trade} {orders : List Order}
    (h : KnowsOwners s winningSide trades orders) (hev : Evolves s s') :
    KnowsOwners s' winningSide trades orders := by
  intro trade o ht ho
  obtain ⟨o', ho', huser⟩ := h ht ho
  obtain ⟨o'', ho'', st, rfl, -⟩ := hev.orders ho'
  exact ⟨_, ho'', huser⟩

/-- What another session commits does not set a resolution back, unless it settles a trade of
the market that the resolution has not read. -/
theorem Resolving.agree (h : Resolving s x marketId winningSide createdAt)
    (hag : AgreeOn dbStore x.held s s') (hev : Evolves s s')
    (hsettled : NoneSettled marketId s s' ∨ ToRead s x marketId winningSide createdAt) :
    Resolving s' x marketId winningSide createdAt := by
  rcases hsettled with hnone | hread
  · cases h with
    | toRead h => exact .toRead (h.agree hag)
    | orders pending locks snapshot rest =>
        exact .orders pending (locks.agree hag) (snapshot.evolves hev hnone) rest
    | paying locks snapshot owners completes =>
        exact .paying (locks.agree hag) (snapshot.evolves hev hnone) (owners.evolves hev)
          (completes.agree hag)
  · exact .toRead (hread.agree hag)

/-- **A resolution that commits pays what is settled at that moment.** -/
theorem Resolving.paysSettled {a : Unit} (h : Resolving s x marketId winningSide createdAt)
    (ha : x.rest = .pure a) (hview : x.view s = .ok s') :
    PaysSettled marketId winningSide createdAt s s' := by
  have hend : ∀ {p : Prog dbStore Err Unit}, x.rest = p → p = .pure a := by
    intro p hrest
    rw [← hrest, ha]
  -- only a session that pays can be at its end
  cases h with
  | toRead h =>
      cases h with
      | begun rest pending => cases resolveMarket_eq.symm.trans (hend rest)
      | outcome pending locks rest => cases checkOutcome_eq.symm.trans (hend rest)
      | settlements pending locks rest => cases checkPending_eq.symm.trans (hend rest)
      | trades pending locks rest => cases readTrades_eq.symm.trans (hend rest)
      | rejected rest => cases hend rest
  | orders pending locks snapshot rest => cases readOrders_eq.symm.trans (hend rest)
  | paying locks snapshot owners completes =>
      have hexec : Exec .concurrent x.rest s' a s' := by
        rw [ha]
        exact ⟨rfl, rfl⟩
      obtain ⟨hcredited, hsaved, htrades⟩ := completes s s' a s' (fun _ _ => rfl) hview hexec
      exact .intro locks.found locks.unresolved snapshot.distinct snapshot.settled owners hcredited
        hsaved htrades

end Resolving

/-! ## The condition on a run -/

/-- No trade of a resolved market is settled, and none whose market is under resolution once
the resolution has read the settled trades; and the keys of the payouts are new in the wallets
of the winners. -/
def PayoutsSafe (c : Conf dbStore Err Unit Action) : Event Action → Prop
  | .commit i => ∀ x ∈ c.session i, x.call.PayoutSafe c.committed ∧
      ∀ tradeId createdAt, x.call = .handleSettlement tradeId createdAt →
        ∀ trade ∈ c.committed.trades.find? tradeId, trade.status = .PENDING_SETTLEMENT →
          ∀ j, ∀ y ∈ c.session j, ∀ winningSide createdAt',
            y.call = .resolveMarket trade.marketId winningSide createdAt' →
              ToRead c.committed y trade.marketId winningSide createdAt'
  | _ => True

/-- Every interleaving of all transactions in which every event meets the condition. -/
def payingExchange : System (Conf dbStore Err Unit Action) (Event Action) :=
  (interleaved fun _ => True).restrict PayoutsSafe

/-- Every settled trade of a resolved market is paid, and every resolution in flight knows
the settled trades of its market, as far as it has read them. -/
structure PayingState (c : Conf dbStore Err Unit Action) : Prop where
  paid : AllPaid c.committed
  after : PaidAfterResolution c.committed
  resolving : ∀ {i x}, c.session i = some x → ∀ {marketId winningSide createdAt},
    x.call = .resolveMarket marketId winningSide createdAt →
      Resolving c.committed x marketId winningSide createdAt

section Runs

variable {c c' : Conf dbStore Err Unit Action} {e : Event Action}

/-- A settlement changes the settled trades of one market. -/
theorem noneSettled_or {s t : Db} {m : Mode RowId} {a : Action} (heff : a.Effect m s t)
    (marketId : Uuid) : NoneSettled marketId s t ∨ ∃ tradeId createdAt trade,
      a = .handleSettlement tradeId createdAt ∧ s.trades.find? tradeId = some trade ∧
        trade.status = .PENDING_SETTLEMENT ∧ trade.marketId = marketId := by
  by_cases hsettle : ∃ tradeId createdAt, a = .handleSettlement tradeId createdAt
  case neg =>
    refine Or.inl fun ht hst _ => heff.settled_before (fun tradeId createdAt heq => ?_) ht hst
    exact hsettle ⟨tradeId, createdAt, heq⟩
  obtain ⟨tradeId, createdAt, rfl⟩ := hsettle
  rcases heff with rfl | hmoved
  · exact Or.inl fun ht _ _ => ht
  obtain ⟨moved, hfound, hpending, hfind⟩ := hmoved.find?_trade
  by_cases hmarket : moved.marketId = marketId
  · exact Or.inr ⟨tradeId, createdAt, moved, rfl, hfound, hpending, hmarket⟩
  · -- the settled trade belongs to another market
    refine Or.inl fun {id trade} ht _ htrade => ?_
    rw [hfind] at ht
    by_cases hid : id = tradeId
    · rw [if_pos hid] at ht
      cases ht
      exact absurd htrade hmarket
    · rw [if_neg hid] at ht
      exact ht

/-- A commit under the condition. -/
theorem PayingState.commit {i : ℕ} (h : PayingState c)
    (hc : (interleaved fun _ => True).Reachable c) (hsafe : PayoutsSafe c (.commit i))
    (hst : (interleaved fun _ => True).step c (.commit i) c') : PayingState c' := by
  have hs := coherent_of_interleaved hc
  have hg : Good Action.prog c := Good.of_reachable hc
  have hev := interleaved_evolves hc hst
  have hcommit := fun {x} (hx : c.session i = some x) => interleaved_commit hc hx hst
  cases hst with
  | @commit _ x a t hx ha hview =>
      have heff : x.call.Effect .concurrent c.committed t := hcommit hx
      obtain ⟨hcall, hoverlap⟩ := hsafe x hx
      have hpays : ∀ marketId winningSide createdAt,
          x.call = .resolveMarket marketId winningSide createdAt →
            PaysSettled marketId winningSide createdAt c.committed t :=
        fun _ _ _ hcall => (h.resolving hx hcall).paysSettled ha hview
      refine ⟨h.paid.effect h.after hs hcall heff hpays, h.after.effect_of_pays hs heff hpays, ?_⟩
      -- the resolutions in flight: none of them has read the trades if one is settled now
      intro j y hj marketId winningSide createdAt hycall
      rcases update_some hj with ⟨-, hy⟩ | ⟨hji, hy⟩
      · cases hy
      · refine (h.resolving hy hycall).agree (hg.agree hx hview hji hy) hev ?_
        rcases noneSettled_or heff marketId with hnone |
          ⟨tradeId, settledAt, trade, hsettle, hfound, hpending, rfl⟩
        · exact Or.inl hnone
        · exact Or.inr (hoverlap tradeId settledAt hsettle trade hfound hpending j y hy _ _ hycall)

/-- **The step lemma.** -/
theorem PayingState.step (h : PayingState c) (hc : (interleaved fun _ => True).Reachable c)
    (hsafe : PayoutsSafe c e) (hst : (interleaved fun _ => True).step c e c') : PayingState c' := by
  cases e with
  | commit i => exact h.commit hc hsafe hst
  | begin i k =>
      cases hst with
      | begin new hstart =>
          refine ⟨h.paid, h.after, fun {j y} hj => ?_⟩
          rcases update_some hj with ⟨-, hy⟩ | ⟨-, hy⟩
          · cases hy
            intro marketId winningSide createdAt hcall
            exact .toRead (.begun (congrArg Action.prog hcall) rfl)
          · exact h.resolving hy
  | statement i =>
      cases hst with
      | @statement _ x x' u hx hview hnext =>
          refine ⟨h.paid, h.after, fun {j y} hj => ?_⟩
          rcases update_some hj with ⟨-, hy⟩ | ⟨-, hy⟩
          · cases hy
            intro marketId winningSide createdAt hcall
            rw [hnext.call] at hcall
            exact (h.resolving hx hcall).next hview hnext
          · exact h.resolving hy
  | abort i =>
      cases hst with
      | abort hx =>
          refine ⟨h.paid, h.after, fun {j y} hj => ?_⟩
          rcases update_some hj with ⟨-, hy⟩ | ⟨-, hy⟩
          · cases hy
          · exact h.resolving hy

theorem payingState_of_reachable (h : payingExchange.Reachable c) : PayingState c := by
  refine System.Reachable.invariant_of (fun c => PayingState c)
    (fun c => (interleaved fun _ => True).Reachable c) (fun c hc => hc.of_restrict) ?_ ?_ h
  · rintro c ⟨hempty, hnone⟩
    refine ⟨?_, ?_, fun {i x} hi => ?_⟩
    · intro id trade market ht
      rw [hempty] at ht
      cases ht
    · intro id hcredit
      rw [hempty] at hcredit
      exact absurd rfl hcredit
    · rw [hnone i] at hi
      cases hi
  · rintro c e c' hc hI ⟨hsafe, hst⟩
    exact hI.step hc hsafe hst

end Runs

/-- **Every settled trade of a resolved market is paid exactly once**, in every interleaving in
which no trade is settled after its market is resolved, nor after a resolution under way has
read the settled trades, and no payout is taken for a replay. -/
theorem settled_trades_paid {c : Conf dbStore Err Unit Action} (h : payingExchange.Reachable c)
    {trade : Trade} (ht : trade ∈ c.committed.trades.rows) (hst : trade.status = .SETTLED)
    {market : Market} (hm : c.committed.markets.find? trade.marketId = some market)
    (hres : market.status = .RESOLVED) : PaidOnce c.committed trade market :=
  (payingState_of_reachable h).paid _ trade market (Table.find?_key ht) hst hm hres

/-- A test for a settled trade of a resolved market. -/
def hasSettledTradeOf (market : Uuid) (paid : Bool) (db : Db) : Bool :=
  db.trades.rows.any fun trade => trade.status = .SETTLED && trade.marketId = market &&
    (db.markets.find? trade.marketId).any (fun market => market.status = .RESOLVED) &&
    ((creditsOf db.ledger trade.id).length = 1) = paid

theorem exists_of_hasSettledTradeOf {marketId : Uuid} {paid : Bool} {db : Db}
    (h : hasSettledTradeOf marketId paid db = true) : ∃ trade ∈ db.trades.rows, ∃ market,
      trade.status = .SETTLED ∧ db.markets.find? trade.marketId = some market ∧
        market.status = .RESOLVED ∧ ((creditsOf db.ledger trade.id).length = 1 ↔ paid = true) := by
  obtain ⟨trade, ht, h⟩ := List.any_eq_true.mp h
  simp only [Bool.and_eq_true, decide_eq_true_eq, Option.any_eq_true] at h
  obtain ⟨⟨⟨hst, -⟩, market, hm, hres⟩, hpaid⟩ := h
  exact ⟨trade, ht, market, hst, hm, hres, by rw [hpaid]⟩

/-- A transaction that runs alone overlaps with no resolution. -/
theorem payoutsSafe_alone {s : Db} {a : Action} {y : Transaction} (h : a.PayoutSafe s)
    (hy : y.call = a) : PayoutsSafe (Conf.alone s y) (.commit 0) := by
  have hother : ∀ j, ∀ z ∈ (Conf.alone s y).session j, z = y := by
    intro j z hz
    rcases update_some (c := Conf.idle s) hz with ⟨-, hsome⟩ | ⟨-, hnone⟩
    · exact (Option.some.inj hsome).symm
    · cases hnone
  intro x hx
  have hxy := hother 0 x hx
  subst hxy
  refine ⟨hy ▸ h, fun _ _ hcall _ _ _ j z hz _ _ hresolve => ?_⟩
  rw [hother j z hz, hcall] at hresolve
  cases hresolve

/-- The payout of a trade. -/
theorem settled_trades_paid_sample : ∃ c : Conf dbStore Err Unit Action, ∃ trade market,
    c.committed.markets.find? trade.marketId = some market ∧
      PaidOnce c.committed trade market := by
  obtain ⟨t, hrun, hsettled⟩ := exists_of_leads
    (show leads (fun s a => a.PayoutSafe s) (Sample.matching ++
        [.handleSettlement Sample.trade 4, .resolveMarket Sample.market .YES 5])
      (hasSettledTradeOf Sample.market true) = true by decide +kernel)
  have hconf : ∃ ls, payingExchange.Run (Conf.idle Db.empty) ls (Conf.idle t) :=
    interleaved_of_runWhere (fun _ _ _ => trivial) (fun _ _ _ => trivial) (fun _ _ => trivial)
      (fun s a y ha hy => payoutsSafe_alone (of_decide_eq_true (p := a.PayoutSafe s) ha) hy) hrun
  obtain ⟨ls, hconf⟩ := hconf
  have hreach : payingExchange.Reachable (Conf.idle t) :=
    hconf.reachable (.init ⟨rfl, fun _ => rfl⟩)
  obtain ⟨trade, ht, market, hst, hm, hres, -⟩ := exists_of_hasSettledTradeOf hsettled
  exact ⟨Conf.idle t, trade, market, hm, settled_trades_paid hreach ht hst hm hres⟩

/-- A trade that has failed is re-armed and settled after the resolution, and never paid. -/
theorem settled_trades_not_paid : ¬ ∀ c : Conf dbStore Err Unit Action,
    (interleaved fun _ => True).Reachable c → ∀ trade ∈ c.committed.trades.rows,
      trade.status = .SETTLED → ∀ market,
        c.committed.markets.find? trade.marketId = some market → market.status = .RESOLVED →
          PaidOnce c.committed trade market := by
  intro hall
  obtain ⟨t, ht, hsettled⟩ := interleaved_of_leads (A := fun _ => True) (fun _ _ _ => trivial)
    (show leads (fun _ _ => true) (Sample.matching ++
        [ .markSettlementFailure Sample.trade 4, .resolveMarket Sample.market .YES 5
        , .prepareTradeForRetry Sample.trade 6, .handleSettlement Sample.trade 7 ])
      (hasSettledTradeOf Sample.market false) = true by decide +kernel)
  obtain ⟨trade, htrade, market, hst, hm, hres, hnone⟩ := exists_of_hasSettledTradeOf hsettled
  obtain ⟨-, -, -, e, -, -, -, he, -⟩ := hall _ ht trade htrade hst market hm hres
  have hlength : (creditsOf t.ledger trade.id).length = 1 := by
    rw [show creditsOf t.ledger trade.id = [e] from he]
    rfl
  simp [hlength] at hnone

end OutcomeExchange
