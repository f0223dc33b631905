import OutcomeExchange.LifeCycle
import OutcomeExchange.LockOrder
import OutcomeExchange.Runs
import OutcomeExchange.Txn.Schedule

set_option autoImplicit false

/-! # Deadlocks

Because of the order in which every transaction locks its rows (`LockOrder.lean`), transactions
wait for each other in a cycle only on wallets (`wallet_of_before_cycle`), where five of them
lock the wallets of two users, in an order that depends on the trade. There is no cycle where
those under way agree on an order of the users (`no_deadlock_in_order`), and in particular if no
two of the five run at the same time (`never_deadlocked`). `Sample.halfSettled` is a cycle of
two settlements.

As in `LockOrder.lean`, the locks are those that the statements ask for by themselves: the locks
on behalf of foreign keys and unique indexes are not modelled. -/

namespace OutcomeExchange

open Txn

/-! ## Every interleaving -/

/-- The database generates the identifier of a trade anew: no trade and no other attempt that
is under way has it. -/
def NewTradeId (c : Conf dbStore Err Unit Action) : Event Action → Prop
  | .begin _ (.tryMatchOrder _ tradeId) => c.committed.trades.find? tradeId = none ∧
      ∀ j y orderId, c.session j = some y → y.call ≠ .tryMatchOrder orderId tradeId
  | _ => True

/-- The transactions of the exchange but the bulk `UPDATE`, interleaved under row locks. -/
def lockingExchange : System (Conf dbStore Err Unit Action) (Event Action) :=
  (interleaved fun a => a.closesExpired = false).restrict NewTradeId

/-- What is known of the trades that running sessions insert or hold. -/
structure TradeIds (c : Conf dbStore Err Unit Action) : Prop where
  unborn : ∀ {i x orderId tradeId}, c.session i = some x →
    x.call = .tryMatchOrder orderId tradeId → c.committed.trades.find? tradeId = none
  distinct : ∀ {i j x y orderId orderId' tradeId}, i ≠ j → c.session i = some x →
    c.session j = some y → x.call = .tryMatchOrder orderId tradeId →
      y.call ≠ .tryMatchOrder orderId' tradeId
  held : ∀ {i x tradeId}, c.session i = some x → RowId.trade tradeId ∈ x.held →
    c.committed.trades.find? tradeId ≠ none ∨ ∃ orderId, x.call = .tryMatchOrder orderId tradeId

section Runs

variable {c c' : Conf dbStore Err Unit Action} {e : Event Action}

/-- An attempt inserts no other trade than its own. -/
theorem trade_before_of_effect {m : Mode RowId} {s t : Db} {a : Action} (h : a.Effect m s t)
    {id : Uuid} (ha : ∀ orderId, a ≠ .tryMatchOrder orderId id) (hs : s.trades.find? id = none) :
    t.trades.find? id = none := by
  by_contra hthere
  obtain ⟨trade, htrade⟩ := Option.ne_none_iff_exists'.mp hthere
  by_cases htry : ∃ orderId tradeId, a = .tryMatchOrder orderId tradeId
  · obtain ⟨orderId, tradeId, rfl⟩ := htry
    rcases h with rfl | hmade
    · rw [hs] at htrade
      cases htrade
    · obtain @⟨order, counterparty, os, found, isOpen, other, complements, saved, otherSaved,
        columns, inserted, rest⟩ := hmade
      rw [Table.find?_insert inserted] at htrade
      by_cases hid : tradeId = id
      · exact ha orderId (by rw [hid])
      · have hkey : Row.key (matchedTrade order counterparty tradeId) ≠ id := hid
        rw [if_neg hkey, hs] at htrade
        cases htrade
  · obtain ⟨trade', htrade'⟩ := h.trade_before
      (fun orderId tradeId heq => htry ⟨orderId, tradeId, heq⟩) htrade
    rw [hs] at htrade'
    cases htrade'

/-- A row that the session does not hold is in its view as it is committed. -/
theorem view_frame (hg : Good Action.prog c) {i : ℕ} {x : Session dbStore Err Unit Action} {s : Db}
    (hx : c.session i = some x) (hs : x.view c.committed = .ok s) {r : RowId} (hr : r ∉ x.held) :
    r.slice s = r.slice c.committed :=
  applyAll_frame hr (hg.owns hx) hs

/-- A trade that a session holds was there when it locked it, or is the one it inserts. -/
theorem TradeIds.held_step (h : TradeIds c) (hg : Good Action.prog c)
    (hasks : Asking Action.locks c) {A : Action → Prop} (hst : (interleaved A).step c e c') {j : ℕ}
    {y : Session dbStore Err Unit Action} {tradeId : Uuid} (hj : c'.session j = some y)
    (hheld : RowId.trade tradeId ∈ y.held) :
    c'.committed.trades.find? tradeId ≠ none ∨
      ∃ orderId, y.call = .tryMatchOrder orderId tradeId := by
  cases hst with
  | @begin i k new hstart =>
      rcases update_some hj with ⟨-, hy⟩ | ⟨-, hyj⟩
      · cases hy
        cases hheld
      · exact h.held hyj hheld
  | @statement i x x' s hx hs hnext =>
      rcases update_some hj with ⟨-, hy⟩ | ⟨-, hyj⟩
      · cases hy
        rw [hnext.call]
        rcases (hasks i x hx).locks hs hnext hheld with hold | hask | ⟨id, hid⟩
        · exact h.held hx hold
        · rcases hask with hold | ⟨hnil, hthere⟩ | hown
          · exact h.held hx hold
          · -- the first row of the transaction, so that its view of it is the committed one
            refine Or.inl ?_
            have hframe := view_frame hg hx hs (r := .trade tradeId)
              (by rw [hnil]; exact List.not_mem_nil)
            rw [show c.committed.trades.find? tradeId = s.trades.find? tradeId from hframe.symm]
            exact hthere
          · exact Or.inr hown
        · cases hid
      · exact h.held hyj hheld
  | @commit i x a s hx ha hs =>
      rcases update_some hj with ⟨-, hy⟩ | ⟨hne, hyj⟩
      · cases hy
      · -- what is committed does not touch the rows of other sessions
        have hsame : c.committed.trades.find? tradeId = s.trades.find? tradeId :=
          hg.agree hx hs hne hyj _ hheld
        show s.trades.find? tradeId ≠ none ∨ _
        rw [← hsame]
        exact h.held hyj hheld
  | @abort i x hx =>
      rcases update_some hj with ⟨-, hy⟩ | ⟨-, hyj⟩
      · cases hy
      · exact h.held hyj hheld

/-- Nobody else inserts the trade of an attempt. -/
theorem TradeIds.unborn_step (h : TradeIds c) (hreach : lockingExchange.Reachable c)
    (hst : lockingExchange.step c e c') {j : ℕ} {y : Session dbStore Err Unit Action}
    {orderId tradeId : Uuid} (hj : c'.session j = some y)
    (hcall : y.call = .tryMatchOrder orderId tradeId) :
    c'.committed.trades.find? tradeId = none := by
  obtain ⟨hnew, hst⟩ := hst
  rcases Conf.Step.session hst hj with ⟨rfl, hsame⟩ | ⟨y₀, hy₀, hcall₀, hnot⟩
  · -- the attempt begins, with an identifier that no trade has
    rw [hcall] at hnew
    rw [hsame]
    exact hnew.1
  · rw [← hcall₀] at hcall
    have hunborn := h.unborn hy₀ hcall
    rcases interleaved_step hreach.of_restrict hst with hsame | ⟨i, x, rfl, hx, -, heff, -⟩
    · rw [hsame]
      exact hunborn
    · -- another session commits, whose trade has another identifier
      have hne : j ≠ i := fun heq => hnot (by rw [heq])
      exact trade_before_of_effect heff (fun _ => h.distinct hne hy₀ hx hcall) hunborn

/-- No two attempts under way are to insert the same trade. -/
theorem TradeIds.distinct_step (h : TradeIds c) (hst : lockingExchange.step c e c') {i j : ℕ}
    {x y : Session dbStore Err Unit Action} {orderId orderId' tradeId : Uuid} (hne : i ≠ j)
    (hi : c'.session i = some x) (hj : c'.session j = some y)
    (hcall : x.call = .tryMatchOrder orderId tradeId) :
    y.call ≠ .tryMatchOrder orderId' tradeId := by
  intro hcall'
  obtain ⟨hnew, hst⟩ := hst
  rcases Conf.Step.session hst hi with ⟨rfl, -⟩ | ⟨x₀, hx₀, hcallx, -⟩
  · rw [hcall] at hnew
    rcases Conf.Step.session hst hj with ⟨he, -⟩ | ⟨y₀, hy₀, hcally, -⟩
    · injection he with hij
      exact hne hij
    · exact hnew.2 j y₀ orderId' hy₀ (hcally.trans hcall')
  · rcases Conf.Step.session hst hj with ⟨rfl, -⟩ | ⟨y₀, hy₀, hcally, -⟩
    · rw [hcall'] at hnew
      exact hnew.2 i x₀ orderId hx₀ (hcallx.trans hcall)
    · exact h.distinct hne hx₀ hy₀ (hcallx.trans hcall) (hcally.trans hcall')

theorem TradeIds.step (hreach : lockingExchange.Reachable c) (h : TradeIds c)
    (hasks : Asking Action.locks c) (hst : lockingExchange.step c e c') : TradeIds c' where
  unborn hj hcall := h.unborn_step hreach hst hj hcall
  distinct hne hi hj hcall := h.distinct_step hst hne hi hj hcall
  held hj hheld := h.held_step (Good.of_reachable hreach.of_restrict) hasks hst.2 hj hheld

/-- The invariants of the locks. -/
theorem locking_invariant (h : lockingExchange.Reachable c) :
    Asking Action.locks c ∧ TradeIds c := by
  refine h.invariant_of (fun c => Asking Action.locks c ∧ TradeIds c)
    (fun c => lockingExchange.Reachable c) (fun c hc => hc) ?_ ?_
  · rintro c ⟨-, hnone⟩
    refine ⟨fun i x hi => ?_, ⟨fun {i x o t} hi => ?_, fun {i j x y o o' t} _ hi => ?_,
      fun {i x t} hi => ?_⟩⟩
    all_goals
      rw [hnone i] at hi
      cases hi
  · rintro c e c' hreach ⟨hasks, hids⟩ hst
    refine ⟨?_, hids.step hreach hasks hst⟩
    have hinter := hreach.of_restrict
    refine hasks.step (Good.of_reachable hinter) ?_ hst.2
    rintro i k rfl u
    have hcoh : c.committed.Coherent := coherent_of_interleaved hinter
    obtain ⟨-, hst⟩ := hst
    cases hst with
    | begin new hstart => exact asks_prog hstart.1 (hstart.2.nil hcoh) u

/-! ## Cycles -/

/-- What stands before a row that a session waits for: before a wallet anything, before an
order a market or a trade, or the first order of a trade before its second. -/
theorem before_cases (h : lockingExchange.Reachable c) {r r' : RowId} (hbefore : c.Before r r') :
    (∃ u, r' = .wallet u) ∨ ∃ id, r' = .order id ∧ (r.aboveOrders ∨
      ∃ trade : Trade, c.committed.trades.find? trade.id = some trade ∧
        r = .order trade.yesOrderId ∧ id = trade.noOrderId) := by
  obtain ⟨hasks, hids⟩ := locking_invariant h
  have hg : Good Action.prog c := Good.of_reachable h.of_restrict
  obtain ⟨i, j, x, hx, hr, hwaits⟩ := hbefore
  obtain ⟨x', s, hx', hs, hneeds⟩ := hwaits.needs
  rw [hx] at hx'
  cases hx'
  obtain ⟨y, hy, hr'⟩ := hwaits.held
  have hnot : r' ∉ x.held := hg.exclusive hwaits.other hy hx r' hr'
  rcases (hasks i x hx).allowed hs hneeds with hmem | hask
  · exact absurd hmem hnot
  cases r' with
  | wallet u => exact Or.inl ⟨u, rfl⟩
  | market id =>
      have hnil : x.held = [] := hask
      rw [hnil] at hr
      cases hr
  | trade id =>
      rcases hask with ⟨hnil, -⟩ | ⟨orderId, hcall⟩
      · rw [hnil] at hr
        cases hr
      -- nobody else has the identifier of the trade that is inserted
      · rcases hids.held hy hr' with hthere | ⟨orderId', hcall'⟩
        · exact absurd (hids.unborn hx hcall) hthere
        · exact absurd hcall' (hids.distinct (Ne.symm hwaits.other) hx hy hcall)
  | order id =>
      refine Or.inr ⟨id, rfl, ?_⟩
      rcases hask with habove | ⟨hclean, trade, htrade, -, hid, hheld⟩
      · exact Or.inl (habove r hr)
      · rcases hheld r hr with rfl | rfl
        · exact Or.inl trivial
        · refine Or.inr ⟨trade, ?_, rfl, hid⟩
          -- the session has written nothing, so it sees what is committed
          rw [Session.view, List.isEmpty_iff.mp hclean] at hs
          cases hs
          exact htrade

/-- Every row of a cycle has one before it. -/
theorem before_of_cycle {r r' : RowId} (hbefore : c.Before r r')
    (hback : Relation.ReflTransGen c.Before r' r) :
    ∃ p, c.Before p r ∧ Relation.ReflTransGen c.Before r p := by
  rcases Relation.ReflTransGen.cases_tail hback with heq | ⟨p, hpath, hp⟩
  · exact ⟨r, heq ▸ hbefore, .refl⟩
  · exact ⟨p, hp, (Relation.ReflTransGen.single hbefore).trans hpath⟩

/-- **A cycle of rows consists of wallets.** -/
theorem wallet_of_before_cycle (h : lockingExchange.Reachable c) {r r' : RowId}
    (hbefore : c.Before r r') (hback : Relation.ReflTransGen c.Before r' r) :
    ∃ u, r' = .wallet u := by
  -- nothing stands before a market or a trade
  have hnot : ∀ {q q' : RowId}, c.Before q q' → Relation.ReflTransGen c.Before q' q →
      ¬ q.aboveOrders := by
    intro q q' hq hpath habove
    obtain ⟨p, hp, -⟩ := before_of_cycle hq hpath
    rcases before_cases h hp with ⟨u, rfl⟩ | ⟨id, rfl, -⟩
    · exact habove
    · exact habove
  rcases before_cases h hbefore with hwallet | ⟨id, rfl, hrest⟩
  · exact hwallet
  exfalso
  rcases hrest with habove | ⟨trade, htrade, rfl, -⟩
  · exact hnot hbefore hback habove
  -- the first order of a trade would also be the second one of a trade
  obtain ⟨p, hp, hpath⟩ := before_of_cycle hbefore hback
  rcases before_cases h hp with ⟨u, hu⟩ | ⟨id', hid', hrest'⟩
  · cases hu
  rcases hrest' with habove | ⟨trade', htrade', -, hsecond⟩
  · exact hnot hp hpath habove
  obtain rfl : trade.yesOrderId = id' := RowId.order.inj hid'
  have hcoh : c.committed.Coherent := coherent_of_interleaved h.of_restrict
  obtain ⟨y, _, hy, _, hpair⟩ := Coherent.pair hcoh htrade
  obtain ⟨_, n, _, hn, hpair'⟩ := Coherent.pair hcoh htrade'
  rw [hsecond, hn] at hy
  have hside : n.side = y.side := by rw [Option.some.inj hy]
  rw [hpair.yes_side, hpair'.no_side] at hside
  cases hside

end Runs

/-! ## A deadlock of two settlements -/

namespace Sample

def bobYes : Uuid := ⟨"00000000-0000-4000-8000-000000000041", by decide⟩
def aliceNo : Uuid := ⟨"00000000-0000-4000-8000-000000000042", by decide⟩
def swapped : Uuid := ⟨"00000000-0000-4000-8000-000000000043", by decide⟩

/-- A transaction of `n` statements while no other one runs. -/
def alone (a : Action) (n : ℕ) : List (Event Action) :=
  .begin 0 a :: List.replicate n (.statement 0) ++ [.commit 0]

/-- Two trades between the same users, who change sides. -/
def bothWays : List (Event Action) :=
  [ alone (.createWalletForUser alice alice) 2
  , alone (.createWalletForUser bob bob) 2
  , alone (.createMarket 1000 market 0) 2
  , alone (.deposit alice (depositDto "deposit-of-alice" (by decide) (by decide)) 1) 4
  , alone (.deposit bob (depositDto "deposit-of-bob" (by decide) (by decide)) 1) 4
  , alone (.placeOrder alice yesDto yesOrder 2 2) 7
  , alone (.placeOrder bob noDto noOrder 3 3) 7
  , alone (.tryMatchOrder noOrder trade) 6
  , alone (.placeOrder bob yesDto bobYes 4 4) 7
  , alone (.placeOrder alice noDto aliceNo 5 5) 7
  , alone (.tryMatchOrder aliceNo swapped) 6 ].flatten

/-- Both settlements have moved their first wallet. -/
def halfSettled : List (Event Action) :=
  bothWays ++ .begin 0 (.handleSettlement trade 6) :: List.replicate 7 (.statement 0) ++
    .begin 1 (.handleSettlement swapped 7) :: List.replicate 7 (.statement 1)

/-- The action inserts a trade of this identifier. -/
def insertsTrade (tradeId : Uuid) : Action → Bool
  | .tryMatchOrder _ id => decide (id = tradeId)
  | _ => false

/-- What `lockingExchange` asks of an event. -/
def mayHappen (s : Db) (l : List (Option (Session dbStore Err Unit Action))) :
    Event Action → Bool
  | .begin _ a =>
      decide (a.closesExpired = false) && decide (a.Starts s) &&
      (match a with
        | .tryMatchOrder _ tradeId => decide (s.trades.find? tradeId = none) &&
            l.all fun o => !o.any fun x => insertsTrade tradeId x.call
        | _ => true)
  | _ => true

theorem mem_of_session {s : Db} {l : List (Option (Session dbStore Err Unit Action))} {j : ℕ}
    {y : Session dbStore Err Unit Action} (hy : (Conf.ofList s l).session j = some y) :
    some y ∈ l := by
  obtain ⟨z, hz, hzy⟩ := Option.bind_eq_some_iff.mp (show l[j]?.join = some y from hy)
  rw [← show z = some y from hzy]
  exact List.mem_of_getElem? hz

theorem mayHappen_allows (s : Db) (l : List (Option (Session dbStore Err Unit Action)))
    (e : Event Action) (h : mayHappen s l e = true) :
    NewTradeId (Conf.ofList s l) e ∧
      ∀ i k, e = .begin i k → k.closesExpired = false ∧ k.Starts s := by
  cases e with
  | statement i => exact ⟨trivial, fun _ _ heq => nomatch heq⟩
  | commit i => exact ⟨trivial, fun _ _ heq => nomatch heq⟩
  | abort i => exact ⟨trivial, fun _ _ heq => nomatch heq⟩
  | begin i a =>
      simp only [mayHappen, Bool.and_eq_true, decide_eq_true_eq] at h
      obtain ⟨⟨hkind, hstarts⟩, hnew⟩ := h
      refine ⟨?_, fun i' k heq => ?_⟩
      · cases a with
        | tryMatchOrder orderId tradeId =>
            simp only [Bool.and_eq_true, decide_eq_true_eq, List.all_eq_true] at hnew
            refine ⟨hnew.1, fun j y o hy hcall => ?_⟩
            have hother := hnew.2 (some y) (mem_of_session hy)
            rw [Option.any_some, hcall] at hother
            simp [insertsTrade] at hother
        | _ => trivial
      · injection heq with _ hak
        rw [← hak]
        exact ⟨hkind, hstarts⟩

end Sample

/-- The two settlements wait for each other. -/
theorem Sample.halfSettled_deadlocked : ∃ (es : List (Event Action))
    (c : Conf dbStore Err Unit Action), lockingExchange.Run (Conf.idle Db.empty) es c ∧
      c.Deadlocked 0 (.wallet Sample.bob) := by
  have hplay : (Conf.play Action.prog Sample.mayHappen Sample.halfSettled Db.empty
      [none, none]).any (fun c => waitsIn c.1 c.2 0 (.wallet Sample.bob) 1 &&
        waitsIn c.1 c.2 1 (.wallet Sample.alice) 0) = true := by
    decide +kernel
  obtain ⟨⟨s, l⟩, hc, hwait⟩ := (Option.any_eq_true _ _).mp hplay
  obtain ⟨hfirst, hsecond⟩ := Bool.and_eq_true_iff.mp hwait
  have hrun : lockingExchange.Run (Conf.ofList Db.empty [none, none]) Sample.halfSettled
      (Conf.ofList s l) := run_of_play Sample.mayHappen_allows hc
  rw [show Conf.ofList Db.empty [none, none] = Conf.idle Db.empty from Conf.ofList_idle _ 2] at hrun
  exact ⟨_, _, hrun, 1, waits_of_waitsIn hfirst, .single ⟨_, waits_of_waitsIn hsecond⟩⟩

/-! ## One order of the users -/

/-- The transactions under way that hold the wallet of one user and have still to lock the
wallet of another do so along one order of the users. -/
def WalletsInOrder (c : Conf dbStore Err Unit Action) : Prop :=
  ∃ rank : Uuid → ℕ, ∀ i x s, c.session i = some x → x.view c.committed = .ok s →
    ∀ v u, RowId.wallet v ∈ x.held → RowId.wallet u ∈ x.rest.toLock s →
      RowId.wallet u ∉ x.held → rank v < rank u

/-- **Deadlock freedom**: in every reachable state in which the transactions under way lock
the wallets of different users along one order, none of them waits in a cycle. -/
theorem no_deadlock_in_order {c : Conf dbStore Err Unit Action} (h : lockingExchange.Reachable c)
    (horder : WalletsInOrder c) (i : ℕ) (r : RowId) : ¬ c.Deadlocked i r := by
  obtain ⟨rank, hrank⟩ := horder
  have hg : Good Action.prog c := Good.of_reachable h.of_restrict
  have hup : ∀ {v u}, c.Before (.wallet v) (.wallet u) → rank v < rank u := by
    rintro v u ⟨k, j, x, hx, hv, hwaits⟩
    obtain ⟨x', s, hx', hs, hneeds⟩ := hwaits.needs
    rw [hx] at hx'
    cases hx'
    obtain ⟨y, hy, hu⟩ := hwaits.held
    have hnot : RowId.wallet u ∉ x.held := hg.exclusive hwaits.other hy hx _ hu
    exact hrank k x s hx hs v u hv hneeds.toLock hnot
  intro hdead
  obtain ⟨-, last, -, -, hlast, hback⟩ := hdead.before_cycle
  obtain ⟨u, rfl⟩ := wallet_of_before_cycle h hlast hback
  -- along the cycle there are wallets only, and the rank goes up
  have hpath : ∀ {q}, Relation.ReflTransGen c.Before (.wallet u) q →
      Relation.ReflTransGen c.Before q last → ∃ v, q = .wallet v ∧ rank u ≤ rank v := by
    intro q hto
    induction hto with
    | refl => exact fun _ => ⟨u, rfl, le_refl _⟩
    | @tail p q hbefore hstep ih =>
        intro hrest
        obtain ⟨v, rfl, hle⟩ := ih (.head hstep hrest)
        have hcycle : Relation.ReflTransGen c.Before q (.wallet v) :=
          (hrest.tail hlast).trans hbefore
        obtain ⟨w, rfl⟩ := wallet_of_before_cycle h hstep hcycle
        have hlt := hup hstep
        exact ⟨w, rfl, by omega⟩
  obtain ⟨v, rfl, hle⟩ := hpath hback .refl
  have hlt := hup hlast
  omega

namespace Sample

def parallelYes : Uuid := ⟨"00000000-0000-4000-8000-000000000044", by decide⟩
def parallelNo : Uuid := ⟨"00000000-0000-4000-8000-000000000045", by decide⟩
def parallelTrade : Uuid := ⟨"00000000-0000-4000-8000-000000000046", by decide⟩

def parallelYesDto : PlaceOrderDto :=
  ⟨market, .YES, 45, 2, "parallel-yes-order", by decide, by decide, by decide, by decide⟩

def parallelNoDto : PlaceOrderDto :=
  ⟨market, .NO, 55, 2, "parallel-no-order", by decide, by decide, by decide, by decide⟩

/-- Two trades between the same users on the same sides: one settlement has moved its first
wallet, and the other one needs that wallet. -/
def sameWay : List (Event Action) :=
  [ alone (.createWalletForUser alice alice) 2
  , alone (.createWalletForUser bob bob) 2
  , alone (.createMarket 1000 market 0) 2
  , alone (.deposit alice (depositDto "deposit-of-alice" (by decide) (by decide)) 1) 4
  , alone (.deposit bob (depositDto "deposit-of-bob" (by decide) (by decide)) 1) 4
  , alone (.placeOrder alice yesDto yesOrder 2 2) 7
  , alone (.placeOrder bob noDto noOrder 3 3) 7
  , alone (.tryMatchOrder noOrder trade) 6
  , alone (.placeOrder alice parallelYesDto parallelYes 4 4) 7
  , alone (.placeOrder bob parallelNoDto parallelNo 5 5) 7
  , alone (.tryMatchOrder parallelNo parallelTrade) 6
  , .begin 0 (.handleSettlement trade 6) :: List.replicate 7 (.statement 0)
  , .begin 1 (.handleSettlement parallelTrade 7) :: List.replicate 3 (.statement 1) ].flatten

/-- `WalletsInOrder`, as a test on a list of sessions. -/
def goesUp (rank : Uuid → ℕ) (s : Db) (l : List (Option (Session dbStore Err Unit Action))) :
    Bool :=
  l.all fun o => o.all fun x =>
    match x.view s with
    | .error _ => true
    | .ok t => x.held.all fun r => (x.rest.toLock t).all fun r' =>
        match r, r' with
        | .wallet v, .wallet u => decide (RowId.wallet u ∈ x.held) || decide (rank v < rank u)
        | _, _ => true

theorem walletsInOrder_of_goesUp {rank : Uuid → ℕ} {s : Db}
    {l : List (Option (Session dbStore Err Unit Action))} (h : goesUp rank s l = true) :
    WalletsInOrder (Conf.ofList s l) := by
  refine ⟨rank, fun i x t hx ht v u hv hu hnot => ?_⟩
  have hall := List.all_eq_true.mp h (some x) (mem_of_session hx)
  have hview : x.view s = .ok t := ht
  simp only [Option.all_some, hview, List.all_eq_true] at hall
  have hpair := hall _ hv _ hu
  simpa [hnot] using hpair

end Sample

/-- The settlements of two trades on the same sides: the second waits for the first. -/
theorem no_deadlock_in_order_sample : ∃ (es : List (Event Action))
    (c : Conf dbStore Err Unit Action), lockingExchange.Run (Conf.idle Db.empty) es c ∧
      c.Waits 1 (.wallet Sample.alice) 0 ∧ ∀ i r, ¬ c.Deadlocked i r := by
  have hplay : (Conf.play Action.prog Sample.mayHappen Sample.sameWay Db.empty
      [none, none]).any (fun c => waitsIn c.1 c.2 1 (.wallet Sample.alice) 0 &&
        Sample.goesUp (fun u => if u = Sample.alice then 0 else 1) c.1 c.2) = true := by
    decide +kernel
  obtain ⟨⟨s, l⟩, hc, hwait⟩ := (Option.any_eq_true _ _).mp hplay
  obtain ⟨hwait, horder⟩ := Bool.and_eq_true_iff.mp hwait
  have hrun : lockingExchange.Run (Conf.ofList Db.empty [none, none]) Sample.sameWay
      (Conf.ofList s l) := run_of_play Sample.mayHappen_allows hc
  rw [show Conf.ofList Db.empty [none, none] = Conf.idle Db.empty from Conf.ofList_idle _ 2] at hrun
  exact ⟨_, _, hrun, waits_of_waitsIn hwait,
    no_deadlock_in_order (hrun.reachable (.init ⟨rfl, fun _ => rfl⟩))
      (Sample.walletsInOrder_of_goesUp horder)⟩

/-- Two settlements of trades between the same users, who changed sides, wait for each other. -/
theorem settlements_deadlock : ¬ ∀ c : Conf dbStore Err Unit Action,
    lockingExchange.Reachable c → ∀ i r, ¬ c.Deadlocked i r := by
  intro hall
  obtain ⟨es, c, hrun, hdead⟩ := Sample.halfSettled_deadlocked
  exact hall c (hrun.reachable (.init ⟨rfl, fun _ => rfl⟩)) 0 _ hdead

/-! ## Who waits in a deadlock -/

/-- **Deadlocks are on wallets**: a transaction that waits in a cycle waits for a wallet while
it holds another user's wallet, so it is one of the five that move the wallets of two users. -/
theorem deadlocked_on_wallets {c : Conf dbStore Err Unit Action} {i : ℕ} {r : RowId}
    (h : lockingExchange.Reachable c) (hdead : c.Deadlocked i r) :
    ∃ u v x, r = .wallet u ∧ c.session i = some x ∧ RowId.wallet v ∈ x.held ∧ u ≠ v ∧
      x.call.locksTwoWallets = true := by
  obtain ⟨x, r', hx, hr', hbefore, hback⟩ := hdead.before_cycle
  obtain ⟨u, rfl⟩ := wallet_of_before_cycle h hbefore hback
  obtain ⟨p, hp, hpath⟩ := before_of_cycle hbefore hback
  obtain ⟨v, rfl⟩ := wallet_of_before_cycle h hp hpath
  obtain ⟨j, hwaits, -⟩ := hdead
  obtain ⟨x', s, hx', hs, hneeds⟩ := hwaits.needs
  rw [hx] at hx'
  cases hx'
  have hg : Good Action.prog c := Good.of_reachable h.of_restrict
  obtain ⟨y, hy, hu⟩ := hwaits.held
  have hnot : RowId.wallet u ∉ x.held := hg.exclusive hwaits.other hy hx _ hu
  refine ⟨u, v, x, rfl, hx, hr', fun huv => hnot (huv ▸ hr'), ?_⟩
  obtain ⟨hasks, -⟩ := locking_invariant h
  rcases (hasks i x hx).allowed hs hneeds with hmem | hfirst | htwo
  · exact absurd hmem hnot
  · exact absurd hr' (hfirst v)
  · exact htwo

/-- Two settlements of trades between the same users, who changed sides, can deadlock. -/
theorem deadlock_sample : ∃ (es : List (Event Action)) (c : Conf dbStore Err Unit Action),
    lockingExchange.Run (Conf.idle Db.empty) es c ∧ c.Deadlocked 0 (.wallet Sample.bob) ∧
      ∃ u v x, RowId.wallet Sample.bob = .wallet u ∧ c.session 0 = some x ∧
        RowId.wallet v ∈ x.held ∧ u ≠ v ∧ x.call.locksTwoWallets = true := by
  obtain ⟨es, c, hrun, hdead⟩ := Sample.halfSettled_deadlocked
  exact ⟨es, c, hrun, hdead,
    deadlocked_on_wallets (hrun.reachable (.init ⟨rfl, fun _ => rfl⟩)) hdead⟩

/-- A transaction that moves the wallets of two users begins only while no other one runs. -/
def OneAtATime (c : Conf dbStore Err Unit Action) : Event Action → Prop
  | .begin _ a => a.locksTwoWallets = true →
      ∀ j y, c.session j = some y → y.call.locksTwoWallets = false
  | _ => True

/-- At most one of the transactions under way locks two wallets. -/
def AtMostOne (c : Conf dbStore Err Unit Action) : Prop :=
  ∀ i j x y, i ≠ j → c.session i = some x → c.session j = some y →
    x.call.locksTwoWallets = true → y.call.locksTwoWallets = false

theorem AtMostOne.step {c c' : Conf dbStore Err Unit Action} {e : Event Action} (h : AtMostOne c)
    (hst : (lockingExchange.restrict OneAtATime).step c e c') : AtMostOne c' := by
  intro i j x y hne hx hy htwo
  obtain ⟨honly, -, hst⟩ := hst
  rcases Conf.Step.session hst hx with ⟨rfl, -⟩ | ⟨x₀, hx₀, hcallx, -⟩
  · rcases Conf.Step.session hst hy with ⟨he, -⟩ | ⟨y₀, hy₀, hcally, -⟩
    · injection he with hij
      exact absurd hij hne
    · rw [← hcally]
      exact honly htwo j y₀ hy₀
  · rw [← hcallx] at htwo
    rcases Conf.Step.session hst hy with ⟨rfl, -⟩ | ⟨y₀, hy₀, hcally, -⟩
    · -- the second one cannot have begun while the first was under way
      by_contra hnot
      rw [honly (Bool.eq_true_of_not_eq_false hnot) i x₀ hx₀] at htwo
      cases htwo
    · rw [← hcally]
      exact h i j x₀ y₀ hne hx₀ hy₀ htwo

/-- **One at a time they never deadlock.** -/
theorem never_deadlocked {c : Conf dbStore Err Unit Action}
    (h : (lockingExchange.restrict OneAtATime).Reachable c) (i : ℕ) (r : RowId) :
    ¬ c.Deadlocked i r := by
  have hone : AtMostOne c := by
    refine h.invariant AtMostOne ?_ fun _ _ _ hI hst => hI.step hst
    rintro c ⟨-, hnone⟩ i j x y - hx
    rw [hnone i] at hx
    cases hx
  intro hdead
  -- two sessions of the cycle would both lock two wallets
  obtain ⟨j, r', hne, hdead'⟩ := hdead.next
  obtain ⟨-, -, x, -, hx, -, -, htwo⟩ := deadlocked_on_wallets h.of_restrict hdead
  obtain ⟨-, -, y, -, hy, -, -, htwo'⟩ := deadlocked_on_wallets h.of_restrict hdead'
  rw [hone i j x y (Ne.symm hne) hx hy htwo] at htwo'
  cases htwo'

namespace Sample

/-- `mayHappen` with the condition `OneAtATime`. -/
def oneAtATime (s : Db) (l : List (Option (Session dbStore Err Unit Action)))
    (e : Event Action) : Bool :=
  mayHappen s l e && match e with
    | .begin _ a => !a.locksTwoWallets || l.all fun o => !o.any fun x => x.call.locksTwoWallets
    | _ => true

theorem oneAtATime_allows (s : Db) (l : List (Option (Session dbStore Err Unit Action)))
    (e : Event Action) (h : oneAtATime s l e = true) :
    (NewTradeId (Conf.ofList s l) e ∧ OneAtATime (Conf.ofList s l) e) ∧
      ∀ i k, e = .begin i k → k.closesExpired = false ∧ k.Starts s := by
  obtain ⟨hmay, hone⟩ := Bool.and_eq_true_iff.mp h
  obtain ⟨hnew, hstart⟩ := mayHappen_allows s l e hmay
  refine ⟨⟨hnew, ?_⟩, hstart⟩
  cases e with
  | begin i a =>
      intro htwo j y hy
      simp only [htwo, Bool.not_true, Bool.false_or, List.all_eq_true] at hone
      simpa using hone (some y) (mem_of_session hy)
  | _ => trivial

/-- A settlement has moved its first wallet, and the owner of that wallet deposits. -/
def depositWaits : List (Event Action) :=
  bothWays ++ .begin 0 (.handleSettlement trade 6) :: List.replicate 7 (.statement 0) ++
    [.begin 1 (.deposit alice (depositDto "deposit-while-settling" (by decide) (by decide)) 7)]

end Sample

/-- A deposit that waits for a settlement waits only as long as the settlement runs. -/
theorem waiting_sample : ∃ (es : List (Event Action)) (c : Conf dbStore Err Unit Action),
    (lockingExchange.restrict OneAtATime).Run (Conf.idle Db.empty) es c ∧
      c.Waits 1 (.wallet Sample.alice) 0 ∧ ¬ c.Deadlocked 1 (.wallet Sample.alice) := by
  have hplay : (Conf.play Action.prog Sample.oneAtATime Sample.depositWaits Db.empty
      [none, none]).any (fun c => waitsIn c.1 c.2 1 (.wallet Sample.alice) 0) = true := by
    decide +kernel
  obtain ⟨⟨s, l⟩, hc, hwait⟩ := (Option.any_eq_true _ _).mp hplay
  have hrun : (lockingExchange.restrict OneAtATime).Run (Conf.ofList Db.empty [none, none])
      Sample.depositWaits (Conf.ofList s l) :=
    (run_of_play Sample.oneAtATime_allows hc).restrict_and
  rw [show Conf.ofList Db.empty [none, none] = Conf.idle Db.empty from Conf.ofList_idle _ 2] at hrun
  exact ⟨_, _, hrun, waits_of_waitsIn hwait,
    never_deadlocked (hrun.reachable (.init ⟨rfl, fun _ => rfl⟩)) _ _⟩

end OutcomeExchange
