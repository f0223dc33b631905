import OutcomeExchange.Exchange

set_option autoImplicit false

/-! # Runs of the exchange

Lists of actions executed one after the other by `Prog.run`, as a function. What such a
run leaves is reachable in both systems, so a run that computes a state is a proof that
the state can occur. -/

namespace OutcomeExchange

open Txn

instance (s : Db) (a : Action) : Decidable (a.Starts s) :=
  match a with
  | .reopenOrders orders => inferInstanceAs (Decidable (orders = orphanOrders s))
  | .createWalletForUser _ _ => inferInstanceAs (Decidable True)
  | .deposit _ _ _ => inferInstanceAs (Decidable True)
  | .withdraw _ _ _ => inferInstanceAs (Decidable True)
  | .createMarket _ _ _ => inferInstanceAs (Decidable True)
  | .closeMarket _ _ => inferInstanceAs (Decidable True)
  | .closeExpiredMarkets _ => inferInstanceAs (Decidable True)
  | .resolveMarket _ _ _ => inferInstanceAs (Decidable True)
  | .placeOrder _ _ _ _ _ => inferInstanceAs (Decidable True)
  | .cancelOrder _ _ _ => inferInstanceAs (Decidable True)
  | .tryMatchOrder _ _ => inferInstanceAs (Decidable True)
  | .failPendingTradeAndReleaseFunds _ _ => inferInstanceAs (Decidable True)
  | .handleSettlement _ _ => inferInstanceAs (Decidable True)
  | .markSettlementFailure _ _ => inferInstanceAs (Decidable True)
  | .prepareTradeForRetry _ _ => inferInstanceAs (Decidable True)

/-- The actions executed one after the other, as long as each meets `C` where it starts. -/
def runWhere (C : Db → Action → Bool) : List Action → Db → Except Err Db
  | [], s => .ok s
  | a :: as, s =>
      if a.Starts s ∧ C s a = true then
        match a.prog.run (fun _ => false) s with
        | .ok (_, t) => runWhere C as t
        | .error e => .error e
      else .error (.error "not started")

/-- A run, as a test of the state it leaves. -/
def leadsFrom (C : Db → Action → Bool) (as : List Action) (p : Db → Bool) (s : Db) : Bool :=
  match runWhere C as s with
  | .ok t => p t
  | .error _ => false

/-- A run from the empty database. -/
def leads (C : Db → Action → Bool) (as : List Action) (p : Db → Bool) : Bool :=
  leadsFrom C as p Db.empty

/-- The transaction succeeds, as a test of what it returns and of the state it leaves. -/
def Tx.leaves {α : Type} (p : Tx α) (q : α → Db → Bool) (s : Db) : Bool :=
  match p.run (fun _ => false) s with
  | .ok (a, t) => q a t
  | .error _ => false

theorem exec_of_leaves {α : Type} {p : Tx α} {q : α → Db → Bool} {s : Db}
    (h : p.leaves q s = true) : ∃ busy a t, Exec (.serial busy) p s a t ∧ q a t = true := by
  unfold Tx.leaves at h
  split at h
  · rename_i a t hrun
    exact ⟨_, a, t, exec_of_run hrun, h⟩
  · cases h

theorem exists_of_leads {C : Db → Action → Bool} {as : List Action} {p : Db → Bool} {s : Db}
    (h : leadsFrom C as p s = true) : ∃ t, runWhere C as s = .ok t ∧ p t = true := by
  unfold leadsFrom at h
  split at h
  · rename_i t ht
    exact ⟨t, ht, h⟩
  · cases h

section Reachable

variable {D : Db → Action → Bool} {as : List Action} {s t : Db}

/-- The first action of a run, and the rest. -/
theorem runWhere_cons {a : Action} (h : runWhere D (a :: as) s = .ok t) :
    a.Starts s ∧ D s a = true ∧
      ∃ s₁, a.prog.run (fun _ => false) s = .ok ((), s₁) ∧ runWhere D as s₁ = .ok t := by
  simp only [runWhere] at h
  by_cases hcond : a.Starts s ∧ D s a = true
  case neg =>
    rw [if_neg hcond] at h
    cases h
  rw [if_pos hcond] at h
  refine ⟨hcond.1, hcond.2, ?_⟩
  cases hrun : a.prog.run (fun _ => false) s with
  | error e =>
      rw [hrun] at h
      cases h
  | ok r =>
      rw [hrun] at h
      exact ⟨r.2, rfl, h⟩

/-- A run under a condition is a run of the restricted exchange. -/
theorem reachable_of_runWhere {C : Db → Call → Prop}
    (hD : ∀ s a, D s a = true → C s (.committed a)) (hs : (exchange.restrict C).Reachable s)
    (h : runWhere D as s = .ok t) : (exchange.restrict C).Reachable t := by
  induction as generalizing s with
  | nil =>
      cases h
      exact hs
  | cons a as ih =>
      obtain ⟨hstarts, hc, s₁, hrun, hrest⟩ := runWhere_cons h
      have hstep : (exchange.restrict C).step s (.committed a) s₁ :=
        ⟨hD s a hc, hstarts, _, exec_of_run hrun⟩
      exact ih (.step hs hstep) hrest

/-- A run is one of the interleavings, also under a condition that only concerns commits. -/
theorem interleaved_of_runWhere {A : Action → Prop}
    {C : Conf dbStore Err Unit Action → Event Action → Prop} (hA : ∀ s a, D s a = true → A a)
    (hbegin : ∀ c i k, C c (.begin i k)) (hstmt : ∀ c i, C c (.statement i))
    (hcommit : ∀ s a (y : Session dbStore Err Unit Action), D s a = true → y.call = a →
      C (Conf.alone s y) (.commit 0)) (h : runWhere D as s = .ok t) :
    ∃ ls, ((interleaved A).restrict C).Run (Conf.idle s) ls (Conf.idle t) := by
  induction as generalizing s with
  | nil =>
      cases h
      exact ⟨[], .nil _⟩
  | cons a as ih =>
      obtain ⟨hstarts, hc, s₁, hrun, hrest⟩ := runWhere_cons h
      have hfirst : ∃ ls, ((interleaved A).restrict C).Run (Conf.idle s) ls (Conf.idle s₁) :=
        Conf.run_of_run hbegin hstmt (fun y hy => hcommit s a y hc hy)
          (And.intro (hA s a hc) hstarts) hrun
      obtain ⟨ls, hfirst⟩ := hfirst
      obtain ⟨ls', hothers⟩ := ih hrest
      exact ⟨_, hfirst.append hothers⟩

theorem interleaved_run {A : Action → Prop} (hA : ∀ s a, D s a = true → A a)
    (h : runWhere D as s = .ok t) :
    ∃ ls, (interleaved A).Run (Conf.idle s) ls (Conf.idle t) := by
  obtain ⟨ls, hrun⟩ := interleaved_of_runWhere (C := fun _ _ => True) hA (fun _ _ _ => trivial)
    (fun _ _ => trivial) (fun _ _ _ _ _ => trivial) h
  exact ⟨ls, hrun.of_restrict⟩

theorem interleaved_idle_empty {A : Action → Prop} :
    (interleaved A).Reachable (Conf.idle Db.empty) := .init ⟨rfl, fun _ => rfl⟩

theorem exchange_of_leads {C : Db → Call → Prop} {p : Db → Bool}
    (hD : ∀ s a, D s a = true → C s (.committed a)) (h : leads D as p = true) :
    ∃ t, (exchange.restrict C).Reachable t ∧ p t = true := by
  obtain ⟨t, hrun, hp⟩ := exists_of_leads h
  exact ⟨t, reachable_of_runWhere hD (.init rfl) hrun, hp⟩

theorem interleaved_of_leads {A : Action → Prop} {p : Db → Bool}
    (hD : ∀ s a, D s a = true → A a) (h : leads D as p = true) :
    ∃ t, (interleaved A).Reachable (Conf.idle t) ∧ p t = true := by
  obtain ⟨t, hrun, hp⟩ := exists_of_leads h
  obtain ⟨ls, hrun⟩ := interleaved_run hD hrun
  exact ⟨t, hrun.reachable interleaved_idle_empty, hp⟩

end Reachable

/-! ## A trade, from the deposits on

The run that concrete statements about the exchange start from: two users with a deposit
of 1000 cents each, five shares at 40 against 60, matched. -/

namespace Sample

def alice : Uuid := ⟨"00000000-0000-4000-8000-00000000000a", by decide⟩
def bob : Uuid := ⟨"00000000-0000-4000-8000-00000000000b", by decide⟩
def market : Uuid := ⟨"00000000-0000-4000-8000-000000000001", by decide⟩
def yesOrder : Uuid := ⟨"00000000-0000-4000-8000-000000000002", by decide⟩
def noOrder : Uuid := ⟨"00000000-0000-4000-8000-000000000003", by decide⟩
def trade : Uuid := ⟨"00000000-0000-4000-8000-000000000004", by decide⟩

def depositDto (idempotencyKey : String) (h : 8 ≤ idempotencyKey.length)
    (h' : idempotencyKey.length ≤ 100) : DepositDto :=
  ⟨1000, idempotencyKey, by decide, by decide, h, h'⟩

def yesDto : PlaceOrderDto :=
  ⟨market, .YES, 40, 5, "yes-order", by decide, by decide, by decide, by decide⟩

def noDto : PlaceOrderDto :=
  ⟨market, .NO, 60, 5, "no-order", by decide, by decide, by decide, by decide⟩

def opening : List Action :=
  [ .createWalletForUser alice alice
  , .createWalletForUser bob bob
  , .createMarket 1000 market 0
  , .deposit alice (depositDto "deposit-1" (by decide) (by decide)) 1
  , .deposit bob (depositDto "deposit-2" (by decide) (by decide)) 1 ]

def matching : List Action :=
  opening ++
  [ .placeOrder alice yesDto yesOrder 2 2
  , .placeOrder bob noDto noOrder 3 3
  , .tryMatchOrder noOrder trade ]

end Sample

end OutcomeExchange
