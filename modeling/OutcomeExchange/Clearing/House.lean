import Mathlib.Algebra.BigOperators.Group.Finset.Basic
import Mathlib.Algebra.BigOperators.Group.Finset.Piecewise
import Mathlib.Algebra.BigOperators.Group.Multiset.Basic
import Mathlib.Algebra.Order.BigOperators.Group.Multiset
import Mathlib.Algebra.Order.Group.Int
import Mathlib.Algebra.Group.Prod
import Mathlib.Tactic.Abel
import OutcomeExchange.Txn.System

set_option autoImplicit false

/-! # A clearing house for bets

Two users bet on the opposite sides of a market, and each stakes money of his own; the stakes
of the two are what the winner gets. A `House` knows what each user has paid in, the stage of
each market, the offers that are still open and the deals that came of others. It keeps no
balances: `House.account` computes what a user can spend and what he has staked from these. -/

namespace Clearing

open Txn

inductive Side
  | yes
  | no
  deriving DecidableEq

inductive MarketStage
  | open
  | closed
  | resolved (winner : Side)
  deriving DecidableEq

/-- An open offer; `value` is what its owner gets if he wins. -/
structure Offer (U M : Type) where
  owner : U
  market : M
  side : Side
  stake : ℤ
  value : ℤ
  deriving DecidableEq

inductive DealPhase
  | pending
  | settled
  | failed
  deriving DecidableEq

structure Deal (U M : Type) where
  market : M
  yesOwner : U
  noOwner : U
  yesStake : ℤ
  noStake : ℤ
  phase : DealPhase
  deriving DecidableEq

@[ext]
structure House (U M : Type) where
  paidIn : U → ℤ
  stage : M → Option MarketStage
  offers : Multiset (Offer U M)
  deals : Multiset (Deal U M)

variable {U M : Type} [DecidableEq U]

/-! ## Accounts

An account is what a user can spend, and what he has staked. -/

def Offer.account (o : Offer U M) (u : U) : ℤ × ℤ :=
  if o.owner = u then (-o.stake, o.stake) else 0

/-- The stakes of a user in a deal. -/
def Deal.share (d : Deal U M) (u : U) : ℤ :=
  (if d.yesOwner = u then d.yesStake else 0) + (if d.noOwner = u then d.noStake else 0)

def Deal.owner (d : Deal U M) : Side → U
  | .yes => d.yesOwner
  | .no => d.noOwner

/-- What a settled deal pays a user, at this stage of its market. -/
def Deal.prize (stage : Option MarketStage) (d : Deal U M) (u : U) : ℤ :=
  match stage with
  | some (.resolved winner) => if d.owner winner = u then d.yesStake + d.noStake else 0
  | _ => 0

theorem Deal.prize_of_unresolved {stage : Option MarketStage}
    (h : ∀ winner, stage ≠ some (.resolved winner)) (d : Deal U M) (u : U) :
    d.prize stage u = 0 := by
  unfold prize
  split
  · rename_i winner
    exact absurd rfl (h winner)
  · rfl

def Deal.account (stage : M → Option MarketStage) (d : Deal U M) (u : U) : ℤ × ℤ :=
  match d.phase with
  | .pending => (-d.share u, d.share u)
  | .settled => (d.prize (stage d.market) u - d.share u, 0)
  | .failed => 0

namespace House

def account (h : House U M) (u : U) : ℤ × ℤ :=
  (h.paidIn u, 0) + (h.offers.map fun o => o.account u).sum +
    (h.deals.map fun d => d.account h.stage u).sum

/-- What the user can spend. -/
def cash (h : House U M) (u : U) : ℤ := (h.account u).1

/-- What the user has staked in open offers and pending deals. -/
def staked (h : House U M) (u : U) : ℤ := (h.account u).2

def empty : House U M := ⟨fun _ => 0, fun _ => none, 0, 0⟩

/-! ## What can happen -/

inductive Move (U M : Type)
  | deposit (u : U) (n : ℤ)
  | withdraw (u : U) (n : ℤ)
  | list (market : M)
  | close
  | resolve (market : M) (winner : Side)
  | place (o : Offer U M)
  | cancel (o : Offer U M)
  | pair (yes no : Offer U M)
  | settle (d : Deal U M)
  | fail (d : Deal U M)
  | rearm (d : Deal U M)

def pay (h : House U M) (u : U) (n : ℤ) : House U M :=
  { h with paidIn := fun v => h.paidIn v + if u = v then n else 0 }

def withStage (h : House U M) (stage : M → Option MarketStage) : House U M :=
  { h with stage := stage }

def withOffers (h : House U M) (offers : Multiset (Offer U M)) : House U M :=
  { h with offers := offers }

def withDeals (h : House U M) (deals : Multiset (Deal U M)) : House U M := { h with deals := deals }

/-- The deal of two offers. -/
def dealOf (yes no : Offer U M) : Deal U M :=
  ⟨yes.market, yes.owner, no.owner, yes.stake, no.stake, .pending⟩

/-- The market is listed and not resolved. -/
def Unresolved (h : House U M) (market : M) : Prop :=
  ∀ winner, h.stage market ≠ some (.resolved winner)

/-- The steps. Whatever is spent is there, and a market is resolved once, when no deal on it is
pending. -/
inductive Step [DecidableEq M] : House U M → Move U M → House U M → Prop
  | deposit {h : House U M} {u : U} {n : ℤ} (hpos : 0 < n) : Step h (.deposit u n) (h.pay u n)
  | withdraw {h : House U M} {u : U} {n : ℤ} (hpos : 0 < n) (hcash : n ≤ h.cash u) :
      Step h (.withdraw u n) (h.pay u (-n))
  | list {h : House U M} {market : M} (hnew : h.stage market = none) :
      Step h (.list market) (h.withStage (Function.update h.stage market (some .open)))
  | close {h : House U M} {stage : M → Option MarketStage} (hstage : ∀ market,
        stage market = h.stage market ∨ h.stage market = some .open ∧ stage market = some .closed) :
      Step h .close (h.withStage stage)
  | resolve {h : House U M} {market : M} {winner : Side} (hlisted : h.stage market ≠ none)
      (hunresolved : h.Unresolved market)
      (hpending : ∀ d ∈ h.deals, d.market = market → d.phase ≠ .pending) :
      Step h (.resolve market winner)
        (h.withStage (Function.update h.stage market (some (.resolved winner))))
  | place {h : House U M} {o : Offer U M} (hopen : h.stage o.market = some .open)
      (hpos : 0 < o.stake) (hcash : o.stake ≤ h.cash o.owner) :
      Step h (.place o) (h.withOffers (o ::ₘ h.offers))
  | cancel {h : House U M} {o : Offer U M} {rest : Multiset (Offer U M)}
      (hoffers : h.offers = o ::ₘ rest) : Step h (.cancel o) (h.withOffers rest)
  | pair {h : House U M} {yes no : Offer U M} {rest : Multiset (Offer U M)}
      (hoffers : h.offers = yes ::ₘ no ::ₘ rest) (hyes : yes.side = .yes) (hno : no.side = .no)
      (hmarket : no.market = yes.market) (hvalue : yes.stake + no.stake = yes.value)
      (hvalue' : no.value = yes.value) (hunresolved : h.Unresolved yes.market) :
      Step h (.pair yes no) ((h.withOffers rest).withDeals (dealOf yes no ::ₘ h.deals))
  | settle {h : House U M} {d : Deal U M} {rest : Multiset (Deal U M)}
      (hdeals : h.deals = d ::ₘ rest) (hpending : d.phase = .pending)
      (hunresolved : h.Unresolved d.market) :
      Step h (.settle d) (h.withDeals ({ d with phase := .settled } ::ₘ rest))
  | fail {h : House U M} {d : Deal U M} {rest : Multiset (Deal U M)}
      (hdeals : h.deals = d ::ₘ rest) (hpending : d.phase = .pending) :
      Step h (.fail d) (h.withDeals ({ d with phase := .failed } ::ₘ rest))
  | rearm {h : House U M} {d : Deal U M} {rest : Multiset (Deal U M)}
      (hdeals : h.deals = d ::ₘ rest) (hfailed : d.phase = .failed)
      (hunresolved : h.Unresolved d.market) (hcash : ∀ u, 0 < d.share u → d.share u ≤ h.cash u) :
      Step h (.rearm d) (h.withDeals ({ d with phase := .pending } ::ₘ rest))

end House

def house (U M : Type) [DecidableEq U] [DecidableEq M] : System (House U M) (House.Move U M) where
  init h := h = House.empty
  step := House.Step

/-! ## What a step does to the accounts -/

namespace House

variable {h : House U M}

theorem account_pay (u v : U) (n : ℤ) :
    (h.pay u n).account v = h.account v + if u = v then (n, 0) else 0 := by
  unfold account pay
  by_cases huv : u = v
  · have hpaid : (h.paidIn v + n, (0 : ℤ)) = (h.paidIn v, 0) + (n, 0) := by simp
    simp only [huv, if_true, hpaid]
    abel
  · simp [huv]

theorem account_place (o : Offer U M) (u : U) :
    (h.withOffers (o ::ₘ h.offers)).account u = h.account u + o.account u := by
  simp only [account, withOffers, Multiset.map_cons, Multiset.sum_cons]
  abel

theorem account_cancel {o : Offer U M} {rest : Multiset (Offer U M)}
    (hoffers : h.offers = o ::ₘ rest) (u : U) : (h.withOffers rest).account u = h.account u - o.account u := by
  simp only [account, withOffers, hoffers, Multiset.map_cons, Multiset.sum_cons]
  abel

theorem account_dealOf (stage : M → Option MarketStage) (yes no : Offer U M) (u : U) :
    (dealOf yes no).account stage u = yes.account u + no.account u := by
  simp only [dealOf, Deal.account, Deal.share, Offer.account]
  by_cases hyes : yes.owner = u
  · by_cases hno : no.owner = u
    · simp [hyes, hno, add_comm]
    · simp [hyes, hno]
  · by_cases hno : no.owner = u
    · simp [hyes, hno]
    · simp [hyes, hno]

/-- Pairing two offers moves no money. -/
theorem account_pair {yes no : Offer U M} {rest : Multiset (Offer U M)}
    (hoffers : h.offers = yes ::ₘ no ::ₘ rest) (u : U) :
    ((h.withOffers rest).withDeals (dealOf yes no ::ₘ h.deals)).account u =
      h.account u := by
  simp only [account, withOffers, withDeals, hoffers, Multiset.map_cons, Multiset.sum_cons,
    account_dealOf]
  abel

theorem account_rephase {d : Deal U M} {rest : Multiset (Deal U M)} (hdeals : h.deals = d ::ₘ rest)
    (phase : DealPhase) (u : U) :
    (h.withDeals ({ d with phase := phase } ::ₘ rest)).account u =
      h.account u - d.account h.stage u +
        { d with phase := phase : Deal U M }.account h.stage u := by
  simp only [account, withDeals, hdeals, Multiset.map_cons, Multiset.sum_cons]
  abel

/-- Only a resolution makes a difference to the accounts. -/
theorem account_restage {stage : M → Option MarketStage} (hstage : ∀ market winner,
    stage market = some (.resolved winner) ↔ h.stage market = some (.resolved winner)) (u : U) :
    (h.withStage stage).account u = h.account u := by
  have hprize : ∀ d : Deal U M, d.prize (stage d.market) u = d.prize (h.stage d.market) u := by
    intro d
    by_cases hres : ∃ winner, h.stage d.market = some (.resolved winner)
    · obtain ⟨winner, hwinner⟩ := hres
      rw [(hstage _ winner).mpr hwinner, hwinner]
    · rw [Deal.prize_of_unresolved fun winner hw => hres ⟨winner, hw⟩,
        Deal.prize_of_unresolved fun winner hw => hres ⟨winner, (hstage _ winner).mp hw⟩]
  simp only [account, withStage, Deal.account, hprize]

/-- What a resolution pays a user: the stakes of the deals that he has won. -/
def payouts [DecidableEq M] (h : House U M) (market : M) (winner : Side) (u : U) : ℤ :=
  (h.deals.map fun d => if d.market = market ∧ d.phase = .settled ∧ d.owner winner = u then
    d.yesStake + d.noStake else 0).sum

theorem account_resolve [DecidableEq M] {market : M} {winner : Side}
    (hunresolved : h.Unresolved market) (u : U) :
    (h.withStage (Function.update h.stage market (some (.resolved winner)))).account u =
      h.account u + (h.payouts market winner u, 0) := by
  -- one deal: only a settled one of this market gets anything
  have hdeal : ∀ d : Deal U M,
      d.account (Function.update h.stage market (some (.resolved winner))) u = d.account h.stage u +
        (if d.market = market ∧ d.phase = .settled ∧ d.owner winner = u then
          d.yesStake + d.noStake else 0, 0) := by
    intro d
    unfold Deal.account
    by_cases hm : d.market = market
    · have hbefore : d.prize (h.stage market) u = 0 := Deal.prize_of_unresolved hunresolved d u
      rw [hm, Function.update_self, hbefore]
      cases hphase : d.phase with
      | pending => simp
      | failed => simp [Prod.zero_eq_mk]
      | settled => simp [Deal.prize, sub_eq_add_neg, add_comm]
    · rw [Function.update_of_ne hm]
      simp [hm]
  -- all deals, by induction on the multiset
  have hsum : ∀ deals : Multiset (Deal U M),
      (deals.map fun d =>
        d.account (Function.update h.stage market (some (.resolved winner))) u).sum =
        (deals.map fun d => d.account h.stage u).sum +
          ((deals.map fun d => if d.market = market ∧ d.phase = .settled ∧ d.owner winner = u then
            d.yesStake + d.noStake else 0).sum, 0) := by
    intro deals
    induction deals using Multiset.induction with
    | empty => simp [Prod.zero_eq_mk]
    | cons d deals ih =>
        simp only [Multiset.map_cons, Multiset.sum_cons, ih, hdeal d]
        ext
        · simp only [Prod.fst_add]
          omega
        · simp only [Prod.snd_add]
          omega
  unfold account payouts withStage
  rw [hsum]
  abel

end House

/-! ## A group of users who bet among themselves -/

/-- What is still owed to the winner of a settled deal. -/
def Deal.due (stage : M → Option MarketStage) (d : Deal U M) : ℤ :=
  match d.phase, stage d.market with
  | .settled, some (.resolved _) => 0
  | .settled, _ => d.yesStake + d.noStake
  | _, _ => 0

omit [DecidableEq U] in
theorem Deal.due_of_unresolved {stage : M → Option MarketStage} {d : Deal U M}
    (hsettled : d.phase = .settled) (h : ∀ winner, stage d.market ≠ some (.resolved winner)) :
    d.due stage = d.yesStake + d.noStake := by
  unfold due
  cases hstage : stage d.market with
  | none => rw [hsettled]
  | some now =>
      cases now with
      | resolved winner => exact absurd hstage (h winner)
      | «open» => rw [hsettled]
      | closed => rw [hsettled]

/-- What a deal has brought a user, the stakes in a pending deal counted as his. -/
def Deal.net (stage : M → Option MarketStage) (d : Deal U M) (u : U) : ℤ :=
  (d.account stage u).1 + (d.account stage u).2

/-- A deal brings its two users together what is not owed to them any more. -/
theorem Deal.sum_net (stage : M → Option MarketStage) (d : Deal U M) {S : Finset U}
    (hclosed : d.yesOwner ∈ S ↔ d.noOwner ∈ S) :
    ∑ u ∈ S, d.net stage u = if d.yesOwner ∈ S then -d.due stage else 0 := by
  have hshare : ∑ u ∈ S, d.share u = if d.yesOwner ∈ S then d.yesStake + d.noStake else 0 := by
    simp only [Deal.share, Finset.sum_add_distrib, Finset.sum_ite_eq, ← hclosed]
    split
    · rfl
    · rfl
  have hwinner : ∀ winner, d.owner winner ∈ S ↔ d.yesOwner ∈ S := by
    intro winner
    cases winner with
    | yes => exact Iff.rfl
    | no => exact hclosed.symm
  -- only a settled deal has taken the stakes, and only a resolved market gives a prize
  unfold Deal.net Deal.due
  cases hphase : d.phase with
  | pending => simp [Deal.account, hphase]
  | failed => simp [Deal.account, hphase]
  | settled =>
      simp only [Deal.account, hphase, add_zero, Finset.sum_sub_distrib, hshare]
      cases hstage : stage d.market with
      | none =>
          simp only [Deal.prize, Finset.sum_const_zero]
          split <;> omega
      | some now =>
          cases now with
          | «open» =>
              simp only [Deal.prize, Finset.sum_const_zero]
              split <;> omega
          | closed =>
              simp only [Deal.prize, Finset.sum_const_zero]
              split <;> omega
          | resolved winner =>
              simp only [Deal.prize, Finset.sum_ite_eq, hwinner]
              split <;> omega

namespace House

/-- What a user could spend if his offers were cancelled and his pending deals failed. -/
def worth (h : House U M) (u : U) : ℤ := h.cash u + h.staked u

theorem worth_eq (h : House U M) (u : U) :
    h.worth u = h.paidIn u + (h.deals.map fun d => d.net h.stage u).sum := by
  have hboth : ∀ accounts : Multiset (ℤ × ℤ),
      accounts.sum.1 + accounts.sum.2 = (accounts.map fun p => p.1 + p.2).sum := fun accounts =>
    map_multiset_sum (AddMonoidHom.fst ℤ ℤ + AddMonoidHom.snd ℤ ℤ) accounts
  have hoffers : (h.offers.map fun o : Offer U M => o.account u).sum.1 +
      (h.offers.map fun o : Offer U M => o.account u).sum.2 = 0 := by
    rw [hboth, Multiset.map_map]
    refine Multiset.sum_eq_zero fun x hx => ?_
    obtain ⟨o, -, rfl⟩ := Multiset.mem_map.mp hx
    simp only [Function.comp_apply, Offer.account]
    split <;> simp
  have hdeals : (h.deals.map fun d : Deal U M => d.account h.stage u).sum.1 +
      (h.deals.map fun d : Deal U M => d.account h.stage u).sum.2 =
        (h.deals.map fun d => d.net h.stage u).sum := by
    rw [hboth, Multiset.map_map]
    rfl
  simp only [worth, cash, staked, account, Prod.fst_add, Prod.snd_add]
  omega

/-- **A group of users who bet only among themselves** are worth together what they have paid
in, less what their settled deals still owe them. -/
theorem sum_worth (h : House U M) {S : Finset U}
    (hclosed : ∀ d ∈ h.deals, d.yesOwner ∈ S ↔ d.noOwner ∈ S) :
    ∑ u ∈ S, h.worth u + (h.deals.map fun d => if d.yesOwner ∈ S then d.due h.stage else 0).sum =
      ∑ u ∈ S, h.paidIn u := by
  have hswap : ∑ u ∈ S, (h.deals.map fun d => d.net h.stage u).sum =
      (h.deals.map fun d => ∑ u ∈ S, d.net h.stage u).sum :=
    Multiset.sum_map_sum_map S.val h.deals
  have hnet : h.deals.map (fun d => ∑ u ∈ S, d.net h.stage u) =
      h.deals.map fun d => -(if d.yesOwner ∈ S then d.due h.stage else 0) := by
    refine Multiset.map_congr rfl fun d hd => ?_
    rw [Deal.sum_net h.stage d (hclosed d hd)]
    split <;> simp
  simp only [worth_eq, Finset.sum_add_distrib, hswap, hnet, Multiset.sum_map_neg]
  omega

end House

end Clearing
