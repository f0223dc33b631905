import OutcomeExchange.Async.Code
import OutcomeExchange.Txn.System
import Mathlib.Logic.Function.Basic

set_option autoImplicit false

/-! # Concurrent calls

Any number of calls run at once. Each awaits one operation at a time, and the operations of
different calls interleave in any order, every operation in one step.

A `Contract` says what the calls may assume of each other (`rely`), what holds whenever a
call performs an operation (`before`), and what the rest of the call is bound to do once the
operation has been answered (`owes`). That a piece of code keeps the contract is proved
along the code, with one rule for each way to build code (`keeps_bind`, `keeps_attempt`,
`keeps_call_bind`, `keeps_call`, `keeps_of_uses`). `Contract.invariant` is the resulting proof rule for the
states that a pool of such calls can reach. -/

namespace Async

open Txn

variable {I : Interface} {ε α β ω χ κ : Type}

/-! ## Pools -/

/-- The world, and the rest of each call that is in flight. -/
structure Pool (I : Interface) (ε ω : Type) where
  world : ω
  running : ℕ → Option (Code I ε Unit)

/-- A call begins, or takes its next step under the conditions `c`. -/
inductive Event (κ χ : Type)
  | begin (i : ℕ) (k : κ)
  | step (i : ℕ) (c : χ)

/-- The call is over. -/
def Code.Ended : Code I ε α → Prop
  | pure _ => True
  | throw _ => True
  | await _ _ => False

namespace Pool

/-- The pool with another world, and another rest of call `i`. -/
def set (b : Pool I ε ω) (w : ω) (i : ℕ) (p : Option (Code I ε Unit)) : Pool I ε ω :=
  ⟨w, Function.update b.running i p⟩

variable (M : Machine I ε ω χ) (body : κ → Code I ε Unit)

/-- One event, if it can happen. -/
def next (b : Pool I ε ω) : Event κ χ → Option (Pool I ε ω)
  | .begin i k =>
      match b.running i with
      | none => some (b.set b.world i (some (body k)))
      | some _ => none
  | .step i c =>
      match b.running i with
      | none => none
      | some (.await op k) =>
          some (b.set (M.step c b.world op).2 i (some (k (M.step c b.world op).1)))
      | some (.pure _) => some (b.set b.world i none)
      | some (.throw _) => some (b.set b.world i none)

/-- No call is in flight. -/
def AtRest (b : Pool I ε ω) : Prop := ∀ i, b.running i = none

/-- Some call in flight is as `P` says. -/
def Some (P : Code I ε Unit → Prop) (b : Pool I ε ω) : Prop := ∃ i p, b.running i = some p ∧ P p

/-- Some call in flight other than call `i` is as `P` says. -/
def Others (i : ℕ) (P : Code I ε Unit → Prop) (b : Pool I ε ω) : Prop :=
  ∃ j p, j ≠ i ∧ b.running j = some p ∧ P p

variable {M body} {b b' : Pool I ε ω}

section Set

variable {w : ω} {i j : ℕ} {p : Option (Code I ε Unit)}

@[simp] theorem set_world : (b.set w i p).world = w := rfl

@[simp] theorem set_self : (b.set w i p).running i = p := Function.update_self ..

theorem set_of_ne (h : j ≠ i) : (b.set w i p).running j = b.running j := Function.update_of_ne h ..

end Set

theorem AtRest.not_some (h : b.AtRest) (P : Code I ε Unit → Prop) : ¬ b.Some P := by
  rintro ⟨i, p, hp, -⟩
  rw [h i] at hp
  cases hp

/-- The call that has been set. -/
theorem some_update {w : ω} {i : ℕ} {p : Code I ε Unit} {P : Code I ε Unit → Prop} (h : P p) :
    (b.set w i (some p)).Some P :=
  ⟨i, p, set_self, h⟩

/-- A call in flight other than call `i`, or call `i` with what is left of it. -/
theorem Some.update {P : Code I ε Unit → Prop} (h : b.Some P) {w : ω} {i : ℕ}
    {p' : Option (Code I ε Unit)}
    (hi : ∀ p, b.running i = some p → P p → ∃ q, p' = some q ∧ P q) :
    (b.set w i p').Some P := by
  obtain ⟨j, p, hp, hP⟩ := h
  by_cases hij : j = i
  · subst hij
    obtain ⟨q, rfl, hq⟩ := hi p hp hP
    exact some_update hq
  · exact ⟨j, p, by rw [set_of_ne hij]; exact hp, hP⟩

/-- The other calls go on as before. -/
theorem Others.update {P Q : Code I ε Unit → Prop} {i : ℕ} (h : b.Others i P) {w : ω}
    {p' : Option (Code I ε Unit)} (hPQ : ∀ p, P p → Q p) : (b.set w i p').Some Q := by
  obtain ⟨j, p, hj, hp, hP⟩ := h
  exact ⟨j, p, by rw [set_of_ne hj]; exact hp, hPQ p hP⟩

theorem Some.cases {P : Code I ε Unit → Prop} (h : b.Some P) {i : ℕ} {p : Code I ε Unit}
    (hi : b.running i = some p) : P p ∨ b.Others i P := by
  obtain ⟨j, q, hq, hP⟩ := h
  by_cases hij : j = i
  · subst hij
    rw [hi] at hq
    cases hq
    exact Or.inl hP
  · exact Or.inr ⟨j, q, hij, hq, hP⟩

/-- **The inversion lemma** of the pool. -/
theorem next_cases {e : Event κ χ} (h : b.next M body e = some b') :
    (∃ i k, e = .begin i k ∧ b.running i = none ∧
        b' = b.set b.world i (some (body k))) ∨
      (∃ i c op k, e = .step i c ∧ b.running i = some (.await op k) ∧
        b' = b.set (M.step c b.world op).2 i (some (k (M.step c b.world op).1))) ∨
      ∃ i c p, e = .step i c ∧ b.running i = some p ∧ p.Ended ∧
        b' = b.set b.world i none := by
  cases e with
  | begin i k =>
      left
      simp only [next] at h
      cases hi : b.running i with
      | none =>
          rw [hi] at h
          cases h
          exact ⟨i, k, rfl, hi, rfl⟩
      | some p =>
          rw [hi] at h
          cases h
  | step i c =>
      right
      simp only [next] at h
      cases hi : b.running i with
      | none =>
          rw [hi] at h
          cases h
      | some p =>
          rw [hi] at h
          cases p with
          | await op k =>
              cases h
              exact Or.inl ⟨i, c, op, k, rfl, hi, rfl⟩
          | pure a =>
              cases h
              exact Or.inr ⟨i, c, _, rfl, hi, trivial, rfl⟩
          | throw e =>
              cases h
              exact Or.inr ⟨i, c, _, rfl, hi, trivial, rfl⟩

end Pool

/-- The calls `body`, from a world as `init` says. -/
def pool (M : Machine I ε ω χ) (body : κ → Code I ε Unit) (init : ω → Prop) :
    System (Pool I ε ω) (Event κ χ) where
  init b := init b.world ∧ b.AtRest
  step b e b' := b.next M body e = some b'

/-- The operation that is performed meets conditions that `A` allows. -/
def Meets (A : I.Op → χ → Prop) (b : Pool I ε ω) : Event κ χ → Prop
  | .begin _ _ => True
  | .step i c => ∀ op k, b.running i = some (.await op k) → A op c

/-! ## What code is bound to do -/

namespace Code

/-- Whatever its operations answer, the code performs an operation that satisfies `P`. -/
def Will (P : I.Op → Prop) : Code I ε α → Prop
  | pure _ => False
  | throw _ => False
  | await op k => P op ∨ ∀ r, (k r).Will P

variable {P : I.Op → Prop}

theorem will_bind {p : Code I ε α} {f : α → Code I ε β} (h : p.Will P) : (p >>= f).Will P := by
  show (p.bind f).Will P
  induction p with
  | pure a => exact h.elim
  | throw e => exact h.elim
  | await op k ih => exact h.imp_right fun h r => ih r (h r)

theorem will_call {op : I.Op} (h : P op) : (call op : Code I ε (I.Answer op)).Will P := Or.inl h

/-- What the rest of the code will do, where the first part cannot end it. -/
theorem will_bind_rest {p : Code I ε α} {f : α → Code I ε β} (hp : p.NeverThrows)
    (hf : ∀ a, (f a).Will P) : (p >>= f).Will P := by
  show (p.bind f).Will P
  induction p with
  | pure a => exact hf a
  | throw e => exact hp.elim
  | await op k ih => exact Or.inr fun r => ih r (hp r)

theorem will_attempt {p : Code I ε α} {handler : ε → Code I ε α} (h : p.Will P) :
    (p.attempt handler).Will P := by
  induction p with
  | pure a => exact h.elim
  | throw e => exact h.elim
  | await op k ih => exact h.imp_right fun h r => ih r (h r)

end Code

namespace Pool

variable {P : I.Op → Prop} {b : Pool I ε ω} {i : ℕ} {w : ω}

/-- What some call will do is still to be done, unless this step does it. -/
theorem Some.will_step (h : b.Some (Code.Will P)) {op : I.Op}
    {k : Except ε (I.Answer op) → Code I ε Unit} (hi : b.running i = some (.await op k))
    (hop : ¬ P op) (r : Except ε (I.Answer op)) : (b.set w i (some (k r))).Some (Code.Will P) := by
  refine h.update fun p hp hP => ?_
  rw [hi] at hp
  cases hp
  exact ⟨k r, rfl, hP.resolve_left hop r⟩

theorem Some.will_begin (h : b.Some (Code.Will P)) (hi : b.running i = none)
    (p : Option (Code I ε Unit)) : (b.set w i p).Some (Code.Will P) := by
  refine h.update fun q hq _ => ?_
  rw [hi] at hq
  cases hq

theorem Some.will_end (h : b.Some (Code.Will P)) {p : Code I ε Unit} (hi : b.running i = some p)
    (hp : p.Ended) : (b.set w i none).Some (Code.Will P) := by
  refine h.update fun q hq hP => ?_
  rw [hi] at hq
  cases hq
  cases p with
  | await op k => exact hp.elim
  | pure a => exact hP.elim
  | throw e => exact hP.elim

end Pool

/-! ## Contracts -/

/-- What concurrent calls may assume and have to guarantee, where operations meet conditions
that `A` allows. -/
structure Contract (M : Machine I ε ω χ) (A : I.Op → χ → Prop) where
  /-- what becomes of the world while other calls run -/
  rely : ω → ω → Prop
  rely_refl : ∀ w, rely w w
  rely_trans : ∀ {w₁ w₂ w₃}, rely w₁ w₂ → rely w₂ w₃ → rely w₁ w₃
  /-- what holds when an operation is performed -/
  before : ω → I.Op → Prop
  rely_step : ∀ {c w op}, A op c → before w op → rely w (M.step c w op).2
  /-- what the rest of the call is bound to do after an answer -/
  owes : (op : I.Op) → Except ε (I.Answer op) → {α : Type} → Code I ε α → Prop
  owes_bind : ∀ {op : I.Op} {r : Except ε (I.Answer op)} {α β : Type} {p : Code I ε α}
    {f : α → Code I ε β}, owes op r p → owes op r (p >>= f)
  owes_attempt : ∀ {op : I.Op} {r : Except ε (I.Answer op)} {α : Type} {p : Code I ε α}
    {handler : ε → Code I ε α}, owes op r p → owes op r (p.attempt handler)

variable {M : Machine I ε ω χ} {A : I.Op → χ → Prop}

/-- Two contracts at once. -/
def Contract.and (K K' : Contract M A) : Contract M A where
  rely w w' := K.rely w w' ∧ K'.rely w w'
  rely_refl w := ⟨K.rely_refl w, K'.rely_refl w⟩
  rely_trans h h' := ⟨K.rely_trans h.1 h'.1, K'.rely_trans h.2 h'.2⟩
  before w op := K.before w op ∧ K'.before w op
  rely_step hc hbefore := ⟨K.rely_step hc hbefore.1, K'.rely_step hc hbefore.2⟩
  owes op r _ p := K.owes op r p ∧ K'.owes op r p
  owes_bind h := ⟨K.owes_bind h.1, K'.owes_bind h.2⟩
  owes_attempt h := ⟨K.owes_attempt h.1, K'.owes_attempt h.2⟩

/-- The contract says nothing about the operation. -/
structure Contract.Free (K : Contract M A) (op : I.Op) : Prop where
  before : ∀ w, K.before w op
  owes : ∀ r {α : Type} (p : Code I ε α), K.owes op r p

namespace Code

/-- The code keeps the contract, from `w` on. -/
def Keeps (K : Contract M A) : Code I ε α → ω → Prop
  | pure _, _ => True
  | throw _, _ => True
  | await op k, w => ∀ w₁, K.rely w w₁ → K.before w₁ op ∧ ∀ c, A op c →
      K.owes op (M.step c w₁ op).1 (k (M.step c w₁ op).1) ∧
        (k (M.step c w₁ op).1).Keeps K (M.step c w₁ op).2

variable {K : Contract M A} {w w' : ω}

theorem Keeps.rely {p : Code I ε α} (h : p.Keeps K w) (hw : K.rely w w') : p.Keeps K w' := by
  cases p with
  | pure a => trivial
  | throw e => trivial
  | await op k => exact fun w₁ hw₁ => h w₁ (K.rely_trans hw hw₁)

theorem Keeps.and {K' : Contract M A} {p : Code I ε α} (h : p.Keeps K w) (h' : p.Keeps K' w) :
    p.Keeps (K.and K') w := by
  induction p generalizing w with
  | pure a => trivial
  | throw e => trivial
  | await op k ih =>
      intro w₁ hw₁
      obtain ⟨hbefore, hrest⟩ := h w₁ hw₁.1
      obtain ⟨hbefore', hrest'⟩ := h' w₁ hw₁.2
      refine ⟨⟨hbefore, hbefore'⟩, fun c hc => ⟨⟨(hrest c hc).1, (hrest' c hc).1⟩, ?_⟩⟩
      exact ih _ (hrest c hc).2 (hrest' c hc).2

theorem keeps_pure (a : α) : (Pure.pure a : Code I ε α).Keeps K w := trivial

theorem keeps_throw (e : ε) : (throw e : Code I ε α).Keeps K w := trivial

theorem keeps_bind {p : Code I ε α} {f : α → Code I ε β} (hp : p.Keeps K w)
    (hf : ∀ a w₁, K.rely w w₁ → (f a).Keeps K w₁) : (p >>= f).Keeps K w := by
  show (p.bind f).Keeps K w
  induction p generalizing w with
  | pure a => exact hf a w (K.rely_refl w)
  | throw e => trivial
  | await op k ih =>
      intro w₁ hw₁
      obtain ⟨hbefore, hrest⟩ := hp w₁ hw₁
      refine ⟨hbefore, fun c hc => ⟨K.owes_bind (hrest c hc).1, ih _ (hrest c hc).2 ?_⟩⟩
      exact fun a w₂ hw₂ => hf a w₂ (K.rely_trans (K.rely_trans hw₁ (K.rely_step hc hbefore)) hw₂)

theorem keeps_attempt {p : Code I ε α} {handler : ε → Code I ε α} (hp : p.Keeps K w)
    (hh : ∀ e w₁, K.rely w w₁ → (handler e).Keeps K w₁) : (p.attempt handler).Keeps K w := by
  induction p generalizing w with
  | pure a => trivial
  | throw e => exact hh e w (K.rely_refl w)
  | await op k ih =>
      intro w₁ hw₁
      obtain ⟨hbefore, hrest⟩ := hp w₁ hw₁
      refine ⟨hbefore, fun c hc => ⟨K.owes_attempt (hrest c hc).1, ih _ (hrest c hc).2 ?_⟩⟩
      exact fun e w₂ hw₂ => hh e w₂ (K.rely_trans (K.rely_trans hw₁ (K.rely_step hc hbefore)) hw₂)

/-- One operation, with the code that goes on where it succeeds. -/
theorem keeps_call_bind {op : I.Op} {f : I.Answer op → Code I ε β}
    (hbefore : ∀ w₁, K.rely w w₁ → K.before w₁ op)
    (herr : ∀ e, K.owes op (.error e) (throw e : Code I ε β))
    (hok : ∀ w₁ c a w₂, K.rely w w₁ → A op c → M.step c w₁ op = (.ok a, w₂) →
      K.owes op (.ok a) (f a) ∧ (f a).Keeps K w₂) : (call op >>= f).Keeps K w := by
  intro w₁ hw₁
  refine ⟨hbefore w₁ hw₁, fun c hc => ?_⟩
  cases hstep : M.step c w₁ op with
  | mk r w₂ =>
      cases r with
      | ok a => exact hok w₁ c a w₂ hw₁ hc hstep
      | error e => exact ⟨herr e, trivial⟩

/-- One operation after which nothing is owed. -/
theorem keeps_call {op : I.Op} (hbefore : ∀ w₁, K.rely w w₁ → K.before w₁ op)
    (howes : ∀ r {α : Type} (p : Code I ε α), K.owes op r p) :
    (call op : Code I ε (I.Answer op)).Keeps K w := by
  intro w₁ hw₁
  refine ⟨hbefore w₁ hw₁, fun c _ => ⟨howes _ _, ?_⟩⟩
  cases (M.step c w₁ op).1 with
  | ok a => trivial
  | error e => trivial

/-- Code whose operations the contract says nothing about. -/
theorem keeps_of_uses {p : Code I ε α} (h : p.Uses K.Free) (w : ω) : p.Keeps K w := by
  induction p generalizing w with
  | pure a => trivial
  | throw e => trivial
  | await op k ih => exact fun w₁ _ => ⟨h.1.before w₁, fun c _ => ⟨h.1.owes _ _, ih _ (h.2 _) _⟩⟩

end Code

/-- **The proof rule for pools.** Every step of a call meets the contract, because every call
that is in flight keeps it; what each step then preserves holds in every state reached. -/
theorem Contract.invariant (K : Contract M A)
    {body : κ → Code I ε Unit} {init : ω → Prop} {C : Pool I ε ω → Event κ χ → Prop}
    (J : ω → Prop) (Inv : Pool I ε ω → Prop) (hmeets : ∀ b e, C b e → Meets A b e)
    (hJ : ∀ w, init w → J w) (hJ' : ∀ w w', J w → K.rely w w' → J w')
    (hbody : ∀ k w, J w → (body k).Keeps K w)
    (hinit : ∀ b : Pool I ε ω, init b.world → b.AtRest → Inv b)
    (hbegin : ∀ (b : Pool I ε ω) i k, J b.world → Inv b → b.running i = none →
      Inv (b.set b.world i (some (body k))))
    (hstep : ∀ (b : Pool I ε ω) i c op k, J b.world → Inv b → b.running i = some (.await op k) →
      A op c → C b (.step i c) → K.before b.world op →
      K.owes op (M.step c b.world op).1 (k (M.step c b.world op).1) →
      Inv (b.set (M.step c b.world op).2 i (some (k (M.step c b.world op).1))))
    (hend : ∀ (b : Pool I ε ω) i p, J b.world → Inv b → b.running i = some p → p.Ended →
      Inv (b.set b.world i none))
    {b : Pool I ε ω} (h : ((pool M body init).restrict C).Reachable b) :
    J b.world ∧ Inv b := by
  have hall : J b.world ∧ Inv b ∧ ∀ i p, b.running i = some p → p.Keeps K b.world := by
    refine h.invariant
      (fun b => J b.world ∧ Inv b ∧ ∀ i p, b.running i = some p → p.Keeps K b.world) ?_ ?_
    · intro b hb
      refine ⟨hJ _ hb.1, hinit b hb.1 hb.2, fun i p hp => ?_⟩
      rw [hb.2 i] at hp
      cases hp
    · rintro b e b' ⟨hj, hinv, hkeeps⟩ ⟨hc, hnext⟩
      rcases Pool.next_cases hnext with ⟨i, k, rfl, hnew, rfl⟩ | ⟨i, c, op, k, rfl, hrun, rfl⟩ |
        ⟨i, c, p, rfl, hrun, hended, rfl⟩
      -- a call begins, and its body keeps the contract
      · refine ⟨hj, hbegin b i k hj hinv hnew, fun j p hp => ?_⟩
        by_cases hji : j = i
        · subst hji
          rw [Pool.set_self] at hp
          cases hp
          exact hbody k _ hj
        · rw [Pool.set_of_ne hji] at hp
          exact hkeeps j p hp
      -- one operation: the caller keeps its part, and the other calls rely on that
      · have ha : A op c := hmeets b _ hc op k hrun
        obtain ⟨hbefore, hrest⟩ := hkeeps i _ hrun b.world (K.rely_refl _)
        obtain ⟨howes, hrest⟩ := hrest c ha
        have hrely : K.rely b.world (M.step c b.world op).2 := K.rely_step ha hbefore
        refine ⟨hJ' _ _ hj hrely, hstep b i c op k hj hinv hrun ha hc hbefore howes, fun j p hp => ?_⟩
        by_cases hji : j = i
        · subst hji
          rw [Pool.set_self] at hp
          cases hp
          exact hrest
        · rw [Pool.set_of_ne hji] at hp
          exact (hkeeps j p hp).rely hrely
      -- a call ends, and the others are as they were
      · refine ⟨hj, hend b i p hj hinv hrun hended, fun j q hq => ?_⟩
        by_cases hji : j = i
        · subst hji
          rw [Pool.set_self] at hq
          cases hq
        · rw [Pool.set_of_ne hji] at hq
          exact hkeeps j q hq
  exact ⟨hall.1, hall.2.1⟩

/-! ## Runs that can be computed -/

/-- The call that the event is about. -/
def Event.call : Event κ χ → ℕ
  | .begin i _ => i
  | .step i _ => i

namespace Pool

variable {body : κ → Code I ε Unit}

/-- The events one after the other, where `D` allows them. -/
def play (M : Machine I ε ω χ) (body : κ → Code I ε Unit) (D : Pool I ε ω → Event κ χ → Bool) :
    List (Event κ χ) → Pool I ε ω → Option (Pool I ε ω)
  | [], b => some b
  | e :: es, b => if D b e then (b.next M body e).bind (play M body D es) else none

/-- The calls below `n` are over. -/
def endedBelow (n : ℕ) (b : Pool I ε ω) : Bool := (List.range n).all fun i => (b.running i).isNone

variable {D : Pool I ε ω → Event κ χ → Bool} {es : List (Event κ χ)} {b b' : Pool I ε ω}

theorem play_cons {e : Event κ χ} (h : play M body D (e :: es) b = some b') :
    D b e = true ∧ ∃ b₁, b.next M body e = some b₁ ∧ play M body D es b₁ = some b' := by
  rw [play] at h
  by_cases hD : D b e = true
  · rw [if_pos hD] at h
    exact ⟨hD, Option.bind_eq_some_iff.mp h⟩
  · rw [if_neg hD] at h
    cases h

theorem reachable_of_play {init : ω → Prop} {C : Pool I ε ω → Event κ χ → Prop}
    (hD : ∀ b e, D b e = true → C b e) (hb : ((pool M body init).restrict C).Reachable b)
    (h : play M body D es b = some b') : ((pool M body init).restrict C).Reachable b' := by
  induction es generalizing b with
  | nil =>
      cases h
      exact hb
  | cons e es ih =>
      obtain ⟨hde, b₁, hnext, hplay⟩ := play_cons h
      exact ih (.step hb ⟨hD b e hde, hnext⟩) hplay

/-- Calls that no event is about are not in flight. -/
theorem running_of_play {i : ℕ} (hes : ∀ e ∈ es, e.call ≠ i) (hi : b.running i = none)
    (h : play M body D es b = some b') : b'.running i = none := by
  induction es generalizing b with
  | nil =>
      cases h
      exact hi
  | cons e es ih =>
      obtain ⟨-, b₁, hnext, hplay⟩ := play_cons h
      refine ih (fun e' he' => hes e' (List.mem_cons_of_mem _ he')) ?_ hplay
      have hne : i ≠ e.call := (hes e (List.mem_cons_self ..)).symm
      rcases next_cases hnext with ⟨j, k, rfl, -, rfl⟩ | ⟨j, c, op, k, rfl, -, rfl⟩ |
        ⟨j, c, p, rfl, -, -, rfl⟩
      · rw [set_of_ne (show i ≠ j from hne), hi]
      · rw [set_of_ne (show i ≠ j from hne), hi]
      · rw [set_of_ne (show i ≠ j from hne), hi]

/-- A computed run that ends at rest, in a state as `p` says. -/
theorem exists_of_play {init : ω → Prop} {C : Pool I ε ω → Event κ χ → Prop}
    (hD : ∀ b e, D b e = true → C b e) {w : ω} (hw : init w) (n : ℕ) {p : ω → Bool}
    (h : (es.all (fun e => e.call < n) && (play M body D es ⟨w, fun _ => none⟩).any
      fun b => b.endedBelow n && p b.world) = true) :
    ∃ b, ((pool M body init).restrict C).Reachable b ∧ b.AtRest ∧ p b.world = true := by
  rw [Bool.and_eq_true, List.all_eq_true, Option.any_eq_true] at h
  obtain ⟨hes, b, hplay, hb⟩ := h
  rw [Bool.and_eq_true, endedBelow, List.all_eq_true] at hb
  refine ⟨b, reachable_of_play hD (.init ⟨hw, fun i => rfl⟩) hplay, fun i => ?_, hb.2⟩
  by_cases hi : i < n
  · exact Option.isNone_iff_eq_none.mp (hb.1 i (List.mem_range.mpr hi))
  · refine running_of_play (fun e he => ?_) rfl hplay
    have hlt : e.call < n := of_decide_eq_true (hes e he)
    omega

end Pool

end Async
