import Mathlib.Data.Nat.Notation
import Mathlib.Logic.Basic

set_option autoImplicit false

/-! # Asynchronous code

The body of an `async` function is a tree of the operations that it awaits: a leaf returns
or throws, and a node performs one operation and goes on with its answer, which may be an
error. Only the tree is syntax; a `Machine` says what an operation answers and what it
makes of the world, under conditions that the environment chooses.

`Runs` executes a tree by itself. `Faulted` executes it with one operation that meets a
fault, and is what a statement about "every fault point" quantifies over. -/

namespace Async

/-- The operations that the code can await, and what each of them answers. -/
structure Interface where
  Op : Type
  Answer : Op → Type

/-- The body of an asynchronous function. -/
inductive Code (I : Interface) (ε α : Type) : Type
  | pure (a : α)
  | throw (e : ε)
  | await (op : I.Op) (k : Except ε (I.Answer op) → Code I ε α)

variable {I : Interface} {ε α β ω χ : Type}

namespace Code

/-- Sequencing: an error ends the code. -/
def bind : Code I ε α → (α → Code I ε β) → Code I ε β
  | pure a, f => f a
  | throw e, _ => throw e
  | await op k, f => await op fun r => (k r).bind f

instance : Monad (Code I ε) where
  pure := pure
  bind := bind

/-- `await op` -/
def call (op : I.Op) : Code I ε (I.Answer op) :=
  await op fun
    | .ok a => pure a
    | .error e => throw e

/-- `try { p } catch (e) { handler(e) }` -/
def attempt : Code I ε α → (ε → Code I ε α) → Code I ε α
  | pure a, _ => pure a
  | throw e, handler => handler e
  | await op k, handler => await op fun r => (k r).attempt handler

/-- The code without its return value. -/
def discard (p : Code I ε α) : Code I ε Unit := do
  let _ ← p
  return ()

/-- Every operation that the code can come to satisfies `P`. -/
def Uses (P : I.Op → Prop) : Code I ε α → Prop
  | pure _ => True
  | throw _ => True
  | await op k => P op ∧ ∀ r, (k r).Uses P

section Uses

variable {P : I.Op → Prop}

theorem uses_pure (a : α) : (Pure.pure a : Code I ε α).Uses P := trivial

theorem uses_call {op : I.Op} (h : P op) : (call op : Code I ε (I.Answer op)).Uses P := by
  refine ⟨h, fun r => ?_⟩
  cases r with
  | ok a => trivial
  | error e => trivial

theorem uses_bind {p : Code I ε α} {f : α → Code I ε β} (hp : p.Uses P)
    (hf : ∀ a, (f a).Uses P) : (p >>= f).Uses P := by
  show (p.bind f).Uses P
  induction p with
  | pure a => exact hf a
  | throw e => trivial
  | await op k ih => exact ⟨hp.1, fun r => ih r (hp.2 r)⟩

theorem uses_attempt {p : Code I ε α} {handler : ε → Code I ε α} (hp : p.Uses P)
    (hhandler : ∀ e, (handler e).Uses P) : (p.attempt handler).Uses P := by
  induction p with
  | pure a => trivial
  | throw e => exact hhandler e
  | await op k ih => exact ⟨hp.1, fun r => ih r (hp.2 r)⟩

theorem Uses.mono {Q : I.Op → Prop} {p : Code I ε α} (h : p.Uses P) (hPQ : ∀ op, P op → Q op) :
    p.Uses Q := by
  induction p with
  | pure a => trivial
  | throw e => trivial
  | await op k ih => exact ⟨hPQ op h.1, fun r => ih r (h.2 r)⟩

end Uses

/-- Whatever its operations answer, the code does not end with an error. -/
def NeverThrows : Code I ε α → Prop
  | pure _ => True
  | throw _ => False
  | await _ k => ∀ r, (k r).NeverThrows

theorem neverThrows_bind {p : Code I ε α} {f : α → Code I ε β} (hp : p.NeverThrows)
    (hf : ∀ a, (f a).NeverThrows) : (p >>= f).NeverThrows := by
  show (p.bind f).NeverThrows
  induction p with
  | pure a => exact hf a
  | throw e => exact hp.elim
  | await op k ih => exact fun r => ih r (hp r)

theorem neverThrows_attempt {p : Code I ε α} {handler : ε → Code I ε α}
    (h : ∀ e, (handler e).NeverThrows) : (p.attempt handler).NeverThrows := by
  induction p with
  | pure a => trivial
  | throw e => exact h e
  | await op k ih => exact fun r => ih r

end Code

/-! ## Running code alone -/

/-- What an operation answers and what it leaves, under the conditions that it meets. -/
structure Machine (I : Interface) (ε ω χ : Type) where
  step : χ → ω → (op : I.Op) → Except ε (I.Answer op) × ω

namespace Code

variable (M : Machine I ε ω χ)

/-- The code executed by itself, as a function; its operations meet the conditions `cs` one
after the other, and then `c₀`. -/
def run (c₀ : χ) : List χ → Code I ε α → ω → Except ε α × ω
  | _, pure a, w => (.ok a, w)
  | _, throw e, w => (.error e, w)
  | cs, await op k, w =>
      (k (M.step (cs.headD c₀) w op).1).run c₀ cs.tail (M.step (cs.headD c₀) w op).2

/-- `p.Runs M A w r w'`: executed by itself on `w`, under conditions that `A` allows, the
code can end with `r` and leave `w'`. -/
def Runs (A : I.Op → χ → Prop) : Code I ε α → ω → Except ε α → ω → Prop
  | pure a, w, r, w' => r = .ok a ∧ w' = w
  | throw e, w, r, w' => r = .error e ∧ w' = w
  | await op k, w, r, w' =>
      ∃ c, A op c ∧ (k (M.step c w op).1).Runs A (M.step c w op).2 r w'

/-- `p.Faulted M A F w op r w'`: as `Runs`, but the code comes to the operation `op`, and this
once the conditions are a fault, that is, as `F` says. -/
def Faulted (A F : I.Op → χ → Prop) : Code I ε α → ω → I.Op → Except ε α → ω → Prop
  | pure _, _, _, _, _ => False
  | throw _, _, _, _, _ => False
  | await op k, w, op', r, w' =>
      (op' = op ∧ ∃ c, F op c ∧ (k (M.step c w op).1).Runs M A (M.step c w op).2 r w') ∨
        ∃ c, A op c ∧ (k (M.step c w op).1).Faulted A F (M.step c w op).2 op' r w'

/-- Operation number `n` of the code, when it is executed under `c₀`. -/
def opAt (c₀ : χ) : ℕ → Code I ε α → ω → Option I.Op
  | _, pure _, _ => none
  | _, throw _, _ => none
  | 0, await op _, _ => some op
  | n + 1, await op k, w => (k (M.step c₀ w op).1).opAt c₀ n (M.step c₀ w op).2

variable {M} {A F : I.Op → χ → Prop} {w w' : ω}

@[simp] theorem runs_pure {a : α} {r : Except ε α} :
    (Pure.pure a : Code I ε α).Runs M A w r w' ↔ r = .ok a ∧ w' = w := Iff.rfl

@[simp] theorem runs_throw {e : ε} {r : Except ε α} :
    (throw e : Code I ε α).Runs M A w r w' ↔ r = .error e ∧ w' = w := Iff.rfl

theorem runs_call {op : I.Op} {r : Except ε (I.Answer op)} :
    (call op : Code I ε (I.Answer op)).Runs M A w r w' ↔ ∃ c, A op c ∧ M.step c w op = (r, w') := by
  show (∃ c, A op c ∧ _) ↔ _
  refine exists_congr fun c => and_congr_right fun _ => ?_
  cases hstep : M.step c w op with
  | mk r' w₁ =>
      cases r' with
      | ok a => simp only [Runs, Prod.mk.injEq, eq_comm]
      | error e => simp only [Runs, Prod.mk.injEq, eq_comm]

theorem runs_bind {p : Code I ε α} {f : α → Code I ε β} {r : Except ε β} :
    (p >>= f).Runs M A w r w' ↔
      (∃ a w₁, p.Runs M A w (.ok a) w₁ ∧ (f a).Runs M A w₁ r w') ∨
        ∃ e, r = .error e ∧ p.Runs M A w (.error e) w' := by
  show (p.bind f).Runs M A w r w' ↔ _
  induction p generalizing w with
  | pure a => simp [bind, Runs, and_assoc]
  | throw e => simp [bind, Runs, and_left_comm]
  | await op k ih =>
      simp only [bind, Runs, ih]
      constructor
      · rintro ⟨c, hc, ⟨a, w₁, hp, hf⟩ | ⟨e, hr, hp⟩⟩
        · exact Or.inl ⟨a, w₁, ⟨c, hc, hp⟩, hf⟩
        · exact Or.inr ⟨e, hr, c, hc, hp⟩
      · rintro (⟨a, w₁, ⟨c, hc, hp⟩, hf⟩ | ⟨e, hr, c, hc, hp⟩)
        · exact ⟨c, hc, Or.inl ⟨a, w₁, hp, hf⟩⟩
        · exact ⟨c, hc, Or.inr ⟨e, hr, hp⟩⟩

theorem runs_attempt {p : Code I ε α} {handler : ε → Code I ε α} {r : Except ε α} :
    (p.attempt handler).Runs M A w r w' ↔
      (∃ a, r = .ok a ∧ p.Runs M A w (.ok a) w') ∨
        ∃ e w₁, p.Runs M A w (.error e) w₁ ∧ (handler e).Runs M A w₁ r w' := by
  induction p generalizing w with
  | pure a => simp [attempt, Runs, and_left_comm]
  | throw e => simp [attempt, Runs, and_assoc]
  | await op k ih =>
      simp only [attempt, Runs, ih]
      constructor
      · rintro ⟨c, hc, ⟨a, hr, hp⟩ | ⟨e, w₁, hp, hh⟩⟩
        · exact Or.inl ⟨a, hr, c, hc, hp⟩
        · exact Or.inr ⟨e, w₁, ⟨c, hc, hp⟩, hh⟩
      · rintro (⟨a, hr, c, hc, hp⟩ | ⟨e, w₁, ⟨c, hc, hp⟩, hh⟩)
        · exact ⟨c, hc, Or.inl ⟨a, hr, hp⟩⟩
        · exact ⟨c, hc, Or.inr ⟨e, w₁, hp, hh⟩⟩

/-- The function `run` computes one of the executions. -/
theorem runs_run {c₀ : χ} (hc₀ : ∀ op, A op c₀) {cs : List χ} (hcs : ∀ c ∈ cs, ∀ op, A op c)
    (p : Code I ε α) (w : ω) : p.Runs M A w (p.run M c₀ cs w).1 (p.run M c₀ cs w).2 := by
  induction p generalizing cs w with
  | pure a => exact ⟨rfl, rfl⟩
  | throw e => exact ⟨rfl, rfl⟩
  | await op k ih =>
      refine ⟨cs.headD c₀, ?_, ih _ (fun c hc => hcs c (List.mem_of_mem_tail hc)) _⟩
      cases cs with
      | nil => exact hc₀ op
      | cons c cs => exact hcs c (List.mem_cons_self ..) op

theorem faulted_call {op op' : I.Op} {r : Except ε (I.Answer op)} :
    (call op : Code I ε (I.Answer op)).Faulted M A F w op' r w' ↔
      op' = op ∧ ∃ c, F op c ∧ M.step c w op = (r, w') := by
  show ((op' = op ∧ ∃ c, F op c ∧ _) ∨ ∃ c, A op c ∧ _) ↔ _
  constructor
  · rintro (⟨hop, c, hc, hruns⟩ | ⟨c, hc, hruns⟩)
    · refine ⟨hop, c, hc, ?_⟩
      cases hstep : M.step c w op with
      | mk r' w₁ =>
          rw [hstep] at hruns
          cases r' <;> obtain ⟨rfl, rfl⟩ := hruns <;> rfl
    · cases hstep : (M.step c w op).1 with
      | ok a => simp only [hstep, Faulted] at hruns
      | error e => simp only [hstep, Faulted] at hruns
  · rintro ⟨hop, c, hc, hstep⟩
    refine Or.inl ⟨hop, c, hc, ?_⟩
    rw [hstep]
    cases r <;> exact ⟨rfl, rfl⟩

theorem faulted_bind {p : Code I ε α} {f : α → Code I ε β} {op : I.Op} {r : Except ε β} :
    (p >>= f).Faulted M A F w op r w' ↔
      (∃ a w₁, p.Faulted M A F w op (.ok a) w₁ ∧ (f a).Runs M A w₁ r w') ∨
      (∃ e, r = .error e ∧ p.Faulted M A F w op (.error e) w') ∨
      ∃ a w₁, p.Runs M A w (.ok a) w₁ ∧ (f a).Faulted M A F w₁ op r w' := by
  show (p.bind f).Faulted M A F w op r w' ↔ _
  induction p generalizing w with
  | pure a => simp [bind, Faulted, Runs, and_assoc]
  | throw e => simp [bind, Faulted, Runs]
  | await op' k ih =>
      have hbind : ∀ w r', ((k r').bind f).Runs M A w r w' ↔ _ :=
        fun w r' => runs_bind (p := k r') (f := f)
      simp only [bind, Faulted, Runs, ih, hbind]
      constructor
      · rintro (⟨hop, c, hc, ⟨a, w₁, hp, hf⟩ | ⟨e, hr, hp⟩⟩ |
          ⟨c, hc, ⟨a, w₁, hp, hf⟩ | ⟨e, hr, hp⟩ | ⟨a, w₁, hp, hf⟩⟩)
        · exact Or.inl ⟨a, w₁, Or.inl ⟨hop, c, hc, hp⟩, hf⟩
        · exact Or.inr (Or.inl ⟨e, hr, Or.inl ⟨hop, c, hc, hp⟩⟩)
        · exact Or.inl ⟨a, w₁, Or.inr ⟨c, hc, hp⟩, hf⟩
        · exact Or.inr (Or.inl ⟨e, hr, Or.inr ⟨c, hc, hp⟩⟩)
        · exact Or.inr (Or.inr ⟨a, w₁, ⟨c, hc, hp⟩, hf⟩)
      · rintro (⟨a, w₁, ⟨hop, c, hc, hp⟩ | ⟨c, hc, hp⟩, hf⟩ |
          ⟨e, hr, ⟨hop, c, hc, hp⟩ | ⟨c, hc, hp⟩⟩ | ⟨a, w₁, ⟨c, hc, hp⟩, hf⟩)
        · exact Or.inl ⟨hop, c, hc, Or.inl ⟨a, w₁, hp, hf⟩⟩
        · exact Or.inr ⟨c, hc, Or.inl ⟨a, w₁, hp, hf⟩⟩
        · exact Or.inl ⟨hop, c, hc, Or.inr ⟨e, hr, hp⟩⟩
        · exact Or.inr ⟨c, hc, Or.inr (Or.inl ⟨e, hr, hp⟩)⟩
        · exact Or.inr ⟨c, hc, Or.inr (Or.inr ⟨a, w₁, hp, hf⟩)⟩

/-- **The rule for what the code leaves alone**: what every operation of the code keeps, the
code keeps. -/
theorem Uses.runs {P : I.Op → Prop} {J : ω → Prop}
    (hkeep : ∀ c w op, P op → J w → J (M.step c w op).2) {p : Code I ε α} (h : p.Uses P)
    {r : Except ε α} (hr : p.Runs M A w r w') (hJ : J w) : J w' := by
  induction p generalizing w with
  | pure a =>
      rw [hr.2]
      exact hJ
  | throw e =>
      rw [hr.2]
      exact hJ
  | await op k ih =>
      obtain ⟨c, -, hr⟩ := hr
      exact ih _ (h.2 _) hr (hkeep c w op h.1 hJ)

theorem Uses.faulted_keeps {P : I.Op → Prop} {J : ω → Prop}
    (hkeep : ∀ c w op, P op → J w → J (M.step c w op).2) {p : Code I ε α} (h : p.Uses P)
    {op : I.Op} {r : Except ε α} (hf : p.Faulted M A F w op r w') (hJ : J w) : J w' := by
  induction p generalizing w with
  | pure a => exact hf.elim
  | throw e => exact hf.elim
  | await op' k ih =>
      rcases hf with ⟨-, c, -, hr⟩ | ⟨c, -, hf⟩
      · exact (h.2 _).runs hkeep hr (hkeep c w op' h.1 hJ)
      · exact ih _ (h.2 _) hf (hkeep c w op' h.1 hJ)

theorem NeverThrows.runs {p : Code I ε α} (h : p.NeverThrows) {r : Except ε α}
    (hr : p.Runs M A w r w') : ∃ a, r = .ok a := by
  induction p generalizing w with
  | pure a => exact ⟨a, hr.1⟩
  | throw e => exact h.elim
  | await op k ih =>
      obtain ⟨c, -, hr⟩ := hr
      exact ih _ (h _) hr

theorem NeverThrows.faulted {p : Code I ε α} (h : p.NeverThrows) {op : I.Op} {r : Except ε α}
    (hf : p.Faulted M A F w op r w') : ∃ a, r = .ok a := by
  induction p generalizing w with
  | pure a => exact hf.elim
  | throw e => exact hf.elim
  | await op' k ih =>
      rcases hf with ⟨-, c, -, hr⟩ | ⟨c, -, hf⟩
      · exact (h _).runs hr
      · exact ih _ (h _) hf

/-- The function `run` computes what a fault of operation number `n` leads to. -/
theorem faulted_run {c₀ c : χ} (hc₀ : ∀ op, A op c₀) {n : ℕ} {op : I.Op} (hc : F op c)
    {p : Code I ε α} (h : p.opAt M c₀ n w = some op) :
    p.Faulted M A F w op (p.run M c₀ (List.replicate n c₀ ++ [c]) w).1
      (p.run M c₀ (List.replicate n c₀ ++ [c]) w).2 := by
  induction p generalizing n w with
  | pure a => simp [opAt] at h
  | throw e => simp [opAt] at h
  | await op' k ih =>
      cases n with
      | zero =>
          cases h
          exact Or.inl ⟨rfl, c, hc, runs_run hc₀ (fun c' hc' => by cases hc') _ _⟩
      | succ n => exact Or.inr ⟨c₀, hc₀ op', ih _ h⟩

/-- The operation that meets the fault is one of the code. -/
theorem Uses.faulted {P : I.Op → Prop} {p : Code I ε α} (h : p.Uses P) {op : I.Op}
    {r : Except ε α} (hf : p.Faulted M A F w op r w') : P op := by
  induction p generalizing w with
  | pure a => exact hf.elim
  | throw e => exact hf.elim
  | await op' k ih =>
      rcases hf with ⟨hop, -⟩ | ⟨c, -, hf⟩
      · rw [hop]
        exact h.1
      · exact ih _ (h.2 _) hf

end Code

end Async
