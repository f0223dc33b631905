import Mathlib.Data.Nat.Notation

set_option autoImplicit false

/-! # Labelled transition systems and their runs

A system is a set of initial states and a labelled step relation. `Reachable` is the
set of states of its runs, `Run` a run with its trace of labels, and `restrict` the
system whose every step also satisfies a condition on the state before it and on its
label. A statement about "every run whose steps all meet the condition" is a
statement about the reachable states of the restricted system. -/

namespace Txn

universe u v

/-- A labelled transition system over states `σ` and labels `ℓ`. -/
structure System (σ : Type u) (ℓ : Type v) where
  init : σ → Prop
  step : σ → ℓ → σ → Prop

namespace System

variable {σ : Type u} {ℓ : Type v}

/-- The states of the runs of a system. -/
inductive Reachable (M : System σ ℓ) : σ → Prop
  | init {s : σ} (h : M.init s) : Reachable M s
  | step {s t : σ} {l : ℓ} (h : Reachable M s) (hstep : M.step s l t) : Reachable M t

/-- `Run M s ls t`: a run from `s` to `t` whose steps carry the labels `ls`. -/
inductive Run (M : System σ ℓ) : σ → List ℓ → σ → Prop
  | nil (s : σ) : Run M s [] s
  | snoc {s t u : σ} {ls : List ℓ} {l : ℓ} (h : Run M s ls t) (hstep : M.step t l u) :
      Run M s (ls ++ [l]) u

/-- The system whose steps also satisfy `C` in the state before the step. -/
def restrict (M : System σ ℓ) (C : σ → ℓ → Prop) : System σ ℓ where
  init := M.init
  step s l t := C s l ∧ M.step s l t

variable {M : System σ ℓ}

theorem Reachable.of_restrict {C : σ → ℓ → Prop} {s : σ} (h : (M.restrict C).Reachable s) :
    M.Reachable s := by
  induction h with
  | init h => exact .init h
  | step _ hstep ih => exact .step ih hstep.2

/-- A weaker condition allows more runs. -/
theorem Reachable.mono {C C' : σ → ℓ → Prop} {s : σ} (h : (M.restrict C).Reachable s)
    (hC : ∀ s l, C s l → C' s l) : (M.restrict C').Reachable s := by
  induction h with
  | init h => exact .init h
  | step _ hstep ih => exact .step ih ⟨hC _ _ hstep.1, hstep.2⟩

/-- A condition that always holds restricts nothing. -/
theorem Reachable.restrict_true {s : σ} (h : M.Reachable s) :
    (M.restrict fun _ _ => True).Reachable s := by
  induction h with
  | init h => exact .init h
  | step _ hstep ih => exact .step ih ⟨trivial, hstep⟩

/-- **The invariant rule.** What holds initially and is kept by every step holds in
every reachable state. -/
theorem Reachable.invariant (I : σ → Prop) (hinit : ∀ s, M.init s → I s)
    (hstep : ∀ s l t, I s → M.step s l t → I t) {s : σ} (h : M.Reachable s) : I s := by
  induction h with
  | init h => exact hinit _ h
  | step _ hs ih => exact hstep _ _ _ ih hs

/-- The invariant rule relative to what is already known of every reachable state. -/
theorem Reachable.invariant_of (I J : σ → Prop) (hJ : ∀ s, M.Reachable s → J s)
    (hinit : ∀ s, M.init s → I s) (hstep : ∀ s l t, J s → I s → M.step s l t → I t)
    {s : σ} (h : M.Reachable s) : I s := by
  induction h with
  | init h => exact hinit _ h
  | step hs hst ih => exact hstep _ _ _ (hJ _ hs) ih hst

theorem Run.reachable {s t : σ} {ls : List ℓ} (hs : M.Reachable s) (h : M.Run s ls t) :
    M.Reachable t := by
  induction h with
  | nil => exact hs
  | snoc _ hstep ih => exact .step ih hstep

theorem Run.append {s t u : σ} {ls ls' : List ℓ} (h : M.Run s ls t) (h' : M.Run t ls' u) :
    M.Run s (ls ++ ls') u := by
  induction h' with
  | nil =>
      rw [List.append_nil]
      exact h
  | snoc _ hstep ih =>
      rw [← List.append_assoc]
      exact .snoc ih hstep

theorem Run.of_restrict {C : σ → ℓ → Prop} {s t : σ} {ls : List ℓ}
    (h : (M.restrict C).Run s ls t) : M.Run s ls t := by
  induction h with
  | nil => exact .nil _
  | snoc _ hstep ih => exact .snoc ih hstep.2

/-- Two conditions, one after the other. -/
theorem Run.restrict_and {C C' : σ → ℓ → Prop} {s t : σ} {ls : List ℓ}
    (h : (M.restrict fun s l => C s l ∧ C' s l).Run s ls t) :
    ((M.restrict C).restrict C').Run s ls t := by
  induction h with
  | nil => exact .nil _
  | snoc _ hstep ih => exact .snoc ih ⟨hstep.1.2, hstep.1.1, hstep.2⟩

theorem Run.single {s t : σ} {l : ℓ} (h : M.step s l t) : M.Run s [l] t := .snoc (.nil s) h

/-- What does not hold at the start of a run but holds at its end begins to hold at a step. -/
theorem Run.exists_step (P : σ → Prop) {s t : σ} {ls : List ℓ} (h : M.Run s ls t) (hs : ¬ P s)
    (ht : P t) : ∃ u l v ls₁ ls₂, M.Run s ls₁ u ∧ M.step u l v ∧ M.Run v ls₂ t ∧
      ¬ P u ∧ P v ∧ ls = ls₁ ++ l :: ls₂ := by
  induction h with
  | nil => exact absurd ht hs
  | @snoc t' t ls l hrun hstep ih =>
      by_cases ht' : P t'
      · obtain ⟨u, l', v, ls₁, ls₂, hbefore, hu, hafter, hnot, hv, rfl⟩ := ih ht'
        refine ⟨u, l', v, ls₁, ls₂ ++ [l], hbefore, hu, .snoc hafter hstep, hnot, hv, ?_⟩
        rw [List.append_assoc, List.cons_append]
      · exact ⟨t', l, t, ls, [], hrun, hstep, .nil t, ht', ht, rfl⟩

/-- **The progress rule.** Where some step that makes `μ` smaller can always be taken until
`D` holds, there is a run to a state in which it does. -/
theorem exists_run {I D : σ → Prop} (μ : σ → ℕ)
    (hstep : ∀ s, I s → ¬ D s → ∃ l t, M.step s l t ∧ I t ∧ μ t < μ s) {s : σ} (hs : I s) :
    ∃ ls t, M.Run s ls t ∧ I t ∧ D t := by
  generalize hn : μ s = n
  induction n using Nat.strongRecOn generalizing s with
  | ind n ih =>
      by_cases hdone : D s
      · exact ⟨[], s, .nil s, hs, hdone⟩
      · obtain ⟨l, t, hst, ht, hless⟩ := hstep s hs hdone
        obtain ⟨ls, u, hrun, hu, hdone'⟩ := ih (μ t) (hn ▸ hless) ht rfl
        exact ⟨[l] ++ ls, u, (Run.single hst).append hrun, hu, hdone'⟩

/-- A property of single states that every step keeps is kept along a run. -/
theorem Run.preserves (I : σ → Prop)
    (hstep : ∀ s l t, M.Reachable s → I s → M.step s l t → I t) {s t : σ} {ls : List ℓ}
    (hs : M.Reachable s) (h : M.Run s ls t) (hI : I s) : I t := by
  induction h with
  | nil => exact hI
  | snoc h hst ih => exact hstep _ _ _ (h.reachable hs) ih hst

end System

end Txn
