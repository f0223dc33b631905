import OutcomeExchange.Txn.System

set_option autoImplicit false

/-! # Refinement

A system refines another one along a function of their states when each of its steps is a
step of the other, or changes nothing there. `Refines.run` carries runs over. -/

namespace Txn

universe u v

namespace System

variable {σ σ' : Type u} {ℓ ℓ' : Type v}

/-- A step of `M` is a step of `N`, or none, between the images under `f`. -/
structure Refines (M : System σ ℓ) (N : System σ' ℓ') (f : σ → σ') : Prop where
  init : ∀ s, M.init s → N.init (f s)
  step : ∀ s l t, M.Reachable s → M.step s l t → f t = f s ∨ ∃ l', N.step (f s) l' (f t)

variable {M : System σ ℓ} {N : System σ' ℓ'} {f : σ → σ'}

theorem Reachable.exists_run {s : σ} (h : M.Reachable s) : ∃ s₀ ls, M.init s₀ ∧ M.Run s₀ ls s := by
  induction h with
  | init hinit => exact ⟨_, [], hinit, .nil _⟩
  | step _ hstep ih =>
      obtain ⟨s₀, ls, hinit, hrun⟩ := ih
      exact ⟨s₀, _, hinit, .snoc hrun hstep⟩

/-- Every run of `M` is one of `N`, with no more steps. -/
theorem Refines.run (h : M.Refines N f) {s t : σ} {ls : List ℓ} (hs : M.Reachable s)
    (hrun : M.Run s ls t) : ∃ ls', N.Run (f s) ls' (f t) ∧ ls'.length ≤ ls.length := by
  induction hrun with
  | nil => exact ⟨[], .nil _, Nat.le_refl _⟩
  | @snoc t u ls l hrun hstep ih =>
      obtain ⟨ls', hrun', hlen⟩ := ih
      rcases h.step _ _ _ (hrun.reachable hs) hstep with hsame | ⟨l', hstep'⟩
      · refine ⟨ls', ?_, ?_⟩
        · rw [hsame]
          exact hrun'
        · rw [List.length_append]
          omega
      · refine ⟨ls' ++ [l'], .snoc hrun' hstep', ?_⟩
        rw [List.length_append, List.length_append]
        exact Nat.add_le_add_right hlen 1

end System

end Txn
