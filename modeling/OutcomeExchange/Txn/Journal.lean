import Mathlib.Algebra.Group.Prod
import Mathlib.Data.List.Infix
import Mathlib.Order.Basic

set_option autoImplicit false

/-! # Journals

An account as the list of its entries, oldest first. Each entry has an effect in an
ordered additive monoid (for a wallet with two balances, `ℤ × ℤ`); the balance is the
effects folded from zero. A journal is solvent if the balance was never negative, at no
prefix. -/

namespace Txn

variable {ε M : Type} [AddMonoid M] [Preorder M]

/-- The balance after the entries, from zero. -/
def balance (effect : ε → M) (entries : List ε) : M :=
  entries.foldl (fun b e => b + effect e) 0

/-- The balance was never negative. -/
def Solvent (effect : ε → M) (entries : List ε) : Prop :=
  ∀ pre, pre <+: entries → 0 ≤ balance effect pre

variable {effect : ε → M} {entries : List ε} {e : ε}

omit [Preorder M] in
@[simp] theorem balance_nil : balance effect [] = 0 := rfl

omit [Preorder M] in
theorem balance_concat : balance effect (entries ++ [e]) = balance effect entries + effect e := by
  rw [balance, balance, List.foldl_append, List.foldl_cons, List.foldl_nil]

theorem solvent_nil : Solvent effect [] := by
  intro pre hpre
  rw [List.prefix_nil.mp hpre]
  exact le_refl 0

/-- One more entry keeps a journal solvent if the balance stays non-negative. -/
theorem Solvent.concat (h : Solvent effect entries)
    (hb : 0 ≤ balance effect entries + effect e) : Solvent effect (entries ++ [e]) := by
  intro pre hpre
  rcases List.prefix_concat_iff.mp hpre with rfl | hold
  · rw [balance_concat]
    exact hb
  · exact h pre hold

end Txn
