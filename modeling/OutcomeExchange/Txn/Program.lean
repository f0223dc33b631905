import Mathlib.Data.List.MinMax
import Mathlib.Data.Int.Order.Basic
import Mathlib.Data.Nat.Notation

set_option autoImplicit false

/-! # Transactions as programs of SQL statements

A transaction body is a `Prog`: a tree of the statements it issues, in order, with the
code between two statements as the continuation. Four kinds of statement occur:

* `selectForUpdate r` locks row `r` and reads what the lock protects (`Store.slice`);
* `select` reads the whole state, without a lock;
* `selectSkipLocked q` is a `SELECT … ORDER BY … FOR UPDATE SKIP LOCKED` of which the first
  row is used; it locks every row that it returns;
* `write u` is an `INSERT` or `UPDATE`. An `Update` carries the rows it touches and the
  proof that it touches no others.

A program has two readings. `run` executes it alone, as a function. `Exec` is its
big-step relation, in one of two modes: `serial` is an execution by itself, in which
only the rows that the environment has locked are hidden from `selectSkipLocked`;
`concurrent` also admits what a concurrent execution may see, which is a stale answer
to every read that no lock protects. `Txn/RowLock.lean` proves that interleaved
executions commit exactly `concurrent` executions. -/

namespace Txn

/-- What a row lock protects: the slice of the state behind each lock, and whether the
row is there at all (a lock on a missing row is not taken). -/
structure Store (σ ρ : Type) where
  Slice : ρ → Type
  slice : (r : ρ) → σ → Slice r
  present : (r : ρ) → Slice r → Bool

variable {σ ρ ε α β : Type}

/-- An `INSERT` or `UPDATE`. It leaves every row outside `rows` alone, and what it makes
of a row in `rows` depends on that row only. -/
structure Update (S : Store σ ρ) (ε : Type) where
  rows : List ρ
  apply : σ → Except ε σ
  frame : ∀ {s t : σ}, apply s = .ok t → ∀ r, r ∉ rows → S.slice r t = S.slice r s
  determined : ∀ {s s' t t' : σ}, apply s = .ok t → apply s' = .ok t' →
    ∀ r ∈ rows, S.slice r s = S.slice r s' → S.slice r t = S.slice r t'

/-- The `WHERE` clause and the `ORDER BY` column of a `FOR UPDATE SKIP LOCKED` query:
the matching rows in table order, and the column they are ordered by. -/
structure Query (S : Store σ ρ) where
  scan : σ → List ρ
  rank : (r : ρ) → S.Slice r → ℤ
  scan_congr : ∀ {s s' : σ} (r : ρ), S.slice r s = S.slice r s' → (r ∈ scan s ↔ r ∈ scan s')

/-- The body of a transaction. -/
inductive Prog (S : Store σ ρ) (ε α : Type) : Type
  | pure (a : α)
  | throw (e : ε)
  | selectForUpdate (r : ρ) (k : S.Slice r → Prog S ε α)
  | select (k : σ → Prog S ε α)
  | selectSkipLocked (q : Query S) (k : Option ρ → Prog S ε α)
  | write (u : Update S ε) (k : Prog S ε α)

variable {S : Store σ ρ}

namespace Prog

/-- Sequencing: `f` goes on where `p` returns. -/
def bind : Prog S ε α → (α → Prog S ε β) → Prog S ε β
  | pure a, f => f a
  | throw e, _ => throw e
  | selectForUpdate r k, f => selectForUpdate r fun v => (k v).bind f
  | select k, f => select fun s => (k s).bind f
  | selectSkipLocked q k, f => selectSkipLocked q fun o => (k o).bind f
  | write u k, f => write u (k.bind f)

instance : Monad (Prog S ε) where
  pure := pure
  bind := bind

/-- The statement `SELECT … WHERE key FOR UPDATE`. -/
def forUpdate (r : ρ) : Prog S ε (S.Slice r) := selectForUpdate r pure

/-- A `SELECT` without a lock. -/
def query (f : σ → α) : Prog S ε α := select fun s => pure (f s)

/-- The first row of `SELECT … ORDER BY … FOR UPDATE SKIP LOCKED`. -/
def skipLocked (q : Query S) : Prog S ε (Option ρ) := selectSkipLocked q pure

/-- An `INSERT` or `UPDATE` statement. -/
def save (u : Update S ε) : Prog S ε Unit := write u (pure ())

end Prog

/-! ## Running a program alone -/

/-- The first of some rows in the order of the query. -/
def Query.first (q : Query S) (s : σ) (rows : List ρ) : Option ρ :=
  rows.find? fun r => rows.all fun r' => q.rank r (S.slice r s) ≤ q.rank r' (S.slice r' s)

namespace Prog

/-- The program executed by itself on `s`, while others hold the locks `busy`. -/
def run (busy : ρ → Bool) : Prog S ε α → σ → Except ε (α × σ)
  | pure a, s => .ok (a, s)
  | throw e, _ => .error e
  | selectForUpdate r k, s => (k (S.slice r s)).run busy s
  | select k, s => (k s).run busy s
  | selectSkipLocked q k, s => (k (q.first s ((q.scan s).filter fun r => !busy r))).run busy s
  | write u k, s => do
      let t ← u.apply s
      k.run busy t

/-- A program runs up to where it returns, and `f` goes on from there. -/
theorem run_bind {busy : ρ → Bool} {p : Prog S ε α} {f : α → Prog S ε β} {s t : σ} {a : α}
    (h : p.run busy s = .ok (a, t)) : (p >>= f).run busy s = (f a).run busy t := by
  show (p.bind f).run busy s = _
  induction p generalizing s with
  | pure b =>
      simp only [run, Except.ok.injEq, Prod.mk.injEq] at h
      rw [← h.1, ← h.2]
      rfl
  | throw e => simp [run] at h
  | selectForUpdate r k ih => exact ih _ h
  | select k ih => exact ih _ h
  | selectSkipLocked q k ih => exact ih _ h
  | write u k ih =>
      simp only [run] at h
      cases hu : u.apply s with
      | error e =>
          rw [hu] at h
          cases h
      | ok s₁ =>
          rw [hu] at h
          simp only [Prog.bind, run, hu]
          exact ih h

/-- The program whose statement number `n` fails with `e`; after its last statement, the
`COMMIT` fails. -/
def failAt (e : ε) : ℕ → Prog S ε α → Prog S ε α
  | _, pure _ => throw e
  | _, throw e' => throw e'
  | 0, selectForUpdate _ _ => throw e
  | n + 1, selectForUpdate r k => selectForUpdate r fun v => (k v).failAt e n
  | 0, select _ => throw e
  | n + 1, select k => select fun s => (k s).failAt e n
  | 0, selectSkipLocked _ _ => throw e
  | n + 1, selectSkipLocked q k => selectSkipLocked q fun o => (k o).failAt e n
  | 0, write _ _ => throw e
  | n + 1, write u k => write u (k.failAt e n)

/-- Whichever statement fails, nothing is committed. -/
theorem run_failAt {busy : ρ → Bool} {p : Prog S ε α} {e : ε} {n : ℕ} {s : σ} {r : α × σ} :
    (p.failAt e n).run busy s ≠ .ok r := by
  induction p generalizing n s with
  | pure a => simp [failAt, run]
  | throw e' => simp [failAt, run]
  | selectForUpdate r k ih =>
      cases n with
      | zero => simp [failAt, run]
      | succ n => exact ih _
  | select k ih =>
      cases n with
      | zero => simp [failAt, run]
      | succ n => exact ih _
  | selectSkipLocked q k ih =>
      cases n with
      | zero => simp [failAt, run]
      | succ n => exact ih _
  | write u k ih =>
      cases n with
      | zero => simp [failAt, run]
      | succ n =>
          simp only [failAt, run]
          cases u.apply s with
          | error e' => simp [Bind.bind, Except.bind]
          | ok s₁ => exact ih

end Prog

/-! ## The big-step relation -/

/-- How a program is executed: by itself, or among others. -/
inductive Mode (ρ : Type)
  | serial (busy : ρ → Prop)
  | concurrent

/-- In a concurrent execution a read without a lock may be out of date by the time of
the commit. -/
def Mode.stale : Mode ρ → Prop
  | .serial _ => False
  | .concurrent => True

/-- The row used of a `SKIP LOCKED` query: the first unlocked match, if there is one. -/
def Query.Returns (q : Query S) (s : σ) : Mode ρ → Option ρ → Prop
  | .serial busy, none => ∀ r ∈ q.scan s, busy r
  | .serial busy, some r => r ∈ q.scan s ∧ ¬ busy r ∧
      ∀ r' ∈ q.scan s, ¬ busy r' → q.rank r (S.slice r s) ≤ q.rank r' (S.slice r' s)
  | .concurrent, none => True
  | .concurrent, some r => r ∈ q.scan s

/-- `Exec m p s a t`: executed on `s` in mode `m`, `p` can return `a` and leave `t`. -/
def Exec (m : Mode ρ) : Prog S ε α → σ → α → σ → Prop
  | .pure a, s, b, t => a = b ∧ s = t
  | .throw _, _, _, _ => False
  | .selectForUpdate r k, s, b, t =>
      Exec m (k (S.slice r s)) s b t ∨
        (m.stale ∧ ∃ v, S.present r v = false ∧ Exec m (k v) s b t)
  | .select k, s, b, t => ∃ s₀, (s₀ = s ∨ m.stale) ∧ Exec m (k s₀) s b t
  | .selectSkipLocked q k, s, b, t => ∃ o, q.Returns s m o ∧ Exec m (k o) s b t
  | .write u k, s, b, t => ∃ s₁, u.apply s = .ok s₁ ∧ Exec m k s₁ b t

section Exec

variable {m : Mode ρ} {s t : σ} {b : β}

@[simp] theorem stale_serial (busy : ρ → Prop) : (Mode.serial busy).stale ↔ False := Iff.rfl

@[simp] theorem stale_concurrent : (Mode.concurrent : Mode ρ).stale ↔ True := Iff.rfl

@[simp] theorem exec_pure {a c : α} :
    Exec m (pure a : Prog S ε α) s c t ↔ a = c ∧ s = t := Iff.rfl

@[simp] theorem exec_throw {e : ε} {c : α} :
    Exec m (Prog.throw e : Prog S ε α) s c t ↔ False := Iff.rfl

theorem exec_bind {p : Prog S ε α} {f : α → Prog S ε β} :
    Exec m (p >>= f) s b t ↔ ∃ a s₁, Exec m p s a s₁ ∧ Exec m (f a) s₁ b t := by
  show Exec m (p.bind f) s b t ↔ _
  -- by induction on the program that comes first
  induction p generalizing s with
  | pure a => simp [Prog.bind, Exec]
  | throw e => simp [Prog.bind, Exec]
  | selectForUpdate r k ih =>
      simp only [Prog.bind, Exec, ih]
      constructor
      · rintro (⟨a, s₁, h, hf⟩ | ⟨hm, v, hv, a, s₁, h, hf⟩)
        · exact ⟨a, s₁, Or.inl h, hf⟩
        · exact ⟨a, s₁, Or.inr ⟨hm, v, hv, h⟩, hf⟩
      · rintro ⟨a, s₁, h | ⟨hm, v, hv, h⟩, hf⟩
        · exact Or.inl ⟨a, s₁, h, hf⟩
        · exact Or.inr ⟨hm, v, hv, a, s₁, h, hf⟩
  | select k ih =>
      simp only [Prog.bind, Exec, ih]
      constructor
      · rintro ⟨s₀, h₀, a, s₁, h, hf⟩
        exact ⟨a, s₁, ⟨s₀, h₀, h⟩, hf⟩
      · rintro ⟨a, s₁, ⟨s₀, h₀, h⟩, hf⟩
        exact ⟨s₀, h₀, a, s₁, h, hf⟩
  | selectSkipLocked q k ih =>
      simp only [Prog.bind, Exec, ih]
      constructor
      · rintro ⟨o, ho, a, s₁, h, hf⟩
        exact ⟨a, s₁, ⟨o, ho, h⟩, hf⟩
      · rintro ⟨a, s₁, ⟨o, ho, h⟩, hf⟩
        exact ⟨o, ho, a, s₁, h, hf⟩
  | write u k ih =>
      simp only [Prog.bind, Exec, ih]
      constructor
      · rintro ⟨s₀, h₀, a, s₁, h, hf⟩
        exact ⟨a, s₁, ⟨s₀, h₀, h⟩, hf⟩
      · rintro ⟨a, s₁, ⟨s₀, h₀, h⟩, hf⟩
        exact ⟨s₀, h₀, a, s₁, h, hf⟩

theorem exec_forUpdate {r : ρ} {v : S.Slice r} :
    Exec m (Prog.forUpdate r : Prog S ε (S.Slice r)) s v t ↔
      s = t ∧ (v = S.slice r s ∨ (m.stale ∧ S.present r v = false)) := by
  simp only [Prog.forUpdate, Exec]
  constructor
  · rintro (⟨rfl, rfl⟩ | ⟨hm, w, hw, rfl, rfl⟩)
    · exact ⟨rfl, Or.inl rfl⟩
    · exact ⟨rfl, Or.inr ⟨hm, hw⟩⟩
  · rintro ⟨rfl, rfl | ⟨hm, hv⟩⟩
    · exact Or.inl ⟨rfl, rfl⟩
    · exact Or.inr ⟨hm, v, hv, rfl, rfl⟩

theorem exec_query {f : σ → α} {a : α} :
    Exec m (Prog.query f : Prog S ε α) s a t ↔
      s = t ∧ (a = f s ∨ (m.stale ∧ ∃ s₀, a = f s₀)) := by
  simp only [Prog.query, Exec]
  constructor
  · rintro ⟨s₀, h₀ | hm, rfl, rfl⟩
    · exact ⟨rfl, Or.inl (by rw [h₀])⟩
    · exact ⟨rfl, Or.inr ⟨hm, s₀, rfl⟩⟩
  · rintro ⟨rfl, rfl | ⟨hm, s₀, rfl⟩⟩
    · exact ⟨s, Or.inl rfl, rfl, rfl⟩
    · exact ⟨s₀, Or.inr hm, rfl, rfl⟩

theorem exec_skipLocked {q : Query S} {o : Option ρ} :
    Exec m (Prog.skipLocked q : Prog S ε (Option ρ)) s o t ↔ s = t ∧ q.Returns s m o := by
  simp only [Prog.skipLocked, Exec]
  constructor
  · rintro ⟨o', ho, rfl, rfl⟩
    exact ⟨rfl, ho⟩
  · rintro ⟨rfl, ho⟩
    exact ⟨o, ho, rfl, rfl⟩

theorem exec_save {u : Update S ε} {a : Unit} :
    Exec m (Prog.save u) s a t ↔ u.apply s = .ok t := by
  simp [Prog.save, Exec]

theorem Query.first_eq_none {q : Query S} {rows : List ρ} (h : q.first s rows = none) :
    rows = [] := by
  by_contra hne
  obtain ⟨r, hr⟩ := Option.ne_none_iff_exists'.mp
    (mt (List.argmin_eq_none (f := fun r => q.rank r (S.slice r s))).mp hne)
  have hmem : r ∈ rows := List.argmin_mem hr
  refine List.find?_eq_none.mp h r hmem ?_
  rw [List.all_eq_true]
  intro r' hr'
  exact decide_eq_true (List.le_of_mem_argmin hr' hr)

/-- The first unlocked row in the order of the query is what the query returns. -/
theorem Query.returns_first (q : Query S) (busy : ρ → Bool) (s : σ) :
    q.Returns s (.serial (fun r => busy r = true))
      (q.first s ((q.scan s).filter fun r => !busy r)) := by
  have hmem : ∀ r, r ∈ (q.scan s).filter (fun r => !busy r) ↔ r ∈ q.scan s ∧ ¬ busy r = true := by
    intro r
    simp
  cases hfirst : q.first s ((q.scan s).filter fun r => !busy r) with
  | none =>
      have hnil := Query.first_eq_none hfirst
      intro r hr
      by_contra hb
      have hrl := (hmem r).mpr ⟨hr, hb⟩
      rw [hnil] at hrl
      cases hrl
  | some r =>
      have hr := (hmem r).mp (List.mem_of_find?_eq_some hfirst)
      have hall := List.find?_some hfirst
      rw [List.all_eq_true] at hall
      refine ⟨hr.1, hr.2, fun r' hr' hb => ?_⟩
      exact of_decide_eq_true (hall r' ((hmem r').mpr ⟨hr', hb⟩))

/-- The function `run` computes one of the serial executions. -/
theorem exec_of_run {busy : ρ → Bool} {p : Prog S ε α} {a : α}
    (h : p.run busy s = .ok (a, t)) : Exec (.serial (fun r => busy r = true)) p s a t := by
  induction p generalizing s with
  | pure b =>
      simp only [Prog.run, Except.ok.injEq, Prod.mk.injEq] at h
      exact h
  | throw e => simp [Prog.run] at h
  | selectForUpdate r k ih => exact Or.inl (ih _ h)
  | select k ih => exact ⟨s, Or.inl rfl, ih _ h⟩
  | selectSkipLocked q k ih => exact ⟨_, q.returns_first busy s, ih _ h⟩
  | write u k ih =>
      simp only [Prog.run] at h
      cases hu : u.apply s with
      | error e => rw [hu] at h; cases h
      | ok s₁ =>
          rw [hu] at h
          exact ⟨s₁, hu, ih h⟩

end Exec

end Txn
