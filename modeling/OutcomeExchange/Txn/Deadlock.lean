import OutcomeExchange.Txn.RowLock

set_option autoImplicit false

/-! # Waiting for rows

A session waits when its next statement needs a row that another session holds, and a
deadlock is a cycle of sessions each of which waits for a row of the next one. The same
cycle can be read on the rows: `Before r r'` says that a session which holds `r` waits for
`r'`, and `Conf.Deadlocked.before_cycle` turns a cycle of sessions into a cycle of rows.
`Prog.toLock` looks ahead: the rows that a transaction has still to lock.

`Prog.Asks G` says that a program locks rows only where the guard `G` allows it, whatever
the other sessions commit in between. It is closed under sequencing (`asks_bind`), so it is
proved of a transaction by walking through its code, and `Asking.step` carries it to the
sessions of a run. Together they reduce freedom from deadlocks to a fact about the order in
which `G` allows rows. -/

namespace Txn

variable {σ ρ ε α β κ : Type} {S : Store σ ρ}

/-! ## Sessions that wait -/

/-- The next statement needs the lock on `r`; a `SELECT … FOR UPDATE` of a row that is not
there returns at once. -/
def Prog.Needs (s : σ) : Prog S ε α → ρ → Prop
  | .selectForUpdate r _, r' => r' = r ∧ S.present r (S.slice r s) = true
  | .write u _, r' => r' ∈ u.rows
  | _, _ => False

/-- The rows that the program locks if it goes on by itself from what it sees now. -/
def Prog.toLock : Prog S ε α → σ → List ρ
  | .pure _, _ => []
  | .throw _, _ => []
  | .selectForUpdate r k, s => r :: (k (S.slice r s)).toLock s
  | .select k, s => (k s).toLock s
  | .selectSkipLocked q k, s => q.scan s ++ (k (q.first s (q.scan s))).toLock s
  | .write u k, s => u.rows ++
      match u.apply s with
      | .ok t => k.toLock t
      | .error _ => []

/-- The next row that it needs is the first of them. -/
theorem Prog.Needs.toLock {s : σ} {p : Prog S ε α} {r : ρ} (h : p.Needs s r) : r ∈ p.toLock s := by
  cases p with
  | pure a => exact h.elim
  | throw e => exact h.elim
  | selectForUpdate r' k =>
      rw [h.1]
      exact List.mem_cons_self ..
  | select k => exact h.elim
  | selectSkipLocked q k => exact h.elim
  | write u k => exact List.mem_append_left _ h

/-- Session `i` waits for the row `r` that session `j` holds. -/
structure Conf.Waits (c : Conf S ε α κ) (i : ℕ) (r : ρ) (j : ℕ) : Prop where
  needs : ∃ x s, c.session i = some x ∧ x.view c.committed = .ok s ∧ x.rest.Needs s r
  held : ∃ y, c.session j = some y ∧ r ∈ y.held
  other : j ≠ i

def Conf.WaitsFor (c : Conf S ε α κ) (i j : ℕ) : Prop := ∃ r, c.Waits i r j

/-- Session `i` waits for `r` in a cycle of waiting sessions. -/
def Conf.Deadlocked (c : Conf S ε α κ) (i : ℕ) (r : ρ) : Prop :=
  ∃ j, c.Waits i r j ∧ Relation.ReflTransGen c.WaitsFor j i

/-- A session that holds `r` waits for `r'`. -/
def Conf.Before (c : Conf S ε α κ) (r r' : ρ) : Prop :=
  ∃ i j x, c.session i = some x ∧ r ∈ x.held ∧ c.Waits i r' j

section Cycles

variable {c : Conf S ε α κ} {i j : ℕ} {r : ρ}

theorem Conf.Waits.before {x : Session S ε α κ} {r' : ρ} (h : c.Waits i r' j)
    (hx : c.session i = some x) (hr : r ∈ x.held) : c.Before r r' :=
  ⟨i, j, x, hx, hr, h⟩

/-- Along waiting sessions the rows they hold follow each other. -/
theorem before_of_waitsFor {x : Session S ε α κ} (h : Relation.ReflTransGen c.WaitsFor j i)
    (hx : c.session j = some x) (hr : r ∈ x.held) :
    ∃ y r', c.session i = some y ∧ r' ∈ y.held ∧ Relation.ReflTransGen c.Before r r' := by
  induction h with
  | refl => exact ⟨x, r, hx, hr, .refl⟩
  | tail _ hwaits ih =>
      obtain ⟨y, r', hy, hr', hpath⟩ := ih
      obtain ⟨q, hwaits⟩ := hwaits
      obtain ⟨z, hz, hq⟩ := hwaits.held
      exact ⟨z, q, hz, hq, hpath.tail (hwaits.before hy hr')⟩

/-- **A cycle of sessions is a cycle of rows.** -/
theorem Conf.Deadlocked.before_cycle (h : c.Deadlocked i r) :
    ∃ x r', c.session i = some x ∧ r' ∈ x.held ∧ c.Before r' r ∧
      Relation.ReflTransGen c.Before r r' := by
  obtain ⟨j, hwaits, hback⟩ := h
  obtain ⟨y, hy, hr⟩ := hwaits.held
  obtain ⟨x, r', hx, hr', hpath⟩ := before_of_waitsFor hback hy hr
  exact ⟨x, r', hx, hr', hwaits.before hx hr', hpath⟩

/-- Every session of the cycle is in it. -/
theorem Conf.Deadlocked.next (h : c.Deadlocked i r) :
    ∃ j r', j ≠ i ∧ c.Deadlocked j r' := by
  obtain ⟨j, hwaits, hback⟩ := h
  rcases Relation.ReflTransGen.cases_head hback with heq | ⟨k, ⟨r', hk⟩, hrest⟩
  · exact absurd heq hwaits.other
  · exact ⟨j, r', hwaits.other, k, hk, hrest.tail ⟨r, hwaits⟩⟩

end Cycles

/-! ## What a program asks for -/

/-- The rows that a transaction may lock. `ask clean held s r`: it may wait for `r` when it
holds `held`, sees `s`, and has written nothing if `clean`. `pick r`: a query that skips
locked rows may lock `r`. -/
structure Guard (σ ρ : Type) where
  ask : Bool → List ρ → σ → ρ → Prop
  pick : ρ → Prop

/-- `p.Asks G clean held s Q`: the program, which holds the rows `held`, sees `s` and has
written nothing if `clean`, locks rows only where `G` allows it, and where it returns `Q`
holds. -/
def Prog.Asks (G : Guard σ ρ) :
    Prog S ε α → Bool → List ρ → σ → (α → Bool → List ρ → σ → Prop) → Prop
  | .pure a, clean, held, s, Q => Q a clean held s
  | .throw _, _, _, _, _ => True
  | .selectForUpdate r k, clean, held, s, Q =>
      (S.present r (S.slice r s) = true →
        G.ask clean held s r ∧ (k (S.slice r s)).Asks G clean (r :: held) s Q) ∧
      ∀ v, S.present r v = false → (k v).Asks G clean held s Q
  | .select k, clean, held, s, Q => ∀ s₀, (k s₀).Asks G clean held s Q
  | .selectSkipLocked q k, clean, held, s, Q =>
      (k none).Asks G clean held s Q ∧
      ∀ r rows, r ∈ rows → (∀ r' ∈ rows, r' ∈ q.scan s) →
        (∀ r' ∈ rows, G.pick r') ∧ (k (some r)).Asks G clean (rows ++ held) s Q
  | .write u k, clean, held, s, Q =>
      (∀ r ∈ u.rows, G.ask clean held s r) ∧
      ∀ t, u.apply s = .ok t → k.Asks G false (u.rows ++ held) t Q

section Asks

variable {G : Guard σ ρ} {clean : Bool} {held : List ρ} {s : σ}

theorem asks_pure {a : α} {Q : α → Bool → List ρ → σ → Prop} :
    (pure a : Prog S ε α).Asks G clean held s Q ↔ Q a clean held s := Iff.rfl

theorem asks_throw {e : ε} {Q : α → Bool → List ρ → σ → Prop} :
    (Prog.throw e : Prog S ε α).Asks G clean held s Q := trivial

/-- Sequencing. -/
theorem asks_bind {p : Prog S ε α} {f : α → Prog S ε β} {Q : β → Bool → List ρ → σ → Prop} :
    (p >>= f).Asks G clean held s Q ↔
      p.Asks G clean held s fun a clean' held' s' => (f a).Asks G clean' held' s' Q := by
  show (p.bind f).Asks G clean held s Q ↔ _
  induction p generalizing clean held s with
  | pure a => exact Iff.rfl
  | throw e => exact Iff.rfl
  | selectForUpdate r k ih => simp only [Prog.bind, Prog.Asks, ih]
  | select k ih => simp only [Prog.bind, Prog.Asks, ih]
  | selectSkipLocked q k ih => simp only [Prog.bind, Prog.Asks, ih]
  | write u k ih => simp only [Prog.bind, Prog.Asks, ih]

theorem asks_forUpdate {r : ρ} {Q : S.Slice r → Bool → List ρ → σ → Prop} :
    (Prog.forUpdate r : Prog S ε (S.Slice r)).Asks G clean held s Q ↔
      (S.present r (S.slice r s) = true → G.ask clean held s r ∧
        Q (S.slice r s) clean (r :: held) s) ∧
      ∀ v, S.present r v = false → Q v clean held s := Iff.rfl

theorem asks_query {f : σ → α} {Q : α → Bool → List ρ → σ → Prop} :
    (Prog.query f : Prog S ε α).Asks G clean held s Q ↔ ∀ s₀, Q (f s₀) clean held s := Iff.rfl

theorem asks_skipLocked {q : Query S} {Q : Option ρ → Bool → List ρ → σ → Prop} :
    (Prog.skipLocked q : Prog S ε (Option ρ)).Asks G clean held s Q ↔ Q none clean held s ∧
      ∀ r rows, r ∈ rows → (∀ r' ∈ rows, r' ∈ q.scan s) →
        (∀ r' ∈ rows, G.pick r') ∧ Q (some r) clean (rows ++ held) s := Iff.rfl

theorem asks_save {u : Update S ε} {Q : Unit → Bool → List ρ → σ → Prop} :
    (Prog.save u).Asks G clean held s Q ↔ (∀ r ∈ u.rows, G.ask clean held s r) ∧
      ∀ t, u.apply s = .ok t → Q () false (u.rows ++ held) t := Iff.rfl

end Asks

/-! ## What a session asks for -/

section Sessions

variable {G : κ → Guard σ ρ} {body : κ → Prog S ε α} {start : σ → κ → Prop}

/-- Whatever the others have committed of the rows that it does not hold, the session goes on
to need rows only where `G` allows it. -/
def Session.Asks (G : κ → Guard σ ρ) (x : Session S ε α κ) (s : σ) : Prop :=
  ∀ t u, AgreeOn S x.held s t → x.view t = .ok u →
    x.rest.Asks (G x.call) x.pending.isEmpty x.held u fun _ _ _ _ => True

theorem Session.Asks.agree {x : Session S ε α κ} {s s' : σ} (h : x.Asks G s)
    (hag : AgreeOn S x.held s s') : x.Asks G s' :=
  fun t u ht => h t u fun r hr => (hag r hr).trans (ht r hr)

/-- What the session needs, it is allowed to need. -/
theorem Session.Asks.allowed {x : Session S ε α κ} {s u : σ} {r : ρ} (h : x.Asks G s)
    (hu : x.view s = .ok u) (hneeds : x.rest.Needs u r) :
    (G x.call).ask x.pending.isEmpty x.held u r := by
  have hasks := h s u (fun _ _ => rfl) hu
  cases hrest : x.rest with
  | pure a => rw [hrest] at hneeds; exact hneeds.elim
  | throw e => rw [hrest] at hneeds; exact hneeds.elim
  | selectForUpdate r' k =>
      rw [hrest] at hneeds hasks
      obtain ⟨rfl, hthere⟩ := hneeds
      exact (hasks.1 hthere).1
  | select k => rw [hrest] at hneeds; exact hneeds.elim
  | selectSkipLocked q k => rw [hrest] at hneeds; exact hneeds.elim
  | write w k =>
      rw [hrest] at hneeds hasks
      exact hasks.1 r hneeds

/-- **The statement lemma.** -/
theorem Session.Asks.next {busy : ρ → Prop} {s s₁ : σ} {x x' : Session S ε α κ}
    (h : x.Asks G s) (hs : x.view s = .ok s₁) (hnext : x.Next busy s₁ x') : x'.Asks G s := by
  cases hnext with
  | @lock r k hrest free there =>
      intro t u hag hu
      have hasks := h t u hag.of_cons hu
      -- the row is held from here on, so it is there and reads the same
      have hslice := applyAll_agree hag hs hu r (List.mem_cons_self ..)
      rw [hrest] at hasks
      rw [hslice] at there ⊢
      exact (hasks.1 there).2
  | @missing r k hrest absent =>
      intro t u hag hu
      have hasks := h t u hag hu
      rw [hrest] at hasks
      exact hasks.2 _ absent
  | @select k hrest =>
      intro t u hag hu
      have hasks := h t u hag hu
      rw [hrest] at hasks
      exact hasks s₁
  | @pick q k r rows hrest first locked =>
      intro t u hag hu
      have hasks := h t u (fun r' hr' => hag r' (List.mem_append_right _ hr')) hu
      have hview := applyAll_agree hag hs hu
      rw [hrest] at hasks
      refine (hasks.2 r rows ((locked r).mpr ⟨first.1, first.2.1⟩) fun r' hr' => ?_).2
      exact (q.scan_congr r' (hview r' (List.mem_append_left _ hr'))).mp ((locked r').mp hr').1
  | @skip q k hrest nothing =>
      intro t u hag hu
      have hasks := h t u hag hu
      rw [hrest] at hasks
      exact hasks.1
  | @write w k s₂ hrest free ok =>
      intro t u hag hu
      obtain ⟨u₁, hu₁, hw⟩ := applyAll_append.mp hu
      have hasks := h t u₁ (fun r hr => hag r (List.mem_append_right _ hr)) hu₁
      rw [hrest] at hasks
      have hdirty : (x.pending ++ [w]).isEmpty = false := by simp
      show k.Asks (G x.call) (x.pending ++ [w]).isEmpty (w.rows ++ x.held) u _
      rw [hdirty]
      exact hasks.2 u hw

/-- A row that a statement locks is one that the guard allows. -/
theorem Session.Asks.locks {busy : ρ → Prop} {s s₁ : σ} {x x' : Session S ε α κ} {r : ρ}
    (h : x.Asks G s) (hs : x.view s = .ok s₁) (hnext : x.Next busy s₁ x') (hr : r ∈ x'.held) :
    r ∈ x.held ∨ (G x.call).ask x.pending.isEmpty x.held s₁ r ∨ (G x.call).pick r := by
  cases hnext with
  | @lock r' k hrest free there =>
      rcases List.mem_cons.mp hr with rfl | hr
      · refine Or.inr (Or.inl (h.allowed hs ?_))
        rw [hrest]
        exact ⟨rfl, there⟩
      · exact Or.inl hr
  | missing hrest absent => exact Or.inl hr
  | select hrest => exact Or.inl hr
  | @pick q k r' rows hrest first locked =>
      rcases List.mem_append.mp hr with hr | hr
      · have hasks := h s s₁ (fun _ _ => rfl) hs
        rw [hrest] at hasks
        have hrows : ∀ r'' ∈ rows, r'' ∈ q.scan s₁ := fun r'' hr'' => ((locked r'').mp hr'').1
        have hfirst : r' ∈ rows := (locked r').mpr ⟨first.1, first.2.1⟩
        exact Or.inr (Or.inr ((hasks.2 r' rows hfirst hrows).1 r hr))
      · exact Or.inl hr
  | skip hrest nothing => exact Or.inl hr
  | write hrest free ok =>
      rcases List.mem_append.mp hr with hr | hr
      · refine Or.inr (Or.inl (h.allowed hs ?_))
        rw [hrest]
        exact hr
      · exact Or.inl hr

/-- Every running session asks as `G` allows. -/
def Asking (G : κ → Guard σ ρ) (c : Conf S ε α κ) : Prop :=
  ∀ i x, c.session i = some x → x.Asks G c.committed

/-- A session has just begun or was there before. -/
theorem Conf.Step.session {c c' : Conf S ε α κ} {e : Event κ} {j : ℕ} {y : Session S ε α κ}
    (hst : Conf.Step body start c e c') (hy : c'.session j = some y) :
    (e = .begin j y.call ∧ c'.committed = c.committed) ∨
      ∃ x, c.session j = some x ∧ x.call = y.call ∧ e ≠ .commit j := by
  cases hst with
  | @begin i k new hstart =>
      rcases update_some hy with ⟨rfl, hnew⟩ | ⟨-, hold⟩
      · cases hnew
        exact Or.inl ⟨rfl, rfl⟩
      · exact Or.inr ⟨y, hold, rfl, by rintro ⟨⟩⟩
  | @statement i x x' s hx hs hnext =>
      rcases update_some hy with ⟨rfl, hnew⟩ | ⟨-, hold⟩
      · cases hnew
        exact Or.inr ⟨x, hx, hnext.call.symm, by rintro ⟨⟩⟩
      · exact Or.inr ⟨y, hold, rfl, by rintro ⟨⟩⟩
  | @commit i x a s hx ha hs =>
      rcases update_some hy with ⟨-, hnew⟩ | ⟨hne, hold⟩
      · cases hnew
      · refine Or.inr ⟨y, hold, rfl, ?_⟩
        rintro ⟨⟩
        exact hne rfl
  | @abort i x hx =>
      rcases update_some hy with ⟨-, hnew⟩ | ⟨-, hold⟩
      · cases hnew
      · exact Or.inr ⟨y, hold, rfl, by rintro ⟨⟩⟩

/-- **The step lemma**: it is enough that the transactions that begin do so. -/
theorem Asking.step {c c' : Conf S ε α κ} {e : Event κ} (h : Asking G c) (hg : Good body c)
    (hbegin : ∀ i k, e = .begin i k → ∀ u, (body k).Asks (G k) true [] u fun _ _ _ _ => True)
    (hst : Conf.Step body start c e c') : Asking G c' := by
  intro j y hj
  cases hst with
  | @begin i k new hstart =>
      rcases update_some hj with ⟨-, hy⟩ | ⟨-, hj⟩
      · cases hy
        exact fun t u _ _ => hbegin i k rfl u
      · exact h j y hj
  | @statement i x x' s hx hs hnext =>
      rcases update_some hj with ⟨-, hy⟩ | ⟨-, hj⟩
      · cases hy
        exact (h i x hx).next hs hnext
      · exact h j y hj
  | @commit i x a s hx ha hs =>
      rcases update_some hj with ⟨-, hy⟩ | ⟨hne, hj⟩
      · cases hy
      · exact (h j y hj).agree (hg.agree hx hs hne hj)
  | @abort i x hx =>
      rcases update_some hj with ⟨-, hy⟩ | ⟨-, hj⟩
      · cases hy
      · exact h j y hj

end Sessions

end Txn
