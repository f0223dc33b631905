import OutcomeExchange.Txn.Program
import OutcomeExchange.Txn.System
import Mathlib.Logic.Function.Basic
import Mathlib.Logic.Relation

set_option autoImplicit false

/-! # Interleaved transactions under row locks

Any number of sessions run transactions against one committed state. A session takes
one statement at a time. Its own writes are visible to itself at once and to everybody
else only at its commit; a row it has locked or written is locked until it ends; a
`SELECT … FOR UPDATE` or a write of a row that another session holds has to wait, and
`SKIP LOCKED` passes over such rows and locks all others that it matches. A session may be aborted at any point, which
drops its writes and its locks.

The main result, `Good.step`, is that this is atomic: every commit is a `concurrent`
big-step execution (`Txn/Program.lean`) of the committing transaction on the state
committed at that moment, and no other event changes the committed state. The
invariant behind it (`Replays`) says that a session could run its program again up to
where it stands on any state that agrees with the committed one on the rows it holds.

`Conf.invariant` is the resulting proof rule: a property of the committed state kept by
each transaction as a whole holds under every interleaving. -/

namespace Txn

variable {σ ρ ε α κ : Type} {S : Store σ ρ}

/-- A running transaction: the call it executes, the statements still to come, its own
writes in order, and the rows it holds. -/
structure Session (S : Store σ ρ) (ε α κ : Type) where
  call : κ
  rest : Prog S ε α
  pending : List (Update S ε)
  held : List ρ

/-- The committed state and the running sessions. -/
structure Conf (S : Store σ ρ) (ε α κ : Type) where
  committed : σ
  session : ℕ → Option (Session S ε α κ)

/-- Writes applied one after the other. -/
def applyAll (us : List (Update S ε)) (s : σ) : Except ε σ := us.foldlM (fun s u => u.apply s) s

/-- What a session sees of the state `s`: its own writes on top of what is committed. -/
def Session.view (x : Session S ε α κ) (s : σ) : Except ε σ := applyAll x.pending s

/-- Row `r` is locked by a session other than `i`. -/
def Conf.lockedByOther (c : Conf S ε α κ) (i : ℕ) (r : ρ) : Prop :=
  ∃ j y, j ≠ i ∧ c.session j = some y ∧ r ∈ y.held

/-- The next statement of a session that sees `s`, while others hold the rows `busy`. -/
inductive Session.Next (busy : ρ → Prop) (s : σ) :
    Session S ε α κ → Session S ε α κ → Prop
  | lock {x : Session S ε α κ} {r : ρ} {k : S.Slice r → Prog S ε α}
      (h : x.rest = .selectForUpdate r k) (free : ¬ busy r)
      (there : S.present r (S.slice r s) = true) :
      Next busy s x { x with rest := k (S.slice r s), held := r :: x.held }
  | missing {x : Session S ε α κ} {r : ρ} {k : S.Slice r → Prog S ε α}
      (h : x.rest = .selectForUpdate r k) (absent : S.present r (S.slice r s) = false) :
      Next busy s x { x with rest := k (S.slice r s) }
  | select {x : Session S ε α κ} {k : σ → Prog S ε α} (h : x.rest = .select k) :
      Next busy s x { x with rest := k s }
  | pick {x : Session S ε α κ} {q : Query S} {k : Option ρ → Prog S ε α} {r : ρ} {rows : List ρ}
      (h : x.rest = .selectSkipLocked q k) (first : q.Returns s (.serial busy) (some r))
      (locked : ∀ r', r' ∈ rows ↔ r' ∈ q.scan s ∧ ¬ busy r') :
      Next busy s x { x with rest := k (some r), held := rows ++ x.held }
  | skip {x : Session S ε α κ} {q : Query S} {k : Option ρ → Prog S ε α}
      (h : x.rest = .selectSkipLocked q k) (nothing : q.Returns s (.serial busy) none) :
      Next busy s x { x with rest := k none }
  | write {x : Session S ε α κ} {u : Update S ε} {k : Prog S ε α} {t : σ}
      (h : x.rest = .write u k) (free : ∀ r ∈ u.rows, ¬ busy r) (ok : u.apply s = .ok t) :
      Next busy s x { x with rest := k, pending := x.pending ++ [u], held := u.rows ++ x.held }

/-- What happens next: a session begins, takes a statement, commits or is aborted. -/
inductive Event (κ : Type)
  | begin (i : ℕ) (k : κ)
  | statement (i : ℕ)
  | commit (i : ℕ)
  | abort (i : ℕ)

variable (body : κ → Prog S ε α) (start : σ → κ → Prop)

/-- One event. -/
inductive Conf.Step : Conf S ε α κ → Event κ → Conf S ε α κ → Prop
  | begin {c : Conf S ε α κ} {i : ℕ} {k : κ} (new : c.session i = none)
      (h : start c.committed k) :
      Step c (.begin i k) ⟨c.committed, Function.update c.session i (some ⟨k, body k, [], []⟩)⟩
  | statement {c : Conf S ε α κ} {i : ℕ} {x x' : Session S ε α κ} {s : σ}
      (hx : c.session i = some x) (hs : x.view c.committed = .ok s)
      (h : x.Next (c.lockedByOther i) s x') :
      Step c (.statement i) ⟨c.committed, Function.update c.session i (some x')⟩
  | commit {c : Conf S ε α κ} {i : ℕ} {x : Session S ε α κ} {a : α} {s : σ}
      (hx : c.session i = some x) (ha : x.rest = .pure a) (hs : x.view c.committed = .ok s) :
      Step c (.commit i) ⟨s, Function.update c.session i none⟩
  | abort {c : Conf S ε α κ} {i : ℕ} {x : Session S ε α κ} (hx : c.session i = some x) :
      Step c (.abort i) ⟨c.committed, Function.update c.session i none⟩

/-- The interleavings of the transactions `body`, started where `start` allows it. -/
def rowLock (init : σ → Prop) : System (Conf S ε α κ) (Event κ) where
  init c := init c.committed ∧ ∀ i, c.session i = none
  step := Conf.Step body start

/-! ## Views and locks -/

/-- Two states agree on the rows `held`. -/
def AgreeOn (S : Store σ ρ) (held : List ρ) (s t : σ) : Prop :=
  ∀ r ∈ held, S.slice r s = S.slice r t

theorem AgreeOn.of_cons {held : List ρ} {r : ρ} {s t : σ} (h : AgreeOn S (r :: held) s t) :
    AgreeOn S held s t :=
  fun r' hr' => h r' (List.mem_cons_of_mem r hr')

theorem applyAll_append {us : List (Update S ε)} {u : Update S ε} {s t : σ} :
    applyAll (us ++ [u]) s = .ok t ↔ ∃ s₁, applyAll us s = .ok s₁ ∧ u.apply s₁ = .ok t := by
  unfold applyAll
  rw [List.foldlM_append]
  cases us.foldlM (fun s u => u.apply s) s with
  | error e => simp [Bind.bind, Except.bind]
  | ok s₁ => simp [Bind.bind, Except.bind, List.foldlM, pure, Except.pure]; cases u.apply s₁ <;> simp

/-- Writes of the rows `held` leave every other row alone. -/
theorem applyAll_frame {us : List (Update S ε)} {held : List ρ} {r : ρ} (hr : r ∉ held) :
    ∀ {s t : σ}, (∀ u ∈ us, ∀ r' ∈ u.rows, r' ∈ held) → applyAll us s = .ok t →
      S.slice r t = S.slice r s := by
  induction us with
  | nil => intro s t _ h; cases h; rfl
  | cons u us ih =>
      intro s t hus h
      unfold applyAll at h
      rw [List.foldlM_cons] at h
      cases hu : u.apply s with
      | error e => rw [hu] at h; cases h
      | ok s₁ =>
          rw [hu] at h
          rw [ih (fun u' hu' => hus u' (List.mem_cons_of_mem u hu')) h]
          exact u.frame hu r fun hmem => hr (hus u (List.mem_cons_self ..) r hmem)

/-- What a session sees of a row depends only on what is committed of that row. -/
theorem applyAll_agree {us : List (Update S ε)} {held : List ρ} :
    ∀ {s s' t t' : σ}, AgreeOn S held s s' → applyAll us s = .ok t → applyAll us s' = .ok t' →
      AgreeOn S held t t' := by
  induction us with
  | nil =>
      intro s s' t t' hag h h'
      cases h; cases h'
      exact hag
  | cons u us ih =>
      intro s s' t t' hag h h'
      unfold applyAll at h h'
      rw [List.foldlM_cons] at h h'
      cases hu : u.apply s with
      | error e => rw [hu] at h; cases h
      | ok s₁ =>
          cases hu' : u.apply s' with
          | error e => rw [hu'] at h'; cases h'
          | ok s₁' =>
              rw [hu] at h
              rw [hu'] at h'
              refine ih (fun r hr => ?_) h h'
              by_cases hmem : r ∈ u.rows
              · exact u.determined hu hu' r hmem (hag r hr)
              · rw [u.frame hu r hmem, u.frame hu' r hmem, hag r hr]

/-! ## What every completion of a session does -/

variable {body start}

/-- However the session `x` runs to its end, from a state `t` in which the rows it holds are
as they are in `s`, the result `a` and the state `v` that it leaves satisfy `Q t a v`. -/
def Session.Completes (x : Session S ε α κ) (s : σ) (Q : σ → α → σ → Prop) : Prop :=
  ∀ t u a v, AgreeOn S x.held s t → x.view t = .ok u → Exec .concurrent x.rest u a v → Q t a v

/-- **The statement lemma.** A statement narrows down what the session can still do. -/
theorem Session.Completes.next {busy : ρ → Prop} {s s₁ : σ} {x x' : Session S ε α κ}
    {Q : σ → α → σ → Prop} (hr : x.Completes s Q) (hs : x.view s = .ok s₁)
    (h : x.Next busy s₁ x') : x'.Completes s Q := by
  cases h with
  | lock h free there =>
      intro t u a v hag hu hex
      refine hr t u a v hag.of_cons hu ?_
      -- the row is held from here on, so the session reads the same slice again
      have hslice := applyAll_agree hag hs hu _ (List.mem_cons_self ..)
      rw [h]
      refine Or.inl ?_
      rw [← hslice]
      exact hex
  | missing h absent =>
      intro t u a v hag hu hex
      refine hr t u a v hag hu ?_
      rw [h]
      exact Or.inr ⟨trivial, _, absent, hex⟩
  | select h =>
      intro t u a v hag hu hex
      refine hr t u a v hag hu ?_
      rw [h]
      exact ⟨_, Or.inr trivial, hex⟩
  | @pick q k r rows h first locked =>
      intro t u a v hag hu hex
      refine hr t u a v (fun r' hr' => hag r' (List.mem_append_right _ hr')) hu ?_
      -- the row returned is one of the rows locked
      have hmem : r ∈ rows := (locked r).mpr ⟨first.1, first.2.1⟩
      have hslice := applyAll_agree hag hs hu r (List.mem_append_left _ hmem)
      rw [h]
      exact ⟨some r, (q.scan_congr r hslice).mp first.1, hex⟩
  | skip h nothing =>
      intro t u a v hag hu hex
      refine hr t u a v hag hu ?_
      rw [h]
      exact ⟨none, trivial, hex⟩
  | @write w k s₂ h free ok =>
      intro t u a v hag hu hex
      obtain ⟨u₁, hu₁, hw⟩ := applyAll_append.mp hu
      refine hr t u₁ a v (fun r hr' => hag r (List.mem_append_right _ hr')) hu₁ ?_
      rw [h]
      exact ⟨u, hw, hex⟩

/-- It does not matter what others have committed of the rows that the session does not
hold. -/
theorem Session.Completes.agree {s s' : σ} {x : Session S ε α κ} {Q : σ → α → σ → Prop}
    (hr : x.Completes s Q) (h : AgreeOn S x.held s s') : x.Completes s' Q :=
  fun t u a v hag => hr t u a v fun r hr' => (h r hr').trans (hag r hr')

/-- The session will leave row `r` as it is. -/
def Session.Leaves (x : Session S ε α κ) (s : σ) (r : ρ) : Prop :=
  x.Completes s fun t _ v => S.slice r v = S.slice r t

/-! ## Inversion of the statements -/

theorem Session.Next.of_selectForUpdate {busy : ρ → Prop} {s : σ} {x x' : Session S ε α κ} {r : ρ}
    {k : S.Slice r → Prog S ε α} (h : x.Next busy s x') (hrest : x.rest = .selectForUpdate r k) :
    (¬ busy r ∧ S.present r (S.slice r s) = true ∧
        x' = { x with rest := k (S.slice r s), held := r :: x.held }) ∨
      (S.present r (S.slice r s) = false ∧ x' = { x with rest := k (S.slice r s) }) := by
  cases h with
  | lock h free there =>
      rw [hrest] at h
      cases h
      exact Or.inl ⟨free, there, rfl⟩
  | missing h absent =>
      rw [hrest] at h
      cases h
      exact Or.inr ⟨absent, rfl⟩
  | select h => rw [hrest] at h; cases h
  | pick h first locked => rw [hrest] at h; cases h
  | skip h nothing => rw [hrest] at h; cases h
  | write h free ok => rw [hrest] at h; cases h

theorem Session.Next.of_selectSkipLocked {busy : ρ → Prop} {s : σ} {x x' : Session S ε α κ}
    {q : Query S} {k : Option ρ → Prog S ε α} (h : x.Next busy s x')
    (hrest : x.rest = .selectSkipLocked q k) :
    (∃ r rows, q.Returns s (.serial busy) (some r) ∧ r ∈ rows ∧
        x' = { x with rest := k (some r), held := rows ++ x.held }) ∨
      (q.Returns s (.serial busy) none ∧ x' = { x with rest := k none }) := by
  cases h with
  | lock h free there => rw [hrest] at h; cases h
  | missing h absent => rw [hrest] at h; cases h
  | select h => rw [hrest] at h; cases h
  | pick h first locked =>
      rw [hrest] at h
      cases h
      exact Or.inl ⟨_, _, first, (locked _).mpr ⟨first.1, first.2.1⟩, rfl⟩
  | skip h nothing =>
      rw [hrest] at h
      cases h
      exact Or.inr ⟨nothing, rfl⟩
  | write h free ok => rw [hrest] at h; cases h

theorem Session.Next.of_select {busy : ρ → Prop} {s : σ} {x x' : Session S ε α κ}
    {k : σ → Prog S ε α} (h : x.Next busy s x') (hrest : x.rest = .select k) :
    x' = { x with rest := k s } := by
  cases h with
  | lock h free there => rw [hrest] at h; cases h
  | missing h absent => rw [hrest] at h; cases h
  | select h =>
      rw [hrest] at h
      cases h
      rfl
  | pick h first locked => rw [hrest] at h; cases h
  | skip h nothing => rw [hrest] at h; cases h
  | write h free ok => rw [hrest] at h; cases h

theorem Session.Next.of_write {busy : ρ → Prop} {s : σ} {x x' : Session S ε α κ} {u : Update S ε}
    {k : Prog S ε α} (h : x.Next busy s x') (hrest : x.rest = .write u k) :
    ∃ t, u.apply s = .ok t ∧
      x' = { x with rest := k, pending := x.pending ++ [u], held := u.rows ++ x.held } := by
  cases h with
  | lock h free there => rw [hrest] at h; cases h
  | missing h absent => rw [hrest] at h; cases h
  | select h => rw [hrest] at h; cases h
  | pick h first locked => rw [hrest] at h; cases h
  | skip h nothing => rw [hrest] at h; cases h
  | write h free ok =>
      rw [hrest] at h
      cases h
      exact ⟨_, ok, rfl⟩

/-- A session at its end takes no statement. -/
theorem Session.Next.of_pure {busy : ρ → Prop} {s : σ} {x x' : Session S ε α κ} {a : α}
    (h : x.Next busy s x') : x.rest ≠ .pure a := by
  intro hrest
  cases h with
  | lock h free there => rw [hrest] at h; cases h
  | missing h absent => rw [hrest] at h; cases h
  | select h => rw [hrest] at h; cases h
  | pick h first locked => rw [hrest] at h; cases h
  | skip h nothing => rw [hrest] at h; cases h
  | write h free ok => rw [hrest] at h; cases h

/-- Nor does one that has rejected its call. -/
theorem Session.Next.of_throw {busy : ρ → Prop} {s : σ} {x x' : Session S ε α κ} {e : ε}
    (h : x.Next busy s x') : x.rest ≠ .throw e := by
  intro hrest
  cases h with
  | lock h free there => rw [hrest] at h; cases h
  | missing h absent => rw [hrest] at h; cases h
  | select h => rw [hrest] at h; cases h
  | pick h first locked => rw [hrest] at h; cases h
  | skip h nothing => rw [hrest] at h; cases h
  | write h free ok => rw [hrest] at h; cases h

/-! ## The replay invariant -/

/-- Every completion of `x` is an execution of its transaction as a whole. -/
def Replays (body : κ → Prog S ε α) (s : σ) (x : Session S ε α κ) : Prop :=
  x.Completes s fun t a v => Exec .concurrent (body x.call) t a v

theorem Session.Next.call {busy : ρ → Prop} {s : σ} {x x' : Session S ε α κ}
    (h : x.Next busy s x') : x'.call = x.call := by
  cases h <;> rfl

theorem Replays.next {busy : ρ → Prop} {s s₁ : σ} {x x' : Session S ε α κ}
    (hr : Replays body s x) (hs : x.view s = .ok s₁) (h : x.Next busy s₁ x') :
    Replays body s x' := by
  rw [Replays, h.call]
  exact Session.Completes.next hr hs h

/-- The invariant of interleaved execution. -/
structure Good (body : κ → Prog S ε α) (c : Conf S ε α κ) : Prop where
  replays : ∀ {i : ℕ} {x}, c.session i = some x → Replays body c.committed x
  owns : ∀ {i : ℕ} {x}, c.session i = some x → ∀ u ∈ x.pending, ∀ r ∈ u.rows, r ∈ x.held
  exclusive : ∀ {i j : ℕ} {x y}, i ≠ j → c.session i = some x → c.session j = some y →
    ∀ r ∈ x.held, r ∉ y.held

/-- A session that has written nothing sees what is committed. -/
theorem Session.view_of_pending {s u : σ} {x : Session S ε α κ} (h : x.pending = [])
    (hu : x.view s = .ok u) : u = s := by
  rw [Session.view, h] at hu
  cases hu
  rfl

/-- What is locked stays locked. -/
theorem Session.Next.held_mono {busy : ρ → Prop} {s : σ} {x x' : Session S ε α κ}
    (h : x.Next busy s x') {r : ρ} (hr : r ∈ x.held) : r ∈ x'.held := by
  cases h with
  | lock h free there => exact List.mem_cons_of_mem _ hr
  | missing h absent => exact hr
  | select h => exact hr
  | pick h first locked => exact List.mem_append_right _ hr
  | skip h nothing => exact hr
  | write h free ok => exact List.mem_append_right _ hr

/-- The rows a statement adds to those held were not held by another session. -/
theorem Session.Next.held {busy : ρ → Prop} {s : σ} {x x' : Session S ε α κ}
    (h : x.Next busy s x') {r : ρ} (hr : r ∈ x'.held) : r ∈ x.held ∨ ¬ busy r := by
  cases h with
  | lock h free there =>
      rcases List.mem_cons.mp hr with rfl | hr
      · exact Or.inr free
      · exact Or.inl hr
  | missing h absent => exact Or.inl hr
  | select h => exact Or.inl hr
  | pick h first locked =>
      rcases List.mem_append.mp hr with hr | hr
      · exact Or.inr ((locked r).mp hr).2
      · exact Or.inl hr
  | skip h nothing => exact Or.inl hr
  | write h free ok =>
      rcases List.mem_append.mp hr with hr | hr
      · exact Or.inr (free r hr)
      · exact Or.inl hr

theorem Session.Next.owns {busy : ρ → Prop} {s : σ} {x x' : Session S ε α κ}
    (h : x.Next busy s x') (ho : ∀ u ∈ x.pending, ∀ r ∈ u.rows, r ∈ x.held) :
    ∀ u ∈ x'.pending, ∀ r ∈ u.rows, r ∈ x'.held := by
  cases h with
  | lock h free there => exact fun u hu r hr => List.mem_cons_of_mem _ (ho u hu r hr)
  | missing h absent => exact ho
  | select h => exact ho
  | pick h first locked => exact fun u hu r hr => List.mem_append_right _ (ho u hu r hr)
  | skip h nothing => exact ho
  | write h free ok =>
      intro u hu r hr
      rcases List.mem_append.mp hu with hu | hu
      · exact List.mem_append_right _ (ho u hu r hr)
      · rw [List.mem_singleton.mp hu] at hr
        exact List.mem_append_left _ hr

theorem update_some {c : Conf S ε α κ} {i j : ℕ} {o : Option (Session S ε α κ)}
    {y : Session S ε α κ} (h : Function.update c.session i o j = some y) :
    (j = i ∧ o = some y) ∨ (j ≠ i ∧ c.session j = some y) := by
  by_cases hj : j = i
  · subst hj
    rw [Function.update_self] at h
    exact Or.inl ⟨rfl, h⟩
  · rw [Function.update_of_ne hj] at h
    exact Or.inr ⟨hj, h⟩

theorem Good.ended {c : Conf S ε α κ} (hg : Good body c) (i : ℕ) :
    Good body ⟨c.committed, Function.update c.session i none⟩ where
  replays h := by
    rcases update_some h with ⟨-, h⟩ | ⟨-, h⟩
    · cases h
    · exact hg.replays h
  owns h := by
    rcases update_some h with ⟨-, h⟩ | ⟨-, h⟩
    · cases h
    · exact hg.owns h
  exclusive hij hi hj := by
    rcases update_some hi with ⟨-, hi⟩ | ⟨-, hi⟩
    · cases hi
    rcases update_some hj with ⟨-, hj⟩ | ⟨-, hj⟩
    · cases hj
    exact hg.exclusive hij hi hj

/-- A commit leaves the rows held by the other sessions as they were. -/
theorem Good.agree {c : Conf S ε α κ} (hg : Good body c) {i j : ℕ} {x y : Session S ε α κ} {s : σ}
    (hx : c.session i = some x) (hs : x.view c.committed = .ok s) (hj : j ≠ i)
    (hy : c.session j = some y) : AgreeOn S y.held c.committed s :=
  fun r hr => (applyAll_frame (hg.exclusive hj hy hx r hr) (hg.owns hx) hs).symm

theorem Good.commit {c : Conf S ε α κ} (hg : Good body c) {i : ℕ} {x : Session S ε α κ} {s : σ}
    (hx : c.session i = some x) (hs : x.view c.committed = .ok s) :
    Good body ⟨s, Function.update c.session i none⟩ where
  replays {j y} h := by
    rcases update_some h with ⟨-, h⟩ | ⟨hj, h⟩
    · cases h
    · exact Session.Completes.agree (hg.replays h) (hg.agree hx hs hj h)
  owns := (hg.ended i).owns
  exclusive := (hg.ended i).exclusive

/-- **The step lemma.** Every event keeps the invariant; a commit is one execution of
the whole transaction on the committed state, which changes only rows that the session
holds, and no other event changes it. -/
theorem Good.step {c c' : Conf S ε α κ} {e : Event κ} (hg : Good body c)
    (h : Conf.Step body start c e c') :
    Good body c' ∧ (c'.committed = c.committed ∨
      ∃ i x a, e = .commit i ∧ c.session i = some x ∧
        Exec .concurrent (body x.call) c.committed a c'.committed ∧
        ∀ r, r ∉ x.held → S.slice r c'.committed = S.slice r c.committed) := by
  cases h with
  | @begin i k new h =>
      refine ⟨⟨fun {j y} hj => ?_, fun {j y} hj => ?_, fun {j j' y z} hne hj hj' => ?_⟩,
        Or.inl rfl⟩
      -- the new session has seen and locked nothing
      · rcases update_some hj with ⟨-, hy⟩ | ⟨-, hj⟩
        · cases hy
          intro t u a v _ hu hex
          cases hu
          exact hex
        · exact hg.replays hj
      · rcases update_some hj with ⟨-, hy⟩ | ⟨-, hj⟩
        · cases hy
          intro u hu
          cases hu
        · exact hg.owns hj
      · rcases update_some hj with ⟨-, hy⟩ | ⟨-, hyj⟩
        · cases hy
          intro r hr
          cases hr
        · rcases update_some hj' with ⟨-, hz⟩ | ⟨-, hzj⟩
          · cases hz
            intro r _ hr
            cases hr
          · exact hg.exclusive hne hyj hzj
  | @statement i x x' s hx hs h =>
      refine ⟨⟨fun {j y} hj => ?_, fun {j y} hj => ?_, fun {j j' y z} hne hj hj' => ?_⟩,
        Or.inl rfl⟩
      · rcases update_some hj with ⟨-, hy⟩ | ⟨-, hj⟩
        · cases hy
          exact (hg.replays hx).next hs h
        · exact hg.replays hj
      · rcases update_some hj with ⟨-, hy⟩ | ⟨-, hj⟩
        · cases hy
          exact h.owns (hg.owns hx)
        · exact hg.owns hj
      -- a row that is newly locked was free
      · rcases update_some hj with ⟨hji, hy⟩ | ⟨hji, hyj⟩
        · cases hy
          subst hji
          rcases update_some hj' with ⟨hji', -⟩ | ⟨hji', hzj⟩
          · exact absurd hji'.symm hne
          intro r hr hrz
          rcases h.held hr with hold | hfree
          · exact hg.exclusive hne hx hzj r hold hrz
          · exact hfree ⟨j', z, hji', hzj, hrz⟩
        · rcases update_some hj' with ⟨hji', hz⟩ | ⟨-, hzj⟩
          · cases hz
            intro r hry hr
            rcases h.held hr with hold | hfree
            · exact hg.exclusive hji hyj hx r hry hold
            · exact hfree ⟨j, y, hji, hyj, hry⟩
          · exact hg.exclusive hne hyj hzj
  | @commit i x a s hx ha hs =>
      refine ⟨hg.commit hx hs, Or.inr ⟨i, x, a, rfl, hx, ?_, fun r hr => applyAll_frame hr
        (hg.owns hx) hs⟩⟩
      refine hg.replays hx c.committed s a s (fun _ _ => rfl) hs ?_
      rw [ha]
      exact ⟨rfl, rfl⟩
  | @abort i x hx => exact ⟨hg.ended i, Or.inl rfl⟩

theorem good_init {c : Conf S ε α κ} (h : ∀ i, c.session i = none) : Good body c where
  replays {i x} hi := by rw [h i] at hi; cases hi
  owns {i x} hi := by rw [h i] at hi; cases hi
  exclusive {i j x y} _ hi := by rw [h i] at hi; cases hi

theorem Good.of_reachable {init : σ → Prop} {c : Conf S ε α κ}
    (h : (rowLock body start init).Reachable c) : Good body c := by
  refine h.invariant (Good body) ?_ ?_
  · rintro c ⟨-, hc⟩
    exact good_init hc
  · intro c e c' hg hst
    exact (hg.step hst).1

/-! ## The proof rule -/

/-- Every running session was started on a committed state with `I`. -/
def StartedIn (start : σ → κ → Prop) (I : σ → Prop) (c : Conf S ε α κ) : Prop :=
  ∀ i x, c.session i = some x → ∃ s₀, I s₀ ∧ start s₀ x.call

theorem StartedIn.step {I : σ → Prop} {c c' : Conf S ε α κ} {e : Event κ}
    (hI : I c.committed) (hc : StartedIn start I c) (h : Conf.Step body start c e c') :
    StartedIn start I c' := by
  cases h with
  | begin new h =>
      intro j y hj
      rcases update_some hj with ⟨-, hy⟩ | ⟨-, hj⟩
      · cases hy
        exact ⟨_, hI, h⟩
      · exact hc j y hj
  | statement hx hs h =>
      intro j y hj
      rcases update_some hj with ⟨-, hy⟩ | ⟨-, hj⟩
      · cases hy
        rw [h.call]
        exact hc _ _ hx
      · exact hc j y hj
  | commit hx ha hs =>
      intro j y hj
      rcases update_some hj with ⟨-, hy⟩ | ⟨-, hj⟩
      · cases hy
      · exact hc j y hj
  | abort hx =>
      intro j y hj
      rcases update_some hj with ⟨-, hy⟩ | ⟨-, hj⟩
      · cases hy
      · exact hc j y hj

/-- **Invariants of interleaved transactions.** A property of the committed state that
holds initially and is kept by each transaction, executed as a whole and started where
the property holds, holds in every state that an interleaving commits. -/
theorem Conf.invariant {init : σ → Prop} {I : σ → Prop} (hinit : ∀ s, init s → I s)
    (hstep : ∀ s₀ k s a t, I s₀ → start s₀ k → I s → Exec .concurrent (body k) s a t → I t)
    {c : Conf S ε α κ} (h : (rowLock body start init).Reachable c) :
    I c.committed ∧ StartedIn start I c := by
  refine h.invariant_of (fun c => I c.committed ∧ StartedIn start I c) (Good body)
    (fun _ hr => Good.of_reachable hr) ?_ ?_
  · intro c hc
    refine ⟨hinit _ hc.1, fun i x hi => ?_⟩
    rw [hc.2 i] at hi
    cases hi
  · rintro c e c' hg ⟨hI, hst⟩ hstep'
    refine ⟨?_, hst.step hI hstep'⟩
    rcases (hg.step hstep').2 with heq | ⟨i, x, a, -, hx, hex, -⟩
    · rw [heq]; exact hI
    · obtain ⟨s₀, hI₀, hs₀⟩ := hst i x hx
      exact hstep s₀ x.call _ a _ hI₀ hs₀ hI hex

/-- **Step properties of interleaved transactions.** What one event does to the committed
state is nothing, or one whole transaction, started where the invariant held, which
changes only rows that its session holds. -/
theorem Conf.step_cases {init : σ → Prop} {I : σ → Prop} (hinit : ∀ s, init s → I s)
    (hstep : ∀ s₀ k s a t, I s₀ → start s₀ k → I s → Exec .concurrent (body k) s a t → I t)
    {c c' : Conf S ε α κ} {e : Event κ} (h : (rowLock body start init).Reachable c)
    (hst : (rowLock body start init).step c e c') :
    c'.committed = c.committed ∨ ∃ s₀ i x a, e = .commit i ∧ c.session i = some x ∧
      I s₀ ∧ start s₀ x.call ∧ Exec .concurrent (body x.call) c.committed a c'.committed ∧
      ∀ r, r ∉ x.held → S.slice r c'.committed = S.slice r c.committed := by
  obtain ⟨-, hstarted⟩ := Conf.invariant hinit hstep h
  rcases ((Good.of_reachable h).step hst).2 with heq | ⟨i, x, a, he, hx, hex, hframe⟩
  · exact Or.inl heq
  · obtain ⟨s₀, hI₀, hs₀⟩ := hstarted i x hx
    exact Or.inr ⟨s₀, i, x, a, he, hx, hI₀, hs₀, hex, hframe⟩

/-- What a session commits is one execution of its whole transaction, also if it changes
nothing. -/
theorem Conf.commit_exec {init : σ → Prop} {I : σ → Prop} (hinit : ∀ s, init s → I s)
    (hstep : ∀ s₀ k s a t, I s₀ → start s₀ k → I s → Exec .concurrent (body k) s a t → I t)
    {c c' : Conf S ε α κ} {i : ℕ} {x : Session S ε α κ}
    (h : (rowLock body start init).Reachable c) (hx : c.session i = some x)
    (hst : (rowLock body start init).step c (.commit i) c') :
    ∃ s₀ a, I s₀ ∧ start s₀ x.call ∧ Exec .concurrent (body x.call) c.committed a c'.committed := by
  obtain ⟨-, hstarted⟩ := Conf.invariant hinit hstep h
  obtain ⟨s₀, hI₀, hs₀⟩ := hstarted i x hx
  have hg : Good body c := Good.of_reachable h
  cases hst with
  | @commit _ y a s hy ha hs =>
      rw [hx] at hy
      cases hy
      refine ⟨s₀, a, hI₀, hs₀, hg.replays hx c.committed s a s (fun _ _ => rfl) hs ?_⟩
      rw [ha]
      exact ⟨rfl, rfl⟩

/-! ## Serial runs

The statements of a session that runs alone are those of `Prog.run`, so every serial run
is an interleaving. -/

/-- No transaction is running. -/
def Conf.idle (s : σ) : Conf S ε α κ := ⟨s, fun _ => none⟩

/-- The only running session is `x`. -/
def Conf.alone (s : σ) (x : Session S ε α κ) : Conf S ε α κ :=
  ⟨s, Function.update (fun _ => none) 0 (some x)⟩

theorem Conf.alone_session (s : σ) (x : Session S ε α κ) :
    (Conf.alone s x).session 0 = some x := by
  simp only [Conf.alone, Function.update_self]

theorem Conf.alone_free (s : σ) (x : Session S ε α κ) :
    (Conf.alone s x).lockedByOther 0 = fun _ => False := by
  funext r
  refine eq_false ?_
  rintro ⟨j, y, hj, hy, -⟩
  rw [Conf.alone] at hy
  simp only [Function.update_of_ne hj] at hy
  cases hy

variable (body start) in
/-- From `c` to `c'` by statements of running sessions only. -/
def Conf.Statements : Conf S ε α κ → Conf S ε α κ → Prop :=
  Relation.ReflTransGen fun c c' => ∃ i, Conf.Step body start c (.statement i) c'

theorem Conf.Statements.run {init : σ → Prop} {C : Conf S ε α κ → Event κ → Prop}
    (hC : ∀ c i, C c (.statement i)) {c c' : Conf S ε α κ} (h : Conf.Statements body start c c') :
    ∃ ls, ((rowLock body start init).restrict C).Run c ls c' := by
  induction h with
  | refl => exact ⟨[], .nil c⟩
  | @tail d _ _ hstep ih =>
      obtain ⟨ls, hrun⟩ := ih
      obtain ⟨i, hstep⟩ := hstep
      exact ⟨_, .snoc hrun ⟨hC d i, hstep⟩⟩

/-- A statement of the only session. -/
theorem Conf.alone_step {s u : σ} {x y : Session S ε α κ} (hview : x.view s = .ok u)
    (hnext : x.Next (fun _ => False) u y) :
    Conf.Statements body start (Conf.alone s x) (Conf.alone s y) := by
  rw [← Conf.alone_free s x] at hnext
  have hstep : Conf.Step body start (Conf.alone s x) (.statement 0)
      ⟨s, Function.update (Conf.alone s x).session 0 (some y)⟩ :=
    Conf.Step.statement (Conf.alone_session s x) hview hnext
  have heq : (⟨s, Function.update (Conf.alone s x).session 0 (some y)⟩ : Conf S ε α κ)
      = Conf.alone s y := by
    show (⟨s, _⟩ : Conf S ε α κ) = ⟨s, _⟩
    rw [Conf.alone, Function.update_idem]
  rw [heq] at hstep
  exact .single ⟨0, hstep⟩

/-- The only session runs its program to the end. -/
theorem Conf.alone_run {s t : σ} {a : α} {p : Prog S ε α} {u : σ} {x : Session S ε α κ}
    (hrest : x.rest = p) (hview : x.view s = .ok u)
    (hrun : p.run (fun _ => false) u = .ok (a, t)) :
    ∃ y : Session S ε α κ, y.call = x.call ∧ y.rest = .pure a ∧ y.view s = .ok t ∧
      Conf.Statements body start (Conf.alone s x) (Conf.alone s y) := by
  -- one statement in front of a run
  have step : ∀ {y z : Session S ε α κ} {u : σ}, y.view s = .ok u →
      y.Next (fun _ => False) u z →
      (∃ w : Session S ε α κ, w.call = z.call ∧ w.rest = .pure a ∧ w.view s = .ok t ∧
        Conf.Statements body start (Conf.alone s z) (Conf.alone s w)) →
      ∃ w : Session S ε α κ, w.call = y.call ∧ w.rest = .pure a ∧ w.view s = .ok t ∧
        Conf.Statements body start (Conf.alone s y) (Conf.alone s w) := by
    rintro y z u hy hnext ⟨w, hcall, hw, hwv, hstmts⟩
    exact ⟨w, hcall.trans hnext.call, hw, hwv, (Conf.alone_step hy hnext).trans hstmts⟩
  -- by induction on the program; nobody else holds a row, so no statement waits
  induction p generalizing u x with
  | pure b =>
      simp only [Prog.run, Except.ok.injEq, Prod.mk.injEq] at hrun
      obtain ⟨rfl, rfl⟩ := hrun
      exact ⟨x, rfl, hrest, hview, .refl⟩
  | throw e => simp [Prog.run] at hrun
  | selectForUpdate r k ih =>
      by_cases hthere : S.present r (S.slice r u) = true
      · exact step hview (.lock hrest id hthere) (ih (S.slice r u) rfl hview hrun)
      · have habsent : S.present r (S.slice r u) = false := by simpa using hthere
        exact step hview (.missing hrest habsent) (ih (S.slice r u) rfl hview hrun)
  | select k ih => exact step hview (.select hrest) (ih u rfl hview hrun)
  | selectSkipLocked q k ih =>
      have hreturns := q.returns_first (fun _ => false) u
      have hmode : (fun _ : ρ => false = true) = fun _ => False := by
        funext r
        exact eq_false Bool.false_ne_true
      rw [hmode] at hreturns
      simp only [Prog.run] at hrun
      generalize q.first u ((q.scan u).filter fun _ => !false) = o
        at hreturns hrun
      cases o with
      | none => exact step hview (.skip hrest hreturns) (ih none rfl hview hrun)
      | some r =>
          have hlocked : ∀ r', r' ∈ q.scan u ↔ r' ∈ q.scan u ∧ ¬ False :=
            fun r' => (and_iff_left id).symm
          exact step hview (.pick hrest hreturns hlocked) (ih (some r) rfl hview hrun)
  | write w k ih =>
      simp only [Prog.run] at hrun
      cases hw : w.apply u with
      | error e => rw [hw] at hrun; cases hrun
      | ok u₁ =>
          rw [hw] at hrun
          exact step hview (.write hrest (fun _ _ => id) hw)
            (ih rfl (applyAll_append.mpr ⟨u, hview, hw⟩) hrun)

/-- A transaction that runs alone begins, takes its statements and commits. -/
theorem Conf.serial_run {s t : σ} {k : κ} {a : α} (hk : start s k)
    (hrun : (body k).run (fun _ => false) s = .ok (a, t)) : ∃ y : Session S ε α κ,
      y.call = k ∧ y.rest = .pure a ∧
      Conf.Step body start (Conf.idle s) (.begin 0 k) (Conf.alone s ⟨k, body k, [], []⟩) ∧
      Conf.Statements body start (Conf.alone s ⟨k, body k, [], []⟩) (Conf.alone s y) ∧
      Conf.Step body start (Conf.alone s y) (.commit 0) (Conf.idle t) := by
  obtain ⟨y, hcall, hrest, hview, hstmts⟩ :=
    Conf.alone_run (x := ⟨k, body k, [], []⟩) rfl rfl hrun
  refine ⟨y, hcall, hrest, Conf.Step.begin rfl hk, hstmts, ?_⟩
  have hcommit : Conf.Step body start (Conf.alone s y) (.commit 0)
      ⟨t, Function.update (Conf.alone s y).session 0 none⟩ :=
    Conf.Step.commit (Conf.alone_session s y) hrest hview
  have heq : (⟨t, Function.update (Conf.alone s y).session 0 none⟩ : Conf S ε α κ)
      = Conf.idle t := by
    rw [Conf.idle, Conf.alone, Function.update_idem, Function.update_eq_self_iff.mpr rfl]
  rw [heq] at hcommit
  exact hcommit

/-- **Serial runs are interleavings**, also under a condition that only concerns commits. -/
theorem Conf.run_of_run {init : σ → Prop} {C : Conf S ε α κ → Event κ → Prop} {s t : σ} {k : κ}
    {a : α} (hbegin : ∀ c i k, C c (.begin i k)) (hstmt : ∀ c i, C c (.statement i))
    (hcommit : ∀ y : Session S ε α κ, y.call = k → C (Conf.alone s y) (.commit 0))
    (hk : start s k) (hrun : (body k).run (fun _ => false) s = .ok (a, t)) :
    ∃ ls, ((rowLock body start init).restrict C).Run (Conf.idle s) ls (Conf.idle t) := by
  obtain ⟨y, hcall, -, hfirst, hstmts, hlast⟩ := Conf.serial_run hk hrun
  have hmiddle : ∃ ls, ((rowLock body start init).restrict C).Run
      (Conf.alone s ⟨k, body k, [], []⟩) ls (Conf.alone s y) := hstmts.run hstmt
  obtain ⟨ls, hmiddle⟩ := hmiddle
  have hopening : ((rowLock body start init).restrict C).Run (Conf.idle s) [.begin 0 k]
      (Conf.alone s ⟨k, body k, [], []⟩) := System.Run.single ⟨hbegin _ 0 k, hfirst⟩
  exact ⟨_, .snoc (hopening.append hmiddle) ⟨hcommit y hcall, hlast⟩⟩

end Txn
