import OutcomeExchange.Txn.Program

set_option autoImplicit false

/-! # Two databases side by side

The product of two stores has the rows of both. A write of either side is a write of the
product, and a transaction of the right side becomes one of the product (`Prog.right`) that
leaves the left side alone (`exec_right`). -/

namespace Txn

variable {σ τ ρ ρ' ε ε' α β : Type} {S : Store σ ρ} {T : Store τ ρ'}

def Store.prod (S : Store σ ρ) (T : Store τ ρ') : Store (σ × τ) (ρ ⊕ ρ') where
  Slice
    | .inl r => S.Slice r
    | .inr r => T.Slice r
  slice
    | .inl r, s => S.slice r s.1
    | .inr r, s => T.slice r s.2
  present
    | .inl r, v => S.present r v
    | .inr r, v => T.present r v

/-! ## Writes of one side -/

theorem Except.map_eq_ok {f : α → β} {x : Except ε α} {b : β} :
    x.map f = .ok b ↔ ∃ a, x = .ok a ∧ f a = b := by
  cases x with
  | error e => simp [Except.map]
  | ok a => simp [Except.map]

theorem Except.mapError_eq_ok {f : ε → ε'} {x : Except ε α} {a : α} :
    x.mapError f = .ok a ↔ x = .ok a := by
  cases x with
  | error e => simp [Except.mapError]
  | ok a => simp [Except.mapError]

def Update.left (u : Update S ε) (T : Store τ ρ') : Update (S.prod T) ε where
  rows := u.rows.map .inl
  apply s := (u.apply s.1).map fun t => (t, s.2)
  frame {s t} h r hr := by
    obtain ⟨t', ht', rfl⟩ := Except.map_eq_ok.mp h
    cases r with
    | inl r => exact u.frame ht' r fun hmem => hr (List.mem_map_of_mem hmem)
    | inr r => rfl
  determined {s s' t t'} h h' r hr heq := by
    obtain ⟨v, hv, rfl⟩ := Except.map_eq_ok.mp h
    obtain ⟨v', hv', rfl⟩ := Except.map_eq_ok.mp h'
    obtain ⟨r, hmem, rfl⟩ := List.mem_map.mp hr
    exact u.determined hv hv' r hmem heq

def Update.right (f : ε → ε') (S : Store σ ρ) (u : Update T ε) : Update (S.prod T) ε' where
  rows := u.rows.map .inr
  apply s := ((u.apply s.2).mapError f).map fun t => (s.1, t)
  frame {s t} h r hr := by
    obtain ⟨t', ht', rfl⟩ := Except.map_eq_ok.mp h
    cases r with
    | inl r => rfl
    | inr r =>
        exact u.frame (Except.mapError_eq_ok.mp ht') r fun hmem => hr (List.mem_map_of_mem hmem)
  determined {s s' t t'} h h' r hr heq := by
    obtain ⟨v, hv, rfl⟩ := Except.map_eq_ok.mp h
    obtain ⟨v', hv', rfl⟩ := Except.map_eq_ok.mp h'
    obtain ⟨r, hmem, rfl⟩ := List.mem_map.mp hr
    exact u.determined (Except.mapError_eq_ok.mp hv) (Except.mapError_eq_ok.mp hv') r hmem heq

theorem Update.left_apply {u : Update S ε} {s t : σ × τ} :
    (u.left T).apply s = .ok t ↔ u.apply s.1 = .ok t.1 ∧ t.2 = s.2 := by
  show (u.apply s.1).map (fun t => (t, s.2)) = .ok t ↔ _
  rw [Except.map_eq_ok]
  constructor
  · rintro ⟨v, hv, rfl⟩
    exact ⟨hv, rfl⟩
  · rintro ⟨hv, hrest⟩
    exact ⟨t.1, hv, Prod.ext rfl hrest.symm⟩

theorem Update.right_apply {f : ε → ε'} {u : Update T ε} {s t : σ × τ} :
    (u.right f S).apply s = .ok t ↔ u.apply s.2 = .ok t.2 ∧ t.1 = s.1 := by
  show ((u.apply s.2).mapError f).map (fun t => (s.1, t)) = .ok t ↔ _
  simp only [Except.map_eq_ok, Except.mapError_eq_ok]
  constructor
  · rintro ⟨v, hv, rfl⟩
    exact ⟨hv, rfl⟩
  · rintro ⟨hv, hrest⟩
    exact ⟨t.2, hv, Prod.ext hrest.symm rfl⟩

/-! ## Transactions of the right side -/

def Query.right (S : Store σ ρ) (q : Query T) : Query (S.prod T) where
  scan s := (q.scan s.2).map .inr
  rank
    | .inl _, _ => 0
    | .inr r, v => q.rank r v
  scan_congr {s s'} r heq := by
    cases r with
    | inl r => simp
    | inr r =>
        simp only [List.mem_map, Sum.inr.injEq, exists_eq_right]
        exact q.scan_congr r heq

/-- The transaction, in the product, with its errors renamed. -/
def Prog.right (f : ε → ε') (S : Store σ ρ) : Prog T ε α → Prog (S.prod T) ε' α
  | .pure a => .pure a
  | .throw e => .throw (f e)
  | .selectForUpdate r k => .selectForUpdate (.inr r) fun v => (k v).right f S
  | .select k => .select fun s => (k s.2).right f S
  | .selectSkipLocked q k =>
      .selectSkipLocked (q.right S) fun o => (k (o.bind Sum.getRight?)).right f S
  | .write u k => .write (u.right f S) (k.right f S)

/-- How the right side is executed. -/
def Mode.right : Mode (ρ ⊕ ρ') → Mode ρ'
  | .serial busy => .serial fun r => busy (.inr r)
  | .concurrent => .concurrent

theorem Mode.stale_right {m : Mode (ρ ⊕ ρ')} : m.right.stale ↔ m.stale := by
  cases m <;> exact Iff.rfl

theorem Query.mem_scan_right {q : Query T} {s : σ × τ} {r : ρ'} :
    .inr r ∈ (q.right S).scan s ↔ r ∈ q.scan s.2 := by
  simp [Query.right]

theorem Query.returns_right {q : Query T} {m : Mode (ρ ⊕ ρ')} {s : σ × τ} {o : Option ρ'} :
    (q.right S).Returns s m (o.map .inr) ↔ q.Returns s.2 m.right o := by
  have hall : ∀ {P : ρ ⊕ ρ' → Prop},
      (∀ r ∈ (q.right S).scan s, P r) ↔ ∀ r ∈ q.scan s.2, P (.inr r) := by
    intro P
    simp [Query.right]
  cases m with
  | concurrent =>
      cases o with
      | none => exact Iff.rfl
      | some r => exact Query.mem_scan_right
  | serial busy =>
      cases o with
      | none => exact hall
      | some r => exact and_congr Query.mem_scan_right (and_congr Iff.rfl hall)

/-- The query only returns rows of the right side. -/
theorem Query.Returns.right {q : Query T} {m : Mode (ρ ⊕ ρ')} {s : σ × τ} {o : Option (ρ ⊕ ρ')}
    (h : (q.right S).Returns s m o) : o = (o.bind Sum.getRight?).map .inr := by
  cases o with
  | none => rfl
  | some r =>
      have hmem : r ∈ (q.right S).scan s := by
        cases m with
        | concurrent => exact h
        | serial busy => exact h.1
      obtain ⟨r', -, rfl⟩ := List.mem_map.mp hmem
      rfl

/-- **A transaction of the right side** does there what it does alone, and nothing on the
left. -/
theorem exec_right {f : ε → ε'} {p : Prog T ε α} {m : Mode (ρ ⊕ ρ')} {s t : σ × τ} {a : α} :
    Exec m (p.right f S) s a t ↔ Exec m.right p s.2 a t.2 ∧ t.1 = s.1 := by
  -- by induction on the program, which never writes the left side
  induction p generalizing s with
  | pure b =>
      simp only [Prog.right, Exec, Prod.ext_iff]
      tauto
  | throw e => simp [Prog.right, Exec]
  | selectForUpdate r k ih =>
      have hk : ∀ v : T.Slice r, Exec m ((k v).right f S) s a t ↔
          Exec m.right (k v) s.2 a t.2 ∧ t.1 = s.1 := fun v => ih v
      show (Exec m ((k (T.slice r s.2)).right f S) s a t ∨
        (m.stale ∧ ∃ v : T.Slice r, T.present r v = false ∧ Exec m ((k v).right f S) s a t)) ↔ _
      simp only [Exec, hk, Mode.stale_right]
      constructor
      · rintro (⟨h, hrest⟩ | ⟨hm, v, hv, h, hrest⟩)
        · exact ⟨Or.inl h, hrest⟩
        · exact ⟨Or.inr ⟨hm, v, hv, h⟩, hrest⟩
      · rintro ⟨h | ⟨hm, v, hv, h⟩, hrest⟩
        · exact Or.inl ⟨h, hrest⟩
        · exact Or.inr ⟨hm, v, hv, h, hrest⟩
  | select k ih =>
      simp only [Prog.right, Exec, ih, Mode.stale_right]
      constructor
      · rintro ⟨s₀, h₀, h, hrest⟩
        exact ⟨⟨s₀.2, h₀.imp_left (congrArg Prod.snd), h⟩, hrest⟩
      · rintro ⟨⟨u, h₀, h⟩, hrest⟩
        refine ⟨(s.1, u), h₀.imp_left ?_, h, hrest⟩
        rintro rfl
        rfl
  | selectSkipLocked q k ih =>
      simp only [Prog.right, Exec, ih]
      constructor
      · rintro ⟨o, ho, h, hrest⟩
        rw [Query.Returns.right ho, Query.returns_right] at ho
        exact ⟨⟨_, ho, h⟩, hrest⟩
      · rintro ⟨⟨o, ho, h⟩, hrest⟩
        refine ⟨o.map .inr, Query.returns_right.mpr ho, ?_, hrest⟩
        cases o with
        | none => exact h
        | some r => exact h
  | write u k ih =>
      simp only [Prog.right, Exec, ih, Update.right_apply]
      constructor
      · rintro ⟨v, ⟨hv, hfirst⟩, h, hrest⟩
        exact ⟨⟨v.2, hv, h⟩, hrest.trans hfirst⟩
      · rintro ⟨⟨v, hv, h⟩, hrest⟩
        exact ⟨(s.1, v), ⟨hv, rfl⟩, h, hrest⟩

end Txn
