import Mathlib.Algebra.BigOperators.Group.List.Basic
import Mathlib.Algebra.Order.BigOperators.Group.List
import Mathlib.Data.List.Perm.Subperm
import Mathlib.Data.List.Pairwise
import Mathlib.Tactic.Abel

set_option autoImplicit false

/-! # Tables with unique constraints

A table is a list of rows in insertion order, no two of which violate a unique
constraint. The constraints of a row type are one relation, `Row.clash`: two rows
clash when they agree on the primary key or on the columns of some other unique
constraint. `insert?` and `update?` are the two writes; both fail, as the database
does, when the result would hold two clashing rows.

Facts about a table are stated through `find?`, the lookup by primary key, and
`sum`, a column expression summed over all rows. -/

namespace Txn

/-- The primary key of a row type and the relation "these two rows may not be in the
table together". -/
class Row (α : Type) (κ : outParam Type) where
  key : α → κ
  clash : α → α → Prop
  [decidableClash : DecidableRel clash]
  clash_symm : ∀ {a b : α}, clash a b → clash b a
  clash_of_key : ∀ {a b : α}, key a = key b → clash a b

attribute [reducible, instance] Row.decidableClash

/-- The rows of a table, oldest first; no two rows clash. -/
structure Table (α : Type) {κ : Type} [Row α κ] where
  rows : List α
  distinct : rows.Pairwise (fun a b => ¬ Row.clash a b)

namespace Table

variable {α κ : Type} [Row α κ] [DecidableEq κ]

/-- The table without rows. -/
def empty : Table α := ⟨[], List.Pairwise.nil⟩

/-- Lookup by primary key. -/
def find? (t : Table α) (k : κ) : Option α := t.rows.find? (fun a => Row.key a = k)

/-- `INSERT`: append the row unless a row of the table clashes with it. -/
def insert? (t : Table α) (a : α) : Option (Table α) :=
  if h : ∀ b ∈ t.rows, ¬ Row.clash b a then
    some ⟨t.rows ++ [a], List.pairwise_append.mpr
      ⟨t.distinct, List.pairwise_singleton _ _, fun b hb c hc => by
        rw [List.mem_singleton.mp hc]; exact h b hb⟩⟩
  else none

/-- Put `a` in the place of the row with its key. -/
def replace (a b : α) : α := if Row.key b = Row.key a then a else b

/-- `UPDATE … WHERE key = key a`: the row with the key of `a` becomes `a`, unless the
result violates a unique constraint. -/
def update? (t : Table α) (a : α) : Option (Table α) :=
  if h : (t.rows.map (replace a)).Pairwise (fun a b => ¬ Row.clash a b) then
    some ⟨t.rows.map (replace a), h⟩
  else none

/-! ## Lookups -/

omit [DecidableEq κ] in
theorem not_clash_of_ne (t : Table α) {a b : α} (ha : a ∈ t.rows) (hb : b ∈ t.rows)
    (h : a ≠ b) : ¬ Row.clash a b := by
  have hsymm : Std.Symm (fun a b : α => ¬ Row.clash a b) :=
    ⟨fun _ _ hab hba => hab (Row.clash_symm hba)⟩
  exact t.distinct.forall ha hb h

omit [DecidableEq κ] in
theorem eq_of_key (t : Table α) {a b : α} (ha : a ∈ t.rows) (hb : b ∈ t.rows)
    (h : Row.key a = Row.key b) : a = b := by
  by_contra hne
  exact not_clash_of_ne t ha hb hne (Row.clash_of_key h)

omit [DecidableEq κ] in
/-- Two rows of a table that clash are the same row. -/
theorem eq_of_clash (t : Table α) {a b : α} (ha : a ∈ t.rows) (hb : b ∈ t.rows)
    (h : Row.clash a b) : a = b := by
  by_contra hne
  exact not_clash_of_ne t ha hb hne h

theorem find?_eq_some_iff {t : Table α} {k : κ} {a : α} :
    t.find? k = some a ↔ a ∈ t.rows ∧ Row.key a = k := by
  constructor
  · intro h
    exact ⟨List.mem_of_find?_eq_some h, by simpa using List.find?_some h⟩
  · rintro ⟨ha, rfl⟩
    cases hf : t.find? (Row.key a) with
    | none =>
        have := List.find?_eq_none.mp hf a ha
        simp at this
    | some b =>
        have hb : b ∈ t.rows := List.mem_of_find?_eq_some hf
        have hk : Row.key b = Row.key a := by simpa using List.find?_some hf
        rw [t.eq_of_key hb ha hk]

theorem mem_of_find? {t : Table α} {k : κ} {a : α} (h : t.find? k = some a) : a ∈ t.rows :=
  (find?_eq_some_iff.mp h).1

theorem key_of_find? {t : Table α} {k : κ} {a : α} (h : t.find? k = some a) :
    Row.key a = k :=
  (find?_eq_some_iff.mp h).2

theorem find?_key {t : Table α} {a : α} (h : a ∈ t.rows) : t.find? (Row.key a) = some a :=
  find?_eq_some_iff.mpr ⟨h, rfl⟩

theorem find?_eq_none_iff {t : Table α} {k : κ} :
    t.find? k = none ↔ ∀ a ∈ t.rows, Row.key a ≠ k := by
  simp [find?, List.find?_eq_none]

omit [DecidableEq κ] in
@[simp] theorem rows_empty : (empty : Table α).rows = [] := rfl

@[simp] theorem find?_empty (k : κ) : (empty : Table α).find? k = none := rfl

/-! ## Insertion -/

omit [DecidableEq κ] in
theorem insert?_eq_some {t t' : Table α} {a : α} (h : t.insert? a = some t') :
    (∀ b ∈ t.rows, ¬ Row.clash b a) ∧ t'.rows = t.rows ++ [a] := by
  unfold insert? at h
  split at h
  · rename_i hc
    cases h
    exact ⟨hc, rfl⟩
  · cases h

theorem find?_insert {t t' : Table α} {a : α} (h : t.insert? a = some t') (k : κ) :
    t'.find? k = if Row.key a = k then some a else t.find? k := by
  obtain ⟨hc, hr⟩ := insert?_eq_some h
  by_cases hk : Row.key a = k
  · rw [if_pos hk]
    exact find?_eq_some_iff.mpr ⟨by simp [hr], hk⟩
  · rw [if_neg hk, find?, find?, hr, List.find?_append]
    simp [hk]

theorem find?_insert_of_some {t t' : Table α} {a b : α} (h : t.insert? a = some t') {k : κ}
    (hb : t.find? k = some b) : t'.find? k = some b := by
  have hk : Row.key a ≠ k := by
    rintro rfl
    exact (insert?_eq_some h).1 b (mem_of_find? hb) (Row.clash_of_key (key_of_find? hb))
  rw [find?_insert h, if_neg hk, hb]

omit [DecidableEq κ] in
theorem mem_insert {t t' : Table α} {a b : α} (h : t.insert? a = some t') :
    b ∈ t'.rows ↔ b ∈ t.rows ∨ b = a := by
  rw [(insert?_eq_some h).2, List.mem_append, List.mem_singleton]

theorem find?_insert_self {t t' : Table α} {a : α} (h : t.insert? a = some t') :
    t.find? (Row.key a) = none := by
  obtain ⟨hc, -⟩ := insert?_eq_some h
  exact find?_eq_none_iff.mpr fun b hb hk => hc b hb (Row.clash_of_key hk)

omit [DecidableEq κ] in
theorem exists_insert {t : Table α} {a : α} (h : ∀ b ∈ t.rows, ¬ Row.clash b a) :
    ∃ t', t.insert? a = some t' := by
  unfold insert?
  rw [dif_pos h]
  exact ⟨_, rfl⟩

/-! ## Update -/

/-- A row can be changed to one that clashes with nothing new. -/
theorem exists_update {t : Table α} {a b : α} (hb : t.find? (Row.key a) = some b)
    (hclash : ∀ c, Row.clash a c → Row.clash b c) : ∃ t', t.update? a = some t' := by
  have self : ∀ {c}, c ∈ t.rows → Row.key c = Row.key a → c = b := fun hc hk =>
    t.eq_of_key hc (mem_of_find? hb) (hk.trans (key_of_find? hb).symm)
  have hdistinct : (t.rows.map (replace a)).Pairwise (fun a b => ¬ Row.clash a b) := by
    rw [List.pairwise_map]
    refine t.distinct.imp_of_mem fun {c d} hc hd hcd hnew => ?_
    unfold replace at hnew
    by_cases hkc : Row.key c = Row.key a
    · by_cases hkd : Row.key d = Row.key a
      · exact hcd (Row.clash_of_key (hkc.trans hkd.symm))
      · rw [if_pos hkc, if_neg hkd] at hnew
        rw [self hc hkc] at hcd
        exact hcd (hclash d hnew)
    · by_cases hkd : Row.key d = Row.key a
      · rw [if_neg hkc, if_pos hkd] at hnew
        rw [self hd hkd] at hcd
        exact hcd (Row.clash_symm (hclash c (Row.clash_symm hnew)))
      · rw [if_neg hkc, if_neg hkd] at hnew
        exact hcd hnew
  unfold update?
  rw [dif_pos hdistinct]
  exact ⟨_, rfl⟩

theorem update?_eq_some {t t' : Table α} {a : α} (h : t.update? a = some t') :
    t'.rows = t.rows.map (replace a) := by
  unfold update? at h
  split at h
  · cases h; rfl
  · cases h

theorem mem_update {t t' : Table α} {a b : α} (h : t.update? a = some t') :
    b ∈ t'.rows ↔ (b ∈ t.rows ∧ Row.key b ≠ Row.key a) ∨
      (b = a ∧ ∃ c ∈ t.rows, Row.key c = Row.key a) := by
  rw [update?_eq_some h, List.mem_map]
  constructor
  · rintro ⟨c, hc, rfl⟩
    by_cases hk : Row.key c = Row.key a
    · exact Or.inr ⟨by simp [replace, hk], c, hc, hk⟩
    · rw [replace, if_neg hk]
      exact Or.inl ⟨hc, hk⟩
  · rintro (⟨hb, hk⟩ | ⟨rfl, c, hc, hk⟩)
    · exact ⟨b, hb, by simp [replace, hk]⟩
    · exact ⟨c, hc, by simp [replace, hk]⟩

theorem find?_update_of_ne {t t' : Table α} {a : α} (h : t.update? a = some t') {k : κ}
    (hk : k ≠ Row.key a) : t'.find? k = t.find? k := by
  cases hf : t.find? k with
  | none =>
      rw [find?_eq_none_iff] at hf ⊢
      intro b hb
      rcases (mem_update h).mp hb with ⟨hb, -⟩ | ⟨rfl, -⟩
      · exact hf b hb
      · exact hk.symm
  | some b =>
      rw [find?_eq_some_iff] at hf ⊢
      exact ⟨(mem_update h).mpr (Or.inl ⟨hf.1, hf.2 ▸ hk⟩), hf.2⟩

theorem find?_update_self {t t' : Table α} {a b : α} (h : t.update? a = some t')
    (hb : t.find? (Row.key a) = some b) : t'.find? (Row.key a) = some a :=
  find?_eq_some_iff.mpr
    ⟨(mem_update h).mpr (Or.inr ⟨rfl, b, mem_of_find? hb, key_of_find? hb⟩), rfl⟩

theorem find?_update {t t' : Table α} {a b : α} (h : t.update? a = some t')
    (hb : t.find? (Row.key a) = some b) (k : κ) :
    t'.find? k = if k = Row.key a then some a else t.find? k := by
  by_cases hk : k = Row.key a
  · rw [if_pos hk, hk, find?_update_self h hb]
  · rw [if_neg hk, find?_update_of_ne h hk]

/-- What an update leaves at a key depends only on what was there. -/
theorem find?_update_eq {t t' : Table α} {a : α} (h : t.update? a = some t') (k : κ) :
    t'.find? k = if k = Row.key a then (t.find? k).map (fun _ => a) else t.find? k := by
  by_cases hk : k = Row.key a
  · subst hk
    rw [if_pos rfl]
    cases hf : t.find? (Row.key a) with
    | none =>
        rw [find?_eq_none_iff] at hf
        refine find?_eq_none_iff.mpr fun b hb => ?_
        rcases (mem_update h).mp hb with ⟨-, hb⟩ | ⟨-, c, hc, hk⟩
        · exact hb
        · exact absurd hk (hf c hc)
    | some b => rw [find?_update_self h hf]; rfl
  · rw [if_neg hk, find?_update_of_ne h hk]

/-- An update puts the new row in the place of the old one. -/
theorem exists_rows_update {t t' : Table α} {a b : α} (h : t.update? a = some t')
    (hb : t.find? (Row.key a) = some b) :
    ∃ before after, t.rows = before ++ b :: after ∧ t'.rows = before ++ a :: after := by
  obtain ⟨before, after, hrows⟩ := List.append_of_mem (mem_of_find? hb)
  refine ⟨before, after, hrows, ?_⟩
  have hdistinct := t.distinct
  rw [hrows, List.pairwise_append, List.pairwise_cons] at hdistinct
  obtain ⟨-, ⟨hafter, -⟩, hbefore⟩ := hdistinct
  have hkey : Row.key b = Row.key a := key_of_find? hb
  have hsame : ∀ c, ¬ Row.clash b c ∨ ¬ Row.clash c b → replace a c = c := by
    intro c hc
    refine if_neg fun hk => ?_
    exact hc.elim (fun hnot => hnot (Row.clash_of_key (hkey.trans hk.symm)))
      fun hnot => hnot (Row.clash_of_key (hk.trans hkey.symm))
  rw [update?_eq_some h, hrows, List.map_append, List.map_cons, replace, if_pos hkey]
  congr 1
  · refine (List.map_congr_left fun c hc => hsame c (Or.inr ?_)).trans (List.map_id _)
    exact hbefore c hc b (List.mem_cons_self ..)
  · congr 1
    exact (List.map_congr_left fun c hc => hsame c (Or.inl (hafter c hc))).trans (List.map_id _)

/-! ## Sums over a table -/

section Sum

variable {M : Type} [AddCommGroup M]

/-- The sum of the column expression `f` over all rows. -/
def sum (t : Table α) (f : α → M) : M := (t.rows.map f).sum

omit [DecidableEq κ] in
@[simp] theorem sum_empty (f : α → M) : (empty : Table α).sum f = 0 := rfl

omit [DecidableEq κ] in
theorem sum_insert {t t' : Table α} {a : α} (h : t.insert? a = some t') (f : α → M) :
    t'.sum f = t.sum f + f a := by
  simp [sum, (insert?_eq_some h).2]

omit [DecidableEq κ] in
theorem sum_congr {t : Table α} {f g : α → M} (h : ∀ a ∈ t.rows, f a = g a) :
    t.sum f = t.sum g := by
  rw [sum, sum, List.map_congr_left h]

omit [Row α κ] [DecidableEq κ] in
private theorem list_sum_replace [Row α κ] [DecidableEq κ] (a : α) (f : α → M) :
    ∀ (l : List α) {b : α}, l.Pairwise (fun x y => ¬ Row.clash x y) → b ∈ l →
      Row.key b = Row.key a →
      (l.map (fun c => f (replace a c))).sum = (l.map f).sum - f b + f a
  | c :: l, b, hl, hb, hk => by
      rw [List.pairwise_cons] at hl
      simp only [List.map_cons, List.sum_cons]
      rcases List.mem_cons.mp hb with rfl | hb
      · have hrest : l.map (fun c => f (replace a c)) = l.map f := by
          refine List.map_congr_left fun d hd => ?_
          have hd' : Row.key d ≠ Row.key a := fun h =>
            hl.1 d hd (Row.clash_of_key (hk.trans h.symm))
          simp [replace, hd']
        rw [hrest, replace, if_pos hk]
        abel
      · have hc : Row.key c ≠ Row.key a := fun h =>
          hl.1 b hb (Row.clash_of_key (h.trans hk.symm))
        rw [list_sum_replace a f l hl.2 hb hk, replace, if_neg hc]
        abel

theorem sum_update {t t' : Table α} {a b : α} (h : t.update? a = some t')
    (hb : t.find? (Row.key a) = some b) (f : α → M) :
    t'.sum f = t.sum f - f b + f a := by
  rw [sum, update?_eq_some h, List.map_map]
  exact list_sum_replace a f t.rows t.distinct (mem_of_find? hb) (key_of_find? hb)

omit [DecidableEq κ] in
theorem nodup_rows (t : Table α) : t.rows.Nodup :=
  t.distinct.imp fun h heq => h (Row.clash_of_key (congrArg Row.key heq))

omit [DecidableEq κ] in
/-- Two column expressions that differ at one row only. -/
theorem sum_change {t : Table α} {a : α} (ha : a ∈ t.rows) {f g : α → M}
    (h : ∀ b ∈ t.rows, b ≠ a → f b = g b) : t.sum g = t.sum f - f a + g a := by
  classical
  have hrest : (t.rows.erase a).map f = (t.rows.erase a).map g := by
    refine List.map_congr_left fun b hb => ?_
    rw [t.nodup_rows.mem_erase_iff] at hb
    exact h b hb.2 hb.1
  have hf : f a + ((t.rows.erase a).map f).sum = t.sum f := List.sum_map_erase f ha
  have hg : g a + ((t.rows.erase a).map g).sum = t.sum g := List.sum_map_erase g ha
  rw [← hf, ← hg, hrest]
  abel

omit [DecidableEq κ] in
/-- Some of the rows have no more than all of them. -/
theorem sum_le {N : Type} [AddCommGroup N] [PartialOrder N] [IsOrderedAddMonoid N] {t : Table α}
    {f : α → N} (hf : ∀ a ∈ t.rows, 0 ≤ f a) {l : List α} (hl : l.Nodup)
    (hsub : ∀ a ∈ l, a ∈ t.rows) : (l.map f).sum ≤ t.sum f := by
  obtain ⟨l', hperm, hl'⟩ := hl.subperm hsub
  calc (l.map f).sum
      = (l'.map f).sum := ((hperm.map f).sum_eq).symm
    _ ≤ t.sum f := (hl'.map f).sum_le_sum fun x hx => by
        obtain ⟨a, ha, rfl⟩ := List.mem_map.mp hx
        exact hf a ha

/-- Two rows that were read together and are written one after the other. -/
theorem sum_update_pair {t t₁ t₂ : Table α} {a b a₀ b₀ : α} (ha : t.find? (Row.key a) = some a₀)
    (hb : t.find? (Row.key b) = some b₀) (hne : Row.key a ≠ Row.key b)
    (h₁ : t.update? a = some t₁) (h₂ : t₁.update? b = some t₂) (f : α → M) :
    t₂.sum f = t.sum f - f a₀ + f a - f b₀ + f b := by
  have hb₁ : t₁.find? (Row.key b) = some b₀ := by rw [find?_update_of_ne h₁ hne.symm, hb]
  rw [sum_update h₂ hb₁, sum_update h₁ ha]

end Sum

end Table

end Txn
