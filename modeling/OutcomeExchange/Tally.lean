import Mathlib.Algebra.BigOperators.Group.List.Basic
import Mathlib.Data.List.Nodup

set_option autoImplicit false

/-! # Tallies

An association list that sums up the amounts of terms by their keys, in the order in which
the keys come up. `Tallies` says what such a list holds, without regard to any order. -/

namespace Tally

variable {κ M : Type} [DecidableEq κ] [AddCommMonoid M]

/-- The amount is added to the entry of its key, or becomes a new entry. -/
def add (k : κ) (amount : M) : List (κ × M) → List (κ × M)
  | [] => [(k, amount)]
  | entry :: entries =>
      if entry.1 = k then (k, entry.2 + amount) :: entries else entry :: add k amount entries

/-- The sum of the amounts with key `k`. -/
def total (k : κ) (terms : List (κ × M)) : M := ((terms.filter fun t => t.1 = k).map Prod.snd).sum

/-- The entries have each key of the terms once, with the sum of its amounts. -/
structure Tallies (terms entries : List (κ × M)) : Prop where
  distinct : (entries.map Prod.fst).Nodup
  mem_iff : ∀ k amount, (k, amount) ∈ entries ↔
    k ∈ terms.map Prod.fst ∧ amount = total k terms

section Total

variable {k k' : κ} {amount : M} {terms terms' : List (κ × M)}

theorem total_append : total k (terms ++ terms') = total k terms + total k terms' := by
  simp [total]

theorem total_single : total k [(k', amount)] = if k' = k then amount else 0 := by
  by_cases h : k' = k
  · simp [total, h]
  · simp [total, h]

theorem total_of_not_mem (h : k ∉ terms.map Prod.fst) : total k terms = 0 := by
  have hnil : terms.filter (fun t => t.1 = k) = [] := by
    rw [List.filter_eq_nil_iff]
    intro t ht hk
    exact h (List.mem_map.mpr ⟨t, ht, of_decide_eq_true hk⟩)
  rw [total, hnil]
  rfl

theorem total_perm (h : terms.Perm terms') : total k terms = total k terms' :=
  ((h.filter _).map _).sum_eq

end Total

section Add

variable {k k' : κ} {amount amount' : M} {entries : List (κ × M)}

theorem keys_add : (add k amount entries).map Prod.fst =
    if k ∈ entries.map Prod.fst then entries.map Prod.fst else entries.map Prod.fst ++ [k] := by
  induction entries with
  | nil => rfl
  | cons entry entries ih =>
      unfold add
      by_cases h : entry.1 = k
      · simp [h]
      · rw [if_neg h, List.map_cons, ih]
        have hmem : k ∈ (entry :: entries).map Prod.fst ↔ k ∈ entries.map Prod.fst := by
          rw [List.map_cons, List.mem_cons, or_iff_right (Ne.symm h)]
        by_cases hk : k ∈ entries.map Prod.fst
        · rw [if_pos hk, if_pos (hmem.mpr hk), List.map_cons]
        · rw [if_neg hk, if_neg (mt hmem.mp hk), List.map_cons, List.cons_append]

/-- The entries with other keys stay. -/
theorem mem_add_of_ne (h : k' ≠ k) :
    (k', amount') ∈ add k amount entries ↔ (k', amount') ∈ entries := by
  induction entries with
  | nil => simp [add, h]
  | cons entry entries ih =>
      unfold add
      by_cases hk : entry.1 = k
      · rw [if_pos hk, List.mem_cons, List.mem_cons]
        have hnew : (k', amount') ≠ (k, entry.2 + amount) := by simp [h]
        have hold : (k', amount') ≠ entry := by
          rintro rfl
          exact h hk
        simp [hnew, hold]
      · rw [if_neg hk, List.mem_cons, List.mem_cons, ih]

/-- The entry with the key itself. -/
theorem mem_add_self (hdistinct : (entries.map Prod.fst).Nodup) :
    (k, amount') ∈ add k amount entries ↔
      (∃ old, (k, old) ∈ entries ∧ amount' = old + amount) ∨
        (k ∉ entries.map Prod.fst ∧ amount' = amount) := by
  induction entries with
  | nil => simp [add]
  | cons entry entries ih =>
      obtain ⟨j, old⟩ := entry
      obtain ⟨hnot, hrest⟩ := List.nodup_cons.mp hdistinct
      unfold add
      by_cases hk : j = k
      · subst hk
        have hno : ∀ a, (j, a) ∉ entries := by
          intro a ha
          exact hnot (List.mem_map.mpr ⟨_, ha, rfl⟩)
        simp [hno]
      · rw [if_neg hk, List.mem_cons, ih hrest]
        simp [Ne.symm hk]

end Add

section Tallies

variable {terms terms' entries entries' : List (κ × M)}

theorem tallies_nil : Tallies ([] : List (κ × M)) [] where
  distinct := List.nodup_nil
  mem_iff k amount := by simp

theorem Tallies.keys (h : Tallies terms entries) {k : κ} :
    k ∈ entries.map Prod.fst ↔ k ∈ terms.map Prod.fst := by
  constructor
  · intro hk
    obtain ⟨⟨j, amount⟩, hmem, rfl⟩ := List.mem_map.mp hk
    exact ((h.mem_iff j amount).mp hmem).1
  · intro hk
    exact List.mem_map.mpr ⟨(k, total k terms), (h.mem_iff k _).mpr ⟨hk, rfl⟩, rfl⟩

/-- **The step lemma.** -/
theorem Tallies.add (h : Tallies terms entries) (k : κ) (amount : M) :
    Tallies (terms ++ [(k, amount)]) (add k amount entries) := by
  constructor
  · rw [keys_add]
    by_cases hk : k ∈ entries.map Prod.fst
    · rw [if_pos hk]
      exact h.distinct
    · rw [if_neg hk]
      exact List.nodup_append.mpr ⟨h.distinct, List.nodup_singleton k, by
        intro a ha b hb
        rw [List.mem_singleton.mp hb]
        rintro rfl
        exact hk ha⟩
  · intro j amount'
    rw [List.map_append, List.mem_append, total_append, total_single]
    by_cases hj : j = k
    · subst hj
      rw [mem_add_self h.distinct, if_pos rfl]
      by_cases hold : j ∈ terms.map Prod.fst
      · simp [h.mem_iff, h.keys, hold]
      · simp [h.mem_iff, h.keys, hold, total_of_not_mem hold]
    · rw [mem_add_of_ne hj, h.mem_iff, if_neg (Ne.symm hj), add_zero]
      simp [hj]

/-- **The run lemma.** -/
theorem Tallies.foldl (h : Tallies terms entries) (more : List (κ × M)) :
    Tallies (terms ++ more) (more.foldl (fun es t => Tally.add t.1 t.2 es) entries) := by
  induction more generalizing terms entries with
  | nil =>
      rw [List.append_nil]
      exact h
  | cons t more ih =>
      have hrest := ih (h.add t.1 t.2)
      rw [List.append_assoc, List.singleton_append] at hrest
      exact hrest

/-- Neither the order of the terms matters, nor that of the entries. -/
theorem Tallies.perm (h : Tallies terms entries) (hterms : terms.Perm terms')
    (hentries : entries.Perm entries') : Tallies terms' entries' where
  distinct := (hentries.map _).nodup_iff.mp h.distinct
  mem_iff k amount := by
    rw [← hentries.mem_iff, h.mem_iff, (hterms.map _).mem_iff, total_perm hterms]

end Tallies

end Tally
