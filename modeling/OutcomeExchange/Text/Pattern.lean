import Mathlib.Data.List.Basic
import Mathlib.Data.Nat.Notation

set_option autoImplicit false

/-! # Patterns over runs of characters

A pattern is a list of character classes; each stands for one or more characters of its
class, as many as the rest of the pattern allows. `matchHere` tries the lengths of a run
from the longest to the shortest and goes back where the rest does not match, and
`firstMatch` takes the leftmost position at which the pattern matches. So `(\S+)\s+(\S+)`
is a pattern of three classes, and its groups are the first and the third run.

`splitOn` cuts a text at every single occurrence of a separator. -/

namespace Text

variable {α : Type}

/-! ## Matching -/

/-- The lengths from `n` down to 1, until one succeeds. -/
def firstLength {β : Type} (f : ℕ → Option β) : ℕ → Option β
  | 0 => none
  | n + 1 =>
      match f (n + 1) with
      | some b => some b
      | none => firstLength f n

/-- The runs of a match that begins with the text. -/
def matchHere : List (α → Bool) → List α → Option (List (List α))
  | [], _ => some []
  | p :: ps, text =>
      firstLength (fun n => (matchHere ps (text.drop n)).map (text.take n :: ·))
        (text.takeWhile p).length

/-- The runs of the leftmost match. -/
def firstMatch (ps : List (α → Bool)) : List α → Option (List (List α))
  | [] => matchHere ps []
  | c :: text =>
      match matchHere ps (c :: text) with
      | some runs => some runs
      | none => firstMatch ps text

section Matching

variable {β : Type} {f : ℕ → Option β} {n : ℕ} {b : β} {p : α → Bool} {ps : List (α → Bool)}
  {text run rest : List α} {runs : List (List α)}

theorem firstLength_eq_some (h : firstLength f n = some b) : ∃ k, 0 < k ∧ k ≤ n ∧ f k = some b := by
  induction n with
  | zero => cases h
  | succ n ih =>
      rw [firstLength] at h
      cases hf : f (n + 1) with
      | some b' =>
          rw [hf] at h
          exact ⟨n + 1, by omega, Nat.le_refl _, hf.trans h⟩
      | none =>
          rw [hf] at h
          obtain ⟨k, hpos, hle, hk⟩ := ih h
          exact ⟨k, hpos, by omega, hk⟩

/-- The longest run is tried first. -/
theorem firstLength_of_longest (hpos : 0 < n) (h : f n = some b) : firstLength f n = some b := by
  cases n with
  | zero => omega
  | succ n => rw [firstLength, h]

/-- The characters of a text up to the first that is not of the class. -/
theorem takeWhile_run (hrun : ∀ c ∈ run, p c = true) (hrest : ∀ c ∈ rest.head?, p c = false) :
    (run ++ rest).takeWhile p = run := by
  rw [List.takeWhile_append_of_pos hrun]
  have hstop : rest.takeWhile p = [] := by
    cases rest with
    | nil => rfl
    | cons c rest => simp [hrest c rfl]
  rw [hstop, List.append_nil]

/-- A run that ends where its class does is taken whole, where the rest then matches. -/
theorem matchHere_run (hne : run ≠ []) (hrun : ∀ c ∈ run, p c = true)
    (hstop : ∀ c ∈ rest.head?, p c = false) (hrest : matchHere ps rest = some runs) :
    matchHere (p :: ps) (run ++ rest) = some (run :: runs) := by
  rw [matchHere, takeWhile_run hrun hstop]
  refine firstLength_of_longest (List.length_pos_of_ne_nil hne) ?_
  rw [List.drop_left, List.take_left, hrest]
  rfl

theorem firstMatch_of_matchHere (h : matchHere ps text = some runs) :
    firstMatch ps text = some runs := by
  cases text with
  | nil => exact h
  | cons c text => rw [firstMatch, h]

/-- Every run of a match is a nonempty run of its class. -/
theorem matchHere_runs (h : matchHere ps text = some runs) :
    List.Forall₂ (fun p run => run ≠ [] ∧ ∀ c ∈ run, p c = true) ps runs := by
  induction ps generalizing text runs with
  | nil =>
      cases h
      exact .nil
  | cons p ps ih =>
      obtain ⟨k, hpos, hle, hk⟩ := firstLength_eq_some h
      obtain ⟨rest, hrest, rfl⟩ := Option.map_eq_some_iff.mp hk
      refine .cons ⟨?_, ?_⟩ (ih hrest)
      · have hlen : 0 < (text.take k).length := by
          have hprefix := (List.takeWhile_prefix (l := text) p).length_le
          rw [List.length_take]
          omega
        exact List.ne_nil_of_length_pos hlen
      · intro c hc
        have hmem : c ∈ text.takeWhile p := by
          rw [List.prefix_iff_eq_take.mp (List.takeWhile_prefix (l := text) p)]
          exact (List.take_prefix_take_left hle).subset hc
        exact List.all_eq_true.mp (List.all_takeWhile ..) c hmem

theorem firstMatch_runs (h : firstMatch ps text = some runs) :
    List.Forall₂ (fun p run => run ≠ [] ∧ ∀ c ∈ run, p c = true) ps runs := by
  induction text with
  | nil => exact matchHere_runs h
  | cons c text ih =>
      rw [firstMatch] at h
      cases hhere : matchHere ps (c :: text) with
      | some runs' =>
          rw [hhere] at h
          cases h
          exact matchHere_runs hhere
      | none =>
          rw [hhere] at h
          exact ih h

end Matching

/-! ## Cutting at a separator -/

section Splitting

variable [DecidableEq α]

/-- The pieces of a text between the occurrences of a separator. -/
def splitOn (sep : α) : List α → List (List α)
  | [] => [[]]
  | c :: text =>
      if c = sep then [] :: splitOn sep text
      else (c :: (splitOn sep text).headD []) :: (splitOn sep text).tail

variable {sep : α} {text piece : List α} {pieces : List (List α)}

theorem splitOn_ne_nil : splitOn sep text ≠ [] := by
  cases text with
  | nil => simp [splitOn]
  | cons c text =>
      rw [splitOn]
      split
      · simp
      · simp

theorem splitOn_of_not_mem (h : sep ∉ text) : splitOn sep text = [text] := by
  induction text with
  | nil => rfl
  | cons c text ih =>
      have hc : c ≠ sep := fun heq => h (by rw [heq]; exact List.mem_cons_self ..)
      rw [splitOn, if_neg hc, ih fun hmem => h (List.mem_cons_of_mem _ hmem)]
      rfl

theorem splitOn_append {rest : List α} (h : sep ∉ piece) :
    splitOn sep (piece ++ sep :: rest) = piece :: splitOn sep rest := by
  induction piece with
  | nil => rw [List.nil_append, splitOn, if_pos rfl]
  | cons c piece ih =>
      have hc : c ≠ sep := fun heq => h (by rw [heq]; exact List.mem_cons_self ..)
      rw [List.cons_append, splitOn, if_neg hc, ih fun hmem => h (List.mem_cons_of_mem _ hmem)]
      rfl

/-- The text begins with its first piece; what follows is cut into the others. -/
theorem splitOn_eq_cons (h : splitOn sep text = piece :: pieces) :
    sep ∉ piece ∧ ((pieces = [] ∧ text = piece) ∨
      ∃ rest, text = piece ++ sep :: rest ∧ splitOn sep rest = pieces) := by
  induction text generalizing piece with
  | nil =>
      cases h
      exact ⟨List.not_mem_nil, Or.inl ⟨rfl, rfl⟩⟩
  | cons c text ih =>
      rw [splitOn] at h
      by_cases hc : c = sep
      · rw [if_pos hc] at h
        cases h
        exact ⟨List.not_mem_nil, Or.inr ⟨text, by rw [hc]; rfl, rfl⟩⟩
      · rw [if_neg hc] at h
        obtain ⟨piece', pieces', hsplit⟩ := List.exists_cons_of_ne_nil (splitOn_ne_nil : splitOn sep text ≠ [])
        rw [hsplit] at h
        cases h
        obtain ⟨hnot, hcases⟩ := ih hsplit
        refine ⟨?_, ?_⟩
        · intro hmem
          rcases List.mem_cons.mp hmem with heq | hmem
          · exact hc heq.symm
          · exact hnot hmem
        · rcases hcases with ⟨hnil, htext⟩ | ⟨rest, htext, hrest⟩
          · exact Or.inl ⟨hnil, by rw [htext]; rfl⟩
          · exact Or.inr ⟨rest, by rw [htext]; rfl, hrest⟩

end Splitting

/-! ## Finding a text in another -/

/-- Nothing is found where the text does not have the first character. -/
theorem infix_append_iff {a : α} {p t l : List α} (h : a ∉ t) :
    (a :: p) <:+: t ++ l ↔ (a :: p) <:+: l := by
  induction t with
  | nil => exact Iff.rfl
  | cons b t ih =>
      have hb : a ≠ b := fun heq => h (heq ▸ List.mem_cons_self)
      rw [List.cons_append, List.infix_cons_iff, List.cons_prefix_cons,
        ih fun hmem => h (List.mem_cons_of_mem b hmem)]
      tauto

end Text
