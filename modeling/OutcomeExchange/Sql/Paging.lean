import Mathlib.Data.List.Nodup
import Mathlib.Data.List.Perm.Basic
import Mathlib.Data.List.Sort
import Mathlib.Data.List.TakeWhile
import Mathlib.Data.Int.Order.Basic

set_option autoImplicit false

/-! # Paging through a query

`SELECT … ORDER BY key DESC LIMIT limit OFFSET offset` sorts the rows by their key; rows with
equal keys come in any order, and in another one each time. A client asks for the offsets 0,
`limit`, `2 * limit` and so on until a page is empty, and puts the pages together.

The result lists every row once, whatever the orders were, exactly where no block of rows with
one key lies across a page boundary (`pages_arrange_iff`). -/

namespace Sql

variable {α : Type}

/-! ## Queries -/

/-- The rows in one of the orders that `ORDER BY key DESC` allows. -/
structure Arranges (key : α → ℤ) (rows arranged : List α) : Prop where
  perm : arranged.Perm rows
  sorted : arranged.Pairwise fun a b => key b ≤ key a

/-- `LIMIT limit OFFSET offset` -/
def page (limit offset : ℕ) (arranged : List α) : List α := (arranged.drop offset).take limit

/-- The pages from `offset` on, until one is empty, and put together. -/
inductive Pages (query : ℕ → List α → Prop) (limit : ℕ) : ℕ → List α → Prop
  | done {offset : ℕ} (h : query offset []) : Pages query limit offset []
  | more {offset : ℕ} {rows rest : List α} (h : query offset rows) (hne : rows ≠ [])
      (hrest : Pages query limit (offset + limit) rest) : Pages query limit offset (rows ++ rest)

/-- What a query for sorted rows can answer. -/
def Answers (key : α → ℤ) (rows : List α) (limit offset : ℕ) (answer : List α) : Prop :=
  ∃ arranged, Arranges key rows arranged ∧ answer = page limit offset arranged

/-- The number of rows with a greater key. -/
def above (key : α → ℤ) (rows : List α) (k : ℤ) : ℕ := (rows.filter fun a => k < key a).length

/-- The number of rows with this key or a greater one. -/
def atLeast (key : α → ℤ) (rows : List α) (k : ℤ) : ℕ := (rows.filter fun a => k ≤ key a).length

/-- The rows with the key `k` lie across the beginning of a page. -/
def Straddles (key : α → ℤ) (rows : List α) (limit : ℕ) : Prop :=
  ∃ k n, above key rows k < n * limit ∧ n * limit < atLeast key rows k

/-! ## The positions of a key -/

section Positions

variable {key : α → ℤ} {rows arranged arranged' listed : List α} {limit offset n : ℕ} {k : ℤ}

theorem exists_arranges (key : α → ℤ) (rows : List α) : ∃ arranged, Arranges key rows arranged := by
  refine ⟨rows.mergeSort fun a b => key b ≤ key a, List.mergeSort_perm .., ?_⟩
  have htrans : ∀ a b c : α, decide (key b ≤ key a) = true → decide (key c ≤ key b) = true →
      decide (key c ≤ key a) = true := by
    intro a b c hab hbc
    simp only [decide_eq_true_eq] at *
    omega
  have htotal : ∀ a b : α, (decide (key b ≤ key a) || decide (key a ≤ key b)) = true := by
    intro a b
    simp only [Bool.or_eq_true, decide_eq_true_eq]
    omega
  exact (List.pairwise_mergeSort htrans htotal rows).imp fun h => of_decide_eq_true h

/-- In a sorted list the rows with a large key come first. -/
theorem takeWhile_eq_filter {p : α → Bool} (hp : ∀ a b, key b ≤ key a → p b = true → p a = true)
    (hsorted : arranged.Pairwise fun a b => key b ≤ key a) :
    arranged.takeWhile p = arranged.filter p := by
  induction arranged with
  | nil => rfl
  | cons a rest ih =>
      obtain ⟨hle, hrest⟩ := List.pairwise_cons.mp hsorted
      cases ha : p a with
      | true => rw [List.takeWhile_cons_of_pos ha, List.filter_cons_of_pos ha, ih hrest]
      | false =>
          rw [List.takeWhile_cons_of_neg (by simp [ha]), List.filter_cons_of_neg (by simp [ha]),
            eq_comm, List.filter_eq_nil_iff]
          intro b hb hpb
          rw [hp a b (hle b hb) hpb] at ha
          cases ha

theorem take_eq_filter {p : α → Bool} (hp : ∀ a b, key b ≤ key a → p b = true → p a = true)
    (h : Arranges key rows arranged) :
    arranged.take (rows.filter p).length = arranged.filter p := by
  have hlen : (rows.filter p).length = (arranged.filter p).length := (h.perm.filter p).length_eq.symm
  rw [hlen, ← takeWhile_eq_filter hp h.sorted]
  exact (List.prefix_iff_eq_take.mp (List.takeWhile_prefix p)).symm

/-- What holds of the large keys holds of the first rows, up to their number. -/
theorem getElem_iff_lt {p : α → Bool} (hp : ∀ a b, key b ≤ key a → p b = true → p a = true)
    (h : Arranges key rows arranged) (hn : n < arranged.length) :
    p arranged[n] = true ↔ n < (rows.filter p).length := by
  constructor
  · intro hpn
    have hall : ∀ a ∈ arranged.take (n + 1), p a = true := by
      intro a ha
      obtain ⟨i, hi, rfl⟩ := List.mem_take_iff_getElem.mp ha
      rcases Nat.lt_or_ge i n with hlt | hge
      · exact hp _ _ (List.pairwise_iff_getElem.mp h.sorted i n (by omega) hn hlt) hpn
      · have heq : i = n := by omega
        subst heq
        exact hpn
    have hsub : (arranged.take (n + 1)).Sublist (arranged.filter p) := by
      rw [← List.filter_eq_self.mpr hall]
      exact (List.take_sublist _ _).filter p
    have hlen := hsub.length_le
    rw [(h.perm.filter p).length_eq, List.length_take] at hlen
    omega
  · intro hlt
    have hmem : arranged[n] ∈ arranged.take (rows.filter p).length :=
      List.mem_take_iff_getElem.mpr ⟨n, by omega, rfl⟩
    rw [take_eq_filter hp h, List.mem_filter] at hmem
    exact hmem.2

theorem greater_mono (k : ℤ) (a b : α) (h : key b ≤ key a) (hb : decide (k < key b) = true) :
    decide (k < key a) = true := by
  rw [decide_eq_true_eq] at hb ⊢
  omega

theorem atLeast_mono (k : ℤ) (a b : α) (h : key b ≤ key a) (hb : decide (k ≤ key b) = true) :
    decide (k ≤ key a) = true := by
  rw [decide_eq_true_eq] at hb ⊢
  omega

theorem lt_key_iff (h : Arranges key rows arranged) (hn : n < arranged.length) :
    k < key arranged[n] ↔ n < above key rows k := by
  rw [above, ← getElem_iff_lt (greater_mono k) h hn, decide_eq_true_eq]

theorem le_key_iff (h : Arranges key rows arranged) (hn : n < arranged.length) :
    k ≤ key arranged[n] ↔ n < atLeast key rows k := by
  rw [atLeast, ← getElem_iff_lt (atLeast_mono k) h hn, decide_eq_true_eq]

/-- The positions of the rows with one key. -/
theorem key_eq_iff (h : Arranges key rows arranged) (hn : n < arranged.length) :
    key arranged[n] = k ↔ above key rows k ≤ n ∧ n < atLeast key rows k := by
  rw [← le_key_iff h hn, ← Nat.not_lt, ← lt_key_iff h hn]
  omega

/-- Before a boundary that no block lies across, every arrangement has the same rows. -/
theorem take_perm (hclear : ¬ Straddles key rows limit) (h : Arranges key rows arranged)
    (h' : Arranges key rows arranged') (n : ℕ) :
    (arranged.take (n * limit)).Perm (arranged'.take (n * limit)) := by
  have hlen : arranged.length = arranged'.length := (h.perm.trans h'.perm.symm).length_eq
  by_cases hn : n * limit < arranged.length
  · obtain ⟨hle, hlt⟩ := (key_eq_iff h hn).mp rfl
    have heq : n * limit = above key rows (key arranged[n * limit]) := by
      by_contra hne
      exact hclear ⟨key arranged[n * limit], n, by omega, hlt⟩
    rw [heq, above, take_eq_filter (greater_mono _) h, take_eq_filter (greater_mono _) h']
    exact (h.perm.trans h'.perm.symm).filter _
  · rw [List.take_of_length_le (by omega), List.take_of_length_le (by omega)]
    exact h.perm.trans h'.perm.symm

/-- The pages of two arrangements have the same rows. -/
theorem page_perm (hclear : ¬ Straddles key rows limit) (h : Arranges key rows arranged)
    (h' : Arranges key rows arranged') (n : ℕ) :
    (page limit (n * limit) arranged).Perm (page limit (n * limit) arranged') := by
  have hsplit : ∀ l : List α, l.take ((n + 1) * limit) = l.take (n * limit) ++ page limit (n * limit) l := by
    intro l
    rw [page, Nat.succ_mul, List.take_add]
  have hnext := take_perm hclear h h' (n + 1)
  rw [hsplit, hsplit] at hnext
  have hfirst := take_perm hclear h h' n
  exact (List.perm_append_left_iff _).mp ((hfirst.symm.append_right _).trans hnext)

/-! ## Pages that list every row once -/

theorem page_nil (hlimit : 0 < limit) (h : page limit offset arranged = []) :
    arranged.length ≤ offset := by
  unfold page at h
  rw [List.take_eq_nil_iff] at h
  rcases h with h | h
  · omega
  · exact List.drop_eq_nil_iff.mp h

/-- The pages from a boundary on have the rows that any arrangement has there. -/
theorem Pages.arranges (hlimit : 0 < limit) (hclear : ¬ Straddles key rows limit)
    (hpages : Pages (Answers key rows limit) limit offset listed) (hoffset : offset = n * limit)
    (h : Arranges key rows arranged) : Arranges key (arranged.drop offset) listed := by
  induction hpages generalizing n with
  | @done offset hanswer =>
      obtain ⟨other, hother, hnil⟩ := hanswer
      have hlen := page_nil hlimit hnil.symm
      have hsame : other.length = arranged.length := (hother.perm.trans h.perm.symm).length_eq
      rw [List.drop_eq_nil_of_le (by omega)]
      exact ⟨List.Perm.nil, List.Pairwise.nil⟩
  | @more offset first rest hanswer hne hrest ih =>
      obtain ⟨other, hother, rfl⟩ := hanswer
      have hfirst : (page limit offset other).Perm ((arranged.drop offset).take limit) := by
        rw [hoffset]
        exact page_perm hclear hother h n
      have hrest' := ih (n := n + 1) (by rw [hoffset, Nat.succ_mul])
      rw [← List.drop_drop] at hrest'
      have hsplit : (arranged.drop offset).take limit ++ (arranged.drop offset).drop limit =
          arranged.drop offset := List.take_append_drop limit (arranged.drop offset)
      constructor
      · rw [← hsplit]
        exact hfirst.append hrest'.perm
      · have hsorted : (arranged.drop offset).Pairwise fun a b => key b ≤ key a :=
          h.sorted.sublist (List.drop_sublist ..)
        rw [← hsplit] at hsorted
        obtain ⟨-, -, hcross⟩ := List.pairwise_append.mp hsorted
        refine List.pairwise_append.mpr ⟨?_, hrest'.sorted, fun a ha b hb => ?_⟩
        · exact hother.sorted.sublist ((List.take_sublist ..).trans (List.drop_sublist ..))
        · exact hcross a (hfirst.mem_iff.mp ha) b (hrest'.perm.mem_iff.mp hb)

/-! ## Pages that do not -/

theorem page_ne_nil (hlimit : 0 < limit) (hlt : offset < arranged.length) :
    page limit offset arranged ≠ [] := by
  intro h
  have hlen := page_nil hlimit h
  omega

/-- Pages that are all taken from one arrangement. -/
theorem pages_of_arranges (hlimit : 0 < limit) (h : Arranges key rows arranged) (offset : ℕ) :
    Pages (Answers key rows limit) limit offset (arranged.drop offset) := by
  by_cases hlt : offset < arranged.length
  · have hrest := pages_of_arranges hlimit h (offset + limit)
    have hpage := Pages.more ⟨arranged, h, rfl⟩ (page_ne_nil hlimit hlt) hrest
    rw [page, ← List.drop_drop, List.take_append_drop] at hpage
    exact hpage
  · rw [List.drop_eq_nil_of_le (by omega)]
    refine .done ⟨arranged, h, ?_⟩
    rw [page, List.drop_eq_nil_of_le (by omega), List.take_nil]
termination_by arranged.length - offset

/-- Some pages from one arrangement, and from then on pages from another. -/
theorem pages_of_two (hlimit : 0 < limit) (h : Arranges key rows arranged)
    (h' : Arranges key rows arranged') {k n : ℕ} (hk : k ≤ n) (hn : n * limit ≤ arranged.length) :
    Pages (Answers key rows limit) limit (k * limit)
      ((arranged.take (n * limit)).drop (k * limit) ++ arranged'.drop (n * limit)) := by
  by_cases hkn : k = n
  · subst hkn
    rw [List.drop_eq_nil_of_le (by rw [List.length_take]; omega), List.nil_append]
    exact pages_of_arranges hlimit h' _
  · have hle : (k + 1) * limit ≤ n * limit := Nat.mul_le_mul_right limit (by omega)
    have hsucc : (k + 1) * limit = k * limit + limit := Nat.succ_mul ..
    have hrest := pages_of_two hlimit h h' (k := k + 1) (by omega) hn
    rw [hsucc] at hrest
    have hpage := Pages.more ⟨arranged, h, rfl⟩ (page_ne_nil hlimit (by omega)) hrest
    have hfirst : page limit (k * limit) arranged =
        ((arranged.take (n * limit)).drop (k * limit)).take limit := by
      rw [page, List.drop_take, List.take_take]
      congr 1
      omega
    rw [hfirst, ← List.append_assoc, ← List.drop_drop, List.take_append_drop] at hpage
    exact hpage
termination_by n - k

/-- Two neighbours with one key change places. -/
theorem Arranges.swap (h : Arranges key rows arranged) {before after : List α} {x y : α}
    (hparts : arranged = before ++ x :: y :: after) (hkey : key x = key y) :
    Arranges key rows (before ++ y :: x :: after) := by
  subst hparts
  constructor
  · exact (List.Perm.append_left _ (List.Perm.swap ..)).trans h.perm
  · have hsorted := h.sorted
    simp only [List.pairwise_append, List.pairwise_cons, List.mem_cons, forall_eq_or_imp,
      hkey] at hsorted ⊢
    grind

/-- A block across a boundary lets a row be listed twice. -/
theorem exists_pages_twice (hlimit : 0 < limit)
    (hstraddles : Straddles key rows limit) :
    ∃ listed, Pages (Answers key rows limit) limit 0 listed ∧ ¬ listed.Nodup := by
  obtain ⟨k, n, habove, hatLeast⟩ := hstraddles
  obtain ⟨arranged, h⟩ := exists_arranges key rows
  have hlen : atLeast key rows k ≤ arranged.length := by
    rw [h.perm.length_eq]
    exact List.length_filter_le ..
  obtain ⟨p, hp⟩ : ∃ p, n * limit = p + 1 := ⟨n * limit - 1, by omega⟩
  have hp₁ : p + 1 < arranged.length := by omega
  have hp₀ : p < arranged.length := by omega
  -- both neighbours of the boundary are in the block
  have hx : key arranged[p] = k := (key_eq_iff h hp₀).mpr (by omega)
  have hy : key arranged[p + 1] = k := (key_eq_iff h hp₁).mpr (by omega)
  have hparts : arranged = arranged.take p ++ arranged[p] :: arranged[p + 1] ::
      arranged.drop (p + 1 + 1) := by
    rw [← List.drop_eq_getElem_cons hp₁, ← List.drop_eq_getElem_cons hp₀, List.take_append_drop]
  have hswap := h.swap hparts (hx.trans hy.symm)
  have hpages := pages_of_two (k := 0) hlimit h hswap (Nat.zero_le n) (by omega)
  rw [Nat.zero_mul, List.drop_zero] at hpages
  refine ⟨_, hpages, fun hnodup' => ?_⟩
  have hfirst : arranged[p] ∈ arranged.take (n * limit) :=
    List.mem_take_iff_getElem.mpr ⟨p, by omega, rfl⟩
  have hsecond : arranged[p] ∈ (arranged.take p ++ arranged[p + 1] :: arranged[p] ::
      arranged.drop (p + 1 + 1)).drop (n * limit) := by
    have hlength : (arranged.take p ++ [arranged[p + 1]]).length = n * limit := by
      rw [List.length_append, List.length_take, List.length_singleton]
      omega
    rw [List.append_cons (arranged.take p) (arranged[p + 1]) (arranged[p] :: _), ← hlength,
      List.drop_left]
    exact List.mem_cons_self ..
  exact (List.nodup_append.mp hnodup').2.2 _ hfirst _ hsecond rfl

/-- **Paging lists every row once, in order, whatever the answers to the queries, exactly where no
block of rows with one key lies across a page boundary.** -/
theorem pages_arrange_iff (hlimit : 0 < limit) (hnodup : rows.Nodup) :
    (∀ listed, Pages (Answers key rows limit) limit 0 listed → Arranges key rows listed) ↔
      ¬ Straddles key rows limit := by
  constructor
  · intro hall hstraddles
    obtain ⟨listed, hpages, htwice⟩ := exists_pages_twice hlimit hstraddles
    exact htwice ((hall listed hpages).perm.nodup_iff.mpr hnodup)
  · intro hclear listed hpages
    obtain ⟨arranged, h⟩ := exists_arranges key rows
    have hlisted := hpages.arranges hlimit hclear (n := 0) (Nat.zero_mul limit).symm h
    rw [List.drop_zero] at hlisted
    exact ⟨hlisted.perm.trans h.perm, hlisted.sorted⟩

/-- Where no two rows have one key, no page boundary matters. -/
theorem not_straddles_of_distinct (h : (rows.map key).Nodup) (limit : ℕ) :
    ¬ Straddles key rows limit := by
  rintro ⟨k, n, habove, hatLeast⟩
  obtain ⟨arranged, harranged⟩ := exists_arranges key rows
  have hlen : atLeast key rows k ≤ arranged.length := by
    rw [harranged.perm.length_eq]
    exact List.length_filter_le ..
  have hdistinct : (arranged.map key).Nodup := (harranged.perm.map key).nodup_iff.mpr h
  obtain ⟨p, hp⟩ : ∃ p, n * limit = p + 1 := ⟨n * limit - 1, by omega⟩
  have hp₁ : p + 1 < arranged.length := by omega
  have hp₀ : p < arranged.length := by omega
  have hx : key arranged[p] = k := (key_eq_iff harranged hp₀).mpr (by omega)
  have hy : key arranged[p + 1] = k := (key_eq_iff harranged hp₁).mpr (by omega)
  have hlt₁ : p + 1 < (arranged.map key).length := by rwa [List.length_map]
  have hlt₀ : p < (arranged.map key).length := by rwa [List.length_map]
  have hsame : (arranged.map key)[p] = (arranged.map key)[p + 1] := by
    rw [List.getElem_map, List.getElem_map, hx, hy]
  have hindex : p = p + 1 := (List.Nodup.getElem_inj_iff hdistinct).mp hsame
  omega

end Positions

end Sql
