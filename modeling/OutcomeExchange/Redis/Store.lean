import Mathlib.Data.Int.Order.Basic
import Mathlib.Data.List.Sort
import Mathlib.Data.String.Basic
import Mathlib.Logic.Function.Basic

set_option autoImplicit false

/-! # A Redis key space

The sorted sets, hashes and strings behind string keys, with the commands that read and
change them. A command on a key that holds a value of another kind is an error and changes
nothing, and a sorted set without members is no longer a key.

What the commands do is said through the two views `zset` and `hget`. -/

namespace Redis

/-! ## Sorted sets -/

/-- A member of a sorted set. -/
structure Entry where
  score : ℤ
  member : String
  deriving DecidableEq

/-- The order of `ZRANGE`: by score, and by member where the scores are equal. -/
def Entry.le (a b : Entry) : Prop :=
  a.score < b.score ∨ (a.score = b.score ∧ a.member ≤ b.member)

instance : DecidableRel Entry.le := fun a b =>
  inferInstanceAs (Decidable (a.score < b.score ∨ (a.score = b.score ∧ a.member ≤ b.member)))

instance : Std.Total Entry.le where
  total a b := by
    unfold Entry.le
    rcases lt_trichotomy a.score b.score with h | h | h
    · exact Or.inl (Or.inl h)
    · rcases le_total a.member b.member with h' | h'
      · exact Or.inl (Or.inr ⟨h, h'⟩)
      · exact Or.inr (Or.inr ⟨h.symm, h'⟩)
    · exact Or.inr (Or.inl h)

instance : IsTrans Entry Entry.le where
  trans a b c := by
    unfold Entry.le
    rintro (h | ⟨h, hm⟩) (h' | ⟨h', hm'⟩)
    · exact Or.inl (by omega)
    · exact Or.inl (by omega)
    · exact Or.inl (by omega)
    · exact Or.inr ⟨by omega, le_trans hm hm'⟩

/-- A sorted set: no member has two scores. -/
structure ZSet where
  entries : List Entry
  sorted : entries.Pairwise Entry.le
  distinct : (entries.map Entry.member).Nodup

namespace ZSet

def empty : ZSet := ⟨[], List.Pairwise.nil, List.nodup_nil⟩

/-- The set without a member. -/
def remove (z : ZSet) (member : String) : ZSet where
  entries := z.entries.filter fun e => e.member ≠ member
  sorted := z.sorted.filter _
  distinct := z.distinct.sublist (List.filter_sublist.map _)

theorem mem_remove {z : ZSet} {member : String} {e : Entry} :
    e ∈ (z.remove member).entries ↔ e ∈ z.entries ∧ e.member ≠ member := by
  simp [remove]

theorem nodup_insert {z : ZSet} {score : ℤ} {member : String} :
    (((z.remove member).entries.orderedInsert Entry.le ⟨score, member⟩).map Entry.member).Nodup := by
  have hperm := (List.perm_orderedInsert Entry.le ⟨score, member⟩ (z.remove member).entries).map
    Entry.member
  rw [hperm.nodup_iff, List.map_cons, List.nodup_cons]
  refine ⟨fun hmem => ?_, (z.remove member).distinct⟩
  obtain ⟨e, he, hmember⟩ := List.mem_map.mp hmem
  exact (mem_remove.mp he).2 hmember

/-- A member that is there with this score stays where it is. -/
def add (z : ZSet) (score : ℤ) (member : String) : ZSet :=
  if ⟨score, member⟩ ∈ z.entries then z
  else
    { entries := (z.remove member).entries.orderedInsert Entry.le ⟨score, member⟩
      sorted := (z.remove member).sorted.orderedInsert _ _
      distinct := nodup_insert }

theorem eq_of_member {z : ZSet} {a b : Entry} (ha : a ∈ z.entries) (hb : b ∈ z.entries)
    (h : a.member = b.member) : a = b :=
  List.inj_on_of_nodup_map z.distinct ha hb h

theorem mem_add {z : ZSet} {score : ℤ} {member : String} {e : Entry} :
    e ∈ (z.add score member).entries ↔
      e = ⟨score, member⟩ ∨ (e ∈ z.entries ∧ e.member ≠ member) := by
  unfold add
  by_cases hmem : (⟨score, member⟩ : Entry) ∈ z.entries
  · rw [if_pos hmem]
    constructor
    · intro he
      by_cases hm : e.member = member
      · exact Or.inl (eq_of_member he hmem hm)
      · exact Or.inr ⟨he, hm⟩
    · rintro (rfl | ⟨he, -⟩)
      · exact hmem
      · exact he
  · rw [if_neg hmem, List.mem_orderedInsert, mem_remove]

end ZSet

/-! ## Keys and values -/

inductive Value
  | zset (z : ZSet)
  | hash (fields : String → Option String)
  | string (text : String)

/-- The key space: what each key holds. -/
def Store : Type := String → Option Value

inductive Command
  | zadd (key : String) (score : ℤ) (member : String)
  | zrem (key member : String)
  | hset (key : String) (fields : List (String × String))
  | del (key : String)

/-- What a hash holds once `fields` are set, one after the other. -/
def setFields (fields : List (String × String)) (h : String → Option String) :
    String → Option String :=
  fields.foldl (fun h f => Function.update h f.1 (some f.2)) h

namespace Store

variable (s : Store)

def empty : Store := fun _ => none

/-- The store with another value, or none, behind `key`. -/
def set (key : String) (v : Option Value) : Store := Function.update s key v

def zadd (key : String) (score : ℤ) (member : String) : Store :=
  match s key with
  | none => s.set key (some (.zset (ZSet.empty.add score member)))
  | some (.zset z) => s.set key (some (.zset (z.add score member)))
  | some _ => s

def zrem (key member : String) : Store :=
  match s key with
  | some (.zset z) =>
      if (z.remove member).entries = [] then s.set key none
      else s.set key (some (.zset (z.remove member)))
  | _ => s

def hset (key : String) (fields : List (String × String)) : Store :=
  match s key with
  | none => s.set key (some (.hash (setFields fields fun _ => none)))
  | some (.hash h) => s.set key (some (.hash (setFields fields h)))
  | some _ => s

def del (key : String) : Store := s.set key none

def apply : Command → Store
  | .zadd key score member => s.zadd key score member
  | .zrem key member => s.zrem key member
  | .hset key fields => s.hset key fields
  | .del key => s.del key

/-- `MULTI … EXEC`: the commands at once; one that fails does not stop the others. -/
def multi (commands : List Command) : Store := commands.foldl apply s

def wrongType : String := "WRONGTYPE Operation against a key holding the wrong kind of value"

/-- `ZRANGE key 0 -1` -/
def zrange (key : String) : Except String (List String) :=
  match s key with
  | none => .ok []
  | some (.zset z) => .ok (z.entries.map Entry.member)
  | some _ => .error wrongType

/-- `ZREVRANGE key 0 -1` -/
def zrevrange (key : String) : Except String (List String) := (s.zrange key).map List.reverse

/-- `HMGET key …` -/
def hmget (key : String) (fields : List String) : Except String (List (Option String)) :=
  match s key with
  | none => .ok (fields.map fun _ => none)
  | some (.hash h) => .ok (fields.map h)
  | some _ => .error wrongType

/-! ## The views -/

/-- The entries of a sorted set, in order. -/
def zset (key : String) : List Entry :=
  match s key with
  | some (.zset z) => z.entries
  | _ => []

/-- A field of a hash. -/
def hget (key field : String) : Option String :=
  match s key with
  | some (.hash h) => h field
  | _ => none

/-- The key is free for a sorted set. -/
def ForZSet (key : String) : Prop := ∀ v, s key = some v → ∃ z, v = .zset z

/-- The key is free for a hash. -/
def ForHash (key : String) : Prop := ∀ v, s key = some v → ∃ h, v = .hash h

variable {s} {key key' : String}

@[simp] theorem set_self (v : Option Value) : s.set key v key = v := Function.update_self ..

theorem set_of_ne (h : key' ≠ key) (v : Option Value) : s.set key v key' = s key' :=
  Function.update_of_ne h ..

/-- Setting again what is there. -/
theorem set_eq_self {v : Option Value} (h : s key = v) : s.set key v = s := by
  rw [← h]
  exact Function.update_eq_self key s

/-! ### A command leaves other keys alone -/

theorem zadd_eq_set (score : ℤ) (member : String) : ∃ v, s.zadd key score member = s.set key v := by
  unfold zadd
  split
  · exact ⟨_, rfl⟩
  · exact ⟨_, rfl⟩
  · exact ⟨s key, (set_eq_self rfl).symm⟩

theorem zrem_eq_set (member : String) : ∃ v, s.zrem key member = s.set key v := by
  unfold zrem
  split
  · split
    · exact ⟨_, rfl⟩
    · exact ⟨_, rfl⟩
  · exact ⟨s key, (set_eq_self rfl).symm⟩

theorem hset_eq_set (fields : List (String × String)) : ∃ v, s.hset key fields = s.set key v := by
  unfold hset
  split
  · exact ⟨_, rfl⟩
  · exact ⟨_, rfl⟩
  · exact ⟨s key, (set_eq_self rfl).symm⟩

theorem zadd_of_ne (h : key' ≠ key) (score : ℤ) (member : String) :
    s.zadd key score member key' = s key' := by
  obtain ⟨v, hv⟩ : ∃ v, s.zadd key score member = s.set key v := zadd_eq_set score member
  rw [hv, set_of_ne h]

theorem zrem_of_ne (h : key' ≠ key) (member : String) : s.zrem key member key' = s key' := by
  obtain ⟨v, hv⟩ : ∃ v, s.zrem key member = s.set key v := zrem_eq_set member
  rw [hv, set_of_ne h]

theorem hset_of_ne (h : key' ≠ key) (fields : List (String × String)) :
    s.hset key fields key' = s key' := by
  obtain ⟨v, hv⟩ : ∃ v, s.hset key fields = s.set key v := hset_eq_set fields
  rw [hv, set_of_ne h]

theorem del_of_ne (h : key' ≠ key) : s.del key key' = s key' := set_of_ne h _

theorem zset_congr {t : Store} (h : s key = t key) : s.zset key = t.zset key := by
  unfold zset
  rw [h]

theorem hget_congr {t : Store} (h : s key = t key) (field : String) :
    s.hget key field = t.hget key field := by
  unfold hget
  rw [h]

theorem zrange_congr {t : Store} (h : s key = t key) : s.zrange key = t.zrange key := by
  unfold zrange
  rw [h]

theorem hmget_congr {t : Store} (h : s key = t key) (fields : List String) :
    s.hmget key fields = t.hmget key fields := by
  unfold hmget
  rw [h]

theorem zset_nodup (s : Store) (key : String) : (s.zset key).Nodup := by
  unfold zset
  split
  · rename_i z _
    exact z.distinct.of_map
  · exact List.nodup_nil

/-- `ZRANGE` gives the members in order. -/
theorem zrange_of_forZSet (h : s.ForZSet key) :
    s.zrange key = .ok ((s.zset key).map Entry.member) := by
  unfold zrange zset
  cases hkey : s key with
  | none => rfl
  | some v =>
      obtain ⟨z, rfl⟩ := h v hkey
      rfl

/-! ### What a command does to its key -/

theorem mem_zset_zadd (h : s.ForZSet key) {score : ℤ} {member : String} {e : Entry} :
    e ∈ (s.zadd key score member).zset key ↔
      e = ⟨score, member⟩ ∨ (e ∈ s.zset key ∧ e.member ≠ member) := by
  unfold zadd zset
  cases hkey : s key with
  | none => simp [ZSet.mem_add, ZSet.empty]
  | some v =>
      obtain ⟨z, rfl⟩ := h v hkey
      simp [ZSet.mem_add]

theorem mem_zset_zrem {member : String} {e : Entry} :
    e ∈ (s.zrem key member).zset key ↔ e ∈ s.zset key ∧ e.member ≠ member := by
  unfold zrem zset
  cases hkey : s key with
  | none => simp [hkey]
  | some v =>
      cases v with
      | zset z =>
          rw [← ZSet.mem_remove]
          by_cases hnil : (z.remove member).entries = []
          · simp [hnil]
          · simp [hnil]
      | hash h => simp [hkey]
      | string text => simp [hkey]

theorem hget_hset (h : s.ForHash key) {fields : List (String × String)} {field : String} :
    (s.hset key fields).hget key field = setFields fields (s.hget key) field := by
  unfold hset
  cases hkey : s key with
  | none =>
      have hnone : s.hget key = fun _ => none := by
        funext f
        simp [hget, hkey]
      simp [hget, hnone]
  | some v =>
      obtain ⟨g, rfl⟩ := h v hkey
      have hsome : s.hget key = g := by
        funext f
        simp [hget, hkey]
      rw [hsome]
      simp [hget]

theorem ForZSet.zadd (h : s.ForZSet key') (score : ℤ) (member : String) :
    (s.zadd key score member).ForZSet key' := by
  intro v hv
  by_cases hkey : key' = key
  · subst hkey
    unfold Store.zadd at hv
    cases hs : s key' with
    | none =>
        simp only [hs, set_self, Option.some.injEq] at hv
        exact ⟨_, hv.symm⟩
    | some v' =>
        obtain ⟨z, rfl⟩ := h v' hs
        simp only [hs, set_self, Option.some.injEq] at hv
        exact ⟨_, hv.symm⟩
  · rw [zadd_of_ne hkey] at hv
    exact h v hv

theorem ForZSet.zrem (h : s.ForZSet key') (member : String) : (s.zrem key member).ForZSet key' := by
  intro v hv
  by_cases hkey : key' = key
  · subst hkey
    unfold Store.zrem at hv
    cases hs : s key' with
    | none =>
        simp only [hs] at hv
        cases hv
    | some v' =>
        obtain ⟨z, rfl⟩ := h v' hs
        by_cases hnil : (z.remove member).entries = []
        · simp only [hs, hnil, if_true, set_self] at hv
          cases hv
        · simp only [hs, hnil, if_false, set_self, Option.some.injEq] at hv
          exact ⟨_, hv.symm⟩
  · rw [zrem_of_ne hkey] at hv
    exact h v hv

theorem ForHash.hset (h : s.ForHash key') (fields : List (String × String)) :
    (s.hset key fields).ForHash key' := by
  intro v hv
  by_cases hkey : key' = key
  · subst hkey
    unfold Store.hset at hv
    cases hs : s key' with
    | none =>
        simp only [hs, set_self, Option.some.injEq] at hv
        exact ⟨_, hv.symm⟩
    | some v' =>
        obtain ⟨g, rfl⟩ := h v' hs
        simp only [hs, set_self, Option.some.injEq] at hv
        exact ⟨_, hv.symm⟩
  · rw [hset_of_ne hkey] at hv
    exact h v hv

theorem ForHash.del (h : s.ForHash key') : (s.del key).ForHash key' := by
  intro v hv
  by_cases hkey : key' = key
  · subst hkey
    rw [Store.del, set_self] at hv
    cases hv
  · rw [del_of_ne hkey] at hv
    exact h v hv

/-! ### Commands that change nothing -/

theorem zadd_eq_self {score : ℤ} {member : String} (h : ⟨score, member⟩ ∈ s.zset key) :
    s.zadd key score member = s := by
  unfold zset at h
  unfold zadd
  cases hkey : s key with
  | none => simp [hkey] at h
  | some v =>
      cases v with
      | zset z =>
          simp only [hkey] at h
          simp only [ZSet.add, if_pos h]
          exact set_eq_self hkey
      | hash g => simp [hkey] at h
      | string text => simp [hkey] at h

theorem setFields_eq_self {fields : List (String × String)} {g : String → Option String}
    (h : ∀ f ∈ fields, g f.1 = some f.2) : setFields fields g = g := by
  unfold setFields
  induction fields with
  | nil => rfl
  | cons f fields ih =>
      have hf : Function.update g f.1 (some f.2) = g := by
        rw [← h f (List.mem_cons_self ..)]
        exact Function.update_eq_self f.1 g
      rw [List.foldl_cons, hf]
      exact ih fun f' hf' => h f' (List.mem_cons_of_mem _ hf')

theorem hset_eq_self {fields : List (String × String)} (hne : fields ≠ [])
    (h : ∀ f ∈ fields, s.hget key f.1 = some f.2) : s.hset key fields = s := by
  obtain ⟨f, hf⟩ := List.exists_mem_of_ne_nil fields hne
  have hthere := h f hf
  unfold hset
  cases hkey : s key with
  | none => simp [hget, hkey] at hthere
  | some v =>
      cases v with
      | hash g =>
          have hg : setFields fields g = g := by
            refine setFields_eq_self fun f' hf' => ?_
            have hget := h f' hf'
            simpa [Store.hget, hkey] using hget
          simp only [hg]
          exact set_eq_self hkey
      | zset z => simp [hget, hkey] at hthere
      | string text => simp [hget, hkey] at hthere

end Store

end Redis
