import OutcomeExchange.Redis.Store
import Mathlib.Data.List.Infix

set_option autoImplicit false

/-! # Iterating over a key space

`SCAN cursor MATCH pattern` answers with some keys and with the cursor of the next call. The
calls from the cursor "0" on, until Redis answers with it again, are one full cycle, and
Redis promises little of it (`Promised`): keys may come repeatedly or when they are gone, but
a key that matches and is there at every call comes at least once. That is enough to delete
all keys that match, with a `DEL` after each call (`Sweeps.clears`). -/

namespace Redis

/-! ## Glob-style patterns

Characters stand for bytes here, which is the same unless a `?` or a class meets a character
of several bytes. -/

inductive Glob
  | anyText
  | one (accepts : Char → Bool)

/-- The pieces of a pattern; `class?` is what has been read of a class `[…]`. -/
def readGlob (class? : Option (Bool × (Char → Bool))) : List Char → List Glob
  | [] => class?.toList.map fun (negated, accepts) => .one fun c => accepts c != negated
  | c :: cs =>
      match class?, c, cs with
      | none, '*', cs => .anyText :: readGlob none cs
      | none, '?', cs => .one (fun _ => true) :: readGlob none cs
      | none, '\\', c :: cs => .one (fun d => d = c) :: readGlob none cs
      | none, '[', '^' :: cs => readGlob (some (true, fun _ => false)) cs
      | none, '[', cs => readGlob (some (false, fun _ => false)) cs
      | none, c, cs => .one (fun d => d = c) :: readGlob none cs
      | some (negated, accepts), ']', cs => .one (fun d => accepts d != negated) :: readGlob none cs
      | some (negated, accepts), '\\', c :: cs =>
          readGlob (some (negated, fun d => accepts d || d = c)) cs
      | some (negated, accepts), a, '-' :: b :: cs =>
          readGlob (some (negated, fun d => accepts d || (min a b ≤ d && d ≤ max a b))) cs
      | some (negated, accepts), c, cs => readGlob (some (negated, fun d => accepts d || d = c)) cs

def Glob.matches : List Glob → List Char → Bool
  | [], text => text.isEmpty
  | .anyText :: globs, text => text.tails.any (Glob.matches globs)
  | .one _ :: _, [] => false
  | .one accepts :: globs, c :: text => accepts c && Glob.matches globs text

def globMatches (pattern key : String) : Bool :=
  Glob.matches (readGlob none pattern.toList) key.toList

/-- The characters that are not read as themselves. -/
def globSpecials : List Char := ['*', '?', '\\', '[']

theorem readGlob_literal {c : Char} (h : c ∉ globSpecials) (cs : List Char) :
    readGlob none (c :: cs) = .one (fun d => d = c) :: readGlob none cs := by
  simp only [globSpecials, List.mem_cons, List.not_mem_nil, or_false, not_or] at h
  obtain ⟨hstar, hany, hescape, hclass⟩ := h
  rw [readGlob]
  all_goals
    intros
    contradiction

/-- A pattern that is plain text and a star matches the keys that begin with the text. -/
theorem globMatches_star {text key : String} (h : ∀ c ∈ text.toList, c ∉ globSpecials) :
    globMatches (text ++ "*") key = true ↔ ∃ rest, key = text ++ rest := by
  have hlist : ∀ {cs ds : List Char}, (∀ c ∈ cs, c ∉ globSpecials) →
      (Glob.matches (readGlob none (cs ++ ['*'])) ds = true ↔ ∃ rest, ds = cs ++ rest) := by
    intro cs
    -- by induction on the plain characters in front of the star
    induction cs with
    | nil =>
        intro ds _
        show ds.tails.any (Glob.matches []) = true ↔ _
        rw [List.any_eq_true]
        constructor
        · intro _
          exact ⟨ds, rfl⟩
        · intro _
          exact ⟨[], (List.mem_tails [] ds).mpr List.nil_suffix, rfl⟩
    | cons c cs ih =>
        intro ds hplain
        obtain ⟨hc, hcs⟩ := List.forall_mem_cons.mp hplain
        rw [List.cons_append, readGlob_literal hc]
        cases ds with
        | nil => simp [Glob.matches]
        | cons d ds =>
            rw [Glob.matches, Bool.and_eq_true, decide_eq_true_eq, ih hcs]
            simp
  rw [globMatches, String.toList_append, show "*".toList = ['*'] from rfl, hlist h]
  constructor
  · rintro ⟨rest, hrest⟩
    refine ⟨String.ofList rest, String.toList_injective ?_⟩
    rw [hrest, String.toList_append, String.toList_ofList]
  · rintro ⟨rest, rfl⟩
    exact ⟨rest.toList, String.toList_append⟩

/-! ## Cycles -/

structure ScanReply where
  cursor : String
  keys : List String

/-- A call of `SCAN`: its arguments, the key space at that time, and the reply. -/
structure ScanCall where
  cursor : String
  pattern : String
  store : Store
  reply : ScanReply

/-- The calls from `cursor` on, until Redis returns "0". -/
def CycleFrom (cursor : String) : List ScanCall → Prop
  | [] => False
  | call :: calls => call.cursor = cursor ∧
      (call.reply.cursor = "0" ∧ calls = [] ∨
        call.reply.cursor ≠ "0" ∧ CycleFrom call.reply.cursor calls)

structure FullCycle (pattern : String) (calls : List ScanCall) : Prop where
  chain : CycleFrom "0" calls
  samePattern : ∀ call ∈ calls, call.pattern = pattern

def Returned (calls : List ScanCall) (key : String) : Prop :=
  ∃ call ∈ calls, key ∈ call.reply.keys

/-- What Redis promises of the calls. -/
structure Promised (calls : List ScanCall) : Prop where
  matching : ∀ call ∈ calls, ∀ key ∈ call.reply.keys, globMatches call.pattern key = true
  complete : ∀ pattern, FullCycle pattern calls → ∀ key, globMatches pattern key = true →
    (∀ call ∈ calls, call.store key ≠ none) → Returned calls key

/-! ## Deleting along the way -/

/-- `DEL` of several keys. -/
def Store.delAll (s : Store) (keys : List String) : Store := keys.foldl Store.del s

theorem Store.delAll_apply (s : Store) (keys : List String) (key : String) :
    s.delAll keys key = if key ∈ keys then none else s key := by
  unfold Store.delAll
  induction keys generalizing s with
  | nil => simp
  | cons k keys ih =>
      rw [List.foldl_cons, ih]
      by_cases hmem : key ∈ keys
      · rw [if_pos hmem, if_pos (List.mem_cons_of_mem _ hmem)]
      · rw [if_neg hmem]
        by_cases hk : key = k
        · subst hk
          rw [if_pos (List.mem_cons_self ..), Store.del, Store.set_self]
        · rw [Store.del_of_ne hk, if_neg]
          rintro (_ | ⟨_, htail⟩)
          · exact hk rfl
          · exact hmem htail

/-- Each call is made on what the `DEL` after the one before has left. -/
def Sweeps (s : Store) : List ScanCall → Store → Prop
  | [], t => t = s
  | call :: calls, t => call.store = s ∧ Sweeps (s.delAll call.reply.keys) calls t

section Sweeps

variable {s t : Store} {calls : List ScanCall} {pattern key : String}

theorem returned_cons {call : ScanCall} :
    Returned (call :: calls) key ↔ key ∈ call.reply.keys ∨ Returned calls key := by
  simp [Returned]

/-- A key that is not returned stays as it is throughout. -/
theorem Sweeps.keeps (h : Sweeps s calls t) (hno : ¬ Returned calls key) :
    t key = s key ∧ ∀ call ∈ calls, call.store key = s key := by
  induction calls generalizing s with
  | nil =>
      rw [show t = s from h]
      simp
  | cons call calls ih =>
      obtain ⟨hstore, hrest⟩ := h
      rw [returned_cons, not_or] at hno
      have hsame : s.delAll call.reply.keys key = s key := by
        rw [Store.delAll_apply, if_neg hno.1]
      obtain ⟨ht, hcalls⟩ := ih hrest hno.2
      rw [hsame] at ht hcalls
      refine ⟨ht, ?_⟩
      intro call' hmem
      rcases List.mem_cons.mp hmem with rfl | hmem
      · rw [hstore]
      · exact hcalls call' hmem

/-- A key that is returned is gone in the end: nothing puts it back. -/
theorem Sweeps.deletes (h : Sweeps s calls t) (hreturned : Returned calls key) : t key = none := by
  induction calls generalizing s with
  | nil =>
      obtain ⟨call, hmem, -⟩ := hreturned
      cases hmem
  | cons call calls ih =>
      obtain ⟨-, hrest⟩ := h
      by_cases hlater : Returned calls key
      · exact ih hrest hlater
      · have hnow := (returned_cons.mp hreturned).resolve_right hlater
        rw [(hrest.keeps hlater).1, Store.delAll_apply, if_pos hnow]

/-- **A full cycle of `SCAN` and `DEL` leaves no key that matches.** -/
theorem Sweeps.clears (h : Sweeps s calls t) (hpromised : Promised calls)
    (hcycle : FullCycle pattern calls) (hkey : globMatches pattern key = true) : t key = none := by
  by_contra hthere
  have hno : ¬ Returned calls key := fun hreturned => hthere (h.deletes hreturned)
  obtain ⟨ht, hcalls⟩ := h.keeps hno
  -- the key was there at every call, so one of them has returned it
  refine hno (hpromised.complete pattern hcycle key hkey ?_)
  intro call hmem
  rw [hcalls call hmem, ← ht]
  exact hthere

/-- **Other keys stay.** -/
theorem Sweeps.leaves (h : Sweeps s calls t) (hpromised : Promised calls)
    (hpattern : ∀ call ∈ calls, call.pattern = pattern) (hkey : globMatches pattern key = false) :
    t key = s key := by
  refine (h.keeps ?_).1
  rintro ⟨call, hmem, hreturned⟩
  have hmatches := hpromised.matching call hmem key hreturned
  rw [hpattern call hmem, hkey] at hmatches
  cases hmatches

end Sweeps

end Redis
