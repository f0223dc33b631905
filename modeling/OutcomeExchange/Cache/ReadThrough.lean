import Mathlib.Data.Set.Function
import Mathlib.Logic.Function.Basic
import OutcomeExchange.Txn.System

set_option autoImplicit false

/-! # Read-through caches

Requests look a key up in a cache whose entries expire. Where the cache has nothing, a request
asks the source, writes down what it has found, and answers it. The source changes in any way,
the cache may fail at every access and forget every entry, and the steps of different requests
interleave.

`past` is everything that the source has been, with the instants. What a request answers is what
the source has held at one of them, and `answers_settle` says how long ago at most. -/

namespace Cache

open Txn

variable {σ κ ρ α τ : Type}

/-- Where values come from, and how the cache holds them. -/
structure Source (σ κ ρ α τ : Type) where
  find : σ → κ → Option α
  slot : κ → ρ
  slot_injective : Function.Injective slot
  encode : α → τ
  /-- an entry that cannot be read counts as missing -/
  decode : τ → Option α
  decode_encode : ∀ {v w}, decode (encode v) = some w → w = v

/-- What a request is about to do. -/
inductive Stage (α : Type)
  | get
  | query
  /-- the source has answered `v` at `readAt` -/
  | set (v : α) (readAt : ℕ)

structure Request (κ α : Type) where
  key : κ
  since : ℕ
  stage : Stage α

/-- The answer to a request that began at `since`. -/
structure Answer (κ α : Type) where
  key : κ
  since : ℕ
  value : Option α

structure State (σ κ ρ α τ : Type) where
  now : ℕ
  source : σ
  /-- the entries, with the last instant of each -/
  entries : ρ → Option (τ × ℕ)
  requests : ℕ → Option (Request κ α)
  past : List (ℕ × σ)
  answers : List (Answer κ α)

inductive Event (σ κ ρ : Type)
  | wait (ms : ℕ)
  | change (s : σ)
  | evict (r : ρ)
  | begin (i : ℕ) (key : κ)
  /-- the request takes its next step; `works` says whether the cache does -/
  | step (i : ℕ) (works : Bool)
  /-- the request ends without an answer -/
  | fail (i : ℕ)

namespace State

/-- The state with another rest of request `i`. -/
def put (c : State σ κ ρ α τ) (i : ℕ) (r : Option (Request κ α)) : State σ κ ρ α τ :=
  { c with requests := Function.update c.requests i r }

/-- Request `i` has been answered. -/
def answer (c : State σ κ ρ α τ) (i : ℕ) (r : Request κ α) (value : Option α) :
    State σ κ ρ α τ :=
  { c with
    requests := Function.update c.requests i none
    answers := ⟨r.key, r.since, value⟩ :: c.answers }

variable [DecidableEq ρ] (S : Source σ κ ρ α τ) (lifetime : ℕ)

/-- What the cache holds for a key. -/
def cached (c : State σ κ ρ α τ) (key : κ) : Option α :=
  match c.entries (S.slot key) with
  | none => none
  | some (text, last) => if c.now ≤ last then S.decode text else none

/-- One step of a request. -/
def stepRequest (c : State σ κ ρ α τ) (i : ℕ) (r : Request κ α) (works : Bool) :
    State σ κ ρ α τ :=
  match r.stage with
  | .get =>
      match if works then c.cached S r.key else none with
      | some v => c.answer i r (some v)
      | none => c.put i (some { r with stage := .query })
  | .query =>
      match S.find c.source r.key with
      | none => c.answer i r none
      | some v => c.put i (some { r with stage := .set v c.now })
  | .set v _ =>
      let entries :=
        if works then
          Function.update c.entries (S.slot r.key) (some (S.encode v, c.now + lifetime))
        else c.entries
      { c with entries := entries }.answer i r (some v)

def next (c : State σ κ ρ α τ) : Event σ κ ρ → Option (State σ κ ρ α τ)
  | .wait ms => some { c with now := c.now + ms, past := (c.now + ms, c.source) :: c.past }
  | .change s => some { c with source := s, past := (c.now, s) :: c.past }
  | .evict r => some { c with entries := Function.update c.entries r none }
  | .begin i key =>
      match c.requests i with
      | some _ => none
      | none => some (c.put i (some ⟨key, c.now, .get⟩))
  | .step i works =>
      match c.requests i with
      | none => none
      | some r => some (c.stepRequest S lifetime i r works)
  | .fail i =>
      match c.requests i with
      | none => none
      | some _ => some (c.put i none)

end State

/-- Initially the cache is empty and no request has begun. -/
structure Starts (c : State σ κ ρ α τ) : Prop where
  entries : ∀ r, c.entries r = none
  requests : ∀ i, c.requests i = none
  past : c.past = [(c.now, c.source)]
  answers : c.answers = []

/-- Any number of requests, the source, and the cache. -/
def readThrough [DecidableEq ρ] (S : Source σ κ ρ α τ) (lifetime : ℕ) :
    System (State σ κ ρ α τ) (Event σ κ ρ) where
  init := Starts
  step c e c' := c.next S lifetime e = some c'

/-- A request writes down what it has read within `delay` of having read it. -/
def Prompt (delay : ℕ) (c : State σ κ ρ α τ) : Event σ κ ρ → Prop
  | .step i true => ∀ r v readAt, c.requests i = some r → r.stage = .set v readAt →
      c.now ≤ readAt + delay
  | _ => True

/-! ## Where values come from -/

/-- The source has had this answer for the key, not before `t`. -/
def HeldSince (S : Source σ κ ρ α τ) (past : List (ℕ × σ)) (key : κ) (value : Option α) (t : ℕ) :
    Prop :=
  ∃ r s, (r, s) ∈ past ∧ S.find s key = value ∧ t ≤ r

section Held

variable {S : Source σ κ ρ α τ} {past past' : List (ℕ × σ)} {key : κ} {value : Option α}
  {t t' : ℕ}

theorem HeldSince.later (h : HeldSince S past key value t) (hpast : past ⊆ past') :
    HeldSince S past' key value t := by
  obtain ⟨r, s, hmem, hfind, ht⟩ := h
  exact ⟨r, s, hpast hmem, hfind, ht⟩

theorem HeldSince.earlier (h : HeldSince S past key value t) (ht : t' ≤ t) :
    HeldSince S past key value t' := by
  obtain ⟨r, s, hmem, hfind, hr⟩ := h
  exact ⟨r, s, hmem, hfind, by omega⟩

end Held

/-- What a request has read, and at which instant. -/
def Request.Sound (S : Source σ κ ρ α τ) (past : List (ℕ × σ)) (r : Request κ α) : Prop :=
  match r.stage with
  | .set v readAt => r.since ≤ readAt ∧ HeldSince S past r.key (some v) readAt
  | _ => True

/-- An answer is as old as an entry can be; that there is no value is not held by the cache. -/
def Answer.Sound (S : Source σ κ ρ α τ) (age : ℕ) (past : List (ℕ × σ)) (a : Answer κ α) : Prop :=
  match a.value with
  | none => HeldSince S past a.key none a.since
  | some v => HeldSince S past a.key (some v) (a.since - age)

/-- The invariant. -/
structure Sound (S : Source σ κ ρ α τ) (lifetime delay : ℕ) (c : State σ κ ρ α τ) : Prop where
  present : (c.now, c.source) ∈ c.past
  entries : ∀ key text last v, c.entries (S.slot key) = some (text, last) →
    S.decode text = some v → HeldSince S c.past key (some v) (last - (lifetime + delay))
  since : ∀ i r, c.requests i = some r → r.since ≤ c.now
  requests : ∀ i r, c.requests i = some r → r.Sound S c.past
  answers : ∀ a ∈ c.answers, a.Sound S (lifetime + delay) c.past

section Invariant

variable {S : Source σ κ ρ α τ} {lifetime delay : ℕ} {c c' : State σ κ ρ α τ} {i : ℕ}
  {r : Request κ α}

theorem Request.Sound.later {past past' : List (ℕ × σ)} (h : r.Sound S past)
    (hpast : past ⊆ past') : r.Sound S past' := by
  unfold Request.Sound at h ⊢
  split at h
  · exact ⟨h.1, h.2.later hpast⟩
  · trivial

theorem Answer.Sound.later {past past' : List (ℕ × σ)} {age : ℕ} {a : Answer κ α}
    (h : a.Sound S age past) (hpast : past ⊆ past') : a.Sound S age past' := by
  unfold Answer.Sound at h ⊢
  split at h
  · exact h.later hpast
  · exact h.later hpast

/-- The clock goes on, or the source changes. -/
theorem Sound.later (h : Sound S lifetime delay c) {now : ℕ} {source : σ} (hnow : c.now ≤ now) :
    Sound S lifetime delay
      { c with now := now, source := source, past := (now, source) :: c.past } := by
  have hpast : c.past ⊆ (now, source) :: c.past := List.subset_cons_self _ _
  constructor
  · exact List.mem_cons_self
  · intro key text last v hentry hdecode
    exact (h.entries key text last v hentry hdecode).later hpast
  · intro i r hr
    have hsince := h.since i r hr
    show r.since ≤ now
    omega
  · exact fun i r hr => (h.requests i r hr).later hpast
  · exact fun a ha => (h.answers a ha).later hpast

/-- A request goes on, or ends without an answer. -/
theorem Sound.put (h : Sound S lifetime delay c) {o : Option (Request κ α)}
    (hsince : ∀ r, o = some r → r.since ≤ c.now) (hsound : ∀ r, o = some r → r.Sound S c.past) :
    Sound S lifetime delay (c.put i o) := by
  have hcases : ∀ j r, Function.update c.requests i o j = some r →
      o = some r ∨ c.requests j = some r := by
    intro j r hr
    by_cases hj : j = i
    · subst hj
      rw [Function.update_self] at hr
      exact Or.inl hr
    · rw [Function.update_of_ne hj] at hr
      exact Or.inr hr
  refine ⟨h.present, h.entries, fun j r hr => ?_, fun j r hr => ?_, h.answers⟩
  · exact (hcases j r hr).elim (hsince r) (h.since j r)
  · exact (hcases j r hr).elim (hsound r) (h.requests j r)

theorem Sound.answer (h : Sound S lifetime delay c) {value : Option α}
    (hvalue : (⟨r.key, r.since, value⟩ : Answer κ α).Sound S (lifetime + delay) c.past) :
    Sound S lifetime delay (c.answer i r value) := by
  have hrest := h.put (i := i) (o := none) (fun _ hr => by cases hr) (fun _ hr => by cases hr)
  refine ⟨hrest.present, hrest.entries, hrest.since, hrest.requests, fun a ha => ?_⟩
  rcases List.mem_cons.mp ha with rfl | ha
  · exact hvalue
  · exact h.answers a ha

/-- What the cache holds is as old as an entry can be. -/
theorem Sound.cached (h : Sound S lifetime delay c) {key : κ} {v : α}
    (hcached : c.cached S key = some v) :
    HeldSince S c.past key (some v) (c.now - (lifetime + delay)) := by
  unfold State.cached at hcached
  cases hentry : c.entries (S.slot key) with
  | none => rw [hentry] at hcached; cases hcached
  | some entry =>
      obtain ⟨text, last⟩ := entry
      rw [hentry] at hcached
      dsimp only at hcached
      by_cases hlast : c.now ≤ last
      · rw [if_pos hlast] at hcached
        exact (h.entries key text last v hentry hcached).earlier (by omega)
      · rw [if_neg hlast] at hcached
        cases hcached

variable [DecidableEq ρ]

/-- What a request writes down is what it has read, not long ago. -/
theorem Sound.write (h : Sound S lifetime delay c) {v : α} {readAt : ℕ} {key : κ}
    (hheld : HeldSince S c.past key (some v) readAt) (hprompt : c.now ≤ readAt + delay) :
    Sound S lifetime delay
      { c with
        entries := Function.update c.entries (S.slot key)
          (some (S.encode v, c.now + lifetime)) } := by
  refine ⟨h.present, fun key' text last w hentry hdecode => ?_, h.since, h.requests, h.answers⟩
  by_cases hslot : S.slot key' = S.slot key
  · dsimp only at hentry
    rw [hslot, Function.update_self] at hentry
    cases hentry
    obtain rfl := S.slot_injective hslot
    obtain rfl := S.decode_encode hdecode
    exact hheld.earlier (by omega)
  · dsimp only at hentry
    rw [Function.update_of_ne hslot] at hentry
    exact h.entries key' text last w hentry hdecode

/-- **The step lemma for requests**, one case for each stage. -/
theorem Sound.stepRequest (h : Sound S lifetime delay c) (hr : c.requests i = some r)
    {works : Bool} (hprompt : works = true → ∀ v readAt, r.stage = .set v readAt →
      c.now ≤ readAt + delay) :
    Sound S lifetime delay (c.stepRequest S lifetime i r works) := by
  have hsince := h.since i r hr
  have hsound := h.requests i r hr
  unfold State.stepRequest
  -- the stages of a request
  cases hstage : r.stage with
  | get =>
      dsimp only
      cases hcached : (if works then c.cached S r.key else none) with
      | some v =>
          refine h.answer ?_
          cases works with
          | false => cases hcached
          | true => exact (h.cached hcached).earlier (by dsimp only; omega)
      | none =>
          refine h.put (fun r' hr' => ?_) (fun r' hr' => ?_)
          · cases hr'
            exact hsince
          · cases hr'
            trivial
  | query =>
      dsimp only
      cases hfind : S.find c.source r.key with
      | none => exact h.answer ⟨c.now, c.source, h.present, hfind, hsince⟩
      | some v =>
          refine h.put (fun r' hr' => ?_) (fun r' hr' => ?_)
          · cases hr'
            exact hsince
          · cases hr'
            exact ⟨hsince, c.now, c.source, h.present, hfind, Nat.le_refl _⟩
  | set v readAt =>
      unfold Request.Sound at hsound
      rw [hstage] at hsound
      obtain ⟨hread, hheld⟩ := hsound
      dsimp only
      refine Sound.answer ?_ (hheld.earlier (by dsimp only; omega))
      cases works with
      | false => exact h
      | true => exact h.write hheld (hprompt rfl v readAt hstage)

/-- **The step lemma.** -/
theorem Sound.next {e : Event σ κ ρ} (h : Sound S lifetime delay c) (hprompt : Prompt delay c e)
    (hnext : c.next S lifetime e = some c') : Sound S lifetime delay c' := by
  cases e with
  | wait ms =>
      cases hnext
      exact h.later (by omega)
  | change s =>
      cases hnext
      exact h.later (Nat.le_refl _)
  | evict slot =>
      cases hnext
      -- what is evicted makes no claim any more
      refine ⟨h.present, fun key text last v hentry hdecode => ?_, h.since, h.requests, h.answers⟩
      by_cases hslot : S.slot key = slot
      · dsimp only at hentry
        rw [hslot, Function.update_self] at hentry
        cases hentry
      · dsimp only at hentry
        rw [Function.update_of_ne hslot] at hentry
        exact h.entries key text last v hentry hdecode
  | begin i key =>
      simp only [State.next] at hnext
      cases hi : c.requests i with
      | some r => rw [hi] at hnext; cases hnext
      | none =>
          rw [hi] at hnext
          cases hnext
          refine h.put (fun r' hr' => ?_) (fun r' hr' => ?_)
          · cases hr'
            exact Nat.le_refl _
          · cases hr'
            trivial
  | step i works =>
      simp only [State.next] at hnext
      cases hi : c.requests i with
      | none => rw [hi] at hnext; cases hnext
      | some r =>
          rw [hi] at hnext
          cases hnext
          refine h.stepRequest hi fun hworks v readAt hstage => ?_
          subst hworks
          exact hprompt r v readAt hi hstage
  | fail i =>
      simp only [State.next] at hnext
      cases hi : c.requests i with
      | none => rw [hi] at hnext; cases hnext
      | some r =>
          rw [hi] at hnext
          cases hnext
          exact h.put (fun _ hr => by cases hr) (fun _ hr => by cases hr)

/-- The next step of a request, as a run. -/
theorem run_step (hr : c.requests i = some r) {works : Bool}
    (hprompt : ∀ v readAt, r.stage = .set v readAt → c.now ≤ readAt + delay) :
    ((readThrough S lifetime).restrict (Prompt delay)).Run c [.step i works]
      (c.stepRequest S lifetime i r works) := by
  refine System.Run.single ⟨?_, ?_⟩
  · cases works with
    | false => trivial
    | true =>
        intro r' v readAt hr' hstage
        rw [hr] at hr'
        cases hr'
        exact hprompt v readAt hstage
  · show c.next S lifetime (.step i works) = _
    rw [State.next, hr]

theorem sound_of_reachable (h : ((readThrough S lifetime).restrict (Prompt delay)).Reachable c) :
    Sound S lifetime delay c := by
  refine h.invariant (Sound S lifetime delay) (fun c hc => ?_) (fun c e c' hsound hst => ?_)
  · refine ⟨?_, fun key text last v hentry => ?_, fun i r hr => ?_, fun i r hr => ?_, ?_⟩
    · rw [hc.past]
      exact List.mem_singleton.mpr rfl
    · rw [hc.entries] at hentry
      cases hentry
    · rw [hc.requests] at hr
      cases hr
    · rw [hc.requests] at hr
      cases hr
    · rw [hc.answers]
      exact fun a ha => absurd ha List.not_mem_nil
  · exact hsound.next hst.1 hst.2

/-- **Answers settle.** What the source has answered at every instant from `t` on, a request
answers that begins after an entry written before can have expired. -/
theorem answers_settle (h : ((readThrough S lifetime).restrict (Prompt delay)).Reachable c)
    {P : Option α → Prop} {key : κ} {t : ℕ}
    (hP : ∀ r s, (r, s) ∈ c.past → t ≤ r → P (S.find s key)) {a : Answer κ α}
    (ha : a ∈ c.answers) (hkey : a.key = key) (ht : t + (lifetime + delay) ≤ a.since) :
    P a.value := by
  have hsound := (sound_of_reachable h).answers a ha
  unfold Answer.Sound at hsound
  cases hvalue : a.value with
  | none =>
      rw [hvalue] at hsound
      obtain ⟨r, s, hmem, hfind, hr⟩ := hsound
      rw [← hfind, hkey]
      exact hP r s hmem (by omega)
  | some v =>
      rw [hvalue] at hsound
      obtain ⟨r, s, hmem, hfind, hr⟩ := hsound
      rw [← hfind, hkey]
      exact hP r s hmem (by omega)

/-! ## Runs that can be computed -/

/-- `Prompt`, as a test. -/
def State.prompt (delay : ℕ) (c : State σ κ ρ α τ) : Event σ κ ρ → Bool
  | .step i true =>
      match c.requests i with
      | some ⟨_, _, .set _ readAt⟩ => decide (c.now ≤ readAt + delay)
      | _ => true
  | _ => true

omit [DecidableEq ρ] in
theorem prompt_of_test {e : Event σ κ ρ} (h : c.prompt delay e = true) : Prompt delay c e := by
  cases e with
  | step i works =>
      cases works with
      | false => trivial
      | true =>
          intro r v readAt hr hstage
          obtain ⟨key, since, stage⟩ := r
          dsimp only at hstage
          subst hstage
          rw [State.prompt, hr] at h
          exact of_decide_eq_true h
  | _ => trivial

/-- The events one after the other. -/
def State.play (S : Source σ κ ρ α τ) (lifetime delay : ℕ) :
    List (Event σ κ ρ) → State σ κ ρ α τ → Option (State σ κ ρ α τ)
  | [], c => some c
  | e :: es, c =>
      if c.prompt delay e then (c.next S lifetime e).bind (play S lifetime delay es) else none

theorem reachable_of_play {es : List (Event σ κ ρ)}
    (hc : ((readThrough S lifetime).restrict (Prompt delay)).Reachable c)
    (h : c.play S lifetime delay es = some c') :
    ((readThrough S lifetime).restrict (Prompt delay)).Reachable c' := by
  induction es generalizing c with
  | nil =>
      cases h
      exact hc
  | cons e es ih =>
      rw [State.play] at h
      by_cases hprompt : c.prompt delay e = true
      · rw [if_pos hprompt] at h
        obtain ⟨c₁, hnext, hrest⟩ := Option.bind_eq_some_iff.mp h
        exact ih (.step hc ⟨prompt_of_test hprompt, hnext⟩) hrest
      · rw [if_neg hprompt] at h
        cases h

end Invariant

end Cache
