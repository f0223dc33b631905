import OutcomeExchange.Txn.Deadlock

set_option autoImplicit false

/-! # Schedules

Interleavings that can be computed: a list of events is played on a list of sessions, as long
as a condition on each event holds (`Conf.play`). What is played is a run (`run_of_play`). -/

namespace Txn

variable {σ ρ ε α κ : Type} {S : Store σ ρ} [DecidableEq ρ]

instance Prog.decidableNeeds (s : σ) : (p : Prog S ε α) → (r : ρ) → Decidable (p.Needs s r)
  | .pure _, _ => isFalse id
  | .throw _, _ => isFalse id
  | .selectForUpdate r _, r' =>
      inferInstanceAs (Decidable (r' = r ∧ S.present r (S.slice r s) = true))
  | .select _, _ => isFalse id
  | .selectSkipLocked _ _, _ => isFalse id
  | .write u _, r' => inferInstanceAs (Decidable (r' ∈ u.rows))

/-- The session after its next statement, if it can take it. -/
def Session.advance (busy : ρ → Bool) (s : σ) (x : Session S ε α κ) :
    Option (Session S ε α κ) :=
  match x.rest with
  | .pure _ => none
  | .throw _ => none
  | .selectForUpdate r k =>
      if S.present r (S.slice r s) then
        if busy r then none
        else some { x with rest := k (S.slice r s), held := r :: x.held }
      else some { x with rest := k (S.slice r s) }
  | .select k => some { x with rest := k s }
  | .selectSkipLocked q k =>
      match q.first s ((q.scan s).filter fun r => !busy r) with
      | none => some { x with rest := k none }
      | some r =>
          some { x with
            rest := k (some r)
            held := ((q.scan s).filter fun r => !busy r) ++ x.held }
  | .write u k =>
      if u.rows.any busy then none
      else
        match u.apply s with
        | .error _ => none
        | .ok _ => some { x with
            rest := k
            pending := x.pending ++ [u]
            held := u.rows ++ x.held }

omit [DecidableEq ρ] in
theorem Session.advance_next {busy : ρ → Bool} {s : σ} {x x' : Session S ε α κ}
    (h : x.advance busy s = some x') : x.Next (fun r => busy r = true) s x' := by
  unfold Session.advance at h
  -- the statement that is next
  cases hrest : x.rest with
  | pure a => rw [hrest] at h; cases h
  | throw e => rw [hrest] at h; cases h
  | selectForUpdate r k =>
      rw [hrest] at h
      dsimp only at h
      by_cases hthere : S.present r (S.slice r s) = true
      · rw [if_pos hthere] at h
        by_cases hbusy : busy r = true
        · rw [if_pos hbusy] at h
          cases h
        · rw [if_neg hbusy] at h
          cases h
          exact .lock hrest hbusy hthere
      · rw [if_neg hthere] at h
        cases h
        exact .missing hrest (Bool.eq_false_of_not_eq_true hthere)
  | select k =>
      rw [hrest] at h
      cases h
      exact .select hrest
  | selectSkipLocked q k =>
      have hreturns := q.returns_first busy s
      rw [hrest] at h
      dsimp only at h
      cases hfirst : q.first s ((q.scan s).filter fun r => !busy r) with
      | none =>
          rw [hfirst] at h hreturns
          cases h
          exact .skip hrest hreturns
      | some r =>
          rw [hfirst] at h hreturns
          cases h
          exact .pick hrest hreturns fun r' => by simp
  | write u k =>
      rw [hrest] at h
      dsimp only at h
      by_cases hbusy : u.rows.any busy = true
      · rw [if_pos hbusy] at h
        cases h
      rw [if_neg hbusy] at h
      cases happly : u.apply s with
      | error e =>
          rw [happly] at h
          cases h
      | ok t =>
          rw [happly] at h
          cases h
          refine .write hrest (fun r hr hb => hbusy ?_) happly
          exact List.any_eq_true.mpr ⟨r, hr, hb⟩

/-! ## Sessions in a list -/

/-- The sessions of a list, by their position in it. -/
def Conf.ofList (s : σ) (l : List (Option (Session S ε α κ))) : Conf S ε α κ :=
  ⟨s, fun i => l[i]?.join⟩

/-- Row `r` is held by a session of the list other than session `i`. -/
def heldByOther (l : List (Option (Session S ε α κ))) (i : ℕ) (r : ρ) : Bool :=
  (List.range l.length).any fun j =>
    j ≠ i && (l[j]?.join).any fun y => decide (r ∈ y.held)

section Lists

variable {s : σ} {l : List (Option (Session S ε α κ))} {i : ℕ}

omit [DecidableEq ρ] in
theorem Conf.ofList_set (hi : i < l.length) (z : Option (Session S ε α κ)) :
    (⟨s, Function.update (Conf.ofList s l).session i z⟩ : Conf S ε α κ) =
      Conf.ofList s (l.set i z) := by
  have hupdate : Function.update (Conf.ofList s l).session i z =
      (Conf.ofList s (l.set i z)).session := by
    funext j
    by_cases hj : j = i
    · subst hj
      simp [Conf.ofList, hi]
    · have hij : i ≠ j := Ne.symm hj
      simp [Conf.ofList, Function.update_of_ne hj, hij]
  rw [hupdate]
  rfl

theorem lockedByOther_ofList :
    (Conf.ofList s l).lockedByOther i = fun r => heldByOther l i r = true := by
  funext r
  refine propext ?_
  unfold Conf.lockedByOther heldByOther
  simp only [List.any_eq_true, List.mem_range, Bool.and_eq_true, decide_eq_true_eq,
    Option.any_eq_true]
  constructor
  · rintro ⟨j, y, hj, hy, hr⟩
    refine ⟨j, ?_, hj, y, hy, hr⟩
    by_contra hlen
    have hnone : l[j]? = none := List.getElem?_eq_none (not_lt.mp hlen)
    rw [show (Conf.ofList s l).session j = l[j]?.join from rfl, hnone] at hy
    cases hy
  · rintro ⟨j, -, hj, y, hy, hr⟩
    exact ⟨j, y, hj, hy, hr⟩

end Lists

/-! ## Playing a schedule -/

/-- One event on a list of sessions. -/
def Conf.playEvent (body : κ → Prog S ε α) (s : σ) (l : List (Option (Session S ε α κ))) :
    Event κ → Option (σ × List (Option (Session S ε α κ)))
  | .begin i k =>
      match l[i]? with
      | some none => some (s, l.set i (some ⟨k, body k, [], []⟩))
      | _ => none
  | .statement i =>
      match l[i]?.join with
      | none => none
      | some x =>
          match x.view s with
          | .error _ => none
          | .ok u => (x.advance (heldByOther l i) u).map fun x' => (s, l.set i (some x'))
  | .commit i =>
      match l[i]?.join with
      | none => none
      | some x =>
          match x.rest, x.view s with
          | .pure _, .ok u => some (u, l.set i none)
          | _, _ => none
  | .abort i => if (l[i]?.join).isSome then some (s, l.set i none) else none

/-- The events one after the other, as long as `D` allows each. -/
def Conf.play (body : κ → Prog S ε α) (D : σ → List (Option (Session S ε α κ)) → Event κ → Bool) :
    List (Event κ) → σ → List (Option (Session S ε α κ)) →
      Option (σ × List (Option (Session S ε α κ)))
  | [], s, l => some (s, l)
  | e :: es, s, l =>
      if D s l e then (Conf.playEvent body s l e).bind fun c => Conf.play body D es c.1 c.2
      else none

section Play

variable {body : κ → Prog S ε α} {start : σ → κ → Prop} {s s' : σ}
  {l l' : List (Option (Session S ε α κ))}

omit [DecidableEq ρ] in
/-- Where a position of the list holds a session, it is a position of the list. -/
theorem lt_length_of_join {i : ℕ} {x : Session S ε α κ} (h : l[i]?.join = some x) :
    i < l.length := by
  by_contra hlen
  rw [List.getElem?_eq_none (not_lt.mp hlen)] at h
  cases h

theorem step_of_playEvent {e : Event κ} (hstart : ∀ i k, e = .begin i k → start s k)
    (h : Conf.playEvent body s l e = some (s', l')) :
    Conf.Step body start (Conf.ofList s l) e (Conf.ofList s' l') := by
  -- what the play refuses is not played, and what it plays is a step
  cases e with
  | begin i k =>
      simp only [Conf.playEvent] at h
      cases hnew : l[i]? with
      | none => rw [hnew] at h; cases h
      | some o =>
          cases o with
          | some x => rw [hnew] at h; cases h
          | none =>
              rw [hnew] at h
              cases h
              obtain ⟨hi, -⟩ := List.getElem?_eq_some_iff.mp hnew
              rw [← Conf.ofList_set hi]
              refine .begin ?_ (hstart i k rfl)
              show l[i]?.join = none
              rw [hnew]
              rfl
  | statement i =>
      simp only [Conf.playEvent] at h
      cases hx : l[i]?.join with
      | none => rw [hx] at h; cases h
      | some x =>
          rw [hx] at h
          dsimp only at h
          cases hview : x.view s with
          | error e => rw [hview] at h; cases h
          | ok u =>
              rw [hview] at h
              obtain ⟨x', hadvance, heq⟩ := Option.map_eq_some_iff.mp h
              cases heq
              rw [← Conf.ofList_set (lt_length_of_join hx)]
              refine .statement (x := x) hx hview ?_
              rw [lockedByOther_ofList]
              exact Session.advance_next hadvance
  | commit i =>
      simp only [Conf.playEvent] at h
      cases hx : l[i]?.join with
      | none => rw [hx] at h; cases h
      | some x =>
          rw [hx] at h
          dsimp only at h
          cases hrest : x.rest with
          | pure a =>
              cases hview : x.view s with
              | error e => rw [hrest, hview] at h; cases h
              | ok u =>
                  rw [hrest, hview] at h
                  cases h
                  rw [← Conf.ofList_set (lt_length_of_join hx)]
                  exact .commit (x := x) hx hrest hview
          | _ => rw [hrest] at h; cases h
  | abort i =>
      simp only [Conf.playEvent] at h
      cases hx : l[i]?.join with
      | none => rw [hx] at h; cases h
      | some x =>
          rw [hx] at h
          cases h
          rw [← Conf.ofList_set (lt_length_of_join hx)]
          exact .abort (x := x) hx

/-- **What is played is a run.** -/
theorem run_of_play {init : σ → Prop} {C : Conf S ε α κ → Event κ → Prop}
    {D : σ → List (Option (Session S ε α κ)) → Event κ → Bool}
    (hD : ∀ s l e, D s l e = true → C (Conf.ofList s l) e ∧ ∀ i k, e = .begin i k → start s k)
    {es : List (Event κ)} (h : Conf.play body D es s l = some (s', l')) :
    ((rowLock body start init).restrict C).Run (Conf.ofList s l) es (Conf.ofList s' l') := by
  induction es generalizing s l with
  | nil =>
      cases h
      exact .nil _
  | cons e es ih =>
      simp only [Conf.play] at h
      by_cases hallowed : D s l e = true
      · rw [if_pos hallowed] at h
        obtain ⟨⟨s₁, l₁⟩, hevent, hrest⟩ := Option.bind_eq_some_iff.mp h
        obtain ⟨hC, hstart⟩ := hD s l e hallowed
        have hstep : ((rowLock body start init).restrict C).step (Conf.ofList s l) e
            (Conf.ofList s₁ l₁) := ⟨hC, step_of_playEvent hstart hevent⟩
        exact (System.Run.single hstep).append (ih hrest)
      · rw [if_neg hallowed] at h
        cases h

omit [DecidableEq ρ] in
/-- Before the first event nothing runs. -/
theorem Conf.ofList_idle (s : σ) (n : ℕ) :
    Conf.ofList s (List.replicate n (none : Option (Session S ε α κ))) = Conf.idle s := by
  unfold Conf.ofList Conf.idle
  congr 1
  funext i
  rw [List.getElem?_replicate]
  split <;> rfl

end Play

/-! ## Reading off who waits -/

/-- `Conf.Waits`, as a test on a list of sessions. -/
def waitsIn (s : σ) (l : List (Option (Session S ε α κ))) (i : ℕ) (r : ρ) (j : ℕ) : Bool :=
  (match l[i]?.join with
    | none => false
    | some x =>
        match x.view s with
        | .error _ => false
        | .ok u => decide (x.rest.Needs u r)) &&
  (l[j]?.join).any (fun y => decide (r ∈ y.held)) && decide (j ≠ i)

theorem waits_of_waitsIn {s : σ} {l : List (Option (Session S ε α κ))} {i j : ℕ} {r : ρ}
    (h : waitsIn s l i r j = true) : (Conf.ofList s l).Waits i r j := by
  unfold waitsIn at h
  simp only [Bool.and_eq_true, decide_eq_true_eq, Option.any_eq_true] at h
  obtain ⟨⟨hneeds, hheld⟩, hother⟩ := h
  refine ⟨?_, hheld, hother⟩
  cases hx : l[i]?.join with
  | none => rw [hx] at hneeds; cases hneeds
  | some x =>
      rw [hx] at hneeds
      dsimp only at hneeds
      cases hview : x.view s with
      | error e => rw [hview] at hneeds; cases hneeds
      | ok u =>
          rw [hview] at hneeds
          exact ⟨x, u, hx, hview, of_decide_eq_true hneeds⟩

end Txn
