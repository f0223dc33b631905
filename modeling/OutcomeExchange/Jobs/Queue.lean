import Mathlib.Data.Nat.Notation
import Mathlib.Logic.Function.Basic

set_option autoImplicit false

/-! # Job queues

A queue of jobs with identifiers that are chosen by its users, with the life cycle of
BullMQ: a worker takes a job that is waiting and holds its lock while the job is active; a
completed job is removed; a job whose attempt throws is delayed, or failed after its last
attempt, and a failed job is kept. A job whose worker has died stalls and is waiting again, but a job
that stalls too often fails. -/

namespace Jobs

inductive JobState
  | waiting
  | delayed
  | prioritized
  | active
  | failed
  deriving DecidableEq

/-- A worker will run a job in this state. -/
def JobState.runnable : JobState → Bool
  | .waiting => true
  | .delayed => true
  | .prioritized => true
  | .active => false
  | .failed => false

structure Job (α : Type) where
  data : α
  state : JobState
  attemptsMade : ℕ
  stalledCounter : ℕ

/-- How often a job is attempted and may stall. -/
structure Options where
  attempts : ℕ
  maxStalledCount : ℕ

/-- The jobs by their identifiers. -/
def Queue (α : Type) : Type := String → Option (Job α)

variable {α : Type}

/-- The state of a job after an attempt that has thrown. -/
def Job.afterThrow (opts : Options) (job : Job α) : Job α :=
  { job with
    state := if job.attemptsMade + 1 < opts.attempts then .delayed else .failed
    attemptsMade := job.attemptsMade + 1 }

/-- The state of a job after its worker has died. -/
def Job.afterStall (opts : Options) (job : Job α) : Job α :=
  { job with
    state := if job.stalledCounter + 1 ≤ opts.maxStalledCount then .waiting else .failed
    stalledCounter := job.stalledCounter + 1 }

namespace Queue

def empty : Queue α := fun _ => none

/-- The queue with another job, or none, under `jobId`. -/
def set (q : Queue α) (jobId : String) (job : Option (Job α)) : Queue α :=
  Function.update q jobId job

/-- `add` does nothing if there is a job with this identifier. -/
def add (q : Queue α) (jobId : String) (data : α) : Queue α :=
  match q jobId with
  | none => q.set jobId (some ⟨data, .waiting, 0, 0⟩)
  | some _ => q

/-- `retry` makes a failed job wait again; on any other job it throws. -/
def retry (q : Queue α) (jobId : String) : Queue α :=
  match q jobId with
  | none => q
  | some job => if job.state = .failed then q.set jobId (some { job with state := .waiting }) else q

/-- `remove` throws if a worker holds the lock of the job. -/
def remove (q : Queue α) (jobId : String) : Queue α :=
  match q jobId with
  | none => q
  | some job => if job.state = .active then q else q.set jobId none

/-- A change of one job. -/
def modify (q : Queue α) (jobId : String) (f : Job α → Job α) : Queue α :=
  q.set jobId ((q jobId).map f)

/-- There is a job, and it has not failed. -/
def Alive (q : Queue α) (jobId : String) : Prop :=
  ∃ job, q jobId = some job ∧ job.state ≠ .failed

variable {q : Queue α} {jobId jobId' : String} {data : α}

theorem set_self (job : Option (Job α)) : q.set jobId job jobId = job := Function.update_self ..

theorem set_of_ne (h : jobId' ≠ jobId) (job : Option (Job α)) :
    q.set jobId job jobId' = q jobId' := Function.update_of_ne h ..

theorem add_of_ne (h : jobId' ≠ jobId) : q.add jobId data jobId' = q jobId' := by
  unfold add
  cases q jobId with
  | none => exact set_of_ne h _
  | some job => rfl

theorem add_of_some {job : Job α} (h : q jobId = some job) : q.add jobId data = q := by
  unfold add
  rw [h]

theorem add_of_none (h : q jobId = none) :
    q.add jobId data jobId = some ⟨data, .waiting, 0, 0⟩ := by
  unfold add
  rw [h]
  exact set_self _

theorem retry_of_ne (h : jobId' ≠ jobId) : q.retry jobId jobId' = q jobId' := by
  unfold retry
  cases q jobId with
  | none => rfl
  | some job =>
      by_cases hfailed : job.state = .failed
      · simp only [hfailed, if_true]
        exact set_of_ne h _
      · simp only [hfailed, if_false]

/-- What was not failed before `retry` is as it was. -/
theorem retry_cases (q : Queue α) (jobId : String) : q.retry jobId = q ∨ (q.retry jobId).Alive jobId := by
  unfold retry
  cases q jobId with
  | none => exact Or.inl rfl
  | some job =>
      by_cases hfailed : job.state = .failed
      · simp only [hfailed, if_true]
        exact Or.inr ⟨_, set_self _, by simp⟩
      · simp only [hfailed, if_false]
        exact Or.inl trivial

theorem retry_of_failed {job : Job α} (h : q jobId = some job) (hfailed : job.state = .failed) :
    (q.retry jobId).Alive jobId := by
  unfold retry
  simp only [h, hfailed, if_true]
  exact ⟨_, set_self _, by simp⟩

theorem remove_of_ne (h : jobId' ≠ jobId) : q.remove jobId jobId' = q jobId' := by
  unfold remove
  cases q jobId with
  | none => rfl
  | some job =>
      by_cases hactive : job.state = .active
      · simp only [hactive, if_true]
      · simp only [hactive, if_false]
        exact set_of_ne h _

/-- After `remove` there is no job, unless a worker has it. -/
theorem remove_cases (q : Queue α) (jobId : String) : q.remove jobId jobId = none ∨ (q.remove jobId).Alive jobId := by
  unfold remove
  cases hjob : q jobId with
  | none => exact Or.inl hjob
  | some job =>
      by_cases hactive : job.state = .active
      · simp only [hactive, if_true]
        exact Or.inr ⟨job, hjob, by simp [hactive]⟩
      · simp only [hactive, if_false]
        exact Or.inl (set_self _)

theorem modify_self (f : Job α → Job α) : q.modify jobId f jobId = (q jobId).map f := set_self _

theorem modify_of_ne (h : jobId' ≠ jobId) (f : Job α → Job α) :
    q.modify jobId f jobId' = q jobId' := set_of_ne h _

/-! ### Where a job comes from -/

theorem add_eq_some {job : Job α} (h : q.add jobId data jobId' = some job) :
    q jobId' = some job ∨ (jobId' = jobId ∧ job.data = data) := by
  by_cases hid : jobId' = jobId
  · subst hid
    cases hq : q jobId' with
    | none =>
        rw [add_of_none hq] at h
        cases h
        exact Or.inr ⟨rfl, rfl⟩
    | some job' =>
        rw [add_of_some hq, hq] at h
        exact Or.inl h
  · rw [add_of_ne hid] at h
    exact Or.inl h

theorem modify_eq_some {f : Job α → Job α} (hf : ∀ job, (f job).data = job.data) {job : Job α}
    (h : q.modify jobId f jobId' = some job) : ∃ job', q jobId' = some job' ∧ job.data = job'.data := by
  by_cases hid : jobId' = jobId
  · subst hid
    rw [modify_self, Option.map_eq_some_iff] at h
    obtain ⟨job', hjob', rfl⟩ := h
    exact ⟨job', hjob', hf job'⟩
  · rw [modify_of_ne hid] at h
    exact ⟨job, h, rfl⟩

theorem set_none_eq_some {job : Job α} (h : q.set jobId none jobId' = some job) :
    q jobId' = some job := by
  by_cases hid : jobId' = jobId
  · rw [hid, set_self] at h
    cases h
  · rwa [set_of_ne hid] at h

theorem remove_eq_some {job : Job α} (h : q.remove jobId jobId' = some job) :
    q jobId' = some job := by
  unfold remove at h
  cases hq : q jobId with
  | none =>
      simp only [hq] at h
      exact h
  | some job' =>
      simp only [hq] at h
      by_cases hactive : job'.state = .active
      · rwa [if_pos hactive] at h
      · rw [if_neg hactive] at h
        exact set_none_eq_some h

theorem retry_eq_some {job : Job α} (h : q.retry jobId jobId' = some job) :
    ∃ job', q jobId' = some job' ∧ job.data = job'.data := by
  by_cases hid : jobId' = jobId
  · subst hid
    unfold retry at h
    cases hq : q jobId' with
    | none =>
        simp only [hq] at h
        cases h
    | some job' =>
        simp only [hq] at h
        refine ⟨job', rfl, ?_⟩
        by_cases hfailed : job'.state = .failed
        · rw [if_pos hfailed, set_self] at h
          cases h
          rfl
        · rw [if_neg hfailed, hq] at h
          cases h
          rfl
  · rw [retry_of_ne hid] at h
    exact ⟨job, h, rfl⟩

end Queue

end Jobs
