import Mathlib.Data.String.Basic
import TaskQueue.Job

/-!
# The in-process backend (`memory_backend.py`)

`MemoryBackend` runs in one event loop: what a method does between two of its
`await`s is one step, and no step of another task comes in between. Each function
here is such a step; a method that suspends (`take_result`) is cut where it does.
`put` on an unbounded `asyncio.Queue` and `wait` on an event that is already set do
not suspend.

A record is a value here. `MemoryBackend` keeps the dictionary that `enqueue` or
`save` was given and assigns to its keys later; `Task.submit` and `Worker._save`
build that dictionary for the call and drop it, so nobody else sees it
(`Conformance.Values` compares the two).

A dictionary is a function into `Option`. An `asyncio.Event` of `_events` is named
by its job and the incarnation it was made for, so that a caller may keep waiting
for an event which the dictionary no longer holds; `isSet` is its flag. An event of
`_cancels` is represented by its flag alone. A method that raises `KeyError`
returns `none`.
-/

namespace TaskQueue.Memory

/-- The attributes of `MemoryBackend`; `born` counts the events made per id. -/
structure Backend where
  jobs : JobId → Option Record
  events : JobId → Option Nat
  isSet : JobId → Nat → Bool
  queue : List JobId
  cancels : JobId → Option Bool
  born : JobId → Nat

namespace Backend

/-- `MemoryBackend()`. -/
def empty : Backend where
  jobs _ := none
  events _ := none
  isSet _ _ := false
  queue := []
  cancels _ := none
  born _ := 0

variable (b : Backend)

/-- `self._jobs[job_id] = record`. -/
def put (jobId : JobId) (record : Record) : Backend :=
  { b with jobs := Function.update b.jobs jobId (some record) }

/-- `enqueue`. -/
def enqueue (jobId : JobId) (record : Record) : Backend :=
  match b.jobs jobId with
  | some _ => b
  | none =>
    let n := b.born jobId + 1
    { b.put jobId { record with status := .queued } with
      events := Function.update b.events jobId (some n)
      cancels := Function.update b.cancels jobId (some false)
      queue := b.queue ++ [jobId]
      born := Function.update b.born jobId n }

/-- `claim`, once it has an id; `none` when the queue is empty. The record of the
id may be gone, and then the id is gone from the queue as well. -/
def claim : Option (Backend × Option Record) :=
  match b.queue with
  | [] => none
  | jobId :: rest =>
    let b := { b with queue := rest }
    match b.jobs jobId with
    | none => some (b, none)
    | some r =>
      let r := { r with status := .running, attempts := r.attempts + 1 }
      some (b.put jobId r, some r)

/-- `save`. -/
def save (jobId : JobId) (record : Record) (done : Bool) : Option Backend :=
  match b.jobs jobId with
  | none => none
  | some _ =>
    let b := b.put jobId record
    if done then
      let isSet := match b.events jobId with
        | some n => Function.update b.isSet jobId (Function.update (b.isSet jobId) n true)
        | none => b.isSet
      some { b with
        events := Function.update b.events jobId none
        isSet := isSet
        cancels := Function.update b.cancels jobId none }
    else
      some b

/-- `release`. -/
def release (jobId : JobId) : Option Backend :=
  match b.jobs jobId with
  | none => none
  | some r =>
    if r.status = .running then
      some { b.put jobId { r with status := .queued } with queue := b.queue ++ [jobId] }
    else
      some b

/-- `request_cancel`. -/
def requestCancel (jobId : JobId) : Backend :=
  match b.jobs jobId with
  | none => b
  | some r =>
    if r.status.terminal then
      b
    else
      { b.put jobId { r with requestCancel := true } with
        cancels := Function.update b.cancels jobId ((b.cancels jobId).map fun _ => true) }

/-- The end of `take_result`, from the wake-up on: free the job, return its record. -/
def collect (jobId : JobId) : Backend × Option Record :=
  ({ b with
      events := Function.update b.events jobId none
      cancels := Function.update b.cancels jobId none
      jobs := Function.update b.jobs jobId none },
    b.jobs jobId)

/-! ## What the operations do to the records -/

/-- The record of `jobId` is finished, or gone. -/
def Settled (jobId : JobId) : Prop :=
  ∀ r, b.jobs jobId = some r → r.status.terminal = true

variable {b}

theorem enqueue_of_some {jobId : JobId} {r : Record} (h : b.jobs jobId = some r)
    (record : Record) : b.enqueue jobId record = b := by
  simp only [enqueue, h]

/-- Writing a record of one job leaves the others settled, and the job itself when
the new record is terminal. -/
theorem settled_of_update {b' : Backend} {id jobId : JobId} {x : Option Record}
    (hjobs : b'.jobs = Function.update b.jobs id x) (h : jobId ≠ id → b.Settled jobId)
    (hx : jobId = id → ∀ r, x = some r → r.status.terminal = true) : b'.Settled jobId := by
  intro r hr
  rw [hjobs] at hr
  by_cases hid : jobId = id
  · subst hid
    rw [Function.update_self] at hr
    exact hx rfl r hr
  · rw [Function.update_of_ne hid] at hr
    exact h hid r hr

/-- A settled job whose record is unfinished does not exist. -/
theorem Settled.absurd {jobId : JobId} {r : Record} {P : Prop} (h : b.Settled jobId)
    (hr : b.jobs jobId = some r) (ht : r.status.terminal = false) : P := by
  rw [h r hr] at ht
  cases ht

/-! ## Only `take_result` removes a record -/

/-- Every job stored in `b` is stored in `b'`. -/
def Keeps (b b' : Backend) : Prop := ∀ jobId r, b.jobs jobId = some r → b'.jobs jobId ≠ none

theorem keeps_of_jobs_eq {b' : Backend} (h : b'.jobs = b.jobs) : b.Keeps b' := by
  intro jobId r hr
  rw [h, hr]
  simp

theorem keeps_of_update {b' : Backend} {id : JobId} {r' : Record}
    (h : b'.jobs = Function.update b.jobs id (some r')) : b.Keeps b' := by
  intro jobId r hr
  rw [h, Function.update_apply]
  split
  · simp
  · simp [hr]

theorem keeps_enqueue (jobId : JobId) (record : Record) : b.Keeps (b.enqueue jobId record) := by
  cases hj : b.jobs jobId with
  | some r =>
    rw [enqueue_of_some hj]
    exact keeps_of_jobs_eq rfl
  | none =>
    simp only [enqueue, hj]
    exact keeps_of_update rfl

theorem keeps_claim {b' : Backend} {r? : Option Record} (h : b.claim = some (b', r?)) :
    b.Keeps b' := by
  unfold claim at h
  cases hq : b.queue with
  | nil => simp [hq] at h
  | cons jobId rest =>
    simp only [hq] at h
    cases hj : b.jobs jobId with
    | none =>
      simp only [hj] at h
      cases h
      exact keeps_of_jobs_eq rfl
    | some r =>
      simp only [hj] at h
      cases h
      exact keeps_of_update rfl

theorem keeps_save (jobId : JobId) (record : Record) (done : Bool) :
    b.Keeps ((b.save jobId record done).getD b) := by
  cases hj : b.jobs jobId with
  | none =>
    simp only [save, hj]
    exact keeps_of_jobs_eq rfl
  | some r =>
    cases done <;> simp only [save, hj] <;> exact keeps_of_update rfl

theorem keeps_release (jobId : JobId) : b.Keeps ((b.release jobId).getD b) := by
  cases hj : b.jobs jobId with
  | none =>
    simp only [release, hj]
    exact keeps_of_jobs_eq rfl
  | some r =>
    by_cases hs : r.status = .running
    · simp only [release, hj, if_pos hs]
      exact keeps_of_update rfl
    · simp only [release, hj, if_neg hs]
      exact keeps_of_jobs_eq rfl

theorem keeps_requestCancel (jobId : JobId) : b.Keeps (b.requestCancel jobId) := by
  cases hj : b.jobs jobId with
  | none =>
    simp only [requestCancel, hj]
    exact keeps_of_jobs_eq rfl
  | some r =>
    cases ht : r.status.terminal with
    | true =>
      simp only [requestCancel, hj, ht, if_true]
      exact keeps_of_jobs_eq rfl
    | false =>
      simp only [requestCancel, hj, ht]
      exact keeps_of_update rfl

end Backend

end TaskQueue.Memory
