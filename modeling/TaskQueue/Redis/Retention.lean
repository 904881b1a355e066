import TaskQueue.Library.Machine
import TaskQueue.Redis.Server

/-!
# How long records are kept

Only the terminal save sets an expiry, and the claim, release, cancel and reap scripts leave it
as it is. So a record has a time to live exactly when its job has finished once since it was
enqueued: a result that nobody takes is freed by the server in the end, and a job that has never
finished does not expire, however long it waits. A job that is delivered again after it finished
still runs on borrowed time.

`finished` is told by the requests that take effect and is read by no client.
-/

namespace TaskQueue.Redis

/-- The database, and which jobs have finished since they were enqueued. -/
structure Retained where
  store : Store
  finished : JobId → Bool

namespace Retained

/-- Which jobs have finished once `q` is executed. -/
def note (s : Retained) : Request → JobId → Bool
  | .enqueue record =>
    if s.store.jobs record.id = none then Function.update s.finished record.id false
    else s.finished
  | .save _ write _ =>
    if s.store.jobs write.record.id = none then s.finished
    else Function.update s.finished write.record.id true
  | _ => s.finished

/-- The server, and the notes. -/
def machine : Machine Retained Request where
  init := ⟨.empty, fun _ => false⟩
  step s q := some ⟨q.after s.store, s.note q⟩

/-- An entry expires if its job has finished once, and a terminal one does. -/
def Kept (s : Retained) (jobId : JobId) : Prop :=
  ∀ e, s.store.jobs jobId = some e →
    e.ttl.isSome = s.finished jobId ∧ (e.record.status.terminal = true → e.ttl.isSome = true)

/-- What the expiry of a key removes: nothing that has not finished. -/
def Spares (s : Retained) (q : Request) (s' : Retained) : Prop :=
  ∀ jobId, q = .expire jobId → s.finished jobId = false →
    s'.store.jobs jobId = s.store.jobs jobId

variable {s : Retained} {jobId : JobId}

theorem kept_enqueue (h : s.Kept jobId) (record : Record) :
    Kept ⟨(Request.enqueue record).after s.store, s.note (.enqueue record)⟩ jobId := by
  intro e' he'
  cases hj : s.store.jobs record.id with
  | some e =>
    simp only [note, hj, reduceCtorEq, if_false]
    rw [after_enqueue_some hj] at he'
    exact h e' he'
  | none =>
    simp only [note, hj, if_true]
    rw [after_enqueue_jobs hj] at he'
    by_cases hid : jobId = record.id
    · subst hid
      rw [Function.update_self] at he' ⊢
      cases he'
      exact ⟨rfl, fun hterminal => absurd hterminal (by simp [requeued, JobStatus.terminal])⟩
    · rw [Function.update_of_ne hid] at he' ⊢
      exact h e' he'

theorem kept_save (h : s.Kept jobId) (worker : InstanceId) (write : Finished) (ttl : Nat) :
    Kept ⟨(Request.save worker write ttl).after s.store, s.note (.save worker write ttl)⟩
      jobId := by
  intro e' he'
  cases hj : s.store.jobs write.record.id with
  | none =>
    simp only [note, hj, if_true]
    rw [after_save_none hj] at he'
    exact h e' he'
  | some e =>
    simp only [note, hj, reduceCtorEq, if_false]
    rw [after_save_jobs worker hj] at he'
    by_cases hid : jobId = write.record.id
    · subst hid
      rw [Function.update_self] at he' ⊢
      cases he'
      exact ⟨rfl, fun _ => rfl⟩
    · rw [Function.update_of_ne hid] at he' ⊢
      exact h e' he'

/-- No other request sets an expiry or finishes a job. -/
theorem kept_other (h : s.Kept jobId) {q : Request} (henqueue : ∀ record, q ≠ .enqueue record)
    (hsave : ∀ worker write ttl, q ≠ .save worker write ttl) :
    Kept ⟨q.after s.store, s.finished⟩ jobId := by
  intro e' he'
  have hstep := q.recordStep s.store jobId
  rw [show (q.after s.store).jobs jobId = some e' from he'] at hstep
  generalize hold : s.store.jobs jobId = old at hstep
  cases hstep with
  | same => exact h e' hold
  | created record hq => exact absurd hq (henqueue record)
  | claimed e => exact ⟨(h e hold).1, fun hterminal => by cases hterminal⟩
  | saved worker write ttl e hq => exact absurd hq (hsave worker write ttl)
  | requeued e => exact ⟨(h e hold).1, fun hterminal => by cases hterminal⟩
  | flagged e => exact h e hold

/-- **One request.** -/
theorem kept_after (h : s.Kept jobId) (q : Request) : Kept ⟨q.after s.store, s.note q⟩ jobId := by
  cases q with
  | enqueue record => exact kept_enqueue h record
  | save worker write ttl => exact kept_save h worker write ttl
  | _ => exact kept_other h (by rintro _ ⟨⟩) (by rintro _ _ _ ⟨⟩)

theorem spares (h : s.Kept jobId) (hunfinished : s.finished jobId = false) :
    ((Request.expire jobId).after s.store).jobs jobId = s.store.jobs jobId := by
  rcases expireKey_cases s.store jobId with hsame | ⟨r, ttl, hj, -⟩
  · rw [Request.after, Request.exec, hsame]
  · have hkept := (h _ hj).1
    rw [hunfinished] at hkept
    cases hkept

end Retained

/-- **Records are kept exactly as long as they should be.** In every run of the server, whoever
sends the requests, the workers' saves among them: a stored record has a time to live if and
only if its job has finished since it was enqueued, each terminal record has one, and the expiry
of a key takes nothing from a job that has not finished. -/
theorem retained_along (qs : List Request) :
    Retained.machine.Along (fun s q s' => (∀ jobId, s'.Kept jobId) ∧ s.Spares q s')
      Retained.machine.init qs := by
  refine Machine.along_of_invariant (J := fun s => ∀ jobId, s.Kept jobId) (C := fun _ _ => True)
    ?_ (fun jobId e he => by cases he) (Machine.along_true _ _)
  intro s q s' hJ _ hstep
  cases hstep
  have hkept : ∀ jobId, Retained.Kept ⟨q.after s.store, s.note q⟩ jobId :=
    fun jobId => Retained.kept_after (hJ jobId) q
  refine ⟨⟨hkept, ?_⟩, hkept⟩
  rintro jobId rfl hunfinished
  exact Retained.spares (hJ jobId) hunfinished

end TaskQueue.Redis
