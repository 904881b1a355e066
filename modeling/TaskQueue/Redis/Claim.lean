import TaskQueue.Redis.Scripts

/-!
# A claim whose second round trip fails

`RedisBackend.claim` leases in two round trips: `BLMOVE` puts the id on this
worker's processing list, then the claim script marks the record RUNNING and
counts the attempt. When the second one raises, an `except Exception` returns
the id to the queue in one `MULTI` and re-raises.

A raise does not tell whether the script ran: the connection may be lost before
the request is sent or after it took effect (`RoundTrip.raised`). `claim` follows
both, and a cancelled task as well, whose `CancelledError` is not an `Exception`
and passes the compensation by.

- `Restored`: what an atomic claim promises of the store it leaves.
- `failedClaim_restores_iff`: when a failed claim keeps that promise.
- `failedClaim_frame`: what it leaves alone in any case.
-/

namespace TaskQueue.Redis.Unreliable

open Placement

/-- What an `await` raises: an error of the client or the server, which
`except Exception` catches, or the `CancelledError` of the task that awaits. -/
inductive Raise where
  | exception
  | cancelled
deriving DecidableEq, Repr

/-- How the round trip of the claim script ends: with its reply, or by raising,
with or without the script having run. -/
inductive RoundTrip where
  | replied
  | raised (executed : Bool) (raise : Raise)
deriving DecidableEq, Repr

/-- How a call of `claim` ends. -/
inductive ClaimEnd where
  | nothing
  | discarded (jobId : JobId)
  | delivered (record : Record)
  | raised (jobId : JobId)
deriving DecidableEq

/-- `RedisBackend.claim` over a connection that may fail on the second round trip; the
compensating `MULTI` and the discarding `LREM` succeed. -/
def claim (st : Store) (worker : InstanceId) (trip : RoundTrip) : Store × ClaimEnd :=
  match blmove st worker with
  | (st, none) => (st, .nothing)
  | (st, some jobId) =>
    match trip with
    | .replied =>
      match claimScript st jobId with
      | (st, none) => (discardLease st worker jobId, .discarded jobId)
      | (st, some record) => (st, .delivered record)
    | .raised executed raise =>
      let st := if executed then (claimScript st jobId).1 else st
      match raise with
      | .exception => (returnLease st worker jobId, .raised jobId)
      | .cancelled => (st, .raised jobId)

/-- Nothing of the claim is left in `st'`: the id is off the worker's list, on the
queue as often as before, and its record is the one it was. -/
structure Restored (st st' : Store) (worker : InstanceId) (jobId : JobId) : Prop where
  unlisted : jobId ∉ st'.lists (.processing worker)
  queued : (st'.lists .queue).count jobId = (st.lists .queue).count jobId
  record : st'.jobs jobId = st.jobs jobId

section

variable {st : Store} {worker : InstanceId} {jobId : JobId} {rest : List JobId}
  {executed : Bool}

/-- The store between the two round trips. -/
def leased (st : Store) (worker : InstanceId) (jobId : JobId) : Store :=
  (st.lrem .queue jobId).rpush (.processing worker) jobId

/-- What the second round trip has done to it when it raises. -/
def afterTrip (st : Store) (worker : InstanceId) (jobId : JobId) (executed : Bool) : Store :=
  if executed then (claimScript (leased st worker jobId) jobId).1 else leased st worker jobId

theorem claim_raised (h : st.lists .queue = jobId :: rest) (raise : Raise) :
    claim st worker (.raised executed raise)
      = (match raise with
          | .exception => returnLease (afterTrip st worker jobId executed) worker jobId
          | .cancelled => afterTrip st worker jobId executed, .raised jobId) := by
  cases raise <;> simp only [claim, blmove_cons h, afterTrip, leased]

/-- A claim raises only after it has taken the head of the queue. -/
theorem head_of_claim_raised {st' : Store} {raise : Raise}
    (h : claim st worker (.raised executed raise) = (st', .raised jobId)) :
    ∃ rest, st.lists .queue = jobId :: rest := by
  cases hq : st.lists .queue with
  | nil =>
    simp only [claim, blmove_nil hq] at h
    cases h
  | cons id rest =>
    rw [claim_raised hq] at h
    cases h
    exact ⟨rest, rfl⟩

theorem claimScript_lists (st : Store) (jobId : JobId) :
    (claimScript st jobId).1.lists = st.lists := by
  cases hj : st.jobs jobId with
  | none => rw [claimScript_of_none hj]
  | some e =>
    rw [claimScript_of_some hj]
    rfl

theorem afterTrip_lists :
    (afterTrip st worker jobId executed).lists = (leased st worker jobId).lists := by
  unfold afterTrip
  split
  · exact claimScript_lists ..
  · rfl

/-- The second round trip leaves the record alone unless it ran and found one. -/
theorem afterTrip_record_iff :
    (afterTrip st worker jobId executed).jobs jobId = st.jobs jobId ↔
      executed = false ∨ st.jobs jobId = none := by
  cases executed with
  | false => exact iff_of_true rfl (Or.inl rfl)
  | true =>
    rw [afterTrip, if_pos rfl]
    cases hj : st.jobs jobId with
    | none =>
      have hleased : (leased st worker jobId).jobs jobId = none := hj
      rw [claimScript_of_none hleased]
      exact iff_of_true hleased (Or.inr rfl)
    | some e =>
      have hleased : (leased st worker jobId).jobs jobId = some e := hj
      rw [claimScript_of_some hleased, Store.put_jobs, Function.update_self]
      -- the attempt that was counted tells the two records apart
      refine iff_of_false (fun h => ?_) (by simp)
      have hattempts := congrArg (fun e => e.record.attempts) (Option.some.inj h)
      simp only [claimed] at hattempts
      omega

/-- On the worker's list the lease has one more occurrence than there was. -/
theorem leased_own (h : st.lists .queue = jobId :: rest) :
    (leased st worker jobId).lists (.processing worker)
      = st.lists (.processing worker) ++ [jobId] := by
  simp [leased, push, drop, h]

theorem leased_queue (h : st.lists .queue = jobId :: rest) :
    (leased st worker jobId).lists .queue = rest := by
  simp [leased, push, drop, h]

theorem afterTrip_workers_and_others (st : Store) (worker : InstanceId) (jobId : JobId)
    (executed : Bool) :
    (afterTrip st worker jobId executed).workers = st.workers ∧
      ∀ id ≠ jobId, (afterTrip st worker jobId executed).jobs id = st.jobs id := by
  unfold afterTrip
  split
  · cases hj : (leased st worker jobId).jobs jobId with
    | none =>
      rw [claimScript_of_none hj]
      exact ⟨rfl, fun _ _ => rfl⟩
    | some e =>
      rw [claimScript_of_some hj]
      exact ⟨rfl, fun id hid => Function.update_of_ne hid ..⟩
  · exact ⟨rfl, fun _ _ => rfl⟩

/-- The lease and the second round trip touch one id on one worker's list. -/
theorem afterTrip_frame (st : Store) (worker : InstanceId) (jobId : JobId) (executed : Bool) :
    (∀ v ≠ worker, (afterTrip st worker jobId executed).lists (.processing v)
        = st.lists (.processing v)) ∧
      (∀ id ≠ jobId, (afterTrip st worker jobId executed).jobs id = st.jobs id ∧
        ((afterTrip st worker jobId executed).lists (.processing worker)).count id
          = (st.lists (.processing worker)).count id) ∧
      (afterTrip st worker jobId executed).workers = st.workers := by
  obtain ⟨hworkers, hothers⟩ := afterTrip_workers_and_others st worker jobId executed
  rw [afterTrip_lists]
  refine ⟨fun v hv => ?_, fun id hid => ⟨hothers id hid, ?_⟩, hworkers⟩
  · simp [leased, push, drop, hv]
  · show occ (push (drop st.lists .queue jobId) (.processing worker) jobId) id _
      = occ st.lists id _
    exact occ_repush_of_ne hid _

end

/-- **When a failed claim is atomic.** For every store, every worker and every way in
which the second round trip can raise: the failed claim leaves nothing behind exactly
when what was raised is an `Exception`, the worker's list did not hold the id already,
and the script did not run or found no record. -/
theorem failedClaim_restores_iff {st st' : Store} {worker : InstanceId} {jobId : JobId}
    {executed : Bool} {raise : Raise}
    (h : claim st worker (.raised executed raise) = (st', .raised jobId)) :
    Restored st st' worker jobId ↔
      raise = .exception ∧ jobId ∉ st.lists (.processing worker) ∧
        (executed = false ∨ st.jobs jobId = none) := by
  obtain ⟨rest, hq⟩ := head_of_claim_raised h
  rw [claim_raised hq] at h
  cases raise with
  | cancelled =>
    cases h
    refine iff_of_false (fun hr => hr.unlisted ?_) (by simp)
    rw [afterTrip_lists, leased_own hq]
    simp
  | exception =>
    cases h
    have hown : (returnLease (afterTrip st worker jobId executed) worker jobId).lists
        (.processing worker) = (st.lists (.processing worker) ++ [jobId]).erase jobId := by
      simp [returnLease, push, drop, afterTrip_lists, leased_own hq]
    have hqueue : (returnLease (afterTrip st worker jobId executed) worker jobId).lists .queue
        = rest ++ [jobId] := by
      simp [returnLease, push, drop, afterTrip_lists, leased_queue hq]
    have hjobs : (returnLease (afterTrip st worker jobId executed) worker jobId).jobs jobId
        = (afterTrip st worker jobId executed).jobs jobId := rfl
    constructor
    · rintro ⟨hunlisted, -, hrecord⟩
      refine ⟨rfl, fun hin => hunlisted ?_, afterTrip_record_iff.mp (hjobs.symm.trans hrecord)⟩
      rw [hown, List.erase_append_left _ hin]
      simp
    · rintro ⟨-, hnot, hrecord⟩
      refine ⟨?_, ?_, hjobs.trans (afterTrip_record_iff.mpr hrecord)⟩
      · rw [hown, List.erase_append_right _ hnot]
        simpa using hnot
      · rw [hqueue, hq]
        simp

/-- A job as a producer enqueues it. -/
def queuedJob : Entry :=
  ⟨{ id := "j", taskName := "task", createdAt := "2025-01-01T00:00:00+00:00", status := .queued,
     attempts := 0, requestCancel := false, payload := [], groupId := none, error := none,
     result := none }, none⟩

/-- One job on the queue. -/
def oneQueued : Store := (Store.empty.put "j" queuedJob).rpush .queue "j"

/-- The script did not run: the claim leaves nothing behind. -/
theorem failedClaim_restores_unexecuted :
    Restored oneQueued (claim oneQueued "w" (.raised false .exception)).1 "w" "j" := by
  have hclaim : claim oneQueued "w" (.raised false .exception)
      = ((claim oneQueued "w" (.raised false .exception)).1, .raised "j") := rfl
  exact (failedClaim_restores_iff hclaim).mpr ⟨rfl, by decide, Or.inl rfl⟩

/-- The script ran and its reply was lost: the compensation puts the id back, but the
record on the queue is RUNNING and counts a delivery that nobody received. -/
theorem lostReply_leaves_running :
    (claim oneQueued "w" (.raised true .exception)).2 = .raised "j" ∧
      ¬ Restored oneQueued (claim oneQueued "w" (.raised true .exception)).1 "w" "j" ∧
      (claim oneQueued "w" (.raised true .exception)).1.lists .queue = ["j"] ∧
      ((claim oneQueued "w" (.raised true .exception)).1.jobs "j").map
          (fun e => (e.record.status, e.record.attempts)) = some (.running, 1) := by
  refine ⟨by decide, fun h => ?_, by decide, by decide⟩
  have hrecord := h.record
  revert hrecord
  decide

/-- Whatever becomes of the claimed job, a failed claim leaves the other lists, the
other records, the other ids on this worker's list and the liveness set alone: what
`Restored` does not promise can only concern the job itself. -/
theorem failedClaim_frame {st st' : Store} {worker : InstanceId} {jobId : JobId}
    {executed : Bool} {raise : Raise}
    (h : claim st worker (.raised executed raise) = (st', .raised jobId)) :
    (∀ v ≠ worker, st'.lists (.processing v) = st.lists (.processing v)) ∧
      (∀ id ≠ jobId, st'.jobs id = st.jobs id ∧
        (st'.lists (.processing worker)).count id = (st.lists (.processing worker)).count id) ∧
      st'.workers = st.workers := by
  obtain ⟨rest, hq⟩ := head_of_claim_raised h
  rw [claim_raised hq] at h
  have htrip := afterTrip_frame st worker jobId executed
  cases raise with
  | cancelled =>
    cases h
    exact htrip
  | exception =>
    cases h
    obtain ⟨hlists, hjobs, hworkers⟩ := htrip
    refine ⟨fun v hv => ?_, fun id hid => ⟨(hjobs id hid).1, ?_⟩, hworkers⟩
    · rw [← hlists v hv]
      simp [returnLease, push, drop, hv]
    · rw [← (hjobs id hid).2]
      show occ (push (drop (afterTrip st worker jobId executed).lists (.processing worker) jobId)
          .queue jobId) id (.processing worker)
        = occ (afterTrip st worker jobId executed).lists id (.processing worker)
      exact occ_repush_of_ne hid _

end TaskQueue.Redis.Unreliable
