import TaskQueue.Redis.Store

/-!
# The scripts of `redis_backend.py`

Each Lua script, each `MULTI` and the plain commands that `RedisBackend` sends
as one function from the store to the store and the script's reply. Redis runs
each of them as one atomic step.

The keys and arguments are those the calling method passes; a status constant
passed as an argument (`running`, `queued`) is written as the constant itself.

The equations after the definitions give each script's effect under each of its
guards, and `reaperScript_induction` is the rule for the reaper's two loops.
Later modules use these and never unfold a script.
-/

namespace TaskQueue.Redis

open Placement

/-! ## Single-key scripts -/

/-- `_ENQUEUE_SCRIPT`. -/
def enqueueScript (st : Store) (jobId : JobId) (record : Record) : Store × Int :=
  match st.jobs jobId with
  | some _ => (st, 0)
  | none => ((st.put jobId ⟨record, none⟩).rpush .queue jobId, 1)

/-- `BLMOVE queue processing:{worker} LEFT RIGHT`, the first half of `claim`;
`none` when the wait timed out on an empty queue. -/
def blmove (st : Store) (worker : InstanceId) : Store × Option JobId :=
  match st.lpop .queue with
  | (none, _) => (st, none)
  | (some jobId, st') => (st'.rpush (.processing worker) jobId, some jobId)

/-- `_CLAIM_SCRIPT`, the second half of `claim`. -/
def claimScript (st : Store) (jobId : JobId) : Store × Option Record :=
  match st.jobs jobId with
  | none => (st, none)
  | some e =>
    -- HSET status, then HINCRBY attempts 1, then HGETALL
    let record := { e.record with status := .running, attempts := e.record.attempts + 1 }
    (st.put jobId { e with record := record }, some record)

/-- The compensating `MULTI` of a failed `claim`: `LREM`, then `RPUSH`. -/
def returnLease (st : Store) (worker : InstanceId) (jobId : JobId) : Store :=
  (st.lrem (.processing worker) jobId).rpush .queue jobId

/-- The `LREM` by which `claim` discards an id whose record no longer exists. -/
def discardLease (st : Store) (worker : InstanceId) (jobId : JobId) : Store :=
  st.lrem (.processing worker) jobId

/-- `_SAVE_SCRIPT`. -/
def saveScript (st : Store) (worker : InstanceId) (jobId : JobId) (record : Record)
    (done : Bool) (resultTtl : Nat) : Store × Int :=
  match st.jobs jobId with
  | none => (st, 0)
  | some e =>
    let written := e.record.hset record
    let st := st.put jobId { e with record := written }
    if done then
      let st := st.lrem (.processing worker) jobId
      -- EXPIRE
      let st := st.put jobId { record := written, ttl := some resultTtl }
      (st.publish (.done jobId), 1)
    else
      (st, 1)

/-- `_RELEASE_SCRIPT`. -/
def releaseScript (st : Store) (worker : InstanceId) (jobId : JobId) : Store × Int :=
  match st.jobs jobId with
  | none => (st, -1)
  | some e =>
    if e.record.status = .running then
      let st := st.put jobId { e with record := { e.record with status := .queued } }
      ((st.lrem (.processing worker) jobId).rpush .queue jobId, 1)
    else
      (st, 0)

/-- `_REQUEST_CANCEL_SCRIPT`. -/
def requestCancelScript (st : Store) (jobId : JobId) : Store × Int :=
  match st.jobs jobId with
  | none => (st, 0)
  | some e =>
    if e.record.status.terminal then
      (st, 0)
    else
      let st := st.put jobId { e with record := { e.record with requestCancel := true } }
      (st.publish (.cancel jobId), 1)

/-- The fetch-and-delete `MULTI` of `take_result`: `HGETALL`, then `DEL`. -/
def fetchAndDelete (st : Store) (jobId : JobId) : Store × Option Record :=
  (st.del jobId, (st.jobs jobId).map Entry.record)

/-- `_HEARTBEAT_SCRIPT`, at server time `now`. -/
def heartbeatScript (st : Store) (worker : InstanceId) (now : Nat) : Store :=
  st.zadd now worker

/-- `_DEREGISTER_SCRIPT`. -/
def deregisterScript (st : Store) (worker : InstanceId) : Store × Int :=
  if (st.lists (.processing worker)).length > 0 then
    (st, 0)
  else
    (st.zrem worker, if worker ∈ st.workers.members then 1 else 0)

/-- A key whose time to live has run out is deleted by the server. -/
def expireKey (st : Store) (jobId : JobId) : Store :=
  match st.jobs jobId with
  | some ⟨_, some _⟩ => st.del jobId
  | _ => st

/-! ## The reaper -/

/-- The state of `_REAPER_SCRIPT` between two iterations. -/
structure Reaping where
  store : Store
  reclaimed : Nat
  dropped : Nat

/-- One iteration of the inner loop: pop an id off the dead worker's list, and
requeue it if its record still exists. -/
def Reaping.pop (worker : InstanceId) (r : Reaping) : Reaping :=
  match r.store.lpop (.processing worker) with
  | (none, _) => r
  | (some jobId, st) =>
    match st.jobs jobId with
    | none => { r with store := st, dropped := r.dropped + 1 }
    | some e =>
      let st := if e.record.status = .running then
          st.put jobId { e with record := { e.record with status := .queued } }
        else st
      { r with store := st.rpush .queue jobId, reclaimed := r.reclaimed + 1 }

/-- The inner loop. Nothing inside it pushes to the list it pops, so it ends
after as many iterations as the list has ids. -/
def Reaping.drain (worker : InstanceId) (r : Reaping) : Reaping :=
  (Reaping.pop worker)^[(r.store.lists (.processing worker)).length] r

/-- One iteration of the outer loop. -/
def Reaping.reapWorker (r : Reaping) (worker : InstanceId) : Reaping :=
  let r := r.drain worker
  { r with store := r.store.zrem worker }

/-- The members that `_REAPER_SCRIPT` finds expired at server time `now`. -/
def expired (st : Store) (now workerTtl : Nat) : List InstanceId :=
  st.workers.upTo ((now : Int) - workerTtl)

/-- `_REAPER_SCRIPT`. -/
def reaperScript (st : Store) (now workerTtl : Nat) : Reaping :=
  (expired st now workerTtl).foldl Reaping.reapWorker ⟨st, 0, 0⟩

/-! ## The scripts under their guards -/

section Guards

variable {st : Store} {jobId : JobId} {worker : InstanceId} {e : Entry}

theorem enqueueScript_of_some (h : st.jobs jobId = some e) (record : Record) :
    enqueueScript st jobId record = (st, 0) := by
  simp only [enqueueScript, h]

theorem enqueueScript_of_none (h : st.jobs jobId = none) (record : Record) :
    enqueueScript st jobId record
      = ((st.put jobId ⟨record, none⟩).rpush .queue jobId, 1) := by
  simp only [enqueueScript, h]

theorem blmove_nil (h : st.lists .queue = []) : blmove st worker = (st, none) := by
  simp only [blmove, Store.lpop_nil h]

theorem blmove_cons {rest : List JobId} (h : st.lists .queue = jobId :: rest) :
    blmove st worker
      = ((st.lrem .queue jobId).rpush (.processing worker) jobId, some jobId) := by
  simp only [blmove, Store.lpop_cons h]

theorem claimScript_of_none (h : st.jobs jobId = none) :
    claimScript st jobId = (st, none) := by
  simp only [claimScript, h]

/-- The record a claim returns: marked RUNNING, one more attempt. -/
def claimed (r : Record) : Record := { r with status := .running, attempts := r.attempts + 1 }

theorem claimScript_of_some (h : st.jobs jobId = some e) :
    claimScript st jobId
      = (st.put jobId { e with record := claimed e.record }, some (claimed e.record)) := by
  simp only [claimScript, h]
  rfl

theorem saveScript_of_none (h : st.jobs jobId = none) (record : Record) (done : Bool)
    (ttl : Nat) : saveScript st worker jobId record done ttl = (st, 0) := by
  simp only [saveScript, h]

theorem saveScript_done (worker : InstanceId) (h : st.jobs jobId = some e) (record : Record)
    (ttl : Nat) :
    (saveScript st worker jobId record true ttl).2 = 1 ∧
      (saveScript st worker jobId record true ttl).1.jobs
        = Function.update st.jobs jobId (some ⟨e.record.hset record, some ttl⟩) ∧
      (saveScript st worker jobId record true ttl).1.lists
        = drop st.lists (.processing worker) jobId ∧
      (saveScript st worker jobId record true ttl).1.workers = st.workers := by
  simp [saveScript, h]

theorem releaseScript_of_none (h : st.jobs jobId = none) :
    releaseScript st worker jobId = (st, -1) := by
  simp only [releaseScript, h]

theorem releaseScript_of_not_running (h : st.jobs jobId = some e)
    (hs : e.record.status ≠ .running) : releaseScript st worker jobId = (st, 0) := by
  simp only [releaseScript, h, if_neg hs]

theorem releaseScript_of_running (h : st.jobs jobId = some e)
    (hs : e.record.status = .running) :
    releaseScript st worker jobId
      = (((st.put jobId { e with record := { e.record with status := .queued } }).lrem
          (.processing worker) jobId).rpush .queue jobId, 1) := by
  simp only [releaseScript, h, if_pos hs]

theorem requestCancelScript_of_none (h : st.jobs jobId = none) :
    requestCancelScript st jobId = (st, 0) := by
  simp only [requestCancelScript, h]

theorem requestCancelScript_of_terminal (h : st.jobs jobId = some e)
    (ht : e.record.status.terminal = true) : requestCancelScript st jobId = (st, 0) := by
  simp only [requestCancelScript, h, ht, if_true]

theorem requestCancelScript_of_unfinished (h : st.jobs jobId = some e)
    (ht : e.record.status.terminal = false) :
    requestCancelScript st jobId
      = ((st.put jobId { e with record := { e.record with requestCancel := true } }).publish
          (.cancel jobId), 1) := by
  simp [requestCancelScript, h, ht]

theorem expireKey_cases (st : Store) (jobId : JobId) :
    expireKey st jobId = st ∨
      ∃ r ttl, st.jobs jobId = some ⟨r, some ttl⟩ ∧ expireKey st jobId = st.del jobId := by
  unfold expireKey
  split
  · exact Or.inr ⟨_, _, by assumption, rfl⟩
  · exact Or.inl rfl

end Guards

/-! ## The reaper's loops -/

namespace Reaping

variable {r : Reaping} {worker : InstanceId} {jobId : JobId} {rest : List JobId}

theorem pop_nil (h : r.store.lists (.processing worker) = []) : r.pop worker = r := by
  simp only [pop, Store.lpop_nil h]

/-- Popping an id with no record drops it. -/
theorem pop_dropped (h : r.store.lists (.processing worker) = jobId :: rest)
    (hj : r.store.jobs jobId = none) :
    (r.pop worker).store = r.store.lrem (.processing worker) jobId := by
  simp [pop, Store.lpop_cons h, hj]

/-- Popping an id with a record requeues it, resetting RUNNING to QUEUED. -/
theorem pop_reclaimed {e : Entry} (h : r.store.lists (.processing worker) = jobId :: rest)
    (hj : r.store.jobs jobId = some e) :
    (r.pop worker).store.jobs = (if e.record.status = .running then
        Function.update r.store.jobs jobId
          (some { e with record := { e.record with status := .queued } })
      else r.store.jobs) ∧
    (r.pop worker).store.lists
      = push (drop r.store.lists (.processing worker) jobId) .queue jobId ∧
    (r.pop worker).store.workers = r.store.workers := by
  by_cases hs : e.record.status = .running <;>
    simp [pop, Store.lpop_cons h, hj, hs]

/-- An iteration pops the worker's list by one. -/
theorem pop_own_list (r : Reaping) (worker : InstanceId) :
    (r.pop worker).store.lists (.processing worker)
      = (r.store.lists (.processing worker)).tail := by
  cases h : r.store.lists (.processing worker) with
  | nil => rw [pop_nil h, h, List.tail_nil]
  | cons jobId rest =>
    cases hj : r.store.jobs jobId with
    | none =>
      rw [pop_dropped h hj, Store.lrem_lists, drop_eq_pop h, Function.update_self,
        List.tail_cons]
    | some e =>
      rw [(pop_reclaimed h hj).2.1, push, Function.update_of_ne (by simp), drop_eq_pop h,
        Function.update_self, List.tail_cons]

theorem iterate_pop_own_list (worker : InstanceId) (n : Nat) (r : Reaping) :
    ((pop worker)^[n] r).store.lists (.processing worker)
      = (r.store.lists (.processing worker)).drop n := by
  induction n generalizing r with
  | zero => rfl
  | succ n ih =>
    rw [Function.iterate_succ_apply, ih, pop_own_list, List.drop_tail]

/-- The inner loop leaves the worker's list empty. -/
theorem drain_own_list (r : Reaping) (worker : InstanceId) :
    (r.drain worker).store.lists (.processing worker) = [] := by
  rw [drain, iterate_pop_own_list, List.drop_length]

variable {I : Store → Prop}

theorem iterate_pop_induction (hpop : ∀ r : Reaping, I r.store → I (r.pop worker).store)
    (n : Nat) (h : I r.store) : I ((pop worker)^[n] r).store := by
  induction n generalizing r with
  | zero => exact h
  | succ n ih =>
    rw [Function.iterate_succ_apply]
    exact ih (hpop r h)

theorem foldl_reapWorker_induction {expired : List InstanceId}
    (hpop : ∀ worker ∈ expired, ∀ r : Reaping, I r.store → I (r.pop worker).store)
    (hzrem : ∀ worker ∈ expired, ∀ st : Store,
      st.lists (.processing worker) = [] → I st → I (st.zrem worker))
    (h : I r.store) : I (expired.foldl reapWorker r).store := by
  induction expired generalizing r with
  | nil => exact h
  | cons worker rest ih =>
    rw [List.foldl_cons]
    refine ih (fun w hw => hpop w (List.mem_cons_of_mem _ hw))
      (fun w hw => hzrem w (List.mem_cons_of_mem _ hw)) ?_
    refine hzrem worker (List.mem_cons_self ..) _ (drain_own_list r worker) ?_
    exact iterate_pop_induction (hpop worker (List.mem_cons_self ..)) _ h

end Reaping

/-- **The rule for the reaper.** What every pop off an expired worker's list
preserves, and every removal of an expired worker whose list is empty, the whole
script preserves. -/
theorem reaperScript_induction {I : Store → Prop} {st : Store} {now workerTtl : Nat}
    (hpop : ∀ worker ∈ expired st now workerTtl, ∀ r : Reaping,
      I r.store → I (r.pop worker).store)
    (hzrem : ∀ worker ∈ expired st now workerTtl, ∀ st' : Store,
      st'.lists (.processing worker) = [] → I st' → I (st'.zrem worker))
    (h : I st) : I (reaperScript st now workerTtl).store :=
  Reaping.foldl_reapWorker_induction (r := ⟨st, 0, 0⟩) hpop hzrem h

end TaskQueue.Redis
