import TaskQueue.Interface
import TaskQueue.Library.Machine

/-!
# An entered scope (`job_group.py`)

A `JobGroup` after `__aenter__`, beside the records of its backend. The events of a
run are what can happen between two `await`s of any of the tasks involved: the
body and its subtasks (`spawn`), the waiters and their callbacks, the fan-out, and
the owning task in `__aexit__`. Other clients change the records at any time
(`backend`).

- A `spawn` is three events: the call, the moment at which the enqueue takes effect,
  and the reply. A spawn that is cancelled or loses its reply is `abandoned`; its
  enqueue may have taken effect, or may still do so.
- A waiter runs `handle.result()`: the record is taken through the handle
  (`take`), which caches it, and the waiter ends with what it says (`report`), or
  the `take_result` call raises (`broke`). A waiter that is cancelled first unwinds
  its `take_result` (`unwound`), and a `gather` waits for that.
- `request_cancel_many` is a list of requests, one event each; a scope has up to two
  of them under way, the one that its owner awaits and the fan-out. If such a call
  raises or is cancelled, what it has not seen answered may have been sent (`adrift`),
  and takes effect at any time (`late`).

Waiters are named by the id of their job. Ids are generated (`uuid4`, or a digest of
the parent's id and an ordinal), so a spawn never repeats one and no other client
enqueues under one. What was spawned before the scope was entered has a handle and no
waiter (`detached`).

`issued`, `created` and `hit` record what happened: the ids for which a request
has been issued, those whose record a spawn of this scope created, and those
whose unfinished record a request of this scope has flagged.
-/

namespace TaskQueue.Scope

/-- `OnError`. -/
inductive OnError where
  | cancelSiblings | ignore | collect
deriving DecidableEq, Repr

/-- What `handle.result()` raises: `RuntimeError` for a FAILED job, `JobCancelled`
for a CANCELLED one, or an error of its `take_result` call; and `value`, an exception
that it returns because the task did. -/
inductive Failure where
  | jobFailed | jobCancelled | infrastructure | value
deriving DecidableEq, Repr

/-- How far a waiter has come. `exceptional` tells that the value it returned is an
exception object, `unwinding` that it was cancelled and is not done. -/
inductive WaiterState where
  | pending
  | unwinding
  | returned (exceptional : Bool)
  | raised (failure : Failure)
  | cancelled
deriving DecidableEq, Repr

/-- `JobHandle.result` on a consumed job. -/
def resultOf (exceptional : Bool) : JobStatus → WaiterState
  | .failed => .raised .jobFailed
  | .cancelled => .raised .jobCancelled
  | .created | .queued | .running | .completed => .returned exceptional

/-- A waiter and its handle. `cached` is the status of `handle._job`, `notified` tells
that `_job_finished` has been called, `late` that the waiter was registered after
`_cancelling` was set, and `unasked` that it broke before any request was issued for
its job. -/
structure Waiter where
  jobId : JobId
  cached : Option JobStatus
  state : WaiterState
  notified : Bool
  late : Bool
  unasked : Bool
deriving DecidableEq, Repr

/-- `asyncio.Task.done`. -/
def Waiter.done (w : Waiter) : Bool :=
  match w.state with
  | .pending | .unwinding => false
  | .returned _ | .raised _ | .cancelled => true

/-- The task ended with an exception of its own. -/
def Waiter.failed (w : Waiter) : Bool :=
  match w.state with
  | .raised _ => true
  | .pending | .unwinding | .returned _ | .cancelled => false

/-- `asyncio.Task.cancel`. -/
def Waiter.cancel (w : Waiter) : Waiter :=
  if w.done then w else { w with state := .unwinding }

/-- `CancelledError` leaves `handle.result()`. -/
def Waiter.unwound (w : Waiter) : Waiter :=
  if w.state = .unwinding then { w with state := .cancelled } else w

/-- The handle consumed its job, whose terminal status was `status`. -/
def Waiter.take (status : JobStatus) (w : Waiter) : Waiter :=
  if w.cached = none then { w with cached := some status } else w

/-- `handle.result()` ends with what the handle has cached. -/
def Waiter.report (exceptional : Bool) (w : Waiter) : Waiter :=
  match w.cached with
  | some status => if w.done then w else { w with state := resultOf exceptional status }
  | none => w

/-- `handle.result()` ends with an error of its `take_result` call. -/
def Waiter.breaks (issued : List JobId) (w : Waiter) : Waiter :=
  if w.done then w
  else { w with state := .raised .infrastructure, unasked := decide (w.jobId ∉ issued) }

/-- A call of `spawn` that has not returned. -/
structure Spawn where
  record : Record
  stored : Bool
  abandoned : Bool
deriving DecidableEq, Repr

/-- The exception on its way out of `__aexit__`: the body's own, `TimeoutError`,
`CancelledError`, the error of a `request_cancel_many`, the `ValueError` of an
`asyncio.wait` for nothing, or the failures as a group. -/
inductive Raised where
  | body
  | timeout
  | cancelled
  | request
  | emptyWait
  | group (failures : List (JobId × Failure))
deriving DecidableEq, Repr

/-- Where the owning task stands: in the body; in the join, which watches the waiters
it found; in `cancel_siblings_mode`, awaiting its own `request_cancel_many` (with the
requests still to come) or its `gather`; in a join that was cancelled, whose `gather`
waits for the waiters it took along; in `cancel_all_jobs`, awaiting the requests or
the reports; in the `gather` of `_settle`, over the waiters and the fan-out that were
there; or out of `__aexit__`. `torn` tells that `cancel_all_jobs` was called. -/
inductive Phase where
  | body
  | joining (watched : List JobId)
  | backstop (pending requests : List JobId)
  | draining (pending : List JobId)
  | unwinding (awaited : List JobId)
  | tearingDown (requests : List JobId)
  | reporting
  | settling (torn : Bool) (awaited : List JobId) (withFanout : Bool)
  | closed
deriving DecidableEq, Repr

/-- The requests that the owner's call has not seen answered. -/
def Phase.requests : Phase → List JobId
  | .backstop _ requests | .tearingDown requests => requests
  | _ => []

/-- The state of a `JobGroup`. -/
structure Group where
  onError : OnError
  hasDeadline : Bool
  detached : List JobId
  spawning : List Spawn
  waiters : List Waiter
  failures : List (JobId × Failure)
  cancelling : Bool
  fanout : Option (List JobId)
  adrift : List JobId
  phase : Phase
  raised : Option Raised
  issued : List JobId
  created : List JobId
  hit : List JobId
deriving DecidableEq, Repr

/-- What can happen to a scope. -/
inductive Event where
  | backend (op : TableOp)
  | spawn (record : Record)
  | enqueue (jobId : JobId)
  | spawned (jobId : JobId)
  | spawnFailed (jobId : JobId)
  | take (jobId : JobId)
  | report (jobId : JobId) (exceptional : Bool)
  | broke (jobId : JobId) (freed : Bool)
  | unwound (jobId : JobId)
  | notify (jobId : JobId)
  | fanout
  | fanoutRaised
  | late (jobId : JobId)
  | bodyDone
  | bodyRaised
  | joinWake
  | ask
  | askRaised
  | drained
  | reported
  | settled
  | deadline
  | cancel
  | resumed
deriving DecidableEq

/-- The record that `Task.submit` builds. -/
def submitted (record : Record) : Record :=
  { record with
    status := .created
    attempts := 0
    requestCancel := false
    error := none
    result := none }

namespace Group

/-- The ids of the handles of an entered scope, which has one waiter for each. -/
def handles (g : Group) : List JobId := g.waiters.map Waiter.jobId

/-- The ids in `_handles`. -/
def jobs (g : Group) : List JobId := g.detached ++ g.handles

/-- The spawn under way for `jobId`. -/
def spawnOf (g : Group) (jobId : JobId) : Option Spawn :=
  g.spawning.find? fun sp => sp.record.id == jobId

/-- The waiter of `jobId`. -/
def waiterOf (g : Group) (jobId : JobId) : Option Waiter :=
  g.waiters.find? fun w => w.jobId == jobId

/-- No handle and no spawn of the scope has this id. -/
def Fresh (g : Group) (jobId : JobId) : Prop :=
  jobId ∉ g.jobs ∧ ∀ sp ∈ g.spawning, sp.record.id ≠ jobId

instance (g : Group) (jobId : JobId) : Decidable (g.Fresh jobId) :=
  inferInstanceAs (Decidable (_ ∧ _))

/-- The waiters that are not done, among those of `jobIds`. -/
def undone (g : Group) (jobIds : List JobId) : List JobId :=
  (g.waiters.filter fun w => decide (w.jobId ∈ jobIds) && !w.done).map Waiter.jobId

def updateWaiter (g : Group) (jobId : JobId) (f : Waiter → Waiter) : Group :=
  { g with waiters := g.waiters.map fun w => if w.jobId = jobId then f w else w }

def updateSpawn (g : Group) (jobId : JobId) (f : Spawn → Spawn) : Group :=
  { g with spawning := g.spawning.map fun sp => if sp.record.id = jobId then f sp else sp }

/-- Cancel the waiters of `jobIds`. -/
def cancelWaiters (g : Group) (jobIds : List JobId) : Group :=
  { g with waiters := g.waiters.map fun w => if w.jobId ∈ jobIds then w.cancel else w }

/-! ### Spawning and waiting -/

/-- The end of `spawn`: the handle and its waiter are registered. -/
def register (g : Group) (jobId : JobId) : Group :=
  { g with
    spawning := g.spawning.filter fun sp => decide (sp.record.id ≠ jobId)
    waiters := g.waiters ++ [⟨jobId, none, .pending, false, g.cancelling, false⟩] }

/-- `_job_finished`. -/
def jobFinished (g : Group) (w : Waiter) : Group :=
  match w.state with
  | .pending | .unwinding | .returned _ | .cancelled => g
  | .raised failure =>
    -- a cancellation that this scope asked for is no failure
    if g.cancelling && decide (failure = .jobCancelled) then g
    else
      let failures := g.failures ++ [(w.jobId, failure)]
      if g.cancelling then { g with failures := failures }
      else
        -- the waiters that there are now
        let stillRunning := g.undone g.handles
        { g with
          failures := failures
          cancelling := true
          fanout := some stillRunning
          issued := g.issued ++ stillRunning }

/-- A request of this scope takes effect on a record. -/
def flagged (t : Table) (g : Group) (jobId : JobId) : Group :=
  match t jobId with
  | some r => if r.status.terminal then g else { g with hit := g.hit ++ [jobId] }
  | none => g

/-- The job whose record a request of an event reaches. -/
def asks (g : Group) : Event → Option JobId
  | .fanout => g.fanout.bind List.head?
  | .ask => g.phase.requests.head?
  | .late jobId => some jobId
  | _ => none

/-! ### Leaving -/

/-- The `request_cancel_many` that the owner awaits raises or is cancelled. -/
def dropCall (g : Group) : Group := { g with adrift := g.adrift ++ g.phase.requests }

/-- The `request_cancel_many` of the fan-out raises or is cancelled. -/
def dropFanout (g : Group) : Group :=
  { g with adrift := g.adrift ++ g.fanout.getD [], fanout := some [] }

/-- `_settle`. -/
def settle (g : Group) (torn : Bool) : Group :=
  { g.cancelWaiters g.handles with phase := .settling torn g.handles g.fanout.isSome }

/-- `cancel_all_jobs`. -/
def cancelAllJobs (g : Group) : Group :=
  { g with
    phase := .tearingDown g.jobs
    issued := g.issued ++ g.jobs }

/-- The rest of `__aexit__` after `_join` returned `failures`. -/
def joined (g : Group) (failures : List (JobId × Failure)) : Group :=
  { g with raised := if failures = [] then none else some (.group failures) }.settle false

/-- `asyncio.wait(..., FIRST_EXCEPTION)` wakes: it has been called back for a waiter
that raised, or for all of them. Its callback runs right after `_job_finished`. -/
def firstException (g : Group) (watched : List JobId) : Bool :=
  (g.waiters.any fun w => decide (w.jobId ∈ watched) && w.notified && w.failed) ||
    g.waiters.all fun w => decide (w.jobId ∉ watched) || w.notified

/-- `cancel_siblings_mode`, when its `asyncio.wait` wakes. -/
def cancelSiblingsMode (g : Group) (watched : List JobId) : Group :=
  match g.undone watched with
  | [] => g.joined g.failures
  | jobId :: rest =>
    if g.cancelling then { g with phase := .draining (jobId :: rest) }
    else
      -- a failure that lands just as the join arrives
      { g with
        cancelling := true
        issued := g.issued ++ jobId :: rest
        phase := .backstop (jobId :: rest) (jobId :: rest) }

/-- The exceptions among the results that `gather` collected. -/
def exceptions (g : Group) (watched : List JobId) : List (JobId × Failure) :=
  g.waiters.filterMap fun w =>
    match w.state with
    | .raised failure => if w.jobId ∈ watched then some (w.jobId, failure) else none
    | .returned true => if w.jobId ∈ watched then some (w.jobId, .value) else none
    | _ => none

/-- `_join`, when what it awaits first wakes it. -/
def joinWake (g : Group) (watched : List JobId) : Option Group :=
  match g.onError with
  | .cancelSiblings =>
    if g.firstException watched then some (g.cancelSiblingsMode watched) else none
  | .ignore => if g.undone watched = [] then some (g.joined []) else none
  | .collect =>
    if g.undone watched = [] then some (g.joined (g.exceptions watched)) else none

/-- The waiters that the join awaits through a `gather`: it takes them along when it is
cancelled, which `asyncio.wait` does not. -/
def gathering (g : Group) : List JobId :=
  match g.phase, g.onError with
  | .joining _, .cancelSiblings => []
  | .joining watched, _ => watched
  | .draining pending, _ => pending
  | _, _ => []

/-- `_join` is cancelled, by its timer or with its owner. -/
def interrupt (g : Group) (raised : Raised) : Group :=
  { g.dropCall.cancelWaiters g.gathering with
    phase := .unwinding g.gathering
    raised := some raised }

/-- `__aexit__` after a body that returned. -/
def leaveBody (g : Group) : Group :=
  if g.jobs = [] then g.settle false
  else if g.onError = .cancelSiblings ∧ g.handles = [] then
    -- `asyncio.wait` refuses an empty set
    { g with raised := some .emptyWait }.settle false
  else { g with phase := .joining g.handles }

/-- The owning task is inside `_join`. -/
def inJoin (g : Group) : Bool :=
  match g.phase with
  | .joining _ | .backstop _ _ | .draining _ => true
  | _ => false

end Group

/-! ## The machine -/

/-- A scope and the records of its backend. -/
structure System where
  table : Table
  group : Group

namespace System

/-- A step in which the scope does nothing to the records. -/
def moveTo (s : System) (g : Group) : System := ⟨s.table, g⟩

/-- One request of a `request_cancel_many` takes effect; `g` is the scope without it. -/
def flag (s : System) (jobId : JobId) (g : Group) : System :=
  ⟨(TableOp.flag jobId).effect s.table, g.flagged s.table jobId⟩

/-- The record of `jobId` is terminal. -/
def finished (s : System) (jobId : JobId) : Option JobStatus :=
  (s.table jobId).bind fun r => if r.status.terminal then some r.status else none

/-- One event. -/
def step (s : System) : Event → Option System
  | .backend op =>
    match op with
    -- ids are generated: nobody else enqueues under one of the scope's
    | .create record =>
      if s.group.Fresh record.id then some ⟨op.effect s.table, s.group⟩ else none
    | _ => some ⟨op.effect s.table, s.group⟩
  | .spawn record =>
    if s.group.Fresh record.id then
      some (s.moveTo
        { s.group with spawning := s.group.spawning ++ [⟨submitted record, false, false⟩] })
    else none
  | .enqueue jobId =>
    match s.group.spawnOf jobId with
    | some sp =>
      if sp.stored then none
      else
        -- also when the spawn has been abandoned meanwhile
        let g := s.group.updateSpawn jobId fun sp => { sp with stored := true }
        some ⟨(TableOp.create sp.record).effect s.table,
          if s.table jobId = none then { g with created := g.created ++ [jobId] } else g⟩
    | none => none
  | .spawned jobId =>
    match s.group.spawnOf jobId with
    | some sp =>
      if sp.stored && !sp.abandoned then some (s.moveTo (s.group.register jobId)) else none
    | none => none
  | .spawnFailed jobId =>
    match s.group.spawnOf jobId with
    | some sp =>
      if sp.abandoned then none
      else some (s.moveTo (s.group.updateSpawn jobId fun sp => { sp with abandoned := true }))
    | none => none
  | .take jobId =>
    match s.group.waiterOf jobId, s.finished jobId with
    | some w, some status =>
      if w.cached = none then
        some ⟨(TableOp.free jobId).effect s.table, s.group.updateWaiter jobId (Waiter.take status)⟩
      else none
    | _, _ => none
  | .report jobId exceptional =>
    match s.group.waiterOf jobId with
    | some w =>
      if w.state = .pending ∧ w.cached ≠ none then
        some (s.moveTo (s.group.updateWaiter jobId (Waiter.report exceptional)))
      else none
    | none => none
  | .broke jobId freed =>
    -- `freed`: the record was fetched and deleted, but the reply was lost
    match s.group.waiterOf jobId with
    | some w =>
      if w.done = false ∧ w.cached = none ∧ (freed = true → s.finished jobId ≠ none) then
        some ⟨if freed then (TableOp.free jobId).effect s.table else s.table,
          s.group.updateWaiter jobId (Waiter.breaks s.group.issued)⟩
      else none
    | none => none
  | .unwound jobId =>
    match s.group.waiterOf jobId with
    | some w =>
      if w.state = .unwinding then some (s.moveTo (s.group.updateWaiter jobId Waiter.unwound))
      else none
    | none => none
  | .notify jobId =>
    -- `spawn` adds the callback in one mode only
    match s.group.waiterOf jobId with
    | some w =>
      if s.group.onError = .cancelSiblings ∧ w.done = true ∧ w.notified = false then
        some (s.moveTo
          ((s.group.updateWaiter jobId fun w => { w with notified := true }).jobFinished w))
      else none
    | none => none
  | .fanout =>
    match s.group.fanout with
    | some (jobId :: rest) => some (s.flag jobId { s.group with fanout := some rest })
    | _ => none
  | .fanoutRaised =>
    match s.group.fanout with
    | some (_ :: _) => some (s.moveTo s.group.dropFanout)
    | _ => none
  | .late jobId =>
    if jobId ∈ s.group.adrift then
      some (s.flag jobId { s.group with adrift := s.group.adrift.erase jobId })
    else none
  | .bodyDone =>
    match s.group.phase with
    | .body => some (s.moveTo s.group.leaveBody)
    | _ => none
  | .bodyRaised =>
    match s.group.phase with
    | .body => some (s.moveTo { s.group with raised := some .body }.cancelAllJobs)
    | _ => none
  | .joinWake =>
    match s.group.phase with
    | .joining watched => (s.group.joinWake watched).map s.moveTo
    | _ => none
  | .ask =>
    match s.group.phase with
    | .backstop pending (jobId :: rest) =>
      some (s.flag jobId { s.group with phase := .backstop pending rest })
    | .backstop pending [] => some (s.moveTo { s.group with phase := .draining pending })
    | .tearingDown (jobId :: rest) =>
      some (s.flag jobId { s.group with phase := .tearingDown rest })
    | .tearingDown [] =>
      some (s.moveTo
        (if s.group.waiters = [] then s.group.settle true
          else { s.group with phase := .reporting }))
    | _ => none
  | .askRaised =>
    match s.group.phase with
    | .backstop _ _ =>
      some (s.moveTo ({ s.group.dropCall with raised := some .request }.settle false))
    | .tearingDown _ =>
      some (s.moveTo ({ s.group.dropCall with raised := some .request }.settle true))
    | _ => none
  | .drained =>
    match s.group.phase with
    | .draining pending =>
      if s.group.undone pending = [] then some (s.moveTo (s.group.joined s.group.failures))
      else none
    | _ => none
  | .reported =>
    match s.group.phase with
    -- also when the wait timed out
    | .reporting => some (s.moveTo (s.group.settle true))
    | _ => none
  | .settled =>
    match s.group.phase with
    -- the `gather` includes the fan-out only if `_settle` found one
    | .settling _ awaited withFanout =>
      if s.group.undone awaited = [] ∧ (withFanout = true → s.group.fanout = some []) then
        some (s.moveTo { s.group with phase := .closed })
      else none
    | _ => none
  | .deadline =>
    if s.group.hasDeadline && s.group.inJoin then some (s.moveTo (s.group.interrupt .timeout))
    else none
  | .cancel =>
    if s.group.inJoin then some (s.moveTo (s.group.interrupt .cancelled))
    else
      match s.group.phase with
      | .unwinding _ => some (s.moveTo { s.group with raised := some .cancelled })
      | .tearingDown _ | .reporting =>
        some (s.moveTo ({ s.group.dropCall with raised := some .cancelled }.settle true))
      | .settling _ _ withFanout =>
        -- the `gather` cancels what it awaits, and goes on waiting for it
        let g := if withFanout then s.group.dropFanout else s.group
        some (s.moveTo { g with raised := some .cancelled })
      | _ => none
  | .resumed =>
    match s.group.phase with
    | .unwinding awaited =>
      if s.group.undone awaited = [] then some (s.moveTo s.group.cancelAllJobs) else none
    | _ => none

end System

/-- A scope just entered, with what was spawned through it before. -/
def Group.enter (onError : OnError) (hasDeadline : Bool) (detached : List JobId) : Group where
  onError := onError
  hasDeadline := hasDeadline
  detached := detached
  spawning := []
  waiters := []
  failures := []
  cancelling := false
  fanout := none
  adrift := []
  phase := .body
  raised := none
  issued := []
  created := []
  hit := []

/-- A scope over any records. -/
def machine (table : Table) (onError : OnError) (hasDeadline : Bool) (detached : List JobId) :
    Machine System Event where
  init := ⟨table, .enter onError hasDeadline detached⟩
  step := System.step

/-! ## Pieces of runs -/

/-- The record of a child. -/
def child (jobId : JobId) : Record where
  id := jobId
  taskName := "task"
  createdAt := "0"
  status := .created
  attempts := 0
  requestCancel := false
  payload := []
  groupId := none
  error := none
  result := none

/-- The body spawns a child. -/
def spawns (jobId : JobId) : List Event :=
  [.spawn (child jobId), .enqueue jobId, .spawned jobId]

/-- A worker claims the child, whose body raises, and its waiter takes the result. -/
def fails (jobId : JobId) : List Event :=
  [.backend (.claim jobId), .backend (.write ((child jobId).settle [] (.raised "boom"))),
    .take jobId, .report jobId false]

end TaskQueue.Scope
