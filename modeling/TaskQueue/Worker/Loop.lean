import TaskQueue.Redis.Server

/-!
# One claim loop (`Worker._worker_loop`, `_process`, `_run`, `RedisBackend.claim`)

A claim loop as a coroutine: its `Phase` says at which `await` it stands, a
phase that waits for the server has a pending `Request`, and `Phase.resume`
says where the loop goes when that round trip ends. A round trip ends in one of
three ways (`Outcome`), two of which do not say whether the server executed the
request: the call may raise, and the loop's task may be cancelled, before or
after the request took effect. What the loop does without the server is
`Phase.move`.

The paths through the `except` clauses:

- `claim`: an error of the `BLMOVE` itself is logged and the loop tries again. An
  `Exception` from the claim script sends the compensating `MULTI`
  (`returning`), whose own failure is suppressed; a `CancelledError` is not an
  `Exception`, so a loop cancelled there ends without it.
- `_process`: a record that `Job.from_record` cannot decode raises, and the loop
  logs it and claims again.
- `_run`: a pre-cancelled job and an unknown task are saved outside the `try`
  (`Attempt.early`), and a task that cannot be called with its arguments raises outside of
  it; a first terminal save that raises, a result that cannot be serialized and a body that
  raises all lead to the FAILED save of the handler (`Attempt.fallback`), whose own error
  leaves `_run`. So do arguments that the body has made unserializable and an exception whose
  `str()` raises (`Move.unsendable`). A body may also end in what is no `Exception`
  (a `BaseExceptionGroup`): no clause catches it, and it ends the loop's task (`dying`).
- A `CancelledError` after `claim` returned leads to `release`, which is
  shielded: once issued it runs on even when the loop's task ends.

The body of the job and its cancel watcher are one phase (`running`), left by
whatever `_run` makes of them (`BodyOutcome`). What a pool makes of a record is its
`PoolConfig`.
-/

namespace TaskQueue.Worker

open Redis

/-- What a pool was built with: the names in its `_task_registry`; which payloads and which
results its serializer loads, and the arguments of which payloads it dumps again; and which
task can be called with the arguments of which payload. -/
structure PoolConfig where
  registered : String → Bool
  loadsPayload : Blob → Bool
  loadsResult : Blob → Bool
  redumps : Blob → Bool
  binds : String → Blob → Bool

namespace PoolConfig

/-- `Job.from_record` succeeds. -/
def decodes (c : PoolConfig) (r : Record) : Bool :=
  c.loadsPayload r.payload && r.result.all c.loadsResult

/-- `_run` saves the job or runs it: it does not raise before either. -/
def takesOn (c : PoolConfig) (r : Record) : Bool :=
  if r.requestCancel || !c.registered r.taskName then c.redumps r.payload
  else c.binds r.taskName r.payload

/-- `_process` saves the job or runs it. -/
def serves (c : PoolConfig) (r : Record) : Bool := c.decodes r && c.takesOn r

end PoolConfig

/-- How a round trip ended for the loop that awaited it. `effect` tells whether
the server executed the request, `error` is the `str()` of what was raised, if that does not
raise in turn. -/
inductive Outcome where
  | reply
  | raised (effect : Bool) (error : Option String)
  | cancelled (effect : Bool)
deriving DecidableEq, Repr

/-- Whether the server executed the request. -/
def Outcome.effect : Outcome → Bool
  | .reply => true
  | .raised effect _ | .cancelled effect => effect

/-- Which of the terminal saves of `_run` is being made. -/
inductive Attempt where
  | early
  | first
  | fallback
deriving DecidableEq, Repr

/-- Where a claim loop stands: `idle` is the head of `while self._running` or a
pause before it, `polling` the `BLMOVE`. `acked` records that a save of this
delivery has already run its `LREM` on the server. -/
inductive Phase where
  | idle
  | polling
  | claiming (jobId : JobId)
  | returning (jobId : JobId)
  | discarding (jobId : JobId)
  | decoding (record : Record)
  | running (record : Record)
  | saving (write : Finished) (attempt : Attempt) (acked : Bool)
  | unwinding (jobId : JobId) (acked : Bool)
  | dying (jobId : JobId)
  | releasing (jobId : JobId) (acked : Bool)
  | ended
deriving DecidableEq

namespace Phase

/-- The request whose reply the loop awaits. -/
def request (worker : InstanceId) (resultTtl : Nat) : Phase → Option Request
  | .polling => some (.blmove worker)
  | .claiming jobId => some (.claim jobId)
  | .returning jobId => some (.returnLease worker jobId)
  | .discarding jobId => some (.discardLease worker jobId)
  | .saving write _ _ => some (.save worker write resultTtl)
  | .releasing jobId _ => some (.release worker jobId)
  | .idle | .decoding _ | .running _ | .unwinding _ _ | .dying _ | .ended => none

/-- `str(KeyError(f"job {job_id!r} not found"))`. -/
def notFoundText (jobId : JobId) : String := "\"job '" ++ jobId ++ "' not found\""

/-- `_run` after the terminal save of `write` raised `error`. -/
def saveFailed (write : Finished) (acked : Bool) (error : Option String) : Attempt → Phase
  | .early => .idle
  | .first =>
    match error with
    | some error => .saving (write.fallback error) .fallback acked
    | none => .unwinding write.record.id acked
  | .fallback => .unwinding write.record.id acked

/-- `_run` after a terminal save succeeded: inside the `try` the `finally` still
waits for the watcher to unwind. -/
def saveDone (write : Finished) : Attempt → Phase
  | .early => .idle
  | .first | .fallback => .unwinding write.record.id true

/-- Where the loop goes when its pending round trip ends in `o`; `reply` is what
the server answered, if it executed the request. -/
def resume : Phase → Outcome → Reply → Phase
  | .polling, .reply, r =>
    match r with
    | .jobId jobId => .claiming jobId
    | _ => .idle
  | .polling, .raised _ _, _ => .idle
  | .polling, .cancelled _, _ => .ended
  | .claiming jobId, .reply, r =>
    match r with
    | .record record => .decoding record
    | _ => .discarding jobId
  | .claiming jobId, .raised _ _, _ => .returning jobId
  | .claiming _, .cancelled _, _ => .ended
  | .returning _, .cancelled _, _ => .ended
  | .returning _, _, _ => .idle
  | .discarding _, .cancelled _, _ => .ended
  | .discarding _, _, _ => .idle
  | .saving write attempt acked, o, r =>
    let acked := acked || (o.effect && decide (r = .code 1))
    match o with
    | .reply =>
      if r = .code 1 then saveDone write attempt
      else saveFailed write acked (some (notFoundText write.record.id)) attempt
    | .raised _ error => saveFailed write acked error attempt
    | .cancelled _ => .releasing write.record.id acked
  | .releasing _ _, _, _ => .ended
  | p, _, _ => p

/-- `_run` saves a job that it does not start. The record is made before anything is sent;
`payload` is the payload in it, serialized again. -/
def earlySave (c : PoolConfig) (payload : Blob) (record : Record) (o : BodyOutcome) : Phase :=
  if c.redumps record.payload then .saving (record.settle payload o) .early false else .idle

/-- `_run` up to its first `await`, for a record that was decoded. -/
def dispatch (c : PoolConfig) (payload : Blob) (record : Record) : Phase :=
  if record.requestCancel then
    earlySave c payload record .cancelled
  else if c.registered record.taskName then
    -- `task(*job.args, **job.kwargs)` is evaluated before the `try`
    if c.binds record.taskName record.payload then .running record else .idle
  else
    earlySave c payload record
      (.raised ("no task is registered under the name '" ++ record.taskName ++ "'"))

/-- `_run` runs the job, makes an early save, or raises. -/
theorem dispatch_cases (c : PoolConfig) (payload : Blob) (record : Record) :
    dispatch c payload record = .running record ∧ record.requestCancel = false ∨
      (∃ o, dispatch c payload record = .saving (record.settle payload o) .early false) ∨
      dispatch c payload record = .idle ∧ c.takesOn record = false := by
  unfold dispatch earlySave PoolConfig.takesOn
  by_cases hcancel : record.requestCancel = true
  · by_cases hdumps : c.redumps record.payload = true <;> simp [hcancel, hdumps]
  · by_cases hreg : c.registered record.taskName = true
    · by_cases hbinds : c.binds record.taskName record.payload = true <;>
        simp [hcancel, hreg, hbinds]
    · by_cases hdumps : c.redumps record.payload = true <;> simp [hcancel, hreg, hdumps]

end Phase

/-- What a loop does between two requests: enter the loop's body; find `_running`
False; deserialize the claimed record; see the job's body end, in an outcome that `_run`
can send, in one that it cannot, or in what is no `Exception`; see
the cancel watcher unwound; be cancelled where no request is outstanding. -/
inductive Move where
  | poll
  | leave
  | decode (payload : Blob)
  | finish (payload : Blob) (o : BodyOutcome)
  | unsendable
  | fatal
  | unwound
  | cancel
deriving DecidableEq, Repr

namespace Phase

/-- The save that follows the end of a body: what it raised is caught by the handler. -/
def attemptOf : BodyOutcome → Attempt
  | .raised _ => .fallback
  | .completed _ | .cancelled => .first

/-- Where a move takes a loop of the pool. -/
def move (c : PoolConfig) : Phase → Move → Option Phase
  | .idle, .poll => some .polling
  | .idle, .leave | .idle, .cancel => some .ended
  | .decoding record, .decode payload =>
    some (if c.decodes record then dispatch c payload record else .idle)
  | .running record, .finish payload o =>
    some (.saving (record.settle payload o) (attemptOf o) false)
  | .running record, .unsendable => some (.unwinding record.id false)
  | .running record, .fatal => some (.dying record.id)
  | .running record, .cancel => some (.releasing record.id false)
  | .unwinding _ _, .unwound => some .idle
  | .dying _, .unwound => some .ended
  | .unwinding jobId acked, .cancel => some (.releasing jobId acked)
  -- the cancellation replaces the exception that was on its way
  | .dying jobId, .cancel => some (.releasing jobId false)
  | _, _ => none

/-- What becomes of a loop that decodes a record. -/
theorem move_decoding {c : PoolConfig} {record : Record} {m : Move} {p : Phase}
    (h : (decoding record).move c m = some p) :
    p = .running record ∧ record.requestCancel = false ∨
      (∃ payload o, p = .saving (record.settle payload o) .early false) ∨ p = .idle := by
  cases m with
  | decode payload =>
    cases h
    split
    case isFalse => exact Or.inr (Or.inr rfl)
    case isTrue =>
      rcases dispatch_cases c payload record with hrun | ⟨o, hsave⟩ | ⟨hidle, -⟩
      · exact Or.inl hrun
      · exact Or.inr (Or.inl ⟨payload, o, hsave⟩)
      · exact Or.inr (Or.inr hidle)
  | _ => cases h

/-- The job whose delivery the loop is handling: from its `BLMOVE` to the save,
release or return that settles it. -/
def handles : Phase → Option JobId
  | .claiming jobId | .returning jobId | .discarding jobId => some jobId
  | .decoding record | .running record => some record.id
  | .saving write _ _ => some write.record.id
  | .unwinding jobId _ | .dying jobId | .releasing jobId _ => some jobId
  | .idle | .polling | .ended => none

/-- A save of the delivery has already taken the id off the worker's list. -/
def acked : Phase → Bool
  | .saving _ _ acked | .unwinding _ acked | .releasing _ acked => acked
  | _ => false

/-- The job that the loop is delivering: it handles the job and has not saved it. -/
def delivery (p : Phase) : Option JobId := if p.acked then none else p.handles

end Phase

end TaskQueue.Worker
