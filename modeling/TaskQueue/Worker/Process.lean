import TaskQueue.Library.Coroutine
import TaskQueue.Redis.Server

/-!
# The claim loop as a coroutine (`Worker._worker_loop`, `_process`, `_run`, `_save`)

The code between two `await`s, line by line: `run` starts the body and the cancel watcher,
waits, and saves what came of it, and its `try`, `except` and `finally` decide which
exception leaves it. What an `await` does is the environment's part (`env`):

- the body (`Conduct`) ends in a value or in any exception, unwinds as it likes once it is
  cancelled, and may mutate the argument objects it was given as long as it runs;
- the watcher may return, fail, or go on waiting;
- other clients use the database, but leave this job's status and its place in the lists
  as they are (`Elsewhere`);
- the loop's task may be cancelled at any `await` (`cancels`), and a call of the backend
  may raise (`faults`), before or after it took effect.

Exceptions are told apart as far as the `except` clauses do: a `CancelledError`, an
`Exception`, or a `BaseExceptionGroup` that is no `Exception`.
-/

namespace TaskQueue.Worker.Process

open Redis Placement Routine

/-! ## Values and jobs -/

/-- An `Exception`. `text` is its `str()`, which may itself raise. -/
structure Raised where
  text : Option String
deriving DecidableEq, Repr

/-- Exceptions, as the `except` clauses tell them apart. -/
inductive Exc where
  | cancelled
  | raised (e : Raised)
  | group
deriving DecidableEq, Repr

/-- The argument objects of a job. -/
structure Args (Value : Type) where
  args : List Value
  kwargs : List (String × Value)
deriving DecidableEq, Repr

/-- `Serializer`: its codec for results, and for the payload `{"args": ..., "kwargs": ...}`.
What `loads` returns can be represented. -/
structure Serializer (Value : Type) where
  dumps : Value → Except Raised Blob
  loads : Blob → Except Raised Value
  dumpsPayload : Args Value → Except Raised Blob
  loadsPayload : Blob → Except Raised (Args Value)
  none : Value
  lawful : ∀ {blob args}, loadsPayload blob = .ok args → ∃ blob', dumpsPayload args = .ok blob'

/-- A `Job`, without its argument objects, which the body can reach as well. -/
structure Job (Value : Type) where
  id : JobId
  taskName : String
  createdAt : String
  status : JobStatus
  result : Value
  error : Option String
  attempts : Int
  requestCancel : Bool
  groupId : Option String

variable {Value : Type}

/-- `Job.from_record`. -/
def fromRecord (S : Serializer Value) (record : Record) :
    Except Raised (Job Value × Args Value) := do
  let args ← S.loadsPayload record.payload
  let result ← match record.result with
    | some raw => S.loads raw
    | none => .ok S.none
  return ({ id := record.id, taskName := record.taskName, createdAt := record.createdAt,
            status := record.status, result := result, error := record.error,
            attempts := record.attempts, requestCancel := record.requestCancel,
            groupId := record.groupId }, args)

/-- `Job.to_record`. -/
def toRecord (S : Serializer Value) (job : Job Value) (args : Args Value) :
    Except Raised Record := do
  let payload ← S.dumpsPayload args
  let result ← if job.status = .completed then some <$> S.dumps job.result else .ok none
  return { id := job.id, taskName := job.taskName, createdAt := job.createdAt,
           status := job.status, attempts := job.attempts, requestCancel := job.requestCancel,
           payload := payload, groupId := job.groupId, error := job.error, result := result }

/-! ## Operations -/

/-- The two tasks that `_run` creates. -/
inductive TaskName where
  | job
  | watcher
deriving DecidableEq, Repr

/-- What the loop does other than compute: `wait` is the `asyncio.wait` for the first of
the two tasks, `waitUnwind` the one with a time-out, `cancel` is `Task.cancel`. -/
inductive Op (Value : Type) where
  | running
  | claim
  | sleep
  | newArgs (args : Args Value)
  | args
  | startWatcher
  | startBody (args : Args Value)
  | wait
  | watcherException
  | awaitBody
  | bodyResult
  | waitUnwind
  | cancel (tasks : List TaskName)
  | gather (tasks : List TaskName)
  | save (jobId : JobId) (record : Record)
  | release (jobId : JobId)

/-- The answers. `wait` tells which of the tasks are done, the job's first; `waitUnwind`
whether the job's is not. -/
abbrev Answer : Op Value → Type
  | .running => Bool
  | .claim => Option Record
  | .args => Args Value
  | .wait => Bool × Bool
  | .watcherException => Option Exc
  | .awaitBody | .bodyResult => Value
  | .waitUnwind => Bool
  | .sleep | .newArgs _ | .startWatcher | .startBody _ | .cancel _ | .gather _ | .save _ _
  | .release _ => Unit

/-- The local variables `job` and `pending`. -/
structure Frame (Value : Type) where
  job : Job Value
  pending : List TaskName

/-- A coroutine of the loop. -/
abbrev Loop (Value α : Type) := Routine (Op Value) Answer (Frame Value) Exc α

/-- Perform an operation. -/
abbrev op (q : Op Value) : Loop Value (Answer q) := call q

/-- The pool: its serializer, the names in its task registry, and the backend's instance
id and `result_ttl`. -/
structure Pool (Value : Type) where
  serializer : Serializer Value
  registry : String → Bool
  worker : InstanceId
  resultTtl : Nat

/-! ## The program -/

/-- Assign to attributes of `job`. -/
def setJob (g : Job Value → Job Value) : Loop Value Unit :=
  assign fun f => { f with job := g f.job }

/-- Assign `pending`. -/
def setPending (pending : List TaskName) : Loop Value Unit :=
  assign fun f => { f with pending := pending }

/-- `str(e)`. -/
def str (e : Raised) : Except Exc String :=
  match e.text with
  | some text => .ok text
  | none => .error (.raised e)

/-- The `Exception` of a computation as what it raises. -/
def raising {α : Type} (r : Except Raised α) : Loop Value α :=
  lift (r.mapError Exc.raised)

/-- Whether `job_task in done`, after the unwatched wait if the watcher failed. -/
def bodyDone (done : Bool × Bool) : Loop Value Bool :=
  if done.2 && !done.1 then do
    let failure : Option Exc ← op .watcherException
    match failure with
    | some _ => do
      let _result : Value ← op .awaitBody
      pure true
    | none => pure false
  else
    pure done.1

/-- The body is done. -/
def complete : Loop Value Unit := do
  let result : Value ← op .bodyResult
  setJob fun job => { job with result := result }
  setJob fun job => { job with status := .completed }

/-- The job was cancelled. -/
def abandon : Loop Value Unit := do
  op (.cancel [.job])
  let _unwound : Bool ← op .waitUnwind
  setJob fun job => { job with status := .cancelled }

/-- The `try` block of `_run`, up to its save. -/
def attend : Loop Value Unit := do
  let done : Bool × Bool ← op .wait
  setPending ((if done.1 then [] else [.job]) ++ if done.2 then [] else [.watcher])
  let jobDone ← bodyDone done
  if jobDone then complete else abandon

/-- The `finally` clause of `_run`. -/
def cleanup : Loop Value Unit := do
  let f ← locals
  op (.cancel f.pending)
  op (.gather f.pending)

/-- The `except CancelledError` clause of `_worker_loop`. -/
def handBack (jobId : JobId) : Loop Value Unit := do
  tryExcept (op (.release jobId)) fun
    | .cancelled => raise .cancelled
    -- a `KeyError`, or any other `Exception`, is logged
    | .raised _ => pure ()
    | .group => raise .group
  raise .cancelled

/-- `f"no task is registered under the name {job.task_name!r}"`. -/
def unknownTask (taskName : String) : String :=
  "no task is registered under the name '" ++ taskName ++ "'"

namespace Pool

variable (pool : Pool Value)

/-- `Worker._save`. -/
def save : Loop Value Unit := do
  let f ← locals
  let args : Args Value ← op .args
  let record ← raising (toRecord pool.serializer f.job args)
  op (.save f.job.id record)

/-- The `except` clauses of `_run`. -/
def failed : Exc → Loop Value Unit
  | .cancelled => raise .cancelled
  | .raised e => do
    let text ← lift (str e)
    setJob fun job => { job with error := some text }
    setJob fun job => { job with status := .failed }
    pool.save
  | .group => raise .group

/-- The `try` statement of `_run`. -/
def guarded : Loop Value Unit :=
  tryFinally (tryExcept (do attend; pool.save) pool.failed) cleanup

/-- `Worker._run`. -/
def run : Loop Value Unit := do
  let f ← locals
  if f.job.requestCancel then do
    setJob fun job => { job with status := .cancelled }
    pool.save
  else if pool.registry f.job.taskName then do
    op .startWatcher
    let args : Args Value ← op .args
    op (.startBody args)
    setPending [.job, .watcher]
    pool.guarded
  else do
    setJob fun job => { job with error := some (unknownTask job.taskName) }
    setJob fun job => { job with status := .failed }
    pool.save

/-- `Worker._process`. -/
def process (record : Record) : Loop Value Unit := do
  let p ← raising (fromRecord pool.serializer record)
  setJob fun _ => p.1
  op (.newArgs p.2)
  pool.run

/-- The loop's body after a record was claimed. -/
def handle (record : Record) : Loop Value Unit :=
  tryExcept (pool.process record) fun
    | .cancelled => handBack record.id
    | .raised _ => pure ()
    | .group => raise .group

/-- One turn of the loop. -/
def turn : Loop Value Unit := do
  let claimed : Option Record ← tryExcept (op .claim) fun
    | .cancelled => raise .cancelled
    | .raised _ => do
      op .sleep
      pure none
    | .group => raise .group
  match claimed with
  | none => pure ()
  | some record => pool.handle record

/-- `Worker._worker_loop` for at most `n` turns; whether it has ended by then. -/
def workerLoop : Nat → Loop Value Bool
  | 0 => pure false
  | n + 1 => do
    let running : Bool ← op .running
    if running then do
      pool.turn
      workerLoop n
    else
      pure true

/-- The delivery of `record` starts the body: the record decodes, was not cancelled before,
names a registered task, and the call of the task can be made. -/
structure Starts (record : Record) (job : Job Value) (args : Args Value) : Prop where
  decodes : fromRecord pool.serializer record = .ok (job, args)
  wanted : job.requestCancel = false
  registered : pool.registry job.taskName = true
  binds : "self" ∉ args.kwargs.map Prod.fst

end Pool

/-! ## The environment -/

/-- An `asyncio.Task`; `cancelled` tells whether its `cancel` was called. -/
inductive TaskState (α : Type) where
  | absent
  | running (cancelled : Bool)
  | done (r : Except Exc α)

namespace TaskState

variable {α : Type}

/-- `Task.cancel`. -/
def cancel : TaskState α → TaskState α
  | running _ => running true
  | t => t

/-- `Task.done`. -/
def isDone : TaskState α → Bool
  | done _ => true
  | _ => false

/-- The task runs. -/
def isRunning : TaskState α → Bool
  | running _ => true
  | _ => false

end TaskState

/-- What a body may do: how it ends left alone, how it ends once it was cancelled, and what
it may make of its arguments meanwhile. The endings come with the arguments they leave. -/
structure Conduct (Value : Type) where
  ends : Except Exc Value → Args Value → Prop
  unwinds : Except Exc Value → Args Value → Prop
  mutates : Args Value → Prop

/-- The world of one delivery: the database, the pool's `_running`, whether the loop's task
was cancelled, the two tasks of `_run`, the body's conduct, and the argument objects as
they are. `saves` counts the terminal saves that took effect, `released` tells that the
release was issued, and `early` that the body ran then. -/
structure World (Value : Type) where
  store : Store
  jobId : JobId
  running : Bool
  stopped : Bool
  body : TaskState Value
  watcher : TaskState Unit
  conduct : Conduct Value
  args : Args Value
  saves : Nat
  released : Bool
  early : Bool

/-- Other clients leave the job's status and its place in the lists as they are. -/
structure Elsewhere (jobId : JobId) (st st' : Store) : Prop where
  status : (st'.jobs jobId).map (fun e => e.record.status) =
    (st.jobs jobId).map (fun e => e.record.status)
  place : ∀ key, occ st'.lists jobId key = occ st.lists jobId key

/-- What the body may have done by the next time the loop runs. -/
inductive BodyStep (c : Conduct Value) :
    TaskState Value → Args Value → TaskState Value → Args Value → Prop where
  | rests (t : TaskState Value) (args : Args Value) : BodyStep c t args t args
  | goesOn (b : Bool) (args args' : Args Value) (h : c.mutates args') :
      BodyStep c (.running b) args (.running b) args'
  | ends (b : Bool) (args : Args Value) (r : Except Exc Value) (args' : Args Value)
      (h : c.ends r args') : BodyStep c (.running b) args (.done r) args'
  | unwinds (args : Args Value) (r : Except Exc Value) (args' : Args Value)
      (h : c.unwinds r args') : BodyStep c (.running true) args (.done r) args'
  /-- It had not begun, or does nothing about its cancellation. -/
  | cancelled (args : Args Value) :
      BodyStep c (.running true) args (.done (.error .cancelled)) args

/-- What the watcher may have done. -/
inductive WatcherStep : TaskState Unit → TaskState Unit → Prop where
  | rests (t : TaskState Unit) : WatcherStep t t
  | returns (b : Bool) : WatcherStep (.running b) (.done (.ok ()))
  | fails (b : Bool) (e : Raised) : WatcherStep (.running b) (.done (.error (.raised e)))
  | unwinds : WatcherStep (.running true) (.done (.error .cancelled))

/-- What may have happened while the loop awaited something. -/
structure Drift (w w' : World Value) : Prop where
  store : Elsewhere w.jobId w.store w'.store
  running : w'.running = true → w.running = true
  body : BodyStep w.conduct w.body w.args w'.body w'.args
  watcher : WatcherStep w.watcher w'.watcher
  jobId : w'.jobId = w.jobId
  stopped : w'.stopped = w.stopped
  conduct : w'.conduct = w.conduct
  saves : w'.saves = w.saves
  released : w'.released = w.released
  early : w'.early = w.early

namespace World

/-- The loop's task is cancelled. -/
def stop (w : World Value) : World Value := { w with stopped := true }

/-- `cancel` on each of the tasks. -/
def cancel (w : World Value) (tasks : List TaskName) : World Value :=
  { w with
    body := if .job ∈ tasks then w.body.cancel else w.body
    watcher := if .watcher ∈ tasks then w.watcher.cancel else w.watcher }

/-- The task is done. -/
def isDone (w : World Value) : TaskName → Bool
  | .job => w.body.isDone
  | .watcher => w.watcher.isDone

/-- A delivery begins. -/
def delivered (w : World Value) (st : Store) (jobId : JobId) (c : Conduct Value) : World Value :=
  { w with
    store := st
    jobId := jobId
    body := .absent
    watcher := .absent
    conduct := c
    args := ⟨[], []⟩
    saves := 0
    released := false
    early := false }

/-- `release` is issued. -/
def issueRelease (w : World Value) : World Value :=
  { w with released := true, early := w.early || w.body.isRunning }

end World

/-- `KeyError(f"job {job_id!r} not found")`. -/
def keyError (jobId : JobId) : Exc := .raised ⟨some ("\"job '" ++ jobId ++ "' not found\"")⟩

/-- `TypeError`, raised by the call of `Task.__call__`. -/
def bindError : Raised := ⟨some "Task.__call__() got multiple values for argument 'self'"⟩

/-- `RedisBackend.save` with `done`. -/
def Pool.saved (pool : Pool Value) (jobId : JobId) (record : Record) (w : World Value) :
    Except Exc Unit × World Value :=
  let (st, n) := saveScript w.store pool.worker jobId record true pool.resultTtl
  (if n = 0 then .error (keyError jobId) else .ok (),
    { w with store := st, saves := w.saves + n.toNat })

/-- `RedisBackend.release`. -/
def Pool.released (pool : Pool Value) (jobId : JobId) (w : World Value) :
    Except Exc Unit × World Value :=
  let (st, n) := releaseScript w.store pool.worker jobId
  (if n = -1 then .error (keyError jobId) else .ok (), { w with store := st })

/-- What surrounds the loop: whether its task may be cancelled, whether calls of the backend
may raise, and which records it may claim, with the conduct of their bodies. -/
structure Setting (Value : Type) where
  cancels : Bool
  faults : Bool
  offers : Record → Conduct Value → Prop

namespace Setting

variable (setting : Setting Value)

/-- An `await` that others complete: `answers` tells when, and with what. -/
def awaits {α : Type} (answers : Except Exc α → World Value → Prop) (w : World Value)
    (r : Except Exc α) (w' : World Value) : Prop :=
  (Drift w w' ∧ answers r w') ∨
    (setting.cancels = true ∧ r = .error .cancelled ∧ ∃ t, Drift w t ∧ w' = t.stop)

/-- A call of the backend. An exception or a cancellation does not tell whether it took
effect. -/
def calls {α : Type} (effect : World Value → Except Exc α × World Value) (w : World Value)
    (r : Except Exc α) (w' : World Value) : Prop :=
  ∃ t, Drift w t ∧
    ((r = (effect t).1 ∧ Drift (effect t).2 w') ∨
      (setting.faults = true ∧ (∃ e, r = .error (.raised e)) ∧
        (w' = t ∨ Drift (effect t).2 w')) ∨
      (setting.cancels = true ∧ r = .error .cancelled ∧
        ∃ u, (u = t ∨ Drift (effect t).2 u) ∧ w' = u.stop))

end Setting

/-- What each operation does. -/
def env (pool : Pool Value) (setting : Setting Value) :
    Env (Op Value) (fun q => Except Exc (Answer q)) (World Value)
  | .running, w, r, w' => r = .ok w.running ∧ w' = w
  | .claim, w, r, w' => ∃ t, Drift w t ∧
      ((r = .ok none ∧ w' = t) ∨
        (∃ record c st, setting.offers record c ∧ r = .ok (some record) ∧
          w' = t.delivered st record.id c) ∨
        (setting.faults = true ∧ (∃ e, r = .error (.raised e)) ∧ w' = t) ∨
        (setting.cancels = true ∧ r = .error .cancelled ∧ w' = t.stop))
  | .sleep, w, r, w' => setting.awaits (fun r _ => r = .ok ()) w r w'
  | .newArgs args, w, r, w' => r = .ok () ∧ w' = { w with args := args }
  | .args, w, r, w' => r = .ok w.args ∧ w' = w
  | .startWatcher, w, r, w' => r = .ok () ∧ w' = { w with watcher := .running false }
  | .startBody args, w, r, w' =>
    -- `Task.__call__(self, *args, **kwargs)`
    if "self" ∈ args.kwargs.map Prod.fst then
      r = .error (.raised bindError) ∧ w' = w
    else
      r = .ok () ∧ w' = { w with body := .running false }
  | .wait, w, r, w' =>
    setting.awaits (fun r t => r = .ok (t.body.isDone, t.watcher.isDone) ∧
      (t.body.isDone || t.watcher.isDone) = true) w r w'
  | .watcherException, w, r, w' =>
    (match w.watcher with
      | .done (.ok _) => r = .ok none
      | .done (.error .cancelled) => r = .error .cancelled
      | .done (.error e) => r = .ok (some e)
      | _ => False) ∧ w' = w
  | .awaitBody, w, r, w' =>
    (Drift w w' ∧ w'.body = .done r) ∨
      (setting.cancels = true ∧ ∃ t, Drift w t ∧
        -- the cancellation is forwarded to the body, or finds it done
        ((t.body.isRunning = true ∧ Drift (t.cancel [.job]).stop w' ∧ w'.body = .done r) ∨
          (t.body.isDone = true ∧ r = .error .cancelled ∧ w' = t.stop)))
  | .bodyResult, w, r, w' => w.body = .done r ∧ w' = w
  | .waitUnwind, w, r, w' => setting.awaits (fun r t => r = .ok t.body.isRunning) w r w'
  | .cancel tasks, w, r, w' => r = .ok () ∧ w' = w.cancel tasks
  | .gather tasks, w, r, w' =>
    if tasks = [] then r = .ok () ∧ w' = w
    else ∃ t, Drift w t ∧ (∀ task ∈ tasks, t.isDone task = true) ∧
      ((r = .ok () ∧ w' = t) ∨ (setting.cancels = true ∧ r = .error .cancelled ∧ w' = t.stop))
  | .save jobId record, w, r, w' => setting.calls (pool.saved jobId record) w r w'
  | .release jobId, w, r, w' => setting.calls (pool.released jobId) w.issueRelease r w'

end TaskQueue.Worker.Process
