import Mathlib.Data.Finset.Basic
import TaskQueue.Library.Objects
import TaskQueue.Wire.Refinement

/-!
# The calls of the protocol, one after another

A process passes dictionaries to its backend and gets dictionaries back. `MemoryBackend`
keeps the very dictionary that `enqueue` or `save` was given; `claim`, `release` and
`request_cancel` assign to its keys, and so may the process that still holds it.
`RedisBackend` sends what a dictionary holds at the time of the call. So a dictionary is an
object here, a `Ref` into a `Heap`, and each backend is modelled with the process that it
serves: `Memory.Process` and `Wire.Client`.

Calls follow one another, so nobody else changes the state while one waits: a call that
would wait for a later one is `blocked`.
-/

namespace TaskQueue

open Wire

/-! ## Calls and answers -/

/-- A dictionary object. -/
abbrev Ref := Nat

/-- What the dictionaries hold. -/
abbrev Heap := Ref → WireRecord

/-- `d[key] = v`. -/
def Heap.assign (heap : Heap) (ref : Ref) (key : String) (v : Datum) : Heap :=
  Function.update heap ref ((heap ref).insert key v)

/-- A call of the protocol. -/
inductive ProtocolCall where
  | enqueue (jobId : JobId) (record : Ref)
  | claim
  | getJob (jobId : JobId)
  | save (jobId : JobId) (record : Ref) (done : Bool)
  | release (jobId : JobId)
  | requestCancel (jobId : JobId)
  | requestCancelMany (jobIds : List JobId)
  | takeResult (jobId : JobId)
deriving DecidableEq

/-- What it returns: `None`, a record, an exception, or nothing because it never does. -/
inductive Answer where
  | none
  | record (r : WireRecord)
  | error (e : Error)
  | blocked

namespace Answer

/-- A record that may fail to decode. -/
def ofRecord : Except Error WireRecord → Answer
  | .ok r => .record r
  | .error e => .error e

/-- The new dictionary that the caller gets. -/
def dict : Answer → WireRecord
  | .record r => r
  | _ => ∅

/-- The same answer. Two records are the same when they hold the same. -/
def Same : Answer → Answer → Prop
  | .none, .none => True
  | .record r, .record r' => Dict.Same r r'
  | .error e, .error e' => e = e'
  | .blocked, .blocked => True
  | _, _ => False

instance (a a' : Answer) : Decidable (a.Same a') := by
  cases a <;> cases a' <;> unfold Same <;> infer_instance

end Answer

/-! ## `MemoryBackend` -/

namespace Memory

/-- The values of the terminal statuses. -/
def terminals : List Datum :=
  [.text (statusValue .completed), .text (statusValue .failed), .text (statusValue .cancelled)]

/-- `MemoryBackend`, and the dictionaries of its process. An event of `_events` is set only
once it has been dropped, so `events` are the ids that have one; an event of `_cancels` has
no part in an answer. -/
structure Process where
  heap : Heap
  jobs : Dict JobId Ref
  events : Finset JobId
  queue : List JobId

namespace Process

/-- `MemoryBackend()`, in a process that has no dictionary yet. -/
def empty : Process := ⟨fun _ => ∅, ∅, ∅, []⟩

variable (p : Process)

/-- The dictionary under an id in `_jobs`. -/
def owner (jobId : JobId) : Option Ref := p.jobs.lookup jobId

/-- The records, by what they hold. -/
def records : JobId → Option WireRecord := Objects.view p.owner p.heap

/-- `record[key] = v`. -/
def assign (ref : Ref) (key : String) (v : Datum) : Process :=
  { p with heap := p.heap.assign ref key v }

/-- `enqueue`. -/
def enqueue (jobId : JobId) (record : Ref) : Process :=
  match p.owner jobId with
  | some _ => p
  | none =>
    { p.assign record "status" (.text (statusValue .queued)) with
      jobs := p.jobs.insert jobId record
      events := insert jobId p.events
      queue := p.queue ++ [jobId] }

/-- `claim`. -/
def claim : Process × Answer :=
  match p.queue with
  | [] => (p, .none)
  | jobId :: rest =>
    let p := { p with queue := rest }
    match p.owner jobId with
    | none => (p, .error .keyError)
    | some record =>
      let p := p.assign record "status" (.text (statusValue .running))
      match optional (p.heap record) "attempts" Datum.int with
      -- the status has been assigned
      | .error e => (p, .error e)
      | .ok attempts =>
        let p := p.assign record "attempts" (.text (attempts.getD 0 + 1).repr)
        (p, .record (p.heap record))

/-- `get_job`. -/
def getJob (jobId : JobId) : Answer :=
  match p.owner jobId with
  | none => .error .keyError
  | some record => .record (p.heap record)

/-- `save`. -/
def save (jobId : JobId) (record : Ref) (done : Bool) : Process × Answer :=
  match p.owner jobId with
  | none => (p, .error .keyError)
  | some _ =>
    ({ p with
        jobs := p.jobs.insert jobId record
        events := if done then p.events.erase jobId else p.events }, .none)

/-- `release`. -/
def release (jobId : JobId) : Process × Answer :=
  match p.owner jobId with
  | none => (p, .error .keyError)
  | some record =>
    match (p.heap record).lookup "status" with
    | none => (p, .error .keyError)
    | some status =>
      if status = .text (statusValue .running) then
        ({ p.assign record "status" (.text (statusValue .queued)) with
            queue := p.queue ++ [jobId] }, .none)
      else (p, .none)

/-- `request_cancel`. -/
def requestCancel (jobId : JobId) : Process × Answer :=
  match p.owner jobId with
  | none => (p, .none)
  | some record =>
    match (p.heap record).lookup "status" with
    | none => (p, .error .keyError)
    | some status =>
      if status ∈ terminals then (p, .none)
      else (p.assign record "request_cancel" (.text "1"), .none)

/-- `request_cancel_many`. -/
def requestCancelMany (p : Process) : List JobId → Process × Answer
  | [] => (p, .none)
  | jobId :: jobIds =>
    match p.requestCancel jobId with
    | (p, .error e) => (p, .error e)
    | (p, _) => requestCancelMany p jobIds

/-- The end of `take_result`, from the wake-up on. -/
def collect (jobId : JobId) : Process × Answer :=
  ({ p with events := p.events.erase jobId, jobs := p.jobs.erase jobId }, p.getJob jobId)

/-- `take_result`. -/
def takeResult (jobId : JobId) : Process × Answer :=
  if jobId ∈ p.events then (p, .blocked) else p.collect jobId

/-- A call. -/
def call : ProtocolCall → Process × Answer
  | .enqueue jobId record => (p.enqueue jobId record, .none)
  | .claim => p.claim
  | .getJob jobId => (p, p.getJob jobId)
  | .save jobId record done => p.save jobId record done
  | .release jobId => p.release jobId
  | .requestCancel jobId => p.requestCancel jobId
  | .requestCancelMany jobIds => p.requestCancelMany jobIds
  | .takeResult jobId => p.takeResult jobId

end Process

end Memory

/-! ## `RedisBackend` -/

namespace Wire

/-- A `RedisBackend`. -/
structure Backend where
  connection : Connection
  worker : Redis.InstanceId
  resultTtl : Nat

/-- `_is_terminal`. -/
def isTerminal (st : RawStore) (jobId : JobId) : Except Error Bool :=
  match (st.hashes (jobKey jobId)).bind fun e => e.hash.hget "status" with
  | none => .error .keyError
  | some status => .ok (terminals.contains status)

namespace Backend

variable (b : Backend) (st : RawStore) (jobId : JobId)

/-- `claim`. -/
def claim : RawStore × Answer :=
  match Wire.claim b.connection st b.worker with
  | (st, .ok (some r)) => (st, .record r)
  | (st, .ok none) => (st, .none)
  | (st, .error e) => (st, .error e)

/-- `get_job`. -/
def getJob : Answer := .ofRecord (Wire.getJob b.connection st jobId)

/-- `save`. -/
def save (record : WireRecord) (done : Bool) : RawStore × Answer :=
  match Wire.save st b.worker jobId record done b.resultTtl with
  | (st, .ok 0) => (st, .error .keyError)
  | (st, .ok _) => (st, .none)
  | (st, .error e) => (st, .error e)

/-- `release`. -/
def release : RawStore × Answer :=
  match Wire.release st b.worker jobId with
  | (st, -1) => (st, .error .keyError)
  | (st, _) => (st, .none)

/-- `take_result`, when nobody else calls the backend meanwhile. -/
def takeResult : RawStore × Answer :=
  match isTerminal st jobId with
  | .error e => (st, .error e)
  | .ok false => (st, .blocked)
  | .ok true =>
    match fetchAndDelete st (jobKey jobId) with
    | (st, none) => (st, .error .keyError)
    | (st, some h) => (st, .ofRecord (b.connection.readHash h))

end Backend

/-- The server, and the dictionaries of its client's process. -/
structure Client where
  heap : Heap
  store : RawStore

namespace Client

/-- A flushed database, and a process that has no dictionary yet. -/
def empty : Client := ⟨fun _ => ∅, RawStore.empty⟩

/-- The outcome of a method that leaves the dictionaries of the process alone. -/
def answer (s : Client) (out : RawStore × Answer) : Client × Answer :=
  ({ s with store := out.1 }, out.2)

/-- A call. `enqueue` assigns the status of the caller's own dictionary, also when the
script then refuses the job. -/
def call (b : Backend) (s : Client) : ProtocolCall → Client × Answer
  | .enqueue jobId record =>
    let heap := s.heap.assign record "status" (.text (statusValue .queued))
    match Wire.enqueue s.store jobId (s.heap record) with
    | (store, .ok _) => (⟨heap, store⟩, .none)
    | (store, .error e) => (⟨heap, store⟩, .error e)
  | .claim => s.answer (b.claim s.store)
  | .getJob jobId => (s, b.getJob s.store jobId)
  | .save jobId record done => s.answer (b.save s.store jobId (s.heap record) done)
  | .release jobId => s.answer (b.release s.store jobId)
  | .requestCancel jobId => s.answer ((requestCancel s.store jobId).1, .none)
  | .requestCancelMany jobIds =>
    s.answer (jobIds.foldl (fun st jobId => (requestCancel st jobId).1) s.store, .none)
  | .takeResult jobId => s.answer (b.takeResult s.store jobId)

end Client

end Wire

/-! ## Both at once -/

/-- What the process does next: it builds a dictionary from those it has, assigns to one of
them, or calls the backend. -/
inductive Act where
  | make (build : Heap → WireRecord)
  | modify (ref : Ref) (change : Heap → WireRecord)
  | call (c : ProtocolCall)

/-- Two processes that do the same, one with each backend. The dictionary that the `n`-th
act makes, or that its call returns, is the object `n`. -/
structure Pair where
  redis : Wire.Client
  memory : Memory.Process
  acts : Nat

namespace Pair

variable (b : Wire.Backend) (s : Pair)

/-- The processes get a new dictionary. -/
def receive (record record' : WireRecord) : Pair where
  redis := { s.redis with heap := Function.update s.redis.heap s.acts record }
  memory := { s.memory with heap := Function.update s.memory.heap s.acts record' }
  acts := s.acts + 1

/-- An act. -/
def next : Act → Pair
  | .make build => s.receive (build s.redis.heap) (build s.memory.heap)
  | .modify ref change =>
    { s with
      redis := { s.redis with heap := Function.update s.redis.heap ref (change s.redis.heap) }
      memory := { s.memory with
        heap := Function.update s.memory.heap ref (change s.memory.heap) } }.receive ∅ ∅
  | .call c =>
    let (redis, answer) := s.redis.call b c
    let (memory, answer') := s.memory.call c
    { s with redis, memory }.receive answer.dict answer'.dict

/-- The process passes and changes dictionaries that it has, and awaits the result of a job
that is finished or unknown. -/
def Offers : Act → Prop
  | .modify ref _ | .call (.enqueue _ ref) | .call (.save _ ref _) => ref < s.acts
  | .call (.takeResult jobId) => ∀ ref ∈ s.memory.owner jobId,
      ∀ status ∈ (s.memory.heap ref).lookup "status", status ∈ Memory.terminals
  | _ => True

instance : DecidablePred s.Offers
  | .modify .. | .call (.enqueue ..) | .call (.save ..) => inferInstanceAs (Decidable (_ < _))
  | .call (.takeResult _) => inferInstanceAs (Decidable (∀ _ ∈ _, ∀ _ ∈ _, _))
  | .make _ | .call .claim | .call (.getJob _) | .call (.release _) | .call (.requestCancel _)
  | .call (.requestCancelMany _) => inferInstanceAs (Decidable True)

/-- The backends agree on an act: on the answer to a call, and on every record after it. -/
def Agrees (act : Act) (s' : Pair) : Prop :=
  (∀ c, act = .call c → (s.redis.call b c).2.Same (s.memory.call c).2) ∧
    ∀ jobId, (b.getJob s'.redis.store jobId).Same (s'.memory.getJob jobId)

end Pair

/-- Two processes, from empty backends. -/
def pair (b : Wire.Backend) : Machine Pair Act where
  init := ⟨.empty, .empty, 0⟩
  step s act := if s.Offers act then some (s.next b act) else none

end TaskQueue
