import Mathlib.Algebra.Group.Int.Defs
import TaskQueue.Library.Decimal
import TaskQueue.Library.Dict
import TaskQueue.Library.Placement
import TaskQueue.Library.ScoreSet
import TaskQueue.Wire.Text
import TaskQueue.Redis.Store

/-!
# The server on bytes

What the Lua scripts of `redis_backend.py` do to hashes of bytes under keys of bytes: a
status is compared as text, a counter is incremented as a decimal number, and the fields of
a record arrive as a flat list of arguments. A script whose command fails stops there; what
it wrote before stays.

The members of the sorted set `workers` are kept as text, the scores as numbers. The order
in which `HGETALL` lists a hash is the server's own (`Listing`).
-/

namespace TaskQueue.Wire

open Decimal Placement Redis

/-- A hash. -/
abbrev Hash := Dict Blob Blob

/-- A hash with its time to live. -/
structure RawEntry where
  hash : Hash
  ttl : Option Nat

/-- The database. -/
structure RawStore where
  hashes : Blob → Option RawEntry
  lists : Blob → List Blob
  workers : ScoreSet InstanceId
  published : List Blob

/-- The order in which the server lists the items of a hash. -/
structure Listing where
  list : Hash → List (Blob × Blob)
  perm : ∀ h, (list h).Perm h.items

/-! ## Keys -/

/-- `job_key`. -/
def jobKey (jobId : JobId) : Blob := encode ("jobs:" ++ jobId)

/-- `QUEUE` and `processing_key`. -/
def listKey : ListKey → Blob
  | .queue => encode "queue"
  | .processing worker => encode ("processing:" ++ worker)

/-- `done_channel` and `cancel_channel`. -/
def channelKey : Channel → Blob
  | .done jobId => encode ("done:" ++ jobId)
  | .cancel jobId => encode ("cancel:" ++ jobId)

/-! ## Commands -/

namespace Hash

/-- `HSET key field value ...`. -/
def hset (h : Hash) (args : List Blob) : Except Error Hash :=
  match pairs args with
  | some (p :: l) => .ok (h.extend (p :: l))
  | some [] | none => .error .responseError

/-- `HGET key field`. -/
def hget (h : Hash) (field : String) : Option Blob := h.lookup (encode field)

end Hash

/-- The range of a counter. -/
def int64 (n : Int) : Prop := -2 ^ 63 ≤ n ∧ n < 2 ^ 63

instance (n : Int) : Decidable (int64 n) := inferInstanceAs (Decidable (_ ∧ _))

/-- The number that a value holds: its text in decimal, with no sign, zero or blank in front
that need not be there. -/
def counter (b : Blob) : Option Int :=
  match (decode b).bind parse with
  | some n => if encode n.repr = b ∧ int64 n then some n else none
  | none => none

/-- `HINCRBY key field increment`. -/
def Hash.hincrby (h : Hash) (field : String) (increment : Int) : Except Error Hash :=
  match (h.hget field).elim (some 0) counter with
  | some n =>
    if int64 (n + increment) then .ok (h.insert (encode field) (encode (n + increment).repr))
    else .error .responseError
  | none => .error .responseError

namespace RawStore

/-- A flushed database. -/
def empty : RawStore := ⟨fun _ => none, fun _ => [], ScoreSet.empty, []⟩

variable (st : RawStore) (key : Blob)

def put (e : RawEntry) : RawStore := { st with hashes := Function.update st.hashes key (some e) }

def del : RawStore := { st with hashes := Function.update st.hashes key none }

def rpush (v : Blob) : RawStore := { st with lists := push st.lists key v }

/-- `LREM key 1 v`. -/
def lrem (v : Blob) : RawStore := { st with lists := drop st.lists key v }

def lpop : Option Blob × RawStore :=
  match st.lists key with
  | [] => (none, st)
  | v :: rest => (some v, { st with lists := Function.update st.lists key rest })

def publish : RawStore := { st with published := st.published ++ [key] }

section

variable (e : RawEntry) (v : Blob)

@[simp] theorem put_hashes : (st.put key e).hashes = Function.update st.hashes key (some e) := rfl
@[simp] theorem put_lists : (st.put key e).lists = st.lists := rfl
@[simp] theorem put_workers : (st.put key e).workers = st.workers := rfl
@[simp] theorem put_published : (st.put key e).published = st.published := rfl

@[simp] theorem rpush_hashes : (st.rpush key v).hashes = st.hashes := rfl
@[simp] theorem rpush_lists : (st.rpush key v).lists = push st.lists key v := rfl
@[simp] theorem rpush_workers : (st.rpush key v).workers = st.workers := rfl
@[simp] theorem rpush_published : (st.rpush key v).published = st.published := rfl

@[simp] theorem lrem_lists : (st.lrem key v).lists = drop st.lists key v := rfl

end

end RawStore

/-! ## Scripts -/

section Scripts

variable (st : RawStore)

/-- `_ENQUEUE_SCRIPT`. -/
def enqueueScript (job queue jobId : Blob) (fields : List Blob) : RawStore × Except Error Int :=
  match st.hashes job with
  | some _ => (st, .ok 0)
  | none =>
    match Hash.hset ∅ fields with
    | .error e => (st, .error e)
    | .ok h => ((st.put job ⟨h, none⟩).rpush queue jobId, .ok 1)

/-- `BLMOVE queue processing LEFT RIGHT`. -/
def blmove (queue processing : Blob) : RawStore × Option Blob :=
  match st.lpop queue with
  | (none, _) => (st, none)
  | (some v, st') => (st'.rpush processing v, some v)

/-- `_CLAIM_SCRIPT`, up to the listing of the hash. -/
def claimScript (job running : Blob) : RawStore × Except Error (Option Hash) :=
  match st.hashes job with
  | none => (st, .ok none)
  | some e =>
    let h : Hash := e.hash.insert (encode "status") running
    match h.hincrby "attempts" 1 with
    -- the status has been written
    | .error err => (st.put job { e with hash := h }, .error err)
    | .ok h => (st.put job { e with hash := h }, .ok (some h))

/-- `_SAVE_SCRIPT`. -/
def saveScript (job processing channel done jobId : Blob) (resultTtl : Nat)
    (fields : List Blob) : RawStore × Except Error Int :=
  match st.hashes job with
  | none => (st, .ok 0)
  | some e =>
    match e.hash.hset fields with
    | .error err => (st, .error err)
    | .ok h =>
      let st := st.put job { e with hash := h }
      if done = encode "1" then
        let st := (st.lrem processing jobId).put job ⟨h, some resultTtl⟩
        (st.publish channel, .ok 1)
      else
        (st, .ok 1)

/-- `_RELEASE_SCRIPT`. -/
def releaseScript (job processing queue jobId running queued : Blob) : RawStore × Int :=
  match st.hashes job with
  | none => (st, -1)
  | some e =>
    if e.hash.hget "status" ≠ some running then (st, 0)
    else
      let st := st.put job { e with hash := e.hash.insert (encode "status") queued }
      ((st.lrem processing jobId).rpush queue jobId, 1)

/-- The keys of `_TERMINAL_LUA`. -/
def terminals : List Blob := [encode "cancelled", encode "completed", encode "failed"]

/-- `_REQUEST_CANCEL_SCRIPT`. -/
def requestCancelScript (job channel : Blob) : RawStore × Int :=
  match st.hashes job with
  | none => (st, 0)
  | some e =>
    if (e.hash.hget "status").any fun status => decide (status ∈ terminals) then (st, 0)
    else
      let h := e.hash.insert (encode "request_cancel") (encode "1")
      ((st.put job { e with hash := h }).publish channel, 1)

/-- The `MULTI` of `take_result`: `HGETALL`, then `DEL`. -/
def fetchAndDelete (job : Blob) : RawStore × Option Hash :=
  (st.del job, (st.hashes job).map RawEntry.hash)

/-- `_DEREGISTER_SCRIPT`. -/
def deregisterScript (processing : Blob) (worker : InstanceId) : RawStore × Int :=
  if (st.lists processing).length > 0 then (st, 0)
  else
    ({ st with workers := st.workers.remove worker },
      if worker ∈ st.workers.members then 1 else 0)

/-- The server deletes a key whose time to live has run out. -/
def expireKey (job : Blob) : RawStore :=
  match st.hashes job with
  | some ⟨_, some _⟩ => st.del job
  | _ => st

end Scripts

/-! ## The reaper -/

/-- `_REAPER_SCRIPT` between two iterations. -/
structure RawReaping where
  store : RawStore
  reclaimed : Nat
  dropped : Nat

/-- One iteration of the inner loop. -/
def RawReaping.pop (queue queued running processing jobPrefix : Blob) (r : RawReaping) :
    RawReaping :=
  match r.store.lpop processing with
  | (none, _) => r
  | (some jobId, st) =>
    let job := jobPrefix ++ jobId
    match st.hashes job with
    | none => { r with store := st, dropped := r.dropped + 1 }
    | some e =>
      let st := if e.hash.hget "status" = some running then
          st.put job { e with hash := e.hash.insert (encode "status") queued }
        else st
      { r with store := st.rpush queue jobId, reclaimed := r.reclaimed + 1 }

/-- One iteration of the outer loop. The inner one ends with the list. -/
def RawReaping.reapWorker (queue queued running processingPrefix jobPrefix : Blob)
    (r : RawReaping) (worker : InstanceId) : RawReaping :=
  let processing := processingPrefix ++ encode worker
  let r := (RawReaping.pop queue queued running processing jobPrefix)^[
    (r.store.lists processing).length] r
  { r with store := { r.store with workers := r.store.workers.remove worker } }

/-- `_REAPER_SCRIPT` at server time `now`. -/
def reaperScript (st : RawStore) (queue queued running processingPrefix jobPrefix : Blob)
    (now workerTtl : Nat) : RawReaping :=
  (st.workers.upTo ((now : Int) - workerTtl)).foldl
    (RawReaping.reapWorker queue queued running processingPrefix jobPrefix) ⟨st, 0, 0⟩

end TaskQueue.Wire
