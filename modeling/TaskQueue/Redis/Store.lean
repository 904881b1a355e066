import Mathlib.Data.String.Basic
import TaskQueue.Job
import TaskQueue.Library.Placement
import TaskQueue.Library.ScoreSet

/-!
# The Redis key space and its commands

The keys `RedisBackend` uses, each kind of key as one field of the store:

- `jobs:{id}`: a hash with an optional expiry (`Entry`);
- `queue` and `processing:{worker}`: lists of job ids, keyed by `ListKey`, so
  that "all lists taken together" is one family (`Placement`);
- `workers`: the sorted set of last heartbeats (`ScoreSet`);
- `done:{id}` and `cancel:{id}`: channels; `published` logs every `PUBLISH`.

Each command is one small function that touches one field, and the lemmas
beside it say so: the scripts are compositions of commands, and their effect on
a field is found by `simp` without unfolding a command.
-/

namespace TaskQueue.Redis

open Placement

/-- `RedisBackend._instance_id`. -/
abbrev InstanceId := String

/-- The keys that hold lists of job ids. -/
inductive ListKey where
  | queue
  | processing (worker : InstanceId)
deriving DecidableEq

/-- Pub/sub channels (`done_channel`, `cancel_channel`). -/
inductive Channel where
  | done (jobId : JobId)
  | cancel (jobId : JobId)
deriving DecidableEq

/-- The hash at `jobs:{id}` with its time to live, if `EXPIRE` has set one. -/
structure Entry where
  record : Record
  ttl : Option Nat
deriving DecidableEq

/-- The database. -/
structure Store where
  jobs : JobId → Option Entry
  lists : ListKey → List JobId
  workers : ScoreSet InstanceId
  published : List Channel

namespace Store

/-- A flushed database. -/
def empty : Store := ⟨fun _ => none, fun _ => [], ScoreSet.empty, []⟩

/-! ## Commands -/

/-- Write the entry at `jobs:{id}`. -/
def put (st : Store) (jobId : JobId) (e : Entry) : Store :=
  { st with jobs := Function.update st.jobs jobId (some e) }

/-- `DEL jobs:{id}`, also the effect of its expiry. -/
def del (st : Store) (jobId : JobId) : Store :=
  { st with jobs := Function.update st.jobs jobId none }

/-- `RPUSH key id`. -/
def rpush (st : Store) (key : ListKey) (jobId : JobId) : Store :=
  { st with lists := push st.lists key jobId }

/-- `LREM key 1 id`. -/
def lrem (st : Store) (key : ListKey) (jobId : JobId) : Store :=
  { st with lists := drop st.lists key jobId }

/-- `LPOP key`. -/
def lpop (st : Store) (key : ListKey) : Option JobId × Store :=
  match st.lists key with
  | [] => (none, st)
  | jobId :: rest => (some jobId, { st with lists := Function.update st.lists key rest })

/-- `ZADD workers now worker`. -/
def zadd (st : Store) (now : Nat) (worker : InstanceId) : Store :=
  { st with workers := st.workers.add now worker }

/-- `ZREM workers worker`. -/
def zrem (st : Store) (worker : InstanceId) : Store :=
  { st with workers := st.workers.remove worker }

/-- `PUBLISH channel ''`. -/
def publish (st : Store) (c : Channel) : Store :=
  { st with published := st.published ++ [c] }

section

variable (st : Store) (jobId : JobId) (e : Entry) (key : ListKey) (now : Nat)
  (worker : InstanceId) (c : Channel)

@[simp] theorem put_jobs : (st.put jobId e).jobs = Function.update st.jobs jobId (some e) := rfl
@[simp] theorem put_lists : (st.put jobId e).lists = st.lists := rfl
@[simp] theorem put_workers : (st.put jobId e).workers = st.workers := rfl
@[simp] theorem put_published : (st.put jobId e).published = st.published := rfl

@[simp] theorem del_jobs : (st.del jobId).jobs = Function.update st.jobs jobId none := rfl
@[simp] theorem del_lists : (st.del jobId).lists = st.lists := rfl
@[simp] theorem del_workers : (st.del jobId).workers = st.workers := rfl
@[simp] theorem del_published : (st.del jobId).published = st.published := rfl

@[simp] theorem rpush_jobs : (st.rpush key jobId).jobs = st.jobs := rfl
@[simp] theorem rpush_lists : (st.rpush key jobId).lists = push st.lists key jobId := rfl
@[simp] theorem rpush_workers : (st.rpush key jobId).workers = st.workers := rfl
@[simp] theorem rpush_published : (st.rpush key jobId).published = st.published := rfl

@[simp] theorem lrem_jobs : (st.lrem key jobId).jobs = st.jobs := rfl
@[simp] theorem lrem_lists : (st.lrem key jobId).lists = drop st.lists key jobId := rfl
@[simp] theorem lrem_workers : (st.lrem key jobId).workers = st.workers := rfl
@[simp] theorem lrem_published : (st.lrem key jobId).published = st.published := rfl

@[simp] theorem zadd_jobs : (st.zadd now worker).jobs = st.jobs := rfl
@[simp] theorem zadd_lists : (st.zadd now worker).lists = st.lists := rfl
@[simp] theorem zadd_workers : (st.zadd now worker).workers = st.workers.add now worker := rfl

@[simp] theorem zrem_jobs : (st.zrem worker).jobs = st.jobs := rfl
@[simp] theorem zrem_lists : (st.zrem worker).lists = st.lists := rfl
@[simp] theorem zrem_workers : (st.zrem worker).workers = st.workers.remove worker := rfl

@[simp] theorem publish_jobs : (st.publish c).jobs = st.jobs := rfl
@[simp] theorem publish_lists : (st.publish c).lists = st.lists := rfl
@[simp] theorem publish_workers : (st.publish c).workers = st.workers := rfl
@[simp] theorem publish_published : (st.publish c).published = st.published ++ [c] := rfl

end

variable {st : Store} {key : ListKey} {jobId : JobId}

theorem lpop_nil (h : st.lists key = []) : st.lpop key = (none, st) := by
  simp only [lpop, h]

/-- A pop that returns `id` is the removal of its first occurrence. -/
theorem lpop_cons {rest : List JobId} (h : st.lists key = jobId :: rest) :
    st.lpop key = (some jobId, st.lrem key jobId) := by
  simp only [lpop, h, lrem, drop_eq_pop h]

end Store

end TaskQueue.Redis
