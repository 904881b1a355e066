import Mathlib.Data.String.Basic
import TaskQueue.Memory.Backend
import TaskQueue.Redis.Server

/-!
# What a backend does to the records

`Table` is what a scope can see of a backend: the record of each job. `TableOp` is
the list of things that can happen to it, and both backends do nothing else:

- `Redis.Request.refines`: a request of the Redis server is a sequence of table
  operations, each of a kind that belongs to the request;
- `Memory.Call.refines`: a step of `MemoryBackend` is one table operation, or none.

`Interface` is the part of the `Backend` protocol that a scope relies on, and the two
backends are instances of it. So what is proved of scopes over a table, under any order
of table operations by other clients, holds over either backend.
-/

namespace TaskQueue

/-- The records a backend holds. -/
abbrev Table := JobId → Option Record

/-- Change the record of a job, if there is one. -/
def Table.modify (t : Table) (jobId : JobId) (f : Record → Record) : Table :=
  Function.update t jobId ((t jobId).map f)

/-- The job is terminal, or its record is gone. -/
def Table.Ended (t : Table) (jobId : JobId) : Prop :=
  ∀ r, t jobId = some r → r.status.terminal = true

instance (t : Table) (jobId : JobId) : Decidable (t.Ended jobId) :=
  match h : t jobId with
  | none => isTrue (by simp [Table.Ended, h])
  | some r => decidable_of_iff (r.status.terminal = true) (by simp [Table.Ended, h])

/-- One change to the records: an enqueue of a new id, a claim, a terminal save, a
job put back to the queue, a cancellation request, a record taken or expired. -/
inductive TableOp where
  | create (record : Record)
  | claim (jobId : JobId)
  | write (finished : Finished)
  | requeue (jobId : JobId)
  | flag (jobId : JobId)
  | free (jobId : JobId)
deriving DecidableEq

namespace TableOp

/-- The effect of an operation. -/
def effect (t : Table) : TableOp → Table
  | .create record =>
    match t record.id with
    | some _ => t
    | none => Function.update t record.id (some { record with status := .queued })
  | .claim jobId =>
    t.modify jobId fun r => { r with status := .running, attempts := r.attempts + 1 }
  | .write finished => t.modify finished.record.id fun _ => finished.record
  | .requeue jobId =>
    t.modify jobId fun r => if r.status = .running then { r with status := .queued } else r
  | .flag jobId =>
    t.modify jobId fun r => if r.status.terminal then r else { r with requestCancel := true }
  | .free jobId => Function.update t jobId none

/-- The job an operation is about. -/
def jobId : TableOp → JobId
  | .create record => record.id
  | .write finished => finished.record.id
  | .claim id | .requeue id | .flag id | .free id => id

/-- An operation leaves the other jobs alone. -/
theorem effect_of_ne (t : Table) (op : TableOp) {id : JobId} (h : id ≠ op.jobId) :
    op.effect t id = t id := by
  cases op with
  | create record =>
    rw [effect]
    cases t record.id with
    | some _ => rfl
    | none => exact Function.update_of_ne h _ _
  | claim _ | write _ | requeue _ | flag _ | free _ => exact Function.update_of_ne h _ _

/-- Only an enqueue brings a record back. -/
theorem effect_of_none (t : Table) (op : TableOp) {id : JobId} (h : t id = none)
    (hop : ∀ record, op = .create record → record.id ≠ id) : op.effect t id = none := by
  by_cases hid : id = op.jobId
  · subst hid
    cases op with
    | create record => exact absurd rfl (hop record rfl)
    | free jobId => exact Function.update_self ..
    | claim jobId => simp_all [effect, Table.modify, TableOp.jobId]
    | write finished => simp_all [effect, Table.modify, TableOp.jobId]
    | requeue jobId => simp_all [effect, Table.modify, TableOp.jobId]
    | flag jobId => simp_all [effect, Table.modify, TableOp.jobId]
  · rw [effect_of_ne t op hid, h]

end TableOp

/-- The table after a sequence of operations. -/
def runOps (t : Table) (ops : List TableOp) : Table := ops.foldl TableOp.effect t

theorem Table.modify_of_some {t : Table} {jobId : JobId} {r : Record} (h : t jobId = some r)
    (f : Record → Record) : t.modify jobId f = Function.update t jobId (some (f r)) := by
  rw [Table.modify, h, Option.map_some]

theorem Table.modify_of_none {t : Table} {jobId : JobId} (h : t jobId = none)
    (f : Record → Record) : t.modify jobId f = t := by
  rw [Table.modify, h, Option.map_none, ← h, Function.update_eq_self]

theorem Table.modify_of_fixed {t : Table} {jobId : JobId} {r : Record} {f : Record → Record}
    (h : t jobId = some r) (hf : f r = r) : t.modify jobId f = t := by
  rw [Table.modify_of_some h, hf, ← h, Function.update_eq_self]

/-! ## Redis -/

namespace Redis

/-- The records in the database. -/
def Store.table (st : Store) : Table := fun jobId => (st.jobs jobId).map Entry.record

theorem table_of_jobs {st st' : Store} {id : JobId} {x : Option Entry}
    (h : st'.jobs = Function.update st.jobs id x) :
    st'.table = Function.update st.table id (x.map Entry.record) := by
  funext jobId
  by_cases hid : jobId = id
  · subst hid
    simp [Store.table, h]
  · simp [Store.table, h, hid]

/-- The kind of table operation that belongs to a request. -/
def Request.Does : Request → TableOp → Prop
  | .enqueue record, .create record' => record' = record
  | .claim id, .claim id' => id' = id
  | .save _ write _, .write write' =>
    write'.record.id = write.record.id ∧ write'.record.status = write.record.status ∧
      write'.record.requestCancel = write.record.requestCancel
  | .release _ id, .requeue id' => id' = id
  | .reap _ _, .requeue _ => True
  | .requestCancel id, .flag id' => id' = id
  | .fetchAndDelete id, .free id' | .expire id, .free id' => id' = id
  | _, _ => False

theorem table_pop (worker : InstanceId) (r : Reaping) :
    ∃ ops : List TableOp, (∀ op ∈ ops, ∃ id, op = .requeue id) ∧
      (r.pop worker).store.table = runOps r.store.table ops := by
  cases hl : r.store.lists (.processing worker) with
  | nil =>
    rw [Reaping.pop_nil hl]
    exact ⟨[], by simp, rfl⟩
  | cons id rest =>
    cases hj : r.store.jobs id with
    | none =>
      rw [Reaping.pop_dropped hl hj]
      exact ⟨[], by simp, rfl⟩
    | some e =>
      obtain ⟨hjobs, -⟩ := Reaping.pop_reclaimed hl hj
      have htable : r.store.table id = some e.record := by rw [Store.table, hj, Option.map_some]
      refine ⟨[.requeue id], by simp, ?_⟩
      show _ = (TableOp.requeue id).effect r.store.table
      rw [TableOp.effect]
      by_cases hs : e.record.status = .running
      · rw [if_pos hs] at hjobs
        rw [table_of_jobs hjobs, Table.modify_of_some htable, if_pos hs]
        rfl
      · rw [if_neg hs] at hjobs
        rw [Table.modify_of_fixed htable (by rw [if_neg hs])]
        funext jobId
        rw [Store.table, hjobs, Store.table]

section

variable (st : Store)

theorem table_of_some {st : Store} {id : JobId} {e : Entry} (h : st.jobs id = some e) :
    st.table id = some e.record := by
  rw [Store.table, h, Option.map_some]

theorem table_of_none {st : Store} {id : JobId} (h : st.jobs id = none) : st.table id = none := by
  rw [Store.table, h, Option.map_none]

theorem table_congr {st st' : Store} (h : st'.jobs = st.jobs) : st'.table = st.table := by
  funext id
  rw [Store.table, h, Store.table]

theorem enqueue_table (record : Record) :
    ((Request.enqueue record).after st).table = (TableOp.create record).effect st.table := by
  cases hj : st.jobs record.id with
  | some e =>
    have htable := table_of_some hj
    simp only [after_enqueue_some hj, TableOp.effect, htable]
  | none =>
    have htable := table_of_none hj
    simp only [TableOp.effect, htable]
    rw [table_of_jobs (after_enqueue_jobs hj)]
    rfl

theorem claim_table (id : JobId) :
    ((Request.claim id).after st).table = (TableOp.claim id).effect st.table := by
  rw [TableOp.effect]
  cases hj : st.jobs id with
  | none => rw [Table.modify_of_none (table_of_none hj), after_claim_none hj]
  | some e =>
    rw [Table.modify_of_some (table_of_some hj), after_claim_some hj,
      table_of_jobs (Store.put_jobs ..)]
    rfl

theorem release_table (worker : InstanceId) (id : JobId) :
    ((Request.release worker id).after st).table = (TableOp.requeue id).effect st.table := by
  rw [TableOp.effect]
  by_cases hrun : ∃ e, st.jobs id = some e ∧ e.record.status = .running
  · obtain ⟨e, hj, hs⟩ := hrun
    rw [Table.modify_of_some (table_of_some hj), if_pos hs,
      table_of_jobs (after_release_jobs worker hj hs)]
    rfl
  · rw [after_release_of_not_running fun e hj hs => hrun ⟨e, hj, hs⟩]
    cases hj : st.jobs id with
    | none => rw [Table.modify_of_none (table_of_none hj)]
    | some e =>
      have hs : e.record.status ≠ .running := fun hs => hrun ⟨e, hj, hs⟩
      rw [Table.modify_of_fixed (table_of_some hj) (by rw [if_neg hs])]

theorem requestCancel_table (id : JobId) :
    ((Request.requestCancel id).after st).table = (TableOp.flag id).effect st.table := by
  rw [TableOp.effect]
  rcases after_requestCancel_cases st id with ⟨hdone, h⟩ | ⟨e, hj, ht, h⟩
  · rw [h]
    cases hj : st.jobs id with
    | none => rw [Table.modify_of_none (table_of_none hj)]
    | some e => rw [Table.modify_of_fixed (table_of_some hj) (by rw [if_pos (hdone e hj)])]
  · have hjobs : ((Request.requestCancel id).after st).jobs = Function.update st.jobs id
        (some ⟨{ e.record with requestCancel := true }, e.ttl⟩) := by
      rw [h, Store.publish_jobs, Store.put_jobs]
    rw [Table.modify_of_some (table_of_some hj), if_neg (by simp [ht]), table_of_jobs hjobs]
    rfl

theorem fetchAndDelete_table (id : JobId) :
    ((Request.fetchAndDelete id).after st).table = (TableOp.free id).effect st.table := by
  have hjobs : ((Request.fetchAndDelete id).after st).jobs = Function.update st.jobs id none :=
    rfl
  rw [table_of_jobs hjobs]
  rfl

theorem reap_table (now ttl : Nat) :
    ∃ ops : List TableOp, (∀ op ∈ ops, ∃ id, op = .requeue id) ∧
      (reaperScript st now ttl).store.table = runOps st.table ops := by
  refine reaperScript_induction (I := fun st' => ∃ ops : List TableOp,
    (∀ op ∈ ops, ∃ id, op = .requeue id) ∧ st'.table = runOps st.table ops) ?_
    (fun _ _ _ _ h => h) ⟨[], by simp, rfl⟩
  rintro worker - r ⟨ops, hops, htable⟩
  obtain ⟨more, hmore, hpop⟩ := table_pop worker r
  refine ⟨ops ++ more, fun op hop => ?_, ?_⟩
  · exact (List.mem_append.mp hop).elim (hops op) (hmore op)
  · rw [hpop, htable, runOps, runOps, runOps, List.foldl_append]

/-- **A Redis request is a sequence of table operations of its kind.** -/
theorem Request.refines (q : Request) :
    ∃ ops : List TableOp, (∀ op ∈ ops, q.Does op) ∧
      (q.after st).table = runOps st.table ops := by
  have hnone : (q.after st).jobs = st.jobs → ∃ ops : List TableOp, (∀ op ∈ ops, q.Does op) ∧
      (q.after st).table = runOps st.table ops :=
    fun h => ⟨[], by simp, table_congr h⟩
  cases q with
  | enqueue record => exact ⟨[.create record], by simp [Request.Does], enqueue_table st record⟩
  | blmove worker =>
    refine hnone ?_
    cases hl : st.lists .queue with
    | nil => rw [after_blmove_nil hl]
    | cons id rest => rw [after_blmove_cons hl, Store.rpush_jobs, Store.lrem_jobs]
  | claim id => exact ⟨[.claim id], by simp [Request.Does], claim_table st id⟩
  | returnLease worker id => exact hnone rfl
  | discardLease worker id => exact hnone rfl
  | save worker write ttl =>
    cases hj : st.jobs write.record.id with
    | none => exact hnone (by rw [after_save_none hj])
    | some e =>
      -- fields that the new record lacks keep their old values
      let written : Finished := ⟨e.record.hset write.record, write.terminal⟩
      refine ⟨[.write written], by simp [Request.Does, written], ?_⟩
      show _ = (TableOp.write written).effect st.table
      have hid : written.record.id = write.record.id := rfl
      rw [TableOp.effect, hid, Table.modify_of_some (table_of_some hj)]
      exact table_of_jobs (after_save_jobs worker hj ttl)
  | release worker id => exact ⟨[.requeue id], by simp [Request.Does], release_table st worker id⟩
  | requestCancel id => exact ⟨[.flag id], by simp [Request.Does], requestCancel_table st id⟩
  | fetchAndDelete id => exact ⟨[.free id], by simp [Request.Does], fetchAndDelete_table st id⟩
  | heartbeat worker now => exact hnone rfl
  | deregister worker =>
    refine hnone ?_
    simp only [Request.after, Request.exec, deregisterScript]
    split <;> rfl
  | reap now ttl =>
    obtain ⟨ops, hkind, htable⟩ := reap_table st now ttl
    refine ⟨ops, fun op hop => ?_, htable⟩
    obtain ⟨id, rfl⟩ := hkind op hop
    trivial
  | expire id =>
    rcases expireKey_cases st id with h | ⟨r, ttl, -, h⟩
    · exact hnone (by rw [Request.after, Request.exec, h])
    · have hjobs : ((Request.expire id).after st).jobs = Function.update st.jobs id none := by
        rw [Request.after, Request.exec, h]
        rfl
      refine ⟨[.free id], by simp [Request.Does], ?_⟩
      rw [table_of_jobs hjobs]
      rfl

end

end Redis

/-! ## Memory -/

namespace Memory

/-- A step of `MemoryBackend`. -/
inductive Call where
  | enqueue (record : Record)
  | claim
  | save (write : Finished)
  | release (jobId : JobId)
  | requestCancel (jobId : JobId)
  | collect (jobId : JobId)

/-- The backend after a step; one that raises `KeyError` changes nothing. -/
def Call.after (b : Backend) : Call → Backend
  | .enqueue record => b.enqueue record.id record
  | .claim => (b.claim.map Prod.fst).getD b
  | .save write => (b.save write.record.id write.record true).getD b
  | .release jobId => (b.release jobId).getD b
  | .requestCancel jobId => b.requestCancel jobId
  | .collect jobId => (b.collect jobId).1

/-- The kind of table operation that belongs to a step. -/
def Call.Does : Call → TableOp → Prop
  | .enqueue record, .create record' => record' = record
  | .claim, .claim _ => True
  | .save write, .write write' => write' = write
  | .release id, .requeue id' => id' = id
  | .requestCancel id, .flag id' => id' = id
  | .collect id, .free id' => id' = id
  | _, _ => False

section

variable (b : Backend)

theorem enqueue_table (record : Record) :
    (b.enqueue record.id record).jobs = (TableOp.create record).effect b.jobs := by
  cases hj : b.jobs record.id <;> simp [Backend.enqueue, Backend.put, TableOp.effect, hj]

theorem claim_table {jobId : JobId} {rest : List JobId} (hq : b.queue = jobId :: rest) :
    (Call.claim.after b).jobs = (TableOp.claim jobId).effect b.jobs := by
  rw [TableOp.effect]
  cases hj : b.jobs jobId with
  | none =>
    rw [Table.modify_of_none hj]
    simp [Call.after, Backend.claim, hq, hj]
  | some r =>
    rw [Table.modify_of_some hj]
    simp [Call.after, Backend.claim, Backend.put, hq, hj]

theorem save_table (write : Finished) :
    ((b.save write.record.id write.record true).getD b).jobs
      = (TableOp.write write).effect b.jobs := by
  rw [TableOp.effect]
  cases hj : b.jobs write.record.id with
  | none =>
    rw [Table.modify_of_none hj]
    simp [Backend.save, hj]
  | some r =>
    rw [Table.modify_of_some hj]
    simp [Backend.save, Backend.put, hj]

theorem release_table (jobId : JobId) :
    ((b.release jobId).getD b).jobs = (TableOp.requeue jobId).effect b.jobs := by
  rw [TableOp.effect]
  cases hj : b.jobs jobId with
  | none =>
    rw [Table.modify_of_none hj]
    simp [Backend.release, hj]
  | some r =>
    by_cases hs : r.status = .running
    · rw [Table.modify_of_some hj]
      simp [Backend.release, Backend.put, hj, hs]
    · rw [Table.modify_of_fixed hj (by rw [if_neg hs])]
      simp [Backend.release, hj, hs]

theorem requestCancel_table (jobId : JobId) :
    (b.requestCancel jobId).jobs = (TableOp.flag jobId).effect b.jobs := by
  rw [TableOp.effect]
  cases hj : b.jobs jobId with
  | none =>
    rw [Table.modify_of_none hj]
    simp [Backend.requestCancel, hj]
  | some r =>
    cases ht : r.status.terminal with
    | true =>
      rw [Table.modify_of_fixed hj (by rw [if_pos ht])]
      simp [Backend.requestCancel, hj, ht]
    | false =>
      rw [Table.modify_of_some hj]
      simp [Backend.requestCancel, Backend.put, hj, ht]

/-- A step of `MemoryBackend` is one table operation of its kind, or none. -/
theorem Call.refines (c : Call) :
    ∃ ops : List TableOp, (∀ op ∈ ops, c.Does op) ∧ (c.after b).jobs = runOps b.jobs ops := by
  cases c with
  | enqueue record => exact ⟨[.create record], by simp [Call.Does], enqueue_table b record⟩
  | claim =>
    cases hq : b.queue with
    | nil => exact ⟨[], by simp, by simp [Call.after, Backend.claim, hq, runOps]⟩
    | cons jobId rest =>
      exact ⟨[.claim jobId], by simp [Call.Does], claim_table b hq⟩
  | save write => exact ⟨[.write write], by simp [Call.Does], save_table b write⟩
  | release jobId => exact ⟨[.requeue jobId], by simp [Call.Does], release_table b jobId⟩
  | requestCancel jobId => exact ⟨[.flag jobId], by simp [Call.Does], requestCancel_table b jobId⟩
  | collect jobId => exact ⟨[.free jobId], by simp [Call.Does], rfl⟩

end

end Memory

/-! ## A backend as a scope sees it -/

/-- A backend in states `σ` that serves calls `κ`: the records that it holds, the three
calls that a scope makes of it, and what any call can do to the records. -/
structure Interface (σ κ : Type) where
  table : σ → Table
  serve : κ → σ → σ
  enqueue : Record → κ
  take : JobId → κ
  requestCancel : JobId → κ
  does : κ → TableOp → Prop
  enqueue_table : ∀ record st,
    table (serve (enqueue record) st) = (TableOp.create record).effect (table st)
  take_table : ∀ jobId st,
    table (serve (take jobId) st) = (TableOp.free jobId).effect (table st)
  requestCancel_table : ∀ jobId st,
    table (serve (requestCancel jobId) st) = (TableOp.flag jobId).effect (table st)
  refines : ∀ c st, ∃ ops : List TableOp, (∀ op ∈ ops, does c op) ∧
    table (serve c st) = runOps (table st) ops

/-- `RedisBackend`, one request at a time. -/
def redisInterface : Interface Redis.Store Redis.Request where
  table := Redis.Store.table
  serve q st := q.after st
  enqueue := .enqueue
  take := .fetchAndDelete
  requestCancel := .requestCancel
  does := Redis.Request.Does
  enqueue_table record st := Redis.enqueue_table st record
  take_table jobId st := Redis.fetchAndDelete_table st jobId
  requestCancel_table jobId st := Redis.requestCancel_table st jobId
  refines q st := q.refines st

/-- `MemoryBackend`, one step at a time. -/
def memoryInterface : Interface Memory.Backend Memory.Call where
  table := Memory.Backend.jobs
  serve c b := c.after b
  enqueue := .enqueue
  take := .collect
  requestCancel := .requestCancel
  does := Memory.Call.Does
  enqueue_table record b := Memory.enqueue_table b record
  take_table _ _ := rfl
  requestCancel_table jobId b := Memory.requestCancel_table b jobId
  refines c b := c.refines b

end TaskQueue
