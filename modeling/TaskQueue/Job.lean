import Mathlib.Tactic.Common

/-!
# Job records (`job.py`)

One record per job, as `Job.to_record` writes it and both backends store it.
The source's record is a `dict` of text fields and two opaque blobs; here every
field has the type its text denotes (`attempts` is the integer whose decimal
form is stored, `request_cancel` the flag stored as `"0"` or `"1"`), and the
three fields that are written only once populated are options, an absent key
being `none`.

- `Record.hset` is what writing one record over another does in a Redis hash:
  a field the new record lacks keeps its old value.
- `Finished` packs a record with the fact that its status is terminal; it is
  what a worker passes to a terminal save, so a terminal save of an unfinished
  record cannot be built.
-/

namespace TaskQueue

/-- A job id (`uuid4().hex`, or a digest derived from the parent's id). -/
abbrev JobId := String

/-- A serialized payload or result. -/
abbrev Blob := List UInt8

/-- `JobStatus`. -/
inductive JobStatus where
  | created | queued | running | completed | failed | cancelled
deriving DecidableEq, Repr

/-- Membership in `_TERMINAL`. -/
def JobStatus.terminal : JobStatus → Bool
  | completed | failed | cancelled => true
  | created | queued | running => false

/-- A stored record (`Job.to_record`). -/
structure Record where
  id : JobId
  taskName : String
  createdAt : String
  status : JobStatus
  attempts : Int
  requestCancel : Bool
  payload : Blob
  groupId : Option String
  error : Option String
  result : Option Blob
deriving DecidableEq, Repr

namespace Record

/-- The three fields that a terminal write settles. -/
def outcome (r : Record) : JobStatus × Option String × Option Blob :=
  (r.status, r.error, r.result)

/-- `HSET job ...` with the fields of `new` over the hash `old`. -/
def hset (old new : Record) : Record :=
  { new with
    groupId := new.groupId <|> old.groupId
    error := new.error <|> old.error
    result := new.result <|> old.result }

@[simp] theorem hset_id (old new : Record) : (old.hset new).id = new.id := rfl

@[simp] theorem hset_status (old new : Record) : (old.hset new).status = new.status := rfl

@[simp] theorem hset_requestCancel (old new : Record) :
    (old.hset new).requestCancel = new.requestCancel := rfl

end Record

/-- A record in a terminal status: what `Worker._save` writes. -/
structure Finished where
  record : Record
  terminal : record.status.terminal = true
deriving DecidableEq

/-- How a task body ended, as `Worker._run` tells it. -/
inductive BodyOutcome where
  | completed (result : Blob)
  | raised (error : String)
  | cancelled
deriving DecidableEq, Repr

/-- The record of a job claimed as `r` whose body ended in `o`: the status that
`_run` sets, then `to_record`, which re-serialises the arguments to `payload`
and writes a result only for a completed job. -/
def Record.settle (r : Record) (payload : Blob) : BodyOutcome → Finished
  | .completed b =>
    ⟨{ r with status := .completed, result := some b, payload := payload }, rfl⟩
  | .raised msg =>
    ⟨{ r with status := .failed, error := some msg, result := none, payload := payload }, rfl⟩
  | .cancelled =>
    ⟨{ r with status := .cancelled, result := none, payload := payload }, rfl⟩

@[simp] theorem Record.settle_id (r : Record) (payload : Blob) (o : BodyOutcome) :
    (r.settle payload o).record.id = r.id := by
  cases o <;> rfl

theorem Record.settle_attempts (r : Record) (payload : Blob) (o : BodyOutcome) :
    (r.settle payload o).record.attempts = r.attempts := by
  cases o <;> rfl

/-- The FAILED record that `_run`'s exception handler writes when the first
terminal save of `f` raised `msg`. -/
def Finished.fallback (f : Finished) (msg : String) : Finished :=
  f.record.settle f.record.payload (.raised msg)

@[simp] theorem Finished.fallback_id (f : Finished) (msg : String) :
    (f.fallback msg).record.id = f.record.id := rfl

end TaskQueue
