import TaskQueue.Library.Decimal
import TaskQueue.Library.Dict
import TaskQueue.Wire.Text

/-!
# A job and its record (`job.py`)

`Job.toRecord` writes a job as a dictionary of text fields and two opaque blobs, and
`Job.fromRecord` reads it. The serializer is a parameter: of its two functions only
`Serializer.Faithful` is used, that what it dumped loads as the same object.

Objects are what a JSON-like codec knows, beside an arbitrary type `ω` of other ones. Times
are aware UTC times, which `created_at` always is; `fromisoformat` reads the texts that
`isoformat` writes for them.
-/

namespace TaskQueue.Wire

open Decimal

/-! ## Times -/

/-- The days of a month in the proleptic Gregorian calendar. -/
def daysInMonth (year month : Nat) : Nat :=
  if month = 2 then if year % 4 = 0 ∧ (year % 100 ≠ 0 ∨ year % 400 = 0) then 29 else 28
  else if month = 4 ∨ month = 6 ∨ month = 9 ∨ month = 11 then 30
  else 31

/-- The fields of a time. -/
structure TimeFields where
  year : Nat
  month : Nat
  day : Nat
  hour : Nat
  minute : Nat
  second : Nat
  microsecond : Nat
deriving DecidableEq

/-- What `datetime` checks of its arguments. -/
def TimeFields.Valid (t : TimeFields) : Prop :=
  (1 ≤ t.year ∧ t.year ≤ 9999) ∧ (1 ≤ t.month ∧ t.month ≤ 12) ∧
    (1 ≤ t.day ∧ t.day ≤ daysInMonth t.year t.month) ∧
    t.hour < 24 ∧ t.minute < 60 ∧ t.second < 60 ∧ t.microsecond < 1000000

instance (t : TimeFields) : Decidable t.Valid := inferInstanceAs (Decidable (_ ∧ _))

/-- An aware UTC `datetime`. -/
structure DateTime where
  fields : TimeFields
  valid : fields.Valid
deriving DecidableEq

namespace DateTime

/-- The offset of UTC, as `isoformat` writes it. -/
def utcOffset : List Char := ['+', '0', '0', ':', '0', '0']

/-- `datetime.isoformat`: the microseconds are left out when they are zero. -/
def isoformat (t : DateTime) : String :=
  String.ofList <|
    digits 4 t.fields.year ++ '-' :: (digits 2 t.fields.month ++ '-' :: (digits 2 t.fields.day ++
      'T' :: (digits 2 t.fields.hour ++ ':' :: (digits 2 t.fields.minute ++
        ':' :: (digits 2 t.fields.second ++
          if t.fields.microsecond = 0 then utcOffset
          else '.' :: (digits 6 t.fields.microsecond ++ utcOffset))))))

/-- Read the character `c`. -/
def expect (c : Char) : List Char → Option (List Char)
  | c' :: rest => if c' = c then some rest else none
  | [] => none

/-- Read the microseconds and the offset. -/
def fraction (cs : List Char) : Option Nat :=
  match expect '.' cs with
  | some rest => do
    let (microsecond, rest) ← number 6 rest
    if rest = utcOffset then some microsecond else none
  | none => if cs = utcOffset then some 0 else none

/-- `datetime.fromisoformat`. -/
def fromisoformat (s : String) : Option DateTime := do
  let (year, cs) ← number 4 s.toList
  let (month, cs) ← number 2 (← expect '-' cs)
  let (day, cs) ← number 2 (← expect '-' cs)
  let (hour, cs) ← number 2 (← expect 'T' cs)
  let (minute, cs) ← number 2 (← expect ':' cs)
  let (second, cs) ← number 2 (← expect ':' cs)
  let microsecond ← fraction cs
  let fields : TimeFields := ⟨year, month, day, hour, minute, second, microsecond⟩
  if valid : fields.Valid then some ⟨fields, valid⟩ else none

@[simp] theorem expect_cons (c : Char) (rest : List Char) : expect c (c :: rest) = some rest :=
  if_pos rfl

theorem fraction_isoformat {microsecond : Nat} (h : microsecond < 1000000) :
    fraction (if microsecond = 0 then utcOffset
      else '.' :: (digits 6 microsecond ++ utcOffset)) = some microsecond := by
  by_cases hzero : microsecond = 0
  · rw [if_pos hzero, hzero]
    rfl
  · rw [if_neg hzero, fraction, expect_cons]
    simp [number_digits (by decide : 0 < 6) h]

/-- **A time is read back from its text.** -/
@[simp] theorem fromisoformat_isoformat (t : DateTime) : fromisoformat t.isoformat = some t := by
  obtain ⟨⟨year, month, day, hour, minute, second, microsecond⟩, hvalid⟩ := t
  obtain ⟨⟨-, hyear⟩, ⟨-, hmonth⟩, ⟨-, hday⟩, hhour, hminute, hsecond, hmicro⟩ := id hvalid
  have hdays : daysInMonth year month ≤ 31 := by
    unfold daysInMonth
    split_ifs <;> omega
  have hpad : ∀ n rest, n < 100 → number 2 (digits 2 n ++ rest) = some (n, rest) :=
    fun n rest h => number_digits (by decide) (by omega) rest
  have hyears : ∀ rest, number 4 (digits 4 year ++ rest) = some (year, rest) :=
    fun rest => number_digits (by decide) (by simp only at hyear; omega) rest
  simp only at hmonth hday hhour hminute hsecond hmicro
  simp only [isoformat, fromisoformat, String.toList_ofList, hyears, Option.bind_eq_bind,
    Option.bind_some, expect_cons, hpad month _ (by omega), hpad day _ (by omega),
    hpad hour _ (by omega), hpad minute _ (by omega), hpad second _ (by omega),
    fraction_isoformat hmicro]
  rw [dif_pos hvalid]

end DateTime

/-! ## Objects and serializers -/

/-- What a job's arguments and its result are made of. -/
inductive PyObject (ω : Type) where
  | none
  | bool (b : Bool)
  | int (n : Int)
  | str (s : String)
  | bytes (b : Blob)
  | list (items : List (PyObject ω))
  | tuple (items : List (PyObject ω))
  | dict (items : List (String × PyObject ω))
  | other (x : ω)

namespace PyObject

variable {ω : Type}

/-- `x[key]`, for a text key. -/
def getItem (key : String) : PyObject ω → Except Error (PyObject ω)
  | dict items =>
    match items.lookup key with
    | some x => .ok x
    | _ => .error .keyError
  | _ => .error .typeError

/-- `tuple(x)`. -/
def toTuple : PyObject ω → Except Error (List (PyObject ω))
  | list items | tuple items => .ok items
  | _ => .error .typeError

/-- `dict(x)`. -/
def toDict : PyObject ω → Except Error (List (String × PyObject ω))
  | dict items => .ok items
  | _ => .error .typeError

end PyObject

/-- `Serializer`. -/
structure Serializer (ω : Type) where
  dumps : PyObject ω → Except Error Blob
  loads : Datum → Except Error (PyObject ω)

variable {ω : Type}

/-- The contract of `Serializer` for one object. -/
def Serializer.Faithful (serializer : Serializer ω) (x : PyObject ω) : Prop :=
  ∃ b, serializer.dumps x = .ok b ∧ serializer.loads (.bytes b) = .ok x

/-! ## Jobs -/

/-- `Job`. -/
structure Job (ω : Type) where
  id : JobId
  taskName : String
  createdAt : DateTime
  args : List (PyObject ω)
  kwargs : List (String × PyObject ω)
  status : JobStatus
  result : PyObject ω
  error : Option String
  attempts : Int
  requestCancel : Bool
  groupId : Option String

/-- The values of `JobStatus`. -/
def statusValue : JobStatus → String
  | .created => "created"
  | .queued => "queued"
  | .running => "running"
  | .completed => "completed"
  | .failed => "failed"
  | .cancelled => "cancelled"

/-- `JobStatus(value)`. -/
def statusOf : Datum → Except Error JobStatus
  | .text "created" => .ok .created
  | .text "queued" => .ok .queued
  | .text "running" => .ok .running
  | .text "completed" => .ok .completed
  | .text "failed" => .ok .failed
  | .text "cancelled" => .ok .cancelled
  | _ => .error .valueError

@[simp] theorem statusOf_statusValue (status : JobStatus) :
    statusOf (.text (statusValue status)) = .ok status := by
  cases status <;> rfl

theorem statusValue_injective : Function.Injective statusValue := by
  intro status status' h
  have hread := statusOf_statusValue status
  rw [h, statusOf_statusValue] at hread
  exact (Except.ok.inj hread).symm

/-- A record in memory. -/
abbrev WireRecord := Dict String Datum

/-- `{"args": list(self.args), "kwargs": self.kwargs}`. -/
def Job.payload (job : Job ω) : PyObject ω :=
  .dict [("args", .list job.args), ("kwargs", .dict job.kwargs)]

/-- `Job.to_record`. -/
def Job.toRecord (job : Job ω) (serializer : Serializer ω) : Except Error WireRecord := do
  let payload ← serializer.dumps job.payload
  let record : WireRecord := Dict.ofPairs [
    ("id", .text job.id),
    ("task_name", .text job.taskName),
    ("created_at", .text job.createdAt.isoformat),
    ("status", .text (statusValue job.status)),
    ("attempts", .text job.attempts.repr),
    ("request_cancel", .text job.requestCancel.toInt.repr),
    ("payload", .bytes payload)]
  let record := match job.groupId with
    | some groupId => record.insert "group_id" (.text groupId)
    | none => record
  let record := match job.error with
    | some error => record.insert "error" (.text error)
    | none => record
  if job.status = .completed then
    let result ← serializer.dumps job.result
    return record.insert "result" (.bytes result)
  else
    return record

namespace Datum

/-- `int(v)`. -/
def int (v : Datum) : Except Error Int :=
  match v.decoded with
  | .ok s =>
    match parse s with
    | some n => .ok n
    | none => .error .valueError
  | .error _ => .error .valueError

/-- A field of the envelope, which is text in every record that the backend returns. -/
def str : Datum → Except Error String
  | text s => .ok s
  | bytes _ => .error .typeError

/-- `datetime.fromisoformat(v)`. -/
def time : Datum → Except Error DateTime
  | text s =>
    match DateTime.fromisoformat s with
    | some t => .ok t
    | none => .error .valueError
  | bytes _ => .error .typeError

@[simp] theorem int_repr (n : Int) : (text n.repr).int = .ok n := by
  simp only [int, decoded, parse_repr]

@[simp] theorem time_isoformat (t : DateTime) : (text t.isoformat).time = .ok t := by
  simp only [time, DateTime.fromisoformat_isoformat]

end Datum

/-- `record[key]`. -/
def required (record : WireRecord) (key : String) : Except Error Datum :=
  match record.lookup key with
  | some v => .ok v
  | none => .error .keyError

/-- `record.get(key)`, put through `f` if it is there. -/
def optional {α : Type} (record : WireRecord) (key : String) (f : Datum → Except Error α) :
    Except Error (Option α) :=
  match record.lookup key with
  | some v => some <$> f v
  | none => .ok none

/-- `Job.from_record`. -/
def Job.fromRecord (record : WireRecord) (serializer : Serializer ω) : Except Error (Job ω) := do
  let payload := (← optional record "payload" serializer.loads).getD .none
  let result := (← optional record "result" serializer.loads).getD .none
  let id ← (← required record "id").str
  let taskName ← (← required record "task_name").str
  let createdAt ← (← required record "created_at").time
  let status ← statusOf (← required record "status")
  let error ← optional record "error" Datum.str
  let args ← match payload with
    | .none => .ok []
    | payload => (← payload.getItem "args").toTuple
  let kwargs ← match payload with
    | .none => .ok []
    | payload => (← payload.getItem "kwargs").toDict
  let requestCancel := (← optional record "request_cancel" Datum.int).getD 0
  let attempts := (← optional record "attempts" Datum.int).getD 0
  let groupId ← optional record "group_id" Datum.str
  return { id, taskName, createdAt, args, kwargs, status, result, error, attempts,
           requestCancel := requestCancel ≠ 0, groupId }

end TaskQueue.Wire
