import TaskQueue.Wire.Job

/-!
# The fields of a stored record

`Record` is a record by its content, and `Record.toDict` the dictionary of text and blobs
that holds it: the keys of the optional fields are absent when the fields are.

- `Job.toRecord_eq`: a job is written as the dictionary of its record.
- `Job.fromRecord_toDict`: the dictionary is read back as the job.
- `Record.lookup_hset`, `Record.lookup_setStatus` and their like say what a change of the
  content is for the dictionary.
-/

namespace TaskQueue

open Wire

/-- The values of `RedisBackend._BLOBS`. -/
def Wire.blobs : List String := ["payload", "result"]

namespace Record

/-- What every record has. -/
def always (r : Record) : List (String × Datum) :=
  [("id", .text r.id),
    ("task_name", .text r.taskName),
    ("created_at", .text r.createdAt),
    ("status", .text (statusValue r.status)),
    ("attempts", .text r.attempts.repr),
    ("request_cancel", .text r.requestCancel.toInt.repr),
    ("payload", .bytes r.payload)]

/-- The keys and values of a record. -/
def fields (r : Record) : List (String × Datum) :=
  r.always ++
  (r.groupId.toList.map fun groupId => ("group_id", .text groupId)) ++
  (r.error.toList.map fun error => ("error", .text error)) ++
  (r.result.toList.map fun result => ("result", .bytes result))

/-- The dictionary that holds a record. -/
def toDict (r : Record) : WireRecord := Dict.ofPairs r.fields

/-- All keys there are. -/
def keys : List String :=
  ["id", "task_name", "created_at", "status", "attempts", "request_cancel", "payload",
    "group_id", "error", "result"]

variable {r : Record} {k : String} {x : Datum}

theorem keys_fields_sublist (r : Record) : (r.fields.map Prod.fst).Sublist keys := by
  have hoption : ∀ (o : Option String) (key : String),
      ((o.toList.map fun v => (key, Datum.text v)).map Prod.fst).Sublist [key] := by
    intro o key
    cases o with
    | none => exact List.nil_sublist _
    | some v => exact List.Sublist.refl _
  have hresult : ((r.result.toList.map fun v => ("result", Datum.bytes v)).map Prod.fst).Sublist
      ["result"] := by
    cases r.result with
    | none => exact List.nil_sublist _
    | some v => exact List.Sublist.refl _
  rw [fields, List.map_append, List.map_append, List.map_append]
  exact (((List.Sublist.refl _).append (hoption r.groupId "group_id")).append
    (hoption r.error "error")).append hresult

theorem nodup_fields (r : Record) : (r.fields.map Prod.fst).Nodup :=
  (keys_fields_sublist r).nodup (by decide)

theorem lookup_toDict : r.toDict.lookup k = some x ↔ (k, x) ∈ r.fields :=
  Dict.lookup_ofPairs r.nodup_fields

/-- The keys are those of `to_record`. -/
theorem mem_keys_of_lookup (h : r.toDict.lookup k = some x) : k ∈ keys :=
  (keys_fields_sublist r).subset (List.mem_map_of_mem (lookup_toDict.mp h))

/-- The blobs are bytes, and everything else is text. -/
theorem blob_iff (h : r.toDict.lookup k = some x) : k ∈ blobs ↔ ∃ b, x = .bytes b := by
  have hmem := lookup_toDict.mp h
  simp only [fields, always, List.cons_append, List.nil_append, List.mem_cons, List.mem_append,
    List.mem_map, Option.mem_toList, Prod.mk.injEq] at hmem
  rcases hmem with ⟨rfl, rfl⟩ | ⟨rfl, rfl⟩ | ⟨rfl, rfl⟩ | ⟨rfl, rfl⟩ | ⟨rfl, rfl⟩ | ⟨rfl, rfl⟩ |
    ⟨rfl, rfl⟩ | ((⟨_, _, rfl, rfl⟩ | ⟨_, _, rfl, rfl⟩) | ⟨_, _, rfl, rfl⟩) <;> simp [blobs]

/-- The value of a key. -/
def field (r : Record) : String → Option Datum
  | "id" => some (.text r.id)
  | "task_name" => some (.text r.taskName)
  | "created_at" => some (.text r.createdAt)
  | "status" => some (.text (statusValue r.status))
  | "attempts" => some (.text r.attempts.repr)
  | "request_cancel" => some (.text r.requestCancel.toInt.repr)
  | "payload" => some (.bytes r.payload)
  | "group_id" => r.groupId.map .text
  | "error" => r.error.map .text
  | "result" => r.result.map .bytes
  | _ => none

theorem lookup_toDict_eq (r : Record) (k : String) : r.toDict.lookup k = r.field k := by
  refine Option.ext fun x => lookup_toDict.trans ?_
  unfold field
  split
  all_goals simp_all [fields, always, eq_comm]

/-- `HSET job status ...`. -/
theorem field_setStatus (r : Record) (status : JobStatus) (k : String) :
    { r with status := status }.field k =
      if k = "status" then some (.text (statusValue status)) else r.field k := by
  unfold field
  split <;> simp_all

/-- `HSET job attempts ...`. -/
theorem field_setAttempts (r : Record) (attempts : Int) (k : String) :
    { r with attempts := attempts }.field k =
      if k = "attempts" then some (.text attempts.repr) else r.field k := by
  unfold field
  split <;> simp_all

/-- `HSET job request_cancel '1'`. -/
theorem field_setRequestCancel (r : Record) (k : String) :
    { r with requestCancel := true }.field k =
      if k = "request_cancel" then some (.text "1") else r.field k := by
  unfold field
  split <;> simp_all
  rfl

/-- `HSET job ...` with all the fields of another record. -/
theorem field_hset (old new : Record) (k : String) :
    (old.hset new).field k = (new.field k).or (old.field k) := by
  have hoption : ∀ (o o' : Option String), (o <|> o').map Datum.text
      = (o.map Datum.text).or (o'.map Datum.text) := by
    intro o o'
    cases o <;> rfl
  have hresult : ∀ (o o' : Option Blob), (o <|> o').map Datum.bytes
      = (o.map Datum.bytes).or (o'.map Datum.bytes) := by
    intro o o'
    cases o <;> rfl
  unfold field
  split <;> first | exact hoption _ _ | exact hresult _ _ | simp_all [hset]

end Record

namespace Wire

variable {ω : Type} {serializer : Serializer ω} {job : Job ω} {payload : Blob}
  {record : WireRecord}

/-- The content of a job's record, with these blobs. -/
def Job.stored (job : Job ω) (payload : Blob) (result : Option Blob) : Record where
  id := job.id
  taskName := job.taskName
  createdAt := job.createdAt.isoformat
  status := job.status
  attempts := job.attempts
  requestCancel := job.requestCancel
  payload := payload
  groupId := job.groupId
  error := job.error
  result := result

/-- `to_record` writes the dictionary of the job's record. -/
theorem Job.toRecord_eq (result : Option Blob)
    (hpayload : serializer.dumps job.payload = .ok payload)
    (hresult : if job.status = .completed then ∃ b, result = some b ∧
        serializer.dumps job.result = .ok b else result = none) :
    job.toRecord serializer = .ok (job.stored payload result).toDict := by
  have hdict : (job.stored payload result).toDict = Dict.extend (Dict.extend (Dict.extend
      (Dict.ofPairs (job.stored payload none).always)
      (job.groupId.toList.map fun groupId => ("group_id", .text groupId)))
      (job.error.toList.map fun error => ("error", .text error)))
      (result.toList.map fun result => ("result", .bytes result)) := by
    rw [Record.toDict, Record.fields, Dict.ofPairs, Dict.extend_append, Dict.extend_append,
      Dict.extend_append]
    rfl
  have hbind : ∀ f : Blob → Except Error WireRecord, (Except.ok payload >>= f) = f payload :=
    fun _ => rfl
  rw [hdict, toRecord, hpayload, hbind]
  by_cases hcompleted : job.status = .completed
  · rw [if_pos hcompleted] at hresult ⊢
    obtain ⟨b, rfl, hdumps⟩ := hresult
    rw [hdumps]
    cases job.groupId <;> cases job.error <;> rfl
  · rw [if_neg hcompleted] at hresult ⊢
    subst hresult
    cases job.groupId <;> cases job.error <;> rfl

/-- What `fromRecord` asks of the serializer for the blobs of a job. -/
structure Loads (serializer : Serializer ω) (job : Job ω) (payload : Blob)
    (result : Option Blob) : Prop where
  payload : serializer.loads (.bytes payload) = .ok job.payload
  result : match result with
    | some b => serializer.loads (.bytes b) = .ok job.result
    | none => job.result = .none

/-- **A job is read back from its record.** -/
theorem Job.fromRecord_of_fields {result : Option Blob}
    (hrecord : ∀ k, record.lookup k = (job.stored payload result).field k)
    (hloads : Loads serializer job payload result) :
    fromRecord record serializer = .ok job := by
  have hpayload : optional record "payload" serializer.loads = .ok (some job.payload) := by
    rw [optional, hrecord]
    show some <$> serializer.loads (.bytes payload) = _
    rw [hloads.payload]
    rfl
  have hresult :
      optional record "result" serializer.loads = .ok (result.map fun _ => job.result) := by
    have hblob := hloads.result
    rw [optional, hrecord]
    cases result with
    | some b =>
      show some <$> serializer.loads (.bytes b) = _
      rw [hblob]
      rfl
    | none => rfl
  have hloaded : (result.map fun _ => job.result).getD .none = job.result := by
    have hblob := hloads.result
    cases result with
    | some b => rfl
    | none => exact hblob.symm
  have htext : ∀ (k : String) (o : Option String), record.lookup k = o.map .text →
      optional record k Datum.str = .ok o := by
    intro k o hk
    rw [optional, hk]
    cases o <;> rfl
  have hflag : decide (job.requestCancel.toInt ≠ 0) = job.requestCancel := by
    cases job.requestCancel <;> rfl
  rw [fromRecord, hpayload, hresult, htext "error" job.error (hrecord _),
    htext "group_id" job.groupId (hrecord _)]
  simp only [required, optional, hrecord, Record.field, stored, bind, Except.bind, pure,
    Except.pure, Option.getD_some, hloaded, Datum.str, Datum.time_isoformat, statusOf_statusValue,
    Datum.int_repr, Functor.map, Except.map, hflag]
  rfl

end Wire

end TaskQueue
