import TaskQueue.Wire.Backend

/-!
# The round trip of a job

A job is written by `to_record`, stored by `enqueue`, and read by `get_job` or by the
`claim` that finds its id at the head of the queue; whatever other clients do in between,
the hash of the job is the one that `enqueue` stored. `RoundTrips` is the promise of the
record format: text is text, the blobs are the bytes that were written, and `from_record`
gives the job back, but for what the backend owns.

`roundTrips_iff` says when it is kept: over a connection that leaves replies as bytes, and,
for a claim, when the counter of attempts has room for one more.
-/

namespace TaskQueue.Wire

open Redis Decimal

variable {ω : Type}

/-- A way to read a record. -/
inductive Reading where
  | getJob
  | claim (worker : InstanceId)

/-- What the call returns. -/
def Reading.run (c : Connection) (st : RawStore) (jobId : JobId) :
    Reading → Except Error (Option WireRecord)
  | .getJob => some <$> Wire.getJob c st jobId
  | .claim worker => (Wire.claim c st worker).2

/-- The job, with what the backend owns. -/
def Reading.owned (job : Job ω) : Reading → Job ω
  | .getJob => { job with status := .queued }
  | .claim _ => { job with status := .running, attempts := job.attempts + 1 }

/-- The record, as the backend leaves it. -/
def Reading.leaves (r : Record) : Reading → Record
  | .getJob => r
  | .claim _ => { r with status := .running, attempts := r.attempts + 1 }

/-- A claim counts an attempt, in 64 bits. -/
def Reading.Room (attempts : Int) : Reading → Prop
  | .getJob => True
  | .claim _ => int64 attempts ∧ int64 (attempts + 1)

/-- The record that was `written` for the job comes back. -/
def RoundTrips (serializer : Serializer ω) (job : Job ω) (written : WireRecord)
    (reading : Reading) (out : Except Error (Option WireRecord)) : Prop :=
  ∃ record, out = .ok (some record) ∧
    (∀ k v, record.lookup k = some v → k ∉ blobs → ∃ s, v = .text s) ∧
    (∀ k ∈ blobs, record.lookup k = written.lookup k) ∧
    Job.fromRecord record serializer = .ok (reading.owned job)

/-! ## Enqueued -/

/-- The hash that `enqueue` stores, of a dictionary. -/
theorem enqueue_dict {st : RawStore} {jobId : JobId} (hfresh : st.hashes (jobKey jobId) = none)
    (d : WireRecord) :
    ∃ h, enqueue st jobId d
        = ((st.put (jobKey jobId) ⟨h, none⟩).rpush (listKey .queue) (encode jobId), .ok 1) ∧
      Stores h fun k => (d.insert "status" (.text (statusValue .queued))).lookup k := by
  let record : WireRecord := d.insert "status" (.text (statusValue .queued))
  have hne : record.items ≠ [] := by
    intro hnil
    have hmem : ("status", Datum.text (statusValue .queued)) ∈ record.items :=
      Dict.mem_items.mpr (AList.lookup_insert d)
    rw [hnil] at hmem
    cases hmem
  obtain ⟨h, hset, hs⟩ :=
    Stores.hset (d := ∅) (Stores.empty.congr fun k => AList.lookup_empty k) hne
  refine ⟨h, ?_, hs.congr fun k => ?_⟩
  · show enqueueScript st (jobKey jobId) (listKey .queue) (encode jobId) (flattenRecord record) = _
    rw [enqueueScript, hfresh]
    simp only [hset]
  · rw [AList.lookup_empty, Option.or_none]

/-- The hash that `enqueue` stores, of a record. -/
theorem enqueue_stores {st : RawStore} {r : Record} (hfresh : st.hashes (jobKey r.id) = none) :
    ∃ h, enqueue st r.id r.toDict
        = ((st.put (jobKey r.id) ⟨h, none⟩).rpush (listKey .queue) (encode r.id), .ok 1) ∧
      Stores h { r with status := .queued }.field := by
  obtain ⟨h, henqueue, hs⟩ := enqueue_dict hfresh r.toDict
  refine ⟨h, henqueue, hs.congr fun k => ?_⟩
  rw [Record.field_setStatus, ← r.lookup_toDict_eq]
  exact (Dict.lookup_insert _ _ _ _).symm

/-! ## Claimed -/

@[simp] theorem counter_repr (n : Int) :
    counter (encode n.repr) = if int64 n then some n else none := by
  rw [counter, decode_encode, Option.bind_some, parse_repr]
  by_cases hn : int64 n
  · simp [hn]
  · simp [hn]

/-- `HINCRBY` on the attempts of a stored record. -/
theorem Stores.hincrby {h : Hash} {r : Record} (hs : Stores h r.field) :
    if int64 r.attempts ∧ int64 (r.attempts + 1) then
      ∃ h', Hash.hincrby h "attempts" 1 = .ok h' ∧
        Stores h' { r with attempts := r.attempts + 1 }.field
    else Hash.hincrby h "attempts" 1 = .error .responseError := by
  have hvalue : (Hash.hget h "attempts").elim (some 0) counter
      = if int64 r.attempts then some r.attempts else none := by
    rw [hs.hget, ← counter_repr]
    rfl
  rw [Hash.hincrby, hvalue]
  by_cases hold : int64 r.attempts
  · by_cases hnew : int64 (r.attempts + 1)
    · simp only [hold, hnew, and_self, if_true]
      refine ⟨_, rfl, ?_⟩
      refine (hs.insert "attempts" (.text (r.attempts + 1).repr)).congr fun k => ?_
      exact r.field_setAttempts (r.attempts + 1) k
    · simp [hold, hnew]
  · simp [hold]

/-- An id comes back, however replies are decoded. -/
theorem received_encode (decodeResponses : Bool) (s : String) :
    (Datum.received decodeResponses (encode s)).bind Datum.decoded = .ok s := by
  cases decodeResponses with
  | false =>
    show Datum.decoded (.bytes (encode s)) = _
    exact Datum.decoded_encode s
  | true =>
    rw [Datum.received, if_pos rfl, decode_encode]
    rfl

theorem hgetall_eq_nil {c : Connection} {h : Hash} (hreply : c.hgetall h = .ok []) :
    h.items = [] := by
  have hlist : c.listing.list h = [] := by
    cases hl : c.listing.list h with
    | nil => rfl
    | cons p l =>
      rw [Connection.hgetall, hl, flatten_cons, List.mapM_cons] at hreply
      obtain ⟨v, -, hreply⟩ := Except.bind_eq_ok.mp hreply
      obtain ⟨vs, -, hreply⟩ := Except.bind_eq_ok.mp hreply
      cases hreply
  have hperm := c.listing.perm h
  rw [hlist] at hperm
  exact hperm.symm.eq_nil

/-- The store in which the claim script runs, and its outcome. -/
def claimOutcome (st : RawStore) (worker : InstanceId) (jobId : JobId) :
    RawStore × Except Error (Option Hash) :=
  claimScript (blmove st (listKey .queue) (listKey (.processing worker))).1 (jobKey jobId)
    (encode (statusValue .running))

section Claim

variable {c : Connection} {st : RawStore} {worker : InstanceId} {jobId : JobId}
  {rest : List Blob} (hqueue : st.lists (listKey .queue) = encode jobId :: rest)

include hqueue

theorem blmove_head (processing : Blob) :
    blmove st (listKey .queue) processing
      = ((blmove st (listKey .queue) processing).1, some (encode jobId)) := by
  simp only [blmove, RawStore.lpop, hqueue]

/-- A script that fails makes `claim` raise. -/
theorem claim_of_error {e : Error} (hscript : (claimOutcome st worker jobId).2 = .error e) :
    (claim c st worker).2 = .error e := by
  rw [claimOutcome] at hscript
  rw [claim, blmove_head hqueue]
  simp only [received_encode]
  rw [hscript]
  rfl

/-- The reply of the claim script, once received, is read as the reply of `get_job` is. -/
theorem claim_of_reply {h : Hash} {flat : List Datum}
    (hscript : (claimOutcome st worker jobId).2 = .ok (some h)) (hreply : c.hgetall h = .ok flat)
    (hne : h.items ≠ []) :
    claim c st worker = ((claimOutcome st worker jobId).1, some <$> c.readHash h) := by
  rw [claimOutcome] at hscript ⊢
  rw [claim, blmove_head hqueue]
  simp only [received_encode]
  rw [hscript]
  have hbind : (Except.ok (some h)).bind (fun h : Option Hash => h.mapM c.hgetall)
      = some <$> c.hgetall h := rfl
  rw [hbind, Connection.readHash, hreply]
  cases flat with
  | nil => exact absurd (hgetall_eq_nil hreply) hne
  | cons v flat =>
    show (_, do return some (← decodeRecord (← zipDict (v :: flat))))
      = (_, some <$> (do decodeRecord (← zipDict (v :: flat))))
    cases zipDict (v :: flat) with
    | error e => rfl
    | ok raw =>
      show (_, do return some (← decodeRecord raw)) = (_, some <$> decodeRecord raw)
      cases decodeRecord raw <;> rfl

theorem claim_of_hash {h : Hash} (hscript : (claimOutcome st worker jobId).2 = .ok (some h))
    (hne : h.items ≠ []) : (claim c st worker).2 = some <$> c.readHash h := by
  cases hreply : c.hgetall h with
  | ok flat => rw [claim_of_reply hqueue hscript hreply hne]
  | error e =>
    rw [claimOutcome] at hscript
    rw [claim, blmove_head hqueue]
    simp only [received_encode]
    rw [hscript]
    have hbind : (Except.ok (some h)).bind (fun h : Option Hash => h.mapM c.hgetall)
        = some <$> c.hgetall h := rfl
    rw [hbind, Connection.readHash, hreply]
    rfl

end Claim

theorem blmove_hashes (st : RawStore) (queue processing : Blob) :
    (blmove st queue processing).1.hashes = st.hashes := by
  unfold blmove RawStore.lpop
  cases st.lists queue <;> rfl

/-- The hash of a record in the claim script. -/
theorem claimOutcome_stored {st : RawStore} (worker : InstanceId) {r : Record} {h : Hash}
    {ttl : Option Nat} (hstored : st.hashes (jobKey r.id) = some ⟨h, ttl⟩)
    (hs : Stores h r.field) :
    if int64 r.attempts ∧ int64 (r.attempts + 1) then
      ∃ h', (claimOutcome st worker r.id).2 = .ok (some h') ∧
        Stores h' { r with status := .running, attempts := r.attempts + 1 }.field
    else (claimOutcome st worker r.id).2 = .error .responseError := by
  have hrunning : Stores (h.insert (encode "status") (encode (statusValue .running)))
      { r with status := .running }.field :=
    (hs.insert "status" (.text (statusValue .running))).congr (r.field_setStatus .running)
  have hcount := hrunning.hincrby
  rw [claimOutcome, claimScript, blmove_hashes, hstored]
  split_ifs at hcount ⊢ with hroom
  · obtain ⟨h', hincr, hs'⟩ := hcount
    exact ⟨h', by simp only [hincr], hs'⟩
  · simp only [hcount]

/-! ## The round trip -/

theorem items_ne_nil {h : Hash} {r : Record} (hs : Stores h r.field) : h.items ≠ [] := by
  intro hnil
  have hid : h.lookup (encode "id") = some (encode r.id) := by
    rw [hs, decode_encode]
    rfl
  have hmem := Dict.mem_items.mpr hid
  rw [hnil] at hmem
  cases hmem

section Stored

variable (c : Connection) {st : RawStore} {r : Record} {h : Hash} {ttl : Option Nat}
  (reading : Reading) (hstored : st.hashes (jobKey r.id) = some ⟨h, ttl⟩) (hs : Stores h r.field)
  (hhead : ∀ worker, reading = .claim worker →
    ∃ rest, st.lists (listKey .queue) = encode r.id :: rest)

include hstored hs hhead

/-- With room for the attempt, what comes back is the reading of a hash that holds the record
as the backend leaves it. -/
theorem Reading.run_of_room (hroom : reading.Room r.attempts) :
    ∃ h', reading.run c st r.id = some <$> c.readHash h' ∧ Stores h' (reading.leaves r).field := by
  cases reading with
  | getJob =>
    refine ⟨h, ?_, hs⟩
    rw [run, Wire.getJob, hstored]
  | claim worker =>
    obtain ⟨rest, hqueue⟩ := hhead worker rfl
    have houtcome := claimOutcome_stored worker hstored hs
    rw [if_pos (show int64 r.attempts ∧ int64 (r.attempts + 1) from hroom)] at houtcome
    obtain ⟨h', hscript, hs'⟩ := houtcome
    exact ⟨h', claim_of_hash hqueue hscript (items_ne_nil hs'), hs'⟩

/-- Without it, the call raises. -/
theorem Reading.run_of_full (hfull : ¬ reading.Room r.attempts) :
    reading.run c st r.id = .error .responseError := by
  cases reading with
  | getJob => exact absurd trivial hfull
  | claim worker =>
    obtain ⟨rest, hqueue⟩ := hhead worker rfl
    have houtcome := claimOutcome_stored worker hstored hs
    rw [if_neg (show ¬ (int64 r.attempts ∧ int64 (r.attempts + 1)) from hfull)] at houtcome
    exact claim_of_error hqueue houtcome

end Stored

section RoundTrip

variable {serializer : Serializer ω} {job : Job ω} {c : Connection} {st st' : RawStore}
  {reading : Reading} {written : WireRecord}

/-- The blobs of a job that is written. -/
theorem exists_blobs (hpayload : serializer.Faithful job.payload)
    (hresult : job.status = .completed → serializer.Faithful job.result)
    (hnone : job.status ≠ .completed → job.result = .none)
    (hwritten : job.toRecord serializer = .ok written) :
    ∃ payload result, written = (job.stored payload result).toDict ∧
      Loads serializer job payload result := by
  obtain ⟨payload, hdumps, hloads⟩ := hpayload
  by_cases hcompleted : job.status = .completed
  · obtain ⟨b, hdumps', hloads'⟩ := hresult hcompleted
    have heq := Job.toRecord_eq (some b) hdumps
      (by rw [if_pos hcompleted]; exact ⟨b, rfl, hdumps'⟩)
    rw [heq] at hwritten
    exact ⟨payload, some b, (Except.ok.inj hwritten).symm, hloads, hloads'⟩
  · have heq := Job.toRecord_eq none hdumps (by rw [if_neg hcompleted])
    rw [heq] at hwritten
    exact ⟨payload, none, (Except.ok.inj hwritten).symm, hloads, hnone hcompleted⟩

/-- The blobs of a job do not depend on what the backend owns. -/
theorem Loads.owned {payload : Blob} {result : Option Blob}
    (hloads : Loads serializer job payload result) (reading : Reading) :
    Loads serializer (reading.owned job) payload result := by
  cases reading <;> exact ⟨hloads.payload, hloads.result⟩

/-- A record that is decoded as a whole has lost its blobs. -/
theorem not_roundTrips_of_text {h : Hash} {r : Record} (hc : c.decodeResponses = true) :
    ¬ RoundTrips serializer job r.toDict reading (some <$> c.readHash h) := by
  rintro ⟨record, hread, -, hblobs, -⟩
  cases hhash : c.readHash h with
  | error e =>
    rw [hhash] at hread
    cases hread
  | ok record' =>
    rw [hhash] at hread
    cases hread
    have hpayload : record.lookup "payload" = some (.bytes r.payload) := by
      rw [hblobs "payload" (by decide), r.lookup_toDict_eq]
      rfl
    obtain ⟨s, hs⟩ := readHash_text hc hhash hpayload
    cases hs

/-- What `from_record` makes of the fields that the backend leaves is the job with what the
backend owns. -/
theorem Reading.stored_owned (payload : Blob) (result : Option Blob) :
    reading.leaves { job.stored payload result with status := .queued }
      = (reading.owned job).stored payload result := by
  cases reading <;> rfl

/-- **The round trip of a job through the store.** It succeeds exactly when replies are left
as bytes and, for a claim, the counter of attempts can be incremented. -/
theorem roundTrips_iff (hpayload : serializer.Faithful job.payload)
    (hresult : job.status = .completed → serializer.Faithful job.result)
    (hnone : job.status ≠ .completed → job.result = .none)
    (hwritten : job.toRecord serializer = .ok written)
    (hfresh : st.hashes (jobKey job.id) = none)
    (hkept : st'.hashes (jobKey job.id)
      = (enqueue st job.id written).1.hashes (jobKey job.id))
    (hhead : ∀ worker, reading = .claim worker →
      ∃ rest, st'.lists (listKey .queue) = encode job.id :: rest) :
    RoundTrips serializer job written reading (reading.run c st' job.id) ↔
      c.decodeResponses = false ∧ reading.Room job.attempts := by
  obtain ⟨payload, result, rfl, hloads⟩ := exists_blobs hpayload hresult hnone hwritten
  let r : Record := { job.stored payload result with status := .queued }
  obtain ⟨h, henqueue, hs⟩ := enqueue_stores (r := job.stored payload result) hfresh
  have hstored' : st'.hashes (jobKey r.id) = some ⟨h, none⟩ := by
    refine hkept.trans ?_
    rw [show enqueue st job.id _ = _ from henqueue]
    exact Function.update_self ..
  by_cases hroom : reading.Room job.attempts
  · obtain ⟨h', hrun, hs'⟩ := Reading.run_of_room c reading hstored' hs hhead hroom
    rw [show reading.run c st' job.id = _ from hrun]
    cases hc : c.decodeResponses with
    | true =>
      refine iff_of_false (not_roundTrips_of_text hc) fun hcon => ?_
      cases hcon.1
    | false =>
      refine iff_of_true ?_ ⟨rfl, hroom⟩
      rw [Reading.stored_owned] at hs'
      obtain ⟨record, hread, hlookup⟩ := hs'.readHash (shaped_field _) hc
      refine ⟨record, by rw [hread]; rfl, fun k v hk hblob => ?_, fun k hblob => ?_, ?_⟩
      · rw [hlookup] at hk
        cases v with
        | text s => exact ⟨s, rfl⟩
        | bytes b => exact absurd ((shaped_field _ k _ hk).2.mpr ⟨b, rfl⟩) hblob
      · rw [hlookup, Record.lookup_toDict_eq]
        rcases List.mem_cons.mp hblob with rfl | hblob'
        · cases reading <;> rfl
        · rw [List.mem_singleton.mp hblob']
          cases reading <;> rfl
      · exact Job.fromRecord_of_fields hlookup (hloads.owned reading)
  · have hrun := Reading.run_of_full c reading hstored' hs hhead hroom
    rw [show reading.run c st' job.id = _ from hrun]
    refine iff_of_false ?_ fun hcon => hroom hcon.2
    rintro ⟨record, hread, -⟩
    cases hread

end RoundTrip

/-! ## An idle job -/

/-- `{"args": [], "kwargs": {}}`, as JSON. -/
def emptyJson : String := "\x7b\"args\": [], \"kwargs\": \x7b\x7d\x7d"

/-- `JSONSerializer`, as far as this job needs it. `json.loads` reads text as well as bytes. -/
def json : Serializer Empty where
  dumps
    | .dict [("args", .list []), ("kwargs", .dict [])] => .ok (encode emptyJson)
    | _ => .error .typeError
  loads v :=
    if v = .text emptyJson ∨ v = .bytes (encode emptyJson) then
      .ok (.dict [("args", .list []), ("kwargs", .dict [])])
    else .error .valueError

/-- A job without arguments. -/
def idle (attempts : Int) : Job Empty where
  id := "a"
  taskName := "pkg.idle"
  createdAt := ⟨⟨2026, 2, 28, 23, 59, 59, 120⟩, by decide⟩
  args := []
  kwargs := []
  status := .created
  result := .none
  error := none
  attempts := attempts
  requestCancel := true
  groupId := some "g"

/-- Its record. -/
def idleRecord (attempts : Int) : WireRecord :=
  ((idle attempts).stored (encode emptyJson) none).toDict

theorem idle_faithful (attempts : Int) : json.Faithful (idle attempts).payload :=
  ⟨encode emptyJson, rfl, by simp [json, Job.payload, idle]⟩

theorem idle_toRecord (attempts : Int) :
    (idle attempts).toRecord json = .ok (idleRecord attempts) :=
  Job.toRecord_eq none rfl (by rw [if_neg (by rintro ⟨⟩)])

/-- A client of an empty database. -/
def connection (decodeResponses : Bool) : Connection where
  decodeResponses := decodeResponses
  listing := ⟨Dict.items, fun _ => .refl _⟩

/-- The database once the job is enqueued. -/
def withIdle (attempts : Int) : RawStore :=
  (enqueue RawStore.empty "a" (idleRecord attempts)).1

theorem withIdle_eq (attempts : Int) :
    ∃ h, (withIdle attempts).hashes (jobKey "a") = some ⟨h, none⟩ ∧
      (withIdle attempts).lists (listKey .queue) = [encode "a"] ∧
      Stores h { (idle attempts).stored (encode emptyJson) none with status := .queued }.field := by
  have hfresh : RawStore.empty.hashes
      (jobKey ((idle attempts).stored (encode emptyJson) none).id) = none := rfl
  obtain ⟨h, henqueue, hs⟩ := enqueue_stores hfresh
  rw [withIdle, show enqueue _ "a" (idleRecord attempts) = _ from henqueue]
  refine ⟨h, ?_, ?_, hs⟩
  · rw [RawStore.rpush_hashes, RawStore.put_hashes]
    exact Function.update_self (jobKey "a") _ _
  · rw [RawStore.rpush_lists]
    exact Function.update_self (listKey .queue) _ _

theorem idle_roundTrips :
    RoundTrips json (idle 4) (idleRecord 4) (.claim "w")
      ((Reading.claim "w").run (connection false) (withIdle 4) "a") := by
  have hfresh : RawStore.empty.hashes (jobKey (idle 4).id) = none := rfl
  have hqueue := (withIdle_eq 4).choose_spec.2.1
  exact (roundTrips_iff (idle_faithful 4) (by rintro ⟨⟩) (fun _ => rfl) (idle_toRecord 4) hfresh
    rfl fun _ _ => ⟨[], hqueue⟩).mpr ⟨rfl, by decide, by decide⟩

/-- A client that decodes replies gets the payload as text; a counter of attempts at its limit
makes the claim raise. -/
theorem idle_lost :
    ¬ RoundTrips json (idle 0) (idleRecord 0) .getJob
        (Reading.getJob.run (connection true) (withIdle 0) "a") ∧
      ¬ RoundTrips json (idle (2 ^ 63 - 1)) (idleRecord (2 ^ 63 - 1)) (.claim "w")
        ((Reading.claim "w").run (connection false) (withIdle (2 ^ 63 - 1)) "a") := by
  constructor
  · obtain ⟨h, hstored, -, hs⟩ := withIdle_eq 0
    obtain ⟨h', hrun, -⟩ := Reading.run_of_room (connection true) .getJob hstored hs
      (fun _ h => by cases h) trivial
    rw [show Reading.getJob.run (connection true) (withIdle 0) "a" = _ from hrun]
    exact not_roundTrips_of_text rfl
  · obtain ⟨h, hstored, hqueue, hs⟩ := withIdle_eq (2 ^ 63 - 1)
    have hrun := Reading.run_of_full (connection false) (.claim "w") hstored hs
      (fun _ _ => ⟨[], hqueue⟩) (fun hroom => absurd hroom.2 (by decide))
    rw [show (Reading.claim "w").run (connection false) (withIdle (2 ^ 63 - 1)) "a" = _ from hrun]
    rintro ⟨record, hread, -⟩
    cases hread

end TaskQueue.Wire
