import TaskQueue.Wire.Fields
import TaskQueue.Wire.Server

/-!
# Records over a connection (`redis_backend.py`)

`enqueue` flattens a record into the arguments of its script; `get_job` and `claim` turn the
reply to `HGETALL` back into a record. A connection either leaves replies as bytes or decodes
all of them.

`Stores` is what ties a hash to the fields it holds. The commands keep it
(`Stores.insert`, `Stores.hset`), and `Stores.decodeReply` is the way back: over a connection
that leaves bytes alone, the reply is decoded to the very fields that are stored.
-/

namespace TaskQueue.Wire

open Redis

/-- A client, and the server it talks to. -/
structure Connection where
  decodeResponses : Bool
  listing : Listing

/-! ## Requests and replies -/

/-- `_flatten`, and the encoding of its result by the client. -/
def flattenRecord (record : WireRecord) : List Blob :=
  (flatten (record.items.map fun p => (Datum.text p.1, p.2))).map Datum.encoded

/-- The client's reading of the reply to `HGETALL`. -/
def Connection.hgetall (c : Connection) (h : Hash) : Except Error (List Datum) :=
  (flatten (c.listing.list h)).mapM (Datum.received c.decodeResponses)

/-- `dict(zip(flat[::2], flat[1::2], strict=True))`. -/
def zipDict (flat : List Datum) : Except Error (Dict Datum Datum) :=
  match pairs flat with
  | some l => .ok (Dict.ofPairs l)
  | none => .error .valueError

/-- One item of the comprehension in `_decode`; an empty key is left out. -/
def decodeItem (item : Datum × Datum) : Except Error (Option (String × Datum)) := do
  let k ← item.1.decoded
  if k = "" then
    return none
  else if k ∈ blobs then
    return some (k, item.2)
  else
    let v ← item.2.decoded
    return some (k, .text v)

/-- `_decode`. -/
def decodeRecord (raw : Dict Datum Datum) : Except Error WireRecord := do
  let items ← raw.items.mapM decodeItem
  return Dict.ofPairs (items.filterMap id)

/-- The whole way from a hash to a record. -/
def Connection.readHash (c : Connection) (h : Hash) : Except Error WireRecord := do
  decodeRecord (← zipDict (← c.hgetall h))

/-! ## Methods -/

/-- `RedisBackend.enqueue`. -/
def enqueue (st : RawStore) (jobId : JobId) (record : WireRecord) : RawStore × Except Error Int :=
  let record : WireRecord := record.insert "status" (.text (statusValue .queued))
  enqueueScript st (jobKey jobId) (listKey .queue) (encode jobId) (flattenRecord record)

/-- `RedisBackend.get_job`. -/
def getJob (c : Connection) (st : RawStore) (jobId : JobId) : Except Error WireRecord :=
  match st.hashes (jobKey jobId) with
  | none => .error .keyError
  | some e => c.readHash e.hash

/-- `RedisBackend.claim`, of the worker whose id is `worker`. -/
def claim (c : Connection) (st : RawStore) (worker : InstanceId) :
    RawStore × Except Error (Option WireRecord) :=
  let processing := listKey (.processing worker)
  match blmove st (listKey .queue) processing with
  | (st, none) => (st, .ok none)
  | (st, some rawJobId) =>
    match (Datum.received c.decodeResponses rawJobId).bind Datum.decoded with
    -- the lease is taken, and no `except` covers this
    | .error e => (st, .error e)
    | .ok jobId =>
      let (st, flat) := claimScript st (jobKey jobId) (encode (statusValue .running))
      match flat.bind fun h => h.mapM c.hgetall with
      | .error e =>
        (((st.lrem processing (encode jobId)).rpush (listKey .queue) (encode jobId)), .error e)
      | .ok (some (v :: flat)) => (st, do return some (← decodeRecord (← zipDict (v :: flat))))
      | .ok (some []) | .ok none => (st.lrem processing (encode jobId), .ok none)

/-! ## Hashes and fields -/

/-- The hash holds these fields, and no others. -/
def Stores (h : Hash) (field : String → Option Datum) : Prop :=
  ∀ f, h.lookup f = ((decode f).bind field).map Datum.encoded

namespace Stores

variable {h : Hash} {field field' : String → Option Datum} {k : String} {x : Datum}

theorem empty : Stores ∅ fun _ => none := by
  intro f
  rw [AList.lookup_empty]
  cases decode f <;> rfl

theorem congr (hs : Stores h field) (hfield : ∀ k, field' k = field k) : Stores h field' := by
  have heq : field' = field := funext hfield
  rwa [heq]

theorem hget (hs : Stores h field) (k : String) : Hash.hget h k = (field k).map Datum.encoded := by
  rw [Hash.hget, hs, decode_encode]
  rfl

/-- `HSET` of one field. -/
theorem insert (hs : Stores h field) (k : String) (x : Datum) :
    Stores (h.insert (encode k) x.encoded) fun k' => if k' = k then some x else field k' := by
  intro f
  by_cases hf : f = encode k
  · subst hf
    rw [AList.lookup_insert, decode_encode]
    simp
  · rw [AList.lookup_insert_ne hf, hs f]
    cases hd : decode f with
    | none => rfl
    | some k' =>
      have hne : k' ≠ k := by
        rintro rfl
        exact hf (decode_eq_some.mp hd)
      simp [hne]

/-- The pairs of a list, assigned one after the other. -/
theorem extend {d : WireRecord} (hs : Stores h fun k => d.lookup k) (l : List (String × Datum)) :
    Stores (h.extend (l.map fun p => (encode p.1, p.2.encoded)))
      fun k => (Dict.extend d l).lookup k := by
  induction l generalizing h d with
  | nil => exact hs
  | cons p l ih =>
    rw [List.map_cons, Dict.extend_cons, Dict.extend_cons]
    refine ih ((hs.insert p.1 p.2).congr fun k => ?_)
    exact Dict.lookup_insert d p.1 p.2 k

/-- `HSET` of a whole record over the hash of another one. -/
theorem hset {d record : WireRecord} (hs : Stores h fun k => d.lookup k)
    (hne : record.items ≠ []) :
    ∃ h', Hash.hset h (flattenRecord record) = .ok h' ∧
      Stores h' fun k => (record.lookup k).or (d.lookup k) := by
  have hpairs : pairs (flattenRecord record)
      = some (record.items.map fun p => (encode p.1, p.2.encoded)) := by
    rw [flattenRecord, map_flatten, pairs_flatten, List.map_map]
    rfl
  refine ⟨h.extend (record.items.map fun p => (encode p.1, p.2.encoded)), ?_, ?_⟩
  · rw [Hash.hset, hpairs]
    cases hitems : record.items with
    | nil => exact absurd hitems hne
    | cons p l => rfl
  · refine (hs.extend record.items).congr fun k => ?_
    exact (Dict.lookup_extend d record k).symm

end Stores

/-- What `to_record` guarantees of its keys and values. -/
def Shaped (field : String → Option Datum) : Prop :=
  ∀ k x, field k = some x → k ≠ "" ∧ (k ∈ blobs ↔ ∃ b, x = .bytes b)

theorem shaped_field (r : Record) : Shaped r.field := by
  intro k x hk
  have hlookup : r.toDict.lookup k = some x := (r.lookup_toDict_eq k).trans hk
  refine ⟨?_, Record.blob_iff hlookup⟩
  rintro rfl
  exact absurd (Record.mem_keys_of_lookup hlookup) (by decide)

section Replies

variable {c : Connection} {h : Hash} {field : String → Option Datum}

/-- A reply that is left as bytes. -/
theorem hgetall_bytes (hc : c.decodeResponses = false) (h : Hash) :
    c.hgetall h = .ok (flatten ((c.listing.list h).map fun p => (.bytes p.1, .bytes p.2))) := by
  rw [Connection.hgetall, List.mapM_eq_ok (g := Datum.bytes), map_flatten]
  intro b _
  rw [Datum.received, hc]
  rfl

/-- The reply as a dictionary, in whatever order it came. -/
theorem zipDict_listing (c : Connection) (h : Hash) :
    ∃ raw, zipDict (flatten ((c.listing.list h).map fun p => (.bytes p.1, .bytes p.2)))
        = .ok raw ∧
      ∀ kb v, (kb, v) ∈ raw.items ↔ ∃ f b, h.lookup f = some b ∧ kb = .bytes f ∧ v = .bytes b := by
  have hkeys : (((c.listing.list h).map fun p => (Datum.bytes p.1, Datum.bytes p.2)).map
      Prod.fst).Nodup := by
    have hnodup : ((c.listing.list h).map Prod.fst).Nodup :=
      ((c.listing.perm h).map Prod.fst).nodup_iff.mpr h.nodup_items
    have hmap := hnodup.map (f := Datum.bytes) fun b b' hb => by cases hb; rfl
    rwa [List.map_map] at hmap ⊢
  refine ⟨Dict.ofPairs ((c.listing.list h).map fun p => (.bytes p.1, .bytes p.2)),
    by rw [zipDict, pairs_flatten], fun kb v => ?_⟩
  rw [Dict.mem_items, Dict.lookup_ofPairs hkeys, List.mem_map]
  constructor
  · rintro ⟨⟨f, b⟩, hmem, heq⟩
    cases heq
    exact ⟨f, b, Dict.mem_items.mp ((c.listing.perm h).mem_iff.mp hmem), rfl, rfl⟩
  · rintro ⟨f, b, hf, rfl, rfl⟩
    exact ⟨(f, b), (c.listing.perm h).mem_iff.mpr (Dict.mem_items.mpr hf), rfl⟩

/-- One item: the key is decoded, and so is the value unless it is a blob. -/
theorem decodeItem_encoded (hfield : Shaped field) {k : String} {x : Datum}
    (hx : field k = some x) :
    decodeItem (.bytes (encode k), .bytes x.encoded) = .ok (some (k, x)) := by
  obtain ⟨hne, hblob⟩ := hfield k x hx
  rw [decodeItem]
  simp only [Datum.decoded_encode]
  by_cases hmem : k ∈ blobs
  · obtain ⟨bytes, rfl⟩ := hblob.mp hmem
    simp [bind, Except.bind, hne, hmem, Datum.encoded, pure, Except.pure]
  · cases x with
    | text s => simp [bind, Except.bind, hne, hmem, Datum.encoded, pure, Except.pure]
    | bytes bytes => exact absurd (hblob.mpr ⟨bytes, rfl⟩) hmem

/-- `_decode` of the encoded fields of a record gives the record. -/
theorem decodeRecord_encoded (hfield : Shaped field) {raw : Dict Datum Datum}
    (hraw : ∀ kb v, (kb, v) ∈ raw.items ↔
      ∃ k x, field k = some x ∧ kb = .bytes (encode k) ∧ v = .bytes x.encoded) :
    ∃ record, decodeRecord raw = .ok record ∧ ∀ k, record.lookup k = field k := by
  -- what `decodeItem` makes of an item
  let key : Datum × Datum → String := fun item => item.1.decoded.toOption.getD ""
  let decoded : Datum × Datum → String × Datum := fun item =>
    (key item, (field (key item)).getD (.text ""))
  have hdecoded : ∀ k x, field k = some x →
      decoded (.bytes (encode k), .bytes x.encoded) = (k, x) := by
    intro k x hx
    have hkey : key (.bytes (encode k), .bytes x.encoded) = k := by
      simp [key, Except.toOption]
    simp only [decoded, hkey, hx, Option.getD_some]
  have hmapM : raw.items.mapM decodeItem = .ok (raw.items.map fun item => some (decoded item)) := by
    refine List.mapM_eq_ok ?_
    rintro ⟨kb, v⟩ hmem
    obtain ⟨k, x, hx, rfl, rfl⟩ := (hraw kb v).mp hmem
    rw [hdecoded k x hx, decodeItem_encoded hfield hx]
  have hread : decodeRecord raw = .ok (Dict.ofPairs (raw.items.map decoded)) := by
    have hsome : ((raw.items.map fun item => some (decoded item)).filterMap id)
        = raw.items.map decoded := by
      rw [List.filterMap_map]
      exact congrFun List.filterMap_eq_map raw.items
    rw [decodeRecord, hmapM]
    show Except.ok (Dict.ofPairs _) = _
    rw [hsome]
  have hmem : ∀ k x, (k, x) ∈ raw.items.map decoded ↔ field k = some x := by
    intro k x
    rw [List.mem_map]
    constructor
    · rintro ⟨⟨kb, v⟩, hitem, heq⟩
      obtain ⟨k', x', hx', rfl, rfl⟩ := (hraw kb v).mp hitem
      rw [hdecoded k' x' hx'] at heq
      cases heq
      exact hx'
    · exact fun hx => ⟨_, (hraw _ _).mpr ⟨k, x, hx, rfl, rfl⟩, hdecoded k x hx⟩
  have hnodup : ((raw.items.map decoded).map Prod.fst).Nodup := by
    rw [List.map_map]
    refine List.Nodup.map_on ?_ (raw.nodup_items.of_map _)
    rintro ⟨kb, v⟩ hitem ⟨kb', v'⟩ hitem' heq
    obtain ⟨k, x, hx, rfl, rfl⟩ := (hraw kb v).mp hitem
    obtain ⟨k', x', hx', rfl, rfl⟩ := (hraw kb' v').mp hitem'
    simp only [Function.comp_apply, hdecoded k x hx, hdecoded k' x' hx'] at heq
    subst heq
    rw [hx] at hx'
    cases hx'
    rfl
  refine ⟨_, hread, fun k => Option.ext fun x => ?_⟩
  rw [Dict.lookup_ofPairs hnodup, hmem]

/-- **The way back.** A hash that holds the fields of a record is read as a record with the
very same fields, whatever the order of the reply. -/
theorem Stores.readHash (hs : Stores h field) (hfield : Shaped field)
    (hc : c.decodeResponses = false) :
    ∃ record, c.readHash h = .ok record ∧ ∀ k, record.lookup k = field k := by
  obtain ⟨raw, hzip, hitems⟩ := zipDict_listing c h
  have hread : c.readHash h = decodeRecord raw := by
    rw [Connection.readHash, hgetall_bytes hc]
    show (do decodeRecord (← zipDict _)) = _
    rw [hzip]
    rfl
  rw [hread]
  refine decodeRecord_encoded hfield fun kb v => ?_
  rw [hitems]
  constructor
  · rintro ⟨f, b, hf, rfl, rfl⟩
    rw [hs f, Option.map_eq_some_iff] at hf
    obtain ⟨x, hbind, rfl⟩ := hf
    obtain ⟨k, hk, hx⟩ := Option.bind_eq_some_iff.mp hbind
    rw [decode_eq_some.mp hk]
    exact ⟨k, x, hx, rfl, rfl⟩
  · rintro ⟨k, x, hx, rfl, rfl⟩
    refine ⟨_, _, ?_, rfl, rfl⟩
    rw [hs, decode_encode, Option.bind_some, hx]
    rfl

/-- An item that is text is decoded to text. -/
theorem decodeItem_text {kb v : Datum} (hv : ∃ s, v = .text s) {k : String} {x : Datum}
    (h : decodeItem (kb, v) = .ok (some (k, x))) : ∃ s, x = .text s := by
  obtain ⟨k', -, h⟩ := Except.bind_eq_ok.mp h
  split at h
  · cases h
  · split at h
    · cases h
      exact hv
    · obtain ⟨s, -, h⟩ := Except.bind_eq_ok.mp h
      cases h
      exact ⟨s, rfl⟩

/-- **A reply that is decoded as a whole holds no bytes**, so no blob comes back. -/
theorem readHash_text (hc : c.decodeResponses = true) {record : WireRecord}
    (hread : c.readHash h = .ok record) {k : String} {x : Datum} (hx : record.lookup k = some x) :
    ∃ s, x = .text s := by
  obtain ⟨flat, hflat, hread⟩ := Except.bind_eq_ok.mp hread
  obtain ⟨raw, hraw, hread⟩ := Except.bind_eq_ok.mp hread
  obtain ⟨items, hitems, hread⟩ := Except.bind_eq_ok.mp hread
  have htext : ∀ v ∈ flat, ∃ s, v = .text s := by
    intro v hv
    obtain ⟨b, -, hb⟩ := List.exists_of_mapM_ok hflat v hv
    rw [Datum.received, hc] at hb
    cases hd : decode b with
    | some s =>
      rw [hd] at hb
      cases hb
      exact ⟨s, rfl⟩
    | none =>
      rw [hd] at hb
      cases hb
  have hrawtext : ∀ item ∈ raw.items, ∃ s, item.2 = .text s := by
    intro item hitem
    cases hp : pairs flat with
    | none =>
      rw [zipDict, hp] at hraw
      cases hraw
    | some l =>
      rw [zipDict, hp] at hraw
      cases hraw
      exact htext _ (mem_of_pairs hp item (Dict.mem_of_lookup_ofPairs (Dict.mem_items.mp hitem))).2
  cases hread
  have hmem : (k, x) ∈ items.filterMap id := Dict.mem_of_lookup_ofPairs hx
  obtain ⟨o, hitem, ho⟩ := List.mem_filterMap.mp hmem
  cases ho
  obtain ⟨⟨kb, v⟩, hin, hdecode⟩ := List.exists_of_mapM_ok hitems _ hitem
  exact decodeItem_text (hrawtext _ hin) hdecode

end Replies

end TaskQueue.Wire
