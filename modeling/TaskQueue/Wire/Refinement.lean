import TaskQueue.Library.Simulation
import TaskQueue.Redis.Server
import TaskQueue.Wire.RoundTrip

/-!
# The database, on bytes

`Redis.Request.exec` is what the server does in terms of records. Here the same requests are
sent as `RedisBackend` sends them, with keys and arguments of bytes, to the scripts on bytes
(`send`), and the two servers are run side by side.

- `Represents`: the hashes hold the fields of the records, under their keys, and the lists
  hold the ids.
- `represents_along_iff`: from the empty database, the answers are alike throughout a run,
  and the databases stay related, exactly when every claim finds room for one more attempt.
-/

namespace TaskQueue.Wire

open Redis Placement

/-! ## Requests on the wire -/

/-- What the server sends back. -/
inductive RawReply where
  | nil
  | code (n : Int)
  | bulk (b : Blob)
  | hash (h : Hash)
  | error (e : Error)

namespace RawReply

def ofCode : Except Error Int → RawReply
  | .ok n => code n
  | .error e => error e

def ofBulk : Option Blob → RawReply
  | some b => bulk b
  | none => nil

def ofHash : Except Error (Option Hash) → RawReply
  | .ok (some h) => hash h
  | .ok none => nil
  | .error e => error e

end RawReply

section Methods

variable (st : RawStore) (worker : InstanceId) (jobId : JobId)

/-- `RedisBackend.save`. -/
def save (record : WireRecord) (done : Bool) (resultTtl : Nat) : RawStore × Except Error Int :=
  saveScript st (jobKey jobId) (listKey (.processing worker)) (channelKey (.done jobId))
    (encode (if done then "1" else "0")) (encode jobId) resultTtl (flattenRecord record)

/-- `RedisBackend.release`. -/
def release : RawStore × Int :=
  releaseScript st (jobKey jobId) (listKey (.processing worker)) (listKey .queue) (encode jobId)
    (encode (statusValue .running)) (encode (statusValue .queued))

/-- `RedisBackend.request_cancel`. -/
def requestCancel : RawStore × Int :=
  requestCancelScript st (jobKey jobId) (channelKey (.cancel jobId))

/-- The compensating `MULTI` of `RedisBackend.claim`. -/
def returnLease : RawStore :=
  (st.lrem (listKey (.processing worker)) (encode jobId)).rpush (listKey .queue) (encode jobId)

/-- `RedisBackend.heartbeat`, at server time `now`. -/
def heartbeat (now : Nat) : RawStore := { st with workers := st.workers.add now worker }

/-- `RedisBackend.reap`, at server time `now`. -/
def reap (now workerTtl : Nat) : RawReaping :=
  reaperScript st (listKey .queue) (encode (statusValue .queued)) (encode (statusValue .running))
    (encode "processing:") (encode "jobs:") now workerTtl

/-- A request, as `RedisBackend` sends it. -/
def send : Request → RawStore × RawReply
  | .enqueue record =>
    let (st', created) := enqueue st record.id record.toDict
    (st', .ofCode created)
  | .blmove worker =>
    let (st', rawJobId) := blmove st (listKey .queue) (listKey (.processing worker))
    (st', .ofBulk rawJobId)
  | .claim jobId =>
    let (st', flat) := claimScript st (jobKey jobId) (encode (statusValue .running))
    (st', .ofHash flat)
  | .returnLease worker jobId => (returnLease st worker jobId, .nil)
  | .discardLease worker jobId => (st.lrem (listKey (.processing worker)) (encode jobId), .nil)
  | .save worker write resultTtl =>
    let (st', saved) := save st worker write.record.id write.record.toDict true resultTtl
    (st', .ofCode saved)
  | .release worker jobId =>
    let (st', n) := release st worker jobId
    (st', .code n)
  | .requestCancel jobId =>
    let (st', n) := requestCancel st jobId
    (st', .code n)
  | .fetchAndDelete jobId =>
    let (st', raw) := fetchAndDelete st (jobKey jobId)
    (st', .ofHash (.ok raw))
  | .heartbeat worker now => (heartbeat st worker now, .code 1)
  | .deregister worker =>
    let (st', n) := deregisterScript st (listKey (.processing worker)) worker
    (st', .code n)
  | .reap now workerTtl =>
    let r := reap st now workerTtl
    (r.store, .code r.reclaimed)
  | .expire jobId => (expireKey st (jobKey jobId), .nil)

end Methods

/-! ## Keys -/

theorem encode_append (s t : String) : encode (s ++ t) = encode s ++ encode t := by
  simp [encode]

theorem jobKey_injective : Function.Injective jobKey := fun _ _ h =>
  (String.append_right_inj "jobs:").mp (encode_injective h)

/-- The keys of lists are apart. -/
theorem listKey_injective : Function.Injective listKey := by
  have hqueue : ∀ worker : InstanceId, "queue" ≠ "processing:" ++ worker := by
    intro worker h
    have hhead := congrArg (fun s => s.toList.head?) h
    simp at hhead
  rintro (_ | worker) (_ | worker') h
  · rfl
  · exact absurd (encode_injective h) (hqueue worker')
  · exact absurd (encode_injective h).symm (hqueue worker)
  · rw [(String.append_right_inj "processing:").mp (encode_injective h)]

/-! ## Represented -/

/-- The hash under a key, and the entry it stands for. -/
def Holds (raw : RawEntry) (e : Entry) : Prop := Stores raw.hash e.record.field ∧ raw.ttl = e.ttl

/-- `raw` is `st` on bytes. -/
structure Represents (raw : RawStore) (st : Store) : Prop where
  jobs : ∀ jobId, Option.Rel Holds (raw.hashes (jobKey jobId)) (st.jobs jobId)
  lists : ∀ key, raw.lists (listKey key) = (st.lists key).map encode
  workers : raw.workers = st.workers
  published : raw.published = st.published.map channelKey

/-- The answers to a request mean the same. -/
inductive Agree : RawReply → Reply → Prop where
  | nil : Agree .nil .nil
  | code (n : Int) : Agree (.code n) (.code n)
  | jobId (jobId : JobId) : Agree (.bulk (encode jobId)) (.jobId jobId)
  | record {h : Hash} {r : Record} (hs : Stores h r.field) : Agree (.hash h) (.record r)

theorem represents_empty : Represents RawStore.empty Store.empty where
  jobs _ := .none
  lists _ := rfl
  workers := rfl
  published := rfl

namespace Represents

variable {raw : RawStore} {st : Store} {jobId : JobId} {e : Entry}

theorem hashes_none (hr : Represents raw st) (hj : st.jobs jobId = none) :
    raw.hashes (jobKey jobId) = none := by
  have hrel := hr.jobs jobId
  rw [hj] at hrel
  cases hraw : raw.hashes (jobKey jobId) with
  | none => rfl
  | some e =>
    rw [hraw] at hrel
    cases hrel

theorem hashes_some (hr : Represents raw st) (hj : st.jobs jobId = some e) :
    ∃ h, raw.hashes (jobKey jobId) = some ⟨h, e.ttl⟩ ∧ Stores h e.record.field := by
  have hrel := hr.jobs jobId
  rw [hj] at hrel
  cases hraw : raw.hashes (jobKey jobId) with
  | none =>
    rw [hraw] at hrel
    cases hrel
  | some entry =>
    rw [hraw] at hrel
    obtain ⟨hs, httl⟩ : Holds entry e := by
      cases hrel with
      | some h => exact h
    exact ⟨entry.hash, by rw [← httl], hs⟩

/-! ### Commands -/

theorem put (hr : Represents raw st) (jobId : JobId) {h : Hash} (hs : Stores h e.record.field) :
    Represents (raw.put (jobKey jobId) ⟨h, e.ttl⟩) (st.put jobId e) where
  jobs id := by
    rw [RawStore.put_hashes, Store.put_jobs]
    by_cases hid : id = jobId
    · subst hid
      rw [Function.update_self, Function.update_self]
      exact .some ⟨hs, rfl⟩
    · rw [Function.update_of_ne (jobKey_injective.ne hid), Function.update_of_ne hid]
      exact hr.jobs id
  lists := hr.lists
  workers := hr.workers
  published := hr.published

theorem del (hr : Represents raw st) (jobId : JobId) :
    Represents (raw.del (jobKey jobId)) (st.del jobId) where
  jobs id := by
    show Option.Rel Holds (Function.update raw.hashes (jobKey jobId) none (jobKey id)) _
    rw [Store.del_jobs]
    by_cases hid : id = jobId
    · subst hid
      rw [Function.update_self, Function.update_self]
      exact .none
    · rw [Function.update_of_ne (jobKey_injective.ne hid), Function.update_of_ne hid]
      exact hr.jobs id
  lists := hr.lists
  workers := hr.workers
  published := hr.published

/-- A list under a key is replaced by one that holds the new ids. -/
theorem update_lists (hr : Represents raw st) (key : ListKey) {l : List Blob} (l' : List JobId)
    (hl : l = l'.map encode) :
    Represents { raw with lists := Function.update raw.lists (listKey key) l }
      { st with lists := Function.update st.lists key l' } where
  jobs := hr.jobs
  lists key' := by
    show Function.update raw.lists (listKey key) l (listKey key')
      = (Function.update st.lists key l' key').map encode
    by_cases hkey : key' = key
    · subst hkey
      rw [Function.update_self, Function.update_self, hl]
    · rw [Function.update_of_ne (listKey_injective.ne hkey), Function.update_of_ne hkey]
      exact hr.lists key'
  workers := hr.workers
  published := hr.published

theorem rpush (hr : Represents raw st) (key : ListKey) (jobId : JobId) :
    Represents (raw.rpush (listKey key) (encode jobId)) (st.rpush key jobId) :=
  hr.update_lists key _ (by rw [hr.lists, List.map_append]; rfl)

theorem lrem (hr : Represents raw st) (key : ListKey) (jobId : JobId) :
    Represents (raw.lrem (listKey key) (encode jobId)) (st.lrem key jobId) :=
  hr.update_lists key _ <| by
    rw [hr.lists]
    -- `drop` erases by decidable equality, not by the comparison of lists
    exact (@List.map_erase _ _ _ _ instBEqOfDecidableEq inferInstance _ encode_injective ..).symm

theorem publish (hr : Represents raw st) (channel : Channel) :
    Represents (raw.publish (channelKey channel)) (st.publish channel) where
  jobs := hr.jobs
  lists := hr.lists
  workers := hr.workers
  published := by
    show raw.published ++ [channelKey channel] = _
    rw [hr.published, Store.publish_published, List.map_append]
    rfl

/-- A list that is empty on both sides, or a pop that takes the same id off both. -/
theorem lpop_cases (hr : Represents raw st) (key : ListKey) :
    (raw.lpop (listKey key) = (none, raw) ∧ st.lpop key = (none, st)) ∨
      ∃ jobId raw' st', raw.lpop (listKey key) = (some (encode jobId), raw') ∧
        st.lpop key = (some jobId, st') ∧ Represents raw' st' := by
  have hlist := hr.lists key
  cases hl : st.lists key with
  | nil =>
    rw [hl] at hlist
    refine Or.inl ⟨?_, Store.lpop_nil hl⟩
    simp only [RawStore.lpop, hlist, List.map_nil]
  | cons jobId rest =>
    rw [hl] at hlist
    refine Or.inr ⟨jobId, _, _, ?_, ?_, hr.update_lists key rest rfl⟩
    · simp only [RawStore.lpop, hlist, List.map_cons]
    · simp only [Store.lpop, hl]

end Represents

/-! ### Scripts -/

/-- The status, as the scripts read it. -/
theorem Stores.hget_status {h : Hash} {r : Record} (hs : Stores h r.field) :
    h.hget "status" = some (encode (statusValue r.status)) := hs.hget "status"

/-- The table of `_TERMINAL_LUA` lists the terminal statuses. -/
theorem mem_terminals (status : JobStatus) :
    encode (statusValue status) ∈ terminals ↔ status.terminal = true := by
  simp only [terminals, List.mem_cons, encode_inj, List.not_mem_nil, or_false]
  cases status <;> decide

/-- `HSET` of a whole record over a stored one. -/
theorem hset_stored {h : Hash} {old : Record} (hs : Stores h old.field) (new : Record) :
    ∃ h', h.hset (flattenRecord new.toDict) = .ok h' ∧ Stores h' (old.hset new).field := by
  have hne : new.toDict.items ≠ [] := by
    intro hnil
    have hmem : ("id", Datum.text new.id) ∈ new.toDict.items :=
      Dict.mem_items.mpr (new.lookup_toDict_eq "id")
    rw [hnil] at hmem
    cases hmem
  obtain ⟨h', hset, hs'⟩ := Stores.hset (d := old.toDict) (hs.congr old.lookup_toDict_eq) hne
  refine ⟨h', hset, hs'.congr fun k => ?_⟩
  rw [Record.field_hset, new.lookup_toDict_eq, old.lookup_toDict_eq]

/-- The claim script on a hash that holds a record. -/
theorem claimScript_stored {raw : RawStore} {jobId : JobId} {r : Record} {h : Hash}
    {ttl : Option Nat}
    (hstored : raw.hashes (jobKey jobId) = some ⟨h, ttl⟩) (hs : Stores h r.field) :
    if int64 r.attempts ∧ int64 (r.attempts + 1) then
      ∃ h', claimScript raw (jobKey jobId) (encode (statusValue .running))
          = (raw.put (jobKey jobId) ⟨h', ttl⟩, .ok (some h')) ∧ Stores h' (claimed r).field
    else (claimScript raw (jobKey jobId) (encode (statusValue .running))).2
      = .error .responseError := by
  have hrunning : Stores (h.insert (encode "status") (encode (statusValue .running)))
      { r with status := .running }.field :=
    (hs.insert "status" (.text (statusValue .running))).congr (r.field_setStatus .running)
  have hcount := hrunning.hincrby
  rw [claimScript, hstored]
  split_ifs at hcount ⊢ with hroom
  · obtain ⟨h', hincr, hs'⟩ := hcount
    exact ⟨h', by simp only [hincr], hs'⟩
  · simp only [hcount]

/-- The two servers execute `q` alike. -/
def Alike (raw : RawStore) (st : Store) (q : Request) : Prop :=
  Represents (send raw q).1 (q.exec st).1 ∧ Agree (send raw q).2 (q.exec st).2

section Scripts

variable {raw : RawStore} {st : Store} (hr : Represents raw st)

include hr

theorem alike_enqueue (record : Record) : Alike raw st (.enqueue record) := by
  cases hj : st.jobs record.id with
  | some e =>
    obtain ⟨h, hraw, -⟩ := hr.hashes_some hj
    have hsend : send raw (.enqueue record) = (raw, .code 0) := by
      simp only [send, enqueue, enqueueScript, hraw, RawReply.ofCode]
    rw [Alike, hsend, Request.exec, enqueueScript_of_some hj]
    exact ⟨hr, .code 0⟩
  | none =>
    obtain ⟨h, henqueue, hs⟩ := enqueue_stores (r := record) (hr.hashes_none hj)
    rw [Alike, send, henqueue, Request.exec, enqueueScript_of_none hj]
    have hput := hr.put record.id (e := ⟨{ record with status := .queued }, none⟩) hs
    exact ⟨hput.rpush .queue record.id, .code 1⟩

theorem alike_blmove (worker : InstanceId) : Alike raw st (.blmove worker) := by
  rw [Alike, send, Request.exec, blmove, Redis.blmove]
  rcases hr.lpop_cases .queue with ⟨hraw, hst⟩ | ⟨jobId, raw', st', hraw, hst, hr'⟩
  · rw [hraw, hst]
    exact ⟨hr, .nil⟩
  · rw [hraw, hst]
    exact ⟨hr'.rpush _ jobId, .jobId jobId⟩

/-- The attempt that a claim of `jobId` counts fits the counter. -/
def Room (st : Store) (jobId : JobId) : Prop :=
  ∀ e, st.jobs jobId = some e → int64 e.record.attempts ∧ int64 (e.record.attempts + 1)

theorem alike_claim {jobId : JobId} (hroom : Room st jobId) : Alike raw st (.claim jobId) := by
  cases hj : st.jobs jobId with
  | none =>
    have hsend : send raw (.claim jobId) = (raw, .nil) := by
      simp only [send, claimScript, hr.hashes_none hj, RawReply.ofHash]
    rw [Alike, hsend, Request.exec, claimScript_of_none hj]
    exact ⟨hr, .nil⟩
  | some e =>
    obtain ⟨h, hraw, hs⟩ := hr.hashes_some hj
    have hclaim := claimScript_stored hraw hs
    rw [if_pos (hroom e hj)] at hclaim
    obtain ⟨h', hscript, hs'⟩ := hclaim
    rw [Alike, send, hscript, Request.exec, claimScript_of_some hj]
    exact ⟨hr.put jobId (e := { e with record := claimed e.record }) hs', .record hs'⟩

/-- A claim without room for the attempt fails, on bytes. -/
theorem room_of_agree {jobId : JobId}
    (hagree : Agree (send raw (.claim jobId)).2 ((Request.claim jobId).exec st).2) :
    Room st jobId := by
  intro e hj
  obtain ⟨h, hraw, hs⟩ := hr.hashes_some hj
  have hclaim := claimScript_stored hraw hs
  split_ifs at hclaim with hroom
  · exact hroom
  · rw [send] at hagree
    simp only [hclaim, RawReply.ofHash] at hagree
    cases hagree

theorem alike_save (worker : InstanceId) (write : Finished) (ttl : Nat) :
    Alike raw st (.save worker write ttl) := by
  cases hj : st.jobs write.record.id with
  | none =>
    have hsend : send raw (.save worker write ttl) = (raw, .code 0) := by
      simp only [send, save, saveScript, hr.hashes_none hj, RawReply.ofCode]
    rw [Alike, hsend, Request.exec, saveScript_of_none hj]
    exact ⟨hr, .code 0⟩
  | some e =>
    obtain ⟨h, hraw, hs⟩ := hr.hashes_some hj
    obtain ⟨h', hset, hs'⟩ := hset_stored hs write.record
    have hput := hr.put write.record.id
      (e := { e with record := e.record.hset write.record }) hs'
    have hexpire := (hput.lrem (.processing worker) write.record.id).put
      write.record.id (e := ⟨e.record.hset write.record, some ttl⟩) hs'
    have hsend : send raw (.save worker write ttl)
        = ((((raw.put (jobKey write.record.id) ⟨h', e.ttl⟩).lrem (listKey (.processing worker))
            (encode write.record.id)).put (jobKey write.record.id) ⟨h', some ttl⟩).publish
            (channelKey (.done write.record.id)), .code 1) := by
      simp only [send, save, saveScript, hraw, hset, RawReply.ofCode, if_true]
    rw [Alike, hsend, Request.exec, Redis.saveScript, hj]
    exact ⟨hexpire.publish (.done write.record.id), .code 1⟩

theorem alike_release (worker : InstanceId) (jobId : JobId) :
    Alike raw st (.release worker jobId) := by
  cases hj : st.jobs jobId with
  | none =>
    have hsend : send raw (.release worker jobId) = (raw, .code (-1)) := by
      simp only [send, release, releaseScript, hr.hashes_none hj]
    rw [Alike, hsend, Request.exec, releaseScript_of_none hj]
    exact ⟨hr, .code (-1)⟩
  | some e =>
    obtain ⟨h, hraw, hs⟩ := hr.hashes_some hj
    have hstatus := hs.hget_status
    by_cases hrun : e.record.status = .running
    · have hs' := (hs.insert "status" (.text (statusValue .queued))).congr
        (e.record.field_setStatus .queued)
      have hput := hr.put jobId (e := { e with record := requeued e.record }) hs'
      have hsend : send raw (.release worker jobId)
          = (((raw.put (jobKey jobId) ⟨h.insert (encode "status") (encode (statusValue .queued)),
              e.ttl⟩).lrem (listKey (.processing worker)) (encode jobId)).rpush (listKey .queue)
              (encode jobId), .code 1) := by
        simp only [send, release, releaseScript, hraw, hstatus, hrun, ne_eq, not_true, if_false]
      rw [Alike, hsend, Request.exec, releaseScript_of_running hj hrun]
      exact ⟨(hput.lrem (.processing worker) jobId).rpush .queue jobId, .code 1⟩
    · have hne :
          some (encode (statusValue e.record.status)) ≠ some (encode (statusValue .running)) :=
        fun h => hrun (statusValue_injective (encode_injective (Option.some.inj h)))
      have hsend : send raw (.release worker jobId) = (raw, .code 0) := by
        simp only [send, release, releaseScript, hraw, hstatus, if_pos hne]
      rw [Alike, hsend, Request.exec, releaseScript_of_not_running hj hrun]
      exact ⟨hr, .code 0⟩

theorem alike_requestCancel (jobId : JobId) : Alike raw st (.requestCancel jobId) := by
  cases hj : st.jobs jobId with
  | none =>
    have hsend : send raw (.requestCancel jobId) = (raw, .code 0) := by
      simp only [send, requestCancel, requestCancelScript, hr.hashes_none hj]
    rw [Alike, hsend, Request.exec, requestCancelScript_of_none hj]
    exact ⟨hr, .code 0⟩
  | some e =>
    obtain ⟨h, hraw, hs⟩ := hr.hashes_some hj
    have hstatus := hs.hget_status
    cases hterminal : e.record.status.terminal with
    | true =>
      have hsend : send raw (.requestCancel jobId) = (raw, .code 0) := by
        simp only [send, requestCancel, requestCancelScript, hraw, hstatus, Option.any_some,
          mem_terminals, hterminal, decide_true, if_true]
      rw [Alike, hsend, Request.exec, requestCancelScript_of_terminal hj hterminal]
      exact ⟨hr, .code 0⟩
    | false =>
      have hs' := (hs.insert "request_cancel" (.text "1")).congr e.record.field_setRequestCancel
      have hput := hr.put jobId
        (e := { e with record := { e.record with requestCancel := true } }) hs'
      have hsend : send raw (.requestCancel jobId)
          = ((raw.put (jobKey jobId)
                ⟨h.insert (encode "request_cancel") (encode "1"), e.ttl⟩).publish
              (channelKey (.cancel jobId)), .code 1) := by
        simp only [send, requestCancel, requestCancelScript, hraw, hstatus, Option.any_some,
          mem_terminals, hterminal, Bool.false_eq_true, decide_false, if_false]
      rw [Alike, hsend, Request.exec, requestCancelScript_of_unfinished hj hterminal]
      exact ⟨hput.publish (.cancel jobId), .code 1⟩

theorem alike_fetchAndDelete (jobId : JobId) : Alike raw st (.fetchAndDelete jobId) := by
  refine ⟨hr.del jobId, ?_⟩
  rw [send, Request.exec, fetchAndDelete, Redis.fetchAndDelete]
  cases hj : st.jobs jobId with
  | none =>
    rw [hr.hashes_none hj]
    exact .nil
  | some e =>
    obtain ⟨h, hraw, hs⟩ := hr.hashes_some hj
    rw [hraw]
    exact .record hs

theorem alike_deregister (worker : InstanceId) : Alike raw st (.deregister worker) := by
  have hlist := hr.lists (.processing worker)
  rw [Alike, send, Request.exec, deregisterScript, Redis.deregisterScript, hlist, List.length_map,
    hr.workers]
  split_ifs
  · exact ⟨hr, .code 0⟩
  · exact ⟨⟨hr.jobs, hr.lists, rfl, hr.published⟩, .code 1⟩
  · exact ⟨⟨hr.jobs, hr.lists, rfl, hr.published⟩, .code 0⟩

theorem alike_expire (jobId : JobId) : Alike raw st (.expire jobId) := by
  refine ⟨?_, .nil⟩
  rw [send, Request.exec, expireKey, Redis.expireKey]
  cases hj : st.jobs jobId with
  | none =>
    rw [hr.hashes_none hj]
    exact hr
  | some e =>
    obtain ⟨h, hraw, -⟩ := hr.hashes_some hj
    rw [hraw]
    obtain ⟨r, ttl⟩ := e
    cases ttl with
    | none => exact hr
    | some ttl => exact hr.del jobId

/-! ### The reaper -/

/-- The two reapers, between two iterations. -/
structure RepresentsReaping (raw : RawReaping) (r : Reaping) : Prop where
  store : Represents raw.store r.store
  reclaimed : raw.reclaimed = r.reclaimed

omit hr in
/-- One iteration of the inner loop. -/
theorem RepresentsReaping.pop {raw : RawReaping} {r : Reaping} (h : RepresentsReaping raw r)
    (worker : InstanceId) :
    RepresentsReaping
      (RawReaping.pop (listKey .queue) (encode (statusValue .queued))
        (encode (statusValue .running)) (listKey (.processing worker)) (encode "jobs:") raw)
      (r.pop worker) := by
  rw [RawReaping.pop, Reaping.pop]
  rcases h.store.lpop_cases (.processing worker) with
    ⟨hraw, hst⟩ | ⟨jobId, raw', st', hraw, hst, hr'⟩
  · rw [hraw, hst]
    exact h
  · rw [hraw, hst]
    have hkey : encode "jobs:" ++ encode jobId = jobKey jobId := (encode_append ..).symm
    simp only [hkey]
    cases hj : st'.jobs jobId with
    | none =>
      rw [hr'.hashes_none hj]
      exact ⟨hr', h.reclaimed⟩
    | some e =>
      obtain ⟨hash, hhash, hs⟩ := hr'.hashes_some hj
      rw [hhash]
      refine ⟨Represents.rpush ?_ .queue jobId, congrArg (· + 1) h.reclaimed⟩
      by_cases hrun : e.record.status = .running
      · rw [if_pos hrun, if_pos (by rw [hs.hget_status, hrun])]
        exact hr'.put jobId (e := { e with record := { e.record with status := .queued } })
          ((hs.insert "status" (.text (statusValue .queued))).congr
            (e.record.field_setStatus .queued))
      · rw [if_neg hrun, if_neg]
        · exact hr'
        · rw [hs.hget_status]
          exact fun h => hrun (statusValue_injective (encode_injective (Option.some.inj h)))

omit hr in
/-- The inner loop: both lists are as long. -/
theorem RepresentsReaping.iterate_pop {raw : RawReaping} {r : Reaping}
    (h : RepresentsReaping raw r) (worker : InstanceId) (n : Nat) :
    RepresentsReaping
      ((RawReaping.pop (listKey .queue) (encode (statusValue .queued))
        (encode (statusValue .running)) (listKey (.processing worker)) (encode "jobs:"))^[n] raw)
      ((Reaping.pop worker)^[n] r) := by
  induction n generalizing raw r with
  | zero => exact h
  | succ n ih =>
    rw [Function.iterate_succ_apply, Function.iterate_succ_apply]
    exact ih (h.pop worker)

omit hr in
/-- The outer loop. -/
theorem RepresentsReaping.foldl {raw : RawReaping} {r : Reaping} (h : RepresentsReaping raw r)
    (workers : List InstanceId) :
    RepresentsReaping
      (workers.foldl (RawReaping.reapWorker (listKey .queue) (encode (statusValue .queued))
        (encode (statusValue .running)) (encode "processing:") (encode "jobs:")) raw)
      (workers.foldl Reaping.reapWorker r) := by
  induction workers generalizing raw r with
  | nil => exact h
  | cons worker workers ih =>
    rw [List.foldl_cons, List.foldl_cons]
    refine ih ?_
    have hkey : encode "processing:" ++ encode worker = listKey (.processing worker) :=
      (encode_append ..).symm
    have hdrained := h.iterate_pop worker (r.store.lists (.processing worker)).length
    rw [RawReaping.reapWorker, hkey, h.store.lists, List.length_map]
    exact ⟨⟨hdrained.store.jobs, hdrained.store.lists, by rw [hdrained.store.workers]; rfl,
      hdrained.store.published⟩, hdrained.reclaimed⟩

theorem alike_reap (now workerTtl : Nat) : Alike raw st (.reap now workerTtl) := by
  have hreaped :
      RepresentsReaping (reap raw now workerTtl) (Redis.reaperScript st now workerTtl) := by
    rw [reap, reaperScript, Redis.reaperScript, expired, ← hr.workers]
    exact RepresentsReaping.foldl ⟨hr, rfl⟩ _
  rw [Alike, send, Request.exec, hreaped.reclaimed]
  exact ⟨hreaped.store, .code _⟩

/-- **One request.** The two servers execute it alike, a claim if there is room for the attempt. -/
theorem alike_of_room (q : Request) (hroom : ∀ jobId, q = .claim jobId → Room st jobId) :
    Alike raw st q := by
  cases q with
  | enqueue record => exact alike_enqueue hr record
  | blmove worker => exact alike_blmove hr worker
  | claim jobId => exact alike_claim hr (hroom jobId rfl)
  | returnLease worker jobId =>
    exact ⟨(hr.lrem (.processing worker) jobId).rpush .queue jobId, .nil⟩
  | discardLease worker jobId => exact ⟨hr.lrem (.processing worker) jobId, .nil⟩
  | save worker write ttl => exact alike_save hr worker write ttl
  | release worker jobId => exact alike_release hr worker jobId
  | requestCancel jobId => exact alike_requestCancel hr jobId
  | fetchAndDelete jobId => exact alike_fetchAndDelete hr jobId
  | heartbeat worker now =>
    refine ⟨⟨hr.jobs, hr.lists, ?_, hr.published⟩, .code 1⟩
    show raw.workers.add now worker = st.workers.add now worker
    rw [hr.workers]
  | deregister worker => exact alike_deregister hr worker
  | reap now workerTtl => exact alike_reap hr now workerTtl
  | expire jobId => exact alike_expire hr jobId

end Scripts

/-! ## Side by side -/

/-- The server, in terms of records. -/
def recordServer : Service Store Request Reply := ⟨fun st q => q.exec st⟩

/-- The server, on bytes. -/
def byteServer : Service RawStore Request RawReply := ⟨send⟩

/-- The byte server does what the record server says, while its counters have room. -/
def simulation : Simulation byteServer recordServer where
  Rel := Represents
  Fits st q := ∀ jobId, q = .claim jobId → Room st jobId
  Agree := Agree
  exec := by
    intro raw st q hr hfits
    exact alike_of_room hr q hfits
  fits_of_agree := by
    rintro raw st q hr hagree jobId rfl
    exact room_of_agree hr hagree

/-- Both, from flushed databases. -/
def servers : Machine (RawStore × Store) Request :=
  byteServer.beside recordServer (RawStore.empty, Store.empty)

/-- **The byte server refines the record server.** Whatever requests are executed one after
the other, in any order and by whatever clients: every answer is the bytes of the answer in
terms of records, and the database stays the bytes of the records, exactly when each claim
finds a counter of attempts with room for one more. -/
theorem represents_along_iff (qs : List Request) :
    servers.Along (fun s q s' => Agree (send s.1 q).2 (q.exec s.2).2 ∧ Represents s'.1 s'.2)
        servers.init qs ↔
      servers.Along (fun s q _ => ∀ jobId, q = .claim jobId → Room s.2 jobId) servers.init qs :=
  simulation.alike_along_iff represents_empty qs

/-! ## Room for every claim -/

/-- The record that a request writes. -/
def Writes (q : Request) (r : Record) : Prop :=
  q = .enqueue r ∨ ∃ worker write ttl, q = .save worker write ttl ∧ write.record = r

/-- The counters of the stored records are between zero and `bound`. -/
def CountsUpTo (bound : Nat) (st : Store) : Prop :=
  ∀ jobId e, st.jobs jobId = some e → 0 ≤ e.record.attempts ∧ e.record.attempts ≤ bound

/-- A request that writes counters up to `bound` moves the bound by one at most. -/
theorem CountsUpTo.exec {bound n : Nat} {st : Store} (h : CountsUpTo (bound + n) st) {q : Request}
    (hq : ∀ r, Writes q r → 0 ≤ r.attempts ∧ r.attempts ≤ bound) :
    CountsUpTo (bound + (n + 1)) (q.exec st).1 := by
  intro jobId e' he'
  have hstep := q.recordStep st jobId
  rw [show (q.after st).jobs jobId = some e' from he'] at hstep
  generalize hst : st.jobs jobId = o at hstep
  cases hstep with
  | same =>
    have hold := h jobId e' hst
    omega
  | created record hq' =>
    have hnew := hq record (Or.inl hq')
    simp only [requeued]
    omega
  | claimed e hq' =>
    have hold := h jobId e hst
    simp only [claimed]
    omega
  | saved worker write ttl e hq' =>
    have hnew := hq write.record (Or.inr ⟨worker, write, ttl, hq', rfl⟩)
    show 0 ≤ write.record.attempts ∧ write.record.attempts ≤ _
    omega
  | requeued e hq' hs =>
    have hold := h jobId e hst
    simp only [requeued]
    omega
  | flagged e hq' ht =>
    have hold := h jobId e hst
    simp only
    omega

theorem CountsUpTo.room {bound : Nat} {st : Store} (h : CountsUpTo bound st)
    (hbound : bound + 1 < 2 ^ 63) (jobId : JobId) : Room st jobId := by
  intro e he
  have hcount := h jobId e he
  simp only [int64]
  omega

/-- Requests that write counters up to `bound`, fewer than the counters have room for. -/
theorem room_along {bound n : Nat} {qs : List Request} {raw : RawStore} {st : Store}
    (hwrites : ∀ q ∈ qs, ∀ r, Writes q r → 0 ≤ r.attempts ∧ r.attempts ≤ bound)
    (hlength : bound + n + qs.length < 2 ^ 63) (h : CountsUpTo (bound + n) st) :
    servers.Along (fun s q _ => ∀ jobId, q = .claim jobId → Room s.2 jobId) (raw, st) qs := by
  induction qs generalizing raw st n with
  | nil => trivial
  | cons q qs ih =>
    rw [List.length_cons] at hlength
    refine (Machine.along_cons_of_step rfl).mpr ⟨fun jobId _ => h.room (by omega) jobId, ?_⟩
    exact ih (fun q' hq' => hwrites q' (List.mem_cons_of_mem q hq')) (n := n + 1) (by omega)
      (h.exec (hwrites q (List.mem_cons_self ..)))

/-- **After any run that is not longer than a counter can count**, the byte database is the
record database on bytes: nobody who counts from zero meets a claim without room. -/
theorem represents_after {bound : Nat} {qs : List Request}
    (hwrites : ∀ q ∈ qs, ∀ r, Writes q r → 0 ≤ r.attempts ∧ r.attempts ≤ bound)
    (hlength : bound + qs.length < 2 ^ 63) :
    Represents (byteServer.after .empty qs) (recordServer.after .empty qs) := by
  have hempty : CountsUpTo (bound + 0) Store.empty := by
    intro jobId e he
    cases he
  exact simulation.rel_after represents_empty (room_along hwrites (by omega) hempty)

end TaskQueue.Wire
