import TaskQueue.Conformance.Records

/-!
# The two backends side by side

`Twins` relates the states of the two processes: the hash of a job holds what the dictionary
of the job holds, the queues list the same ids, and no two jobs share a dictionary.
A call keeps it, and gets the same answer, unless it meets one of these differences:

- the dictionary that is passed, or changed in place, is one that a job still holds in
  memory, or has another content on one side than on the other;
- a save merges the new record into the stored hash in Redis and replaces the dictionary in
  memory, so a field that the new record lacks stays in one and goes in the other;
- a claim that finds no record for the id it popped returns `None` in one and raises
  `KeyError` in the other, and a claim that cannot count the attempt fails differently;
- in memory `take_result` of a job waits for its event, which only a save with
  `done=True` sets.

`conform_along`: over a client that leaves replies as bytes, the backends agree throughout
every run whose acts meet none of them.
-/

namespace TaskQueue

open Wire Placement

/-! ## Records that both backends keep alike -/

namespace Wire

instance (x : Datum) : Decidable (∃ b, x = .bytes b) :=
  match x with
  | .text _ => isFalse fun ⟨_, h⟩ => Datum.noConfusion h
  | .bytes b => isTrue ⟨b, rfl⟩

instance (d : WireRecord) : Decidable (Shaped fun k => d.lookup k) :=
  decidable_of_iff (∀ p ∈ d.items, p.1 ≠ "" ∧ (p.1 ∈ blobs ↔ ∃ b, p.2 = .bytes b))
    ⟨fun h k x hk => h (k, x) (Dict.mem_items.mpr hk),
      fun h p hp => h p.1 p.2 (Dict.mem_items.mp hp)⟩

/-- The counter of attempts has room for one more. -/
def Countable (d : WireRecord) : Prop := ∃ n ∈ attempts d, int64 (n + 1)

instance (d : WireRecord) : Decidable (Countable d) :=
  inferInstanceAs (Decidable (∃ _ ∈ _, _))

/-- The assignment of a text field keeps the blobs apart. -/
theorem Shaped.insert {d : WireRecord} (hd : Shaped fun k => d.lookup k) {k : String} (s : String)
    (hne : k ≠ "") (hblob : k ∉ blobs) : Shaped fun k' => (d.insert k (.text s)).lookup k' := by
  intro k' x hx
  have hinsert := (Dict.lookup_insert d k (.text s) k').symm.trans hx
  split at hinsert
  · rename_i hkey
    cases hinsert
    subst hkey
    exact ⟨hne, fun h => absurd h hblob, by rintro ⟨b, hb⟩; cases hb⟩
  · exact hd k' x hinsert

/-- The hash holds what the dictionary does, and that is a record with a status. -/
structure Kept (d : WireRecord) (e : RawEntry) : Prop where
  stores : Stores e.hash fun k => d.lookup k
  shaped : Shaped fun k => d.lookup k
  status : d.lookup "status" ≠ none

namespace Kept

variable {d : WireRecord} {e : RawEntry}

/-- `HSET` of one field, and the assignment of its key. -/
theorem insert (hk : Kept d e) {k : String} (s : String) (hne : k ≠ "") (hblob : k ∉ blobs) :
    Kept (d.insert k (.text s)) { e with hash := e.hash.insert (encode k) (encode s) } where
  stores := (hk.stores.insert k (.text s)).congr fun k' => Dict.lookup_insert d k (.text s) k'
  shaped := hk.shaped.insert s hne hblob
  status := by
    rw [Dict.lookup_insert]
    split
    · exact Option.some_ne_none _
    · exact hk.status

/-- The status is text. -/
theorem status_text (hk : Kept d e) : ∃ s, d.lookup "status" = some (.text s) := by
  obtain ⟨x, hx⟩ := Option.ne_none_iff_exists'.mp hk.status
  cases x with
  | text s => exact ⟨s, hx⟩
  | bytes b => exact absurd ((hk.shaped _ _ hx).2.mpr ⟨b, rfl⟩) (by decide)

theorem hget_status (hk : Kept d e) {s : String} (hs : d.lookup "status" = some (.text s)) :
    e.hash.hget "status" = some (encode s) := by
  rw [hk.stores.hget, hs]
  rfl

theorem items_ne_nil (hk : Kept d e) : e.hash.items ≠ [] := by
  obtain ⟨s, hs⟩ := hk.status_text
  intro hnil
  have hmem := Dict.mem_items.mpr (hk.hget_status hs)
  rw [hnil] at hmem
  cases hmem

/-- What the client reads back. -/
theorem readHash (hk : Kept d e) {c : Connection} (hc : c.decodeResponses = false) :
    ∃ r, c.readHash e.hash = .ok r ∧ Dict.Same r d := hk.stores.readHash hk.shaped hc

/-- The text of a number that the server takes for `n`. -/
theorem eq_repr_of_counter {s : String} {n : Int} (h : counter (encode s) = some n) :
    s = n.repr := by
  rw [counter] at h
  split at h
  · split at h
    · rename_i hn
      cases h
      exact (encode_injective hn.1).symm
    · cases h
  · cases h

/-- Where the server can count an attempt, `int` reads the same number. -/
theorem int_attempts (hk : Kept d e) {n : Int} (hn : n ∈ attempts d) :
    ∃ o, optional d "attempts" Datum.int = .ok o ∧ o.getD 0 = n := by
  unfold attempts at hn
  unfold optional
  cases hx : d.lookup "attempts" with
  | none =>
    rw [hx] at hn
    cases hn
    exact ⟨none, rfl, rfl⟩
  | some x =>
    rw [hx] at hn
    cases x with
    | bytes b => exact absurd ((hk.shaped _ _ hx).2.mpr ⟨b, rfl⟩) (by decide)
    | text s =>
      obtain rfl := eq_repr_of_counter hn
      refine ⟨some n, ?_, rfl⟩
      show some <$> (Datum.text n.repr).int = _
      rw [Datum.int_repr]
      rfl

theorem attempts_insert_status (d : WireRecord) (x : Datum) :
    attempts (d.insert "status" x) = attempts d := by
  unfold attempts
  rw [Dict.lookup_insert, if_neg (by decide)]

/-- The claim script, with room for the attempt. -/
theorem claimScript (hk : Kept d e) {n : Int} (hn : n ∈ attempts d) (hroom : int64 (n + 1))
    {st : RawStore} {job : Blob} (hstored : st.hashes job = some e) :
    ∃ e', claimScript st job (encode (statusValue .running))
        = (st.put job e', .ok (some e'.hash)) ∧ Kept (marked d n) e' := by
  have hrunning := hk.insert (statusValue .running) (k := "status") (by decide) (by decide)
  have hcounter : (Hash.hget (e.hash.insert (encode "status") (encode (statusValue .running)))
      "attempts").elim (some 0) counter = some n := by
    rw [hrunning.stores.hget, Option.elim_map]
    exact (attempts_insert_status d _).trans hn
  refine ⟨_, ?_, hrunning.insert (n + 1).repr (k := "attempts") (by decide) (by decide)⟩
  simp only [Wire.claimScript, hstored, Hash.hincrby, hcounter, hroom, if_true]

/-- `HSET` of a whole record over a stored one. Nothing of the old record stays when every
field of it is in the new one. -/
theorem hset (hk : Kept d e) {record new : WireRecord} (hsame : record.Same new)
    (hshaped : Shaped fun k => new.lookup k) (hkeys : d.keys ⊆ new.keys) :
    ∃ h, e.hash.hset (flattenRecord record) = .ok h ∧ ∀ ttl, Kept new ⟨h, ttl⟩ := by
  have hstatus : new.lookup "status" ≠ none := by
    obtain ⟨s, hs⟩ := hk.status_text
    have hmem : "status" ∈ d.keys := AList.lookup_isSome.mp (by rw [hs]; rfl)
    exact fun hnone => AList.lookup_eq_none.mp hnone (hkeys hmem)
  have hne : record.items ≠ [] := by
    obtain ⟨x, hx⟩ := Option.ne_none_iff_exists'.mp hstatus
    have hmem := Dict.mem_items.mpr ((hsame "status").trans hx)
    exact List.ne_nil_of_mem hmem
  -- what `HSET` leaves of the old record is overwritten
  have hmerge : ∀ k, new.lookup k = (record.lookup k).or (d.lookup k) := by
    intro k
    rw [hsame k]
    cases hk : new.lookup k with
    | some x => rfl
    | none =>
      have hnew : k ∉ new.keys := AList.lookup_eq_none.mp hk
      rw [Option.none_or, AList.lookup_eq_none.mpr fun hmem => hnew (hkeys hmem)]
  obtain ⟨h, hset, hs⟩ := hk.stores.hset hne
  exact ⟨h, hset, fun ttl => ⟨hs.congr hmerge, hshaped, hstatus⟩⟩

end Kept

end Wire

/-! ## Twin states -/

/-- Both know the same terminal statuses. -/
theorem Wire.mem_terminals_iff {s : String} :
    Datum.text s ∈ Memory.terminals ↔ encode s ∈ terminals := by
  simp only [Memory.terminals, terminals, statusValue, List.mem_cons, Datum.text.injEq,
    encode_inj, List.not_mem_nil, or_false]
  tauto

/-- The processing list of a worker is not the queue. -/
theorem Wire.lrem_queue (st : RawStore) (worker : Redis.InstanceId) (v : Blob) :
    (st.lrem (listKey (.processing worker)) v).lists (listKey .queue)
      = st.lists (listKey .queue) := by
  have hne : listKey .queue ≠ listKey (.processing worker) := listKey_injective.ne (by simp)
  rw [RawStore.lrem_lists, drop, Function.update_of_ne hne]

/-- What a claim leaves of the queue. -/
theorem Wire.blmove_queue {st : RawStore} {v : Blob} {rest : List Blob}
    (hqueue : st.lists (listKey .queue) = v :: rest) (worker : Redis.InstanceId) :
    (blmove st (listKey .queue) (listKey (.processing worker))).1.lists (listKey .queue)
      = rest := by
  have hne : listKey .queue ≠ listKey (.processing worker) :=
    listKey_injective.ne (by simp)
  simp only [blmove, RawStore.lpop, hqueue, RawStore.rpush_lists, push]
  rw [Function.update_of_ne hne, Function.update_self]

/-- The hash of each job. -/
def Wire.RawStore.entries (st : RawStore) (jobId : JobId) : Option RawEntry :=
  st.hashes (jobKey jobId)

theorem Wire.RawStore.entries_update {st st' : RawStore} {jobId : JobId} {o : Option RawEntry}
    (h : st'.hashes = Function.update st.hashes (jobKey jobId) o) :
    st'.entries = Function.update st.entries jobId o := by
  show st'.hashes ∘ jobKey = _
  rw [h]
  exact Function.update_comp_eq_of_injective st.hashes jobKey_injective jobId o

/-- The server and the in-process backend hold the same jobs in the same queue, each job in
a dictionary of its own below `bound`, and only a stored job has an event. -/
structure Twins (bound : Ref) (st : RawStore) (p : Memory.Process) : Prop where
  jobs : Objects.Related Kept p.records st.entries
  owned : p.Owned bound
  events : ∀ jobId ∈ p.events, p.owner jobId ≠ none
  queue : st.lists (listKey .queue) = p.queue.map encode

namespace Twins

variable {bound : Ref} {st st' : RawStore} {p p' : Memory.Process} {b : Backend} {jobId : JobId}
  {ref : Ref} {d : WireRecord} {e : RawEntry}

theorem unknown (h : Twins bound st p) (hj : p.owner jobId = none) :
    st.hashes (jobKey jobId) = none := h.jobs.of_none (Memory.Process.records_eq_none.mpr hj)

theorem stored (h : Twins bound st p) (hj : p.owner jobId = some ref) :
    ∃ e, st.hashes (jobKey jobId) = some e ∧ Kept (p.heap ref) e :=
  h.jobs.of_some (Memory.Process.records_of_some hj)

/-! ### Changes of both states -/

/-- The record and the hash of one job change. -/
theorem put (h : Twins bound st p)
    (hrecords : p'.records = Function.update p.records jobId (some d))
    (hhashes : st'.hashes = Function.update st.hashes (jobKey jobId) (some e))
    (hkept : Kept d e) (howned : p'.Owned bound)
    (hevents : ∀ id ∈ p'.events, id = jobId ∨ id ∈ p.events)
    (hqueue : st'.lists (listKey .queue) = p'.queue.map encode) : Twins bound st' p' where
  jobs := by
    rw [hrecords, RawStore.entries_update hhashes]
    exact h.jobs.put jobId hkept
  owned := howned
  events id hid := by
    rw [ne_eq, ← Memory.Process.records_eq_none, hrecords]
    by_cases hne : id = jobId
    · subst hne
      rw [Function.update_self]
      exact Option.some_ne_none _
    · rw [Function.update_of_ne hne, Memory.Process.records_eq_none]
      exact h.events id ((hevents id hid).resolve_left hne)
  queue := hqueue

/-- A dictionary that no job holds changes. -/
theorem change (h : Twins bound st p) (hfree : Objects.Free p.owner ref) (d : WireRecord) :
    Twins bound st { p with heap := Function.update p.heap ref d } where
  jobs := by
    have hrecords : ({ p with heap := Function.update p.heap ref d } : Memory.Process).records
        = p.records := Objects.view_congr (fun r hr => Function.update_of_ne hr ..) hfree
    rw [hrecords]
    exact h.jobs
  owned := ⟨h.owned.unshared, h.owned.born⟩
  events := h.events
  queue := h.queue

/-- A job goes. -/
theorem del (h : Twins bound st p) (jobId : JobId) :
    Twins bound (st.del (jobKey jobId)) (p.collect jobId).1 where
  jobs := by
    rw [Memory.Process.records_collect, RawStore.entries_update (o := none) rfl]
    exact h.jobs.erase jobId
  owned := h.owned.erase (p.owner_collect jobId)
  events id hid := by
    obtain ⟨hne, hevent⟩ := Finset.mem_erase.mp hid
    rw [Memory.Process.owner_collect, Function.update_of_ne hne]
    exact h.events id hevent
  queue := h.queue

theorem mono (h : Twins bound st p) {bound' : Ref} (hle : bound ≤ bound') : Twins bound' st p :=
  { h with owned := h.owned.mono hle }

/-- Both assign one field of a stored job, and the queue may change. -/
theorem assign (h : Twins bound st p) (hj : p.owner jobId = some ref)
    (he : st.hashes (jobKey jobId) = some e) {k : String} (s : String) (hne : k ≠ "")
    (hblob : k ∉ blobs) {queue : List JobId}
    (hhashes : st'.hashes = Function.update st.hashes (jobKey jobId)
      (some { e with hash := e.hash.insert (encode k) (encode s) }))
    (hqueue : st'.lists (listKey .queue) = queue.map encode) :
    Twins bound st' { p.assign ref k (.text s) with queue := queue } := by
  obtain ⟨e', he', hkept⟩ := h.stored hj
  obtain rfl : e = e' := Option.some.inj (he.symm.trans he')
  exact h.put (Memory.Process.records_assign h.owned hj k (.text s)) hhashes
    (hkept.insert s hne hblob) ⟨h.owned.unshared, h.owned.born⟩ (fun id hid => Or.inr hid) hqueue

/-! ### Calls -/

/-- What both read of a job. -/
theorem getJob (h : Twins bound st p) (hc : b.connection.decodeResponses = false)
    (jobId : JobId) : (b.getJob st jobId).Same (p.getJob jobId) := by
  cases hj : p.owner jobId with
  | none =>
    simp only [Backend.getJob, Wire.getJob, h.unknown hj, Memory.Process.getJob, hj]
    rfl
  | some ref =>
    obtain ⟨e, he, hkept⟩ := h.stored hj
    obtain ⟨r, hread, hsame⟩ := hkept.readHash hc
    simp only [Backend.getJob, Wire.getJob, he, hread, Memory.Process.getJob, hj]
    exact hsame

theorem enqueue (h : Twins bound st p)
    (hnew : p.owner jobId = none → Objects.OnlyOf p.owner jobId ref ∧ ref < bound ∧
      d.Same (p.heap ref) ∧ Shaped fun k => (p.heap ref).lookup k) :
    (∃ n, (Wire.enqueue st jobId d).2 = .ok n) ∧
      Twins bound (Wire.enqueue st jobId d).1 (p.enqueue jobId ref) := by
  cases hj : p.owner jobId with
  | some ref' =>
    obtain ⟨e, he, -⟩ := h.stored hj
    -- the id is known: neither of them stores anything
    have hredis : Wire.enqueue st jobId d = (st, .ok 0) := by
      simp only [Wire.enqueue, enqueueScript, he]
    rw [hredis, Memory.Process.enqueue_of_some hj]
    exact ⟨⟨0, rfl⟩, h⟩
  | none =>
    obtain ⟨honly, hborn, hsame, hshaped⟩ := hnew hj
    obtain ⟨hash, henqueue, hs⟩ := enqueue_dict (h.unknown hj) d
    rw [henqueue]
    refine ⟨⟨1, rfl⟩, ?_⟩
    have hkept :
        Kept ((p.heap ref).insert "status" (.text (statusValue .queued))) ⟨hash, none⟩ := by
      refine ⟨hs.congr fun k => ?_, hshaped.insert _ (by decide) (by decide), ?_⟩
      · rw [Dict.lookup_insert, Dict.lookup_insert, hsame k]
      · rw [AList.lookup_insert]
        exact Option.some_ne_none _
    refine h.put (Memory.Process.records_enqueue hj honly) rfl hkept ?_ ?_ ?_
    · refine h.owned.put honly hborn ?_
      rw [Memory.Process.enqueue_of_none hj]
      exact Dict.lookup_insert_eq p.jobs jobId ref
    · rw [Memory.Process.enqueue_of_none hj]
      exact fun id hid => Finset.mem_insert.mp hid
    · rw [Memory.Process.enqueue_of_none hj]
      show push st.lists (listKey .queue) (encode jobId) (listKey .queue) = _
      rw [push, Function.update_self, h.queue, List.map_append]
      rfl

/-- With a countable record for the id that it pops, a claim returns it, marked. -/
theorem claim (h : Twins bound st p) (hc : b.connection.decodeResponses = false)
    (hhead : ∀ jobId ∈ p.queue.head?, ∃ ref ∈ p.owner jobId, Countable (p.heap ref)) :
    (b.claim st).2.Same p.claim.2 ∧ Twins bound (b.claim st).1 p.claim.1 := by
  cases hq : p.queue with
  | nil =>
    have hempty : st.lists (listKey .queue) = [] := by
      rw [h.queue, hq]
      rfl
    have hredis : b.claim st = (st, .none) := by
      simp only [Backend.claim, Wire.claim, blmove, RawStore.lpop, hempty]
    have hmemory : p.claim = (p, .none) := by
      simp only [Memory.Process.claim, hq]
    rw [hredis, hmemory]
    exact ⟨trivial, h⟩
  | cons jobId rest =>
    obtain ⟨ref, hj, n, hn, hroom⟩ := hhead jobId (by rw [hq]; rfl)
    obtain ⟨e, he, hkept⟩ := h.stored hj
    have hlist : st.lists (listKey .queue) = encode jobId :: rest.map encode := by
      rw [h.queue, hq]
      rfl
    -- the script runs on the store that `BLMOVE` has left
    have hleased : (blmove st (listKey .queue) (listKey (.processing b.worker))).1.hashes
        (jobKey jobId) = some e := by rw [blmove_hashes, he]
    obtain ⟨e', hscript, hmarked⟩ := hkept.claimScript hn hroom hleased
    obtain ⟨r, hread, hsame⟩ := hmarked.readHash hc
    have houtcome : claimOutcome st b.worker jobId = _ := hscript
    have hredis : b.claim st = ((claimOutcome st b.worker jobId).1, .record r) := by
      rw [Backend.claim, claim_of_reply hlist (by rw [houtcome]) (hgetall_bytes hc _)
        hmarked.items_ne_nil, hread]
      rfl
    rw [hredis, Memory.Process.claim_of_attempts hq hj (hkept.int_attempts hn), houtcome]
    refine ⟨hsame, h.put (Memory.Process.records_write h.owned hj _) ?_ hmarked
      ⟨h.owned.unshared, h.owned.born⟩ (fun id hid => Or.inr hid) (blmove_queue hlist b.worker)⟩
    rw [RawStore.put_hashes, blmove_hashes]

/-- What differs of a save is the merge: nothing of the old record stays when every field of
it is in the new one. -/
theorem save (h : Twins bound st p) {done : Bool}
    (hold : ∀ old ∈ p.owner jobId, Objects.OnlyOf p.owner jobId ref ∧ ref < bound ∧
      d.Same (p.heap ref) ∧ (Shaped fun k => (p.heap ref).lookup k) ∧
      (p.heap old).keys ⊆ (p.heap ref).keys) :
    (b.save st jobId d done).2.Same (p.save jobId ref done).2 ∧
      Twins bound (b.save st jobId d done).1 (p.save jobId ref done).1 := by
  cases hj : p.owner jobId with
  | none =>
    have hredis : b.save st jobId d done = (st, .error .keyError) := by
      simp only [Backend.save, Wire.save, saveScript, h.unknown hj]
    rw [hredis, Memory.Process.save_of_none hj]
    exact ⟨rfl, h⟩
  | some old =>
    obtain ⟨honly, hborn, hsame, hshaped, hkeys⟩ := hold old hj
    obtain ⟨e, he, hkept⟩ := h.stored hj
    obtain ⟨hash, hset, hkept'⟩ := hkept.hset hsame hshaped hkeys
    rw [Memory.Process.save_of_some hj]
    have howner := Dict.lookup_insert_eq p.jobs jobId ref
    let p' := { p with jobs := p.jobs.insert jobId ref }
    have howned : p'.Owned bound := h.owned.put honly hborn howner
    have hrecords : p'.records = Function.update p.records jobId (some (p.heap ref)) :=
      Memory.Process.records_put honly howner fun r hr => rfl
    cases done with
    | false =>
      have hredis : b.save st jobId d false = (st.put (jobKey jobId) ⟨hash, e.ttl⟩, .none) := by
        simp [Backend.save, Wire.save, saveScript, he, hset]
      rw [hredis]
      exact ⟨trivial, h.put hrecords rfl (hkept' e.ttl) howned (fun id hid => Or.inr hid) h.queue⟩
    | true =>
      have hredis : b.save st jobId d true
          = ((((st.put (jobKey jobId) ⟨hash, e.ttl⟩).lrem (listKey (.processing b.worker))
              (encode jobId)).put (jobKey jobId) ⟨hash, some b.resultTtl⟩).publish
                (channelKey (.done jobId)), .none) := by
        simp [Backend.save, Wire.save, saveScript, he, hset]
      rw [hredis]
      -- `EXPIRE` writes the entry a second time
      refine ⟨trivial, h.put hrecords (Function.update_idem ..) (hkept' _)
        ⟨howned.unshared, howned.born⟩ (fun id hid => Or.inr (Finset.mem_of_mem_erase hid)) ?_⟩
      exact (lrem_queue (st.put (jobKey jobId) ⟨hash, e.ttl⟩) b.worker (encode jobId)).trans h.queue

theorem release (h : Twins bound st p) (jobId : JobId) :
    (b.release st jobId).2.Same (p.release jobId).2 ∧
      Twins bound (b.release st jobId).1 (p.release jobId).1 := by
  cases hj : p.owner jobId with
  | none =>
    have hredis : b.release st jobId = (st, .error .keyError) := by
      simp only [Backend.release, Wire.release, releaseScript, h.unknown hj]
    rw [hredis, Memory.Process.release_of_none hj]
    exact ⟨rfl, h⟩
  | some ref =>
    obtain ⟨e, he, hkept⟩ := h.stored hj
    obtain ⟨s, hs⟩ := hkept.status_text
    have hget := hkept.hget_status hs
    rw [Memory.Process.release_of_some hj hs]
    by_cases hrun : s = statusValue .running
    · subst hrun
      let hash := e.hash.insert (encode "status") (encode (statusValue .queued))
      have hredis : b.release st jobId
          = (((st.put (jobKey jobId) { e with hash := hash }).lrem
              (listKey (.processing b.worker)) (encode jobId)).rpush (listKey .queue)
                (encode jobId), .none) := by
        simp [Backend.release, Wire.release, releaseScript, he, hget, hash]
      rw [hredis, if_pos rfl]
      refine ⟨trivial, h.assign hj he (statusValue .queued) (k := "status") (by decide) (by decide)
        rfl ?_⟩
      rw [RawStore.rpush_lists, push, Function.update_self, lrem_queue, List.map_append]
      show st.lists (listKey .queue) ++ _ = _
      rw [h.queue]
      rfl
    · have hredis : b.release st jobId = (st, .none) := by
        simp [Backend.release, Wire.release, releaseScript, he, hget, hrun]
      rw [hredis, if_neg fun h => hrun (Datum.text.inj h)]
      exact ⟨trivial, h⟩

theorem requestCancel (h : Twins bound st p) (jobId : JobId) :
    (p.requestCancel jobId).2 = .none ∧
      Twins bound (Wire.requestCancel st jobId).1 (p.requestCancel jobId).1 := by
  cases hj : p.owner jobId with
  | none =>
    have hredis : Wire.requestCancel st jobId = (st, 0) := by
      simp only [Wire.requestCancel, requestCancelScript, h.unknown hj]
    rw [hredis, Memory.Process.requestCancel_of_none hj]
    exact ⟨rfl, h⟩
  | some ref =>
    obtain ⟨e, he, hkept⟩ := h.stored hj
    obtain ⟨s, hs⟩ := hkept.status_text
    have hget := hkept.hget_status hs
    rw [Memory.Process.requestCancel_of_some hj hs]
    by_cases hterminal : Datum.text s ∈ Memory.terminals
    · have hredis : Wire.requestCancel st jobId = (st, 0) := by
        simp [Wire.requestCancel, requestCancelScript, he, hget, mem_terminals_iff.mp hterminal]
      rw [hredis, if_pos hterminal]
      exact ⟨rfl, h⟩
    · have hlive : encode s ∉ terminals := fun hmem => hterminal (mem_terminals_iff.mpr hmem)
      let hash := e.hash.insert (encode "request_cancel") (encode "1")
      have hredis : (Wire.requestCancel st jobId).1
          = (st.put (jobKey jobId) { e with hash := hash }).publish
              (channelKey (.cancel jobId)) := by
        simp [Wire.requestCancel, requestCancelScript, he, hget, hlive, hash]
      rw [hredis, if_neg hterminal]
      exact ⟨rfl, h.assign hj he "1" (k := "request_cancel") (by decide) (by decide) rfl h.queue⟩

/-- The batch is a sequence of single requests on both sides. -/
theorem requestCancelMany (h : Twins bound st p) (jobIds : List JobId) :
    (p.requestCancelMany jobIds).2 = .none ∧
      Twins bound (jobIds.foldl (fun st jobId => (Wire.requestCancel st jobId).1) st)
        (p.requestCancelMany jobIds).1 := by
  induction jobIds generalizing st p with
  | nil => exact ⟨rfl, h⟩
  | cons jobId rest ih =>
    obtain ⟨hanswer, hnext⟩ := h.requestCancel jobId
    have hstep : p.requestCancelMany (jobId :: rest)
        = (p.requestCancel jobId).1.requestCancelMany rest := by
      rw [Memory.Process.requestCancelMany]
      generalize p.requestCancel jobId = out at hanswer
      obtain ⟨p', answer⟩ := out
      cases hanswer
      rfl
    rw [hstep]
    exact ih hnext

/-- A finished job without an event is taken on both sides. -/
theorem takeResult (h : Twins bound st p) (hc : b.connection.decodeResponses = false)
    (hevent : jobId ∉ p.events)
    (hended : ∀ ref ∈ p.owner jobId,
      ∀ status ∈ (p.heap ref).lookup "status", status ∈ Memory.terminals) :
    (b.takeResult st jobId).2.Same (p.takeResult jobId).2 ∧
      Twins bound (b.takeResult st jobId).1 (p.takeResult jobId).1 := by
  have hmemory : p.takeResult jobId = p.collect jobId := if_neg hevent
  have hcollect := h.del jobId
  rw [hmemory]
  cases hj : p.owner jobId with
  | none =>
    have hnone := h.unknown hj
    have hredis : b.takeResult st jobId = (st, .error .keyError) := by
      simp [Backend.takeResult, isTerminal, hnone]
    -- there is nothing to delete, so `hcollect` is about `st` itself
    have hdel : st.del (jobKey jobId) = st := by
      unfold RawStore.del
      rw [← hnone, Function.update_eq_self]
    rw [hdel] at hcollect
    rw [hredis]
    refine ⟨?_, hcollect⟩
    show Answer.Same _ (p.getJob jobId)
    rw [Memory.Process.getJob, hj]
    rfl
  | some ref =>
    obtain ⟨e, he, hkept⟩ := h.stored hj
    obtain ⟨s, hs⟩ := hkept.status_text
    obtain ⟨r, hread, hsame⟩ := hkept.readHash hc
    have hterminal := mem_terminals_iff.mp (hended ref hj (.text s) hs)
    have hredis : b.takeResult st jobId = (st.del (jobKey jobId), .record r) := by
      simp [Backend.takeResult, isTerminal, he, hkept.hget_status hs, hterminal, fetchAndDelete,
        hread, Answer.ofRecord]
    rw [hredis]
    refine ⟨?_, hcollect⟩
    show Answer.Same _ (p.getJob jobId)
    rw [Memory.Process.getJob, hj]
    exact hsame

end Twins

/-! ## Acts that meet none of the differences -/

namespace Pair

/-- The dictionary holds the same on both sides, and its keys and values are of the kind
that `to_record` writes. -/
def Passes (s : Pair) (ref : Ref) : Prop :=
  (s.redis.heap ref).Same (s.memory.heap ref) ∧ Shaped fun k => (s.memory.heap ref).lookup k

instance (s : Pair) (ref : Ref) : Decidable (s.Passes ref) := inferInstanceAs (Decidable (_ ∧ _))

instance (p : Memory.Process) (ref : Ref) : Decidable (Objects.Free p.owner ref) :=
  decidable_of_iff (∀ item ∈ p.jobs.items, item.2 ≠ ref)
    ⟨fun h jobId hj => h (jobId, ref) (Dict.mem_items.mpr hj) rfl, fun h item hmem hitem =>
      h item.1 (hitem ▸ Dict.mem_items.mp hmem)⟩

instance (p : Memory.Process) (jobId : JobId) (ref : Ref) :
    Decidable (Objects.OnlyOf p.owner jobId ref) :=
  decidable_of_iff (∀ item ∈ p.jobs.items, item.2 = ref → item.1 = jobId)
    ⟨fun h id hid => h (id, ref) (Dict.mem_items.mpr hid) rfl, fun h item hmem hitem =>
      h item.1 (hitem ▸ Dict.mem_items.mp hmem)⟩

/-- No dictionary is changed in place while a job holds it. A new job gets a dictionary that
no job holds, and a save replaces the dictionary of the job by one that has all its fields
and that no other job holds. An id that is claimed has a record whose attempts the server can
count, and a result is awaited when no event is left. -/
def Conforming (s : Pair) : Act → Prop
  | .modify ref _ => Objects.Free s.memory.owner ref
  | .call (.enqueue jobId ref) =>
    s.memory.owner jobId = none → Objects.OnlyOf s.memory.owner jobId ref ∧ s.Passes ref
  | .call (.save jobId ref _) => ∀ old ∈ s.memory.owner jobId,
      Objects.OnlyOf s.memory.owner jobId ref ∧ s.Passes ref ∧
        (s.memory.heap old).keys ⊆ (s.memory.heap ref).keys
  | .call .claim => ∀ jobId ∈ s.memory.queue.head?,
      ∃ ref ∈ s.memory.owner jobId, Countable (s.memory.heap ref)
  | .call (.takeResult jobId) => jobId ∉ s.memory.events
  | _ => True

instance (s : Pair) : DecidablePred s.Conforming
  | .modify .. => inferInstanceAs (Decidable (Objects.Free _ _))
  | .call (.enqueue ..) => inferInstanceAs (Decidable (_ → _ ∧ _))
  | .call (.save ..) => inferInstanceAs (Decidable (∀ _ ∈ _, _ ∧ _ ∧ _))
  | .call .claim => inferInstanceAs (Decidable (∀ _ ∈ _, ∃ _ ∈ _, _))
  | .call (.takeResult _) => inferInstanceAs (Decidable (_ ∉ _))
  | .make _ | .call (.getJob _) | .call (.release _) | .call (.requestCancel _)
  | .call (.requestCancelMany _) => inferInstanceAs (Decidable True)

/-- The states of the backends are twins. -/
abbrev Alike (s : Pair) : Prop := Twins s.acts s.redis.store s.memory

variable {b : Backend} {s s' : Pair} {act : Act}

/-- A conforming call gets the same answer from both. -/
theorem Alike.call (h : s.Alike) (hc : b.connection.decodeResponses = false) {c : ProtocolCall}
    (hoffers : s.Offers (.call c)) (hconforming : s.Conforming (.call c)) :
    (s.redis.call b c).2.Same (s.memory.call c).2 ∧
      Twins s.acts (s.redis.call b c).1.store (s.memory.call c).1 := by
  cases c with
  | enqueue jobId ref =>
    have hnew : s.memory.owner jobId = none →
        Objects.OnlyOf s.memory.owner jobId ref ∧ ref < s.acts ∧
          (s.redis.heap ref).Same (s.memory.heap ref) ∧
            Shaped fun k => (s.memory.heap ref).lookup k :=
      fun hnew => ⟨(hconforming hnew).1, hoffers, (hconforming hnew).2⟩
    obtain ⟨⟨n, hn⟩, htwins⟩ := h.enqueue hnew
    generalize hout : Wire.enqueue s.redis.store jobId (s.redis.heap ref) = out at hn htwins
    obtain ⟨store, code⟩ := out
    cases hn
    rw [Client.call, hout]
    exact ⟨trivial, htwins⟩
  | claim => exact h.claim hc hconforming
  | getJob jobId => exact ⟨h.getJob hc jobId, h⟩
  | save jobId ref done =>
    refine h.save fun old hold => ?_
    obtain ⟨honly, ⟨hsame, hshaped⟩, hkeys⟩ := hconforming old hold
    exact ⟨honly, hoffers, hsame, hshaped, hkeys⟩
  | release jobId => exact h.release jobId
  | requestCancel jobId =>
    obtain ⟨hanswer, htwins⟩ := h.requestCancel jobId
    refine ⟨?_, htwins⟩
    show Answer.Same .none (s.memory.requestCancel jobId).2
    rw [hanswer]
    trivial
  | requestCancelMany jobIds =>
    obtain ⟨hanswer, htwins⟩ := h.requestCancelMany jobIds
    refine ⟨?_, htwins⟩
    show Answer.Same .none (s.memory.requestCancelMany jobIds).2
    rw [hanswer]
    trivial
  | takeResult jobId => exact h.takeResult hc hconforming hoffers

/-- New dictionaries are held by no job. -/
theorem Alike.receive (h : s.Alike) (record record' : WireRecord) :
    (s.receive record record').Alike :=
  (h.change h.owned.free record').mono (Nat.le_succ _)

/-- **One act.** -/
theorem Alike.next (h : s.Alike) (hc : b.connection.decodeResponses = false)
    (hoffers : s.Offers act) (hconforming : s.Conforming act) :
    s.Agrees b act (s.next b act) ∧ (s.next b act).Alike := by
  -- twins answer `get_job` alike, so the answer and the next twins are enough
  have hnext : (∀ c, act = .call c → (s.redis.call b c).2.Same (s.memory.call c).2) ∧
      (s.next b act).Alike := by
    cases act with
    | make build =>
      refine ⟨fun c hact => ?_, h.receive _ _⟩
      cases hact
    | modify ref change =>
      refine ⟨fun c hact => ?_, Alike.receive (h.change hconforming (change s.memory.heap)) ∅ ∅⟩
      cases hact
    | call c =>
      obtain ⟨hanswer, htwins⟩ := h.call hc hoffers hconforming
      constructor
      · rintro c' ⟨⟩
        exact hanswer
      · have hcalled : Alike { s with
            redis := (s.redis.call b c).1
            memory := (s.memory.call c).1 } := htwins
        exact hcalled.receive _ _
  exact ⟨⟨hnext.1, hnext.2.getJob hc⟩, hnext.2⟩

end Pair

/-! ## Every run -/

theorem twins_empty : Twins 0 RawStore.empty Memory.Process.empty where
  jobs _ := .none
  owned := by
    constructor
    · intro _ _ _ h
      cases h
    · intro _ _ h
      cases h
  events _ h := absurd h (Finset.notMem_empty _)
  queue := rfl

/-- **When the backends are interchangeable.** Whatever a process builds, changes and passes
in calls that follow one another, from two empty backends and over a client that leaves
replies as bytes: both backends answer each call alike and hold the same records after it, in
every run whose acts meet none of the differences. -/
theorem conform_along (b : Backend) (hc : b.connection.decodeResponses = false)
    (acts : List Act)
    (h : (pair b).Along (fun s act _ => s.Conforming act) (pair b).init acts) :
    (pair b).Along (fun s act s' => s.Agrees b act s') (pair b).init acts := by
  refine Machine.along_of_invariant (J := Pair.Alike) ?_ twins_empty h
  intro s act s' hs hconforming hstep
  obtain ⟨hoffers, hnext⟩ := Option.ite_none_right_eq_some.mp hstep
  cases hnext
  exact hs.next hc hoffers hconforming

/-- A client that leaves replies as bytes, of a server that lists a hash as it was written. -/
def callerBackend : Backend where
  connection := connection false
  worker := "w"
  resultTtl := 60

/-- The record of a job, as `Task.submit` builds it. -/
def callerRecord (jobId : JobId) : WireRecord := Dict.ofPairs [
  ("id", .text jobId), ("task_name", .text "task"), ("created_at", .text "0"),
  ("status", .text "created"), ("attempts", .text "0"), ("request_cancel", .text "0"),
  ("payload", .bytes [1])]

/-- What a caller makes of a record that it has read. -/
def callerResult (r : WireRecord) : WireRecord :=
  (r.insert "status" (.text "completed")).insert "result" (.bytes [2])

/-- Two jobs. The first is claimed, saved with an error, released, claimed again and finished,
beside a cancel request for both, a second enqueue and a fetch. -/
def retries : List Act :=
  [.make fun _ => callerRecord "j", .call (.enqueue "j" 0),
    .make fun _ => callerRecord "k", .call (.enqueue "k" 2), .call .claim,
    .make fun heap => (heap 4).insert "error" (.text "retry"), .call (.save "j" 5 false),
    .call (.release "j"), .call (.requestCancelMany ["j", "k"]), .call .claim, .call .claim,
    .make fun heap => callerResult (heap 10), .call (.save "j" 11 true), .call (.enqueue "j" 0),
    .call (.takeResult "j"), .call (.getJob "j"), .call .claim]

theorem conform_retries :
    ((pair callerBackend).run (pair callerBackend).init retries).isSome ∧
      (pair callerBackend).Along (fun s act s' => s.Agrees callerBackend act s')
        (pair callerBackend).init retries :=
  ⟨by decide +kernel, conform_along callerBackend rfl retries (by decide +kernel)⟩

/-! ## The differences -/

/-- The dictionary `0` is enqueued. -/
def enqueues : List Act := [.make fun _ => callerRecord "j", .call (.enqueue "j" 0)]

/-- The caller claims the job and saves it with an error. Its result, which it makes of what it
had claimed, has no error: the one that was saved stays in Redis. -/
def omitsField : List Act := enqueues ++
  [.call .claim, .make fun heap => (heap 2).insert "error" (.text "retry"),
    .call (.save "j" 3 false), .make fun heap => callerResult (heap 2)]

/-- The caller finishes a queued job and takes its result: the id stays in the queue. -/
def leavesId : List Act := enqueues ++
  [.call (.getJob "j"), .make fun heap => callerResult (heap 2), .call (.save "j" 3 true),
    .call (.takeResult "j")]

/-- The caller writes a terminal record with `done=False`: the event stays. -/
def leavesEvent : List Act := enqueues ++
  [.call .claim, .make fun heap => callerResult (heap 2), .call (.save "j" 3 false)]

/-- The caller saves what it has claimed, which then gets the flag of a later cancel request
in memory, but not at the caller of the server. -/
def keepsDict : List Act := enqueues ++
  [.call .claim, .call (.save "j" 2 false), .call (.requestCancel "j")]

/-- Each difference shows: in the record after the next save, in the answer to the next claim,
in the answer to the next `take_result`, and in the record after a second save. -/
theorem conform_fails :
    let agrees := fun s act s' => Pair.Agrees callerBackend s act s'
    ¬ (pair callerBackend).Along agrees (pair callerBackend).init
        (omitsField ++ [.call (.save "j" 5 true)]) ∧
      ¬ (pair callerBackend).Along agrees (pair callerBackend).init
        (leavesId ++ [.call .claim]) ∧
      ¬ (pair callerBackend).Along agrees (pair callerBackend).init
        (leavesEvent ++ [.call (.takeResult "j")]) ∧
      ¬ (pair callerBackend).Along agrees (pair callerBackend).init
        (keepsDict ++ [.call (.save "j" 2 false)]) := by
  refine ⟨fun h => ?_, fun h => ?_, fun h => ?_, fun h => ?_⟩
  · obtain ⟨-, hrecords⟩ := h.last rfl rfl
    exact absurd (hrecords "j") (by decide +kernel)
  · obtain ⟨hanswer, -⟩ := h.last rfl rfl
    exact absurd (hanswer _ rfl) (by decide +kernel)
  · obtain ⟨hanswer, -⟩ := h.last rfl rfl
    exact absurd (hanswer _ rfl) (by decide +kernel)
  · obtain ⟨-, hrecords⟩ := h.last rfl rfl
    exact absurd (hrecords "j") (by decide +kernel)

end TaskQueue
