import Mathlib.Data.List.Rotate
import TaskQueue.Wire.Refinement

/-!
# Blobs that are no text, on a connection that decodes replies

`_decode` is written for clients of both kinds, but a client that was built with
`decode_responses=True` decodes the whole reply, the blobs of a serializer included. When one
of them is not UTF-8, the reply of the claim script raises in the client, after the script has
run: `claim` takes this for a failed round trip and puts the id back.

- `decode_pickle`: the blobs of `PickleSerializer` are such blobs, they begin with `0x80`.
- `claims_starve`: while the jobs on the queue have such blobs, no claim of any worker returns
  a job, ever; the queue goes round and round.
-/

namespace TaskQueue.Wire

open Redis Placement

/-! ## Blobs that are no text -/

/-- No encoded character begins with a continuation byte. -/
theorem utf8EncodeChar_head (ch : Char) : (String.utf8EncodeChar ch).head? ≠ some 0x80 := by
  have hbyte : ∀ n : Nat, n < 256 → n ≠ 128 → UInt8.ofNat n ≠ 0x80 := by
    intro n hlt hne h
    have htoNat := congrArg UInt8.toNat h
    rw [UInt8.toNat_ofNat', Nat.mod_eq_of_lt hlt] at htoNat
    exact hne htoNat
  rw [String.utf8EncodeChar]
  split_ifs with h₁ h₂ h₃
  · simpa using hbyte ch.val.toNat (by omega) (by omega)
  · simpa using hbyte (ch.val.toNat / 64 % 0x20 + 0xc0) (by omega) (by omega)
  · simpa using hbyte (ch.val.toNat / 4096 % 0x10 + 0xe0) (by omega) (by omega)
  · simpa using hbyte (ch.val.toNat / 262144 % 0x08 + 0xf0) (by omega) (by omega)

/-- **A pickle is no text.** Since protocol 2 its first byte is the opcode `PROTO`, `0x80`. -/
theorem decode_pickle (rest : Blob) : decode (0x80 :: rest) = none := by
  rw [decode, String.fromUTF8?, dif_neg]
  rintro ⟨m, hm⟩
  have hbytes : (0x80 :: rest : Blob) = m.flatMap String.utf8EncodeChar := by
    have hdata := congrArg (fun b : ByteArray => b.data.toList) hm
    simpa [List.utf8Encode] using hdata
  cases m with
  | nil => cases hbytes
  | cons ch m =>
    refine utf8EncodeChar_head ch ?_
    have hhead := congrArg List.head? hbytes
    rw [List.flatMap_cons, List.head?_append_of_ne_nil _ (by simp)] at hhead
    exact hhead.symm

/-! ## A claim that raises -/

/-- The record under the id holds a payload that is no text. -/
def Undecodable (st : RawStore) (rawJobId : Blob) : Prop :=
  ∃ jobId e v, rawJobId = encode jobId ∧ st.hashes (jobKey jobId) = some e ∧
    e.hash.lookup (encode "payload") = some v ∧ decode v = none

variable {c : Connection}

/-- A reply with such a value raises. -/
theorem hgetall_undecodable (hc : c.decodeResponses = true) {h : Hash} {f v : Blob}
    (hv : h.lookup f = some v) (hdecode : decode v = none) : ∃ e, c.hgetall h = .error e := by
  cases hflat : c.hgetall h with
  | error e => exact ⟨e, rfl⟩
  | ok flat =>
    have hitem := (c.listing.perm h).mem_iff.mpr (Dict.mem_items.mpr hv)
    have hmem : v ∈ flatten (c.listing.list h) := List.mem_flatMap.mpr ⟨(f, v), hitem, by simp⟩
    obtain ⟨x, hx⟩ := List.ok_of_mapM_ok hflat v hmem
    rw [Datum.received, if_pos hc, hdecode] at hx
    cases hx

/-- What the claim script writes leaves the payload alone. -/
theorem payload_of_claimScript {st : RawStore} {jobId : JobId} {e : RawEntry} {v : Blob}
    (he : st.hashes (jobKey jobId) = some e) (hv : e.hash.lookup (encode "payload") = some v)
    (running : Blob) :
    ∃ h' reply, claimScript st (jobKey jobId) running
        = (st.put (jobKey jobId) { e with hash := h' }, reply) ∧
      h'.lookup (encode "payload") = some v ∧
        (reply = .ok (some h') ∨ ∃ err, reply = .error err) := by
  have hstatus : (e.hash.insert (encode "status") running).lookup (encode "payload") = some v := by
    rw [AList.lookup_insert_ne (by simp), hv]
  rw [claimScript, he]
  cases hcount : Hash.hincrby (e.hash.insert (encode "status") running) "attempts" 1 with
  | error err => exact ⟨_, _, by simp only [hcount], hstatus, Or.inr ⟨err, rfl⟩⟩
  | ok h =>
    refine ⟨h, _, by simp only [hcount], ?_, Or.inl rfl⟩
    unfold Hash.hincrby at hcount
    split at hcount
    · split at hcount
      · cases hcount
        rw [AList.lookup_insert_ne (by simp), hstatus]
      · cases hcount
    · cases hcount

/-- The database between the two halves of a claim. -/
def leased (st : RawStore) (worker : InstanceId) : RawStore :=
  (blmove st (listKey .queue) (listKey (.processing worker))).1

theorem leased_lists {st : RawStore} {b : Blob} {rest : List Blob}
    (hqueue : st.lists (listKey .queue) = b :: rest) (worker : InstanceId) :
    (leased st worker).lists
      = push (Function.update st.lists (listKey .queue) rest) (listKey (.processing worker)) b := by
  simp only [leased, blmove, RawStore.lpop, hqueue, RawStore.rpush_lists]

/-- The id is put back: the lists after the compensating `MULTI`. -/
theorem returned_lists {st : RawStore} {b : Blob} {rest : List Blob}
    (hqueue : st.lists (listKey .queue) = b :: rest) (worker : InstanceId) :
    let lists := push (drop (leased st worker).lists (listKey (.processing worker)) b)
      (listKey .queue) b
    lists (listKey .queue) = rest ++ [b] ∧
      ∀ w, (lists (listKey (.processing w))).Perm (st.lists (listKey (.processing w))) := by
  have hne : ∀ w, listKey (.processing w) ≠ listKey .queue := fun w =>
    listKey_injective.ne (by rintro ⟨⟩)
  rw [leased_lists hqueue]
  refine ⟨?_, fun w => ?_⟩
  · simp [push, drop, Function.update_of_ne (hne worker).symm]
  · rw [push, Function.update_of_ne (hne w)]
    have hperm := perm_drop_push (Function.update st.lists (listKey .queue) rest)
      (listKey (.processing worker)) b (listKey (.processing w))
    rwa [Function.update_of_ne (hne w)] at hperm

/-- **One claim.** It raises, the id is at the end of the queue, and every list of leases holds
what it held. -/
theorem claim_undecodable (hc : c.decodeResponses = true) {st : RawStore} {b : Blob}
    {rest : List Blob} (hqueue : st.lists (listKey .queue) = b :: rest)
    (hb : Undecodable st b) (worker : InstanceId) :
    ∃ st' e, claim c st worker = (st', .error e) ∧ st'.lists (listKey .queue) = rest ++ [b] ∧
      (∀ w, (st'.lists (listKey (.processing w))).Perm (st.lists (listKey (.processing w)))) ∧
      ∀ b', Undecodable st b' → Undecodable st' b' := by
  obtain ⟨jobId, e, v, rfl, he, hv, hdecode⟩ := hb
  have hhashes : (leased st worker).hashes = st.hashes := blmove_hashes ..
  obtain ⟨h', reply, hscript, hpayload, hreply⟩ :=
    payload_of_claimScript (hhashes ▸ he) hv (encode (statusValue .running))
  have hraise : ∃ err, (reply.bind fun h : Option Hash => h.mapM c.hgetall) = .error err := by
    rcases hreply with rfl | ⟨err, rfl⟩
    · obtain ⟨err, herr⟩ := hgetall_undecodable hc hpayload hdecode
      refine ⟨err, ?_⟩
      show some <$> c.hgetall h' = _
      rw [herr]
      rfl
    · exact ⟨err, rfl⟩
  obtain ⟨err, herr⟩ := hraise
  refine ⟨returnLease ((leased st worker).put (jobKey jobId) { e with hash := h' }) worker jobId,
    err, ?_, (returned_lists hqueue worker).1, (returned_lists hqueue worker).2, ?_⟩
  · rw [claim, blmove_head hqueue]
    simp only [received_encode]
    rw [show claimScript (blmove st (listKey .queue) (listKey (.processing worker))).1
      (jobKey jobId) (encode (statusValue .running)) = _ from hscript]
    simp only [herr]
    rfl
  · rintro b' ⟨jobId', e', v', rfl, he', hv', hdecode'⟩
    by_cases hid : jobId' = jobId
    · subst hid
      exact ⟨jobId', { e with hash := h' }, v, rfl, Function.update_self .., hpayload, hdecode⟩
    · refine ⟨jobId', e', v', rfl, ?_, hv', hdecode'⟩
      have hother : Function.update (leased st worker).hashes (jobKey jobId)
          (some { e with hash := h' }) (jobKey jobId') = some e' := by
        rw [Function.update_of_ne (jobKey_injective.ne hid), hhashes, he']
      exact hother

/-! ## Claims for ever -/

/-- The claims of these workers, one after the other. -/
def claims (c : Connection) : RawStore → List InstanceId →
    RawStore × List (Except Error (Option WireRecord))
  | st, [] => (st, [])
  | st, worker :: workers =>
    let (st, out) := claim c st worker
    let (st, outs) := claims c st workers
    (st, out :: outs)

/-- **No job is ever delivered.** Over a client that decodes replies, while the records of all
jobs on the queue hold a payload that is no text, every claim of every worker raises. The queue
is turned by one place each time, and no list of leases grows: the workers only wait and try
again. -/
theorem claims_starve (hc : c.decodeResponses = true) {st : RawStore}
    (hne : st.lists (listKey .queue) ≠ [])
    (hqueue : ∀ b ∈ st.lists (listKey .queue), Undecodable st b) (workers : List InstanceId) :
    (∀ out ∈ (claims c st workers).2, ∃ e, out = .error e) ∧
      (claims c st workers).1.lists (listKey .queue)
        = (st.lists (listKey .queue)).rotate workers.length ∧
      ∀ w, ((claims c st workers).1.lists (listKey (.processing w))).Perm
        (st.lists (listKey (.processing w))) := by
  induction workers generalizing st with
  | nil =>
    refine ⟨?_, (List.rotate_zero _).symm, fun w => List.Perm.refl _⟩
    intro out hout
    cases hout
  | cons worker workers ih =>
    obtain ⟨b, rest, hlist⟩ := List.exists_cons_of_ne_nil hne
    have hb : Undecodable st b := hqueue b (by rw [hlist]; exact List.mem_cons_self)
    obtain ⟨st', e, hclaim, hlist', hleases, hkept⟩ := claim_undecodable hc hlist hb worker
    have hne' : st'.lists (listKey .queue) ≠ [] := by simp [hlist']
    have hqueue' : ∀ b' ∈ st'.lists (listKey .queue), Undecodable st' b' := by
      intro b' hb'
      refine hkept b' (hqueue b' ?_)
      rw [hlist'] at hb'
      rw [hlist]
      simpa [or_comm] using hb'
    obtain ⟨houts, hrotate, hperm⟩ := ih hne' hqueue'
    rw [claims, hclaim]
    refine ⟨?_, ?_, fun w => (hperm w).trans (hleases w)⟩
    · intro out hout
      rcases List.mem_cons.mp hout with rfl | hout
      · exact ⟨e, rfl⟩
      · exact houts out hout
    · show (claims c st' workers).1.lists (listKey .queue) = _
      rw [hrotate, hlist', hlist, List.length_cons, List.rotate_cons_succ]

/-- The record of a job without arguments, by `PickleSerializer`. -/
def pickled (jobId : JobId) : Record :=
  { (idle 0).stored (encode emptyJson) none with id := jobId, payload := [0x80, 0x04, 0x2e] }

/-- Two such jobs are on the queue. -/
def withPickled : RawStore :=
  (enqueue (enqueue RawStore.empty "a" (pickled "a").toDict).1 "b" (pickled "b").toDict).1

theorem pickled_starves :
    (∀ out ∈ (claims (connection true) withPickled ["w", "v", "w"]).2, ∃ e, out = .error e) ∧
      (claims (connection true) withPickled ["w", "v", "w"]).1.lists (listKey .queue)
        = (withPickled.lists (listKey .queue)).rotate 3 ∧
      ∀ w, ((claims (connection true) withPickled ["w", "v", "w"]).1.lists
        (listKey (.processing w))).Perm (withPickled.lists (listKey (.processing w))) := by
  have hlist : withPickled.lists (listKey .queue) = [encode "a", encode "b"] := by decide +kernel
  have hpayload : ∀ jobId ∈ ["a", "b"], ((withPickled.hashes (jobKey jobId)).bind fun e =>
      e.hash.lookup (encode "payload")) = some [0x80, 0x04, 0x2e] := by decide +kernel
  refine claims_starve rfl (by simp [hlist]) (fun b hb => ?_) ["w", "v", "w"]
  obtain ⟨jobId, hjob, rfl⟩ : ∃ jobId ∈ ["a", "b"], encode jobId = b := by
    rw [hlist] at hb
    simpa [eq_comm] using hb
  obtain ⟨e, he, hv⟩ := Option.bind_eq_some_iff.mp (hpayload jobId hjob)
  exact ⟨jobId, e, _, rfl, he, hv, decode_pickle _⟩

end TaskQueue.Wire
