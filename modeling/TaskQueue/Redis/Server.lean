import TaskQueue.Redis.Scripts

/-!
# The Redis server as an atomic machine

`Request` is what a client can have the server execute in one atomic step: a
script, a `MULTI`, a single command, or the expiry of a key that the server
carries out by itself. `Request.exec` runs it. Whatever the clients are and
however their steps interleave, the database only changes by `exec`, so an
invariant of the database is a statement about one request, whoever sent it.

- `Request.recordStep`: what one request does to one record (`RecordStep`), the
  inversion that every invariant of the records is a case analysis of.
- `Request.keyed`: records stay under their own ids.
-/

namespace TaskQueue.Redis

open Placement

/-- One atomic step of the server. A save is the one that a worker sends, of a terminal
record with `done=True`; a save with `done=False`, which nothing in the package sends, is
not among the requests. -/
inductive Request where
  | enqueue (record : Record)
  | blmove (worker : InstanceId)
  | claim (jobId : JobId)
  | returnLease (worker : InstanceId) (jobId : JobId)
  | discardLease (worker : InstanceId) (jobId : JobId)
  | save (worker : InstanceId) (write : Finished) (resultTtl : Nat)
  | release (worker : InstanceId) (jobId : JobId)
  | requestCancel (jobId : JobId)
  | fetchAndDelete (jobId : JobId)
  | heartbeat (worker : InstanceId) (now : Nat)
  | deregister (worker : InstanceId)
  | reap (now workerTtl : Nat)
  | expire (jobId : JobId)
deriving DecidableEq

/-- The server's answer. -/
inductive Reply where
  | nil
  | code (n : Int)
  | jobId (jobId : JobId)
  | record (r : Record)
deriving DecidableEq

/-- An optional record as a reply. -/
def Reply.ofRecord : Option Record → Reply
  | none => .nil
  | some r => .record r

/-- Execute a request. `RedisBackend.enqueue` sets `status` to QUEUED before it
sends the record. -/
def Request.exec (st : Store) : Request → Store × Reply
  | .enqueue record =>
    let (st', n) := enqueueScript st record.id { record with status := .queued }
    (st', .code n)
  | .blmove worker =>
    match Redis.blmove st worker with
    | (st', none) => (st', .nil)
    | (st', some jobId) => (st', .jobId jobId)
  | .claim jobId =>
    let (st', flat) := claimScript st jobId
    (st', .ofRecord flat)
  | .returnLease worker jobId => (Redis.returnLease st worker jobId, .nil)
  | .discardLease worker jobId => (Redis.discardLease st worker jobId, .nil)
  | .save worker write resultTtl =>
    let (st', n) := saveScript st worker write.record.id write.record true resultTtl
    (st', .code n)
  | .release worker jobId =>
    let (st', n) := releaseScript st worker jobId
    (st', .code n)
  | .requestCancel jobId =>
    let (st', n) := requestCancelScript st jobId
    (st', .code n)
  | .fetchAndDelete jobId =>
    let (st', raw) := Redis.fetchAndDelete st jobId
    (st', .ofRecord raw)
  | .heartbeat worker now => (heartbeatScript st worker now, .code 1)
  | .deregister worker =>
    let (st', n) := deregisterScript st worker
    (st', .code n)
  | .reap now workerTtl =>
    let r := reaperScript st now workerTtl
    (r.store, .code r.reclaimed)
  | .expire jobId => (expireKey st jobId, .nil)

/-- The store after a request. -/
def Request.after (q : Request) (st : Store) : Store := (q.exec st).1

/-! ## What a request leaves in the store -/

/-- A record put back to QUEUED. -/
def requeued (r : Record) : Record := { r with status := .queued }

section After

variable (st : Store) (jobId : JobId) (worker : InstanceId)

@[simp] theorem after_claim_lists : ((Request.claim jobId).after st).lists = st.lists := by
  cases hj : st.jobs jobId with
  | none => simp only [Request.after, Request.exec, claimScript_of_none hj]
  | some e => simp only [Request.after, Request.exec, claimScript_of_some hj, Store.put_lists]

theorem after_requestCancel_cases :
    ((∀ e, st.jobs jobId = some e → e.record.status.terminal = true) ∧
      (Request.requestCancel jobId).after st = st) ∨
      ∃ e, st.jobs jobId = some e ∧ e.record.status.terminal = false ∧
        (Request.requestCancel jobId).after st
          = (st.put jobId { e with record := { e.record with requestCancel := true } }).publish
              (.cancel jobId) := by
  cases hj : st.jobs jobId with
  | none =>
    left
    refine ⟨fun e he => (by cases he), ?_⟩
    simp only [Request.after, Request.exec, requestCancelScript_of_none hj]
  | some e =>
    cases ht : e.record.status.terminal with
    | true =>
      left
      refine ⟨fun e' he => Option.some.inj he ▸ ht, ?_⟩
      simp only [Request.after, Request.exec, requestCancelScript_of_terminal hj ht]
    | false =>
      right
      refine ⟨e, rfl, ht, ?_⟩
      simp only [Request.after, Request.exec, requestCancelScript_of_unfinished hj ht]

@[simp] theorem after_requestCancel_lists :
    ((Request.requestCancel jobId).after st).lists = st.lists := by
  rcases after_requestCancel_cases st jobId with ⟨-, h⟩ | ⟨e, -, -, h⟩
  · rw [h]
  · rw [h, Store.publish_lists, Store.put_lists]

@[simp] theorem after_fetchAndDelete_lists :
    ((Request.fetchAndDelete jobId).after st).lists = st.lists := rfl

@[simp] theorem after_heartbeat_lists (now : Nat) :
    ((Request.heartbeat worker now).after st).lists = st.lists := rfl

@[simp] theorem after_deregister_lists :
    ((Request.deregister worker).after st).lists = st.lists := by
  unfold Request.after Request.exec deregisterScript
  by_cases hl : (st.lists (.processing worker)).length > 0 <;> simp [hl]

@[simp] theorem after_expire_lists : ((Request.expire jobId).after st).lists = st.lists := by
  rcases expireKey_cases st jobId with h | ⟨r, ttl, -, h⟩ <;>
    simp only [Request.after, Request.exec, h, Store.del_lists]

@[simp] theorem after_returnLease_lists : ((Request.returnLease worker jobId).after st).lists
    = push (drop st.lists (.processing worker) jobId) .queue jobId := rfl

@[simp] theorem after_discardLease_lists :
    ((Request.discardLease worker jobId).after st).lists
      = drop st.lists (.processing worker) jobId := rfl

variable {st jobId worker}

theorem after_enqueue_none {record : Record} (h : st.jobs record.id = none) :
    ((Request.enqueue record).after st).lists = push st.lists .queue record.id := by
  simp only [Request.after, Request.exec, enqueueScript_of_none h, Store.rpush_lists,
    Store.put_lists]

theorem after_enqueue_jobs {record : Record} (h : st.jobs record.id = none) :
    ((Request.enqueue record).after st).jobs
      = Function.update st.jobs record.id (some ⟨requeued record, none⟩) := by
  simp only [Request.after, Request.exec, enqueueScript_of_none h, Store.rpush_jobs,
    Store.put_jobs, requeued]

theorem after_enqueue_some {record : Record} {e : Entry} (h : st.jobs record.id = some e) :
    (Request.enqueue record).after st = st := by
  simp only [Request.after, Request.exec, enqueueScript_of_some h]

theorem after_blmove_nil (h : st.lists .queue = []) :
    (Request.blmove worker).after st = st := by
  simp only [Request.after, Request.exec, blmove_nil h]

theorem after_blmove_cons {rest : List JobId} (h : st.lists .queue = jobId :: rest) :
    (Request.blmove worker).after st
      = (st.lrem .queue jobId).rpush (.processing worker) jobId := by
  simp only [Request.after, Request.exec, blmove_cons h]

theorem after_claim_none (h : st.jobs jobId = none) :
    (Request.claim jobId).after st = st := by
  simp only [Request.after, Request.exec, claimScript_of_none h]

theorem after_claim_some {e : Entry} (h : st.jobs jobId = some e) :
    (Request.claim jobId).after st
      = st.put jobId { e with record := claimed e.record } := by
  simp only [Request.after, Request.exec, claimScript_of_some h]

theorem after_save_none {write : Finished} (h : st.jobs write.record.id = none) (ttl : Nat) :
    (Request.save worker write ttl).after st = st := by
  simp only [Request.after, Request.exec, saveScript_of_none h]

theorem after_save_some (worker : InstanceId) {write : Finished} {e : Entry}
    (h : st.jobs write.record.id = some e) (ttl : Nat) :
    ((Request.save worker write ttl).after st).lists
      = drop st.lists (.processing worker) write.record.id :=
  (saveScript_done worker h write.record ttl).2.2.1

theorem after_save_jobs (worker : InstanceId) {write : Finished} {e : Entry}
    (h : st.jobs write.record.id = some e) (ttl : Nat) :
    ((Request.save worker write ttl).after st).jobs
      = Function.update st.jobs write.record.id
          (some ⟨e.record.hset write.record, some ttl⟩) :=
  (saveScript_done worker h write.record ttl).2.1

theorem after_release_of_not_running
    (h : ∀ e, st.jobs jobId = some e → e.record.status ≠ .running) :
    (Request.release worker jobId).after st = st := by
  cases hj : st.jobs jobId with
  | none => simp only [Request.after, Request.exec, releaseScript_of_none hj]
  | some e => simp only [Request.after, Request.exec, releaseScript_of_not_running hj (h e hj)]

theorem after_release_of_running (worker : InstanceId) {e : Entry}
    (h : st.jobs jobId = some e) (hs : e.record.status = .running) :
    ((Request.release worker jobId).after st).lists
      = push (drop st.lists (.processing worker) jobId) .queue jobId := by
  simp only [Request.after, Request.exec, releaseScript_of_running h hs, Store.rpush_lists,
    Store.lrem_lists, Store.put_lists]

theorem after_release_jobs (worker : InstanceId) {e : Entry}
    (h : st.jobs jobId = some e) (hs : e.record.status = .running) :
    ((Request.release worker jobId).after st).jobs
      = Function.update st.jobs jobId (some { e with record := requeued e.record }) := by
  simp only [Request.after, Request.exec, releaseScript_of_running h hs, Store.rpush_jobs,
    Store.lrem_jobs, Store.put_jobs, requeued]

/-- Only a heartbeat, a deregistration and a reap write the liveness set. -/
theorem after_workers (q : Request) (st : Store)
    (hh : ∀ w now, q ≠ .heartbeat w now) (hd : ∀ w, q ≠ .deregister w)
    (hr : ∀ now ttl, q ≠ .reap now ttl) : (q.after st).workers = st.workers := by
  cases q with
  | enqueue record =>
    cases hj : st.jobs record.id with
    | none => simp [Request.after, Request.exec, enqueueScript_of_none hj]
    | some e => rw [after_enqueue_some hj]
  | blmove worker =>
    cases hl : st.lists .queue with
    | nil => rw [after_blmove_nil hl]
    | cons jobId rest => rw [after_blmove_cons hl, Store.rpush_workers, Store.lrem_workers]
  | claim jobId =>
    cases hj : st.jobs jobId with
    | none => rw [after_claim_none hj]
    | some e => rw [after_claim_some hj, Store.put_workers]
  | returnLease worker jobId => rfl
  | discardLease worker jobId => rfl
  | save worker write ttl =>
    cases hj : st.jobs write.record.id with
    | none => rw [after_save_none hj]
    | some e => exact (saveScript_done worker hj write.record ttl).2.2.2
  | release worker jobId =>
    by_cases hrun : ∃ e, st.jobs jobId = some e ∧ e.record.status = .running
    · obtain ⟨e, hj, hs⟩ := hrun
      simp only [Request.after, Request.exec, releaseScript_of_running hj hs,
        Store.rpush_workers, Store.lrem_workers, Store.put_workers]
    · rw [after_release_of_not_running fun e hj hs => hrun ⟨e, hj, hs⟩]
  | requestCancel jobId =>
    rcases after_requestCancel_cases st jobId with ⟨-, h⟩ | ⟨e, -, -, h⟩
    · rw [h]
    · rw [h, Store.publish_workers, Store.put_workers]
  | fetchAndDelete jobId => rfl
  | heartbeat worker now => exact absurd rfl (hh worker now)
  | deregister worker => exact absurd rfl (hd worker)
  | reap now ttl => exact absurd rfl (hr now ttl)
  | expire jobId =>
    rcases expireKey_cases st jobId with h | ⟨r, ttl, -, h⟩ <;>
      simp only [Request.after, Request.exec, h, Store.del_workers]

end After

/-! ## What a request does to one record -/

/-- The requests that remove the record of `jobId`. -/
def Request.Frees (jobId : JobId) : Request → Prop
  | .fetchAndDelete id | .expire id => id = jobId
  | _ => False

/-- The requests that may put a RUNNING record of `jobId` back to QUEUED. -/
def Request.Requeues (jobId : JobId) : Request → Prop
  | .release _ id => id = jobId
  | .reap _ _ => True
  | _ => False

/-- The change that request `q` makes to the entry of `jobId`. -/
inductive RecordStep (jobId : JobId) (q : Request) : Option Entry → Option Entry → Prop where
  | same (e : Option Entry) : RecordStep jobId q e e
  | created (record : Record) (hq : q = .enqueue record) (hid : record.id = jobId) :
      RecordStep jobId q none (some ⟨requeued record, none⟩)
  | claimed (e : Entry) (hq : q = .claim jobId) :
      RecordStep jobId q (some e) (some { e with record := Redis.claimed e.record })
  | saved (worker : InstanceId) (write : Finished) (ttl : Nat) (e : Entry)
      (hq : q = .save worker write ttl) (hid : write.record.id = jobId) :
      RecordStep jobId q (some e) (some ⟨e.record.hset write.record, some ttl⟩)
  | requeued (e : Entry) (hq : q.Requeues jobId) (hs : e.record.status = .running) :
      RecordStep jobId q (some e) (some { e with record := Redis.requeued e.record })
  | flagged (e : Entry) (hq : q = .requestCancel jobId)
      (ht : e.record.status.terminal = false) :
      RecordStep jobId q (some e)
        (some { e with record := { e.record with requestCancel := true } })
  | freed (e : Entry) (hq : q.Frees jobId) : RecordStep jobId q (some e) none

/-- Writing the entry of one id is a step of that id and of no other. -/
theorem recordStep_update {jobs : JobId → Option Entry} {q : Request} {id : JobId}
    {e' : Option Entry} (h : RecordStep id q (jobs id) e') (jobId : JobId) :
    RecordStep jobId q (jobs jobId) (Function.update jobs id e' jobId) := by
  by_cases hid : jobId = id
  · subst hid
    rwa [Function.update_self]
  · rw [Function.update_of_ne hid]
    exact .same _

/-- One pop of the reaper changes a record by a `requeued` step at most, and so
does a sequence of them: once QUEUED, a record is not touched again. -/
theorem reaping_pop_recordStep {st : Store} {now workerTtl : Nat} {worker : InstanceId}
    {jobId : JobId} {r : Reaping}
    (h : RecordStep jobId (.reap now workerTtl) (st.jobs jobId) (r.store.jobs jobId)) :
    RecordStep jobId (.reap now workerTtl) (st.jobs jobId)
      ((r.pop worker).store.jobs jobId) := by
  cases hl : r.store.lists (.processing worker) with
  | nil => rwa [Reaping.pop_nil hl]
  | cons id rest =>
    cases hj : r.store.jobs id with
    | none => rwa [Reaping.pop_dropped hl hj]
    | some e =>
      rw [(Reaping.pop_reclaimed hl hj).1]
      by_cases hs : e.record.status = .running
      · rw [if_pos hs]
        by_cases hid : jobId = id
        · subst hid
          rw [Function.update_self]
          rw [hj] at h
          -- the record was RUNNING before this pop, so no pop had touched it yet
          generalize hst : st.jobs jobId = e₀ at h ⊢
          cases h with
          | same => exact .requeued e trivial hs
          | requeued e₁ hq hs₁ => exact absurd hs (by simp [requeued])
          | created record hq hid => cases hq
          | claimed e₁ hq => cases hq
          | saved w write ttl e₁ hq hid => cases hq
          | flagged e₁ hq ht => cases hq
        · rwa [Function.update_of_ne hid]
      · rwa [if_neg hs]

/-- **What one request does to one record.** -/
theorem Request.recordStep (q : Request) (st : Store) (jobId : JobId) :
    RecordStep jobId q (st.jobs jobId) ((q.after st).jobs jobId) := by
  cases q with
  | enqueue record =>
    cases hj : st.jobs record.id with
    | some e =>
      rw [after_enqueue_some hj]
      exact .same _
    | none =>
      rw [after_enqueue_jobs hj]
      refine recordStep_update ?_ jobId
      rw [hj]
      exact .created record rfl rfl
  | blmove worker =>
    cases hl : st.lists .queue with
    | nil =>
      rw [after_blmove_nil hl]
      exact .same _
    | cons id rest =>
      rw [after_blmove_cons hl, Store.rpush_jobs, Store.lrem_jobs]
      exact .same _
  | claim id =>
    cases hj : st.jobs id with
    | none =>
      rw [after_claim_none hj]
      exact .same _
    | some e =>
      rw [after_claim_some hj, Store.put_jobs]
      refine recordStep_update ?_ jobId
      rw [hj]
      exact .claimed e rfl
  | returnLease worker id => exact .same _
  | discardLease worker id => exact .same _
  | save worker write ttl =>
    cases hj : st.jobs write.record.id with
    | none =>
      rw [after_save_none hj]
      exact .same _
    | some e =>
      rw [after_save_jobs worker hj]
      refine recordStep_update ?_ jobId
      rw [hj]
      exact .saved worker write ttl e rfl rfl
  | release worker id =>
    by_cases hrun : ∃ e, st.jobs id = some e ∧ e.record.status = .running
    · obtain ⟨e, hj, hs⟩ := hrun
      rw [after_release_jobs worker hj hs]
      refine recordStep_update ?_ jobId
      rw [hj]
      exact .requeued e rfl hs
    · rw [after_release_of_not_running fun e hj hs => hrun ⟨e, hj, hs⟩]
      exact .same _
  | requestCancel id =>
    rcases after_requestCancel_cases st id with ⟨-, h⟩ | ⟨e, hj, ht, h⟩
    · rw [h]
      exact .same _
    · rw [h, Store.publish_jobs, Store.put_jobs]
      refine recordStep_update ?_ jobId
      rw [hj]
      exact .flagged e rfl ht
  | fetchAndDelete id =>
    simp only [Request.after, Request.exec, Redis.fetchAndDelete, Store.del_jobs]
    refine recordStep_update ?_ jobId
    cases hj : st.jobs id with
    | none => exact .same _
    | some e => exact .freed e rfl
  | heartbeat worker now => exact .same _
  | deregister worker =>
    simp only [Request.after, Request.exec, deregisterScript]
    split <;> exact .same _
  | reap now workerTtl =>
    refine reaperScript_induction
      (I := fun st' => RecordStep jobId _ (st.jobs jobId) (st'.jobs jobId)) ?_ ?_ (.same _)
    · exact fun worker _ r h => reaping_pop_recordStep h
    · exact fun worker _ st' _ h => h
  | expire id =>
    simp only [Request.after, Request.exec]
    rcases expireKey_cases st id with h | ⟨r, ttl, hj, h⟩
    · rw [h]
      exact .same _
    · rw [h, Store.del_jobs]
      refine recordStep_update ?_ jobId
      rw [hj]
      exact .freed _ rfl

/-! ## The frame of a request -/

/-- The one job a request is about; a reap may be about many, and the liveness
commands are about none. -/
def Request.target (st : Store) : Request → Option JobId
  | .enqueue record => some record.id
  | .blmove _ => (st.lists .queue).head?
  | .save _ write _ => some write.record.id
  | .claim jobId | .returnLease _ jobId | .discardLease _ jobId | .release _ jobId
  | .requestCancel jobId | .fetchAndDelete jobId | .expire jobId => some jobId
  | .heartbeat _ _ | .deregister _ | .reap _ _ => none

/-- Two databases that agree about one job. -/
def SameJob (jobId : JobId) (st st' : Store) : Prop :=
  st'.jobs jobId = st.jobs jobId ∧ ∀ p, occ st'.lists jobId p = occ st.lists jobId p

theorem sameJob_refl (jobId : JobId) (st : Store) : SameJob jobId st st := ⟨rfl, fun _ => rfl⟩

/-- **The frame rule.** A request other than a reap leaves every job alone but
the one it is about. -/
theorem Request.frame (q : Request) (st : Store) (hq : ∀ now ttl, q ≠ .reap now ttl)
    {jobId : JobId} (hne : q.target st ≠ some jobId) : SameJob jobId st (q.after st) := by
  cases q with
  | enqueue record =>
    cases hj : st.jobs record.id with
    | some e =>
      rw [after_enqueue_some hj]
      exact sameJob_refl jobId st
    | none =>
      have hid : jobId ≠ record.id := fun h => hne (h ▸ rfl)
      refine ⟨?_, fun p => ?_⟩
      · rw [after_enqueue_jobs hj, Function.update_of_ne hid]
      · rw [after_enqueue_none hj]
        exact occ_push_of_ne hid
  | blmove worker =>
    cases hl : st.lists .queue with
    | nil =>
      rw [after_blmove_nil hl]
      exact sameJob_refl jobId st
    | cons id rest =>
      have hid : jobId ≠ id := by
        rintro rfl
        exact hne (by rw [Request.target, hl, List.head?_cons])
      rw [after_blmove_cons hl]
      exact ⟨rfl, occ_repush_of_ne hid⟩
  | claim id =>
    have hid : jobId ≠ id := fun h => hne (h ▸ rfl)
    refine ⟨?_, fun p => by rw [after_claim_lists]⟩
    cases hj : st.jobs id with
    | none => rw [after_claim_none hj]
    | some e => rw [after_claim_some hj, Store.put_jobs, Function.update_of_ne hid]
  | returnLease worker id =>
    have hid : jobId ≠ id := fun h => hne (h ▸ rfl)
    exact ⟨rfl, occ_repush_of_ne hid⟩
  | discardLease worker id =>
    have hid : jobId ≠ id := fun h => hne (h ▸ rfl)
    exact ⟨rfl, fun p => occ_drop_of_ne hid⟩
  | save worker write ttl =>
    have hid : jobId ≠ write.record.id := fun h => hne (h ▸ rfl)
    cases hj : st.jobs write.record.id with
    | none =>
      rw [after_save_none hj]
      exact sameJob_refl jobId st
    | some e =>
      refine ⟨?_, fun p => ?_⟩
      · rw [after_save_jobs worker hj, Function.update_of_ne hid]
      · rw [after_save_some worker hj]
        exact occ_drop_of_ne hid
  | release worker id =>
    have hid : jobId ≠ id := fun h => hne (h ▸ rfl)
    by_cases hrun : ∃ e, st.jobs id = some e ∧ e.record.status = .running
    · obtain ⟨e, hj, hs⟩ := hrun
      refine ⟨?_, fun p => ?_⟩
      · rw [after_release_jobs worker hj hs, Function.update_of_ne hid]
      · rw [after_release_of_running worker hj hs]
        exact occ_repush_of_ne hid p
    · rw [after_release_of_not_running fun e hj hs => hrun ⟨e, hj, hs⟩]
      exact sameJob_refl jobId st
  | requestCancel id =>
    have hid : jobId ≠ id := fun h => hne (h ▸ rfl)
    refine ⟨?_, fun p => by rw [after_requestCancel_lists]⟩
    rcases after_requestCancel_cases st id with ⟨-, h⟩ | ⟨e, -, -, h⟩
    · rw [h]
    · rw [h, Store.publish_jobs, Store.put_jobs, Function.update_of_ne hid]
  | fetchAndDelete id =>
    have hid : jobId ≠ id := fun h => hne (h ▸ rfl)
    exact ⟨Function.update_of_ne hid _ _, fun _ => rfl⟩
  | heartbeat worker now => exact sameJob_refl jobId _
  | deregister worker =>
    refine ⟨?_, fun p => by rw [after_deregister_lists]⟩
    simp only [Request.after, Request.exec, deregisterScript]
    split <;> rfl
  | reap now ttl => exact absurd rfl (hq now ttl)
  | expire id =>
    have hid : jobId ≠ id := fun h => hne (h ▸ rfl)
    refine ⟨?_, fun p => by rw [after_expire_lists]⟩
    rcases expireKey_cases st id with h | ⟨r, ttl, -, h⟩
    · rw [Request.after, Request.exec, h]
    · rw [Request.after, Request.exec, h, Store.del_jobs, Function.update_of_ne hid]

/-! ## Record invariants -/

/-- Every stored record is stored under its own id. -/
def Store.Keyed (st : Store) : Prop :=
  ∀ jobId e, st.jobs jobId = some e → e.record.id = jobId

theorem Store.keyed_empty : Store.empty.Keyed := by
  intro jobId e h
  cases h

theorem Request.keyed (q : Request) {st : Store} (h : st.Keyed) : (q.after st).Keyed := by
  intro jobId e he
  have hstep := q.recordStep st jobId
  rw [he] at hstep
  generalize hold : st.jobs jobId = old at hstep
  cases hstep with
  | same => exact h jobId e hold
  | created record hq hid => exact hid
  | claimed e₀ hq => exact h jobId e₀ hold
  | saved worker write ttl e₀ hq hid => exact hid
  | requeued e₀ hq hs => exact h jobId e₀ hold
  | flagged e₀ hq ht => exact h jobId e₀ hold

/-- The record of `jobId` is finished, or gone. -/
def Store.Settled (st : Store) (jobId : JobId) : Prop :=
  ∀ e, st.jobs jobId = some e → e.record.status.terminal = true

/-- The requests that make an unfinished record out of a finished or absent one: an
enqueue that creates it, and a claim script, which marks it RUNNING whatever it
was. -/
def Request.Revives (st : Store) (jobId : JobId) : Request → Prop
  | .enqueue record => record.id = jobId ∧ st.jobs jobId = none
  | .claim id => id = jobId ∧ (st.jobs jobId).isSome = true
  | _ => False

/-- **A settled record stays settled until a request revives it.** -/
theorem Request.settled (q : Request) {st : Store} {jobId : JobId} (h : st.Settled jobId)
    (hq : ¬ q.Revives st jobId) : (q.after st).Settled jobId := by
  intro e' he'
  have hstep := q.recordStep st jobId
  rw [he'] at hstep
  generalize hold : st.jobs jobId = old at hstep
  cases hstep with
  | same => exact h e' hold
  | created record heq hid =>
    subst heq
    exact absurd ⟨hid, hold⟩ hq
  | claimed e heq =>
    subst heq
    exact absurd ⟨rfl, by rw [hold]; rfl⟩ hq
  | saved worker write ttl e heq hid => exact write.terminal
  | requeued e heq hs =>
    have ht := h e hold
    rw [hs] at ht
    cases ht
  | flagged e heq ht =>
    have ht' := h e hold
    rw [ht] at ht'
    cases ht'

/-- Only an enqueue makes a record where there was none. -/
theorem Request.stored_of_after (q : Request) {st : Store} {jobId : JobId}
    (hq : ∀ record, q = .enqueue record → record.id ≠ jobId)
    (h : ((q.after st).jobs jobId).isSome = true) : (st.jobs jobId).isSome = true := by
  obtain ⟨e', he'⟩ := Option.isSome_iff_exists.mp h
  have hstep := q.recordStep st jobId
  rw [he'] at hstep
  generalize st.jobs jobId = old at hstep ⊢
  cases hstep with
  | created record heq hid => exact absurd hid (hq record heq)
  | _ => rfl

end TaskQueue.Redis
