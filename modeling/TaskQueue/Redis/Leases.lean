import TaskQueue.Redis.Server

/-!
# When a request duplicates, loses or hides a lease

Three properties of the lists, and for each the exact condition under which one
request preserves it, whoever sent the request and whatever was sent before.

- `NoDuplicate`: an id is on at most one of `queue` and all `processing:*`, and
  once at most. Three requests push an id without having popped it: `enqueue`,
  the release script and the compensating `MULTI` of a failed claim.
  `Request.PushesOwnLease` is the condition that each of them needs, and the two
  that hand a lease back need it because their guard is the record's status,
  which cannot tell one holder from another.
- `Listed`: an id whose record is unfinished is on some list. Two requests can
  break it: a claim script that revives a finished record whose id has already
  left the lists, and a discard `LREM` that arrives after the id was enqueued
  again. `Request.LeavesListed` is the exact condition.
- `Registered`: the owner of a non-empty `processing:*` list is in `workers`, so
  a reaper will look at the list. Deregistration and reaping check or empty the
  list first; only a `BLMOVE` for an unregistered worker hides a lease.

`Request.occ_processing_le` is the frame of one worker's list: only the worker's
own `BLMOVE` makes it longer.
-/

namespace TaskQueue.Redis

open Placement

/-! ## At most once -/

/-- Every id occurs at most once on `queue` and all `processing:*` lists. -/
def NoDuplicate (st : Store) : Prop := ∀ jobId, AtMostOnce st.lists jobId

theorem noDuplicate_empty : NoDuplicate .empty :=
  fun _ => Or.inl fun _ => rfl

/-- The request pushes an id only from a list where it holds it, or an id that
is on no list: a creating enqueue finds the id on no list, a compensating
`MULTI` finds it on the worker's list or on none, and a release that finds the
record RUNNING finds the id on the releasing worker's list. -/
def Request.PushesOwnLease (st : Store) : Request → Prop
  | .enqueue record => st.jobs record.id = none → Nowhere st.lists record.id
  | .returnLease worker jobId =>
    Nowhere st.lists jobId ∨ jobId ∈ st.lists (.processing worker)
  | .release worker jobId =>
    ∀ e, st.jobs jobId = some e → e.record.status = .running →
      jobId ∈ st.lists (.processing worker)
  | _ => True

/-- A release by a worker whose list does not hold the id changes nothing. -/
def Request.StaleReleaseInert (q : Request) (st : Store) : Prop :=
  ∀ worker jobId, q = .release worker jobId → jobId ∉ st.lists (.processing worker) →
    q.after st = st

/-- A push of `id` after a drop at `p` keeps all ids at most once when it keeps
`id` so. -/
theorem noDuplicate_repush {L : ListKey → List JobId} {id : JobId} {p q : ListKey}
    (h : ∀ jobId, AtMostOnce L jobId)
    (hid : Nowhere L id ∨ id ∈ L p) (jobId : JobId) :
    AtMostOnce (push (drop L p id) q id) jobId := by
  by_cases hj : jobId = id
  · subst hj
    exact (atMostOnce_repush_iff (h jobId)).mpr (hid.imp_right occ_pos_iff.mpr)
  · rw [atMostOnce_congr fun r => (occ_push_of_ne hj).trans (occ_drop_of_ne hj)]
    exact h jobId

theorem noDuplicate_pop (worker : InstanceId) (r : Reaping) (h : NoDuplicate r.store) :
    NoDuplicate (r.pop worker).store := by
  cases hl : r.store.lists (.processing worker) with
  | nil => rwa [Reaping.pop_nil hl]
  | cons id rest =>
    cases hj : r.store.jobs id with
    | none =>
      rw [Reaping.pop_dropped hl hj]
      exact fun jobId => (h jobId).drop _ _
    | some e =>
      intro jobId
      rw [(Reaping.pop_reclaimed hl hj).2.1]
      exact noDuplicate_repush h (Or.inr (hl ▸ List.mem_cons_self ..)) jobId

/-- **Exactly the requests that push their own lease duplicate no id** (and, for
a release, touch nothing when the worker no longer holds the lease). -/
theorem Request.noDuplicate_iff (q : Request) {st : Store} (h : NoDuplicate st) :
    (NoDuplicate (q.after st) ∧ q.StaleReleaseInert st) ↔ q.PushesOwnLease st := by
  cases q with
  | enqueue record =>
    refine (and_iff_left fun _ _ hq => by cases hq).trans ?_
    cases hj : st.jobs record.id with
    | some e =>
      rw [after_enqueue_some hj]
      exact iff_of_true h (fun hn => by rw [hj] at hn; cases hn)
    | none =>
      constructor
      · intro h' _
        have := h' record.id
        rwa [after_enqueue_none hj, atMostOnce_push_iff] at this
      · intro hp jobId
        rw [after_enqueue_none hj]
        by_cases hid : jobId = record.id
        · subst hid
          exact atMostOnce_push_iff.mpr (hp hj)
        · rw [atMostOnce_congr fun r => occ_push_of_ne hid]
          exact h jobId
  | blmove worker =>
    refine (and_iff_left fun _ _ hq => by cases hq).trans (iff_of_true ?_ trivial)
    cases hl : st.lists .queue with
    | nil => rwa [after_blmove_nil hl]
    | cons id rest =>
      intro jobId
      rw [after_blmove_cons hl]
      exact noDuplicate_repush h (Or.inr (hl ▸ List.mem_cons_self ..)) jobId
  | claim id =>
    refine (and_iff_left fun _ _ hq => by cases hq).trans (iff_of_true ?_ trivial)
    intro jobId
    rw [after_claim_lists]
    exact h jobId
  | returnLease worker id =>
    refine (and_iff_left fun _ _ hq => by cases hq).trans ?_
    constructor
    · intro h'
      have := h' id
      rw [after_returnLease_lists, atMostOnce_repush_iff (h id)] at this
      exact this.imp_right occ_pos_iff.mp
    · exact fun hp jobId => noDuplicate_repush h hp jobId
  | discardLease worker id =>
    refine (and_iff_left fun _ _ hq => by cases hq).trans (iff_of_true ?_ trivial)
    exact fun jobId => (h jobId).drop _ _
  | save worker write ttl =>
    refine (and_iff_left fun _ _ hq => by cases hq).trans (iff_of_true ?_ trivial)
    cases hj : st.jobs write.record.id with
    | none => rwa [after_save_none hj]
    | some e =>
      intro jobId
      rw [after_save_some worker hj]
      exact (h jobId).drop _ _
  | release worker id =>
    by_cases hrun : ∃ e, st.jobs id = some e ∧ e.record.status = .running
    · obtain ⟨e, hj, hs⟩ := hrun
      have hlists := after_release_of_running worker hj hs
      constructor
      · rintro ⟨-, hinert⟩ e' hj' hs'
        -- the script resets RUNNING to QUEUED, so it is not inert
        by_contra hmem
        have heq := congrArg (fun st' => st'.jobs id) (hinert worker id rfl hmem)
        simp only [after_release_jobs worker hj hs, Function.update_self, hj,
          Option.some.injEq] at heq
        have hst := congrArg (fun e => e.record.status) heq
        rw [hs] at hst
        cases hst
      · intro hp
        have hmem := hp e hj hs
        refine ⟨fun jobId => ?_, ?_⟩
        · rw [hlists]
          exact noDuplicate_repush h (Or.inr hmem) jobId
        · intro w jobId hq hnot
          cases hq
          exact absurd hmem hnot
    · have hq : (Request.release worker id).after st = st :=
        after_release_of_not_running fun e hj hs => hrun ⟨e, hj, hs⟩
      refine iff_of_true ⟨by rwa [hq], fun _ _ _ _ => hq⟩ ?_
      exact fun e hj hs => absurd ⟨e, hj, hs⟩ hrun
  | requestCancel id =>
    refine (and_iff_left fun _ _ hq => by cases hq).trans (iff_of_true ?_ trivial)
    intro jobId
    rw [after_requestCancel_lists]
    exact h jobId
  | fetchAndDelete id =>
    exact (and_iff_left fun _ _ hq => by cases hq).trans (iff_of_true h trivial)
  | heartbeat worker now =>
    exact (and_iff_left fun _ _ hq => by cases hq).trans (iff_of_true h trivial)
  | deregister worker =>
    refine (and_iff_left fun _ _ hq => by cases hq).trans (iff_of_true ?_ trivial)
    intro jobId
    rw [after_deregister_lists]
    exact h jobId
  | reap now ttl =>
    refine (and_iff_left fun _ _ hq => by cases hq).trans (iff_of_true ?_ trivial)
    exact reaperScript_induction (fun worker _ r => noDuplicate_pop worker r)
      (fun _ _ _ _ hst => hst) h
  | expire id =>
    refine (and_iff_left fun _ _ hq => by cases hq).trans (iff_of_true ?_ trivial)
    intro jobId
    rw [after_expire_lists]
    exact h jobId

/-! ## At least once -/

/-- Every id whose record is unfinished is on some list. -/
def Listed (st : Store) : Prop :=
  ∀ jobId e, st.jobs jobId = some e → e.record.status.terminal = false →
    Somewhere st.lists jobId

theorem listed_empty : Listed .empty := by
  intro jobId e h
  cases h

/-- A claim script that revives a finished record finds its id on some list; a
discard `LREM` finds the record still gone (or finished), or the id on another
list or twice on the worker's. -/
def Request.LeavesListed (st : Store) : Request → Prop
  | .claim jobId =>
    ∀ e, st.jobs jobId = some e → e.record.status.terminal = true →
      Somewhere st.lists jobId
  | .discardLease worker jobId =>
    ∀ e, st.jobs jobId = some e → e.record.status.terminal = false →
      Besides st.lists (.processing worker) jobId
  | _ => True

/-- A change of records that leaves the lists alone keeps `Listed` when every
unfinished record was unfinished before. -/
theorem listed_of_lists_eq {st st' : Store} (h : Listed st) (hl : st'.lists = st.lists)
    (hj : ∀ jobId e', st'.jobs jobId = some e' → e'.record.status.terminal = false →
      ∃ e, st.jobs jobId = some e ∧ e.record.status.terminal = false) : Listed st' := by
  intro jobId e' he' ht'
  obtain ⟨e, he, ht⟩ := hj jobId e' he' ht'
  rw [hl]
  exact h jobId e he ht

/-- Dropping one id and pushing it again keeps `Listed`, whatever happens to
the status of that id's record. -/
theorem listed_repush {st st' : Store} {id : JobId} {p q : ListKey} (h : Listed st)
    (hl : st'.lists = push (drop st.lists p id) q id)
    (hj : ∀ jobId, jobId ≠ id → st'.jobs jobId = st.jobs jobId) : Listed st' := by
  intro jobId e he ht
  rw [hl]
  by_cases hid : jobId = id
  · subst hid
    exact somewhere_push
  · rw [somewhere_congr fun r => (occ_push_of_ne hid).trans (occ_drop_of_ne hid)]
    exact h jobId e (hj jobId hid ▸ he) ht

theorem listed_pop (worker : InstanceId) (r : Reaping) (h : Listed r.store) :
    Listed (r.pop worker).store := by
  cases hl : r.store.lists (.processing worker) with
  | nil => rwa [Reaping.pop_nil hl]
  | cons id rest =>
    cases hj : r.store.jobs id with
    | none =>
      rw [Reaping.pop_dropped hl hj]
      intro jobId e he ht
      have hne : jobId ≠ id := by
        rintro rfl
        rw [Store.lrem_jobs, hj] at he
        cases he
      rw [Store.lrem_lists, somewhere_congr fun q => occ_drop_of_ne hne]
      exact h jobId e he ht
    | some e =>
      obtain ⟨hjobs, hlists, -⟩ := Reaping.pop_reclaimed hl hj
      refine listed_repush h hlists fun jobId hne => ?_
      rw [hjobs]
      split
      · exact Function.update_of_ne hne _ _
      · rfl

/-- **Exactly the requests that leave unfinished ids listed lose none.** -/
theorem Request.listed_iff (q : Request) {st : Store} (h : Listed st) :
    Listed (q.after st) ↔ q.LeavesListed st := by
  cases q with
  | enqueue record =>
    refine iff_of_true ?_ trivial
    cases hj : st.jobs record.id with
    | some e => rwa [after_enqueue_some hj]
    | none =>
      intro jobId e he ht
      rw [after_enqueue_none hj]
      by_cases hid : jobId = record.id
      · subst hid
        exact somewhere_push
      · refine (h jobId e ?_ ht).push _ _
        rwa [after_enqueue_jobs hj, Function.update_of_ne hid] at he
  | blmove worker =>
    refine iff_of_true ?_ trivial
    cases hl : st.lists .queue with
    | nil => rwa [after_blmove_nil hl]
    | cons id rest =>
      rw [after_blmove_cons hl]
      exact listed_repush h rfl fun _ _ => rfl
  | claim id =>
    cases hj : st.jobs id with
    | none =>
      rw [after_claim_none hj]
      exact iff_of_true h fun e he => by rw [hj] at he; cases he
    | some e =>
      rw [after_claim_some hj]
      constructor
      · exact fun h' e' _ _ =>
          h' id _ (by rw [Store.put_jobs, Function.update_self]) rfl
      · intro hc jobId e' he' ht'
        rw [Store.put_lists]
        by_cases hid : jobId = id
        · subst hid
          cases ht : e.record.status.terminal with
          | true => exact hc e hj ht
          | false => exact h jobId e hj ht
        · rw [Store.put_jobs, Function.update_of_ne hid] at he'
          exact h jobId e' he' ht'
  | returnLease worker id =>
    exact iff_of_true (listed_repush h rfl fun _ _ => rfl) trivial
  | discardLease worker id =>
    constructor
    · exact fun h' e he ht => somewhere_drop_iff.mp (h' id e he ht)
    · intro hc jobId e he ht
      rw [after_discardLease_lists]
      by_cases hid : jobId = id
      · subst hid
        exact somewhere_drop_iff.mpr (hc e he ht)
      · rw [somewhere_congr fun q => occ_drop_of_ne hid]
        exact h jobId e he ht
  | save worker write ttl =>
    refine iff_of_true ?_ trivial
    cases hj : st.jobs write.record.id with
    | none => rwa [after_save_none hj]
    | some e =>
      intro jobId e' he' ht'
      rw [after_save_some worker hj]
      rw [after_save_jobs worker hj] at he'
      by_cases hid : jobId = write.record.id
      · -- the saved record is finished
        subst hid
        rw [Function.update_self, Option.some.injEq] at he'
        subst he'
        rw [Record.hset_status, write.terminal] at ht'
        cases ht'
      · rw [Function.update_of_ne hid] at he'
        rw [somewhere_congr fun q => occ_drop_of_ne hid]
        exact h jobId e' he' ht'
  | release worker id =>
    refine iff_of_true ?_ trivial
    by_cases hrun : ∃ e, st.jobs id = some e ∧ e.record.status = .running
    · obtain ⟨e, hj, hs⟩ := hrun
      refine listed_repush h (after_release_of_running worker hj hs) fun jobId hne => ?_
      rw [after_release_jobs worker hj hs, Function.update_of_ne hne]
    · rwa [after_release_of_not_running fun e hj hs => hrun ⟨e, hj, hs⟩]
  | requestCancel id =>
    refine iff_of_true (listed_of_lists_eq h (after_requestCancel_lists st id) ?_) trivial
    intro jobId e' he' ht'
    have hstep := (Request.requestCancel id).recordStep st jobId
    rw [he'] at hstep
    generalize st.jobs jobId = old at hstep ⊢
    cases hstep with
    | same => exact ⟨e', rfl, ht'⟩
    | created record hq => cases hq
    | claimed e hq => cases hq
    | saved w write ttl e hq => cases hq
    | requeued e hq => cases hq
    | flagged e hq ht => exact ⟨e, rfl, ht⟩
  | fetchAndDelete id =>
    refine iff_of_true (listed_of_lists_eq h rfl ?_) trivial
    intro jobId e' he' ht'
    refine ⟨e', ?_, ht'⟩
    by_cases hid : jobId = id
    · subst hid
      simp [Request.after, Request.exec, Redis.fetchAndDelete] at he'
    · simpa [Request.after, Request.exec, Redis.fetchAndDelete, hid] using he'
  | heartbeat worker now => exact iff_of_true h trivial
  | deregister worker =>
    refine iff_of_true (listed_of_lists_eq h (after_deregister_lists st worker) ?_) trivial
    intro jobId e' he' ht'
    refine ⟨e', ?_, ht'⟩
    unfold Request.after Request.exec deregisterScript at he'
    by_cases hl : (st.lists (.processing worker)).length > 0 <;> simpa [hl] using he'
  | reap now ttl =>
    refine iff_of_true ?_ trivial
    exact reaperScript_induction (fun worker _ r => listed_pop worker r)
      (fun _ _ _ _ hst => hst) h
  | expire id =>
    refine iff_of_true (listed_of_lists_eq h (after_expire_lists st id) ?_) trivial
    intro jobId e' he' ht'
    refine ⟨e', ?_, ht'⟩
    rcases expireKey_cases st id with hx | ⟨r, t, -, hx⟩
    · rwa [Request.after, Request.exec, hx] at he'
    · rw [Request.after, Request.exec, hx, Store.del_jobs] at he'
      by_cases hid : jobId = id
      · subst hid
        rw [Function.update_self] at he'
        cases he'
      · rwa [Function.update_of_ne hid] at he'

/-! ## Visible to a reaper -/

/-- The owner of every non-empty processing list is in the liveness set. -/
def Registered (st : Store) : Prop :=
  ∀ worker, st.lists (.processing worker) ≠ [] → worker ∈ st.workers.members

theorem registered_empty : Registered .empty := fun _ h => absurd rfl h

/-- A `BLMOVE` that moves an id moves it to the list of a registered worker. -/
def Request.LeasesVisibly (st : Store) : Request → Prop
  | .blmove worker => st.lists .queue ≠ [] → worker ∈ st.workers.members
  | _ => True

/-- A processing list that is non-empty after a push to the queue and a drop was
non-empty before. -/
theorem processing_ne_nil_of_drop {L : ListKey → List JobId} (p : ListKey) (id : JobId)
    {worker : InstanceId} (h : drop L p id (.processing worker) ≠ []) :
    L (.processing worker) ≠ [] := by
  intro hnil
  refine h (List.eq_nil_iff_forall_not_mem.mpr fun a ha => ?_)
  have hpos := occ_pos_iff.mpr ha
  rw [occ_drop, occ, hnil, List.count_nil] at hpos
  omega

theorem push_queue_processing (L : ListKey → List JobId) (id : JobId) (worker : InstanceId) :
    push L .queue id (.processing worker) = L (.processing worker) :=
  Function.update_of_ne (by simp) _ _

/-- A request that leaves the liveness set alone and fills no processing list
keeps `Registered`. -/
theorem registered_of_workers_eq {st st' : Store} (h : Registered st)
    (hw : st'.workers = st.workers)
    (hl : ∀ worker, st'.lists (.processing worker) ≠ [] →
      st.lists (.processing worker) ≠ []) : Registered st' := by
  intro worker hne
  rw [hw]
  exact h worker (hl worker hne)

theorem registered_pop (worker : InstanceId) (r : Reaping) (h : Registered r.store) :
    Registered (r.pop worker).store := by
  cases hl : r.store.lists (.processing worker) with
  | nil => rwa [Reaping.pop_nil hl]
  | cons id rest =>
    cases hj : r.store.jobs id with
    | none =>
      rw [Reaping.pop_dropped hl hj]
      exact registered_of_workers_eq h rfl fun _ => processing_ne_nil_of_drop _ _
    | some e =>
      obtain ⟨-, hlists, hworkers⟩ := Reaping.pop_reclaimed hl hj
      refine registered_of_workers_eq h hworkers fun w hw => ?_
      rw [hlists, push_queue_processing] at hw
      exact processing_ne_nil_of_drop _ _ hw

/-- Removing a worker whose list is empty hides no lease. -/
theorem registered_zrem {st : Store} {worker : InstanceId} (h : Registered st)
    (hl : st.lists (.processing worker) = []) : Registered (st.zrem worker) := by
  intro w hw
  rw [Store.zrem_workers, ScoreSet.mem_members_remove]
  refine ⟨?_, h w hw⟩
  rintro rfl
  exact hw hl

/-- **Exactly the requests that lease for a registered worker hide no lease.** -/
theorem Request.registered_iff (q : Request) {st : Store} (h : Registered st) :
    Registered (q.after st) ↔ q.LeasesVisibly st := by
  have hquiet : ∀ q' : Request, (q'.after st).lists = st.lists →
      (q'.after st).workers = st.workers → Registered (q'.after st) := by
    intro q' hl hw
    exact registered_of_workers_eq h hw fun w hne => by rwa [hl] at hne
  cases q with
  | enqueue record =>
    refine iff_of_true ?_ trivial
    cases hj : st.jobs record.id with
    | some e => rwa [after_enqueue_some hj]
    | none =>
      refine registered_of_workers_eq h (after_workers _ st (by simp) (by simp) (by simp)) ?_
      intro w hw
      rwa [after_enqueue_none hj, push_queue_processing] at hw
  | blmove worker =>
    cases hl : st.lists .queue with
    | nil =>
      rw [after_blmove_nil hl]
      exact iff_of_true h fun hne => absurd hl hne
    | cons id rest =>
      rw [after_blmove_cons hl]
      constructor
      · intro h' _
        refine h' worker ?_
        rw [Store.rpush_lists, push, Function.update_self]
        simp
      · intro hc w hw
        by_cases hww : w = worker
        · exact hww ▸ hc (by rw [hl]; simp)
        · refine h w (processing_ne_nil_of_drop .queue id ?_)
          rwa [Store.rpush_lists, push, Function.update_of_ne (by simpa using hww)] at hw
  | claim id =>
    exact iff_of_true
      (hquiet _ (after_claim_lists st id) (after_workers _ st (by simp) (by simp) (by simp)))
      trivial
  | returnLease worker id =>
    refine iff_of_true (registered_of_workers_eq h rfl fun w hw => ?_) trivial
    rw [after_returnLease_lists, push_queue_processing] at hw
    exact processing_ne_nil_of_drop _ _ hw
  | discardLease worker id =>
    exact iff_of_true
      (registered_of_workers_eq h rfl fun _ => processing_ne_nil_of_drop _ _) trivial
  | save worker write ttl =>
    refine iff_of_true ?_ trivial
    cases hj : st.jobs write.record.id with
    | none => rwa [after_save_none hj]
    | some e =>
      refine registered_of_workers_eq h (after_workers _ st (by simp) (by simp) (by simp)) ?_
      intro w hw
      rw [after_save_some worker hj] at hw
      exact processing_ne_nil_of_drop _ _ hw
  | release worker id =>
    refine iff_of_true ?_ trivial
    by_cases hrun : ∃ e, st.jobs id = some e ∧ e.record.status = .running
    · obtain ⟨e, hj, hs⟩ := hrun
      refine registered_of_workers_eq h (after_workers _ st (by simp) (by simp) (by simp)) ?_
      intro w hw
      rw [after_release_of_running worker hj hs, push_queue_processing] at hw
      exact processing_ne_nil_of_drop _ _ hw
    · rwa [after_release_of_not_running fun e hj hs => hrun ⟨e, hj, hs⟩]
  | requestCancel id =>
    exact iff_of_true (hquiet _ (after_requestCancel_lists st id)
      (after_workers _ st (by simp) (by simp) (by simp))) trivial
  | fetchAndDelete id => exact iff_of_true (hquiet _ rfl rfl) trivial
  | heartbeat worker now =>
    refine iff_of_true (fun w hw => ?_) trivial
    exact ScoreSet.mem_members_add.mpr (Or.inr (h w hw))
  | deregister worker =>
    refine iff_of_true ?_ trivial
    by_cases hl : (st.lists (.processing worker)).length > 0
    · have hafter : (Request.deregister worker).after st = st := by
        simp only [Request.after, Request.exec, deregisterScript, if_pos hl]
      rwa [hafter]
    · have hafter : (Request.deregister worker).after st = st.zrem worker := by
        simp only [Request.after, Request.exec, deregisterScript, if_neg hl]
      rw [hafter]
      exact registered_zrem h (List.eq_nil_of_length_eq_zero (Nat.eq_zero_of_not_pos hl))
  | reap now ttl =>
    refine iff_of_true ?_ trivial
    exact reaperScript_induction (fun worker _ r => registered_pop worker r)
      (fun _ _ _ hl hst => registered_zrem hst hl) h
  | expire id =>
    exact iff_of_true (hquiet _ (after_expire_lists st id)
      (after_workers _ st (by simp) (by simp) (by simp))) trivial

/-! ## What makes a worker's list longer -/

/-- Only its own `BLMOVE` makes a worker's list longer. -/
theorem Request.occ_processing_le (q : Request) (st : Store) {worker : InstanceId}
    (jobId : JobId) (hblmove : q ≠ .blmove worker)
    (hreap : ∀ now ttl, q = .reap now ttl → worker ∉ expired st now ttl) :
    occ (q.after st).lists jobId (.processing worker)
      ≤ occ st.lists jobId (.processing worker) := by
  have hrepush : ∀ (L : ListKey → List JobId) (p : ListKey) (id : JobId),
      occ (push (drop L p id) .queue id) jobId (.processing worker)
        ≤ occ L jobId (.processing worker) := by
    intro L p id
    rw [occ_push_elsewhere (by simp), occ_drop]
    exact Nat.sub_le _ _
  cases q with
  | enqueue record =>
    cases hj : st.jobs record.id with
    | some e => rw [after_enqueue_some hj]
    | none => rw [after_enqueue_none hj, occ_push_elsewhere (by simp)]
  | blmove worker' =>
    have hne : worker ≠ worker' := fun h => hblmove (h ▸ rfl)
    cases hl : st.lists .queue with
    | nil => rw [after_blmove_nil hl]
    | cons id rest =>
      rw [after_blmove_cons hl, Store.rpush_lists, occ_push_elsewhere (by simpa using hne),
        Store.lrem_lists, occ_drop]
      exact Nat.sub_le _ _
  | claim id => rw [after_claim_lists]
  | returnLease worker' id =>
    rw [after_returnLease_lists]
    exact hrepush _ _ _
  | discardLease worker' id =>
    rw [after_discardLease_lists, occ_drop]
    exact Nat.sub_le _ _
  | save worker' write ttl =>
    cases hj : st.jobs write.record.id with
    | none => rw [after_save_none hj]
    | some e =>
      rw [after_save_some worker' hj, occ_drop]
      exact Nat.sub_le _ _
  | release worker' id =>
    by_cases hrun : ∃ e, st.jobs id = some e ∧ e.record.status = .running
    · obtain ⟨e, hj, hs⟩ := hrun
      rw [after_release_of_running worker' hj hs]
      exact hrepush _ _ _
    · rw [after_release_of_not_running fun e hj hs => hrun ⟨e, hj, hs⟩]
  | requestCancel id => rw [after_requestCancel_lists]
  | fetchAndDelete id => rw [after_fetchAndDelete_lists]
  | heartbeat worker' now => rw [after_heartbeat_lists]
  | deregister worker' => rw [after_deregister_lists]
  | reap now ttl =>
    refine reaperScript_induction (I := fun st' =>
      occ st'.lists jobId (.processing worker) ≤ occ st.lists jobId (.processing worker))
      ?_ (fun _ _ _ _ hst => hst) (Nat.le_refl _)
    intro worker' hw r hle
    cases hl : r.store.lists (.processing worker') with
    | nil => rwa [Reaping.pop_nil hl]
    | cons id rest =>
      refine Nat.le_trans ?_ hle
      cases hj : r.store.jobs id with
      | none =>
        rw [Reaping.pop_dropped hl hj, Store.lrem_lists, occ_drop]
        exact Nat.sub_le _ _
      | some e =>
        rw [(Reaping.pop_reclaimed hl hj).2.1]
        exact hrepush _ _ _
  | expire id => rw [after_expire_lists]

end TaskQueue.Redis
