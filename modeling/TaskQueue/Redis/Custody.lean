import TaskQueue.Redis.Server

/-!
# Where an id stands while every lease is in order

`Custody` says, for one job, which lists may hold its id given its record: no
list once the record is gone or finished, one place while it is unfinished, and
a processing list while it is RUNNING. `InCustody` says it of every job.

The scripts keep it only for clients in order (`Request.Orderly`): a claim script
runs for an id that was just leased, a save by the worker that holds the job, a
release that finds the job RUNNING by the worker that holds it, a fetch-and-delete
on a record that is finished. What the clients know of their own leases is
`Leased`, and `Request.leased` is its frame rule.
-/

namespace TaskQueue.Redis

open Placement

/-- The lists that hold `jobId`, given what is stored at `jobs:{id}`. -/
inductive Custody (L : ListKey → List JobId) (jobId : JobId) : Option Entry → Prop where
  | absent (h : Nowhere L jobId) : Custody L jobId none
  | finished (e : Entry) (ht : e.record.status.terminal = true) (h : Nowhere L jobId) :
      Custody L jobId (some e)
  | queued (e : Entry) (p : ListKey) (hs : e.record.status = .queued) (httl : e.ttl = none)
      (h : OnceAt L jobId p) : Custody L jobId (some e)
  | running (e : Entry) (worker : InstanceId) (hs : e.record.status = .running)
      (httl : e.ttl = none) (h : OnceAt L jobId (.processing worker)) : Custody L jobId (some e)

/-- Every job is in custody. -/
def InCustody (st : Store) : Prop := ∀ jobId, Custody st.lists jobId (st.jobs jobId)

theorem inCustody_empty : InCustody .empty := fun _ => .absent fun _ => rfl

section Custody

variable {L L' : ListKey → List JobId} {jobId : JobId} {x : Option Entry} {e : Entry}
  {p : ListKey}

theorem Custody.congr (h : Custody L jobId x) (hocc : ∀ p, occ L' jobId p = occ L jobId p) :
    Custody L' jobId x := by
  cases h with
  | absent h => exact .absent ((nowhere_congr hocc).mpr h)
  | finished e ht h => exact .finished e ht ((nowhere_congr hocc).mpr h)
  | queued e p hs httl h => exact .queued e p hs httl ((onceAt_congr hocc).mpr h)
  | running e worker hs httl h => exact .running e worker hs httl ((onceAt_congr hocc).mpr h)

/-- An id that is listed is listed once, its record is stored without a time to
live, and it is QUEUED, or RUNNING on a processing list. -/
theorem Custody.of_mem (h : Custody L jobId x) (hp : jobId ∈ L p) :
    OnceAt L jobId p ∧ ∃ e, x = some e ∧ e.ttl = none ∧
      (e.record.status = .queued ∨
        e.record.status = .running ∧ ∃ worker, p = .processing worker) := by
  have hpos := occ_pos_iff.mpr hp
  cases h with
  | absent h => exact absurd ⟨p, hpos⟩ h.not_somewhere
  | finished e ht h => exact absurd ⟨p, hpos⟩ h.not_somewhere
  | queued e q hs httl h =>
    obtain rfl := h.eq_of_occ_pos hpos
    exact ⟨h, e, rfl, httl, Or.inl hs⟩
  | running e worker hs httl h =>
    obtain rfl := h.eq_of_occ_pos hpos
    exact ⟨h, e, rfl, httl, Or.inr ⟨hs, worker, rfl⟩⟩

/-- The id of a job that is gone or finished is on no list. -/
theorem Custody.nowhere (h : Custody L jobId x)
    (hx : ∀ e, x = some e → e.record.status.terminal = true) : Nowhere L jobId := by
  cases h with
  | absent h => exact h
  | finished e ht h => exact h
  | queued e p hs =>
    have ht := hx e rfl
    rw [hs] at ht
    cases ht
  | running e worker hs =>
    have ht := hx e rfl
    rw [hs] at ht
    cases ht

/-- The id of an unfinished job is in one place. -/
theorem Custody.onceAt (h : Custody L jobId (some e)) (ht : e.record.status.terminal = false) :
    ∃ p, OnceAt L jobId p := by
  cases h with
  | finished _ ht' _ =>
    rw [ht] at ht'
    cases ht'
  | queued _ p _ _ h => exact ⟨p, h⟩
  | running _ worker _ _ h => exact ⟨_, h⟩

/-- The id of a RUNNING job is on a processing list. -/
theorem Custody.processing (h : Custody L jobId (some e)) (hs : e.record.status = .running) :
    ∃ worker, OnceAt L jobId (.processing worker) := by
  cases h with
  | finished _ ht _ =>
    rw [hs] at ht
    cases ht
  | queued _ p hs' =>
    rw [hs] at hs'
    cases hs'
  | running _ worker _ _ h => exact ⟨worker, h⟩

/-- A record with a time to live is finished. -/
theorem Custody.terminal_of_ttl (h : Custody L jobId (some e)) {ttl : Nat}
    (httl : e.ttl = some ttl) : e.record.status.terminal = true := by
  cases h with
  | finished _ ht _ => exact ht
  | queued _ p _ h => rw [h] at httl; cases httl
  | running _ worker _ h => rw [h] at httl; cases httl

/-- Custody survives a change to the entry that keeps its status and its time to
live. -/
theorem Custody.congr_entry {e' : Entry} (h : Custody L jobId (some e))
    (hs : e'.record.status = e.record.status) (httl : e'.ttl = e.ttl) :
    Custody L jobId (some e') := by
  cases h with
  | finished _ ht h => exact .finished e' (hs ▸ ht) h
  | queued _ p h₁ h₂ h => exact .queued e' p (hs.trans h₁) (httl.trans h₂) h
  | running _ worker h₁ h₂ h => exact .running e' worker (hs.trans h₁) (httl.trans h₂) h

end Custody

/-- A request other than a reap only has to put the job it is about in custody. -/
theorem inCustody_of_target {q : Request} {st : Store} (h : InCustody st)
    (hq : ∀ now ttl, q ≠ .reap now ttl)
    (hid : ∀ id, q.target st = some id →
      Custody (q.after st).lists id ((q.after st).jobs id)) : InCustody (q.after st) := by
  intro jobId
  by_cases ht : q.target st = some jobId
  · exact hid jobId ht
  · obtain ⟨hjobs, hocc⟩ := q.frame st hq ht
    rw [hjobs]
    exact (h jobId).congr hocc

theorem inCustody_pop (worker : InstanceId) (r : Reaping) (h : InCustody r.store) :
    InCustody (r.pop worker).store := by
  cases hl : r.store.lists (.processing worker) with
  | nil => rwa [Reaping.pop_nil hl]
  | cons id rest =>
    obtain ⟨honce, e, hj, httl, hs⟩ :=
      (h id).of_mem (p := .processing worker) (hl ▸ List.mem_cons_self ..)
    obtain ⟨hjobs, hlists, -⟩ := Reaping.pop_reclaimed hl hj
    intro jobId
    by_cases hid : jobId = id
    · -- RUNNING or not, the record ends up QUEUED and its id on the queue
      subst hid
      rw [hjobs, hlists]
      rcases hs with hs | ⟨hs, -⟩
      · rw [if_neg (by simp [hs]), hj]
        exact .queued e .queue hs httl (honce.move _)
      · rw [if_pos hs, Function.update_self]
        exact .queued _ .queue rfl httl (honce.move _)
    · have hsame : (r.pop worker).store.jobs jobId = r.store.jobs jobId := by
        rw [hjobs]
        split
        · exact Function.update_of_ne hid _ _
        · rfl
      rw [hsame, hlists]
      exact (h jobId).congr (occ_repush_of_ne hid)

/-! ## Clients in order -/

/-- Worker `worker` has the id on its list, and the record has the status. -/
def Leased (st : Store) (worker : InstanceId) (jobId : JobId) (status : JobStatus) : Prop :=
  jobId ∈ st.lists (.processing worker) ∧
    ∃ e, st.jobs jobId = some e ∧ e.record.status = status

/-- What a client in order knows of the database it sends the request to. -/
def Request.Orderly (st : Store) : Request → Prop
  | .claim jobId => ∃ worker, Leased st worker jobId .queued
  | .save worker write _ => Leased st worker write.record.id .running
  | .release worker jobId =>
    ∀ e, st.jobs jobId = some e → e.record.status = .running →
      jobId ∈ st.lists (.processing worker)
  | .fetchAndDelete jobId => ∀ e, st.jobs jobId = some e → e.record.status.terminal = true
  | .returnLease _ _ | .discardLease _ _ => False
  | _ => True

/-- **Clients in order keep every job in custody.** -/
theorem Request.inCustody (q : Request) {st : Store} (h : InCustody st)
    (hq : q.Orderly st) : InCustody (q.after st) := by
  cases q with
  | enqueue record =>
    cases hj : st.jobs record.id with
    | some e => rwa [after_enqueue_some hj]
    | none =>
      refine inCustody_of_target h (by simp) ?_
      rintro _ ⟨⟩
      have hnone : Nowhere st.lists record.id :=
        (h record.id).nowhere fun e he => by rw [hj] at he; cases he
      rw [after_enqueue_none hj, after_enqueue_jobs hj, Function.update_self]
      exact .queued _ .queue rfl rfl (onceAt_push hnone)
  | blmove worker =>
    cases hl : st.lists .queue with
    | nil => rwa [after_blmove_nil hl]
    | cons id rest =>
      refine inCustody_of_target h (by simp) fun jobId ht => ?_
      rw [Request.target, hl, List.head?_cons, Option.some.injEq] at ht
      subst ht
      rw [after_blmove_cons hl]
      obtain ⟨honce, e, hj, httl, hs⟩ := (h id).of_mem (hl ▸ List.mem_cons_self ..)
      rw [Store.rpush_jobs, Store.lrem_jobs, hj]
      rcases hs with hs | ⟨-, worker', hp⟩
      · exact .queued e _ hs httl (honce.move _)
      · cases hp
  | claim id =>
    obtain ⟨worker, hmem, e, hj, hs⟩ := hq
    obtain ⟨honce, e', he', httl, -⟩ := (h id).of_mem hmem
    rw [hj, Option.some.injEq] at he'
    subst he'
    refine inCustody_of_target h (by simp) ?_
    rintro _ ⟨⟩
    rw [after_claim_some hj, Store.put_jobs, Function.update_self]
    exact .running _ worker rfl httl honce
  | returnLease worker id => exact hq.elim
  | discardLease worker id => exact hq.elim
  | save worker write ttl =>
    obtain ⟨hmem, e, hj, hs⟩ := hq
    refine inCustody_of_target h (by simp) ?_
    rintro _ ⟨⟩
    rw [after_save_some worker hj, after_save_jobs worker hj, Function.update_self]
    exact .finished _ write.terminal ((h _).of_mem hmem).1.nowhere_drop
  | release worker id =>
    by_cases hrun : ∃ e, st.jobs id = some e ∧ e.record.status = .running
    · obtain ⟨e, hj, hs⟩ := hrun
      obtain ⟨honce, e', he', httl, -⟩ := (h id).of_mem (hq e hj hs)
      rw [hj, Option.some.injEq] at he'
      subst he'
      refine inCustody_of_target h (by simp) ?_
      rintro _ ⟨⟩
      rw [after_release_of_running worker hj hs, after_release_jobs worker hj hs,
        Function.update_self]
      exact .queued _ .queue rfl httl (honce.move _)
    · rwa [after_release_of_not_running fun e hj hs => hrun ⟨e, hj, hs⟩]
  | requestCancel id =>
    refine inCustody_of_target h (by simp) ?_
    rintro _ ⟨⟩
    rw [after_requestCancel_lists]
    have hc := h id
    have hstep := (Request.requestCancel id).recordStep st id
    generalize st.jobs id = old at hstep hc
    generalize ((Request.requestCancel id).after st).jobs id = new at hstep ⊢
    cases hstep with
    | same => exact hc
    | created record hq => cases hq
    | claimed e hq => cases hq
    | saved w write ttl e hq => cases hq
    | requeued e hq => exact hq.elim
    | flagged e hq ht => exact hc.congr_entry rfl rfl
    | freed e hq => exact hq.elim
  | fetchAndDelete id =>
    refine inCustody_of_target h (by simp) ?_
    rintro _ ⟨⟩
    rw [show ((Request.fetchAndDelete id).after st).jobs id = none from
      Function.update_self ..]
    exact .absent ((h id).nowhere hq)
  | heartbeat worker now => exact h
  | deregister worker => exact inCustody_of_target h (by simp) fun _ ht => by cases ht
  | reap now ttl =>
    exact reaperScript_induction (fun worker _ r => inCustody_pop worker r)
      (fun _ _ _ _ hst => hst) h
  | expire id =>
    rcases expireKey_cases st id with hx | ⟨r, ttl, hj, hx⟩
    · rwa [Request.after, Request.exec, hx]
    · refine inCustody_of_target h (by simp) ?_
      rintro _ ⟨⟩
      rw [after_expire_lists, Request.after, Request.exec, hx, Store.del_jobs,
        Function.update_self]
      refine .absent ((h id).nowhere fun e he => ?_)
      have hc := h id
      rw [he] at hc
      rw [hj, Option.some.injEq] at he
      subst he
      exact hc.terminal_of_ttl rfl

/-! ## The frame of a lease -/

/-- The requests that end or change the lease of `worker` on `jobId`. -/
def Request.Ends (st : Store) (worker : InstanceId) (jobId : JobId) : Request → Prop
  | .save _ write _ => write.record.id = jobId
  | .claim id | .release _ id | .returnLease _ id | .discardLease _ id => id = jobId
  | .reap now ttl => worker ∈ expired st now ttl
  | _ => False

theorem Leased.congr {st st' : Store} {worker : InstanceId} {jobId : JobId}
    {status : JobStatus} (h : Leased st worker jobId status) (hs : SameJob jobId st st') :
    Leased st' worker jobId status := by
  obtain ⟨hmem, e, he, hst⟩ := h
  exact ⟨occ_pos_iff.mp (hs.2 _ ▸ occ_pos_iff.mpr hmem), e, hs.1.trans he, hst⟩

theorem leased_pop {worker worker' : InstanceId} {jobId : JobId} {status : JobStatus}
    {r : Reaping} (hw : worker' ≠ worker) (h : InCustody r.store)
    (hl : Leased r.store worker jobId status) :
    Leased (r.pop worker').store worker jobId status := by
  cases hlist : r.store.lists (.processing worker') with
  | nil => rwa [Reaping.pop_nil hlist]
  | cons id rest =>
    obtain ⟨honce, e, hj, -⟩ :=
      (h id).of_mem (p := .processing worker') (hlist ▸ List.mem_cons_self ..)
    obtain ⟨hjobs, hlists, -⟩ := Reaping.pop_reclaimed hlist hj
    -- the popped id is listed once, and not where the lease is
    have hid : jobId ≠ id := by
      rintro rfl
      have := honce.eq_of_occ_pos (occ_pos_iff.mpr hl.1)
      exact hw (ListKey.processing.inj this).symm
    refine hl.congr ⟨?_, fun p => ?_⟩
    · rw [hjobs]
      split
      · exact Function.update_of_ne hid _ _
      · rfl
    · rw [hlists]
      exact occ_repush_of_ne hid p

/-- **The frame of a lease.** Among clients in order, a lease on an unfinished job
lasts until its holder ends it or the holder is reaped. -/
theorem Request.leased (q : Request) {st : Store} (h : InCustody st) (hq : q.Orderly st)
    {worker : InstanceId} {jobId : JobId} {status : JobStatus}
    (hl : Leased st worker jobId status) (ht : status.terminal = false)
    (hends : ¬ q.Ends st worker jobId) : Leased (q.after st) worker jobId status := by
  have hframe : (∀ now ttl, q ≠ .reap now ttl) → q.target st ≠ some jobId →
      Leased (q.after st) worker jobId status :=
    fun hr hne => hl.congr (q.frame st hr hne)
  obtain ⟨hmem, e, he, hs⟩ := hl
  have hne_of_terminal : ∀ id, (∀ e', st.jobs id = some e' →
      e'.record.status.terminal = true) → id ≠ jobId := by
    rintro id hid rfl
    have := hid e he
    rw [hs, ht] at this
    cases this
  cases q with
  | enqueue record =>
    by_cases hid : record.id = jobId
    · rw [after_enqueue_some (hid ▸ he)]
      exact ⟨hmem, e, he, hs⟩
    · exact hframe (by simp) (by simpa [Request.target] using hid)
  | blmove worker' =>
    refine hframe (by simp) fun hhead => ?_
    rw [Request.target, List.head?_eq_some_iff] at hhead
    obtain ⟨rest, hrest⟩ := hhead
    have honce := ((h jobId).of_mem hmem).1
    have := honce.eq_of_occ_pos (q := ListKey.queue)
      (occ_pos_iff.mpr (hrest ▸ List.mem_cons_self ..))
    cases this
  | claim id => exact hframe (by simp) fun ht => hends (Option.some.inj ht)
  | returnLease worker' id => exact hq.elim
  | discardLease worker' id => exact hq.elim
  | save worker' write ttl => exact hframe (by simp) fun ht => hends (Option.some.inj ht)
  | release worker' id => exact hframe (by simp) fun ht => hends (Option.some.inj ht)
  | requestCancel id =>
    refine ⟨by rwa [after_requestCancel_lists], ?_⟩
    have hstep := (Request.requestCancel id).recordStep st jobId
    rw [he] at hstep
    generalize ((Request.requestCancel id).after st).jobs jobId = new at hstep ⊢
    cases hstep with
    | same => exact ⟨e, rfl, hs⟩
    | claimed e hq => cases hq
    | saved w write ttl e hq => cases hq
    | requeued e hq => exact hq.elim
    | flagged e hq ht => exact ⟨_, rfl, hs⟩
    | freed e hq => exact hq.elim
  | fetchAndDelete id =>
    exact hframe (by simp) (by simpa [Request.target] using hne_of_terminal id hq)
  | heartbeat worker' now => exact ⟨hmem, e, he, hs⟩
  | deregister worker' => exact hframe (by simp) (by simp [Request.target])
  | reap now ttl =>
    have hboth : InCustody (reaperScript st now ttl).store ∧
        Leased (reaperScript st now ttl).store worker jobId status := by
      refine reaperScript_induction (I := fun st' => InCustody st' ∧
        Leased st' worker jobId status) ?_ (fun _ _ _ _ hst => hst) ⟨h, hmem, e, he, hs⟩
      rintro w hw r ⟨hc, hl⟩
      refine ⟨inCustody_pop w r hc, leased_pop ?_ hc hl⟩
      rintro rfl
      exact hends hw
    exact hboth.2
  | expire id =>
    rcases expireKey_cases st id with hx | ⟨r, ttl, hj, -⟩
    · rw [Request.after, Request.exec, hx]
      exact ⟨hmem, e, he, hs⟩
    · refine hframe (by simp) ?_
      simp only [Request.target, ne_eq, Option.some.injEq]
      refine hne_of_terminal id fun e' he' => ?_
      have hc := h id
      rw [he'] at hc
      rw [hj, Option.some.injEq] at he'
      subst he'
      exact hc.terminal_of_ttl rfl

end TaskQueue.Redis
