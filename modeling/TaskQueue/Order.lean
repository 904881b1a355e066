import TaskQueue.Library.Fifo
import TaskQueue.Memory.DeliveryCount

/-!
# The order of deliveries

Both backends keep the ids of jobs in a queue: `RPUSH` and `BLMOVE ... LEFT RIGHT` in Redis,
an `asyncio.Queue` in memory. A job is delivered when the jobs before it have been taken, in
every run and whatever producers, other workers and reapers do in between: no job is overtaken,
and none starves while workers claim.

`deliveredInTurn` says it for the two of them.
-/

namespace TaskQueue

/-! ## Redis -/

namespace Redis

/-- The requests that take the head of `queue`. -/
def Request.takes : Request → Bool
  | .blmove _ => true
  | _ => false

/-- The reaper only appends. -/
theorem queue_pop (worker : InstanceId) (r : Reaping) :
    ∃ added, (r.pop worker).store.lists .queue = r.store.lists .queue ++ added := by
  cases hl : r.store.lists (.processing worker) with
  | nil =>
    rw [Reaping.pop_nil hl]
    exact ⟨[], (List.append_nil _).symm⟩
  | cons jobId rest =>
    cases hj : r.store.jobs jobId with
    | none =>
      rw [Reaping.pop_dropped hl hj]
      exact ⟨[], by simp [Placement.drop]⟩
    | some e =>
      rw [(Reaping.pop_reclaimed hl hj).2.1]
      exact ⟨[jobId], by simp [Placement.push, Placement.drop]⟩

/-- **What one request does to the queue.** -/
theorem Request.queue_after (q : Request) (st : Store) :
    ∃ added, (q.after st).lists .queue
      = (if q.takes then (st.lists .queue).tail else st.lists .queue) ++ added := by
  have hsame : ∀ {st' : Store}, st'.lists .queue = st.lists .queue →
      ∃ added, st'.lists .queue = st.lists .queue ++ added := fun h =>
    ⟨[], by rw [h, List.append_nil]⟩
  cases q with
  | enqueue record =>
    cases hj : st.jobs record.id with
    | some e => exact hsame (by rw [after_enqueue_some hj])
    | none =>
      rw [after_enqueue_none hj]
      exact ⟨[record.id], Function.update_self ..⟩
  | blmove worker =>
    cases hl : st.lists .queue with
    | nil =>
      rw [after_blmove_nil hl, hl]
      exact ⟨[], rfl⟩
    | cons jobId rest =>
      rw [after_blmove_cons hl]
      exact ⟨[], by simp [Placement.push, Placement.drop, hl, takes]⟩
  | claim jobId => exact hsame (by rw [after_claim_lists])
  | returnLease worker jobId =>
    rw [after_returnLease_lists]
    exact ⟨[jobId], by simp [Placement.push, Placement.drop, takes]⟩
  | discardLease worker jobId =>
    refine hsame ?_
    rw [after_discardLease_lists]
    simp [Placement.drop]
  | save worker write ttl =>
    cases hj : st.jobs write.record.id with
    | none => exact hsame (by rw [after_save_none hj])
    | some e =>
      refine hsame ?_
      rw [after_save_some worker hj]
      simp [Placement.drop]
  | release worker jobId =>
    by_cases hrun : ∃ e, st.jobs jobId = some e ∧ e.record.status = .running
    · obtain ⟨e, hj, hs⟩ := hrun
      rw [after_release_of_running worker hj hs]
      exact ⟨[jobId], by simp [Placement.push, Placement.drop, takes]⟩
    · exact hsame (by rw [after_release_of_not_running fun e hj hs => hrun ⟨e, hj, hs⟩])
  | requestCancel jobId => exact hsame (by rw [after_requestCancel_lists])
  | fetchAndDelete jobId => exact hsame rfl
  | heartbeat worker now => exact hsame rfl
  | deregister worker => exact hsame (by rw [after_deregister_lists])
  | reap now ttl =>
    refine reaperScript_induction
      (I := fun st' => ∃ added, st'.lists .queue = st.lists .queue ++ added)
      (fun worker _ r h => ?_) (fun worker _ st' _ h => h) ⟨[], (List.append_nil _).symm⟩
    obtain ⟨added, h⟩ := h
    obtain ⟨added', hpop⟩ := queue_pop worker r
    exact ⟨added ++ added', by rw [hpop, h, List.append_assoc]⟩
  | expire jobId => exact hsame (by rw [after_expire_lists])

end Redis

/-! ## The fleet over Redis -/

namespace Worker.Fleet

open Redis

variable (d : Deployment)

/-- The event executes a `BLMOVE`. -/
def takes (s : Fleet) (e : Event) : Bool := (s.request d e).any Request.takes

/-- The queue of the database. -/
def fifo : Fifo (machine d) JobId where
  queue s := s.store.lists .queue
  takes := takes d
  step := by
    intro s e s' hstep
    rw [step_store d hstep, takes]
    cases s.request d e with
    | none => exact ⟨[], (List.append_nil _).symm⟩
    | some q => exact q.queue_after s.store

/-- The loop's `BLMOVE` returns this id. -/
def Delivers (s : Fleet) (l : LoopId) (jobId : JobId) : Prop :=
  ∃ q, s.pending d l = some q ∧ (q.exec s.store).2 = .jobId jobId

end Worker.Fleet

/-! ## The fleet over one process's memory -/

namespace Memory.Fleet

open Worker

variable (config : LoopIndex → PoolConfig)

/-- `Queue.get` returns. -/
def takes (_ : Fleet) : FleetEvent → Bool
  | .claim _ => true
  | _ => false

/-- What a release does to the queue. -/
theorem queue_release (b : Backend) (jobId : JobId) :
    ∃ added, ((b.release jobId).getD b).queue = b.queue ++ added := by
  unfold Backend.release
  split
  · exact ⟨[], (List.append_nil _).symm⟩
  · split
    · exact ⟨[jobId], rfl⟩
    · exact ⟨[], (List.append_nil _).symm⟩

/-- `claim` takes the head, whether its record is there or not. -/
theorem queue_claim {b b' : Backend} {r : Option Record} (h : b.claim = some (b', r)) :
    b'.queue = b.queue.tail := by
  unfold Backend.claim at h
  cases hq : b.queue with
  | nil => simp [hq] at h
  | cons jobId rest =>
    simp only [hq] at h
    cases hj : b.jobs jobId with
    | none =>
      simp only [hj] at h
      cases h
      rfl
    | some r =>
      simp only [hj] at h
      cases h
      rfl

theorem queue_save {b b' : Backend} {jobId : JobId} {record : Record} {done : Bool}
    (h : b.save jobId record done = some b') : b'.queue = b.queue := by
  unfold Backend.save at h
  cases hj : b.jobs jobId with
  | none => simp [hj] at h
  | some r =>
    simp only [hj] at h
    cases done <;> (cases h; rfl)

/-- The `asyncio.Queue`. -/
def fifo : Fifo (machine config) JobId where
  queue s := s.backend.queue
  takes := takes
  step := by
    intro s e s' hstep
    have hsame : ∀ {b b' : Backend}, b'.queue = b.queue → ∃ added, b'.queue = b.queue ++ added :=
      fun h => ⟨[], by rw [h, List.append_nil]⟩
    cases stepOf hstep with
    | enqueued record s' hloops hb =>
      rw [hb, Backend.enqueue]
      split
      · exact hsame rfl
      · exact ⟨[record.id], rfl⟩
    | flagged jobId s' hloops hb =>
      rw [hb, Backend.requestCancel]
      split
      · exact hsame rfl
      · split <;> exact hsame rfl
    | collected jobId s' hloops hb =>
      rw [hb]
      exact hsame rfl
    | claimed l b r s' hl hclaim hloops hb =>
      rw [hb, queue_claim hclaim]
      exact ⟨[], (List.append_nil _).symm⟩
    | lost l b s' hclaim hloops hb =>
      rw [hb, queue_claim hclaim]
      exact ⟨[], (List.append_nil _).symm⟩
    | moved l m p s' hp hloops hb =>
      rw [hb]
      exact hsame rfl
    | saved l write attempt acked b s' hl hsave hloops hb =>
      rw [hb]
      exact hsame (queue_save hsave)
    | unsaved l write attempt acked p s' hl hsave hloops hb =>
      rw [hb]
      exact hsame rfl
    | released l jobId acked s' hl hloops hb =>
      rw [hb]
      exact queue_release s.backend jobId
    | watched l e he s' hloops hb =>
      rw [hb]
      rcases he with rfl | rfl <;> exact hsame rfl

end Memory.Fleet

/-! ## In turn -/

/-- In the run from `s` to `t`, the job whose predecessors on the queue have all been taken is
the one that the next `BLMOVE` returns. -/
def Worker.Fleet.InTurn (d : Worker.Deployment) (s : Worker.Fleet) (es : List Worker.Event)
    (t : Worker.Fleet) : Prop :=
  ∀ jobId, (s.store.lists .queue)[(Worker.Fleet.fifo d).taken s es]? = some jobId →
    ∀ l, t.loops l = .polling → Worker.Fleet.Delivers d t l jobId

/-- The same in memory: the next claim takes the id, with the record it has by then. -/
def Memory.Fleet.InTurn (config : Memory.LoopIndex → Worker.PoolConfig) (s : Memory.Fleet)
    (es : List Memory.FleetEvent) (t : Memory.Fleet) : Prop :=
  ∀ jobId, s.backend.queue[(Memory.Fleet.fifo config).taken s es]? = some jobId →
    ∃ b, t.backend.claim = some (b, (t.backend.jobs jobId).map fun r =>
      { r with status := .running, attempts := r.attempts + 1 })

/-- **Jobs are delivered in the order in which they were queued.** On both backends, in every
run of the fleet from any state: a job with `k` jobs before it is what the claim after the
next `k` claims gets, and nothing that is enqueued, released, returned or reaped meanwhile
comes before it. -/
theorem deliveredInTurn (d : Worker.Deployment) (config : Memory.LoopIndex → Worker.PoolConfig)
    {s t : Worker.Fleet} {es : List Worker.Event} {s' t' : Memory.Fleet}
    {es' : List Memory.FleetEvent} (hrun : (Worker.Fleet.machine d).run s es = some t)
    (hrun' : (Memory.Fleet.machine config).run s' es' = some t') :
    Worker.Fleet.InTurn d s es t ∧ Memory.Fleet.InTurn config s' es' t' := by
  constructor
  · intro jobId hjob l hl
    have hhead := (Worker.Fleet.fifo d).head?_run hrun hjob
    refine ⟨.blmove l.process, by rw [Worker.Fleet.pending, hl]; rfl, ?_⟩
    have hcons : t.store.lists .queue = jobId :: (t.store.lists .queue).tail :=
      List.eq_cons_of_mem_head? hhead
    rw [Redis.Request.exec, Redis.blmove_cons hcons]
  · intro jobId hjob
    have hhead := (Memory.Fleet.fifo config).head?_run hrun' hjob
    have hcons : t'.backend.queue = jobId :: t'.backend.queue.tail :=
      List.eq_cons_of_mem_head? hhead
    rw [Memory.Backend.claim, hcons]
    cases hj : t'.backend.jobs jobId with
    | none => exact ⟨_, by simp only [hj]; rfl⟩
    | some r => exact ⟨_, by simp only [hj]; rfl⟩

namespace Worker.Fleet

/-- Two jobs on the queue. -/
def twoQueued : Fleet :=
  { init with store := (Redis.Store.empty.rpush .queue "j").rpush .queue "k" }

/-- A loop takes the first one, and another loop waits. -/
def firstTaken : List Event :=
  [.start loopA.pool 0, .start loopB.pool 0] ++ leases loopA ++
    [.requestCancel "k", .move loopB .poll]

end Worker.Fleet

namespace Memory.Fleet

open Worker.Fleet (anyTask job)

/-- Two jobs on the queue of the backend. -/
def twoQueued : Fleet :=
  { (machine fun _ => anyTask).init with
    backend := (Backend.empty.enqueue "j" job).enqueue "k" { job with id := "k" } }

/-- A loop takes the first one, and a third job is enqueued. -/
def firstTaken : List FleetEvent :=
  [.claim 0, .requestCancel "k", .enqueue { job with id := "l" }]

end Memory.Fleet

open Worker in
/-- On both backends the second job is next, in memory under the flag it has by then. -/
theorem deliveredInTurn_second :
    Fleet.Delivers Fleet.solo
        (((Fleet.machine Fleet.solo).run Fleet.twoQueued Fleet.firstTaken).get (by decide))
        Fleet.loopB "k" ∧
      ∃ b, (((Memory.Fleet.machine fun _ => Fleet.anyTask).run Memory.Fleet.twoQueued
          Memory.Fleet.firstTaken).get (by decide)).backend.claim =
        some (b, some { Fleet.job with
          id := "k", status := .running, attempts := 1, requestCancel := true }) := by
  have hturn := deliveredInTurn Fleet.solo (fun _ => Fleet.anyTask)
    (Option.some_get (by decide :
      ((Fleet.machine Fleet.solo).run Fleet.twoQueued Fleet.firstTaken).isSome = true)).symm
    (Option.some_get (by decide : ((Memory.Fleet.machine fun _ => Fleet.anyTask).run
      Memory.Fleet.twoQueued Memory.Fleet.firstTaken).isSome = true)).symm
  exact ⟨hturn.1 "k" (by decide) Fleet.loopB rfl, hturn.2 "k" (by decide)⟩

end TaskQueue
