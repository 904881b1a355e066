import TaskQueue.Redis.Scripts
import Mathlib.Algebra.Ring.Nat

/-!
# The reaper as one batch move

`_REAPER_SCRIPT` pops one id at a time, in two nested loops, and touches four
structures on the way. Seen from outside it is one batch move: with `dead` the
workers whose score has expired and `st.held dead` the ids on their lists, in
the order of the workers and then of each list,

- the ids among them that still have a record join the queue, in that order;
- the lists are emptied and the workers leave the liveness set;
- nothing else changes, apart from RUNNING turning into QUEUED.

`Store.reaped` is that move. `Reaping.Moved` is what any stretch of the loops
does to the queue, the records and the two counters; it composes, so the inner
loop is an induction on the drained list and the outer one on the list of dead
workers. `reaperScript_eq` is the refinement: the script computes the batch move.
-/

namespace TaskQueue.Redis

open Placement

/-- What becomes of the entry of an id that is moved. -/
def Entry.requeued (e : Entry) : Entry :=
  if e.record.status = .running then { e with record := { e.record with status := .queued } }
  else e

/-- Requeuing touches nothing but a RUNNING status. -/
theorem Entry.requeued_eq (e : Entry) :
    e.requeued = { e with record := { e.record with
      status := if e.record.status = .running then .queued else e.record.status } } := by
  unfold requeued
  split <;> rfl

theorem Entry.requeued_requeued (e : Entry) : e.requeued.requeued = e.requeued := by
  by_cases hs : e.record.status = .running
  · simp [requeued, hs]
  · simp [requeued, hs]

namespace Store

variable (st : Store)

/-- The ids on the lists of the workers `dead`. -/
def held (dead : List InstanceId) : List JobId :=
  dead.flatMap fun worker => st.lists (.processing worker)

/-- The ids among `ids` whose record exists. -/
def recorded (ids : List JobId) : List JobId :=
  ids.filter fun jobId => (st.jobs jobId).isSome

/-- **The batch move**: the leases of all workers that score at most `max` return
to the queue at once, and the workers leave the liveness set. -/
def reaped (max : Int) : Store where
  jobs jobId :=
    if jobId ∈ st.held (st.workers.upTo max) then (st.jobs jobId).map Entry.requeued
    else st.jobs jobId
  lists := Function.update
    (fun key => if ∃ worker ∈ st.workers.upTo max, key = .processing worker then []
      else st.lists key)
    .queue (st.lists .queue ++ st.recorded (st.held (st.workers.upTo max)))
  workers := st.workers.above max
  published := st.published

theorem reaped_processing (max : Int) (worker : InstanceId) :
    (st.reaped max).lists (.processing worker)
      = if worker ∈ st.workers.upTo max then [] else st.lists (.processing worker) := by
  by_cases hw : worker ∈ st.workers.upTo max <;> simp [reaped, hw]

@[simp] theorem recorded_nil : st.recorded [] = [] := rfl

@[simp] theorem recorded_append (ids ids' : List JobId) :
    st.recorded (ids ++ ids') = st.recorded ids ++ st.recorded ids' :=
  List.filter_append ids ids'

@[simp] theorem held_nil : st.held [] = [] := rfl

theorem held_cons (worker : InstanceId) (dead : List InstanceId) :
    st.held (worker :: dead) = st.lists (.processing worker) ++ st.held dead :=
  List.flatMap_cons ..

variable {st}

theorem eq_of_fields {st st' : Store} (hjobs : st.jobs = st'.jobs) (hlists : st.lists = st'.lists)
    (hworkers : st.workers = st'.workers) (hpublished : st.published = st'.published) :
    st = st' := by
  cases st
  cases st'
  cases hjobs
  cases hlists
  cases hworkers
  cases hpublished
  rfl

theorem held_append (dead dead' : List InstanceId) :
    st.held (dead ++ dead') = st.held dead ++ st.held dead' :=
  List.flatMap_append ..

theorem held_congr {st' : Store} {dead : List InstanceId}
    (h : ∀ worker ∈ dead, st'.lists (.processing worker) = st.lists (.processing worker)) :
    st'.held dead = st.held dead := by
  induction dead with
  | nil => rfl
  | cons worker dead ih =>
    rw [held_cons, held_cons, h worker (List.mem_cons_self ..),
      ih fun v hv => h v (List.mem_cons_of_mem _ hv)]

end Store

namespace Reaping

variable {r r' r'' : Reaping} {worker : InstanceId} {jobId : JobId}

/-! ## What a stretch of the loops does -/

/-- Between `r` and `r'` the ids `ids` were popped, in this order. -/
structure Moved (ids : List JobId) (r r' : Reaping) : Prop where
  jobs : ∀ jobId, r'.store.jobs jobId
    = if jobId ∈ ids then (r.store.jobs jobId).map Entry.requeued else r.store.jobs jobId
  queue : r'.store.lists .queue = r.store.lists .queue ++ r.store.recorded ids
  published : r'.store.published = r.store.published
  reclaimed : r'.reclaimed = r.reclaimed + (r.store.recorded ids).length
  total : r'.reclaimed + r'.dropped = r.reclaimed + r.dropped + ids.length

theorem Moved.refl (r : Reaping) : Moved [] r r where
  jobs _ := by simp
  queue := by simp
  published := rfl
  reclaimed := by simp
  total := by simp

/-- Popping neither creates a record nor deletes one. -/
theorem Moved.isSome {ids : List JobId} (h : Moved ids r r') (jobId : JobId) :
    (r'.store.jobs jobId).isSome = (r.store.jobs jobId).isSome := by
  rw [h.jobs]
  split
  · exact Option.isSome_map
  · rfl

theorem Moved.recorded {ids : List JobId} (h : Moved ids r r') (ids' : List JobId) :
    r'.store.recorded ids' = r.store.recorded ids' :=
  List.filter_congr fun jobId _ => by rw [h.isSome jobId]

/-- Two stretches in a row. -/
theorem Moved.trans {ids ids' : List JobId} (h : Moved ids r r') (h' : Moved ids' r' r'') :
    Moved (ids ++ ids') r r'' where
  jobs jobId := by
    rw [h'.jobs, h.jobs]
    by_cases hin : jobId ∈ ids <;> by_cases hin' : jobId ∈ ids' <;>
      simp [hin, hin', Function.comp_def, Entry.requeued_requeued]
  queue := by rw [h'.queue, h.queue, h.recorded, Store.recorded_append, List.append_assoc]
  published := h'.published.trans h.published
  reclaimed := by
    rw [h'.reclaimed, h.reclaimed, h.recorded, Store.recorded_append, List.length_append]
    omega
  total := by
    rw [h'.total, h.total, List.length_append]
    omega

/-! ## The inner loop -/

/-- The step lemma of the inner loop. -/
theorem moved_pop {rest : List JobId} (h : r.store.lists (.processing worker) = jobId :: rest) :
    Moved [jobId] r (r.pop worker) := by
  cases hj : r.store.jobs jobId with
  | none =>
    have hpop : r.pop worker = { r with
        store := r.store.lrem (.processing worker) jobId, dropped := r.dropped + 1 } := by
      simp [pop, Store.lpop_cons h, hj]
    rw [hpop]
    constructor
    · intro id
      by_cases hid : id = jobId
      · simp [hid, hj]
      · simp [hid]
    · simp [Placement.drop, Store.recorded, hj]
    · rfl
    · simp [Store.recorded, hj]
    · show r.reclaimed + (r.dropped + 1) = _
      simp
      omega
  | some e =>
    have hreq : (if e.record.status = .running then
          (r.store.lrem (.processing worker) jobId).put jobId
            { e with record := { e.record with status := .queued } }
        else r.store.lrem (.processing worker) jobId)
        = { r.store.lrem (.processing worker) jobId with
            jobs := Function.update r.store.jobs jobId (some e.requeued) } := by
      by_cases hs : e.record.status = .running
      · rw [if_pos hs, Entry.requeued, if_pos hs]
        rfl
      · rw [if_neg hs, Entry.requeued, if_neg hs, ← hj, Function.update_eq_self]
        rfl
    have hpop : r.pop worker = { r with
        store := Store.rpush { r.store.lrem (.processing worker) jobId with
          jobs := Function.update r.store.jobs jobId (some e.requeued) } .queue jobId
        reclaimed := r.reclaimed + 1 } := by
      simp only [pop, Store.lpop_cons h, Store.lrem_jobs, hj, hreq]
    rw [hpop]
    constructor
    · intro id
      by_cases hid : id = jobId
      · simp [hid, hj]
      · simp [hid]
    · simp [Placement.push, Placement.drop, Store.recorded, hj]
    · rfl
    · simp [Store.recorded, hj]
    · show r.reclaimed + 1 + r.dropped = _
      simp
      omega

/-- The inner loop pops the ids of the worker's list, in order. -/
theorem moved_drain (r : Reaping) (worker : InstanceId) :
    Moved (r.store.lists (.processing worker)) r (r.drain worker) := by
  unfold drain
  generalize hids : r.store.lists (.processing worker) = ids
  induction ids generalizing r with
  | nil => exact Moved.refl r
  | cons jobId rest ih =>
    rw [List.length_cons, Function.iterate_succ_apply]
    have hrest : (r.pop worker).store.lists (.processing worker) = rest := by
      rw [pop_own_list, hids, List.tail_cons]
    exact (moved_pop hids).trans (ih (r.pop worker) hrest)

theorem pop_frame (r : Reaping) (worker : InstanceId) :
    (r.pop worker).store.workers = r.store.workers ∧
      ∀ v ≠ worker, (r.pop worker).store.lists (.processing v) = r.store.lists (.processing v) := by
  cases h : r.store.lists (.processing worker) with
  | nil => rw [pop_nil h]; simp
  | cons jobId rest =>
    cases hj : r.store.jobs jobId with
    | none => rw [pop_dropped h hj]; simp +contextual [Placement.drop]
    | some e =>
      obtain ⟨-, hlists, hworkers⟩ := pop_reclaimed h hj
      rw [hlists, hworkers]
      simp +contextual [Placement.push, Placement.drop]

/-- The inner loop leaves the other workers' lists and the liveness set alone. -/
theorem drain_frame (r : Reaping) (worker : InstanceId) :
    (r.drain worker).store.workers = r.store.workers ∧
      ∀ v ≠ worker, (r.drain worker).store.lists (.processing v)
        = r.store.lists (.processing v) := by
  unfold drain
  generalize (r.store.lists (.processing worker)).length = n
  induction n generalizing r with
  | zero => exact ⟨rfl, fun _ _ => rfl⟩
  | succ n ih =>
    rw [Function.iterate_succ_apply]
    obtain ⟨hworkers, hlists⟩ := ih (r.pop worker)
    obtain ⟨hworkers', hlists'⟩ := pop_frame r worker
    exact ⟨hworkers.trans hworkers', fun v hv => (hlists v hv).trans (hlists' v hv)⟩

/-! ## The outer loop -/

theorem moved_reapWorker (r : Reaping) (worker : InstanceId) :
    Moved (r.store.lists (.processing worker)) r (r.reapWorker worker) :=
  { moved_drain r worker with }

theorem reapWorker_lists (r : Reaping) (worker v : InstanceId) :
    (r.reapWorker worker).store.lists (.processing v)
      = if v = worker then [] else r.store.lists (.processing v) := by
  show (r.drain worker).store.lists (.processing v) = _
  by_cases hv : v = worker
  · rw [if_pos hv, hv, drain_own_list]
  · rw [if_neg hv, (drain_frame r worker).2 v hv]

theorem reapWorker_workers (r : Reaping) (worker : InstanceId) :
    (r.reapWorker worker).store.workers = r.store.workers.remove worker := by
  show (r.drain worker).store.workers.remove worker = _
  rw [(drain_frame r worker).1]

/-- The outer loop pops the ids of all the workers' lists, worker by worker. -/
theorem moved_foldl_reapWorker {dead : List InstanceId} (hdead : dead.Nodup) (r : Reaping) :
    Moved (r.store.held dead) r (dead.foldl reapWorker r) := by
  induction dead generalizing r with
  | nil => exact Moved.refl r
  | cons worker dead ih =>
    obtain ⟨hworker, hdead⟩ := List.nodup_cons.mp hdead
    -- the lists of the workers still to come are as they were
    have hheld : (r.reapWorker worker).store.held dead = r.store.held dead := by
      refine Store.held_congr fun v hv => ?_
      rw [reapWorker_lists, if_neg]
      rintro rfl
      exact hworker hv
    have hrest := ih hdead (r.reapWorker worker)
    rw [hheld] at hrest
    rw [List.foldl_cons, Store.held_cons]
    exact (moved_reapWorker r worker).trans hrest

theorem foldl_reapWorker_lists (dead : List InstanceId) (r : Reaping) (v : InstanceId) :
    (dead.foldl reapWorker r).store.lists (.processing v)
      = if v ∈ dead then [] else r.store.lists (.processing v) := by
  induction dead generalizing r with
  | nil => simp
  | cons worker dead ih =>
    rw [List.foldl_cons, ih, reapWorker_lists]
    by_cases hv : v ∈ dead <;> by_cases hw : v = worker <;> simp [hv, hw]

theorem foldl_reapWorker_workers (dead : List InstanceId) (r : Reaping) :
    (dead.foldl reapWorker r).store.workers = dead.foldl ScoreSet.remove r.store.workers := by
  induction dead generalizing r with
  | nil => rfl
  | cons worker dead ih => rw [List.foldl_cons, ih, reapWorker_workers, List.foldl_cons]

end Reaping

/-! ## The whole script -/

section

variable (st : Store) (now workerTtl : Nat)

theorem mem_expired {st : Store} {now workerTtl : Nat} {worker : InstanceId} :
    worker ∈ expired st now workerTtl ↔
      ∃ score ≤ (now : Int) - workerTtl, toLex (score, worker) ∈ st.workers.entries :=
  ScoreSet.mem_upTo

theorem moved_reaperScript :
    Reaping.Moved (st.held (expired st now workerTtl)) ⟨st, 0, 0⟩
      (reaperScript st now workerTtl) :=
  Reaping.moved_foldl_reapWorker (st.workers.nodup_upTo _) ⟨st, 0, 0⟩

theorem reaperScript_lists (worker : InstanceId) :
    (reaperScript st now workerTtl).store.lists (.processing worker)
      = if worker ∈ expired st now workerTtl then [] else st.lists (.processing worker) :=
  Reaping.foldl_reapWorker_lists _ ⟨st, 0, 0⟩ worker

theorem reaperScript_workers :
    (reaperScript st now workerTtl).store.workers
      = (expired st now workerTtl).foldl ScoreSet.remove st.workers :=
  Reaping.foldl_reapWorker_workers _ ⟨st, 0, 0⟩

/-- **Refinement**: the two loops compute the batch move. -/
theorem reaperScript_store :
    (reaperScript st now workerTtl).store = st.reaped ((now : Int) - workerTtl) := by
  have hmoved := moved_reaperScript st now workerTtl
  have hjobs : (reaperScript st now workerTtl).store.jobs
      = (st.reaped ((now : Int) - workerTtl)).jobs := funext hmoved.jobs
  have hlists : (reaperScript st now workerTtl).store.lists
      = (st.reaped ((now : Int) - workerTtl)).lists := by
    funext key
    cases key with
    | queue => exact hmoved.queue
    | processing worker =>
      rw [reaperScript_lists, Store.reaped_processing]
      rfl
  have hworkers : (reaperScript st now workerTtl).store.workers
      = (st.reaped ((now : Int) - workerTtl)).workers := by
    rw [reaperScript_workers]
    exact ScoreSet.foldl_remove_upTo ..
  exact Store.eq_of_fields hjobs hlists hworkers hmoved.published

theorem reaperScript_reclaimed :
    (reaperScript st now workerTtl).reclaimed
      = (st.recorded (st.held (expired st now workerTtl))).length := by
  rw [(moved_reaperScript st now workerTtl).reclaimed]
  exact Nat.zero_add _

/-- No id is lost from the count: it was requeued or it was dropped. -/
theorem reaperScript_total :
    (reaperScript st now workerTtl).reclaimed + (reaperScript st now workerTtl).dropped
      = (st.held (expired st now workerTtl)).length := by
  rw [(moved_reaperScript st now workerTtl).total]
  exact Nat.zero_add _

/-- After a batch move nobody scores low enough for another. -/
theorem expired_reaped {max : Int} {workerTtl : Nat} (h : (now : Int) - workerTtl ≤ max) :
    expired (st.reaped max) now workerTtl = [] :=
  st.workers.upTo_above h

/-! ### One batch move after another -/

/-- The workers that a second move finds were not in the first. -/
theorem held_reaped (max max' : Int) :
    (st.reaped max).held ((st.workers.above max).upTo max')
      = st.held ((st.workers.above max).upTo max') := by
  refine Store.held_congr fun worker hworker => ?_
  have hnodup := st.workers.nodup_upTo (max ⊔ max')
  rw [ScoreSet.upTo_sup] at hnodup
  have hnot : worker ∉ st.workers.upTo max :=
    fun h => List.disjoint_of_nodup_append hnodup h hworker
  rw [Store.reaped_processing, if_neg hnot]

theorem recorded_reaped (max : Int) (ids : List JobId) :
    (st.reaped max).recorded ids = st.recorded ids := by
  refine List.filter_congr fun jobId _ => ?_
  show (if _ then _ else _ : Option Entry).isSome = _
  split
  · exact Option.isSome_map
  · rfl

/-- What two moves append, one after the other. -/
theorem recorded_sup (max max' : Int) :
    st.recorded (st.held (st.workers.upTo (max ⊔ max')))
      = st.recorded (st.held (st.workers.upTo max)) ++
        (st.reaped max).recorded ((st.reaped max).held ((st.reaped max).workers.upTo max')) := by
  show _ = _ ++ (st.reaped max).recorded ((st.reaped max).held ((st.workers.above max).upTo max'))
  rw [recorded_reaped, held_reaped, ScoreSet.upTo_sup, Store.held_append, Store.recorded_append]

/-- Two batch moves are one. -/
theorem reaped_reaped (max max' : Int) :
    (st.reaped max).reaped max' = st.reaped (max ⊔ max') := by
  have hupTo := st.workers.upTo_sup max max'
  have hjobs : ((st.reaped max).reaped max').jobs = (st.reaped (max ⊔ max')).jobs := by
    funext jobId
    show (if jobId ∈ (st.reaped max).held ((st.workers.above max).upTo max') then
        ((st.reaped max).jobs jobId).map Entry.requeued else (st.reaped max).jobs jobId) =
      if jobId ∈ st.held (st.workers.upTo (max ⊔ max')) then (st.jobs jobId).map Entry.requeued
      else st.jobs jobId
    rw [held_reaped, hupTo, Store.held_append]
    show (if _ then Option.map _ (if _ then _ else _) else if _ then _ else _) = _
    by_cases h : jobId ∈ st.held (st.workers.upTo max)
    · by_cases h' : jobId ∈ st.held ((st.workers.above max).upTo max')
      · simp [h, h', Function.comp_def, Entry.requeued_requeued]
      · simp [h, h']
    · simp [h]
  have hlists : ((st.reaped max).reaped max').lists = (st.reaped (max ⊔ max')).lists := by
    funext key
    cases key with
    | queue =>
      show (st.reaped max).lists .queue ++ (st.reaped max).recorded _ = st.lists .queue ++ _
      rw [recorded_sup, ← List.append_assoc]
      rfl
    | processing worker =>
      rw [Store.reaped_processing, Store.reaped_processing, Store.reaped_processing, hupTo]
      show (if worker ∈ (st.workers.above max).upTo max' then _ else _) = _
      by_cases h : worker ∈ st.workers.upTo max
      · simp [h]
      · simp [h]
  have hworkers : ((st.reaped max).reaped max').workers = (st.reaped (max ⊔ max')).workers :=
    st.workers.above_above max max'
  exact Store.eq_of_fields hjobs hlists hworkers rfl

end

/-- `RedisBackend.reap` of a backend built with `worker_ttl`: the store it leaves and
the number it returns. -/
def reap (st : Store) (now workerTtl : Nat) : Store × Nat :=
  let r := reaperScript st now workerTtl
  (r.store, r.reclaimed)

/-- Callers reaping one after another at one clock value, each with the `worker_ttl` its
own backend was built with; the replies in order. -/
def reaps (now : Nat) : Store → List Nat → Store × List Nat
  | st, [] => (st, [])
  | st, workerTtl :: callers =>
    let (st, reclaimed) := reap st now workerTtl
    let (st, replies) := reaps now st callers
    (st, reclaimed :: replies)

/-- Callers that find nobody expired change nothing and return 0. -/
theorem reaps_of_none_expired {now : Nat} {st : Store} {callers : List Nat}
    (h : ∀ workerTtl ∈ callers, expired st now workerTtl = []) :
    reaps now st callers = (st, List.replicate callers.length 0) := by
  induction callers with
  | nil => rfl
  | cons workerTtl callers ih =>
    have hreap : reap st now workerTtl = (st, 0) := by
      simp [reap, reaperScript, h workerTtl (List.mem_cons_self ..)]
    simp only [reaps, hreap, ih fun ttl httl => h ttl (List.mem_cons_of_mem _ httl)]
    rfl

theorem reap_eq (st : Store) (now workerTtl : Nat) :
    reap st now workerTtl = (st.reaped ((now : Int) - workerTtl),
      (st.recorded (st.held (st.workers.upTo ((now : Int) - workerTtl)))).length) :=
  Prod.ext (reaperScript_store st now workerTtl) (reaperScript_reclaimed st now workerTtl)

/-- Callers with any values of `worker_ttl` move together what the least of them moves alone. -/
theorem reaps_eq_least (now : Nat) (st : Store) (workerTtl : Nat) (callers : List Nat) :
    (reaps now st (workerTtl :: callers)).1 = (reap st now (callers.foldl min workerTtl)).1 ∧
      (reaps now st (workerTtl :: callers)).2.sum
        = (reap st now (callers.foldl min workerTtl)).2 := by
  induction callers generalizing st workerTtl with
  | nil => exact ⟨rfl, Nat.add_zero _⟩
  | cons ttl callers ih =>
    obtain ⟨hstore, hsum⟩ := ih (reap st now workerTtl).1 ttl
    have hleast : (ttl :: callers).foldl min workerTtl = min workerTtl (callers.foldl min ttl) :=
      List.foldl_assoc
    generalize callers.foldl min ttl = least at hstore hsum hleast
    have hcutoff : (now : Int) - (min workerTtl least : Nat)
        = ((now : Int) - workerTtl) ⊔ ((now : Int) - least) := by
      omega
    rw [hleast, reap_eq st now (min workerTtl least), hcutoff]
    rw [reap_eq st now workerTtl, reap_eq] at hstore hsum
    constructor
    · show (reaps now (reap st now workerTtl).1 (ttl :: callers)).1 = _
      rw [reap_eq st now workerTtl, hstore]
      exact reaped_reaped st _ _
    · show ((reap st now workerTtl).2 ::
        (reaps now (reap st now workerTtl).1 (ttl :: callers)).2).sum = _
      rw [List.sum_cons, reap_eq st now workerTtl, hsum]
      exact (congrArg List.length (recorded_sup st _ _)).trans (List.length_append ..) |>.symm

/-- **`reap` moves exactly the expired workers' leases, once.** For every store, clock
and `worker_ttl`: the ids on the lists of the workers that score at most
`now - worker_ttl` and that have a record join the queue, worker by worker in the order of
the liveness set and each list in its own order; those lists are
emptied and those workers leave the set, with every other score kept; no other list, no
channel and no record changes, except that a moved id's RUNNING becomes QUEUED; the
reply is the number appended, and with the dropped ones it is the length of the drained
lists. Callers that follow at that clock value and whose `worker_ttl` is not smaller change
nothing and return 0; with any values, all of them together do what the one with the smallest
does alone, and their replies add up to its reply. -/
theorem reap_moves_expired_leases_once (st : Store) (now workerTtl : Nat) :
    (∀ worker, worker ∈ expired st now workerTtl ↔
        ∃ score ≤ (now : Int) - workerTtl, toLex (score, worker) ∈ st.workers.entries) ∧
      (expired st now workerTtl).Nodup ∧ (expired st now workerTtl).Sublist st.workers.members ∧
      (reap st now workerTtl).1.lists .queue
        = st.lists .queue ++ ((expired st now workerTtl).flatMap fun worker =>
            st.lists (.processing worker)).filter (fun jobId => (st.jobs jobId).isSome) ∧
      (∀ worker, (reap st now workerTtl).1.lists (.processing worker)
        = if worker ∈ expired st now workerTtl then [] else st.lists (.processing worker)) ∧
      (reap st now workerTtl).1.workers.entries
        = st.workers.entries.filter (fun e => (ofLex e).2 ∉ expired st now workerTtl) ∧
      (∀ jobId, (reap st now workerTtl).1.jobs jobId
        = if ∃ worker ∈ expired st now workerTtl, jobId ∈ st.lists (.processing worker)
          then (st.jobs jobId).map fun e => { e with record := { e.record with
            status := if e.record.status = .running then .queued else e.record.status } }
          else st.jobs jobId) ∧
      (reap st now workerTtl).1.published = st.published ∧
      (reap st now workerTtl).2
        = (((expired st now workerTtl).flatMap fun worker => st.lists (.processing worker)).filter
            (fun jobId => (st.jobs jobId).isSome)).length ∧
      (reap st now workerTtl).2 + (reaperScript st now workerTtl).dropped
        = ((expired st now workerTtl).map fun worker =>
            (st.lists (.processing worker)).length).sum ∧
      ∀ callers : List Nat,
        ((∀ ttl ∈ callers, workerTtl ≤ ttl) → reaps now st (workerTtl :: callers)
          = ((reap st now workerTtl).1,
              (reap st now workerTtl).2 :: List.replicate callers.length 0)) ∧
        (reaps now st (workerTtl :: callers)).1 = (reap st now (callers.foldl min workerTtl)).1 ∧
        (reaps now st (workerTtl :: callers)).2.sum
          = (reap st now (callers.foldl min workerTtl)).2 := by
  have hmoved := moved_reaperScript st now workerTtl
  have hstore := reaperScript_store st now workerTtl
  refine ⟨fun _ => mem_expired, st.workers.nodup_upTo _, List.filter_sublist.map _,
    hmoved.queue, reaperScript_lists st now workerTtl, ?_, fun jobId => ?_,
    hmoved.published, reaperScript_reclaimed st now workerTtl, ?_,
    fun callers => ⟨fun hcallers => ?_, reaps_eq_least now st workerTtl callers⟩⟩
  · show (reaperScript st now workerTtl).store.workers.entries = _
    rw [reaperScript_workers, ScoreSet.foldl_remove_entries]
  · show (reaperScript st now workerTtl).store.jobs jobId = _
    rw [hmoved.jobs, funext Entry.requeued_eq]
    simp only [Store.held, List.mem_flatMap]
  · rw [← List.length_flatMap]
    exact reaperScript_total st now workerTtl
  · have hrest : reaps now (reap st now workerTtl).1 callers
        = ((reap st now workerTtl).1, List.replicate callers.length 0) := by
      refine reaps_of_none_expired fun ttl httl => ?_
      show expired (reaperScript st now workerTtl).store now ttl = []
      rw [hstore]
      have := hcallers ttl httl
      exact expired_reaped st now (by omega)
    rw [reaps]
    simp only [hrest]

/-- The record of a job that was claimed. -/
def silentJob (jobId : JobId) : Record where
  id := jobId
  taskName := "task"
  createdAt := "0"
  status := .running
  attempts := 1
  requestCancel := false
  payload := []
  groupId := none
  error := none
  result := none

/-- Two workers beat at 0 and at 5, and each holds a lease. -/
def twoSilent : Store :=
  { Store.empty with
    jobs := fun jobId =>
      if jobId = "a" ∨ jobId = "b" then some ⟨silentJob jobId, none⟩ else none
    lists := fun key =>
      if key = .processing "w" then ["a"] else if key = .processing "v" then ["b"] else []
    workers := (ScoreSet.empty.add 0 "w").add 5 "v" }

/-- A caller with a smaller `worker_ttl` finds another worker expired. -/
theorem reaps_smallerTtl : ¬ ∀ (st : Store) (now workerTtl : Nat) (callers : List Nat),
    reaps now st (workerTtl :: callers) = ((reap st now workerTtl).1,
      (reap st now workerTtl).2 :: List.replicate callers.length 0) := by
  intro h
  have hreplies := congrArg Prod.snd (h twoSilent 10 10 [5])
  revert hreplies
  decide

end TaskQueue.Redis
