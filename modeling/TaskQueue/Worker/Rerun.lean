import TaskQueue.Worker.Delivery

/-!
# A body that is run again (`_child_id`, `JobGroup.spawn`, `take_result`)

A task body spawns children and waits for their results, in a fixed order. The worker
that runs it dies somewhere on the way, the waiters of its scopes die with it, and the
job is delivered again once the first body is gone. The n-th spawn of a body has the
same id in both deliveries, and an enqueue ignores an id that it knows.

It knows an id while its record is stored. A child whose result was taken before the
crash (or has expired) is enqueued anew and runs again.

- `Fleet.Startable`: the deliveries of a job that may still start its body; in a fleet
  whose workers do not fail, only an enqueue adds one (`startable_of_step`).
- `ranOnce_along`: when each spawn of a known child finds its record still there, every
  child runs at most once over both deliveries.
-/

namespace TaskQueue.Worker

open Redis Placement

namespace Fleet

variable (d : Deployment) {s s' : Fleet} {e : Event} {jobId : JobId}

/-! ## Bodies that start -/

/-- The job whose body an event starts. -/
def bodyStart (s : Fleet) : Event → Option JobId
  | .move l m =>
    match s.loops l, (s.loops l).move (d.config l.pool) m with
    | .decoding record, some (.running _) => some record.id
    | _, _ => none
  | _ => none

/-- The body of `jobId` may still be started without another enqueue or requeue. -/
def Startable (s : Fleet) (jobId : JobId) : Prop :=
  (∃ e, s.store.jobs jobId = some e ∧ e.record.status = .queued) ∨
    ∃ l record, s.loops l = .decoding record ∧ record.id = jobId

/-- The workers do not fail: every round trip is answered, no loop is cancelled, and no
worker is reaped. -/
def unfailing (s : Fleet) : Event → Bool
  | .crash _ => false
  | .move _ m => m ≠ .cancel
  | .roundTrip _ o => o = .reply
  | .reap worker now => expired s.store now (d.ttls worker).workerTtl = []
  | _ => true

/-- No worker has crashed, and no loop is handing a job back. -/
structure Unfailed (s : Fleet) : Prop where
  up : ∀ worker, s.crashed worker = false
  kept : ∀ l jobId acked, s.loops l ≠ .releasing jobId acked

theorem unfailed_init : Unfailed init where
  up _ := rfl
  kept _ _ _ h := by cases h

variable {d}

theorem crashed_of_step (h : s.step d e = some s') (he : ∀ worker, e ≠ .crash worker) :
    s'.crashed = s.crashed := by
  cases e with
  | crash worker => exact absurd rfl (he worker)
  | move l m =>
    simp only [step, Option.ite_none_right_eq_some, Option.map_eq_some_iff] at h
    obtain ⟨-, p, -, rfl⟩ := h
    rfl
  | enqueue _ | requestCancel _ | expire _ =>
    cases h
    rfl
  | check c | fetch c =>
    simp only [step] at h
    split at h
    · cases h
      rfl
    · cases h
  | _ =>
    simp only [step, Option.ite_none_right_eq_some, Option.some.injEq] at h
    obtain ⟨-, rfl⟩ := h
    rfl

/-- Only a cancelled loop hands its job back. -/
theorem move_not_releasing {c : PoolConfig} {p p' : Phase} {m : Move}
    (h : p.move c m = some p') (hm : m ≠ .cancel) (id : JobId) (acked : Bool) :
    p' ≠ .releasing id acked := by
  rintro rfl
  cases p with
  | decoding record =>
    rcases Phase.move_decoding h with ⟨hp, -⟩ | ⟨payload, o, hp⟩ | hp <;> cases hp
  | running record =>
    cases m with
    | cancel => exact hm rfl
    | _ => cases h
  | unwinding jobId acked | dying jobId =>
    cases m with
    | cancel => exact hm rfl
    | _ => cases h
  | _ => cases m <;> cases h

theorem resume_not_releasing {p : Phase} {r : Reply} (hp : ∀ id acked, p ≠ .releasing id acked)
    (id : JobId) (acked : Bool) : p.resume .reply r ≠ .releasing id acked := by
  cases p with
  | polling => cases r <;> simp [Phase.resume]
  | claiming jobId => cases r <;> simp [Phase.resume]
  | saving write attempt acked =>
    simp only [Phase.resume]
    split
    · cases attempt <;> simp [Phase.saveDone]
    · cases attempt <;> simp [Phase.saveFailed]
  | releasing jobId acked => exact absurd rfl (hp jobId acked)
  | _ => simp [Phase.resume]

theorem Unfailed.step (hs : s.Unfailed) (h : s.step d e = some s') (he : unfailing d s e = true) :
    s'.Unfailed := by
  constructor
  · intro worker
    rw [crashed_of_step h]
    · exact hs.up worker
    · rintro w rfl
      cases he
  · intro l id acked
    cases stepOf d h with
    | moved l' m p hlive hadm hp =>
      have hm : m ≠ .cancel := by simpa [unfailing] using he
      by_cases hl : l = l'
      · subst hl
        simp only [Function.update_self]
        exact move_not_releasing hp hm id acked
      · simp only [Function.update_of_ne hl]
        exact hs.kept l id acked
    | answered l' o q hup hq hend =>
      obtain rfl : o = .reply := by simpa [unfailing] using he
      by_cases hl : l = l'
      · subst hl
        simp only [Function.update_self]
        exact resume_not_releasing (hs.kept l) id acked
      · simp only [Function.update_of_ne hl]
        exact hs.kept l id acked
    | elsewhere e s' hm hr hloops hstore hcrash =>
      rw [hloops]
      exact hs.kept l id acked

/-- What does not fail is in order. -/
theorem deadStayDead_of_unfailing (he : unfailing d s e = true) : deadStayDead d s e = true := by
  cases e with
  | roundTrip l o => exact he
  | reap worker now =>
    have hnone : expired s.store now (d.ttls worker).workerTtl = [] := by simpa [unfailing] using he
    simp [deadStayDead, hnone]
  | _ => rfl

theorem settledOnly_of_unfailed (hs : s.Unfailed) (hfetch : ∀ c, e ≠ .fetch c) :
    settledOnly s e = true := by
  cases e with
  | fetch c => exact absurd rfl (hfetch c)
  | roundTrip l o =>
    simp only [settledOnly]
    split
    · rename_i id hl
      exact absurd hl (hs.kept l id true)
    · rfl
  | _ => rfl

/-! ## What may still start -/

/-- A reap that finds no worker expired does nothing. -/
theorem reap_idle {st : Store} {now ttl : Nat} (h : expired st now ttl = []) :
    (Request.reap now ttl).after st = st := by
  simp [Request.after, Request.exec, reaperScript, h]

/-- No request of an unfailing fleet puts a record back to QUEUED. -/
theorem not_requeues (hs : s.Unfailed) (he : unfailing d s e = true) {q : Request}
    (hq : s.request d e = some q) :
    (∀ id, ¬ q.Requeues id) ∨ q.after s.store = s.store := by
  cases e with
  | roundTrip l o =>
    left
    intro id hreq
    simp only [request, Option.ite_none_right_eq_some] at hq
    have hpending := hq.2
    simp only [pending] at hpending
    cases hp : s.loops l with
    | releasing jobId acked => exact hs.kept l jobId acked hp
    | _ =>
      rw [hp] at hpending
      cases hpending <;> exact hreq
  | reap worker now =>
    cases hq
    right
    have hnone : expired s.store now (d.ttls worker).workerTtl = [] := by simpa [unfailing] using he
    exact reap_idle hnone
  | fetch c =>
    simp only [request] at hq
    split at hq
    · cases hq
      exact Or.inl fun _ h => h
    · cases hq
  | crash _ | drain _ | move _ _ | take _ _ | check _ => cases hq
  | _ =>
    cases hq
    exact Or.inl fun _ h => h

/-- A QUEUED record was QUEUED before, or an enqueue has created it. -/
theorem queued_of_step (hs : s.Unfailed) (h : s.step d e = some s') (he : unfailing d s e = true)
    {x : Entry} (hx : s'.store.jobs jobId = some x) (hqueued : x.record.status = .queued) :
    (∃ y, s.store.jobs jobId = some y ∧ y.record.status = .queued) ∨
      ∃ record, s.request d e = some (.enqueue record) ∧ record.id = jobId ∧
        s.store.jobs jobId = none := by
  rw [step_store d h] at hx
  cases hq : s.request d e with
  | none =>
    rw [hq] at hx
    exact Or.inl ⟨x, hx, hqueued⟩
  | some q =>
    rw [hq] at hx
    rcases not_requeues hs he hq with hnot | hidle
    · have hstep := q.recordStep s.store jobId
      have hx' : (q.after s.store).jobs jobId = some x := hx
      rw [hx'] at hstep
      generalize hold : s.store.jobs jobId = old at hstep
      cases hstep with
      | same => exact Or.inl ⟨x, rfl, hqueued⟩
      | created record heq hid =>
        subst heq
        exact Or.inr ⟨record, rfl, hid, rfl⟩
      | claimed y heq => cases hqueued
      | saved worker write ttl y heq hid =>
        have ht : write.record.status.terminal = true := write.terminal
        have hsame : write.record.status = .queued := hqueued
        rw [hsame] at ht
        cases ht
      | requeued y heq hrun => exact absurd heq (hnot jobId)
      | flagged y heq ht => exact Or.inl ⟨y, rfl, hqueued⟩
    · have hx' : (q.after s.store).jobs jobId = some x := hx
      rw [hidle] at hx'
      exact Or.inl ⟨x, hx', hqueued⟩

/-- A loop comes to decode a record by the reply of its claim only. -/
theorem resume_decoding {p : Phase} {r : Reply} {record : Record}
    (h : p.resume .reply r = .decoding record) :
    p = .decoding record ∨ ∃ id, p = .claiming id ∧ r = .record record := by
  cases p with
  | polling => cases r <;> cases h
  | claiming id =>
    cases r with
    | record r' =>
      cases h
      exact Or.inr ⟨id, rfl, rfl⟩
    | _ => cases h
  | saving write attempt acked =>
    by_cases hr : r = .code 1
    · cases attempt <;> simp [Phase.resume, Phase.saveDone, hr] at h
    · cases attempt <;> simp [Phase.resume, Phase.saveFailed, hr] at h
  | decoding record' => exact Or.inl h
  | _ => cases h

theorem move_not_decoding {c : PoolConfig} {p p' : Phase} {m : Move}
    (h : p.move c m = some p') (record : Record) : p' ≠ .decoding record := by
  rintro rfl
  cases p with
  | decoding r =>
    rcases Phase.move_decoding h with ⟨hp, -⟩ | ⟨payload, o, hp⟩ | hp <;> cases hp
  | _ => cases m <;> cases h

/-- A loop that decodes a record has claimed it, QUEUED, a step ago. -/
theorem decoding_of_step (hs : s.Unfailed) (hin : s.InOrder) (h : s.step d e = some s')
    (he : unfailing d s e = true) {l : LoopId} {record : Record}
    (hl : s'.loops l = .decoding record) :
    s.loops l = .decoding record ∨
      ∃ y, s.store.jobs record.id = some y ∧ y.record.status = .queued := by
  cases stepOf d h with
  | moved l' m p hlive hadm hp =>
    by_cases hll : l = l'
    · subst hll
      simp only [Function.update_self] at hl
      exact absurd hl (move_not_decoding hp record)
    · simp only [Function.update_of_ne hll] at hl
      exact Or.inl hl
  | answered l' o q hup hq hend =>
    obtain rfl : o = .reply := by simpa [unfailing] using he
    by_cases hll : l = l'
    · subst hll
      simp only [Function.update_self] at hl
      rcases resume_decoding hl with hold | ⟨id, hphase, hreply⟩
      · exact Or.inl hold
      · right
        have hdelivery : (s.loops l).delivery = some id := by
          rw [hphase]
          rfl
        obtain ⟨-, y, hy, hqueued⟩ := hin.leased l id (hs.up _) hdelivery
        rw [hphase] at hqueued
        simp only [pending, hphase, Phase.request, Option.some.injEq] at hq
        subst hq
        have hrecord : record = claimed y.record := by
          simpa [serve, Request.exec, claimScript_of_some hy, Reply.ofRecord, Outcome.effect]
            using hreply.symm
        have hid : record.id = id := by
          rw [hrecord]
          exact hin.keyed id y hy
        exact ⟨y, by rw [hid]; exact hy, hqueued⟩
    · simp only [Function.update_of_ne hll] at hl
      exact Or.inl hl
  | elsewhere e s' hm hr hloops hstore hcrash =>
    rw [hloops] at hl
    exact Or.inl hl

/-- **What may still start was there before**, unless an enqueue has just created it. -/
theorem startable_of_step (hs : s.Unfailed) (hin : s.InOrder) (h : s.step d e = some s')
    (he : unfailing d s e = true) (hstart : s'.Startable jobId) :
    s.Startable jobId ∨ ∃ record, s.request d e = some (.enqueue record) ∧ record.id = jobId ∧
      s.store.jobs jobId = none := by
  rcases hstart with ⟨x, hx, hqueued⟩ | ⟨l, record, hl, rfl⟩
  · rcases queued_of_step hs h he hx hqueued with hold | hnew
    · exact Or.inl (Or.inl hold)
    · exact Or.inr hnew
  · rcases decoding_of_step hs hin h he hl with hold | hqueued
    · exact Or.inl (Or.inr ⟨l, record, hold, rfl⟩)
    · exact Or.inl (Or.inl hqueued)

/-- A body that starts was startable, and is so no longer. -/
theorem startable_of_bodyStart (hs : s.Unfailed) (hin : s.InOrder) (h : s.step d e = some s')
    (hstart : bodyStart d s e = some jobId) : s.Startable jobId ∧ ¬ s'.Startable jobId := by
  cases e with
  | move l m =>
    simp only [bodyStart] at hstart
    split at hstart
    · rename_i record record' hl hmove
      cases hstart
      simp only [step, Option.ite_none_right_eq_some, Option.map_eq_some_iff] at h
      obtain ⟨-, p, hp, rfl⟩ := h
      rw [hmove] at hp
      cases hp
      have hdelivery : (s.loops l).delivery = some record.id := by
        rw [hl]
        rfl
      refine ⟨Or.inr ⟨l, record, hl, rfl⟩, ?_⟩
      rintro (⟨x, hx, hqueued⟩ | ⟨l', r, hl', hid⟩)
      · -- the loop holds the job, so its record is RUNNING
        obtain ⟨-, y, hy, hrunning⟩ := hin.leased l record.id (hs.up _) hdelivery
        rw [hl] at hrunning
        cases hx.symm.trans hy
        rw [hqueued] at hrunning
        cases hrunning
      · by_cases hll : l' = l
        · subst hll
          simp only [Function.update_self] at hl'
          cases hl'
        · -- nobody else holds it
          simp only [Function.update_of_ne hll] at hl'
          refine hin.disjoint l l' record.id (hs.up _) (hs.up _) (Ne.symm hll) hdelivery ?_
          rw [hl', ← hid]
          rfl
    · cases hstart
  | _ => cases hstart

/-- An event creates a record, and starts an incarnation, or leaves `born` alone. -/
theorem born_of_step (h : s.step d e = some s') :
    (∃ record, e = .enqueue record ∧ s.store.jobs record.id = none ∧
        s'.born = Function.update s.born record.id (s.born record.id + 1)) ∨
      (∀ record, e = .enqueue record → s.store.jobs record.id ≠ none) ∧ s'.born = s.born := by
  cases e with
  | enqueue record =>
    cases hj : s.store.jobs record.id with
    | none =>
      left
      refine ⟨record, rfl, hj, ?_⟩
      simp only [step, request, serve, Request.exec, enqueueScript_of_none hj,
        Option.some.injEq] at h
      subst h
      simp
    | some x =>
      right
      constructor
      · rintro _ ⟨⟩
        rw [hj]
        simp
      · simp only [step, request, serve, Request.exec, enqueueScript_of_some hj,
          Option.some.injEq] at h
        subst h
        simp
  | take c jobId =>
    simp only [step, Option.ite_none_right_eq_some, Option.some.injEq] at h
    obtain ⟨-, rfl⟩ := h
    exact Or.inr ⟨by simp, rfl⟩
  | check c | fetch c =>
    simp only [step] at h
    split at h
    · cases h
      exact Or.inr ⟨by simp, rfl⟩
    · cases h
  | _ =>
    exact Or.inr ⟨by simp, (step_clients d h (by simp) (by simp) (by simp) (by simp)).2⟩

/-- A stored job was created. -/
theorem known_of_step (hknown : ∀ id, s.store.jobs id ≠ none → s.born id ≠ 0)
    (h : s.step d e = some s') (hstored : s'.store.jobs jobId ≠ none) : s'.born jobId ≠ 0 := by
  have hstore := step_store d h
  rcases born_of_step h with ⟨record, rfl, hnone, hborn⟩ | ⟨hold, hborn⟩
  · rw [hborn]
    by_cases hid : jobId = record.id
    · subst hid
      simp
    · rw [Function.update_of_ne hid]
      refine hknown jobId ?_
      rw [hstore] at hstored
      have hne : (Request.enqueue record).target s.store ≠ some jobId := by
        simpa [Request.target] using Ne.symm hid
      have hframe := (Request.enqueue record).frame s.store (by simp) hne
      have hstored' : ((Request.enqueue record).after s.store).jobs jobId ≠ none := hstored
      rwa [hframe.1] at hstored'
  · rw [hborn]
    refine hknown jobId ?_
    rw [hstore] at hstored
    cases hq : s.request d e with
    | none =>
      rw [hq] at hstored
      exact hstored
    | some q =>
      rw [hq] at hstored
      by_cases henq : ∃ record, q = .enqueue record
      · obtain ⟨record, rfl⟩ := henq
        obtain ⟨x, hx⟩ := Option.ne_none_iff_exists'.mp (hold record (enqueue_of_request d hq))
        have hsame : (Request.enqueue record).after s.store = s.store := after_enqueue_some hx
        have hstored' : ((Request.enqueue record).after s.store).jobs jobId ≠ none := hstored
        rwa [hsame] at hstored'
      · have hsome : ((q.after s.store).jobs jobId).isSome = true := by
          rw [Option.isSome_iff_ne_none]
          exact hstored
        rw [← Option.isSome_iff_ne_none]
        exact q.stored_of_after (fun record heq => absurd ⟨record, heq⟩ henq) hsome

/-- A settled job of a fleet in order stays settled, but for an enqueue that creates it. -/
theorem settled_of_step (hin : s.InOrder) (hs : s.Unfailed) (h : s.step d e = some s')
    (hset : s.store.Settled jobId)
    (henq : ∀ record, e = .enqueue record → record.id = jobId → s.store.jobs jobId ≠ none) :
    s'.store.Settled jobId := by
  rw [step_store d h]
  cases hq : s.request d e with
  | none => exact hset
  | some q =>
    refine q.settled hset fun hrevives => ?_
    cases q with
    | enqueue record =>
      exact henq record (enqueue_of_request d hq) hrevives.1 hrevives.2
    | claim id =>
      obtain ⟨rfl, hstored⟩ := hrevives
      -- a loop that claims the job has found it QUEUED
      obtain ⟨l, o, -, -, hl⟩ := claiming_of_request d hq
      have hdelivery : (s.loops l).delivery = some id := by
        rw [hl]
        rfl
      obtain ⟨-, y, hy, hqueued⟩ := hin.leased l id (hs.up _) hdelivery
      have ht := hset y hy
      rw [hl] at hqueued
      rw [hqueued] at ht
      cases ht
    | _ => exact hrevives

/-- One more start of `jobId`, if there is one. -/
def count (starts : JobId → Nat) : Option JobId → JobId → Nat
  | some jobId => Function.update starts jobId (starts jobId + 1)
  | none => starts

/-- Each start, and each delivery that may still start, has an enqueue of its own. -/
def Bounded (s : Fleet) (starts : JobId → Nat) : Prop :=
  ∀ jobId, starts jobId ≤ s.born jobId ∧ (s.Startable jobId → starts jobId + 1 ≤ s.born jobId)

theorem Bounded.step {starts : JobId → Nat} (hb : s.Bounded starts) (hs : s.Unfailed)
    (hin : s.InOrder) (h : s.step d e = some s') (he : unfailing d s e = true) :
    s'.Bounded (count starts (bodyStart d s e)) := by
  intro id
  obtain ⟨hle, hlt⟩ := hb id
  have hgrows : s.born id ≤ s'.born id := by
    rcases born_of_step h with ⟨record, -, -, hborn⟩ | ⟨-, hborn⟩
    · rw [hborn]
      by_cases hid : id = record.id
      · subst hid
        simp
      · rw [Function.update_of_ne hid]
    · rw [hborn]
  cases hstart : bodyStart d s e with
  | none =>
    simp only [count]
    refine ⟨hle.trans hgrows, fun hafter => ?_⟩
    rcases startable_of_step hs hin h he hafter with hbefore | ⟨record, hq, rfl, hnone⟩
    · exact (hlt hbefore).trans hgrows
    · -- the enqueue has counted one more incarnation
      obtain rfl := enqueue_of_request d hq
      rcases born_of_step h with ⟨r, heq, -, hborn⟩ | ⟨hold, -⟩
      · cases heq
        rw [hborn, Function.update_self]
        omega
      · exact absurd hnone (hold record rfl)
  | some jobId =>
    simp only [count]
    obtain ⟨hbefore, hafter⟩ := startable_of_bodyStart hs hin h hstart
    by_cases hid : id = jobId
    · subst hid
      rw [Function.update_self]
      have hcount : starts id + 1 ≤ s.born id := hlt hbefore
      exact ⟨hcount.trans hgrows, fun hstill => absurd hstill hafter⟩
    · rw [Function.update_of_ne hid]
      refine ⟨hle.trans hgrows, fun hstill => ?_⟩
      rcases startable_of_step hs hin h he hstill with hold | ⟨record, hq, -, -⟩
      · exact (hlt hold).trans hgrows
      · -- a body does not start at an enqueue
        obtain rfl := enqueue_of_request d hq
        cases hstart

end Fleet

/-! ## A parent and its two deliveries -/

/-- What a body does next: spawn a child, or wait for the result of its n-th child. -/
inductive Op where
  | spawn
  | await (ordinal : Nat)
deriving DecidableEq

/-- A parent job. `digest` is `sha1(...).hexdigest()[:32]`, `JobContext._spawns` counts
from 0. -/
structure Parent where
  jobId : JobId
  digest : String → String
  body : List Op

namespace Parent

/-- `_child_id`. -/
def childId (p : Parent) (ordinal : Nat) : JobId := p.digest (p.jobId ++ ":" ++ toString ordinal)

/-- How many children the body spawns. -/
def spawns (p : Parent) : Nat := p.body.count .spawn

/-- The id is one of the children's. -/
def IsChild (p : Parent) (jobId : JobId) : Prop := ∃ n < p.spawns, p.childId n = jobId

instance (p : Parent) (jobId : JobId) : Decidable (p.IsChild jobId) :=
  inferInstanceAs (Decidable (∃ n < p.spawns, _))

end Parent

/-- The call of `take_result` by which a delivery waits for its n-th child: `JobHandle`
makes one call, whoever asks it. -/
def callOf (again : Bool) (ordinal : Nat) : CallId := 2 * ordinal + again.toNat

/-- The fleet, and the parent in its first or (`again`) its second delivery: what its
body has still to do, and the ordinal of its next spawn. `starts` counts the bodies
started per job. -/
structure Rerun where
  fleet : Fleet
  again : Bool
  alive : Bool
  todo : List Op
  ordinal : Nat
  starts : JobId → Nat

/-- A move of the fleet, or of the parent: its body spawns or comes back from an await, a
waiter of the delivery goes on in `take_result`, the worker dies, the job is delivered
again. -/
inductive RerunEvent where
  | fleet (e : Event)
  | spawn (record : Record)
  | awaited
  | take (ordinal : Nat)
  | check (ordinal : Nat)
  | fetch (ordinal : Nat)
  | die
  | redeliver
deriving DecidableEq

/-- The call has ended. -/
def CallPhase.over : CallPhase → Bool
  | .returned _ | .missing _ => true
  | _ => false

namespace Parent

variable (p : Parent) (d : Deployment)

/-- What the rest of the fleet does: the workers do not fail, and nobody else enqueues or
takes a child. -/
def others (s : Fleet) (e : Event) : Bool :=
  s.unfailing d e &&
    match e with
    | .enqueue record => ¬ p.IsChild record.id
    | .take _ _ | .check _ | .fetch _ => false
    | _ => true

/-- A step of the fleet on behalf of the parent. -/
def onFleet (s : Rerun) (e : Event) : Option Rerun :=
  (s.fleet.step d e).map fun f =>
    { s with fleet := f, starts := Fleet.count s.starts (s.fleet.bodyStart d e) }

/-- One event. -/
def step (s : Rerun) : RerunEvent → Option Rerun
  | .fleet e => if p.others d s.fleet e then onFleet d s e else none
  | .spawn record =>
    match s.todo with
    | .spawn :: rest =>
      if s.alive ∧ record.id = p.childId s.ordinal then
        (onFleet d s (.enqueue record)).map fun s =>
          { s with todo := rest, ordinal := s.ordinal + 1 }
      else none
    | _ => none
  | .awaited =>
    match s.todo with
    | .await ordinal :: rest =>
      if s.alive ∧ (s.fleet.calls (callOf s.again ordinal)).over then
        some { s with todo := rest }
      else none
    | _ => none
  | .take ordinal =>
    if s.alive ∧ ordinal < s.ordinal then
      onFleet d s (.take (callOf s.again ordinal) (p.childId ordinal))
    else none
  | .check ordinal => if s.alive then onFleet d s (.check (callOf s.again ordinal)) else none
  | .fetch ordinal => if s.alive then onFleet d s (.fetch (callOf s.again ordinal)) else none
  | .die => if s.alive ∧ s.again = false then some { s with alive := false } else none
  | .redeliver =>
    if s.alive = false ∧ s.again = false then
      some { s with again := true, alive := true, todo := p.body, ordinal := 0 }
    else none

/-- An empty fleet, and the first delivery at the start of the body. -/
def machine : Machine Rerun RerunEvent where
  init := ⟨.init, false, true, p.body, 0, fun _ => 0⟩
  step := p.step d

/-- A spawn of a child that was enqueued before finds its record still there. -/
def Reattaches (s : Rerun) : RerunEvent → Prop
  | .spawn record => s.fleet.born record.id ≠ 0 → s.fleet.store.jobs record.id ≠ none
  | _ => True

instance (s : Rerun) (e : RerunEvent) : Decidable (Reattaches s e) := by
  cases e <;> unfold Reattaches <;> infer_instance

/-- The body of each child has been started at most once. -/
def RanOnce (s : Rerun) : Prop := ∀ n < p.spawns, s.starts (p.childId n) ≤ 1

/-! ### The invariant -/

/-- The fleet: in order, with a start for each enqueue at most and an enqueue for each
child at most. -/
structure Sound (f : Fleet) (starts : JobId → Nat) : Prop where
  order : f.InOrder
  unfailed : f.Unfailed
  bounded : f.Bounded starts
  known : ∀ jobId, f.store.jobs jobId ≠ none → f.born jobId ≠ 0
  once : ∀ jobId, p.IsChild jobId → f.born jobId ≤ 1

/-- The calls of the delivery that is alive are for children, and a call past its check
finds the record finished or gone. -/
structure Called (again : Bool) (f : Fleet) : Prop where
  ahead : again = false → ∀ n, f.calls (callOf true n) = .uncalled
  waiting : ∀ n jobId, f.calls (callOf again n) = .waiting jobId → p.IsChild jobId
  fetching : ∀ n jobId, f.calls (callOf again n) = .fetching jobId →
    p.IsChild jobId ∧ f.store.Settled jobId ∧ f.born jobId ≠ 0

/-- The whole. -/
structure Attached (s : Rerun) : Prop where
  sound : p.Sound s.fleet s.starts
  called : p.Called s.again s.fleet
  ahead : s.ordinal + s.todo.count .spawn ≤ p.spawns

theorem attached_init : p.Attached (p.machine d).init where
  sound :=
    { order := Fleet.inOrder_init
      unfailed := Fleet.unfailed_init
      bounded := by
        intro jobId
        refine ⟨Nat.le_refl _, ?_⟩
        rintro (⟨x, hx, -⟩ | ⟨l, record, hl, -⟩)
        · cases hx
        · cases hl
      known := fun _ h => absurd rfl h
      once := fun _ _ => Nat.zero_le _ }
  called :=
    { ahead := fun _ _ => rfl
      waiting := fun _ _ h => by cases h
      fetching := fun _ _ h => by cases h }
  ahead := by
    show 0 + p.body.count .spawn ≤ p.body.count .spawn
    omega

theorem Attached.ranOnce {s : Rerun} (h : p.Attached s) : p.RanOnce s := by
  intro n hn
  have hstarts : s.starts (p.childId n) ≤ s.fleet.born (p.childId n) := (h.sound.bounded _).1
  have hborn : s.fleet.born (p.childId n) ≤ 1 := h.sound.once _ ⟨n, hn, rfl⟩
  exact hstarts.trans hborn

variable {p d} {f f' : Fleet} {e : Event} {starts : JobId → Nat} {again : Bool}

theorem callOf_inj {again again' : Bool} {n n' : Nat} (h : callOf again n = callOf again' n') :
    again = again' ∧ n = n' := by
  have hnat : 2 * n + again.toNat = 2 * n' + again'.toNat := h
  cases again <;> cases again' <;> simp only [Bool.toNat_true, Bool.toNat_false] at hnat
  · exact ⟨rfl, by omega⟩
  · omega
  · omega
  · exact ⟨rfl, by omega⟩

/-! ### The fleet's steps -/

theorem Sound.step (hf : p.Sound f starts) (h : f.step d e = some f')
    (he : f.unfailing d e = true) (hsettled : f.settledOnly e = true)
    (henq : ∀ record, e = .enqueue record → p.IsChild record.id →
      f.store.jobs record.id = none → f.born record.id = 0) :
    p.Sound f' (Fleet.count starts (f.bodyStart d e)) where
  order := hf.order.step d h (Fleet.deadStayDead_of_unfailing he) hsettled
  unfailed := hf.unfailed.step h he
  bounded := hf.bounded.step hf.unfailed hf.order h he
  known _ hstored := Fleet.known_of_step hf.known h hstored
  once jobId hchild := by
    rcases Fleet.born_of_step h with ⟨record, heq, hnone, hborn⟩ | ⟨-, hborn⟩
    · rw [hborn]
      by_cases hid : jobId = record.id
      · subst hid
        rw [Function.update_self, henq record heq hchild hnone]
      · rw [Function.update_of_ne hid]
        exact hf.once jobId hchild
    · rw [hborn]
      exact hf.once jobId hchild

/-- A step that moves no call. -/
theorem Called.of_calls (hc : p.Called again f) (hf : p.Sound f starts)
    (h : f.step d e = some f') (hcalls : f'.calls = f.calls)
    (henq : ∀ record, e = .enqueue record → p.IsChild record.id →
      f.store.jobs record.id = none → f.born record.id = 0) : p.Called again f' where
  ahead hagain n := by
    rw [hcalls]
    exact hc.ahead hagain n
  waiting n jobId hw := hc.waiting n jobId (hcalls ▸ hw)
  fetching n jobId hw := by
    obtain ⟨hchild, hset, hborn⟩ := hc.fetching n jobId (hcalls ▸ hw)
    refine ⟨hchild, ?_, ?_⟩
    · refine Fleet.settled_of_step hf.order hf.unfailed h hset ?_
      rintro record heq rfl hnone
      exact hborn (henq record heq hchild hnone)
    · rcases Fleet.born_of_step h with ⟨record, -, -, hnew⟩ | ⟨-, hsame⟩
      · rw [hnew]
        by_cases hid : jobId = record.id
        · subst hid
          simp
        · rw [Function.update_of_ne hid]
          exact hborn
      · rw [hsame]
        exact hborn

/-- A call of the delivery that is alive moves. -/
theorem Called.of_update (hc : p.Called again f) (hstep : f.step d e = some f')
    (hf : p.Sound f starts) (hne : ∀ record, e ≠ .enqueue record)
    {n : Nat} {phase : CallPhase}
    (hcalls : f'.calls = Function.update f.calls (callOf again n) phase)
    (hborn : f'.born = f.born) (hw : ∀ jobId, phase = .waiting jobId → p.IsChild jobId)
    (hfetch : ∀ jobId, phase = .fetching jobId →
      p.IsChild jobId ∧ f'.store.Settled jobId ∧ f.born jobId ≠ 0) : p.Called again f' where
  ahead hagain m := by
    rw [hcalls, Function.update_of_ne]
    · exact hc.ahead hagain m
    · intro heq
      obtain ⟨hnow, -⟩ := callOf_inj heq
      rw [hagain] at hnow
      cases hnow
  waiting m jobId hm := by
    rw [hcalls] at hm
    by_cases hmn : callOf again m = callOf again n
    · rw [hmn, Function.update_self] at hm
      exact hw jobId hm
    · rw [Function.update_of_ne hmn] at hm
      exact hc.waiting m jobId hm
  fetching m jobId hm := by
    rw [hborn]
    rw [hcalls] at hm
    by_cases hmn : callOf again m = callOf again n
    · rw [hmn, Function.update_self] at hm
      exact hfetch jobId hm
    · rw [Function.update_of_ne hmn] at hm
      obtain ⟨hchild, hset, hknown⟩ := hc.fetching m jobId hm
      refine ⟨hchild, ?_, hknown⟩
      exact Fleet.settled_of_step hf.order hf.unfailed hstep hset fun record heq =>
        absurd heq (hne record)

variable {s s' : Rerun}

theorem Attached.others (h : p.Attached s) {e : Event} (hs : p.step d s (.fleet e) = some s') :
    p.Attached s' := by
  simp only [Parent.step, onFleet, Option.ite_none_right_eq_some, Option.map_eq_some_iff] at hs
  obtain ⟨hothers, f, hf, rfl⟩ := hs
  simp only [Parent.others, Bool.and_eq_true] at hothers
  obtain ⟨he, hkind⟩ := hothers
  have henq : ∀ record, e = .enqueue record → p.IsChild record.id →
      s.fleet.store.jobs record.id = none → s.fleet.born record.id = 0 := by
    rintro record rfl hchild
    simp only [decide_eq_true_eq] at hkind
    exact absurd hchild hkind
  have hsettled : s.fleet.settledOnly e = true := by
    refine Fleet.settledOnly_of_unfailed h.sound.unfailed ?_
    rintro c rfl
    cases hkind
  have hcalls : f.calls = s.fleet.calls := by
    cases e with
    | take _ _ | check _ | fetch _ => cases hkind
    | enqueue record =>
      cases hf
      rfl
    | _ => exact (Fleet.step_clients d hf (by simp) (by simp) (by simp) (by simp)).1
  exact
    { sound := h.sound.step hf he hsettled henq
      called := h.called.of_calls h.sound hf hcalls henq
      ahead := h.ahead }

theorem Attached.spawn (h : p.Attached s) {record : Record}
    (hs : p.step d s (.spawn record) = some s') (hre : Reattaches s (.spawn record)) :
    p.Attached s' := by
  simp only [Parent.step] at hs
  split at hs
  · rename_i rest htodo
    simp only [onFleet, Option.ite_none_right_eq_some, Option.map_eq_some_iff] at hs
    obtain ⟨⟨-, hid⟩, s₁, ⟨f, hf, rfl⟩, rfl⟩ := hs
    have henq : ∀ r, Event.enqueue record = .enqueue r → p.IsChild r.id →
        s.fleet.store.jobs r.id = none → s.fleet.born r.id = 0 := by
      rintro _ ⟨⟩ - hnone
      by_contra hborn
      exact hre hborn hnone
    have hcalls : f.calls = s.fleet.calls := by
      cases hf
      rfl
    have hahead := h.ahead
    rw [htodo, List.count_cons_self] at hahead
    exact
      { sound := h.sound.step hf rfl rfl henq
        called := h.called.of_calls h.sound hf hcalls henq
        ahead := by
          show s.ordinal + 1 + rest.count .spawn ≤ p.spawns
          omega }
  · cases hs

theorem Attached.take (h : p.Attached s) {n : Nat} (hs : p.step d s (.take n) = some s') :
    p.Attached s' := by
  simp only [Parent.step, onFleet, Option.ite_none_right_eq_some, Option.map_eq_some_iff] at hs
  obtain ⟨⟨-, hn⟩, f, hf, rfl⟩ := hs
  have hchild : p.IsChild (p.childId n) := by
    have hahead := h.ahead
    exact ⟨n, by omega, rfl⟩
  have hstep := hf
  simp only [Fleet.step, Option.ite_none_right_eq_some, Option.some.injEq] at hf
  obtain ⟨-, rfl⟩ := hf
  refine ⟨h.sound.step hstep rfl rfl (by simp), ?_, h.ahead⟩
  refine h.called.of_update hstep h.sound (by simp) rfl rfl ?_ ?_
  · rintro jobId ⟨⟩
    exact hchild
  · rintro jobId ⟨⟩

theorem Attached.check (h : p.Attached s) {n : Nat} (hs : p.step d s (.check n) = some s') :
    p.Attached s' := by
  simp only [Parent.step, onFleet, Option.ite_none_right_eq_some, Option.map_eq_some_iff] at hs
  obtain ⟨-, f, hf, rfl⟩ := hs
  have hstep := hf
  simp only [Fleet.step] at hf
  split at hf
  · rename_i jobId hwaiting
    cases hf
    refine ⟨h.sound.step hstep rfl rfl (by simp), ?_, h.ahead⟩
    refine h.called.of_update hstep h.sound (by simp) rfl rfl ?_ ?_
    · intro id hid
      unfold CallPhase.check at hid
      split at hid
      · cases hid
      · split at hid
        · cases hid
        · cases hid
          exact h.called.waiting n jobId hwaiting
    · intro id hid
      unfold CallPhase.check at hid
      split at hid
      · cases hid
      · rename_i x hx
        split at hid
        · rename_i ht
          cases hid
          refine ⟨h.called.waiting n jobId hwaiting, ?_, ?_⟩
          · intro y hy
            cases hx.symm.trans hy
            exact ht
          · exact h.sound.known jobId (by rw [hx]; simp)
        · cases hid
  · cases hf

theorem Attached.fetch (h : p.Attached s) {n : Nat} (hs : p.step d s (.fetch n) = some s') :
    p.Attached s' := by
  simp only [Parent.step, onFleet, Option.ite_none_right_eq_some, Option.map_eq_some_iff] at hs
  obtain ⟨-, f, hf, rfl⟩ := hs
  have hstep := hf
  simp only [Fleet.step] at hf
  split at hf
  · rename_i jobId hfetching
    cases hf
    -- nobody has revived the record since the check
    have hsettled : s.fleet.settledOnly (.fetch (callOf s.again n)) = true := by
      obtain ⟨-, hset, -⟩ := h.called.fetching n jobId hfetching
      simp only [Fleet.settledOnly, hfetching]
      cases hx : s.fleet.store.jobs jobId with
      | none => rfl
      | some x => exact hset x hx
    refine ⟨h.sound.step hstep rfl hsettled (by simp), ?_, h.ahead⟩
    refine h.called.of_update hstep h.sound (by simp) rfl rfl ?_ ?_
    · intro id hid
      unfold CallPhase.collect at hid
      split at hid <;> cases hid
    · intro id hid
      unfold CallPhase.collect at hid
      split at hid <;> cases hid
  · cases hf

theorem Attached.step (h : p.Attached s) {e : RerunEvent} (hs : p.step d s e = some s')
    (hre : Reattaches s e) : p.Attached s' := by
  cases e with
  | fleet e => exact h.others hs
  | spawn record => exact h.spawn hs hre
  | take n => exact h.take hs
  | check n => exact h.check hs
  | fetch n => exact h.fetch hs
  | awaited =>
    simp only [Parent.step] at hs
    split at hs
    · rename_i n rest htodo
      simp only [Option.ite_none_right_eq_some, Option.some.injEq] at hs
      obtain ⟨-, rfl⟩ := hs
      refine ⟨h.sound, h.called, ?_⟩
      have hahead := h.ahead
      rw [htodo, List.count_cons_of_ne (by simp)] at hahead
      exact hahead
    · cases hs
  | die =>
    simp only [Parent.step, Option.ite_none_right_eq_some, Option.some.injEq] at hs
    obtain ⟨-, rfl⟩ := hs
    exact ⟨h.sound, h.called, h.ahead⟩
  | redeliver =>
    simp only [Parent.step, Option.ite_none_right_eq_some, Option.some.injEq] at hs
    obtain ⟨⟨-, hagain⟩, rfl⟩ := hs
    -- the second delivery has made no call yet
    have hnone := h.called.ahead hagain
    refine ⟨h.sound, ⟨by simp, fun n jobId hn => ?_, fun n jobId hn => ?_⟩, ?_⟩
    · exact absurd ((hnone n).symm.trans hn) (by simp)
    · exact absurd ((hnone n).symm.trans hn) (by simp)
    · show 0 + p.body.count .spawn ≤ p.spawns
      rw [Parent.spawns]
      omega

variable (p d)

/-- **A re-run body runs no child twice while their results are still there.** For every
body, every point at which its worker dies, and every order of the moves of the fleet:
if each spawn of a child that was enqueued before finds its record still stored, the
body of each child is started at most once over both deliveries. -/
theorem ranOnce_along {es : List RerunEvent}
    (h : (p.machine d).Along (fun s e _ => Reattaches s e) (p.machine d).init es) :
    (p.machine d).Along (fun _ _ s' => p.RanOnce s') (p.machine d).init es := by
  refine Machine.along_of_invariant (J := p.Attached) (C := Reattaches) ?_ (p.attached_init d) h
  intro s e s' hs hre hstep
  have hs' : p.Attached s' := hs.step hstep hre
  exact ⟨hs'.ranOnce, hs'⟩

/-! ### Two runs -/

/-- A parent that spawns one child and waits for it. -/
def single : Parent := ⟨"p", fun seed => seed, [.spawn, .await 0]⟩

/-- Its child, as `spawn` submits it. -/
def child : Record := { Fleet.job with id := "p:0" }

/-- A loop of worker `a` claims the child, runs it and saves its result. -/
def childRuns : List RerunEvent :=
  (Fleet.claims Fleet.loopA ++
    [.move Fleet.loopA (.finish [] (.completed [1])), .roundTrip Fleet.loopA .reply,
      .move Fleet.loopA .unwound] : List Event).map .fleet

/-- The waiter of the delivery takes the result of the child, and the body goes on. -/
def takesChild : List RerunEvent := [.take 0, .check 0, .fetch 0, .awaited]

/-- The worker of the parent dies while the child's result waits to be taken: the second
body finds the child, and takes it. -/
theorem ranOnce_reattached :
    (single.machine Fleet.solo).Along (fun _ _ s' => single.RanOnce s')
      (single.machine Fleet.solo).init
      ([.fleet (.start ⟨"a", 0⟩ 0), .spawn child] ++ childRuns ++
        [.die, .redeliver, .spawn child] ++ takesChild) :=
  ranOnce_along single Fleet.solo (by decide)

/-- The first body has taken the result before its worker dies. -/
def consumedBeforeCrash : List RerunEvent :=
  [.fleet (.start ⟨"a", 0⟩ 0), .spawn child] ++ childRuns ++ takesChild ++
    [.die, .redeliver, .spawn child] ++
    (Fleet.leases Fleet.loopA ++ [.roundTrip Fleet.loopA .reply] : List Event).map .fleet

/-- The second body spawns the child anew, and it runs again. -/
theorem consumedBeforeCrash_runsTwice :
    ¬ (single.machine Fleet.solo).Along (fun _ _ s' => single.RanOnce s')
      (single.machine Fleet.solo).init
      (consumedBeforeCrash ++ [.fleet (.move Fleet.loopA (.decode []))]) := by
  intro h
  have htwice := h.last rfl rfl 0 (by decide)
  exact absurd htwice (by decide)

end Parent

end TaskQueue.Worker
