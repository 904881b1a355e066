import TaskQueue.Redis.Liveness
import TaskQueue.Worker.StaleHolders

/-!
# Crash recovery

A worker that dies holds what it has leased, and its last beat grows old. `Recoverable` says
that nothing is out of reach then: an unfinished job is on the queue, or it is on the list of a
worker whose beat is known, and the first reap that finds this beat too old puts the job back on
the queue, whoever reaps. A crashed worker beats no more, so there will be such a reap as long
as some worker is up.

`recoverable_along` says it of every run, under the conditions of `StaleHolders`: with any
failed or cancelled round trip, any crash, any lapse of a heartbeat and any stale holder that
does not break one of these.
-/

namespace TaskQueue.Redis

open Placement

/-! ## One reap -/

variable {st : Store} {worker : InstanceId} {jobId : JobId} {score : Int} {now workerTtl : Nat}

/-- What a reap moves is on the queue afterwards, and waits for its next claim. -/
theorem reap_requeues {e : Entry} (he : st.jobs jobId = some e)
    (hlease : jobId ∈ st.lists (.processing worker))
    (hexpired : worker ∈ expired st now workerTtl) :
    jobId ∈ ((Request.reap now workerTtl).after st).lists .queue ∧
      ((Request.reap now workerTtl).after st).jobs jobId = some e.requeued := by
  have hmoved := moved_reaperScript st now workerTtl
  have hheld : jobId ∈ st.held (expired st now workerTtl) :=
    List.mem_flatMap.mpr ⟨worker, hexpired, hlease⟩
  constructor
  · show jobId ∈ (reaperScript st now workerTtl).store.lists .queue
    rw [hmoved.queue]
    exact List.mem_append_right _ (List.mem_filter.mpr ⟨hheld, by simp [he]⟩)
  · show (reaperScript st now workerTtl).store.jobs jobId = _
    rw [hmoved.jobs, if_pos hheld]
    simp [he]

end TaskQueue.Redis

namespace TaskQueue.Worker.Fleet

open Redis Placement

variable (d : Deployment)

/-! ## What is in reach -/

/-- An unfinished job is queued, or the next reap that presumes its holder dead queues it. -/
def Recoverable (s : Fleet) : Prop :=
  ∀ jobId e, s.store.jobs jobId = some e → e.record.status.terminal = false →
    OnceAt s.store.lists jobId .queue ∨
      ∃ worker score, toLex (score, worker) ∈ s.store.workers.entries ∧
        OnceAt s.store.lists jobId (.processing worker) ∧
        ∀ peer (now : Nat), s.crashed peer = false → score + (d.ttls peer).workerTtl ≤ now →
          ∃ s', s.step d (.reap peer now) = some s' ∧ OnceAt s'.store.lists jobId .queue ∧
            s'.store.jobs jobId = some e.requeued

/-- A crashed worker beats no more. -/
def Silent (s s' : Fleet) : Prop :=
  ∀ worker score, s.crashed worker = true → toLex (score, worker) ∈ s'.store.workers.entries →
    toLex (score, worker) ∈ s.store.workers.entries

/-- No request of the run duplicates, loses or hides a lease. -/
def Careful (q : Request) (st : Store) : Prop :=
  q.PushesOwnLease st ∧ q.LeavesListed st ∧ q.LeasesVisibly st

/-- The lists are in order. -/
structure Tidy (st : Store) : Prop where
  noDuplicate : NoDuplicate st
  listed : Listed st
  registered : Registered st

theorem tidy_empty : Tidy .empty := ⟨noDuplicate_empty, listed_empty, registered_empty⟩

theorem Tidy.after {st : Store} {q : Request} (h : Tidy st) (hq : Careful q st) :
    Tidy (q.after st) where
  noDuplicate := ((q.noDuplicate_iff h.noDuplicate).mpr hq.1).1
  listed := (q.listed_iff h.listed).mpr hq.2.1
  registered := (q.registered_iff h.registered).mpr hq.2.2

/-- Reaping is careful. -/
theorem Tidy.reaped {st : Store} {now workerTtl : Nat} (h : Tidy st) :
    Tidy ((Request.reap now workerTtl).after st) := h.after ⟨trivial, trivial, trivial⟩

variable {d} {s s' : Fleet} {e : Event}

theorem Tidy.recoverable (h : Tidy s.store) : Recoverable d s := by
  intro jobId e he ht
  obtain ⟨key, hpos⟩ := h.listed jobId e he ht
  have hmem := occ_pos_iff.mp hpos
  have honce : OnceAt s.store.lists jobId key := (h.noDuplicate jobId).onceAt hpos
  cases key with
  | queue => exact Or.inl honce
  | processing worker =>
    obtain ⟨⟨score, v⟩, hentry, rfl⟩ :=
      List.mem_map.mp (h.registered worker (List.ne_nil_of_mem hmem))
    refine Or.inr ⟨_, score, hentry, honce, fun peer now hup hlate => ?_⟩
    have hexpired : v ∈ expired s.store now (d.ttls peer).workerTtl :=
      mem_expired.mpr ⟨score, by omega, hentry⟩
    obtain ⟨hqueue, hjob⟩ := reap_requeues he hmem hexpired
    refine ⟨{ s with store := (Request.reap now (d.ttls peer).workerTtl).after s.store },
      ?_, ?_, hjob⟩
    · exact if_pos hup
    · exact (h.reaped.noDuplicate jobId).onceAt (occ_pos_iff.mpr hqueue)

/-! ## Beats -/

/-- Only a process that is up beats. -/
theorem heartbeat_of_request {worker : InstanceId} {now : Nat} (hs : s.step d e = some s')
    (h : s.request d e = some (.heartbeat worker now)) : s.crashed worker = false := by
  rcases pending_of_request d h with ⟨l, o, -, -, hpending⟩ | hother
  · rw [pending] at hpending
    cases hl : s.loops l <;> simp [hl, Phase.request] at hpending
  · cases e with
    | start p t | beat p t =>
      cases h
      simp only [step, Option.ite_none_right_eq_some] at hs
      exact hs.1.1
    | roundTrip l o => exact absurd rfl (hother l o)
    | fetch c =>
      simp only [request] at h
      split at h <;> cases h
    | _ => cases h

theorem step_silent (hs : s.step d e = some s') : Silent s s' := by
  intro worker score hcrashed hentry
  rw [step_store d hs] at hentry
  cases hq : s.request d e with
  | none => rwa [hq] at hentry
  | some q =>
    rw [hq] at hentry
    rcases score_after hentry with ⟨now, rfl, -⟩ | ⟨-, hbefore⟩
    · exact absurd (hcrashed.symm.trans (heartbeat_of_request hs hq)) (by simp)
    · exact hbefore

/-! ## Runs -/

variable (d)

/-- **Nothing is out of reach.** In every run whose requests are careful, each unfinished job is
on the queue, or the first reap that finds its holder's beat too old puts it there; and a crashed
worker's beat only grows older. -/
theorem recoverable_along {es : List Event}
    (hes : (machine d).Along (fun s e _ => Requesting d Careful s e) init es) :
    (machine d).Along (fun s _ s' => Recoverable d s' ∧ Silent s s') init es := by
  refine Machine.along_of_invariant (J := fun s => Tidy s.store) (fun s e s' h hc hs => ?_)
    tidy_empty hes
  have h' : Tidy s'.store := by
    rw [step_store d hs]
    cases hq : s.request d e with
    | none => exact h
    | some q => exact h.after (hc q hq)
  exact ⟨⟨h'.recoverable, step_silent hs⟩, h'⟩

/-- A worker dies with a lease, and another one reaps it. -/
def leaseOutlivesWorker : List Event :=
  [.enqueue job, .start ⟨"a", 0⟩ 0] ++ leases loopA ++ [.crash "a"] ++ reapsA

theorem careful_leaseOutlivesWorker :
    (machine solo).Along (fun s e _ => Requesting solo Careful s e) init
      leaseOutlivesWorker := by
  have hquiet : ∀ {s : Fleet} {e : Event}, s.request solo e = none →
      Requesting solo Careful s e := by
    intro s e h q hq
    rw [h] at hq
    cases hq
  refine (Machine.along_cons_of_step rfl).mpr ⟨?_, ?_⟩
  · rintro _ ⟨⟩
    exact ⟨fun _ _ => rfl, trivial, trivial⟩
  refine (Machine.along_cons_of_step rfl).mpr ⟨?_, ?_⟩
  · rintro _ ⟨⟩
    exact ⟨trivial, trivial, trivial⟩
  refine (Machine.along_cons_of_step rfl).mpr ⟨hquiet rfl, ?_⟩
  refine (Machine.along_cons_of_step rfl).mpr ⟨?_, ?_⟩
  · rintro _ ⟨⟩
    exact ⟨trivial, trivial, fun _ => by decide⟩
  refine (Machine.along_cons_of_step rfl).mpr ⟨hquiet rfl, ?_⟩
  refine (Machine.along_cons_of_step rfl).mpr ⟨?_, ?_⟩
  · rintro _ ⟨⟩
    exact ⟨trivial, trivial, trivial⟩
  refine (Machine.along_cons_of_step rfl).mpr ⟨?_, trivial⟩
  rintro _ ⟨⟩
  exact ⟨trivial, trivial, trivial⟩

theorem recoverable_leaseOutlivesWorker :
    (machine solo).Along (fun s _ s' => Recoverable solo s' ∧ Silent s s') init
      leaseOutlivesWorker := recoverable_along solo careful_leaseOutlivesWorker

end TaskQueue.Worker.Fleet
