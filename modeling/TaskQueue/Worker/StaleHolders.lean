import TaskQueue.Redis.Leases
import TaskQueue.Redis.Outcome
import TaskQueue.Worker.Fleet

/-!
# Runs with stale lease holders

A worker whose heartbeat lapsed is reaped while it is alive, and goes on: it
claims, saves, releases, sends the second half of a claim. Its requests reach a
database in which another worker may hold the same job by then. Nothing in this
module restricts the runs: any event may come at any time, and every round trip
may raise or be cancelled before or after it took effect.

For each of four promises about the database, a run keeps it throughout exactly
when every request of the run meets a condition on the state it finds, and for
each of them there is a run that breaks it.

- `outcomes_final_iff`: a terminal outcome is final.
- `handBack_iff`: handing a lease back never duplicates a job.
- `unfinished_listed_iff`: an unfinished job is on some list.
- `leases_visible_iff`: every lease is where a reaper will look.
-/

namespace TaskQueue.Worker.Fleet

open Redis Placement

variable (d : Deployment)

/-- Worker `b` comes up long after the last heartbeat of `a` and reaps it. -/
def reapsA : List Event := [.start ⟨"b", 0⟩ 100, .reap "b" 100]

/-! ## A terminal outcome is final -/

/-- Every terminal outcome survives the step from `st` to `st'`, unless the
step's request frees the record. -/
def OutcomesFinal (st : Store) (q? : Option Request) (st' : Store) : Prop :=
  ∀ jobId e, st.jobs jobId = some e → e.record.status.terminal = true →
    (∀ q, q? = some q → ¬ q.Frees jobId) →
      ∃ e', st'.jobs jobId = some e' ∧ e'.record.outcome = e.record.outcome

theorem outcomesFinal_some_iff (st : Store) (q : Request) (st' : Store) :
    OutcomesFinal st (some q) st' ↔ OutcomesKept st q st' := by
  simp only [OutcomesFinal, OutcomesKept, Option.some.injEq, forall_eq']

/-- **When outcomes are final.** Over a run no terminal outcome changes exactly
when no claim script of the run meets a finished record, and no save script meets
one with another outcome. -/
theorem outcomes_final_iff (es : List Event) :
    (machine d).Along (fun s e s' => OutcomesFinal s.store (s.request d e) s'.store) init es ↔
      (machine d).Along
        (fun s e _ => Requesting d (fun q st => q.SparesFinished st) s e) init es := by
  refine along_requests_iff d (J := fun _ => True) (Q := OutcomesFinal) trivial ?_ ?_ ?_ es
  · exact fun st _ jobId e he _ _ => ⟨e, he, rfl⟩
  · intro q st _ hc
    exact ⟨(outcomesFinal_some_iff ..).mpr ((q.outcomesKept_iff st).mpr hc), trivial⟩
  · intro q st _ hQ
    exact (q.outcomesKept_iff st).mp ((outcomesFinal_some_iff ..).mp hQ)

/-- The job completed, but the reply of its save is lost: the worker's handler
writes FAILED over COMPLETED. -/
def lostReply : List Event :=
  [.enqueue job, .start ⟨"a", 0⟩ 0] ++ claims loopA ++
    [.move loopA (.finish [] (.completed [1])), .roundTrip loopA (.raised true (some "timeout"))]

theorem lostReply_rewrites_outcome :
    ¬ (machine solo).Along
      (fun s e s' => OutcomesFinal s.store (s.request solo e) s'.store) init
      (lostReply ++ [.roundTrip loopA .reply]) := by
  intro h
  obtain ⟨e', he', hout⟩ := h.last rfl rfl "j" _ rfl rfl (by
    rintro _ ⟨⟩
    exact id)
  cases he'
  exact absurd hout (by decide)

/-! ## Handing a lease back -/

/-- **When handing back is safe.** Over a run no id is ever listed twice, and no
release by a worker that does not hold the lease changes anything, exactly when
every push of an id is of the pusher's own lease. -/
theorem handBack_iff (es : List Event) :
    (machine d).Along (fun s e s' => NoDuplicate s'.store ∧
        Requesting d (fun q st => q.StaleReleaseInert st) s e) init es ↔
      (machine d).Along
        (fun s e _ => Requesting d (fun q st => q.PushesOwnLease st) s e) init es := by
  refine along_requests_iff d (J := NoDuplicate)
    (Q := fun st q? st' => NoDuplicate st' ∧ ∀ q, q? = some q → q.StaleReleaseInert st)
    noDuplicate_empty ?_ ?_ ?_ es
  · exact fun st h => ⟨h, fun q hq => by cases hq⟩
  · intro q st h hc
    obtain ⟨h', hinert⟩ := (q.noDuplicate_iff h).mpr hc
    refine ⟨⟨h', ?_⟩, h'⟩
    rintro _ ⟨⟩
    exact hinert
  · exact fun q st h hQ => (q.noDuplicate_iff h).mp ⟨hQ.1, hQ.2 q rfl⟩

/-- Worker `a` is reaped while it runs the job, `b` claims it, and a shutdown of
`a` cancels its loop. -/
def staleRelease : List Event :=
  [.enqueue job, .start ⟨"a", 0⟩ 0] ++ claims loopA ++ reapsA ++ claims loopB ++
    [.move loopA .cancel]

/-- The release of `a` meets the RUNNING record that `b` holds, and queues the
job a second time. -/
theorem staleRelease_duplicates :
    ¬ (machine solo).Along (fun s e s' => NoDuplicate s'.store ∧
        Requesting solo (fun q st => q.StaleReleaseInert st) s e) init
      (staleRelease ++ [.roundTrip loopA .reply]) := by
  intro h
  have hdup := (h.last rfl rfl).1 "j"
  have hone := hdup.onceAt (p := ListKey.queue) (by decide)
  exact absurd (hone.2 (.processing "b") (by decide)) (by decide)

/-! ## No job is lost from the lists -/

/-- **When no job is lost.** Over a run every unfinished record's id is on some
list exactly when every claim script and every discard of the run leaves the id
it is about listed. -/
theorem unfinished_listed_iff (es : List Event) :
    (machine d).Along (fun _ _ s' => Listed s'.store) init es ↔
      (machine d).Along
        (fun s e _ => Requesting d (fun q st => q.LeavesListed st) s e) init es := by
  refine along_requests_iff d (J := Listed) (Q := fun _ _ st' => Listed st')
    listed_empty (fun _ h => h) ?_ ?_ es
  · intro q st h hc
    exact ⟨(q.listed_iff h).mpr hc, (q.listed_iff h).mpr hc⟩
  · exact fun q st h hQ => (q.listed_iff h).mp hQ

/-- Worker `a` stalls between the two halves of its claim and is reaped; `b`
claims the job and completes it. -/
def revived : List Event :=
  [.enqueue job, .start ⟨"a", 0⟩ 0] ++ leases loopA ++ reapsA ++ claims loopB ++
    [.move loopB (.finish [] (.completed [1])), .roundTrip loopB .reply]

/-- The claim script of `a` marks the completed record RUNNING again, and no list
holds its id. -/
theorem revived_unlisted :
    ¬ (machine solo).Along (fun _ _ s' => Listed s'.store) init
      (revived ++ [.roundTrip loopA .reply]) := by
  intro h
  -- queued, leased by `a`, put back by the reaper, leased by `b`, saved by `b`
  let L₁ := push (fun _ : ListKey => ([] : List JobId)) .queue "j"
  let L₂ := push (drop L₁ .queue "j") (.processing "a") "j"
  let L₃ := push (drop L₂ (.processing "a") "j") .queue "j"
  let L₄ := push (drop L₃ .queue "j") (.processing "b") "j"
  have hlisted : Somewhere (drop L₄ (.processing "b") "j") "j" :=
    h.last rfl rfl "j" _ rfl rfl
  have h₁ : OnceAt L₁ "j" .queue := onceAt_push fun _ => rfl
  exact (((h₁.move _).move _).move _).nowhere_drop.not_somewhere hlisted

/-! ## Every lease is visible to a reaper -/

/-- **When every lease is visible.** Over a run the owner of every non-empty
processing list is in the liveness set exactly when every `BLMOVE` that moves an
id moves it for a worker in that set. -/
theorem leases_visible_iff (es : List Event) :
    (machine d).Along (fun _ _ s' => Registered s'.store) init es ↔
      (machine d).Along
        (fun s e _ => Requesting d (fun q st => q.LeasesVisibly st) s e) init es := by
  refine along_requests_iff d (J := Registered) (Q := fun _ _ st' => Registered st')
    registered_empty (fun _ h => h) ?_ ?_ es
  · intro q st h hc
    exact ⟨(q.registered_iff h).mpr hc, (q.registered_iff h).mpr hc⟩
  · exact fun q st h hQ => (q.registered_iff h).mp hQ

/-- Worker `a` is presumed dead and removed from the liveness set, and its loop
goes on claiming before the next beat. -/
def hiddenLease : List Event :=
  [.start ⟨"a", 0⟩ 0] ++ reapsA ++ [.enqueue job, .move loopA .poll]

theorem hiddenLease_unregistered :
    ¬ (machine solo).Along (fun _ _ s' => Registered s'.store) init
      (hiddenLease ++ [.roundTrip loopA .reply]) := by
  intro h
  exact absurd (h.last rfl rfl "a" (by decide)) (by decide)

end TaskQueue.Worker.Fleet
