import TaskQueue.Memory.TakeResult
import TaskQueue.Worker.TakeResult

/-!
# `take_result` on both backends

The interface has one promise for `take_result`, and both backends keep it on the
same condition: between the moment a call learns that the job is finished and the
moment it takes the record, nothing revives the record. On neither backend does
the code see to that, because a job id can be enqueued again as soon as one call
has freed it.
-/

namespace TaskQueue

open Worker Worker.Fleet

/-- **Single consumer.** On Redis and in memory alike, a run in which no record is
revived between a call's check (or wake-up) and its taking the record has single
receipts of terminal records only, and loses no unfinished record to a call. -/
theorem takeResult_singleConsumer (d : Deployment) {es : List Worker.Event}
    {ms : List Memory.Event}
    (hredis : (machine d).Along (fun s e _ => gapKept d s e) Fleet.init es)
    (hmemory : Memory.System.machine.Along (fun s e _ => Memory.System.gapKept s e)
      Memory.System.init ms) :
    (machine d).Along Fleet.TakesFinished Fleet.init es ∧
      Memory.System.machine.Along Memory.System.TakesFinished Memory.System.init ms :=
  ⟨Fleet.takesFinished_along d hredis, Memory.System.takesFinished_along hmemory⟩

/-- The record of the job once it has completed. -/
def completed : Finished := job.settle [] (.completed [1])

/-- The job completes on worker `a`. -/
def completes : List Worker.Event :=
  [.enqueue job, .start ⟨"a", 0⟩ 0] ++ claims loopA ++
    [.move loopA (.finish [] (.completed [1])), .roundTrip loopA .reply]

/-- Two calls see the job finished, the first takes the record, and the producer
enqueues the id again. -/
def bothChecked : List Worker.Event :=
  completes ++ [.take 0 "j", .check 0, .take 1 "j", .check 1, .fetch 0, .enqueue job]

/-- Two calls wait for the event; the first one to run takes the record, and the
producer enqueues the id again. -/
def bothWoken : List Memory.Event :=
  [.enqueue job, .take 0 "j", .take 1 "j", .claim, .save completed, .wake 0, .enqueue job]

/-- The second call takes the QUEUED record of the next incarnation away. -/
theorem secondCall_takes_unfinished :
    ¬ (machine solo).Along Fleet.TakesFinished Fleet.init (bothChecked ++ [.fetch 1]) ∧
      ¬ Memory.System.machine.Along Memory.System.TakesFinished Memory.System.init
        (bothWoken ++ [.wake 1]) := by
  refine ⟨fun h => ?_, fun h => ?_⟩
  · have ht := (h.last rfl rfl).2 1 "j" _ rfl rfl rfl
    cases ht
  · have ht := (h.last rfl rfl).2 "j" _ rfl rfl
    cases ht

/-- The call that an event moves. -/
def callOf : Worker.Event → Option Worker.CallId
  | .take c _ | .check c | .fetch c => some c
  | _ => none

/-- An event moves no other call than its own. -/
theorem step_otherCalls {s s' : Fleet} {e : Worker.Event} {c : Worker.CallId}
    (hs : s.step solo e = some s') (he : callOf e ≠ some c) : s'.calls c = s.calls c := by
  have hmoved : ∀ c' p, c' ≠ c → Function.update s.calls c' p c = s.calls c :=
    fun c' p hc => Function.update_of_ne hc.symm ..
  cases e with
  | enqueue record =>
    cases hs
    rfl
  | take c' jobId =>
    obtain ⟨-, hnext⟩ := Option.ite_none_right_eq_some.mp hs
    cases hnext
    exact hmoved c' _ fun hc => he (by rw [hc]; rfl)
  | check c' =>
    simp only [step] at hs
    split at hs
    · cases hs
      exact hmoved c' _ fun hc => he (by rw [hc]; rfl)
    · cases hs
  | fetch c' =>
    simp only [step] at hs
    split at hs
    · cases hs
      exact hmoved c' _ fun hc => he (by rw [hc]; rfl)
    · cases hs
  | _ => rw [(step_clients solo hs (by simp) (by simp) (by simp) (by simp)).1]

/-- Calls that no event of a run moves are not made. -/
theorem uncalled_of_run {n : Nat} {es : List Worker.Event} {s : Fleet}
    (hes : ∀ e ∈ es, ∀ c ∈ callOf e, c < n) (hrun : (machine solo).run Fleet.init es = some s) :
    ∀ c, n ≤ c → s.calls c = .uncalled := by
  refine Machine.run_keeps (J := fun s => ∀ c, n ≤ c → s.calls c = .uncalled)
    (C := fun _ e => ∀ c ∈ callOf e, c < n) ?_ (fun _ _ => rfl) (Machine.along_of_forall hes) hrun
  intro s e s' hcalls he hs c hc
  rw [step_otherCalls hs fun hcall => absurd (he c hcall) (Nat.not_lt.mpr hc)]
  exact hcalls c hc

theorem Memory.System.step_otherCalls {s s' : System} {e : Event} {c : CallId}
    (hs : s.step e = some s') (htake : ∀ jobId, e ≠ .take c jobId) (hwake : e ≠ .wake c) :
    s'.calls c = s.calls c := by
  have hcollect : ∀ c' jobId, c ≠ c' → (s.collect c' jobId).calls c = s.calls c := by
    intro c' jobId hc
    unfold collect
    split <;> exact Function.update_of_ne hc ..
  cases e with
  | take c' jobId =>
    have hne : c ≠ c' := fun hc => htake jobId (by rw [hc])
    simp only [step] at hs
    split at hs
    · split at hs
      · split at hs
        · cases hs
          exact hcollect c' jobId hne
        · cases hs
          exact Function.update_of_ne hne ..
      · cases hs
        exact hcollect c' jobId hne
    · cases hs
  | wake c' =>
    have hne : c ≠ c' := fun hc => hwake (by rw [hc])
    simp only [step] at hs
    split at hs
    · split at hs
      · cases hs
        exact hcollect c' _ hne
      · cases hs
    · cases hs
  | claim =>
    obtain ⟨⟨b, r?⟩, -, rfl⟩ := Option.map_eq_some_iff.mp hs
    rfl
  | _ =>
    cases hs
    rfl

/-- Calls that no event of a run in memory moves are not made. -/
theorem Memory.System.uncalled_of_run {n : Nat} {es : List Event} {s : System}
    (hes : ∀ e ∈ es, (∀ c jobId, e = .take c jobId → c < n) ∧ ∀ c, e = .wake c → c < n)
    (hrun : machine.run init es = some s) : ∀ c, n ≤ c → s.calls c = .uncalled := by
  refine Machine.run_keeps (J := fun s => ∀ c, n ≤ c → s.calls c = .uncalled)
    (C := fun _ e => (∀ c jobId, e = .take c jobId → c < n) ∧ ∀ c, e = .wake c → c < n)
    ?_ (fun _ _ => rfl) (Machine.along_of_forall hes) hrun
  rintro s e s' hcalls ⟨htake, hwake⟩ hs c hc
  have hc' : ¬ c < n := Nat.not_lt.mpr hc
  rw [step_otherCalls hs (fun jobId he => hc' (htake c jobId he)) fun he => hc' (hwake c he)]
  exact hcalls c hc

/-- A call revives nothing. -/
theorem gapKept_of_call {s : Fleet} {e : Worker.Event} (he : (callOf e).isSome = true) :
    gapKept solo s e := by
  intro q hq c jobId _
  cases e with
  | take | check => cases hq
  | fetch c =>
    simp only [request] at hq
    split at hq
    · cases hq
      exact id
    · cases hq
  | _ => cases he

/-- While no call has been made, every event keeps the gap. -/
theorem gapKept_of_uncalled {s : Fleet} {e : Worker.Event} (hs : ∀ c, s.calls c = .uncalled) :
    gapKept solo s e := by
  intro q _ c jobId hc
  rw [hs c] at hc
  cases hc

/-- Two calls see the job finished and fetch, one after the other. -/
def contending : List Worker.Event :=
  [.take 0 "j", .check 0, .take 1 "j", .check 1, .fetch 0, .fetch 1]

/-- Two calls wait for the event and are woken, one after the other. -/
def contendingWoken : List Memory.Event :=
  [.enqueue job, .take 0 "j", .take 1 "j", .claim, .save completed, .wake 0, .wake 1]

/-- When both calls are through, the producer enqueues the id again. -/
theorem takeResult_singleConsumer_once :
    (machine solo).Along Fleet.TakesFinished Fleet.init
        ((completes ++ contending) ++ [.enqueue job]) ∧
      Memory.System.machine.Along Memory.System.TakesFinished Memory.System.init
        (contendingWoken ++ [.enqueue job]) := by
  refine takeResult_singleConsumer solo ?_ ?_
  · have hbefore : (machine solo).Along (fun s e _ => gapKept solo s e) Fleet.init completes := by
      refine Machine.along_of_invariant (J := fun s => ∀ c, s.calls c = .uncalled)
        (C := fun _ e => callOf e = none) ?_ (fun _ => rfl) (by decide)
      intro s e s' hs he hstep
      refine ⟨gapKept_of_uncalled hs, fun c => ?_⟩
      rw [step_otherCalls hstep fun hc => by rw [he] at hc; cases hc]
      exact hs c
    refine Machine.Along.append (hbefore.append fun t _ => ?_) fun t ht => ?_
    · exact (Machine.along_of_forall (P := fun e => (callOf e).isSome = true) (by decide)).mono
        fun _ _ _ _ he => gapKept_of_call he
    · -- both calls have ended, and nobody else has called
      have hothers := uncalled_of_run (n := 2) (by decide) ht
      have hended : ((machine solo).run Fleet.init (completes ++ contending)).all fun t =>
          (t.calls 0).receipt.isSome && decide (t.calls 1 = .missing "j") := by decide
      rw [ht] at hended
      obtain ⟨hfirst, hsecond⟩ := Bool.and_eq_true_iff.mp hended
      refine Machine.along_cons fun _ _ => ⟨fun _ _ c jobId hc => ?_, trivial⟩
      match c with
      | 0 =>
        rw [hc] at hfirst
        cases hfirst
      | 1 =>
        rw [hc] at hsecond
        cases of_decide_eq_true hsecond
      | c + 2 =>
        rw [hothers (c + 2) (by omega)] at hc
        cases hc
  · have hbefore : Memory.System.machine.Along (fun s e _ => Memory.System.gapKept s e)
        Memory.System.init contendingWoken := by
      refine Machine.along_cons ?_
      rintro _ ⟨⟩
      refine ⟨fun _ c n hc => (nomatch hc), Machine.along_cons ?_⟩
      rintro _ ⟨⟩
      refine ⟨trivial, Machine.along_cons ?_⟩
      rintro _ ⟨⟩
      refine ⟨trivial, Machine.along_cons fun _ _ => ⟨?_, ?_⟩⟩
      · rintro _ _ _ ⟨⟩ ⟨⟩
        rfl
      · exact Machine.along_cons fun _ _ => ⟨trivial, Machine.along_cons fun _ _ =>
          ⟨trivial, Machine.along_cons fun _ _ => ⟨trivial, trivial⟩⟩⟩
    refine hbefore.append fun t ht => ?_
    have hothers := Memory.System.uncalled_of_run (n := 2) ?_ ht
    · have hended : (Memory.System.machine.run Memory.System.init contendingWoken).all fun t =>
          (t.calls 0).receipt.isSome && decide (t.calls 1 = .missing "j") := by decide
      rw [ht] at hended
      obtain ⟨hfirst, hsecond⟩ := Bool.and_eq_true_iff.mp hended
      refine Machine.along_cons fun _ _ => ⟨fun _ c n hc => ?_, trivial⟩
      match c with
      | 0 =>
        rw [hc] at hfirst
        cases hfirst
      | 1 =>
        rw [hc] at hsecond
        cases of_decide_eq_true hsecond
      | c + 2 =>
        rw [hothers (c + 2) (by omega)] at hc
        cases hc
    · simp [contendingWoken]

end TaskQueue
