import TaskQueue.Scope.EventLoop

/-!
# What a scope reports

A scope that is left undisturbed by its body and its owner waits for its children and
raises what came of them: `collect_mode` the exception of every child, in the order in
which they were registered, `cancel_siblings_mode` the exception that broke it and the
failures that came after, in the order in which the waiters ended.

- `Noted`, `Placed`: what `_job_finished` has noted, and where the owner is.
- `reports_along`: a scope reports exactly what broke it if no child is registered after
  the body, no callback of a failure is due when the wait wakes with nothing pending, no
  task returns an exception object to `collect_mode`, and `cancel_siblings_mode` has a
  waiter to wait for.
- `closes`: once all its waiters have ended, such a scope can always close.
-/

namespace TaskQueue.Scope

/-- The exception that `handle.result()` raises for a job in this status. -/
def exceptionFor (jobId : JobId) : JobStatus → Option (JobId × Failure)
  | .failed => some (jobId, .jobFailed)
  | .cancelled => some (jobId, .jobCancelled)
  | .created | .queued | .running | .completed => none

/-- What is reported of the exceptions of a scope that fails fast: the first, and then the
failures. -/
def culprits : List (JobId × Failure) → List (JobId × Failure)
  | [] => []
  | first :: rest => first :: rest.filter fun f => decide (f.2 ≠ .jobCancelled)

/-- The exception of a child that did not complete. -/
def Group.exceptionOf (g : Group) (jobId : JobId) : Option (JobId × Failure) :=
  (g.outcomeOf jobId).bind (exceptionFor jobId)

namespace EventLoop

variable (s : EventLoop)

/-- What the scope is to report, by its mode. -/
def report : List (JobId × Failure) :=
  match s.group.onError with
  | .cancelSiblings => culprits (s.order.filterMap s.group.exceptionOf)
  | .ignore => []
  | .collect => s.group.handles.filterMap s.group.exceptionOf

/-- No child is registered after the body; when `cancel_siblings_mode` wakes with nothing
pending, `_job_finished` is not due for a child that failed; it has a waiter to wait for, if
`_handles` is not empty; and no task returns an exception object to `collect_mode`. -/
def timely (s : EventLoop) : Event → Bool
  | .spawned _ => decide (s.group.phase = .body)
  | .report _ exceptional => !exceptional || decide (s.group.onError ≠ .collect)
  | .bodyDone =>
    decide (s.group.onError ≠ .cancelSiblings) || decide (s.group.detached = []) ||
      decide (s.group.handles ≠ [])
  | .joinWake =>
    !decide (s.group.undone s.group.handles = []) ||
      s.due.all fun id => decide (s.group.outcomeOf id ≠ some .failed)
  | _ => true

end EventLoop

/-- What leaves a scope that reports `failures`. -/
def raising (failures : List (JobId × Failure)) : Option Raised :=
  if failures = [] then none else some (.group failures)

/-- Every child has ended, once, with an outcome, and what leaves the scope is the report. It
is empty exactly if every child completed, or failures are ignored. -/
structure Reported (s : EventLoop) : Prop where
  ended : s.order.Perm s.group.handles
  outcome : ∀ jobId ∈ s.group.handles,
    ∃ status, s.group.outcomeOf jobId = some status ∧ status.terminal = true
  raised : s.group.raised = raising s.report
  raises : s.group.onError ≠ .ignore →
    (s.group.raised ≠ none ↔ ∃ jobId ∈ s.group.handles, s.group.outcomeOf jobId ≠ some .completed)

/-- A scope that was left has reported. -/
def Reports (s : EventLoop) : Prop := s.group.phase = .closed → Reported s

variable {s s' : EventLoop} {g g' : Group} {e : Event} {jobId : JobId}

/-! ## Culprits -/

theorem culprits_eq_nil {l : List (JobId × Failure)} : culprits l = [] ↔ l = [] := by
  cases l with
  | nil => simp [culprits]
  | cons first rest => simp [culprits]

/-- What `_job_finished` does to the list. -/
theorem culprits_concat (l : List (JobId × Failure)) (f : JobId × Failure) :
    culprits (l ++ [f]) =
      if l ≠ [] ∧ f.2 = .jobCancelled then culprits l else culprits l ++ [f] := by
  cases l with
  | nil => simp [culprits]
  | cons first rest =>
    by_cases hf : f.2 = .jobCancelled
    · simp [culprits, hf]
    · simp [culprits, hf]

/-- Cancellations that come late do not show. -/
theorem culprits_append {l l' : List (JobId × Failure)} (h : l = [] → l' = [])
    (hl' : ∀ f ∈ l', f.2 = .jobCancelled) : culprits (l ++ l') = culprits l := by
  cases l with
  | nil => rw [h rfl, List.append_nil]
  | cons first rest =>
    have hnone : l'.filter (fun f => decide (f.2 ≠ .jobCancelled)) = [] := by
      rw [List.filter_eq_nil_iff]
      intro f hf
      simp [hl' f hf]
    simp only [culprits, List.cons_append, List.filter_append, hnone, List.append_nil]

theorem raising_eq_none {failures : List (JobId × Failure)} :
    raising failures = none ↔ failures = [] := by
  unfold raising
  split <;> simp [*]

/-! ## Exceptions -/

theorem Ordered.exceptionOf (hs : Ordered s) {w : Waiter} (hw : w ∈ s.group.waiters) :
    s.group.exceptionOf w.jobId = w.cached.bind (exceptionFor w.jobId) := by
  rw [Group.exceptionOf, hs.outcomeOf hw]

/-- The exceptions of children whose outcome is known stay. -/
theorem KeepsOutcomes.exceptions (hk : KeepsOutcomes s.group s'.group) (hs' : Ordered s')
    {l : List JobId} (hl : ∀ id ∈ l, ∃ status, s.group.outcomeOf id = some status) :
    l.filterMap s'.group.exceptionOf = l.filterMap s.group.exceptionOf := by
  refine List.filterMap_congr fun id hid => ?_
  obtain ⟨status, hstatus⟩ := hl id hid
  rw [Group.exceptionOf, Group.exceptionOf, hk.outcomeOf hs' hstatus, hstatus]

/-- When all waiters have ended, the report stays as it is. -/
theorem KeepsOutcomes.report (hk : KeepsOutcomes s.group s'.group) (hs : Ordered s)
    (hs' : Ordered s') (hhandles : s'.group.handles = s.group.handles) (horder : s'.order = s.order)
    (hdone : ∀ w ∈ s.group.waiters, w.done = true) : s'.report = s.report := by
  have hknown : ∀ id ∈ s.order, ∃ status, s.group.outcomeOf id = some status := by
    intro id hid
    obtain ⟨status, hstatus, -⟩ := hs.outcome hid
    exact ⟨status, hstatus⟩
  have hall : ∀ id ∈ s.group.handles, ∃ status, s.group.outcomeOf id = some status :=
    fun id hid => hknown id ((hs.perm hdone).mem_iff.mpr hid)
  unfold EventLoop.report
  rw [hk.onError, horder, hhandles, hk.exceptions hs' hknown, hk.exceptions hs' hall]

/-! ## The callbacks -/

/-- `_job_finished` has noted the exceptions of the waiters for which it was called. -/
structure Noted (s : EventLoop) : Prop where
  calm : s.group.onError ≠ .cancelSiblings → s.due = []
  notified : s.group.onError = .cancelSiblings →
    ∀ w ∈ s.group.waiters, w.notified = true ↔ w.jobId ∈ s.called
  failures : s.group.onError = .cancelSiblings →
    s.group.failures = culprits (s.called.filterMap s.group.exceptionOf)
  cancelling : s.group.onError = .cancelSiblings →
    (s.group.cancelling = true ↔ s.called.filterMap s.group.exceptionOf ≠ [])

theorem Ordered.called (hs : Ordered s) :
    ∀ id ∈ s.called, ∃ status, s.group.outcomeOf id = some status := by
  intro id hid
  obtain ⟨status, hstatus, -⟩ := hs.outcome (List.mem_append_left _ hid)
  exact ⟨status, hstatus⟩

/-- Nobody is called back. -/
theorem Noted.keeps (hn : Noted s) (hs : Ordered s) (hs' : Ordered s')
    (hk : KeepsOutcomes s.group s'.group)
    (hcalm : s.group.onError ≠ .cancelSiblings → s'.due = [])
    (hcalled : s.group.onError = .cancelSiblings → s'.called = s.called)
    (hnotified : ∀ w' ∈ s'.group.waiters,
      (∃ w ∈ s.group.waiters, w.jobId = w'.jobId ∧ w.notified = w'.notified) ∨
        (w'.notified = false ∧ w'.jobId ∉ s.order))
    (hfailures : s'.group.failures = s.group.failures)
    (hcancelling : s'.group.cancelling = s.group.cancelling) : Noted s' where
  calm hmode := hcalm (hk.onError ▸ hmode)
  notified hmode w' hw' := by
    rw [hk.onError] at hmode
    rw [hcalled hmode]
    rcases hnotified w' hw' with ⟨w, hw, hid, hsame⟩ | ⟨hnot, hnew⟩
    · rw [← hid, ← hsame]
      exact hn.notified hmode w hw
    · rw [hnot]
      refine iff_of_false Bool.false_ne_true fun hmem => hnew ?_
      exact List.mem_append_left _ hmem
  failures hmode := by
    rw [hk.onError] at hmode
    rw [hfailures, hcalled hmode, hk.exceptions hs' hs.called]
    exact hn.failures hmode
  cancelling hmode := by
    rw [hk.onError] at hmode
    rw [hcancelling, hcalled hmode, hk.exceptions hs' hs.called]
    exact hn.cancelling hmode

/-- What `handle.result()` raises is the exception for the job's status. -/
theorem exceptionFor_eq (jobId : JobId) (exceptional : Bool) (status : JobStatus) :
    (∃ failure, resultOf exceptional status = .raised failure ∧
        exceptionFor jobId status = some (jobId, failure)) ∨
      (resultOf exceptional status = .returned exceptional ∧
        exceptionFor jobId status = none) := by
  cases status with
  | failed => exact Or.inl ⟨_, rfl, rfl⟩
  | cancelled => exact Or.inl ⟨_, rfl, rfl⟩
  | _ => exact Or.inr ⟨rfl, rfl⟩

theorem Group.jobFinished_returned {w : Waiter} {exceptional : Bool}
    (h : w.state = .returned exceptional) : g.jobFinished w = g := by
  unfold Group.jobFinished
  rw [h]

/-- `_job_finished`, for an exception. -/
theorem Group.jobFinished_raised_failures {w : Waiter} {failure : Failure}
    (h : w.state = .raised failure) :
    (g.jobFinished w).cancelling = true ∧
      (g.jobFinished w).failures =
        if g.cancelling = true ∧ failure = .jobCancelled then g.failures
        else g.failures ++ [(w.jobId, failure)] := by
  unfold Group.jobFinished
  rw [h]
  cases hc : g.cancelling with
  | true =>
    by_cases hf : failure = .jobCancelled
    · simp [hf, hc]
    · simp [hf]
  | false => simp

/-- The next waiter is called back. -/
theorem Noted.notify (hn : Noted s) (hs : Ordered s) (hs' : Ordered s') {w : Waiter}
    (hw : w ∈ s.group.waiters) {rest : List JobId} (hmode : s.group.onError = .cancelSiblings)
    (hdue : s.due = w.jobId :: rest) (hcalled : s'.called = s.called ++ [w.jobId])
    (hgroup : s'.group =
      s.group.notify w)
    (hk : KeepsOutcomes s.group s'.group) : Noted s' := by
  have hmem : w.jobId ∈ s.order := by
    rw [EventLoop.order, hdue]
    exact List.mem_append_right _ List.mem_cons_self
  obtain ⟨v, hv, hid, hdone⟩ := (hs.ended _).mp hmem
  rw [hs.unique hv hw hid] at hdone
  obtain ⟨status, exceptional, hcached, hstate⟩ := (hs.sound w hw).outcome hdone
  have hexception : s.group.exceptionOf w.jobId = exceptionFor w.jobId status := by
    rw [hs.exceptionOf hw, hcached]
    rfl
  have hknown : ∀ id ∈ s.called ++ [w.jobId], ∃ status, s.group.outcomeOf id = some status := by
    intro id hid
    rcases List.mem_append.mp hid with hid | hid
    · exact hs.called id hid
    · rw [List.mem_singleton.mp hid, hs.outcomeOf hw]
      exact ⟨status, hcached⟩
  have hexceptions : s'.called.filterMap s'.group.exceptionOf =
      s.called.filterMap s.group.exceptionOf ++ (exceptionFor w.jobId status).toList := by
    rw [hcalled, hk.exceptions hs' hknown, List.filterMap_append]
    congr 1
    rw [← hexception]
    cases h : s.group.exceptionOf w.jobId with
    | none => simp [h]
    | some f => simp [h]
  have hwas := hn.cancelling hmode
  refine ⟨fun hne => ?_, fun _ w' hw' => ?_, fun _ => ?_, fun _ => ?_⟩
  · exact (hne (hk.onError.trans hmode)).elim
  · rw [hgroup, Group.notify_waiters] at hw'
    rw [hcalled, List.mem_append, List.mem_singleton]
    obtain ⟨u, hu, ⟨rfl, hne⟩ | ⟨rfl, heq⟩⟩ := Group.mem_updateWaiter hw'
    · rw [hn.notified hmode _ hu]
      exact (or_iff_left hne).symm
    · exact iff_of_true rfl (Or.inr heq)
  · rw [hexceptions, hgroup]
    rcases exceptionFor_eq w.jobId exceptional status with
      ⟨failure, hraised, hex⟩ | ⟨hreturned, hex⟩
    · rw [Group.notify, (Group.jobFinished_raised_failures (hstate.trans hraised)).2, hex]
      show (if s.group.cancelling = true ∧ failure = .jobCancelled then s.group.failures
        else s.group.failures ++ [(w.jobId, failure)]) = _
      rw [Option.toList_some, culprits_concat, hn.failures hmode]
      simp only [hwas]
    · rw [Group.notify, Group.jobFinished_returned (hstate.trans hreturned), hex,
        Option.toList_none, List.append_nil]
      exact hn.failures hmode
  · rw [hexceptions, hgroup]
    rcases exceptionFor_eq w.jobId exceptional status with
      ⟨failure, hraised, hex⟩ | ⟨hreturned, hex⟩
    · rw [Group.notify, (Group.jobFinished_raised_failures (hstate.trans hraised)).1, hex]
      simp
    · rw [Group.notify, Group.jobFinished_returned (hstate.trans hreturned), hex,
        Option.toList_none, List.append_nil]
      exact hwas

/-! ## The owner -/

/-- Where the owner is, and what it knows there. The waiters that the drain awaits end after
all others. -/
inductive Placed (s : EventLoop) : Prop where
  | body (hp : s.group.phase = .body) (hraised : s.group.raised = none)
  | joining (hp : s.group.phase = .joining s.group.handles)
  | draining (pending : List JobId) (hp : s.group.phase = .draining pending)
      (hmode : s.group.onError = .cancelSiblings) (hne : pending ≠ [])
      (hsub : pending ⊆ s.group.handles)
      (hundone : ∀ w ∈ s.group.waiters, w.done = false → w.jobId ∈ pending)
      (hlater : s.order.Pairwise fun x y => x ∈ pending → y ∈ pending)
  | left (hp : s.group.phase.settled = true)
      (hdone : ∀ w ∈ s.group.waiters, w.done = true) (hraised : s.group.raised = raising s.report)

theorem Placed.regular (hs : Placed s) : s.group.phase.regular = true := by
  cases hs with
  | body hp => rw [hp]; rfl
  | joining hp => rw [hp]; rfl
  | draining pending hp => rw [hp]; rfl
  | left hp =>
    cases hphase : s.group.phase with
    | settling torn awaited withFanout => rfl
    | closed => rfl
    | _ =>
      rw [hphase] at hp
      cases hp

theorem Placed.of_body (hs : Placed s) (h : s.group.phase = .body) : s.group.raised = none := by
  cases hs with
  | body _ hraised => exact hraised
  | joining hp => cases h.symm.trans hp
  | draining pending hp => cases h.symm.trans hp
  | left hp =>
    rw [h] at hp
    cases hp

/-- The join watches the children that there are. -/
theorem Placed.of_joining (hs : Placed s) {watched : List JobId}
    (h : s.group.phase = .joining watched) : watched = s.group.handles := by
  cases hs with
  | joining hp =>
    cases h.symm.trans hp
    rfl
  | body hp => cases h.symm.trans hp
  | draining pending hp => cases h.symm.trans hp
  | left hp =>
    rw [h] at hp
    cases hp

theorem Placed.of_settled (hs : Placed s) (h : s.group.phase.settled = true) :
    (∀ w ∈ s.group.waiters, w.done = true) ∧ s.group.raised = raising s.report := by
  cases hs with
  | left _ hdone hraised => exact ⟨hdone, hraised⟩
  | body hp =>
    rw [hp] at h
    cases h
  | joining hp =>
    rw [hp] at h
    cases h
  | draining pending hp =>
    rw [hp] at h
    cases h

/-- The owner stays where it is, and no waiter ends. -/
theorem Placed.keeps (hp : Placed s) (hs : Ordered s) (hs' : Ordered s')
    (hk : KeepsOutcomes s.group s'.group) (hhandles : s'.group.handles = s.group.handles)
    (hphase : s'.group.phase = s.group.phase) (hraised : s'.group.raised = s.group.raised)
    (horder : s'.order = s.order)
    (hdone : ∀ w' ∈ s'.group.waiters, ∃ w ∈ s.group.waiters,
      w.jobId = w'.jobId ∧ w.done = w'.done) : Placed s' := by
  cases hp with
  | body hp hr => exact .body (hphase.trans hp) (hraised.trans hr)
  | joining hp => exact .joining (by rw [hphase, hp, hhandles])
  | draining pending hp hmode hne hsub hundone hlater =>
    refine .draining pending (hphase.trans hp) (hk.onError.trans hmode) hne (hhandles ▸ hsub) ?_
      (horder ▸ hlater)
    intro w' hw' hnot
    obtain ⟨w, hw, hid, hsame⟩ := hdone w' hw'
    rw [← hid]
    exact hundone w hw (hsame.trans hnot)
  | left hp hall hr =>
    refine .left (hphase ▸ hp) (fun w' hw' => ?_) ?_
    · obtain ⟨w, hw, -, hsame⟩ := hdone w' hw'
      exact hsame ▸ hall w hw
    · rw [hraised, hr, hk.report hs hs' hhandles horder hall]

/-- A waiter ends: it is one that the drain awaits. -/
theorem Placed.report (hp : Placed s) {w : Waiter} (hw : w ∈ s.group.waiters)
    (hnot : w.done = false) (hmode : s'.group.onError = s.group.onError)
    (hhandles : s'.group.handles = s.group.handles) (hphase : s'.group.phase = s.group.phase)
    (hraised : s'.group.raised = s.group.raised) (horder : s'.order = s.order ++ [w.jobId])
    (hdone : ∀ w' ∈ s'.group.waiters, w'.done = false →
      ∃ w ∈ s.group.waiters, w.jobId = w'.jobId ∧ w.done = false) : Placed s' := by
  cases hp with
  | body hp hr => exact .body (hphase.trans hp) (hraised.trans hr)
  | joining hp => exact .joining (by rw [hphase, hp, hhandles])
  | draining pending hp hmode' hne hsub hundone hlater =>
    refine .draining pending (hphase.trans hp) (hmode.trans hmode') hne (hhandles ▸ hsub) ?_ ?_
    · intro w' hw' hnot'
      obtain ⟨v, hv, hid, hv'⟩ := hdone w' hw' hnot'
      rw [← hid]
      exact hundone v hv hv'
    · rw [horder, List.pairwise_append]
      refine ⟨hlater, List.pairwise_singleton _ _, fun x _ y hy _ => ?_⟩
      rw [List.mem_singleton.mp hy]
      exact hundone w hw hnot
  | left hp hall hr =>
    rw [hall w hw] at hnot
    cases hnot

/-- With all waiters done, leaving the join cancels none. -/
theorem Group.joined_of_done (h : ∀ w ∈ g.waiters, w.done = true)
    (failures : List (JobId × Failure)) :
    g.joined failures =
      { g with
          raised := raising failures, phase := .settling false g.handles g.fanout.isSome } := by
  unfold Group.joined Group.settle
  rw [Group.cancelWaiters_of_done (by exact h)]
  rfl

/-- The owner is out of the join, and `failures` is the report. -/
theorem Placed.joined (hdone : ∀ w ∈ s.group.waiters, w.done = true)
    {failures : List (JobId × Failure)} (h : failures = s.report) :
    Placed (s.moveTo (s.system.moveTo (s.group.joined failures))) := by
  rw [Group.joined_of_done hdone]
  exact .left rfl hdone (by rw [h]; rfl)

/-- The callbacks that woke the wait: one for a child that broke the scope, or all. -/
theorem Noted.wake (hn : Noted s) (hs : Ordered s) (hmode : s.group.onError = .cancelSiblings)
    (hwake : s.group.firstException s.group.handles = true) :
    s.called.filterMap s.group.exceptionOf ≠ [] ∨
      ∀ w ∈ s.group.waiters, w.jobId ∈ s.called := by
  rcases Bool.or_eq_true_iff.mp hwake with hany | hall
  · left
    obtain ⟨w, hw, hfailed⟩ := List.any_eq_true.mp hany
    simp only [Bool.and_eq_true] at hfailed
    obtain ⟨⟨-, hnotified⟩, hfailed⟩ := hfailed
    have hcalled : w.jobId ∈ s.called := (hn.notified hmode w hw).mp hnotified
    have hdone : w.done = true := by
      cases hstate : w.state with
      | pending | unwinding => simp [Waiter.failed, hstate] at hfailed
      | _ => simp [Waiter.done, hstate]
    obtain ⟨status, exceptional, hcached, hstate⟩ := (hs.sound w hw).outcome hdone
    rcases exceptionFor_eq w.jobId exceptional status with ⟨failure, -, hex⟩ | ⟨hreturned, -⟩
    · have hexception : s.group.exceptionOf w.jobId = some (w.jobId, failure) := by
        rw [hs.exceptionOf hw, hcached]
        exact hex
      exact List.ne_nil_of_mem (List.mem_filterMap.mpr ⟨w.jobId, hcalled, hexception⟩)
    · rw [Waiter.failed, hstate, hreturned] at hfailed
      cases hfailed
  · right
    intro w hw
    have hw' := List.all_eq_true.mp hall w hw
    have hmem : w.jobId ∈ s.group.handles := List.mem_map_of_mem hw
    simp only [hmem, not_true_eq_false, decide_false, Bool.false_or] at hw'
    exact (hn.notified hmode w hw).mp hw'

/-- If all that ended before it were called back, no callback is due. -/
theorem Ordered.due_eq_nil (hs : Ordered s) (h : ∀ id ∈ s.due, id ∈ s.called) : s.due = [] := by
  refine List.eq_nil_iff_forall_not_mem.mpr fun id hid => ?_
  exact (List.nodup_append.mp hs.nodup).2.2 id (h id hid) id hid rfl

/-- The wait wakes with nothing pending, and the failures are the report. -/
theorem Noted.finished (hn : Noted s) (hs : Ordered s) (hmode : s.group.onError = .cancelSiblings)
    (hwake : s.group.firstException s.group.handles = true)
    (htimely : ∀ id ∈ s.due, s.group.outcomeOf id ≠ some .failed) :
    s.group.failures = s.report := by
  rw [hn.failures hmode, EventLoop.report, hmode, EventLoop.order, List.filterMap_append]
  refine (culprits_append ?_ fun f hf => ?_).symm
  · intro hnone
    rcases hn.wake hs hmode hwake with hsome | hall
    · exact (hsome hnone).elim
    · have hdue : s.due = [] := by
        refine hs.due_eq_nil fun id hid => ?_
        obtain ⟨w, hw, rfl, -⟩ := (hs.ended id).mp (List.mem_append_right _ hid)
        exact hall w hw
      rw [hdue]
      rfl
  · obtain ⟨id, hid, hex⟩ := List.mem_filterMap.mp hf
    obtain ⟨status, hstatus, hfor⟩ := Option.bind_eq_some_iff.mp hex
    cases status with
    | failed => exact (htimely id hid hstatus).elim
    | cancelled =>
      cases hfor
      rfl
    | _ => cases hfor

/-- The drain is over: its waiters ended last, and they were called back. -/
theorem Noted.drained (hn : Noted s) (hs : Ordered s) {pending : List JobId}
    (hmode : s.group.onError = .cancelSiblings) (hne : pending ≠ [])
    (hsub : pending ⊆ s.group.handles)
    (hlater : s.order.Pairwise fun x y => x ∈ pending → y ∈ pending)
    (hcalled : ∀ w ∈ s.group.waiters, w.jobId ∈ pending → w.notified = true) :
    s.group.failures = s.report := by
  have hmem : ∀ id ∈ pending, id ∈ s.called := by
    intro id hid
    obtain ⟨w, hw, rfl⟩ := List.mem_map.mp (hsub hid)
    exact (hn.notified hmode w hw).mp (hcalled w hw hid)
  obtain ⟨first, hfirst⟩ := List.exists_mem_of_ne_nil pending hne
  have hdue : s.due = [] := by
    refine hs.due_eq_nil fun id hid => hmem id ?_
    exact (List.pairwise_append.mp hlater).2.2 first (hmem first hfirst) id hid hfirst
  rw [hn.failures hmode, EventLoop.report, hmode, EventLoop.order, hdue, List.append_nil]

/-- `gather` returns the exceptions in the order of the waiters, and no other. -/
theorem Ordered.exceptions (hs : Ordered s) (hdone : ∀ w ∈ s.group.waiters, w.done = true)
    (hplain : ∀ w ∈ s.group.waiters, w.state ≠ .returned true) :
    s.group.exceptions s.group.handles = s.group.handles.filterMap s.group.exceptionOf := by
  have hhandles : s.group.handles.filterMap s.group.exceptionOf =
      s.group.waiters.filterMap fun w => s.group.exceptionOf w.jobId := by
    rw [Group.handles, List.filterMap_map]
    rfl
  rw [hhandles, Group.exceptions]
  refine List.filterMap_congr fun w hw => ?_
  have hmem : w.jobId ∈ s.group.handles := List.mem_map_of_mem hw
  obtain ⟨status, exceptional, hcached, hstate⟩ := (hs.sound w hw).outcome (hdone w hw)
  rw [hs.exceptionOf hw, hcached, Option.bind_some, hstate]
  rcases exceptionFor_eq w.jobId exceptional status with ⟨failure, hraised, hex⟩ |
    ⟨hreturned, hex⟩
  · rw [hraised, hex]
    exact if_pos hmem
  · have hvalue : exceptional = false := by
      have hnot := hplain w hw
      rw [hstate, hreturned] at hnot
      simpa using hnot
    rw [hreturned, hex, hvalue]

/-- A move of the owner leaves what it knows of its children as it is. -/
structure SameNotes (g g' : Group) : Prop where
  onError : g'.onError = g.onError
  hasDeadline : g'.hasDeadline = g.hasDeadline
  waiters : g'.waiters = g.waiters
  failures : g'.failures = g.failures
  cancelling : g'.cancelling = g.cancelling

theorem Ordered.same (hs : Ordered s) {sys : System} (h : SameNotes s.group sys.group) :
    Ordered (s.moveTo sys) := hs.of_waiters h.waiters rfl

theorem Noted.same (hn : Noted s) (hs : Ordered s) {sys : System}
    (h : SameNotes s.group sys.group) : Noted (s.moveTo sys) :=
  hn.keeps hs (hs.same h) (.of_waiters h.onError h.waiters) hn.calm (fun _ => rfl)
    (fun w hw => Or.inl ⟨w, h.waiters ▸ hw, rfl, rfl⟩) h.failures h.cancelling

theorem SameNotes.plain (h : SameNotes g g')
    (hplain : g.onError = .collect → ∀ w ∈ g.waiters, w.state ≠ .returned true) :
    g'.onError = .collect → ∀ w ∈ g'.waiters, w.state ≠ .returned true := by
  rw [h.onError, h.waiters]
  exact hplain

theorem SameNotes.joined (h : ∀ w ∈ g.waiters, w.done = true)
    (failures : List (JobId × Failure)) : SameNotes g (g.joined failures) := by
  rw [Group.joined_of_done h]
  exact ⟨rfl, rfl, rfl, rfl, rfl⟩

/-- The owner's moves. -/
theorem Departs.spec (h : Departs s.group e g) (hn : Noted s) (hs : Ordered s) (hp : Placed s)
    (hplain : s.group.onError = .collect → ∀ w ∈ s.group.waiters, w.state ≠ .returned true)
    (htimely : s.timely e = true) :
    SameNotes s.group g ∧ Placed (s.moveTo (s.system.moveTo g)) := by
  have hall : s.group.undone s.group.handles = [] → ∀ w ∈ s.group.waiters, w.done = true :=
    fun hundone => Group.done_of_undone hundone fun w hw _ => List.mem_map_of_mem hw
  cases h with
  | bodyEmpty hphase hempty =>
    have hempty' : s.group.handles = [] := (List.append_eq_nil_iff.mp hempty).2
    have hnone : s.group.waiters = [] := List.map_eq_nil_iff.mp hempty'
    have hdone : ∀ w ∈ s.group.waiters, w.done = true := by simp [hnone]
    have hreport : s.report = [] := by
      have horder : s.order = [] := List.perm_nil.mp (hempty' ▸ hs.perm hdone)
      unfold EventLoop.report
      rw [horder, hempty']
      split <;> rfl
    have hsettle : s.group.settle false =
        { s.group with phase := .settling false s.group.handles s.group.fanout.isSome } := by
      rw [Group.settle, Group.cancelWaiters_of_done hdone]
    rw [hsettle]
    refine ⟨⟨rfl, rfl, rfl, rfl, rfl⟩, .left rfl hdone ?_⟩
    show s.group.raised = raising s.report
    rw [hp.of_body hphase, hreport]
    rfl
  | emptyWait hphase hmode hdetached hempty =>
    simp [EventLoop.timely, hmode, hdetached, hempty] at htimely
  | bodyDone hphase => exact ⟨⟨rfl, rfl, rfl, rfl, rfl⟩, .joining rfl⟩
  | ignored watched hphase hmode hundone =>
    have hdone := hall (hp.of_joining hphase ▸ hundone)
    refine ⟨.joined hdone _, .joined hdone ?_⟩
    rw [EventLoop.report, hmode]
  | collected watched hphase hmode hundone =>
    have hdone := hall (hp.of_joining hphase ▸ hundone)
    refine ⟨.joined hdone _, .joined hdone ?_⟩
    rw [EventLoop.report, hmode, hp.of_joining hphase, hs.exceptions hdone (hplain hmode)]
  | finished watched hphase hmode hwake hundone =>
    rw [hp.of_joining hphase] at hundone hwake
    have hdone := hall hundone
    have hdue : ∀ id ∈ s.due, s.group.outcomeOf id ≠ some .failed := by
      simpa [EventLoop.timely, hundone] using htimely
    exact ⟨.joined hdone _, .joined hdone (hn.finished hs hmode hwake hdue)⟩
  | draining watched hphase hmode hpending =>
    rw [hp.of_joining hphase] at hpending ⊢
    refine ⟨⟨rfl, rfl, rfl, rfl, rfl⟩, .draining _ rfl hmode hpending ?_ ?_ ?_⟩
    · exact fun id hid => Group.mem_handles_of_undone hid
    · exact fun w hw hnot => Group.mem_undone.mpr ⟨w, hw, rfl, List.mem_map_of_mem hw, hnot⟩
    · -- all that have ended so far are not pending
      refine List.pairwise_of_forall_mem_list fun x hx y _ hmem => ?_
      obtain ⟨w, hw, rfl, -, hnot⟩ := Group.mem_undone.mp hmem
      exact (hs.not_mem hw hnot hx).elim
  | backstop watched hphase hmode hwake hpending hcalm =>
    -- the callback that woke the wait came after `_job_finished`
    rw [hp.of_joining hphase] at hpending hwake
    exfalso
    rcases hn.wake hs hmode hwake with hsome | hcalled
    · rw [(hn.cancelling hmode).mpr hsome] at hcalm
      cases hcalm
    · obtain ⟨id, hid⟩ := List.exists_mem_of_ne_nil _ hpending
      obtain ⟨w, hw, rfl, -, hnot⟩ := Group.mem_undone.mp hid
      exact hs.not_mem hw hnot (List.mem_append_left _ (hcalled w hw))
  | drained pending hphase hundone hcalled =>
    cases hp with
    | draining pending' hp hmode hne hsub hin hlater =>
      cases hphase.symm.trans hp
      have hdone := Group.done_of_undone hundone hin
      exact ⟨.joined hdone _, .joined hdone (hn.drained hs hmode hne hsub hlater hcalled)⟩
    | body hp => cases hphase.symm.trans hp
    | joining hp => cases hphase.symm.trans hp
    | left hp =>
      rw [hphase] at hp
      cases hp
  | closed torn withFanout awaited hphase =>
    obtain ⟨hdone, hraised⟩ := hp.of_settled (by rw [hphase]; rfl)
    exact ⟨⟨rfl, rfl, rfl, rfl, rfl⟩, .left rfl hdone hraised⟩

/-! ## Runs -/

/-- What holds of a scope as long as it is undisturbed. -/
structure Undisturbed (s : EventLoop) : Prop where
  asked : Asked s.group
  fanning : Fanning s.group
  noDeadline : s.group.hasDeadline = false
  ordered : Ordered s
  plain : s.group.onError = .collect → ∀ w ∈ s.group.waiters, w.state ≠ .returned true
  noted : Noted s
  placed : Placed s

theorem undisturbed_init (table : Table) (onError : OnError) (detached : List JobId) :
    Undisturbed (eventLoop table onError detached).init where
  asked := asked_enter onError false detached
  fanning torn awaited hp := by cases hp
  noDeadline := rfl
  ordered := by
    refine ⟨List.nodup_nil, List.nodup_nil, fun id => ?_, fun w hw => by cases hw⟩
    simp [eventLoop, machine, EventLoop.order, EventLoop.group, Group.enter]
  plain _ w hw := by cases hw
  noted := by
    refine ⟨fun _ => rfl, fun _ w hw => (by cases hw), fun _ => rfl, fun _ => ?_⟩
    simp [eventLoop, machine, EventLoop.group, Group.enter]
  placed := .body rfl rfl

theorem Undisturbed.step (hs : Undisturbed s) (hu : e.undisturbed = true)
    (ht : s.timely e = true) (h : s.step e = some s') : Undisturbed s' := by
  have hasked : Asked s'.group := hs.asked.step (system_of_step h)
  have hfanning : Fanning s'.group := hs.fanning.step (system_of_step h)
  obtain ⟨hasked₀, -, hdeadline, hordered, hplain, hnoted, hplaced⟩ := hs
  have hwaiters : ∀ w ∈ s.group.waiters, w.state ≠ .unwinding := fun w hw =>
    (hordered.sound w hw).not_unwinding
  cases moves_of_step hplaced.regular hdeadline hwaiters hu h with
  | aside e sys hsame =>
    have hnotes : SameNotes s.group sys.group :=
      ⟨hsame.onError, hsame.hasDeadline, hsame.waiters, hsame.failures, hsame.cancelling⟩
    refine ⟨hasked, hfanning, hsame.hasDeadline.trans hdeadline, hordered.same hnotes,
      hnotes.plain hplain, hnoted.same hordered hnotes, ?_⟩
    refine hplaced.keeps hordered (hordered.same hnotes) (.of_waiters hsame.onError hsame.waiters)
      ?_ hsame.phase hsame.raised rfl fun w hw => ⟨w, hsame.waiters ▸ hw, rfl, rfl⟩
    show sys.group.waiters.map Waiter.jobId = s.group.waiters.map Waiter.jobId
    rw [hsame.waiters]
  | spawned sp hsp =>
    have hbody : s.group.phase = .body := of_decide_eq_true ht
    have hnew : sp.record.id ∉ s.group.handles :=
      fun hmem => hasked₀.apart sp hsp (Group.mem_jobs hmem)
    have hordered' := hordered.register hnew
    have hplain' : s.group.onError = .collect →
        ∀ w ∈ (s.group.register sp.record.id).waiters, w.state ≠ .returned true := by
      intro hmode w hw
      rcases List.mem_append.mp hw with hw | hw
      · exact hplain hmode w hw
      · rw [List.mem_singleton.mp hw]
        simp
    refine ⟨hasked, hfanning, hdeadline, hordered', hplain', ?_,
      .body hbody (hplaced.of_body hbody)⟩
    refine hnoted.keeps hordered hordered' ⟨rfl, fun w hw _ => ?_⟩ hnoted.calm (fun _ => rfl)
      (fun w hw => ?_) rfl rfl
    · exact ⟨w, List.mem_append_left _ hw, rfl, rfl⟩
    · rcases List.mem_append.mp hw with hw | hw
      · exact Or.inl ⟨w, hw, rfl, rfl⟩
      · rw [List.mem_singleton.mp hw]
        exact Or.inr ⟨rfl, fun hmem => hnew (hordered.mem_handles hmem)⟩
  | take t w hw hcached status hstatus =>
    have hid : ∀ v : Waiter, (v.take status).jobId = v.jobId := fun v => v.take_jobId status
    have hordered' : Ordered (s.moveTo ⟨t, s.group.updateWaiter w.jobId (Waiter.take status)⟩) :=
      hordered.update rfl rfl hid (fun v => v.done_take status) fun v hv => hv.take hstatus
    have hk : KeepsOutcomes s.group (s.group.updateWaiter w.jobId (Waiter.take status)) :=
      .update rfl rfl hid fun v hv => by rw [Waiter.take, if_neg hv]
    have hnotified : ∀ v : Waiter, (v.take status).notified = v.notified := by
      intro v
      unfold Waiter.take
      split <;> rfl
    refine ⟨hasked, hfanning, hdeadline, hordered', fun hmode v hv => ?_, ?_, ?_⟩
    · obtain ⟨u, hu, ⟨rfl, -⟩ | ⟨rfl, -⟩⟩ := Group.mem_updateWaiter hv
      · exact hplain hmode _ hu
      · rw [u.take_state]
        exact hplain hmode u hu
    · exact hnoted.keeps hordered hordered' hk hnoted.calm (fun _ => rfl)
        (fun v hv => Or.inl (Group.mem_update hid hnotified hv)) rfl rfl
    · exact hplaced.keeps hordered hordered' hk (Group.handles_updateWaiter _ hid) rfl rfl rfl
        fun v hv => Group.mem_update hid (fun v => v.done_take status) hv
  | report w hw hdone hcached exceptional =>
    have hid : ∀ v : Waiter, (v.report exceptional).jobId = v.jobId :=
      fun v => v.report_jobId exceptional
    have hk : KeepsOutcomes s.group (s.group.updateWaiter w.jobId (Waiter.report exceptional)) :=
      .update rfl rfl hid fun v _ => v.report_cached exceptional
    have horder := order_ends s hnoted.calm w.jobId
      (s.system.moveTo (s.group.updateWaiter w.jobId (Waiter.report exceptional)))
    have hgroup := group_ends s w.jobId
      (s.system.moveTo (s.group.updateWaiter w.jobId (Waiter.report exceptional)))
    have hordered' := hordered.report hw hdone hcached (congrArg Group.waiters hgroup) horder
    have hnotified : ∀ v : Waiter, (v.report exceptional).notified = v.notified := by
      intro v
      unfold Waiter.report
      split
      · split <;> rfl
      · rfl
    have hends : ∀ v' ∈ (s.group.updateWaiter w.jobId (Waiter.report exceptional)).waiters,
        v'.done = false → ∃ v ∈ s.group.waiters, v.jobId = v'.jobId ∧ v.done = false := by
      intro v' hv' hnot
      obtain ⟨v, hv, ⟨rfl, -⟩ | ⟨rfl, -⟩⟩ := Group.mem_updateWaiter hv'
      · exact ⟨_, hv, rfl, hnot⟩
      · exact ⟨v, hv, (hid v).symm, (Waiter.Advances.report v exceptional).done hnot⟩
    refine ⟨hasked, hfanning, ?_, hordered', ?_, ?_, ?_⟩
    · rw [hgroup]
      exact hdeadline
    · rw [hgroup]
      intro hmode v' hv'
      have hmode' : s.group.onError = .collect := hmode
      obtain ⟨v, hv, ⟨rfl, -⟩ | ⟨rfl, -⟩⟩ := Group.mem_updateWaiter hv'
      · exact hplain hmode _ hv
      · have hvalue : exceptional = false := by simpa [EventLoop.timely, hmode'] using ht
        rw [hvalue]
        exact v.report_plain (hplain hmode v hv)
    · refine hnoted.keeps hordered hordered' (hgroup ▸ hk) (fun hmode => ?_)
        (fun hmode => ?_) ?_ ?_ ?_
      · unfold EventLoop.ends
        cases hm : s.group.onError with
        | cancelSiblings => exact (hmode hm).elim
        | ignore => exact hnoted.calm hmode
        | collect => exact hnoted.calm hmode
      · rw [EventLoop.ends, hmode]
      · rw [hgroup]
        exact fun v hv => Or.inl (Group.mem_update hid hnotified hv)
      · rw [hgroup]
        rfl
      · rw [hgroup]
        rfl
    · refine hplaced.report hw hdone ?_ ?_ ?_ ?_ horder ?_
      · rw [hgroup]
        rfl
      · rw [hgroup]
        exact Group.handles_updateWaiter _ hid
      · rw [hgroup]
        rfl
      · rw [hgroup]
        rfl
      · rw [hgroup]
        exact hends
  | notify w hw rest hmode hdue =>
    have horder : s.called ++ [w.jobId] ++ rest = s.order := by
      rw [EventLoop.order, hdue, List.append_assoc]
      rfl
    have hordered' : Ordered ⟨s.system.moveTo (s.group.notify w), s.called ++ [w.jobId], rest⟩ :=
      hordered.update (Group.notify_waiters w) horder Waiter.notify_jobId Waiter.notify_done
        fun v hv => ⟨hv.state, hv.terminal⟩
    have hk : KeepsOutcomes s.group (s.group.notify w) :=
      .update (Group.notify_onError w) (Group.notify_waiters w) Waiter.notify_jobId fun _ _ => rfl
    refine ⟨hasked, hfanning, (Group.notify_hasDeadline w).trans hdeadline, hordered',
      fun hmode' => ?_, ?_, ?_⟩
    · cases hmode.symm.trans ((Group.notify_onError w).symm.trans hmode')
    · exact hnoted.notify hordered hordered' hw hmode hdue rfl rfl hk
    · exact hplaced.keeps hordered hordered' hk (Group.notify_handles w) (Group.notify_phase w)
        (Group.notify_raised w) horder fun v hv => Group.mem_notify hv
  | leaves e g hdeparts =>
    obtain ⟨hnotes, hplaced'⟩ := hdeparts.spec hnoted hordered hplaced hplain ht
    exact ⟨hasked, hfanning, hnotes.hasDeadline.trans hdeadline, hordered.same hnotes,
      hnotes.plain hplain, hnoted.same hordered hnotes, hplaced'⟩

/-- A child with a final status has no exception exactly if it completed. -/
theorem Group.exceptionOf_eq_none {status : JobStatus} (h : g.outcomeOf jobId = some status)
    (hterminal : status.terminal = true) :
    g.exceptionOf jobId = none ↔ g.outcomeOf jobId = some .completed := by
  rw [Group.exceptionOf, h]
  cases status with
  | completed => simp [exceptionFor]
  | failed => simp [exceptionFor]
  | cancelled => simp [exceptionFor]
  | _ => cases hterminal

/-- A scope that raises does so for a child that did not complete. -/
theorem Undisturbed.raises (hs : Undisturbed s) (hdone : ∀ w ∈ s.group.waiters, w.done = true)
    (hmode : s.group.onError ≠ .ignore) :
    s.report ≠ [] ↔ ∃ jobId ∈ s.group.handles, s.group.outcomeOf jobId ≠ some .completed := by
  have hmem : ∀ id, id ∈ s.order ↔ id ∈ s.group.handles := fun id =>
    (hs.ordered.perm hdone).mem_iff
  have hnone : s.report = [] ↔ ∀ id ∈ s.group.handles, s.group.exceptionOf id = none := by
    unfold EventLoop.report
    cases hm : s.group.onError with
    | ignore => exact (hmode hm).elim
    | collect => exact List.filterMap_eq_nil_iff
    | cancelSiblings =>
      refine culprits_eq_nil.trans (List.filterMap_eq_nil_iff.trans ?_)
      exact forall_congr' fun id => imp_congr_left (hmem id)
  rw [ne_eq, hnone, not_forall]
  refine exists_congr fun id => ?_
  rw [Classical.not_imp]
  refine and_congr_right fun hid => not_congr ?_
  obtain ⟨status, hstatus, hterminal⟩ := hs.ordered.outcome ((hmem id).mpr hid)
  exact Group.exceptionOf_eq_none hstatus hterminal

theorem Undisturbed.reports (hs : Undisturbed s) : Reports s := by
  intro hclosed
  obtain ⟨hdone, hraised⟩ := hs.placed.of_settled (by rw [hclosed]; rfl)
  have hperm := hs.ordered.perm hdone
  constructor
  case ended => exact hperm
  case outcome => exact fun id hid => hs.ordered.outcome (hperm.mem_iff.mpr hid)
  case raised => exact hraised
  case raises =>
    intro hmode
    rw [hraised, ne_eq, raising_eq_none]
    exact hs.raises hdone hmode

/-- A run that goes right keeps what holds of an undisturbed scope. -/
theorem undisturbed_along (table : Table) (onError : OnError) (detached : List JobId)
    (es : List Event)
    (hu : (eventLoop table onError detached).Along (fun _ e _ => e.undisturbed = true)
      (eventLoop table onError detached).init es)
    (ht : (eventLoop table onError detached).Along (fun s e _ => s.timely e = true)
      (eventLoop table onError detached).init es) :
    (eventLoop table onError detached).Along (fun _ _ s' => Undisturbed s')
      (eventLoop table onError detached).init es := by
  refine Machine.along_of_invariant (J := Undisturbed)
    (C := fun s e => e.undisturbed = true ∧ s.timely e = true) ?_
    (undisturbed_init table onError detached)
    (hu.and ht)
  intro s e s' hs hc h
  have hs' := hs.step hc.1 hc.2 h
  exact ⟨hs', hs'⟩

/-- **A scope reports exactly what broke it**, for any children, outcomes and orders of
completion, in every run in which no child is registered after the body has ended, each time
the wait of `cancel_siblings_mode` wakes with nothing pending `_job_finished` is not due for
a child that failed, no task returns an exception object to `collect_mode`, and
`cancel_siblings_mode` is not entered with handles and no waiter. -/
theorem reports_along (table : Table) (onError : OnError) (detached : List JobId)
    (es : List Event)
    (hu : (eventLoop table onError detached).Along (fun _ e _ => e.undisturbed = true)
      (eventLoop table onError detached).init es)
    (ht : (eventLoop table onError detached).Along (fun s e _ => s.timely e = true)
      (eventLoop table onError detached).init es) :
    (eventLoop table onError detached).Along (fun _ _ s' => Reports s')
      (eventLoop table onError detached).init es :=
  (undisturbed_along table onError detached es hu ht).mono fun _ _ _ _ hs => hs.reports

/-! ## The scope closes -/

/-- The owner's steps out. -/
def Phase.remaining : Phase → Nat
  | .closed => 0
  | .settling _ _ _ => 1
  | _ => 2

/-- What is left to do once all waiters have ended: the callbacks, the fan-out's requests,
and the owner's way out. -/
def EventLoop.remaining (s : EventLoop) : Nat :=
  s.due.length + (s.group.fanout.getD []).length + s.group.phase.remaining

/-- The waiters have ended, the body has, and the scope is open. -/
structure Ending (s : EventLoop) : Prop where
  undisturbed : Undisturbed s
  done : ∀ w ∈ s.group.waiters, w.done = true
  left : s.group.phase ≠ .body

/-- A step towards the end. -/
def Approaches (s : EventLoop) (e : Event) (s' : EventLoop) : Prop :=
  s.step e = some s' ∧ e.undisturbed = true ∧ s.timely e = true ∧ s'.remaining < s.remaining ∧
    (∀ w ∈ s'.group.waiters, w.done = true) ∧ s'.group.phase ≠ .body

theorem Group.undone_of_done (h : ∀ w ∈ g.waiters, w.done = true) (ids : List JobId) :
    g.undone ids = [] := by
  refine List.eq_nil_iff_forall_not_mem.mpr fun id hid => ?_
  obtain ⟨w, hw, -, -, hnot⟩ := Group.mem_undone.mp hid
  rw [h w hw] at hnot
  cases hnot

/-- With all waiters done, there is nobody to fan out to. -/
theorem Group.notify_fanout (h : ∀ w ∈ g.waiters, w.done = true) (w : Waiter) :
    ((g.notify w).fanout.getD []).length ≤ (g.fanout.getD []).length := by
  have hundone : ∀ ids, (g.updateWaiter w.jobId Waiter.notify).undone ids = [] := by
    refine Group.undone_of_done fun v hv => ?_
    obtain ⟨u, hu, -, hsame⟩ := Group.mem_update Waiter.notify_jobId Waiter.notify_done hv
    exact hsame ▸ h u hu
  rcases (g.updateWaiter w.jobId Waiter.notify).jobFinished_cases w with ⟨failures, hg⟩ |
    ⟨-, failures, hg⟩
  · rw [Group.notify, hg]
    exact Nat.le_refl _
  · rw [Group.notify, hg, hundone]
    exact Nat.zero_le _

/-- The next callback can run. -/
theorem Ending.notify (hs : Ending s) {rest : List JobId} (hdue : s.due = jobId :: rest) :
    ∃ e s', Approaches s e s' := by
  obtain ⟨⟨-, -, -, hordered, -, hnoted, -⟩, hdone, hleft⟩ := hs
  have hmode : s.group.onError = .cancelSiblings := by
    by_contra hne
    rw [hnoted.calm hne] at hdue
    cases hdue
  have hmem : jobId ∈ s.order := by
    rw [EventLoop.order, hdue]
    exact List.mem_append_right _ List.mem_cons_self
  obtain ⟨w, hw, rfl, hended⟩ := (hordered.ended jobId).mp hmem
  have hnew : w.notified = false := by
    rw [← Bool.not_eq_true, hnoted.notified hmode w hw]
    intro hcalled
    have hnodup := hordered.nodup
    rw [EventLoop.order, hdue] at hnodup
    exact (List.nodup_append.mp hnodup).2.2 _ hcalled _ List.mem_cons_self rfl
  refine ⟨.notify w.jobId, ⟨s.system.moveTo (s.group.notify w), s.called ++ [w.jobId], rest⟩, ?_,
    rfl, rfl, ?_, ?_, ?_⟩
  · have hwaiter : s.system.group.waiterOf w.jobId = some w := hordered.waiterOf hw
    have hcond : s.system.group.onError = .cancelSiblings ∧ w.done = true ∧ w.notified = false :=
      ⟨hmode, hended, hnew⟩
    simp only [EventLoop.step, hdue, if_true, System.step, hwaiter, if_pos hcond, Option.map_some]
    rfl
  · have hrest : s.due.length = rest.length + 1 := by rw [hdue, List.length_cons]
    have hfanout := Group.notify_fanout hdone w
    show rest.length + ((s.group.notify w).fanout.getD []).length
        + (s.group.notify w).phase.remaining
      < s.due.length + (s.group.fanout.getD []).length + s.group.phase.remaining
    rw [Group.notify_phase, hrest]
    omega
  · intro v hv
    obtain ⟨u, hu, -, hsame⟩ := Group.mem_notify hv
    exact hsame ▸ hdone u hu
  · exact fun hbody => hleft ((Group.notify_phase w).symm.trans hbody)

/-- The owner leaves the join. -/
theorem Ending.joined (hs : Ending s) {e : Event} (hdue : s.due = [])
    (hp : s.group.phase.remaining = 2) (failures : List (JobId × Failure))
    (h : s.step e = some (s.moveTo (s.system.moveTo (s.group.joined failures))))
    (hu : e.undisturbed = true) (he : e = .joinWake ∨ e = .drained) :
    ∃ e s', Approaches s e s' := by
  refine ⟨e, _, h, hu, ?_, ?_, ?_, ?_⟩
  · rcases he with rfl | rfl
    · simp [EventLoop.timely, hdue]
    · rfl
  · show s.due.length + ((s.group.joined failures).fanout.getD []).length
      + (s.group.joined failures).phase.remaining
      < s.due.length + (s.group.fanout.getD []).length + s.group.phase.remaining
    rw [Group.joined_of_done hs.done, hp]
    exact Nat.lt_succ_self _
  · show ∀ w ∈ (s.group.joined failures).waiters, w.done = true
    rw [Group.joined_of_done hs.done]
    exact hs.done
  · show (s.group.joined failures).phase ≠ .body
    rw [Group.joined_of_done hs.done]
    exact fun hbody => by cases hbody

/-- With no callback due, the owner can move, or the fan-out can. -/
theorem Ending.owner (hs : Ending s) (hdue : s.due = []) (hopen : s.group.phase ≠ .closed) :
    ∃ e s', Approaches s e s' := by
  have hordered := hs.undisturbed.ordered
  have hcalled : ∀ w ∈ s.group.waiters, w.jobId ∈ s.called := by
    intro w hw
    have hmem : w.jobId ∈ s.order := (hordered.ended _).mpr ⟨w, hw, rfl, hs.done w hw⟩
    rwa [EventLoop.order, hdue, List.append_nil] at hmem
  have hundone := Group.undone_of_done hs.done
  cases hs.undisturbed.placed with
  | body hp => exact (hs.left hp).elim
  | joining hp =>
    have hphase : s.system.group.phase = .joining s.group.handles := hp
    have hwake : ∃ failures, s.group.joinWake s.group.handles = some (s.group.joined failures) := by
      unfold Group.joinWake
      cases hmode : s.group.onError with
      | cancelSiblings =>
        have hfirst : s.group.firstException s.group.handles = true := by
          refine Bool.or_eq_true_iff.mpr (Or.inr (List.all_eq_true.mpr fun w hw => ?_))
          rw [(hs.undisturbed.noted.notified hmode w hw).mpr (hcalled w hw), Bool.or_true]
        refine ⟨s.group.failures, ?_⟩
        simp only [hfirst, if_true, Group.cancelSiblingsMode, hundone]
      | ignore => exact ⟨[], by simp only [hundone, if_true]⟩
      | collect => exact ⟨s.group.exceptions s.group.handles, by simp only [hundone, if_true]⟩
    obtain ⟨failures, hwake⟩ := hwake
    refine hs.joined (e := .joinWake) hdue ?_ failures ?_ rfl (Or.inl rfl)
    · rw [hp]
      rfl
    · simp only [EventLoop.step, System.step, hphase]
      show ((s.group.joinWake s.group.handles).map s.system.moveTo).map s.moveTo = _
      rw [hwake]
      rfl
  | draining pending hp hmode =>
    have hphase : s.system.group.phase = .draining pending := hp
    have hgathered : s.group.gathered = true := by
      rw [Group.gathered, hp]
      refine List.all_eq_true.mpr fun w hw => ?_
      rw [(hs.undisturbed.noted.notified hmode w hw).mpr (hcalled w hw), Bool.or_true]
    refine hs.joined (e := .drained) hdue ?_ s.group.failures ?_ rfl (Or.inr rfl)
    · rw [hp]
      rfl
    · simp only [EventLoop.step, System.step, hphase, hgathered, if_true]
      have hnone : s.system.group.undone pending = [] := hundone pending
      rw [if_pos hnone]
      rfl
  | left hp =>
    cases hphase : s.group.phase with
    | settling torn awaited withFanout =>
      have hphase' : s.system.group.phase = .settling torn awaited withFanout := hphase
      by_cases hready : withFanout = true → s.group.fanout = some []
      · refine ⟨.settled, s.moveTo (s.system.moveTo { s.group with phase := .closed }), ?_, rfl,
          rfl, ?_, hs.done, fun hbody => by cases hbody⟩
        · have hready' : s.system.group.undone awaited = [] ∧
              (withFanout = true → s.system.group.fanout = some []) := ⟨hundone awaited, hready⟩
          simp only [EventLoop.step, System.step, hphase']
          rw [if_pos hready']
          rfl
        · show s.due.length + (s.group.fanout.getD []).length + 0
            < s.due.length + (s.group.fanout.getD []).length + s.group.phase.remaining
          rw [hphase]
          exact Nat.lt_succ_self _
      · -- the fan-out has requests to make
        rw [Classical.not_imp] at hready
        obtain ⟨rfl, hready⟩ := hready
        obtain ⟨id, rest, hfanout⟩ : ∃ id rest, s.system.group.fanout = some (id :: rest) := by
          cases hf : s.system.group.fanout with
          | none => exact (hs.undisturbed.fanning torn awaited hphase hf).elim
          | some ids =>
            cases ids with
            | nil => exact (hready hf).elim
            | cons id rest => exact ⟨id, rest, rfl⟩
        refine ⟨.fanout, s.moveTo (s.system.flag id { s.group with fanout := some rest }), ?_, rfl,
          rfl, ?_, ?_, ?_⟩
        · simp only [EventLoop.step, System.step, hfanout]
          rfl
        · have hfanout' : s.group.fanout = some (id :: rest) := hfanout
          show s.due.length + ((Group.flagged _ _ id).fanout.getD []).length
              + (Group.flagged _ _ id).phase.remaining
            < s.due.length + (s.group.fanout.getD []).length + s.group.phase.remaining
          rw [Group.flagged_fanout, Group.flagged_phase, hfanout']
          simp
        · show ∀ w ∈ (Group.flagged _ _ id).waiters, w.done = true
          rw [Group.flagged_waiters]
          exact hs.done
        · show (Group.flagged _ _ id).phase ≠ .body
          rw [Group.flagged_phase]
          exact hs.left
    | closed => exact (hopen hphase).elim
    | _ =>
      rw [hphase] at hp
      cases hp

/-- **Once all its waiters have ended, an undisturbed scope can close**, and on time: the
steps that a promise of what leaves the scope asks for are there to be taken. -/
theorem closes (table : Table) (onError : OnError) (detached : List JobId) (hs : Ending s) :
    ∃ es s', (eventLoop table onError detached).run s es = some s' ∧ s'.group.phase = .closed ∧
      (eventLoop table onError detached).Along
        (fun s e _ => e.undisturbed = true ∧ s.timely e = true) s es := by
  induction h : s.remaining using Nat.strong_induction_on generalizing s with
  | _ n ih =>
    by_cases hopen : s.group.phase = .closed
    · exact ⟨[], s, rfl, hopen, trivial⟩
    · have happroaches : ∃ e s', Approaches s e s' := by
        cases hdue : s.due with
        | nil => exact hs.owner hdue hopen
        | cons jobId rest => exact hs.notify hdue
      obtain ⟨e, s₁, hstep, hu, ht, hless, hdone, hleft⟩ := happroaches
      have hs₁ : Ending s₁ := ⟨hs.undisturbed.step hu ht hstep, hdone, hleft⟩
      obtain ⟨es, s', hrun, hclosed, halong⟩ := ih s₁.remaining (h ▸ hless) hs₁ rfl
      have hstep' : (eventLoop table onError detached).step s e = some s₁ := hstep
      refine ⟨e :: es, s', ?_, hclosed, ?_⟩
      · rw [Machine.run, hstep']
        exact hrun
      · exact (Machine.along_cons_of_step hstep').mpr ⟨⟨hu, ht⟩, halong⟩

/-! ## Two scopes -/

/-- A child is cancelled by somebody, and its waiter takes the result. -/
def cancels (jobId : JobId) : List Event :=
  [.backend (.claim jobId), .backend (.write ((child jobId).settle [] .cancelled)),
    .take jobId, .report jobId false]

/-- The body spawns four children and ends. One completes, one fails and two are cancelled,
one of them before the failure. -/
def fourChildren : List Event :=
  spawns "a" ++ spawns "b" ++ spawns "c" ++ spawns "d" ++ cancels "c" ++
    [.notify "c", .bodyDone, .joinWake] ++ fails "a" ++
    [.fanout, .backend (.claim "b"), .backend (.write ((child "b").settle [] (.completed []))),
      .take "b", .report "b" true, .fanout, .notify "a"] ++ cancels "d" ++
    [.notify "b", .notify "d", .fanout, .drained, .settled]

theorem reports_fourChildren :
    ∃ s, (eventLoop (fun _ => none) .cancelSiblings []).run
        (eventLoop (fun _ => none) .cancelSiblings []).init fourChildren = some s ∧
      s.group.phase = .closed ∧
      s.group.raised = some (.group [("c", .jobCancelled), ("a", .jobFailed)]) ∧
      (eventLoop (fun _ => none) .cancelSiblings []).Along (fun _ _ s' => Reports s')
        (eventLoop (fun _ => none) .cancelSiblings []).init fourChildren := by
  refine ⟨_, rfl, rfl, rfl, reports_along _ _ _ _ ?_ ?_⟩
  · decide +kernel
  · decide +kernel

/-- Two children fail. The second waiter ends after the first has woken the wait, which finds
both done, and leaves before the second callback has run. -/
def bothFail : List Event :=
  spawns "a" ++ spawns "b" ++ [.bodyDone] ++ fails "a" ++ [.notify "a"] ++ fails "b" ++
    [.joinWake, .notify "b", .fanout, .settled]

/-- The second failure is not reported. -/
theorem bothFail_missed :
    ∃ s, (eventLoop (fun _ => none) .cancelSiblings []).run
        (eventLoop (fun _ => none) .cancelSiblings []).init bothFail = some s ∧
      s.group.phase = .closed ∧ s.group.raised = some (.group [("a", .jobFailed)]) ∧
      s.group.outcomeOf "b" = some .failed ∧ ¬ Reports s := by
  refine ⟨_, rfl, rfl, rfl, rfl, fun h => ?_⟩
  have hraised := (h rfl).raised
  cases hraised

end TaskQueue.Scope
