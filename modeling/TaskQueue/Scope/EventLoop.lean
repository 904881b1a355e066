import TaskQueue.Scope.Teardown

/-!
# The callbacks of a scope

`EventLoop` adds to a scope the order in which its callbacks run. A waiter that ends has
`_job_finished` called soon, and callbacks run in the order in which they were scheduled.
The `gather` that drains a scope wakes after them, for the callbacks that it adds to its
waiters come second. The wait of `cancel_siblings_mode` need not: it may have been woken by
one waiter when another one ends, and then finds both done.

- `Moves`: what a step does, in a scope that is left undisturbed by its body and its owner.
- `Ordered`: the waiters that ended are known, each once, with their jobs' outcomes.
- `KeepsOutcomes`: an outcome that a handle has cached stays.
-/

namespace TaskQueue.Scope

namespace Group

/-- The final status of the job, as its handle knows it. -/
def outcomeOf (g : Group) (jobId : JobId) : Option JobStatus :=
  (g.waiterOf jobId).bind Waiter.cached

/-- The `gather` that drains the scope wakes: the callbacks that it has added to its waiters
have run, each after `_job_finished`. -/
def gathered (g : Group) : Bool :=
  match g.phase with
  | .draining pending => g.waiters.all fun w => decide (w.jobId ∉ pending) || w.notified
  | _ => false

end Group

/-- A scope and the callbacks of its waiters: those that ended and whose `_job_finished` has
been called, or that have none, and those for which it is due, in the order in which they
ended. A waiter that the scope cancels is in neither: `_job_finished` does nothing for it. -/
structure EventLoop where
  system : System
  called : List JobId
  due : List JobId

namespace EventLoop

variable (s : EventLoop)

/-- The scope. -/
def group : Group := s.system.group

/-- The waiters that ended, in the order in which they did. -/
def order : List JobId := s.called ++ s.due

/-- A step in which no waiter ends, and none is called back. -/
def moveTo (sys : System) : EventLoop := { s with system := sys }

/-- A waiter ends. -/
def ends (jobId : JobId) (sys : System) : EventLoop :=
  match s.group.onError with
  | .cancelSiblings => ⟨sys, s.called, s.due ++ [jobId]⟩
  | .ignore | .collect => ⟨sys, s.called ++ [jobId], s.due⟩

/-- One event. -/
def step (s : EventLoop) : Event → Option EventLoop
  | .report jobId exceptional => (s.system.step (.report jobId exceptional)).map (s.ends jobId)
  | .broke jobId freed => (s.system.step (.broke jobId freed)).map (s.ends jobId)
  | .notify jobId =>
    match s.due with
    | head :: rest =>
      if head = jobId then
        (s.system.step (.notify jobId)).map fun sys => ⟨sys, s.called ++ [jobId], rest⟩
      else none
    | [] => none
  | .drained => if s.group.gathered then (s.system.step .drained).map s.moveTo else none
  | e => (s.system.step e).map s.moveTo

end EventLoop

/-- The body does not raise, the owner is not cancelled, and no `take_result` raises. -/
def Event.undisturbed : Event → Bool
  | .bodyRaised | .cancel | .broke _ _ => false
  | _ => true

/-- A scope without a deadline, over any records. -/
def eventLoop (table : Table) (onError : OnError) (detached : List JobId) :
    Machine EventLoop Event where
  init := ⟨(machine table onError false detached).init, [], []⟩
  step := EventLoop.step

variable {s s' : EventLoop} {g g' : Group} {e : Event} {jobId : JobId}

/-! ## Steps -/

/-- A step of the event loop is one of the scope. -/
theorem system_of_step (h : s.step e = some s') : s.system.step e = some s'.system := by
  cases e with
  | report jobId exceptional =>
    obtain ⟨sys, hsys, rfl⟩ := Option.map_eq_some_iff.mp h
    rw [hsys, EventLoop.ends]
    split <;> rfl
  | broke jobId freed =>
    obtain ⟨sys, hsys, rfl⟩ := Option.map_eq_some_iff.mp h
    rw [hsys, EventLoop.ends]
    split <;> rfl
  | notify jobId =>
    simp only [EventLoop.step] at h
    split at h
    · simp only [Option.ite_none_right_eq_some] at h
      obtain ⟨sys, hsys, rfl⟩ := Option.map_eq_some_iff.mp h.2
      exact hsys
    · cases h
  | drained =>
    simp only [EventLoop.step, Option.ite_none_right_eq_some] at h
    obtain ⟨sys, hsys, rfl⟩ := Option.map_eq_some_iff.mp h.2
    exact hsys
  | _ =>
    obtain ⟨sys, hsys, rfl⟩ := Option.map_eq_some_iff.mp h
    exact hsys

/-- The callback of a waiter has been called. -/
def Waiter.notify (w : Waiter) : Waiter := { w with notified := true }

@[simp] theorem Waiter.notify_jobId (w : Waiter) : w.notify.jobId = w.jobId := rfl

@[simp] theorem Waiter.notify_done (w : Waiter) : w.notify.done = w.done := rfl

namespace Group

/-- `_job_finished` is called for `w`. -/
def notify (g : Group) (w : Waiter) : Group :=
  (g.updateWaiter w.jobId Waiter.notify).jobFinished w

theorem notify_waiters (w : Waiter) :
    (g.notify w).waiters = (g.updateWaiter w.jobId Waiter.notify).waiters := jobFinished_waiters w

theorem notify_phase (w : Waiter) : (g.notify w).phase = g.phase := jobFinished_phase w

theorem notify_raised (w : Waiter) : (g.notify w).raised = g.raised := jobFinished_raised w

theorem notify_onError (w : Waiter) : (g.notify w).onError = g.onError := by
  rcases (g.updateWaiter w.jobId Waiter.notify).jobFinished_cases w with ⟨failures, h⟩ |
    ⟨-, failures, h⟩
  · rw [notify, h]
    rfl
  · rw [notify, h]
    rfl

theorem notify_hasDeadline (w : Waiter) : (g.notify w).hasDeadline = g.hasDeadline := by
  rcases (g.updateWaiter w.jobId Waiter.notify).jobFinished_cases w with ⟨failures, h⟩ |
    ⟨-, failures, h⟩
  · rw [notify, h]
    rfl
  · rw [notify, h]
    rfl

end Group

/-- Nothing that the report depends on has changed. -/
structure SameScope (g g' : Group) : Prop where
  onError : g'.onError = g.onError
  hasDeadline : g'.hasDeadline = g.hasDeadline
  waiters : g'.waiters = g.waiters
  failures : g'.failures = g.failures
  cancelling : g'.cancelling = g.cancelling
  phase : g'.phase = g.phase
  raised : g'.raised = g.raised

theorem sameScope_flagged (t : Table) (g : Group) (jobId : JobId) :
    SameScope g (g.flagged t jobId) := by
  unfold Group.flagged
  split
  · split
    · exact ⟨rfl, rfl, rfl, rfl, rfl, rfl, rfl⟩
    · exact ⟨rfl, rfl, rfl, rfl, rfl, rfl, rfl⟩
  · exact ⟨rfl, rfl, rfl, rfl, rfl, rfl, rfl⟩

/-- The owner moves: its body returns, its join wakes, and it leaves. -/
inductive Departs (g : Group) : Event → Group → Prop where
  | bodyEmpty (hp : g.phase = .body) (hempty : g.jobs = []) : Departs g .bodyDone (g.settle false)
  | emptyWait (hp : g.phase = .body) (hmode : g.onError = .cancelSiblings)
      (hdetached : g.detached ≠ []) (hempty : g.handles = []) :
      Departs g .bodyDone ({ g with raised := some .emptyWait }.settle false)
  | bodyDone (hp : g.phase = .body) :
      Departs g .bodyDone { g with phase := .joining g.handles }
  | ignored (watched : List JobId) (hp : g.phase = .joining watched) (hmode : g.onError = .ignore)
      (hdone : g.undone watched = []) : Departs g .joinWake (g.joined [])
  | collected (watched : List JobId) (hp : g.phase = .joining watched)
      (hmode : g.onError = .collect) (hdone : g.undone watched = []) :
      Departs g .joinWake (g.joined (g.exceptions watched))
  | finished (watched : List JobId) (hp : g.phase = .joining watched)
      (hmode : g.onError = .cancelSiblings) (hwake : g.firstException watched = true)
      (hdone : g.undone watched = []) : Departs g .joinWake (g.joined g.failures)
  | draining (watched : List JobId) (hp : g.phase = .joining watched)
      (hmode : g.onError = .cancelSiblings) (hpending : g.undone watched ≠ []) :
      Departs g .joinWake { g with phase := .draining (g.undone watched) }
  | backstop (watched : List JobId) (hp : g.phase = .joining watched)
      (hmode : g.onError = .cancelSiblings) (hwake : g.firstException watched = true)
      (hpending : g.undone watched ≠ []) (hcalm : g.cancelling = false) :
      Departs g .joinWake
        { g with
          cancelling := true
          issued := g.issued ++ g.undone watched
          phase := .backstop (g.undone watched) (g.undone watched) }
  | drained (pending : List JobId) (hp : g.phase = .draining pending)
      (hdone : g.undone pending = [])
      (hcalled : ∀ w ∈ g.waiters, w.jobId ∈ pending → w.notified = true) :
      Departs g .drained (g.joined g.failures)
  | closed (torn withFanout : Bool) (awaited : List JobId)
      (hp : g.phase = .settling torn awaited withFanout) :
      Departs g .settled { g with phase := .closed }

/-- A step of an undisturbed scope, by what it does. -/
inductive Moves (s : EventLoop) : Event → EventLoop → Prop where
  | aside (e : Event) (sys : System) (h : SameScope s.group sys.group) : Moves s e (s.moveTo sys)
  | spawned (sp : Spawn) (hsp : sp ∈ s.group.spawning) :
      Moves s (.spawned sp.record.id)
        (s.moveTo (s.system.moveTo (s.group.register sp.record.id)))
  | take (t : Table) (w : Waiter) (hw : w ∈ s.group.waiters) (hcached : w.cached = none)
      (status : JobStatus) (hstatus : status.terminal = true) :
      Moves s (.take w.jobId)
        (s.moveTo ⟨t, s.group.updateWaiter w.jobId (Waiter.take status)⟩)
  | report (w : Waiter) (hw : w ∈ s.group.waiters) (hdone : w.done = false)
      (hcached : w.cached ≠ none) (exceptional : Bool) :
      Moves s (.report w.jobId exceptional)
        (s.ends w.jobId
          (s.system.moveTo (s.group.updateWaiter w.jobId (Waiter.report exceptional))))
  | notify (w : Waiter) (hw : w ∈ s.group.waiters) (rest : List JobId)
      (hmode : s.group.onError = .cancelSiblings) (hdue : s.due = w.jobId :: rest) :
      Moves s (.notify w.jobId)
        ⟨s.system.moveTo (s.group.notify w), s.called ++ [w.jobId], rest⟩
  | leaves (e : Event) (g : Group) (h : Departs s.group e g) :
      Moves s e (s.moveTo (s.system.moveTo g))

/-- The owner is where an undisturbed scope can be. -/
def Phase.regular : Phase → Bool
  | .body | .joining _ | .draining _ | .settling _ _ _ | .closed => true
  | .backstop _ _ | .unwinding _ | .tearingDown _ | .reporting => false

/-- The owner is in `_settle`, or out. -/
def Phase.settled : Phase → Bool
  | .settling _ _ _ | .closed => true
  | _ => false

theorem departs_of_joinWake {watched : List JobId} (hp : g.phase = .joining watched)
    (h : g.joinWake watched = some g') : Departs g .joinWake g' := by
  unfold Group.joinWake at h
  cases hm : g.onError with
  | cancelSiblings =>
    simp only [hm, Option.ite_none_right_eq_some, Option.some.injEq] at h
    obtain ⟨hwake, rfl⟩ := h
    unfold Group.cancelSiblingsMode
    cases hu : g.undone watched with
    | nil => exact .finished watched hp hm hwake hu
    | cons id rest =>
      have hpending : g.undone watched ≠ [] := by
        rw [hu]
        exact List.cons_ne_nil id rest
      simp only [← hu]
      by_cases hc : g.cancelling = true
      · rw [if_pos hc]
        exact .draining watched hp hm hpending
      · rw [if_neg hc]
        exact .backstop watched hp hm hwake hpending (Bool.eq_false_iff.mpr hc)
  | ignore =>
    simp only [hm, Option.ite_none_right_eq_some, Option.some.injEq] at h
    obtain ⟨hdone, rfl⟩ := h
    exact .ignored watched hp hm hdone
  | collect =>
    simp only [hm, Option.ite_none_right_eq_some, Option.some.injEq] at h
    obtain ⟨hdone, rfl⟩ := h
    exact .collected watched hp hm hdone

theorem departs_of_bodyDone (hp : g.phase = .body) : Departs g .bodyDone g.leaveBody := by
  unfold Group.leaveBody
  split
  case isTrue hempty => exact .bodyEmpty hp hempty
  case isFalse hsome =>
    split
    case isTrue hwait =>
      refine .emptyWait hp hwait.1 (fun hnone => hsome ?_) hwait.2
      rw [Group.jobs, hnone, hwait.2]
      rfl
    case isFalse => exact .bodyDone hp

theorem SameScope.refl (g : Group) : SameScope g g := ⟨rfl, rfl, rfl, rfl, rfl, rfl, rfl⟩

theorem moves_of_step (hp : s.group.phase.regular = true) (hdeadline : s.group.hasDeadline = false)
    (hwaiters : ∀ w ∈ s.group.waiters, w.state ≠ .unwinding) (he : e.undisturbed = true)
    (h : s.step e = some s') : Moves s e s' := by
  cases e with
  | bodyRaised => cases he
  | cancel => cases he
  | broke jobId freed => cases he
  | report jobId exceptional =>
    obtain ⟨sys, hsys, rfl⟩ := Option.map_eq_some_iff.mp h
    simp only [System.step] at hsys
    split at hsys
    · rename_i w hw
      obtain ⟨hmem, rfl⟩ := Group.mem_of_waiterOf hw
      simp only [Option.ite_none_right_eq_some, Option.some.injEq] at hsys
      obtain ⟨⟨hpending, hcached⟩, rfl⟩ := hsys
      exact .report w hmem (Waiter.not_done_iff.mpr (Or.inl hpending)) hcached exceptional
    · cases hsys
  | unwound jobId =>
    obtain ⟨sys, hsys, rfl⟩ := Option.map_eq_some_iff.mp h
    simp only [System.step] at hsys
    split at hsys
    · rename_i w hw
      simp only [Option.ite_none_right_eq_some] at hsys
      exact absurd hsys.1 (hwaiters w (Group.mem_of_waiterOf hw).1)
    · cases hsys
  | notify jobId =>
    simp only [EventLoop.step] at h
    split at h
    · rename_i head rest hdue
      simp only [Option.ite_none_right_eq_some] at h
      obtain ⟨rfl, h⟩ := h
      obtain ⟨sys, hsys, rfl⟩ := Option.map_eq_some_iff.mp h
      simp only [System.step] at hsys
      split at hsys
      · rename_i w hw
        obtain ⟨hmem, rfl⟩ := Group.mem_of_waiterOf hw
        simp only [Option.ite_none_right_eq_some, Option.some.injEq] at hsys
        obtain ⟨⟨hmode, -, -⟩, rfl⟩ := hsys
        exact .notify w hmem rest hmode hdue
      · cases hsys
    · cases h
  | drained =>
    simp only [EventLoop.step, Option.ite_none_right_eq_some] at h
    obtain ⟨hgathered, h⟩ := h
    obtain ⟨sys, hsys, rfl⟩ := Option.map_eq_some_iff.mp h
    simp only [System.step] at hsys
    split at hsys
    · rename_i pending hphase
      simp only [Option.ite_none_right_eq_some, Option.some.injEq] at hsys
      obtain ⟨hdone, rfl⟩ := hsys
      refine .leaves _ _ (.drained pending hphase hdone fun w hw hmem => ?_)
      have hall := hgathered
      rw [Group.gathered, show s.group.phase = .draining pending from hphase] at hall
      have hw' := List.all_eq_true.mp hall w hw
      simpa [hmem] using hw'
    · cases hsys
  | backend op =>
    obtain ⟨sys, hsys, rfl⟩ := Option.map_eq_some_iff.mp h
    cases op with
    | create record =>
      simp only [System.step, Option.ite_none_right_eq_some, Option.some.injEq] at hsys
      obtain ⟨-, rfl⟩ := hsys
      exact .aside _ _ (.refl _)
    | _ =>
      cases hsys
      exact .aside _ _ (.refl _)
  | spawn record =>
    obtain ⟨sys, hsys, rfl⟩ := Option.map_eq_some_iff.mp h
    simp only [System.step, Option.ite_none_right_eq_some, Option.some.injEq] at hsys
    obtain ⟨-, rfl⟩ := hsys
    exact .aside _ _ ⟨rfl, rfl, rfl, rfl, rfl, rfl, rfl⟩
  | enqueue jobId =>
    obtain ⟨sys, hsys, rfl⟩ := Option.map_eq_some_iff.mp h
    simp only [System.step] at hsys
    split at hsys
    · simp only [Option.ite_none_left_eq_some, Option.some.injEq] at hsys
      obtain ⟨-, rfl⟩ := hsys
      refine .aside _ _ ?_
      dsimp only
      split
      · exact ⟨rfl, rfl, rfl, rfl, rfl, rfl, rfl⟩
      · exact ⟨rfl, rfl, rfl, rfl, rfl, rfl, rfl⟩
    · cases hsys
  | spawned jobId =>
    obtain ⟨sys, hsys, rfl⟩ := Option.map_eq_some_iff.mp h
    simp only [System.step] at hsys
    split at hsys
    · rename_i sp hsp
      obtain ⟨hmem, rfl⟩ := Group.mem_of_spawnOf hsp
      simp only [Option.ite_none_right_eq_some, Option.some.injEq] at hsys
      obtain ⟨-, rfl⟩ := hsys
      exact .spawned sp hmem
    · cases hsys
  | spawnFailed jobId =>
    obtain ⟨sys, hsys, rfl⟩ := Option.map_eq_some_iff.mp h
    simp only [System.step] at hsys
    split at hsys
    · simp only [Option.ite_none_left_eq_some, Option.some.injEq] at hsys
      obtain ⟨-, rfl⟩ := hsys
      exact .aside _ _ ⟨rfl, rfl, rfl, rfl, rfl, rfl, rfl⟩
    · cases hsys
  | take jobId =>
    obtain ⟨sys, hsys, rfl⟩ := Option.map_eq_some_iff.mp h
    simp only [System.step] at hsys
    split at hsys
    · rename_i w status hw hfinished
      obtain ⟨hmem, rfl⟩ := Group.mem_of_waiterOf hw
      simp only [Option.ite_none_right_eq_some, Option.some.injEq] at hsys
      obtain ⟨hcached, rfl⟩ := hsys
      obtain ⟨r, -, hr⟩ := Option.bind_eq_some_iff.mp hfinished
      simp only [Option.ite_none_right_eq_some, Option.some.injEq] at hr
      obtain ⟨hterminal, rfl⟩ := hr
      exact .take _ w hmem hcached _ hterminal
    · cases hsys
  | fanout =>
    obtain ⟨sys, hsys, rfl⟩ := Option.map_eq_some_iff.mp h
    simp only [System.step] at hsys
    split at hsys
    · rename_i id rest hf
      cases hsys
      have hsame := sameScope_flagged s.system.table { s.system.group with fanout := some rest } id
      exact .aside _ _ ⟨hsame.1, hsame.2, hsame.3, hsame.4, hsame.5, hsame.6, hsame.7⟩
    · cases hsys
  | fanoutRaised =>
    obtain ⟨sys, hsys, rfl⟩ := Option.map_eq_some_iff.mp h
    simp only [System.step] at hsys
    split at hsys
    · cases hsys
      exact .aside _ _ ⟨rfl, rfl, rfl, rfl, rfl, rfl, rfl⟩
    · cases hsys
  | late jobId =>
    obtain ⟨sys, hsys, rfl⟩ := Option.map_eq_some_iff.mp h
    simp only [System.step, Option.ite_none_right_eq_some, Option.some.injEq] at hsys
    obtain ⟨-, rfl⟩ := hsys
    have hsame := sameScope_flagged s.system.table
      { s.system.group with adrift := s.system.group.adrift.erase jobId } jobId
    exact .aside _ _ ⟨hsame.1, hsame.2, hsame.3, hsame.4, hsame.5, hsame.6, hsame.7⟩
  | bodyDone =>
    obtain ⟨sys, hsys, rfl⟩ := Option.map_eq_some_iff.mp h
    simp only [System.step] at hsys
    split at hsys
    · rename_i hphase
      cases hsys
      exact .leaves _ _ (departs_of_bodyDone hphase)
    · cases hsys
  | joinWake =>
    obtain ⟨sys, hsys, rfl⟩ := Option.map_eq_some_iff.mp h
    simp only [System.step] at hsys
    split at hsys
    · rename_i watched hphase
      obtain ⟨g, hg, rfl⟩ := Option.map_eq_some_iff.mp hsys
      exact .leaves _ _ (departs_of_joinWake hphase hg)
    · cases hsys
  | ask =>
    obtain ⟨sys, hsys, rfl⟩ := Option.map_eq_some_iff.mp h
    simp only [System.step] at hsys
    unfold EventLoop.group at hp
    split at hsys <;> simp_all [Phase.regular]
  | askRaised =>
    obtain ⟨sys, hsys, rfl⟩ := Option.map_eq_some_iff.mp h
    simp only [System.step] at hsys
    unfold EventLoop.group at hp
    split at hsys <;> simp_all [Phase.regular]
  | reported =>
    obtain ⟨sys, hsys, rfl⟩ := Option.map_eq_some_iff.mp h
    simp only [System.step] at hsys
    unfold EventLoop.group at hp
    split at hsys <;> simp_all [Phase.regular]
  | settled =>
    obtain ⟨sys, hsys, rfl⟩ := Option.map_eq_some_iff.mp h
    simp only [System.step] at hsys
    split at hsys
    · rename_i torn awaited withFanout hphase
      simp only [Option.ite_none_right_eq_some, Option.some.injEq] at hsys
      obtain ⟨-, rfl⟩ := hsys
      exact .leaves _ _ (.closed torn withFanout awaited hphase)
    · cases hsys
  | resumed =>
    obtain ⟨sys, hsys, rfl⟩ := Option.map_eq_some_iff.mp h
    simp only [System.step] at hsys
    unfold EventLoop.group at hp
    split at hsys <;> simp_all [Phase.regular]
  | deadline =>
    obtain ⟨sys, hsys, rfl⟩ := Option.map_eq_some_iff.mp h
    simp only [System.step, Option.ite_none_right_eq_some, Bool.and_eq_true] at hsys
    unfold EventLoop.group at hdeadline
    rw [hdeadline] at hsys
    cases hsys.1.1

/-! ## The waiters -/

/-- A waiter has not ended, or has ended with its job's final status. -/
structure Waiter.Sound (w : Waiter) : Prop where
  state : w.state = .pending ∨ ∃ status exceptional,
    w.cached = some status ∧ w.state = resultOf exceptional status
  terminal : ∀ status, w.cached = some status → status.terminal = true

theorem Waiter.Sound.outcome {w : Waiter} (h : w.Sound) (hdone : w.done = true) :
    ∃ status exceptional, w.cached = some status ∧ w.state = resultOf exceptional status := by
  rcases h.state with hpending | hended
  · simp [Waiter.done, hpending] at hdone
  · exact hended

theorem Waiter.Sound.take {w : Waiter} (h : w.Sound) {status : JobStatus}
    (hstatus : status.terminal = true) : (w.take status).Sound := by
  unfold Waiter.take
  split
  case isFalse => exact h
  case isTrue hnone =>
    refine ⟨Or.inl ?_, ?_⟩
    · rcases h.state with hpending | ⟨status', exceptional, hcached, -⟩
      · exact hpending
      · cases hnone.symm.trans hcached
    · rintro _ ⟨⟩
      exact hstatus

theorem Waiter.done_take (w : Waiter) (status : JobStatus) : (w.take status).done = w.done := by
  unfold Waiter.done
  rw [w.take_state]

theorem Waiter.Sound.not_unwinding {w : Waiter} (h : w.Sound) : w.state ≠ .unwinding := by
  rcases h.state with hpending | ⟨status, exceptional, -, hstate⟩
  · simp [hpending]
  · rw [hstate]
    cases status <;> simp [resultOf]

theorem Waiter.Sound.report {w : Waiter} (h : w.Sound) (exceptional : Bool) :
    (w.report exceptional).Sound := by
  unfold Waiter.report
  split
  case h_2 => exact h
  case h_1 status hcached =>
    split
    · exact h
    · exact ⟨Or.inr ⟨status, exceptional, hcached, rfl⟩, h.terminal⟩

/-- A value that is no exception object is reported as such. -/
theorem Waiter.report_plain {w : Waiter} (h : w.state ≠ .returned true) :
    (w.report false).state ≠ .returned true := by
  unfold Waiter.report
  split
  case h_2 => exact h
  case h_1 status _ =>
    split
    · exact h
    · cases status <;> simp [resultOf]

theorem Waiter.done_report {w : Waiter} (hcached : w.cached ≠ none) (exceptional : Bool) :
    (w.report exceptional).done = true := by
  unfold Waiter.report
  split
  case h_2 hnone => exact (hcached hnone).elim
  case h_1 status _ =>
    split
    · assumption
    · exact w.resultOf_done exceptional status

/-- The waiters that ended are known, each once, in their order. -/
structure Ordered (s : EventLoop) : Prop where
  handles : s.group.handles.Nodup
  nodup : s.order.Nodup
  ended : ∀ id, id ∈ s.order ↔ ∃ w ∈ s.group.waiters, w.jobId = id ∧ w.done = true
  sound : ∀ w ∈ s.group.waiters, w.Sound

/-- There is one waiter for each id. -/
theorem Ordered.unique (hs : Ordered s) {w w' : Waiter} (hw : w ∈ s.group.waiters)
    (hw' : w' ∈ s.group.waiters) (hid : w.jobId = w'.jobId) : w = w' :=
  List.inj_on_of_nodup_map hs.handles hw hw' hid

theorem Ordered.waiterOf (hs : Ordered s) {w : Waiter} (hw : w ∈ s.group.waiters) :
    s.group.waiterOf w.jobId = some w := by
  cases hfind : s.group.waiterOf w.jobId with
  | none =>
    have hnone := List.find?_eq_none.mp hfind w hw
    simp at hnone
  | some w' =>
    obtain ⟨hw', hid⟩ := Group.mem_of_waiterOf hfind
    rw [hs.unique hw' hw hid]

theorem Ordered.outcomeOf (hs : Ordered s) {w : Waiter} (hw : w ∈ s.group.waiters) :
    s.group.outcomeOf w.jobId = w.cached := by
  rw [Group.outcomeOf, hs.waiterOf hw]
  rfl

theorem Ordered.mem_handles (hs : Ordered s) (hid : jobId ∈ s.order) :
    jobId ∈ s.group.handles := by
  obtain ⟨w, hw, rfl, -⟩ := (hs.ended jobId).mp hid
  exact List.mem_map_of_mem hw

/-- A waiter that has not ended is not in the order. -/
theorem Ordered.not_mem (hs : Ordered s) {w : Waiter} (hw : w ∈ s.group.waiters)
    (hdone : w.done = false) : w.jobId ∉ s.order := by
  intro hmem
  obtain ⟨w', hw', hid, hdone'⟩ := (hs.ended _).mp hmem
  rw [hs.unique hw' hw hid, hdone] at hdone'
  cases hdone'

/-- A child whose waiter ended has an outcome. -/
theorem Ordered.outcome (hs : Ordered s) (hid : jobId ∈ s.order) :
    ∃ status, s.group.outcomeOf jobId = some status ∧ status.terminal = true := by
  obtain ⟨w, hw, rfl, hdone⟩ := (hs.ended jobId).mp hid
  obtain ⟨status, exceptional, hcached, -⟩ := (hs.sound w hw).outcome hdone
  refine ⟨status, ?_, (hs.sound w hw).terminal status hcached⟩
  rw [hs.outcomeOf hw, hcached]

/-- When all have ended, the order is a permutation of the children. -/
theorem Ordered.perm (hs : Ordered s) (hdone : ∀ w ∈ s.group.waiters, w.done = true) :
    s.order.Perm s.group.handles := by
  refine (List.perm_ext_iff_of_nodup hs.nodup hs.handles).mpr fun id => ⟨hs.mem_handles, ?_⟩
  intro hid
  obtain ⟨w, hw, rfl⟩ := List.mem_map.mp hid
  exact (hs.ended _).mpr ⟨w, hw, rfl, hdone w hw⟩

theorem Ordered.of_waiters (hs : Ordered s) (hw : s'.group.waiters = s.group.waiters)
    (horder : s'.order = s.order) : Ordered s' where
  handles := by
    rw [Group.handles, hw]
    exact hs.handles
  nodup := horder ▸ hs.nodup
  ended id := by
    rw [horder, hw]
    exact hs.ended id
  sound := by
    rw [hw]
    exact hs.sound

theorem Ordered.handles_update (hs : Ordered s) {f : Waiter → Waiter}
    (hid : ∀ w, (f w).jobId = w.jobId) : (s.group.updateWaiter jobId f).handles.Nodup := by
  rw [s.group.handles_updateWaiter f hid]
  exact hs.handles

/-- Progress that ends no waiter. -/
theorem Ordered.update (hs : Ordered s) {f : Waiter → Waiter}
    (hw : s'.group.waiters = (s.group.updateWaiter jobId f).waiters) (horder : s'.order = s.order)
    (hid : ∀ w, (f w).jobId = w.jobId) (hdone : ∀ w, (f w).done = w.done)
    (hsound : ∀ w, w.Sound → (f w).Sound) : Ordered s' where
  handles := by
    rw [Group.handles, hw]
    exact hs.handles_update hid
  nodup := horder ▸ hs.nodup
  ended id := by
    rw [horder, hs.ended id, hw]
    constructor
    · rintro ⟨w, hmem, hwid, hd⟩
      refine ⟨if w.jobId = jobId then f w else w, List.mem_map_of_mem hmem, ?_, ?_⟩
      · split
        · exact (hid w).trans hwid
        · exact hwid
      · split
        · exact (hdone w).trans hd
        · exact hd
    · rintro ⟨w', hmem', hwid, hd⟩
      obtain ⟨w, hmem, ⟨rfl, -⟩ | ⟨rfl, -⟩⟩ := Group.mem_updateWaiter hmem'
      · exact ⟨_, hmem, hwid, hd⟩
      · exact ⟨w, hmem, (hid w).symm.trans hwid, (hdone w).symm.trans hd⟩
  sound w' hmem' := by
    rw [hw] at hmem'
    obtain ⟨w, hmem, ⟨rfl, -⟩ | ⟨rfl, -⟩⟩ := Group.mem_updateWaiter hmem'
    · exact hs.sound _ hmem
    · exact hsound w (hs.sound w hmem)

/-- A child is registered. -/
theorem Ordered.register (hs : Ordered s) (hid : jobId ∉ s.group.handles) :
    Ordered (s.moveTo (s.system.moveTo (s.group.register jobId))) where
  handles := by
    show ((s.group.register jobId).waiters.map Waiter.jobId).Nodup
    simp only [Group.register, List.map_append, List.map_cons, List.map_nil]
    rw [List.nodup_append]
    refine ⟨hs.handles, List.nodup_singleton _, fun a ha b hb => ?_⟩
    rw [List.mem_singleton.mp hb]
    rintro rfl
    exact hid ha
  nodup := hs.nodup
  ended id := by
    have hold := hs.ended id
    refine hold.trans ⟨?_, ?_⟩
    · rintro ⟨w, hw, hwid, hdone⟩
      exact ⟨w, List.mem_append_left _ hw, hwid, hdone⟩
    · rintro ⟨w, hw, hwid, hdone⟩
      rcases List.mem_append.mp hw with hw | hw
      · exact ⟨w, hw, hwid, hdone⟩
      · rw [List.mem_singleton.mp hw] at hdone
        cases hdone
  sound w hw := by
    rcases List.mem_append.mp hw with hw | hw
    · exact hs.sound w hw
    · rw [List.mem_singleton.mp hw]
      exact ⟨Or.inl rfl, fun status hs => by cases hs⟩

theorem order_ends (s : EventLoop) (hdue : s.group.onError ≠ .cancelSiblings → s.due = [])
    (jobId : JobId) (sys : System) : (s.ends jobId sys).order = s.order ++ [jobId] := by
  unfold EventLoop.ends EventLoop.order
  cases hm : s.group.onError with
  | cancelSiblings => simp
  | ignore => simp [hdue (by simp [hm])]
  | collect => simp [hdue (by simp [hm])]

theorem group_ends (s : EventLoop) (jobId : JobId) (sys : System) :
    (s.ends jobId sys).group = sys.group := by
  unfold EventLoop.ends
  split <;> rfl

/-- A waiter ends with what its handle has cached. -/
theorem Ordered.report (hs : Ordered s) {w : Waiter} (hw : w ∈ s.group.waiters)
    (hdone : w.done = false) (hcached : w.cached ≠ none) {exceptional : Bool}
    (hwaiters : s'.group.waiters =
      (s.group.updateWaiter w.jobId (Waiter.report exceptional)).waiters)
    (horder : s'.order = s.order ++ [w.jobId]) : Ordered s' where
  handles := by
    rw [Group.handles, hwaiters]
    exact hs.handles_update fun w => w.report_jobId exceptional
  nodup := by
    rw [horder, List.nodup_append]
    refine ⟨hs.nodup, List.nodup_singleton _, fun a ha b hb => ?_⟩
    rw [List.mem_singleton.mp hb]
    rintro rfl
    exact hs.not_mem hw hdone ha
  ended id := by
    rw [horder, hwaiters, List.mem_append, List.mem_singleton, hs.ended id]
    constructor
    · rintro (⟨v, hv, hvid, hd⟩ | rfl)
      · refine ⟨v, List.mem_map.mpr ⟨v, hv, if_neg fun hne => ?_⟩, hvid, hd⟩
        rw [hs.unique hv hw hne, hdone] at hd
        cases hd
      · exact ⟨w.report exceptional, List.mem_map.mpr ⟨w, hw, if_pos rfl⟩, w.report_jobId _,
          Waiter.done_report hcached _⟩
    · rintro ⟨v', hv', hvid, hd⟩
      obtain ⟨v, hv, ⟨rfl, -⟩ | ⟨rfl, hvw⟩⟩ := Group.mem_updateWaiter hv'
      · exact Or.inl ⟨_, hv, hvid, hd⟩
      · right
        rw [← hvid, v.report_jobId, hvw]
  sound v' hv' := by
    rw [hwaiters] at hv'
    obtain ⟨v, hv, ⟨rfl, -⟩ | ⟨rfl, -⟩⟩ := Group.mem_updateWaiter hv'
    · exact hs.sound _ hv
    · exact (hs.sound v hv).report exceptional

/-- Outcomes that handles have cached stay. -/
structure KeepsOutcomes (g g' : Group) : Prop where
  onError : g'.onError = g.onError
  cached : ∀ w ∈ g.waiters, w.cached ≠ none →
    ∃ w' ∈ g'.waiters, w'.jobId = w.jobId ∧ w'.cached = w.cached

theorem KeepsOutcomes.of_waiters (hmode : g'.onError = g.onError) (hw : g'.waiters = g.waiters) :
    KeepsOutcomes g g' where
  onError := hmode
  cached w hmem _ := ⟨w, hw ▸ hmem, rfl, rfl⟩

theorem KeepsOutcomes.update {f : Waiter → Waiter} (hmode : g'.onError = g.onError)
    (hw : g'.waiters = (g.updateWaiter jobId f).waiters) (hid : ∀ w, (f w).jobId = w.jobId)
    (hcached : ∀ w : Waiter, w.cached ≠ none → (f w).cached = w.cached) : KeepsOutcomes g g' where
  onError := hmode
  cached w hmem hsome := by
    refine ⟨if w.jobId = jobId then f w else w, hw ▸ List.mem_map_of_mem hmem, ?_, ?_⟩
    · split
      · exact hid w
      · rfl
    · split
      · exact hcached w hsome
      · rfl

theorem KeepsOutcomes.outcomeOf (hk : KeepsOutcomes s.group s'.group) (hs' : Ordered s')
    {status : JobStatus} (h : s.group.outcomeOf jobId = some status) :
    s'.group.outcomeOf jobId = some status := by
  obtain ⟨w, hw, hcached⟩ := Option.bind_eq_some_iff.mp h
  obtain ⟨hmem, rfl⟩ := Group.mem_of_waiterOf hw
  obtain ⟨w', hmem', hid, hcached'⟩ := hk.cached w hmem (by simp [hcached])
  rw [← hid, hs'.outcomeOf hmem', hcached', hcached]

/-- A waiter after an update that keeps its id and `p`. -/
theorem Group.mem_update {f : Waiter → Waiter} {p : Waiter → Bool} {w' : Waiter}
    (hid : ∀ w, (f w).jobId = w.jobId) (hp : ∀ w, p (f w) = p w)
    (h : w' ∈ (g.updateWaiter jobId f).waiters) :
    ∃ w ∈ g.waiters, w.jobId = w'.jobId ∧ p w = p w' := by
  obtain ⟨w, hw, ⟨rfl, -⟩ | ⟨rfl, -⟩⟩ := Group.mem_updateWaiter h
  · exact ⟨_, hw, rfl, rfl⟩
  · exact ⟨w, hw, (hid w).symm, (hp w).symm⟩

theorem Group.mem_notify {w w' : Waiter} (h : w' ∈ (g.notify w).waiters) :
    ∃ v ∈ g.waiters, v.jobId = w'.jobId ∧ v.done = w'.done := by
  rw [Group.notify_waiters] at h
  exact Group.mem_update Waiter.notify_jobId Waiter.notify_done h

theorem Group.notify_handles (w : Waiter) : (g.notify w).handles = g.handles := by
  rw [Group.handles, Group.notify_waiters]
  exact Group.handles_updateWaiter _ Waiter.notify_jobId

theorem Group.cancelWaiters_of_done (h : ∀ w ∈ g.waiters, w.done = true) (ids : List JobId) :
    g.cancelWaiters ids = g := by
  have hsame : (g.waiters.map fun w => if w.jobId ∈ ids then w.cancel else w) = g.waiters := by
    refine (List.map_congr_left fun w hw => ?_).trans (List.map_id _)
    rw [Waiter.cancel_of_done (h w hw), ite_self]
    rfl
  rw [Group.cancelWaiters, hsame]

theorem Group.done_of_undone {ids : List JobId} (h : g.undone ids = [])
    (hin : ∀ w ∈ g.waiters, w.done = false → w.jobId ∈ ids) : ∀ w ∈ g.waiters, w.done = true := by
  intro w hw
  by_contra hnot
  rw [Bool.not_eq_true] at hnot
  have hmem : w.jobId ∈ g.undone ids := Group.mem_undone.mpr ⟨w, hw, rfl, hin w hw hnot, hnot⟩
  rw [h] at hmem
  cases hmem

/-! ## The fan-out -/

theorem Group.flagged_fanout (t : Table) : (g.flagged t jobId).fanout = g.fanout := by
  unfold flagged
  split
  · split <;> rfl
  · rfl

/-- The fan-out that `_settle` has found is there. -/
def Fanning (g : Group) : Prop :=
  ∀ torn awaited, g.phase = .settling torn awaited true → g.fanout ≠ none

theorem fanning_settle (g : Group) (torn : Bool) : Fanning (g.settle torn) := by
  intro torn' awaited hp hnone
  have hphase : Phase.settling torn g.handles g.fanout.isSome = .settling torn' awaited true := hp
  have hnone' : g.fanout = none := hnone
  rw [hnone'] at hphase
  cases hphase

theorem Fanning.jobFinished (hf : Fanning g) (w : Waiter) : Fanning (g.jobFinished w) := by
  rcases g.jobFinished_cases w with ⟨failures, h⟩ | ⟨-, failures, h⟩
  · rw [h]
    exact hf
  · rw [h]
    exact fun _ _ _ => Option.some_ne_none _

theorem Fanning.leaves (hf : Fanning g) (h : Leaves g e g') : Fanning g' := by
  cases h with
  | bodyEmpty raised hp hempty => exact fanning_settle _ false
  | joined watched failures hp hdone => exact fanning_settle _ false
  | backstopRaised pending requests hp => exact fanning_settle _ false
  | drained pending hp hdone => exact fanning_settle _ false
  | torn e raised adrift he hp hadrift => exact fanning_settle _ true
  | again awaited hp => exact hf
  | unsettled torn awaited withFanout fanout adrift hp hfanout hadrift =>
    intro torn' awaited' hp'
    rcases hfanout with rfl | rfl
    · exact hf torn' awaited' hp'
    · exact Option.some_ne_none _
  | _ => exact fun torn awaited hp => by cases hp

theorem Fanning.step {s s' : System} (hf : Fanning s.group) (h : s.step e = some s') :
    Fanning s'.group := by
  cases stepOf h with
  | fanoutRaised => exact fun _ _ _ => Option.some_ne_none _
  | notify w hw =>
    have hupdated : Fanning (s.group.updateWaiter w.jobId Waiter.notify) := hf
    exact hupdated.jobFinished w
  | flag jobId phase fanout adrift hnext =>
    intro torn awaited hp
    rw [System.flag, Group.flagged_phase] at hp
    rw [System.flag, Group.flagged_fanout]
    cases hnext with
    | fanout rest hr => exact Option.some_ne_none _
    | late hmem => exact hf torn awaited hp
    | backstop pending rest hr => cases hp
    | tearingDown rest hr => cases hp
  | leaves hleaves => exact hf.leaves hleaves
  | _ => exact hf

end TaskQueue.Scope
