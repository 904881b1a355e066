import TaskQueue.Library.Clocked
import TaskQueue.Scope.FailFast
import TaskQueue.Scope.Orphans

/-!
# The deadline of a scope

`__aenter__` computes `_deadline_at`, and `__aexit__` arms a timer for it around the join.
Here the scope runs beside the clock of its event loop. Once the timer is armed, the clock
does not pass the deadline before the timer has run, nor while the owner is about to go on;
in the body nothing keeps it, nor do the waiters that a cancelled `gather` waits for.

- `Bounded` is what a deadline promises: when the clock has passed it and the scope is
  still open, every child has been asked to stop or has ended.
- `timely` is what a run must avoid: a body that outlives the deadline with a child of whose
  end the scope has not heard, and to which it has not fanned out; waiters that unwind
  through the deadline; and a child that escapes the scope's notice.
- `InTime` is the invariant. It is the one of `Orphans`, for all the children that the
  scope has a handle for (`Group.owning`), beside the one of the fan-out and `Reached`: past
  the deadline a child has been asked, or its handle has consumed it.
-/

namespace TaskQueue.Scope

variable {s s' : System} {g g' : Group} {e : Event} {jobId : JobId}

/-- The jobs that the scope has a handle for, or has put into the backend. -/
def Group.children (g : Group) : List JobId := g.handles ++ g.created

/-- The scope, as if it had put every child into the backend itself. -/
def Group.owning (g : Group) : Group := { g with created := g.children }

section Definitions

variable {τ : Type} [LinearOrder τ]

/-- The owner goes on before the loop waits: a cancelled join has nothing more to wait for. -/
def Group.ready (g : Group) : Bool :=
  match g.phase with
  | .unwinding awaited => decide (g.undone awaited = [])
  | _ => false

/-- `timeout_at(_deadline_at)` around the join: it runs at its time, and before the loop
waits any longer. -/
def timeoutAt (deadlineAt : τ) : Timing System Event τ where
  ripe e now :=
    match e with
    | .deadline => decide (deadlineAt ≤ now)
    | _ => true
  lets s later := decide (later ≤ deadlineAt) || !(s.group.inJoin || s.group.ready)

/-- A scope entered at time `entered`, with a deadline of `deadline`. -/
def timedScope [Add τ] (table : Table) (onError : OnError) (detached : List JobId)
    (entered deadline : τ) : Machine (Clocked System τ) (ClockEvent Event τ) :=
  (machine table onError true detached).clocked (timeoutAt (entered + deadline)) entered

/-- Past its deadline, an open scope has asked every child that has not ended. -/
def Bounded (deadlineAt : τ) (s : Clocked System τ) : Prop :=
  s.state.group.phase ≠ .closed → deadlineAt < s.clock →
    ∀ jobId ∈ s.state.group.children,
      jobId ∈ s.state.group.issued ∨ s.state.table.Ended jobId

/-- The scope has heard of the end of the waiter's child, or has fanned out to it. -/
def Group.attended (g : Group) (w : Waiter) : Bool :=
  w.heard || (!w.unasked && (w.done || (g.cancelling && !w.late)))

/-- What an open scope with a deadline relies on. The clock passes the deadline in the body
only when all spawns that created a child have returned and each child is attended to; while
a cancelled join waits, not at all; and in `_settle` only when no waiter broke before its
child was asked. Spawns put their children into the backend, and return, in the body and by
the deadline, and none that created its child fails. -/
def onTime (deadlineAt : τ) (s : Clocked System τ) : ClockEvent Event τ → Bool
  | .tick later =>
    decide (later ≤ deadlineAt) ||
      match s.state.group.phase with
      | .body =>
        (s.state.group.created.all fun jobId => decide (jobId ∈ s.state.group.handles)) &&
          s.state.group.waiters.all s.state.group.attended
      | .unwinding awaited => decide (s.state.group.undone awaited = [])
      | .settling false _ _ => s.state.group.waiters.all fun w => !w.unasked
      | _ => true
  | .act (.enqueue jobId) =>
    decide (s.state.table jobId ≠ none) ||
      (decide (s.state.group.phase = .body) && decide (s.clock ≤ deadlineAt) &&
        s.state.group.spawning.all fun sp => decide (sp.record.id ≠ jobId) || !sp.abandoned)
  | .act (.spawned _) => decide (s.state.group.phase = .body) && decide (s.clock ≤ deadlineAt)
  | .act (.spawnFailed jobId) => decide (jobId ∉ s.state.group.created)
  | .act .bodyDone | .act .bodyRaised =>
    s.state.group.created.all fun jobId => decide (jobId ∈ s.state.group.handles)
  | .act _ => true

/-- The step is on time, unless the scope is closed. -/
def timely (deadlineAt : τ) (s : Clocked System τ) (e : ClockEvent Event τ) : Bool :=
  decide (s.state.group.phase = .closed) || onTime deadlineAt s e

end Definitions

/-! ## Children -/

theorem Group.mem_children : jobId ∈ g.children ↔ jobId ∈ g.handles ∨ jobId ∈ g.created :=
  List.mem_append

theorem Frame.children (h : Frame g g') : g'.children = g.children := by
  rw [Group.children, h.handles, h.created, Group.children]

/-- The owning task moves without a look at `created`. -/
theorem Leaves.owning (h : Leaves g e g') : Leaves g.owning e g'.owning := by
  have hchildren : g'.children = g.children := h.frame.children
  show Leaves g.owning e { g' with created := g'.children }
  rw [hchildren]
  cases h with
  | bodyEmpty raised hp hempty => exact .bodyEmpty raised hp hempty
  | bodyDone hp => exact .bodyDone hp
  | bodyRaised hp => exact .bodyRaised hp
  | joined watched failures hp hdone => exact .joined watched failures hp hdone
  | draining watched hp hcancelling => exact .draining watched hp hcancelling
  | backstop watched hp hcalm => exact .backstop watched hp hcalm
  | asked pending hp => exact .asked pending hp
  | backstopRaised pending requests hp => exact .backstopRaised pending requests hp
  | drained pending hp hdone => exact .drained pending hp hdone
  | interrupted e raised he hin => exact .interrupted e raised he hin
  | again awaited hp => exact .again awaited hp
  | resumed awaited hp hdone => exact .resumed awaited hp hdone
  | reporting hp => exact .reporting hp
  | torn e raised adrift he hp hadrift => exact .torn e raised adrift he hp hadrift
  | unsettled torn awaited withFanout fanout adrift hp hfanout hadrift =>
    exact .unsettled torn awaited withFanout fanout adrift hp hfanout hadrift
  | closed torn awaited withFanout hp hdone => exact .closed torn awaited withFanout hp hdone

theorem Asked.owning (hg : Asked g) : Asked g.owning :=
  ⟨hg.apart, hg.issued, hg.fanout, hg.asking, hg.adrift, hg.hit⟩

theorem Group.updateWaiter_owning (g : Group) {f : Waiter → Waiter}
    (hf : ∀ w, (f w).jobId = w.jobId) :
    (g.updateWaiter jobId f).owning = g.owning.updateWaiter jobId f := by
  rw [Group.owning, Group.children, g.handles_updateWaiter f hf]
  rfl

/-- A request that takes effect changes nothing but `hit`. -/
theorem Group.flagged_eq (g : Group) (jobId : JobId) (t : Table) :
    ∃ hit, g.flagged t jobId = { g with hit := hit } := by
  unfold flagged
  split
  · split
    · exact ⟨g.hit, rfl⟩
    · exact ⟨g.hit ++ [jobId], rfl⟩
  · exact ⟨g.hit, rfl⟩

/-- A child is old, or its spawn has just returned or put it into the backend. -/
theorem children_of_step (h : s.step e = some s') (hid : jobId ∈ s'.group.children) :
    jobId ∈ s.group.children ∨ e = .spawned jobId ∨
      (e = .enqueue jobId ∧ s.table jobId = none) := by
  cases stepOf h with
  | enqueue sp hsp created hcreated =>
    rcases hcreated with rfl | ⟨hnone, rfl⟩
    · exact Or.inl hid
    · rcases List.mem_append.mp hid with hhandle | hmem
      · exact Or.inl (List.mem_append_left _ hhandle)
      · rcases List.mem_append.mp hmem with hold | hnew
        · exact Or.inl (List.mem_append_right _ hold)
        · rw [List.mem_singleton.mp hnew]
          exact Or.inr (Or.inr ⟨rfl, hnone⟩)
  | spawned sp hsp hawaited =>
    rcases Group.mem_children.mp hid with hhandle | hold
    · obtain ⟨w, hw, rfl⟩ := List.mem_map.mp hhandle
      rcases List.mem_append.mp hw with hold | hnew
      · exact Or.inl (List.mem_append_left _ (List.mem_map_of_mem hold))
      · rw [List.mem_singleton.mp hnew]
        exact Or.inr (Or.inl rfl)
    · exact Or.inl (List.mem_append_right _ hold)
  | take id status =>
    refine Or.inl ?_
    rwa [Group.children, s.group.handles_updateWaiter _ fun w => w.take_jobId status] at hid
  | report id exceptional =>
    refine Or.inl ?_
    rwa [System.moveTo, Group.children,
      s.group.handles_updateWaiter _ fun w => w.report_jobId exceptional] at hid
  | unwound id =>
    refine Or.inl ?_
    rwa [System.moveTo, Group.children,
      s.group.handles_updateWaiter _ fun w => w.unwound_jobId] at hid
  | broke id freed =>
    refine Or.inl ?_
    rwa [Group.children, s.group.handles_updateWaiter _ fun w => w.breaks_jobId _] at hid
  | notify w hw =>
    have hsame : (s.group.updateWaiter w.jobId fun w => { w with notified := true }).handles =
        s.group.handles := s.group.handles_updateWaiter _ fun _ => rfl
    have hchildren : jobId ∈
        (s.group.updateWaiter w.jobId fun w => { w with notified := true }).children := by
      rcases Group.jobFinished_cases w with ⟨failures, heq⟩ | ⟨-, failures, heq⟩
      · rwa [System.moveTo, heq] at hid
      · rwa [System.moveTo, heq] at hid
    rw [Group.children, hsame] at hchildren
    exact Or.inl hchildren
  | flag id phase fanout adrift hnext =>
    obtain ⟨hit, heq⟩ := Group.flagged_eq
      { s.group with phase := phase, fanout := fanout, adrift := adrift } id s.table
    refine Or.inl ?_
    rwa [System.flag, heq] at hid
  | leaves hleaves =>
    refine Or.inl ?_
    rwa [System.moveTo, hleaves.frame.children] at hid
  | _ => exact Or.inl hid

/-- Requests that were issued stay issued. -/
theorem issued_of_step (h : s.step e = some s') : s.group.issued ⊆ s'.group.issued := by
  cases stepOf h with
  | notify w hw =>
    rcases Group.jobFinished_cases w with ⟨failures, heq⟩ | ⟨-, failures, heq⟩
    · rw [System.moveTo, heq]
      exact List.Subset.refl _
    · rw [System.moveTo, heq]
      exact List.subset_append_left _ _
  | flag id phase fanout adrift hnext =>
    obtain ⟨hit, heq⟩ := Group.flagged_eq
      { s.group with phase := phase, fanout := fanout, adrift := adrift } id s.table
    rw [System.flag, heq]
    exact List.Subset.refl _
  | leaves hleaves => exact hleaves.frame.issued
  | _ => exact List.Subset.refl _

/-- Nobody puts a child into the backend again that is gone from it, but its own spawn. -/
theorem gone_of_step (hg : Tracked s.group.owning) (hid : jobId ∈ s.group.children)
    (hgone : s.table jobId = none) (h : s.step e = some s') :
    s'.table jobId = none ∨ e = .enqueue jobId := by
  have hop : ∀ op : TableOp, (∀ record, op ≠ .create record) → op.effect s.table jobId = none :=
    fun op hcreate => op.effect_of_none s.table hgone fun record heq => absurd heq (hcreate record)
  cases stepOf h with
  | backend op hfresh =>
    refine Or.inl (op.effect_of_none s.table hgone ?_)
    rintro record hrecord rfl
    obtain ⟨hjobs, hspawn⟩ := hfresh record hrecord
    rcases hg.known record.id hid with hmem | ⟨-, sp, hsp, heq, -⟩
    · exact hjobs (Group.mem_jobs hmem)
    · exact hspawn sp hsp heq
  | enqueue sp hsp created hcreated =>
    by_cases hsame : sp.record.id = jobId
    · exact Or.inr (by rw [hsame])
    · refine Or.inl (TableOp.effect_of_none s.table (.create sp.record) hgone ?_)
      rintro _ ⟨⟩
      exact hsame
  | take id status => exact Or.inl (hop (.free id) fun _ => by simp)
  | broke id freed =>
    cases freed with
    | true => exact Or.inl (hop (.free id) fun _ => by simp)
    | false => exact Or.inl hgone
  | flag id phase fanout adrift hnext => exact Or.inl (hop (.flag id) fun _ => by simp)
  | _ => exact Or.inl hgone

/-! ## The owning task -/

/-- A closed scope stays closed. -/
theorem Leaves.open (h : Leaves g e g') : g.phase ≠ .closed := by
  intro hclosed
  cases h with
  | interrupted e raised he hin =>
    rw [Group.inJoin, hclosed] at hin
    cases hin
  | torn e raised adrift he hp hadrift =>
    rw [hclosed] at hp
    simp at hp
  | bodyEmpty raised hp hempty => cases hclosed.symm.trans hp
  | bodyDone hp => cases hclosed.symm.trans hp
  | bodyRaised hp => cases hclosed.symm.trans hp
  | joined watched failures hp hdone => cases hclosed.symm.trans hp
  | draining watched hp hcancelling => cases hclosed.symm.trans hp
  | backstop watched hp hcalm => cases hclosed.symm.trans hp
  | asked pending hp => cases hclosed.symm.trans hp
  | backstopRaised pending requests hp => cases hclosed.symm.trans hp
  | drained pending hp hdone => cases hclosed.symm.trans hp
  | reporting hp => cases hclosed.symm.trans hp
  | again awaited hp => cases hclosed.symm.trans hp
  | resumed awaited hp hdone => cases hclosed.symm.trans hp
  | unsettled torn awaited withFanout fanout adrift hp hfanout hadrift =>
    cases hclosed.symm.trans hp
  | closed torn awaited withFanout hp hdone => cases hclosed.symm.trans hp

theorem closed_of_step (h : s.step e = some s') (hp : s.group.phase = .closed) :
    s'.group.phase = .closed := by
  cases stepOf h with
  | notify w hw => exact (Group.jobFinished_phase w).trans hp
  | flag id phase fanout adrift hnext =>
    refine (Group.flagged_phase s.table).trans ?_
    cases hnext with
    | fanout rest hf => exact hp
    | late hmem => exact hp
    | backstop pending rest hp' => cases hp.symm.trans hp'
    | tearingDown rest hp' => cases hp.symm.trans hp'
  | leaves hleaves => exact absurd hp hleaves.open
  | _ => exact hp

/-! ## The invariant -/

variable {τ : Type} [LinearOrder τ] {deadlineAt : τ} {now : τ}

/-- A spawn returns in the body. -/
theorem Tracked.owning_register (hg : Tracked g.owning) (hp : g.phase = .body) :
    Tracked (g.register jobId).owning := by
  have hhandles : (g.register jobId).handles = g.handles ++ [jobId] := by
    simp [Group.handles, Group.register]
  have hpromised : g.owning.promised ⊆ (g.register jobId).owning.promised := by
    rw [Group.promised_eq (g := g.owning) (by simp [Group.owning, hp]),
      Group.promised_eq (g := (g.register jobId).owning)
        (by simp [Group.owning, Group.register, hp])]
    exact List.Subset.refl _
  refine ⟨fun w hw => ?_, fun id hid => ?_, ?_⟩
  · rcases List.mem_append.mp hw with hold | hnew
    · refine (hg.waiters w hold).mono hpromised fun _ => ?_
      exact List.mem_append_left _ (List.mem_map_of_mem hold)
    · rw [List.mem_singleton.mp hnew]
      exact ⟨by simp [Waiter.heard], by simp, by simp⟩
  · show id ∈ (g.register jobId).handles ∨ _
    rw [hhandles]
    by_cases hnew : id = jobId
    · exact Or.inl (by simp [hnew])
    · have hold : id ∈ g.children := by
        rcases Group.mem_children.mp hid with hmem | hmem
        · rw [hhandles] at hmem
          have hhandle : id ∈ g.handles := by simpa [hnew] using hmem
          exact List.mem_append_left _ hhandle
        · exact List.mem_append_right _ hmem
      refine (hg.known id hold).imp (List.mem_append_left _) ?_
      rintro ⟨-, sp, hsp, rfl, hawaited⟩
      exact ⟨hp, sp, by simpa [Group.owning, Group.register] using ⟨hsp, hnew⟩, rfl, hawaited⟩
  · show Phase.Covers _ _ _ g.phase
    rw [hp]
    trivial

/-- Steps that are on time keep track of the children. -/
theorem Tracked.owning_step (hasked : Asked s.group) (hg : Tracked s.group.owning)
    (ht : onTime deadlineAt ⟨s, now⟩ (.act e) = true) (h : s.step e = some s') :
    Tracked s'.group.owning := by
  cases stepOf h with
  | backend op hfresh => exact hg
  | spawn record hfresh =>
    refine ⟨hg.waiters, fun id hid => (hg.known id hid).imp_right ?_, hg.covered⟩
    rintro ⟨hp, sp, hsp, hrest⟩
    exact ⟨hp, sp, List.mem_append_left _ hsp, hrest⟩
  | enqueue sp hsp created hcreated =>
    have hkeeps : keepsTrack ⟨s.table, s.group.owning⟩ (.enqueue sp.record.id) = true := by
      simp only [onTime, keepsTrack, Bool.or_eq_true, Bool.and_eq_true] at ht ⊢
      exact ht.imp_right fun hin => ⟨hin.1.1, hin.2⟩
    refine Tracked.enqueue (s := ⟨s.table, s.group.owning⟩) hasked.owning hg hsp ?_ hkeeps
    refine hcreated.imp (fun hsame => by rw [hsame]; rfl) fun hnew => ⟨hnew.1, ?_⟩
    rw [hnew.2]
    exact (List.append_assoc _ _ _).symm
  | spawned sp hsp hawaited =>
    simp only [onTime, Bool.and_eq_true, decide_eq_true_eq] at ht
    exact hg.owning_register ht.1
  | spawnFailed sp hsp =>
    refine hg.spawnFailed fun hid => ?_
    rcases Group.mem_children.mp hid with hhandle | hcreated
    · exact hasked.apart sp hsp (Group.mem_jobs hhandle)
    · simp only [onTime, decide_eq_true_eq] at ht
      exact ht hcreated
  | take id status =>
    show Tracked (s.group.updateWaiter id _).owning
    rw [Group.updateWaiter_owning _ fun w => w.take_jobId status]
    exact hg.updateWaiter (fun w => .take w status) fun w hw => hw.take status
  | report id exceptional =>
    show Tracked (s.group.updateWaiter id _).owning
    rw [Group.updateWaiter_owning _ fun w => w.report_jobId exceptional]
    exact hg.updateWaiter (fun w => .report w exceptional) fun w hw => hw.report exceptional
  | broke id freed =>
    show Tracked (s.group.updateWaiter id _).owning
    rw [Group.updateWaiter_owning _ fun w => w.breaks_jobId _]
    exact hg.updateWaiter (fun w => .breaks w _) fun w hw =>
      hw.breaks (Group.issued_subset_promised (g := s.group.owning))
  | unwound id =>
    show Tracked (s.group.updateWaiter id _).owning
    rw [Group.updateWaiter_owning _ fun w => w.unwound_jobId]
    exact hg.updateWaiter (fun w => .unwound w) fun w hw => hw.unwound
  | notify w hw =>
    have hnotified : Tracked
        (s.group.updateWaiter w.jobId fun w => { w with notified := true }).owning := by
      have howning : (s.group.updateWaiter w.jobId fun w => { w with notified := true }).owning
          = s.group.owning.updateWaiter w.jobId fun w => { w with notified := true } :=
        s.group.updateWaiter_owning fun _ => rfl
      rw [howning]
      exact hg.updateWaiter (fun w => .notified w) fun w hw =>
        ⟨hw.heard, hw.broke, hw.cancelled⟩
    show Tracked (Group.jobFinished _ w).owning
    rcases Group.jobFinished_cases w with ⟨failures, heq⟩ | ⟨-, failures, heq⟩
    · rw [heq]
      exact hnotified.of_issued rfl rfl rfl rfl rfl (List.Subset.refl _)
    · rw [heq]
      exact hnotified.of_issued rfl rfl rfl rfl rfl (List.subset_append_left _ _)
  | fanoutRaised => exact ⟨hg.waiters, hg.known, hg.covered⟩
  | flag id phase fanout adrift hnext =>
    have hcov := hg.covered
    have hstay : (∀ awaited, s.group.phase ≠ .unwinding awaited) →
        ∀ w ∈ s.group.waiters, w.Accounted s.group.issued s.group.children := fun hp w hw =>
      Group.promised_eq (g := s.group.owning) hp ▸ hg.waiters w hw
    have hrest : Tracked
        { s.group with phase := phase, fanout := fanout, adrift := adrift }.owning := by
      cases hnext with
      | fanout rest hf => exact ⟨hg.waiters, hg.known, hcov⟩
      | late hmem => exact ⟨hg.waiters, hg.known, hcov⟩
      | backstop pending rest hp =>
        have hknown := hg.known.handles (show s.group.phase ≠ .body by simp [hp])
        rw [show s.group.owning.phase = .backstop pending (id :: rest) from hp] at hcov
        exact ⟨hstay (by simp [hp]), .of_handles hknown, hcov⟩
      | tearingDown rest hp =>
        have hknown := hg.known.handles (show s.group.phase ≠ .body by simp [hp])
        rw [show s.group.owning.phase = .tearingDown (id :: rest) from hp] at hcov
        exact ⟨hstay (by simp [hp]), .of_handles hknown, hcov⟩
    obtain ⟨hit, heq⟩ := Group.flagged_eq
      { s.group with phase := phase, fanout := fanout, adrift := adrift } id s.table
    rw [System.flag, heq]
    exact hrest.of_issued rfl rfl rfl rfl rfl (List.Subset.refl _)
  | leaves hleaves =>
    refine hg.leaves hasked.owning hleaves.owning fun hbody => ?_
    have hcreated : s.group.created ⊆ s.group.handles := by
      intro id hid
      rcases hleaves.of_body hbody with rfl | rfl
      · simp only [onTime, List.all_eq_true, decide_eq_true_eq] at ht
        exact ht id hid
      · simp only [onTime, List.all_eq_true, decide_eq_true_eq] at ht
        exact ht id hid
    exact List.append_subset.mpr ⟨List.Subset.refl _, hcreated⟩

/-- Past the deadline, each child has been asked or consumed. -/
def Reached (deadlineAt : τ) (s : Clocked System τ) : Prop :=
  deadlineAt < s.clock → ∀ jobId ∈ s.state.group.children,
    jobId ∈ s.state.group.issued ∨ s.state.table jobId = none

/-- The scope has lost track of none of its children, and meets its deadline. -/
structure InTime (deadlineAt : τ) (s : Clocked System τ) : Prop where
  asked : Asked s.state.group
  fanned : Fanned s.state.group
  consumed : Consumed s.state
  tracked : Tracked s.state.group.owning
  reached : Reached deadlineAt s

theorem InTime.bounded {s : Clocked System τ} (hs : InTime deadlineAt s) :
    Bounded deadlineAt s := by
  intro _ hlate id hid
  refine (hs.reached hlate id hid).imp_right fun hgone r hr => ?_
  rw [hgone] at hr
  cases hr

theorem inTime_entered (table : Table) (onError : OnError) (detached : List JobId) :
    InTime deadlineAt ⟨(machine table onError true detached).init, now⟩ where
  asked := asked_enter _ _ _
  fanned := fanned_enter _ _ _
  consumed := by simp [Consumed, machine, Group.enter]
  tracked := tracked_enter _ _ _
  reached := fun _ _ hid =>
    absurd hid (by simp [machine, Group.enter, Group.children, Group.handles])

/-- A step past the deadline brings no child, and none back that is gone. -/
theorem Reached.act (hs : InTime deadlineAt ⟨s, now⟩)
    (ht : onTime deadlineAt ⟨s, now⟩ (.act e) = true) (h : s.step e = some s') :
    Reached deadlineAt ⟨s', now⟩ := by
  intro hlate id hid
  have hlate' : ¬ now ≤ deadlineAt := not_le.mpr hlate
  have hstored : e = .enqueue id → s.table id ≠ none := by
    rintro rfl
    simpa [onTime, hlate'] using ht
  rcases children_of_step h hid with hold | rfl | ⟨henqueue, hnone⟩
  · rcases hs.reached hlate id hold with hissued | hgone
    · exact Or.inl (issued_of_step h hissued)
    · refine Or.inr ((gone_of_step hs.tracked hold hgone h).resolve_right fun henqueue => ?_)
      exact hstored henqueue hgone
  · -- no spawn returns past the deadline
    simp [onTime, hlate'] at ht
  · exact absurd hnone (hstored henqueue)

theorem InTime.act (hs : InTime deadlineAt ⟨s, now⟩)
    (ht : onTime deadlineAt ⟨s, now⟩ (.act e) = true) (h : s.step e = some s') :
    InTime deadlineAt ⟨s', now⟩ where
  asked := hs.asked.step h
  fanned := hs.fanned.step hs.asked h
  consumed := hs.consumed.step hs.asked h
  tracked := hs.tracked.owning_step hs.asked ht h
  reached := .act hs ht h

/-- In the body, a child that is attended to has been asked or consumed. -/
theorem InTime.attended (hs : InTime deadlineAt ⟨s, now⟩) (hp : s.group.phase = .body)
    {w : Waiter} (hw : w ∈ s.group.waiters) (h : s.group.attended w = true) :
    w.jobId ∈ s.group.issued ∨ s.table w.jobId = none := by
  have hacc : w.Accounted s.group.issued s.group.children :=
    Group.promised_eq (g := s.group.owning) (by simp [Group.owning, hp]) ▸ hs.tracked.waiters w hw
  have hid : w.jobId ∈ s.group.children := List.mem_append_left _ (List.mem_map_of_mem hw)
  have hgone : w.heard = true → s.table w.jobId = none := gone_of_heard hs.consumed hw hacc
  simp only [Group.attended, Bool.or_eq_true, Bool.and_eq_true, Bool.not_eq_true'] at h
  rcases h with hheard | ⟨hun, hdone | ⟨hcancelling, hlate⟩⟩
  · exact Or.inr (hgone hheard)
  · refine (accounted_of_moved (g := s.group.owning) hacc ?_ hid hun).imp_right hgone
    intro hstate
    rw [Waiter.not_done_iff.mpr (Or.inl hstate)] at hdone
    cases hdone
  · cases hdone : w.done with
    | false =>
      have hwatching : s.group.phase.watching = true := by rw [hp, Phase.watching]
      exact Or.inl (hs.fanned.asked hwatching hcancelling w hw hlate hdone)
    | true =>
      refine (accounted_of_moved (g := s.group.owning) hacc ?_ hid hun).imp_right hgone
      intro hstate
      rw [Waiter.not_done_iff.mpr (Or.inl hstate)] at hdone
      cases hdone

/-- When the clock passes the deadline, each child has been asked or consumed: the body
attends to its own, the timer of the join has run, and a teardown asks all. -/
theorem InTime.tick {later : τ} (hs : InTime deadlineAt ⟨s, now⟩)
    (hopen : s.group.phase ≠ .closed)
    (ht : onTime deadlineAt ⟨s, now⟩ (.tick later) = true)
    (hlets : (timeoutAt deadlineAt).lets s later = true) : InTime deadlineAt ⟨s, later⟩ := by
  refine ⟨hs.asked, hs.fanned, hs.consumed, hs.tracked, fun hlate => ?_⟩
  have hlate' : ¬ later ≤ deadlineAt := not_le.mpr hlate
  have hcov := hs.tracked.covered
  simp only [onTime, hlate', decide_false, Bool.false_or] at ht
  simp only [timeoutAt, hlate', decide_false, Bool.false_or, Bool.not_eq_true',
    Bool.or_eq_false_iff] at hlets
  show ∀ id ∈ s.group.children, _
  cases hp : s.group.phase with
  | body =>
    simp only [hp, Bool.and_eq_true, List.all_eq_true, decide_eq_true_eq] at ht
    intro id hid
    have hhandle : id ∈ s.group.handles := (Group.mem_children.mp hid).elim (fun h => h) (ht.1 id)
    obtain ⟨w, hw, rfl⟩ := List.mem_map.mp hhandle
    exact hs.attended hp hw (ht.2 w hw)
  | joining watched | backstop pending requests | draining pending =>
    rw [Group.inJoin, hp] at hlets
    cases hlets.1
  | unwinding awaited =>
    rw [hp] at ht
    rw [Group.ready, hp] at hlets
    exact absurd (ht.symm.trans hlets.2) (by simp)
  | tearingDown requests | reporting =>
    rw [show s.group.owning.phase = _ from hp] at hcov
    exact fun id hid => Or.inl (hcov hid)
  | settling torn awaited withFanout =>
    intro id hid
    refine (hs.tracked.settled (g := s.group.owning) hp hid).imp_right ?_
    rintro ⟨w, hw, rfl, hheard | ⟨rfl, hun⟩⟩
    · exact gone_of_heard hs.consumed hw (hs.tracked.waiters w hw) hheard
    · rw [hp] at ht
      have hthis := List.all_eq_true.mp ht w hw
      rw [hun] at hthis
      cases hthis
  | closed => exact absurd hp hopen

/-! ## Whole runs -/

/-- **The deadline bounds the whole scope**, in every run that is on time: in every state in
which the scope is open and the clock is past the deadline, each child has been asked to
stop or has ended. -/
theorem bounded_along [Add τ] (table : Table) (onError : OnError) (detached : List JobId)
    (entered deadline : τ) {es : List (ClockEvent Event τ)}
    (h : (timedScope table onError detached entered deadline).Along
      (fun s e _ => timely (entered + deadline) s e = true)
      (timedScope table onError detached entered deadline).init es) :
    (timedScope table onError detached entered deadline).Along
      (fun _ _ s' => Bounded (entered + deadline) s')
      (timedScope table onError detached entered deadline).init es := by
  have hrun : (timedScope table onError detached entered deadline).Along
      (fun _ _ s' => s'.state.group.phase ≠ .closed → InTime (entered + deadline) s')
      (timedScope table onError detached entered deadline).init es := by
    refine Machine.along_clocked
      (J := fun s => s.state.group.phase ≠ .closed → InTime (entered + deadline) s)
      (C := fun s e => timely (entered + deadline) s e = true)
      (fun s e s' hs ht _ hstep hopen => ?_) (fun s later hs ht _ hlets hopen => ?_)
      (fun _ => inTime_entered table onError detached) h
    · have hopen' : s.state.group.phase ≠ .closed := fun hp => hopen (closed_of_step hstep hp)
      rw [timely, decide_eq_false hopen', Bool.false_or] at ht
      exact (hs hopen').act ht hstep
    · rw [timely, decide_eq_false hopen, Bool.false_or] at ht
      exact (hs hopen).tick hopen ht hlets
  exact hrun.mono fun s e s' _ hs hopen => (hs hopen).bounded hopen

/-- The join outlives the deadline: its timer runs, the waiter unwinds at once, and the child
is asked before the clock goes on. -/
def overdueJoin : List (ClockEvent Event Nat) :=
  (spawns "a").map .act ++
    [.act .bodyDone, .tick 5, .act .deadline, .act (.unwound "a"), .act .resumed, .tick 7,
      .act .ask, .act .ask, .act .reported, .act .settled]

theorem bounded_overdueJoin :
    ((timedScope (fun _ => none) .collect [] 0 5).run
        (timedScope (fun _ => none) .collect [] 0 5).init overdueJoin).isSome = true ∧
      (timedScope (fun _ => none) .collect [] 0 5).Along (fun _ _ s' => Bounded (0 + 5) s')
        (timedScope (fun _ => none) .collect [] 0 5).init overdueJoin :=
  ⟨by decide, bounded_along (fun _ => none) .collect [] 0 5 (by decide)⟩

/-- The body spawns a child and sleeps: the deadline passes, and nothing happens. -/
theorem sleepingBody_unbounded :
    ¬ (timedScope (fun _ => none) .collect [] 0 5).Along (fun _ _ s' => Bounded (0 + 5) s')
      (timedScope (fun _ => none) .collect [] 0 5).init ((spawns "a").map .act ++ [.tick 6]) := by
  intro h
  rcases h.last rfl rfl (by decide) (by decide) "a" (by decide) with hissued | hended
  · cases hissued
  · exact absurd (hended _ rfl) (by decide)

end TaskQueue.Scope
