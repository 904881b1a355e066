import TaskQueue.Scope.Steps

/-!
# No orphans

When `__aexit__` has finished, every child whose record the scope put into the
backend should have ended, or have been asked to stop. The scope reaches its children
through its handles and waiters, so it has to hear of each child that it created
before it takes its last look at them, and a waiter that broke is no witness that its
child ended.

`keepsTrack` says just this, step by step. Under it, `Tracked` is the invariant: the
phases of `__aexit__` each cover the children created (`Phase.Covers`).
-/

namespace TaskQueue.Scope

variable {s s' : System} {g g' : Group} {e : Event} {jobId : JobId}

/-- When the scope closes, every child that it created has ended or has been asked to
stop. -/
def NoOrphans (s s' : System) : Prop :=
  s.group.phase ≠ .closed → s'.group.phase = .closed →
    ∀ jobId ∈ s'.group.created, jobId ∈ s'.group.issued ∨ s'.table.Ended jobId

/-- The scope keeps track of the children that it creates: an enqueue that creates one
takes effect while the body awaits the spawn, no spawn that created one fails, all
are registered when the body ends, and when the scope closes without a teardown, the
children on which a waiter broke unasked have ended. -/
def keepsTrack (s : System) : Event → Bool
  | .enqueue jobId =>
    decide (s.table jobId ≠ none) ||
      (decide (s.group.phase = .body) &&
        s.group.spawning.all fun sp => decide (sp.record.id ≠ jobId) || !sp.abandoned)
  | .spawnFailed jobId => decide (jobId ∉ s.group.created)
  | .bodyDone | .bodyRaised =>
    s.group.created.all fun jobId => decide (jobId ∈ s.group.handles)
  | .settled =>
    match s.group.phase with
    | .settling false _ _ =>
      s.group.waiters.all fun w => !w.unasked || decide (s.table.Ended w.jobId)
    | _ => true
  | _ => true

/-! ## Waiters -/

/-- The waiter ended with its job's outcome. -/
def Waiter.heard (w : Waiter) : Bool :=
  match w.state with
  | .returned _ | .raised .jobFailed | .raised .jobCancelled | .raised .value => true
  | .pending | .unwinding | .raised .infrastructure | .cancelled => false

/-- What the state of a waiter says about its child, once the requests for `issued` are
issued. -/
structure Waiter.Accounted (issued created : List JobId) (w : Waiter) : Prop where
  heard : w.heard = true → w.cached ≠ none
  broke : w.state = .raised .infrastructure → w.unasked = false → w.jobId ∈ issued
  cancelled : w.state = .unwinding ∨ w.state = .cancelled → w.jobId ∈ created → w.jobId ∈ issued

namespace Waiter.Accounted

variable {issued issued' created created' : List JobId} {w : Waiter}

theorem mono (h : w.Accounted issued created) (hissued : issued ⊆ issued')
    (hcreated : w.jobId ∈ created' → w.jobId ∈ created) : w.Accounted issued' created' :=
  ⟨h.heard, fun hs hu => hissued (h.broke hs hu),
    fun hs hc => hissued (h.cancelled hs (hcreated hc))⟩

theorem take (h : w.Accounted issued created) (status : JobStatus) :
    (w.take status).Accounted issued created := by
  refine ⟨fun _ => ?_, ?_, ?_⟩
  · unfold Waiter.take
    split
    · simp
    · assumption
  · rw [take_state, take_unasked, take_jobId]
    exact h.broke
  · rw [take_state, take_jobId]
    exact h.cancelled

theorem report (h : w.Accounted issued created) (exceptional : Bool) :
    (w.report exceptional).Accounted issued created := by
  unfold Waiter.report
  split
  · rename_i status hcached
    split
    · exact h
    · refine ⟨fun _ => by simp [hcached], fun hs => ?_, fun hs => ?_⟩
      · cases status <;> simp [resultOf] at hs
      · cases status <;> simp [resultOf] at hs
  · exact h

theorem unwound (h : w.Accounted issued created) : w.unwound.Accounted issued created := by
  unfold Waiter.unwound
  split
  · rename_i hstate
    refine ⟨fun hh => ?_, fun hs => ?_, fun _ => h.cancelled (Or.inl hstate)⟩
    · cases hh
    · cases hs
  · exact h

theorem breaks {now : List JobId} (h : w.Accounted issued created) (hnow : now ⊆ issued) :
    (w.breaks now).Accounted issued created := by
  unfold Waiter.breaks
  split
  · exact h
  · refine ⟨fun hh => ?_, fun _ hu => hnow (by simpa using hu), fun hs => ?_⟩
    · cases hh
    · rcases hs with hs | hs <;> cases hs

/-- The waiter is cancelled, and its child is among those asked. -/
theorem cancel (h : w.Accounted issued created)
    (hasked : w.jobId ∈ created → w.done = false → w.jobId ∈ issued) :
    w.cancel.Accounted issued created := by
  cases hdone : w.done with
  | true =>
    rw [cancel_of_done hdone]
    exact h
  | false =>
    rw [cancel_of_not_done hdone]
    refine ⟨fun hh => ?_, fun hs => ?_, fun _ hc => hasked hc hdone⟩
    · cases hh
    · cases hs

end Waiter.Accounted

/-! ## The invariant -/

/-- The scope knows the children that it created: after the body it has a handle for
each of them, and before that at least a spawn that somebody awaits. -/
def Group.Known (g : Group) : Prop :=
  ∀ jobId ∈ g.created, jobId ∈ g.handles ∨
    (g.phase = .body ∧ ∃ sp ∈ g.spawning, sp.record.id = jobId ∧ sp.abandoned = false)

/-- The children that have been asked to stop; a join that has been cancelled will ask all. -/
def Group.promised (g : Group) : List JobId :=
  match g.phase with
  | .unwinding _ => g.issued ++ g.jobs
  | _ => g.issued

theorem Group.promised_eq (hp : ∀ awaited, g.phase ≠ .unwinding awaited) :
    g.promised = g.issued := by
  unfold promised
  split
  case h_1 awaited h => exact absurd h (hp awaited)
  case h_2 => rfl

theorem Group.issued_subset_promised : g.issued ⊆ g.promised := by
  unfold promised
  split
  · exact List.subset_append_left _ _
  · exact List.Subset.refl _

theorem Group.promised_subset_jobs (h : g.issued ⊆ g.jobs) : g.promised ⊆ g.jobs := by
  unfold promised
  split
  · exact List.append_subset.mpr ⟨h, List.Subset.refl _⟩
  · exact h

theorem Group.promised_mono (hphase : g'.phase = g.phase) (hissued : g.issued ⊆ g'.issued)
    (hjobs : g.jobs ⊆ g'.jobs) : g.promised ⊆ g'.promised := by
  unfold promised
  rw [hphase]
  split
  · exact List.append_subset.mpr ⟨fun _ hid => List.mem_append_left _ (hissued hid),
      fun _ hid => List.mem_append_right _ (hjobs hid)⟩
  · exact hissued

/-- What each phase of `__aexit__` still does about the children created. -/
def Phase.Covers (waiters : List Waiter) (created issued : List JobId) : Phase → Prop
  | .body | .unwinding _ | .closed => True
  | .joining watched => created ⊆ watched
  | .backstop pending _ | .draining pending =>
    ∀ w ∈ waiters, w.jobId ∈ created → w.done = false → w.jobId ∈ pending
  | .tearingDown _ | .reporting => created ⊆ issued
  | .settling torn _ _ =>
    (torn = true → created ⊆ issued) ∧ ∀ w ∈ waiters, w.jobId ∈ created → w.state ≠ .pending

/-- Waiters make progress, and no created child gets another one after the body. -/
theorem Phase.Covers.mono {phase : Phase} {waiters waiters' : List Waiter}
    {created issued issued' : List JobId} (h : phase.Covers waiters created issued)
    (hissued : issued ⊆ issued')
    (hw : phase ≠ .body → ∀ w' ∈ waiters', w'.jobId ∈ created → ∃ w ∈ waiters, w.Advances w') :
    phase.Covers waiters' created issued' := by
  have hpending : ∀ pending : List JobId, phase ≠ .body →
      (∀ w ∈ waiters, w.jobId ∈ created → w.done = false → w.jobId ∈ pending) →
      ∀ w ∈ waiters', w.jobId ∈ created → w.done = false → w.jobId ∈ pending := by
    intro pending hp hold w' hw' hc hdone
    obtain ⟨w, hmem, hadv⟩ := hw hp w' hw' hc
    rw [hadv.jobId] at hc ⊢
    exact hold w hmem hc (hadv.done hdone)
  cases phase with
  | body => trivial
  | unwinding awaited => trivial
  | closed => trivial
  | joining watched => exact h
  | backstop pending requests => exact hpending pending (by simp) h
  | draining pending => exact hpending pending (by simp) h
  | tearingDown requests => exact fun _ hid => hissued (h hid)
  | reporting => exact fun _ hid => hissued (h hid)
  | settling torn awaited withFanout =>
    refine ⟨fun ht _ hid => hissued (h.1 ht hid), fun w' hw' hc hpending => ?_⟩
    obtain ⟨w, hmem, hadv⟩ := hw (by simp) w' hw' hc
    rw [hadv.jobId] at hc
    -- a task that was cancelled does not start again
    exact h.2 w hmem hc (hadv.pending hpending)

/-- The scope has lost track of none of the children that it created. -/
structure Tracked (g : Group) : Prop where
  waiters : ∀ w ∈ g.waiters, w.Accounted g.promised g.created
  known : g.Known
  covered : g.phase.Covers g.waiters g.created g.issued

theorem tracked_enter (onError : OnError) (hasDeadline : Bool) (detached : List JobId) :
    Tracked (.enter onError hasDeadline detached) where
  waiters := by simp [Group.enter]
  known := by simp [Group.enter, Group.Known]
  covered := trivial

theorem Group.Known.handles (h : g.Known) (hp : g.phase ≠ .body) : g.created ⊆ g.handles :=
  fun jobId hid => (h jobId hid).resolve_right fun hbody => hp hbody.1

theorem Group.Known.of_handles (h : g.created ⊆ g.handles) : g.Known :=
  fun _ hid => Or.inl (h hid)

/-- The waiters make progress; nothing else changes, but that more may be asked. -/
theorem Tracked.of_waiters (hg : Tracked g) (hphase : g'.phase = g.phase)
    (hcreated : g'.created = g.created) (hspawning : g'.spawning = g.spawning)
    (hhandles : g'.handles = g.handles) (hissued : g.issued ⊆ g'.issued)
    (hw : ∀ w' ∈ g'.waiters, w'.Accounted g'.promised g'.created)
    (hadv : ∀ w' ∈ g'.waiters, ∃ w ∈ g.waiters, w.Advances w') : Tracked g' := by
  refine ⟨hw, ?_, ?_⟩
  · simp only [Group.Known, hphase, hcreated, hspawning, hhandles]
    exact hg.known
  · rw [hphase, hcreated]
    exact hg.covered.mono hissued fun _ w' hw' _ => hadv w' hw'

theorem Tracked.updateWaiter (hg : Tracked g) {f : Waiter → Waiter}
    (hadv : ∀ w : Waiter, w.Advances (f w))
    (hf : ∀ w : Waiter, w.Accounted g.promised g.created →
      (f w).Accounted g.promised g.created) :
    Tracked (g.updateWaiter jobId f) := by
  have hhandles : (g.updateWaiter jobId f).handles = g.handles :=
    g.handles_updateWaiter f fun w => (hadv w).jobId
  have hpromised : g.promised ⊆ (g.updateWaiter jobId f).promised := by
    refine Group.promised_mono rfl (List.Subset.refl _) ?_
    rw [Group.jobs, Group.jobs, hhandles]
    exact List.Subset.refl _
  refine hg.of_waiters rfl rfl rfl hhandles (List.Subset.refl _) (fun w' hw' => ?_)
    fun w' hw' => ?_
  · obtain ⟨w, hmem, ⟨rfl, -⟩ | ⟨rfl, -⟩⟩ := Group.mem_updateWaiter hw'
    · exact (hg.waiters _ hmem).mono hpromised id
    · exact (hf w (hg.waiters w hmem)).mono hpromised id
  · obtain ⟨w, hmem, ⟨rfl, -⟩ | ⟨rfl, -⟩⟩ := Group.mem_updateWaiter hw'
    · exact ⟨_, hmem, .refl _⟩
    · exact ⟨w, hmem, hadv w⟩

/-- Nothing changes for the waiters, but that more may be asked. -/
theorem Tracked.of_issued (hg : Tracked g) (hphase : g'.phase = g.phase)
    (hcreated : g'.created = g.created) (hspawning : g'.spawning = g.spawning)
    (hwaiters : g'.waiters = g.waiters) (hdetached : g'.detached = g.detached)
    (hissued : g.issued ⊆ g'.issued) : Tracked g' := by
  have hhandles : g'.handles = g.handles := by rw [Group.handles, hwaiters, Group.handles]
  have hjobs : g.jobs ⊆ g'.jobs := by
    rw [Group.jobs, Group.jobs, hhandles, hdetached]
    exact List.Subset.refl _
  refine hg.of_waiters hphase hcreated hspawning hhandles hissued ?_ ?_
  · rw [hwaiters, hcreated]
    exact fun w hw => (hg.waiters w hw).mono (Group.promised_mono hphase hissued hjobs) id
  · rw [hwaiters]
    exact fun w hw => ⟨w, hw, .refl w⟩

theorem Tracked.jobFinished (hg : Tracked g) (w : Waiter) : Tracked (g.jobFinished w) := by
  rcases g.jobFinished_cases w with ⟨failures, h⟩ | ⟨-, failures, h⟩
  · rw [h]
    exact hg.of_issued rfl rfl rfl rfl rfl (List.Subset.refl _)
  · rw [h]
    exact hg.of_issued rfl rfl rfl rfl rfl (List.subset_append_left _ _)

theorem Tracked.flagged (hg : Tracked g) (t : Table) : Tracked (g.flagged t jobId) := by
  unfold Group.flagged
  split
  · split
    · exact hg
    · exact hg.of_issued rfl rfl rfl rfl rfl (List.Subset.refl _)
  · exact hg

/-! ## Leaving -/

/-- `_settle` cancels no waiter of a child that nobody asked. -/
theorem Tracked.settle (hw : ∀ w ∈ g.waiters, w.Accounted g.issued g.created)
    (hknown : g.created ⊆ g.handles) (raised : Option Raised) (adrift : List JobId) (torn : Bool)
    (hpending : ∀ w ∈ g.waiters, w.jobId ∈ g.created → w.done = false → w.jobId ∈ g.issued)
    (htorn : torn = true → g.created ⊆ g.issued) :
    Tracked ({ g with raised := raised, adrift := adrift }.settle torn) := by
  refine ⟨fun w' hw' => ?_, .of_handles ?_, htorn, fun w' hw' _ => ?_⟩
  · obtain ⟨w, hmem, ⟨rfl, -⟩ | ⟨rfl, -⟩⟩ := Group.mem_cancelWaiters hw'
    · exact hw _ hmem
    · exact (hw w hmem).cancel (hpending w hmem)
  · show g.created ⊆ (g.cancelWaiters g.handles).handles
    rw [Group.handles_cancelWaiters]
    exact hknown
  · obtain ⟨w, hmem, ⟨rfl, hnot⟩ | ⟨rfl, -⟩⟩ := Group.mem_cancelWaiters hw'
    · exact absurd (List.mem_map_of_mem hmem) hnot
    · exact w.cancel_not_pending

/-- `cancel_all_jobs` asks every child. -/
theorem Tracked.cancelAllJobs (hw : ∀ w ∈ g.waiters, w.Accounted g.jobs g.created)
    (hknown : g.created ⊆ g.handles) (raised : Option Raised) :
    Tracked { g with raised := raised }.cancelAllJobs where
  waiters w hmem := (hw w hmem).mono (List.subset_append_right _ _) id
  known := .of_handles hknown
  covered := fun _ hid => List.mem_append_right _ (Group.mem_jobs (hknown hid))

/-- A join that is cancelled takes waiters along, and will ask all children. -/
theorem Tracked.interrupt (hasked : Asked g)
    (hw : ∀ w ∈ g.waiters, w.Accounted g.issued g.created) (hknown : g.created ⊆ g.handles)
    (raised : Raised) : Tracked (g.interrupt raised) := by
  have hhandles : (g.interrupt raised).handles = g.handles := Group.handles_cancelWaiters _
  have hjobs : g.jobs ⊆ (g.interrupt raised).promised := by
    show g.jobs ⊆ g.issued ++ (g.detached ++ (g.interrupt raised).handles)
    rw [hhandles]
    exact List.subset_append_right _ _
  have hissued : g.issued ⊆ (g.interrupt raised).promised :=
    fun id hid => hjobs (hasked.issued hid)
  refine ⟨fun w' hw' => ?_, .of_handles ?_, trivial⟩
  · obtain ⟨w, hmem, ⟨rfl, -⟩ | ⟨rfl, -⟩⟩ := Group.mem_cancelWaiters hw'
    · exact (hw _ hmem).mono hissued id
    · exact ((hw w hmem).mono hissued id).cancel fun _ _ =>
        hjobs (Group.mem_jobs (List.mem_map_of_mem hmem))
  · rw [hhandles]
    exact hknown

/-- No created child is left running when everything that is waited for is done. -/
theorem not_pending_of_undone {pending : List JobId} (hnone : g.undone pending = [])
    (hcov : ∀ w ∈ g.waiters, w.jobId ∈ g.created → w.done = false → w.jobId ∈ pending) :
    ∀ w ∈ g.waiters, w.jobId ∈ g.created → w.done = false → w.jobId ∈ g.issued := by
  intro w hw hc hdone
  have hundone : w.jobId ∈ g.undone pending :=
    Group.mem_undone.mpr ⟨w, hw, rfl, hcov w hw hc hdone, hdone⟩
  rw [hnone] at hundone
  cases hundone

theorem Tracked.leaves (hasked : Asked g) (hg : Tracked g) (h : Leaves g e g')
    (hbody : g.phase = .body → g.created ⊆ g.handles) : Tracked g' := by
  have hknown : g.created ⊆ g.handles := by
    by_cases hp : g.phase = .body
    · exact hbody hp
    · exact hg.known.handles hp
  have hcov := hg.covered
  -- except in a cancelled join, the waiters are of children that have been asked
  have hstay : (∀ awaited, g.phase ≠ .unwinding awaited) →
      ∀ w ∈ g.waiters, w.Accounted g.issued g.created := fun hp w hw =>
    Group.promised_eq hp ▸ hg.waiters w hw
  cases h with
  | bodyEmpty raised hp hempty =>
    refine .settle (hstay (by simp [hp])) hknown raised g.adrift false (fun w hw => ?_) (by simp)
    have hmem : w.jobId ∈ g.handles := List.mem_map_of_mem hw
    rw [hempty] at hmem
    cases hmem
  | bodyDone hp => exact ⟨hstay (by simp [hp]), .of_handles hknown, hknown⟩
  | bodyRaised hp =>
    refine .cancelAllJobs (fun w hw => ?_) hknown _
    exact (hstay (by simp [hp]) w hw).mono hasked.issued id
  | joined watched failures hp hdone =>
    rw [hp] at hcov
    exact .settle (hstay (by simp [hp])) hknown _ g.adrift false
      (not_pending_of_undone hdone fun w _ hc _ => hcov hc) (by simp)
  | draining watched hp hcancelling =>
    rw [hp] at hcov
    refine ⟨hstay (by simp [hp]), .of_handles hknown, fun w hw hc hdone => ?_⟩
    exact Group.mem_undone.mpr ⟨w, hw, rfl, hcov hc, hdone⟩
  | backstop watched hp hcalm =>
    rw [hp] at hcov
    refine ⟨fun w hw => ?_, .of_handles hknown, fun w hw hc hdone => ?_⟩
    · exact (hstay (by simp [hp]) w hw).mono (List.subset_append_left _ _) id
    · exact Group.mem_undone.mpr ⟨w, hw, rfl, hcov hc, hdone⟩
  | asked pending hp =>
    rw [hp] at hcov
    exact ⟨hstay (by simp [hp]), .of_handles hknown, hcov⟩
  | backstopRaised pending requests hp =>
    rw [hp] at hcov
    have hissued := hasked.asking
    rw [hp, Phase.asking, List.append_subset] at hissued
    exact .settle (hstay (by simp [hp])) hknown _ _ false
      (fun w hw hc hdone => hissued.1 (hcov w hw hc hdone)) (by simp)
  | drained pending hp hdone =>
    rw [hp] at hcov
    exact .settle (hstay (by simp [hp])) hknown _ g.adrift false
      (not_pending_of_undone hdone hcov) (by simp)
  | interrupted e raised he hin =>
    refine .interrupt hasked (hstay fun awaited hp => ?_) hknown raised
    rw [Group.inJoin, hp] at hin
    cases hin
  | again awaited hp => exact ⟨hg.waiters, hg.known, hcov⟩
  | resumed awaited hp hdone =>
    refine .cancelAllJobs (fun w hw => ?_) hknown g.raised
    exact (hg.waiters w hw).mono (Group.promised_subset_jobs hasked.issued) id
  | reporting hp =>
    rw [hp] at hcov
    exact ⟨hstay (by simp [hp]), .of_handles hknown, hcov⟩
  | torn e raised adrift he hp hadrift =>
    have hissued : g.created ⊆ g.issued := by
      rcases hp with ⟨requests, hp⟩ | hp
      · rw [hp] at hcov
        exact hcov
      · rw [hp] at hcov
        exact hcov
    have hin : ∀ awaited, g.phase ≠ .unwinding awaited := by
      rcases hp with ⟨requests, hp⟩ | hp <;> simp [hp]
    exact .settle (hstay hin) hknown raised adrift true (fun w _ hc _ => hissued hc)
      fun _ => hissued
  | unsettled torn awaited withFanout fanout adrift hp hfanout hadrift =>
    exact ⟨hg.waiters, hg.known, hcov⟩
  | closed torn awaited withFanout hp hdone =>
    exact ⟨hstay (by simp [hp]), .of_handles hknown, trivial⟩

/-! ## Steps -/

/-- A spawn returns: if it comes after the body, the child is not one that the scope
created. -/
theorem Tracked.register (hasked : Asked g) (hg : Tracked g) {sp : Spawn}
    (hsp : sp ∈ g.spawning) : Tracked (g.register sp.record.id) := by
  have hhandles : (g.register sp.record.id).handles = g.handles ++ [sp.record.id] := by
    simp [Group.handles, Group.register]
  have hmem : ∀ w ∈ (g.register sp.record.id).waiters, w ∈ g.waiters ∨
      w = ⟨sp.record.id, none, .pending, false, g.cancelling, false⟩ := by
    intro w hw
    simpa [Group.register] using hw
  have hfresh : g.phase ≠ .body → sp.record.id ∉ g.created :=
    fun hp hc => hasked.apart sp hsp (Group.mem_jobs (hg.known.handles hp hc))
  have hpromised : g.promised ⊆ (g.register sp.record.id).promised := by
    refine Group.promised_mono rfl (List.Subset.refl _) fun id hid => ?_
    rw [Group.jobs, hhandles, ← List.append_assoc]
    exact List.mem_append_left _ hid
  refine ⟨fun w hw => ?_, fun id hid => ?_, ?_⟩
  · rcases hmem w hw with hold | rfl
    · exact (hg.waiters w hold).mono hpromised id
    · exact ⟨by simp [Waiter.heard], by simp, by simp⟩
  · rw [hhandles]
    by_cases hnew : id = sp.record.id
    · exact Or.inl (by simp [hnew])
    · refine (hg.known id hid).imp (List.mem_append_left _) ?_
      rintro ⟨hp, other, hother, rfl, hawaited⟩
      refine ⟨hp, other, ?_, rfl, hawaited⟩
      simpa [Group.register] using ⟨hother, hnew⟩
  · refine hg.covered.mono (List.Subset.refl _) fun hp w hw hc => ?_
    rcases hmem w hw with hold | rfl
    · exact ⟨w, hold, .refl w⟩
    · exact absurd hc (hfresh hp)

/-- An enqueue takes effect. -/
theorem Tracked.enqueue (hasked : Asked s.group) (hg : Tracked s.group) {sp : Spawn}
    (hsp : sp ∈ s.group.spawning) {created : List JobId}
    (hcreated : created = s.group.created ∨
      (s.table sp.record.id = none ∧ created = s.group.created ++ [sp.record.id]))
    (hkeeps : keepsTrack s (.enqueue sp.record.id) = true) :
    Tracked { s.group.updateSpawn sp.record.id (fun sp => { sp with stored := true }) with
      created := created } := by
  have hstored : ∀ other ∈ s.group.spawning, ∃ other' ∈
      (s.group.updateSpawn sp.record.id fun sp => { sp with stored := true }).spawning,
      other'.record.id = other.record.id ∧ other'.abandoned = other.abandoned := by
    intro other hother
    refine ⟨_, List.mem_map_of_mem hother, ?_⟩
    split <;> exact ⟨rfl, rfl⟩
  have hknown : ∀ id ∈ s.group.created, id ∈ s.group.handles ∨ (s.group.phase = .body ∧
      ∃ sp' ∈ (s.group.updateSpawn sp.record.id fun sp => { sp with stored := true }).spawning,
        sp'.record.id = id ∧ sp'.abandoned = false) := by
    intro id hid
    refine (hg.known id hid).imp_right ?_
    rintro ⟨hp, other, hother, rfl, hawaited⟩
    obtain ⟨other', hmem, hid', hsame⟩ := hstored other hother
    exact ⟨hp, other', hmem, hid', hsame.trans hawaited⟩
  rcases hcreated with rfl | ⟨hnone, rfl⟩
  · exact ⟨hg.waiters, hknown, hg.covered⟩
  · simp only [keepsTrack, hnone, ne_eq, not_true_eq_false, decide_false, Bool.false_or,
      Bool.and_eq_true, decide_eq_true_eq, List.all_eq_true, Bool.or_eq_true,
      Bool.not_eq_true'] at hkeeps
    obtain ⟨hbody, hawaited⟩ := hkeeps
    -- the new child has no waiter yet, and the body awaits its spawn
    refine ⟨fun w hw => (hg.waiters w hw).mono (List.Subset.refl _) fun hc => ?_,
      fun id hid => ?_, ?_⟩
    · refine (List.mem_append.mp hc).resolve_right fun hnew => hasked.apart sp hsp ?_
      rw [← List.mem_singleton.mp hnew]
      exact Group.mem_jobs (List.mem_map_of_mem hw)
    · rcases List.mem_append.mp hid with hold | hnew
      · exact hknown id hold
      · obtain ⟨sp', hmem, hid', hsame⟩ := hstored sp hsp
        rw [List.mem_singleton.mp hnew]
        have hsp' : sp.abandoned = false := (hawaited sp hsp).resolve_left fun hne => hne rfl
        exact Or.inr ⟨hbody, sp', hmem, hid', hsame.trans hsp'⟩
    · show s.group.phase.Covers _ _ _
      rw [hbody]
      trivial

/-- A spawn that created nothing fails. -/
theorem Tracked.spawnFailed (hg : Tracked g) (hid : jobId ∉ g.created) :
    Tracked (g.updateSpawn jobId fun sp => { sp with abandoned := true }) := by
  refine ⟨hg.waiters, fun id hc => (hg.known id hc).imp_right ?_, hg.covered⟩
  rintro ⟨hp, sp, hsp, rfl, hawaited⟩
  refine ⟨hp, sp, ?_, rfl, hawaited⟩
  have hne : sp.record.id ≠ jobId := fun hcon => hid (hcon ▸ hc)
  have hmem := List.mem_map_of_mem (f := fun sp : Spawn =>
    if sp.record.id = jobId then { sp with abandoned := true } else sp) hsp
  rwa [if_neg hne] at hmem

theorem Tracked.step (hasked : Asked s.group) (hg : Tracked s.group)
    (hkeeps : keepsTrack s e = true) (h : s.step e = some s') : Tracked s'.group := by
  cases stepOf h with
  | backend op hfresh => exact hg
  | spawn record hfresh =>
    refine ⟨hg.waiters, fun id hid => (hg.known id hid).imp_right ?_, hg.covered⟩
    rintro ⟨hp, sp, hsp, hrest⟩
    exact ⟨hp, sp, List.mem_append_left _ hsp, hrest⟩
  | enqueue sp hsp created hcreated => exact hg.enqueue hasked hsp hcreated hkeeps
  | spawned sp hsp hawaited => exact hg.register hasked hsp
  | spawnFailed sp hsp => exact hg.spawnFailed (by simpa [keepsTrack] using hkeeps)
  | take jobId status =>
    exact hg.updateWaiter (fun w => .take w status) fun w hw => hw.take status
  | report jobId exceptional =>
    exact hg.updateWaiter (fun w => .report w exceptional) fun w hw => hw.report exceptional
  | broke jobId freed =>
    exact hg.updateWaiter (fun w => .breaks w _) fun w hw =>
      hw.breaks Group.issued_subset_promised
  | unwound jobId => exact hg.updateWaiter (fun w => .unwound w) fun w hw => hw.unwound
  | notify w hw =>
    have hnotified : Tracked
        (s.group.updateWaiter w.jobId fun w => { w with notified := true }) :=
      hg.updateWaiter (fun w => .notified w) fun w hw => ⟨hw.heard, hw.broke, hw.cancelled⟩
    exact hnotified.jobFinished w
  | fanoutRaised => exact ⟨hg.waiters, hg.known, hg.covered⟩
  | flag jobId phase fanout adrift hnext =>
    have hcov := hg.covered
    have hstay : (∀ awaited, s.group.phase ≠ .unwinding awaited) →
        ∀ w ∈ s.group.waiters, w.Accounted s.group.issued s.group.created := fun hp w hw =>
      Group.promised_eq hp ▸ hg.waiters w hw
    have hrest : Tracked { s.group with phase := phase, fanout := fanout, adrift := adrift } := by
      cases hnext with
      | fanout rest hf => exact ⟨hg.waiters, hg.known, hcov⟩
      | backstop pending rest hp =>
        rw [hp] at hcov
        exact ⟨hstay (by simp [hp]), .of_handles (hg.known.handles (by simp [hp])), hcov⟩
      | tearingDown rest hp =>
        rw [hp] at hcov
        exact ⟨hstay (by simp [hp]), .of_handles (hg.known.handles (by simp [hp])), hcov⟩
      | late hmem => exact ⟨hg.waiters, hg.known, hcov⟩
    exact hrest.flagged s.table
  | leaves hleaves =>
    refine hg.leaves hasked hleaves fun hbody => ?_
    rcases hleaves.of_body hbody with rfl | rfl
    · intro id hid
      simp only [keepsTrack, List.all_eq_true, decide_eq_true_eq] at hkeeps
      exact hkeeps id hid
    · intro id hid
      simp only [keepsTrack, List.all_eq_true, decide_eq_true_eq] at hkeeps
      exact hkeeps id hid

/-- The record of a child whose waiter has heard of its end is gone. -/
theorem gone_of_heard (hs : Consumed s) {w : Waiter} (hw : w ∈ s.group.waiters)
    {issued created : List JobId} (hacc : w.Accounted issued created) (hheard : w.heard = true) :
    s.table w.jobId = none := hs w hw (hacc.heard hheard)

/-- A child is accounted for: it has been asked, or its waiter has heard of its end. -/
theorem accounted_of_moved {w : Waiter} (hacc : w.Accounted g.issued g.created)
    (hmoved : w.state ≠ .pending) (hid : w.jobId ∈ g.created) (hun : w.unasked = false) :
    w.jobId ∈ g.issued ∨ w.heard = true := by
  cases hstate : w.state with
  | pending => exact absurd hstate hmoved
  | unwinding => exact Or.inl (hacc.cancelled (Or.inl hstate) hid)
  | cancelled => exact Or.inl (hacc.cancelled (Or.inr hstate) hid)
  | returned exceptional => exact Or.inr (by rw [Waiter.heard, hstate])
  | raised failure =>
    cases failure with
    | infrastructure => exact Or.inl (hacc.broke hstate hun)
    | _ => exact Or.inr (by rw [Waiter.heard, hstate])

/-- Once `_settle` has begun, each child has been asked, its waiter has heard of its end, or
has broken before it was asked. -/
theorem Tracked.settled (hg : Tracked g) {torn withFanout : Bool} {awaited : List JobId}
    (hp : g.phase = .settling torn awaited withFanout) (hid : jobId ∈ g.created) :
    jobId ∈ g.issued ∨ ∃ w ∈ g.waiters, w.jobId = jobId ∧
      (w.heard = true ∨ (torn = false ∧ w.unasked = true)) := by
  have hcov := hg.covered
  rw [hp] at hcov
  cases torn with
  -- torn down: every child was asked
  | true => exact Or.inl (hcov.1 rfl hid)
  -- joined: the state that its waiter ended in decides
  | false =>
    obtain ⟨w, hw, rfl⟩ := List.mem_map.mp (hg.known.handles (by simp [hp]) hid)
    have hacc : w.Accounted g.issued g.created :=
      Group.promised_eq (g := g) (by simp [hp]) ▸ hg.waiters w hw
    cases hun : w.unasked with
    | true => exact Or.inr ⟨w, hw, rfl, Or.inr ⟨rfl, hun⟩⟩
    | false =>
      refine (accounted_of_moved hacc (hcov.2 w hw hid) hid hun).imp_right fun hheard => ?_
      exact ⟨w, hw, rfl, Or.inl hheard⟩

theorem noOrphans_of_tracked (hs : Consumed s) (hg : Tracked s.group)
    (hkeeps : keepsTrack s e = true) (h : s.step e = some s') : NoOrphans s s' := by
  intro hopen hclosed
  cases stepOf h with
  | leaves hleaves =>
    cases hleaves with
    | closed torn awaited withFanout hp hdone =>
      intro id hid
      refine (hg.settled hp hid).imp_right ?_
      rintro ⟨w, hw, rfl, hheard | ⟨htorn, hun⟩⟩ r hr
      · have hgone : s.table w.jobId = none := gone_of_heard hs hw (hg.waiters w hw) hheard
        exact absurd (hr.symm.trans hgone) (by simp)
      · have hall : (s.group.waiters.all fun w =>
            !w.unasked || decide (s.table.Ended w.jobId)) = true := by
          rw [htorn] at hp
          simpa only [keepsTrack, hp] using hkeeps
        have hthis := List.all_eq_true.mp hall w hw
        have hended : s.table.Ended w.jobId := by simpa [hun] using hthis
        exact hended r hr
    | again awaited hp => exact absurd hclosed hopen
    | unsettled torn awaited withFanout fanout adrift hp hfanout hadrift =>
      exact absurd hclosed hopen
    | _ => cases hclosed
  | notify w hw => exact absurd ((Group.jobFinished_phase w).symm.trans hclosed) hopen
  | flag jobId phase fanout adrift hnext =>
    have hphase : phase = .closed := (Group.flagged_phase _).symm.trans hclosed
    cases hnext with
    | fanout rest hf => exact absurd hphase hopen
    | backstop pending rest hp => cases hphase
    | tearingDown rest hp => cases hphase
    | late hmem => exact absurd hphase hopen
  | _ => exact absurd hclosed hopen

/-! ## Whole runs -/

variable (table : Table) (onError : OnError) (hasDeadline : Bool) (detached : List JobId)

/-- **No orphans**, in every run of a scope that keeps track of the children it
creates: once it has closed, each of them has ended or has been asked to stop. -/
theorem noOrphans_along {es : List Event}
    (h : (machine table onError hasDeadline detached).Along (fun s e _ => keepsTrack s e = true)
      (machine table onError hasDeadline detached).init es) :
    (machine table onError hasDeadline detached).Along (fun s _ s' => NoOrphans s s')
      (machine table onError hasDeadline detached).init es := by
  refine Machine.along_of_invariant
    (J := fun s => Asked s.group ∧ Consumed s ∧ Tracked s.group)
    (C := fun s e => keepsTrack s e = true) ?_
    ⟨asked_enter _ _ _, by simp [Consumed, machine, Group.enter], tracked_enter _ _ _⟩ h
  rintro s e s' ⟨hasked, hs, hg⟩ hkeeps hstep
  exact ⟨noOrphans_of_tracked hs hg hkeeps hstep,
    hasked.step hstep, hs.step hasked hstep, hg.step hasked hkeeps hstep⟩

/-- The body raises while its children run; nobody is left to run them, and the wait for
their reports times out. -/
def tornDown : List Event :=
  spawns "a" ++ spawns "b" ++
    [.bodyRaised, .ask, .ask, .ask, .reported, .unwound "a", .unwound "b", .settled]

theorem noOrphans_tornDown :
    (machine (fun _ => none) .cancelSiblings false []).Along (fun s _ s' => NoOrphans s s')
      (machine (fun _ => none) .cancelSiblings false []).init tornDown :=
  noOrphans_along (fun _ => none) .cancelSiblings false [] (by decide)

/-- The enqueue takes effect, but the owner is cancelled before its reply arrives:
`CancelledError` leaves `spawn` and ends the body. -/
def lostSpawn : List Event :=
  [.spawn (child "a"), .enqueue "a", .spawnFailed "a", .bodyRaised, .ask]

/-- `_handles` is empty, so the teardown asks nobody. -/
theorem lostSpawn_orphan :
    ¬ (machine (fun _ => none) .cancelSiblings false []).Along (fun s _ s' => NoOrphans s s')
      (machine (fun _ => none) .cancelSiblings false []).init (lostSpawn ++ [.settled]) := by
  intro h
  rcases h.last rfl rfl (by decide) rfl "a" (by decide) with hissued | hended
  · cases hissued
  · exact absurd (hended _ rfl) (by decide)

/-- The waiter breaks while its job is queued, and the join takes it for done. -/
example :
    ¬ (machine (fun _ => none) .ignore false []).Along (fun s _ s' => NoOrphans s s')
      (machine (fun _ => none) .ignore false []).init
      (spawns "a" ++ [.broke "a" false, .bodyDone, .joinWake] ++ [.settled]) := by
  intro h
  rcases h.last rfl rfl (by decide) rfl "a" (by decide) with hissued | hended
  · cases hissued
  · exact absurd (hended _ rfl) (by decide)

end TaskQueue.Scope
