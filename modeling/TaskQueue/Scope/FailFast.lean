import TaskQueue.Scope.Steps

/-!
# Fail-fast and the join

When the first waiter fails, `_job_finished` issues one request for the children that
are still running then. A child that is registered later gets none, and when
`cancel_siblings_mode` wakes, the flag that the fan-out has set also keeps its
backstop from asking. `cancel_siblings_mode` then waits for a child that nobody
has asked to stop.

- `Fanned` is the state of the fan-out while the scope is in its body or watches its
  children: the children registered in time have been asked, the `late` ones not.
- `asksBeforeWaiting_iff`: a run never waits for a child that it has not asked
  exactly when, each time the join wakes after the fan-out, the late children
  it watches have ended.
-/

namespace TaskQueue.Scope

variable {s s' : System} {g g' : Group} {e : Event} {jobId : JobId}

/-- When `cancel_siblings_mode` starts to wait for a child, the child has ended or
has been asked to stop. -/
def AsksBeforeWaiting (s s' : System) : Prop :=
  ∀ pending, s'.group.phase = .draining pending → s.group.phase ≠ .draining pending →
    ∀ jobId ∈ pending, jobId ∈ s'.group.issued ∨ s'.table.Ended jobId

/-- When the join wakes after the fan-out has gone out, the children registered
since then have ended. -/
def LateEnded (s : System) (e : Event) : Prop :=
  ∀ watched, e = .joinWake → s.group.phase = .joining watched → s.group.cancelling = true →
    ∀ w ∈ s.group.waiters, w.jobId ∈ watched → w.late = true → w.done = false →
      s.table.Ended w.jobId

/-! ## The fan-out -/

/-- The scope is in its body, or watches its children. -/
def Phase.watching : Phase → Bool
  | .body | .joining _ => true
  | _ => false

/-- Once the fan-out has gone out, the children registered before it have been asked
and those registered since have not. -/
structure Fanned (g : Group) : Prop where
  calm : g.cancelling = false → ∀ w ∈ g.waiters, w.late = false
  asked : g.phase.watching = true → g.cancelling = true →
    ∀ w ∈ g.waiters, w.late = false → w.done = false → w.jobId ∈ g.issued
  late : g.phase.watching = true → ∀ w ∈ g.waiters, w.late = true → w.jobId ∉ g.issued

theorem fanned_enter (onError : OnError) (hasDeadline : Bool) (detached : List JobId) :
    Fanned (.enter onError hasDeadline detached) where
  calm := by simp [Group.enter]
  asked := by simp [Group.enter]
  late := by simp [Group.enter]

/-- Progress of the waiters does not concern the fan-out. -/
theorem Fanned.of_waiters (hg : Fanned g)
    (hw : ∀ w' ∈ g'.waiters, ∃ w ∈ g.waiters, w.Advances w')
    (hissued : g'.issued = g.issued) (hcancelling : g'.cancelling = g.cancelling)
    (hphase : g'.phase.watching = true → g.phase.watching = true) : Fanned g' where
  calm hc w' hw' := by
    obtain ⟨w, hmem, hadv⟩ := hw w' hw'
    rw [hadv.late]
    exact hg.calm (hcancelling ▸ hc) w hmem
  asked hp hc w' hw' hlate hdone := by
    obtain ⟨w, hmem, hadv⟩ := hw w' hw'
    rw [hadv.jobId, hissued]
    exact hg.asked (hphase hp) (hcancelling ▸ hc) w hmem (hadv.late ▸ hlate) (hadv.done hdone)
  late hp w' hw' hlate := by
    obtain ⟨w, hmem, hadv⟩ := hw w' hw'
    rw [hadv.jobId, hissued]
    exact hg.late (hphase hp) w hmem (hadv.late ▸ hlate)

theorem Fanned.updateWaiter (hg : Fanned g) {f : Waiter → Waiter}
    (hf : ∀ w : Waiter, w.Advances (f w)) :
    Fanned (g.updateWaiter jobId f) := by
  refine hg.of_waiters (fun w' hw' => ?_) rfl rfl id
  obtain ⟨w, hmem, ⟨rfl, -⟩ | ⟨rfl, -⟩⟩ := Group.mem_updateWaiter hw'
  · exact ⟨_, hmem, .refl _⟩
  · exact ⟨w, hmem, hf w⟩

/-- The fan-out asks every child that is still running, and there is no late one yet. -/
theorem Fanned.jobFinished (hg : Fanned g) (w : Waiter) : Fanned (g.jobFinished w) := by
  rcases g.jobFinished_cases w with ⟨failures, h⟩ | ⟨hcalm, failures, h⟩
  · rw [h]
    exact ⟨hg.calm, hg.asked, hg.late⟩
  · rw [h]
    refine ⟨fun hc => ?_, fun _ _ w hw _ hdone => ?_, fun _ w hw hlate => ?_⟩
    · cases hc
    · have hrunning : w.jobId ∈ g.undone g.handles :=
        Group.mem_undone.mpr ⟨w, hw, rfl, List.mem_map_of_mem hw, hdone⟩
      exact List.mem_append_right _ hrunning
    · -- the flag was not set before, so nobody was late
      rw [hg.calm hcalm w hw] at hlate
      cases hlate

/-- A new child is late exactly when the fan-out has gone out. -/
theorem Fanned.register (hg : Fanned g) (hid : jobId ∉ g.issued) : Fanned (g.register jobId) := by
  have hmem : ∀ w ∈ (g.register jobId).waiters,
      w ∈ g.waiters ∨ w = ⟨jobId, none, .pending, false, g.cancelling, false⟩ := by
    intro w hw
    simpa [Group.register] using hw
  refine ⟨fun hc w hw => ?_, fun hp hc w hw hlate hdone => ?_, fun hp w hw hlate => ?_⟩
  · rcases hmem w hw with hold | rfl
    · exact hg.calm hc w hold
    · exact hc
  · rcases hmem w hw with hold | rfl
    · exact hg.asked hp hc w hold hlate hdone
    · exact absurd (hc.symm.trans hlate) (by simp)
  · rcases hmem w hw with hold | rfl
    · exact hg.late hp w hold hlate
    · exact hid

theorem Fanned.flagged (hg : Fanned g) (t : Table) : Fanned (g.flagged t jobId) := by
  unfold Group.flagged
  split
  · split
    · exact hg
    · exact ⟨hg.calm, hg.asked, hg.late⟩
  · exact hg

/-- Out of the body and the first wait, only `calm` is promised. -/
theorem Fanned.left (hcalm : g'.cancelling = false → ∀ w ∈ g'.waiters, w.late = false)
    (hp : g'.phase.watching = false) : Fanned g' := by
  refine ⟨hcalm, fun hw => ?_, fun hw => ?_⟩
  · rw [hp] at hw
    cases hw
  · rw [hp] at hw
    cases hw

theorem Leaves.cancelling (h : Leaves g e g') : g'.cancelling = false → g.cancelling = false := by
  cases h with
  | backstop watched hp hcalm => exact fun _ => hcalm
  | _ => exact id

theorem Leaves.watching (h : Leaves g e g') :
    g'.phase.watching = false ∨
      (g.phase = .body ∧ g' = { g with phase := .joining g.handles }) := by
  cases h with
  | bodyDone hp => exact Or.inr ⟨hp, rfl⟩
  | again awaited hp =>
    left
    show g.phase.watching = false
    rw [hp]
    rfl
  | unsettled torn awaited withFanout fanout adrift hp hfanout hadrift =>
    left
    show g.phase.watching = false
    rw [hp]
    rfl
  | _ => exact Or.inl rfl

theorem Fanned.leaves (hg : Fanned g) (h : Leaves g e g') : Fanned g' := by
  rcases h.watching with hp | ⟨hp, rfl⟩
  · refine Fanned.left (fun hc w' hw' => ?_) hp
    obtain ⟨w, hmem, rfl | rfl⟩ := h.frame.waiters w' hw'
    · exact hg.calm (h.cancelling hc) _ hmem
    · rw [Waiter.cancel_late]
      exact hg.calm (h.cancelling hc) w hmem
  · have hbody : g.phase.watching = true := by rw [hp, Phase.watching]
    exact ⟨hg.calm, fun _ => hg.asked hbody, fun _ => hg.late hbody⟩

theorem Fanned.step (hasked : Asked s.group) (hg : Fanned s.group) (h : s.step e = some s') :
    Fanned s'.group := by
  cases stepOf h with
  | backend op hfresh => exact hg
  | spawn record hfresh => exact ⟨hg.calm, hg.asked, hg.late⟩
  | enqueue sp hsp created hcreated => exact ⟨hg.calm, hg.asked, hg.late⟩
  | spawned sp hsp hawaited =>
    exact hg.register fun hid => hasked.apart sp hsp (hasked.issued hid)
  | spawnFailed sp hsp => exact ⟨hg.calm, hg.asked, hg.late⟩
  | take jobId status => exact hg.updateWaiter fun w => .take w status
  | report jobId exceptional => exact hg.updateWaiter fun w => .report w exceptional
  | broke jobId freed => exact hg.updateWaiter fun w => .breaks w _
  | unwound jobId => exact hg.updateWaiter fun w => .unwound w
  | notify w hw =>
    exact (hg.updateWaiter (f := fun w => { w with notified := true })
      fun w => .notified w).jobFinished w
  | fanoutRaised => exact ⟨hg.calm, hg.asked, hg.late⟩
  | flag jobId phase fanout adrift hnext =>
    have hrest : Fanned { s.group with phase := phase, fanout := fanout, adrift := adrift } := by
      cases hnext with
      | fanout rest hf => exact ⟨hg.calm, hg.asked, hg.late⟩
      | backstop pending rest hp => exact .left hg.calm rfl
      | tearingDown rest hp => exact .left hg.calm rfl
      | late hmem => exact ⟨hg.calm, hg.asked, hg.late⟩
    exact hrest.flagged s.table
  | leaves hleaves => exact hg.leaves hleaves

/-! ## Whole runs -/

/-- The two ways into the wait: the join finds the fan-out gone out, or it has made its
own requests. -/
theorem draining_cases (h : s.step e = some s') {pending : List JobId}
    (hp : s'.group.phase = .draining pending) (hnew : s.group.phase ≠ .draining pending) :
    (∃ watched, e = .joinWake ∧ s.group.phase = .joining watched ∧ s.group.cancelling = true ∧
        pending = s.group.undone watched ∧
        s' = s.moveTo { s.group with phase := .draining pending }) ∨
      (s.group.phase = .backstop pending [] ∧ s'.group.issued = s.group.issued) := by
  cases stepOf h with
  | leaves hleaves =>
    cases hleaves with
    | draining watched hwatch hc =>
      cases hp
      exact Or.inl ⟨watched, rfl, hwatch, hc, rfl, rfl⟩
    | asked pending' hback =>
      cases hp
      exact Or.inr ⟨hback, rfl⟩
    | again awaited hp' => exact absurd hp hnew
    | unsettled torn awaited withFanout fanout adrift hp' hfanout hadrift => exact absurd hp hnew
    | _ => cases hp
  | notify w hw => exact absurd ((Group.jobFinished_phase w).symm.trans hp) hnew
  | flag jobId phase fanout adrift hnext =>
    have hphase : phase = .draining pending := (Group.flagged_phase _).symm.trans hp
    cases hnext with
    | fanout rest hf => exact absurd hphase hnew
    | backstop pending' rest hp => cases hphase
    | tearingDown rest hp => cases hphase
    | late hmem => exact absurd hphase hnew
  | _ => exact absurd hp hnew

theorem asksBeforeWaiting_of_lateEnded (hasked : Asked s.group) (hg : Fanned s.group)
    (h : s.step e = some s') (hlate : LateEnded s e) : AsksBeforeWaiting s s' := by
  intro pending hp hnew jobId hid
  rcases draining_cases h hp hnew with ⟨watched, rfl, hwatch, hc, rfl, rfl⟩ | ⟨hback, hissued⟩
  · -- in time: asked by the fan-out; late: ended, by assumption
    obtain ⟨w, hw, rfl, hwatched, hdone⟩ := Group.mem_undone.mp hid
    by_cases hwlate : w.late = true
    · exact Or.inr (hlate watched rfl hwatch hc w hw hwatched hwlate hdone)
    · have hbody : s.group.phase.watching = true := by rw [hwatch, Phase.watching]
      exact Or.inl (hg.asked hbody hc w hw (Bool.eq_false_iff.mpr hwlate) hdone)
  · -- the join has just asked all that it waits for
    have hall := hasked.asking
    rw [hback, Phase.asking, List.append_nil] at hall
    rw [hissued]
    exact Or.inl (hall hid)

/-- The late children have not been asked, so a join that behaves found them ended. -/
theorem lateEnded_of_asksBeforeWaiting (hg : Fanned s.group) (h : s.step e = some s')
    (hQ : AsksBeforeWaiting s s') : LateEnded s e := by
  rintro watched rfl hwatch hc w hw hwatched hlate hdone
  have hundone : w.jobId ∈ s.group.undone watched :=
    Group.mem_undone.mpr ⟨w, hw, rfl, hwatched, hdone⟩
  have hearly : s.group.phase.watching = true := by rw [hwatch, Phase.watching]
  cases stepOf h with
  | leaves hleaves =>
    cases hleaves with
    | joined watched' failures hp hnone =>
      cases hwatch.symm.trans hp
      rw [hnone] at hundone
      cases hundone
    | draining watched' hp hc' =>
      cases hwatch.symm.trans hp
      have hnew : s.group.phase ≠ .draining (s.group.undone watched) := by
        rw [hwatch]
        simp
      exact (hQ _ rfl hnew _ hundone).resolve_left (hg.late hearly w hw hlate)
    | backstop watched' hp hcalm =>
      rw [hcalm] at hc
      cases hc
    | interrupted e raised he hin =>
      rcases he with he | he
      · cases he
      · cases he
    | torn e raised adrift he hp hadrift =>
      rw [hwatch] at hp
      simp at hp
  | flag jobId phase fanout adrift hnext => cases hnext

variable (table : Table) (hasDeadline : Bool) (detached : List JobId)

/-- **When fail-fast reaches every sibling.** Over a run of a `cancel_siblings` scope,
`cancel_siblings_mode` never waits for an unfinished child that it has not asked to
stop, exactly when each time the join wakes after the fan-out, every child
registered since then that it still waits for has ended. -/
theorem asksBeforeWaiting_iff (es : List Event) :
    (machine table .cancelSiblings hasDeadline detached).Along
        (fun s _ s' => AsksBeforeWaiting s s')
        (machine table .cancelSiblings hasDeadline detached).init es ↔
      (machine table .cancelSiblings hasDeadline detached).Along (fun s e _ => LateEnded s e)
        (machine table .cancelSiblings hasDeadline detached).init es := by
  refine Machine.along_iff_along (J := fun s => Asked s.group ∧ Fanned s.group)
    (E := fun _ _ => True) ?_ ?_ ⟨asked_enter _ _ _, fanned_enter _ _ _⟩ (Machine.along_true es _)
  · rintro s e s' ⟨hasked, hg⟩ - hs hc
    exact ⟨asksBeforeWaiting_of_lateEnded hasked hg hs hc, hasked.step hs, hg.step hasked hs⟩
  · rintro s e s' ⟨-, hg⟩ - hs hQ
    exact lateEnded_of_asksBeforeWaiting hg hs hQ

/-- The first child fails while the body runs; the body then spawns another one, which is
never claimed, and ends. -/
def spawnAfterFailure : List Event :=
  spawns "a" ++ fails "a" ++ [.notify "a"] ++ spawns "b" ++ [.bodyDone]

/-- The join waits for the second child, which nobody has asked to stop. -/
theorem spawnAfterFailure_unasked :
    ¬ (machine (fun _ => none) .cancelSiblings false []).Along
      (fun s _ s' => AsksBeforeWaiting s s')
      (machine (fun _ => none) .cancelSiblings false []).init
        (spawnAfterFailure ++ [.joinWake]) := by
  intro h
  rcases h.last rfl rfl ["b"] rfl (by decide) "b" (by simp) with hissued | hended
  · exact absurd hissued (by decide)
  · exact absurd (hended _ rfl) (by decide)

end TaskQueue.Scope
