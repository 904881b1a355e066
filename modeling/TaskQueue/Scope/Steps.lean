import TaskQueue.Scope.Group

/-!
# What a step of a scope can do

`StepOf` lists the steps: one constructor for each thing that another client, a
spawn, a waiter or a request can do, and `Leaves` for the owning task, which moves
from phase to phase without touching the records.

`Asked` and `Consumed` hold in every run, whatever fails: requests are only issued for jobs
of the scope, and a handle that has cached its job's outcome has consumed the record.
-/

namespace TaskQueue.Scope

variable {s s' : System} {g g' : Group} {e : Event} {jobId : JobId}

theorem Group.mem_of_waiterOf {w : Waiter} (h : g.waiterOf jobId = some w) :
    w ∈ g.waiters ∧ w.jobId = jobId :=
  ⟨List.mem_of_find?_eq_some h, by simpa using List.find?_some h⟩

theorem Group.mem_of_spawnOf {sp : Spawn} (h : g.spawnOf jobId = some sp) :
    sp ∈ g.spawning ∧ sp.record.id = jobId :=
  ⟨List.mem_of_find?_eq_some h, by simpa using List.find?_some h⟩

/-- The owning task moves: into the join, the teardown, `_settle` or out. -/
inductive Leaves (g : Group) : Event → Group → Prop where
  | bodyEmpty (raised : Option Raised) (hp : g.phase = .body) (hempty : g.handles = []) :
      Leaves g .bodyDone ({ g with raised := raised }.settle false)
  | bodyDone (hp : g.phase = .body) : Leaves g .bodyDone { g with phase := .joining g.handles }
  | bodyRaised (hp : g.phase = .body) :
      Leaves g .bodyRaised { g with raised := some .body }.cancelAllJobs
  | joined (watched : List JobId) (failures : List (JobId × Failure))
      (hp : g.phase = .joining watched) (hdone : g.undone watched = []) :
      Leaves g .joinWake (g.joined failures)
  | draining (watched : List JobId) (hp : g.phase = .joining watched)
      (hcancelling : g.cancelling = true) :
      Leaves g .joinWake { g with phase := .draining (g.undone watched) }
  | backstop (watched : List JobId) (hp : g.phase = .joining watched)
      (hcalm : g.cancelling = false) :
      Leaves g .joinWake
        { g with
          cancelling := true
          issued := g.issued ++ g.undone watched
          phase := .backstop (g.undone watched) (g.undone watched) }
  | asked (pending : List JobId) (hp : g.phase = .backstop pending []) :
      Leaves g .ask { g with phase := .draining pending }
  | backstopRaised (pending requests : List JobId) (hp : g.phase = .backstop pending requests) :
      Leaves g .askRaised ({ g.dropCall with raised := some .request }.settle false)
  | drained (pending : List JobId) (hp : g.phase = .draining pending)
      (hdone : g.undone pending = []) : Leaves g .drained (g.joined g.failures)
  | interrupted (e : Event) (raised : Raised) (he : e = .deadline ∨ e = .cancel)
      (hin : g.inJoin = true) : Leaves g e (g.interrupt raised)
  | again (awaited : List JobId) (hp : g.phase = .unwinding awaited) :
      Leaves g .cancel { g with raised := some .cancelled }
  | resumed (awaited : List JobId) (hp : g.phase = .unwinding awaited)
      (hdone : g.undone awaited = []) : Leaves g .resumed g.cancelAllJobs
  | reporting (hp : g.phase = .tearingDown []) : Leaves g .ask { g with phase := .reporting }
  | torn (e : Event) (raised : Option Raised) (adrift : List JobId)
      (he : e = .ask ∨ e = .askRaised ∨ e = .reported ∨ e = .cancel)
      (hp : (∃ requests, g.phase = .tearingDown requests) ∨ g.phase = .reporting)
      (hadrift : adrift ⊆ g.adrift ++ g.phase.requests) :
      Leaves g e ({ g with raised := raised, adrift := adrift }.settle true)
  | unsettled (torn : Bool) (awaited : List JobId) (withFanout : Bool)
      (fanout : Option (List JobId)) (adrift : List JobId)
      (hp : g.phase = .settling torn awaited withFanout)
      (hfanout : fanout = g.fanout ∨ fanout = some [])
      (hadrift : adrift ⊆ g.adrift ++ g.fanout.getD []) :
      Leaves g .cancel { g with fanout := fanout, adrift := adrift, raised := some .cancelled }
  | closed (torn : Bool) (awaited : List JobId) (withFanout : Bool)
      (hp : g.phase = .settling torn awaited withFanout) (hdone : g.undone awaited = []) :
      Leaves g .settled { g with phase := .closed }

/-- The next request of the fan-out, or of the call that the owner awaits, or one of a call
that nobody awaits any more. -/
inductive Next (g : Group) (jobId : JobId) :
    Event → Phase → Option (List JobId) → List JobId → Prop where
  | fanout (rest : List JobId) (hf : g.fanout = some (jobId :: rest)) :
      Next g jobId .fanout g.phase (some rest) g.adrift
  | backstop (pending rest : List JobId) (hp : g.phase = .backstop pending (jobId :: rest)) :
      Next g jobId .ask (.backstop pending rest) g.fanout g.adrift
  | tearingDown (rest : List JobId) (hp : g.phase = .tearingDown (jobId :: rest)) :
      Next g jobId .ask (.tearingDown rest) g.fanout g.adrift
  | late (hmem : jobId ∈ g.adrift) :
      Next g jobId (.late jobId) g.phase g.fanout (g.adrift.erase jobId)

theorem Next.asks {phase : Phase} {fanout : Option (List JobId)} {adrift : List JobId}
    (h : Next g jobId e phase fanout adrift) : g.asks e = some jobId := by
  cases h with
  | fanout rest hf =>
    rw [Group.asks, hf]
    rfl
  | backstop pending rest hp =>
    rw [Group.asks, hp]
    rfl
  | tearingDown rest hp =>
    rw [Group.asks, hp]
    rfl
  | late hmem => rfl

/-- A step, by what it does. -/
inductive StepOf (s : System) : Event → System → Prop where
  | backend (op : TableOp) (hfresh : ∀ record, op = .create record → s.group.Fresh record.id) :
      StepOf s (.backend op) ⟨op.effect s.table, s.group⟩
  | spawn (record : Record) (hfresh : s.group.Fresh record.id) :
      StepOf s (.spawn record) (s.moveTo
        { s.group with spawning := s.group.spawning ++ [⟨submitted record, false, false⟩] })
  | enqueue (sp : Spawn) (hsp : sp ∈ s.group.spawning) (created : List JobId)
      (hcreated : created = s.group.created ∨
        (s.table sp.record.id = none ∧ created = s.group.created ++ [sp.record.id])) :
      StepOf s (.enqueue sp.record.id) ⟨(TableOp.create sp.record).effect s.table,
        { s.group.updateSpawn sp.record.id fun sp => { sp with stored := true } with
          created := created }⟩
  | spawned (sp : Spawn) (hsp : sp ∈ s.group.spawning) (hawaited : sp.abandoned = false) :
      StepOf s (.spawned sp.record.id) (s.moveTo (s.group.register sp.record.id))
  | spawnFailed (sp : Spawn) (hsp : sp ∈ s.group.spawning) :
      StepOf s (.spawnFailed sp.record.id)
        (s.moveTo (s.group.updateSpawn sp.record.id fun sp => { sp with abandoned := true }))
  | take (jobId : JobId) (status : JobStatus) :
      StepOf s (.take jobId) ⟨(TableOp.free jobId).effect s.table,
        s.group.updateWaiter jobId (Waiter.take status)⟩
  | report (jobId : JobId) (exceptional : Bool) :
      StepOf s (.report jobId exceptional)
        (s.moveTo (s.group.updateWaiter jobId (Waiter.report exceptional)))
  | broke (jobId : JobId) (freed : Bool) :
      StepOf s (.broke jobId freed)
        ⟨if freed then (TableOp.free jobId).effect s.table else s.table,
          s.group.updateWaiter jobId (Waiter.breaks s.group.issued)⟩
  | unwound (jobId : JobId) :
      StepOf s (.unwound jobId) (s.moveTo (s.group.updateWaiter jobId Waiter.unwound))
  | notify (w : Waiter) (hw : w ∈ s.group.waiters) :
      StepOf s (.notify w.jobId) (s.moveTo
        ((s.group.updateWaiter w.jobId fun w => { w with notified := true }).jobFinished w))
  | fanoutRaised : StepOf s .fanoutRaised (s.moveTo s.group.dropFanout)
  | flag {e : Event} (jobId : JobId) (phase : Phase) (fanout : Option (List JobId))
      (adrift : List JobId) (hnext : Next s.group jobId e phase fanout adrift) :
      StepOf s e
        (s.flag jobId { s.group with phase := phase, fanout := fanout, adrift := adrift })
  | leaves {e : Event} {g : Group} (h : Leaves s.group e g) : StepOf s e (s.moveTo g)

theorem leaves_of_joinWake {watched : List JobId} (hp : g.phase = .joining watched)
    (h : g.joinWake watched = some g') : Leaves g .joinWake g' := by
  unfold Group.joinWake at h
  cases hm : g.onError with
  | cancelSiblings =>
    simp only [hm, Option.ite_none_right_eq_some, Option.some.injEq] at h
    obtain ⟨-, rfl⟩ := h
    unfold Group.cancelSiblingsMode
    cases hu : g.undone watched with
    | nil => exact .joined watched _ hp hu
    | cons jobId rest =>
      simp only [← hu]
      by_cases hc : g.cancelling = true
      · rw [if_pos hc]
        exact .draining watched hp hc
      · rw [if_neg hc]
        exact .backstop watched hp (Bool.eq_false_iff.mpr hc)
  | ignore =>
    simp only [hm, Option.ite_none_right_eq_some, Option.some.injEq] at h
    obtain ⟨hdone, rfl⟩ := h
    exact .joined watched _ hp hdone
  | collect =>
    simp only [hm, Option.ite_none_right_eq_some, Option.some.injEq] at h
    obtain ⟨hdone, rfl⟩ := h
    exact .joined watched _ hp hdone

theorem leaves_leaveBody (hp : g.phase = .body) : Leaves g .bodyDone g.leaveBody := by
  unfold Group.leaveBody
  split
  case isTrue hnone =>
    have hempty : g.handles = [] := (List.append_eq_nil_iff.mp hnone).2
    exact .bodyEmpty g.raised hp hempty
  case isFalse =>
    split
    case isTrue hempty => exact .bodyEmpty _ hp hempty.2
    case isFalse => exact .bodyDone hp

theorem stepOf (h : s.step e = some s') : StepOf s e s' := by
  cases e with
  | backend op =>
    cases op with
    | create record =>
      simp only [System.step, Option.ite_none_right_eq_some, Option.some.injEq] at h
      obtain ⟨hfresh, rfl⟩ := h
      exact .backend _ (by rintro _ ⟨⟩; exact hfresh)
    | _ =>
      cases h
      exact .backend _ (by rintro _ ⟨⟩)
  | spawn record =>
    simp only [System.step, Option.ite_none_right_eq_some, Option.some.injEq] at h
    obtain ⟨hfresh, rfl⟩ := h
    exact .spawn record hfresh
  | enqueue jobId =>
    simp only [System.step] at h
    split at h
    · rename_i sp hsp
      obtain ⟨hmem, rfl⟩ := Group.mem_of_spawnOf hsp
      split at h
      · cases h
      · cases h
        split
        · exact .enqueue sp hmem _ (Or.inr ⟨by assumption, rfl⟩)
        · exact .enqueue sp hmem _ (Or.inl rfl)
    · cases h
  | spawned jobId =>
    simp only [System.step] at h
    split at h
    · rename_i sp hsp
      obtain ⟨hmem, rfl⟩ := Group.mem_of_spawnOf hsp
      simp only [Option.ite_none_right_eq_some, Option.some.injEq, Bool.and_eq_true,
        Bool.not_eq_true'] at h
      obtain ⟨⟨-, hawaited⟩, rfl⟩ := h
      exact .spawned sp hmem hawaited
    · cases h
  | spawnFailed jobId =>
    simp only [System.step] at h
    split at h
    · rename_i sp hsp
      obtain ⟨hmem, rfl⟩ := Group.mem_of_spawnOf hsp
      simp only [Option.ite_none_left_eq_some, Option.some.injEq] at h
      obtain ⟨-, rfl⟩ := h
      exact .spawnFailed sp hmem
    · cases h
  | take jobId =>
    simp only [System.step] at h
    split at h
    · simp only [Option.ite_none_right_eq_some, Option.some.injEq] at h
      obtain ⟨-, rfl⟩ := h
      exact .take jobId _
    · cases h
  | report jobId exceptional =>
    simp only [System.step] at h
    split at h
    · simp only [Option.ite_none_right_eq_some, Option.some.injEq] at h
      obtain ⟨-, rfl⟩ := h
      exact .report jobId exceptional
    · cases h
  | unwound jobId =>
    simp only [System.step] at h
    split at h
    · simp only [Option.ite_none_right_eq_some, Option.some.injEq] at h
      obtain ⟨-, rfl⟩ := h
      exact .unwound jobId
    · cases h
  | broke jobId freed =>
    simp only [System.step] at h
    split at h
    · simp only [Option.ite_none_right_eq_some, Option.some.injEq] at h
      obtain ⟨-, rfl⟩ := h
      exact .broke jobId freed
    · cases h
  | notify jobId =>
    simp only [System.step] at h
    split at h
    · rename_i w hw
      obtain ⟨hmem, rfl⟩ := Group.mem_of_waiterOf hw
      simp only [Option.ite_none_right_eq_some, Option.some.injEq] at h
      obtain ⟨-, rfl⟩ := h
      exact .notify w hmem
    · cases h
  | fanout =>
    simp only [System.step] at h
    split at h
    · rename_i jobId rest hf
      cases h
      exact .flag jobId _ _ _ (.fanout rest hf)
    · cases h
  | late jobId =>
    simp only [System.step, Option.ite_none_right_eq_some, Option.some.injEq] at h
    obtain ⟨hmem, rfl⟩ := h
    exact .flag jobId _ _ _ (.late hmem)
  | fanoutRaised =>
    simp only [System.step] at h
    split at h
    · cases h
      exact .fanoutRaised
    · cases h
  | bodyDone =>
    simp only [System.step] at h
    split at h
    · rename_i hp
      cases h
      exact .leaves (leaves_leaveBody hp)
    · cases h
  | bodyRaised =>
    simp only [System.step] at h
    split at h
    · rename_i hp
      cases h
      exact .leaves (.bodyRaised hp)
    · cases h
  | joinWake =>
    simp only [System.step] at h
    split at h
    · rename_i watched hp
      obtain ⟨g, hg, rfl⟩ := Option.map_eq_some_iff.mp h
      exact .leaves (leaves_of_joinWake hp hg)
    · cases h
  | ask =>
    simp only [System.step] at h
    split at h
    · rename_i pending jobId rest hp
      cases h
      exact .flag jobId _ _ _ (.backstop pending rest hp)
    · rename_i pending hp
      cases h
      exact .leaves (.asked pending hp)
    · rename_i jobId rest hp
      cases h
      exact .flag jobId _ _ _ (.tearingDown rest hp)
    · rename_i hp
      cases h
      split
      · exact .leaves (.torn _ s.group.raised s.group.adrift (Or.inl rfl) (Or.inl ⟨[], hp⟩)
          (List.subset_append_left _ _))
      · exact .leaves (.reporting hp)
    · cases h
  | askRaised =>
    simp only [System.step] at h
    split at h
    · rename_i pending requests hp
      cases h
      exact .leaves (.backstopRaised pending requests hp)
    · rename_i requests hp
      cases h
      exact .leaves (.torn _ _ _ (by simp) (Or.inl ⟨requests, hp⟩) (List.Subset.refl _))
    · cases h
  | drained =>
    simp only [System.step] at h
    split at h
    · rename_i pending hp
      simp only [Option.ite_none_right_eq_some, Option.some.injEq] at h
      obtain ⟨hdone, rfl⟩ := h
      exact .leaves (.drained pending hp hdone)
    · cases h
  | reported =>
    simp only [System.step] at h
    split at h
    · rename_i hp
      cases h
      exact .leaves (.torn _ s.group.raised s.group.adrift (by simp) (Or.inr hp)
        (List.subset_append_left _ _))
    · cases h
  | settled =>
    simp only [System.step] at h
    split at h
    · rename_i torn awaited withFanout hp
      simp only [Option.ite_none_right_eq_some, Option.some.injEq] at h
      obtain ⟨⟨hdone, -⟩, rfl⟩ := h
      exact .leaves (.closed torn awaited withFanout hp hdone)
    · cases h
  | deadline =>
    simp only [System.step, Option.ite_none_right_eq_some, Option.some.injEq, Bool.and_eq_true] at h
    obtain ⟨⟨-, hin⟩, rfl⟩ := h
    exact .leaves (.interrupted _ _ (Or.inl rfl) hin)
  | cancel =>
    simp only [System.step] at h
    split at h
    · rename_i hin
      cases h
      exact .leaves (.interrupted _ _ (Or.inr rfl) hin)
    · split at h
      · rename_i awaited hp
        cases h
        exact .leaves (.again awaited hp)
      · rename_i requests hp
        cases h
        exact .leaves (.torn _ _ _ (by simp) (Or.inl ⟨requests, hp⟩) (List.Subset.refl _))
      · rename_i hp
        cases h
        exact .leaves (.torn _ _ _ (by simp) (Or.inr hp) (List.Subset.refl _))
      · rename_i torn awaited withFanout hp
        cases h
        cases withFanout with
        | true =>
          exact .leaves (.unsettled torn awaited true _ _ hp (Or.inr rfl) (List.Subset.refl _))
        | false =>
          exact .leaves (.unsettled torn awaited false s.group.fanout s.group.adrift hp
            (Or.inl rfl) (List.subset_append_left _ _))
      · cases h
  | resumed =>
    simp only [System.step] at h
    split at h
    · rename_i awaited hp
      simp only [Option.ite_none_right_eq_some, Option.some.injEq] at h
      obtain ⟨hdone, rfl⟩ := h
      exact .leaves (.resumed awaited hp hdone)
    · cases h

/-! ## Waiters and handles -/

namespace Waiter

variable (w : Waiter)

@[simp] theorem cancel_jobId : w.cancel.jobId = w.jobId := by unfold cancel; split <;> rfl

@[simp] theorem cancel_cached : w.cancel.cached = w.cached := by unfold cancel; split <;> rfl

@[simp] theorem cancel_late : w.cancel.late = w.late := by unfold cancel; split <;> rfl

@[simp] theorem take_jobId (status : JobStatus) : (w.take status).jobId = w.jobId := by
  unfold take; split <;> rfl

@[simp] theorem take_state (status : JobStatus) : (w.take status).state = w.state := by
  unfold take; split <;> rfl

@[simp] theorem take_late (status : JobStatus) : (w.take status).late = w.late := by
  unfold take; split <;> rfl

@[simp] theorem take_unasked (status : JobStatus) : (w.take status).unasked = w.unasked := by
  unfold take; split <;> rfl

@[simp] theorem breaks_jobId (issued : List JobId) : (w.breaks issued).jobId = w.jobId := by
  unfold breaks; split <;> rfl

@[simp] theorem breaks_cached (issued : List JobId) : (w.breaks issued).cached = w.cached := by
  unfold breaks; split <;> rfl

@[simp] theorem breaks_late (issued : List JobId) : (w.breaks issued).late = w.late := by
  unfold breaks; split <;> rfl

@[simp] theorem report_jobId (exceptional : Bool) : (w.report exceptional).jobId = w.jobId := by
  unfold report; split <;> [split <;> rfl; rfl]

@[simp] theorem report_cached (exceptional : Bool) : (w.report exceptional).cached = w.cached := by
  unfold report; split <;> [split <;> rfl; rfl]

@[simp] theorem report_late (exceptional : Bool) : (w.report exceptional).late = w.late := by
  unfold report; split <;> [split <;> rfl; rfl]

@[simp] theorem unwound_jobId : w.unwound.jobId = w.jobId := by unfold unwound; split <;> rfl

@[simp] theorem unwound_cached : w.unwound.cached = w.cached := by unfold unwound; split <;> rfl

@[simp] theorem unwound_late : w.unwound.late = w.late := by unfold unwound; split <;> rfl

theorem not_done_iff {w : Waiter} :
    w.done = false ↔ w.state = .pending ∨ w.state = .unwinding := by
  unfold done
  cases w.state <;> simp

theorem resultOf_done (exceptional : Bool) (status : JobStatus) :
    ({ w with state := resultOf exceptional status } : Waiter).done = true := by
  cases status <;> rfl

/-- A task that is done stays done, in the state it ended in. -/
theorem cancel_of_done {w : Waiter} (h : w.done = true) : w.cancel = w := if_pos h

theorem cancel_of_not_done {w : Waiter} (h : w.done = false) :
    w.cancel = { w with state := .unwinding } := by
  rw [cancel, if_neg (by simp [h])]

theorem cancel_not_pending : w.cancel.state ≠ .pending := by
  cases hdone : w.done with
  | true =>
    rw [cancel_of_done hdone]
    intro hstate
    rw [not_done_iff.mpr (Or.inl hstate)] at hdone
    cases hdone
  | false =>
    rw [cancel_of_not_done hdone]
    simp

theorem unwound_of_done {w : Waiter} (h : w.done = true) : w.unwound = w := by
  refine if_neg fun hstate => ?_
  rw [not_done_iff.mpr (Or.inr hstate)] at h
  cases h

theorem report_of_done {w : Waiter} (h : w.done = true) (exceptional : Bool) :
    w.report exceptional = w := by
  unfold report
  split
  · exact if_pos h
  · rfl

theorem breaks_of_done {w : Waiter} (h : w.done = true) (issued : List JobId) :
    w.breaks issued = w := if_pos h

end Waiter

/-- A waiter that makes progress keeps its job, stays done once it is, and does not start
again. -/
structure Waiter.Advances (w w' : Waiter) : Prop where
  jobId : w'.jobId = w.jobId
  late : w'.late = w.late
  done : w'.done = false → w.done = false
  pending : w'.state = .pending → w.state = .pending

namespace Waiter.Advances

variable (w : Waiter)

theorem refl : w.Advances w := ⟨rfl, rfl, id, id⟩

theorem take (status : JobStatus) : w.Advances (w.take status) :=
  ⟨w.take_jobId status, w.take_late status, fun h => by rwa [Waiter.done, take_state] at h,
    fun h => by rwa [take_state] at h⟩

theorem notified : w.Advances { w with notified := true } := ⟨rfl, rfl, id, id⟩

/-- What leaves a task alone that is done, and else puts it in another state, is progress. -/
theorem of_done {w w' : Waiter} (hid : w'.jobId = w.jobId) (hlate : w'.late = w.late)
    (h : w.done = true → w' = w) (hmoved : w' = w ∨ w'.state ≠ .pending) : w.Advances w' := by
  refine ⟨hid, hlate, fun hdone => ?_, fun hpending => ?_⟩
  · by_contra hne
    have hsame : w' = w := h (Bool.eq_true_of_not_eq_false hne)
    rw [hsame] at hdone
    exact hne hdone
  · rcases hmoved with rfl | hne
    · exact hpending
    · exact absurd hpending hne

theorem report (exceptional : Bool) : w.Advances (w.report exceptional) := by
  refine of_done (w.report_jobId _) (w.report_late _) (fun h => report_of_done h _) ?_
  unfold Waiter.report
  split
  case h_2 => exact Or.inl rfl
  case h_1 status _ =>
    split
    · exact Or.inl rfl
    · exact Or.inr (by cases status <;> simp [resultOf])

theorem breaks (issued : List JobId) : w.Advances (w.breaks issued) := by
  refine of_done (w.breaks_jobId issued) (w.breaks_late issued)
    (fun h => breaks_of_done h issued) ?_
  unfold Waiter.breaks
  split
  · exact Or.inl rfl
  · exact Or.inr (by simp)

theorem cancel : w.Advances w.cancel := by
  refine of_done w.cancel_jobId w.cancel_late cancel_of_done ?_
  unfold Waiter.cancel
  split
  · exact Or.inl rfl
  · exact Or.inr (by simp)

theorem unwound : w.Advances w.unwound := by
  refine of_done w.unwound_jobId w.unwound_late unwound_of_done ?_
  unfold Waiter.unwound
  split
  · exact Or.inr (by simp)
  · exact Or.inl rfl

end Waiter.Advances

namespace Group

theorem handles_updateWaiter (f : Waiter → Waiter) (hf : ∀ w, (f w).jobId = w.jobId) :
    (g.updateWaiter jobId f).handles = g.handles := by
  simp only [handles, updateWaiter, List.map_map]
  refine List.map_congr_left fun w _ => ?_
  simp only [Function.comp_apply]
  split
  · exact hf w
  · rfl

theorem handles_cancelWaiters (ids : List JobId) :
    (g.cancelWaiters ids).handles = g.handles := by
  simp only [handles, cancelWaiters, List.map_map]
  refine List.map_congr_left fun w _ => ?_
  simp only [Function.comp_apply]
  split
  · exact w.cancel_jobId
  · rfl

theorem mem_updateWaiter {f : Waiter → Waiter} {w' : Waiter}
    (h : w' ∈ (g.updateWaiter jobId f).waiters) :
    ∃ w ∈ g.waiters, (w' = w ∧ w.jobId ≠ jobId) ∨ (w' = f w ∧ w.jobId = jobId) := by
  obtain ⟨w, hw, rfl⟩ := List.mem_map.mp h
  refine ⟨w, hw, ?_⟩
  by_cases hid : w.jobId = jobId
  · exact Or.inr ⟨if_pos hid, hid⟩
  · exact Or.inl ⟨if_neg hid, hid⟩

theorem mem_cancelWaiters {ids : List JobId} {w' : Waiter}
    (h : w' ∈ (g.cancelWaiters ids).waiters) :
    ∃ w ∈ g.waiters, (w' = w ∧ w.jobId ∉ ids) ∨ (w' = w.cancel ∧ w.jobId ∈ ids) := by
  obtain ⟨w, hw, rfl⟩ := List.mem_map.mp h
  refine ⟨w, hw, ?_⟩
  by_cases hid : w.jobId ∈ ids
  · exact Or.inr ⟨if_pos hid, hid⟩
  · exact Or.inl ⟨if_neg hid, hid⟩

theorem mem_undone {ids : List JobId} :
    jobId ∈ g.undone ids ↔ ∃ w ∈ g.waiters, w.jobId = jobId ∧ jobId ∈ ids ∧ w.done = false := by
  simp only [undone, List.mem_map, List.mem_filter, Bool.and_eq_true, decide_eq_true_eq,
    Bool.not_eq_true']
  constructor
  · rintro ⟨w, ⟨hw, hids, hdone⟩, rfl⟩
    exact ⟨w, hw, rfl, hids, hdone⟩
  · rintro ⟨w, hw, rfl, hids, hdone⟩
    exact ⟨w, ⟨hw, hids, hdone⟩, rfl⟩

theorem mem_handles_of_undone {ids : List JobId} (h : jobId ∈ g.undone ids) :
    jobId ∈ g.handles := by
  obtain ⟨w, hw, rfl, -, -⟩ := mem_undone.mp h
  exact List.mem_map_of_mem hw

/-- `_job_finished` records a failure, and the first time also fans out. -/
theorem jobFinished_cases (w : Waiter) :
    (∃ failures, g.jobFinished w = { g with failures := failures }) ∨
      (g.cancelling = false ∧ ∃ failures, g.jobFinished w =
        { g with
          failures := failures
          cancelling := true
          fanout := some (g.undone g.handles)
          issued := g.issued ++ g.undone g.handles }) := by
  unfold jobFinished
  cases w.state with
  | pending => exact Or.inl ⟨g.failures, rfl⟩
  | unwinding => exact Or.inl ⟨g.failures, rfl⟩
  | returned exceptional => exact Or.inl ⟨g.failures, rfl⟩
  | cancelled => exact Or.inl ⟨g.failures, rfl⟩
  | raised failure =>
    cases hc : g.cancelling with
    | true =>
      by_cases hf : failure = .jobCancelled
      · refine Or.inl ⟨g.failures, ?_⟩
        -- not recorded: the scope asked for it
        simp only [hf, decide_true, Bool.and_true, if_true]
        rw [← hc]
      · refine Or.inl ⟨g.failures ++ [(w.jobId, failure)], ?_⟩
        simp [hf]
    | false => exact Or.inr ⟨rfl, g.failures ++ [(w.jobId, failure)], by simp⟩

theorem mem_jobs (h : jobId ∈ g.handles) : jobId ∈ g.jobs := List.mem_append_right _ h

end Group

/-! ## What the owning task leaves alone -/

/-- The requests under way or still to come in the call that the owner awaits. -/
def Phase.asking : Phase → List JobId
  | .backstop pending requests => pending ++ requests
  | .tearingDown requests => requests
  | _ => []

theorem Phase.requests_subset (p : Phase) : p.requests ⊆ p.asking := by
  cases p with
  | backstop pending requests => exact List.subset_append_right _ _
  | _ => exact List.Subset.refl _

/-- A move of the owning task issues requests for the scope's jobs, leaves requests behind and
cancels waiters, and changes nothing else that the scope knows about them. -/
structure Frame (g g' : Group) : Prop where
  detached : g'.detached = g.detached
  spawning : g'.spawning = g.spawning
  handles : g'.handles = g.handles
  created : g'.created = g.created
  hit : g'.hit = g.hit
  fanout : g'.fanout = g.fanout ∨ g'.fanout = some []
  adrift : g'.adrift ⊆ g.adrift ++ (g.phase.requests ++ g.fanout.getD [])
  issued : g.issued ⊆ g'.issued
  onlyJobs : g'.issued ⊆ g.issued ++ g.jobs
  waiters : ∀ w' ∈ g'.waiters, ∃ w ∈ g.waiters, w' = w ∨ w' = w.cancel

theorem Frame.of_phase (phase : Phase) (raised : Option Raised) :
    Frame g { g with phase := phase, raised := raised } where
  detached := rfl
  spawning := rfl
  handles := rfl
  created := rfl
  hit := rfl
  fanout := Or.inl rfl
  adrift := List.subset_append_left _ _
  issued := List.Subset.refl _
  onlyJobs := List.subset_append_left _ _
  waiters w hw := ⟨w, hw, Or.inl rfl⟩

/-- `cancel_all_jobs` starts. -/
theorem Frame.cancelAllJobs (raised : Option Raised) :
    Frame g { g with raised := raised }.cancelAllJobs :=
  { Frame.of_phase g.phase raised with
    issued := List.subset_append_left _ _
    onlyJobs := List.Subset.refl _ }

/-- Waiters are cancelled, and the owner's requests are left behind. -/
theorem Frame.cancelWaiters (ids adrift : List JobId) (phase : Phase) (raised : Option Raised)
    (h : adrift ⊆ g.adrift ++ g.phase.requests) :
    Frame g { ({ g with adrift := adrift } : Group).cancelWaiters ids with
      phase := phase, raised := raised } where
  detached := rfl
  spawning := rfl
  handles := Group.handles_cancelWaiters _
  created := rfl
  hit := rfl
  fanout := Or.inl rfl
  adrift id hid := by
    rw [← List.append_assoc]
    exact List.mem_append_left _ (h hid)
  issued := List.Subset.refl _
  onlyJobs := List.subset_append_left _ _
  waiters w' hw' := by
    obtain ⟨w, hw, ⟨rfl, -⟩ | ⟨rfl, -⟩⟩ := Group.mem_cancelWaiters hw'
    · exact ⟨_, hw, Or.inl rfl⟩
    · exact ⟨w, hw, Or.inr rfl⟩

theorem Frame.settle (raised : Option Raised) (adrift : List JobId) (torn : Bool)
    (h : adrift ⊆ g.adrift ++ g.phase.requests) :
    Frame g ({ g with raised := raised, adrift := adrift }.settle torn) :=
  .cancelWaiters g.handles adrift _ raised h

theorem Leaves.frame (h : Leaves g e g') : Frame g g' := by
  cases h with
  | bodyEmpty raised hp hempty => exact .settle raised g.adrift false (List.subset_append_left _ _)
  | bodyDone hp => exact .of_phase _ g.raised
  | bodyRaised hp => exact .cancelAllJobs _
  | joined watched failures hp hdone =>
    exact .settle _ g.adrift false (List.subset_append_left _ _)
  | draining watched hp hcancelling => exact .of_phase _ g.raised
  | backstop watched hp hcalm =>
    exact { Frame.of_phase g.phase g.raised with
      issued := List.subset_append_left _ _
      onlyJobs := List.append_subset.mpr ⟨List.subset_append_left _ _, fun id hid =>
        List.mem_append_right _ (Group.mem_jobs (Group.mem_handles_of_undone hid))⟩ }
  | asked pending hp => exact .of_phase _ g.raised
  | backstopRaised pending requests hp => exact .settle _ _ false (List.Subset.refl _)
  | drained pending hp hdone => exact .settle _ g.adrift false (List.subset_append_left _ _)
  | interrupted e raised he hin => exact .cancelWaiters _ _ _ _ (List.Subset.refl _)
  | again awaited hp => exact .of_phase g.phase _
  | resumed awaited hp hdone => exact .cancelAllJobs g.raised
  | reporting hp => exact .of_phase _ g.raised
  | torn e raised adrift he hp hadrift => exact .settle raised adrift true hadrift
  | unsettled torn awaited withFanout fanout adrift hp hfanout hadrift =>
    refine { Frame.of_phase g.phase (some .cancelled) with fanout := hfanout, adrift := ?_ }
    intro jobId hid
    rcases List.mem_append.mp (hadrift hid) with hold | hnew
    · exact List.mem_append_left _ hold
    · exact List.mem_append_right _ (List.mem_append_right _ hnew)
  | closed torn awaited withFanout hp hdone => exact .of_phase .closed g.raised

/-- The body ends in two ways. -/
theorem Leaves.of_body (h : Leaves g e g') (hp : g.phase = .body) :
    e = .bodyDone ∨ e = .bodyRaised := by
  cases h with
  | bodyEmpty raised _ hempty => exact Or.inl rfl
  | bodyDone _ => exact Or.inl rfl
  | bodyRaised _ => exact Or.inr rfl
  | interrupted e raised he hin =>
    rw [Group.inJoin, hp] at hin
    cases hin
  | torn e raised adrift he hp' hadrift =>
    rw [hp] at hp'
    simp at hp'
  | joined watched failures hp' hdone => cases hp.symm.trans hp'
  | draining watched hp' hcancelling => cases hp.symm.trans hp'
  | backstop watched hp' hcalm => cases hp.symm.trans hp'
  | asked pending hp' => cases hp.symm.trans hp'
  | backstopRaised pending requests hp' => cases hp.symm.trans hp'
  | drained pending hp' hdone => cases hp.symm.trans hp'
  | again awaited hp' => cases hp.symm.trans hp'
  | resumed awaited hp' hdone => cases hp.symm.trans hp'
  | reporting hp' => cases hp.symm.trans hp'
  | unsettled torn awaited withFanout fanout adrift hp' hfanout hadrift =>
    cases hp.symm.trans hp'
  | closed torn awaited withFanout hp' hdone => cases hp.symm.trans hp'

/-! ## What holds in every run -/

/-- Requests are issued for jobs of the scope only, and no request is made that was not
issued. -/
structure Asked (g : Group) : Prop where
  apart : ∀ sp ∈ g.spawning, sp.record.id ∉ g.jobs
  issued : g.issued ⊆ g.jobs
  fanout : g.fanout.getD [] ⊆ g.issued
  asking : g.phase.asking ⊆ g.issued
  adrift : g.adrift ⊆ g.issued
  hit : g.hit ⊆ g.issued

theorem asked_enter (onError : OnError) (hasDeadline : Bool) (detached : List JobId) :
    Asked (.enter onError hasDeadline detached) where
  apart := by simp [Group.enter]
  issued := by simp [Group.enter]
  fanout := by simp [Group.enter]
  asking := by simp [Group.enter, Phase.asking]
  adrift := by simp [Group.enter]
  hit := by simp [Group.enter]

theorem Frame.jobs (h : Frame g g') : g'.jobs = g.jobs := by
  rw [Group.jobs, h.detached, h.handles, Group.jobs]

theorem Asked.leaves (hg : Asked g) (h : Leaves g e g') : Asked g' where
  apart := by
    rw [h.frame.spawning, h.frame.jobs]
    exact hg.apart
  issued := by
    rw [h.frame.jobs]
    intro jobId hid
    rcases List.mem_append.mp (h.frame.onlyJobs hid) with hold | hnew
    · exact hg.issued hold
    · exact hnew
  fanout := by
    rcases h.frame.fanout with hf | hf
    · rw [hf]
      exact fun id hid => h.frame.issued (hg.fanout hid)
    · rw [hf]
      exact List.nil_subset _
  asking := by
    -- three moves start a call, and issue what it will request
    cases h with
    | bodyRaised hp => exact List.subset_append_right _ _
    | resumed awaited hp hdone => exact List.subset_append_right _ _
    | backstop watched hp hcalm =>
      exact List.append_subset.mpr
        ⟨List.subset_append_right _ _, List.subset_append_right _ _⟩
    | again awaited hp => exact hg.asking
    | unsettled torn awaited withFanout fanout adrift hp hfanout hadrift => exact hg.asking
    | _ => exact List.nil_subset _
  adrift id hid := by
    -- what is left behind had been issued
    refine h.frame.issued ?_
    rcases List.mem_append.mp (h.frame.adrift hid) with hold | hnew
    · exact hg.adrift hold
    · rcases List.mem_append.mp hnew with hrequest | hfanout
      · exact hg.asking (g.phase.requests_subset hrequest)
      · exact hg.fanout hfanout
  hit := by
    rw [h.frame.hit]
    exact fun id hid => h.frame.issued (hg.hit hid)

/-- A waiter's own progress changes no id. -/
theorem Asked.updateWaiter (hg : Asked g) {f : Waiter → Waiter}
    (hf : ∀ w, (f w).jobId = w.jobId) : Asked (g.updateWaiter jobId f) := by
  have hjobs : (g.updateWaiter jobId f).jobs = g.jobs := by
    rw [Group.jobs, g.handles_updateWaiter f hf]
    rfl
  refine ⟨?_, ?_, hg.fanout, hg.asking, hg.adrift, hg.hit⟩
  · rw [hjobs]
    exact hg.apart
  · rw [hjobs]
    exact hg.issued

theorem Asked.updateSpawn (hg : Asked g) {f : Spawn → Spawn}
    (hf : ∀ sp, (f sp).record = sp.record) : Asked (g.updateSpawn jobId f) := by
  refine ⟨fun sp hsp => ?_, hg.issued, hg.fanout, hg.asking, hg.adrift, hg.hit⟩
  obtain ⟨sp, hmem, rfl⟩ := List.mem_map.mp hsp
  have hrecord : (if sp.record.id = jobId then f sp else sp).record = sp.record := by
    split
    · exact hf sp
    · rfl
  rw [hrecord]
  exact hg.apart sp hmem

/-- A request that was issued takes effect. -/
theorem Asked.flagged (hg : Asked g) (t : Table) (hid : jobId ∈ g.issued) :
    Asked (g.flagged t jobId) := by
  unfold Group.flagged
  split
  · split
    · exact hg
    · exact ⟨hg.apart, hg.issued, hg.fanout, hg.asking, hg.adrift,
        List.append_subset.mpr ⟨hg.hit, by simpa using hid⟩⟩
  · exact hg

/-- The next request was issued, and so were the ones after it. -/
theorem Asked.next (hg : Asked g) {phase : Phase} {fanout : Option (List JobId)}
    {adrift : List JobId} (h : Next g jobId e phase fanout adrift) :
    Asked { g with phase := phase, fanout := fanout, adrift := adrift } ∧ jobId ∈ g.issued := by
  cases h with
  | fanout rest hf =>
    have hids : jobId :: rest ⊆ g.issued := by
      have hall := hg.fanout
      rwa [hf] at hall
    exact ⟨{ hg with fanout := fun id hid => hids (List.mem_cons_of_mem _ hid) },
      hids List.mem_cons_self⟩
  | backstop pending rest hp =>
    have hids := hg.asking
    rw [hp, Phase.asking, List.append_subset] at hids
    refine ⟨{ hg with asking := ?_ }, hids.2 List.mem_cons_self⟩
    exact List.append_subset.mpr ⟨hids.1, fun id hid => hids.2 (List.mem_cons_of_mem _ hid)⟩
  | tearingDown rest hp =>
    have hids := hg.asking
    rw [hp, Phase.asking] at hids
    refine ⟨{ hg with asking := ?_ }, hids List.mem_cons_self⟩
    exact fun id hid => hids (List.mem_cons_of_mem _ hid)
  | late hmem =>
    exact ⟨{ hg with adrift := fun id hid => hg.adrift (List.mem_of_mem_erase hid) },
      hg.adrift hmem⟩

theorem Asked.jobFinished (hg : Asked g) (w : Waiter) : Asked (g.jobFinished w) := by
  rcases g.jobFinished_cases w with ⟨failures, h⟩ | ⟨-, failures, h⟩
  · rw [h]
    exact ⟨hg.apart, hg.issued, hg.fanout, hg.asking, hg.adrift, hg.hit⟩
  · rw [h]
    refine ⟨hg.apart, ?_, List.subset_append_right _ _, ?_, ?_, ?_⟩
    -- the fan-out is for waiters, each of which has a handle
    · exact List.append_subset.mpr
        ⟨hg.issued, fun _ hid => Group.mem_jobs (Group.mem_handles_of_undone hid)⟩
    · exact fun id hid => List.mem_append_left _ (hg.asking hid)
    · exact fun id hid => List.mem_append_left _ (hg.adrift hid)
    · exact fun id hid => List.mem_append_left _ (hg.hit hid)

/-- What the fan-out has not asked yet is left behind. -/
theorem Asked.dropFanout (hg : Asked g) : Asked g.dropFanout where
  apart := hg.apart
  issued := hg.issued
  fanout := List.nil_subset _
  asking := hg.asking
  adrift := List.append_subset.mpr ⟨hg.adrift, hg.fanout⟩
  hit := hg.hit

theorem Asked.register (hg : Asked g) : Asked (g.register jobId) := by
  have hjobs : (g.register jobId).jobs = g.jobs ++ [jobId] := by
    simp [Group.jobs, Group.handles, Group.register]
  refine ⟨fun sp hsp => ?_, ?_, hg.fanout, hg.asking, hg.adrift, hg.hit⟩
  · -- a spawn that is still under way has another id
    simp only [Group.register, List.mem_filter, decide_eq_true_eq] at hsp
    rw [hjobs, List.mem_append, List.mem_singleton]
    exact fun hmem => hmem.elim (hg.apart sp hsp.1) hsp.2
  · rw [hjobs]
    exact fun id hid => List.mem_append_left _ (hg.issued hid)

theorem Asked.step (hg : Asked s.group) (h : s.step e = some s') : Asked s'.group := by
  cases stepOf h with
  | backend op hfresh => exact hg
  | spawn record hfresh =>
    refine { hg with apart := fun sp hsp => ?_ }
    rcases List.mem_append.mp hsp with hold | hnew
    · exact hg.apart sp hold
    · rw [List.mem_singleton.mp hnew]
      exact hfresh.1
  | enqueue sp hsp created hcreated =>
    have hup : Asked (s.group.updateSpawn sp.record.id fun sp => { sp with stored := true }) :=
      hg.updateSpawn fun _ => rfl
    exact ⟨hup.apart, hup.issued, hup.fanout, hup.asking, hup.adrift, hup.hit⟩
  | spawned sp hsp hawaited => exact hg.register
  | spawnFailed sp hsp => exact hg.updateSpawn fun _ => rfl
  | take jobId status => exact hg.updateWaiter fun w => w.take_jobId status
  | report jobId exceptional => exact hg.updateWaiter fun w => w.report_jobId _
  | broke jobId freed => exact hg.updateWaiter fun w => w.breaks_jobId _
  | unwound jobId => exact hg.updateWaiter fun w => w.unwound_jobId
  | notify w hw =>
    have hnotified : Asked (s.group.updateWaiter w.jobId fun w => { w with notified := true }) :=
      hg.updateWaiter fun _ => rfl
    exact hnotified.jobFinished w
  | fanoutRaised => exact hg.dropFanout
  | flag jobId phase fanout adrift hnext =>
    obtain ⟨hrest, hid⟩ := hg.next hnext
    exact hrest.flagged s.table hid
  | leaves hleaves => exact hg.leaves hleaves

theorem Group.flagged_phase (t : Table) : (g.flagged t jobId).phase = g.phase := by
  unfold flagged
  split
  · split <;> rfl
  · rfl

theorem Group.jobFinished_phase (w : Waiter) : (g.jobFinished w).phase = g.phase := by
  rcases g.jobFinished_cases w with ⟨failures, h⟩ | ⟨-, failures, h⟩ <;> rw [h]

theorem Group.jobFinished_waiters (w : Waiter) : (g.jobFinished w).waiters = g.waiters := by
  rcases g.jobFinished_cases w with ⟨failures, h⟩ | ⟨-, failures, h⟩ <;> rw [h]

theorem Group.flagged_waiters (t : Table) : (g.flagged t jobId).waiters = g.waiters := by
  unfold flagged
  split
  · split <;> rfl
  · rfl

theorem Group.jobFinished_spawning (w : Waiter) : (g.jobFinished w).spawning = g.spawning := by
  rcases g.jobFinished_cases w with ⟨failures, h⟩ | ⟨-, failures, h⟩ <;> rw [h]

theorem Group.flagged_spawning (t : Table) : (g.flagged t jobId).spawning = g.spawning := by
  unfold flagged
  split
  · split <;> rfl
  · rfl

/-- A spawn under way was under way before, or has just been called. -/
theorem spawning_of_step (h : s.step e = some s') {sp' : Spawn} (hsp : sp' ∈ s'.group.spawning) :
    (∃ sp ∈ s.group.spawning, sp'.record = sp.record) ∨
      ∃ record, e = .spawn record ∧ sp'.record = submitted record := by
  have hupdate : ∀ (jobId : JobId) (f : Spawn → Spawn), (∀ sp, (f sp).record = sp.record) →
      sp' ∈ (s.group.updateSpawn jobId f).spawning →
      ∃ sp ∈ s.group.spawning, sp'.record = sp.record := by
    intro jobId f hf hmem
    obtain ⟨sp, hold, rfl⟩ := List.mem_map.mp hmem
    refine ⟨sp, hold, ?_⟩
    split
    · exact hf sp
    · rfl
  have hsame : s'.group.spawning = s.group.spawning →
      ∃ sp ∈ s.group.spawning, sp'.record = sp.record := fun heq => ⟨sp', heq ▸ hsp, rfl⟩
  cases stepOf h with
  | spawn record hfresh =>
    rcases List.mem_append.mp hsp with hold | hnew
    · exact Or.inl ⟨sp', hold, rfl⟩
    · rw [List.mem_singleton.mp hnew]
      exact Or.inr ⟨record, rfl, rfl⟩
  | enqueue sp hsp' created hcreated =>
    exact Or.inl (hupdate _ (fun sp => { sp with stored := true }) (fun _ => rfl) hsp)
  | spawnFailed sp hsp' =>
    exact Or.inl (hupdate _ (fun sp => { sp with abandoned := true }) (fun _ => rfl) hsp)
  | spawned sp hsp' hawaited => exact Or.inl ⟨sp', (List.mem_filter.mp hsp).1, rfl⟩
  | notify w hw => exact Or.inl (hsame (Group.jobFinished_spawning w))
  | flag jobId phase fanout adrift hnext =>
    exact Or.inl (hsame (Group.flagged_spawning _))
  | leaves hleaves => exact Or.inl (hsame hleaves.frame.spawning)
  | _ => exact Or.inl (hsame rfl)

/-- What a handle has consumed is gone from the backend. -/
def Consumed (s : System) : Prop :=
  ∀ w ∈ s.group.waiters, w.cached ≠ none → s.table w.jobId = none

/-- Records of consumed jobs stay away, and no handle gains a cached job. -/
theorem Consumed.of_kept {t : Table} (hs : Consumed s)
    (ht : ∀ id ∈ s.group.handles, s.table id = none → t id = none)
    (hw : ∀ w' ∈ g.waiters, w'.cached = none ∨
      ∃ w ∈ s.group.waiters, w'.jobId = w.jobId ∧ w'.cached = w.cached) :
    Consumed ⟨t, g⟩ := by
  intro w' hw' hcached
  obtain hnone | ⟨w, hmem, hid, hsame⟩ := hw w' hw'
  · exact absurd hnone hcached
  · show t w'.jobId = none
    rw [hid]
    rw [hsame] at hcached
    exact ht _ (List.mem_map_of_mem hmem) (hs w hmem hcached)

theorem Consumed.of_table {t : Table} (hs : Consumed s)
    (ht : ∀ id ∈ s.group.handles, s.table id = none → t id = none)
    (hw : g.waiters = s.group.waiters) : Consumed ⟨t, g⟩ := by
  refine hs.of_kept ht fun w' hw' => Or.inr ⟨w', ?_, rfl, rfl⟩
  rwa [hw] at hw'

theorem Consumed.updateWaiter {t : Table} {f : Waiter → Waiter} (hs : Consumed s)
    (ht : ∀ id ∈ s.group.handles, s.table id = none → t id = none)
    (hf : ∀ w, (f w).jobId = w.jobId ∧ (f w).cached = w.cached) :
    Consumed ⟨t, s.group.updateWaiter jobId f⟩ := by
  refine hs.of_kept ht fun w' hw' => Or.inr ?_
  obtain ⟨w, hmem, ⟨rfl, -⟩ | ⟨rfl, -⟩⟩ := Group.mem_updateWaiter hw'
  · exact ⟨_, hmem, rfl, rfl⟩
  · exact ⟨w, hmem, hf w⟩

theorem Consumed.take (hs : Consumed s) (status : JobStatus) :
    Consumed ⟨(TableOp.free jobId).effect s.table,
      s.group.updateWaiter jobId (Waiter.take status)⟩ := by
  intro w' hw' hcached
  show (TableOp.free jobId).effect s.table w'.jobId = none
  by_cases hid : w'.jobId = jobId
  · rw [hid]
    exact Function.update_self ..
  · obtain ⟨w, hmem, ⟨rfl, -⟩ | ⟨rfl, hw⟩⟩ := Group.mem_updateWaiter hw'
    · rw [TableOp.effect_of_ne _ _ hid]
      exact hs _ hmem hcached
    · exact absurd ((w.take_jobId status).trans hw) hid

theorem Consumed.step (hasked : Asked s.group) (hs : Consumed s) (h : s.step e = some s') :
    Consumed s' := by
  have hsame : ∀ id ∈ s.group.handles, s.table id = none → s.table id = none := fun _ _ => id
  have hop : ∀ op : TableOp, (∀ record, op = .create record → record.id ∉ s.group.handles) →
      ∀ id ∈ s.group.handles, s.table id = none → op.effect s.table id = none := by
    intro op hcreate id hid hnone
    refine op.effect_of_none s.table hnone fun record hrec hcon => hcreate record hrec ?_
    rwa [hcon]
  cases stepOf h with
  | backend op hfresh =>
    exact hs.of_table (hop op fun record hrec hmem => (hfresh record hrec).1 (Group.mem_jobs hmem))
      rfl
  | spawn record hfresh => exact hs.of_table hsame rfl
  | enqueue sp hsp created hcreated =>
    -- the id has no handle yet, so nothing was consumed under it
    refine hs.of_table (hop _ ?_) rfl
    rintro _ ⟨⟩
    exact fun hmem => hasked.apart sp hsp (Group.mem_jobs hmem)
  | spawned sp hsp hawaited =>
    refine hs.of_kept hsame fun w' hw' => ?_
    rcases List.mem_append.mp hw' with hold | hnew
    · exact Or.inr ⟨w', hold, rfl, rfl⟩
    · rw [List.mem_singleton.mp hnew]
      exact Or.inl rfl
  | spawnFailed sp hsp => exact hs.of_table hsame rfl
  | take jobId status => exact hs.take status
  | report jobId exceptional =>
    exact hs.updateWaiter hsame fun w => ⟨w.report_jobId _, w.report_cached _⟩
  | unwound jobId => exact hs.updateWaiter hsame fun w => ⟨w.unwound_jobId, w.unwound_cached⟩
  | broke jobId freed =>
    refine hs.updateWaiter ?_ fun w => ⟨w.breaks_jobId _, w.breaks_cached _⟩
    cases freed with
    | true => exact hop (.free jobId) (by rintro _ ⟨⟩)
    | false => exact hsame
  | notify w hw =>
    have hnotified : Consumed
        ⟨s.table, s.group.updateWaiter w.jobId fun w => { w with notified := true }⟩ :=
      hs.updateWaiter hsame fun _ => ⟨rfl, rfl⟩
    exact hnotified.of_table (fun _ _ => id) (Group.jobFinished_waiters w)
  | fanoutRaised => exact hs.of_table hsame rfl
  | flag jobId phase fanout adrift hnext =>
    exact hs.of_table (hop (.flag jobId) (by rintro _ ⟨⟩)) (Group.flagged_waiters _)
  | leaves hleaves =>
    refine hs.of_kept hsame fun w' hw' => Or.inr ?_
    obtain ⟨w, hmem, rfl | rfl⟩ := hleaves.frame.waiters w' hw'
    · exact ⟨_, hmem, rfl, rfl⟩
    · exact ⟨w, hmem, w.cancel_jobId, w.cancel_cached⟩

end TaskQueue.Scope
