import TaskQueue.Worker.Process
import TaskQueue.Redis.Custody

/-!
# What comes of a delivery

Each function of `_run` has one lemma that says what it does: an equivalence for the
short ones (`wp_save`, `wp_complete`, `wp_abandon`, `wp_cleanup`), and for the `try` block
an account of the ways in which it can end (`Attended`). Whatever happens meanwhile, the
delivery stays in the state that only its own writes change (`Keeps`), the tasks that are
not in `pending` are done (`Covers`), and the arguments are such as the body may have left
them (`Left`).
-/

namespace TaskQueue.Worker.Process

open Redis Placement Routine

variable {Value : Type} {pool : Pool Value} {setting : Setting Value} {f : Frame Value}
  {w w' w'' : World Value} {post : Except Exc Unit → Frame Value → World Value → Prop}

/-! ## What stays -/

theorem Elsewhere.refl (jobId : JobId) (st : Store) : Elsewhere jobId st st := ⟨rfl, fun _ => rfl⟩

theorem Elsewhere.trans {jobId : JobId} {st st' st'' : Store} (h : Elsewhere jobId st st')
    (h' : Elsewhere jobId st' st'') : Elsewhere jobId st st'' where
  status := h'.status.trans h.status
  place key := (h'.place key).trans (h.place key)

/-- What a delivery keeps, whatever others do. -/
structure Keeps (w w' : World Value) : Prop where
  store : Elsewhere w.jobId w.store w'.store
  running : w'.running = true → w.running = true
  jobId : w'.jobId = w.jobId
  stopped : w.stopped = true → w'.stopped = true
  conduct : w'.conduct = w.conduct
  saves : w'.saves = w.saves
  released : w'.released = w.released
  early : w'.early = w.early

theorem Keeps.trans (h : Keeps w w') (h' : Keeps w' w'') : Keeps w w'' where
  store := h.store.trans (h.jobId ▸ h'.store)
  running hr := h.running (h'.running hr)
  jobId := h'.jobId.trans h.jobId
  stopped hs := h'.stopped (h.stopped hs)
  conduct := h'.conduct.trans h.conduct
  saves := h'.saves.trans h.saves
  released := h'.released.trans h.released
  early := h'.early.trans h.early

theorem Drift.keeps (h : Drift w w') : Keeps w w' where
  store := h.store
  running := h.running
  jobId := h.jobId
  stopped hs := h.stopped.trans hs
  conduct := h.conduct
  saves := h.saves
  released := h.released
  early := h.early

theorem keeps_stop (w : World Value) : Keeps w w.stop :=
  ⟨.refl _ _, id, rfl, fun _ => rfl, rfl, rfl, rfl, rfl⟩

theorem keeps_cancel (w : World Value) (tasks : List TaskName) : Keeps w (w.cancel tasks) :=
  ⟨.refl _ _, id, rfl, id, rfl, rfl, rfl, rfl⟩

/-! ## The two tasks -/

section Steps

variable {c : Conduct Value} {t t' : TaskState Value} {args args' : Args Value}
  {v v' : TaskState Unit}

theorem BodyStep.args_left (h : BodyStep c t args t' args') :
    args' = args ∨ c.mutates args' ∨ ∃ r, c.ends r args' ∨ c.unwinds r args' := by
  cases h with
  | rests => exact Or.inl rfl
  | goesOn b _ _ h => exact Or.inr (Or.inl h)
  | ends b _ r _ h => exact Or.inr (Or.inr ⟨r, Or.inl h⟩)
  | unwinds _ r _ h => exact Or.inr (Or.inr ⟨r, Or.inr h⟩)
  | cancelled => exact Or.inl rfl

/-- A task that is done has ended for good, and its body mutates nothing any more. -/
theorem BodyStep.of_done (h : BodyStep c t args t' args') (hd : t.isDone = true) :
    t' = t ∧ args' = args := by
  cases h with
  | rests => exact ⟨rfl, rfl⟩
  | _ => cases hd

theorem BodyStep.of_absent (h : BodyStep c .absent args t' args') : t' = .absent := by
  cases h with
  | rests => rfl

theorem BodyStep.args_of_absent (h : BodyStep c .absent args t' args') : args' = args := by
  cases h with
  | rests => rfl

/-- How a running body can have ended. -/
theorem BodyStep.of_running {b : Bool} (h : BodyStep c (.running b) args t' args') :
    t' = .running b ∨ ∃ r, t' = .done r ∧ (c.ends r args' ∨
      b = true ∧ (c.unwinds r args' ∨ r = .error .cancelled ∧ args' = args)) := by
  cases h with
  | rests => exact Or.inl rfl
  | goesOn => exact Or.inl rfl
  | ends _ _ r _ h => exact Or.inr ⟨r, rfl, Or.inl h⟩
  | unwinds _ r _ h => exact Or.inr ⟨r, rfl, Or.inr ⟨rfl, Or.inl h⟩⟩
  | cancelled => exact Or.inr ⟨_, rfl, Or.inr ⟨rfl, Or.inr ⟨rfl, rfl⟩⟩⟩

theorem WatcherStep.of_done (h : WatcherStep v v') (hd : v.isDone = true) : v' = v := by
  cases h with
  | rests => rfl
  | _ => cases hd

theorem WatcherStep.of_absent (h : WatcherStep .absent v') : v' = .absent := by
  cases h with
  | rests => rfl

/-- A watcher that was not cancelled waits, has returned, or has failed. -/
theorem WatcherStep.of_running (h : WatcherStep (.running false) v') :
    v' = .running false ∨ v' = .done (.ok ()) ∨ ∃ e, v' = .done (.error (.raised e)) := by
  cases h with
  | rests => exact Or.inl rfl
  | returns => exact Or.inr (Or.inl rfl)
  | fails _ e => exact Or.inr (Or.inr ⟨e, rfl⟩)

end Steps

/-- The tasks outside `pending` are done. -/
def Covers (pending : List TaskName) (w : World Value) : Prop :=
  ∀ task, task ∉ pending → w.isDone task = true

theorem Drift.isDone (h : Drift w w') {task : TaskName} (hd : w.isDone task = true) :
    w'.isDone task = true := by
  cases task with
  | job =>
    show w'.body.isDone = true
    rw [(h.body.of_done hd).1]
    exact hd
  | watcher =>
    show w'.watcher.isDone = true
    rw [h.watcher.of_done hd]
    exact hd

theorem Covers.drift {pending : List TaskName} (h : Covers pending w) (hd : Drift w w') :
    Covers pending w' := fun task hn => hd.isDone (h task hn)

theorem isDone_cancel (w : World Value) (tasks : List TaskName) (task : TaskName)
    (h : w.isDone task = true) : (w.cancel tasks).isDone task = true := by
  cases task with
  | job =>
    show TaskState.isDone (if _ then w.body.cancel else w.body) = true
    have hd : w.body.isDone = true := h
    split
    · cases hb : w.body <;> simp [hb, TaskState.isDone, TaskState.cancel] at hd ⊢
    · exact hd
  | watcher =>
    show TaskState.isDone (if _ then w.watcher.cancel else w.watcher) = true
    have hd : w.watcher.isDone = true := h
    split
    · cases hb : w.watcher <;> simp [hb, TaskState.isDone, TaskState.cancel] at hd ⊢
    · exact hd

/-- The arguments are those of `w`, or such as the body may leave them. -/
def Left (w w' : World Value) : Prop :=
  w'.args = w.args ∨ w.conduct.mutates w'.args ∨
    ∃ r, w.conduct.ends r w'.args ∨ w.conduct.unwinds r w'.args

theorem Left.refl (w : World Value) : Left w w := Or.inl rfl

theorem Left.drift (h : Left w w') (hk : Keeps w w') (hd : Drift w' w'') : Left w w'' := by
  rcases hd.body.args_left with hargs | hleft
  · unfold Left
    rw [hargs]
    exact h
  · rw [hk.conduct] at hleft
    exact Or.inr hleft

/-! ## The short functions -/

/-- `_save`: the record may not be representable. -/
theorem wp_save : pool.save.wp (env pool setting) post f w ↔
    upon (fun record => ∀ r t, setting.calls (pool.saved f.job.id record) w r t → post r f t)
      (fun e => post (.error (.raised e)) f w) (toRecord pool.serializer f.job w.args) := by
  simp only [Pool.save, raising, wp_bind, wp_locals, wp_call, wp_lift, env, forall_answer, upon_ok,
    upon_mapError]

/-- The `finally` clause. -/
theorem wp_cleanup : cleanup.wp (env pool setting) post f w ↔
    ∀ r t, env pool setting (.gather f.pending) (w.cancel f.pending) r t → post r f t := by
  simp only [cleanup, wp_bind, wp_locals, wp_call, upon_ok]
  constructor
  · exact fun h => h (.ok ()) _ ⟨rfl, rfl⟩
  · rintro h r t ⟨rfl, rfl⟩
    exact h

/-- What the body returned becomes the result, and what it raised is raised. -/
theorem wp_complete : complete.wp (env pool setting) post f w ↔
    ∀ r, w.body = .done r →
      upon (fun v =>
          post (.ok ()) { f with job := { f.job with result := v, status := .completed } } w)
        (fun e => post (.error e) f w) r := by
  simp only [complete, setJob, wp_bind, wp_call, wp_assign, env]
  constructor
  · intro h r hr
    exact h r w ⟨hr, rfl⟩
  · rintro h r t ⟨hr, rfl⟩
    exact h r hr

/-- The body is cancelled, and given some time. -/
theorem wp_abandon : abandon.wp (env pool setting) post f w ↔
    ∀ r t, env pool setting .waitUnwind (w.cancel [.job]) r t →
      upon (fun _ => post (.ok ()) { f with job := { f.job with status := .cancelled } } t)
        (fun e => post (.error e) f t) r := by
  simp only [abandon, setJob, wp_bind, wp_call, wp_assign]
  constructor
  · exact fun h => h (.ok ()) _ ⟨rfl, rfl⟩
  · rintro h r t ⟨rfl, rfl⟩
    exact h

/-- Only a failed watcher makes the loop wait for the body alone. -/
theorem wp_bodyDone {post : Except Exc Bool → Frame Value → World Value → Prop}
    {done : Bool × Bool} : (bodyDone done).wp (env pool setting) post f w ↔
    if (done.2 && !done.1) = true then
      ∀ r t, env pool setting .watcherException w r t →
        upon (fun failure : Option Exc =>
          match failure with
          | some _ => ∀ r' t', env pool setting .awaitBody t r' t' →
              upon (fun _ => post (.ok true) f t') (fun e => post (.error e) f t') r'
          | none => post (.ok false) f t)
        (fun e => post (.error e) f t) r
    else post (.ok done.1) f w := by
  simp only [bodyDone, wp_ite, wp_bind, wp_call, wp_pure]
  by_cases hfailed : (done.2 && !done.1) = true
  · rw [if_pos hfailed, if_pos hfailed]
    refine forall_congr' fun r => forall_congr' fun t => imp_congr_right fun _ => ?_
    rcases r with e | failure
    · exact Iff.rfl
    · cases failure with
      | none => exact Iff.rfl
      | some e => simp only [upon_ok, wp_bind, wp_call, wp_pure]
  · rw [if_neg hfailed, if_neg hfailed]

/-! ## The `try` block -/

/-- How the body ended: by itself, or after the loop's task was cancelled. -/
def Ended (setting : Setting Value) (w w' : World Value) (r : Except Exc Value) : Prop :=
  w.conduct.ends r w'.args ∨ (setting.cancels = true ∧ w'.stopped = true ∧
    (w.conduct.unwinds r w'.args ∨ r = .error .cancelled))

/-- How the `try` block can end before its save: with the body's value or exception, with
the job cancelled, or because the loop's task was. -/
inductive Attended (setting : Setting Value) (w : World Value) (f : Frame Value) :
    Except Exc Unit → Frame Value → World Value → Prop where
  | returned {v : Value} {pending : List TaskName} {w' : World Value}
      (hbody : w'.body = .done (.ok v)) (hended : Ended setting w w' (.ok v)) :
      Attended setting w f (.ok ())
        ⟨{ f.job with result := v, status := .completed }, pending⟩ w'
  | raised {e : Exc} {pending : List TaskName} {w' : World Value}
      (hbody : w'.body = .done (.error e)) (hended : Ended setting w w' (.error e)) :
      Attended setting w f (.error e) ⟨f.job, pending⟩ w'
  | abandoned {pending : List TaskName} {w' : World Value} :
      Attended setting w f (.ok ()) ⟨{ f.job with status := .cancelled }, pending⟩ w'
  | interrupted {pending : List TaskName} {w' : World Value} (hcancels : setting.cancels = true)
      (hstop : w'.stopped = true) : Attended setting w f (.error .cancelled) ⟨f.job, pending⟩ w'

/-- What holds of the world however the block ends. -/
structure Attending (w : World Value) (pending : List TaskName) (w' : World Value) : Prop where
  keeps : Keeps w w'
  covers : Covers pending w'
  left : Left w w'

theorem Attending.drift {pending : List TaskName} (h : Attending w pending w')
    (hd : Drift w' w'') : Attending w pending w'' where
  keeps := h.keeps.trans hd.keeps
  covers := h.covers.drift hd
  left := h.left.drift h.keeps hd

theorem Attending.stop {pending : List TaskName} (h : Attending w pending w') :
    Attending w pending w'.stop where
  keeps := h.keeps.trans (keeps_stop w')
  covers := by
    intro task hn
    have hd := h.covers task hn
    cases task <;> exact hd
  left := h.left

theorem Attending.cancel {pending : List TaskName} (h : Attending w pending w')
    (tasks : List TaskName) : Attending w pending (w'.cancel tasks) where
  keeps := h.keeps.trans (keeps_cancel w' tasks)
  covers task hn := isDone_cancel w' tasks task (h.covers task hn)
  left := h.left

/-- The body's result is there: it is returned or raised. -/
theorem complete_spec {pending : List TaskName} (h : Attending w pending w')
    (hended : ∀ r, w'.body = .done r → Ended setting w w' r) :
    complete.wp (env pool setting) (fun r f' w'' => Attending w f'.pending w'' ∧
      Attended setting w f r f' w'') ⟨f.job, pending⟩ w' := by
  rw [wp_complete]
  intro r hr
  cases r with
  | ok v => exact ⟨h, .returned hr (hended _ hr)⟩
  | error e => exact ⟨h, .raised hr (hended _ hr)⟩

theorem abandon_spec {pending : List TaskName} (h : Attending w pending w') :
    abandon.wp (env pool setting) (fun r f' w'' => Attending w f'.pending w'' ∧
      Attended setting w f r f' w'') ⟨f.job, pending⟩ w' := by
  rw [wp_abandon]
  rintro r t (⟨hd, rfl⟩ | ⟨hcancels, rfl, u, hd, rfl⟩)
  · exact ⟨(h.cancel _).drift hd, .abandoned⟩
  · exact ⟨((h.cancel _).drift hd).stop, .interrupted hcancels rfl⟩

/-- The unwatched wait: the body ends, or the loop's task is cancelled and forwards it. -/
theorem awaitBody_spec {pending : List TaskName} {r : Except Exc Value} (h : Attending w pending w')
    (hrun : w'.body = .running false) (hawait : env pool setting .awaitBody w' r w'') :
    Attending w pending w'' ∧ ((w''.body = .done r ∧ Ended setting w w'' r) ∨
      (r = .error .cancelled ∧ setting.cancels = true ∧ w''.stopped = true)) := by
  rcases hawait with ⟨hd, hr⟩ | ⟨hcancels, t, hd, hcases⟩
  · refine ⟨h.drift hd, Or.inl ⟨hr, ?_⟩⟩
    have hstep := hd.body
    rw [hrun, h.keeps.conduct] at hstep
    rcases hstep.of_running with hrunning | ⟨r', hr', hends | ⟨hfalse, -⟩⟩
    · rw [hr] at hrunning
      cases hrunning
    · rw [hr] at hr'
      cases hr'
      exact Or.inl hends
    · cases hfalse
  · have ht := h.drift hd
    rcases hcases with ⟨hrunning, hd', hr⟩ | ⟨-, rfl, rfl⟩
    · have hstopped : w''.stopped = true := hd'.keeps.stopped rfl
      refine ⟨((ht.cancel _).stop).drift hd', Or.inl ⟨hr, ?_⟩⟩
      have hstep := hd'.body
      obtain ⟨b, hb⟩ : ∃ b, (t.cancel [.job]).stop.body = .running b := by
        cases hbody : t.body with
        | running b => exact ⟨true, by simp [World.stop, World.cancel, hbody, TaskState.cancel]⟩
        | absent | done =>
          rw [hbody] at hrunning
          cases hrunning
      have hconduct : (t.cancel [.job]).stop.conduct = w.conduct := ht.keeps.conduct
      rw [hb, hconduct] at hstep
      rcases hstep.of_running with hstill | ⟨r', hr', hends | ⟨-, hunwinds | ⟨hcancelled, -⟩⟩⟩
      · rw [hr] at hstill
        cases hstill
      · rw [hr] at hr'
        cases hr'
        exact Or.inl hends
      · rw [hr] at hr'
        cases hr'
        exact Or.inr ⟨hcancels, hstopped, Or.inl hunwinds⟩
      · rw [hr] at hr'
        cases hr'
        exact Or.inr ⟨hcancels, hstopped, Or.inr hcancelled⟩
    · exact ⟨ht.stop, Or.inr ⟨rfl, hcancels, rfl⟩⟩

/-- The tasks that are not done after the first wait are those in `pending`. -/
theorem covers_pending (w : World Value) :
    Covers ((if w.body.isDone = true then [] else [.job]) ++
      if w.watcher.isDone = true then [] else [.watcher]) w := by
  intro task hn
  by_contra hnot
  refine hn ?_
  cases task with
  | job =>
    have hrun : ¬ w.body.isDone = true := hnot
    rw [if_neg hrun]
    exact List.mem_append_left _ List.mem_cons_self
  | watcher =>
    have hrun : ¬ w.watcher.isDone = true := hnot
    rw [if_neg hrun]
    exact List.mem_append_right _ List.mem_cons_self

/-- **The `try` block**, entered with both tasks just created. -/
theorem attend_spec (hbody : w.body = .running false) (hwatcher : w.watcher = .running false)
    (hpending : f.pending = [.job, .watcher]) :
    attend.wp (env pool setting) (fun r f' w' => Attending w f'.pending w' ∧
      Attended setting w f r f' w') f w := by
  have hstart : Attending w f.pending w := by
    refine ⟨⟨.refl _ _, id, rfl, id, rfl, rfl, rfl, rfl⟩, fun task hn => ?_, .refl w⟩
    rw [hpending] at hn
    cases task <;> simp at hn
  simp only [attend, setPending, wp_bind, wp_call, wp_assign, upon_ok]
  rintro r t (⟨hd, rfl, -⟩ | ⟨hcancels, rfl, u, hd, rfl⟩)
  · have hatt : Attending w ((if t.body.isDone = true then [] else [.job]) ++
        if t.watcher.isDone = true then [] else [.watcher]) t :=
      ⟨hd.keeps, covers_pending t, (Left.refl w).drift hstart.keeps hd⟩
    have hstep := hd.body
    rw [hbody] at hstep
    have hnatural : ∀ r, t.body = .done r → Ended setting w t r := by
      intro r hr
      rcases hstep.of_running with hrun | ⟨r', hr', hends | ⟨hfalse, -⟩⟩
      · rw [hr] at hrun
        cases hrun
      · rw [hr] at hr'
        cases hr'
        exact Or.inl hends
      · cases hfalse
    rw [upon_ok, wp_bodyDone]
    split
    case isTrue hfailed =>
      have hrunning : t.body = .running false := by
        rcases hstep.of_running with hrun | ⟨r, hr, -⟩
        · exact hrun
        · rw [hr] at hfailed
          simp [TaskState.isDone] at hfailed
      rintro r t' ⟨hexc, rfl⟩
      have hwstep := hd.watcher
      rw [hwatcher] at hwstep
      rcases hwstep.of_running with hw | hw | ⟨e, hw⟩
      · rw [hw] at hexc
        exact hexc.elim
      · rw [hw] at hexc
        cases hexc
        exact abandon_spec hatt
      · rw [hw] at hexc
        cases hexc
        intro r' t'' hawait
        obtain ⟨hatt', hres⟩ := awaitBody_spec hatt hrunning hawait
        cases r' with
        | ok v =>
          rcases hres with ⟨hdone, hended⟩ | ⟨hcancelled, -⟩
          · refine complete_spec hatt' fun r hr => ?_
            rw [hdone] at hr
            cases hr
            exact hended
          · cases hcancelled
        | error e =>
          rcases hres with ⟨hdone, hended⟩ | ⟨hcancelled, hcancels, hstopped⟩
          · exact ⟨hatt', .raised hdone hended⟩
          · cases hcancelled
            exact ⟨hatt', .interrupted hcancels hstopped⟩
    case isFalse hother =>
      by_cases hdone : t.body.isDone = true
      · simp only [hdone, if_true]
        rw [hdone] at hatt
        exact complete_spec hatt hnatural
      · simp only [hdone]
        rw [Bool.not_eq_true] at hdone
        rw [hdone] at hatt
        exact abandon_spec hatt
  · exact ⟨(hstart.drift hd).stop, .interrupted hcancels rfl⟩

/-! ## The functions around it -/

/-- A delivery that starts no body, or that cannot be started, ends at once; one that
starts goes through the `try` statement. -/
theorem wp_process {record : Record} : (pool.process record).wp (env pool setting) post f w ↔
    upon (fun p => pool.run.wp (env pool setting) post { f with job := p.1 }
        { w with args := p.2 })
      (fun e => post (.error (.raised e)) f w) (fromRecord pool.serializer record) := by
  simp only [Pool.process, raising, setJob, wp_bind, wp_lift, wp_assign, wp_call, upon_ok,
    upon_mapError, env, forall_answer]

/-- The world when `_run` has created its two tasks. -/
def World.started (w : World Value) : World Value :=
  { w with body := .running false, watcher := .running false }

/-- `_run`: the early saves, the call that cannot be made, and the `try` statement. -/
theorem wp_run : pool.run.wp (env pool setting) post f w ↔
    if f.job.requestCancel = true then
      pool.save.wp (env pool setting) post { f with job := { f.job with status := .cancelled } } w
    else if pool.registry f.job.taskName = true then
      if "self" ∈ w.args.kwargs.map Prod.fst then
        post (.error (.raised bindError)) f { w with watcher := .running false }
      else pool.guarded.wp (env pool setting) post ⟨f.job, [.job, .watcher]⟩ w.started
    else
      pool.save.wp (env pool setting) post
        { f with job := { f.job with
          error := some (unknownTask f.job.taskName), status := .failed } } w := by
  simp only [Pool.run, setJob, setPending, wp_bind, wp_locals, wp_ite, wp_call, wp_assign, upon_ok]
  by_cases hwanted : f.job.requestCancel = true
  · rw [if_pos hwanted, if_pos hwanted]
  rw [if_neg hwanted, if_neg hwanted]
  by_cases hregistered : pool.registry f.job.taskName = true
  · rw [if_pos hregistered, if_pos hregistered]
    constructor
    · intro h
      have hcall := h (.ok ()) _ ⟨rfl, rfl⟩ (.ok w.args) _ ⟨rfl, rfl⟩
      by_cases hbinds : "self" ∈ w.args.kwargs.map Prod.fst
      · rw [if_pos hbinds]
        refine hcall (.error (.raised bindError)) _ ?_
        exact (if_pos hbinds).mpr ⟨rfl, rfl⟩
      · rw [if_neg hbinds]
        refine hcall (.ok ()) w.started ?_
        exact (if_neg hbinds).mpr ⟨rfl, rfl⟩
    · rintro h r t ⟨rfl, rfl⟩ r t ⟨rfl, rfl⟩ r t hcall
      change if "self" ∈ w.args.kwargs.map Prod.fst then _ else _ at hcall
      split at h
      case isTrue hbinds =>
        rw [if_pos hbinds] at hcall
        obtain ⟨rfl, rfl⟩ := hcall
        exact h
      case isFalse hbinds =>
        rw [if_neg hbinds] at hcall
        obtain ⟨rfl, rfl⟩ := hcall
        exact h
  · rw [if_neg hregistered, if_neg hregistered]

theorem calls_ne_group {α : Type} {effect : World Value → Except Exc α × World Value}
    {r : Except Exc α} (heffect : ∀ t, (effect t).1 ≠ .error .group)
    (h : setting.calls effect w r w') : r ≠ .error .group := by
  obtain ⟨t, -, ⟨rfl, -⟩ | ⟨-, ⟨e, rfl⟩, -⟩ | ⟨-, rfl, -⟩⟩ := h
  · exact heffect t
  · simp
  · simp

theorem released_ne_group (jobId : JobId) (t : World Value) :
    (pool.released jobId t).1 ≠ .error .group := by
  simp only [Pool.released]
  split <;> simp [keyError]

/-- The loop raises `CancelledError` again, whatever the release does. -/
theorem wp_handBack {jobId : JobId} : (handBack jobId).wp (env pool setting) post f w ↔
    ∀ r t, setting.calls (pool.released jobId) w.issueRelease r t →
      post (.error .cancelled) f t := by
  simp only [handBack, wp_bind, wp_tryExcept, wp_call, wp_raise]
  refine forall_congr' fun r => forall_congr' fun t => ?_
  constructor
  · intro h hcall
    have hres := h hcall
    rcases r with (_ | _ | _) | _
    · exact hres
    · exact hres
    · exact (calls_ne_group (released_ne_group jobId) hcall rfl).elim
    · exact hres
  · intro h hcall
    have hres := h hcall
    rcases r with (_ | _ | _) | _
    · exact hres
    · exact hres
    · exact (calls_ne_group (released_ne_group jobId) hcall rfl).elim
    · exact hres

/-! ## Runs that exist

What all runs do holds of each of these. -/

theorem Drift.of_steps {t : TaskState Value} {args : Args Value} {v : TaskState Unit}
    (hbody : BodyStep w.conduct w.body w.args t args) (hwatcher : WatcherStep w.watcher v) :
    Drift w { w with body := t, args := args, watcher := v } :=
  ⟨.refl _ _, id, hbody, hwatcher, rfl, rfl, rfl, rfl, rfl, rfl⟩

theorem Drift.refl (w : World Value) : Drift w w := .of_steps (.rests _ _) (.rests _)

/-- The body ends by itself, while the watcher waits. -/
theorem attend_ends (h : attend.wp (env pool setting) post f w) (hbody : w.body = .running false)
    (hwatcher : w.watcher = .running false) {r : Except Exc Value} {args : Args Value}
    (hr : w.conduct.ends r args) :
    upon (fun v => post (.ok ())
        ⟨{ f.job with result := v, status := .completed }, [.watcher]⟩
        { w with body := .done r, args := args })
      (fun e =>
        post (.error e) ⟨f.job, [.watcher]⟩ { w with body := .done r, args := args }) r := by
  simp only [attend, setPending, wp_bind, wp_call, wp_assign, upon_ok] at h
  have hstep : BodyStep w.conduct w.body w.args (.done r) args := by
    rw [hbody]
    exact .ends false _ r args hr
  have hwait := h (.ok (true, false)) { w with body := .done r, args := args }
    (Or.inl ⟨.of_steps hstep (.rests _), by simp [TaskState.isDone, hwatcher], rfl⟩)
  rw [upon_ok, wp_bodyDone] at hwait
  exact wp_complete.mp hwait r rfl

/-- The watcher returns, and the body goes on, or ends, once it was cancelled. -/
theorem attend_abandons (h : attend.wp (env pool setting) post f w)
    (hbody : w.body = .running false) (hwatcher : w.watcher = .running false)
    {t : TaskState Value} {args : Args Value}
    (hstep : BodyStep w.conduct (.running true) w.args t args) :
    post (.ok ()) ⟨{ f.job with status := .cancelled }, [.job]⟩
      { w with body := t, args := args, watcher := .done (.ok ()) } := by
  simp only [attend, setPending, wp_bind, wp_call, wp_assign, upon_ok] at h
  have hreturns : WatcherStep w.watcher (.done (.ok ())) := by
    rw [hwatcher]
    exact .returns false
  have hwait := h (.ok (false, true)) { w with watcher := .done (.ok ()) }
    (Or.inl ⟨.of_steps (.rests _ _) hreturns, by simp [TaskState.isDone, hbody],
      Bool.or_true _⟩)
  rw [upon_ok, wp_bodyDone] at hwait
  have hasked := hwait (.ok none) _ ⟨rfl, rfl⟩
  have hcancelled : ({ w with watcher := .done (.ok ()) } : World Value).cancel [.job] =
      { w with body := .running true, watcher := .done (.ok ()) } := by
    simp [World.cancel, hbody, TaskState.cancel]
  have habandon := wp_abandon.mp hasked
  rw [hcancelled] at habandon
  exact habandon (.ok t.isRunning) { w with body := t, args := args, watcher := .done (.ok ()) }
    (Or.inl ⟨.of_steps hstep (.rests _), rfl⟩)

/-- The watcher fails, and the loop's task is cancelled while it waits for the body. -/
theorem attend_forwards (h : attend.wp (env pool setting) post f w)
    (hcancels : setting.cancels = true)
    (hbody : w.body = .running false) (hwatcher : w.watcher = .running false)
    {r : Except Exc Value} {args : Args Value} {e : Raised} (hr : w.conduct.unwinds r args) :
    upon (fun v => post (.ok ())
        ⟨{ f.job with result := v, status := .completed }, [.job]⟩
        { w with body := .done r, args := args, watcher := .done (.error (.raised e)),
                 stopped := true })
      (fun e' => post (.error e') ⟨f.job, [.job]⟩
        { w with body := .done r, args := args, watcher := .done (.error (.raised e)),
                 stopped := true }) r := by
  simp only [attend, setPending, wp_bind, wp_call, wp_assign, upon_ok] at h
  have hfails : WatcherStep w.watcher (.done (.error (.raised e))) := by
    rw [hwatcher]
    exact .fails false e
  set failed : World Value := { w with watcher := .done (.error (.raised e)) } with hf
  have hwait := h (.ok (false, true)) failed
    (Or.inl ⟨.of_steps (.rests _ _) hfails, by simp [hf, TaskState.isDone, hbody],
      Bool.or_true _⟩)
  rw [upon_ok, wp_bodyDone] at hwait
  have hasked := hwait (.ok (some (.raised e))) _ ⟨rfl, rfl⟩
  have hcancelled :
      (failed.cancel [.job]).stop = { failed with body := .running true, stopped := true } := by
    simp [hf, World.cancel, World.stop, hbody, TaskState.cancel]
  have hstep : BodyStep w.conduct (.running true) w.args (.done r) args := .unwinds _ r args hr
  have hrunning : failed.body.isRunning = true := by
    rw [hf]
    show w.body.isRunning = true
    rw [hbody]
    rfl
  have hawait := hasked r { failed with body := .done r, args := args, stopped := true }
    (Or.inr ⟨hcancels, failed, .refl _, Or.inl ⟨hrunning, ?_, rfl⟩⟩)
  · cases r with
    | ok v => exact wp_complete.mp hawait (.ok v) rfl
    | error e' => exact hawait
  · rw [hcancelled]
    exact .of_steps hstep (.rests _)

/-- The tasks in `pending` that run end cancelled. -/
def World.unwound (w : World Value) (pending : List TaskName) : World Value :=
  { w with
    body := if .job ∈ pending ∧ w.body.isRunning = true then .done (.error .cancelled) else w.body
    watcher :=
      if .watcher ∈ pending ∧ w.watcher.isRunning = true then .done (.error .cancelled)
      else w.watcher }

/-- Cancelled tasks can unwind, and then the `finally` clause is done. -/
theorem cleanup_unwinds (h : cleanup.wp (env pool setting) post f w)
    (hbody : w.body.isDone = true ∨ w.body.isRunning = true)
    (hwatcher : w.watcher.isDone = true ∨ w.watcher.isRunning = true) :
    post (.ok ()) f (w.unwound f.pending) := by
  have hgather := wp_cleanup.mp h (.ok ()) (w.unwound f.pending)
  refine hgather ?_
  show if f.pending = [] then _ else _
  split
  case isTrue hnil => simp [hnil, World.unwound, World.cancel]
  case isFalse =>
    refine ⟨w.unwound f.pending, .of_steps (w := w.cancel f.pending) ?_ ?_, ?_, Or.inl ⟨rfl, rfl⟩⟩
    · show BodyStep w.conduct (if TaskName.job ∈ f.pending then w.body.cancel else w.body) w.args
        (if TaskName.job ∈ f.pending ∧ w.body.isRunning = true then _ else w.body) w.args
      cases hb : w.body with
      | absent => simp [hb, TaskState.isDone, TaskState.isRunning] at hbody
      | running b =>
        by_cases hm : TaskName.job ∈ f.pending
        · simp only [hm, TaskState.isRunning, TaskState.cancel, and_self, if_true]
          exact .cancelled _
        · simp only [hm, false_and, if_false]
          exact .rests _ _
      | done r =>
        simp only [TaskState.isRunning, TaskState.cancel, ite_self, Bool.false_eq_true, and_false,
          if_false]
        exact .rests _ _
    · show WatcherStep (if TaskName.watcher ∈ f.pending then w.watcher.cancel else w.watcher)
        (if TaskName.watcher ∈ f.pending ∧ w.watcher.isRunning = true then _ else w.watcher)
      cases hb : w.watcher with
      | absent => simp [hb, TaskState.isDone, TaskState.isRunning] at hwatcher
      | running b =>
        by_cases hm : TaskName.watcher ∈ f.pending
        · simp only [hm, TaskState.isRunning, TaskState.cancel, and_self, if_true]
          exact .unwinds
        · simp only [hm, false_and, if_false]
          exact .rests _
      | done r =>
        simp only [TaskState.isRunning, TaskState.cancel, ite_self, Bool.false_eq_true, and_false,
          if_false]
        exact .rests _
    · intro task hm
      cases task with
      | job =>
        show TaskState.isDone (if TaskName.job ∈ f.pending ∧ w.body.isRunning = true then _
          else w.body) = true
        rcases hbody with hdone | hrun
        · split
          · rfl
          · exact hdone
        · rw [if_pos ⟨hm, hrun⟩]
          rfl
      | watcher =>
        show TaskState.isDone (if TaskName.watcher ∈ f.pending ∧ w.watcher.isRunning = true then _
          else w.watcher) = true
        rcases hwatcher with hdone | hrun
        · split
          · rfl
          · exact hdone
        · rw [if_pos ⟨hm, hrun⟩]
          rfl

/-- The exception passes through the `try` statement. -/
theorem guarded_passes (h : pool.guarded.wp (env pool setting) post f w)
    (hbody : w.body = .running false) (hwatcher : w.watcher = .running false) {e : Exc}
    {args : Args Value} (hends : w.conduct.ends (.error e) args)
    (he : e = .cancelled ∨ e = .group) :
    post (.error e) ⟨f.job, [.watcher]⟩
      (({ w with body := .done (.error e), args := args } : World Value).unwound [.watcher]) := by
  simp only [Pool.guarded, wp_tryFinally, wp_tryExcept, wp_bind] at h
  have hattend := attend_ends h hbody hwatcher hends
  rw [upon_error, upon_error] at hattend
  have hcleanup : cleanup.wp (env pool setting)
      (fun r f' w' => upon (fun _ => post (.error e) f' w') (fun e => post (.error e) f' w') r)
      ⟨f.job, [.watcher]⟩ { w with body := .done (.error e), args := args } := by
    rcases he with rfl | rfl
    · exact hattend
    · exact hattend
  exact cleanup_unwinds hcleanup (Or.inl rfl) (Or.inr (by simp [hwatcher, TaskState.isRunning]))

/-! ## A pool for examples -/

/-- A codec of two values, one of which it cannot represent. -/
def boolSerializer : Serializer Bool where
  dumps v := if v then .ok [1] else .error ⟨some "not representable"⟩
  loads _ := .ok true
  dumpsPayload args := if false ∈ args.args then .error ⟨some "not representable"⟩ else .ok [2]
  loadsPayload _ := .ok ⟨[true], []⟩
  none := true
  lawful := by
    rintro blob args h
    cases h
    exact ⟨[2], rfl⟩

/-- A pool that knows every task. -/
def boolPool : Pool Bool where
  serializer := boolSerializer
  registry _ := true
  worker := "w"
  resultTtl := 60

/-- A record as `claim` returns it. -/
def claimedRecord : Record where
  id := "j"
  taskName := "task"
  createdAt := "0"
  status := .running
  attempts := 1
  requestCancel := false
  payload := [2]
  groupId := none
  error := none
  result := none

/-- The world when `claim` has returned it, for a body of the given conduct. -/
def claimedWorld (c : Conduct Bool) : World Bool where
  store := (Store.empty.put "j" ⟨claimedRecord, none⟩).rpush (.processing "w") "j"
  jobId := "j"
  running := true
  stopped := false
  body := .absent
  watcher := .absent
  conduct := c
  args := ⟨[], []⟩
  saves := 0
  released := false
  early := false

theorem starts_claimedRecord : ∃ job args, boolPool.Starts claimedRecord job args :=
  ⟨_, _, rfl, rfl, rfl, List.not_mem_nil⟩

/-- The body that ends in `r` and leaves `args`, and just unwinds when it is cancelled. -/
def Conduct.only {Value : Type} (r : Except Exc Value) (args : Args Value) : Conduct Value where
  ends r' args' := r' = r ∧ args' = args
  unwinds _ _ := False
  mutates _ := False

end TaskQueue.Worker.Process
