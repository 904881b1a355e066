import TaskQueue.Worker.Attend

/-!
# What ends a claim loop (`Worker._worker_loop`)

A loop that claims one record after the other, whatever the bodies do and whatever the
backend raises, must end only because the pool stopped it: `_running` became False, or its
task was cancelled. `survives_iff` says exactly when it does: no record that it may claim
starts a body which ends in `CancelledError` by itself, or in a `BaseExceptionGroup` that
is no `Exception`. The loop takes the one for its own cancellation, and no `except` clause
catches the other.
-/

namespace TaskQueue.Worker.Process

open Redis Placement Routine

variable {Value : Type} {pool : Pool Value} {setting : Setting Value} {f : Frame Value}
  {w w' : World Value} {post : Except Exc Unit → Frame Value → World Value → Prop}

/-- The loop goes on, or the pool has stopped it. -/
def OnlyStopped (r : Except Exc Bool) (w : World Value) : Prop :=
  r = .ok false ∨ w.running = false ∨ w.stopped = true

/-- The body may end in an exception that passes the `except Exception` clauses. -/
def Conduct.Lethal (c : Conduct Value) : Prop :=
  ∃ args, c.ends (.error .cancelled) args ∨ c.ends (.error .group) args

/-- The delivery starts a body that may end so. -/
def Pool.Lethal (pool : Pool Value) (record : Record) (c : Conduct Value) : Prop :=
  (∃ job args, pool.Starts record job args) ∧ c.Lethal

/-! ## One delivery -/

/-- What passes the `except Exception` clauses comes from a cancellation of the loop. -/
def Stopping {α : Type} (r : Except Exc α) (w : World Value) : Prop :=
  r = .error .cancelled ∨ r = .error .group → w.stopped = true

theorem stopping_ok {α : Type} (a : α) (w : World Value) : Stopping (.ok a) w := by
  rintro (h | h) <;> cases h

theorem stopping_raised {α : Type} (e : Raised) (w : World Value) :
    Stopping (.error (.raised e) : Except Exc α) w := by
  rintro (h | h) <;> cases h

/-- A call of the backend raises an `Exception`, or was cancelled. -/
theorem calls_stopping {α : Type} {effect : World Value → Except Exc α × World Value}
    {r : Except Exc α} (heffect : ∀ t, Stopping (effect t).1 (effect t).2)
    (h : setting.calls effect w r w') : Stopping r w' := by
  obtain ⟨t, -, ⟨rfl, hd⟩ | ⟨-, ⟨e, rfl⟩, -⟩ | ⟨-, -, u, -, rfl⟩⟩ := h
  · exact fun hr => hd.keeps.stopped (heffect t hr)
  · exact stopping_raised e w'
  · exact fun _ => rfl

/-- A call of the backend does not undo a cancellation. -/
theorem calls_stopped {α : Type} {effect : World Value → Except Exc α × World Value}
    {r : Except Exc α} (heffect : ∀ t, (effect t).2.stopped = t.stopped)
    (hw : w.stopped = true) (h : setting.calls effect w r w') : w'.stopped = true := by
  obtain ⟨t, hd, ⟨-, hd'⟩ | ⟨-, -, rfl | hd'⟩ | ⟨-, -, u, -, rfl⟩⟩ := h
  · exact hd'.keeps.stopped ((heffect t).trans (hd.keeps.stopped hw))
  · exact hd.keeps.stopped hw
  · exact hd'.keeps.stopped ((heffect t).trans (hd.keeps.stopped hw))
  · rfl

theorem saved_stopping (jobId : JobId) (record : Record) (t : World Value) :
    Stopping (pool.saved jobId record t).1 (pool.saved jobId record t).2 := by
  simp only [Pool.saved]
  split
  · exact stopping_raised _ _
  · exact stopping_ok _ _

theorem save_stops : pool.save.wp (env pool setting) (fun r _ w' => Stopping r w') f w := by
  rw [wp_save]
  cases toRecord pool.serializer f.job w.args with
  | ok record => exact fun r t h => calls_stopping (saved_stopping _ _) h
  | error e => exact stopping_raised _ _

theorem failed_stops {e : Exc} (h : Stopping (.error e : Except Exc Unit) w) :
    (pool.failed e).wp (env pool setting) (fun r _ w' => Stopping r w') f w := by
  cases e with
  | cancelled => exact h
  | group => exact h
  | raised e =>
    simp only [Pool.failed, setJob, str, wp_bind, wp_lift, wp_assign]
    cases e.text with
    | none => exact stopping_raised _ _
    | some text => exact save_stops

/-- The `finally` clause replaces an exception only when the loop's task is cancelled. -/
theorem cleanup_stops {r : Except Exc Unit} (h : Stopping r w) :
    cleanup.wp (env pool setting) (fun r' _ w' =>
      upon (fun _ => Stopping r w')
        (fun e => Stopping (.error e : Except Exc Unit) w') r') f w := by
  rw [wp_cleanup]
  intro r' t hgather
  change if f.pending = [] then _ else _ at hgather
  split at hgather
  · obtain ⟨rfl, rfl⟩ := hgather
    exact h
  · obtain ⟨u, hd, -, ⟨rfl, rfl⟩ | ⟨-, rfl, rfl⟩⟩ := hgather
    · exact fun hr => hd.keeps.stopped (h hr)
    · exact fun _ => rfl

/-- The `try` and `except` clauses. -/
theorem tried_stops (hc : ¬ w.conduct.Lethal) (hbody : w.body = .running false)
    (hwatcher : w.watcher = .running false) (hpending : f.pending = [.job, .watcher]) :
    (tryExcept (do attend; pool.save) pool.failed).wp (env pool setting)
      (fun r _ w' => Stopping r w') f w := by
  have hended : ∀ (w' : World Value) (e : Exc), Ended setting w w' (.error e) →
      Stopping (.error e : Except Exc Unit) w' := by
    rintro w' e (hends | ⟨-, hstopped, -⟩) hr
    · refine (hc ⟨w'.args, ?_⟩).elim
      rcases hr with hr | hr <;> cases hr
      · exact Or.inl hends
      · exact Or.inr hends
    · exact hstopped
  have hsave : ∀ (f' : Frame Value) (w' : World Value),
      pool.save.wp (env pool setting) (fun r f'' w'' =>
        upon (fun a => Stopping (.ok a : Except Exc Unit) w'')
          (fun e => (pool.failed e).wp (env pool setting) (fun r _ w' => Stopping r w') f'' w'') r)
        f' w' := by
    intro f' w'
    refine wp_mono save_stops fun r f'' w'' h => ?_
    cases r with
    | ok a => exact h
    | error e => exact failed_stops h
  simp only [wp_tryExcept, wp_bind]
  refine wp_mono (attend_spec hbody hwatcher hpending) ?_
  rintro r f' w' ⟨-, hattended⟩
  cases hattended with
  | returned => exact hsave _ _
  | abandoned => exact hsave _ _
  | raised _ hended' => exact failed_stops (hended w' _ hended')
  | interrupted _ hstopped => exact failed_stops fun _ => hstopped

theorem guarded_stops (hc : ¬ w.conduct.Lethal) (hbody : w.body = .running false)
    (hwatcher : w.watcher = .running false) (hpending : f.pending = [.job, .watcher]) :
    pool.guarded.wp (env pool setting) (fun r _ w' => Stopping r w') f w := by
  simp only [Pool.guarded, wp_tryFinally]
  refine wp_mono (tried_stops hc hbody hwatcher hpending) fun r f' w' h => ?_
  exact cleanup_stops h

/-- `_run` starts a body, or saves at once, or cannot call the task. -/
theorem run_stops (hc : "self" ∉ w.args.kwargs.map Prod.fst → f.job.requestCancel = false →
      pool.registry f.job.taskName = true → ¬ w.conduct.Lethal) :
    pool.run.wp (env pool setting) (fun r _ w' => Stopping r w') f w := by
  rw [wp_run]
  split
  case isTrue => exact save_stops
  case isFalse hwanted =>
    split
    case isTrue hregistered =>
      split
      case isTrue => exact stopping_raised _ _
      case isFalse hbinds =>
        refine guarded_stops (hc hbinds ?_ hregistered) rfl rfl rfl
        exact Bool.not_eq_true _ ▸ hwanted
    case isFalse => exact save_stops

theorem process_stops {record : Record} (hc : ¬ pool.Lethal record w.conduct) :
    (pool.process record).wp (env pool setting) (fun r _ w' => Stopping r w') f w := by
  rw [wp_process]
  cases hr : fromRecord pool.serializer record with
  | error e => exact stopping_raised _ _
  | ok p =>
    refine run_stops fun hbinds hwanted hregistered hlethal => hc ⟨⟨p.1, p.2, ?_⟩, hlethal⟩
    exact ⟨hr, hwanted, hregistered, hbinds⟩

/-- A delivery that does not start a lethal body ends the loop only if its task was
cancelled. -/
theorem handle_stops {record : Record} (hc : ¬ pool.Lethal record w.conduct) :
    (pool.handle record).wp (env pool setting)
      (fun r _ w' => ∀ e, r = .error e → w'.stopped = true) f w := by
  simp only [Pool.handle, wp_tryExcept]
  refine wp_mono (process_stops hc) fun r f' w' h => ?_
  cases r with
  | ok a => exact fun e he => by cases he
  | error e =>
    cases e with
    | raised e => exact fun e' he => by cases he
    | group => exact fun _ _ => h (Or.inr rfl)
    | cancelled =>
      rw [upon_error, wp_handBack]
      have hstopped : w'.issueRelease.stopped = true := h (Or.inl rfl)
      exact fun r t hrelease _ _ => calls_stopped (fun u => rfl) hstopped hrelease

/-! ## The loop -/

theorem turn_stops (hoffers : ∀ record c, setting.offers record c → ¬ pool.Lethal record c) :
    pool.turn.wp (env pool setting)
      (fun r _ w' => ∀ e, r = .error e → w'.stopped = true) f w := by
  simp only [Pool.turn, wp_bind, wp_tryExcept, wp_call]
  rintro r t ⟨u, -, ⟨rfl, rfl⟩ | ⟨record, c, st, hoffer, rfl, rfl⟩ | ⟨-, ⟨e, rfl⟩, rfl⟩ |
    ⟨-, rfl, rfl⟩⟩
  · exact fun e he => by cases he
  · exact handle_stops (hoffers record c hoffer)
  · simp only [upon_error, wp_bind, wp_call, wp_pure]
    rintro r t (⟨-, rfl⟩ | ⟨-, rfl, v, -, rfl⟩)
    · exact fun e he => by cases he
    · exact fun _ _ => rfl
  · exact fun _ _ => rfl

theorem workerLoop_stops (hoffers : ∀ record c, setting.offers record c → ¬ pool.Lethal record c)
    (n : Nat) : ∀ f w, (pool.workerLoop n).wp (env pool setting)
      (fun r _ w' => OnlyStopped r w') f w := by
  induction n with
  | zero => exact fun f w => Or.inl rfl
  | succ n ih =>
    intro f w
    simp only [Pool.workerLoop, wp_bind, wp_call, wp_ite, wp_pure]
    rintro r t ⟨rfl, rfl⟩
    show if t.running = true then _ else _
    split
    case isTrue hrunning =>
      refine wp_mono (turn_stops hoffers) fun r f' w' h => ?_
      cases r with
      | ok a => exact ih f' w'
      | error e => exact Or.inr (Or.inr (h e rfl))
    case isFalse hrunning =>
      rw [Bool.not_eq_true] at hrunning
      exact Or.inr (Or.inl hrunning)

/-! ## Lethal deliveries -/

/-- A lethal body can end the loop although nothing has stopped it. -/
theorem handle_dies {record : Record} (h : (pool.handle record).wp (env pool setting) post f w)
    (hlethal : pool.Lethal record w.conduct) :
    ∃ e f' w', post (.error e) f' w' ∧ w'.stopped = w.stopped ∧ w'.running = w.running := by
  obtain ⟨⟨job, args, hstarts⟩, args', hends⟩ := hlethal
  simp only [Pool.handle, wp_tryExcept] at h
  rw [wp_process, hstarts.decodes, upon_ok, wp_run, if_neg (by simp [hstarts.wanted]),
    if_pos hstarts.registered, if_neg hstarts.binds] at h
  rcases hends with hends | hends
  · -- the loop takes it for its own cancellation
    have hpass := guarded_passes h rfl rfl hends (Or.inl rfl)
    rw [upon_error, wp_handBack] at hpass
    have hrelease := hpass _ _ ⟨_, .refl _, Or.inl ⟨rfl, .refl _⟩⟩
    exact ⟨.cancelled, _, _, hrelease, rfl, rfl⟩
  · have hpass := guarded_passes h rfl rfl hends (Or.inr rfl)
    exact ⟨.group, _, _, hpass, rfl, rfl⟩

/-- A loop that may claim such a record can end by itself. -/
theorem lethal_ends {record : Record} {c : Conduct Value} (hoffer : setting.offers record c)
    (hlethal : pool.Lethal record c) :
    ∃ f w r f' w', (pool.workerLoop 1).Runs (env pool setting) f w r f' w' ∧
      ¬ OnlyStopped r w' := by
  obtain ⟨⟨job, args, hstarts⟩, -⟩ := id hlethal
  by_contra hnone
  have hwp : (pool.workerLoop 1).wp (env pool setting) (fun r _ w' => OnlyStopped r w') ⟨job, []⟩
      ⟨.empty, record.id, true, false, .absent, .absent, c, args, 0, false, false⟩ := by
    refine wp_iff.mpr fun r f' w' hrun => ?_
    by_contra hnot
    exact hnone ⟨_, _, r, f', w', hrun, hnot⟩
  simp only [Pool.workerLoop, Pool.turn, wp_bind, wp_tryExcept, wp_call, wp_ite, wp_pure] at hwp
  have hturn := hwp (.ok true) _ ⟨rfl, rfl⟩ (.ok (some record)) _
    ⟨_, .refl _, Or.inr (Or.inl ⟨record, c, .empty, hoffer, rfl, rfl⟩)⟩
  rw [upon_ok, upon_ok] at hturn
  obtain ⟨e, f', w', hpost, hstopped, hrunning⟩ := handle_dies hturn hlethal
  change OnlyStopped (.error e) w' at hpost
  rcases hpost with hok | hnot | hstop
  · cases hok
  · rw [hrunning] at hnot
    cases hnot
  · rw [hstopped] at hstop
    cases hstop

/-- **A claim loop ends only because the pool stopped it, exactly when none of the records
that it may claim starts a body which ends in `CancelledError` by itself or in a
`BaseExceptionGroup`.** -/
theorem survives_iff (pool : Pool Value) (setting : Setting Value) :
    (∀ n f w r f' w', (pool.workerLoop n).Runs (env pool setting) f w r f' w' →
        OnlyStopped r w') ↔
      ∀ record c, setting.offers record c → ¬ pool.Lethal record c := by
  constructor
  · intro h record c hoffer hlethal
    obtain ⟨f, w, r, f', w', hrun, hnot⟩ := lethal_ends hoffer hlethal
    exact hnot (h 1 f w r f' w' hrun)
  · intro hoffers n f w r f' w' hrun
    exact wp_iff.mp (workerLoop_stops hoffers n f w) r f' w' hrun

/-- The body awaits a task that it had cancelled, and ends in its `CancelledError`; or it
raises a `BaseExceptionGroup`. Nothing is cancelled, no call fails, and the loop ends. -/
theorem cancelledBody_endsLoop :
    (∃ f w r f' w', (boolPool.workerLoop 1).Runs
        (env boolPool ⟨false, false, fun record c =>
          record = claimedRecord ∧ c = .only (.error .cancelled) ⟨[true], []⟩⟩) f w r f' w' ∧
      ¬ OnlyStopped r w') ∧
    ∃ f w r f' w', (boolPool.workerLoop 1).Runs
        (env boolPool ⟨false, false, fun record c =>
          record = claimedRecord ∧ c = .only (.error .group) ⟨[true], []⟩⟩) f w r f' w' ∧
      ¬ OnlyStopped r w' := by
  constructor
  · exact lethal_ends ⟨rfl, rfl⟩ ⟨starts_claimedRecord, ⟨[true], []⟩, Or.inl ⟨rfl, rfl⟩⟩
  · exact lethal_ends ⟨rfl, rfl⟩ ⟨starts_claimedRecord, ⟨[true], []⟩, Or.inr ⟨rfl, rfl⟩⟩

end TaskQueue.Worker.Process
