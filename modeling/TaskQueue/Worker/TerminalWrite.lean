import TaskQueue.Worker.Attend

/-!
# The terminal write (`Worker._process`, `_save`, `Job.to_record`)

A delivery starts with its id on the worker's processing list alone and its record RUNNING
(`Held`), and should end with a terminal record and the id on no list (`Settled`), after one
save that took effect. The record is serialised as a whole, arguments and all, on both paths
through `_run`, so `writes_iff` asks more of the body than that its result or its exception
can be written: the arguments it leaves have to be representable too, and `str()` of every
exception that reaches the handler must not raise.
-/

namespace TaskQueue.Worker.Process

open Redis Placement Routine

variable {Value : Type} {pool : Pool Value} {setting : Setting Value} {f : Frame Value}
  {w w' w'' : World Value} {post : Except Exc Unit → Frame Value → World Value → Prop}
  {c : Conduct Value} {record : Record}

/-! ## The job in the database -/

/-- The stored status of a job. -/
def statusOf (st : Store) (jobId : JobId) : Option JobStatus :=
  (st.jobs jobId).map fun e => e.record.status

/-- The worker holds the job's lease. -/
structure Held (worker : InstanceId) (jobId : JobId) (st : Store) : Prop where
  status : statusOf st jobId = some .running
  place : OnceAt st.lists jobId (.processing worker)

/-- The job has a terminal record, and is on no list. -/
structure Settled (jobId : JobId) (st : Store) : Prop where
  status : ∃ s, statusOf st jobId = some s ∧ s.terminal = true
  place : Nowhere st.lists jobId

section Store

variable {worker : InstanceId} {jobId : JobId} {st st' : Store}

theorem Held.elsewhere (h : Held worker jobId st) (he : Elsewhere jobId st st') :
    Held worker jobId st' where
  status := he.status.trans h.status
  place := (onceAt_congr he.place).mpr h.place

theorem Settled.elsewhere (h : Settled jobId st) (he : Elsewhere jobId st st') :
    Settled jobId st' where
  status := by
    obtain ⟨s, hs, ht⟩ := h.status
    exact ⟨s, he.status.trans hs, ht⟩
  place := (nowhere_congr he.place).mpr h.place

/-- A terminal save settles the job. -/
theorem Held.saved (h : Held worker jobId st) {record : Record}
    (ht : record.status.terminal = true) (ttl : Nat) :
    (saveScript st worker jobId record true ttl).2 = 1 ∧
      Settled jobId (saveScript st worker jobId record true ttl).1 := by
  obtain ⟨e, he, hs⟩ := Option.map_eq_some_iff.mp h.status
  have hlists : (saveScript st worker jobId record true ttl).1.lists =
      drop st.lists (.processing worker) jobId := by
    simp [saveScript, he]
  refine ⟨by simp [saveScript, he], ⟨record.status, ?_, ht⟩, fun key => ?_⟩
  · simp [statusOf, saveScript, he]
  · rw [hlists]
    by_cases hkey : key = .processing worker
    · subst hkey
      rw [occ_drop_self, h.place.1]
    · rw [occ_drop, h.place.2 key hkey]
      exact Nat.zero_sub _

end Store

/-! ## What can be written -/

/-- The payload of these arguments can be serialised. -/
def Pool.Representable (pool : Pool Value) (args : Args Value) : Prop :=
  ∃ blob, pool.serializer.dumpsPayload args = .ok blob

/-- `str()` of the exception does not raise. -/
def Raised.Printable (e : Raised) : Prop := ∃ text, e.text = some text

/-- What came of a body can be recorded: a value, unless the error of its serialisation
cannot be printed, or an `Exception` that can. -/
def Pool.Writable (pool : Pool Value) : Except Exc Value → Prop
  | .ok v => ∀ e, pool.serializer.dumps v = .error e → e.Printable
  | .error (.raised e) => e.Printable
  | .error _ => False

section Records

variable {S : Serializer Value} {job : Job Value} {args : Args Value}

/-- The payload comes first. -/
theorem toRecord_error {e : Raised} (h : S.dumpsPayload args = .error e) :
    toRecord S job args = .error e := by
  simp only [toRecord, h]
  rfl

theorem toRecord_result_error {blob : Blob} {e : Raised} (h : S.dumpsPayload args = .ok blob)
    (hs : job.status = .completed) (he : S.dumps job.result = .error e) :
    toRecord S job args = .error e := by
  simp only [toRecord, h, hs, he]
  rfl

theorem toRecord_completed {blob blob' : Blob} (h : S.dumpsPayload args = .ok blob)
    (hs : job.status = .completed) (hr : S.dumps job.result = .ok blob') :
    ∃ record, toRecord S job args = .ok record ∧ record.status = .completed := by
  simp only [toRecord, h, hs, hr]
  exact ⟨_, rfl, rfl⟩

theorem toRecord_of_not_completed {blob : Blob} (h : S.dumpsPayload args = .ok blob)
    (hs : job.status ≠ .completed) :
    ∃ record, toRecord S job args = .ok record ∧ record.status = job.status := by
  simp only [toRecord, h, hs]
  exact ⟨_, rfl, rfl⟩

end Records

/-- The body leaves what the loop can write: no `BaseExceptionGroup`, nothing that cannot be
recorded, arguments that are representable. What it does once the loop's task is cancelled
matters if that can be. -/
structure Benign (pool : Pool Value) (setting : Setting Value) (c : Conduct Value) : Prop where
  ends : ∀ r args, c.ends r args →
    pool.Representable args ∧ (r = .error .cancelled ∨ pool.Writable r)
  unwinds : ∀ r args, c.unwinds r args → pool.Representable args ∧
    (setting.cancels = true → r = .error .cancelled ∨ pool.Writable r)
  mutates : ∀ args, c.mutates args → pool.Representable args

theorem Benign.left (h : Benign pool setting w.conduct) (hw : pool.Representable w.args)
    (hl : Left w w') : pool.Representable w'.args := by
  rcases hl with hargs | hm | ⟨r, he | hu⟩
  · rw [hargs]
    exact hw
  · exact h.mutates _ hm
  · exact (h.ends r _ he).1
  · exact (h.unwinds r _ hu).1

/-! ## The state of a delivery -/

/-- What a delivery carries along until its lease is handed back; its arguments stay
representable. -/
structure Carries (pool : Pool Value) (w w' : World Value) : Prop where
  jobId : w'.jobId = w.jobId
  conduct : w'.conduct = w.conduct
  released : w'.released = w.released
  early : w'.early = w.early
  done : ∀ task, w.isDone task = true → w'.isDone task = true
  noBody : w.body = .absent → w'.body = .absent
  noWatcher : w.watcher = .absent → w'.watcher = .absent
  args : pool.Representable w.args → pool.Representable w'.args

theorem Carries.trans (h : Carries pool w w') (h' : Carries pool w' w'') : Carries pool w w'' where
  jobId := h'.jobId.trans h.jobId
  conduct := h'.conduct.trans h.conduct
  released := h'.released.trans h.released
  early := h'.early.trans h.early
  done task hd := h'.done task (h.done task hd)
  noBody hb := h'.noBody (h.noBody hb)
  noWatcher hw := h'.noWatcher (h.noWatcher hw)
  args hr := h'.args (h.args hr)

/-- No body runs, or a benign one. -/
def Safe (pool : Pool Value) (setting : Setting Value) (w : World Value) : Prop :=
  Benign pool setting w.conduct ∨ w.body = .absent

theorem Safe.carries (h : Safe pool setting w) (hk : Carries pool w w') : Safe pool setting w' := by
  rcases h with hc | hbody
  · left
    rw [hk.conduct]
    exact hc
  · exact Or.inr (hk.noBody hbody)

theorem Drift.carries (h : Drift w w') (hc : Safe pool setting w) : Carries pool w w' where
  jobId := h.jobId
  conduct := h.conduct
  released := h.released
  early := h.early
  done _ hd := h.isDone hd
  noBody hb := by
    have hstep := h.body
    rw [hb] at hstep
    exact hstep.of_absent
  noWatcher hw := by
    have hstep := h.watcher
    rw [hw] at hstep
    exact hstep.of_absent
  args hr := by
    rcases hc with hc | hbody
    · rcases h.body.args_left with hargs | hleft
      · rw [hargs]
        exact hr
      · exact hc.left hr (Or.inr hleft)
    · have hstep := h.body
      rw [hbody] at hstep
      rw [hstep.args_of_absent]
      exact hr

/-- The lease is held, and nothing was saved. -/
structure Open (pool : Pool Value) (w : World Value) : Prop where
  held : Held pool.worker w.jobId w.store
  saves : w.saves = 0

/-- The job was settled by the one save. -/
structure Closed (w : World Value) : Prop where
  settled : Settled w.jobId w.store
  saves : w.saves = 1

theorem Open.keeps (h : Open pool w) (hk : Keeps w w') : Open pool w' where
  held := hk.jobId ▸ h.held.elsewhere hk.store
  saves := hk.saves.trans h.saves

theorem Closed.keeps (h : Closed w) (hk : Keeps w w') : Closed w' where
  settled := hk.jobId ▸ h.settled.elsewhere hk.store
  saves := hk.saves.trans h.saves

/-- A terminal save that nobody keeps from its effect settles the job. -/
theorem Open.saved (h : Open pool w) {record : Record} (ht : record.status.terminal = true) :
    (pool.saved w.jobId record w).1 = .ok () ∧ Closed (pool.saved w.jobId record w).2 := by
  obtain ⟨hcode, hsettled⟩ := h.held.saved ht pool.resultTtl
  constructor
  · simp [Pool.saved, hcode]
  · refine ⟨hsettled, ?_⟩
    show w.saves + (saveScript w.store pool.worker w.jobId record true pool.resultTtl).2.toNat = 1
    rw [hcode, h.saves]
    rfl

/-! ## A save -/

theorem carries_saved (jobId : JobId) (record : Record) (w : World Value) :
    Carries pool w (pool.saved jobId record w).2 :=
  ⟨rfl, rfl, rfl, rfl, fun task hd => by cases task <;> exact hd, id, id, id⟩

theorem carries_stop (w : World Value) : Carries pool w w.stop :=
  ⟨rfl, rfl, rfl, rfl, fun task hd => by cases task <;> exact hd, id, id, id⟩

theorem TaskState.cancel_absent {α : Type} {t : TaskState α} (h : t = .absent) :
    t.cancel = .absent := by
  rw [h]
  rfl

theorem carries_cancel (w : World Value) (tasks : List TaskName) :
    Carries pool w (w.cancel tasks) := by
  refine ⟨rfl, rfl, rfl, rfl, fun task hd => isDone_cancel w _ task hd, fun hb => ?_, fun hw => ?_,
    id⟩
  · show (if _ then w.body.cancel else w.body) = .absent
    rw [TaskState.cancel_absent hb, hb, ite_self]
  · show (if _ then w.watcher.cancel else w.watcher) = .absent
    rw [TaskState.cancel_absent hw, hw, ite_self]

/-- How an attempt to write can end: it took effect, or the loop's task was cancelled, and
it took effect or not. -/
def Wrote (pool : Pool Value) (setting : Setting Value) (r : Except Exc Unit) (w : World Value) :
    Prop :=
  (r = .ok () ∧ Closed w) ∨
    (setting.cancels = true ∧ r = .error .cancelled ∧ (Open pool w ∨ Closed w))

theorem calls_saved {r : Except Exc Unit} (hopen : Open pool w) (hfaults : setting.faults = false)
    (hc : Safe pool setting w) (ht : record.status.terminal = true)
    (h : setting.calls (pool.saved w.jobId record) w r w') :
    Carries pool w w' ∧ Wrote pool setting r w' := by
  obtain ⟨t, hd, hcases⟩ := h
  have ht_open := hopen.keeps hd.keeps
  have ht_carries := hd.carries hc
  obtain ⟨hok, hclosed⟩ := ht_open.saved ht
  rw [hd.jobId] at hok hclosed
  have hsaved : Carries pool w (pool.saved w.jobId record t).2 :=
    ht_carries.trans (carries_saved _ _ t)
  have hbenign := hc.carries hsaved
  rcases hcases with ⟨rfl, hd'⟩ | ⟨hfault, -⟩ | ⟨hcancels, rfl, u, hu, rfl⟩
  · exact ⟨hsaved.trans (hd'.carries hbenign), Or.inl ⟨hok, hclosed.keeps hd'.keeps⟩⟩
  · rw [hfaults] at hfault
    cases hfault
  · rcases hu with rfl | hd'
    · exact ⟨ht_carries.trans (carries_stop _),
        Or.inr ⟨hcancels, rfl, Or.inl (ht_open.keeps (keeps_stop _))⟩⟩
    · exact ⟨(hsaved.trans (hd'.carries hbenign)).trans (carries_stop _),
        Or.inr ⟨hcancels, rfl, Or.inr ((hclosed.keeps hd'.keeps).keeps (keeps_stop _))⟩⟩

/-- A record that can be serialised is written. -/
theorem save_ok {record : Record} (hopen : Open pool w) (hfaults : setting.faults = false)
    (hc : Safe pool setting w) (hid : f.job.id = w.jobId)
    (hrecord : toRecord pool.serializer f.job w.args = .ok record)
    (ht : record.status.terminal = true) :
    pool.save.wp (env pool setting)
      (fun r f' w' => f' = f ∧ Carries pool w w' ∧ Wrote pool setting r w') f w := by
  rw [wp_save, hrecord, hid]
  exact fun r t h => ⟨rfl, calls_saved hopen hfaults hc ht h⟩

/-- A record without a result depends on the arguments only. -/
theorem save_spec (hopen : Open pool w) (hfaults : setting.faults = false)
    (hc : Safe pool setting w) (hid : f.job.id = w.jobId)
    (hargs : pool.Representable w.args) (hs : f.job.status ≠ .completed)
    (ht : f.job.status.terminal = true) :
    pool.save.wp (env pool setting)
      (fun r f' w' => f' = f ∧ Carries pool w w' ∧ Wrote pool setting r w') f w := by
  obtain ⟨blob, hblob⟩ := hargs
  obtain ⟨record, hrecord, hstatus⟩ := toRecord_of_not_completed hblob hs
  exact save_ok hopen hfaults hc hid hrecord (hstatus ▸ ht)

/-- The handler of `Exception` writes the failure. -/
theorem failed_spec {e : Raised} (hopen : Open pool w) (hfaults : setting.faults = false)
    (hc : Safe pool setting w) (hid : f.job.id = w.jobId)
    (hargs : pool.Representable w.args) (he : e.Printable) :
    (pool.failed (.raised e)).wp (env pool setting)
      (fun r f' w' =>
        f'.pending = f.pending ∧ Carries pool w w' ∧ Wrote pool setting r w') f w := by
  obtain ⟨text, htext⟩ := he
  simp only [Pool.failed, setJob, str, htext, wp_bind, wp_lift, wp_assign, upon_ok]
  refine wp_mono (save_spec hopen hfaults hc ?_ hargs ?_ ?_) fun r f' w' h => ?_
  · exact hid
  · simp
  · rfl
  · obtain ⟨rfl, hrest⟩ := h
    exact ⟨rfl, hrest⟩

/-! ## The `try` statement -/

/-- A body may end in `CancelledError` by itself. -/
def Conduct.SelfCancels (c : Conduct Value) : Prop := ∃ args, c.ends (.error .cancelled) args

/-- How a delivery can end: its one save has settled the job, or a `CancelledError` leaves
it, from the loop's own cancellation or from the body, if that `can` be. -/
def Concluded (pool : Pool Value) (setting : Setting Value) (can : Prop)
    (r : Except Exc Unit) (w : World Value) : Prop :=
  (r = .ok () ∧ Closed w) ∨
    (r = .error .cancelled ∧ (setting.cancels = true ∨ can) ∧ (Open pool w ∨ Closed w))

theorem Wrote.concluded {r : Except Exc Unit} (h : Wrote pool setting r w) (can : Prop) :
    Concluded pool setting can r w := by
  rcases h with h | ⟨hcancels, hr, hw⟩
  · exact Or.inl h
  · exact Or.inr ⟨hr, Or.inl hcancels, hw⟩

theorem Attending.carries {pending : List TaskName} (h : Attending w pending w')
    (hc : Benign pool setting w.conduct) (hbody : w.body = .running false)
    (hwatcher : w.watcher = .running false) : Carries pool w w' where
  jobId := h.keeps.jobId
  conduct := h.keeps.conduct
  released := h.keeps.released
  early := h.keeps.early
  done task hd := by
    cases task with
    | job =>
      have hdone : w.body.isDone = true := hd
      rw [hbody] at hdone
      cases hdone
    | watcher =>
      have hdone : w.watcher.isDone = true := hd
      rw [hwatcher] at hdone
      cases hdone
  noBody hb := by
    rw [hbody] at hb
    cases hb
  noWatcher hw := by
    rw [hwatcher] at hw
    cases hw
  args hargs := hc.left hargs h.left

theorem Covers.carries {pending : List TaskName} (h : Covers pending w) (hk : Carries pool w w') :
    Covers pending w' := fun task hn => hk.done task (h task hn)

/-- What the loop learns of a benign body can be recorded, or is a `CancelledError`. -/
theorem Benign.ended (hc : Benign pool setting w.conduct) {r : Except Exc Value}
    (h : Ended setting w w' r) : r = .error .cancelled ∨ pool.Writable r := by
  rcases h with hends | ⟨hcancels, -, hunwinds | hcancelled⟩
  · exact (hc.ends _ _ hends).2
  · exact (hc.unwinds _ _ hunwinds).2 hcancels
  · exact Or.inl hcancelled

/-- The `try` and `except` clauses write what came of the body. -/
theorem tried_spec (hbody : w.body = .running false) (hwatcher : w.watcher = .running false)
    (hpending : f.pending = [.job, .watcher]) (hopen : Open pool w)
    (hfaults : setting.faults = false) (hc : Benign pool setting w.conduct)
    (hid : f.job.id = w.jobId) (hargs : pool.Representable w.args) :
    (tryExcept (do attend; pool.save) pool.failed).wp (env pool setting)
      (fun r f' w' => Covers f'.pending w' ∧ Carries pool w w' ∧
        Concluded pool setting w.conduct.SelfCancels r w') f w := by
  simp only [wp_tryExcept, wp_bind]
  refine wp_mono (attend_spec hbody hwatcher hpending) ?_
  rintro r₁ f₁ w₁ ⟨hatt, hattended⟩
  have hopen₁ := hopen.keeps hatt.keeps
  have hcarries₁ := hatt.carries hc hbody hwatcher
  have hargs₁ := hc.left hargs hatt.left
  have hc₁ : Safe pool setting w₁ := (show Safe pool setting w from Or.inl hc).carries hcarries₁
  -- a write of this frame, once the `try` block is over
  have hwrote : ∀ (r : Except Exc Unit) (f' : Frame Value) (w' : World Value),
      f'.pending = f₁.pending ∧ Carries pool w₁ w' ∧ Wrote pool setting r w' →
      Covers f'.pending w' ∧ Carries pool w w' ∧
        Concluded pool setting w.conduct.SelfCancels r w' := by
    rintro r f' w' ⟨hpending', hcarries, hw⟩
    exact ⟨hpending' ▸ hatt.covers.carries hcarries, hcarries₁.trans hcarries, hw.concluded _⟩
  have hsaved : ∀ (r : Except Exc Unit) (f' : Frame Value) (w' : World Value),
      f' = f₁ ∧ Carries pool w₁ w' ∧ Wrote pool setting r w' →
      upon (fun a => Covers f'.pending w' ∧ Carries pool w w' ∧
          Concluded pool setting w.conduct.SelfCancels (.ok a) w')
        (fun e => (pool.failed e).wp (env pool setting) (fun r f' w' => Covers f'.pending w' ∧
          Carries pool w w' ∧ Concluded pool setting w.conduct.SelfCancels r w') f' w') r := by
    rintro r f' w' ⟨rfl, hcarries, hw⟩
    have hres := hwrote r f' w' ⟨rfl, hcarries, hw⟩
    rcases hw with ⟨rfl, -⟩ | ⟨-, rfl, -⟩
    · exact hres
    · exact hres
  have hid₁ : f.job.id = w₁.jobId := hid.trans hcarries₁.jobId.symm
  cases hattended with
  | @returned v pending _ hdone hended =>
    have hwritable : pool.Writable (.ok v) := (hc.ended hended).resolve_left (by simp)
    rw [upon_ok]
    obtain ⟨blob, hblob⟩ := hargs₁
    cases hresult : pool.serializer.dumps v with
    | ok blob' =>
      have hdumped : ∃ record, toRecord pool.serializer
          { f.job with result := v, status := .completed } w₁.args = .ok record ∧
            record.status = .completed := toRecord_completed hblob rfl hresult
      obtain ⟨record, hrecord, hstatus⟩ := hdumped
      exact wp_mono (save_ok hopen₁ hfaults hc₁ hid₁ hrecord (by rw [hstatus]; rfl)) hsaved
    | error e =>
      -- the first save raises, and the handler writes the failure
      rw [wp_save, toRecord_result_error hblob rfl hresult, upon_error, upon_error]
      exact wp_mono (failed_spec hopen₁ hfaults hc₁ hid₁ ⟨blob, hblob⟩ (hwritable e hresult)) hwrote
  | abandoned =>
    rw [upon_ok]
    exact wp_mono (save_spec hopen₁ hfaults hc₁ hid₁ hargs₁ (by simp) rfl) hsaved
  | @raised e pending _ hdone hended =>
    rw [upon_error]
    rcases hc.ended hended with hcancelled | hwritable
    · cases hcancelled
      refine ⟨hatt.covers, hcarries₁, Or.inr ⟨rfl, ?_, Or.inl hopen₁⟩⟩
      rcases hended with hends | ⟨hcancels, -⟩
      · exact Or.inr ⟨_, hends⟩
      · exact Or.inl hcancels
    · cases e with
      | raised e =>
        refine wp_mono (failed_spec (f := ⟨f.job, pending⟩) hopen₁ hfaults hc₁ ?_ hargs₁ hwritable)
          hwrote
        exact hid₁
      | cancelled => exact hwritable.elim
      | group => exact hwritable.elim
  | interrupted hcancels hstop =>
    rw [upon_error]
    exact ⟨hatt.covers, hcarries₁, Or.inr ⟨rfl, Or.inl hcancels, Or.inl hopen₁⟩⟩

/-- Neither task runs. -/
structure Quiet (w : World Value) : Prop where
  body : w.body.isRunning = false
  watcher : w.watcher.isRunning = false

theorem TaskState.not_running_of_done {α : Type} {t : TaskState α} (h : t.isDone = true) :
    t.isRunning = false := by
  cases t with
  | done => rfl
  | absent | running => cases h

theorem quiet_of_done (h : ∀ task, w.isDone task = true) : Quiet w where
  body := TaskState.not_running_of_done (h .job)
  watcher := TaskState.not_running_of_done (h .watcher)

theorem Concluded.keeps {can : Prop} {r : Except Exc Unit} (h : Concluded pool setting can r w)
    (hk : Keeps w w') : Concluded pool setting can r w' := by
  rcases h with ⟨hr, hclosed⟩ | ⟨hr, hwhy, hw⟩
  · exact Or.inl ⟨hr, hclosed.keeps hk⟩
  · exact Or.inr ⟨hr, hwhy, hw.imp (fun h => h.keeps hk) fun h => h.keeps hk⟩

/-- The `finally` clause waits for the tasks that are left. -/
theorem cleanup_spec {can : Prop} {r : Except Exc Unit} (hcovers : Covers f.pending w)
    (hc : Safe pool setting w) (h : Concluded pool setting can r w) :
    cleanup.wp (env pool setting) (fun r' _ w' =>
      upon (fun _ => Quiet w' ∧ Carries pool w w' ∧ Concluded pool setting can r w')
        (fun e => Quiet w' ∧ Carries pool w w' ∧ Concluded pool setting can (.error e) w') r')
      f w := by
  rw [wp_cleanup]
  intro r' t hgather
  change if f.pending = [] then _ else _ at hgather
  have hcancelled : Carries pool w (w.cancel f.pending) :=
    carries_cancel w f.pending
  split at hgather
  case isTrue hnil =>
    obtain ⟨rfl, rfl⟩ := hgather
    refine ⟨quiet_of_done fun task => ?_, hcancelled, h.keeps (keeps_cancel w _)⟩
    exact isDone_cancel w _ task (hcovers task (by simp [hnil]))
  case isFalse =>
    obtain ⟨u, hd, hdone, hres⟩ := hgather
    have hcarries : Carries pool w u := hcancelled.trans (hd.carries (hc.carries hcancelled))
    have hconcluded := h.keeps ((keeps_cancel w f.pending).trans hd.keeps)
    have hall : ∀ task, u.isDone task = true := by
      intro task
      by_cases hm : task ∈ f.pending
      · exact hdone task hm
      · exact hcarries.done task (hcovers task hm)
    rcases hres with ⟨rfl, rfl⟩ | ⟨hcancels, rfl, rfl⟩
    · exact ⟨quiet_of_done hall, hcarries, hconcluded⟩
    · refine ⟨quiet_of_done fun task => ?_, hcarries.trans (carries_stop u), ?_⟩
      · have hstop : Carries pool u u.stop := carries_stop u
        exact hstop.done task (hall task)
      · refine Or.inr ⟨rfl, Or.inl hcancels, ?_⟩
        rcases hconcluded.keeps (keeps_stop u) with ⟨-, hclosed⟩ | ⟨-, -, hw⟩
        · exact Or.inr hclosed
        · exact hw

theorem guarded_spec (hbody : w.body = .running false) (hwatcher : w.watcher = .running false)
    (hpending : f.pending = [.job, .watcher]) (hopen : Open pool w)
    (hfaults : setting.faults = false) (hc : Benign pool setting w.conduct)
    (hid : f.job.id = w.jobId) (hargs : pool.Representable w.args) :
    pool.guarded.wp (env pool setting) (fun r _ w' => Quiet w' ∧ Carries pool w w' ∧
      Concluded pool setting w.conduct.SelfCancels r w') f w := by
  simp only [Pool.guarded, wp_tryFinally]
  refine wp_mono (tried_spec hbody hwatcher hpending hopen hfaults hc hid hargs) ?_
  rintro r f' w' ⟨hcovers, hcarries, hconcluded⟩
  have hc' : Safe pool setting w' := (show Safe pool setting w from Or.inl hc).carries hcarries
  refine wp_mono (cleanup_spec hcovers hc' hconcluded) fun r' f'' w'' h => ?_
  cases r' with
  | ok a => exact ⟨h.1, hcarries.trans h.2.1, h.2.2⟩
  | error e => exact ⟨h.1, hcarries.trans h.2.1, h.2.2⟩

/-! ## A delivery -/

/-- The world when `claim` has returned `record`. -/
structure Claimed (pool : Pool Value) (record : Record) (w : World Value) : Prop where
  jobId : w.jobId = record.id
  held : Held pool.worker record.id w.store
  body : w.body = .absent
  watcher : w.watcher = .absent
  saves : w.saves = 0
  released : w.released = false
  early : w.early = false

theorem fromRecord_ok {S : Serializer Value} {job : Job Value} {args : Args Value}
    (h : fromRecord S record = .ok (job, args)) :
    job.id = record.id ∧ ∃ blob, S.dumpsPayload args = .ok blob := by
  unfold fromRecord at h
  cases hp : S.loadsPayload record.payload with
  | error e =>
    rw [hp] at h
    cases h
  | ok args' =>
    rw [hp] at h
    cases hr : record.result with
    | none =>
      simp only [hr, bind, Except.bind, pure, Except.pure, Except.ok.injEq, Prod.mk.injEq] at h
      obtain ⟨rfl, rfl⟩ := h
      exact ⟨rfl, S.lawful hp⟩
    | some raw =>
      cases hl : S.loads raw with
      | error e => simp [hr, hl, bind, Except.bind] at h
      | ok v =>
        simp only [hr, hl, bind, Except.bind, pure, Except.pure, Except.ok.injEq,
          Prod.mk.injEq] at h
        obtain ⟨rfl, rfl⟩ := h
        exact ⟨rfl, S.lawful hp⟩

/-- What `_process` leaves behind. -/
structure Processed (pool : Pool Value) (setting : Setting Value) (record : Record)
    (can : Prop) (r : Except Exc Unit) (w : World Value) : Prop where
  quiet : Quiet w
  jobId : w.jobId = record.id
  released : w.released = false
  early : w.early = false
  concluded : Concluded pool setting can r w

/-- **A delivery whose body is benign, or that starts none**, is written once, or leaves with
a `CancelledError`. -/
theorem process_spec (hw : Claimed pool record w) (hfaults : setting.faults = false)
    {job : Job Value} {args : Args Value}
    (hdecodes : fromRecord pool.serializer record = .ok (job, args))
    (hc : job.requestCancel = false → pool.registry job.taskName = true →
      "self" ∉ args.kwargs.map Prod.fst ∧ Benign pool setting w.conduct) :
    (pool.process record).wp (env pool setting)
      (fun r _ w' => Processed pool setting record
        (job.requestCancel = false ∧ pool.registry job.taskName = true ∧ w.conduct.SelfCancels)
        r w') f w := by
  obtain ⟨hid, hargs⟩ := fromRecord_ok hdecodes
  have hopen : Open pool { w with args := args } :=
    ⟨show Held pool.worker w.jobId w.store from hw.jobId ▸ hw.held, hw.saves⟩
  have hid' : job.id = w.jobId := hid.trans hw.jobId.symm
  -- the early saves: there are no tasks
  have hearly : ∀ (can : Prop) (r : Except Exc Unit) (w' : World Value),
      Carries pool { w with args := args } w' → Wrote pool setting r w' →
      Processed pool setting record can r w' := by
    intro can r w' hcarries hwrote
    refine ⟨⟨?_, ?_⟩, hcarries.jobId.trans hw.jobId, hcarries.released.trans hw.released,
      hcarries.early.trans hw.early, hwrote.concluded _⟩
    · rw [hcarries.noBody hw.body]
      rfl
    · rw [hcarries.noWatcher hw.watcher]
      rfl
  rw [wp_process, hdecodes, upon_ok, wp_run]
  split
  case isTrue =>
    refine wp_mono (save_spec hopen hfaults (Or.inr hw.body) hid' hargs (by simp) rfl) ?_
    exact fun r f' w' h => hearly _ r w' h.2.1 h.2.2
  case isFalse hwanted =>
    rw [Bool.not_eq_true] at hwanted
    split
    case isTrue hregistered =>
      obtain ⟨hbinds, hbenign⟩ := hc hwanted hregistered
      rw [if_neg hbinds]
      refine wp_mono (guarded_spec rfl rfl rfl ⟨hopen.held, hopen.saves⟩ hfaults hbenign hid' hargs)
        ?_
      rintro r f' w' ⟨hquiet, hcarries, hconcluded⟩
      refine ⟨hquiet, hcarries.jobId.trans hw.jobId, hcarries.released.trans hw.released,
        hcarries.early.trans hw.early, ?_⟩
      rcases hconcluded with hok | ⟨hr, hwhy, hstate⟩
      · exact Or.inl hok
      · exact Or.inr ⟨hr, hwhy.imp_right fun hself => ⟨hwanted, hregistered, hself⟩, hstate⟩
    case isFalse =>
      refine wp_mono (save_spec hopen hfaults (Or.inr hw.body) hid' hargs (by simp) rfl) ?_
      exact fun r f' w' h => hearly _ r w' h.2.1 h.2.2

/-! ## Deliveries that strand the job

An exception that is no `CancelledError` leaves the `try` statement, and nothing was
written. -/

/-- Nothing was written or released since `w`. -/
structure Untouched (w w' : World Value) : Prop where
  store : w'.store = w.store
  jobId : w'.jobId = w.jobId
  saves : w'.saves = w.saves
  released : w'.released = w.released

/-- The handler cannot write the failure: the exception is no `Exception`, cannot be
printed, or the arguments cannot be represented. -/
theorem failed_strands {e : Exc} (h : (pool.failed e).wp (env pool setting) post f w)
    (hne : e ≠ .cancelled)
    (hnot : ¬ (pool.Representable w.args ∧ pool.Writable (.error e : Except Exc Value))) :
    ∃ e' f', e' ≠ .cancelled ∧ f'.pending = f.pending ∧ post (.error e') f' w := by
  cases e with
  | cancelled => exact (hne rfl).elim
  | group => exact ⟨.group, f, by simp, rfl, h⟩
  | raised e =>
    simp only [Pool.failed, setJob, str, wp_bind, wp_lift, wp_assign] at h
    cases htext : e.text with
    | none =>
      rw [htext] at h
      exact ⟨.raised e, f, by simp, rfl, h⟩
    | some text =>
      rw [htext] at h
      simp only [upon_ok] at h
      cases hp : pool.serializer.dumpsPayload w.args with
      | ok blob => exact (hnot ⟨⟨blob, hp⟩, text, htext⟩).elim
      | error e' =>
        rw [wp_save, toRecord_error hp] at h
        refine ⟨.raised e', _, by simp, ?_, h⟩
        rfl

/-- The first save raises, and the handler cannot write the failure either. -/
theorem save_strands
    (h : pool.save.wp (env pool setting) (fun r f' w' => upon (fun a => post (.ok a) f' w')
      (fun e => (pool.failed e).wp (env pool setting) post f' w') r) f w)
    (hnot : ¬ pool.Representable w.args ∨ (f.job.status = .completed ∧
      ¬ pool.Writable (.ok f.job.result))) :
    ∃ e' f', e' ≠ .cancelled ∧ f'.pending = f.pending ∧ post (.error e') f' w := by
  rw [wp_save] at h
  cases hp : pool.serializer.dumpsPayload w.args with
  | error e =>
    rw [toRecord_error hp] at h
    refine failed_strands h (by simp) fun hw => ?_
    obtain ⟨blob, hblob⟩ := hw.1
    rw [hp] at hblob
    cases hblob
  | ok blob =>
    obtain ⟨hs, hresult⟩ := hnot.resolve_left fun hnr => hnr ⟨blob, hp⟩
    have hraises : ∃ e, pool.serializer.dumps f.job.result = .error e ∧ ¬ e.Printable := by
      by_contra hnone
      refine hresult fun e he => ?_
      by_contra hprint
      exact hnone ⟨e, he, hprint⟩
    obtain ⟨e, he, hprint⟩ := hraises
    rw [toRecord_result_error hp hs he] at h
    exact failed_strands h (by simp) fun hw => hprint hw.2

/-- A body that ends by itself with something that cannot be written. -/
theorem tried_strands_ends
    (h : (tryExcept (do attend; pool.save) pool.failed).wp (env pool setting) post f w)
    (hbody : w.body = .running false) (hwatcher : w.watcher = .running false)
    {r : Except Exc Value} {args : Args Value} (hr : w.conduct.ends r args)
    (hne : r ≠ .error .cancelled) (hnot : ¬ (pool.Representable args ∧ pool.Writable r)) :
    ∃ e f', e ≠ .cancelled ∧ post (.error e) f' { w with body := .done r, args := args } := by
  simp only [wp_tryExcept, wp_bind] at h
  have hattend := attend_ends h hbody hwatcher hr
  cases r with
  | ok v =>
    rw [upon_ok] at hattend
    obtain ⟨e, f', he, -, hpost⟩ := save_strands hattend (by
      by_cases hargs : pool.Representable args
      · exact Or.inr ⟨rfl, fun hw => hnot ⟨hargs, hw⟩⟩
      · exact Or.inl hargs)
    exact ⟨e, f', he, hpost⟩
  | error e₀ =>
    rw [upon_error, upon_error] at hattend
    obtain ⟨e, f', he, -, hpost⟩ := failed_strands hattend (fun heq => hne (heq ▸ rfl)) hnot
    exact ⟨e, f', he, hpost⟩

/-- A body that, once cancelled, leaves arguments that cannot be represented. -/
theorem tried_strands_abandoned
    (h : (tryExcept (do attend; pool.save) pool.failed).wp (env pool setting) post f w)
    (hbody : w.body = .running false) (hwatcher : w.watcher = .running false)
    {t : TaskState Value} {args : Args Value}
    (hstep : BodyStep w.conduct (.running true) w.args t args) (hnot : ¬ pool.Representable args) :
    ∃ e f', e ≠ .cancelled ∧
      post (.error e) f' { w with body := t, args := args, watcher := .done (.ok ()) } := by
  simp only [wp_tryExcept, wp_bind] at h
  have hattend := attend_abandons h hbody hwatcher hstep
  rw [upon_ok] at hattend
  obtain ⟨e, f', he, -, hpost⟩ := save_strands hattend (Or.inl hnot)
  exact ⟨e, f', he, hpost⟩

/-- The tasks unwind, and the exception leaves. -/
theorem cleanup_strands {e : Exc}
    (h : cleanup.wp (env pool setting)
      (fun r f' w' => upon (fun _ => post (.error e) f' w') (fun e => post (.error e) f' w') r) f w)
    (hbody : w.body.isDone = true ∨ w.body.isRunning = true)
    (hwatcher : w.watcher.isDone = true ∨ w.watcher.isRunning = true) :
    ∃ f' w', post (.error e) f' w' ∧ Untouched w w' :=
  ⟨_, _, cleanup_unwinds h hbody hwatcher, rfl, rfl, rfl, rfl⟩

theorem guarded_strands_ends (h : pool.guarded.wp (env pool setting) post f w)
    (hbody : w.body = .running false) (hwatcher : w.watcher = .running false)
    {r : Except Exc Value} {args : Args Value} (hr : w.conduct.ends r args)
    (hne : r ≠ .error .cancelled) (hnot : ¬ (pool.Representable args ∧ pool.Writable r)) :
    ∃ e f' w', e ≠ .cancelled ∧ post (.error e) f' w' ∧ Untouched w w' := by
  simp only [Pool.guarded, wp_tryFinally] at h
  obtain ⟨e, f', he, hpost⟩ := tried_strands_ends h hbody hwatcher hr hne hnot
  have hrunning : w.watcher.isRunning = true := by
    rw [hwatcher]
    rfl
  obtain ⟨f'', w'', hpost', hu⟩ := cleanup_strands hpost (Or.inl rfl) (Or.inr hrunning)
  exact ⟨e, f'', w'', he, hpost', hu.store, hu.jobId, hu.saves, hu.released⟩

theorem guarded_strands_abandoned (h : pool.guarded.wp (env pool setting) post f w)
    (hbody : w.body = .running false) (hwatcher : w.watcher = .running false)
    {t : TaskState Value} {args : Args Value}
    (hstep : BodyStep w.conduct (.running true) w.args t args) (hnot : ¬ pool.Representable args) :
    ∃ e f' w', e ≠ .cancelled ∧ post (.error e) f' w' ∧ Untouched w w' := by
  simp only [Pool.guarded, wp_tryFinally] at h
  obtain ⟨e, f', he, hpost⟩ := tried_strands_abandoned h hbody hwatcher hstep hnot
  have ht : t.isDone = true ∨ t.isRunning = true := by
    rcases hstep.of_running with rfl | ⟨r, rfl, -⟩
    · exact Or.inr rfl
    · exact Or.inl rfl
  obtain ⟨f'', w'', hpost', hu⟩ := cleanup_strands hpost ht (Or.inl rfl)
  exact ⟨e, f'', w'', he, hpost', hu.store, hu.jobId, hu.saves, hu.released⟩

/-- If no run of the delivery leaves an exception and an untouched job behind, the call can
be made, and the body is benign as long as the loop's task is not cancelled. -/
theorem process_benign (h : (pool.process record).wp (env pool setting) post f w)
    {job : Job Value} {args : Args Value}
    (hstarts : fromRecord pool.serializer record = .ok (job, args))
    (hwanted : job.requestCancel = false) (hregistered : pool.registry job.taskName = true)
    (hpost : ∀ e f' w', e ≠ .cancelled → Untouched w w' → ¬ post (.error e) f' w') :
    "self" ∉ args.kwargs.map Prod.fst ∧
      (∀ r a, w.conduct.ends r a → r ≠ .error .cancelled →
        pool.Representable a ∧ pool.Writable r) ∧
      ∀ t a, BodyStep w.conduct (.running true) args t a → pool.Representable a := by
  rw [wp_process, hstarts, upon_ok, wp_run, if_neg (by simp [hwanted]), if_pos hregistered] at h
  by_cases hbinds : "self" ∈ args.kwargs.map Prod.fst
  · rw [if_pos hbinds] at h
    refine (hpost (.raised bindError) _ _ (by simp) ?_ h).elim
    exact ⟨rfl, rfl, rfl, rfl⟩
  rw [if_neg hbinds] at h
  refine ⟨hbinds, fun r a hr hne => ?_, fun t a hstep => ?_⟩
  · by_contra hnot
    obtain ⟨e, f', w', he, hp, hu⟩ := guarded_strands_ends h rfl rfl hr hne hnot
    exact hpost e f' w' he ⟨hu.store, hu.jobId, hu.saves, hu.released⟩ hp
  · by_contra hnot
    obtain ⟨e, f', w', he, hp, hu⟩ := guarded_strands_abandoned h rfl rfl hstep hnot
    exact hpost e f' w' he ⟨hu.store, hu.jobId, hu.saves, hu.released⟩ hp

/-! ## The terminal write -/

/-- One save took effect, the record is terminal, and the id is off the worker's list. -/
structure WrittenOnce (pool : Pool Value) (jobId : JobId) (w : World Value) : Prop where
  saves : w.saves = 1
  status : ∃ s, statusOf w.store jobId = some s ∧ s.terminal = true
  place : occ w.store.lists jobId (.processing pool.worker) = 0

/-- Whatever comes of the body, by itself or once it was cancelled, it leaves arguments that
can be serialised, also while it runs on; and what it ends in by itself can be recorded. -/
structure Settles (pool : Pool Value) (c : Conduct Value) : Prop where
  ends : ∀ r args, c.ends r args → pool.Representable args ∧ pool.Writable r
  unwinds : ∀ r args, c.unwinds r args → pool.Representable args
  mutates : ∀ args, c.mutates args → pool.Representable args

theorem Settles.benign (h : Settles pool c) (hcancels : setting.cancels = false) :
    Benign pool setting c where
  ends r args hr := ⟨(h.ends r args hr).1, Or.inr (h.ends r args hr).2⟩
  unwinds r args hr := by
    refine ⟨h.unwinds r args hr, fun hc => ?_⟩
    rw [hcancels] at hc
    cases hc
  mutates := h.mutates

/-- **`_process` writes exactly one terminal record and takes the id off the processing
list, whatever the schedule, exactly when** the job starts no body, or the call can be made
and the body leaves representable arguments and something that can be recorded. -/
theorem writes_iff (hw : Claimed pool record w) (hcancels : setting.cancels = false)
    (hfaults : setting.faults = false) {job : Job Value} {args : Args Value}
    (hdecodes : fromRecord pool.serializer record = .ok (job, args)) :
    (∀ r f' w', (pool.process record).Runs (env pool setting) f w r f' w' →
        WrittenOnce pool record.id w') ↔
      (job.requestCancel = false → pool.registry job.taskName = true →
        "self" ∉ args.kwargs.map Prod.fst ∧ Settles pool w.conduct) := by
  constructor
  · intro h hwanted hregistered
    have hwp := wp_iff.mpr h
    have hpost : ∀ w', w'.saves = w.saves → ¬ WrittenOnce pool record.id w' := by
      intro w' hsaves hwritten
      have hone := hwritten.saves
      rw [hsaves, hw.saves] at hone
      cases hone
    obtain ⟨hbinds, hends, habandoned⟩ := process_benign hwp hdecodes hwanted hregistered
      fun e f' w' _ hu => hpost w' hu.saves
    refine ⟨hbinds, fun r a hr => hends r a hr ?_, fun r a hr => ?_, fun a ha => ?_⟩
    · -- the body's `CancelledError` leaves `_process` without a save
      rintro rfl
      rw [wp_process, hdecodes, upon_ok, wp_run, if_neg (by simp [hwanted]), if_pos hregistered,
        if_neg hbinds] at hwp
      have hpass := guarded_passes hwp rfl rfl hr (Or.inl rfl)
      refine hpost _ ?_ hpass
      rfl
    · exact habandoned (.done r) a (.unwinds _ r a hr)
    · exact habandoned (.running true) a (.goesOn true _ a ha)
  · intro hc r f' w' hrun
    have hdone := wp_iff.mp (process_spec hw hfaults hdecodes fun hwanted hregistered =>
      ⟨(hc hwanted hregistered).1, (hc hwanted hregistered).2.benign hcancels⟩) r f' w' hrun
    rcases hdone.concluded with ⟨-, hclosed⟩ | ⟨-, hcancel | ⟨hwanted, hregistered, a, hself⟩, -⟩
    · obtain ⟨hsettled, hsaves⟩ := hclosed
      rw [hdone.jobId] at hsettled
      exact ⟨hsaves, hsettled.status, hsettled.place _⟩
    · rw [hcancels] at hcancel
      cases hcancel
    · exact ((hc hwanted hregistered).2.ends _ a hself).2.elim

/-! ## `_process` ends -/

/-- A run of `_save` that leaves the tasks alone. -/
theorem save_runs (h : pool.save.wp (env pool setting) post f w) :
    ∃ r w', post r f w' ∧ w'.body = w.body ∧ w'.watcher = w.watcher := by
  rw [wp_save] at h
  cases hr : toRecord pool.serializer f.job w.args with
  | ok record =>
    rw [hr, upon_ok] at h
    exact ⟨_, _, h _ _ ⟨w, .refl w, Or.inl ⟨rfl, .refl _⟩⟩, rfl, rfl⟩
  | error e =>
    rw [hr, upon_error] at h
    exact ⟨_, _, h, rfl, rfl⟩

theorem failed_runs {e : Exc} (h : (pool.failed e).wp (env pool setting) post f w) :
    ∃ r f' w', post r f' w' ∧ w'.body = w.body ∧ w'.watcher = w.watcher := by
  cases e with
  | cancelled => exact ⟨_, _, _, h, rfl, rfl⟩
  | group => exact ⟨_, _, _, h, rfl, rfl⟩
  | raised e =>
    simp only [Pool.failed, setJob, str, wp_bind, wp_lift, wp_assign] at h
    cases htext : e.text with
    | none =>
      rw [htext] at h
      exact ⟨_, _, _, h, rfl, rfl⟩
    | some text =>
      rw [htext] at h
      obtain ⟨r, w', hsave⟩ := save_runs h
      exact ⟨r, _, w', hsave⟩

theorem tried_runs
    (h : (tryExcept (do attend; pool.save) pool.failed).wp (env pool setting) post f w)
    (hbody : w.body = .running false) (hwatcher : w.watcher = .running false)
    {r : Except Exc Value} {args : Args Value} (hr : w.conduct.ends r args) :
    ∃ r' f' w', post r' f' w' ∧ w'.body = .done r ∧ w'.watcher = w.watcher := by
  simp only [wp_tryExcept, wp_bind] at h
  have hattend := attend_ends h hbody hwatcher hr
  cases r with
  | error e =>
    rw [upon_error, upon_error] at hattend
    exact failed_runs hattend
  | ok v =>
    rw [upon_ok, upon_ok] at hattend
    obtain ⟨r', w', hsave, hb, hv⟩ := save_runs hattend
    cases r' with
    | ok a => exact ⟨_, _, _, hsave, hb, hv⟩
    | error e =>
      obtain ⟨r'', f'', w'', hfailed, hb', hv'⟩ := failed_runs hsave
      exact ⟨r'', f'', w'', hfailed, hb'.trans hb, hv'.trans hv⟩

/-- If the body can end by itself, so can `_process`. -/
theorem process_runs {job : Job Value} {args : Args Value} (hstarts : pool.Starts record job args)
    {r : Except Exc Value} {args' : Args Value} (hr : w.conduct.ends r args') :
    ∃ r f' w', (pool.process record).Runs (env pool setting) f w r f' w' := by
  by_contra hnone
  have h : (pool.process record).wp (env pool setting) (fun _ _ _ => False) f w :=
    wp_iff.mpr fun r f' w' hrun => hnone ⟨r, f', w', hrun⟩
  rw [wp_process, hstarts.decodes, upon_ok, wp_run, if_neg (by simp [hstarts.wanted]),
    if_pos hstarts.registered, if_neg hstarts.binds] at h
  simp only [Pool.guarded, wp_tryFinally] at h
  obtain ⟨r', f', w', hcleanup, hbody, hwatcher⟩ := tried_runs h rfl rfl hr
  refine cleanup_unwinds hcleanup (Or.inl ?_) (Or.inr ?_)
  · rw [hbody]
    rfl
  · rw [hwatcher]
    rfl

/-! ## Two bodies -/

theorem claimed_claimedWorld (c : Conduct Bool) :
    Claimed boolPool claimedRecord (claimedWorld c) where
  jobId := rfl
  held := by
    refine ⟨rfl, rfl, fun key hkey => ?_⟩
    exact occ_push_elsewhere (p := ListKey.processing "w") hkey
  body := rfl
  watcher := rfl
  saves := rfl
  released := rfl
  early := rfl

/-- Nothing is cancelled, and no call fails. -/
def calm : Setting Bool := ⟨false, false, fun _ _ => False⟩

/-- No local variable is assigned yet. -/
def noFrame : Frame Bool := ⟨⟨"", "", "", .created, true, none, 0, false, none⟩, []⟩

/-- A result that cannot be represented is written as a failure. -/
theorem writes_unserializable :
    (∃ r f' w', (boolPool.process claimedRecord).Runs (env boolPool calm) noFrame
      (claimedWorld (.only (.ok false) ⟨[true], []⟩)) r f' w') ∧
    ∀ r f' w', (boolPool.process claimedRecord).Runs (env boolPool calm) noFrame
      (claimedWorld (.only (.ok false) ⟨[true], []⟩)) r f' w' → WrittenOnce boolPool "j" w' := by
  constructor
  · obtain ⟨job, args, hstarts⟩ := starts_claimedRecord
    exact process_runs hstarts ⟨rfl, rfl⟩
  · refine (writes_iff (claimed_claimedWorld _) rfl rfl rfl).mpr fun _ _ => ⟨List.not_mem_nil, ?_⟩
    refine ⟨?_, fun _ _ h => h.elim, fun _ h => h.elim⟩
    rintro r args ⟨rfl, rfl⟩
    refine ⟨⟨[2], rfl⟩, fun e he => ?_⟩
    cases he
    exact ⟨_, rfl⟩

/-- A body that returns a representable value, but has put into its argument list something
that is not, leaves the job as it found it: both saves raise. -/
theorem mutatedArguments_strand :
    ∃ r f' w', (boolPool.process claimedRecord).Runs (env boolPool calm) noFrame
        (claimedWorld (.only (.ok true) ⟨[false], []⟩)) r f' w' ∧
      ¬ WrittenOnce boolPool "j" w' ∧ Held boolPool.worker "j" w'.store := by
  by_contra hnone
  have hwp : (boolPool.process claimedRecord).wp (env boolPool calm)
      (fun _ _ w' => ¬ Untouched (claimedWorld (.only (.ok true) ⟨[false], []⟩)) w') noFrame
      (claimedWorld (.only (.ok true) ⟨[false], []⟩)) := by
    refine wp_iff.mpr fun r f' w' hrun hu => hnone ⟨r, f', w', hrun, fun hwritten => ?_, ?_⟩
    · have hsaves := hwritten.saves
      rw [hu.saves] at hsaves
      cases hsaves
    · rw [hu.store]
      exact (claimed_claimedWorld _).held
  obtain ⟨-, hends, -⟩ := process_benign hwp rfl rfl rfl fun _ _ _ _ hu hnot => hnot hu
  obtain ⟨blob, hblob⟩ := (hends (.ok true) ⟨[false], []⟩ ⟨rfl, rfl⟩ (by simp)).1
  cases hblob

end TaskQueue.Worker.Process
