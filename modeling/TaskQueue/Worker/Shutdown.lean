import TaskQueue.Worker.TerminalWrite

/-!
# Stopping a loop (`Worker._worker_loop`, `drain`, `__aexit__`)

The loop's task may be cancelled at every `await` that it reaches after `claim` has returned,
and as often as one likes: in the first wait, the unwatched wait, the unwinding wait, the
saves, the final `gather` and the release. `handsOver_iff` says when every such run leaves
the job in order (`Clean`): no task of the delivery runs any more, the release was not
issued while the body ran, and the job is settled, back on the queue, or its release is on
the way.
-/

namespace TaskQueue.Worker.Process

open Redis Placement Routine

variable {Value : Type} {pool : Pool Value} {setting : Setting Value} {f : Frame Value}
  {w w' w'' : World Value} {post : Except Exc Unit → Frame Value → World Value → Prop}
  {c : Conduct Value} {record : Record}

/-! ## The lease -/

/-- The job is QUEUED, and on the queue once. -/
structure Requeued (jobId : JobId) (st : Store) : Prop where
  status : statusOf st jobId = some .queued
  place : OnceAt st.lists jobId .queue

section Store

variable {worker : InstanceId} {jobId : JobId} {st st' : Store}

theorem Requeued.elsewhere (h : Requeued jobId st) (he : Elsewhere jobId st st') :
    Requeued jobId st' where
  status := he.status.trans h.status
  place := (onceAt_congr he.place).mpr h.place

/-- A release hands the lease back. -/
theorem Held.released (h : Held worker jobId st) :
    Requeued jobId (releaseScript st worker jobId).1 := by
  obtain ⟨e, he, hs⟩ := Option.map_eq_some_iff.mp h.status
  have hs' : e.record.status = .running := hs
  have hlists : (releaseScript st worker jobId).1.lists =
      push (drop st.lists (.processing worker) jobId) .queue jobId := by
    simp [releaseScript, he, hs']
  constructor
  case status => simp [statusOf, releaseScript, he, hs']
  case place =>
    rw [hlists]
    constructor
    · rw [occ_push_self, occ_drop, h.place.2 _ (by simp), Nat.zero_sub]
    · intro key hkey
      rw [occ_push_elsewhere hkey]
      by_cases hp : key = .processing worker
      · subst hp
        rw [occ_drop_self, h.place.1]
      · rw [occ_drop, h.place.2 key hp]
        exact Nat.zero_sub _

/-- A release of a job that is not RUNNING does nothing. -/
theorem released_of_not_running (h : statusOf st jobId ≠ some .running) (worker : InstanceId) :
    (releaseScript st worker jobId).1 = st := by
  cases he : st.jobs jobId with
  | none => simp [releaseScript, he]
  | some e =>
    have hne : e.record.status ≠ .running := by
      intro hrun
      refine h ?_
      simp [statusOf, he, hrun]
    simp [releaseScript, he, hne]

theorem Settled.not_running (h : Settled jobId st) : statusOf st jobId ≠ some .running := by
  obtain ⟨s, hs, ht⟩ := h.status
  rw [hs]
  rintro heq
  cases heq
  cases ht

theorem Requeued.not_running (h : Requeued jobId st) : statusOf st jobId ≠ some .running := by
  rw [h.status]
  simp

end Store

/-! ## Handing over -/

/-- The delivery is over, and the job in order. -/
structure Clean (pool : Pool Value) (jobId : JobId) (w : World Value) : Prop where
  quiet : Quiet w
  notEarly : w.early = false
  place : (Settled jobId w.store ∧ w.saves = 1) ∨ Requeued jobId w.store ∨
    (w.released = true ∧ Held pool.worker jobId w.store)

/-- The body, by itself or cancelled, leaves arguments that can be serialised, and ends in
`CancelledError` or in something that can be recorded. -/
structure Orderly (pool : Pool Value) (c : Conduct Value) : Prop where
  ends : ∀ r args, c.ends r args →
    pool.Representable args ∧ (r = .error .cancelled ∨ pool.Writable r)
  unwinds : ∀ r args, c.unwinds r args →
    pool.Representable args ∧ (r = .error .cancelled ∨ pool.Writable r)
  mutates : ∀ args, c.mutates args → pool.Representable args

theorem Orderly.benign (h : Orderly pool c) (setting : Setting Value) : Benign pool setting c where
  ends := h.ends
  unwinds r args hr := ⟨(h.unwinds r args hr).1, fun _ => (h.unwinds r args hr).2⟩
  mutates := h.mutates

theorem TaskState.isRunning_of_step {v v' : TaskState Unit} (h : WatcherStep v v')
    (hv : v.isRunning = false) : v'.isRunning = false := by
  cases h with
  | rests => exact hv
  | _ => cases hv

theorem BodyStep.isRunning {t t' : TaskState Value} {args args' : Args Value}
    (h : BodyStep c t args t' args') (ht : t.isRunning = false) : t'.isRunning = false := by
  cases h with
  | rests => exact ht
  | _ => cases ht

theorem Quiet.drift (h : Quiet w) (hd : Drift w w') : Quiet w' where
  body := hd.body.isRunning h.body
  watcher := TaskState.isRunning_of_step hd.watcher h.watcher

theorem Clean.drift {jobId : JobId} (h : Clean pool jobId w) (hj : w.jobId = jobId)
    (hd : Drift w w') : Clean pool jobId w' where
  quiet := h.quiet.drift hd
  notEarly := hd.early.trans h.notEarly
  place := by
    have helse : Elsewhere jobId w.store w'.store := hj ▸ hd.store
    rcases h.place with ⟨hsettled, hsaves⟩ | hqueued | ⟨hreleased, hheld⟩
    · exact Or.inl ⟨hsettled.elsewhere helse, hd.saves.trans hsaves⟩
    · exact Or.inr (Or.inl (hqueued.elsewhere helse))
    · exact Or.inr (Or.inr ⟨hd.released.trans hreleased, hheld.elsewhere helse⟩)

theorem Clean.stop {jobId : JobId} (h : Clean pool jobId w) : Clean pool jobId w.stop :=
  ⟨⟨h.quiet.body, h.quiet.watcher⟩, h.notEarly, h.place⟩

/-- The release that is issued leaves a clean job clean, and takes effect or not. -/
theorem clean_released {jobId : JobId} (h : Clean pool jobId w) :
    Clean pool jobId (pool.released jobId w).2 where
  quiet := ⟨h.quiet.body, h.quiet.watcher⟩
  notEarly := h.notEarly
  place := by
    have hstore :
        (pool.released jobId w).2.store = (releaseScript w.store pool.worker jobId).1 := rfl
    rw [hstore]
    rcases h.place with ⟨hsettled, hsaves⟩ | hqueued | ⟨-, hheld⟩
    · rw [released_of_not_running hsettled.not_running]
      exact Or.inl ⟨hsettled, hsaves⟩
    · rw [released_of_not_running hqueued.not_running]
      exact Or.inr (Or.inl hqueued)
    · exact Or.inr (Or.inl hheld.released)

/-- The release hands over what a quiet delivery has left. -/
theorem handBack_spec {jobId : JobId} (hquiet : Quiet w) (hj : w.jobId = jobId)
    (hearly : w.early = false) (hfaults : setting.faults = false)
    (hplace : Open pool w ∨ Closed w) :
    (handBack jobId).wp (env pool setting) (fun _ _ w' => Clean pool jobId w') f w := by
  have hissued : Clean pool jobId w.issueRelease := by
    refine ⟨⟨hquiet.body, hquiet.watcher⟩, ?_, ?_⟩
    · show (w.early || w.body.isRunning) = false
      rw [hearly, hquiet.body]
      rfl
    · subst hj
      rcases hplace with hopen | hclosed
      · exact Or.inr (Or.inr ⟨rfl, hopen.held⟩)
      · exact Or.inl ⟨hclosed.settled, hclosed.saves⟩
  rw [wp_handBack]
  rintro r t ⟨u, hd, hcases⟩
  have hu := hissued.drift hj hd
  have huj : u.jobId = jobId := hd.jobId.trans hj
  have heffect := clean_released hu
  rcases hcases with ⟨-, hd'⟩ | ⟨hfault, -⟩ | ⟨-, -, v, hv, rfl⟩
  · exact heffect.drift huj hd'
  · rw [hfaults] at hfault
    cases hfault
  · rcases hv with rfl | hd'
    · exact hu.stop
    · exact (heffect.drift huj hd').stop

/-! ## Deliveries that are not handed over -/

/-- A body that, cancelled with the loop's task in the unwatched wait, ends in something
that cannot be written. -/
theorem guarded_strands_forwarded (h : pool.guarded.wp (env pool setting) post f w)
    (hcancels : setting.cancels = true) (hbody : w.body = .running false)
    (hwatcher : w.watcher = .running false) {r : Except Exc Value} {args : Args Value}
    (hr : w.conduct.unwinds r args) (hne : r ≠ .error .cancelled)
    (hnot : ¬ (pool.Representable args ∧ pool.Writable r)) :
    ∃ e f' w', e ≠ .cancelled ∧ post (.error e) f' w' ∧ Untouched w w' := by
  have htried : ∀ {post : Except Exc Unit → Frame Value → World Value → Prop},
      (tryExcept (do attend; pool.save) pool.failed).wp (env pool setting) post f w →
      ∃ e f', e ≠ .cancelled ∧ post (.error e) f'
        { w with body := .done r, args := args, watcher := .done (.error (.raised ⟨some ""⟩)),
                 stopped := true } := by
    intro post h
    simp only [wp_tryExcept, wp_bind] at h
    have hattend := attend_forwards (e := ⟨some ""⟩) h hcancels hbody hwatcher hr
    cases r with
    | ok v =>
      rw [upon_ok, upon_ok] at hattend
      obtain ⟨e, f', he, -, hpost⟩ := save_strands hattend (by
        by_cases hargs : pool.Representable args
        · exact Or.inr ⟨rfl, fun hw => hnot ⟨hargs, hw⟩⟩
        · exact Or.inl hargs)
      exact ⟨e, f', he, hpost⟩
    | error e₀ =>
      rw [upon_error, upon_error] at hattend
      obtain ⟨e, f', he, -, hpost⟩ := failed_strands hattend (fun heq => hne (heq ▸ rfl)) hnot
      exact ⟨e, f', he, hpost⟩
  simp only [Pool.guarded, wp_tryFinally] at h
  obtain ⟨e, f', he, hpost⟩ := htried h
  obtain ⟨f'', w'', hpost', hu⟩ := cleanup_strands hpost (Or.inl rfl) (Or.inl rfl)
  exact ⟨e, f'', w'', he, hpost', hu.store, hu.jobId, hu.saves, hu.released⟩

/-- Nothing was written or released: the job is still RUNNING, on a list that no loop reads. -/
theorem Claimed.not_clean (hw : Claimed pool record w) (hu : Untouched w w') :
    ¬ Clean pool record.id w' := by
  intro hclean
  rcases hclean.place with ⟨-, hsaves⟩ | hqueued | ⟨hreleased, -⟩
  · rw [hu.saves, hw.saves] at hsaves
    cases hsaves
  · have hstatus := hqueued.status
    rw [hu.store, hw.held.status] at hstatus
    cases hstatus
  · rw [hu.released, hw.released] at hreleased
    cases hreleased

/-- If every run of a delivery is clean, no exception other than a `CancelledError` leaves
`_process` with the job untouched: the loop releases nothing then. -/
theorem process_of_handle (hw : Claimed pool record w)
    (h : (pool.handle record).wp (env pool setting) (fun _ _ w' => Clean pool record.id w') f w) :
    ∃ post, (pool.process record).wp (env pool setting) post f w ∧
      ∀ e f' w', e ≠ .cancelled → Untouched w w' → ¬ post (.error e) f' w' := by
  simp only [Pool.handle, wp_tryExcept] at h
  refine ⟨_, h, fun e f' w' hne hu hclean => ?_⟩
  cases e with
  | cancelled => exact hne rfl
  | raised e => exact hw.not_clean hu hclean
  | group => exact hw.not_clean hu hclean

/-- **Every run of a delivery, cancelled wherever and however often, hands its job over
cleanly, exactly when** the record decodes and the job starts no body, or the call can be
made and the body is orderly. -/
theorem handsOver_iff (hw : Claimed pool record w) (hcancels : setting.cancels = true)
    (hfaults : setting.faults = false) :
    (∀ r f' w', (pool.handle record).Runs (env pool setting) f w r f' w' →
        Clean pool record.id w') ↔
      ∃ job args, fromRecord pool.serializer record = .ok (job, args) ∧
        (job.requestCancel = false → pool.registry job.taskName = true →
          "self" ∉ args.kwargs.map Prod.fst ∧ Orderly pool w.conduct) := by
  constructor
  · intro h
    have hwp := wp_iff.mpr h
    obtain ⟨post, hwp, hpost⟩ := process_of_handle hw hwp
    cases hdecodes : fromRecord pool.serializer record with
    | error e =>
      rw [wp_process, hdecodes] at hwp
      exact (hpost (.raised e) f w (by simp) ⟨rfl, rfl, rfl, rfl⟩ hwp).elim
    | ok p =>
      obtain ⟨job, args⟩ := p
      refine ⟨job, args, rfl, fun hwanted hregistered => ?_⟩
      obtain ⟨hbinds, hends, habandoned⟩ := process_benign hwp hdecodes hwanted hregistered hpost
      refine ⟨hbinds, fun r a hr => ?_, fun r a hr => ?_, fun a ha => ?_⟩
      · refine ⟨habandoned (.done r) a (.ends true _ r a hr), ?_⟩
        by_cases hcancelled : r = .error .cancelled
        · exact Or.inl hcancelled
        · exact Or.inr (hends r a hr hcancelled).2
      · refine ⟨habandoned (.done r) a (.unwinds _ r a hr), ?_⟩
        by_contra hnot
        rw [not_or] at hnot
        rw [wp_process, hdecodes, upon_ok, wp_run, if_neg (by simp [hwanted]), if_pos hregistered,
          if_neg hbinds] at hwp
        obtain ⟨e, f', w', hne, hclean, hu⟩ := guarded_strands_forwarded hwp hcancels rfl rfl hr
          hnot.1 fun hwritten => hnot.2 hwritten.2
        exact hpost e f' w' hne ⟨hu.store, hu.jobId, hu.saves, hu.released⟩ hclean
      · exact habandoned (.running true) a (.goesOn true _ a ha)
  · rintro ⟨job, args, hdecodes, hc⟩ r f' w' hrun
    have hspec : (pool.handle record).wp (env pool setting)
        (fun _ _ w' => Clean pool record.id w') f w := by
      simp only [Pool.handle, wp_tryExcept]
      refine wp_mono (process_spec hw hfaults hdecodes fun hwanted hregistered =>
        ⟨(hc hwanted hregistered).1, (hc hwanted hregistered).2.benign setting⟩) ?_
      intro r f' w' hdone
      rcases hdone.concluded with ⟨rfl, hclosed⟩ | ⟨rfl, -, hplace⟩
      · refine ⟨hdone.quiet, hdone.early, Or.inl ⟨?_, hclosed.saves⟩⟩
        rw [← hdone.jobId]
        exact hclosed.settled
      · exact handBack_spec hdone.quiet hdone.jobId hdone.early hfaults hplace
    exact wp_iff.mp hspec r f' w' hrun

/-! ## Two shutdowns -/

/-- If the body can end by itself, so can the delivery. -/
theorem handle_runs {job : Job Value} {args : Args Value} (hstarts : pool.Starts record job args)
    {r : Except Exc Value} {args' : Args Value} (hr : w.conduct.ends r args') :
    ∃ r f' w', (pool.handle record).Runs (env pool setting) f w r f' w' := by
  by_contra hnone
  have h : (pool.handle record).wp (env pool setting) (fun _ _ _ => False) f w :=
    wp_iff.mpr fun r f' w' hrun => hnone ⟨r, f', w', hrun⟩
  simp only [Pool.handle, wp_tryExcept] at h
  have hprocess : ∃ r f' w', (pool.process record).Runs (env pool setting) f w r f' w' :=
    process_runs hstarts hr
  obtain ⟨r', f', w', hrun⟩ := hprocess
  have hafter := wp_iff.mp h r' f' w' hrun
  cases r' with
  | ok a => exact hafter
  | error e =>
    cases e with
    | cancelled =>
      rw [upon_error, wp_handBack] at hafter
      exact hafter _ _ ⟨_, .refl _, Or.inl ⟨rfl, .refl _⟩⟩
    | raised e => exact hafter
    | group => exact hafter

/-- The loop's task may be cancelled at any time; no call fails. -/
def shutdown : Setting Bool := ⟨true, false, fun _ _ => False⟩

/-- A body that, cancelled, runs on, and returns or raises in the end. -/
def stubborn : Conduct Bool where
  ends r args := r = .ok true ∧ args = ⟨[true], []⟩
  unwinds r args := (r = .ok true ∨ r = .error (.raised ⟨some "late"⟩)) ∧ args = ⟨[true], []⟩
  mutates _ := False

/-- A stubborn body is handed over, wherever the loop's task is cancelled. -/
theorem handsOver_stubborn :
    (∃ r f' w', (boolPool.handle claimedRecord).Runs (env boolPool shutdown) noFrame
      (claimedWorld stubborn) r f' w') ∧
    ∀ r f' w', (boolPool.handle claimedRecord).Runs (env boolPool shutdown) noFrame
      (claimedWorld stubborn) r f' w' → Clean boolPool "j" w' := by
  constructor
  · obtain ⟨job, args, hstarts⟩ := starts_claimedRecord
    exact handle_runs hstarts ⟨rfl, rfl⟩
  · have hargs : boolPool.Representable ⟨[true], []⟩ := ⟨[2], rfl⟩
    have hvalue : boolPool.Writable (.ok true) := by
      intro e he
      cases he
    refine (handsOver_iff (claimed_claimedWorld _) rfl rfl).mpr ⟨_, _, rfl, fun _ _ => ?_⟩
    refine ⟨List.not_mem_nil, ?_, ?_, fun _ h => h.elim⟩
    · rintro r args ⟨rfl, rfl⟩
      exact ⟨hargs, Or.inr hvalue⟩
    · rintro r args ⟨rfl | rfl, rfl⟩
      · exact ⟨hargs, Or.inr hvalue⟩
      · exact ⟨hargs, Or.inr ⟨_, rfl⟩⟩

/-- A body that raises a `BaseExceptionGroup` takes the loop's task down with the job still
RUNNING, neither written nor released. -/
theorem group_strands :
    ∃ r f' w', (boolPool.handle claimedRecord).Runs (env boolPool shutdown) noFrame
        (claimedWorld (.only (.error .group) ⟨[true], []⟩)) r f' w' ∧
      ¬ Clean boolPool "j" w' ∧ r = .error .group ∧ Held boolPool.worker "j" w'.store := by
  by_contra hnone
  have hwp : (boolPool.handle claimedRecord).wp (env boolPool shutdown)
      (fun r _ w' => ¬ (r = .error .group ∧
        Untouched (claimedWorld (.only (.error .group) ⟨[true], []⟩)) w')) noFrame
      (claimedWorld (.only (.error .group) ⟨[true], []⟩)) := by
    refine wp_iff.mpr fun r f' w' hrun ⟨hr, hu⟩ => hnone ⟨r, f', w', hrun, ?_, hr, ?_⟩
    · exact (claimed_claimedWorld _).not_clean hu
    · rw [hu.store]
      exact (claimed_claimedWorld _).held
  obtain ⟨job, args, hstarts⟩ := starts_claimedRecord
  simp only [Pool.handle, wp_tryExcept] at hwp
  rw [wp_process, hstarts.decodes, upon_ok, wp_run, if_neg (by simp [hstarts.wanted]),
    if_pos hstarts.registered, if_neg hstarts.binds] at hwp
  exact guarded_passes hwp rfl rfl ⟨rfl, rfl⟩ (Or.inr rfl) ⟨rfl, rfl, rfl, rfl, rfl⟩

end TaskQueue.Worker.Process
