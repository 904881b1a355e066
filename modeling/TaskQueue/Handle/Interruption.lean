import TaskQueue.Handle.Calls

/-!
# Interrupted calls of `result()`

`Kept` is what an interruption must not take away: the outcome of a finished job is cached
in the handle, or still on the server, or in the hands of a call that goes on. The runs
that keep it are those whose steps are `Safe`, and no others: whatever comes between the
execution of the fetch-and-delete and the caching of its reply loses the one delivery.
`obtained_later` is what `Kept` is good for.
-/

namespace TaskQueue

open Redis Handle

namespace JobHandle

variable {jobId : JobId} {decodes : Record → Bool} {s s' : JobHandle} {c : CallId}

/-- **The outcome is not lost**: if the job has finished, its record is in the handle, on
the server, or with a call that has not ended. -/
def Kept (jobId : JobId) (s : JobHandle) : Prop :=
  ∀ r, s.stage = .finished r → s.job = some r ∨ s.stored jobId = some r ∨
    ∃ c, s.calls c = .fetched (some r)

theorem Sound.kept_finished (h : s.Sound jobId) : s.Kept jobId := by
  intro r hr
  rcases (h.finished r hr).2 with hstored | hnone
  · exact Or.inr (Or.inl hstored)
  · rcases h.kept hnone with hj | ⟨c, r', hc⟩
    · obtain ⟨r', hr'⟩ := Option.ne_none_iff_exists'.mp hj
      have hstage := (h.cached r' hr').1
      rw [hr] at hstage
      rw [Stage.finished.inj hstage]
      exact Or.inl hr'
    · have hcons := h.calls c
      rw [hc] at hcons
      have hstage := hcons.2.1
      rw [hr] at hstage
      rw [Stage.finished.inj hstage]
      exact Or.inr (Or.inr ⟨c, hc⟩)

/-- A call that ends with the record in hand, and does not cache it, loses it. -/
theorem Sound.not_kept_of_quit {r : Record} {p : Call} (h : s.Sound jobId)
    (hc : s.calls c = .fetched (some r)) (hp : p.inHand = none) :
    ¬ (s.quit c p).Kept jobId := by
  have hcons := h.calls c
  rw [hc] at hcons
  obtain ⟨⟨hlock, hjob⟩, hstage, hnone⟩ := hcons
  intro hkept
  rcases hkept r hstage with hj | hstored | ⟨c', hc'⟩
  · have hj : s.job = some r := hj
    rw [hjob] at hj
    cases hj
  · have hstored : s.stored jobId = some r := hstored
    rw [hnone] at hstored
    cases hstored
  · have hc' : Function.update s.calls c p c' = .fetched (some r) := hc'
    by_cases hne : c' = c
    · subst hne
      rw [Function.update_self] at hc'
      rw [hc'] at hp
      cases hp
    · rw [Function.update_of_ne hne] at hc'
      have hout := h.outside (Or.inl hlock) hne
      rw [hc'] at hout
      cases hout

/-- A fetch-and-delete that nobody waits for takes the record away. -/
theorem Sound.not_kept_of_abandoned {st : Store} (h : s.Sound jobId)
    (hc : s.calls c = .abandoned) (hstored : s.stored jobId ≠ none)
    (hgone : st.jobs jobId = none) :
    ¬ Kept jobId { s.move c (.raised .interrupted) with store := st } := by
  have hcons := h.calls c
  rw [hc] at hcons
  obtain ⟨r, hstage⟩ := hcons
  intro hkept
  rcases hkept r hstage with hj | hsome | ⟨c', hc'⟩
  · exact hstored (h.cached r hj).2.1
  · simp [stored, hgone] at hsome
  · have hc' : Function.update s.calls c (.raised .interrupted) c' = .fetched (some r) := hc'
    by_cases hne : c' = c
    · subst hne
      rw [Function.update_self] at hc'
      cases hc'
    · rw [Function.update_of_ne hne] at hc'
      have hcons' := h.calls c'
      rw [hc'] at hcons'
      exact hstored hcons'.2.2

/-- A step that keeps the outcome is safe. -/
theorem Sound.safe_of_kept {e : Event} (h : s.Sound jobId)
    (hs : s.step jobId decodes e = some s') (hkept : s'.Kept jobId) :
    Safe jobId decodes s e := by
  cases e with
  | interrupted c =>
    show (s.calls c).inHand = none
    cases hin : (s.calls c).inHand with
    | none => rfl
    | some r =>
      have hc : s.calls c = .fetched (some r) := by
        cases hcall : s.calls c with
        | fetched raw =>
          rw [hcall] at hin
          exact congrArg Call.fetched hin
        | _ =>
          rw [hcall] at hin
          cases hin
      simp only [JobHandle.step, JobHandle.interrupt, hc, Option.some.injEq] at hs
      subst hs
      exact absurd hkept (h.not_kept_of_quit hc rfl)
  | served c =>
    intro hc
    by_contra hstored
    simp only [JobHandle.step, JobHandle.serve, hc, Option.some.injEq] at hs
    subst hs
    refine h.not_kept_of_abandoned hc hstored ?_ hkept
    exact Function.update_self ..
  | replied c =>
    show (s.calls c).inHand.all decodes = true
    cases hcall : s.calls c with
    | fetched raw =>
      cases raw with
      | none => rfl
      | some r =>
        by_contra hd
        have hd : decodes r = false := Bool.eq_false_iff.mpr hd
        simp only [JobHandle.step, JobHandle.reply, hcall, hd, Bool.false_eq_true, if_false,
          Option.some.injEq] at hs
        subst hs
        exact h.not_kept_of_quit hcall rfl hkept
    | _ => rfl
  | _ => trivial

/-- **The runs that lose no result**: the outcome of the finished job is in the handle, on
the server or with a call that goes on, after every step of a run, if and only if no call
is interrupted once its fetch-and-delete has taken the record, none is executed for an
interrupted call while the record is there, and the record decodes. -/
theorem kept_along_iff (decodes : Record → Bool) (job : Record) (st : Store)
    (es : List Event) :
    (machine decodes job st).Along (fun _ _ s' => s'.Kept job.id) (enqueued job st) es ↔
      (machine decodes job st).Along (fun s e _ => Safe job.id decodes s e)
        (enqueued job st) es := by
  refine Machine.along_iff_along (J := Sound job.id) (E := fun _ _ => True) ?_ ?_
    (sound_enqueued job st) (Machine.along_true _ _)
  · intro s e s' h _ hs hsafe
    have hsound : s'.Sound job.id := h.step hsafe hs
    exact ⟨hsound.kept_finished, hsound⟩
  · intro s e s' h _ hs hkept
    exact h.safe_of_kept hs hkept

/-- The steps of a new call that nobody disturbs, on a handle that has cached nothing. -/
def alone (c : CallId) : List Event :=
  [.result c, .enters c, .joined c, .served c, .replied c, .left c, .served c, .replied c]

/-- **What is kept can be had**: once the lock is free, a later call of `result()` returns
the outcome. -/
theorem Sound.obtained_later {job r : Record} {st : Store} (h : s.Sound job.id)
    (hl : s.lock = none) (hc : s.calls c = .uncalled) (hstage : s.stage = .finished r)
    (hd : decodes r = true) :
    ∃ es s', (es = [.result c] ∨ es = alone c) ∧
      (machine decodes job st).run s es = some s' ∧ s'.calls c = .returned r := by
  rcases h.kept_finished r hstage with hj | hstored | ⟨c', hc'⟩
  · refine ⟨[.result c], s.move c (.returned r), Or.inl rfl, ?_, Function.update_self ..⟩
    simp only [Machine.run, machine, JobHandle.step, hc, hj, if_true]
  · have ht : r.status.terminal = true := (h.finished r hstage).1
    have hj : s.job = none := by
      cases hj : s.job with
      | none => rfl
      | some r' =>
        rw [(h.cached r' hj).2.1] at hstored
        cases hstored
    obtain ⟨e, he, rfl⟩ := exists_of_stored hstored
    refine ⟨alone c, ?_⟩
    simp [alone, Machine.run, machine, JobHandle.step, JobHandle.move, JobHandle.serve,
      JobHandle.reply, JobHandle.leave, JobHandle.quit, JobHandle.stored, hc, hj, hl, he, ht, hd]
  · have hlock := ((h.calls c').holds (by rw [hc']; rfl)).1
    rw [hl] at hlock
    cases hlock

/-! ## Three ways to lose the result -/

/-- A job. -/
def task : Record where
  id := "j"
  taskName := "task"
  createdAt := "2025-01-01T00:00:00+00:00"
  status := .created
  attempts := 0
  requestCancel := false
  payload := []
  groupId := none
  error := none
  result := none

/-- Its terminal record. -/
def taskDone : Finished := task.settle [] (.completed [1])

/-- It completes, and a call of `result()` comes to its fetch-and-delete. -/
def fetches : List Event :=
  [.blmove "w", .claim, .save taskDone 60, .result 0, .enters 0, .joined 0, .served 0,
    .replied 0, .left 0]

/-- The call is cancelled, or its reply is lost, after the server has executed the
fetch-and-delete; the call is cancelled first, and the fetch-and-delete executed then; the
fetched record does not decode. -/
theorem interruptions_lose :
    ¬ (machine (fun _ => true) task Store.empty).Along (fun _ _ s' => s'.Kept task.id)
        (enqueued task Store.empty) (fetches ++ [.served 0] ++ [.interrupted 0]) ∧
      ¬ (machine (fun _ => true) task Store.empty).Along (fun _ _ s' => s'.Kept task.id)
        (enqueued task Store.empty) (fetches ++ [.interrupted 0] ++ [.served 0]) ∧
      ¬ (machine (fun _ => false) task Store.empty).Along (fun _ _ s' => s'.Kept task.id)
        (enqueued task Store.empty) (fetches ++ [.served 0] ++ [.replied 0]) := by
  refine ⟨fun h => ?_, fun h => ?_, fun h => ?_⟩
  · rcases h.last rfl rfl _ rfl with hj | hstored | ⟨c, hc⟩
    · cases hj
    · cases hstored
    · cases c <;> cases hc
  · rcases h.last rfl rfl _ rfl with hj | hstored | ⟨c, hc⟩
    · cases hj
    · cases hstored
    · cases c <;> cases hc
  · rcases h.last rfl rfl _ rfl with hj | hstored | ⟨c, hc⟩
    · cases hj
    · cases hstored
    · cases c <;> cases hc

end JobHandle

end TaskQueue
