import TaskQueue.Handle.Interruption

/-!
# A handle and its own job

`Tracks` is what the calls on one handle can rely on. `status()` is the call that does not
take the lock: it looks at the cache, and if nothing is cached makes a round trip that the
others go on beside. Its command may be executed after the fetch-and-delete of a `result()`
call, and find nothing; its reply may come after a `result()` call has returned, and tell
what was the case before. `Timely` excludes the two, and `tracks_along` says that nothing
else goes wrong, as long as no record is lost.
-/

namespace TaskQueue

open Redis Handle

namespace JobHandle

variable {jobId : JobId} {decodes : Record → Bool} {s s' : JobHandle} {e : Event}

/-- **A handle keeps track of its job**: no call ends in `KeyError`, at most one call of
`take_result` succeeds, the calls of `result()` that have ended agree on one outcome of a
finished job, and a `status()` that ends after one of them tells its status. -/
structure Tracks (s s' : JobHandle) : Prop where
  known : ∀ c, s'.calls c ≠ .raised .keyError
  once : s'.taken.length ≤ 1
  agree : ∀ c c' r r', s'.calls c = .returned r → s'.calls c' = .returned r' →
    outcome r = outcome r'
  terminal : ∀ c r, s'.calls c = .returned r → r.status.terminal = true
  status : ∀ c status, s.calls c ≠ .answered status → s'.calls c = .answered status →
    ∀ c' r, s.calls c' = .returned r → status = r.status

/-- The `get_job` of a `status()` call is executed while the record is on the server, and
its reply comes before the handle has cached the job, unless the record was read
finished. -/
def Timely (jobId : JobId) (s : JobHandle) : Event → Prop
  | .served c => s.calls c = .reading → s.stored jobId ≠ none
  | .replied c =>
    match s.calls c with
    | .read (some r) => s.job ≠ none → r.status.terminal = true
    | _ => True
  | _ => True

/-- How a call can come to a phase that matters here. -/
def Reached (jobId : JobId) (s : JobHandle) (e : Event) (c : CallId) : Call → Prop
  | .answered status =>
    (∃ r, s.job = some r ∧ status = r.status) ∨
      e = .replied c ∧ ∃ r, s.calls c = .read (some r) ∧ status = r.status
  | .raised .keyError =>
    s.calls c = .fetched none ∨ s.calls c = .read none ∨
      s.calls c = .leaving (.raise .keyError)
  | .read none => e = .served c ∧ s.calls c = .reading ∧ s.stored jobId = none
  | _ => True

theorem reached_of_update {c : CallId} {p : Call}
    (hcalls : s'.calls = Function.update s.calls c p) (hp : Reached jobId s e c p) :
    ∀ c', s'.calls c' ≠ s.calls c' → Reached jobId s e c' (s'.calls c') := by
  intro c' hne
  rw [hcalls] at hne ⊢
  by_cases hc : c' = c
  · subst hc
    rw [Function.update_self]
    exact hp
  · rw [Function.update_of_ne hc] at hne
    exact absurd rfl hne

theorem reached_of_leave {c : CallId} {next : Exit} (hc : s.calls c = .leaving next) :
    ∀ c', (s.leave c next).calls c' ≠ s.calls c' →
      Reached jobId s e c' ((s.leave c next).calls c') := by
  cases next with
  | take => exact reached_of_update rfl trivial
  | raise x =>
    have hp : Reached jobId s e c (.raised x) := by
      cases x with
      | keyError => exact Or.inr (Or.inr hc)
      | undecodable | interrupted => trivial
    exact reached_of_update rfl hp

/-- One call moves in a step, if any. -/
theorem reached_of_step (hs : s.step jobId decodes e = some s') :
    ∀ c, s'.calls c ≠ s.calls c → Reached jobId s e c (s'.calls c) := by
  have hsame : s'.calls = s.calls →
      ∀ c, s'.calls c ≠ s.calls c → Reached jobId s e c (s'.calls c) :=
    fun hcalls c hne => absurd (congrFun hcalls c) hne
  cases e with
  | blmove worker =>
    simp only [JobHandle.step] at hs
    split at hs
    · split at hs
      · simp only [Option.ite_none_right_eq_some, Option.some.injEq] at hs
        obtain ⟨-, rfl⟩ := hs
        exact hsame rfl
      · cases hs
        exact hsame rfl
    · cases hs
      exact hsame rfl
  | claim | release =>
    simp only [JobHandle.step] at hs
    split at hs
    · cases hs
      exact hsame rfl
    · cases hs
  | save write resultTtl =>
    simp only [JobHandle.step] at hs
    split at hs
    · simp only [Option.ite_none_right_eq_some, Option.some.injEq] at hs
      obtain ⟨-, rfl⟩ := hs
      exact hsame rfl
    · cases hs
  | result c =>
    simp only [JobHandle.step, Option.ite_none_right_eq_some] at hs
    obtain ⟨-, hs⟩ := hs
    split at hs <;> cases hs <;> exact reached_of_update rfl trivial
  | status c =>
    simp only [JobHandle.step, Option.ite_none_right_eq_some] at hs
    obtain ⟨-, hs⟩ := hs
    split at hs
    · rename_i r hj
      cases hs
      exact reached_of_update rfl (Or.inl ⟨r, hj, rfl⟩)
    · cases hs
      exact reached_of_update rfl trivial
  | enters c =>
    simp only [JobHandle.step, Option.ite_none_right_eq_some] at hs
    obtain ⟨-, hs⟩ := hs
    split at hs <;> cases hs <;> exact reached_of_update rfl trivial
  | joined c | wakes c =>
    simp only [JobHandle.step, Option.ite_none_right_eq_some, Option.some.injEq] at hs
    obtain ⟨-, rfl⟩ := hs
    exact reached_of_update rfl trivial
  | left c =>
    simp only [JobHandle.step] at hs
    split at hs
    · rename_i next hc
      cases hs
      exact reached_of_leave hc
    · cases hs
  | served c =>
    simp only [JobHandle.step, serve] at hs
    split at hs
    · cases hs
      exact reached_of_update rfl trivial
    · cases hs
      exact reached_of_update rfl trivial
    · cases hs
      exact reached_of_update rfl trivial
    · rename_i hc
      cases hs
      refine reached_of_update rfl ?_
      cases hr : s.stored jobId with
      | none => exact ⟨rfl, hc, hr⟩
      | some r => trivial
    · cases hs
  | replied c =>
    simp only [JobHandle.step, reply] at hs
    split at hs
    · cases hs
      exact reached_of_update rfl trivial
    · cases hs
      refine reached_of_update rfl ?_
      split <;> trivial
    · rename_i hc
      cases hs
      exact reached_of_update rfl (Or.inl hc)
    · split at hs <;> cases hs <;> exact reached_of_update rfl trivial
    · rename_i hc
      cases hs
      exact reached_of_update rfl (Or.inr (Or.inl hc))
    · rename_i r hc
      cases hs
      exact reached_of_update rfl (Or.inr ⟨rfl, r, hc, rfl⟩)
    · cases hs
  | interrupted c =>
    simp only [JobHandle.step, interrupt] at hs
    split at hs
    all_goals first
      | (cases hs; exact reached_of_update rfl trivial)
      | skip
    · rename_i next hc
      cases hs
      exact reached_of_leave hc
    · cases hs

/-! ## Runs -/

/-- The invariant: besides soundness, no call has found that there is no record. -/
structure Undeceived (jobId : JobId) (s : JobHandle) : Prop where
  sound : s.Sound jobId
  read : ∀ c, s.calls c ≠ .read none
  known : ∀ c, s.calls c ≠ .raised .keyError

theorem undeceived_enqueued (job : Record) (st : Store) :
    Undeceived job.id (enqueued job st) where
  sound := sound_enqueued job st
  read c h := by cases h
  known c h := by cases h

/-- A call of `result()` that has ended tells what is cached. -/
theorem Sound.cached_of_returned {c : CallId} {r : Record} (h : s.Sound jobId)
    (hc : s.calls c = .returned r) : s.job = some r := by
  have hcons := h.calls c
  rw [hc] at hcons
  exact hcons

theorem Undeceived.step (h : s.Undeceived jobId) (hsafe : Safe jobId decodes s e)
    (htimely : Timely jobId s e) (hs : s.step jobId decodes e = some s') :
    s'.Undeceived jobId where
  sound := h.sound.step hsafe hs
  read c hc := by
    have hreached := reached_of_step hs c (by rw [hc]; exact (h.read c).symm)
    rw [hc] at hreached
    obtain ⟨rfl, hreading, hnone⟩ := hreached
    exact htimely hreading hnone
  known c hc := by
    have hreached := reached_of_step hs c (by rw [hc]; exact (h.known c).symm)
    rw [hc] at hreached
    have hcons := h.sound.calls c
    rcases hreached with hnone | hnone | hnone
    · rw [hnone] at hcons
      exact hcons
    · exact h.read c hnone
    · rw [hnone] at hcons
      exact hcons

theorem Sound.once (h : s.Sound jobId) : s.taken.length ≤ 1 := by
  cases hj : s.job with
  | none =>
    rw [h.untaken hj]
    exact Nat.zero_le 1
  | some r =>
    rw [(h.cached r hj).2.2]
    exact Nat.le_refl 1

/-- A `status()` that ends after a `result()` has ended tells the status of the cached
job. -/
theorem Undeceived.status {c c' : CallId} {status : JobStatus} {r : Record}
    (h : s.Undeceived jobId) (htimely : Timely jobId s e)
    (hs : s.step jobId decodes e = some s') (hnew : s.calls c ≠ .answered status)
    (hc : s'.calls c = .answered status) (hc' : s.calls c' = .returned r) :
    status = r.status := by
  have hj := h.sound.cached_of_returned hc'
  have hreached := reached_of_step hs c (by rw [hc]; exact hnew.symm)
  rw [hc] at hreached
  rcases hreached with ⟨r', hj', rfl⟩ | ⟨rfl, r', hread, rfl⟩
  · rw [Option.some.inj (hj.symm.trans hj')]
  · simp only [Timely, hread] at htimely
    have ht := htimely (by rw [hj]; exact Option.some_ne_none r)
    have hcons := h.sound.calls c
    rw [hread] at hcons
    -- the record was read finished, and it is the one that was cached
    have hstage := (h.sound.cached r hj).1
    rw [hcons ht] at hstage
    rw [Stage.finished.inj hstage]

/-- **A handle keeps track of its job** along every run that loses no record and whose
`status()` calls are timely. -/
theorem tracks_along {job : Record} {st : Store} {es : List Event}
    (hsafe : (machine decodes job st).Along (fun s e _ => Safe job.id decodes s e)
      (enqueued job st) es)
    (htimely : (machine decodes job st).Along (fun s e _ => Timely job.id s e)
      (enqueued job st) es) :
    (machine decodes job st).Along (fun s _ s' => s.Tracks s') (enqueued job st) es := by
  refine Machine.along_of_invariant (J := Undeceived job.id)
    (C := fun s e => Safe job.id decodes s e ∧ Timely job.id s e) ?_
    (undeceived_enqueued job st) (hsafe.and htimely)
  rintro s e s' h ⟨hsafe, htimely⟩ hs
  have h' : s'.Undeceived job.id := h.step hsafe htimely hs
  refine ⟨?_, h'⟩
  constructor
  case known => exact h'.known
  case once => exact h'.sound.once
  case agree =>
    intro c c' r r' hc hc'
    have hr := h'.sound.cached_of_returned hc
    have hr' := h'.sound.cached_of_returned hc'
    rw [Option.some.inj (hr.symm.trans hr')]
  case terminal =>
    intro c r hc
    have hj := h'.sound.cached_of_returned hc
    exact (h'.sound.finished r (h'.sound.cached r hj).1).1
  case status =>
    intro c status hnew hc c' r hc'
    exact h.status htimely hs hnew hc hc'

/-! ## Two ways to lose track -/

instance Timely.decidable (s : JobHandle) : ∀ e, Decidable (Timely jobId s e)
  | .served c => inferInstanceAs (Decidable (s.calls c = .reading → s.stored jobId ≠ none))
  | .replied c =>
    match h : s.calls c with
    | .read (some r) =>
      decidable_of_iff (s.job ≠ none → r.status.terminal = true) (by simp only [Timely, h])
    | .read none | .uncalled | .locking | .joining | .checking | .checked _ | .waiting
    | .leaving _ | .fetching | .fetched _ | .abandoned | .reading | .returned _ | .answered _
    | .raised _ => isTrue (by simp only [Timely, h])
  | .blmove _ | .claim | .release | .save .. | .result _ | .status _ | .enters _ | .joined _
  | .wakes _ | .left _ | .interrupted _ => isTrue trivial

/-- Two calls of `result()`, and a `status()` read while the job runs; the worker releases
the job once. -/
def watched : List Event :=
  [.blmove "w", .claim, .release, .status 0, .result 1, .result 2, .enters 1, .joined 1,
    .served 1, .replied 1, .blmove "w", .claim, .served 0, .replied 0, .wakes 1,
    .save taskDone 60, .status 3, .served 3, .served 1, .replied 1, .left 1, .served 1,
    .replied 1, .enters 2, .replied 3, .status 4]

theorem tracks_watched :
    (machine (fun _ => true) task Store.empty).Along (fun s _ s' => s.Tracks s')
      (enqueued task Store.empty) watched :=
  tracks_along (by decide) (by decide)

/-- A call of `result()` up to its fetch-and-delete. -/
def consumes : List Event :=
  [.result 0, .enters 0, .joined 0, .served 0, .replied 0, .left 0, .served 0]

/-- The `get_job` of a `status()` is executed between the fetch-and-delete and its reply;
the reply to the `get_job` of a `status()` comes after `result()` has returned. -/
theorem status_loses_track :
    ¬ (machine (fun _ => true) task Store.empty).Along (fun s _ s' => s.Tracks s')
        (enqueued task Store.empty)
        ([.blmove "w", .claim, .save taskDone 60] ++ consumes ++ [.status 1, .served 1] ++
          [.replied 1]) ∧
      ¬ (machine (fun _ => true) task Store.empty).Along (fun s _ s' => s.Tracks s')
        (enqueued task Store.empty)
        ([.blmove "w", .claim, .status 1, .served 1, .save taskDone 60] ++ consumes ++
          [.replied 0] ++ [.replied 1]) := by
  constructor
  · intro h
    exact (h.last rfl rfl).known 1 rfl
  · intro h
    have hstatus := (h.last rfl rfl).status 1 .running (by decide) rfl 0 _ rfl
    cases hstatus

end JobHandle

end TaskQueue
