import TaskQueue.Scope.Steps

/-!
# What leaves a scope that is torn down

A scope is torn down early when its body raises, when the join hits the deadline, or
when the owner is cancelled while it joins. From then on its owner awaits the waiters
that a cancelled join took along, the `request_cancel_many` of `cancel_all_jobs`, the
reports of the children and the `gather` of `_settle`, with the reason as the exception
in flight. The `gather` returns what its waiters and the fan-out raise, and
`asyncio.wait` raises nothing of theirs; the request has no such guard.

- `Unwinds`: what a step of the teardown does.
- `raised_of_run`: what the rest of the teardown makes of the exception in flight.
- `reasonLeaves_iff`: the reason leaves the scope exactly when that request does not
  raise, or its error is cut short.
-/

namespace TaskQueue.Scope

variable {s s' : System} {g g' : Group} {e : Event} {es : List Event} {R : Raised}

/-- The exception with which an event starts the teardown. -/
def reason (g : Group) : Event → Option Raised
  | .bodyRaised => some .body
  | .deadline => some .timeout
  | .cancel => if g.inJoin then some .cancelled else none
  | _ => none

/-- What an event does to the exception in flight: a request that raises replaces it, and
so does another cancellation of the owner. -/
def inFlight (raised : Option Raised) : Event → Option Raised
  | .askRaised => some .request
  | .cancel => some .cancelled
  | _ => raised

/-- The owner is on its way to `cancel_all_jobs`, in it, in the `_settle` that follows, or
out. -/
def Phase.leaving : Phase → Bool
  | .unwinding _ | .tearingDown _ | .reporting | .settling _ _ _ | .closed => true
  | _ => false

/-! ## One step -/

/-- A teardown starts with its reason in flight. -/
theorem tearingDown_of_reason (h : s.step e = some s') (hR : reason s.group e = some R) :
    s'.group.phase.leaving = true ∧ s'.group.raised = some R := by
  cases e with
  | bodyRaised =>
    cases hR
    simp only [System.step] at h
    split at h
    · cases h
      exact ⟨rfl, rfl⟩
    · cases h
  | deadline =>
    cases hR
    simp only [System.step, Option.ite_none_right_eq_some, Option.some.injEq] at h
    obtain ⟨-, rfl⟩ := h
    exact ⟨rfl, rfl⟩
  | cancel =>
    simp only [reason, Option.ite_none_right_eq_some, Option.some.injEq] at hR
    obtain ⟨hin, rfl⟩ := hR
    simp only [System.step, hin, if_true, Option.some.injEq] at h
    cases h
    exact ⟨rfl, rfl⟩
  | _ => cases hR

theorem Group.jobFinished_raised (w : Waiter) : (g.jobFinished w).raised = g.raised := by
  rcases g.jobFinished_cases w with ⟨failures, h⟩ | ⟨-, failures, h⟩ <;> rw [h]

theorem Group.flagged_raised (t : Table) (jobId : JobId) :
    (g.flagged t jobId).raised = g.raised := by
  unfold flagged
  split
  · split <;> rfl
  · rfl

/-- The events at which the owner moves. -/
def Event.ofOwner : Event → Bool
  | .bodyDone | .bodyRaised | .joinWake | .ask | .askRaised | .drained | .reported | .settled
  | .deadline | .cancel | .resumed => true
  | _ => false

/-- The other tasks leave the owner where it stands, and the exception in flight alone. -/
theorem owner_of_step (h : s.step e = some s') (he : e.ofOwner = false) :
    s'.group.phase = s.group.phase ∧ s'.group.raised = s.group.raised := by
  cases stepOf h with
  | notify w hw => exact ⟨Group.jobFinished_phase w, Group.jobFinished_raised w⟩
  | flag jobId phase fanout adrift hnext =>
    cases hnext with
    | fanout rest hf => exact ⟨Group.flagged_phase _, Group.flagged_raised _ _⟩
    | late hmem => exact ⟨Group.flagged_phase _, Group.flagged_raised _ _⟩
    | backstop pending rest hp => cases he
    | tearingDown rest hp => cases he
  | leaves hleaves =>
    cases hleaves with
    | interrupted e raised hwhich hin => rcases hwhich with rfl | rfl <;> cases he
    | torn e raised adrift hwhich hp hadrift =>
      rcases hwhich with rfl | rfl | rfl | rfl <;> cases he
    | _ => cases he
  | _ => exact ⟨rfl, rfl⟩

/-- What a step of the teardown does: the owner stays in it. -/
structure Unwinds (s : System) (e : Event) (s' : System) : Prop where
  leaving : s'.group.phase.leaving = true
  raised : s'.group.raised = inFlight s.group.raised e

theorem Unwinds.of_other (hp : s.group.phase.leaving = true) (h : s.step e = some s')
    (he : e.ofOwner = false) : Unwinds s e s' := by
  obtain ⟨hphase, hraised⟩ := owner_of_step h he
  constructor
  · rw [hphase]
    exact hp
  · rw [hraised]
    cases e with
    | askRaised | cancel => cases he
    | _ => rfl

/-- The cancelled join waits for the waiters that it took along. -/
theorem Unwinds.of_unwinding {awaited : List JobId} (hp : s.group.phase = .unwinding awaited)
    (h : s.step e = some s') (he : e.ofOwner = true) : Unwinds s e s' := by
  have hout : s.group.inJoin = false := by simp [Group.inJoin, hp]
  cases e with
  | cancel =>
    simp only [System.step, hp, hout, Bool.false_eq_true, if_false, Option.some.injEq] at h
    subst h
    exact ⟨rfl, rfl⟩
  | resumed =>
    simp only [System.step, hp, Option.ite_none_right_eq_some, Option.some.injEq] at h
    obtain ⟨-, rfl⟩ := h
    exact ⟨rfl, rfl⟩
  | bodyDone | bodyRaised | joinWake | ask | askRaised | drained | reported | settled =>
    simp [System.step, hp] at h
  | deadline => simp [System.step, hout] at h
  | _ => cases he

/-- `cancel_all_jobs` awaits its requests: the one await whose error is not caught. -/
theorem Unwinds.of_tearingDown {requests : List JobId}
    (hp : s.group.phase = .tearingDown requests) (h : s.step e = some s')
    (he : e.ofOwner = true) : Unwinds s e s' := by
  have hout : s.group.inJoin = false := by simp [Group.inJoin, hp]
  cases e with
  | ask =>
    cases requests with
    | nil =>
      simp only [System.step, hp, Option.some.injEq] at h
      subst h
      split
      · exact ⟨rfl, rfl⟩
      · exact ⟨rfl, rfl⟩
    | cons jobId rest =>
      simp only [System.step, hp, Option.some.injEq] at h
      subst h
      refine ⟨?_, Group.flagged_raised _ _⟩
      show Phase.leaving (Group.phase (Group.flagged _ _ _)) = true
      rw [Group.flagged_phase]
      rfl
  | askRaised =>
    simp only [System.step, hp, Option.some.injEq] at h
    subst h
    exact ⟨rfl, rfl⟩
  | cancel =>
    simp only [System.step, hp, hout, Bool.false_eq_true, if_false, Option.some.injEq] at h
    subst h
    exact ⟨rfl, rfl⟩
  | bodyDone | bodyRaised | joinWake | drained | reported | settled | resumed =>
    simp [System.step, hp] at h
  | deadline => simp [System.step, hout] at h
  | _ => cases he

/-- The `asyncio.wait` for the reports returns, or is cancelled. -/
theorem Unwinds.of_reporting (hp : s.group.phase = .reporting) (h : s.step e = some s')
    (he : e.ofOwner = true) : Unwinds s e s' := by
  have hout : s.group.inJoin = false := by simp [Group.inJoin, hp]
  cases e with
  | reported =>
    simp only [System.step, hp, Option.some.injEq] at h
    subst h
    exact ⟨rfl, rfl⟩
  | cancel =>
    simp only [System.step, hp, hout, Bool.false_eq_true, if_false, Option.some.injEq] at h
    subst h
    exact ⟨rfl, rfl⟩
  | bodyDone | bodyRaised | joinWake | ask | askRaised | drained | settled | resumed =>
    simp [System.step, hp] at h
  | deadline => simp [System.step, hout] at h
  | _ => cases he

/-- The `gather` of `_settle` returns, or is cancelled. -/
theorem Unwinds.of_settling {torn withFanout : Bool} {awaited : List JobId}
    (hp : s.group.phase = .settling torn awaited withFanout) (h : s.step e = some s')
    (he : e.ofOwner = true) : Unwinds s e s' := by
  have hout : s.group.inJoin = false := by simp [Group.inJoin, hp]
  cases e with
  | settled =>
    simp only [System.step, hp, Option.ite_none_right_eq_some, Option.some.injEq] at h
    obtain ⟨-, rfl⟩ := h
    exact ⟨rfl, rfl⟩
  | cancel =>
    simp only [System.step, hp, hout, Bool.false_eq_true, if_false, Option.some.injEq] at h
    subst h
    refine ⟨?_, rfl⟩
    -- still in `_settle`, with or without the fan-out
    have hphase : (if withFanout = true then s.group.dropFanout else s.group).phase =
        s.group.phase := by
      split <;> rfl
    show Phase.leaving (if withFanout = true then s.group.dropFanout else s.group).phase = true
    rw [hphase, hp]
    rfl
  | bodyDone | bodyRaised | joinWake | ask | askRaised | drained | reported | resumed =>
    simp [System.step, hp] at h
  | deadline => simp [System.step, hout] at h
  | _ => cases he

/-- A step of the teardown, by where the owner stands. -/
theorem unwinds_of_step (hp : s.group.phase.leaving = true) (h : s.step e = some s') :
    Unwinds s e s' := by
  cases he : e.ofOwner with
  | false => exact .of_other hp h he
  | true =>
    cases hphase : s.group.phase with
    | body | joining _ | backstop _ _ | draining _ =>
      rw [hphase] at hp
      cases hp
    | unwinding awaited => exact .of_unwinding hphase h he
    | tearingDown requests => exact .of_tearingDown hphase h he
    | reporting => exact .of_reporting hphase h he
    | settling torn awaited withFanout => exact .of_settling hphase h he
    | closed =>
      have hout : s.group.inJoin = false := by simp [Group.inJoin, hphase]
      cases e with
      | deadline => simp [System.step, hout] at h
      | cancel => simp [System.step, hout, hphase] at h
      | bodyDone | bodyRaised | joinWake | ask | askRaised | drained | reported | settled
      | resumed =>
        simp [System.step, hphase] at h
      | _ => cases he

/-! ## Whole runs -/

/-- A cancellation cuts every error of a request short: the last of them is in flight at
the end, or what was in flight before. -/
theorem foldl_inFlight
    (h : ∀ before after, es = before ++ .askRaised :: after → Event.cancel ∈ after)
    (raised : Option Raised) :
    es.foldl inFlight raised = if Event.cancel ∈ es then some .cancelled else raised := by
  induction es generalizing raised with
  | nil => simp
  | cons e es ih =>
    have hrest : ∀ before after, es = before ++ .askRaised :: after → Event.cancel ∈ after :=
      fun before after heq => h (e :: before) after (by rw [heq, List.cons_append])
    rw [List.foldl_cons, ih hrest]
    cases e with
    | cancel => simp [inFlight]
    | askRaised =>
      have hcut : Event.cancel ∈ es := h [] es rfl
      simp [hcut]
    | _ => simp [inFlight]

/-- Without another cancellation, the error of a request stays in flight. -/
theorem foldl_inFlight_request (h : Event.cancel ∉ es) :
    es.foldl inFlight (some .request) = some .request := by
  induction es with
  | nil => rfl
  | cons e es ih =>
    rw [List.mem_cons, not_or] at h
    rw [List.foldl_cons]
    cases e with
    | cancel => exact absurd rfl h.1
    | _ => exact ih h.2

variable (table : Table) (onError : OnError) (hasDeadline : Bool) (detached : List JobId)

/-- The exception in flight after a stretch of the teardown. -/
theorem raised_of_run (hp : s.group.phase.leaving = true)
    (h : (machine table onError hasDeadline detached).run s es = some s') :
    s'.group.raised = es.foldl inFlight s.group.raised := by
  induction es generalizing s with
  | nil =>
    cases h
    rfl
  | cons e es ih =>
    simp only [Machine.run] at h
    cases hs : (machine table onError hasDeadline detached).step s e with
    | none => simp [hs] at h
    | some s₁ =>
      rw [hs] at h
      have hstep : Unwinds s e s₁ := unwinds_of_step hp hs
      rw [ih hstep.leaving h, hstep.raised, List.foldl_cons]

/-- A scope was torn down for `R`, and `es` is what happened from then until it closed
as `s`. -/
def TornDown (R : Raised) (es : List Event) (s : System) : Prop :=
  ∃ before s₀ e s₁,
    (machine table onError hasDeadline detached).run
        (machine table onError hasDeadline detached).init before
      = some s₀ ∧
    s₀.step e = some s₁ ∧ reason s₀.group e = some R ∧
    (machine table onError hasDeadline detached).run s₁ es = some s ∧ s.group.phase = .closed

/-- What leaves the scope is `R`, or the `CancelledError` of an owner that was cancelled
once more. -/
def ReasonLeaves (R : Raised) (es : List Event) (s : System) : Prop :=
  s.group.raised = some R ∨ (Event.cancel ∈ es ∧ s.group.raised = some .cancelled)

/-- No teardown is started by the error of a request. -/
theorem reason_ne_request : reason g e ≠ some .request := by
  cases e with
  | cancel =>
    unfold reason
    split <;> simp
  | _ => simp [reason]

/-- **When the reason survives the teardown.** For a scope that is torn down early, in
every mode, with any children and whatever fails on the way, what leaves the
`async with` block is the reason of the teardown (or the `CancelledError` of an owner
cancelled once more) exactly when the `request_cancel_many` that `cancel_all_jobs`
awaits does not raise, or the owner is cancelled after it did. -/
theorem reasonLeaves_iff (h : TornDown table onError hasDeadline detached R es s) :
    ReasonLeaves R es s ↔
      ∀ before after, es = before ++ .askRaised :: after → Event.cancel ∈ after := by
  obtain ⟨before, s₀, e, s₁, -, hstart, hR, hrun, -⟩ := h
  obtain ⟨hp, hraised⟩ := tearingDown_of_reason hstart hR
  have hlast : s.group.raised = es.foldl inFlight (some R) := by
    rw [← hraised]
    exact raised_of_run table onError hasDeadline detached hp hrun
  unfold ReasonLeaves
  constructor
  · rintro hleaves before after rfl
    by_contra hcancel
    -- the error of the request has taken the place of the reason
    have hrequest : s.group.raised = some .request := by
      rw [hlast, List.foldl_append, List.foldl_cons]
      exact foldl_inFlight_request hcancel
    rcases hleaves with hkept | ⟨-, hkept⟩
    · rw [hrequest] at hkept
      exact reason_ne_request (hR.trans hkept.symm)
    · rw [hrequest] at hkept
      cases hkept
  · intro hcut
    rw [foldl_inFlight hcut] at hlast
    by_cases hcancel : Event.cancel ∈ es
    · rw [if_pos hcancel] at hlast
      exact Or.inr ⟨hcancel, hlast⟩
    · rw [if_neg hcancel] at hlast
      exact Or.inl hlast

/-- The body spawns a child and is cancelled in the join; the child's waiter, which the
join takes along, raises, and the teardown goes through. -/
theorem reasonLeaves_cancelled :
    ∃ s, TornDown (fun _ => none) .collect false [] .cancelled
        [.broke "a" false, .resumed, .ask, .ask, .reported, .settled] s ∧
      ReasonLeaves .cancelled [.broke "a" false, .resumed, .ask, .ask, .reported, .settled] s := by
  have h : ∃ s, TornDown (fun _ => none) .collect false [] .cancelled
      [.broke "a" false, .resumed, .ask, .ask, .reported, .settled] s := by
    refine ⟨_, spawns "a" ++ [.bodyDone], _, .cancel, _, rfl, rfl, rfl, rfl, ?_⟩
    rfl
  obtain ⟨s, hs⟩ := h
  refine ⟨s, hs, (reasonLeaves_iff _ _ _ _ hs).mpr fun before after heq => ?_⟩
  have hmem : Event.askRaised ∈ before ++ .askRaised :: after := by simp
  rw [← heq] at hmem
  simp at hmem

/-- The body spawns a child and raises; the request to cancel the child raises too, and
its error is what leaves the scope. -/
theorem reasonLeaves_lost :
    ∃ s, TornDown (fun _ => none) .collect false [] .body
        [.askRaised, .unwound "a", .settled] s ∧
      s.group.raised = some .request ∧
      ¬ ReasonLeaves .body [.askRaised, .unwound "a", .settled] s := by
  refine ⟨_, ⟨spawns "a", _, .bodyRaised, _, rfl, rfl, rfl, rfl, rfl⟩, rfl, ?_⟩
  rintro (hkept | ⟨hmem, -⟩)
  · cases hkept
  · simp at hmem

end TaskQueue.Scope
