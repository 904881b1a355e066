import TaskQueue.Memory.TakeResult

/-!
# Who waits in memory (`_events`, `_cancels`, `take_result`)

`MemoryBackend` keeps two `asyncio.Event`s for each job, in two dictionaries beside `_jobs`, and
each of `enqueue`, `save` and `take_result` writes all that belongs to it without an `await`.
`Change` says what one operation does to the dictionaries.

- `primed_along`: in every run a job has both events or neither, and only a stored job has them,
  so a job that is collected leaves nothing behind.
- `noneStranded_iff`: a call of `take_result` waits for the event that the next terminal save
  will set, unless a call that was woken late takes that event out of the dictionary with the
  record of a job that was enqueued again meanwhile. The waiter is never woken then.
-/

namespace TaskQueue.Memory

/-! ## The dictionaries -/

/-- The flags of the events once the event of `id` in the dictionary is set. -/
def Backend.setFlag (b : Backend) (id : JobId) : JobId → Nat → Bool :=
  match b.events id with
  | some n => Function.update b.isSet id (Function.update (b.isSet id) n true)
  | none => b.isSet

/-- What an operation other than `take_result` does to the dictionaries: nothing that matters, or
the entries of one job are made, or its event is set and both are dropped. -/
inductive Change (b b' : Backend) : Prop where
  | same (hevents : b'.events = b.events) (hset : b'.isSet = b.isSet) (hborn : b'.born = b.born)
      (hcancels : ∀ jobId, (b'.cancels jobId).isSome = (b.cancels jobId).isSome)
      (hjobs : ∀ jobId, (b'.jobs jobId).isSome = (b.jobs jobId).isSome)
  | created (id : JobId) (r : Record) (hfree : b.jobs id = none)
      (hevents : b'.events = Function.update b.events id (some (b.born id + 1)))
      (hset : b'.isSet = b.isSet)
      (hborn : b'.born = Function.update b.born id (b.born id + 1))
      (hcancels : b'.cancels = Function.update b.cancels id (some false))
      (hjobs : b'.jobs = Function.update b.jobs id (some r))
  | finished (id : JobId)
      (hevents : b'.events = Function.update b.events id none)
      (hset : b'.isSet = b.setFlag id) (hborn : b'.born = b.born)
      (hcancels : b'.cancels = Function.update b.cancels id none)
      (hjobs : ∀ jobId, (b'.jobs jobId).isSome = (b.jobs jobId).isSome)

section

variable {b b' : Backend} {id jobId : JobId}

theorem Change.refl (b : Backend) : Change b b := .same rfl rfl rfl (fun _ => rfl) fun _ => rfl

theorem isSome_put {r : Record} (h : b.jobs id = some r) (r' : Record) (jobId : JobId) :
    ((b.put id r').jobs jobId).isSome = (b.jobs jobId).isSome := by
  by_cases hid : jobId = id
  · subst hid
    simp [Backend.put, h]
  · simp [Backend.put, hid]

theorem change_enqueue (b : Backend) (record : Record) :
    Change b (b.enqueue record.id record) := by
  cases hj : b.jobs record.id with
  | some r =>
    rw [Backend.enqueue_of_some hj]
    exact .refl b
  | none =>
    simp only [Backend.enqueue, hj]
    exact .created record.id _ hj rfl rfl rfl rfl rfl

theorem change_claim {r? : Option Record} (h : b.claim = some (b', r?)) : Change b b' := by
  unfold Backend.claim at h
  cases hq : b.queue with
  | nil => simp [hq] at h
  | cons jobId rest =>
    simp only [hq] at h
    cases hj : b.jobs jobId with
    | none =>
      simp only [hj] at h
      cases h
      exact .same rfl rfl rfl (fun _ => rfl) fun _ => rfl
    | some r =>
      simp only [hj] at h
      cases h
      exact .same rfl rfl rfl (fun _ => rfl) fun _ => isSome_put hj _ _

theorem change_save (b : Backend) (jobId : JobId) (record : Record) :
    Change b ((b.save jobId record true).getD b) := by
  cases hj : b.jobs jobId with
  | none =>
    simp only [Backend.save, hj]
    exact .refl b
  | some r =>
    simp only [Backend.save, hj]
    exact .finished jobId rfl rfl rfl rfl fun _ => isSome_put hj _ _

theorem change_release (b : Backend) (jobId : JobId) :
    Change b ((b.release jobId).getD b) := by
  cases hj : b.jobs jobId with
  | none =>
    simp only [Backend.release, hj]
    exact .refl b
  | some r =>
    by_cases hs : r.status = .running
    · simp only [Backend.release, hj, if_pos hs]
      exact .same rfl rfl rfl (fun _ => rfl) fun _ => isSome_put hj _ _
    · simp only [Backend.release, hj, if_neg hs]
      exact .refl b

theorem change_requestCancel (b : Backend) (jobId : JobId) :
    Change b (b.requestCancel jobId) := by
  cases hj : b.jobs jobId with
  | none =>
    simp only [Backend.requestCancel, hj]
    exact .refl b
  | some r =>
    by_cases ht : r.status.terminal = true
    · simp only [Backend.requestCancel, hj, if_pos ht]
      exact .refl b
    · simp only [Backend.requestCancel, hj, if_neg ht]
      refine .same rfl rfl rfl (fun id => ?_) fun _ => isSome_put hj _ _
      by_cases hid : id = jobId
      · subst hid
        simp
      · simp [hid]

/-! ## Both events or neither -/

/-- The dictionaries agree, and an event that they hold is not set. -/
structure Primed (b : Backend) : Prop where
  paired : ∀ jobId, (b.events jobId).isSome = (b.cancels jobId).isSome
  stored : ∀ jobId, (b.events jobId).isSome = true → (b.jobs jobId).isSome = true
  unset : ∀ jobId n, b.events jobId = some n → b.isSet jobId n = false
  eventBorn : ∀ jobId n, b.events jobId = some n → n ≤ b.born jobId
  setBorn : ∀ jobId n, b.isSet jobId n = true → n ≤ b.born jobId

theorem primed_empty : Primed .empty where
  paired _ := rfl
  stored _ h := by cases h
  unset _ _ _ := rfl
  eventBorn _ _ h := by cases h
  setBorn _ _ h := by cases h

theorem setFlag_of_ne (h : jobId ≠ id) : b.setFlag id jobId = b.isSet jobId := by
  unfold Backend.setFlag
  cases b.events id with
  | none => rfl
  | some n => exact Function.update_of_ne h ..

theorem setFlag_cases {n : Nat} (h : b.setFlag id jobId n = true) :
    b.isSet jobId n = true ∨ jobId = id ∧ b.events id = some n := by
  unfold Backend.setFlag at h
  cases he : b.events id with
  | none =>
    rw [he] at h
    exact Or.inl h
  | some m =>
    rw [he] at h
    by_cases hid : jobId = id
    · subst hid
      by_cases hn : n = m
      · exact Or.inr ⟨rfl, by rw [hn]⟩
      · simp only [Function.update_self, Function.update_of_ne hn] at h
        exact Or.inl h
    · simp only [Function.update_of_ne hid] at h
      exact Or.inl h

/-- The events of one job are dropped, and at most its own one has been set. -/
theorem Primed.dropped (h : Primed b) (hevents : b'.events = Function.update b.events id none)
    (hcancels : b'.cancels = Function.update b.cancels id none) (hborn : b'.born = b.born)
    (hjobs : ∀ jobId, jobId ≠ id → (b'.jobs jobId).isSome = (b.jobs jobId).isSome)
    (hkept : ∀ jobId, jobId ≠ id → ∀ n, b'.isSet jobId n = b.isSet jobId n)
    (hset : ∀ jobId n, b'.isSet jobId n = true →
      b.isSet jobId n = true ∨ jobId = id ∧ b.events id = some n) : Primed b' := by
  have hevent : ∀ jobId n, b'.events jobId = some n →
      jobId ≠ id ∧ b.events jobId = some n := by
    intro jobId n he
    rw [hevents] at he
    rcases Function.update_eq_cases he with ⟨-, hn⟩ | hold
    · cases hn
    · exact hold
  constructor
  case paired =>
    intro jobId
    rw [hevents, hcancels]
    by_cases hid : jobId = id
    · simp [hid]
    · simpa [hid] using h.paired jobId
  case stored =>
    intro jobId he
    obtain ⟨n, hn⟩ := Option.isSome_iff_exists.mp he
    obtain ⟨hid, hold⟩ := hevent jobId n hn
    rw [hjobs jobId hid]
    exact h.stored jobId (by rw [hold]; rfl)
  case unset =>
    intro jobId n he
    obtain ⟨hid, hold⟩ := hevent jobId n he
    rw [hkept jobId hid]
    exact h.unset jobId n hold
  case eventBorn =>
    intro jobId n he
    rw [hborn]
    exact h.eventBorn jobId n (hevent jobId n he).2
  case setBorn =>
    intro jobId n hn
    rw [hborn]
    rcases hset jobId n hn with hold | ⟨rfl, he⟩
    · exact h.setBorn jobId n hold
    · exact h.eventBorn jobId n he

/-- **One operation.** -/
theorem Primed.change (h : Primed b) (hc : Change b b') : Primed b' := by
  cases hc with
  | same hevents hset hborn hcancels hjobs =>
    exact {
      paired := fun jobId => by rw [hevents, hcancels, h.paired]
      stored := fun jobId he => by
        rw [hjobs]
        exact h.stored jobId (hevents ▸ he)
      unset := fun jobId n he => by
        rw [hset]
        exact h.unset jobId n (hevents ▸ he)
      eventBorn := fun jobId n he => by
        rw [hborn]
        exact h.eventBorn jobId n (hevents ▸ he)
      setBorn := fun jobId n hn => by
        rw [hborn]
        exact h.setBorn jobId n (hset ▸ hn) }
  | created id r hfree hevents hset hborn hcancels hjobs =>
    have hevent : ∀ jobId n, b'.events jobId = some n →
        jobId = id ∧ n = b.born id + 1 ∨ jobId ≠ id ∧ b.events jobId = some n := by
      intro jobId n he
      rw [hevents] at he
      rcases Function.update_eq_cases he with ⟨hid, hn⟩ | hold
      · exact Or.inl ⟨hid, (Option.some.inj hn).symm⟩
      · exact Or.inr hold
    have hle : ∀ jobId, b.born jobId ≤ b'.born jobId := by
      intro jobId
      rw [hborn]
      by_cases hid : jobId = id
      · rw [hid, Function.update_self]
        exact Nat.le_succ _
      · rw [Function.update_of_ne hid]
    constructor
    case paired =>
      intro jobId
      rw [hevents, hcancels]
      by_cases hid : jobId = id
      · simp [hid]
      · simpa [hid] using h.paired jobId
    case stored =>
      intro jobId he
      rw [hevents] at he
      rw [hjobs]
      by_cases hid : jobId = id
      · simp [hid]
      · simp only [Function.update_of_ne hid] at he ⊢
        exact h.stored jobId he
    case unset =>
      intro jobId n he
      rw [hset]
      rcases hevent jobId n he with ⟨rfl, rfl⟩ | ⟨-, hold⟩
      · -- the new event is newer than any that was set
        by_contra hn
        have := h.setBorn jobId _ (by simpa using hn)
        omega
      · exact h.unset jobId n hold
    case eventBorn =>
      intro jobId n he
      rcases hevent jobId n he with ⟨rfl, rfl⟩ | ⟨-, hold⟩
      · rw [hborn, Function.update_self]
      · exact Nat.le_trans (h.eventBorn jobId n hold) (hle jobId)
    case setBorn =>
      intro jobId n hn
      rw [hset] at hn
      exact Nat.le_trans (h.setBorn jobId n hn) (hle jobId)
  | finished id hevents hset hborn hcancels hjobs =>
    exact h.dropped hevents hcancels hborn (fun jobId _ => hjobs jobId)
      (fun jobId hid n => by rw [hset, setFlag_of_ne hid])
      fun jobId n hn => setFlag_cases (hset ▸ hn)

theorem Primed.collect (h : Primed b) (jobId : JobId) : Primed (b.collect jobId).1 :=
  h.dropped rfl rfl rfl (fun _ hid => congrArg Option.isSome (Function.update_of_ne hid ..))
    (fun _ _ _ => rfl) fun _ _ hn => Or.inl hn

/-- An event stays in its dictionary until it is set. -/
theorem Change.event_kept (hp : Primed b) (hc : Change b b') {n : Nat}
    (he : b.events jobId = some n) (hn : b'.isSet jobId n = false) :
    b.isSet jobId n = false ∧ b'.events jobId = some n := by
  refine ⟨hp.unset jobId n he, ?_⟩
  cases hc with
  | same hevents hset hborn hcancels hjobs => rw [hevents, he]
  | created id r hfree hevents hset hborn hcancels hjobs =>
    have hid : jobId ≠ id := by
      rintro rfl
      have hstored := hp.stored jobId (by rw [he]; rfl)
      rw [hfree] at hstored
      cases hstored
    rw [hevents, Function.update_of_ne hid, he]
  | finished id hevents hset hborn hcancels hjobs =>
    have hid : jobId ≠ id := by
      rintro rfl
      rw [hset, Backend.setFlag, he] at hn
      simp at hn
    rw [hevents, Function.update_of_ne hid, he]

theorem Change.isSet_mono (hc : Change b b') {n : Nat} (h : b.isSet jobId n = true) :
    b'.isSet jobId n = true := by
  cases hc with
  | same hevents hset hborn hcancels hjobs => rw [hset, h]
  | created id r hfree hevents hset hborn hcancels hjobs => rw [hset, h]
  | finished id hevents hset hborn hcancels hjobs =>
    rw [hset]
    unfold Backend.setFlag
    cases b.events id with
    | none => exact h
    | some m =>
      by_cases hid : jobId = id
      · subst hid
        by_cases hm : n = m
        · simp [hm]
        · simpa [hm] using h
      · simpa [hid] using h

end

/-! ## Who waits -/

namespace System

/-- Every call that waits for an event which is not set waits for the one in the dictionary. -/
def NoneStranded (s : System) : Prop :=
  ∀ c jobId n, s.calls c = .waiting jobId n → s.backend.isSet jobId n = false →
    s.backend.events jobId = some n

/-- A terminal save wakes every call that waits for its job. -/
def WakesAll (s : System) (e : Event) (s' : System) : Prop :=
  ∀ write, e = .save write → s.backend.jobs write.record.id ≠ none →
    ∀ c n, s.calls c = .waiting write.record.id n → s'.backend.isSet write.record.id n = true

/-- A call that was woken finds no event for which others wait. -/
def leavesWaiters (s : System) : Event → Prop
  | .wake c => ∀ jobId n, s.calls c = .waiting jobId n →
      ∀ m, s.backend.events jobId = some m → ∀ c', s.calls c' ≠ .waiting jobId m
  | _ => True

variable {s s' : System} {e : Event}

/-- The calls stay as they are, and so does what they wait for. -/
theorem NoneStranded.change (h : s.NoneStranded) (hp : Primed s.backend) {b : Backend}
    (hc : Change s.backend b) : NoneStranded { s with backend := b } := by
  intro c jobId n hwait hn
  have hold : s.backend.isSet jobId n = false := by
    by_contra hset
    have := hc.isSet_mono (by simpa using hset)
    rw [hn] at this
    cases this
  exact (hc.event_kept hp (h c jobId n hwait hold) hn).2

theorem collect_eq (s : System) (c : CallId) (jobId : JobId) :
    ∃ p, (∀ id n, p ≠ .waiting id n) ∧
      s.collect c jobId = ⟨(s.backend.collect jobId).1, Function.update s.calls c p⟩ := by
  unfold collect
  cases hr : s.backend.jobs jobId with
  | some r =>
    exact ⟨.returned ⟨jobId, r, s.backend.born jobId⟩, by simp, by simp [Backend.collect, hr]⟩
  | none => exact ⟨.missing jobId, by simp, by simp [Backend.collect, hr]⟩

/-- A call that collects a job takes an event away from nobody. -/
theorem NoneStranded.collect (h : s.NoneStranded) {c : CallId} {jobId : JobId}
    (hnone : ∀ m, s.backend.events jobId = some m → ∀ c', s.calls c' ≠ .waiting jobId m) :
    NoneStranded (s.collect c jobId) := by
  obtain ⟨p, hp, hcollect⟩ := s.collect_eq c jobId
  rw [hcollect]
  intro c' id n hwait hn
  rcases Function.update_eq_cases hwait with ⟨-, hnew⟩ | ⟨-, hold⟩
  · exact absurd hnew (hp id n)
  · have he := h c' id n hold hn
    have hid : id ≠ jobId := by
      rintro rfl
      exact hnone n he c' hold
    show Function.update s.backend.events jobId none id = some n
    rw [Function.update_of_ne hid, he]

/-- What a step is: an operation between calls, the start of a call that waits, or the end of a
call, which was woken or found no event. -/
theorem step_cases (hp : Primed s.backend) (hs : s.step e = some s') :
    (∃ b, Change s.backend b ∧ s' = { s with backend := b } ∧ ∀ c, e ≠ .wake c) ∨
      (∃ c jobId n, s.backend.events jobId = some n ∧ (∀ c, e ≠ .wake c) ∧
        s' = { s with calls := Function.update s.calls c (.waiting jobId n) }) ∨
      (∃ c jobId, s' = s.collect c jobId ∧
        (s.backend.events jobId = none ∧ (∀ c, e ≠ .wake c) ∨
          ∃ n, e = .wake c ∧ s.calls c = .waiting jobId n ∧ s.backend.isSet jobId n = true)) := by
  cases e with
  | enqueue record =>
    cases hs
    exact Or.inl ⟨_, change_enqueue _ record, rfl, by simp⟩
  | claim =>
    simp only [step, Option.map_eq_some_iff] at hs
    obtain ⟨⟨b, r?⟩, hb, rfl⟩ := hs
    exact Or.inl ⟨b, change_claim hb, rfl, by simp⟩
  | save write =>
    cases hs
    exact Or.inl ⟨_, change_save _ _ _, rfl, by simp⟩
  | release jobId =>
    cases hs
    exact Or.inl ⟨_, change_release _ jobId, rfl, by simp⟩
  | requestCancel jobId =>
    cases hs
    exact Or.inl ⟨_, change_requestCancel _ jobId, rfl, by simp⟩
  | take c jobId =>
    simp only [step, Option.ite_none_right_eq_some] at hs
    obtain ⟨-, hs⟩ := hs
    cases he : s.backend.events jobId with
    | none =>
      simp only [he] at hs
      cases hs
      exact Or.inr (Or.inr ⟨c, jobId, rfl, Or.inl ⟨he, by simp⟩⟩)
    | some n =>
      simp only [he, hp.unset jobId n he, Bool.false_eq_true, if_false, Option.some.injEq] at hs
      exact Or.inr (Or.inl ⟨c, jobId, n, he, by simp, hs.symm⟩)
  | wake c =>
    simp only [step] at hs
    split at hs
    case h_1 jobId n hwait =>
      split_ifs at hs with hset
      cases hs
      exact Or.inr (Or.inr ⟨c, jobId, rfl, Or.inr ⟨n, rfl, hwait, hset⟩⟩)
    case h_2 => cases hs

theorem step_primed (hp : Primed s.backend) (hs : s.step e = some s') : Primed s'.backend := by
  rcases step_cases hp hs with ⟨b, hc, rfl, -⟩ | ⟨c, jobId, n, -, -, rfl⟩ | ⟨c, jobId, rfl, -⟩
  · exact hp.change hc
  · exact hp
  · obtain ⟨p, -, hcollect⟩ := s.collect_eq c jobId
    rw [hcollect]
    exact hp.collect jobId

theorem step_noneStranded (hp : Primed s.backend) (h : s.NoneStranded)
    (hC : s.leavesWaiters e) (hs : s.step e = some s') : s'.NoneStranded := by
  rcases step_cases hp hs with ⟨b, hc, rfl, -⟩ | ⟨c, jobId, n, he, -, rfl⟩ | ⟨c, jobId, rfl, hend⟩
  · exact h.change hp hc
  · intro c' id m hwait hm
    rcases Function.update_eq_cases hwait with ⟨-, hnew⟩ | ⟨-, hold⟩
    · cases hnew
      exact he
    · exact h c' id m hold hm
  · refine h.collect fun m hm => ?_
    rcases hend with ⟨hnone, -⟩ | ⟨n, rfl, hwait, -⟩
    · rw [hnone] at hm
      cases hm
    · exact hC jobId n hwait m hm

/-- A call that takes the event for which others wait leaves them without one. -/
theorem leavesWaiters_of_noneStranded (hp : Primed s.backend) (hs : s.step e = some s')
    (h' : s'.NoneStranded) : s.leavesWaiters e := by
  cases e with
  | wake c =>
    intro jobId n hwait m hm c' hwait'
    rcases step_cases hp hs with ⟨b, -, -, hne⟩ | ⟨-, -, -, -, hne, -⟩ | ⟨c₀, id, rfl, hend⟩
    · exact hne c rfl
    · exact hne c rfl
    · rcases hend with ⟨-, hne⟩ | ⟨n₀, hc, hwait₀, hset⟩
      · exact hne c rfl
      · cases hc
        rw [hwait] at hwait₀
        cases hwait₀
        -- the two calls wait for different events, and only one of these is set
        have hunset := hp.unset jobId m hm
        have hne : c' ≠ c := by
          rintro rfl
          rw [hwait] at hwait'
          cases hwait'
          rw [hset] at hunset
          cases hunset
        obtain ⟨p, -, hcollect⟩ := s.collect_eq c jobId
        rw [hcollect] at h'
        have he := h' c' jobId m ((Function.update_of_ne hne ..).trans hwait') hunset
        have hnone : Function.update s.backend.events jobId none jobId = some m := he
        rw [Function.update_self] at hnone
        cases hnone
  | _ => trivial

theorem step_wakesAll (h : s.NoneStranded) (hs : s.step e = some s') : s.WakesAll e s' := by
  rintro write rfl hstored c n hwait
  cases hs
  obtain ⟨r, hj⟩ := Option.ne_none_iff_exists'.mp hstored
  have hset : ((s.backend.save write.record.id write.record true).getD s.backend).isSet =
      s.backend.setFlag write.record.id := by
    simp only [Backend.save, hj]
    rfl
  show ((s.backend.save write.record.id write.record true).getD s.backend).isSet _ n = true
  rw [hset]
  cases hn : s.backend.isSet write.record.id n with
  | false =>
    have he := h c _ n hwait hn
    simp [Backend.setFlag, he]
  | true =>
    unfold Backend.setFlag
    cases s.backend.events write.record.id with
    | none => exact hn
    | some m =>
      by_cases hm : n = m
      · simp [hm]
      · simpa [hm] using hn

/-- **Both events or neither**, in every run: what the two dictionaries hold never outlives
the record, so they do not grow with the jobs that have been collected. -/
theorem primed_along (es : List Event) :
    machine.Along (fun _ _ s' => Primed s'.backend) machine.init es :=
  Machine.along_of_invariant (J := fun s => Primed s.backend) (C := fun _ _ => True)
    (fun _ _ _ hp _ hs => have hp' := step_primed hp hs; ⟨hp', hp'⟩) primed_empty
    (Machine.along_true es _)

/-- **When nobody is stranded.** Over a run every call of `take_result` that waits is one that
the next terminal save of the job wakes, exactly when no call that was woken late takes away an
event for which others wait. -/
theorem noneStranded_iff (es : List Event) :
    machine.Along (fun s e s' => s'.NoneStranded ∧ s.WakesAll e s') machine.init es ↔
      machine.Along (fun s e _ => s.leavesWaiters e) machine.init es := by
  refine Machine.along_iff_along (J := fun s => Primed s.backend ∧ s.NoneStranded)
    (E := fun _ _ => True) ?_ ?_ ⟨primed_empty, fun _ _ _ h => by cases h⟩ (Machine.along_true es _)
  · rintro s e s' ⟨hp, h⟩ - hs hC
    have h' := step_noneStranded hp h hC hs
    exact ⟨⟨h', step_wakesAll h hs⟩, step_primed hp hs, h'⟩
  · rintro s e s' ⟨hp, -⟩ - hs ⟨h', -⟩
    exact leavesWaiters_of_noneStranded hp hs h'

end System

end TaskQueue.Memory
