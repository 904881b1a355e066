import TaskQueue.Library.Machine
import TaskQueue.Memory.Backend
import TaskQueue.Receipt

/-!
# `take_result` in memory

A call waits for the job's event and, some scheduler steps after the event was set,
frees the job and returns its record. Between the two, other tasks run: another
call that was woken by the same event takes the record first, a producer enqueues
the id again, a worker claims it.

`gapKept` is the condition under which the record is still the one the event was
set for: no enqueue creates a record of a job for which a woken call is due, and no
claim marks a finished record. The invariant `Watched` relates the events to the
records; the receipts are those of `Issued`.
-/

namespace TaskQueue.Memory

/-- One call of `take_result`. -/
abbrev CallId := Nat

/-- A call: waiting for the event of incarnation `event`; returned a record; raised
`KeyError`. -/
inductive CallPhase where
  | uncalled
  | waiting (jobId : JobId) (event : Nat)
  | returned (receipt : Receipt)
  | missing (jobId : JobId)
deriving DecidableEq

/-- What a call has returned, if it has. -/
def CallPhase.receipt : CallPhase → Option Receipt
  | .returned x => some x
  | _ => none

/-- The backend and the calls on it. -/
structure System where
  backend : Backend
  calls : CallId → CallPhase

/-- One scheduler step; `wake` resumes a call whose event has been set. -/
inductive Event where
  | enqueue (record : Record)
  | claim
  | save (write : Finished)
  | release (jobId : JobId)
  | requestCancel (jobId : JobId)
  | take (c : CallId) (jobId : JobId)
  | wake (c : CallId)
deriving DecidableEq

namespace System

/-- No jobs, no calls. -/
def init : System := ⟨.empty, fun _ => .uncalled⟩

/-- Call `c` frees job `jobId` and ends. -/
def collect (s : System) (c : CallId) (jobId : JobId) : System :=
  match s.backend.collect jobId with
  | (b, some r) => ⟨b, Function.update s.calls c (.returned ⟨jobId, r, s.backend.born jobId⟩)⟩
  | (b, none) => ⟨b, Function.update s.calls c (.missing jobId)⟩

/-- One event; an operation that raises changes nothing. -/
def step (s : System) : Event → Option System
  | .enqueue record => some { s with backend := s.backend.enqueue record.id record }
  | .claim => s.backend.claim.map fun (b, _) => { s with backend := b }
  | .save write =>
    some { s with backend := (s.backend.save write.record.id write.record true).getD s.backend }
  | .release jobId => some { s with backend := (s.backend.release jobId).getD s.backend }
  | .requestCancel jobId => some { s with backend := s.backend.requestCancel jobId }
  | .take c jobId =>
    if s.calls c = .uncalled then
      match s.backend.events jobId with
      | some n =>
        if s.backend.isSet jobId n then
          some (s.collect c jobId)
        else
          some { s with calls := Function.update s.calls c (.waiting jobId n) }
      | none => some (s.collect c jobId)
    else none
  | .wake c =>
    match s.calls c with
    | .waiting jobId n => if s.backend.isSet jobId n then some (s.collect c jobId) else none
    | _ => none

/-- The backend and its calls as a machine. -/
def machine : Machine System Event where
  init := init
  step := step

/-! ## The condition and the promise -/

/-- No enqueue creates a record of a job for which a woken call is due, and no claim
marks a finished record. -/
def gapKept (s : System) : Event → Prop
  | .enqueue record => s.backend.jobs record.id = none →
      ∀ c n, s.calls c = .waiting record.id n → s.backend.isSet record.id n = false
  | .claim => ∀ jobId rest r, s.backend.queue = jobId :: rest →
      s.backend.jobs jobId = some r → r.status.terminal = false
  | _ => True

/-- What is promised of every step: the receipts are single, and a record that is
deleted is finished. -/
def TakesFinished (s : System) (_ : Event) (s' : System) : Prop :=
  SingleConsumer (fun c => (s'.calls c).receipt) ∧
    ∀ jobId r, s.backend.jobs jobId = some r → s'.backend.jobs jobId = none →
      r.status.terminal = true

/-! ## The invariant -/

/-- The events and the records: a call that is due, and a call that would find no
event, find the record settled; an event in the dictionary is not set, and belongs
to the latest incarnation or an earlier one. -/
structure Watched (s : System) : Prop where
  woken : ∀ c jobId n, s.calls c = .waiting jobId n → s.backend.isSet jobId n = true →
    s.backend.Settled jobId
  unwatched : ∀ jobId, s.backend.events jobId = none → s.backend.Settled jobId
  unset : ∀ jobId n, s.backend.events jobId = some n → s.backend.isSet jobId n = false
  eventBorn : ∀ jobId n, s.backend.events jobId = some n → n ≤ s.backend.born jobId
  setBorn : ∀ jobId n, s.backend.isSet jobId n = true → n ≤ s.backend.born jobId

/-- The invariant of the system. -/
structure Collecting (s : System) : Prop extends Watched s where
  issued : Issued (fun jobId => (s.backend.jobs jobId).isSome = true) s.backend.born
    fun c => (s.calls c).receipt

theorem collecting_init : Collecting init where
  woken _ _ _ h := nomatch h
  unwatched _ _ _ h := nomatch h
  unset _ _ h := nomatch h
  eventBorn _ _ h := nomatch h
  setBorn _ _ h := nomatch h
  issued := .init

/-- A backend that only writes a record over another one, which was not settled. -/
theorem Collecting.rewrite {s : System} (h : Collecting s) {b : Backend} {id : JobId}
    {r r' : Record} (hr : s.backend.jobs id = some r) (ht : r.status.terminal = false)
    (hjobs : b.jobs = Function.update s.backend.jobs id (some r'))
    (hevents : b.events = s.backend.events) (hset : b.isSet = s.backend.isSet)
    (hborn : b.born = s.backend.born) : Collecting { s with backend := b } where
  woken c jobId n hc hn := by
    have hs := h.woken c jobId n hc (hset ▸ hn)
    exact Backend.settled_of_update hjobs (fun _ => hs) fun hid => (hid ▸ hs).absurd hr ht
  unwatched jobId hn := by
    have hs := h.unwatched jobId (hevents ▸ hn)
    exact Backend.settled_of_update hjobs (fun _ => hs) fun hid => (hid ▸ hs).absurd hr ht
  unset jobId n hn := by
    show b.isSet jobId n = false
    rw [hset]
    exact h.unset jobId n (hevents ▸ hn)
  eventBorn jobId n hn := by
    show n ≤ b.born jobId
    rw [hborn]
    exact h.eventBorn jobId n (hevents ▸ hn)
  setBorn jobId n hn := by
    show n ≤ b.born jobId
    rw [hborn]
    exact h.setBorn jobId n (hset ▸ hn)
  issued := by
    show Issued (fun jobId => (b.jobs jobId).isSome = true) b.born _
    rw [hborn]
    refine h.issued.congr (fun _ => rfl) fun jobId hsome => ?_
    rw [hjobs] at hsome
    by_cases hid : jobId = id
    · rw [hid, hr]
      rfl
    · rwa [Function.update_of_ne hid] at hsome

/-- A backend that differs in its queue and its cancel events only. -/
theorem Collecting.same {s : System} (h : Collecting s) {b : Backend}
    (hjobs : b.jobs = s.backend.jobs) (hevents : b.events = s.backend.events)
    (hset : b.isSet = s.backend.isSet) (hborn : b.born = s.backend.born) :
    Collecting { s with backend := b } := by
  obtain ⟨jobs, events, isSet, queue, cancels, born⟩ := b
  obtain rfl : jobs = s.backend.jobs := hjobs
  obtain rfl : events = s.backend.events := hevents
  obtain rfl : isSet = s.backend.isSet := hset
  obtain rfl : born = s.backend.born := hborn
  exact ⟨⟨h.woken, h.unwatched, h.unset, h.eventBorn, h.setBorn⟩, h.issued⟩

/-- A backend in which job `id`, which did not exist, is stored with an event of its
own. -/
theorem Collecting.create {s : System} (h : Collecting s) {b : Backend} {id : JobId}
    {r : Record} (hj : s.backend.jobs id = none)
    (hdue : ∀ c n, s.calls c = .waiting id n → s.backend.isSet id n = false)
    (hjobs : b.jobs = Function.update s.backend.jobs id (some r))
    (hevents : b.events = Function.update s.backend.events id (some (s.backend.born id + 1)))
    (hset : b.isSet = s.backend.isSet)
    (hborn : b.born = Function.update s.backend.born id (s.backend.born id + 1)) :
    Collecting { s with backend := b } := by
  have hevent : ∀ jobId n, b.events jobId = some n →
      jobId = id ∧ n = s.backend.born id + 1 ∨
        jobId ≠ id ∧ s.backend.events jobId = some n := by
    intro jobId n hn
    rw [hevents] at hn
    by_cases hid : jobId = id
    · rw [hid, Function.update_self, Option.some.injEq] at hn
      exact Or.inl ⟨hid, hn.symm⟩
    · rw [Function.update_of_ne hid] at hn
      exact Or.inr ⟨hid, hn⟩
  have hle : ∀ jobId, s.backend.born jobId ≤ b.born jobId := by
    intro jobId
    rw [hborn]
    by_cases hid : jobId = id
    · rw [hid, Function.update_self]
      exact Nat.le_succ _
    · rw [Function.update_of_ne hid]
  refine ⟨⟨fun c jobId n hc hn => ?_, fun jobId hn => ?_, fun jobId n hn => ?_,
    fun jobId n hn => ?_, fun jobId n hn => ?_⟩, ?_⟩
  · change b.isSet jobId n = true at hn
    rw [hset] at hn
    refine Backend.settled_of_update hjobs (fun _ => h.woken c jobId n hc hn) fun hid => ?_
    -- no woken call is due for the job
    subst hid
    rw [hdue c n hc] at hn
    cases hn
  · change b.events jobId = none at hn
    rw [hevents] at hn
    by_cases hid : jobId = id
    · rw [hid, Function.update_self] at hn
      cases hn
    · rw [Function.update_of_ne hid] at hn
      exact Backend.settled_of_update hjobs (fun _ => h.unwatched jobId hn)
        fun he => absurd he hid
  · show b.isSet jobId n = false
    rw [hset]
    rcases hevent jobId n hn with ⟨rfl, rfl⟩ | ⟨-, hn⟩
    · -- the new event is newer than any that was set
      cases hn' : s.backend.isSet jobId (s.backend.born jobId + 1) with
      | false => rfl
      | true => exact absurd (h.setBorn jobId _ hn') (by omega)
    · exact h.unset jobId n hn
  · show n ≤ b.born jobId
    rcases hevent jobId n hn with ⟨rfl, rfl⟩ | ⟨-, hn⟩
    · rw [hborn, Function.update_self]
    · exact (h.eventBorn jobId n hn).trans (hle jobId)
  · change b.isSet jobId n = true at hn
    rw [hset] at hn
    exact (h.setBorn jobId n hn).trans (hle jobId)
  · show Issued (fun jobId => (b.jobs jobId).isSome = true) b.born _
    rw [hborn]
    refine h.issued.create id fun jobId hne hsome => ?_
    rwa [hjobs, Function.update_of_ne hne] at hsome

/-- A backend in which the record of job `id` is overwritten by a terminal one, and
then its event is set and dropped. -/
theorem Collecting.finish {s : System} (h : Collecting s) {b : Backend} {id : JobId}
    {r r' : Record} (hr : s.backend.jobs id = some r) (ht : r'.status.terminal = true)
    (hjobs : b.jobs = Function.update s.backend.jobs id (some r'))
    (hevents : b.events = Function.update s.backend.events id none)
    (hset : ∀ jobId n, b.isSet jobId n = true → s.backend.isSet jobId n = true ∨
      jobId = id ∧ s.backend.events id = some n)
    (hkept : ∀ jobId n, jobId ≠ id → b.isSet jobId n = s.backend.isSet jobId n)
    (hborn : b.born = s.backend.born) : Collecting { s with backend := b } := by
  have hsettled : ∀ jobId, (jobId ≠ id → s.backend.Settled jobId) → b.Settled jobId := by
    refine fun jobId hne => Backend.settled_of_update hjobs hne fun _ r₁ hr₁ => ?_
    cases hr₁
    exact ht
  have hevent : ∀ jobId n, b.events jobId = some n →
      jobId ≠ id ∧ s.backend.events jobId = some n := by
    intro jobId n hn
    rw [hevents] at hn
    by_cases hid : jobId = id
    · rw [hid, Function.update_self] at hn
      cases hn
    · rw [Function.update_of_ne hid] at hn
      exact ⟨hid, hn⟩
  refine ⟨⟨fun c jobId n hc hn => ?_, fun jobId hn => ?_, fun jobId n hn => ?_,
    fun jobId n hn => ?_, fun jobId n hn => ?_⟩, ?_⟩
  · refine hsettled jobId fun hid => h.woken c jobId n hc ?_
    exact (hkept jobId n hid).symm.trans hn
  · refine hsettled jobId fun hid => h.unwatched jobId ?_
    change b.events jobId = none at hn
    rwa [hevents, Function.update_of_ne hid] at hn
  · show b.isSet jobId n = false
    obtain ⟨hid, hn⟩ := hevent jobId n hn
    rw [hkept jobId n hid]
    exact h.unset jobId n hn
  · show n ≤ b.born jobId
    rw [hborn]
    exact h.eventBorn jobId n (hevent jobId n hn).2
  · show n ≤ b.born jobId
    rw [hborn]
    rcases hset jobId n hn with hn | ⟨rfl, hn⟩
    · exact h.setBorn jobId n hn
    · exact h.eventBorn jobId n hn
  · show Issued (fun jobId => (b.jobs jobId).isSome = true) b.born _
    rw [hborn]
    refine h.issued.congr (fun _ => rfl) fun jobId hsome => ?_
    by_cases hid : jobId = id
    · rw [hid, hr]
      rfl
    · rwa [hjobs, Function.update_of_ne hid] at hsome

/-! ## One step -/

theorem Collecting.enqueue {s : System} (h : Collecting s) {record : Record}
    (hgap : gapKept s (.enqueue record)) :
    Collecting { s with backend := s.backend.enqueue record.id record } := by
  cases hj : s.backend.jobs record.id with
  | some r =>
    rw [Backend.enqueue_of_some hj]
    exact h
  | none =>
    simp only [Backend.enqueue, hj]
    exact h.create hj (hgap hj) rfl rfl rfl rfl

theorem Collecting.claim {s : System} (h : Collecting s) (hgap : gapKept s .claim)
    {b : Backend} {r? : Option Record} (hb : s.backend.claim = some (b, r?)) :
    Collecting { s with backend := b } := by
  unfold Backend.claim at hb
  cases hq : s.backend.queue with
  | nil =>
    rw [hq] at hb
    cases hb
  | cons jobId rest =>
    simp only [hq] at hb
    cases hj : s.backend.jobs jobId with
    | none =>
      simp only [hj] at hb
      cases hb
      exact h.same rfl rfl rfl rfl
    | some r =>
      simp only [hj] at hb
      cases hb
      exact h.rewrite hj (hgap jobId rest r hq hj) rfl rfl rfl rfl

theorem Collecting.release {s : System} (h : Collecting s) (jobId : JobId) :
    Collecting { s with backend := (s.backend.release jobId).getD s.backend } := by
  cases hj : s.backend.jobs jobId with
  | none =>
    simp only [Backend.release, hj]
    exact h
  | some r =>
    by_cases hs : r.status = .running
    · simp only [Backend.release, hj, if_pos hs]
      exact h.rewrite hj (by rw [hs]; rfl) rfl rfl rfl rfl
    · simp only [Backend.release, hj, if_neg hs]
      exact h

theorem Collecting.requestCancel {s : System} (h : Collecting s) (jobId : JobId) :
    Collecting { s with backend := s.backend.requestCancel jobId } := by
  cases hj : s.backend.jobs jobId with
  | none =>
    simp only [Backend.requestCancel, hj]
    exact h
  | some r =>
    cases ht : r.status.terminal with
    | true =>
      simp only [Backend.requestCancel, hj, ht, if_true]
      exact h
    | false =>
      simp only [Backend.requestCancel, hj, ht]
      exact h.rewrite hj ht rfl rfl rfl rfl

theorem Collecting.save {s : System} (h : Collecting s) (write : Finished) :
    Collecting { s with
      backend := (s.backend.save write.record.id write.record true).getD s.backend } := by
  cases hj : s.backend.jobs write.record.id with
  | none =>
    simp only [Backend.save, hj]
    exact h
  | some r =>
    cases he : s.backend.events write.record.id with
    | none =>
      simp only [Backend.save, hj, Backend.put, he, if_true, Option.getD_some]
      exact h.finish hj write.terminal rfl rfl (fun _ _ hn => Or.inl hn) (fun _ _ _ => rfl) rfl
    | some m =>
      simp only [Backend.save, hj, Backend.put, he, if_true, Option.getD_some]
      refine h.finish hj write.terminal rfl rfl (fun jobId n hn => ?_) (fun jobId n hid => ?_) rfl
      · by_cases hid : jobId = write.record.id
        · subst hid
          simp only [Function.update_self] at hn
          by_cases hm : n = m
          · exact Or.inr ⟨rfl, hm ▸ he⟩
          · exact Or.inl (by rwa [Function.update_of_ne hm] at hn)
        · exact Or.inl (by simpa only [Function.update_of_ne hid] using hn)
      · simp only [Function.update_of_ne hid]

/-- A call takes a settled record. -/
theorem Collecting.collect {s : System} (h : Collecting s) {c : CallId} {jobId : JobId}
    (hc : (s.calls c).receipt = none) (hs : s.backend.Settled jobId) :
    Collecting (s.collect c jobId) ∧ ∀ id r, s.backend.jobs id = some r →
      (s.collect c jobId).backend.jobs id = none → r.status.terminal = true := by
  have hbackend : (s.collect c jobId).backend = (s.backend.collect jobId).1 := by
    cases hj : s.backend.jobs jobId <;> simp [System.collect, Backend.collect, hj]
  have hcalls : ∀ c', c' ≠ c → (s.collect c jobId).calls c' = s.calls c' := by
    intro c' hne
    cases hj : s.backend.jobs jobId <;>
      simp [System.collect, Backend.collect, hj, Function.update_of_ne hne]
  have hself : ∀ id n, (s.collect c jobId).calls c ≠ .waiting id n := by
    intro id n
    cases hj : s.backend.jobs jobId <;> simp [System.collect, Backend.collect, hj]
  have hjobs : ∀ id, id ≠ jobId → (s.backend.collect jobId).1.jobs id = s.backend.jobs id :=
    fun id hne => Function.update_of_ne hne _ _
  have hnone : (s.backend.collect jobId).1.jobs jobId = none := Function.update_self ..
  have hsettled : ∀ id, (id ≠ jobId → s.backend.Settled id) →
      (s.backend.collect jobId).1.Settled id :=
    fun id hid => Backend.settled_of_update rfl hid fun _ _ hr => nomatch hr
  have hmono : ∀ id, ((s.backend.collect jobId).1.jobs id).isSome = true →
      (s.backend.jobs id).isSome = true := by
    intro id hid
    by_cases hne : id = jobId
    · subst hne
      rw [hnone] at hid
      cases hid
    · rwa [hjobs id hne] at hid
  refine ⟨⟨⟨?_, ?_, ?_, ?_, ?_⟩, ?_⟩, ?_⟩
  · intro c' id n hc' hn
    rw [hbackend] at hn ⊢
    have hcc : c' ≠ c := by
      rintro rfl
      exact hself id n hc'
    rw [hcalls c' hcc] at hc'
    exact hsettled id fun _ => h.woken c' id n hc' hn
  · intro id hn
    rw [hbackend] at hn ⊢
    refine hsettled id fun hne => h.unwatched id ?_
    rwa [show (s.backend.collect jobId).1.events id = s.backend.events id from
      Function.update_of_ne hne _ _] at hn
  · intro id n hn
    rw [hbackend] at hn ⊢
    by_cases hne : id = jobId
    · subst hne
      rw [show (s.backend.collect id).1.events id = none from Function.update_self ..] at hn
      cases hn
    · rw [show (s.backend.collect jobId).1.events id = s.backend.events id from
        Function.update_of_ne hne _ _] at hn
      exact h.unset id n hn
  · intro id n hn
    rw [hbackend] at hn ⊢
    by_cases hne : id = jobId
    · subst hne
      rw [show (s.backend.collect id).1.events id = none from Function.update_self ..] at hn
      cases hn
    · rw [show (s.backend.collect jobId).1.events id = s.backend.events id from
        Function.update_of_ne hne _ _] at hn
      exact h.eventBorn id n hn
  · intro id n hn
    rw [hbackend] at hn ⊢
    exact h.setBorn id n hn
  · rw [hbackend]
    show Issued _ s.backend.born _
    cases hj : s.backend.jobs jobId with
    | none =>
      refine h.issued.congr (fun c' => ?_) hmono
      by_cases hcc : c' = c
      · subst hcc
        rw [hc]
        simp [System.collect, Backend.collect, hj, CallPhase.receipt]
      · rw [hcalls c' hcc]
    | some r =>
      have hstored : (s.backend.jobs jobId).isSome = true := by rw [hj]; rfl
      refine h.issued.hand (c := c) hstored ?_ hmono (hs r hj) ?_
      · simp [hnone]
      · funext c'
        by_cases hcc : c' = c
        · subst hcc
          rw [Function.update_self]
          simp [System.collect, Backend.collect, hj, CallPhase.receipt]
        · rw [Function.update_of_ne hcc, hcalls c' hcc]
  · intro id r hr hgone
    rw [hbackend] at hgone
    by_cases hne : id = jobId
    · subst hne
      exact hs r hr
    · rw [hjobs id hne, hr] at hgone
      cases hgone

/-- A call starts to wait for an event that is not set. -/
theorem Collecting.wait {s : System} (h : Collecting s) {c : CallId} {jobId : JobId} {n : Nat}
    (hc : s.calls c = .uncalled) (hn : s.backend.isSet jobId n = false) :
    Collecting { s with calls := Function.update s.calls c (.waiting jobId n) } := by
  refine ⟨⟨fun c' id m hc' hm => ?_, h.unwatched, h.unset, h.eventBorn, h.setBorn⟩, ?_⟩
  · change Function.update s.calls c _ c' = _ at hc'
    by_cases hcc : c' = c
    · subst hcc
      rw [Function.update_self] at hc'
      cases hc'
      rw [show s.backend.isSet jobId n = true from hm] at hn
      cases hn
    · rw [Function.update_of_ne hcc] at hc'
      exact h.woken c' id m hc' hm
  · refine h.issued.congr (fun c' => ?_) fun _ => id
    show (Function.update s.calls c _ c').receipt = _
    by_cases hcc : c' = c
    · rw [hcc, Function.update_self, hc]
      rfl
    · rw [Function.update_of_ne hcc]

/-- A step that deletes no record. -/
theorem takesFinished_of_keeps {s s' : System} {e : Event} (h : Collecting s')
    (hkeeps : s.backend.Keeps s'.backend) : TakesFinished s e s' ∧ Collecting s' :=
  ⟨⟨h.issued.singleConsumer, fun jobId r hr hn => absurd hn (hkeeps jobId r hr)⟩, h⟩

theorem Collecting.step {s s' : System} {e : Event} (h : Collecting s)
    (hs : s.step e = some s') (hgap : gapKept s e) : TakesFinished s e s' ∧ Collecting s' := by
  have hcollect : ∀ {c jobId}, (s.calls c).receipt = none → s.backend.Settled jobId →
      TakesFinished s e (s.collect c jobId) ∧ Collecting (s.collect c jobId) := by
    intro c jobId hc hsettled
    obtain ⟨h', hdel⟩ := h.collect hc hsettled
    exact ⟨⟨h'.issued.singleConsumer, hdel⟩, h'⟩
  cases e with
  | enqueue record =>
    cases hs
    exact takesFinished_of_keeps (h.enqueue hgap) (Backend.keeps_enqueue _ _)
  | claim =>
    obtain ⟨⟨b, r?⟩, hb, rfl⟩ := Option.map_eq_some_iff.mp hs
    exact takesFinished_of_keeps (h.claim hgap hb) (Backend.keeps_claim hb)
  | save write =>
    cases hs
    exact takesFinished_of_keeps (h.save write) (Backend.keeps_save _ _ _)
  | release id =>
    cases hs
    exact takesFinished_of_keeps (h.release id) (Backend.keeps_release _)
  | requestCancel id =>
    cases hs
    exact takesFinished_of_keeps (h.requestCancel id) (Backend.keeps_requestCancel _)
  | take c jobId =>
    simp only [System.step, Option.ite_none_right_eq_some] at hs
    obtain ⟨hc, hs⟩ := hs
    have hnone : (s.calls c).receipt = none := by rw [hc]; rfl
    cases hev : s.backend.events jobId with
    | none =>
      simp only [hev, Option.some.injEq] at hs
      subst hs
      exact hcollect hnone (h.unwatched jobId hev)
    | some n =>
      simp only [hev, h.unset jobId n hev, Bool.false_eq_true, if_false,
        Option.some.injEq] at hs
      subst hs
      exact takesFinished_of_keeps (h.wait hc (h.unset jobId n hev))
        (Backend.keeps_of_jobs_eq rfl)
  | wake c =>
    simp only [System.step] at hs
    split at hs
    · rename_i jobId n hc
      simp only [Option.ite_none_right_eq_some, Option.some.injEq] at hs
      obtain ⟨hn, rfl⟩ := hs
      exact hcollect (by rw [hc]; rfl) (h.woken c jobId n hc hn)
    · cases hs

/-! ## Whole runs -/

/-- **Single consumer in memory.** In a run in which no enqueue and no claim comes
between the wake-up of a call and its end, every receipt is a terminal record of an
incarnation that no other call returned, and no unfinished record is deleted. -/
theorem takesFinished_along {es : List Event}
    (hgap : machine.Along (fun s e _ => gapKept s e) init es) :
    machine.Along TakesFinished init es := by
  refine Machine.along_of_invariant (J := Collecting) (C := gapKept) ?_
    collecting_init hgap
  exact fun s e s' h hc hs => h.step hs hc

end System

end TaskQueue.Memory
