import TaskQueue.Library.Machine
import TaskQueue.Redis.Server

/-!
# Calls on one handle (`JobHandle`)

One handle, any number of `result()` and `status()` calls on it, and the worker of its
job, on one Redis server. Every command of a call is sent, executed by the server
(`served`) and answered (`replied`), with anything else in between; the fetch-and-delete
frees the record when it is executed, and the handle has it once the reply has been
decoded.

A call may be `interrupted` at every `await`: it is cancelled there, or what it awaits
raises. An interrupted fetch-and-delete may be on its way to the server already
(`abandoned`), and be executed after the call has ended. `leave` suppresses a
cancellation, and the call goes on.

The handle is the only consumer of the job and nothing expires. Among the clients of the
job there is whoever holds it (`Stage`): BLMOVE hands the id to a worker, which claims it
and then releases it or saves it in a terminal status.
-/

namespace TaskQueue

open Redis

/-! ## Calls -/

namespace Handle

/-- A call of `result()` or of `status()`. -/
abbrev CallId := Nat

/-- How a call ends without an answer. `interrupted` stands for the cancellation, or the
error of the connection. -/
inductive Failure where
  | keyError
  | undecodable
  | interrupted
deriving DecidableEq

/-- Where a call of `take_result` goes when it has left its channel. -/
inductive Exit where
  | take
  | raise (x : Failure)
deriving DecidableEq

/-- Where a call stands. In `result()`: waiting for the lock; in `join`; reading the
status; in `_wait_for_message`; in `leave`; at its fetch-and-delete. In `status()`: at its
`get_job`. -/
inductive Call where
  | uncalled
  | locking
  | joining
  | checking
  | checked (status : Option JobStatus)
  | waiting
  | leaving (next : Exit)
  | fetching
  | fetched (raw : Option Record)
  | abandoned
  | reading
  | read (raw : Option Record)
  | returned (job : Record)
  | answered (status : JobStatus)
  | raised (x : Failure)
deriving DecidableEq

/-- The call is inside the lock. -/
def Call.consuming : Call → Bool
  | .joining | .checking | .checked _ | .waiting | .leaving _ | .fetching | .fetched _ => true
  | _ => false

/-- The record that a call has on its way from the server, or is decoding. -/
def Call.inHand : Call → Option Record
  | .fetched raw => raw
  | _ => none

/-- Where the job stands: on the queue; taken off it by a worker; claimed; or saved, in
the record that the save has left. -/
inductive Stage where
  | queued
  | leased (worker : InstanceId)
  | held (worker : InstanceId)
  | finished (record : Record)
deriving DecidableEq

/-- No terminal save yet. -/
def Stage.unfinished : Stage → Bool
  | .finished _ => false
  | _ => true

/-- What `result()` makes of the consumed job. -/
inductive Outcome where
  | value (result : Option Blob)
  | failed (error : Option String)
  | cancelled
deriving DecidableEq

/-- `JobHandle.result` after `_consume`. -/
def outcome (job : Record) : Outcome :=
  match job.status with
  | .failed => .failed job.error
  | .cancelled => .cancelled
  | .created | .queued | .running | .completed => .value job.result

/-- A step. -/
inductive Event where
  | blmove (worker : InstanceId)
  | claim
  | release
  | save (write : Finished) (resultTtl : Nat)
  | result (c : CallId)
  | status (c : CallId)
  | enters (c : CallId)
  | joined (c : CallId)
  | wakes (c : CallId)
  | left (c : CallId)
  | served (c : CallId)
  | replied (c : CallId)
  | interrupted (c : CallId)
deriving DecidableEq

end Handle

open Handle

/-! ## The handle -/

/-- The server, the stage of the job, `_job`, `_lock`, and the calls. `taken` are the
records that calls of `take_result` have returned. -/
structure JobHandle where
  store : Store
  stage : Stage
  job : Option Record
  lock : Option CallId
  calls : CallId → Call
  taken : List Record

namespace JobHandle

variable (jobId : JobId) (decodes : Record → Bool)

/-- Move one call. -/
def move (s : JobHandle) (c : CallId) (p : Call) : JobHandle :=
  { s with calls := Function.update s.calls c p }

/-- A call ends, and the lock with it. -/
def quit (s : JobHandle) (c : CallId) (p : Call) : JobHandle :=
  { s.move c p with lock := none }

/-- The record on the server. -/
def stored (s : JobHandle) : Option Record := (s.store.jobs jobId).map Entry.record

/-- The stage and the store, after a request of the worker. -/
def worked (s : JobHandle) (q : Request) (stage : Stage) : JobHandle :=
  { s with store := q.after s.store, stage := stage }

/-- The server executes the command that a call has sent. -/
def serve (s : JobHandle) (c : CallId) : Option JobHandle :=
  let freed := (Request.fetchAndDelete jobId).after s.store
  match s.calls c with
  | .checking => some (s.move c (.checked ((s.stored jobId).map Record.status)))
  | .fetching => some { s.move c (.fetched (s.stored jobId)) with store := freed }
  | .abandoned => some { s.move c (.raised .interrupted) with store := freed }
  | .reading => some (s.move c (.read (s.stored jobId)))
  | _ => none

/-- A call has its reply. `decodes` tells whether `_decode` and `Job.from_record` make a
job of the record. -/
def reply (s : JobHandle) (c : CallId) : Option JobHandle :=
  match s.calls c with
  | .checked none => some (s.move c (.leaving (.raise .keyError)))
  | .checked (some status) =>
    some (s.move c (if status.terminal then .leaving .take else .waiting))
  | .fetched none => some (s.quit c (.raised .keyError))
  | .fetched (some r) =>
    if decodes r then
      some { s.quit c (.returned r) with job := some r, taken := s.taken ++ [r] }
    else some (s.quit c (.raised .undecodable))
  | .read none => some (s.move c (.raised .keyError))
  | .read (some r) => some (s.move c (.answered r.status))
  | _ => none

/-- `leave` is over, or its caller does not wait for the end of it. -/
def leave (s : JobHandle) (c : CallId) : Exit → JobHandle
  | .take => s.move c .fetching
  | .raise x => s.quit c (.raised x)

/-- A call is cancelled at its `await`, or what it awaits raises. -/
def interrupt (s : JobHandle) (c : CallId) : Option JobHandle :=
  match s.calls c with
  | .locking | .reading | .read _ => some (s.move c (.raised .interrupted))
  | .joining | .fetched _ => some (s.quit c (.raised .interrupted))
  | .checking | .checked _ | .waiting => some (s.move c (.leaving (.raise .interrupted)))
  | .leaving next => some (s.leave c next)
  | .fetching => some (s.quit c .abandoned)
  | _ => none

/-- One event. -/
def step (s : JobHandle) : Event → Option JobHandle
  | .blmove worker =>
    match ((Request.blmove worker).exec s.store).2 with
    | .jobId id =>
      if id = jobId then
        if s.stage = .queued then some (s.worked (.blmove worker) (.leased worker)) else none
      else some (s.worked (.blmove worker) s.stage)
    | _ => some (s.worked (.blmove worker) s.stage)
  | .claim =>
    match s.stage with
    | .leased worker => some (s.worked (.claim jobId) (.held worker))
    | _ => none
  | .release =>
    match s.stage with
    | .held worker => some (s.worked (.release worker jobId) .queued)
    | _ => none
  | .save write resultTtl =>
    match s.stage, s.stored jobId with
    | .held worker, some r =>
      if write.record.id = jobId then
        some (s.worked (.save worker write resultTtl) (.finished (r.hset write.record)))
      else none
    | _, _ => none
  | .result c =>
    if s.calls c = .uncalled then
      match s.job with
      | some r => some (s.move c (.returned r))
      | none => some (s.move c .locking)
    else none
  | .status c =>
    if s.calls c = .uncalled then
      match s.job with
      | some r => some (s.move c (.answered r.status))
      | none => some (s.move c .reading)
    else none
  | .enters c =>
    if s.calls c = .locking ∧ s.lock = none then
      match s.job with
      | some r => some (s.move c (.returned r))
      | none => some { s.move c .joining with lock := some c }
    else none
  | .joined c => if s.calls c = .joining then some (s.move c .checking) else none
  | .wakes c => if s.calls c = .waiting then some (s.move c .checking) else none
  | .left c =>
    match s.calls c with
    | .leaving next => some (s.leave c next)
    | _ => none
  | .served c => s.serve jobId c
  | .replied c => s.reply decodes c
  | .interrupted c => s.interrupt c

/-- The job has been enqueued on the server `st`, and its handle returned. -/
def enqueued (job : Record) (st : Store) : JobHandle where
  store := (st.put job.id ⟨requeued job, none⟩).rpush .queue job.id
  stage := .queued
  job := none
  lock := none
  calls := fun _ => .uncalled
  taken := []

/-- The handle of `job`, and its worker. -/
def machine (job : Record) (st : Store) : Machine JobHandle Event where
  init := enqueued job st
  step := fun s e => s.step job.id decodes e

/-! ## The invariant

A call that has the lock finds nothing cached. Past its status check the job is finished;
past its fetch-and-delete the record is in the hands of this one call. -/

section

variable {jobId : JobId} {decodes : Record → Bool} {s s' : JobHandle} {c c' : CallId}

/-- The call has the lock. -/
def Holds (s : JobHandle) (c : CallId) : Prop := s.lock = some c ∧ s.job = none

/-- What is known of a call in each phase. -/
def Consistent (jobId : JobId) (s : JobHandle) (c : CallId) : Call → Prop
  | .joining | .checking | .waiting | .leaving (.raise .interrupted) => s.Holds c
  | .checked (some status) =>
    s.Holds c ∧ (status.terminal = true → ∃ r, s.stage = .finished r)
  | .leaving .take | .fetching => s.Holds c ∧ ∃ r, s.stage = .finished r
  | .fetched (some r) => s.Holds c ∧ s.stage = .finished r ∧ s.stored jobId = none
  | .abandoned => ∃ r, s.stage = .finished r
  | .read (some r) => r.status.terminal = true → s.stage = .finished r
  | .returned r => s.job = some r
  | .checked none | .fetched none | .leaving (.raise .keyError)
  | .leaving (.raise .undecodable) => False
  | .uncalled | .locking | .reading | .read none | .answered _ | .raised _ => True

structure Sound (jobId : JobId) (s : JobHandle) : Prop where
  unfinished : s.stage.unfinished = true →
    ∃ r, s.stored jobId = some r ∧ r.status.terminal = false
  finished : ∀ r, s.stage = .finished r →
    r.status.terminal = true ∧ (s.stored jobId = some r ∨ s.stored jobId = none)
  cached : ∀ r, s.job = some r →
    s.stage = .finished r ∧ s.stored jobId = none ∧ s.taken = [r]
  untaken : s.job = none → s.taken = []
  kept : s.stored jobId = none → s.job ≠ none ∨ ∃ c r, s.calls c = .fetched (some r)
  calls : ∀ c, Consistent jobId s c (s.calls c)

@[simp] theorem stored_freed (jobId : JobId) (s : JobHandle) :
    ({ s with store := (Request.fetchAndDelete jobId).after s.store } : JobHandle).stored jobId
      = none := by
  show ((Function.update s.store.jobs jobId none) jobId).map Entry.record = none
  rw [Function.update_self]
  rfl

@[simp] theorem stored_worked (jobId : JobId) (s : JobHandle) (q : Request) (stage : Stage) :
    (s.worked q stage).stored jobId = ((q.after s.store).jobs jobId).map Entry.record := rfl

theorem sound_enqueued (job : Record) (st : Store) : Sound job.id (enqueued job st) where
  unfinished _ := by
    refine ⟨requeued job, ?_, rfl⟩
    simp only [stored, enqueued, Store.rpush_jobs, Store.put_jobs, Function.update_self,
      Option.map_some]
  finished _ h := by cases h
  cached _ h := by cases h
  untaken _ := rfl
  kept h := by
    simp [stored, enqueued] at h
  calls _ := trivial

theorem Consistent.holds {p : Call} (h : Consistent jobId s c p) (hp : p.consuming = true) :
    s.Holds c := by
  cases p with
  | joining | checking | waiting => exact h
  | checked status =>
    cases status with
    | none => exact h.elim
    | some status => exact h.1
  | leaving next =>
    cases next with
    | take => exact h.1
    | raise x =>
      cases x with
      | interrupted => exact h
      | keyError | undecodable => exact h.elim
  | fetching => exact h.1
  | fetched raw =>
    cases raw with
    | none => exact h.elim
    | some r => exact h.1
  | _ => cases hp

/-- A step of others that leaves lock, handle and stage alone, and does not bring the
record back. -/
theorem Consistent.congr {p : Call} (h : Consistent jobId s c p) (hlock : s'.lock = s.lock)
    (hjob : s'.job = s.job) (hstage : s'.stage = s.stage)
    (hstored : s.stored jobId = none → s'.stored jobId = none) : Consistent jobId s' c p := by
  have hholds : s.Holds c → s'.Holds c := fun hh => ⟨hlock.trans hh.1, hjob.trans hh.2⟩
  cases p with
  | joining | checking | waiting => exact hholds h
  | checked status =>
    cases status with
    | none => exact h
    | some status => exact ⟨hholds h.1, fun ht => hstage ▸ h.2 ht⟩
  | leaving next =>
    cases next with
    | take => exact ⟨hholds h.1, hstage ▸ h.2⟩
    | raise x =>
      cases x with
      | interrupted => exact hholds h
      | keyError | undecodable => exact h
  | fetching => exact ⟨hholds h.1, hstage ▸ h.2⟩
  | fetched raw =>
    cases raw with
    | none => exact h
    | some r => exact ⟨hholds h.1, hstage.trans h.2.1, hstored h.2.2⟩
  | abandoned =>
    obtain ⟨r, hr⟩ := h
    exact ⟨r, hstage.trans hr⟩
  | read raw =>
    cases raw with
    | none => trivial
    | some r => exact fun ht => hstage.trans (h ht)
  | returned r => exact hjob.trans h
  | uncalled | locking | reading | answered _ | raised _ => trivial

/-- A call outside the lock cares for the stage and for what has been cached. -/
theorem Consistent.outside {p : Call} (h : Consistent jobId s c p) (hp : p.consuming = false)
    (hstage : s'.stage = s.stage) (hjob : ∀ r, s.job = some r → s'.job = some r) :
    Consistent jobId s' c p := by
  cases p with
  | abandoned =>
    obtain ⟨r, hr⟩ := h
    exact ⟨r, hstage.trans hr⟩
  | read raw =>
    cases raw with
    | none => trivial
    | some r => exact fun ht => hstage.trans (h ht)
  | returned r => exact hjob r h
  | uncalled | locking | reading | answered _ | raised _ => trivial
  | _ => cases hp

/-- Until the job is finished no call has come past its status check. -/
theorem Consistent.unfinished {p : Call} (h : Consistent jobId s c p)
    (hs : s.stage.unfinished = true) (hnone : s.job = none) (hlock : s'.lock = s.lock)
    (hjob : s'.job = s.job) : Consistent jobId s' c p := by
  have hnot : ∀ r, s.stage ≠ .finished r := fun r hr => by
    rw [hr] at hs
    cases hs
  have hholds : s.Holds c → s'.Holds c := fun hh => ⟨hlock.trans hh.1, hjob.trans hh.2⟩
  cases p with
  | joining | checking | waiting => exact hholds h
  | checked status =>
    cases status with
    | none => exact h
    | some status =>
      refine ⟨hholds h.1, fun ht => ?_⟩
      obtain ⟨r, hr⟩ := h.2 ht
      exact absurd hr (hnot r)
  | leaving next =>
    cases next with
    | take =>
      obtain ⟨r, hr⟩ := h.2
      exact absurd hr (hnot r)
    | raise x =>
      cases x with
      | interrupted => exact hholds h
      | keyError | undecodable => exact h
  | fetching =>
    obtain ⟨r, hr⟩ := h.2
    exact absurd hr (hnot r)
  | fetched raw =>
    cases raw with
    | none => exact h
    | some r => exact absurd h.2.1 (hnot r)
  | abandoned =>
    obtain ⟨r, hr⟩ := h
    exact absurd hr (hnot r)
  | read raw =>
    cases raw with
    | none => trivial
    | some r => exact fun ht => absurd (h ht) (hnot r)
  | returned r =>
    have hcached : s.job = some r := h
    rw [hnone] at hcached
    cases hcached
  | uncalled | locking | reading | answered _ | raised _ => trivial

/-- Two calls are not in the lock together. -/
theorem Sound.outside (h : s.Sound jobId) (hc : s.lock = some c ∨ s.lock = none)
    (hne : c' ≠ c) : (s.calls c').consuming = false := by
  cases hp : (s.calls c').consuming with
  | false => rfl
  | true =>
    have hl := ((h.calls c').holds hp).1
    rcases hc with hc | hc
    · rw [hc] at hl
      exact absurd (Option.some.inj hl).symm hne
    · rw [hc] at hl
      cases hl

theorem Sound.job_none (h : s.Sound jobId) (hs : s.stage.unfinished = true) : s.job = none := by
  cases hj : s.job with
  | none => rfl
  | some r =>
    rw [(h.cached r hj).1] at hs
    cases hs

/-- What the finished job left is unique. -/
theorem Sound.stored_eq (h : s.Sound jobId) {r r' : Record} (hs : s.stage = .finished r)
    (hr : s.stored jobId = some r') : r' = r := by
  rcases (h.finished r hs).2 with hsome | hnone
  · exact Option.some.inj (hr.symm.trans hsome)
  · rw [hr] at hnone
    cases hnone

/-- While the lock is held by a call that has not fetched, the record is there. -/
theorem Sound.stored_ne_none (h : s.Sound jobId) (hc : s.Holds c)
    (hcall : ∀ r, s.calls c ≠ .fetched (some r)) : s.stored jobId ≠ none := by
  intro hnone
  rcases h.kept hnone with hj | ⟨c', r, hc'⟩
  · exact hj hc.2
  · have hl := ((h.calls c').holds (by rw [hc']; rfl)).1
    rw [hc.1] at hl
    obtain rfl := Option.some.inj hl
    exact hcall r hc'

/-! ## Steps -/

/-- A record off the server is cached, or in the hands of another call. -/
theorem Sound.kept_elsewhere (h : s.Sound jobId) (hcall : (s.calls c).inHand = none)
    (p : Call) (hnone : s.stored jobId = none) :
    s.job ≠ none ∨ ∃ c' r, Function.update s.calls c p c' = .fetched (some r) := by
  rcases h.kept hnone with hj | ⟨c', r, hc'⟩
  · exact Or.inl hj
  · have hne : c' ≠ c := by
      rintro rfl
      rw [hc'] at hcall
      cases hcall
    exact Or.inr ⟨c', r, (Function.update_of_ne hne ..).trans hc'⟩

/-- A call moves, and nothing else. -/
theorem Sound.move {p : Call} (h : s.Sound jobId) (hp : Consistent jobId s c p)
    (hcall : (s.calls c).inHand = none) : (s.move c p).Sound jobId where
  unfinished := h.unfinished
  finished := h.finished
  cached := h.cached
  untaken := h.untaken
  kept := h.kept_elsewhere hcall p
  calls := by
    refine (Function.forall_update_iff _ _).mpr ⟨hp.congr rfl rfl rfl id, fun c' _ => ?_⟩
    exact (h.calls c').congr rfl rfl rfl id

/-- A call enters the lock. -/
theorem Sound.acquire {p : Call} (h : s.Sound jobId) (hl : s.lock = none)
    (hp : Consistent jobId { s with lock := some c } c p) (hcall : (s.calls c).inHand = none) :
    Sound jobId { s.move c p with lock := some c } where
  unfinished := h.unfinished
  finished := h.finished
  cached := h.cached
  untaken := h.untaken
  kept := h.kept_elsewhere hcall p
  calls := by
    refine (Function.forall_update_iff _ _).mpr ⟨hp.congr rfl rfl rfl id, fun c' hne => ?_⟩
    exact (h.calls c').outside (h.outside (Or.inr hl) hne) rfl fun _ hj => hj

/-- A call leaves the lock without the record. -/
theorem Sound.quit {p : Call} (h : s.Sound jobId) (hold : s.Holds c)
    (hp : Consistent jobId s c p) (hfree : p.consuming = false)
    (hcall : (s.calls c).inHand = none) : (s.quit c p).Sound jobId where
  unfinished := h.unfinished
  finished := h.finished
  cached := h.cached
  untaken := h.untaken
  kept := h.kept_elsewhere hcall p
  calls := by
    refine (Function.forall_update_iff _ _).mpr
      ⟨hp.outside hfree rfl fun _ hj => hj, fun c' hne => ?_⟩
    exact (h.calls c').outside (h.outside (Or.inl hold.1) hne) rfl fun _ hj => hj

/-- A call caches the record it has in hand. -/
theorem Sound.consume {r : Record} (h : s.Sound jobId) (hc : s.calls c = .fetched (some r)) :
    Sound jobId
      { s.quit c (.returned r) with job := some r, taken := s.taken ++ [r] } := by
  have hcons := h.calls c
  rw [hc] at hcons
  obtain ⟨⟨hlock, hjob⟩, hstage, hstored⟩ := hcons
  constructor
  case unfinished => exact h.unfinished
  case finished => exact h.finished
  case cached =>
    intro r' hr'
    obtain rfl := Option.some.inj hr'
    refine ⟨hstage, hstored, ?_⟩
    show s.taken ++ [r] = [r]
    rw [h.untaken hjob, List.nil_append]
  case untaken =>
    intro hnone
    cases hnone
  case kept => exact fun _ => Or.inl (Option.some_ne_none r)
  case calls =>
    refine (Function.forall_update_iff _ _).mpr ⟨rfl, fun c' hne => ?_⟩
    refine (h.calls c').outside (h.outside (Or.inl hlock) hne) rfl fun r' hr' => ?_
    rw [hjob] at hr'
    cases hr'

/-- The server executes the fetch-and-delete of a call that waits for it. -/
theorem Sound.fetch (h : s.Sound jobId) (hc : s.calls c = .fetching) :
    Sound jobId { s.move c (.fetched (s.stored jobId)) with
      store := (Request.fetchAndDelete jobId).after s.store } := by
  have hcons := h.calls c
  rw [hc] at hcons
  obtain ⟨hold, r, hstage⟩ := hcons
  obtain ⟨r', hr'⟩ := Option.ne_none_iff_exists'.mp (h.stored_ne_none hold fun r' hr' => by
    rw [hc] at hr'
    cases hr')
  obtain rfl := h.stored_eq hstage hr'
  have hgone := stored_freed jobId s
  constructor
  case unfinished =>
    intro hs
    have hs : s.stage.unfinished = true := hs
    rw [hstage] at hs
    cases hs
  case finished => exact fun r hr => ⟨(h.finished r hr).1, Or.inr hgone⟩
  case cached =>
    intro r hr
    have hr : s.job = some r := hr
    rw [hold.2] at hr
    cases hr
  case untaken => exact h.untaken
  case kept =>
    exact fun _ => Or.inr ⟨c, r', (Function.update_self ..).trans (by rw [hr'])⟩
  case calls =>
    refine (Function.forall_update_iff _ _).mpr ⟨?_, fun c' hne => ?_⟩
    · rw [hr']
      exact ⟨hold, hstage, hgone⟩
    · exact (h.calls c').outside (h.outside (Or.inl hold.1) hne) rfl fun _ hj => hj

/-- A fetch-and-delete that nobody waits for finds no record. -/
theorem Sound.fetchNothing (h : s.Sound jobId) (hc : s.calls c = .abandoned)
    (hnone : s.stored jobId = none) :
    Sound jobId { s.move c (.raised .interrupted) with
      store := (Request.fetchAndDelete jobId).after s.store } := by
  have hmoved : (s.move c (.raised .interrupted)).Sound jobId :=
    h.move trivial (by rw [hc]; rfl)
  have hgone := stored_freed jobId s
  constructor
  case unfinished =>
    intro hs
    obtain ⟨r, hr, -⟩ := h.unfinished hs
    rw [hnone] at hr
    cases hr
  case finished => exact fun r hr => ⟨(h.finished r hr).1, Or.inr hgone⟩
  case cached =>
    exact fun r hr => ⟨(h.cached r hr).1, hgone, (h.cached r hr).2.2⟩
  case untaken => exact h.untaken
  case kept => exact fun _ => hmoved.kept hnone
  case calls => exact fun c' => (hmoved.calls c').congr rfl rfl rfl fun _ => hgone

/-- The worker's steps, until the job is finished. -/
theorem Sound.worked {q : Request} {stage : Stage} (h : s.Sound jobId)
    (hs : s.stage.unfinished = true)
    (hnew : (stage.unfinished = true ∧
        ∃ r, (s.worked q stage).stored jobId = some r ∧ r.status.terminal = false) ∨
      ∃ r, stage = .finished r ∧ (s.worked q stage).stored jobId = some r ∧
        r.status.terminal = true) : (s.worked q stage).Sound jobId := by
  have hjob := h.job_none hs
  constructor
  case unfinished =>
    intro hu
    have hu : stage.unfinished = true := hu
    rcases hnew with ⟨-, hr⟩ | ⟨r, rfl, -⟩
    · exact hr
    · cases hu
  case finished =>
    intro r hr
    have hr : stage = .finished r := hr
    rcases hnew with ⟨hu, -⟩ | ⟨r', rfl, hstored, ht⟩
    · rw [hr] at hu
      cases hu
    · cases hr
      exact ⟨ht, Or.inl hstored⟩
  case cached =>
    intro r hr
    have hr : s.job = some r := hr
    rw [hjob] at hr
    cases hr
  case untaken => exact h.untaken
  case kept =>
    intro hnone
    rcases hnew with ⟨-, r, hr, -⟩ | ⟨r, -, hr, -⟩ <;>
    · rw [hnone] at hr
      cases hr
  case calls => exact fun c => (h.calls c).unfinished hs hjob rfl rfl

theorem after_blmove_jobs (worker : InstanceId) (st : Store) :
    ((Request.blmove worker).after st).jobs = st.jobs := by
  cases hq : st.lists .queue with
  | nil => rw [after_blmove_nil hq]
  | cons id rest => rw [after_blmove_cons hq, Store.rpush_jobs, Store.lrem_jobs]

theorem exists_of_stored {r : Record} (h : s.stored jobId = some r) :
    ∃ e, s.store.jobs jobId = some e ∧ e.record = r := Option.map_eq_some_iff.mp h

/-- BLMOVE leaves the record alone. -/
theorem Sound.blmove (h : s.Sound jobId) (worker : InstanceId) :
    (s.worked (.blmove worker) s.stage).Sound jobId := by
  have hsame : (s.worked (.blmove worker) s.stage).stored jobId = s.stored jobId := by
    rw [stored_worked, after_blmove_jobs, stored]
  constructor
  case unfinished => exact fun hu => hsame ▸ h.unfinished hu
  case finished => exact fun r hr => hsame ▸ h.finished r hr
  case cached => exact fun r hr => hsame ▸ h.cached r hr
  case untaken => exact h.untaken
  case kept => exact fun hnone => h.kept (hsame ▸ hnone)
  case calls => exact fun c => (h.calls c).congr rfl rfl rfl fun hnone => hsame.trans hnone

/-- BLMOVE hands the id to a worker. -/
theorem Sound.lease (h : s.Sound jobId) (hs : s.stage = .queued) (worker : InstanceId) :
    (s.worked (.blmove worker) (.leased worker)).Sound jobId := by
  have hu : s.stage.unfinished = true := by rw [hs]; rfl
  refine h.worked hu (Or.inl ⟨rfl, ?_⟩)
  have hsame : (s.worked (.blmove worker) (.leased worker)).stored jobId = s.stored jobId := by
    rw [stored_worked, after_blmove_jobs, stored]
  rw [hsame]
  exact h.unfinished hu

theorem Sound.claim (h : s.Sound jobId) (hs : s.stage.unfinished = true) (worker : InstanceId) :
    (s.worked (.claim jobId) (.held worker)).Sound jobId := by
  obtain ⟨r, hr, -⟩ := h.unfinished hs
  obtain ⟨e, he, rfl⟩ := exists_of_stored hr
  refine h.worked hs (Or.inl ⟨rfl, claimed e.record, ?_, rfl⟩)
  simp only [stored_worked, after_claim_some he, Store.put_jobs, Function.update_self,
    Option.map_some]

theorem Sound.release (h : s.Sound jobId) (hs : s.stage.unfinished = true)
    (worker : InstanceId) : (s.worked (.release worker jobId) .queued).Sound jobId := by
  obtain ⟨r, hr, ht⟩ := h.unfinished hs
  obtain ⟨e, he, rfl⟩ := exists_of_stored hr
  by_cases hrun : e.record.status = .running
  · refine h.worked hs (Or.inl ⟨rfl, requeued e.record, ?_, rfl⟩)
    simp only [stored_worked, after_release_jobs worker he hrun, Function.update_self,
      Option.map_some]
  · refine h.worked hs (Or.inl ⟨rfl, e.record, ?_, ht⟩)
    have hsame : (Request.release worker jobId).after s.store = s.store := by
      refine after_release_of_not_running fun e' he' => ?_
      rw [Option.some.inj (he'.symm.trans he)]
      exact hrun
    simp only [stored_worked, hsame, he, Option.map_some]

theorem Sound.save {r : Record} (h : s.Sound jobId) (hs : s.stage.unfinished = true)
    (hr : s.stored jobId = some r) (worker : InstanceId) (write : Finished)
    (hid : write.record.id = jobId) (resultTtl : Nat) :
    (s.worked (.save worker write resultTtl) (.finished (r.hset write.record))).Sound jobId := by
  subst hid
  obtain ⟨e, he, rfl⟩ := exists_of_stored hr
  refine h.worked hs (Or.inr ⟨_, rfl, ?_, write.terminal⟩)
  simp only [stored_worked, after_save_jobs worker he, Function.update_self, Option.map_some]

/-! ## Steps that keep the record

Between the execution of the fetch-and-delete and the caching of its reply the record is
with one call only. -/

/-- A step that does not lose the record: no call is interrupted with the record in hand,
no fetch-and-delete finds the record after its call has been interrupted, and the record
in hand decodes. -/
def Safe (jobId : JobId) (decodes : Record → Bool) (s : JobHandle) : Event → Prop
  | .interrupted c => (s.calls c).inHand = none
  | .served c => s.calls c = .abandoned → s.stored jobId = none
  | .replied c => (s.calls c).inHand.all decodes = true
  | _ => True

instance Safe.decidable (s : JobHandle) : ∀ e, Decidable (Safe jobId decodes s e)
  | .interrupted c => inferInstanceAs (Decidable ((s.calls c).inHand = none))
  | .served c => inferInstanceAs (Decidable (s.calls c = .abandoned → s.stored jobId = none))
  | .replied c => inferInstanceAs (Decidable ((s.calls c).inHand.all decodes = true))
  | .blmove _ | .claim | .release | .save .. | .result _ | .status _ | .enters _ | .joined _
  | .wakes _ | .left _ => isTrue trivial

/-- A call of `result()` is back from `leave`. -/
theorem Sound.leave {next : Exit} (h : s.Sound jobId) (hc : s.calls c = .leaving next) :
    (s.leave c next).Sound jobId := by
  have hcons := h.calls c
  rw [hc] at hcons
  have hcall : (s.calls c).inHand = none := by rw [hc]; rfl
  cases next with
  | take => exact h.move hcons hcall
  | raise x =>
    have hold : s.Holds c := hcons.holds rfl
    exact h.quit hold trivial rfl hcall

theorem Sound.serve (h : s.Sound jobId) (hs : s.serve jobId c = some s')
    (hsafe : Safe jobId decodes s (.served c)) : s'.Sound jobId := by
  have hcons := h.calls c
  unfold JobHandle.serve at hs
  cases hc : s.calls c with
  | checking =>
    simp only [hc, Option.some.injEq] at hs hcons
    subst hs
    have hnot : ∀ r, s.calls c ≠ .fetched (some r) := fun r hr => by
      rw [hc] at hr
      cases hr
    obtain ⟨r, hr⟩ := Option.ne_none_iff_exists'.mp (h.stored_ne_none hcons hnot)
    refine h.move ?_ (by rw [hc]; rfl)
    rw [hr]
    refine ⟨hcons, fun ht => ?_⟩
    -- an unfinished job has no terminal record
    cases hst : s.stage with
    | finished r' => exact ⟨r', rfl⟩
    | queued | leased _ | held _ =>
      obtain ⟨r', hr', ht'⟩ := h.unfinished (by rw [hst]; rfl)
      obtain rfl := Option.some.inj (hr.symm.trans hr')
      rw [ht'] at ht
      cases ht
  | fetching =>
    simp only [hc, Option.some.injEq] at hs
    subst hs
    exact h.fetch hc
  | abandoned =>
    simp only [hc, Option.some.injEq] at hs
    subst hs
    exact h.fetchNothing hc (hsafe hc)
  | reading =>
    simp only [hc, Option.some.injEq] at hs
    subst hs
    refine h.move ?_ (by rw [hc]; rfl)
    cases hr : s.stored jobId with
    | none => trivial
    | some r =>
      intro ht
      cases hst : s.stage with
      | finished r' => rw [h.stored_eq hst hr]
      | queued | leased _ | held _ =>
        obtain ⟨r', hr', ht'⟩ := h.unfinished (by rw [hst]; rfl)
        obtain rfl := Option.some.inj (hr.symm.trans hr')
        rw [ht'] at ht
        cases ht
  | _ =>
    simp only [hc] at hs
    cases hs

theorem Sound.reply (h : s.Sound jobId) (hs : s.reply decodes c = some s')
    (hsafe : Safe jobId decodes s (.replied c)) : s'.Sound jobId := by
  have hcons := h.calls c
  unfold JobHandle.reply at hs
  cases hc : s.calls c with
  | checked status =>
    rw [hc] at hcons
    cases status with
    | none => exact hcons.elim
    | some status =>
      simp only [hc, Option.some.injEq] at hs
      subst hs
      refine h.move ?_ (by rw [hc]; rfl)
      split
      · rename_i ht
        exact ⟨hcons.1, hcons.2 ht⟩
      · exact hcons.1
  | fetched raw =>
    rw [hc] at hcons
    cases raw with
    | none => exact hcons.elim
    | some r =>
      have hd : decodes r = true := by
        simp only [Safe, hc, Call.inHand, Option.all_some] at hsafe
        exact hsafe
      simp only [hc, hd, if_true, Option.some.injEq] at hs
      subst hs
      exact h.consume hc
  | read raw =>
    cases raw with
    | none | some r =>
      simp only [hc, Option.some.injEq] at hs
      subst hs
      exact h.move trivial (by rw [hc]; rfl)
  | _ =>
    simp only [hc] at hs
    cases hs

theorem Sound.interrupt (h : s.Sound jobId) (hs : s.interrupt c = some s')
    (hsafe : (s.calls c).inHand = none) : s'.Sound jobId := by
  have hcons := h.calls c
  unfold JobHandle.interrupt at hs
  cases hc : s.calls c with
  | locking | reading | read raw =>
    simp only [hc, Option.some.injEq] at hs
    subst hs
    exact h.move trivial hsafe
  | joining | fetched raw =>
    simp only [hc, Option.some.injEq] at hs
    subst hs
    exact h.quit (hcons.holds (by rw [hc]; rfl)) trivial rfl hsafe
  | checking | checked status | waiting =>
    simp only [hc, Option.some.injEq] at hs
    subst hs
    exact h.move (hcons.holds (by rw [hc]; rfl)) hsafe
  | leaving next =>
    simp only [hc, Option.some.injEq] at hs
    subst hs
    exact h.leave hc
  | fetching =>
    simp only [hc, Option.some.injEq] at hs
    subst hs
    rw [hc] at hcons
    exact h.quit hcons.1 hcons.2 rfl hsafe
  | _ =>
    simp only [hc] at hs
    cases hs

/-- **A safe step keeps the record**, on the server, in the hands of a call, or in the
handle. -/
theorem Sound.step {e : Event} (h : s.Sound jobId) (hsafe : Safe jobId decodes s e)
    (hs : s.step jobId decodes e = some s') : s'.Sound jobId := by
  cases e with
  | blmove worker =>
    simp only [JobHandle.step] at hs
    split at hs
    · split at hs
      · simp only [Option.ite_none_right_eq_some, Option.some.injEq] at hs
        obtain ⟨hstage, rfl⟩ := hs
        exact h.lease hstage worker
      · cases hs
        exact h.blmove worker
    · cases hs
      exact h.blmove worker
  | claim =>
    simp only [JobHandle.step] at hs
    split at hs
    · rename_i worker hstage
      cases hs
      exact h.claim (by rw [hstage]; rfl) worker
    · cases hs
  | release =>
    simp only [JobHandle.step] at hs
    split at hs
    · rename_i worker hstage
      cases hs
      exact h.release (by rw [hstage]; rfl) worker
    · cases hs
  | save write resultTtl =>
    simp only [JobHandle.step] at hs
    split at hs
    · rename_i worker r hstage hr
      simp only [Option.ite_none_right_eq_some, Option.some.injEq] at hs
      obtain ⟨hid, rfl⟩ := hs
      exact h.save (by rw [hstage]; rfl) hr worker write hid resultTtl
    · cases hs
  | result c =>
    simp only [JobHandle.step, Option.ite_none_right_eq_some] at hs
    obtain ⟨hc, hs⟩ := hs
    have hcall : (s.calls c).inHand = none := by rw [hc]; rfl
    split at hs
    · rename_i r hj
      cases hs
      exact h.move hj hcall
    · cases hs
      exact h.move trivial hcall
  | status c =>
    simp only [JobHandle.step, Option.ite_none_right_eq_some] at hs
    obtain ⟨hc, hs⟩ := hs
    have hcall : (s.calls c).inHand = none := by rw [hc]; rfl
    split at hs <;> cases hs <;> exact h.move trivial hcall
  | enters c =>
    simp only [JobHandle.step, Option.ite_none_right_eq_some] at hs
    obtain ⟨⟨hc, hl⟩, hs⟩ := hs
    have hcall : (s.calls c).inHand = none := by rw [hc]; rfl
    split at hs
    · rename_i r hj
      cases hs
      exact h.move hj hcall
    · rename_i hj
      cases hs
      exact h.acquire hl ⟨rfl, hj⟩ hcall
  | joined c =>
    simp only [JobHandle.step, Option.ite_none_right_eq_some, Option.some.injEq] at hs
    obtain ⟨hc, rfl⟩ := hs
    exact h.move ((h.calls c).holds (by rw [hc]; rfl)) (by rw [hc]; rfl)
  | wakes c =>
    simp only [JobHandle.step, Option.ite_none_right_eq_some, Option.some.injEq] at hs
    obtain ⟨hc, rfl⟩ := hs
    exact h.move ((h.calls c).holds (by rw [hc]; rfl)) (by rw [hc]; rfl)
  | left c =>
    simp only [JobHandle.step] at hs
    split at hs
    · rename_i next hc
      cases hs
      exact h.leave hc
    · cases hs
  | served c => exact h.serve hs hsafe
  | replied c => exact h.reply hs hsafe
  | interrupted c => exact h.interrupt hs hsafe

end

end JobHandle

end TaskQueue
