import TaskQueue.Library.Machine
import TaskQueue.Receipt
import TaskQueue.Worker.Loop

/-!
# The fleet: worker processes, producers and consumers over one Redis

Any number of worker processes, each one `RedisBackend` instance with any number
of `Worker` pools over it, each pool with its claim loops and its upkeep;
producers that enqueue and cancel; consumers that call `take_result`. Every
event is one client-side move together with at most one request that the server
executes (`Fleet.request`), so the database changes by `Request.after` and by
nothing else (`Fleet.step_store`).

What an event does not fix is left open: which client moves next, the server's
clock at a heartbeat or a reap, when a key with a time to live expires, how a
body ends, whether a round trip raises, is cancelled or is answered, and whether
a raised or cancelled one took effect. The assumptions of a particular result
are restrictions on events.

- `take_result` is three moves: the call subscribes (`take`), reads the status
  until it is terminal (`check`), and runs its fetch-and-delete (`fetch`).
- `born` counts how often an id was created by an enqueue; it numbers the
  incarnations of a job id and no client reads it.
- `along_requests_iff` lifts an exact condition on one request to whole runs.
-/

namespace TaskQueue.Worker

open Redis

/-- One `Worker` pool over the backend instance `process`. -/
structure PoolId where
  process : InstanceId
  index : Nat
deriving DecidableEq

/-- One claim loop of a pool. -/
structure LoopId where
  pool : PoolId
  index : Nat
deriving DecidableEq

/-- The worker process a loop runs in. -/
abbrev LoopId.process (l : LoopId) : InstanceId := l.pool.process

/-- One call of `take_result`. -/
abbrev CallId := Nat

/-- A pool: not entered; serving; winding down, with `_running` False; closed
after deregistration. -/
inductive PoolPhase where
  | fresh
  | serving
  | draining
  | closed
deriving DecidableEq, Repr

/-- A `take_result` call: waiting for a terminal status; past the check, with its
fetch-and-delete outstanding; returned a record; raised `KeyError`. -/
inductive CallPhase where
  | uncalled
  | waiting (jobId : JobId)
  | fetching (jobId : JobId)
  | returned (receipt : Receipt)
  | missing (jobId : JobId)
deriving DecidableEq

/-- What `RedisBackend.__init__` accepts as its two times to live. -/
structure Ttls where
  resultTtl : Nat
  workerTtl : Nat
  resultTtl_pos : 0 < resultTtl
  workerTtl_pos : 0 < workerTtl

/-- The fixed configuration of the processes: each backend instance's times to
live, each pool's number of loops, and what it was built with. -/
structure Deployment where
  ttls : InstanceId → Ttls
  concurrency : PoolId → Nat
  config : PoolId → PoolConfig

/-- The whole system. -/
structure Fleet where
  store : Store
  pools : PoolId → PoolPhase
  loops : LoopId → Phase
  crashed : InstanceId → Bool
  calls : CallId → CallPhase
  born : JobId → Nat

/-- One move. -/
inductive Event where
  | enqueue (record : Record)
  | requestCancel (jobId : JobId)
  | expire (jobId : JobId)
  | crash (worker : InstanceId)
  | reap (worker : InstanceId) (now : Nat)
  -- the pool: `__aenter__`, the upkeep's heartbeat, `_running = False`, deregister
  | start (p : PoolId) (now : Nat)
  | beat (p : PoolId) (now : Nat)
  | drain (p : PoolId)
  | close (p : PoolId)
  -- the claim loop
  | move (l : LoopId) (m : Move)
  | roundTrip (l : LoopId) (o : Outcome)
  -- `take_result`
  | take (c : CallId) (jobId : JobId)
  | check (c : CallId)
  | fetch (c : CallId)
deriving DecidableEq

namespace Fleet

variable (d : Deployment)

/-- Nothing started, nothing stored. -/
def init : Fleet where
  store := .empty
  pools _ := .fresh
  loops _ := .idle
  crashed _ := false
  calls _ := .uncalled
  born _ := 0

/-- The request that loop `l` awaits. -/
def pending (s : Fleet) (l : LoopId) : Option Request :=
  (s.loops l).request l.process (d.ttls l.process).resultTtl

/-- The request that event `e` has the server execute. -/
def request (s : Fleet) : Event → Option Request
  | .enqueue record => some (.enqueue record)
  | .requestCancel jobId => some (.requestCancel jobId)
  | .expire jobId => some (.expire jobId)
  | .reap worker now => some (.reap now (d.ttls worker).workerTtl)
  | .start p now | .beat p now => some (.heartbeat p.process now)
  | .close p => some (.deregister p.process)
  | .roundTrip l o => if o.effect then s.pending d l else none
  | .fetch c =>
    match s.calls c with
    | .fetching jobId => some (.fetchAndDelete jobId)
    | _ => none
  | .crash _ | .drain _ | .move _ _ | .take _ _ | .check _ => none

/-- The server executes an optional request. -/
def serve (st : Store) : Option Request → Store × Reply
  | some q => q.exec st
  | none => (st, .nil)

/-- The process of loop `l` is up and the loop exists in a pool that is open. -/
def Live (s : Fleet) (l : LoopId) : Prop :=
  s.crashed l.process = false ∧ l.index < d.concurrency l.pool ∧
    (s.pools l.pool = .serving ∨ s.pools l.pool = .draining)

instance (s : Fleet) (l : LoopId) : Decidable (s.Live d l) :=
  inferInstanceAs (Decidable (_ ∧ _ ∧ _))

end Fleet

/-- The loop's task is over, or only its shielded release is still under way. -/
def Phase.wound : Phase → Bool
  | .ended | .releasing _ _ => true
  | _ => false

/-- A round trip can end in `o`: a cancellation that finds the shielded release
outstanding leaves it outstanding. -/
def Phase.canEnd (p : Phase) (o : Outcome) : Bool :=
  match o with
  | .cancelled _ => !p.wound
  | _ => true

/-- The pool is in a state in which its loops make the move: a loop enters its
body while `_running` is True and leaves when it is False. -/
def PoolPhase.admits : PoolPhase → Move → Bool
  | .serving, .leave => false
  | .draining, .poll => false
  | _, _ => true

/-- A call past its check, or back to waiting, or at its end. -/
def CallPhase.check (st : Store) (jobId : JobId) : CallPhase :=
  match st.jobs jobId with
  | none => .missing jobId
  | some e => if e.record.status.terminal then .fetching jobId else .waiting jobId

/-- The end of a call whose fetch-and-delete was answered. -/
def CallPhase.collect (jobId : JobId) (n : Nat) : Reply → CallPhase
  | .record record => .returned ⟨jobId, record, n⟩
  | _ => .missing jobId

namespace Fleet

variable (d : Deployment)

/-- One event. -/
def step (s : Fleet) (e : Event) : Option Fleet :=
  let (st, reply) := serve s.store (s.request d e)
  match e with
  | .enqueue record =>
    some { s with
      store := st
      born := if reply = .code 1 then
          Function.update s.born record.id (s.born record.id + 1)
        else s.born }
  | .requestCancel _ | .expire _ => some { s with store := st }
  | .crash worker => some { s with crashed := Function.update s.crashed worker true }
  | .reap worker _ => if s.crashed worker = false then some { s with store := st } else none
  | .start p _ =>
    if s.crashed p.process = false ∧ s.pools p = .fresh then
      some { s with store := st, pools := Function.update s.pools p .serving }
    else none
  | .beat p _ =>
    if s.crashed p.process = false ∧ (s.pools p = .serving ∨ s.pools p = .draining) then
      some { s with store := st }
    else none
  | .drain p =>
    if s.crashed p.process = false ∧ s.pools p = .serving then
      some { s with pools := Function.update s.pools p .draining }
    else none
  | .close p =>
    if s.crashed p.process = false ∧ s.pools p = .draining ∧
        ∀ i < d.concurrency p, (s.loops ⟨p, i⟩).wound = true then
      some { s with store := st, pools := Function.update s.pools p .closed }
    else none
  | .move l m =>
    if s.Live d l ∧ (s.pools l.pool).admits m = true then
      ((s.loops l).move (d.config l.pool) m).map fun p =>
        { s with loops := Function.update s.loops l p }
    else none
  | .roundTrip l o =>
    if s.crashed l.process = false ∧ (s.pending d l).isSome = true ∧
        (s.loops l).canEnd o = true then
      some { s with
        store := st
        loops := Function.update s.loops l ((s.loops l).resume o reply) }
    else none
  | .take c jobId =>
    if s.calls c = .uncalled then
      some { s with calls := Function.update s.calls c (.waiting jobId) }
    else none
  | .check c =>
    match s.calls c with
    | .waiting jobId =>
      some { s with calls := Function.update s.calls c (.check s.store jobId) }
    | _ => none
  | .fetch c =>
    match s.calls c with
    | .fetching jobId =>
      some { s with
        store := st
        calls := Function.update s.calls c (.collect jobId (s.born jobId) reply) }
    | _ => none

/-- The fleet as a machine. -/
def machine : Machine Fleet Event where
  init := init
  step := step d

/-! ## What a step can do -/

/-- The cases of a step as they matter to the loops: a loop moves on its own, a
loop's round trip ends, or no loop is touched. -/
inductive StepOf (s : Fleet) : Event → Fleet → Prop where
  | moved (l : LoopId) (m : Move) (p : Phase) (hlive : s.Live d l)
      (hadm : (s.pools l.pool).admits m = true)
      (hp : (s.loops l).move (d.config l.pool) m = some p) :
      StepOf s (.move l m) { s with loops := Function.update s.loops l p }
  | answered (l : LoopId) (o : Outcome) (q : Request) (hup : s.crashed l.process = false)
      (hq : s.pending d l = some q) (hend : (s.loops l).canEnd o = true) :
      StepOf s (.roundTrip l o) { s with
        store := (serve s.store (if o.effect then some q else none)).1
        loops := Function.update s.loops l
          ((s.loops l).resume o (serve s.store (if o.effect then some q else none)).2) }
  | elsewhere (e : Event) (s' : Fleet) (hm : ∀ l m, e ≠ .move l m)
      (hr : ∀ l o, e ≠ .roundTrip l o) (hloops : s'.loops = s.loops)
      (hstore : s'.store = (serve s.store (s.request d e)).1)
      (hcrash : ∀ w, s.crashed w = true → s'.crashed w = true) : StepOf s e s'

theorem stepOf {s s' : Fleet} {e : Event} (h : s.step d e = some s') : StepOf d s e s' := by
  cases e with
  | move l m =>
    simp only [step, Option.ite_none_right_eq_some, Option.map_eq_some_iff] at h
    obtain ⟨⟨hlive, hadm⟩, p, hp, rfl⟩ := h
    exact .moved l m p hlive hadm hp
  | roundTrip l o =>
    simp only [step, Option.ite_none_right_eq_some, Option.some.injEq] at h
    obtain ⟨⟨hup, hsome, hend⟩, rfl⟩ := h
    obtain ⟨q, hq⟩ := Option.isSome_iff_exists.mp hsome
    have hreq : s.request d (.roundTrip l o) = if o.effect then some q else none := by
      rw [request, hq]
    rw [hreq]
    exact .answered l o q hup hq hend
  | enqueue _ | requestCancel _ | expire _ =>
    simp only [step, Option.some.injEq] at h
    subst h
    exact .elsewhere _ _ (by simp) (by simp) rfl rfl fun _ => id
  | crash worker =>
    simp only [step, Option.some.injEq] at h
    subst h
    refine .elsewhere _ _ (by simp) (by simp) rfl rfl fun w hw => ?_
    show Function.update s.crashed worker true w = true
    rw [Function.update_apply, hw, ite_self]
  | reap _ _ | start _ _ | beat _ _ | drain _ | close _ | take _ _ =>
    -- guarded events of the other clients
    simp only [step, Option.ite_none_right_eq_some, Option.some.injEq] at h
    obtain ⟨-, rfl⟩ := h
    exact .elsewhere _ _ (by simp) (by simp) rfl rfl fun _ => id
  | check _ | fetch _ =>
    simp only [step] at h
    split at h
    · cases h
      exact .elsewhere _ _ (by simp) (by simp) rfl rfl fun _ => id
    · cases h

/-- **The database changes by the event's request and by nothing else.** -/
theorem step_store {s s' : Fleet} {e : Event} (h : s.step d e = some s') :
    s'.store = (serve s.store (s.request d e)).1 := by
  cases stepOf d h with
  | moved l m p hlive hadm hp => rfl
  | answered l o q hup hq hend => rw [request, hq]
  | elsewhere e s' hm hr hloops hstore hcrash => exact hstore

/-- Only `take_result` moves a call, and only an enqueue starts an incarnation. -/
theorem step_clients {s s' : Fleet} {e : Event} (h : s.step d e = some s')
    (henqueue : ∀ record, e ≠ .enqueue record) (htake : ∀ c jobId, e ≠ .take c jobId)
    (hcheck : ∀ c, e ≠ .check c) (hfetch : ∀ c, e ≠ .fetch c) :
    s'.calls = s.calls ∧ s'.born = s.born := by
  cases e with
  | enqueue record => exact absurd rfl (henqueue record)
  | take c jobId => exact absurd rfl (htake c jobId)
  | check c => exact absurd rfl (hcheck c)
  | fetch c => exact absurd rfl (hfetch c)
  | move l m =>
    simp only [step, Option.ite_none_right_eq_some, Option.map_eq_some_iff] at h
    obtain ⟨-, p, -, rfl⟩ := h
    exact ⟨rfl, rfl⟩
  | requestCancel jobId => cases h; exact ⟨rfl, rfl⟩
  | expire jobId => cases h; exact ⟨rfl, rfl⟩
  | crash worker => cases h; exact ⟨rfl, rfl⟩
  | _ =>
    simp only [step, Option.ite_none_right_eq_some, Option.some.injEq] at h
    obtain ⟨-, rfl⟩ := h
    exact ⟨rfl, rfl⟩

/-- A request is a loop's own, or it is not made at a round trip of a loop. -/
theorem pending_of_request {s : Fleet} {e : Event} {q : Request} (h : s.request d e = some q) :
    (∃ l o, e = .roundTrip l o ∧ o.effect = true ∧ s.pending d l = some q) ∨
      ∀ l o, e ≠ .roundTrip l o := by
  cases e with
  | roundTrip l o =>
    simp only [request, Option.ite_none_right_eq_some] at h
    exact Or.inl ⟨l, o, rfl, h⟩
  | _ => exact Or.inr (by simp)

/-- Loops enqueue nothing. -/
theorem enqueue_of_request {s : Fleet} {e : Event} {record : Record}
    (h : s.request d e = some (.enqueue record)) : e = .enqueue record := by
  rcases pending_of_request d h with ⟨l, o, -, -, hpending⟩ | hother
  · rw [pending] at hpending
    cases hl : s.loops l <;> simp [hl, Phase.request] at hpending
  · cases e with
    | enqueue r =>
      cases h
      rfl
    | roundTrip l o => exact absurd rfl (hother l o)
    | fetch c =>
      simp only [request] at h
      split at h <;> cases h
    | _ => cases h

/-- Only loops claim. -/
theorem claiming_of_request {s : Fleet} {e : Event} {jobId : JobId}
    (h : s.request d e = some (.claim jobId)) :
    ∃ l o, e = .roundTrip l o ∧ o.effect = true ∧ s.loops l = .claiming jobId := by
  rcases pending_of_request d h with ⟨l, o, rfl, ho, hpending⟩ | hother
  · refine ⟨l, o, rfl, ho, ?_⟩
    rw [pending] at hpending
    cases hl : s.loops l <;> simp [hl, Phase.request] at hpending
    rw [hpending]
  · cases e with
    | roundTrip l o => exact absurd rfl (hother l o)
    | fetch c =>
      simp only [request] at h
      split at h <;> cases h
    | _ => cases h

/-- Only loops save. -/
theorem saving_of_request {s : Fleet} {e : Event} {worker : InstanceId} {write : Finished}
    {ttl : Nat} (h : s.request d e = some (.save worker write ttl)) :
    ∃ l o attempt acked, e = .roundTrip l o ∧ s.loops l = .saving write attempt acked := by
  rcases pending_of_request d h with ⟨l, o, rfl, ho, hpending⟩ | hother
  · rw [pending] at hpending
    cases hl : s.loops l with
    | saving f attempt acked =>
      rw [hl] at hpending
      cases hpending
      exact ⟨l, o, attempt, acked, rfl, hl⟩
    | _ =>
      rw [hl] at hpending
      cases hpending
  · cases e with
    | roundTrip l o => exact absurd rfl (hother l o)
    | fetch c =>
      simp only [request] at h
      split at h <;> cases h
    | _ => cases h

/-! ## From one request to a run -/

/-- Condition `C` holds of the request that the event makes, if it makes one. -/
def Requesting (C : Request → Store → Prop) (s : Fleet) (e : Event) : Prop :=
  ∀ q, s.request d e = some q → C q s.store

/-- **Lifting exactness.** `J` is a property of the database. If, while `J`
holds, a request behaves (`Q`) exactly when it meets `C`, and then keeps `J`, then
the requests of a run all behave iff they all meet `C`. An event without a
request only has to behave. -/
theorem along_requests_iff {J : Store → Prop} {C : Request → Store → Prop}
    {Q : Store → Option Request → Store → Prop} (hinit : J .empty)
    (hquiet : ∀ st, J st → Q st none st)
    (hgood : ∀ q st, J st → C q st → Q st (some q) (q.after st) ∧ J (q.after st))
    (hexact : ∀ q st, J st → Q st (some q) (q.after st) → C q st) (es : List Event) :
    (machine d).Along (fun s e s' => Q s.store (s.request d e) s'.store) init es ↔
      (machine d).Along (fun s e _ => Requesting d C s e) init es := by
  refine Machine.along_iff_along (J := fun s => J s.store) (E := fun _ _ => True) ?_ ?_
    hinit (Machine.along_true es init)
  · intro s e s' hJ _ hs hc
    rw [step_store d hs]
    cases hq : s.request d e with
    | none => exact ⟨hquiet s.store hJ, hJ⟩
    | some q => exact hgood q s.store hJ (hc q hq)
  · intro s e s' hJ _ hs hQ q hq
    rw [step_store d hs, hq] at hQ
    exact hexact q s.store hJ hQ

/-! ## Two workers and a job

The deployment and the pieces of runs that the examples of runs are made of. -/

/-- A pool that knows every task, loads and dumps every blob and can make every call. -/
def anyTask : PoolConfig where
  registered _ := true
  loadsPayload _ := true
  loadsResult _ := true
  redumps _ := true
  binds _ _ := true

/-- Every process has one loop per pool, which runs whatever it is given. -/
def solo : Deployment where
  ttls _ := ⟨60, 30, by decide, by decide⟩
  concurrency _ := 1
  config _ := anyTask

/-- A job as a producer builds it. -/
def job : Record where
  id := "j"
  taskName := "task"
  createdAt := "0"
  status := .created
  attempts := 0
  requestCancel := false
  payload := []
  groupId := none
  error := none
  result := none

/-- The first loops of worker `a` and of worker `b`. -/
def loopA : LoopId := ⟨⟨"a", 0⟩, 0⟩

@[inherit_doc loopA] def loopB : LoopId := ⟨⟨"b", 0⟩, 0⟩

/-- A loop leases the next id. -/
def leases (l : LoopId) : List Event := [.move l .poll, .roundTrip l .reply]

/-- A loop leases the next id, claims it and starts its body. -/
def claims (l : LoopId) : List Event :=
  leases l ++ [.roundTrip l .reply, .move l (.decode [])]

end Fleet

end TaskQueue.Worker
