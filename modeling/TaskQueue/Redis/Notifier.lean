import TaskQueue.Library.Machine
import TaskQueue.Redis.Server

/-!
# Waiting for a message (`_Notifier`, `take_result`, `wait_cancel`)

All calls of one backend that wait for a job share one pubsub connection. A call joins
its channel before it first reads the record, and reads the record again whenever its
event has been set or its poll has lapsed. Joining and leaving are serialised by a lock;
the first watcher of a channel subscribes it, the last one unsubscribes it, and the last
of all closes the connection.

The events of a run are what happens between two `await`s of any of these tasks, a
request of any client at the server (what it publishes goes to the connection if its
channel is subscribed), and the reader handing the oldest message to the watchers of
its channel. A message is named by its place among all that the server has published;
`dropped` are those that the connection has lost.

`Heard` is the promise: a call that waits although the record would let it go has a
message on the way, or one sent since its join was dropped. A terminal save writes the
whole record that its worker has read, and may set the request flag with it; it
publishes to the `done` channel only.
-/

namespace TaskQueue.Redis

/-! ## Calls -/

/-- What a call waits for. -/
inductive WaitKind where
  | takeResult
  | waitCancel
deriving DecidableEq

/-- Where a call stands: in `join`, waiting for the lock or for its SUBSCRIBE; reading
the record; with the answer that it has to wait; in `_wait_for_message`; in `leave`,
waiting for the lock or for its UNSUBSCRIBE; or out. `first` tells the one read of
`wait_cancel` that raises when there is no record. -/
inductive WaitPhase where
  | uncalled
  | locking
  | subscribing
  | reading (first : Bool)
  | judged
  | parked
  | leaving
  | unsubscribing
  | left
deriving DecidableEq

/-- A call. `woken` is its event; `joinedAt` counts the messages published before its
join returned. -/
structure Waiter where
  kind : WaitKind
  jobId : JobId
  phase : WaitPhase
  woken : Bool
  joinedAt : Nat
deriving DecidableEq

namespace Waiter

/-- Nothing has been called. -/
def idle : Waiter := ⟨.takeResult, "", .uncalled, false, 0⟩

/-- `done_channel` or `cancel_channel` of the job. -/
def channel (w : Waiter) : Channel :=
  match w.kind with
  | .takeResult => .done w.jobId
  | .waitCancel => .cancel w.jobId

/-- The stored record lets the call go. -/
def Satisfied (w : Waiter) (st : Store) : Prop :=
  ∃ e, st.jobs w.jobId = some e ∧
    match w.kind with
    | .takeResult => e.record.status.terminal = true
    | .waitCancel => e.record.requestCancel = true

/-- One read of the record: `_is_terminal`, the first read of `wait_cancel`, or
`_cancel_requested`. -/
def read (w : Waiter) (first : Bool) (st : Store) : WaitPhase :=
  match w.kind, st.jobs w.jobId with
  | .takeResult, none => .leaving
  | .takeResult, some e => if e.record.status.terminal then .leaving else .judged
  | .waitCancel, none => if first then .leaving else .judged
  | .waitCancel, some e =>
    if e.record.requestCancel then .leaving
    else if first then .reading false else .judged

end Waiter

/-- The phases in which a call is in `_waiters`. -/
def WaitPhase.registered : WaitPhase → Bool
  | .subscribing | .reading _ | .judged | .parked | .leaving => true
  | _ => false

/-- The phases between a read that found nothing and the next one. -/
def WaitPhase.waits : WaitPhase → Bool
  | .judged | .parked => true
  | _ => false

/-- The phases in which a call has joined and has not left. -/
def WaitPhase.joined : WaitPhase → Bool
  | .reading _ | .judged | .parked | .leaving => true
  | _ => false

/-- Producers submit jobs that are not cancelled. -/
def Request.uncancelled : Request → Bool
  | .enqueue record => !record.requestCancel
  | _ => true

/-! ## The notifier -/

/-- A published message: its channel, and its place among all that were published. -/
structure Message where
  channel : Channel
  place : Nat
deriving DecidableEq

/-- A call of `take_result` or `wait_cancel`. -/
abbrev WaiterId := Nat

/-- The server, the shared connection, and the calls. -/
structure Notifier where
  store : Store
  subscribed : Channel → Bool
  inflight : List Message
  dropped : List Message
  lock : Option WaiterId
  watchers : List (Channel × WaiterId)
  waiters : WaiterId → Waiter

/-- One step of a call, of the server, or of the reader. `effect` tells whether a
command whose reply did not come was executed. -/
inductive NotifierEvent where
  | request (q : Request)
  | call (c : WaiterId) (kind : WaitKind) (jobId : JobId)
  | joins (c : WaiterId)
  | subscribed (c : WaiterId)
  | subscribeFailed (c : WaiterId) (effect : Bool)
  | read (c : WaiterId)
  | park (c : WaiterId)
  | resume (c : WaiterId)
  | timeout (c : WaiterId)
  | interrupt (c : WaiterId)
  | leaves (c : WaiterId)
  | unsubscribed (c : WaiterId) (effect : Bool)
  | deliver
  | drop (place : Nat)
deriving DecidableEq

namespace Notifier

/-- Change one call. -/
def update (s : Notifier) (c : WaiterId) (w : Waiter) : Notifier :=
  { s with waiters := Function.update s.waiters c w }

/-- The call goes on. -/
def moveTo (s : Notifier) (c : WaiterId) (phase : WaitPhase) : Notifier :=
  s.update c { s.waiters c with phase := phase }

/-- `join` returns. -/
def joined (s : Notifier) (c : WaiterId) : Notifier :=
  s.update c { s.waiters c with phase := .reading true, joinedAt := s.store.published.length }

/-- The event is cleared, and the record is read again. -/
def rereads (s : Notifier) (c : WaiterId) : Notifier :=
  s.update c { s.waiters c with phase := .reading false, woken := false }

/-- A channel has a watcher. -/
def watched (s : Notifier) (channel : Channel) : Bool := s.watchers.any fun p => p.1 = channel

/-- `_forget`. -/
def forget (s : Notifier) (c : WaiterId) : Notifier :=
  { s with watchers := s.watchers.filter fun p => p ≠ ((s.waiters c).channel, c) }

/-- What a request published, as messages to the shared connection. -/
def sent (subscribed : Channel → Bool) (st st' : Store) : List Message :=
  ((st'.published.drop st.published.length).zipIdx st.published.length).filterMap fun p =>
    if subscribed p.1 then some ⟨p.1, p.2⟩ else none

/-- The reader sets the events of the watchers of `channel`. -/
def wake (s : Notifier) (channel : Channel) : WaiterId → Waiter := fun c =>
  if (channel, c) ∈ s.watchers then { s.waiters c with woken := true } else s.waiters c

/-- One event. -/
def step (s : Notifier) : NotifierEvent → Option Notifier
  | .request q =>
    if q.uncancelled then
      let st := q.after s.store
      some { s with store := st, inflight := s.inflight ++ sent s.subscribed s.store st }
    else none
  | .call c kind jobId =>
    if (s.waiters c).phase = .uncalled then some (s.update c ⟨kind, jobId, .locking, false, 0⟩)
    else none
  | .joins c =>
    if (s.waiters c).phase = .locking ∧ s.lock = none then
      let channel := (s.waiters c).channel
      let s' := { s with watchers := s.watchers ++ [(channel, c)] }
      if s.watched channel then some (s'.joined c)
      else some { s'.moveTo c .subscribing with lock := some c }
    else none
  | .subscribed c =>
    if (s.waiters c).phase = .subscribing then
      some { s.joined c with
        subscribed := Function.update s.subscribed (s.waiters c).channel true
        lock := none }
    else none
  | .subscribeFailed c effect =>
    if (s.waiters c).phase = .subscribing then
      some { (s.forget c).moveTo c .left with
        subscribed := Function.update s.subscribed (s.waiters c).channel
          (effect || s.subscribed (s.waiters c).channel)
        lock := none }
    else none
  | .read c =>
    match (s.waiters c).phase with
    | .reading first => some (s.moveTo c ((s.waiters c).read first s.store))
    | _ => none
  | .park c => if (s.waiters c).phase = .judged then some (s.moveTo c .parked) else none
  | .resume c =>
    if (s.waiters c).phase = .parked ∧ (s.waiters c).woken = true then some (s.rereads c) else none
  | .timeout c => if (s.waiters c).phase = .parked then some (s.rereads c) else none
  | .interrupt c =>
    -- the call is cancelled, or its read raises
    match (s.waiters c).phase with
    | .locking => some (s.moveTo c .left)
    | .reading _ | .judged | .parked => some (s.moveTo c .leaving)
    | _ => none
  | .leaves c =>
    if (s.waiters c).phase = .leaving ∧ s.lock = none then
      let s' := s.forget c
      if s'.watched (s.waiters c).channel then some (s'.moveTo c .left)
      else if s'.watchers = [] then
        -- nobody is left: the connection is closed
        some { s'.moveTo c .left with subscribed := fun _ => false, inflight := [] }
      else some { s'.moveTo c .unsubscribing with lock := some c }
    else none
  | .unsubscribed c effect =>
    if (s.waiters c).phase = .unsubscribing then
      some { s.moveTo c .left with
        subscribed := Function.update s.subscribed (s.waiters c).channel
          (!effect && s.subscribed (s.waiters c).channel)
        lock := none }
    else none
  | .deliver =>
    match s.inflight with
    | m :: rest => some { s with inflight := rest, waiters := s.wake m.channel }
    | [] => none
  | .drop place =>
    match s.inflight.find? fun m => m.place = place with
    | some m =>
      some { s with inflight := s.inflight.erase m, dropped := m :: s.dropped }
    | none => none

/-- An empty database, and no call. -/
def machine : Machine Notifier NotifierEvent where
  init := ⟨.empty, fun _ => false, [], [], none, [], fun _ => .idle⟩
  step := step

/-- **No wake-up is lost**: a call that waits, its event unset, although the record
lets it go, has a message on its way, or one sent since its join was dropped. -/
def Heard (s : Notifier) : Prop :=
  ∀ c, (s.waiters c).phase = .parked → (s.waiters c).woken = false →
    (s.waiters c).Satisfied s.store →
    (∃ m ∈ s.inflight, m.channel = (s.waiters c).channel) ∨
      ∃ m ∈ s.dropped, m.channel = (s.waiters c).channel ∧ (s.waiters c).joinedAt ≤ m.place

/-- A terminal save does not set the request flag of a stored record on which a call of
`wait_cancel` has found it unset. -/
def FlagUnset (s : Notifier) (e : NotifierEvent) : Prop :=
  ∀ worker write ttl, e = .request (.save worker write ttl) →
    write.record.requestCancel = true → s.store.jobs write.record.id ≠ none →
    ∀ c, (s.waiters c).kind = .waitCancel → (s.waiters c).jobId = write.record.id →
      (s.waiters c).phase = .judged ∨ (s.waiters c).phase = .parked →
      (s.waiters c).Satisfied s.store

end Notifier

/-! ## What a request publishes -/

/-- A request publishes at most one message, and what it publishes comes last. -/
theorem Request.publishes (q : Request) (st : Store) :
    ∃ new, (q.after st).published = st.published ++ new := by
  cases q with
  | enqueue record =>
    cases hj : st.jobs record.id with
    | some e => exact ⟨[], by rw [after_enqueue_some hj, List.append_nil]⟩
    | none =>
      refine ⟨[], ?_⟩
      simp only [Request.after, Request.exec, enqueueScript_of_none hj, Store.rpush_published,
        Store.put_published, List.append_nil]
  | blmove worker =>
    refine ⟨[], ?_⟩
    cases hl : st.lists .queue with
    | nil => rw [after_blmove_nil hl, List.append_nil]
    | cons id rest =>
      rw [after_blmove_cons hl, Store.rpush_published, Store.lrem_published, List.append_nil]
  | claim id =>
    refine ⟨[], ?_⟩
    cases hj : st.jobs id with
    | none => rw [after_claim_none hj, List.append_nil]
    | some e => rw [after_claim_some hj, Store.put_published, List.append_nil]
  | save worker write ttl =>
    cases hj : st.jobs write.record.id with
    | none => exact ⟨[], by rw [after_save_none hj, List.append_nil]⟩
    | some e =>
      refine ⟨[.done write.record.id], ?_⟩
      simp [Request.after, Request.exec, saveScript, hj]
  | release worker id =>
    refine ⟨[], ?_⟩
    by_cases hrun : ∃ e, st.jobs id = some e ∧ e.record.status = .running
    · obtain ⟨e, hj, hs⟩ := hrun
      simp only [Request.after, Request.exec, releaseScript_of_running hj hs,
        Store.rpush_published, Store.lrem_published, Store.put_published, List.append_nil]
    · rw [after_release_of_not_running fun e hj hs => hrun ⟨e, hj, hs⟩, List.append_nil]
  | requestCancel id =>
    rcases after_requestCancel_cases st id with ⟨-, h⟩ | ⟨e, -, -, h⟩
    · exact ⟨[], by rw [h, List.append_nil]⟩
    · exact ⟨[.cancel id], by rw [h, Store.publish_published, Store.put_published]⟩
  | deregister worker =>
    refine ⟨[], ?_⟩
    simp only [Request.after, Request.exec, deregisterScript, List.append_nil]
    split <;> rfl
  | reap now ttl =>
    refine ⟨[], ?_⟩
    rw [List.append_nil]
    refine reaperScript_induction (I := fun st' => st'.published = st.published) ?_ ?_ rfl
    · intro worker _ r hr
      rw [← hr]
      cases hl : r.store.lists (.processing worker) with
      | nil => rw [Reaping.pop_nil hl]
      | cons id rest =>
        cases hj : r.store.jobs id with
        | none => rw [Reaping.pop_dropped hl hj, Store.lrem_published]
        | some e =>
          by_cases hs : e.record.status = .running <;>
            simp [Reaping.pop, Store.lpop_cons hl, hj, hs]
    · exact fun worker _ st' _ h => h
  | expire id =>
    refine ⟨[], ?_⟩
    rw [List.append_nil]
    rcases expireKey_cases st id with h | ⟨r, ttl, -, h⟩
    · rw [Request.after, Request.exec, h]
    · rw [Request.after, Request.exec, h, Store.del_published]
  | returnLease _ _ | discardLease _ _ | fetchAndDelete _ | heartbeat _ _ =>
    exact ⟨[], (List.append_nil _).symm⟩

/-- **A record that comes to let a call go is announced** on the call's channel, unless a
save has set its request flag. -/
theorem Request.announces {q : Request} {st : Store} {w : Waiter} (hq : q.uncancelled = true)
    (hbefore : ¬ w.Satisfied st) (hafter : w.Satisfied (q.after st)) :
    (q.after st).published = st.published ++ [w.channel] ∨
      (w.kind = .waitCancel ∧ ∃ worker write ttl, q = .save worker write ttl ∧
        w.jobId = write.record.id ∧ write.record.requestCancel = true ∧
        st.jobs write.record.id ≠ none) := by
  obtain ⟨e', he', hgo⟩ := hafter
  have hstep := q.recordStep st w.jobId
  rw [he'] at hstep
  generalize hold : st.jobs w.jobId = old at hstep
  have hsame : ∀ e, old = some e → e'.record.status.terminal = e.record.status.terminal →
      e'.record.requestCancel = e.record.requestCancel → False := by
    intro e he hstatus hflag
    refine hbefore ⟨e, hold.trans he, ?_⟩
    cases hk : w.kind with
    | takeResult =>
      rw [hk] at hgo
      exact hstatus ▸ hgo
    | waitCancel =>
      rw [hk] at hgo
      exact hflag ▸ hgo
  cases hstep with
  | same => exact (hsame e' rfl rfl rfl).elim
  | created record heq hid =>
    subst heq
    cases hk : w.kind with
    | takeResult =>
      rw [hk] at hgo
      cases hgo
    | waitCancel =>
      rw [hk] at hgo
      have hset : record.requestCancel = true := hgo
      simp [Request.uncancelled, hset] at hq
  | claimed e heq =>
    cases hk : w.kind with
    | takeResult =>
      rw [hk] at hgo
      cases hgo
    | waitCancel =>
      rw [hk] at hgo
      exact (hbefore ⟨e, hold, by rw [hk]; exact hgo⟩).elim
  | saved worker write ttl e heq hid =>
    subst heq
    cases hk : w.kind with
    | takeResult =>
      left
      simp [Request.after, Request.exec, saveScript, hold, Waiter.channel, hk, hid]
    | waitCancel =>
      rw [hk] at hgo
      right
      refine ⟨rfl, worker, write, ttl, rfl, hid.symm, hgo, ?_⟩
      rw [hid, hold]
      simp
  | requeued e heq hs =>
    cases hk : w.kind with
    | takeResult =>
      rw [hk] at hgo
      cases hgo
    | waitCancel =>
      rw [hk] at hgo
      exact (hbefore ⟨e, hold, by rw [hk]; exact hgo⟩).elim
  | flagged e heq ht =>
    subst heq
    cases hk : w.kind with
    | takeResult =>
      rw [hk] at hgo
      have ht' : e.record.status.terminal = true := hgo
      rw [ht] at ht'
      cases ht'
    | waitCancel =>
      left
      rcases after_requestCancel_cases st w.jobId with ⟨hdone, -⟩ | ⟨e₁, -, -, h⟩
      · have ht' := hdone e hold
        rw [ht] at ht'
        cases ht'
      · rw [h, Store.publish_published, Store.put_published, Waiter.channel, hk]

namespace Notifier

theorem mem_sent {subscribed : Channel → Bool} {st st' : Store} {channel : Channel}
    (hpublished : st'.published = st.published ++ [channel]) (hsub : subscribed channel = true) :
    ⟨channel, st.published.length⟩ ∈ sent subscribed st st' := by
  simp [sent, hpublished, hsub]

/-! ## The invariant -/

/-- The watchers, the lock and the subscriptions. -/
structure Wired (s : Notifier) : Prop where
  member : ∀ channel c, (channel, c) ∈ s.watchers ↔
    channel = (s.waiters c).channel ∧ (s.waiters c).phase.registered = true
  subscribing : ∀ c, (s.waiters c).phase = .subscribing → s.lock = some c
  unsubscribing : ∀ c, (s.waiters c).phase = .unsubscribing → s.lock = some c
  alone : ∀ c c', (s.waiters c).phase = .subscribing →
    (s.waiters c').phase.registered = true →
    (s.waiters c').channel = (s.waiters c).channel → c' = c
  gone : ∀ c c', (s.waiters c).phase = .unsubscribing →
    (s.waiters c').phase.registered = true → (s.waiters c').channel ≠ (s.waiters c).channel
  live : ∀ c, (s.waiters c).phase.joined = true → s.subscribed (s.waiters c).channel = true

/-- A call that waits in vain has a message that was sent since it joined. -/
structure Awaited (s : Notifier) : Prop where
  bound : ∀ c, (s.waiters c).joinedAt ≤ s.store.published.length
  heard : ∀ c, (s.waiters c).phase.waits = true → (s.waiters c).woken = false →
    (s.waiters c).Satisfied s.store →
    ∃ m, (m ∈ s.inflight ∨ m ∈ s.dropped) ∧ m.channel = (s.waiters c).channel ∧
      (s.waiters c).joinedAt ≤ m.place

theorem wired_init : Wired machine.init where
  member channel c := by simp [machine, Waiter.idle, WaitPhase.registered]
  subscribing _ h := by cases h
  unsubscribing _ h := by cases h
  alone _ _ h := by cases h
  gone _ _ h := by cases h
  live _ h := by cases h

theorem awaited_init : Awaited machine.init where
  bound _ := Nat.le_refl _
  heard _ h := by cases h

variable {s s' : Notifier} {c : WaiterId} {w : Waiter}

theorem WaitPhase.registered_of_joined {p : WaitPhase} (h : p.joined = true) :
    p.registered = true := by
  cases p <;> first | rfl | cases h

theorem WaitPhase.joined_of_waits {p : WaitPhase} (h : p.waits = true) : p.joined = true := by
  cases p <;> first | rfl | cases h

theorem update_waiters_self (s : Notifier) (c : WaiterId) (w : Waiter) :
    (s.update c w).waiters c = w := Function.update_self ..

theorem update_waiters_of_ne (s : Notifier) {c c' : WaiterId} (w : Waiter) (h : c' ≠ c) :
    (s.update c w).waiters c' = s.waiters c' := Function.update_of_ne h ..

/-- A call that stays in `_waiters`, or out of them, without touching the lock. -/
theorem Wired.goes (h : Wired s) (hchannel : w.channel = (s.waiters c).channel)
    (hreg : w.phase.registered = (s.waiters c).phase.registered)
    (hsub : w.phase ≠ .subscribing) (hunsub : w.phase ≠ .unsubscribing)
    (hjoined : w.phase.joined = true → (s.waiters c).phase.joined = true) :
    Wired (s.update c w) := by
  have hsame : ∀ c', ((s.update c w).waiters c').channel = (s.waiters c').channel ∧
      ((s.update c w).waiters c').phase.registered = (s.waiters c').phase.registered := by
    intro c'
    by_cases hc : c' = c
    · subst hc
      rw [update_waiters_self]
      exact ⟨hchannel, hreg⟩
    · rw [update_waiters_of_ne s w hc]
      exact ⟨rfl, rfl⟩
  have hother : ∀ c', ((s.update c w).waiters c').phase = .subscribing ∨
      ((s.update c w).waiters c').phase = .unsubscribing → c' ≠ c := by
    rintro c' hphase rfl
    rw [update_waiters_self] at hphase
    exact hphase.elim hsub hunsub
  refine ⟨fun channel c' => ?_, fun c' hp => ?_, fun c' hp => ?_, fun c₁ c₂ hp => ?_,
    fun c₁ c₂ hp => ?_, fun c' hp => ?_⟩
  · rw [(hsame c').1, (hsame c').2]
    exact h.member channel c'
  · rw [update_waiters_of_ne s w (hother c' (Or.inl hp))] at hp
    exact h.subscribing c' hp
  · rw [update_waiters_of_ne s w (hother c' (Or.inr hp))] at hp
    exact h.unsubscribing c' hp
  · rw [(hsame c₂).1, (hsame c₂).2, (hsame c₁).1]
    rw [update_waiters_of_ne s w (hother c₁ (Or.inl hp))] at hp
    exact h.alone c₁ c₂ hp
  · rw [(hsame c₂).1, (hsame c₂).2, (hsame c₁).1]
    rw [update_waiters_of_ne s w (hother c₁ (Or.inr hp))] at hp
    exact h.gone c₁ c₂ hp
  · rw [(hsame c').1]
    by_cases hc : c' = c
    · subst hc
      rw [update_waiters_self] at hp
      exact h.live c' (hjoined hp)
    · rw [update_waiters_of_ne s w hc] at hp
      exact h.live c' hp

/-- Only the calls that wait concern `Awaited`. -/
theorem Awaited.of_waiters (h : Awaited s) (hstore : s'.store = s.store)
    (hin : ∀ m ∈ s.inflight, m ∈ s'.inflight ∨ m ∈ s'.dropped)
    (hdropped : ∀ m ∈ s.dropped, m ∈ s'.dropped)
    (hbound : ∀ c, (s'.waiters c).joinedAt ≤ s.store.published.length)
    (hw : ∀ c, (s'.waiters c).phase.waits = true → (s'.waiters c).woken = false →
      (s.waiters c).phase.waits = true ∧ (s.waiters c).woken = false ∧
        (s'.waiters c).channel = (s.waiters c).channel ∧
        (s'.waiters c).joinedAt = (s.waiters c).joinedAt ∧
        ((s'.waiters c).Satisfied s.store → (s.waiters c).Satisfied s.store) ∨
      ¬ (s'.waiters c).Satisfied s.store) : Awaited s' where
  bound c := by
    rw [hstore]
    exact hbound c
  heard c hp hwoken hsat := by
    rw [hstore] at hsat
    rcases hw c hp hwoken with ⟨hp', hwoken', hchannel, hat, hsat'⟩ | hnot
    · obtain ⟨m, hm, hmc, hplace⟩ := h.heard c hp' hwoken' (hsat' hsat)
      refine ⟨m, ?_, hmc.trans hchannel.symm, hat ▸ hplace⟩
      rcases hm with hm | hm
      · exact hin m hm
      · exact Or.inr (hdropped m hm)
    · exact absurd hsat hnot

/-- One call moves, and no message does. -/
theorem Awaited.goes (h : Awaited s) (hbound : w.joinedAt ≤ s.store.published.length)
    (hw : w.phase.waits = true → w.woken = false →
      (s.waiters c).phase.waits = true ∧ (s.waiters c).woken = false ∧
        w.channel = (s.waiters c).channel ∧ w.joinedAt = (s.waiters c).joinedAt ∧
        (w.Satisfied s.store → (s.waiters c).Satisfied s.store) ∨
      ¬ w.Satisfied s.store) : Awaited (s.update c w) := by
  refine h.of_waiters rfl (fun m hm => Or.inl hm) (fun m hm => hm) (fun c' => ?_) fun c' => ?_
  · by_cases hc : c' = c
    · subst hc
      rw [update_waiters_self]
      exact hbound
    · rw [update_waiters_of_ne s w hc]
      exact h.bound c'
  · by_cases hc : c' = c
    · subst hc
      rw [update_waiters_self]
      exact hw
    · rw [update_waiters_of_ne s w hc]
      exact fun hp hwoken => Or.inl ⟨hp, hwoken, rfl, rfl, id⟩

/-! ### The watchers, the lock and the subscriptions -/

/-- One call moves. It takes the lock when it waits for a reply on the channel, which then
has no other watcher; it registers only while the lock is free; and the channels of the
calls that have joined stay subscribed. -/
theorem Wired.moves (h : Wired s) (hwaiters : s'.waiters = Function.update s.waiters c w)
    (hchannel : w.channel = (s.waiters c).channel)
    (hself : ∀ channel, (channel, c) ∈ s'.watchers ↔
      channel = w.channel ∧ w.phase.registered = true)
    (hwatchers : ∀ channel c', c' ≠ c → ((channel, c') ∈ s'.watchers ↔ (channel, c') ∈ s.watchers))
    (hlock : w.phase = .subscribing ∨ w.phase = .unsubscribing → s'.lock = some c ∧
      ∀ c', c' ≠ c → (s.waiters c').phase.registered = true → (s.waiters c').channel ≠ w.channel)
    (hfree : (∀ c', c' ≠ c → s.lock ≠ some c') ∨
      s'.lock = s.lock ∧ (w.phase.registered = true → (s.waiters c).phase.registered = true))
    (hlive : ∀ c', (s'.waiters c').phase.joined = true →
      s'.subscribed (s'.waiters c').channel = true) : Wired s' := by
  have hc : s'.waiters c = w := by rw [hwaiters, Function.update_self]
  have hne : ∀ c', c' ≠ c → s'.waiters c' = s.waiters c' := by
    intro c' hc'
    rw [hwaiters, Function.update_of_ne hc']
  have hheld : ∀ c', c' ≠ c → s.lock = some c' →
      s'.lock = some c' ∧ (w.phase.registered = true → (s.waiters c).phase.registered = true) := by
    intro c' hc' hl
    rcases hfree with hnone | ⟨hsame, hreg⟩
    · exact absurd hl (hnone c' hc')
    · exact ⟨hsame.trans hl, hreg⟩
  constructor
  case member =>
    intro channel c'
    by_cases hc' : c' = c
    · subst hc'
      rw [hc]
      exact hself channel
    · rw [hne c' hc', hwatchers channel c' hc']
      exact h.member channel c'
  case subscribing =>
    intro c' hp
    by_cases hc' : c' = c
    · subst hc'
      rw [hc] at hp
      exact (hlock (Or.inl hp)).1
    · rw [hne c' hc'] at hp
      exact (hheld c' hc' (h.subscribing c' hp)).1
  case unsubscribing =>
    intro c' hp
    by_cases hc' : c' = c
    · subst hc'
      rw [hc] at hp
      exact (hlock (Or.inr hp)).1
    · rw [hne c' hc'] at hp
      exact (hheld c' hc' (h.unsubscribing c' hp)).1
  case alone =>
    intro c₁ c₂ hp hreg hch
    by_cases hc₁ : c₁ = c
    · subst hc₁
      rw [hc] at hp hch
      by_contra hc₂
      rw [hne c₂ hc₂] at hreg hch
      exact (hlock (Or.inl hp)).2 c₂ hc₂ hreg hch
    · rw [hne c₁ hc₁] at hp hch
      by_cases hc₂ : c₂ = c
      · subst hc₂
        rw [hc] at hreg hch
        obtain ⟨-, hwas⟩ := hheld c₁ hc₁ (h.subscribing c₁ hp)
        exact h.alone c₁ c₂ hp (hwas hreg) (hchannel ▸ hch)
      · rw [hne c₂ hc₂] at hreg hch
        exact h.alone c₁ c₂ hp hreg hch
  case gone =>
    intro c₁ c₂ hp hreg hch
    by_cases hc₁ : c₁ = c
    · subst hc₁
      rw [hc] at hp hch
      by_cases hc₂ : c₂ = c₁
      · subst hc₂
        rw [hc, hp] at hreg
        cases hreg
      · rw [hne c₂ hc₂] at hreg hch
        exact (hlock (Or.inr hp)).2 c₂ hc₂ hreg hch
    · rw [hne c₁ hc₁] at hp hch
      by_cases hc₂ : c₂ = c
      · subst hc₂
        rw [hc] at hreg hch
        obtain ⟨-, hwas⟩ := hheld c₁ hc₁ (h.unsubscribing c₁ hp)
        exact h.gone c₁ c₂ hp (hwas hreg) (hchannel ▸ hch)
      · rw [hne c₂ hc₂] at hreg hch
        exact h.gone c₁ c₂ hp hreg hch
  case live => exact hlive

/-- A call that is not registered may start anything that is not either. -/
theorem Wired.calls (h : Wired s) (hwas : (s.waiters c).phase = .uncalled)
    (hp : w.phase = .locking) : Wired (s.update c w) := by
  have hsame : ∀ c', ((s.update c w).waiters c').phase.registered = true ∨
      ((s.update c w).waiters c').phase = .unsubscribing → c' ≠ c := by
    rintro c' hphase rfl
    rw [update_waiters_self, hp] at hphase
    rcases hphase with hphase | hphase <;> cases hphase
  have hold : ∀ channel, (channel, c) ∉ s.watchers := by
    intro channel hm
    have hreg := ((h.member channel c).mp hm).2
    rw [hwas] at hreg
    cases hreg
  constructor
  case member =>
    intro channel c'
    by_cases hc' : c' = c
    · subst hc'
      rw [update_waiters_self, hp]
      exact iff_of_false (hold channel) fun hm => by cases hm.2
    · rw [update_waiters_of_ne s w hc']
      exact h.member channel c'
  case subscribing =>
    intro c' hphase
    have hc' : c' ≠ c := hsame c' (Or.inl (by rw [hphase]; rfl))
    rw [update_waiters_of_ne s w hc'] at hphase
    exact h.subscribing c' hphase
  case unsubscribing =>
    intro c' hphase
    have hc' : c' ≠ c := hsame c' (Or.inr hphase)
    rw [update_waiters_of_ne s w hc'] at hphase
    exact h.unsubscribing c' hphase
  case alone =>
    intro c₁ c₂ hphase hreg hch
    have hc₁ : c₁ ≠ c := hsame c₁ (Or.inl (by rw [hphase]; rfl))
    have hc₂ : c₂ ≠ c := hsame c₂ (Or.inl hreg)
    rw [update_waiters_of_ne s w hc₁] at hphase hch
    rw [update_waiters_of_ne s w hc₂] at hreg hch
    exact h.alone c₁ c₂ hphase hreg hch
  case gone =>
    intro c₁ c₂ hphase hreg hch
    have hc₁ : c₁ ≠ c := hsame c₁ (Or.inr hphase)
    have hc₂ : c₂ ≠ c := hsame c₂ (Or.inl hreg)
    rw [update_waiters_of_ne s w hc₁] at hphase hch
    rw [update_waiters_of_ne s w hc₂] at hreg hch
    exact h.gone c₁ c₂ hphase hreg hch
  case live =>
    intro c' hj
    have hc' : c' ≠ c := hsame c' (Or.inl (WaitPhase.registered_of_joined hj))
    rw [update_waiters_of_ne s w hc'] at hj ⊢
    exact h.live c' hj

/-- A call that is registered when nobody holds the lock has joined. -/
theorem Wired.joined_of_registered (h : Wired s) (hl : s.lock ≠ some c)
    (hreg : (s.waiters c).phase.registered = true) : (s.waiters c).phase.joined = true := by
  cases hp : (s.waiters c).phase with
  | subscribing => exact absurd (h.subscribing c hp) hl
  | reading | judged | parked | leaving => rfl
  | uncalled | locking | unsubscribing | left =>
    rw [hp] at hreg
    cases hreg

theorem watched_iff (s : Notifier) (channel : Channel) :
    s.watched channel = true ↔ ∃ c, (channel, c) ∈ s.watchers := by
  simp [watched]

theorem mem_forget (h : Wired s) (channel : Channel) (c' : WaiterId) :
    (channel, c') ∈ (s.forget c).watchers ↔ c' ≠ c ∧ (channel, c') ∈ s.watchers := by
  simp only [forget, List.mem_filter, ne_eq, Prod.mk.injEq, not_and, decide_eq_true_eq]
  constructor
  · rintro ⟨hm, hne⟩
    refine ⟨?_, hm⟩
    rintro rfl
    exact hne ((h.member channel c').mp hm).1 rfl
  · rintro ⟨hne, hm⟩
    exact ⟨hm, fun _ => hne⟩

/-- Joining a channel that is watched. -/
theorem Wired.joins (h : Wired s) (hp : (s.waiters c).phase = .locking) (hl : s.lock = none)
    (hwatched : s.watched (s.waiters c).channel = true) :
    Wired (({ s with
      watchers := s.watchers ++ [((s.waiters c).channel, c)] } : Notifier).joined c) := by
  have hout : ∀ channel, (channel, c) ∉ s.watchers := by
    intro channel hm
    have hreg := ((h.member channel c).mp hm).2
    rw [hp] at hreg
    cases hreg
  obtain ⟨c₀, hm₀⟩ := (watched_iff s _).mp hwatched
  obtain ⟨hch₀, hreg₀⟩ := (h.member _ c₀).mp hm₀
  have hsub : s.subscribed (s.waiters c).channel = true := by
    rw [hch₀]
    exact h.live c₀ (h.joined_of_registered (by simp [hl]) hreg₀)
  refine h.moves (c := c) rfl rfl ?_ ?_ ?_ (Or.inl fun c' _ => by simp [hl]) ?_
  · intro channel
    simp [joined, update, hout, Waiter.channel, WaitPhase.registered]
  · intro channel c' hc'
    simp [joined, update, hc']
  · rintro (hphase | hphase) <;> cases hphase
  · intro c' hj
    by_cases hc' : c' = c
    · subst hc'
      simpa [joined, update, Waiter.channel] using hsub
    · simp only [joined, update, Function.update_of_ne hc'] at hj ⊢
      exact h.live c' hj

/-- The first watcher of a channel takes the lock to subscribe it. -/
theorem Wired.subscribes (h : Wired s) (hp : (s.waiters c).phase = .locking) (hl : s.lock = none)
    (hwatched : ¬ s.watched (s.waiters c).channel = true) :
    Wired { ({ s with watchers := s.watchers ++ [((s.waiters c).channel, c)] } :
      Notifier).moveTo c .subscribing with lock := some c } := by
  have hout : ∀ channel, (channel, c) ∉ s.watchers := by
    intro channel hm
    have hreg := ((h.member channel c).mp hm).2
    rw [hp] at hreg
    cases hreg
  refine h.moves (c := c) rfl rfl ?_ ?_ ?_ (Or.inl fun c' _ => by simp [hl]) ?_
  · intro channel
    simp [moveTo, update, hout, Waiter.channel, WaitPhase.registered]
  · intro channel c' hc'
    simp [moveTo, update, hc']
  · refine fun _ => ⟨rfl, fun c' hc' hreg hch => hwatched ?_⟩
    exact (watched_iff s _).mpr ⟨c', (h.member _ c').mpr ⟨hch.symm, hreg⟩⟩
  · intro c' hj
    by_cases hc' : c' = c
    · subst hc'
      simp [moveTo, update, WaitPhase.joined] at hj
    · simp only [moveTo, update, Function.update_of_ne hc'] at hj ⊢
      exact h.live c' hj

/-- The SUBSCRIBE was answered. -/
theorem Wired.subscribed (h : Wired s) (hp : (s.waiters c).phase = .subscribing) :
    Wired { s.joined c with
      subscribed := Function.update s.subscribed (s.waiters c).channel true
      lock := none } := by
  have hl := h.subscribing c hp
  have hmem : ∀ channel, (channel, c) ∈ s.watchers ↔ channel = (s.waiters c).channel := by
    intro channel
    rw [h.member channel c, hp]
    simp [WaitPhase.registered]
  refine h.moves (c := c) rfl rfl ?_ (fun _ _ _ => Iff.rfl) ?_ (Or.inl ?_) ?_
  · intro channel
    simp [joined, update, hmem, Waiter.channel, WaitPhase.registered]
  · rintro (hphase | hphase) <;> cases hphase
  · intro c' hc' hl'
    rw [hl] at hl'
    exact hc' (Option.some.inj hl').symm
  · intro c' hj
    by_cases hc' : c' = c
    · subst hc'
      simp [joined, update, Waiter.channel]
    · simp only [joined, update, Function.update_of_ne hc'] at hj ⊢
      by_cases hch : (s.waiters c').channel = (s.waiters c).channel
      · rw [hch, Function.update_self]
      · rw [Function.update_of_ne hch]
        exact h.live c' hj

/-- The lock's holder goes out: nobody else watches its channel. -/
theorem Wired.released (h : Wired s) {on : Bool}
    (hp : (s.waiters c).phase = .subscribing ∨ (s.waiters c).phase = .unsubscribing) :
    Wired { (s.forget c).moveTo c .left with
      subscribed := Function.update s.subscribed (s.waiters c).channel on
      lock := none } := by
  have hl : s.lock = some c := hp.elim (h.subscribing c) (h.unsubscribing c)
  have halone : ∀ c', c' ≠ c → (s.waiters c').phase.registered = true →
      (s.waiters c').channel ≠ (s.waiters c).channel := by
    intro c' hc' hreg hch
    rcases hp with hp | hp
    · exact hc' (h.alone c c' hp hreg hch)
    · exact h.gone c c' hp hreg hch
  refine h.moves (c := c) rfl rfl ?_ ?_ ?_ (Or.inl ?_) ?_
  · intro channel
    show (channel, c) ∈ (s.forget c).watchers ↔ _
    rw [mem_forget h]
    simp [WaitPhase.registered]
  · intro channel c' hc'
    show (channel, c') ∈ (s.forget c).watchers ↔ _
    rw [mem_forget h]
    exact and_iff_right hc'
  · rintro (hphase | hphase) <;> cases hphase
  · intro c' hc' hl'
    rw [hl] at hl'
    exact hc' (Option.some.inj hl').symm
  · intro c' hj
    by_cases hc' : c' = c
    · subst hc'
      simp [moveTo, update, WaitPhase.joined] at hj
    · simp only [moveTo, update, forget, Function.update_of_ne hc'] at hj ⊢
      rw [Function.update_of_ne (halone c' hc' (WaitPhase.registered_of_joined hj))]
      exact h.live c' hj

/-- A watcher of a channel that others watch as well, or the last one of all, leaves. -/
theorem Wired.leaves (h : Wired s) {on : Channel → Bool} {inflight : List Message}
    (hl : s.lock = none)
    (hon : ∀ c', c' ≠ c → (s.waiters c').phase.registered = true →
      on (s.waiters c').channel = s.subscribed (s.waiters c').channel) :
    Wired { (s.forget c).moveTo c .left with subscribed := on, inflight := inflight } := by
  refine h.moves (c := c) rfl rfl ?_ ?_ ?_ (Or.inl fun c' _ => by simp [hl]) ?_
  · intro channel
    show (channel, c) ∈ (s.forget c).watchers ↔ _
    rw [mem_forget h]
    simp [WaitPhase.registered]
  · intro channel c' hc'
    show (channel, c') ∈ (s.forget c).watchers ↔ _
    rw [mem_forget h]
    exact and_iff_right hc'
  · rintro (hphase | hphase) <;> cases hphase
  · intro c' hj
    by_cases hc' : c' = c
    · subst hc'
      simp [moveTo, update, WaitPhase.joined] at hj
    · simp only [moveTo, update, forget, Function.update_of_ne hc'] at hj ⊢
      rw [hon c' hc' (WaitPhase.registered_of_joined hj)]
      exact h.live c' hj

/-- The last watcher of a channel takes the lock to unsubscribe it. -/
theorem Wired.unsubscribes (h : Wired s) (hl : s.lock = none)
    (hwatched : ¬ (s.forget c).watched (s.waiters c).channel = true) :
    Wired { (s.forget c).moveTo c .unsubscribing with lock := some c } := by
  refine h.moves (c := c) rfl rfl ?_ ?_ ?_ (Or.inl fun c' _ => by simp [hl]) ?_
  · intro channel
    show (channel, c) ∈ (s.forget c).watchers ↔ _
    rw [mem_forget h]
    simp [WaitPhase.registered]
  · intro channel c' hc'
    show (channel, c') ∈ (s.forget c).watchers ↔ _
    rw [mem_forget h]
    exact and_iff_right hc'
  · refine fun _ => ⟨rfl, fun c' hc' hreg hch => hwatched ?_⟩
    refine (watched_iff _ _).mpr ⟨c', (mem_forget h _ c').mpr ⟨hc', ?_⟩⟩
    exact (h.member _ c').mpr ⟨hch.symm, hreg⟩
  · intro c' hj
    by_cases hc' : c' = c
    · subst hc'
      simp [moveTo, update, WaitPhase.joined] at hj
    · simp only [moveTo, update, forget, Function.update_of_ne hc'] at hj ⊢
      exact h.live c' hj

/-- What the reader does to a call leaves all but its event as it is. -/
theorem wake_eq (s : Notifier) (channel : Channel) (c : WaiterId) :
    s.wake channel c = { s.waiters c with woken := (s.wake channel c).woken } := by
  unfold wake
  split <;> rfl

/-- Messages and records do not concern the wiring. -/
theorem Wired.of_waiters (h : Wired s) (hwatchers : s'.watchers = s.watchers)
    (hlock : s'.lock = s.lock) (hsub : s'.subscribed = s.subscribed)
    (hw : ∀ c, (s'.waiters c).channel = (s.waiters c).channel ∧
      (s'.waiters c).phase = (s.waiters c).phase) : Wired s' where
  member channel c := by
    rw [hwatchers, (hw c).1, (hw c).2]
    exact h.member channel c
  subscribing c hp := by
    rw [(hw c).2] at hp
    exact hlock.trans (h.subscribing c hp)
  unsubscribing c hp := by
    rw [(hw c).2] at hp
    exact hlock.trans (h.unsubscribing c hp)
  alone c₁ c₂ hp hreg hch := by
    rw [(hw c₁).2] at hp
    rw [(hw c₂).2] at hreg
    rw [(hw c₁).1, (hw c₂).1] at hch
    exact h.alone c₁ c₂ hp hreg hch
  gone c₁ c₂ hp hreg hch := by
    rw [(hw c₁).2] at hp
    rw [(hw c₂).2] at hreg
    rw [(hw c₁).1, (hw c₂).1] at hch
    exact h.gone c₁ c₂ hp hreg hch
  live c hp := by
    rw [(hw c).2] at hp
    rw [hsub, (hw c).1]
    exact h.live c hp

theorem forget_of_unregistered (h : Wired s) (hp : (s.waiters c).phase.registered = false) :
    s.forget c = s := by
  have hfilter : s.watchers.filter (fun p => p ≠ ((s.waiters c).channel, c)) = s.watchers := by
    refine List.filter_eq_self.mpr fun p hm => ?_
    simp only [ne_eq, decide_eq_true_eq]
    rintro rfl
    have hreg := ((h.member _ c).mp hm).2
    rw [hp] at hreg
    cases hreg
  show { s with watchers := _ } = s
  rw [hfilter]

/-- What one read answers. -/
theorem read_cases (w : Waiter) (first : Bool) (st : Store) :
    w.read first st = .leaving ∨ w.read first st = .reading false ∨
      w.read first st = .judged ∧ ¬ w.Satisfied st := by
  cases hj : st.jobs w.jobId with
  | none =>
    have hnot : ¬ w.Satisfied st := by
      rintro ⟨e, he, -⟩
      rw [hj] at he
      cases he
    cases hk : w.kind <;> cases first <;> simp [Waiter.read, hk, hj, hnot]
  | some e =>
    cases hk : w.kind with
    | takeResult =>
      cases ht : e.record.status.terminal with
      | true => simp [Waiter.read, hk, hj, ht]
      | false =>
        have hnot : ¬ w.Satisfied st := by
          rintro ⟨e', he', hgo⟩
          rw [hj] at he'
          cases he'
          rw [hk] at hgo
          simp [ht] at hgo
        simp [Waiter.read, hk, hj, ht, hnot]
    | waitCancel =>
      cases hf : e.record.requestCancel with
      | true => simp [Waiter.read, hk, hj, hf]
      | false =>
        have hnot : ¬ w.Satisfied st := by
          rintro ⟨e', he', hgo⟩
          rw [hj] at he'
          cases he'
          rw [hk] at hgo
          simp [hf] at hgo
        cases first <;> simp [Waiter.read, hk, hj, hf, hnot]

/-- Every event keeps the wiring. -/
theorem Wired.step {e : NotifierEvent} (h : Wired s) (hs : machine.step s e = some s') :
    Wired s' := by
  simp only [machine] at hs
  cases e with
  | request q =>
    simp only [Notifier.step, Option.ite_none_right_eq_some, Option.some.injEq] at hs
    obtain ⟨-, rfl⟩ := hs
    exact h.of_waiters rfl rfl rfl fun c => ⟨rfl, rfl⟩
  | call c kind jobId =>
    simp only [Notifier.step, Option.ite_none_right_eq_some, Option.some.injEq] at hs
    obtain ⟨hp, rfl⟩ := hs
    exact h.calls hp rfl
  | joins c =>
    simp only [Notifier.step, Option.ite_none_right_eq_some] at hs
    obtain ⟨⟨hp, hl⟩, hs⟩ := hs
    split at hs
    case isTrue hwatched =>
      cases hs
      exact h.joins hp hl hwatched
    case isFalse hwatched =>
      cases hs
      exact h.subscribes hp hl hwatched
  | subscribed c =>
    simp only [Notifier.step, Option.ite_none_right_eq_some, Option.some.injEq] at hs
    obtain ⟨hp, rfl⟩ := hs
    exact h.subscribed hp
  | subscribeFailed c effect =>
    simp only [Notifier.step, Option.ite_none_right_eq_some, Option.some.injEq] at hs
    obtain ⟨hp, rfl⟩ := hs
    exact h.released (Or.inl hp)
  | read c =>
    simp only [Notifier.step] at hs
    split at hs
    case h_1 first hp =>
      cases hs
      refine h.goes rfl ?_ ?_ ?_ ?_ <;>
        rcases read_cases (s.waiters c) first s.store with hr | hr | ⟨hr, -⟩ <;>
        simp [hr, hp, WaitPhase.registered, WaitPhase.joined]
    case h_2 => cases hs
  | park c =>
    simp only [Notifier.step, Option.ite_none_right_eq_some, Option.some.injEq] at hs
    obtain ⟨hp, rfl⟩ := hs
    exact h.goes rfl (by simp [hp, WaitPhase.registered]) (by simp) (by simp)
      (by simp [hp, WaitPhase.joined])
  | resume c =>
    simp only [Notifier.step, Option.ite_none_right_eq_some, Option.some.injEq] at hs
    obtain ⟨⟨hp, -⟩, rfl⟩ := hs
    exact h.goes rfl (by simp [hp, WaitPhase.registered]) (by simp) (by simp)
      (by simp [hp, WaitPhase.joined])
  | timeout c =>
    simp only [Notifier.step, Option.ite_none_right_eq_some, Option.some.injEq] at hs
    obtain ⟨hp, rfl⟩ := hs
    exact h.goes rfl (by simp [hp, WaitPhase.registered]) (by simp) (by simp)
      (by simp [hp, WaitPhase.joined])
  | interrupt c =>
    simp only [Notifier.step] at hs
    -- a call that is out, or in the middle of a reply, is not interrupted here
    split at hs <;> cases hs
    all_goals
      rename_i hp
      exact h.goes rfl (by simp [hp, WaitPhase.registered]) (by simp) (by simp)
        (by simp [hp, WaitPhase.joined])
  | leaves c =>
    simp only [Notifier.step, Option.ite_none_right_eq_some] at hs
    obtain ⟨⟨-, hl⟩, hs⟩ := hs
    split at hs
    · cases hs
      exact h.leaves hl fun _ _ _ => rfl
    · rename_i hwatched
      split at hs
      case isTrue hnone =>
        cases hs
        refine h.leaves hl fun c' hc' hreg => ?_
        have hm := (mem_forget h _ c').mpr ⟨hc', (h.member _ c').mpr ⟨rfl, hreg⟩⟩
        rw [hnone] at hm
        cases hm
      case isFalse =>
        cases hs
        exact h.unsubscribes hl hwatched
  | unsubscribed c effect =>
    simp only [Notifier.step, Option.ite_none_right_eq_some, Option.some.injEq] at hs
    obtain ⟨hp, rfl⟩ := hs
    have hforget := forget_of_unregistered h (c := c) (by rw [hp]; rfl)
    rw [← hforget]
    exact h.released (Or.inr hp)
  | deliver =>
    simp only [Notifier.step] at hs
    split at hs
    · cases hs
      refine h.of_waiters rfl rfl rfl fun c => ?_
      show (s.wake _ c).channel = _ ∧ (s.wake _ c).phase = _
      rw [wake_eq]
      exact ⟨rfl, rfl⟩
    · cases hs
  | drop place =>
    simp only [Notifier.step] at hs
    split at hs
    · cases hs
      exact h.of_waiters rfl rfl rfl fun c => ⟨rfl, rfl⟩
    · cases hs

/-! ### The messages -/

/-- A call that does not wait has nothing to hear. -/
theorem Awaited.out (h : Awaited s) (hbound : w.joinedAt ≤ s.store.published.length)
    (hp : w.phase.waits = false) : Awaited (s.update c w) := by
  refine h.goes hbound fun hwaits => ?_
  rw [hp] at hwaits
  cases hwaits

/-- A record that comes to let a call go is announced to those who wait for it. -/
theorem Awaited.request {q : Request} (hw : Wired s) (h : Awaited s)
    (hq : q.uncancelled = true) (hflag : FlagUnset s (.request q)) :
    Awaited { s with
      store := q.after s.store
      inflight := s.inflight ++ sent s.subscribed s.store (q.after s.store) } where
  bound c := by
    obtain ⟨new, hnew⟩ := q.publishes s.store
    have hlen : s.store.published.length ≤ (q.after s.store).published.length := by
      rw [hnew, List.length_append]
      exact Nat.le_add_right _ _
    exact (h.bound c).trans hlen
  heard c hp hwoken hsat := by
    by_cases hbefore : (s.waiters c).Satisfied s.store
    · obtain ⟨m, hm, hmc, hplace⟩ := h.heard c hp hwoken hbefore
      exact ⟨m, hm.imp_left (List.mem_append_left _), hmc, hplace⟩
    · rcases Request.announces hq hbefore hsat with
        hpub | ⟨hk, worker, write, ttl, heq, hid, hset, hrec⟩
      · have hsub := hw.live c (WaitPhase.joined_of_waits hp)
        have hm := mem_sent hpub hsub
        exact ⟨_, Or.inl (List.mem_append_right _ hm), rfl, h.bound c⟩
      · have hphase : (s.waiters c).phase = .judged ∨ (s.waiters c).phase = .parked := by
          cases hph : (s.waiters c).phase <;> simp [hph, WaitPhase.waits] at hp ⊢
        rw [heq] at hflag
        exact absurd (hflag worker write ttl rfl hset hrec c hk hid hphase) hbefore

/-- The reader hands over the oldest message. -/
theorem Awaited.deliver {m : Message} {rest : List Message} (hw : Wired s) (h : Awaited s)
    (hin : s.inflight = m :: rest) :
    Awaited { s with inflight := rest, waiters := s.wake m.channel } where
  bound c := by
    show (s.wake m.channel c).joinedAt ≤ _
    rw [wake_eq]
    exact h.bound c
  heard c hp hwoken hsat := by
    change (s.wake m.channel c).phase.waits = true at hp
    change (s.wake m.channel c).woken = false at hwoken
    change (s.wake m.channel c).Satisfied s.store at hsat
    rw [wake_eq] at hp hsat
    have hreg := WaitPhase.registered_of_joined (WaitPhase.joined_of_waits hp)
    -- a watcher of the message's channel is woken
    have hother : (m.channel, c) ∉ s.watchers := by
      intro hm
      simp [wake, hm] at hwoken
    have hne : m.channel ≠ (s.waiters c).channel := fun hch =>
      hother ((hw.member _ c).mpr ⟨hch, hreg⟩)
    have hsame : s.wake m.channel c = s.waiters c := by simp [wake, hother]
    rw [hsame] at hwoken
    obtain ⟨m', hm', hmc, hplace⟩ := h.heard c hp hwoken hsat
    refine ⟨m', ?_, ?_, ?_⟩
    · rw [hin] at hm'
      rcases hm' with hm' | hm'
      · rcases List.mem_cons.mp hm' with rfl | hm'
        · exact absurd hmc hne
        · exact Or.inl hm'
      · exact Or.inr hm'
    · show _ = (s.wake m.channel c).channel
      rw [hsame]
      exact hmc
    · show (s.wake m.channel c).joinedAt ≤ _
      rw [hsame]
      exact hplace

/-- Every event keeps the promise, unless a save sets the flag of a call that waits. -/
theorem Awaited.step {e : NotifierEvent} (hw : Wired s) (h : Awaited s) (hflag : FlagUnset s e)
    (hs : machine.step s e = some s') : Awaited s' := by
  simp only [machine] at hs
  cases e with
  | request q =>
    simp only [Notifier.step, Option.ite_none_right_eq_some, Option.some.injEq] at hs
    obtain ⟨hq, rfl⟩ := hs
    exact h.request hw hq hflag
  | call c kind jobId =>
    simp only [Notifier.step, Option.ite_none_right_eq_some, Option.some.injEq] at hs
    obtain ⟨-, rfl⟩ := hs
    exact h.out (Nat.zero_le _) rfl
  | joins c =>
    simp only [Notifier.step, Option.ite_none_right_eq_some] at hs
    obtain ⟨-, hs⟩ := hs
    split at hs
    · cases hs
      have hout := h.out (c := c)
        (w := { s.waiters c with phase := .reading true, joinedAt := s.store.published.length })
        (Nat.le_refl _) rfl
      exact ⟨hout.bound, hout.heard⟩
    · cases hs
      have hout := h.out (c := c) (w := { s.waiters c with phase := .subscribing }) (h.bound c) rfl
      exact ⟨hout.bound, hout.heard⟩
  | subscribed c =>
    simp only [Notifier.step, Option.ite_none_right_eq_some, Option.some.injEq] at hs
    obtain ⟨-, rfl⟩ := hs
    have hout := h.out (c := c)
      (w := { s.waiters c with phase := .reading true, joinedAt := s.store.published.length })
      (Nat.le_refl _) rfl
    exact ⟨hout.bound, hout.heard⟩
  | subscribeFailed c effect =>
    simp only [Notifier.step, Option.ite_none_right_eq_some, Option.some.injEq] at hs
    obtain ⟨-, rfl⟩ := hs
    have hout := h.out (c := c) (w := { s.waiters c with phase := .left }) (h.bound c) rfl
    exact ⟨hout.bound, hout.heard⟩
  | read c =>
    simp only [Notifier.step] at hs
    split at hs
    case h_1 first hp =>
      cases hs
      rcases read_cases (s.waiters c) first s.store with hr | hr | ⟨-, hnot⟩
      · exact h.out (h.bound c) (by rw [hr]; rfl)
      · exact h.out (h.bound c) (by rw [hr]; rfl)
      · exact h.goes (h.bound c) fun _ _ => Or.inr hnot
    case h_2 => cases hs
  | park c =>
    simp only [Notifier.step, Option.ite_none_right_eq_some, Option.some.injEq] at hs
    obtain ⟨hp, rfl⟩ := hs
    refine h.goes (h.bound c) fun _ hwoken => Or.inl ⟨?_, hwoken, rfl, rfl, id⟩
    rw [hp]
    rfl
  | resume c =>
    simp only [Notifier.step, Option.ite_none_right_eq_some, Option.some.injEq] at hs
    obtain ⟨-, rfl⟩ := hs
    exact h.out (h.bound c) rfl
  | timeout c =>
    simp only [Notifier.step, Option.ite_none_right_eq_some, Option.some.injEq] at hs
    obtain ⟨-, rfl⟩ := hs
    exact h.out (h.bound c) rfl
  | interrupt c =>
    simp only [Notifier.step] at hs
    split at hs <;> cases hs
    all_goals exact h.out (h.bound c) rfl
  | leaves c =>
    simp only [Notifier.step, Option.ite_none_right_eq_some] at hs
    obtain ⟨-, hs⟩ := hs
    split at hs
    · cases hs
      have hout := h.out (c := c) (w := { s.waiters c with phase := .left }) (h.bound c) rfl
      exact ⟨hout.bound, hout.heard⟩
    · split at hs
      case isTrue hnone =>
        cases hs
        have hout := h.out (c := c) (w := { s.waiters c with phase := .left }) (h.bound c) rfl
        refine ⟨hout.bound, fun c' hp _ _ => ?_⟩
        -- a call that waits is a watcher, and there is none
        by_cases hc' : c' = c
        · subst hc'
          simp [moveTo, update, WaitPhase.waits] at hp
        · simp only [moveTo, update, forget, Function.update_of_ne hc'] at hp
          have hreg := WaitPhase.registered_of_joined (WaitPhase.joined_of_waits hp)
          have hm := (mem_forget hw _ c').mpr ⟨hc', (hw.member _ c').mpr ⟨rfl, hreg⟩⟩
          rw [hnone] at hm
          cases hm
      case isFalse =>
        cases hs
        have hout := h.out (c := c) (w := { s.waiters c with phase := .unsubscribing })
          (h.bound c) rfl
        exact ⟨hout.bound, hout.heard⟩
  | unsubscribed c effect =>
    simp only [Notifier.step, Option.ite_none_right_eq_some, Option.some.injEq] at hs
    obtain ⟨-, rfl⟩ := hs
    have hout := h.out (c := c) (w := { s.waiters c with phase := .left }) (h.bound c) rfl
    exact ⟨hout.bound, hout.heard⟩
  | deliver =>
    simp only [Notifier.step] at hs
    split at hs
    case h_1 m rest hin =>
      cases hs
      exact h.deliver hw hin
    case h_2 => cases hs
  | drop place =>
    simp only [Notifier.step] at hs
    split at hs
    case h_1 m _ =>
      cases hs
      refine h.of_waiters rfl (fun m' hm' => ?_) (fun m' hm' => List.mem_cons_of_mem _ hm')
        h.bound fun c hp hwoken => Or.inl ⟨hp, hwoken, rfl, rfl, id⟩
      by_cases heq : m' = m
      · exact Or.inr (heq ▸ List.mem_cons_self)
      · exact Or.inl ((List.mem_erase_of_ne heq).mpr hm')
    case h_2 => cases hs

theorem Awaited.all_heard (h : Awaited s) : Heard s := by
  intro c hp hwoken hsat
  obtain ⟨m, hm | hm, hmc, hplace⟩ := h.heard c (by rw [hp]; rfl) hwoken hsat
  · exact Or.inl ⟨m, hm, hmc⟩
  · exact Or.inr ⟨m, hm, hmc, hplace⟩

/-- **Every run in which no save sets the request flag of a call that waits loses no
wake-up**, in any of its states. -/
theorem heard_along (es : List NotifierEvent)
    (hflag : machine.Along (fun s e _ => FlagUnset s e) machine.init es) :
    machine.Along (fun _ _ s' => Heard s') machine.init es := by
  have hstep : ∀ s e s', Wired s ∧ Awaited s → FlagUnset s e → machine.step s e = some s' →
      Heard s' ∧ (Wired s' ∧ Awaited s') := by
    rintro s e s' ⟨hwired, hawaited⟩ hflag hs
    have hawaited' := hawaited.step hwired hflag hs
    exact ⟨hawaited'.all_heard, hwired.step hs, hawaited'⟩
  exact Machine.along_of_invariant hstep ⟨wired_init, awaited_init⟩ hflag

/-- Producers and workers of these runs agree on one job. -/
def sharedJob : Record where
  id := "j"
  taskName := "task"
  createdAt := "0"
  status := .queued
  attempts := 0
  requestCancel := false
  payload := []
  groupId := none
  error := none
  result := none

/-- What the first worker to claim it saves. -/
def sharedResult : Finished := (claimed sharedJob).settle [] (.completed [])

/-- The event is a save that sets the request flag. -/
def savesFlag : NotifierEvent → Bool
  | .request (.save _ write _) => write.record.requestCancel
  | _ => false

/-- Two calls wait on one channel, and the message for them is dropped. -/
def twoWaiters : List NotifierEvent :=
  [.request (.enqueue sharedJob), .request (.blmove "w"), .request (.claim "j"),
    .call 0 .takeResult "j", .joins 0, .subscribed 0, .read 0, .park 0,
    .call 1 .takeResult "j", .joins 1, .read 1, .park 1,
    .request (.save "w" sharedResult 60), .timeout 1, .read 1, .leaves 1,
    .drop 0, .call 2 .waitCancel "j", .joins 2, .subscribed 2]

theorem heard_along_twoWaiters :
    (machine.run machine.init twoWaiters).isSome = true ∧
      machine.Along (fun _ _ s' => Heard s') machine.init twoWaiters := by
  refine ⟨by decide +kernel, heard_along twoWaiters ?_⟩
  have hsaves : machine.Along (fun _ e _ => savesFlag e = false) machine.init twoWaiters := by
    decide +kernel
  refine hsaves.mono fun s e s' _ hunset worker write ttl heq hset => ?_
  subst heq
  have hset' : write.record.requestCancel = false := hunset
  rw [hset] at hset'
  cases hset'

/-- The first worker is reaped while its body runs, the job is cancelled, and a second
worker reads the record with its flag. The first one saves the record that it had read
before; a call of `wait_cancel` finds the flag unset and waits; the second worker saves
the record that it had read, and the flag is set without a message. -/
def flagSaved : List NotifierEvent :=
  [.request (.heartbeat "w" 0), .request (.enqueue sharedJob), .request (.blmove "w"),
    .request (.claim "j"), .request (.reap 100 30), .request (.requestCancel "j"),
    .request (.blmove "v"), .request (.claim "j"), .request (.save "w" sharedResult 60),
    .call 0 .waitCancel "j", .joins 0, .subscribed 0, .read 0, .read 0, .park 0,
    .request (.save "v" ({ claimed sharedJob with requestCancel := true }.settle [] .cancelled) 60)]

/-- No message is on its way, and none was dropped. -/
theorem flagSaved_unheard :
    ∃ s, machine.run machine.init flagSaved = some s ∧ ¬ Heard s := by
  refine ⟨_, rfl, fun h => ?_⟩
  rcases h 0 rfl rfl ⟨_, rfl, rfl⟩ with ⟨m, hm, -⟩ | ⟨m, hm, -⟩
  · cases hm
  · cases hm

end Notifier

end TaskQueue.Redis
