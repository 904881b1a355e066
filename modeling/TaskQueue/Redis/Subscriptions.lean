import TaskQueue.Library.Machine
import TaskQueue.Library.Roster
import TaskQueue.Redis.Store
import Mathlib.Data.Finset.Card
import Mathlib.Logic.Function.Basic

/-!
# What the notifier holds (`_Notifier`)

The three fields `_waiters`, `_pubsub` and `_reader`, and the tasks that change them: calls
of `join`, calls of `leave` with the `release` each of them shields, and the readers that
joins have started. The events of a run are what happens between two `await`s of one of
these tasks, and what an `await` can end with: SUBSCRIBE and UNSUBSCRIBE may raise with
the command executed or not, `get_message` may raise, and the caller of `join` or of
`leave` may be cancelled at any of its `await`s.

`Held` is the promise, due whenever nobody has the lock and no release is under way.
Two steps break it. A first SUBSCRIBE that fails leaves its connection behind: `_forget`
takes the watcher back, nobody takes back `_pubsub`. And a reader whose `get_message`
raises returns, but stays in `_reader`, where every later `join` takes it for a running
one. `held_of_spared` says that there is no third.
-/

universe u

namespace TaskQueue.Redis

/-! ## Tasks -/

/-- An `asyncio.Event`, made by one call of `join`. -/
abbrev EventId := Nat

/-- A call of `leave`. -/
abbrev ReleaseId := Nat

/-- A reader task. -/
abbrev ReaderId := Nat

/-- Where a call of `join` stands, and then its event: waiting for the lock, or for its
SUBSCRIBE; returned and not left; left; or never returned. -/
inductive JoinPhase (κ : Type u) where
  | uncalled
  | locking (channel : κ)
  | subscribing (channel : κ)
  | joined (channel : κ)
  | left (channel : κ)
  | raised
deriving DecidableEq

/-- Where a `release` stands: waiting for the lock, for its UNSUBSCRIBE, for the reader
that it has cancelled, or for `aclose`. -/
inductive ReleasePhase (κ : Type u) where
  | uncalled
  | locking (channel : κ) (woken : EventId)
  | unsubscribing (channel : κ)
  | awaiting (reader : ReaderId)
  | closing
  | done
deriving DecidableEq

/-- A reader: created, waiting in `get_message`, cancelled, or returned. -/
inductive ReaderPhase where
  | created
  | polling
  | cancelling
  | finished
deriving DecidableEq

/-- Who is inside the lock. -/
inductive Holder where
  | join (woken : EventId)
  | release (r : ReleaseId)
deriving DecidableEq

namespace JoinPhase

variable {κ : Type u}

/-- `join` has returned its event. -/
def returned : JoinPhase κ → Bool
  | .joined _ | .left _ => true
  | _ => false

end JoinPhase

/-- The release has been called and is not over. -/
def ReleasePhase.inProgress {κ : Type u} : ReleasePhase κ → Bool
  | .uncalled | .done => false
  | _ => true

/-- A running task: not cancelled, and not over. -/
def ReaderPhase.running : ReaderPhase → Bool
  | .created | .polling => true
  | _ => false

/-- `reader.cancel()`. -/
def ReaderPhase.cancel : ReaderPhase → ReaderPhase
  | .finished => .finished
  | _ => .cancelling

/-! ## The notifier -/

/-- The fields of the notifier and the tasks around it. `pubsub` is the set of channels
that the current connection is subscribed to; `abandoned` are the releases whose caller
has been cancelled; `started` counts the readers. -/
structure SharedNotifier (κ : Type u) where
  waiters : Roster κ EventId
  pubsub : Option (Finset κ)
  reader : Option ReaderId
  lock : Option Holder
  joins : EventId → JoinPhase κ
  releases : ReleaseId → ReleasePhase κ
  abandoned : Finset ReleaseId
  readers : ReaderId → ReaderPhase
  started : Nat

/-- One step of a call, of a release, or of a reader. `effect` tells whether a command
that raised was executed. -/
inductive SharedEvent (κ : Type u) where
  | join (e : EventId) (channel : κ)
  | joinCancelled (e : EventId)
  | joinEnters (e : EventId)
  | subscribed (e : EventId)
  | subscribeFails (e : EventId) (effect : Bool)
  | leave (r : ReleaseId) (channel : κ) (e : EventId)
  | leaveCancelled (r : ReleaseId)
  | releaseEnters (r : ReleaseId)
  | unsubscribed (r : ReleaseId) (effect : Bool)
  | readerEnded (r : ReleaseId)
  | closed (r : ReleaseId)
  | readerPolls (rd : ReaderId)
  | readerFails (rd : ReaderId)
  | readerUnwinds (rd : ReaderId)

namespace SharedNotifier

variable {κ : Type u}

/-- Move one call of `join`. -/
def setJoin (s : SharedNotifier κ) (e : EventId) (phase : JoinPhase κ) : SharedNotifier κ :=
  { s with joins := Function.update s.joins e phase }

/-- Move one release. -/
def setRelease (s : SharedNotifier κ) (r : ReleaseId) (phase : ReleasePhase κ) :
    SharedNotifier κ :=
  { s with releases := Function.update s.releases r phase }

/-- Move one reader. -/
def setReader (s : SharedNotifier κ) (rd : ReaderId) (phase : ReaderPhase) : SharedNotifier κ :=
  { s with readers := Function.update s.readers rd phase }

/-- `if self._pubsub is None: self._pubsub = self._redis.pubsub()`. -/
def ensurePubsub (s : SharedNotifier κ) : SharedNotifier κ :=
  { s with pubsub := some (s.pubsub.getD ∅) }

/-- `if self._reader is None: self._reader = asyncio.create_task(self._read())`. -/
def ensureReader (s : SharedNotifier κ) : SharedNotifier κ :=
  match s.reader with
  | some _ => s
  | none =>
    { s.setReader s.started .created with reader := some s.started, started := s.started + 1 }

@[simp] theorem setJoin_joins (s : SharedNotifier κ) (e : EventId) (p : JoinPhase κ) :
    (s.setJoin e p).joins = Function.update s.joins e p := rfl

@[simp] theorem setRelease_releases (s : SharedNotifier κ) (r : ReleaseId)
    (p : ReleasePhase κ) : (s.setRelease r p).releases = Function.update s.releases r p := rfl

@[simp] theorem setReader_readers (s : SharedNotifier κ) (rd : ReaderId) (p : ReaderPhase) :
    (s.setReader rd p).readers = Function.update s.readers rd p := rfl

theorem setJoin_joins_eq {s : SharedNotifier κ} {e e' : EventId} {p q : JoinPhase κ}
    (h : (s.setJoin e p).joins e' = q) : e' = e ∧ p = q ∨ e' ≠ e ∧ s.joins e' = q :=
  Function.update_eq_cases h

theorem setRelease_releases_eq {s : SharedNotifier κ} {r r' : ReleaseId} {p q : ReleasePhase κ}
    (h : (s.setRelease r p).releases r' = q) :
    r' = r ∧ p = q ∨ r' ≠ r ∧ s.releases r' = q :=
  Function.update_eq_cases h

theorem ensurePubsub_of_some {s : SharedNotifier κ} (h : s.pubsub ≠ none) :
    s.ensurePubsub = s := by
  obtain ⟨channels, hc⟩ := Option.ne_none_iff_exists'.mp h
  simp only [ensurePubsub, hc, Option.getD_some]
  rw [← hc]

theorem ensureReader_of_some {s : SharedNotifier κ} (h : s.reader ≠ none) :
    s.ensureReader = s := by
  obtain ⟨rd, hr⟩ := Option.ne_none_iff_exists'.mp h
  rw [ensureReader, hr]

/-- There is a reader, and it is the old one or a new one. -/
theorem ensureReader_spec (s : SharedNotifier κ) :
    ∃ readers reader started, reader ≠ none ∧
      s.ensureReader = { s with readers := readers, reader := reader, started := started } ∧
      ∀ rd, reader = some rd → s.reader = some rd ∧ readers rd = s.readers rd ∨
        (readers rd).running = true := by
  cases hr : s.reader with
  | some rd =>
    refine ⟨s.readers, s.reader, s.started, ?_, ?_, fun rd' h => Or.inl ⟨?_, rfl⟩⟩
    · rw [hr]
      exact Option.some_ne_none rd
    · rw [ensureReader, hr]
      simp only [← hr]
    · rw [← hr]
      exact h
  | none =>
    refine ⟨Function.update s.readers s.started .created, some s.started, s.started + 1,
      Option.some_ne_none _, ?_, fun rd h => Or.inr ?_⟩
    · rw [ensureReader, hr]
      rfl
    · obtain rfl := Option.some.inj h
      rw [Function.update_self]
      rfl

variable [DecidableEq κ]

/-- `join` inside the lock, up to its SUBSCRIBE if it is the first watcher. -/
def enterJoin (s : SharedNotifier κ) (e : EventId) (channel : κ) : SharedNotifier κ :=
  let s' := { s.ensurePubsub with waiters := s.waiters.enroll channel e }
  if (s'.waiters.watchers channel).card = 1 then
    { s'.setJoin e (.subscribing channel) with lock := some (.join e) }
  else s'.ensureReader.setJoin e (.joined channel)

/-- SUBSCRIBE has returned, and so does `join`. -/
def finishJoin (s : SharedNotifier κ) (e : EventId) (channel : κ) : SharedNotifier κ :=
  let s' := { s with pubsub := s.pubsub.map (insert channel) }
  { s'.ensureReader.setJoin e (.joined channel) with lock := none }

/-- SUBSCRIBE has raised: `_forget`, and the exception goes on. -/
def failJoin (s : SharedNotifier κ) (e : EventId) (channel : κ) (effect : Bool) :
    SharedNotifier κ :=
  { s.setJoin e .raised with
    waiters := s.waiters.forget channel e
    pubsub := if effect then s.pubsub.map (insert channel) else s.pubsub
    lock := none }

/-- The last release takes the reader and the connection with it; it has left the lock
when it cancels the reader, without an `await` in between. -/
def close (s : SharedNotifier κ) (r : ReleaseId) : SharedNotifier κ :=
  match s.reader with
  | some rd =>
    { (s.setRelease r (.awaiting rd)).setReader rd (s.readers rd).cancel with
      reader := none, pubsub := none }
  | none => { s.setRelease r .closing with pubsub := none }

/-- `release` inside the lock. -/
def enterRelease (s : SharedNotifier κ) (r : ReleaseId) (channel : κ) (e : EventId) :
    SharedNotifier κ :=
  let s' := { s with waiters := s.waiters.forget channel e }
  if channel ∈ s'.waiters then s'.setRelease r .done
  else if s'.waiters = ∅ then s'.close r
  else { s'.setRelease r (.unsubscribing channel) with lock := some (.release r) }

/-- UNSUBSCRIBE has returned, or its exception is suppressed. -/
def finishRelease (s : SharedNotifier κ) (r : ReleaseId) (channel : κ) (effect : Bool) :
    SharedNotifier κ :=
  { s.setRelease r .done with
    pubsub := if effect then s.pubsub.map fun channels => channels.erase channel else s.pubsub
    lock := none }

/-- One event. `leave` may be called with any channel, for any event that a `join` has
returned; the event has been left once that is called with the channel it joined. -/
def step (s : SharedNotifier κ) : SharedEvent κ → Option (SharedNotifier κ)
  | .join e channel =>
    if s.joins e = .uncalled then some (s.setJoin e (.locking channel)) else none
  | .joinCancelled e =>
    match s.joins e with
    | .locking _ => some (s.setJoin e .raised)
    | _ => none
  | .joinEnters e =>
    match s.joins e with
    | .locking channel => if s.lock = none then some (s.enterJoin e channel) else none
    | _ => none
  | .subscribed e =>
    match s.joins e with
    | .subscribing channel => some (s.finishJoin e channel)
    | _ => none
  | .subscribeFails e effect =>
    match s.joins e with
    | .subscribing channel => some (s.failJoin e channel effect)
    | _ => none
  | .leave r channel e =>
    if s.releases r = .uncalled ∧ (s.joins e).returned = true then
      let s' := s.setRelease r (.locking channel e)
      if s.joins e = .joined channel then some (s'.setJoin e (.left channel)) else some s'
    else none
  | .leaveCancelled r =>
    -- the release is shielded: its caller goes, it goes on
    if (s.releases r).inProgress = true ∧ r ∉ s.abandoned then
      some { s with abandoned := insert r s.abandoned }
    else none
  | .releaseEnters r =>
    match s.releases r with
    | .locking channel e => if s.lock = none then some (s.enterRelease r channel e) else none
    | _ => none
  | .unsubscribed r effect =>
    match s.releases r with
    | .unsubscribing channel => some (s.finishRelease r channel effect)
    | _ => none
  | .readerEnded r =>
    match s.releases r with
    | .awaiting rd => if s.readers rd = .finished then some (s.setRelease r .closing) else none
    | _ => none
  | .closed r => if s.releases r = .closing then some (s.setRelease r .done) else none
  | .readerPolls rd =>
    -- the head of the loop, after a message, after none, or for the first time
    if (s.readers rd).running = true ∧ rd < s.started then
      some (s.setReader rd (if s.pubsub = none then .finished else .polling))
    else none
  | .readerFails rd => if s.readers rd = .polling then some (s.setReader rd .finished) else none
  | .readerUnwinds rd =>
    if s.readers rd = .cancelling then some (s.setReader rd .finished) else none

/-- Nobody waits. -/
def idle : SharedNotifier κ :=
  ⟨∅, none, none, none, fun _ => .uncalled, fun _ => .uncalled, ∅, fun _ => .created, 0⟩

/-- A new notifier. -/
def machine : Machine (SharedNotifier κ) (SharedEvent κ) where
  init := idle
  step := step

/-- Nobody has the lock, and no release is under way. -/
def Quiet (s : SharedNotifier κ) : Prop :=
  s.lock = none ∧ ∀ r, (s.releases r).inProgress = false

/-- The channel is subscribed on the current connection. -/
def Subscribed (s : SharedNotifier κ) (channel : κ) : Prop :=
  ∃ channels, s.pubsub = some channels ∧ channel ∈ channels

/-- `_reader` is a running task. -/
def Reading (s : SharedNotifier κ) : Prop :=
  ∃ rd, s.reader = some rd ∧ (s.readers rd).running = true

/-- **The notifier is held exactly while somebody waits.** -/
structure Held (s : SharedNotifier κ) : Prop where
  watched : s.waiters.Tight
  registered : ∀ e channel, s.joins e = .joined channel →
    s.waiters.Enrolled channel e ∧ s.Subscribed channel
  released : s.waiters = ∅ → s.pubsub = none ∧ s.reader = none
  reading : s.waiters ≠ ∅ → s.Reading

/-- If the call waits for its SUBSCRIBE, another channel is watched. -/
def Accompanied (s : SharedNotifier κ) : JoinPhase κ → Prop
  | .subscribing channel => ∃ other ∈ s.waiters.keys, other ≠ channel
  | _ => True

/-- The condition: a SUBSCRIBE fails only while another channel is watched, and
`get_message` raises in no reader that is still in `_reader`. -/
def Spared (s : SharedNotifier κ) : SharedEvent κ → Prop
  | .subscribeFails e _ => s.Accompanied (s.joins e)
  | .readerFails rd => s.reader ≠ some rd
  | _ => True

instance Accompanied.decidable (s : SharedNotifier κ) : ∀ p, Decidable (s.Accompanied p)
  | .subscribing channel =>
    inferInstanceAs (Decidable (∃ other ∈ s.waiters.keys, other ≠ channel))
  | .uncalled | .locking _ | .joined _ | .left _ | .raised => isTrue trivial

instance Spared.decidable (s : SharedNotifier κ) : ∀ ev, Decidable (s.Spared ev)
  | .subscribeFails e _ => Accompanied.decidable s (s.joins e)
  | .readerFails rd => inferInstanceAs (Decidable (s.reader ≠ some rd))
  | .join .. | .joinCancelled _ | .joinEnters _ | .subscribed _ | .leave .. | .leaveCancelled _
  | .releaseEnters _ | .unsubscribed .. | .readerEnded _ | .closed _ | .readerPolls _
  | .readerUnwinds _ => isTrue trivial

/-! ## The invariant

A channel is settled when no SUBSCRIBE of it is out; the fields agree on settled channels
at every moment, and on all channels once the lock is free. -/

/-- The channel is watched, and no `join` is subscribing it. -/
def Settled (s : SharedNotifier κ) (channel : κ) : Prop :=
  channel ∈ s.waiters ∧ ∀ e, s.joins e ≠ .subscribing channel

structure Sound (s : SharedNotifier κ) : Prop where
  tight : s.waiters.Tight
  released : s.waiters = ∅ → s.pubsub = none ∧ s.reader = none
  connected : s.waiters ≠ ∅ → s.pubsub ≠ none
  settled : ∀ channel, s.Settled channel → s.Subscribed channel ∧ s.reader ≠ none
  running : ∀ rd, s.reader = some rd → (s.readers rd).running = true
  joined : ∀ e channel, s.joins e = .joined channel → s.waiters.Enrolled channel e
  subscribing : ∀ e channel, s.joins e = .subscribing channel →
    s.lock = some (.join e) ∧ s.waiters.watchers channel = {e}
  leaving : ∀ r channel e, s.releases r = .locking channel e →
    (s.joins e).returned = true ∧ s.joins e ≠ .joined channel
  unsubscribing : ∀ r channel, s.releases r = .unsubscribing channel →
    s.lock = some (.release r) ∧ channel ∉ s.waiters

theorem sound_idle : (idle : SharedNotifier κ).Sound where
  tight := Roster.tight_empty
  released _ := ⟨rfl, rfl⟩
  connected h := absurd rfl h
  settled _ h := absurd h.1 Finmap.notMem_empty
  running _ h := by cases h
  joined _ _ h := by cases h
  subscribing _ _ h := by cases h
  leaving _ _ _ h := by cases h
  unsubscribing _ _ h := by cases h

section Parts

variable {s : SharedNotifier κ} {e : EventId} {r : ReleaseId} {channel channel' : κ}

theorem Subscribed.of_insert (h : s.Subscribed channel') (channel : κ) :
    ∃ channels, s.pubsub.map (insert channel) = some channels ∧ channel' ∈ channels := by
  obtain ⟨channels, hp, hc⟩ := h
  exact ⟨insert channel channels, by rw [hp, Option.map_some],
    Finset.mem_insert_of_mem hc⟩

/-- While nobody has the lock, nothing is being subscribed or unsubscribed. -/
theorem Sound.not_subscribing (h : s.Sound) (hl : s.lock = none) :
    s.joins e ≠ .subscribing channel := fun he => by
  have hlock := (h.subscribing e channel he).1
  rw [hl] at hlock
  cases hlock

/-- While nobody has the lock, every watched channel is settled. -/
theorem Sound.settled_of_free (h : s.Sound) (hl : s.lock = none) (hc : channel ∈ s.waiters) :
    s.Settled channel :=
  ⟨hc, fun _ => h.not_subscribing hl⟩

/-- What is promised when all is quiet. -/
theorem Sound.held (h : s.Sound) (hq : s.Quiet) : s.Held where
  watched := h.tight
  registered e channel he := by
    have hen := h.joined e channel he
    exact ⟨hen, (h.settled channel (h.settled_of_free hq.1 hen.mem)).1⟩
  released := h.released
  reading hne := by
    obtain ⟨channel, hc⟩ := Roster.exists_mem_of_ne_empty hne
    have hr := (h.settled channel (h.settled_of_free hq.1 hc)).2
    obtain ⟨rd, hrd⟩ := Option.ne_none_iff_exists'.mp hr
    exact ⟨rd, hrd, h.running rd hrd⟩

theorem Sound.not_unsubscribing (h : s.Sound) (hl : s.lock = none) :
    s.releases r ≠ .unsubscribing channel := fun hr => by
  have hlock := (h.unsubscribing r channel hr).1
  rw [hl] at hlock
  cases hlock

/-- A release goes on when a call whose event nobody has yet moves. -/
theorem Sound.leaving_setJoin (h : s.Sound) (hj : (s.joins e).returned = false)
    (p : JoinPhase κ) : ∀ r channel e', s.releases r = .locking channel e' →
      ((s.setJoin e p).joins e').returned = true ∧ (s.setJoin e p).joins e' ≠ .joined channel := by
  intro r channel e' hr
  obtain ⟨hret, hne⟩ := h.leaving r channel e' hr
  have he : e' ≠ e := by
    rintro rfl
    rw [hj] at hret
    cases hret
  have hsame : (s.setJoin e p).joins e' = s.joins e' := Function.update_of_ne he ..
  rw [hsame]
  exact ⟨hret, hne⟩

/-! ## What `join` keeps -/

theorem Sound.setJoin (h : s.Sound) (hj : (s.joins e).returned = false)
    (hs : ∀ channel, s.joins e ≠ .subscribing channel) {p : JoinPhase κ}
    (hp : p = .raised ∨ ∃ channel, p = .locking channel) : (s.setJoin e p).Sound where
  tight := h.tight
  released := h.released
  connected := h.connected
  settled channel hc := by
    refine h.settled channel ⟨hc.1, fun e' he' => hc.2 e' ?_⟩
    have hne : e' ≠ e := by
      rintro rfl
      exact hs channel he'
    rw [setJoin_joins, Function.update_of_ne hne]
    exact he'
  running := h.running
  joined e' channel he' := by
    rcases setJoin_joins_eq he' with ⟨-, rfl⟩ | ⟨-, he'⟩
    · rcases hp with hp | ⟨_, hp⟩ <;> cases hp
    · exact h.joined e' channel he'
  subscribing e' channel he' := by
    rcases setJoin_joins_eq he' with ⟨-, rfl⟩ | ⟨-, he'⟩
    · rcases hp with hp | ⟨_, hp⟩ <;> cases hp
    · exact h.subscribing e' channel he'
  leaving := h.leaving_setJoin hj p
  unsubscribing := h.unsubscribing

/-- A first watcher is registered before its channel is subscribed. -/
theorem Sound.enterJoin_first (h : s.Sound) (hj : s.joins e = .locking channel)
    (hl : s.lock = none) (hw : (s.waiters.enroll channel e).watchers channel = {e}) :
    Sound { ({ s.ensurePubsub with waiters := s.waiters.enroll channel e }).setJoin e
      (.subscribing channel) with lock := some (.join e) } where
  tight := h.tight.enroll channel e
  released hempty := absurd hempty (Roster.ne_empty_of_mem (Roster.mem_enroll.mpr (Or.inl rfl)))
  connected _ := Option.some_ne_none _
  settled channel' hc := by
    have hne : channel' ≠ channel := by
      rintro rfl
      exact hc.2 e (Function.update_self ..)
    have hmem : channel' ∈ s.waiters := (Roster.mem_enroll.mp hc.1).resolve_left hne
    obtain ⟨⟨channels, hp, hin⟩, hr⟩ := h.settled channel' (h.settled_of_free hl hmem)
    exact ⟨⟨channels, by simp only [SharedNotifier.setJoin, ensurePubsub, hp, Option.getD_some],
      hin⟩, hr⟩
  running := h.running
  joined e' channel' he' := by
    rcases setJoin_joins_eq he' with ⟨-, hphase⟩ | ⟨-, he'⟩
    · cases hphase
    · exact (h.joined e' channel' he').enroll ..
  subscribing e' channel' he' := by
    rcases setJoin_joins_eq he' with ⟨rfl, hphase⟩ | ⟨-, he'⟩
    · obtain rfl := JoinPhase.subscribing.inj hphase
      exact ⟨rfl, hw⟩
    · exact absurd he' (h.not_subscribing hl)
  leaving := h.leaving_setJoin (by rw [hj]; rfl) _
  unsubscribing r channel' hr := absurd hr (h.not_unsubscribing hl)

/-- A further watcher finds the channel subscribed and the reader running. -/
theorem Sound.enterJoin_further (h : s.Sound) (hj : s.joins e = .locking channel)
    (hl : s.lock = none) (hc : channel ∈ s.waiters) :
    (({ s with waiters := s.waiters.enroll channel e } : SharedNotifier κ).setJoin e
      (.joined channel)).Sound where
  tight := h.tight.enroll channel e
  released hempty := absurd hempty (Roster.ne_empty_of_mem (Roster.mem_enroll.mpr (Or.inl rfl)))
  connected _ := h.connected (Roster.ne_empty_of_mem hc)
  settled channel' hc' := by
    have hmem : channel' ∈ s.waiters := by
      rcases Roster.mem_enroll.mp hc'.1 with rfl | hmem
      · exact hc
      · exact hmem
    exact h.settled channel' (h.settled_of_free hl hmem)
  running := h.running
  joined e' channel' he' := by
    rcases setJoin_joins_eq he' with ⟨rfl, hphase⟩ | ⟨-, he'⟩
    · obtain rfl := JoinPhase.joined.inj hphase
      exact Roster.enrolled_enroll
    · exact (h.joined e' channel' he').enroll ..
  subscribing e' channel' he' := by
    rcases setJoin_joins_eq he' with ⟨-, hphase⟩ | ⟨-, he'⟩
    · cases hphase
    · exact absurd he' (h.not_subscribing hl)
  leaving := h.leaving_setJoin (by rw [hj]; rfl) _
  unsubscribing r channel' hr := absurd hr (h.not_unsubscribing hl)

theorem Sound.enterJoin (h : s.Sound) (hj : s.joins e = .locking channel) (hl : s.lock = none) :
    (s.enterJoin e channel).Sound := by
  have hself : e ∈ (s.waiters.enroll channel e).watchers channel := Roster.enrolled_enroll
  by_cases hcard : ((s.waiters.enroll channel e).watchers channel).card = 1
  · rw [SharedNotifier.enterJoin, if_pos hcard]
    refine h.enterJoin_first hj hl ?_
    obtain ⟨e', he'⟩ := Finset.card_eq_one.mp hcard
    have he : e = e' := Finset.mem_singleton.mp (he' ▸ hself)
    rw [he]
    exact he ▸ he'
  · have hc : channel ∈ s.waiters := by
      by_contra hnot
      refine hcard ?_
      simp only [Roster.watchers_enroll, Roster.watchers_of_notMem hnot, if_true,
        Finset.card_insert_of_notMem (Finset.notMem_empty e), Finset.card_empty]
    have hp : s.pubsub ≠ none := h.connected (Roster.ne_empty_of_mem hc)
    have hr : s.reader ≠ none := (h.settled channel (h.settled_of_free hl hc)).2
    rw [SharedNotifier.enterJoin, if_neg hcard, ensurePubsub_of_some hp,
      ensureReader_of_some (s := { s with waiters := s.waiters.enroll channel e }) hr]
    exact h.enterJoin_further hj hl hc

/-- A SUBSCRIBE that has returned settles its channel. -/
theorem Sound.finishJoin (h : s.Sound) (hj : s.joins e = .subscribing channel) :
    (s.finishJoin e channel).Sound := by
  obtain ⟨hlock, hw⟩ := h.subscribing e channel hj
  have hmem : channel ∈ s.waiters := by
    have hen : s.waiters.Enrolled channel e := by
      rw [Roster.Enrolled, hw]
      exact Finset.mem_singleton_self e
    exact hen.mem
  have hne : s.waiters ≠ ∅ := Roster.ne_empty_of_mem hmem
  obtain ⟨channels, hp⟩ := Option.ne_none_iff_exists'.mp (h.connected hne)
  obtain ⟨readers, reader, started, hr, heq, hrun⟩ :=
    ensureReader_spec { s with pubsub := s.pubsub.map (insert channel) }
  unfold SharedNotifier.finishJoin
  simp only [heq]
  constructor
  case tight => exact h.tight
  case released => exact fun hempty => absurd hempty hne
  case connected =>
    intro _
    simp only [SharedNotifier.setJoin, hp, Option.map_some]
    exact Option.some_ne_none _
  case settled =>
    intro channel' hc
    refine ⟨?_, hr⟩
    by_cases hsame : channel' = channel
    · subst hsame
      exact ⟨insert channel' channels, by simp only [SharedNotifier.setJoin, hp, Option.map_some],
        Finset.mem_insert_self ..⟩
    · refine (h.settled channel' ⟨hc.1, fun e' he' => ?_⟩).1.of_insert channel
      -- whoever has the lock is the one call that subscribes
      have hsole := (h.subscribing e' channel' he').1
      rw [hlock] at hsole
      obtain rfl := Holder.join.inj (Option.some.inj hsole)
      rw [hj] at he'
      exact hsame (JoinPhase.subscribing.inj he').symm
  case running =>
    intro rd hrd
    rcases hrun rd hrd with ⟨hold, hread⟩ | hnew
    · rw [← h.running rd hold]
      exact congrArg ReaderPhase.running hread
    · exact hnew
  case joined =>
    intro e' channel' he'
    rcases setJoin_joins_eq he' with ⟨rfl, hphase⟩ | ⟨-, he'⟩
    · obtain rfl := JoinPhase.joined.inj hphase
      rw [Roster.Enrolled]
      exact hw ▸ Finset.mem_singleton_self e'
    · exact h.joined e' channel' he'
  case subscribing =>
    intro e' channel' he'
    rcases setJoin_joins_eq he' with ⟨-, hphase⟩ | ⟨hne', he'⟩
    · cases hphase
    · have hsole := (h.subscribing e' channel' he').1
      rw [hlock] at hsole
      exact absurd (Holder.join.inj (Option.some.inj hsole)).symm hne'
  case leaving =>
    intro r channel' e' hrel
    exact h.leaving_setJoin (by rw [hj]; rfl) (.joined channel) r channel' e' hrel
  case unsubscribing =>
    intro r channel' hrel
    have hsole := (h.unsubscribing r channel' hrel).1
    rw [hlock] at hsole
    cases hsole

/-- A SUBSCRIBE that fails while another channel is watched leaves the connection to
that one. -/
theorem Sound.failJoin (h : s.Sound) (hj : s.joins e = .subscribing channel) (effect : Bool)
    (hother : ∃ other ∈ s.waiters.keys, other ≠ channel) : (s.failJoin e channel effect).Sound := by
  obtain ⟨hlock, hw⟩ := h.subscribing e channel hj
  obtain ⟨other, hkey, hother⟩ := hother
  have hmem : other ∈ s.waiters := Finmap.mem_keys.mp hkey
  have hgone : channel ∉ s.waiters.forget channel e := Roster.notMem_forget_of_alone hw
  have hsole : ∀ e' channel', s.joins e' = .subscribing channel' → e' = e := by
    intro e' channel' he'
    have hl := (h.subscribing e' channel' he').1
    rw [hlock] at hl
    exact (Holder.join.inj (Option.some.inj hl)).symm
  unfold SharedNotifier.failJoin
  constructor
  case tight => exact h.tight.forget channel e
  case released =>
    intro hempty
    exact absurd hempty (Roster.ne_empty_of_mem ((Roster.mem_forget_of_ne hother).mpr hmem))
  case connected =>
    intro _
    obtain ⟨channels, hp⟩ := Option.ne_none_iff_exists'.mp
      (h.connected (Roster.ne_empty_of_mem hmem))
    simp only [hp]
    split <;> exact Option.some_ne_none _
  case settled =>
    intro channel' hc
    have hne : channel' ≠ channel := by
      rintro rfl
      exact hgone hc.1
    have hset : s.Settled channel' := by
      refine ⟨Roster.mem_of_mem_forget hc.1, fun e' he' => ?_⟩
      obtain rfl := hsole e' channel' he'
      rw [hj] at he'
      exact hne (JoinPhase.subscribing.inj he').symm
    obtain ⟨hsub, hr⟩ := h.settled channel' hset
    refine ⟨?_, hr⟩
    cases effect with
    | false => exact hsub
    | true => exact hsub.of_insert channel
  case running => exact h.running
  case joined =>
    intro e' channel' he'
    rcases setJoin_joins_eq he' with ⟨-, hphase⟩ | ⟨hne, he'⟩
    · cases hphase
    · refine (h.joined e' channel' he').forget fun heq => hne ?_
      exact (Prod.mk.inj heq).2
  case subscribing =>
    intro e' channel' he'
    rcases setJoin_joins_eq he' with ⟨-, hphase⟩ | ⟨hne, he'⟩
    · cases hphase
    · exact absurd (hsole e' channel' he') hne
  case leaving =>
    intro r channel' e' hrel
    exact h.leaving_setJoin (by rw [hj]; rfl) .raised r channel' e' hrel
  case unsubscribing =>
    intro r channel' hrel
    have hl := (h.unsubscribing r channel' hrel).1
    rw [hlock] at hl
    cases hl

/-! ## What `leave` keeps -/

/-- A release may move as long as it does not come to wait for the lock or for its
UNSUBSCRIBE. -/
theorem Sound.setRelease (h : s.Sound) {q : ReleasePhase κ}
    (hlock : ∀ channel e, q ≠ .locking channel e) (huns : ∀ channel, q ≠ .unsubscribing channel) :
    (s.setRelease r q).Sound where
  tight := h.tight
  released := h.released
  connected := h.connected
  settled := h.settled
  running := h.running
  joined := h.joined
  subscribing := h.subscribing
  leaving r' channel' e' hr' := by
    rcases setRelease_releases_eq hr' with ⟨-, hq⟩ | ⟨-, hr'⟩
    · exact absurd hq (hlock channel' e')
    · exact h.leaving r' channel' e' hr'
  unsubscribing r' channel' hr' := by
    rcases setRelease_releases_eq hr' with ⟨-, hq⟩ | ⟨-, hr'⟩
    · exact absurd hq (huns channel')
    · exact h.unsubscribing r' channel' hr'

/-- A call of `leave` for an event whose channel is another one, or that has been left. -/
theorem Sound.callLeave (h : s.Sound) (hret : (s.joins e).returned = true)
    (hne : s.joins e ≠ .joined channel) : (s.setRelease r (.locking channel e)).Sound where
  tight := h.tight
  released := h.released
  connected := h.connected
  settled := h.settled
  running := h.running
  joined := h.joined
  subscribing := h.subscribing
  leaving r' channel' e' hr' := by
    rcases setRelease_releases_eq hr' with ⟨-, hq⟩ | ⟨-, hr'⟩
    · obtain ⟨rfl, rfl⟩ := ReleasePhase.locking.inj hq
      exact ⟨hret, hne⟩
    · exact h.leaving r' channel' e' hr'
  unsubscribing r' channel' hr' := by
    rcases setRelease_releases_eq hr' with ⟨-, hq⟩ | ⟨-, hr'⟩
    · cases hq
    · exact h.unsubscribing r' channel' hr'

/-- The event of a join is given up. -/
theorem Sound.giveUp (h : s.Sound) (hj : s.joins e = .joined channel) :
    (s.setJoin e (.left channel)).Sound where
  tight := h.tight
  released := h.released
  connected := h.connected
  settled channel' hc := by
    refine h.settled channel' ⟨hc.1, fun e' he' => hc.2 e' ?_⟩
    have hne : e' ≠ e := by
      rintro rfl
      rw [hj] at he'
      cases he'
    rw [setJoin_joins, Function.update_of_ne hne]
    exact he'
  running := h.running
  joined e' channel' he' := by
    rcases setJoin_joins_eq he' with ⟨-, hphase⟩ | ⟨-, he'⟩
    · cases hphase
    · exact h.joined e' channel' he'
  subscribing e' channel' he' := by
    rcases setJoin_joins_eq he' with ⟨-, hphase⟩ | ⟨-, he'⟩
    · cases hphase
    · exact h.subscribing e' channel' he'
  leaving r channel' e' hr := by
    by_cases he : e' = e
    · subst he
      rw [setJoin_joins, Function.update_self]
      exact ⟨rfl, fun hphase => by cases hphase⟩
    · rw [setJoin_joins, Function.update_of_ne he]
      exact h.leaving r channel' e' hr
  unsubscribing := h.unsubscribing

/-- `_forget` for an event that has been left keeps the invariant up to the last
watcher of all. -/
theorem Sound.forget (h : s.Sound) (hr : s.releases r = .locking channel e) (hl : s.lock = none)
    (hne : s.waiters.forget channel e ≠ ∅) :
    Sound { s with waiters := s.waiters.forget channel e } where
  tight := h.tight.forget channel e
  released hempty := absurd hempty hne
  connected _ := by
    obtain ⟨other, hmem⟩ := Roster.exists_mem_of_ne_empty hne
    exact h.connected (Roster.ne_empty_of_mem (Roster.mem_of_mem_forget hmem))
  settled channel' hc := h.settled channel' ⟨Roster.mem_of_mem_forget hc.1, hc.2⟩
  running := h.running
  joined e' channel' he' := by
    refine (h.joined e' channel' he').forget fun heq => ?_
    obtain ⟨rfl, rfl⟩ := Prod.mk.inj heq
    exact (h.leaving r channel' e' hr).2 he'
  subscribing e' channel' he' := absurd he' (h.not_subscribing hl)
  leaving := h.leaving
  unsubscribing r' channel' hr' := absurd hr' (h.not_unsubscribing hl)

/-- The last watcher of all takes the reader and the connection with it. -/
theorem Sound.close (h : s.Sound) (hr : s.releases r = .locking channel e) (hl : s.lock = none)
    (hempty : s.waiters.forget channel e = ∅) :
    (SharedNotifier.close { s with waiters := s.waiters.forget channel e } r).Sound := by
  have hnot : ∀ channel', channel' ∉ s.waiters.forget channel e := fun channel' hmem =>
    Roster.ne_empty_of_mem hmem hempty
  have hjoined : ∀ e' channel', s.joins e' = .joined channel' →
      (s.waiters.forget channel e).Enrolled channel' e' := by
    intro e' channel' he'
    refine (h.joined e' channel' he').forget fun heq => ?_
    obtain ⟨rfl, rfl⟩ := Prod.mk.inj heq
    exact (h.leaving r channel' e' hr).2 he'
  have hleaving : ∀ q, (∀ channel' e', q ≠ .locking channel' e') → ∀ r' channel' e',
      (s.setRelease r q).releases r' = .locking channel' e' →
      (s.joins e').returned = true ∧ s.joins e' ≠ .joined channel' := by
    intro q hq r' channel' e' hr'
    rcases setRelease_releases_eq hr' with ⟨-, hq'⟩ | ⟨-, hr'⟩
    · exact absurd hq' (hq channel' e')
    · exact h.leaving r' channel' e' hr'
  have hunsub : ∀ q, (∀ channel', q ≠ .unsubscribing channel') → ∀ r' channel',
      (s.setRelease r q).releases r' ≠ .unsubscribing channel' := by
    intro q hq r' channel' hr'
    rcases setRelease_releases_eq hr' with ⟨-, hq'⟩ | ⟨-, hr'⟩
    · exact hq channel' hq'
    · exact h.not_unsubscribing hl hr'
  unfold SharedNotifier.close
  cases hrd : s.reader with
  | none =>
    exact {
      tight := h.tight.forget channel e
      released := fun _ => ⟨rfl, rfl⟩
      connected := fun hne => absurd hempty hne
      settled := fun channel' hc => absurd hc.1 (hnot channel')
      running := fun rd hr' => by cases hr'
      joined := hjoined
      subscribing := fun e' channel' he' => absurd he' (h.not_subscribing hl)
      leaving := hleaving .closing (fun _ _ hq => by cases hq)
      unsubscribing := fun r' channel' hr' =>
        absurd hr' (hunsub .closing (fun _ hq => by cases hq) r' channel') }
  | some rd =>
    exact {
      tight := h.tight.forget channel e
      released := fun _ => ⟨rfl, rfl⟩
      connected := fun hne => absurd hempty hne
      settled := fun channel' hc => absurd hc.1 (hnot channel')
      running := fun rd' hr' => by cases hr'
      joined := hjoined
      subscribing := fun e' channel' he' => absurd he' (h.not_subscribing hl)
      leaving := hleaving (.awaiting rd) (fun _ _ hq => by cases hq)
      unsubscribing := fun r' channel' hr' =>
        absurd hr' (hunsub (.awaiting rd) (fun _ hq => by cases hq) r' channel') }

theorem Sound.enterRelease (h : s.Sound) (hr : s.releases r = .locking channel e)
    (hl : s.lock = none) : (s.enterRelease r channel e).Sound := by
  by_cases hmem : channel ∈ s.waiters.forget channel e
  · rw [SharedNotifier.enterRelease, if_pos hmem]
    refine (h.forget hr hl (Roster.ne_empty_of_mem hmem)).setRelease ?_ ?_
    · exact fun _ _ hq => by cases hq
    · exact fun _ hq => by cases hq
  · by_cases hempty : s.waiters.forget channel e = ∅
    · rw [SharedNotifier.enterRelease, if_neg hmem, if_pos hempty]
      exact h.close hr hl hempty
    · rw [SharedNotifier.enterRelease, if_neg hmem, if_neg hempty]
      have hf := h.forget hr hl hempty
      exact {
        tight := hf.tight
        released := hf.released
        connected := hf.connected
        settled := hf.settled
        running := hf.running
        joined := hf.joined
        subscribing := fun e' channel' he' => absurd he' (h.not_subscribing hl)
        leaving := fun r' channel' e' hr' => by
          rcases setRelease_releases_eq hr' with ⟨-, hq⟩ | ⟨-, hr'⟩
          · cases hq
          · exact h.leaving r' channel' e' hr'
        unsubscribing := fun r' channel' hr' => by
          rcases setRelease_releases_eq hr' with ⟨rfl, hq⟩ | ⟨-, hr'⟩
          · obtain rfl := ReleasePhase.unsubscribing.inj hq
            exact ⟨rfl, hmem⟩
          · exact absurd hr' (h.not_unsubscribing hl) }

/-- Unsubscribed or not, the channel is not watched any more. -/
theorem Sound.finishRelease (h : s.Sound) (hr : s.releases r = .unsubscribing channel)
    (effect : Bool) : (s.finishRelease r channel effect).Sound := by
  obtain ⟨hlock, hgone⟩ := h.unsubscribing r channel hr
  constructor
  case tight => exact h.tight
  case released =>
    intro hempty
    obtain ⟨hp, hrd⟩ := h.released hempty
    refine ⟨?_, hrd⟩
    simp only [SharedNotifier.finishRelease, hp, Option.map_none, ite_self]
  case connected =>
    intro hne
    obtain ⟨channels, hp⟩ := Option.ne_none_iff_exists'.mp (h.connected hne)
    simp only [SharedNotifier.finishRelease, hp]
    split <;> exact Option.some_ne_none _
  case settled =>
    intro channel' hc
    obtain ⟨⟨channels, hp, hin⟩, hrd⟩ := h.settled channel' hc
    refine ⟨?_, hrd⟩
    have hne : channel' ≠ channel := by
      rintro rfl
      exact hgone hc.1
    cases effect with
    | false => exact ⟨channels, hp, hin⟩
    | true =>
      refine ⟨channels.erase channel, ?_, Finset.mem_erase.mpr ⟨hne, hin⟩⟩
      simp only [SharedNotifier.finishRelease, if_true, hp, Option.map_some]
  case running => exact h.running
  case joined => exact h.joined
  case subscribing =>
    intro e' channel' he'
    have hl := (h.subscribing e' channel' he').1
    rw [hlock] at hl
    cases hl
  case leaving =>
    intro r' channel' e' hr'
    rcases setRelease_releases_eq hr' with ⟨-, hq⟩ | ⟨-, hr'⟩
    · cases hq
    · exact h.leaving r' channel' e' hr'
  case unsubscribing =>
    intro r' channel' hr'
    rcases setRelease_releases_eq hr' with ⟨-, hq⟩ | ⟨hne, hr'⟩
    · cases hq
    · have hl := (h.unsubscribing r' channel' hr').1
      rw [hlock] at hl
      exact absurd (Holder.release.inj (Option.some.inj hl)).symm hne

/-! ## What readers keep -/

/-- A reader moves; if it is the one in `_reader`, it goes on running. -/
theorem Sound.setReader (h : s.Sound) {rd : ReaderId} {phase : ReaderPhase}
    (hrun : s.reader = some rd → phase.running = true) : (s.setReader rd phase).Sound where
  tight := h.tight
  released := h.released
  connected := h.connected
  settled := h.settled
  running rd' hr' := by
    by_cases hrd : rd' = rd
    · subst hrd
      rw [setReader_readers, Function.update_self]
      exact hrun hr'
    · rw [setReader_readers, Function.update_of_ne hrd]
      exact h.running rd' hr'
  joined := h.joined
  subscribing := h.subscribing
  leaving := h.leaving
  unsubscribing := h.unsubscribing

/-- While a reader is in `_reader`, so is a connection in `_pubsub`. -/
theorem Sound.pubsub_of_reader (h : s.Sound) (hr : s.reader ≠ none) : s.pubsub ≠ none :=
  h.connected fun hempty => hr (h.released hempty).2

end Parts

/-! ## Steps and runs -/

/-- A step that meets the condition keeps the invariant. -/
theorem Sound.step {s s' : SharedNotifier κ} {ev : SharedEvent κ} (h : s.Sound)
    (hspared : s.Spared ev) (hs : s.step ev = some s') : s'.Sound := by
  cases ev with
  | join e channel =>
    simp only [SharedNotifier.step, Option.ite_none_right_eq_some, Option.some.injEq] at hs
    obtain ⟨hj, rfl⟩ := hs
    refine h.setJoin (by rw [hj]; rfl) (fun _ he => ?_) (Or.inr ⟨channel, rfl⟩)
    rw [hj] at he
    cases he
  | joinCancelled e =>
    simp only [SharedNotifier.step] at hs
    split at hs
    · rename_i channel hj
      cases hs
      refine h.setJoin (by rw [hj]; rfl) (fun _ he => ?_) (Or.inl rfl)
      rw [hj] at he
      cases he
    · cases hs
  | joinEnters e =>
    simp only [SharedNotifier.step] at hs
    split at hs
    · rename_i channel hj
      simp only [Option.ite_none_right_eq_some, Option.some.injEq] at hs
      obtain ⟨hl, rfl⟩ := hs
      exact h.enterJoin hj hl
    · cases hs
  | subscribed e =>
    simp only [SharedNotifier.step] at hs
    split at hs
    · rename_i channel hj
      cases hs
      exact h.finishJoin hj
    · cases hs
  | subscribeFails e effect =>
    simp only [SharedNotifier.step] at hs
    split at hs
    · rename_i channel hj
      cases hs
      rw [Spared, hj] at hspared
      exact h.failJoin hj effect hspared
    · cases hs
  | leave r channel e =>
    simp only [SharedNotifier.step, Option.ite_none_right_eq_some] at hs
    obtain ⟨⟨-, hret⟩, hs⟩ := hs
    split at hs
    · rename_i hj
      cases hs
      have hup := h.giveUp hj
      refine hup.callLeave (e := e) ?_ ?_
      · rw [setJoin_joins, Function.update_self]
        rfl
      · rw [setJoin_joins, Function.update_self]
        exact fun hphase => by cases hphase
    · rename_i hj
      cases hs
      exact h.callLeave hret hj
  | leaveCancelled r =>
    simp only [SharedNotifier.step, Option.ite_none_right_eq_some, Option.some.injEq] at hs
    obtain ⟨-, rfl⟩ := hs
    exact { h with }
  | releaseEnters r =>
    simp only [SharedNotifier.step] at hs
    split at hs
    · rename_i channel e hr
      simp only [Option.ite_none_right_eq_some, Option.some.injEq] at hs
      obtain ⟨hl, rfl⟩ := hs
      exact h.enterRelease hr hl
    · cases hs
  | unsubscribed r effect =>
    simp only [SharedNotifier.step] at hs
    split at hs
    · rename_i channel hr
      cases hs
      exact h.finishRelease hr effect
    · cases hs
  | readerEnded r =>
    simp only [SharedNotifier.step] at hs
    split at hs
    · simp only [Option.ite_none_right_eq_some, Option.some.injEq] at hs
      obtain ⟨-, rfl⟩ := hs
      exact h.setRelease (fun _ _ hq => by cases hq) (fun _ hq => by cases hq)
    · cases hs
  | closed r =>
    simp only [SharedNotifier.step, Option.ite_none_right_eq_some, Option.some.injEq] at hs
    obtain ⟨-, rfl⟩ := hs
    exact h.setRelease (fun _ _ hq => by cases hq) (fun _ hq => by cases hq)
  | readerPolls rd =>
    simp only [SharedNotifier.step, Option.ite_none_right_eq_some, Option.some.injEq] at hs
    obtain ⟨-, rfl⟩ := hs
    refine h.setReader fun hr => ?_
    have hp := h.pubsub_of_reader (by rw [hr]; exact Option.some_ne_none rd)
    rw [if_neg hp]
    rfl
  | readerFails rd =>
    simp only [SharedNotifier.step, Option.ite_none_right_eq_some, Option.some.injEq] at hs
    obtain ⟨-, rfl⟩ := hs
    exact h.setReader fun hr => absurd hr hspared
  | readerUnwinds rd =>
    simp only [SharedNotifier.step, Option.ite_none_right_eq_some, Option.some.injEq] at hs
    obtain ⟨hrd, rfl⟩ := hs
    refine h.setReader fun hr => ?_
    -- a cancelled reader is not in `_reader`
    have hrun := h.running rd hr
    rw [hrd] at hrun
    cases hrun

/-- **The notifier is held exactly while somebody waits**, at every quiet moment of a run
in which no SUBSCRIBE fails on the only watched channel and `get_message` does not raise
in the reader in `_reader`. -/
theorem held_of_spared {es : List (SharedEvent κ)} {s : SharedNotifier κ}
    (hspared : machine.Along (fun s ev _ => s.Spared ev) idle es)
    (hrun : machine.run idle es = some s) (hq : s.Quiet) : s.Held := by
  have hsound : s.Sound :=
    Machine.run_keeps (J := Sound) (fun _ _ _ h hs hstep => h.step hs hstep) sound_idle hspared hrun
  exact hsound.held hq

/-- Two calls on two channels: the second SUBSCRIBE fails, the first call is left by a
caller who is cancelled, and the release ends all the same. -/
def lifecycle : List (SharedEvent Channel) :=
  [.join 0 (.done "a"), .joinEnters 0, .subscribed 0, .readerPolls 0,
    .join 1 (.done "b"), .joinEnters 1, .subscribeFails 1 true,
    .leave 0 (.done "a") 0, .leaveCancelled 0, .releaseEnters 0, .readerUnwinds 0,
    .readerEnded 0, .closed 0]

theorem lifecycle_held : ∃ s, machine.run idle lifecycle = some s ∧ s.Quiet ∧ s.Held := by
  have hquiet : ∀ s, machine.run idle lifecycle = some s → s.Quiet := by
    intro s hs
    cases hs
    refine ⟨rfl, fun r => ?_⟩
    cases r with
    | zero => rfl
    | succ r => rfl
  have hspared : machine.Along (fun s ev _ => s.Spared ev) idle lifecycle := by decide
  exact ⟨_, rfl, hquiet _ rfl, held_of_spared hspared rfl (hquiet _ rfl)⟩

/-- A first SUBSCRIBE that fails. -/
def firstFails : List (SharedEvent Channel) :=
  [.join 0 (.done "a"), .joinEnters 0, .subscribeFails 0 false]

/-- `get_message` raises, and another call joins. -/
def readerDies : List (SharedEvent Channel) :=
  [.join 0 (.done "a"), .joinEnters 0, .subscribed 0, .readerPolls 0, .readerFails 0,
    .join 1 (.done "b"), .joinEnters 1, .subscribed 1]

/-- **Two ways to break the promise.** The connection opened for a SUBSCRIBE that failed
stays, with nobody waiting; a reader that has returned stays, with two calls waiting. -/
theorem failures_not_held :
    (∃ s, machine.run idle firstFails = some s ∧ s.Quiet ∧ s.waiters = ∅ ∧
      s.pubsub ≠ none ∧ ¬ s.Held) ∧
    ∃ s, machine.run idle readerDies = some s ∧ s.Quiet ∧ s.waiters ≠ ∅ ∧
      ¬ s.Reading ∧ ¬ s.Held := by
  constructor
  · refine ⟨_, rfl, ⟨rfl, fun _ => rfl⟩, rfl, Option.some_ne_none _, fun hheld => ?_⟩
    exact Option.some_ne_none _ (hheld.released rfl).1
  · have hreading : ∀ s, machine.run idle readerDies = some s → ¬ s.Reading := by
      rintro s hs ⟨rd, hrd, hrun⟩
      cases hs
      cases hrd
      cases hrun
    have hne : ∀ s, machine.run idle readerDies = some s → s.waiters ≠ ∅ := by
      intro s hs
      cases hs
      decide
    exact ⟨_, rfl, ⟨rfl, fun _ => rfl⟩, hne _ rfl, hreading _ rfl,
      fun hheld => hreading _ rfl (hheld.reading (hne _ rfl))⟩

end SharedNotifier

end TaskQueue.Redis
