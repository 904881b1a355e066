import Mathlib.Algebra.Order.Floor.Semiring
import Mathlib.Tactic.Linarith
import Mathlib.Tactic.NormNum
import Mathlib.Algebra.Order.Archimedean.Real.Basic
import TaskQueue.Library.Machine
import TaskQueue.Redis.Reaper
import TaskQueue.Redis.Server

/-!
# Heartbeats against the worker TTL

`check_liveness` accepts a pool when three beats fit into the TTL. The beats and
the reaps do not see the real clock, though: both scripts take `TIME[1]`, the
clock truncated to whole seconds, and the reaper's range is inclusive.

A `Timed` request is a request with the moment at which the server executes it,
and `watching` runs timed requests on a clock that does not go back, noting the
latest beat of one worker. Between two truncated stamps of moments at most `h`
apart lie at most `⌈h⌉` seconds, so an interval of a third of the TTL is safe
when `⌈ttl / 3⌉ < ttl`, which holds for every TTL but one second.

- `Scored`: the worker's entry, if there is one, is the truncated latest beat.
- `punctualWorker_spared_iff`: the accepted configurations under which no reap
  lists a punctual worker are those with a TTL of at least two seconds.
-/

namespace TaskQueue.Redis

universe u

variable {K : Type u} [Field K] [LinearOrder K] [IsStrictOrderedRing K]

/-- The numbers in the text of the `ConfigError` that `check_liveness` raises. -/
structure TooLong (K : Type u) where
  heartbeatInterval : K
  workerTtl : Int
  longestInterval : K
  shortestTtl : K

/-- `_MIN_BEATS_PER_TTL`. -/
def minBeatsPerTtl : Nat := 3

/-- `check_liveness`; `workerTtl` is `none` for a backend without that attribute. -/
def checkLiveness (workerTtl : Option Int) (heartbeatInterval : K) : Except (TooLong K) Unit :=
  match workerTtl with
  | none => .ok ()
  | some ttl =>
    if (ttl : K) < heartbeatInterval * minBeatsPerTtl then
      .error ⟨heartbeatInterval, ttl, ttl / minBeatsPerTtl, heartbeatInterval * minBeatsPerTtl⟩
    else .ok ()

omit [IsStrictOrderedRing K] in
theorem checkLiveness_ok_iff {ttl : Int} {heartbeatInterval : K} :
    checkLiveness (some ttl) heartbeatInterval = .ok () ↔ heartbeatInterval * 3 ≤ ttl := by
  unfold checkLiveness minBeatsPerTtl
  by_cases h : (ttl : K) < heartbeatInterval * (3 : ℕ)
  · simp only [if_pos h, reduceCtorEq, false_iff, not_le]
    exact_mod_cast h
  · simp only [if_neg h, true_iff]
    exact_mod_cast not_lt.mp h

/-! ## Requests on a clock -/

/-- A request and the moment at which the server executes it, in seconds since the epoch. -/
structure Timed (K : Type u) where
  time : K
  request : Request

/-- `TIME[1]` in place of whatever stamp the request was built with. -/
def Request.stamped (now : Nat) : Request → Request
  | .heartbeat worker _ => .heartbeat worker now
  | .reap _ workerTtl => .reap now workerTtl
  | q => q

/-- The store, the moment of the last request, and the moment of the watched worker's
latest beat. -/
structure Watch (K : Type u) where
  store : Store
  now : K
  beat : Option K

/-- The request is a beat of `worker`. -/
def Request.Beats (worker : InstanceId) : Request → Prop
  | .heartbeat w _ => w = worker
  | _ => False

instance (worker : InstanceId) (q : Request) : Decidable (q.Beats worker) := by
  cases q <;> unfold Request.Beats <;> infer_instance

variable [FloorRing K]

/-- Timed requests, executed from `st` at `start` on. -/
def watching (worker : InstanceId) (st : Store) (start : K) : Machine (Watch K) (Timed K) where
  init := ⟨st, start, none⟩
  step s e :=
    if s.now ≤ e.time then
      some ⟨(e.request.stamped ⌊e.time⌋₊).after s.store, e.time,
        if e.request.Beats worker then some e.time else s.beat⟩
    else none

/-- The worker's successive beats run at most `heartbeatInterval` apart. -/
def Punctual (worker : InstanceId) (heartbeatInterval : K) (s : Watch K) (e : Timed K) : Prop :=
  e.request.Beats worker → ∀ beat, s.beat = some beat → e.time ≤ beat + heartbeatInterval

/-- A reap no later than `heartbeatInterval` after the worker's latest beat does not list it. -/
def Spares (worker : InstanceId) (workerTtl : Nat) (heartbeatInterval : K) (s : Watch K)
    (e : Timed K) (_ : Watch K) : Prop :=
  ∀ now, e.request = .reap now workerTtl →
    ∀ beat, s.beat = some beat → e.time ≤ beat + heartbeatInterval →
      worker ∉ expired s.store ⌊e.time⌋₊ workerTtl

/-! ## The entry of a punctual worker -/

omit K in
/-- The score of a member after a request: its stamp if the request is its beat, and
otherwise the score it had. -/
theorem score_after {q : Request} {st : Store} {worker : InstanceId} {score : Int}
    (h : toLex (score, worker) ∈ (q.after st).workers.entries) :
    (∃ now : Nat, q = .heartbeat worker now ∧ score = now) ∨
      (¬ q.Beats worker ∧ toLex (score, worker) ∈ st.workers.entries) := by
  have hquiet : ∀ q' : Request, ¬ q'.Beats worker → (q'.after st).workers = st.workers →
      toLex (score, worker) ∈ (q'.after st).workers.entries →
      ¬ q'.Beats worker ∧ toLex (score, worker) ∈ st.workers.entries := by
    intro q' hq hw hin
    exact ⟨hq, hw ▸ hin⟩
  cases q with
  | heartbeat v now =>
    rcases ScoreSet.mem_entries_add.mp h with ⟨rfl, hscore⟩ | ⟨hne, hin⟩
    · exact Or.inl ⟨now, rfl, hscore⟩
    · exact Or.inr ⟨Ne.symm hne, hin⟩
  | deregister v =>
    refine Or.inr ⟨id, ?_⟩
    by_cases hl : (st.lists (.processing v)).length > 0
    · simpa [Request.after, Request.exec, deregisterScript, hl] using h
    · have hin : toLex (score, worker) ∈ (st.workers.remove v).entries := by
        simpa [Request.after, Request.exec, deregisterScript, hl] using h
      exact (ScoreSet.mem_entries_remove.mp hin).2
  | reap now ttl =>
    refine Or.inr ⟨id, ?_⟩
    have hin : toLex (score, worker) ∈ (reaperScript st now ttl).store.workers.entries := h
    rw [reaperScript_store] at hin
    exact List.mem_of_mem_filter hin
  | _ =>
    exact Or.inr (hquiet _ id (after_workers _ st (by simp) (by simp) (by simp)) h)

/-- The worker's entry, if there is one, holds the truncated moment of its latest beat. -/
structure Scored (worker : InstanceId) (s : Watch K) : Prop where
  past : ∀ beat, s.beat = some beat → beat ≤ s.now
  score : ∀ beat, s.beat = some beat → ∀ score : Int,
    toLex (score, worker) ∈ s.store.workers.entries → score = ⌊beat⌋₊

section

variable {worker : InstanceId} {st : Store} {start : K}

omit [IsStrictOrderedRing K] in
theorem scored_init : Scored worker (watching worker st start).init where
  past _ h := absurd h (Option.some_ne_none _).symm
  score _ h := absurd h (Option.some_ne_none _).symm

omit [IsStrictOrderedRing K] in
theorem watching_step {s s' : Watch K} {e : Timed K}
    (h : (watching worker st start).step s e = some s') :
    s.now ≤ e.time ∧
      s' = ⟨(e.request.stamped ⌊e.time⌋₊).after s.store, e.time,
        if e.request.Beats worker then some e.time else s.beat⟩ := by
  simp only [watching] at h
  split at h
  · exact ⟨by assumption, (Option.some.inj h).symm⟩
  · cases h

omit K in
theorem stamped_beats_iff {q : Request} {now : Nat} :
    (q.stamped now).Beats worker ↔ q.Beats worker := by
  cases q <;> rfl

omit [IsStrictOrderedRing K] in
/-- The step lemma: whatever the request, the worker's entry stays its latest beat. -/
theorem scored_step {s s' : Watch K} {e : Timed K} (hs : Scored worker s)
    (h : (watching worker st start).step s e = some s') : Scored worker s' := by
  obtain ⟨hle, rfl⟩ := watching_step h
  by_cases hbeats : e.request.Beats worker
  · constructor
    · intro beat hbeat
      rw [if_pos hbeats] at hbeat
      exact (Option.some.inj hbeat).ge
    · intro beat hbeat score hin
      rw [if_pos hbeats] at hbeat
      rcases score_after hin with ⟨now, hq, hscore⟩ | ⟨hnot, -⟩
      · rw [hscore, ← Option.some.inj hbeat]
        cases hreq : e.request with
        | heartbeat v n =>
          rw [hreq] at hq
          cases hq
          rfl
        | _ => rw [hreq] at hq; cases hq
      · exact absurd (stamped_beats_iff.mpr hbeats) hnot
  · constructor
    · intro beat hbeat
      rw [if_neg hbeats] at hbeat
      exact (hs.past beat hbeat).trans hle
    · intro beat hbeat score hin
      rw [if_neg hbeats] at hbeat
      rcases score_after hin with ⟨now, hq, -⟩ | ⟨-, hin'⟩
      · have hstamped : (e.request.stamped ⌊e.time⌋₊).Beats worker := by rw [hq]; rfl
        exact absurd (stamped_beats_iff.mp hstamped) hbeats
      · exact hs.score beat hbeat score hin'

end

/-! ## The margin -/

/-- Three intervals in the TTL leave the truncated stamps less than the TTL apart, if the
TTL is at least two seconds. -/
theorem floor_lt_floor_add {beat time heartbeatInterval : K} {workerTtl : Nat}
    (httl : 2 ≤ workerTtl) (haccepted : heartbeatInterval * 3 ≤ workerTtl)
    (htime : time ≤ beat + heartbeatInterval) : ⌊time⌋₊ < ⌊beat⌋₊ + workerTtl := by
  by_contra hge
  have hfloor : ((⌊beat⌋₊ + workerTtl : Nat) : K) ≤ time :=
    (Nat.le_floor_iff' (by omega)).mp (not_lt.mp hge)
  have hbeat : beat < ⌊beat⌋₊ + 1 := Nat.lt_floor_add_one beat
  have httl : (2 : K) ≤ workerTtl := by exact_mod_cast httl
  push_cast at hfloor
  linarith

/-- The worker's score is then above the reaper's range. -/
theorem spares_of_scored {worker : InstanceId} {workerTtl : Nat} {heartbeatInterval : K}
    {s s' : Watch K} {e : Timed K} (httl : 2 ≤ workerTtl)
    (haccepted : heartbeatInterval * 3 ≤ workerTtl) (hs : Scored worker s) :
    Spares worker workerTtl heartbeatInterval s e s' := by
  intro now _ beat hbeat htime hin
  obtain ⟨score, hmax, hentry⟩ := mem_expired.mp hin
  have hscore := hs.score beat hbeat score hentry
  have hlt := floor_lt_floor_add httl haccepted htime
  omega

/-! ## One second is too short -/

/-- A beat just before the clock turns to a new second and a reap when it does. -/
def straddling (worker : InstanceId) (heartbeatInterval : K) : List (Timed K) :=
  [⟨1 - heartbeatInterval / 2, .heartbeat worker 0⟩, ⟨1, .reap 0 1⟩]

section

variable {worker : InstanceId} {heartbeatInterval : K}

omit [IsStrictOrderedRing K] in
theorem straddling_punctual :
    (watching worker Store.empty 0).Along
      (fun s e _ => Punctual worker heartbeatInterval s e)
      (watching worker Store.empty 0).init (straddling worker heartbeatInterval) := by
  refine Machine.along_cons fun s' hs => ⟨fun _ beat hbeat => ?_, ?_⟩
  · exact absurd hbeat (Option.some_ne_none _).symm
  · refine Machine.along_cons fun s'' _ => ⟨fun hbeats => ?_, trivial⟩
    exact absurd hbeats id

theorem straddling_listed (hpos : 0 < heartbeatInterval) (haccepted : heartbeatInterval * 3 ≤ 1) :
    ¬ (watching worker Store.empty 0).Along (Spares worker 1 heartbeatInterval)
      (watching worker Store.empty 0).init (straddling worker heartbeatInterval) := by
  intro h
  have hstep : (watching worker Store.empty 0).step (watching worker Store.empty 0).init
      ⟨1 - heartbeatInterval / 2, .heartbeat worker 0⟩
      = some ⟨heartbeatScript Store.empty worker ⌊1 - heartbeatInterval / 2⌋₊,
          1 - heartbeatInterval / 2, some (1 - heartbeatInterval / 2)⟩ := by
    have hle : (0 : K) ≤ 1 - heartbeatInterval / 2 := by linarith
    simp only [watching, if_pos hle, Request.Beats, if_true]
    rfl
  have hreap := ((Machine.along_cons_of_step hstep).mp h).2
  obtain ⟨s'', hstep'⟩ : ∃ s'', (watching worker Store.empty 0).step
      ⟨heartbeatScript Store.empty worker ⌊1 - heartbeatInterval / 2⌋₊,
        1 - heartbeatInterval / 2, some (1 - heartbeatInterval / 2)⟩ ⟨1, .reap 0 1⟩ = some s'' := by
    have hle : 1 - heartbeatInterval / 2 ≤ (1 : K) := by linarith
    exact ⟨_, if_pos hle⟩
  have hspared := ((Machine.along_cons_of_step hstep').mp hreap).1 0 rfl _ rfl
    (show (1 : K) ≤ 1 - heartbeatInterval / 2 + heartbeatInterval by linarith)
  have hfloor : ⌊1 - heartbeatInterval / 2⌋₊ = 0 := by
    rw [Nat.floor_eq_zero]
    linarith
  refine hspared (mem_expired.mpr ⟨0, ?_, ?_⟩)
  · simp
  · show toLex ((0 : Int), worker) ∈ (ScoreSet.empty.add _ worker).entries
    exact ScoreSet.mem_entries_add.mpr (Or.inl ⟨rfl, by rw [hfloor]; rfl⟩)

end

/-- **The accepted configurations that never reap a punctual worker.** For every TTL and
interval that `check_liveness` accepts: whatever the worker, the store, the real-valued
clock and the schedule of requests, as long as the worker's beats run at most
`heartbeatInterval` apart no reap in time lists it, if and only if the TTL is at least two
seconds. -/
theorem punctualWorker_spared_iff (workerTtl : Nat) (heartbeatInterval : K)
    (httl : 0 < workerTtl) (hpos : 0 < heartbeatInterval)
    (haccepted : checkLiveness (some workerTtl) heartbeatInterval = .ok ()) :
    (∀ (worker : InstanceId) (st : Store) (start : K) (es : List (Timed K)),
      (watching worker st start).Along (fun s e _ => Punctual worker heartbeatInterval s e)
          (watching worker st start).init es →
        (watching worker st start).Along (Spares worker workerTtl heartbeatInterval)
          (watching worker st start).init es) ↔
      2 ≤ workerTtl := by
  have hmargin : heartbeatInterval * 3 ≤ workerTtl := by
    exact_mod_cast checkLiveness_ok_iff.mp haccepted
  constructor
  · intro h
    by_contra hshort
    obtain rfl : workerTtl = 1 := by omega
    have hlisted : ¬ (watching "w" Store.empty 0).Along (Spares "w" 1 heartbeatInterval)
        (watching "w" Store.empty 0).init (straddling "w" heartbeatInterval) :=
      straddling_listed hpos (by exact_mod_cast hmargin)
    exact hlisted (h "w" Store.empty 0 _ straddling_punctual)
  · intro hlong worker st start es _
    refine Machine.along_of_invariant (J := Scored worker) (C := fun _ _ => True)
      (fun s e s' hs _ hstep => ?_) scored_init (Machine.along_true es _)
    exact ⟨spares_of_scored hlong hmargin hs, scored_step hs hstep⟩

/-- The default configuration: a beat, and a reap ten seconds later. -/
theorem punctualWorker_spared_default :
    (watching "w" Store.empty (0 : ℝ)).Along (Spares "w" 30 10)
      (watching "w" Store.empty (0 : ℝ)).init
      [⟨1 / 2, .heartbeat "w" 0⟩, ⟨21 / 2, .reap 0 30⟩] :=
  (punctualWorker_spared_iff (K := ℝ) 30 10 (by norm_num) (by norm_num)
      (checkLiveness_ok_iff.mpr (by norm_num))).mpr (by norm_num) "w" Store.empty 0 _
    (Machine.along_cons fun _ _ => ⟨fun _ _ hbeat => absurd hbeat (Option.some_ne_none _).symm,
      Machine.along_cons fun _ _ => ⟨fun hbeats => absurd hbeats id, trivial⟩⟩)

/-- A TTL of one second with a beat every third of a second is accepted, and a reap a sixth
of a second after a beat lists the worker. -/
theorem oneSecondTtl_listed :
    checkLiveness (some 1) (1 / 3 : ℝ) = .ok () ∧
      (watching "w" Store.empty (0 : ℝ)).Along (fun s e _ => Punctual "w" (1 / 3) s e)
        (watching "w" Store.empty (0 : ℝ)).init (straddling "w" (1 / 3)) ∧
      ¬ (watching "w" Store.empty (0 : ℝ)).Along (Spares "w" 1 (1 / 3))
        (watching "w" Store.empty (0 : ℝ)).init (straddling "w" (1 / 3)) :=
  ⟨checkLiveness_ok_iff.mpr (by norm_num), straddling_punctual,
    straddling_listed (by norm_num) (by norm_num)⟩

end TaskQueue.Redis
