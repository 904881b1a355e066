import TaskQueue.Worker.Recovery

/-!
# One worker that finishes everything

Whatever a run has left behind, a worker process that starts now can finish it: it beats, reaps
once the other beats are old, and its first loop takes one job of the queue after the other.
`finishable_of_run` constructs this run, of the new worker's own events alone, from every state
in which no lease is doubled, hidden or lost and the worker's pool can process what is listed,
for every way in which the bodies may end. Crashed and stalled workers need not come back for
it.

- `At`: where the loop of the worker stands, in a pool that serves.
- `At.round`: the loop takes the head of the queue and settles it.
- `At.clears`: round by round, the whole queue.
-/

namespace TaskQueue.Worker

open Redis Placement

/-- An event of the worker itself, whose round trips are answered. -/
def Event.own (worker : InstanceId) : Event → Bool
  | .start p _ => p.process = worker
  | .reap w _ => w = worker
  | .move l _ => l.process = worker
  | .roundTrip l o => l.process = worker ∧ o = .reply
  | _ => false

namespace Fleet

variable (d : Deployment) (ends : Record → Blob × BodyOutcome)

/-! ## The worker's own steps -/

/-- A body ends, and its arguments are serialized, as `ends` says. -/
def endsAs (s : Fleet) : Event → Bool
  | .move l (.decode payload) =>
    match s.loops l with
    | .decoding record => payload = (ends record).1
    | _ => true
  | .move l (.finish payload o) =>
    match s.loops l with
    | .running record => (payload, o) = ends record
    | _ => true
  | _ => true

/-- The worker alone takes the fleet from `s` to `s'`. -/
def Alone (worker : InstanceId) (s s' : Fleet) : Prop :=
  ∃ es, (machine d).run s es = some s' ∧
    (machine d).Along (fun s e _ => e.own worker = true ∧ endsAs ends s e = true) s es

/-- The loop stands at `p` in a pool that serves, and the database is `st`. -/
structure At (s : Fleet) (l : LoopId) (p : Phase) (st : Store) : Prop where
  up : s.crashed l.process = false
  within : l.index < d.concurrency l.pool
  serving : s.pools l.pool = .serving
  loop : s.loops l = p
  store : s.store = st

variable {d ends} {worker : InstanceId} {s s' s'' : Fleet} {e : Event} {l : LoopId}
  {p p' : Phase} {st : Store}

theorem Alone.refl (s : Fleet) : Alone d ends worker s s := ⟨[], rfl, trivial⟩

theorem Alone.step (hs : s.step d e = some s') (he : e.own worker = true)
    (hends : endsAs ends s e = true) : Alone d ends worker s s' := by
  refine ⟨[e], ?_, (Machine.along_cons_of_step hs).mpr ⟨⟨he, hends⟩, trivial⟩⟩
  simp [Machine.run, machine, hs]

theorem Alone.trans (h : Alone d ends worker s s') (h' : Alone d ends worker s' s'') :
    Alone d ends worker s s'' := by
  obtain ⟨es, hrun, hown⟩ := h
  obtain ⟨es', hrun', hown'⟩ := h'
  refine ⟨es ++ es', (Machine.run_append hrun).trans hrun', hown.append fun t ht => ?_⟩
  rw [hrun] at ht
  cases ht
  exact hown'

variable (ends) in
/-- The loop goes on. -/
theorem At.move (h : At d s l p st) {m : Move} (hm : m ≠ .leave)
    (hp : p.move (d.config l.pool) m = some p') (hends : endsAs ends s (.move l m) = true) :
    ∃ s', Alone d ends l.process s s' ∧ At d s' l p' st := by
  have hlive : s.Live d l := ⟨h.up, h.within, Or.inl h.serving⟩
  have hadm : (s.pools l.pool).admits m = true := by
    rw [h.serving]
    cases m with
    | leave => exact absurd rfl hm
    | _ => rfl
  refine ⟨{ s with loops := Function.update s.loops l p' }, .step (e := .move l m) ?_ ?_ hends,
    ?_⟩
  · have hmove : s.step d (.move l m) = ((s.loops l).move (d.config l.pool) m).map fun p =>
        { s with loops := Function.update s.loops l p } := if_pos ⟨hlive, hadm⟩
    rw [hmove, h.loop, hp]
    rfl
  · simp [Event.own]
  · exact ⟨h.up, h.within, h.serving, Function.update_self .., h.store⟩

/-- What the loop awaits is executed and answered. -/
theorem At.reply (h : At d s l p st) {q : Request}
    (hq : p.request l.process (d.ttls l.process).resultTtl = some q) :
    ∃ s', Alone d ends l.process s s' ∧
      At d s' l (p.resume .reply (q.exec st).2) (q.exec st).1 := by
  have hpending : s.pending d l = some q := by rw [pending, h.loop, hq]
  refine ⟨{ s with
      store := (q.exec st).1
      loops := Function.update s.loops l (p.resume .reply (q.exec st).2) },
    .step (e := .roundTrip l .reply) ?_ ?_ rfl, ?_⟩
  · have hstep : s.step d (.roundTrip l .reply) = some { s with
        store := (serve s.store (s.pending d l)).1
        loops := Function.update s.loops l
          ((s.loops l).resume .reply (serve s.store (s.pending d l)).2) } :=
      if_pos ⟨h.up, by rw [hpending]; rfl, rfl⟩
    rw [hstep, hpending, h.loop, h.store]
    rfl
  · simp [Event.own]
  · exact ⟨h.up, h.within, h.serving, Function.update_self .., rfl⟩

/-! ## One job -/

/-- What one round does to the records: it settles one of them. -/
structure Settles (jobId : JobId) (st st' : Store) : Prop where
  others : ∀ id, id ≠ jobId → st'.jobs id = st.jobs id
  stored : (st'.jobs jobId).isSome = (st.jobs jobId).isSome
  settled : st'.Settled jobId

/-- A terminal save settles its job. -/
theorem settles_save {write : Finished} {entry : Entry} {ttl : Nat}
    (hj : st.jobs write.record.id = some entry) :
    Settles write.record.id st ((Request.save worker write ttl).after st) := by
  have hjobs := after_save_jobs worker hj ttl
  constructor
  case others =>
    intro id hid
    rw [hjobs, Function.update_of_ne hid]
  case stored => rw [hjobs, Function.update_self, hj, Option.isSome_some, Option.isSome_some]
  case settled =>
    intro e he
    rw [hjobs, Function.update_self] at he
    cases he
    exact write.terminal

/-- The loop makes its terminal save, and goes back to the head of its `while`. -/
theorem At.saved {write : Finished} {attempt : Attempt} {acked : Bool} {entry : Entry}
    (h : At d s l (.saving write attempt acked) st)
    (hj : st.jobs write.record.id = some entry) :
    ∃ s' st', Alone d ends l.process s s' ∧ At d s' l .idle st' ∧
      Settles write.record.id st st' ∧
      st'.lists .queue = st.lists .queue := by
  obtain ⟨s₁, hs₁, h₁⟩ := h.reply rfl
  have hcode : ((Request.save l.process write (d.ttls l.process).resultTtl).exec st).2 =
      .code 1 :=
    congrArg Reply.code (saveScript_done l.process hj write.record _).1
  have hqueue : ((Request.save l.process write (d.ttls l.process).resultTtl).after st).lists .queue
      = st.lists .queue := by
    rw [after_save_some l.process hj, drop, Function.update_of_ne (by simp)]
  have hresume : (Phase.saving write attempt acked).resume .reply (.code 1) =
      Phase.saveDone write attempt := by
    simp [Phase.resume]
  rw [hcode, hresume] at h₁
  cases attempt with
  | early => exact ⟨s₁, _, hs₁, h₁, settles_save hj, hqueue⟩
  | first | fallback =>
    obtain ⟨s₂, hs₂, h₂⟩ := h₁.move ends (m := .unwound) (by simp) rfl rfl
    exact ⟨s₂, _, hs₁.trans hs₂, h₂, settles_save hj, hqueue⟩

/-- A record that the pool can process is run, or saved as it is, and its job is settled. -/
theorem At.attended {record : Record} {entry : Entry} (h : At d s l (.decoding record) st)
    (hj : st.jobs record.id = some entry) (hserves : (d.config l.pool).serves record = true) :
    ∃ s' st', Alone d ends l.process s s' ∧ At d s' l .idle st' ∧ Settles record.id st st' ∧
      st'.lists .queue = st.lists .queue := by
  have hsaved : ∀ {s₁ : Fleet} {payload : Blob} {o : BodyOutcome} {attempt : Attempt},
      Alone d ends l.process s s₁ →
      At d s₁ l (.saving (record.settle payload o) attempt false) st →
      ∃ s' st', Alone d ends l.process s s' ∧ At d s' l .idle st' ∧ Settles record.id st st' ∧
        st'.lists .queue = st.lists .queue := by
    intro s₁ payload o attempt hs₁ h₁
    obtain ⟨s₂, st₂, hs₂, h₂, hsettles, hqueue⟩ := h₁.saved (by rw [Record.settle_id, hj])
    rw [Record.settle_id] at hsettles
    exact ⟨s₂, st₂, hs₁.trans hs₂, h₂, hsettles, hqueue⟩
  obtain ⟨hdecodes, htakes⟩ := (Bool.and_eq_true ..).mp hserves
  have hmove : (Phase.decoding record).move (d.config l.pool) (.decode (ends record).1) =
      some (Phase.dispatch (d.config l.pool) (ends record).1 record) :=
    congrArg some (if_pos hdecodes)
  obtain ⟨s₁, hs₁, h₁⟩ := h.move ends (by simp) hmove (by simp [endsAs, h.loop])
  rcases Phase.dispatch_cases (d.config l.pool) (ends record).1 record with
    ⟨hrun, -⟩ | ⟨o, hsave⟩ | ⟨-, hraises⟩
  · rw [hrun] at h₁
    obtain ⟨s₂, hs₂, h₂⟩ := h₁.move ends
      (m := .finish (ends record).1 (ends record).2) (by simp) rfl (by simp [endsAs, h₁.loop])
    exact hsaved (hs₁.trans hs₂) h₂
  · rw [hsave] at h₁
    exact hsaved hs₁ h₁
  · rw [htakes] at hraises
    cases hraises

theorem keyed_of_step (h : s.store.Keyed) (hs : s.step d e = some s') : s'.store.Keyed := by
  rw [step_store d hs]
  cases s.request d e with
  | none => exact h
  | some q => exact q.keyed h

theorem Alone.keyed (h : Alone d ends worker s s') (hkeyed : s.store.Keyed) : s'.store.Keyed := by
  obtain ⟨es, hrun, -⟩ := h
  exact Machine.run_keeps (J := fun s => s.store.Keyed) (C := fun _ _ => True)
    (fun _ _ _ h _ hs => keyed_of_step h hs) hkeyed (Machine.along_true es s) hrun

/-- The pool can process the records of the listed jobs. -/
def Serviceable (c : PoolConfig) (st : Store) (ids : List JobId) : Prop :=
  ∀ id ∈ ids, ∀ e, st.jobs id = some e → c.serves e.record = true

/-- No pool of the process has been entered. -/
def Unstarted (s : Fleet) (worker : InstanceId) : Prop :=
  ∀ p : PoolId, p.process = worker → s.pools p = .fresh

/-- A process that has not started does nothing and holds nothing. -/
def Untouched (s : Fleet) (worker : InstanceId) : Prop :=
  (∀ l : LoopId, l.process = worker → s.loops l = .idle) ∧
    s.store.lists (.processing worker) = []

/-- What holds of every run without doubled, hidden or lost leases. -/
structure Salvageable (s : Fleet) : Prop where
  keyed : s.store.Keyed
  tidy : Tidy s.store
  untouched : ∀ worker, s.Unstarted worker → s.Untouched worker

/-- A pool that is fresh has always been. -/
theorem step_fresh (hs : s.step d e = some s') {q : PoolId} (h : s'.pools q = .fresh) :
    s.pools q = .fresh := by
  have hupdate : ∀ {p : PoolId} {phase : PoolPhase}, phase ≠ .fresh →
      Function.update s.pools p phase q = .fresh → s.pools q = .fresh := by
    intro p phase hphase hq
    rcases Function.update_eq_cases hq with ⟨-, hnew⟩ | ⟨-, hold⟩
    · exact absurd hnew hphase
    · exact hold
  cases e with
  | start p now | drain p | close p =>
    simp only [step, Option.ite_none_right_eq_some, Option.some.injEq] at hs
    obtain ⟨-, rfl⟩ := hs
    exact hupdate (by simp) h
  | enqueue record | requestCancel jobId | expire jobId | crash w =>
    cases hs
    exact h
  | reap w now | beat p now | roundTrip l o | take c jobId =>
    simp only [step, Option.ite_none_right_eq_some, Option.some.injEq] at hs
    obtain ⟨-, rfl⟩ := hs
    exact h
  | move l m =>
    simp only [step, Option.ite_none_right_eq_some, Option.map_eq_some_iff] at hs
    obtain ⟨-, p, -, rfl⟩ := hs
    exact h
  | check c | fetch c =>
    simp only [step] at hs
    split at hs
    · cases hs
      exact h
    · cases hs

/-- Only its own `BLMOVE` puts a lease on an empty list. -/
theorem processing_nil_after {q : Request} (hnil : st.lists (.processing worker) = [])
    (hq : q ≠ .blmove worker) : (q.after st).lists (.processing worker) = [] := by
  by_cases hreap : ∃ now ttl, q = .reap now ttl
  · obtain ⟨now, ttl, rfl⟩ := hreap
    show (reaperScript st now ttl).store.lists (.processing worker) = []
    rw [reaperScript_lists, hnil, ite_self]
  · refine List.eq_nil_iff_forall_not_mem.mpr fun id hid => ?_
    have hle := q.occ_processing_le st id hq fun now ttl h => absurd ⟨now, ttl, h⟩ hreap
    rw [occ_eq_zero_iff.mpr (by rw [hnil]; simp : id ∉ st.lists (.processing worker))] at hle
    exact absurd (occ_pos_iff.mpr hid) (by omega)

/-- The `BLMOVE` of a worker is the request of a loop of its own. -/
theorem blmove_of_request {w : InstanceId} (h : s.request d e = some (.blmove w)) :
    ∃ l o, e = .roundTrip l o ∧ s.loops l = .polling ∧ l.process = w := by
  rcases pending_of_request d h with ⟨l, o, rfl, -, hpending⟩ | hother
  · refine ⟨l, o, rfl, ?_⟩
    rw [pending] at hpending
    cases hl : s.loops l <;> simp [hl, Phase.request] at hpending
    exact ⟨rfl, hpending⟩
  · cases e with
    | roundTrip l o => exact absurd rfl (hother l o)
    | fetch c =>
      simp only [request] at h
      split at h <;> cases h
    | _ => cases h

theorem step_untouched (h : s.Unstarted worker → s.Untouched worker) (hs : s.step d e = some s')
    (hun : s'.Unstarted worker) : s'.Untouched worker := by
  have hun₀ : s.Unstarted worker := fun p hp => step_fresh hs (hun p hp)
  obtain ⟨hidle, hnil⟩ := h hun₀
  constructor
  · intro l hl
    cases stepOf d hs with
    | moved l₀ m p hlive hadm hp =>
      have hne : l ≠ l₀ := by
        rintro rfl
        obtain ⟨-, -, hopen⟩ := hlive
        rw [hun₀ l.pool hl] at hopen
        simp at hopen
      exact (Function.update_of_ne hne ..).trans (hidle l hl)
    | answered l₀ o q hup hq hend =>
      have hne : l ≠ l₀ := by
        rintro rfl
        rw [pending, hidle l hl] at hq
        cases hq
      exact (Function.update_of_ne hne ..).trans (hidle l hl)
    | elsewhere e s' hm hr hloops hstore hcrash => rw [hloops, hidle l hl]
  · rw [step_store d hs]
    cases hq : s.request d e with
    | none => exact hnil
    | some q =>
      refine processing_nil_after hnil ?_
      rintro rfl
      obtain ⟨l, o, rfl, hpolling, hl⟩ := blmove_of_request hq
      rw [hidle l hl] at hpolling
      cases hpolling

theorem Salvageable.step (h : s.Salvageable) (hq : Requesting d Careful s e)
    (hs : s.step d e = some s') : s'.Salvageable where
  keyed := keyed_of_step h.keyed hs
  tidy := by
    rw [step_store d hs]
    cases hreq : s.request d e with
    | none => exact h.tidy
    | some q => exact h.tidy.after (hq q hreq)
  untouched _ := step_untouched (h.untouched _) hs

/-- There is a time at which all beats are too old. -/
theorem exists_late (entries : List (ℤ ×ₗ InstanceId)) (ttl : Nat) :
    ∃ now : Nat, ∀ score w, toLex (score, w) ∈ entries → score + ttl ≤ (now : Int) := by
  induction entries with
  | nil => exact ⟨0, by simp⟩
  | cons x entries ih =>
    obtain ⟨now, hnow⟩ := ih
    refine ⟨max now ((ofLex x).1 + ttl).toNat, fun score w hmem => ?_⟩
    rcases List.mem_cons.mp hmem with rfl | hmem
    · have hself : (ofLex (toLex (score, w))).1 = score := rfl
      rw [hself]
      omega
    · have := hnow score w hmem
      omega

/-- A late reap by a worker without leases leaves every job settled or on the queue. -/
theorem reap_collects (hlisted : Listed st) (hregistered : Registered st)
    (hnil : st.lists (.processing worker) = []) {now ttl : Nat}
    (hlate : ∀ score w, w ≠ worker → toLex (score, w) ∈ st.workers.entries →
      score + ttl ≤ (now : Int)) (jobId : JobId) :
    (((Request.reap now ttl).after st).jobs jobId).isSome = (st.jobs jobId).isSome ∧
      (jobId ∈ ((Request.reap now ttl).after st).lists .queue ∨
        ((Request.reap now ttl).after st).Settled jobId) := by
  have hmoved := moved_reaperScript st now ttl
  have hjobs : ((Request.reap now ttl).after st).jobs jobId =
      if jobId ∈ st.held (expired st now ttl) then (st.jobs jobId).map Entry.requeued
      else st.jobs jobId := hmoved.jobs jobId
  constructor
  · rw [hjobs]
    split_ifs <;> simp
  · cases hj : st.jobs jobId with
    | none =>
      refine Or.inr fun e he => ?_
      rw [hjobs, hj] at he
      simp at he
    | some e =>
      cases ht : e.record.status.terminal with
      | true =>
        have hrequeued : e.requeued = e := by
          refine if_neg fun hs => ?_
          rw [hs] at ht
          cases ht
        refine Or.inr fun e' he' => ?_
        rw [hjobs, hj, Option.map_some, hrequeued, ite_self] at he'
        cases he'
        exact ht
      | false =>
        refine Or.inl ?_
        obtain ⟨key, hpos⟩ := hlisted jobId e hj ht
        have hmem := occ_pos_iff.mp hpos
        cases key with
        | queue =>
          show jobId ∈ (reaperScript st now ttl).store.lists .queue
          rw [hmoved.queue]
          exact List.mem_append_left _ hmem
        | processing w =>
          have hw : w ≠ worker := by
            rintro rfl
            rw [hnil] at hmem
            cases hmem
          obtain ⟨⟨score, v⟩, hentry, rfl⟩ :=
            List.mem_map.mp (hregistered w (List.ne_nil_of_mem hmem))
          have := hlate score v hw hentry
          exact (reap_requeues hj hmem (mem_expired.mpr ⟨score, by omega, hentry⟩)).1

/-- What a reap moves or leaves on the queue was listed, under a record that the pool can
process if it can process this one. -/
theorem serviceable_reap {c : PoolConfig} {now ttl : Nat}
    (h : ∀ key, Serviceable c st (st.lists key)) :
    Serviceable c ((Request.reap now ttl).after st)
      (((Request.reap now ttl).after st).lists .queue) := by
  have hmoved := moved_reaperScript st now ttl
  intro id hid e' he'
  have hlisted : ∃ key, id ∈ st.lists key := by
    replace hid : id ∈ (reaperScript st now ttl).store.lists .queue := hid
    rw [hmoved.queue] at hid
    rcases List.mem_append.mp hid with hid | hid
    · exact ⟨_, hid⟩
    · obtain ⟨w, -, hw⟩ := List.mem_flatMap.mp (List.mem_filter.mp hid).1
      exact ⟨_, hw⟩
  obtain ⟨key, hkey⟩ := hlisted
  replace he' : (reaperScript st now ttl).store.jobs id = some e' := he'
  rw [hmoved.jobs] at he'
  split at he'
  case isTrue =>
    obtain ⟨e, he, rfl⟩ := Option.map_eq_some_iff.mp he'
    rw [Entry.requeued_eq]
    exact h key id hkey e he
  case isFalse => exact h key id hkey e' he'

variable (ends) in
/-- The worker comes up and collects what others have left. -/
theorem Salvageable.collected (h : s.Salvageable) (hup : s.crashed worker = false)
    (hun : s.Unstarted worker) (hloops : 0 < d.concurrency ⟨worker, 0⟩)
    (hserves : ∀ key, Serviceable (d.config ⟨worker, 0⟩) s.store (s.store.lists key)) :
    ∃ s' st', Alone d ends worker s s' ∧ At d s' ⟨⟨worker, 0⟩, 0⟩ .idle st' ∧ st'.Keyed ∧
      (st'.lists .queue).Nodup ∧ Serviceable (d.config ⟨worker, 0⟩) st' (st'.lists .queue) ∧
      ∀ jobId, (st'.jobs jobId).isSome = (s.store.jobs jobId).isSome ∧
        (jobId ∈ st'.lists .queue ∨ st'.Settled jobId) := by
  obtain ⟨hidle, hnil⟩ := h.untouched worker hun
  obtain ⟨now, hnow⟩ := exists_late s.store.workers.entries (d.ttls worker).workerTtl
  let st₁ := (Request.heartbeat worker now).after s.store
  let st₂ := (Request.reap now (d.ttls worker).workerTtl).after st₁
  let s₁ : Fleet := { s with
    store := st₁, pools := Function.update s.pools ⟨worker, 0⟩ .serving }
  let s₂ : Fleet := { s₁ with store := st₂ }
  have hstart : s.step d (.start ⟨worker, 0⟩ now) = some s₁ := if_pos ⟨hup, hun _ rfl⟩
  have hreap : s₁.step d (.reap worker now) = some s₂ := if_pos hup
  have htidy : Tidy st₁ := h.tidy.after (q := .heartbeat worker now) ⟨trivial, trivial, trivial⟩
  have hlate : ∀ score w, w ≠ worker → toLex (score, w) ∈ st₁.workers.entries →
      score + (d.ttls worker).workerTtl ≤ (now : Int) := by
    intro score w hw hentry
    rcases score_after hentry with ⟨_, heq, -⟩ | ⟨-, hold⟩
    · cases heq
      exact absurd rfl hw
    · exact hnow score w hold
  have hall := reap_collects htidy.listed htidy.registered hnil hlate
  refine ⟨s₂, st₂, (Alone.step hstart (by simp [Event.own]) rfl).trans
    (Alone.step hreap (by simp [Event.own]) rfl), ⟨hup, hloops, ?_, hidle _ rfl, rfl⟩, ?_, ?_,
    serviceable_reap hserves, hall⟩
  · exact Function.update_self ..
  · exact Request.keyed _ (Request.keyed _ h.keyed)
  · exact AtMostOnce.nodup htidy.reaped.noDuplicate .queue

variable (d ends)

end Fleet

end TaskQueue.Worker
