import TaskQueue.Worker.Cancellation

/-!
# Cancellations in memory

Worker loops over one `MemoryBackend`, in one event loop. `save` and `release` do not
suspend, so a loop is in `saving` or `releasing` for no time; here other tasks may run
in between, which only adds runs. A watcher that joins takes the event of `_cancels`
that is there, and returns once that event is set: `rung` are the flags of these
events, of which `_cancels` holds the latest only.
-/

namespace TaskQueue.Memory

open Worker

/-- One claim loop of any pool. -/
abbrev LoopIndex := Nat

/-- The backend, its loops and their watchers, and the ledger. `event` is the incarnation
whose event a watcher waits for; `late` are the loops that have claimed a doomed
record. -/
structure Fleet where
  backend : Backend
  loops : LoopIndex → Phase
  watch : LoopIndex → Watch
  event : LoopIndex → Nat
  rung : JobId → Nat → Bool
  ledger : Ledger
  late : LoopIndex → Bool

/-- One scheduler step: a producer or a consumer, or a loop, or its watcher. -/
inductive FleetEvent where
  | enqueue (record : Record)
  | requestCancel (jobId : JobId)
  | collect (jobId : JobId)
  | claim (l : LoopIndex)
  | move (l : LoopIndex) (m : Move)
  | save (l : LoopIndex)
  | release (l : LoopIndex)
  | join (l : LoopIndex)
  | wake (l : LoopIndex)
deriving DecidableEq

namespace Fleet

variable (config : LoopIndex → PoolConfig)

/-- The backend and the ledger after a call. -/
def onBackend (s : Fleet) (b : Backend) : Fleet :=
  { s with backend := b, ledger := s.ledger.settle b.jobs }

/-- A loop goes on, and its watcher starts with the body. -/
def moveTo (s : Fleet) (l : LoopIndex) (p : Phase) : Fleet :=
  { s with
    loops := Function.update s.loops l p
    watch := Function.update s.watch l ((s.watch l).next (s.loops l) p) }

/-- The event that an accepted request sets, if `_cancels` holds one. -/
def ring (s : Fleet) (jobId : JobId) : JobId → Nat → Bool :=
  if Table.Unfinished s.backend.jobs jobId ∧ s.backend.cancels jobId ≠ none then
    Function.update s.rung jobId (Function.update (s.rung jobId) (s.backend.born jobId) true)
  else s.rung

/-- A claim by an idle loop; one that finds no record raises `KeyError` and is logged. -/
def claim (s : Fleet) (l : LoopIndex) : Option Fleet :=
  match s.backend.queue, s.backend.claim with
  | jobId :: _, some (b, some r) =>
    some { (s.onBackend b).moveTo l (.decoding r) with
      late := Function.update s.late l (s.ledger.doomed jobId) }
  | _, some (b, none) => some (s.onBackend b)
  | _, _ => none

/-- One step. -/
def step (s : Fleet) : FleetEvent → Option Fleet
  | .enqueue record =>
    -- producers submit jobs that are not cancelled
    if record.requestCancel then none else some (s.onBackend (s.backend.enqueue record.id record))
  | .requestCancel jobId =>
    let b := s.backend.requestCancel jobId
    some { s with
      backend := b
      rung := s.ring jobId
      ledger := (s.ledger.request s.backend.jobs jobId).settle b.jobs }
  | .collect jobId => some (s.onBackend (s.backend.collect jobId).1)
  | .claim l => if s.loops l = .idle then s.claim l else none
  | .move l m =>
    -- a loop claims in one step
    if m ≠ .poll ∧ (s.watch l).admits m then
      ((s.loops l).move (config l) m).map (s.moveTo l)
    else none
  | .save l =>
    match s.loops l with
    | .saving write attempt acked =>
      match s.backend.save write.record.id write.record true with
      | some b => some ((s.onBackend b).moveTo l (.saveDone write attempt))
      | none =>
        some (s.moveTo l
          (.saveFailed write acked (some (Phase.notFoundText write.record.id)) attempt))
    | _ => none
  | .release l =>
    match s.loops l with
    | .releasing jobId _ =>
      some ((s.onBackend ((s.backend.release jobId).getD s.backend)).moveTo l .ended)
    | _ => none
  | .join l =>
    match s.loops l, s.watch l with
    | .running r, .joining =>
      some { s with
        watch := Function.update s.watch l (Watch.joining.read (s.backend.cancels r.id))
        event := Function.update s.event l (s.backend.born r.id) }
    | _, _ => none
  | .wake l =>
    match s.loops l, s.watch l with
    | .running r, .waiting =>
      if s.rung r.id (s.event l) then
        some { s with watch := Function.update s.watch l .returned }
      else none
    | _, _ => none

/-- An empty backend, and idle loops. -/
def machine : Machine Fleet FleetEvent where
  init :=
    ⟨.empty, fun _ => .idle, fun _ => .off, fun _ => 0, fun _ _ => false, .empty, fun _ => false⟩
  step := step config

/-- A claim that finds a finished record whose cancellation was accepted finds its flag
set. -/
def flagHeld (s : Fleet) : FleetEvent → Bool
  | .claim _ =>
    match s.backend.queue with
    | jobId :: _ => (s.backend.jobs jobId).all fun r =>
        !r.status.terminal || !s.ledger.doomed jobId || r.requestCancel
    | [] => true
  | _ => true

/-! ## The invariant -/

/-- The ledger knows the records and the events, and tells of what each loop does. -/
structure Accounted (s : Fleet) : Prop where
  keyed : ∀ jobId r, s.backend.jobs jobId = some r → r.id = jobId
  sound : s.ledger.Sound s.backend.jobs
  current : s.ledger.Current s.backend.jobs
  cancels : ∀ jobId, s.backend.cancels jobId = some true → s.ledger.accepted jobId = true
  rung : ∀ jobId n, s.rung jobId n = true → s.ledger.accepted jobId = true
  loops : ∀ l, Telling s.ledger (s.watch l) (s.late l) (s.loops l)

theorem accounted_init : (machine config).init.Accounted where
  keyed _ _ h := by cases h
  sound := Ledger.sound_empty _ fun _ _ h => by cases h
  current _ h := by cases h
  cancels _ h := by cases h
  rung _ _ h := by cases h
  loops _ := .of_quiet rfl

variable {config} {s s' : Fleet} {l : LoopIndex}

/-- A call that sets no event. -/
theorem Accounted.onBackend (h : s.Accounted) {b : Backend}
    (hkeyed : ∀ jobId r, b.jobs jobId = some r → r.id = jobId) (hsound : s.ledger.Sound b.jobs)
    (hcancels : ∀ jobId, b.cancels jobId = some true → s.backend.cancels jobId = some true) :
    (s.onBackend b).Accounted where
  keyed := hkeyed
  sound := hsound.settle
  current := Ledger.current_settle s.ledger b.jobs
  cancels jobId hset := h.cancels jobId (hcancels jobId hset)
  rung := h.rung
  loops l := (h.loops l).mono fun _ => id

theorem Accounted.moveTo (h : s.Accounted) {p : Phase}
    (hp : Telling s.ledger ((s.watch l).next (s.loops l) p) (s.late l) p) :
    (s.moveTo l p).Accounted where
  keyed := h.keyed
  sound := h.sound
  current := h.current
  cancels := h.cancels
  rung := h.rung
  loops l' := by
    by_cases hl : l' = l
    · subst hl
      simp only [Fleet.moveTo, Function.update_self]
      exact hp
    · simp only [Fleet.moveTo, Function.update_of_ne hl]
      exact h.loops l'

/-- A phase in which the loop neither runs nor decodes nor saves. -/
theorem Accounted.quiet (h : s.Accounted) {p : Phase} (hp : p.quiet = true) :
    (s.moveTo l p).Accounted := h.moveTo (.of_quiet hp)

/-! ## One step -/

theorem keyed_update {jobs : Table} (h : ∀ jobId r, jobs jobId = some r → r.id = jobId)
    {id : JobId} {x : Option Record} (hx : ∀ r, x = some r → r.id = id) :
    ∀ jobId r, Function.update jobs id x jobId = some r → r.id = jobId := by
  intro jobId r hr
  by_cases hid : jobId = id
  · subst hid
    rw [Function.update_self] at hr
    exact hx r hr
  · rw [Function.update_of_ne hid] at hr
    exact h jobId r hr

theorem keyed_modify {jobs : Table} (h : ∀ jobId r, jobs jobId = some r → r.id = jobId)
    {id : JobId} {f : Record → Record} (hf : ∀ r, r.id = id → (f r).id = id) :
    ∀ jobId r, jobs.modify id f jobId = some r → r.id = jobId := by
  refine keyed_update h fun r hr => ?_
  obtain ⟨old, hold, rfl⟩ := Option.map_eq_some_iff.mp hr
  exact hf old (h id old hold)

theorem Accounted.enqueue (h : s.Accounted) {record : Record}
    (hclean : record.requestCancel = false) :
    (s.onBackend (s.backend.enqueue record.id record)).Accounted := by
  refine h.onBackend ?_ ?_ ?_
  · rw [enqueue_table, TableOp.effect]
    cases s.backend.jobs record.id with
    | some r => exact h.keyed
    | none =>
      refine keyed_update h.keyed ?_
      rintro _ ⟨⟩
      rfl
  · rw [enqueue_table]
    exact h.sound.create h.current hclean
  · intro jobId hset
    cases hj : s.backend.jobs record.id with
    | some r =>
      rw [Backend.enqueue_of_some hj] at hset
      exact hset
    | none =>
      simp only [Backend.enqueue, hj] at hset
      by_cases hid : jobId = record.id
      · subst hid
        rw [Function.update_self] at hset
        cases hset
      · rw [Function.update_of_ne hid] at hset
        exact hset

theorem Accounted.collect (h : s.Accounted) (jobId : JobId) :
    (s.onBackend (s.backend.collect jobId).1).Accounted := by
  refine h.onBackend ?_ (h.sound.free jobId) ?_
  · exact keyed_update h.keyed fun r hr => by cases hr
  · intro id hset
    simp only [Backend.collect] at hset
    by_cases hid : id = jobId
    · subst hid
      rw [Function.update_self] at hset
      cases hset
    · rw [Function.update_of_ne hid] at hset
      exact hset

theorem Accounted.release (h : s.Accounted) (jobId : JobId) :
    (s.onBackend ((s.backend.release jobId).getD s.backend)).Accounted := by
  refine h.onBackend ?_ ?_ ?_
  · rw [release_table, TableOp.effect]
    refine keyed_modify h.keyed fun r hr => ?_
    split
    · exact hr
    · exact hr
  · rw [release_table]
    exact h.sound.requeue jobId
  · intro id hset
    cases hj : s.backend.jobs jobId with
    | none =>
      simp only [Backend.release, hj, Option.getD_none] at hset
      exact hset
    | some r =>
      by_cases hs : r.status = .running
      · simp only [Backend.release, hj, if_pos hs, Option.getD_some] at hset
        exact hset
      · simp only [Backend.release, hj, if_neg hs, Option.getD_some] at hset
        exact hset

theorem Accounted.requestCancel (h : s.Accounted) (jobId : JobId) :
    Accounted { s with
      backend := s.backend.requestCancel jobId
      rung := s.ring jobId
      ledger := (s.ledger.request s.backend.jobs jobId).settle
        (s.backend.requestCancel jobId).jobs } := by
  have hgrows : ∀ id, s.ledger.accepted id = true →
      (s.ledger.request s.backend.jobs jobId).accepted id = true :=
    fun id => Ledger.accepted_request s.ledger s.backend.jobs jobId
  have haccepted : Table.Unfinished s.backend.jobs jobId →
      (s.ledger.request s.backend.jobs jobId).accepted jobId = true := by
    intro hopen
    simp [Ledger.request, if_pos hopen]
  constructor
  · show ∀ id r, (s.backend.requestCancel jobId).jobs id = some r → r.id = id
    rw [requestCancel_table, TableOp.effect]
    refine keyed_modify h.keyed fun r hr => ?_
    split
    · exact hr
    · exact hr
  · refine Ledger.Sound.settle ?_
    show (s.ledger.request s.backend.jobs jobId).Sound (s.backend.requestCancel jobId).jobs
    rw [requestCancel_table]
    exact h.sound.flag jobId
  · exact Ledger.current_settle _ _
  · intro id hset
    cases hj : s.backend.jobs jobId with
    | none =>
      simp only [Backend.requestCancel, hj] at hset
      exact hgrows id (h.cancels id hset)
    | some r =>
      cases ht : r.status.terminal with
      | true =>
        simp only [Backend.requestCancel, hj, ht, if_true] at hset
        exact hgrows id (h.cancels id hset)
      | false =>
        by_cases hid : id = jobId
        · subst hid
          exact haccepted ⟨r, hj, ht⟩
        · simp only [Backend.requestCancel, hj, ht, Bool.false_eq_true, if_false,
            Function.update_of_ne hid] at hset
          exact hgrows id (h.cancels id hset)
  · intro id n hset
    simp only [ring] at hset
    split at hset
    · rename_i hopen
      by_cases hid : id = jobId
      · subst hid
        exact haccepted hopen.1
      · rw [Function.update_of_ne hid] at hset
        exact hgrows id (h.rung id n hset)
    · exact hgrows id (h.rung id n hset)
  · exact fun l => (h.loops l).mono hgrows

/-- A claim takes the head of the queue; a late one finds the flag set. -/
theorem Accounted.claim (h : s.Accounted) (hs : s.claim l = some s')
    (hheld : s.flagHeld (.claim l) = true) : s'.Accounted := by
  cases hq : s.backend.queue with
  | nil => simp [Fleet.claim, Backend.claim, hq] at hs
  | cons id rest =>
    cases hj : s.backend.jobs id with
    | none =>
      have hclaim : s.backend.claim = some ({ s.backend with queue := rest }, none) := by
        simp only [Backend.claim, hq, hj]
      simp only [Fleet.claim, hq, hclaim, Option.some.injEq] at hs
      subst hs
      exact h.onBackend h.keyed h.sound fun _ hset => hset
    | some r =>
      have hclaim : s.backend.claim = some
          ({ s.backend with queue := rest }.put id (Redis.claimed r), some (Redis.claimed r)) := by
        simp only [Backend.claim, hq, hj]
        rfl
      simp only [Fleet.claim, hq, hclaim, Option.some.injEq] at hs
      subst hs
      have hid : r.id = id := h.keyed id r hj
      have hflag : r.status.terminal = true → s.ledger.doomed id = true →
          r.requestCancel = true := by
        intro ht hdoomed
        simpa [flagHeld, hq, hj, ht, hdoomed] using hheld
      have hafter :
          (s.onBackend ({ s.backend with queue := rest }.put id (Redis.claimed r))).Accounted := by
        refine h.onBackend ?_ ?_ fun _ hset => hset
        · exact keyed_update h.keyed fun r' hr' => by
            cases hr'
            exact hid
        · have heffect : ({ s.backend with queue := rest }.put id (Redis.claimed r)).jobs
              = (TableOp.claim id).effect s.backend.jobs := by
            rw [TableOp.effect, Table.modify_of_some hj]
            rfl
          rw [heffect]
          refine h.sound.claim fun r' hr' ht hdoomed => ?_
          cases hj.symm.trans hr'
          exact hflag ht hdoomed
      refine ⟨hafter.keyed, hafter.sound, hafter.current, hafter.cancels, hafter.rung, ?_⟩
      intro l'
      by_cases hl : l' = l
      · subst hl
        simp only [Fleet.moveTo, Function.update_self]
        refine Telling.decoding ?_ ?_
        · intro hset
          show s.ledger.accepted r.id = true
          rw [hid]
          exact h.sound.honest id r hj hset
        · intro hdoomed
          rcases h.sound.held id r hdoomed hj with hset | hdone
          · exact hset
          · exact hflag hdone hdoomed
      · simp only [Fleet.moveTo, Function.update_of_ne hl]
        exact hafter.loops l'

theorem Accounted.save (h : s.Accounted) {write : Finished} {attempt : Attempt} {acked : Bool}
    (hl : s.loops l = .saving write attempt acked) {b : Backend}
    (hb : s.backend.save write.record.id write.record true = some b) :
    (s.onBackend b).Accounted := by
  have hjobs : b.jobs = (TableOp.write write).effect s.backend.jobs := by
    have htable := save_table s.backend write
    rwa [hb, Option.getD_some] at htable
  refine h.onBackend ?_ ?_ ?_
  · rw [hjobs, TableOp.effect]
    exact keyed_modify h.keyed fun _ _ => rfl
  · rw [hjobs]
    exact h.sound.write fun hset => (h.loops l).writing write attempt acked hl (Or.inr hset)
  · intro id hset
    cases hj : s.backend.jobs write.record.id with
    | none => simp [Backend.save, hj] at hb
    | some r =>
      simp only [Backend.save, hj, if_true, Option.some.injEq] at hb
      subst hb
      simp only [Backend.put] at hset
      by_cases hid : id = write.record.id
      · subst hid
        rw [Function.update_self] at hset
        cases hset
      · rw [Function.update_of_ne hid] at hset
        exact hset

/-- A watcher goes on. -/
theorem Accounted.watcher (h : s.Accounted) {w : Watch} {event : LoopIndex → Nat} {r : Record}
    (hl : s.loops l = .running r)
    (hw : w = .returned → s.ledger.accepted r.id = true) :
    Accounted { s with watch := Function.update s.watch l w, event := event } := by
  refine ⟨h.keyed, h.sound, h.current, h.cancels, h.rung, fun l' => ?_⟩
  by_cases hll : l' = l
  · subst hll
    simp only [Function.update_self]
    refine (h.loops l').watch fun hreturned => Or.inr fun r' hr' => ?_
    cases hl.symm.trans hr'
    exact hw hreturned
  · simp only [Function.update_of_ne hll]
    exact h.loops l'

theorem Accounted.step {e : FleetEvent} (h : s.Accounted) (hs : s.step config e = some s')
    (hheld : s.flagHeld e = true) : s'.Accounted := by
  cases e with
  | enqueue record =>
    simp only [Fleet.step, Option.ite_none_left_eq_some, Option.some.injEq] at hs
    obtain ⟨hclean, rfl⟩ := hs
    exact h.enqueue (Bool.eq_false_iff.mpr hclean)
  | requestCancel jobId =>
    cases hs
    exact h.requestCancel jobId
  | collect jobId =>
    cases hs
    exact h.collect jobId
  | claim l =>
    simp only [Fleet.step, Option.ite_none_right_eq_some] at hs
    exact h.claim hs.2 hheld
  | move l m =>
    simp only [Fleet.step, Option.ite_none_right_eq_some, Option.map_eq_some_iff] at hs
    obtain ⟨⟨-, hadm⟩, p, hp, rfl⟩ := hs
    exact h.moveTo ((h.loops l).move hadm hp)
  | save l =>
    simp only [Fleet.step] at hs
    split at hs
    · rename_i write attempt acked hl
      have htelling : Telling s.ledger (s.watch l) (s.late l) (.saving write attempt acked) :=
        hl ▸ h.loops l
      split at hs
      · rename_i b hb
        cases hs
        refine (h.save hl hb).moveTo ?_
        exact (Telling.saveDone write attempt).mono fun _ => id
      · cases hs
        refine h.moveTo ?_
        have hnext := htelling.saveFailed acked (some (Phase.notFoundText write.record.id))
        have hrun : ∀ r,
            Phase.saveFailed write acked (some (Phase.notFoundText write.record.id)) attempt
              = .running r → s.loops l = .running r := by
          intro r hr
          cases attempt <;> cases hr
        rw [Watch.next_of_ne _ hrun]
        exact hnext
    · cases hs
  | release l =>
    simp only [Fleet.step] at hs
    split at hs
    · rename_i jobId acked hl
      cases hs
      exact (h.release jobId).quiet rfl
    · cases hs
  | join l =>
    simp only [Fleet.step] at hs
    split at hs
    · rename_i r hl hw
      cases hs
      refine h.watcher hl fun hreturned => h.cancels r.id ?_
      cases hc : s.backend.cancels r.id with
      | none => simp [hc, Watch.read] at hreturned
      | some flag =>
        cases flag with
        | true => rfl
        | false => simp [hc, Watch.read] at hreturned
    · cases hs
  | wake l =>
    simp only [Fleet.step] at hs
    split at hs
    · rename_i r hl hw
      simp only [Option.ite_none_right_eq_some, Option.some.injEq] at hs
      obtain ⟨hrung, rfl⟩ := hs
      have hout : Accounted
          { s with watch := Function.update s.watch l .returned, event := s.event } :=
        h.watcher hl fun _ => h.rung r.id (s.event l) hrung
      exact hout
    · cases hs

/-- In memory, cancellation is exact under the same condition. -/
theorem exact_along (config : LoopIndex → PoolConfig) {es : List FleetEvent}
    (h : (machine config).Along (fun s e _ => s.flagHeld e = true)
      (machine config).init es) :
    (machine config).Along (fun _ _ s' => Exact s'.loops s'.late s'.ledger)
      (machine config).init es := by
  refine Machine.along_of_invariant (J := Accounted) (C := fun s e => s.flagHeld e = true) ?_
    (accounted_init config) h
  intro s e s' hs hheld hstep
  have hs' : s'.Accounted := hs.step hstep hheld
  exact ⟨exact_of_telling hs'.loops, hs'⟩

end Fleet

end TaskQueue.Memory

/-! ## Both backends -/

namespace TaskQueue

open Worker

/-- **Cancellation is exact on both backends** in every run in which a claim that finds a
finished record whose cancellation was accepted finds its flag set: a worker writes
CANCELLED only for a job with an accepted request, and a delivery that was claimed after
an accepted request for its record starts no body and writes CANCELLED. -/
theorem exactCancellation_along (d : Deployment) (es : List WatchedEvent)
    (config : Memory.LoopIndex → PoolConfig) (fs : List Memory.FleetEvent)
    (hredis : (Watched.machine d).Along (fun s e _ => s.flagHeld e = true)
      (Watched.machine d).init es)
    (hmemory : (Memory.Fleet.machine config).Along (fun s e _ => s.flagHeld e = true)
      (Memory.Fleet.machine config).init fs) :
    (Watched.machine d).Along (fun _ _ s' => Exact s'.fleet.loops s'.late s'.ledger)
        (Watched.machine d).init es ∧
      (Memory.Fleet.machine config).Along
        (fun _ _ s' => Exact s'.loops s'.late s'.ledger)
        (Memory.Fleet.machine config).init fs :=
  ⟨Watched.exact_along d hredis, Memory.Fleet.exact_along config hmemory⟩

/-- The job is cancelled before a worker claims it, and saved as CANCELLED. -/
def cancelledEarly : List WatchedEvent :=
  ([.enqueue Fleet.job, .start ⟨"a", 0⟩ 0, .requestCancel "j"] ++ Fleet.claims Fleet.loopA ++
    [.roundTrip Fleet.loopA .reply] : List Worker.Event).map .fleet

/-- The same in memory. -/
def Memory.cancelledEarly : List Memory.FleetEvent :=
  [.enqueue Fleet.job, .requestCancel "j", .claim 0, .move 0 (.decode []), .save 0]

theorem exactCancellation_cancelledEarly :
    (Watched.machine Fleet.solo).Along
        (fun _ _ s' => Exact s'.fleet.loops s'.late s'.ledger)
        (Watched.machine Fleet.solo).init cancelledEarly ∧
      (Memory.Fleet.machine fun _ => Fleet.anyTask).Along
        (fun _ _ s' => Exact s'.loops s'.late s'.ledger)
        (Memory.Fleet.machine fun _ => Fleet.anyTask).init Memory.cancelledEarly :=
  exactCancellation_along Fleet.solo cancelledEarly (fun _ => Fleet.anyTask) Memory.cancelledEarly
    (by decide) (by decide)

/-- Worker `a` saves the job and waits for its watcher to unwind; the result is taken, the
id is enqueued again and worker `b` claims it. The loop of `a` is cancelled now and its
release puts the job of `b` back to the queue. A cancellation is accepted; then `b` saves
its result, with the flag it had read. -/
def cancelOverwritten : List WatchedEvent :=
  ([.enqueue Fleet.job, .start ⟨"a", 0⟩ 0, .start ⟨"b", 0⟩ 0] ++ Fleet.claims Fleet.loopA ++
    [.move Fleet.loopA (.finish [] (.completed [1])), .roundTrip Fleet.loopA .reply,
      .take 0 "j", .check 0, .fetch 0, .enqueue Fleet.job] ++ Fleet.claims Fleet.loopB ++
    [.move Fleet.loopA .cancel, .roundTrip Fleet.loopA .reply, .requestCancel "j",
      .move Fleet.loopB (.finish [] (.completed [1])), .roundTrip Fleet.loopB .reply,
      .move Fleet.loopB .unwound] ++ Fleet.leases Fleet.loopB ++
    [.roundTrip Fleet.loopB .reply] : List Worker.Event).map .fleet

/-- The same in memory. -/
def Memory.cancelOverwritten : List Memory.FleetEvent :=
  [.enqueue Fleet.job, .claim 0, .move 0 (.decode []),
    .move 0 (.finish [] (.completed [1])), .save 0, .collect "j", .enqueue Fleet.job, .claim 1,
    .move 1 (.decode []), .move 0 .cancel, .release 0, .requestCancel "j",
    .move 1 (.finish [] (.completed [1])), .save 1, .move 1 .unwound, .claim 1]

/-- The next claim finds the finished record with its flag clear, and the body of the
cancelled job is started. -/
theorem cancelOverwritten_starts :
    ¬ (Watched.machine Fleet.solo).Along
        (fun _ _ s' => Exact s'.fleet.loops s'.late s'.ledger)
        (Watched.machine Fleet.solo).init
        (cancelOverwritten ++ [.fleet (.move Fleet.loopB (.decode []))]) ∧
      ¬ (Memory.Fleet.machine fun _ => Fleet.anyTask).Along
        (fun _ _ s' => Exact s'.loops s'.late s'.ledger)
        (Memory.Fleet.machine fun _ => Fleet.anyTask).init
        (Memory.cancelOverwritten ++ [.move 1 (.decode [])]) := by
  constructor
  · intro h
    exact (h.last rfl rfl).stopped Fleet.loopB rfl _ rfl
  · intro h
    exact (h.last rfl rfl).stopped 1 rfl _ rfl

end TaskQueue
