import TaskQueue.DeliveryCount
import TaskQueue.Worker.Delivery

/-!
# `attempts` over a fleet of workers

The runs are those of `Worker.Delivery`: every round trip is answered and only
crashed workers are reaped, and producers submit new jobs (`submitted`). A counted
fleet carries the `tally` of the claim scripts that the server executed.

While every job is in custody and every live loop holds the lease of the job it
delivers (`InOrder`), nobody else claims that job, so what the loop read from its
claim keeps the counter that is stored, and its save writes that counter back.
-/

namespace TaskQueue.Worker

open Redis

namespace Phase

/-- What the loop read from its claim and has not settled yet. -/
def snapshot : Phase → Option Record
  | .decoding record | .running record => some record
  | .saving write _ false => some write.record
  | _ => none

/-- A loop with a snapshot delivers the job, which is RUNNING. -/
theorem delivery_of_snapshot {p : Phase} {r : Record} (h : p.snapshot = some r) :
    p.delivery = some r.id ∧ p.expects = .running := by
  cases p with
  | decoding record =>
    cases h
    exact ⟨rfl, rfl⟩
  | running record =>
    cases h
    exact ⟨rfl, rfl⟩
  | saving write attempt acked =>
    cases acked with
    | false =>
      cases h
      exact ⟨rfl, rfl⟩
    | true => cases h
  | _ => cases h

/-- A move between two requests keeps the job and the counter of the snapshot. -/
theorem move_snapshot {c : PoolConfig} {m : Move} {p p' : Phase} {r' : Record}
    (h : p.move c m = some p') (hr' : p'.snapshot = some r') :
    ∃ r, p.snapshot = some r ∧ r.id = r'.id ∧ r.attempts = r'.attempts := by
  cases p with
  | decoding record =>
    refine ⟨record, rfl, ?_⟩
    rcases move_decoding h with ⟨rfl, -⟩ | ⟨payload, o, rfl⟩ | rfl
    · cases hr'
      exact ⟨rfl, rfl⟩
    · cases hr'
      exact ⟨(Record.settle_id ..).symm, (Record.settle_attempts ..).symm⟩
    · cases hr'
  | running record =>
    refine ⟨record, rfl, ?_⟩
    cases m with
    | finish payload o =>
      cases h
      cases hr'
      exact ⟨(Record.settle_id ..).symm, (Record.settle_attempts ..).symm⟩
    | unsendable | fatal | cancel =>
      cases h
      cases hr'
    | _ => cases h
  | idle => cases m <;> cases h <;> cases hr'
  | unwinding jobId acked => cases m <;> cases h <;> cases hr'
  | dying jobId => cases m <;> cases h <;> cases hr'
  | _ => cases m <;> cases h

/-- A snapshot after a reply is the record that a claim returned, or it was there before. -/
theorem resume_snapshot {p : Phase} {reply : Reply} {r : Record}
    (h : (p.resume .reply reply).snapshot = some r) :
    (∃ jobId, p = .claiming jobId) ∨
      ∃ r₁, p.snapshot = some r₁ ∧ r₁.id = r.id ∧ r₁.attempts = r.attempts := by
  cases p with
  | claiming jobId => exact Or.inl ⟨jobId, rfl⟩
  | polling => cases reply <;> cases h
  | saving write attempt acked =>
    right
    by_cases hcode : reply = .code 1
    · simp only [resume, hcode, if_true] at h
      cases attempt <;> cases h
    · -- the save found no record: a FAILED save of the same snapshot follows
      simp only [resume, hcode, if_false, decide_false, Bool.and_false, Bool.or_false] at h
      cases attempt with
      | first =>
        cases acked with
        | false =>
          cases h
          exact ⟨write.record, rfl, (Finished.fallback_id ..).symm,
            (Record.settle_attempts ..).symm⟩
        | true => cases h
      | _ => cases h
  | decoding record => exact Or.inr ⟨record, rfl, by cases h; exact ⟨rfl, rfl⟩⟩
  | running record => exact Or.inr ⟨record, rfl, by cases h; exact ⟨rfl, rfl⟩⟩
  | _ => cases h

end Phase

/-! ## Requests -/

/-- The tally after a request. -/
def tallyRequest (t : Table) (n : JobId → Nat) : Option Request → JobId → Nat
  | some (.enqueue record) => tally t n (.create record)
  | some (.claim jobId) => tally t n (.claim jobId)
  | _ => n

/-- A request is counted, if a new record starts at 0 and a save carries the counter it
overwrites. -/
theorem counted_request {st : Store} {n : JobId → Nat} (q : Request)
    (hnew : ∀ record, q = .enqueue record → record.attempts = 0)
    (hsave : ∀ worker write ttl r, q = .save worker write ttl →
      st.table write.record.id = some r → r.attempts = write.record.attempts)
    (jobId : JobId) :
    Counted (q = .claim jobId) (st.table jobId) (n jobId) ((q.after st).table jobId)
      (tallyRequest st.table n (some q) jobId) := by
  -- what is left of `recordStep` when the request neither enqueues nor claims
  have hother : (∀ record, q ≠ .enqueue record) → (∀ id, q ≠ .claim id) →
      Counted (q = .claim jobId) (st.table jobId) (n jobId) ((q.after st).table jobId)
        (n jobId) := by
    intro henqueue hclaim
    refine .kept _ _ _ fun r' hr' => ?_
    obtain ⟨e', he', rfl⟩ := Option.map_eq_some_iff.mp hr'
    have hstep := q.recordStep st jobId
    rw [he'] at hstep
    simp only [Store.table]
    generalize hx : st.jobs jobId = x at hstep
    cases hstep with
    | same => exact ⟨e'.record, rfl, rfl⟩
    | created record hq hid => exact absurd hq (henqueue record)
    | claimed e hq => exact absurd hq (hclaim jobId)
    | saved worker write ttl e hq hid =>
      subst hid
      refine ⟨e.record, rfl, (hsave worker write ttl e.record hq ?_).symm⟩
      rw [Store.table, hx, Option.map_some]
    | requeued e hq hs => exact ⟨e.record, rfl, rfl⟩
    | flagged e hq ht => exact ⟨e.record, rfl, rfl⟩
  cases q with
  | enqueue record =>
    rw [enqueue_table]
    refine Counted.imp (by simp) ((TableOp.create record).counted ?_ (by simp) jobId)
    rintro _ ⟨⟩
    exact hnew record rfl
  | claim id =>
    rw [claim_table]
    exact Counted.imp (by simp) ((TableOp.claim id).counted (by simp) (by simp) jobId)
  | _ => exact hother (by simp) (by simp)

namespace Fleet

variable (d : Deployment)

/-! ## The counted fleet -/

/-- Producers submit new jobs. -/
def submitted : Event → Bool
  | .enqueue record => record.attempts = 0
  | _ => true

/-- A fleet and the claim scripts executed for each job since it was enqueued. -/
structure Counting where
  fleet : Fleet
  deliveries : JobId → Nat

/-- A fleet, counted from the start. -/
def counting : Machine Counting Event where
  init := ⟨init, fun _ => 0⟩
  step s e := (s.fleet.step d e).map fun f =>
    ⟨f, tallyRequest s.fleet.store.table s.deliveries (s.fleet.request d e)⟩

/-- What a worker reads from a claim in the step from `s` to `s'`. -/
def readsClaim (s s' : Fleet) : Event → Option Record
  | .roundTrip l _ =>
    match s.loops l with
    | .claiming _ => (s'.loops l).snapshot
    | _ => none
  | _ => none

theorem readsClaim_of_claiming {s s' : Fleet} {l : LoopId} {o : Outcome} {jobId : JobId}
    (h : s.loops l = .claiming jobId) :
    readsClaim s s' (.roundTrip l o) = (s'.loops l).snapshot := by
  simp only [readsClaim, h]

/-- The snapshots of the loops that are up. -/
def snapshots (s : Fleet) (l : LoopId) : Option Record :=
  if s.crashed l.process then none else (s.loops l).snapshot

variable {d}

theorem snapshots_eq_some {s : Fleet} {l : LoopId} {r : Record} :
    s.snapshots l = some r ↔ s.crashed l.process = false ∧ (s.loops l).snapshot = some r := by
  unfold snapshots
  cases s.crashed l.process <;> simp

/-- A loop that is up saves the snapshot it has. -/
theorem saves_snapshot {s s' : Fleet} {e : Event} (h : InOrder s) (hs : s.step d e = some s')
    {worker : InstanceId} {write : Finished} {ttl : Nat}
    (hq : s.request d e = some (.save worker write ttl)) :
    ∃ l, s.snapshots l = some write.record := by
  obtain ⟨l, o, attempt, acked, rfl, hl⟩ := saving_of_request d hq
  cases stepOf d hs with
  | answered _ _ q hup _ _ =>
    refine ⟨l, snapshots_eq_some.mpr ⟨hup, ?_⟩⟩
    have hregular := h.regular l hup
    rw [hl] at hregular ⊢
    obtain rfl : acked = false := by simpa [Phase.regular] using hregular
    rfl
  | elsewhere _ _ _ hr => exact absurd rfl (hr l o)

/-- Every job is counted in every step. -/
theorem counted_step {s s' : Fleet} {e : Event} {n : JobId → Nat} (h : InOrder s)
    (ht : Tallied s.store.table n s.snapshots) (hs : s.step d e = some s')
    (hsubmitted : submitted e = true) (jobId : JobId) :
    Counted (s.request d e = some (.claim jobId)) (s.store.table jobId) (n jobId)
      (s'.store.table jobId) (tallyRequest s.store.table n (s.request d e) jobId) := by
  rw [step_store d hs]
  cases hq : s.request d e with
  | none => exact .same _ _
  | some q =>
    refine Counted.imp (by simp) (counted_request q ?_ ?_ jobId)
    · rintro record rfl
      obtain rfl := enqueue_of_request d hq
      simpa [submitted] using hsubmitted
    · rintro worker write ttl r rfl hr
      obtain ⟨l, hl⟩ := saves_snapshot h hs hq
      obtain ⟨r₀, hr₀, hattempts⟩ := ht.snapshots l _ hl
      rw [hr] at hr₀
      rwa [Option.some.inj hr₀]

/-- Nobody claims a job that a loop which is up has a snapshot of. -/
theorem not_claimed {s s' : Fleet} {e : Event} (h : InOrder s) (hs : s.step d e = some s')
    {l : LoopId} {r : Record} (hl : s.snapshots l = some r) :
    s.request d e ≠ some (.claim r.id) := by
  intro hq
  obtain ⟨hup, hsnap⟩ := snapshots_eq_some.mp hl
  obtain ⟨l', o, rfl, -, hclaiming⟩ := claiming_of_request d hq
  have hdelivery : (s.loops l').delivery = some r.id := by
    rw [hclaiming]
    rfl
  cases stepOf d hs with
  | answered _ _ q hup' _ _ =>
    have hne : l' ≠ l := by
      rintro rfl
      rw [hclaiming] at hsnap
      cases hsnap
    exact h.disjoint l' l r.id hup' hup hne hdelivery (Phase.delivery_of_snapshot hsnap).1
  | elsewhere _ _ _ hr => exact hr l' o rfl

/-- An answered claim hands its loop the record that it stored. -/
theorem claim_read {s s' : Fleet} {e : Event} {jobId : JobId} (h : InOrder s)
    (hs : s.step d e = some s') (hdead : deadStayDead d s e = true)
    (hq : s.request d e = some (.claim jobId)) :
    ∃ r, readsClaim s s' e = some r ∧ r.id = jobId ∧ s'.store.table jobId = some r := by
  obtain ⟨l, o, rfl, -, hclaiming⟩ := claiming_of_request d hq
  obtain rfl : o = .reply := by simpa [deadStayDead] using hdead
  cases stepOf d hs with
  | answered _ _ q hup hpending _ =>
    obtain ⟨-, entry, hentry, -⟩ := h.leased l jobId hup (by rw [hclaiming]; rfl)
    obtain rfl : Request.claim jobId = q := by
      rw [pending, hclaiming] at hpending
      exact Option.some.inj hpending
    refine ⟨claimed entry.record, ?_, h.keyed jobId entry hentry, ?_⟩
    · rw [readsClaim_of_claiming hclaiming]
      simp only [Function.update_self, hclaiming]
      simp only [Outcome.effect, if_true, serve, Request.exec, claimScript_of_some hentry]
      rfl
    · simp only [Outcome.effect, if_true, serve, Request.exec, claimScript_of_some hentry,
        Store.table, Store.put_jobs, Function.update_self, Option.map_some]
  | elsewhere _ _ _ hr => exact absurd rfl (hr l .reply)

/-- The answer to a claim is the answer to this request. -/
theorem request_of_claiming {s : Fleet} {l : LoopId} {jobId : JobId}
    (hclaiming : s.loops l = .claiming jobId) :
    s.request d (.roundTrip l .reply) = some (.claim jobId) := by
  simp only [request, Outcome.effect, if_true, pending, hclaiming, Phase.request]

/-- Every snapshot after a step is carried. -/
theorem carried_step {s s' : Fleet} {e : Event} (h : InOrder s) (h' : InOrder s')
    (hs : s.step d e = some s') (hdead : deadStayDead d s e = true) {l : LoopId} {r : Record}
    (hl : s'.snapshots l = some r) :
    Carried s'.store.table (fun jobId => s.request d e = some (.claim jobId)) (s.snapshots l)
      r := by
  obtain ⟨hup', hsnap'⟩ := snapshots_eq_some.mp hl
  have hstored : s'.store.table r.id ≠ none := by
    obtain ⟨-, entry, hentry, -⟩ := h'.leased l r.id hup' (Phase.delivery_of_snapshot hsnap').1
    simp [Store.table, hentry]
  have hold : ∀ r₁, s.snapshots l = some r₁ → r₁.id = r.id → r₁.attempts = r.attempts →
      Carried s'.store.table (fun jobId => s.request d e = some (.claim jobId))
        (s.snapshots l) r := by
    intro r₁ hr₁ hid hattempts
    exact Or.inr ⟨r₁, hr₁, hid, hattempts, hid ▸ not_claimed h hs hr₁, hstored⟩
  cases hstep : stepOf d hs with
  | moved l₀ m p hlive hadm hp =>
    by_cases hne : l = l₀
    · subst hne
      simp only [Function.update_self] at hsnap'
      obtain ⟨r₁, hr₁, hid, hattempts⟩ := Phase.move_snapshot hp hsnap'
      exact hold r₁ (snapshots_eq_some.mpr ⟨hup', hr₁⟩) hid hattempts
    · simp only [Function.update_of_ne hne] at hsnap'
      exact hold r (snapshots_eq_some.mpr ⟨hup', hsnap'⟩) rfl rfl
  | answered l₀ o q hup hq hend =>
    obtain rfl : o = .reply := by simpa [deadStayDead] using hdead
    by_cases hne : l = l₀
    · subst hne
      rcases Phase.resume_snapshot (by simpa using hsnap') with
        ⟨jobId, hclaiming⟩ | ⟨r₁, hr₁, hid, ha⟩
      · obtain ⟨r₀, hr₀, rfl, htable⟩ := claim_read h hs hdead (request_of_claiming hclaiming)
        rw [readsClaim_of_claiming hclaiming] at hr₀
        have hsame : r₀ = r := Option.some.inj (hr₀.symm.trans hsnap')
        exact Or.inl ⟨r₀, hsame ▸ htable, by rw [hsame]⟩
      · exact hold r₁ (snapshots_eq_some.mpr ⟨hup', hr₁⟩) hid ha
    · simp only [Function.update_of_ne hne] at hsnap'
      exact hold r (snapshots_eq_some.mpr ⟨hup', hsnap'⟩) rfl rfl
  | elsewhere _ _ hm hr hloops hstore hcrash =>
    have hup : s.crashed l.process = false := by
      cases hc : s.crashed l.process with
      | false => rfl
      | true =>
        rw [hcrash _ hc] at hup'
        cases hup'
    rw [hloops] at hsnap'
    exact hold r (snapshots_eq_some.mpr ⟨hup, hsnap'⟩) rfl rfl

/-! ## Whole runs -/

/-- Every job is in custody, and the counters are the tally. -/
structure InCount (s : Counting) : Prop where
  inOrder : InOrder s.fleet
  tallied : Tallied s.fleet.store.table s.deliveries s.fleet.snapshots

theorem InCount.step {s s' : Counting} {e : Event} (h : InCount s)
    (hs : (counting d).step s e = some s') (hdead : deadStayDead d s.fleet e = true)
    (hsubmitted : submitted e = true) (hsettled : settledOnly s.fleet e = true) :
    CountsDeliveries s.fleet.store.table s'.fleet.store.table s'.deliveries
        (readsClaim s.fleet s'.fleet e) ∧ InCount s' := by
  obtain ⟨f, hf, rfl⟩ := Option.map_eq_some_iff.mp hs
  have horder := h.inOrder.step d hf hdead hsettled
  have hcounted := counted_step h.inOrder h.tallied hf hsubmitted
  refine ⟨h.tallied.counts hcounted (fun r hr => ?_) (fun jobId hc _ => ?_), horder,
    h.tallied.step hcounted fun l r => carried_step h.inOrder horder hf hdead⟩
  · -- what is read from a claim is what the claim stored
    obtain ⟨jobId, hq⟩ : ∃ jobId, s.fleet.request d e = some (.claim jobId) := by
      cases e with
      | roundTrip l o =>
        obtain rfl : o = .reply := by simpa [deadStayDead] using hdead
        simp only [readsClaim] at hr
        cases hl : s.fleet.loops l with
        | claiming jobId =>
          exact ⟨jobId, by simp only [request, Outcome.effect, if_true, pending, hl, Phase.request]⟩
        | _ => rw [hl] at hr; cases hr
      | _ => cases hr
    obtain ⟨r₀, hr₀, rfl, htable⟩ := claim_read h.inOrder hf hdead hq
    cases hr.symm.trans hr₀
    exact htable
  · obtain ⟨r, hr, hid, -⟩ := claim_read h.inOrder hf hdead hc
    exact ⟨r, hr, hid⟩

theorem inCount_init : InCount (counting d).init where
  inOrder := inOrder_init
  tallied := tallied_empty

/-- **`attempts` counts deliveries, on Redis.** -/
theorem countsDeliveries_along_redis {es : List Event}
    (hdead : (counting d).Along (fun s e _ => deadStayDead d s.fleet e = true)
      (counting d).init es)
    (hsubmitted : (counting d).Along (fun _ e _ => submitted e = true) (counting d).init es)
    (hsettled : (counting d).Along (fun s e _ => settledOnly s.fleet e = true)
      (counting d).init es) :
    (counting d).Along (fun s e s' => CountsDeliveries s.fleet.store.table s'.fleet.store.table
      s'.deliveries (readsClaim s.fleet s'.fleet e)) (counting d).init es := by
  refine Machine.along_of_invariant (J := InCount)
    (C := fun s e => deadStayDead d s.fleet e = true ∧ submitted e = true ∧
      settledOnly s.fleet e = true) ?_ inCount_init (hdead.and (hsubmitted.and hsettled))
  rintro s e s' h ⟨hd, hsub, hset⟩ hs
  exact h.step hs hd hsub hset

end Fleet

end TaskQueue.Worker
