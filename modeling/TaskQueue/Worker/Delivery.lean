import TaskQueue.Redis.Custody
import TaskQueue.Worker.Fleet

/-!
# One delivery at a time, while dead workers stay dead

The runs of this module are those in which every round trip is answered and only
crashed workers are reaped (`deadStayDead`). In them a job is delivered to one
loop at a time, on two conditions that the code does not enforce (`settledOnly`):

- `take_result` checks the status in one round trip and runs its fetch-and-delete
  in another, and the record must still be finished (or gone) when the second
  arrives. The record can expire and the id be enqueued again in between.
- A loop that is cancelled after its terminal save, while it waits for the cancel
  watcher to unwind, releases the job it has already settled. The job must not be
  RUNNING again by then, under a later delivery of the same id.

`InOrder` is the invariant: every job is in custody, every live loop holds the
lease of the job it is delivering, and no two of them deliver the same job.
-/

namespace TaskQueue.Worker

open Redis Placement

namespace Phase

/-- The status that the record has while the loop delivers it. -/
def expects : Phase → JobStatus
  | .claiming _ => .queued
  | _ => .running

/-- The phases a loop goes through when every round trip is answered and finds
the job in custody. -/
def regular : Phase → Bool
  | .returning _ | .discarding _ => false
  | .saving _ _ acked => !acked
  | _ => true

theorem expects_unfinished (p : Phase) : p.expects.terminal = false := by
  cases p <;> rfl

/-- A move between two requests keeps the delivery, or ends it. -/
theorem move_delivery {c : PoolConfig} {m : Move} {p p' : Phase} (h : p.move c m = some p') :
    p'.regular = true ∧
      (p'.delivery = none ∨ p'.delivery = p.delivery ∧ p'.expects = p.expects) := by
  cases p with
  | idle => cases m <;> simp [move] at h <;> subst h <;> exact ⟨rfl, Or.inl rfl⟩
  | decoding record =>
    rcases move_decoding h with ⟨rfl, -⟩ | ⟨payload, o, rfl⟩ | rfl
    · exact ⟨rfl, Or.inr ⟨rfl, rfl⟩⟩
    · exact ⟨rfl, Or.inr ⟨by simp [delivery, acked, handles], rfl⟩⟩
    · exact ⟨rfl, Or.inl rfl⟩
  | running record =>
    cases m with
    | finish payload o =>
      cases h
      exact ⟨rfl, Or.inr ⟨by simp [delivery, acked, handles], rfl⟩⟩
    | unsendable | fatal | cancel =>
      cases h
      exact ⟨rfl, Or.inr ⟨rfl, rfl⟩⟩
    | _ => cases h
  | unwinding jobId acked =>
    cases m with
    | unwound =>
      cases h
      exact ⟨rfl, Or.inl rfl⟩
    | cancel =>
      cases h
      cases acked with
      | true => exact ⟨rfl, Or.inl rfl⟩
      | false => exact ⟨rfl, Or.inr ⟨rfl, rfl⟩⟩
    | _ => cases h
  | dying jobId =>
    cases m with
    | unwound =>
      cases h
      exact ⟨rfl, Or.inl rfl⟩
    | cancel =>
      cases h
      exact ⟨rfl, Or.inr ⟨rfl, rfl⟩⟩
    | _ => cases h
  | _ => cases m <;> cases h

end Phase

namespace Fleet

variable (d : Deployment)

/-! ## The runs and the conditions -/

/-- Every round trip is answered, and a reap drains only crashed workers' lists. -/
def deadStayDead (s : Fleet) : Event → Bool
  | .roundTrip _ o => o = .reply
  | .reap worker now => (expired s.store now (d.ttls worker).workerTtl).all s.crashed
  | _ => true

/-- A fetch-and-delete finds the record finished or gone, and a release by a loop
that has saved its job does not find the job RUNNING. -/
def settledOnly (s : Fleet) : Event → Bool
  | .fetch c =>
    match s.calls c with
    | .fetching jobId => (s.store.jobs jobId).all fun e => e.record.status.terminal
    | _ => true
  | .roundTrip l _ =>
    match s.loops l with
    | .releasing jobId true =>
      (s.store.jobs jobId).all fun e => e.record.status ≠ .running
    | _ => true
  | _ => true

/-- What is promised of every state. -/
structure OneDelivery (s : Fleet) : Prop where
  /-- an unfinished job is on one list, once -/
  unfinished : ∀ jobId e, s.store.jobs jobId = some e → e.record.status.terminal = false →
    ∃ p, OnceAt s.store.lists jobId p
  /-- a job that is finished or gone is on no list -/
  settled : ∀ jobId, (∀ e, s.store.jobs jobId = some e → e.record.status.terminal = true) →
    Nowhere s.store.lists jobId
  /-- a RUNNING job is on a processing list -/
  running : ∀ jobId e, s.store.jobs jobId = some e → e.record.status = .running →
    ∃ worker, jobId ∈ s.store.lists (.processing worker)
  /-- a queued id has a QUEUED record -/
  queued : ∀ jobId ∈ s.store.lists .queue,
    ∃ e, s.store.jobs jobId = some e ∧ e.record.status = .queued
  /-- no two loops of live processes deliver the same job -/
  disjoint : ∀ l l' jobId, s.crashed l.process = false → s.crashed l'.process = false →
    l ≠ l' → (s.loops l).delivery = some jobId → (s.loops l').delivery ≠ some jobId

/-! ## The invariant -/

/-- Every job is in custody, and every live loop holds what it delivers. -/
structure InOrder (s : Fleet) : Prop where
  custody : InCustody s.store
  keyed : s.store.Keyed
  regular : ∀ l, s.crashed l.process = false → (s.loops l).regular = true
  leased : ∀ l jobId, s.crashed l.process = false → (s.loops l).delivery = some jobId →
    Leased s.store l.process jobId (s.loops l).expects
  disjoint : ∀ l l' jobId, s.crashed l.process = false → s.crashed l'.process = false →
    l ≠ l' → (s.loops l).delivery = some jobId → (s.loops l').delivery ≠ some jobId

theorem inOrder_init : InOrder init where
  custody := inCustody_empty
  keyed := Store.keyed_empty
  regular _ _ := rfl
  leased _ _ _ h := by cases h
  disjoint _ _ _ _ _ _ h := by cases h

theorem InOrder.oneDelivery {s : Fleet} (h : InOrder s) : OneDelivery s where
  unfinished jobId e he ht := (he ▸ h.custody jobId).onceAt ht
  settled jobId hs := (h.custody jobId).nowhere hs
  running jobId e he hs := by
    obtain ⟨worker, honce⟩ := (he ▸ h.custody jobId).processing hs
    exact ⟨worker, occ_pos_iff.mp (by rw [honce.1]; exact Nat.one_pos)⟩
  queued jobId hmem := by
    obtain ⟨-, e, he, -, hs | ⟨-, worker, hp⟩⟩ := (h.custody jobId).of_mem hmem
    · exact ⟨e, he, hs⟩
    · cases hp
  disjoint := h.disjoint

/-- A live loop's lease survives a request in order that does not end it. -/
theorem InOrder.leased_after {s : Fleet} (h : InOrder s) {q : Request}
    (hq : q.Orderly s.store) {l : LoopId} {jobId : JobId}
    (hup : s.crashed l.process = false) (hdel : (s.loops l).delivery = some jobId)
    (hends : ¬ q.Ends s.store l.process jobId) :
    Leased (q.after s.store) l.process jobId (s.loops l).expects :=
  q.leased h.custody hq (h.leased l jobId hup hdel) (Phase.expects_unfinished _) hends

/-- To move loop `l` on is to account for its own delivery and for the leases of
the other loops. -/
theorem InOrder.update {s : Fleet} (h : InOrder s) {l : LoopId} {p : Phase} {st : Store}
    (hcustody : InCustody st) (hkeyed : st.Keyed) (hreg : p.regular = true)
    (hothers : ∀ l' jobId, l' ≠ l → s.crashed l'.process = false →
      (s.loops l').delivery = some jobId → Leased st l'.process jobId (s.loops l').expects)
    (hself : ∀ jobId, p.delivery = some jobId → Leased st l.process jobId p.expects ∧
      ∀ l', l' ≠ l → s.crashed l'.process = false → (s.loops l').delivery ≠ some jobId) :
    InOrder { s with store := st, loops := Function.update s.loops l p } where
  custody := hcustody
  keyed := hkeyed
  regular l' hup := by
    by_cases hl : l' = l
    · subst hl
      simpa using hreg
    · simpa [Function.update_of_ne hl] using h.regular l' hup
  leased l' jobId hup hdel := by
    by_cases hl : l' = l
    · subst hl
      simp only [Function.update_self] at hdel ⊢
      exact (hself jobId hdel).1
    · simp only [Function.update_of_ne hl] at hdel ⊢
      exact hothers l' jobId hl hup hdel
  disjoint l₁ l₂ jobId hup₁ hup₂ hne hdel := by
    by_cases h₁ : l₁ = l
    · subst h₁
      simp only [Function.update_self] at hdel
      simpa only [Function.update_of_ne (Ne.symm hne)] using
        (hself jobId hdel).2 l₂ (Ne.symm hne) hup₂
    · simp only [Function.update_of_ne h₁] at hdel
      by_cases h₂ : l₂ = l
      · subst h₂
        simp only [Function.update_self]
        exact fun hdel₂ => (hself jobId hdel₂).2 l₁ h₁ hup₁ hdel
      · simp only [Function.update_of_ne h₂]
        exact h.disjoint l₁ l₂ jobId hup₁ hup₂ hne hdel

/-! ## One step -/

theorem InOrder.moved {s : Fleet} (h : InOrder s) {l : LoopId} {m : Move} {p : Phase}
    (hlive : s.Live d l) (hp : (s.loops l).move (d.config l.pool) m = some p) :
    InOrder { s with loops := Function.update s.loops l p } := by
  obtain ⟨hreg, hdel⟩ := Phase.move_delivery hp
  refine h.update h.custody h.keyed hreg (fun l' jobId _ hup hd => h.leased l' jobId hup hd) ?_
  intro jobId hd
  rcases hdel with hnone | ⟨hsame, hexp⟩
  · rw [hnone] at hd
    cases hd
  · rw [hsame] at hd
    rw [hexp]
    exact ⟨h.leased l jobId hlive.1 hd, fun l' hne hup =>
      h.disjoint l l' jobId hlive.1 hup (Ne.symm hne) hd⟩

/-- A loop that ends its delivery of `id` with request `q` leaves the others'
leases alone. -/
theorem InOrder.settle {s : Fleet} (h : InOrder s) {l : LoopId} {p : Phase} {q : Request}
    {id : JobId} (hup : s.crashed l.process = false) (hdel : (s.loops l).delivery = some id)
    (hq : q.Orderly s.store) (hends : ∀ worker jobId, q.Ends s.store worker jobId → id = jobId)
    (hreg : p.regular = true) (hnone : p.delivery = none) :
    InOrder { s with store := q.after s.store, loops := Function.update s.loops l p } := by
  refine h.update (q.inCustody h.custody hq) (q.keyed h.keyed) hreg ?_ ?_
  · intro l' jobId hne hup' hdel'
    refine h.leased_after hq hup' hdel' fun he => ?_
    exact h.disjoint l l' id hup hup' (Ne.symm hne) hdel (hends _ _ he ▸ hdel')
  · intro jobId hd
    rw [hnone] at hd
    cases hd

theorem InOrder.answered {s : Fleet} (h : InOrder s) {l : LoopId} {q : Request}
    (hup : s.crashed l.process = false) (hq : s.pending d l = some q)
    (hsettled : settledOnly s (.roundTrip l .reply) = true) :
    InOrder { s with
      store := q.after s.store
      loops := Function.update s.loops l
        ((s.loops l).resume .reply (q.exec s.store).2) } := by
  have hreg := h.regular l hup
  have hleased := fun jobId => h.leased l jobId hup
  rw [pending] at hq
  cases hp : s.loops l with
  | polling =>
    rw [hp] at hq
    cases hq
    refine h.update ((Request.blmove _).inCustody h.custody trivial)
      ((Request.blmove _).keyed h.keyed) ?_ ?_ ?_
    · cases ((Request.blmove l.process).exec s.store).2 <;> rfl
    · exact fun l' jobId _ hup' hdel' =>
        h.leased_after (q := .blmove l.process) trivial hup' hdel' id
    · intro jobId hdel
      cases hl : s.store.lists .queue with
      | nil =>
        simp only [Request.exec, blmove_nil hl] at hdel
        cases hdel
      | cons id rest =>
        simp only [Request.exec, blmove_cons hl] at hdel ⊢
        obtain rfl : id = jobId := Option.some.inj hdel
        obtain ⟨honce, e, he, -, hs | ⟨-, worker, hw⟩⟩ :=
          (h.custody id).of_mem (hl ▸ List.mem_cons_self ..)
        · refine ⟨⟨?_, e, ?_, hs⟩, fun l' _ hup' hdel' => ?_⟩
          · rw [after_blmove_cons hl, Store.rpush_lists, ← occ_pos_iff, occ_push_self]
            exact Nat.succ_pos _
          · rw [after_blmove_cons hl]
            exact he
          · -- the other loops' deliveries are on processing lists
            have hmem := (h.leased l' id hup' hdel').1
            have := honce.eq_of_occ_pos (occ_pos_iff.mpr hmem)
            cases this
        · cases hw
  | claiming id =>
    rw [hp] at hq hleased
    cases hq
    obtain ⟨hmem, e, he, hs⟩ := hleased id rfl
    have horder : (Request.claim id).Orderly s.store := ⟨l.process, hmem, e, he, hs⟩
    have hdel : (s.loops l).delivery = some id := by rw [hp]; rfl
    refine h.update ((Request.claim id).inCustody h.custody horder)
      ((Request.claim id).keyed h.keyed) ?_ ?_ ?_
    · simp only [Request.exec, claimScript_of_some he, Reply.ofRecord]
      rfl
    · intro l' jobId hne hup' hdel'
      refine h.leased_after horder hup' hdel' fun hends => ?_
      obtain rfl : id = jobId := hends
      exact h.disjoint l l' id hup hup' (Ne.symm hne) hdel hdel'
    · intro jobId hdel'
      simp only [Request.exec, claimScript_of_some he, Reply.ofRecord] at hdel' ⊢
      obtain rfl : e.record.id = jobId := Option.some.inj hdel'
      obtain rfl : e.record.id = id := h.keyed id e he
      refine ⟨⟨?_, { e with record := claimed e.record }, ?_, rfl⟩, fun l' hne hup' =>
        h.disjoint l l' _ hup hup' (Ne.symm hne) hdel⟩
      · rwa [after_claim_lists]
      · rw [after_claim_some he, Store.put_jobs, Function.update_self]
  | returning id =>
    rw [hp] at hreg
    cases hreg
  | discarding id =>
    rw [hp] at hreg
    cases hreg
  | saving write attempt acked =>
    rw [hp] at hq hreg hleased
    cases hq
    obtain rfl : acked = false := by simpa [Phase.regular] using hreg
    obtain ⟨hmem, e, he, hs⟩ := hleased write.record.id rfl
    have hcode : ((Request.save l.process write (d.ttls l.process).resultTtl).exec
        s.store).2 = .code 1 := by
      simp only [Request.exec, (saveScript_done l.process he write.record _).1]
    have hdel : (s.loops l).delivery = some write.record.id := by rw [hp]; rfl
    refine h.settle hup hdel ⟨hmem, e, he, hs⟩ (fun worker jobId hends => hends) ?_ ?_
    · rw [hcode]
      cases attempt <;> rfl
    · rw [hcode]
      cases attempt <;> rfl
  | releasing id acked =>
    cases acked with
    | false =>
      rw [hp] at hq hleased
      cases hq
      obtain ⟨hmem, -⟩ := hleased id rfl
      have hdel : (s.loops l).delivery = some id := by rw [hp]; rfl
      exact h.settle hup hdel (fun _ _ _ => hmem) (fun worker jobId hends => hends) rfl rfl
    | true =>
      -- the job is settled: the release finds nothing to hand back
      rw [hp] at hq
      cases hq
      have hinert : (Request.release l.process id).after s.store = s.store := by
        refine after_release_of_not_running fun e he => ?_
        simpa [settledOnly, hp, he] using hsettled
      rw [hinert]
      exact h.update h.custody h.keyed rfl (fun l' jobId _ => h.leased l' jobId)
        fun jobId hdel => by cases hdel
  | idle => rw [hp] at hq; cases hq
  | decoding record => rw [hp] at hq; cases hq
  | running record => rw [hp] at hq; cases hq
  | unwinding id acked => rw [hp] at hq; cases hq
  | dying id => rw [hp] at hq; cases hq
  | ended => rw [hp] at hq; cases hq

/-- What the other clients send is in order, and ends no live loop's lease. -/
theorem request_orderly {s : Fleet} {e : Event} {q : Request}
    (hm : ∀ l o, e ≠ .roundTrip l o) (hq : s.request d e = some q)
    (hdead : deadStayDead d s e = true) (hsettled : settledOnly s e = true) :
    q.Orderly s.store ∧ ∀ worker jobId, s.crashed worker = false →
      ¬ q.Ends s.store worker jobId := by
  cases e with
  | roundTrip l o => exact absurd rfl (hm l o)
  | reap worker now =>
    cases hq
    refine ⟨trivial, fun w jobId hup hends => ?_⟩
    have := List.all_eq_true.mp hdead w hends
    rw [hup] at this
    cases this
  | fetch c =>
    simp only [request] at hq
    cases hc : s.calls c with
    | fetching jobId =>
      rw [hc] at hq
      cases hq
      refine ⟨fun e he => ?_, fun _ _ _ => id⟩
      simpa [settledOnly, hc, he] using hsettled
    | _ =>
      rw [hc] at hq
      cases hq
  | enqueue record => cases hq; exact ⟨trivial, fun _ _ _ => id⟩
  | requestCancel jobId => cases hq; exact ⟨trivial, fun _ _ _ => id⟩
  | expire jobId => cases hq; exact ⟨trivial, fun _ _ _ => id⟩
  | start p now => cases hq; exact ⟨trivial, fun _ _ _ => id⟩
  | beat p now => cases hq; exact ⟨trivial, fun _ _ _ => id⟩
  | close p => cases hq; exact ⟨trivial, fun _ _ _ => id⟩
  | _ => cases hq

theorem InOrder.step {s s' : Fleet} {e : Event} (h : InOrder s) (hs : s.step d e = some s')
    (hdead : deadStayDead d s e = true) (hsettled : settledOnly s e = true) : InOrder s' := by
  cases stepOf d hs with
  | moved l m p hlive hadm hp => exact h.moved d hlive hp
  | answered l o q hup hq hend =>
    obtain rfl : o = .reply := by simpa [deadStayDead] using hdead
    exact h.answered d hup hq hsettled
  | elsewhere _ _ hm hr hloops hstore hcrash =>
    have hup : ∀ w, s'.crashed w = false → s.crashed w = false := by
      intro w hw
      cases hc : s.crashed w with
      | false => rfl
      | true =>
        rw [hcrash w hc] at hw
        cases hw
    -- the loops stand where they stood, over what the request left
    have hstore' : InCustody s'.store ∧ s'.store.Keyed ∧
        ∀ l jobId, s.crashed l.process = false → (s.loops l).delivery = some jobId →
          Leased s'.store l.process jobId (s.loops l).expects := by
      rw [hstore]
      cases hq : s.request d e with
      | none => exact ⟨h.custody, h.keyed, h.leased⟩
      | some q =>
        obtain ⟨horder, hends⟩ := request_orderly d hr hq hdead hsettled
        exact ⟨q.inCustody h.custody horder, q.keyed h.keyed, fun l jobId hl hdel =>
          h.leased_after horder hl hdel (hends _ _ hl)⟩
    obtain ⟨hcustody, hkeyed, hleased⟩ := hstore'
    refine ⟨hcustody, hkeyed, ?_, ?_, ?_⟩
    · intro l hl
      rw [hloops]
      exact h.regular l (hup _ hl)
    · intro l jobId hl
      rw [hloops]
      exact hleased l jobId (hup _ hl)
    · intro l l' jobId hl hl'
      rw [hloops]
      exact h.disjoint l l' jobId (hup _ hl) (hup _ hl')

/-! ## Whole runs -/

/-- **One delivery at a time.** In a run in which dead workers stay dead, every
fetch-and-delete finds the record finished or gone, and every release after a save
finds the job not RUNNING again, each state has one delivery per job. -/
theorem oneDelivery_along {es : List Event}
    (hdead : (machine d).Along (fun s e _ => deadStayDead d s e = true) init es)
    (hsettled : (machine d).Along (fun s e _ => settledOnly s e = true) init es) :
    (machine d).Along (fun _ _ s' => OneDelivery s') init es := by
  refine Machine.along_of_invariant (J := InOrder)
    (C := fun s e => deadStayDead d s e = true ∧ settledOnly s e = true) ?_ inOrder_init
    (hdead.and hsettled)
  rintro s e s' h ⟨hd, hc⟩ hs
  have h' := h.step d hs hd hc
  exact ⟨h'.oneDelivery, h'⟩

/-- A worker crashes while it runs the job; another one reaps it, completes the job
and a consumer takes the result. -/
def crashAndRecover : List Event :=
  [.enqueue job, .start ⟨"a", 0⟩ 0] ++ claims loopA ++
    [.crash "a", .start ⟨"b", 0⟩ 100, .reap "b" 100] ++ claims loopB ++
    [.move loopB (.finish [] (.completed [1])), .roundTrip loopB .reply,
      .take 0 "j", .check 0, .fetch 0]

theorem oneDelivery_crashAndRecover :
    (machine solo).Along (fun _ _ s' => OneDelivery s') init crashAndRecover :=
  oneDelivery_along solo (by decide) (by decide)

/-- The job is finished and a call of `take_result` has seen it; then the record
expires and the producer enqueues the id again. -/
def enqueuedAfterCheck : List Event :=
  [.enqueue job, .start ⟨"a", 0⟩ 0] ++ claims loopA ++
    [.move loopA (.finish [] (.completed [1])), .roundTrip loopA .reply, .move loopA .unwound,
      .take 0 "j", .check 0, .expire "j", .enqueue job]

/-- The call's fetch-and-delete takes the QUEUED record away, and its id stays on
the queue. -/
theorem lateFetch_breaks_oneDelivery :
    (machine solo).Along (fun s e _ => deadStayDead solo s e = true) init
        (enqueuedAfterCheck ++ [.fetch 0]) ∧
      ¬ (machine solo).Along (fun _ _ s' => OneDelivery s') init
        (enqueuedAfterCheck ++ [.fetch 0]) := by
  refine ⟨by decide, fun h => ?_⟩
  have hsettled := (h.last rfl rfl).settled "j" fun e he => by cases he
  exact absurd (hsettled .queue) (by decide)

end Fleet

end TaskQueue.Worker
