import TaskQueue.Memory.Cancellation
import TaskQueue.Worker.DeliveryCount

/-!
# `attempts` over worker loops in memory

The runs of `Memory.Fleet`: a loop that crashes just stops, and nothing is reaped.
`InOrder` is the in-memory counterpart of the custody of leases: the queue holds the id
of every QUEUED job once and no other id, and the record of a job that a loop delivers is
RUNNING, so the id is not on the queue and no other loop can claim it.

The same two conditions as on Redis keep it (`settledOnly`): the end of a `take_result`
finds the record finished or gone, and a release by a loop that has saved its job does not
find the job RUNNING again.
-/

namespace TaskQueue.Memory

open Worker

/-- The record of the job is QUEUED. -/
def Backend.Queued (b : Backend) (jobId : JobId) : Prop :=
  ∃ r, b.jobs jobId = some r ∧ r.status = .queued

/-- The record of the job is RUNNING. -/
def Backend.Running (b : Backend) (jobId : JobId) : Prop :=
  ∃ r, b.jobs jobId = some r ∧ r.status = .running

/-- The queue holds the QUEUED jobs, each once. -/
structure Backend.Lined (b : Backend) : Prop where
  keyed : ∀ jobId r, b.jobs jobId = some r → r.id = jobId
  once : ∀ jobId, b.Queued jobId → b.queue.count jobId = 1
  none_else : ∀ jobId, ¬ b.Queued jobId → b.queue.count jobId = 0

section

variable {b b' : Backend} {id : JobId} {x : Option Record}

theorem Backend.Running.not_queued (h : b.Running id) : ¬ b.Queued id := by
  rintro ⟨r, hr, hs⟩
  obtain ⟨r', hr', hs'⟩ := h
  cases hr.symm.trans hr'
  rw [hs] at hs'
  cases hs'

/-- An id on the queue is that of a QUEUED job. -/
theorem Backend.Lined.queued_of_mem (h : b.Lined) (hmem : id ∈ b.queue) : b.Queued id := by
  by_contra hnot
  have := h.none_else id hnot
  have := List.count_pos_iff.mpr hmem
  omega

/-- To write one record is to account for its own id on the queue. -/
theorem Backend.Lined.update (h : b.Lined) (hjobs : b'.jobs = Function.update b.jobs id x)
    (hothers : ∀ jobId, jobId ≠ id → b'.queue.count jobId = b.queue.count jobId)
    (hid : ∀ r, x = some r → r.id = id)
    (hself : b'.queue.count id = if (x.map Record.status) = some .queued then 1 else 0) :
    b'.Lined := by
  have hqueued : ∀ jobId, jobId ≠ id → (b'.Queued jobId ↔ b.Queued jobId) := by
    intro jobId hne
    simp only [Queued, hjobs, Function.update_of_ne hne]
  have hqueued_id : b'.Queued id ↔ x.map Record.status = some .queued := by
    simp only [Queued, hjobs, Function.update_self, Option.map_eq_some_iff]
  refine ⟨fun jobId r hr => ?_, fun jobId hq => ?_, fun jobId hq => ?_⟩
  · by_cases hne : jobId = id
    · subst hne
      rw [hjobs, Function.update_self] at hr
      exact hid r hr
    · rw [hjobs, Function.update_of_ne hne] at hr
      exact h.keyed jobId r hr
  · by_cases hne : jobId = id
    · subst hne
      rw [hself, if_pos (hqueued_id.mp hq)]
    · rw [hothers jobId hne]
      exact h.once jobId ((hqueued jobId hne).mp hq)
  · by_cases hne : jobId = id
    · subst hne
      rw [hself, if_neg fun hx => hq (hqueued_id.mpr hx)]
    · rw [hothers jobId hne]
      exact h.none_else jobId fun hq' => hq ((hqueued jobId hne).mpr hq')

/-- A job that is RUNNING stays so when another record is written. -/
theorem Backend.Running.of_update {jobId : JobId} (h : b.Running jobId)
    (hjobs : b'.jobs = Function.update b.jobs id x) (hne : jobId ≠ id) : b'.Running jobId := by
  obtain ⟨r, hr, hs⟩ := h
  exact ⟨r, by rw [hjobs, Function.update_of_ne hne, hr], hs⟩

end

/-! ## The calls -/

section

variable {b : Backend} {jobId : JobId} {r : Record}

theorem lined_empty : Backend.empty.Lined where
  keyed _ _ h := by cases h
  once _ h := by
    obtain ⟨r, hr, -⟩ := h
    cases hr
  none_else _ _ := rfl

theorem lined_enqueue (h : b.Lined) (record : Record) :
    (b.enqueue record.id record).Lined ∧
      ∀ jobId, b.Running jobId → (b.enqueue record.id record).Running jobId := by
  cases hj : b.jobs record.id with
  | some r =>
    rw [Backend.enqueue_of_some hj]
    exact ⟨h, fun _ => id⟩
  | none =>
    have hnot : ¬ b.Queued record.id := by
      rintro ⟨r, hr, -⟩
      rw [hj] at hr
      cases hr
    have hjobs : (b.enqueue record.id record).jobs
        = Function.update b.jobs record.id (some { record with status := .queued }) := by
      simp only [Backend.enqueue, hj, Backend.put]
    have hqueue : (b.enqueue record.id record).queue = b.queue ++ [record.id] := by
      simp only [Backend.enqueue, hj]
    refine ⟨h.update hjobs (fun jobId hne => ?_) ?_ ?_, fun jobId hr => hr.of_update hjobs ?_⟩
    · rw [hqueue, List.count_append, List.count_singleton, if_neg (by simpa using Ne.symm hne),
        Nat.add_zero]
    · rintro _ ⟨⟩
      rfl
    · rw [hqueue, List.count_append, h.none_else _ hnot]
      simp
    · rintro rfl
      obtain ⟨r, hr', -⟩ := hr
      rw [hj] at hr'
      cases hr'

/-- Writing a record with the status that is stored moves nothing. -/
theorem lined_rewrite (h : b.Lined) (hr : b.jobs jobId = some r) (r' : Record) {b' : Backend}
    (hid : r'.id = r.id) (hs : r'.status = r.status)
    (hjobs : b'.jobs = Function.update b.jobs jobId (some r')) (hqueue : b'.queue = b.queue) :
    b'.Lined ∧ ∀ id, b.Running id → b'.Running id := by
  refine ⟨h.update hjobs (fun _ _ => by rw [hqueue]) ?_ ?_, fun id hrun => ?_⟩
  · rintro _ ⟨⟩
    rw [hid, h.keyed jobId r hr]
  · rw [hqueue, Option.map_some, hs]
    split
    · exact h.once jobId ⟨r, hr, by simp_all⟩
    · refine h.none_else jobId ?_
      rintro ⟨r₀, hr₀, hs₀⟩
      cases hr.symm.trans hr₀
      simp_all
  · by_cases hne : id = jobId
    · subst hne
      obtain ⟨r₀, hr₀, hs₀⟩ := hrun
      cases hr.symm.trans hr₀
      exact ⟨r', by rw [hjobs, Function.update_self], hs.trans hs₀⟩
    · exact hrun.of_update hjobs hne

theorem lined_requestCancel (h : b.Lined) (jobId : JobId) :
    (b.requestCancel jobId).Lined ∧
      ∀ id, b.Running id → (b.requestCancel jobId).Running id := by
  cases hj : b.jobs jobId with
  | none =>
    simp only [Backend.requestCancel, hj]
    exact ⟨h, fun _ => id⟩
  | some r =>
    cases ht : r.status.terminal with
    | true =>
      simp only [Backend.requestCancel, hj, ht, if_true]
      exact ⟨h, fun _ => id⟩
    | false =>
      refine lined_rewrite h hj { r with requestCancel := true } rfl rfl ?_ ?_ <;>
        simp only [Backend.requestCancel, hj, ht, Backend.put, Bool.false_eq_true, if_false]

/-- Taking a job that is finished or gone. -/
theorem lined_collect (h : b.Lined) (hsettled : b.Settled jobId) :
    (b.collect jobId).1.Lined ∧ ∀ id, b.Running id → (b.collect jobId).1.Running id := by
  have hjobs : (b.collect jobId).1.jobs = Function.update b.jobs jobId none := rfl
  have hnot : ¬ b.Queued jobId := by
    rintro ⟨r, hr, hs⟩
    exact hsettled.absurd hr (by rw [hs]; rfl)
  refine ⟨h.update hjobs (fun _ _ => rfl) (fun r hr => by cases hr) ?_, fun id hrun => ?_⟩
  · exact h.none_else jobId hnot
  · refine hrun.of_update hjobs ?_
    rintro rfl
    obtain ⟨r, hr, hs⟩ := hrun
    exact hsettled.absurd hr (by rw [hs]; rfl)

theorem save_of_some {write : Finished} (hr : b.jobs write.record.id = some r) :
    ∃ b', b.save write.record.id write.record true = some b' ∧
      b'.jobs = Function.update b.jobs write.record.id (some write.record) ∧
      b'.queue = b.queue := by
  simp only [Backend.save, hr, if_true]
  exact ⟨_, rfl, rfl, rfl⟩

/-- A terminal save of a RUNNING job ends it, and leaves the other jobs alone. -/
theorem lined_save (h : b.Lined) {write : Finished} (hrun : b.Running write.record.id) :
    ∃ b', b.save write.record.id write.record true = some b' ∧ b'.Lined ∧
      ∀ id ≠ write.record.id, b.Running id → b'.Running id := by
  obtain ⟨r, hr, -⟩ := id hrun
  obtain ⟨b', hsave, hjobs, hqueue⟩ := save_of_some hr
  refine ⟨b', hsave, h.update hjobs (fun _ _ => by rw [hqueue]) (by rintro _ ⟨⟩; rfl) ?_,
    fun id hne hrun' => hrun'.of_update hjobs hne⟩
  have hterminal : (some write.record).map Record.status ≠ some .queued := by
    intro hq
    have := write.terminal
    rw [Option.map_some] at hq
    rw [Option.some.inj hq] at this
    cases this
  rw [if_neg hterminal, hqueue]
  exact h.none_else _ hrun.not_queued

/-- A release of a RUNNING job queues it, and leaves the other jobs alone. -/
theorem lined_release (h : b.Lined) (hrun : b.Running jobId) :
    ((b.release jobId).getD b).Lined ∧
      ∀ id ≠ jobId, b.Running id → ((b.release jobId).getD b).Running id := by
  obtain ⟨r, hr, hs⟩ := id hrun
  have hjobs : ((b.release jobId).getD b).jobs
      = Function.update b.jobs jobId (some { r with status := .queued }) := by
    simp only [Backend.release, hr, hs, if_true, Option.getD_some, Backend.put]
  have hqueue : ((b.release jobId).getD b).queue = b.queue ++ [jobId] := by
    simp only [Backend.release, hr, hs, if_true, Option.getD_some]
  refine ⟨h.update hjobs (fun id hne => ?_) ?_ ?_, fun id hne hrun' => hrun'.of_update hjobs hne⟩
  · rw [hqueue, List.count_append, List.count_singleton, if_neg (by simpa using Ne.symm hne),
      Nat.add_zero]
  · rintro _ ⟨⟩
    exact h.keyed jobId r hr
  · rw [hqueue, List.count_append, h.none_else _ hrun.not_queued]
    simp

/-- A release that does not find the job RUNNING does nothing. -/
theorem release_of_not_running (hrun : ¬ b.Running jobId) :
    (b.release jobId).getD b = b := by
  cases hj : b.jobs jobId with
  | none => simp only [Backend.release, hj, Option.getD_none]
  | some r =>
    have hs : r.status ≠ .running := fun hs => hrun ⟨r, hj, hs⟩
    simp only [Backend.release, hj, if_neg hs, Option.getD_some]

/-- A claim takes the first QUEUED job and marks it RUNNING. -/
theorem lined_claim (h : b.Lined) {rest : List JobId} (hq : b.queue = jobId :: rest) :
    ∃ r, b.jobs jobId = some r ∧ r.status = .queued ∧
      b.claim = some ({ b with queue := rest }.put jobId (Redis.claimed r),
        some (Redis.claimed r)) ∧
      ({ b with queue := rest }.put jobId (Redis.claimed r)).Lined ∧
      ∀ id, b.Running id → ({ b with queue := rest }.put jobId (Redis.claimed r)).Running id := by
  obtain ⟨r, hr, hs⟩ := h.queued_of_mem (hq ▸ List.mem_cons_self ..)
  have hcount := h.once jobId ⟨r, hr, hs⟩
  rw [hq, List.count_cons_self] at hcount
  refine ⟨r, hr, hs, by simp only [Backend.claim, hq, hr]; rfl, ?_, fun id hrun => ?_⟩
  · refine h.update (x := some (Redis.claimed r)) rfl (fun id hne => ?_) ?_ ?_
    · rw [hq, List.count_cons_of_ne (Ne.symm hne)]
      rfl
    · rintro _ ⟨⟩
      exact h.keyed jobId r hr
    · show rest.count jobId = _
      rw [if_neg (by simp [Redis.claimed])]
      omega
  · refine hrun.of_update (x := some (Redis.claimed r)) rfl ?_
    rintro rfl
    exact hrun.not_queued ⟨r, hr, hs⟩

end

/-! ## The loops -/

namespace Fleet

variable {config : LoopIndex → PoolConfig} {s s' : Fleet} {e : FleetEvent}

/-- What a step does to the backend and to the loops. -/
inductive StepOf (config : LoopIndex → PoolConfig) (s : Fleet) :
    FleetEvent → Fleet → Prop where
  | enqueued (record : Record) (s' : Fleet) (hloops : s'.loops = s.loops)
      (hb : s'.backend = s.backend.enqueue record.id record) :
      StepOf config s (.enqueue record) s'
  | flagged (jobId : JobId) (s' : Fleet) (hloops : s'.loops = s.loops)
      (hb : s'.backend = s.backend.requestCancel jobId) :
      StepOf config s (.requestCancel jobId) s'
  | collected (jobId : JobId) (s' : Fleet) (hloops : s'.loops = s.loops)
      (hb : s'.backend = (s.backend.collect jobId).1) : StepOf config s (.collect jobId) s'
  | claimed (l : LoopIndex) (b : Backend) (r : Record) (s' : Fleet)
      (hl : s.loops l = .idle) (hclaim : s.backend.claim = some (b, some r))
      (hloops : s'.loops = Function.update s.loops l (.decoding r)) (hb : s'.backend = b) :
      StepOf config s (.claim l) s'
  | lost (l : LoopIndex) (b : Backend) (s' : Fleet)
      (hclaim : s.backend.claim = some (b, none)) (hloops : s'.loops = s.loops)
      (hb : s'.backend = b) : StepOf config s (.claim l) s'
  | moved (l : LoopIndex) (m : Move) (p : Phase) (s' : Fleet)
      (hp : (s.loops l).move (config l) m = some p)
      (hloops : s'.loops = Function.update s.loops l p) (hb : s'.backend = s.backend) :
      StepOf config s (.move l m) s'
  | saved (l : LoopIndex) (write : Finished) (attempt : Attempt) (acked : Bool) (b : Backend)
      (s' : Fleet) (hl : s.loops l = .saving write attempt acked)
      (hsave : s.backend.save write.record.id write.record true = some b)
      (hloops : s'.loops = Function.update s.loops l (.saveDone write attempt))
      (hb : s'.backend = b) : StepOf config s (.save l) s'
  | unsaved (l : LoopIndex) (write : Finished) (attempt : Attempt) (acked : Bool) (p : Phase)
      (s' : Fleet) (hl : s.loops l = .saving write attempt acked)
      (hsave : s.backend.save write.record.id write.record true = none)
      (hloops : s'.loops = Function.update s.loops l p) (hb : s'.backend = s.backend) :
      StepOf config s (.save l) s'
  | released (l : LoopIndex) (jobId : JobId) (acked : Bool) (s' : Fleet)
      (hl : s.loops l = .releasing jobId acked)
      (hloops : s'.loops = Function.update s.loops l .ended)
      (hb : s'.backend = (s.backend.release jobId).getD s.backend) :
      StepOf config s (.release l) s'
  | watched (l : LoopIndex) (e : FleetEvent) (he : e = .join l ∨ e = .wake l) (s' : Fleet)
      (hloops : s'.loops = s.loops) (hb : s'.backend = s.backend) : StepOf config s e s'

theorem stepOf (hs : s.step config e = some s') : StepOf config s e s' := by
  cases e with
  | enqueue record =>
    simp only [step] at hs
    split at hs
    · cases hs
    · cases hs
      exact .enqueued _ _ rfl rfl
  | requestCancel jobId =>
    cases hs
    exact .flagged _ _ rfl rfl
  | collect jobId =>
    cases hs
    exact .collected _ _ rfl rfl
  | claim l =>
    simp only [step, Option.ite_none_right_eq_some] at hs
    obtain ⟨hl, hs⟩ := hs
    unfold claim at hs
    split at hs
    · rename_i hq hc
      cases hs
      exact .claimed l _ _ _ hl hc rfl rfl
    · rename_i hc
      cases hs
      exact .lost l _ _ hc rfl rfl
    · cases hs
  | move l m =>
    simp only [step, Option.ite_none_right_eq_some, Option.map_eq_some_iff] at hs
    obtain ⟨-, p, hp, rfl⟩ := hs
    exact .moved l m p _ hp rfl rfl
  | save l =>
    simp only [step] at hs
    cases hl : s.loops l with
    | saving write attempt acked =>
      simp only [hl] at hs
      cases hsave : s.backend.save write.record.id write.record true with
      | some b =>
        simp only [hsave] at hs
        cases hs
        exact .saved l write attempt acked b _ hl hsave rfl rfl
      | none =>
        simp only [hsave] at hs
        cases hs
        exact .unsaved l write attempt acked _ _ hl hsave rfl rfl
    | _ => simp [hl] at hs
  | release l =>
    simp only [step] at hs
    cases hl : s.loops l with
    | releasing jobId acked =>
      simp only [hl] at hs
      cases hs
      exact .released l jobId acked _ hl rfl rfl
    | _ => simp [hl] at hs
  | join l =>
    simp only [step] at hs
    split at hs
    · cases hs
      exact .watched l _ (Or.inl rfl) _ rfl rfl
    · cases hs
  | wake l =>
    simp only [step] at hs
    split at hs
    · split at hs
      · cases hs
        exact .watched l _ (Or.inr rfl) _ rfl rfl
      · cases hs
    · cases hs

/-- The end of a `take_result` finds the record finished or gone, and a release by a loop
that has saved its job does not find the job RUNNING. -/
def settledOnly (s : Fleet) : FleetEvent → Bool
  | .collect jobId => (s.backend.jobs jobId).all fun r => r.status.terminal
  | .release l =>
    match s.loops l with
    | .releasing jobId true => (s.backend.jobs jobId).all fun r => r.status ≠ .running
    | _ => true
  | _ => true

/-- The queue holds the QUEUED jobs, and every loop has the job that it delivers to
itself. -/
structure InOrder (s : Fleet) : Prop where
  lined : s.backend.Lined
  regular : ∀ l, (s.loops l).regular = true
  running : ∀ l jobId, (s.loops l).delivery = some jobId → s.backend.Running jobId
  disjoint : ∀ l l' jobId, l ≠ l' → (s.loops l).delivery = some jobId →
    (s.loops l').delivery ≠ some jobId

theorem inOrder_init : InOrder (machine config).init where
  lined := lined_empty
  regular _ := rfl
  running _ _ h := by cases h
  disjoint _ _ _ _ h := by cases h

/-- A step that touches no loop. -/
theorem InOrder.outside (h : InOrder s) (hloops : s'.loops = s.loops)
    (hb : s'.backend.Lined ∧ ∀ id, s.backend.Running id → s'.backend.Running id) :
    InOrder s' where
  lined := hb.1
  regular l := by rw [hloops]; exact h.regular l
  running l jobId hdel := hb.2 jobId (h.running l jobId (by rwa [hloops] at hdel))
  disjoint l l' jobId := by rw [hloops]; exact h.disjoint l l' jobId

/-- To move loop `l` on is to account for its own delivery and for the RUNNING jobs of
the other loops. -/
theorem InOrder.update (h : InOrder s) {l : LoopIndex} {p : Phase}
    (hloops : s'.loops = Function.update s.loops l p) (hlined : s'.backend.Lined)
    (hreg : p.regular = true)
    (hothers : ∀ l' jobId, l' ≠ l → (s.loops l').delivery = some jobId →
      s'.backend.Running jobId)
    (hself : ∀ jobId, p.delivery = some jobId → s'.backend.Running jobId ∧
      ∀ l', l' ≠ l → (s.loops l').delivery ≠ some jobId) : InOrder s' where
  lined := hlined
  regular l' := by
    rw [hloops]
    by_cases hl : l' = l
    · subst hl
      simpa using hreg
    · simpa [Function.update_of_ne hl] using h.regular l'
  running l' jobId hdel := by
    rw [hloops] at hdel
    by_cases hl : l' = l
    · subst hl
      rw [Function.update_self] at hdel
      exact (hself jobId hdel).1
    · rw [Function.update_of_ne hl] at hdel
      exact hothers l' jobId hl hdel
  disjoint l₁ l₂ jobId hne hdel := by
    rw [hloops] at hdel ⊢
    by_cases h₁ : l₁ = l
    · subst h₁
      rw [Function.update_self] at hdel
      rw [Function.update_of_ne (Ne.symm hne)]
      exact (hself jobId hdel).2 l₂ (Ne.symm hne)
    · rw [Function.update_of_ne h₁] at hdel
      by_cases h₂ : l₂ = l
      · subst h₂
        rw [Function.update_self]
        exact fun hdel₂ => (hself jobId hdel₂).2 l₁ h₁ hdel
      · rw [Function.update_of_ne h₂]
        exact h.disjoint l₁ l₂ jobId hne hdel

/-- A loop that ends its delivery of `id` leaves the other loops' jobs RUNNING. -/
theorem InOrder.settle (h : InOrder s) {l : LoopIndex} {p : Phase} {id : JobId}
    (hloops : s'.loops = Function.update s.loops l p) (hdel : (s.loops l).delivery = some id)
    (hb : s'.backend.Lined ∧ ∀ jobId ≠ id, s.backend.Running jobId → s'.backend.Running jobId)
    (hreg : p.regular = true) (hnone : p.delivery = none) : InOrder s' := by
  refine h.update hloops hb.1 hreg (fun l' jobId hne hdel' => ?_) fun jobId hp => ?_
  · refine hb.2 jobId ?_ (h.running l' jobId hdel')
    rintro rfl
    exact h.disjoint l l' jobId (Ne.symm hne) hdel hdel'
  · rw [hnone] at hp
    cases hp

/-- The step lemma. -/
theorem InOrder.step (h : InOrder s) (hs : s.step config e = some s')
    (hsettled : settledOnly s e = true) : InOrder s' := by
  cases stepOf hs with
  | enqueued record _ hloops hb => exact h.outside hloops (hb ▸ lined_enqueue h.lined record)
  | flagged jobId _ hloops hb =>
    exact h.outside hloops (hb ▸ lined_requestCancel h.lined jobId)
  | collected jobId _ hloops hb =>
    refine h.outside hloops (hb ▸ lined_collect h.lined fun r hr => ?_)
    simpa [settledOnly, hr] using hsettled
  | claimed l b r _ hl hclaim hloops hb =>
    cases hq : s.backend.queue with
    | nil => simp [Backend.claim, hq] at hclaim
    | cons jobId rest =>
      obtain ⟨r₀, hr₀, hs₀, hclaim', hlined, hrun⟩ := lined_claim h.lined hq
      cases hclaim.symm.trans hclaim'
      rw [← hb] at hlined hrun
      refine h.update hloops hlined rfl (fun l' id _ hdel => hrun id (h.running l' id hdel)) ?_
      intro id hdel
      obtain rfl : r₀.id = id := Option.some.inj hdel
      rw [h.lined.keyed jobId r₀ hr₀]
      refine ⟨⟨Redis.claimed r₀, by rw [hb]; exact Function.update_self .., rfl⟩, ?_⟩
      intro l' _ hdel'
      exact (h.running l' jobId hdel').not_queued ⟨r₀, hr₀, hs₀⟩
  | lost l b _ hclaim hloops hb =>
    cases hq : s.backend.queue with
    | nil => simp [Backend.claim, hq] at hclaim
    | cons jobId rest =>
      obtain ⟨r₀, -, -, hclaim', -⟩ := lined_claim h.lined hq
      cases hclaim.symm.trans hclaim'
  | moved l m p _ hp hloops hb =>
    obtain ⟨hreg, hdel⟩ := Phase.move_delivery hp
    refine h.update hloops (hb ▸ h.lined) hreg
      (fun l' jobId _ hdel' => hb ▸ h.running l' jobId hdel') fun jobId hp' => ?_
    rcases hdel with hnone | ⟨hsame, -⟩
    · rw [hnone] at hp'
      cases hp'
    · rw [hsame] at hp'
      exact ⟨hb ▸ h.running l jobId hp', fun l' hne => h.disjoint l l' jobId (Ne.symm hne) hp'⟩
  | saved l write attempt acked b _ hl hsave hloops hb =>
    have hreg := h.regular l
    rw [hl] at hreg
    obtain rfl : acked = false := by simpa [Phase.regular] using hreg
    have hdel : (s.loops l).delivery = some write.record.id := by rw [hl]; rfl
    obtain ⟨b', hsave', hlined, hrun⟩ := lined_save h.lined (h.running l _ hdel)
    cases hsave.symm.trans hsave'
    refine h.settle hloops hdel (hb ▸ ⟨hlined, hrun⟩) ?_ ?_ <;> cases attempt <;> rfl
  | unsaved l write attempt acked p _ hl hsave hloops hb =>
    have hreg := h.regular l
    rw [hl] at hreg
    obtain rfl : acked = false := by simpa [Phase.regular] using hreg
    obtain ⟨b', hsave', -⟩ := lined_save h.lined (h.running l write.record.id (by rw [hl]; rfl))
    cases hsave.symm.trans hsave'
  | released l jobId acked _ hl hloops hb =>
    cases acked with
    | false =>
      have hdel : (s.loops l).delivery = some jobId := by rw [hl]; rfl
      exact h.settle hloops hdel (hb ▸ lined_release h.lined (h.running l jobId hdel)) rfl rfl
    | true =>
      -- the job is settled: the release finds nothing to hand back
      have hnot : ¬ s.backend.Running jobId := by
        rintro ⟨r, hr, hrunning⟩
        simp [settledOnly, hl, hr, hrunning] at hsettled
      rw [release_of_not_running hnot] at hb
      exact h.update hloops (hb ▸ h.lined) rfl (fun l' id _ hdel => hb ▸ h.running l' id hdel)
        fun id hdel => by cases hdel
  | watched l _ he _ hloops hb => exact h.outside hloops (by rw [hb]; exact ⟨h.lined, fun _ => id⟩)

/-! ## The counted loops -/

/-- Producers submit new jobs. -/
def submitted : FleetEvent → Bool
  | .enqueue record => record.attempts = 0
  | _ => true

/-- The tally after an event. -/
def tallyEvent (s : Fleet) (n : JobId → Nat) : FleetEvent → JobId → Nat
  | .enqueue record => tally s.backend.jobs n (.create record)
  | .claim _ => s.backend.queue.head?.elim n fun jobId => tally s.backend.jobs n (.claim jobId)
  | _ => n

/-- The event is a claim of the job. -/
def Claims (s : Fleet) (e : FleetEvent) (jobId : JobId) : Prop :=
  (∃ l, e = .claim l) ∧ s.backend.queue.head? = some jobId

/-- The loops and the claims made of each job since it was enqueued. -/
structure Counting where
  fleet : Fleet
  deliveries : JobId → Nat

/-- Worker loops, counted from the start. -/
def counting (config : LoopIndex → PoolConfig) : Machine Counting FleetEvent where
  init := ⟨(machine config).init, fun _ => 0⟩
  step s e := (s.fleet.step config e).map fun f =>
    ⟨f, tallyEvent s.fleet s.deliveries e⟩

/-- What a worker reads from a claim in the step to `s'`. -/
def readsClaim (s' : Fleet) : FleetEvent → Option Record
  | .claim l => (s'.loops l).snapshot
  | _ => none

/-- Every job is counted in every step. -/
theorem counted_step {n : JobId → Nat} (h : InOrder s)
    (ht : Tallied s.backend.jobs n fun l => (s.loops l).snapshot)
    (hs : s.step config e = some s') (hsubmitted : submitted e = true) (jobId : JobId) :
    Counted (s.Claims e jobId) (s.backend.jobs jobId) (n jobId) (s'.backend.jobs jobId)
      (tallyEvent s n e jobId) := by
  have hop : ∀ op : TableOp, s'.backend.jobs = op.effect s.backend.jobs →
      (∀ record, op = .create record → record.attempts = 0) →
      (∀ f r, op = .write f → s.backend.jobs f.record.id = some r →
        f.record.attempts = r.attempts) →
      (op = .claim jobId → s.Claims e jobId) →
      Counted (s.Claims e jobId) (s.backend.jobs jobId) (n jobId) (s'.backend.jobs jobId)
        (tally s.backend.jobs n op jobId) :=
    fun op hjobs hnew hwrite hclaim => by
      rw [hjobs]
      exact (op.counted hnew hwrite jobId).imp hclaim
  cases stepOf hs with
  | enqueued record _ hloops hb =>
    refine hop (.create record) (by rw [hb, enqueue_table]) ?_ (by simp) (by simp)
    rintro _ ⟨⟩
    simpa [submitted] using hsubmitted
  | flagged id _ hloops hb =>
    exact hop (.flag id) (by rw [hb, requestCancel_table]) (by simp) (by simp) (by simp)
  | collected id _ hloops hb => exact hop (.free id) (by rw [hb]; rfl) (by simp) (by simp) (by simp)
  | claimed l b r _ hl hclaim hloops hb =>
    cases hq : s.backend.queue with
    | nil => simp [Backend.claim, hq] at hclaim
    | cons id rest =>
      have htally : tallyEvent s n (.claim l) = tally s.backend.jobs n (.claim id) := by
        simp only [tallyEvent, hq, List.head?_cons, Option.elim_some]
      rw [htally]
      refine hop (.claim id) ?_ (by simp) (by simp) ?_
      · rw [← claim_table s.backend hq, Call.after, hclaim, hb]
        rfl
      · intro hid
        exact ⟨⟨l, rfl⟩, by rw [hq, List.head?_cons, (TableOp.claim.inj hid)]⟩
  | lost l b _ hclaim hloops hb =>
    cases hq : s.backend.queue with
    | nil => simp [Backend.claim, hq] at hclaim
    | cons id rest =>
      obtain ⟨r₀, -, -, hclaim', -⟩ := lined_claim h.lined hq
      cases hclaim.symm.trans hclaim'
  | moved l m p _ hp hloops hb =>
    rw [hb]
    exact .same _ _
  | saved l write attempt acked b _ hl hsave hloops hb =>
    have hreg := h.regular l
    rw [hl] at hreg
    obtain rfl : acked = false := by simpa [Phase.regular] using hreg
    refine hop (.write write) ?_ (by simp) ?_ (by simp)
    · rw [← save_table, hsave, hb]
      rfl
    · -- the save writes back what its loop read from the claim
      rintro _ r ⟨⟩ hr
      obtain ⟨r₀, hr₀, hattempts⟩ := ht.snapshots l write.record (by rw [hl]; rfl)
      cases hr.symm.trans hr₀
      exact hattempts.symm
  | unsaved l write attempt acked p _ hl hsave hloops hb =>
    rw [hb]
    exact .same _ _
  | released l id acked _ hl hloops hb =>
    exact hop (.requeue id) (by rw [hb, release_table]) (by simp) (by simp) (by simp)
  | watched l _ he _ hloops hb =>
    rw [hb]
    rcases he with rfl | rfl
    · exact .same _ _
    · exact .same _ _

/-- A claim hands its loop the record that it stored. -/
theorem claim_read {l : LoopIndex} (h : InOrder s)
    (hs : s.step config (.claim l) = some s') :
    ∃ jobId r, s.backend.queue.head? = some jobId ∧ r.id = jobId ∧
      s'.loops l = .decoding r ∧ s'.backend.jobs jobId = some r := by
  cases stepOf hs with
  | claimed _ b r _ hl hclaim hloops hb =>
    cases hq : s.backend.queue with
    | nil => simp [Backend.claim, hq] at hclaim
    | cons jobId rest =>
      obtain ⟨r₀, hr₀, -, hclaim', -⟩ := lined_claim h.lined hq
      cases hclaim.symm.trans hclaim'
      refine ⟨jobId, Redis.claimed r₀, List.head?_cons .., h.lined.keyed jobId r₀ hr₀, ?_, ?_⟩
      · rw [hloops, Function.update_self]
      · rw [hb]
        exact Function.update_self ..
  | lost _ b _ hclaim hloops hb =>
    cases hq : s.backend.queue with
    | nil => simp [Backend.claim, hq] at hclaim
    | cons jobId rest =>
      obtain ⟨r₀, -, -, hclaim', -⟩ := lined_claim h.lined hq
      cases hclaim.symm.trans hclaim'
  | watched _ _ he => rcases he with he | he <;> cases he

/-- Nobody claims a job that a loop has a snapshot of. -/
theorem not_claimed (h : InOrder s) {l : LoopIndex} {r : Record}
    (hl : (s.loops l).snapshot = some r) : ¬ s.Claims e r.id := by
  rintro ⟨-, hhead⟩
  have hrun := h.running l r.id (Phase.delivery_of_snapshot hl).1
  exact hrun.not_queued (h.lined.queued_of_mem (List.mem_of_mem_head? hhead))

/-- Every snapshot after a step is carried. -/
theorem carried_step (h : InOrder s) (h' : InOrder s') (hs : s.step config e = some s')
    {l : LoopIndex} {r : Record} (hl : (s'.loops l).snapshot = some r) :
    Carried s'.backend.jobs (s.Claims e) (s.loops l).snapshot r := by
  have hstored : s'.backend.jobs r.id ≠ none := by
    obtain ⟨r', hr', -⟩ := h'.running l r.id (Phase.delivery_of_snapshot hl).1
    simp [hr']
  have hold : ∀ r₁, (s.loops l).snapshot = some r₁ → r₁.id = r.id → r₁.attempts = r.attempts →
      Carried s'.backend.jobs (s.Claims e) (s.loops l).snapshot r := by
    intro r₁ hr₁ hid hattempts
    exact Or.inr ⟨r₁, hr₁, hid, hattempts, hid ▸ not_claimed h hr₁, hstored⟩
  -- a loop that is moved to a phase without a snapshot has none to carry
  have hmove : ∀ l₀ p, s'.loops = Function.update s.loops l₀ p →
      (l = l₀ → p.snapshot = some r → Carried s'.backend.jobs (s.Claims e)
        (s.loops l).snapshot r) →
      Carried s'.backend.jobs (s.Claims e) (s.loops l).snapshot r := by
    intro l₀ p hloops hself
    rw [hloops] at hl
    by_cases hne : l = l₀
    · subst hne
      rw [Function.update_self] at hl
      exact hself rfl hl
    · rw [Function.update_of_ne hne] at hl
      exact hold r hl rfl rfl
  cases stepOf hs with
  | claimed l₀ b r₀ _ hidle hclaim hloops hb =>
    refine hmove l₀ _ hloops fun hne hsnap => ?_
    obtain ⟨jobId, r₁, -, hid, hloop, hjobs⟩ := claim_read h hs
    rw [hloops, Function.update_self] at hloop
    cases hloop
    cases hsnap
    exact Or.inl ⟨r, by rw [hid, hjobs], rfl⟩
  | moved l₀ m p _ hp hloops hb =>
    refine hmove l₀ p hloops fun hne hsnap => ?_
    obtain ⟨r₁, hr₁, hid, hattempts⟩ := Phase.move_snapshot hp hsnap
    exact hold r₁ (by rw [hne, hr₁]) hid hattempts
  | saved l₀ write attempt acked b _ hphase hsave hloops hb =>
    refine hmove l₀ _ hloops fun _ hsnap => ?_
    cases attempt <;> cases hsnap
  | unsaved l₀ write attempt acked p _ hphase hsave hloops hb =>
    have hreg := h.regular l₀
    rw [hphase] at hreg
    obtain rfl : acked = false := by simpa [Phase.regular] using hreg
    obtain ⟨b', hsave', -⟩ :=
      lined_save h.lined (h.running l₀ write.record.id (by rw [hphase]; rfl))
    cases hsave.symm.trans hsave'
  | released l₀ id acked _ hphase hloops hb =>
    exact hmove l₀ _ hloops fun _ hsnap => by cases hsnap
  | enqueued _ _ hloops _ | flagged _ _ hloops _ | collected _ _ hloops _ | lost _ _ _ _ hloops _
  | watched _ _ _ _ hloops _ =>
    rw [hloops] at hl
    exact hold r hl rfl rfl

/-! ## Whole runs -/

/-- The loops are in order, and the counters are the tally. -/
structure InCount (s : Counting) : Prop where
  inOrder : InOrder s.fleet
  tallied : Tallied s.fleet.backend.jobs s.deliveries fun l => (s.fleet.loops l).snapshot

theorem InCount.step {s s' : Counting} (h : InCount s)
    (hs : (counting config).step s e = some s') (hsubmitted : submitted e = true)
    (hsettled : settledOnly s.fleet e = true) :
    CountsDeliveries s.fleet.backend.jobs s'.fleet.backend.jobs s'.deliveries
        (readsClaim s'.fleet e) ∧ InCount s' := by
  obtain ⟨f, hf, rfl⟩ := Option.map_eq_some_iff.mp hs
  have horder := h.inOrder.step hf hsettled
  have hcounted := counted_step h.inOrder h.tallied hf hsubmitted
  refine ⟨h.tallied.counts hcounted (fun r hr => ?_) (fun jobId hc _ => ?_), horder,
    h.tallied.step hcounted fun l r => carried_step h.inOrder horder hf⟩
  · cases e with
    | claim l =>
      obtain ⟨jobId, r₀, -, rfl, hloop, hjobs⟩ := claim_read h.inOrder hf
      simp only [readsClaim, hloop] at hr
      cases hr
      exact hjobs
    | _ => cases hr
  · obtain ⟨⟨l, rfl⟩, hhead⟩ := hc
    obtain ⟨id, r, hhead', hid, hloop, -⟩ := claim_read h.inOrder hf
    cases hhead.symm.trans hhead'
    exact ⟨r, by simp only [readsClaim, hloop]; rfl, hid⟩

theorem inCount_init : InCount (counting config).init where
  inOrder := @inOrder_init config
  tallied := tallied_empty

/-- **`attempts` counts deliveries, in memory.** -/
theorem countsDeliveries_along_memory {es : List FleetEvent}
    (hsubmitted : (counting config).Along (fun _ e _ => submitted e = true)
      (counting config).init es)
    (hsettled : (counting config).Along (fun s e _ => settledOnly s.fleet e = true)
      (counting config).init es) :
    (counting config).Along (fun s e s' => CountsDeliveries s.fleet.backend.jobs
      s'.fleet.backend.jobs s'.deliveries (readsClaim s'.fleet e)) (counting config).init es := by
  refine Machine.along_of_invariant (J := InCount)
    (C := fun s e => submitted e = true ∧ settledOnly s.fleet e = true) ?_ inCount_init
    (hsubmitted.and hsettled)
  rintro s e s' h ⟨hsub, hset⟩ hs
  exact h.step hs hsub hset

end Fleet

end TaskQueue.Memory

/-! ## Both backends -/

namespace TaskQueue

open Worker

/-- **`attempts` counts deliveries, on both backends.** In every run of submitted jobs in
which round trips are answered and only crashed workers are reaped: if the end of every
`take_result` finds the record finished or gone, and every release by a loop that has saved
its job does not find the job RUNNING, then in every state the stored counter is the number
of claims that delivered the stored record since it was enqueued, no step lowers it, a
worker reads the ordinal of its own delivery, and nothing but a claim changes it. -/
theorem countsDeliveries_along (d : Deployment) (es : List Worker.Event)
    (config : Memory.LoopIndex → PoolConfig) (fs : List Memory.FleetEvent)
    (hdead : (Fleet.counting d).Along (fun s e _ => Fleet.deadStayDead d s.fleet e = true)
      (Fleet.counting d).init es)
    (hsubmitted : (Fleet.counting d).Along (fun _ e _ => Fleet.submitted e = true)
      (Fleet.counting d).init es)
    (hsettled : (Fleet.counting d).Along (fun s e _ => Fleet.settledOnly s.fleet e = true)
      (Fleet.counting d).init es)
    (hsubmitted' : (Memory.Fleet.counting config).Along
      (fun _ e _ => Memory.Fleet.submitted e = true) (Memory.Fleet.counting config).init fs)
    (hsettled' : (Memory.Fleet.counting config).Along
      (fun s e _ => Memory.Fleet.settledOnly s.fleet e = true)
      (Memory.Fleet.counting config).init fs) :
    (Fleet.counting d).Along (fun s e s' => CountsDeliveries s.fleet.store.table
        s'.fleet.store.table s'.deliveries (Fleet.readsClaim s.fleet s'.fleet e))
        (Fleet.counting d).init es ∧
      (Memory.Fleet.counting config).Along (fun s e s' => CountsDeliveries
        s.fleet.backend.jobs s'.fleet.backend.jobs s'.deliveries
        (Memory.Fleet.readsClaim s'.fleet e)) (Memory.Fleet.counting config).init fs :=
  ⟨Fleet.countsDeliveries_along_redis hdead hsubmitted hsettled,
    Memory.Fleet.countsDeliveries_along_memory hsubmitted' hsettled'⟩

/-- A loop hands its job back at a shutdown, and another one delivers it again. -/
def Memory.interrupted : List Memory.FleetEvent :=
  [.enqueue Fleet.job, .claim 0, .move 0 (.decode []), .move 0 .cancel, .release 0,
    .claim 1, .move 1 (.decode []), .move 1 (.finish [] (.completed [1])), .save 1,
    .collect "j"]

/-- A worker that crashes and a loop that is interrupted. -/
theorem countsDeliveries_redelivered :
    (Fleet.counting Fleet.solo).Along (fun s e s' => CountsDeliveries s.fleet.store.table
        s'.fleet.store.table s'.deliveries (Fleet.readsClaim s.fleet s'.fleet e))
        (Fleet.counting Fleet.solo).init Fleet.crashAndRecover ∧
      (Memory.Fleet.counting fun _ => Fleet.anyTask).Along (fun s e s' => CountsDeliveries
        s.fleet.backend.jobs s'.fleet.backend.jobs s'.deliveries
        (Memory.Fleet.readsClaim s'.fleet e)) (Memory.Fleet.counting fun _ => Fleet.anyTask).init
        Memory.interrupted :=
  countsDeliveries_along Fleet.solo Fleet.crashAndRecover (fun _ => Fleet.anyTask)
    Memory.interrupted
    (by decide) (by decide) (by decide) (by decide) (by decide)

namespace Worker.Fleet

/-- The first loop of worker `c`. -/
def loopC : LoopId := ⟨⟨"c", 0⟩, 0⟩

/-- Worker `a` has delivered and saved the job, and two calls of `take_result` have seen
it; the first one takes it, and the id is enqueued again. -/
def enqueuedAgain : List Event :=
  [.enqueue job, .start ⟨"a", 0⟩ 0, .start ⟨"b", 0⟩ 0, .start ⟨"c", 0⟩ 0] ++ claims loopA ++
    [.move loopA (.finish [] (.completed [1])), .roundTrip loopA .reply, .take 0 "j",
      .take 1 "j", .check 0, .check 1, .fetch 0, .enqueue job]

/-- Worker `b` runs the job; the loop of `a`, which still waits for its watcher, is
cancelled and releases it; `c` claims it. -/
def releasedByFormer : List Event :=
  enqueuedAgain ++ claims loopB ++ [.move loopA .cancel, .roundTrip loopA .reply] ++
    claims loopC ++ [.move loopB (.finish [] (.completed [2]))]

/-- Worker `b` runs the job; the second call frees it, and the id is enqueued once more and
claimed by `c`. Worker `b` crashes and is reaped, its list still holding the id; `a` claims
it. -/
def freedByLateFetch : List Event :=
  enqueuedAgain ++ [.move loopA .unwound] ++ claims loopB ++ [.fetch 1, .enqueue job] ++
    claims loopC ++ [.crash "b", .beat ⟨"a", 0⟩ 100, .beat ⟨"c", 0⟩ 100, .reap "a" 100] ++
    claims loopA ++ [.move loopC (.finish [] (.completed [2]))]

end Worker.Fleet

/-- In both runs the job has been delivered twice, and the save of the first delivery takes
its counter back from 2 to 1. -/
theorem staleSnapshot_lowers :
    ((Fleet.counting Fleet.solo).Along (fun s e _ => Fleet.deadStayDead Fleet.solo s.fleet e = true)
          (Fleet.counting Fleet.solo).init
          (Fleet.releasedByFormer ++ [.roundTrip Fleet.loopB .reply]) ∧
        ¬ (Fleet.counting Fleet.solo).Along (fun s e s' => CountsDeliveries s.fleet.store.table
          s'.fleet.store.table s'.deliveries (Fleet.readsClaim s.fleet s'.fleet e))
          (Fleet.counting Fleet.solo).init
          (Fleet.releasedByFormer ++ [.roundTrip Fleet.loopB .reply])) ∧
      (Fleet.counting Fleet.solo).Along
        (fun s e _ => Fleet.deadStayDead Fleet.solo s.fleet e = true)
          (Fleet.counting Fleet.solo).init
          (Fleet.freedByLateFetch ++ [.roundTrip Fleet.loopC .reply]) ∧
        ¬ (Fleet.counting Fleet.solo).Along (fun s e s' => CountsDeliveries s.fleet.store.table
          s'.fleet.store.table s'.deliveries (Fleet.readsClaim s.fleet s'.fleet e))
          (Fleet.counting Fleet.solo).init
          (Fleet.freedByLateFetch ++ [.roundTrip Fleet.loopC .reply]) := by
  refine ⟨⟨by decide, fun h => ?_⟩, by decide, fun h => ?_⟩
  · exact absurd ((h.last rfl rfl).monotone "j" _ _ rfl rfl) (by decide)
  · exact absurd ((h.last rfl rfl).monotone "j" _ _ rfl rfl) (by decide)

end TaskQueue
