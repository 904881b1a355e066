import TaskQueue.Scope.Steps

/-!
# Redelivery of a job that spawns

A job `P` whose body opens a scope and spawns children under ids derived from its own
(`_child_id`: the parent's id and the ordinal that `JobContext.next_spawn` counts).
When the pool that runs it stops, its body is cancelled, its scope is torn down, `P` is
released, and the next delivery issues its spawns under the same ids, with a
fresh scope and the ordinals from 0.

The teardown of the interrupted delivery asks every child to stop, and what it leaves in
a record outlives it: a child that nobody consumed is found by the next delivery,
flagged or CANCELLED. `findsClean_along` says that this does not happen in runs in
which the record of every child that was flagged has been consumed when `P` is handed
back, and the requests that an interrupted delivery has left under way come too late.

The tasks of a scope that has closed do not all end with it (`past`): a spawn may still be
under way, a request that was sent may still take effect, and so may a fan-out that
`_settle` did not await. They spawn nothing new.
-/

namespace TaskQueue.Scope

variable {jobId : JobId}

/-- Somebody has asked for the job's cancellation, or it was cancelled. -/
def poisoned (r : Record) : Bool := decide (r.status = .cancelled) || r.requestCancel

/-- The records of the spawns under way are not flagged. -/
def SpawnsClean (g : Group) : Prop := ∀ sp ∈ g.spawning, sp.record.requestCancel = false

/-- The children of `P`: `child n` is the id of its spawn number `n`, and `mine` decides
whether an id is one of theirs. -/
structure Family where
  child : Nat → JobId
  mine : JobId → Bool
  mine_child : ∀ n, mine (child n) = true

/-- `P`, the scope of its current delivery and the records. `ordinal` is
`JobContext._spawns`; `stopped` tells that the loop running `P` has been cancelled,
`queued` that `P` has been released and not been claimed again; `past` are the scopes of
earlier deliveries. -/
structure Parent where
  system : System
  ordinal : Nat
  stopped : Bool
  queued : Bool
  past : List Group

namespace Parent

/-- What can happen to `P` and to its scope. -/
inductive Event where
  | scope (e : Scope.Event)
  | stop
  | handBack
  | redeliver
  | past (n : Nat) (e : Scope.Event)
deriving DecidableEq

variable (f : Family)

/-- One event. While `P` is queued only other clients act. -/
def step (s : Parent) : Event → Option Parent
  | .scope e =>
    match e with
    | .backend op => (s.system.step (.backend op)).map fun system => { s with system := system }
    | .spawn record =>
      if s.queued = false ∧ record.id = f.child s.ordinal then
        (s.system.step (.spawn record)).map fun system =>
          { s with system := system, ordinal := s.ordinal + 1 }
      else none
    | e =>
      if s.queued then none
      else (s.system.step e).map fun system => { s with system := system }
  | .stop => if s.queued then none else some { s with stopped := true }
  | .handBack =>
    -- `_run` awaits the end of the body before its loop releases the job
    if s.queued = false ∧ s.stopped = true ∧ s.system.group.phase = .closed then
      some
        { system := ⟨s.system.table,
            .enter s.system.group.onError s.system.group.hasDeadline []⟩
          ordinal := 0
          stopped := false
          queued := true
          past := s.past ++ [s.system.group] }
    else none
  | .redeliver => if s.queued then some { s with queued := false } else none
  | .past n e =>
    match e, s.past[n]? with
    | .backend _, _ | .spawn _, _ | _, none => none
    | e, some g =>
      (System.step ⟨s.system.table, g⟩ e).map fun system =>
        { s with
          system := ⟨system.table, s.system.group⟩
          past := s.past.set n system.group }

/-- `P` in its first delivery, over any records of other jobs. -/
def machine (table : Table) (hasDeadline : Bool) : Machine Parent Event where
  init := ⟨⟨table, .enter .cancelSiblings hasDeadline []⟩, 0, false, false, []⟩
  step := step f

/-! ## The promise and its condition -/

/-- A spawn that finds its child stored finds it neither cancelled nor asked to be. -/
def FindsClean (s : Parent) (e : Event) : Prop :=
  ∀ jobId r, e = .scope (.enqueue jobId) → s.system.table jobId = some r →
    r.status ≠ .cancelled ∧ r.requestCancel = false

/-- No user code cancels a child of `P`, and nobody else enqueues under its id. -/
def foreign : Event → Bool
  | .scope (.backend (.create record)) => !f.mine record.id
  | .scope (.backend (.flag jobId)) => !f.mine jobId
  | _ => true

/-- No record of `jobId` is unfinished. -/
def isOver (s : Parent) (jobId : JobId) : Bool :=
  (s.system.table jobId).all fun r => r.status.terminal

/-- When `P` is handed back, every child that its scope has flagged has been consumed; a
request of an earlier delivery reaches its child after the end; and a worker saves a child
as CANCELLED or flagged only over a record that says so. -/
def reportsBack (s : Parent) : Event → Bool
  | .handBack => s.system.group.hit.all fun jobId => (s.system.table jobId).isNone
  | .past n e => ((s.past[n]?).bind fun g => g.asks e).all s.isOver
  | .scope (.backend (.write finished)) =>
    !f.mine finished.record.id || !poisoned finished.record ||
      (s.system.table finished.record.id).all poisoned
  | _ => true

/-! ## The invariant -/

/-- Only children that the current scope has flagged are poisoned. -/
structure Unpoisoned (s : Parent) : Prop where
  asked : Asked s.system.group
  mine : ∀ sp ∈ s.system.group.spawning, f.mine sp.record.id = true
  fresh : SpawnsClean s.system.group
  past : ∀ g ∈ s.past, SpawnsClean g
  hit : ∀ jobId r, f.mine jobId = true → s.system.table jobId = some r → poisoned r = true →
    jobId ∈ s.system.group.hit

end Parent

/-- What poisons a record: a request, a save or an enqueue. Nothing else does. -/
theorem poisoned_of_effect {t : Table} {op : TableOp} {r' : Record}
    (h : op.effect t jobId = some r') (hp : poisoned r' = true)
    (hcreate : ∀ record, op = .create record → record.id ≠ jobId)
    (hflag : op ≠ .flag jobId)
    (hwrite : ∀ finished, op = .write finished → finished.record.id = jobId →
      poisoned finished.record = true → ∀ r, t jobId = some r → poisoned r = true) :
    ∃ r, t jobId = some r ∧ poisoned r = true := by
  by_cases hid : jobId = op.jobId
  · subst hid
    cases op with
    | create record => exact absurd rfl (hcreate record rfl)
    | flag id => exact absurd rfl hflag
    | free id =>
      rw [TableOp.effect, TableOp.jobId, Function.update_self] at h
      cases h
    | claim id =>
      obtain ⟨r, hr, rfl⟩ : ∃ r, t id = some r ∧
          { r with status := .running, attempts := r.attempts + 1 } = r' := by
        simpa [TableOp.effect, Table.modify, TableOp.jobId] using h
      have hrequest : r.requestCancel = true := by simpa [poisoned] using hp
      exact ⟨r, hr, by simp [poisoned, hrequest]⟩
    | requeue id =>
      obtain ⟨r, hr, rfl⟩ : ∃ r, t id = some r ∧
          (if r.status = .running then { r with status := .queued } else r) = r' := by
        simpa [TableOp.effect, Table.modify, TableOp.jobId] using h
      refine ⟨r, hr, ?_⟩
      split at hp
      · have hrequest : r.requestCancel = true := by simpa [poisoned] using hp
        simp [poisoned, hrequest]
      · exact hp
    | write finished =>
      obtain ⟨r, hr, rfl⟩ : ∃ r, t finished.record.id = some r ∧ finished.record = r' := by
        simpa [TableOp.effect, Table.modify, TableOp.jobId] using h
      exact ⟨r, hr, hwrite finished rfl rfl hp r hr⟩
  · rw [TableOp.effect_of_ne t op hid] at h
    exact ⟨r', h, hp⟩

/-- A request poisons a record only if it hits it. -/
theorem poisoned_of_flag {s : System} {g : Group} {asked : JobId} {r' : Record}
    (h : (s.flag asked g).table jobId = some r') (hp : poisoned r' = true) :
    (∃ r, s.table jobId = some r ∧ poisoned r = true) ∨
      (jobId = asked ∧ jobId ∈ (s.flag asked g).group.hit ∧
        ∃ r, s.table jobId = some r ∧ r.status.terminal = false) := by
  by_cases hid : jobId = asked
  · subst hid
    obtain ⟨r, hr, hr'⟩ : ∃ r, s.table jobId = some r ∧
        (if r.status.terminal then r else { r with requestCancel := true }) = r' := by
      simpa [System.flag, TableOp.effect, Table.modify] using h
    cases ht : r.status.terminal with
    | true =>
      rw [if_pos ht] at hr'
      subst hr'
      exact Or.inl ⟨r, hr, hp⟩
    | false =>
      refine Or.inr ⟨rfl, ?_, r, hr, ht⟩
      show jobId ∈ (g.flagged s.table jobId).hit
      simp [Group.flagged, hr, ht]
  · have hsame : s.table jobId = some r' :=
      (TableOp.effect_of_ne s.table (.flag asked) hid).symm.trans h
    exact Or.inl ⟨r', hsame, hp⟩

theorem hit_subset_flagged {g : Group} (t : Table) : g.hit ⊆ (g.flagged t jobId).hit := by
  unfold Group.flagged
  split
  · split
    · exact List.Subset.refl _
    · exact List.subset_append_left _ _
  · exact List.Subset.refl _

theorem jobFinished_hit {g : Group} (w : Waiter) : (g.jobFinished w).hit = g.hit := by
  rcases g.jobFinished_cases w with ⟨failures, h⟩ | ⟨-, failures, h⟩ <;> rw [h]

/-- What a scope has flagged stays so. -/
theorem hit_of_step {s s' : System} {e : Event} (h : s.step e = some s') :
    s.group.hit ⊆ s'.group.hit := by
  cases stepOf h with
  | notify w hw =>
    show s.group.hit ⊆ (Group.jobFinished _ w).hit
    rw [jobFinished_hit]
    exact List.Subset.refl _
  | flag jobId phase fanout adrift hnext =>
    show Group.hit { s.group with phase := phase, fanout := fanout, adrift := adrift } ⊆ _
    exact hit_subset_flagged s.table
  | leaves hleaves =>
    rw [System.moveTo, hleaves.frame.hit]
    exact List.Subset.refl _
  | _ => exact List.Subset.refl _

theorem spawnsClean_of_step {s s' : System} {e : Event} (hg : SpawnsClean s.group)
    (h : s.step e = some s') : SpawnsClean s'.group := by
  intro sp' hsp'
  rcases spawning_of_step h hsp' with ⟨sp, hsp, hrecord⟩ | ⟨record, -, hrecord⟩
  · rw [hrecord]
    exact hg sp hsp
  · rw [hrecord]
    rfl

/-- A step of a scope poisons no record but the one that its request hits. -/
theorem poisoned_of_step {s s' : System} {e : Event} {r' : Record} (hg : SpawnsClean s.group)
    (h : s.step e = some s') (hown : ∀ op, e ≠ .backend op) (hr : s'.table jobId = some r')
    (hp : poisoned r' = true) :
    (∃ r, s.table jobId = some r ∧ poisoned r = true) ∨
      (s.group.asks e = some jobId ∧ jobId ∈ s'.group.hit ∧
        ∃ r, s.table jobId = some r ∧ r.status.terminal = false) := by
  have hother : ∀ op : TableOp, (∀ record, op ≠ .create record) → (∀ id, op ≠ .flag id) →
      (∀ finished, op ≠ .write finished) → op.effect s.table jobId = some r' →
      ∃ r, s.table jobId = some r ∧ poisoned r = true := by
    intro op hcreate hflag hwrite heff
    exact poisoned_of_effect heff hp (fun record hop => absurd hop (hcreate record))
      (hflag jobId) fun finished hop => absurd hop (hwrite finished)
  cases stepOf h with
  | backend op hfresh => exact absurd rfl (hown op)
  | enqueue sp hsp created hcreated =>
    refine Or.inl ?_
    by_cases hid : jobId = sp.record.id
    · subst hid
      cases hj : s.table sp.record.id with
      -- the id is known: the record stays as it is
      | some r =>
        have hsame : (TableOp.create sp.record).effect s.table = s.table := by
          simp only [TableOp.effect, hj]
        refine ⟨r', ?_, hp⟩
        rw [← hj, ← hsame]
        exact hr
      -- `Task.submit` builds a clean record
      | none =>
        have hnew : r' = { sp.record with status := .queued } := by
          simpa [TableOp.effect, hj] using hr.symm
        subst hnew
        simp [poisoned, hg sp hsp] at hp
    · have hsame := TableOp.effect_of_ne s.table (.create sp.record) hid
      exact ⟨r', hsame.symm.trans hr, hp⟩
  | take id status => exact Or.inl (hother (.free id) (by simp) (by simp) (by simp) hr)
  | broke id freed =>
    cases freed with
    | true => exact Or.inl (hother (.free id) (by simp) (by simp) (by simp) hr)
    | false => exact Or.inl ⟨r', hr, hp⟩
  | flag id phase fanout adrift hnext =>
    refine (poisoned_of_flag hr hp).imp_right ?_
    rintro ⟨rfl, hhit, hrunning⟩
    exact ⟨hnext.asks, hhit, hrunning⟩
  | _ => exact Or.inl ⟨r', hr, hp⟩

namespace Parent

variable {f : Family} {s s' : Parent} {e : Event}

theorem Unpoisoned.enqueue_clean (h : Unpoisoned f s) {sp : Spawn}
    (hsp : sp ∈ s.system.group.spawning) {r : Record}
    (hr : s.system.table sp.record.id = some r) : poisoned r = false := by
  by_contra hp
  -- only handles are flagged, and a spawn under way has none
  have hhit := h.hit _ r (h.mine sp hsp) hr (Bool.eq_true_of_not_eq_false hp)
  exact h.asked.apart sp hsp (h.asked.issued (h.asked.hit hhit))

/-- The records after a step of the scope. -/
theorem Unpoisoned.hit_step (h : Unpoisoned f s) {e : Scope.Event} {system : System}
    (hs : s.system.step e = some system) (hforeign : foreign f (.scope e) = true)
    (hreports : reportsBack f s (.scope e) = true) {jobId : JobId} {r' : Record}
    (hmine : f.mine jobId = true) (hr : system.table jobId = some r')
    (hp : poisoned r' = true) : jobId ∈ system.group.hit := by
  have hold : (∃ r, s.system.table jobId = some r ∧ poisoned r = true) →
      jobId ∈ system.group.hit := by
    rintro ⟨r, hr, hp⟩
    exact hit_of_step hs (h.hit jobId r hmine hr hp)
  by_cases hown : ∀ op, e ≠ .backend op
  · rcases poisoned_of_step h.fresh hs hown hr hp with hbefore | ⟨-, hhit, -⟩
    · exact hold hbefore
    · exact hhit
  · obtain ⟨op, hop⟩ := not_forall.mp hown
    obtain rfl : e = .backend op := not_not.mp hop
    cases stepOf hs with
    | backend op hfresh =>
      refine hold (poisoned_of_effect hr hp ?_ ?_ ?_)
      · rintro record rfl rfl
        simp [foreign, hmine] at hforeign
      · rintro rfl
        simp [foreign, hmine] at hforeign
      · rintro finished rfl rfl hpoisoned r hr'
        simpa [reportsBack, hmine, hpoisoned, hr'] using hreports
    | flag id phase fanout adrift hnext => cases hnext
    | leaves hleaves =>
      cases hleaves with
      | interrupted e raised he hin => rcases he with he | he <;> cases he
      | torn e raised adrift he hp hadrift => rcases he with he | he | he | he <;> cases he

theorem Unpoisoned.scope (h : Unpoisoned f s) {e : Scope.Event} {system : System}
    (hs : s.system.step e = some system) (hforeign : foreign f (.scope e) = true)
    (hreports : reportsBack f s (.scope e) = true)
    (hspawn : ∀ record, e = .spawn record → f.mine record.id = true) (ordinal : Nat) :
    Unpoisoned f { s with system := system, ordinal := ordinal } where
  asked := h.asked.step hs
  mine sp' hsp' := by
    rcases spawning_of_step hs hsp' with ⟨sp, hsp, hrecord⟩ | ⟨record, he, hrecord⟩
    · rw [hrecord]
      exact h.mine sp hsp
    · rw [hrecord]
      exact hspawn record he
  fresh := spawnsClean_of_step h.fresh hs
  past := h.past
  hit _ _ hmine hr hp := h.hit_step hs hforeign hreports hmine hr hp

/-- A task of an earlier delivery goes on: its enqueue is clean, and its request comes too
late. -/
theorem Unpoisoned.past_step (h : Unpoisoned f s) {n : Nat} {g : Group} (hn : s.past[n]? = some g)
    {e : Scope.Event} {system : System} (hs : System.step ⟨s.system.table, g⟩ e = some system)
    (hown : ∀ op, e ≠ .backend op) (hreports : reportsBack f s (.past n e) = true) :
    Unpoisoned f { s with
      system := ⟨system.table, s.system.group⟩
      past := s.past.set n system.group } where
  asked := h.asked
  mine := h.mine
  fresh := h.fresh
  past g' hg' := by
    rcases List.mem_or_eq_of_mem_set hg' with hold | rfl
    · exact h.past g' hold
    · exact spawnsClean_of_step (s := ⟨s.system.table, g⟩) (h.past g (List.mem_of_getElem? hn)) hs
  hit jobId r' hmine hr hp := by
    have hclean : SpawnsClean g := h.past g (List.mem_of_getElem? hn)
    rcases poisoned_of_step (s := ⟨s.system.table, g⟩) hclean hs hown hr hp with
      ⟨r, hr, hp⟩ | ⟨hasks, -, r, hr, hrunning⟩
    · exact h.hit jobId r hmine hr hp
    · have hasks' : g.asks e = some jobId := hasks
      have hr' : s.system.table jobId = some r := hr
      simp [reportsBack, hn, hasks', isOver, hr', hrunning] at hreports

/-- Every child that was flagged has been consumed, so none of them is left. -/
theorem Unpoisoned.handBack (h : Unpoisoned f s)
    (hreports : reportsBack f s .handBack = true) {jobId : JobId} {r : Record}
    (hmine : f.mine jobId = true) (hr : s.system.table jobId = some r) :
    poisoned r = false := by
  by_contra hp
  have hhit := h.hit jobId r hmine hr (Bool.eq_true_of_not_eq_false hp)
  have hgone : (s.system.table jobId).isNone = true := List.all_eq_true.mp hreports jobId hhit
  rw [hr] at hgone
  cases hgone

theorem Unpoisoned.step (h : Unpoisoned f s) (hforeign : foreign f e = true)
    (hreports : reportsBack f s e = true) (hs : s.step f e = some s') : Unpoisoned f s' := by
  cases e with
  | scope e =>
    cases e with
    | backend op =>
      obtain ⟨system, hsys, rfl⟩ := Option.map_eq_some_iff.mp hs
      exact h.scope hsys hforeign hreports (by simp) s.ordinal
    | spawn record =>
      simp only [Parent.step, Option.ite_none_right_eq_some, Option.map_eq_some_iff] at hs
      obtain ⟨⟨-, hid⟩, system, hsys, rfl⟩ := hs
      refine h.scope hsys hforeign hreports ?_ (s.ordinal + 1)
      rintro _ ⟨⟩
      rw [hid]
      exact f.mine_child s.ordinal
    | _ =>
      simp only [Parent.step, Option.ite_none_left_eq_some, Option.map_eq_some_iff] at hs
      obtain ⟨-, system, hsys, rfl⟩ := hs
      exact h.scope hsys hforeign hreports (by simp) s.ordinal
  | stop =>
    simp only [Parent.step, Option.ite_none_left_eq_some, Option.some.injEq] at hs
    obtain ⟨-, rfl⟩ := hs
    exact ⟨h.asked, h.mine, h.fresh, h.past, h.hit⟩
  | handBack =>
    simp only [Parent.step, Option.ite_none_right_eq_some, Option.some.injEq] at hs
    obtain ⟨-, rfl⟩ := hs
    refine ⟨asked_enter _ _ _, ?_, ?_, fun g hg => ?_, fun jobId r hmine hr hp => ?_⟩
    · simp [Group.enter]
    · simp [SpawnsClean, Group.enter]
    · rcases List.mem_append.mp hg with hold | hnew
      · exact h.past g hold
      · rw [List.mem_singleton.mp hnew]
        exact h.fresh
    · rw [h.handBack hreports hmine hr] at hp
      cases hp
  | redeliver =>
    simp only [Parent.step, Option.ite_none_right_eq_some, Option.some.injEq] at hs
    obtain ⟨-, rfl⟩ := hs
    exact ⟨h.asked, h.mine, h.fresh, h.past, h.hit⟩
  | past n e =>
    simp only [Parent.step] at hs
    split at hs
    case h_1 | h_2 | h_3 => cases hs
    case h_4 e g hbackend hspawn hn =>
      obtain ⟨system, hsys, rfl⟩ := Option.map_eq_some_iff.mp hs
      exact h.past_step hn hsys hbackend hreports

theorem Unpoisoned.findsClean (h : Unpoisoned f s) (hs : s.step f e = some s') :
    FindsClean s e := by
  rintro jobId r rfl hr
  simp only [Parent.step, Option.ite_none_left_eq_some, Option.map_eq_some_iff] at hs
  obtain ⟨-, system, hsys, rfl⟩ := hs
  have hclean : poisoned r = false := by
    cases stepOf hsys with
    | enqueue sp hsp created hcreated => exact h.enqueue_clean hsp hr
    | flag jobId phase fanout adrift hnext => cases hnext
    | leaves hleaves =>
      cases hleaves with
      | interrupted e raised he hin => rcases he with he | he <;> cases he
      | torn e raised adrift he hp hadrift => rcases he with he | he | he | he <;> cases he
  simpa [poisoned] using hclean

/-! ## Whole runs -/

variable (f : Family) (table : Table) (hasDeadline : Bool)

/-- **A shutdown does not poison the redelivery**, in every run in which each child that a
scope has flagged is consumed before `P` is handed back, and no request that is under way
then reaches an unfinished child: a spawn of a later delivery that finds its child stored
finds it neither cancelled nor asked to be. -/
theorem findsClean_along {es : List Event}
    (hclean : ∀ jobId r, f.mine jobId = true → table jobId = some r → poisoned r = false)
    (hforeign : (machine f table hasDeadline).Along (fun _ e _ => foreign f e = true)
      (machine f table hasDeadline).init es)
    (hreports : (machine f table hasDeadline).Along (fun s e _ => reportsBack f s e = true)
      (machine f table hasDeadline).init es) :
    (machine f table hasDeadline).Along (fun s e _ => FindsClean s e)
      (machine f table hasDeadline).init es := by
  refine Machine.along_of_invariant (J := Unpoisoned f)
    (C := fun s e => foreign f e = true ∧ reportsBack f s e = true) ?_ ?_
    (hforeign.and hreports)
  · rintro s e s' h ⟨hf, hr⟩ hs
    exact ⟨h.findsClean hs, h.step hf hr hs⟩
  · refine ⟨asked_enter _ _ _, ?_, ?_, ?_, fun jobId r hmine hr hp => ?_⟩
    · simp [machine, Group.enter]
    · simp [SpawnsClean, machine, Group.enter]
    · simp [machine]
    · rw [hclean jobId r hmine hr] at hp
      cases hp

/-- Ids of the children of `P`, in a store without other jobs. -/
def ordinals : Family where
  child n := String.ofList (List.replicate (n + 1) 'c')
  mine _ := true
  mine_child _ := rfl

/-- A child runs when the pool stops: its own loop releases it, the body of `P` is
interrupted, and the teardown flags the child. -/
def interrupted : List Event :=
  List.map Event.scope (spawns "c" ++ [.backend (.claim "c")]) ++ [.stop] ++
    List.map Event.scope [.backend (.requeue "c"), .bodyRaised, .ask, .ask]

/-- `P` is handed back once its scope has closed, claimed again, and spawns again. -/
def again : List Event := [.scope .settled, .handBack, .redeliver, .scope (.spawn (child "c"))]

/-- Another pool claims the flagged child and cancels it, and the scope hears of it. -/
def cancelledElsewhere : List Event :=
  List.map Event.scope
    [.backend (.claim "c"),
      .backend (.write ({ child "c" with requestCancel := true }.settle [] .cancelled)),
      .take "c", .report "c" false, .reported]

theorem findsClean_cancelledElsewhere :
    (machine ordinals (fun _ => none) false).Along (fun s e _ => FindsClean s e)
      (machine ordinals (fun _ => none) false).init
      (interrupted ++ cancelledElsewhere ++ again ++ [.scope (.enqueue "c")]) :=
  findsClean_along ordinals (fun _ => none) false (by simp) (by decide) (by decide)

/-- Nobody is left to run the child: the wait for its report times out. -/
def timedOut : List Event := List.map Event.scope [.reported, .unwound "c"]

/-- The spawn of the next delivery finds the child flagged, although nobody but the scope has
asked for that. -/
theorem interrupted_poisons :
    (machine ordinals (fun _ => none) false).Along (fun _ e _ => foreign ordinals e = true)
        (machine ordinals (fun _ => none) false).init
        (interrupted ++ timedOut ++ again ++ [.scope (.enqueue "c")]) ∧
      ¬ (machine ordinals (fun _ => none) false).Along (fun s e _ => FindsClean s e)
        (machine ordinals (fun _ => none) false).init
        (interrupted ++ timedOut ++ again ++ [.scope (.enqueue "c")]) := by
  refine ⟨by decide, fun h => ?_⟩
  have hclean := (h.last rfl rfl "c" _ rfl rfl).2
  cases hclean

end Parent

end TaskQueue.Scope
