import TaskQueue.Worker.Fleet
import TaskQueue.Worker.Watcher

/-!
# Cancellations over Redis

The fleet with the watchers of its loops and the ledger of its accepted requests. A
watcher may read the flag at any time (it polls, so it needs no message), and may break
at any time; every other part of the fleet is as free as before: round trips raise,
workers crash and are reaped, records expire.

`lost` is how a cancellation gets lost: two entries of one id are on the queue, a worker
that had claimed the job before the request saves its own result, with the flag it had
read, and the second entry hands the finished record out again.
-/

namespace TaskQueue.Worker

open Redis Fleet

/-- The fleet, the watcher of each loop, and the ledger; `late` are the loops that have
claimed a doomed record. -/
structure Watched where
  fleet : Fleet
  watch : LoopId → Watch
  ledger : Ledger
  late : LoopId → Bool

/-- A move of the fleet; a watcher reads the flag; a watcher breaks. -/
inductive WatchedEvent where
  | fleet (e : Event)
  | look (l : LoopId)
  | breaks (l : LoopId)
deriving DecidableEq

namespace Watched

variable (d : Deployment)

/-- Producers submit jobs that are not cancelled, and a loop cancels its body only when
its watcher has returned. -/
def admits (s : Watched) : Event → Bool
  | .enqueue record => !record.requestCancel
  | .move l m => (s.watch l).admits m
  | _ => true

/-- The ledger after an event that left the records `t`. -/
def note (s : Watched) (e : Event) (t : Table) : Ledger :=
  match e with
  | .requestCancel jobId => (s.ledger.request s.fleet.store.table jobId).settle t
  | _ => s.ledger.settle t

/-- A claim script that the server executes decides whether the delivery is late. -/
def noteClaim (s : Watched) : Event → LoopId → Bool
  | .roundTrip l o =>
    match s.fleet.loops l with
    | .claiming jobId =>
      if o.effect then Function.update s.late l (s.ledger.doomed jobId) else s.late
    | _ => s.late
  | _ => s.late

/-- One event. -/
def step (s : Watched) : WatchedEvent → Option Watched
  | .fleet e =>
    if s.admits e then
      (s.fleet.step d e).map fun f =>
        { fleet := f
          watch := fun l => (s.watch l).next (s.fleet.loops l) (f.loops l)
          ledger := s.note e f.store.table
          late := s.noteClaim e }
    else none
  | .look l =>
    match s.fleet.loops l with
    | .running r =>
      let flag := (s.fleet.store.table r.id).map Record.requestCancel
      some { s with watch := Function.update s.watch l ((s.watch l).read flag) }
    | _ => none
  | .breaks l =>
    some { s with watch := Function.update s.watch l (s.watch l).break }

/-- An empty fleet. -/
def machine : Machine Watched WatchedEvent where
  init := ⟨.init, fun _ => .off, .empty, fun _ => false⟩
  step := step d

/-- A claim that finds a finished record whose cancellation was accepted finds its flag
set. -/
def flagHeld (s : Watched) : WatchedEvent → Bool
  | .fleet (.roundTrip l o) =>
    match s.fleet.loops l with
    | .claiming jobId =>
      !o.effect || (s.fleet.store.table jobId).all fun r =>
        !r.status.terminal || !s.ledger.doomed jobId || r.requestCancel
    | _ => true
  | _ => true

/-! ## The records -/

section

variable {st : Store} {l : Ledger}

/-- What a request, other than one to cancel, does to the ledger's knowledge. -/
theorem sound_after (h : l.Sound st.table) (hcurrent : l.Current st.table) (q : Request)
    (hcancel : ∀ id, q ≠ .requestCancel id)
    (hclean : ∀ record, q = .enqueue record → record.requestCancel = false)
    (hclaim : ∀ id r, q = .claim id → st.table id = some r → r.status.terminal = true →
      l.doomed id = true → r.requestCancel = true)
    (hsave : ∀ worker write ttl, q = .save worker write ttl →
      write.record.requestCancel = true → l.accepted write.record.id = true) :
    l.Sound (q.after st).table := by
  by_cases henq : ∃ record, q = .enqueue record
  · obtain ⟨record, rfl⟩ := henq
    rw [enqueue_table]
    exact h.create hcurrent (hclean record rfl)
  by_cases hcl : ∃ id, q = .claim id
  · obtain ⟨id, rfl⟩ := hcl
    rw [claim_table]
    exact h.claim fun r hr => hclaim id r rfl hr
  -- the other requests write, requeue or free
  obtain ⟨ops, hdoes, htable⟩ := q.refines st
  rw [htable]
  refine h.runOps fun op hop => ?_
  have hkind := hdoes op hop
  cases q with
  | enqueue record => exact absurd ⟨record, rfl⟩ henq
  | claim id => exact absurd ⟨id, rfl⟩ hcl
  | requestCancel id => exact absurd rfl (hcancel id)
  | save worker write ttl =>
    cases op with
    | write f =>
      obtain ⟨hid, -, hflag⟩ := hkind
      intro hset
      rw [hid]
      exact hsave worker write ttl rfl (hflag ▸ hset)
    | _ => exact hkind.elim
  | release worker id | fetchAndDelete id | expire id | reap now ttl =>
    cases op with
    | requeue _ | free _ => trivial
    | _ => exact hkind.elim
  | _ => cases op <;> exact hkind.elim

end

/-! ## The invariant -/

/-- The ledger knows the records, and tells of what each loop does. -/
structure Accounted (s : Watched) : Prop where
  keyed : s.fleet.store.Keyed
  sound : s.ledger.Sound s.fleet.store.table
  current : s.ledger.Current s.fleet.store.table
  loops : ∀ l, Telling s.ledger (s.watch l) (s.late l) (s.fleet.loops l)

theorem accounted_init : (machine d).init.Accounted where
  keyed := Store.keyed_empty
  sound := Ledger.sound_empty _ fun _ _ h => by cases h
  current _ h := by cases h
  loops _ := .of_quiet rfl

/-! ## One step -/

variable {d} {s s' : Watched} {f : Fleet} {e : Event}

/-- What was accepted stays accepted. -/
theorem accepted_note (t : Table) {jobId : JobId} (h : s.ledger.accepted jobId = true) :
    (s.note e t).accepted jobId = true := by
  cases e with
  | requestCancel id => exact Ledger.accepted_request s.ledger _ id h
  | _ => exact h

theorem current_note (s : Watched) (e : Event) (t : Table) : (s.note e t).Current t := by
  cases e <;> exact Ledger.current_settle _ t

/-- The claim that a loop makes under `flagHeld`. -/
theorem flag_of_held {l : LoopId} {o : Outcome} {jobId : JobId} {r : Record}
    (h : s.flagHeld (.fleet (.roundTrip l o)) = true) (hl : s.fleet.loops l = .claiming jobId)
    (ho : o.effect = true) (hr : s.fleet.store.table jobId = some r)
    (ht : r.status.terminal = true) (hdoomed : s.ledger.doomed jobId = true) :
    r.requestCancel = true := by
  simpa [flagHeld, hl, ho, hr, ht, hdoomed] using h

theorem Accounted.sound_step (h : s.Accounted) (hf : s.fleet.step d e = some f)
    (hadm : s.admits e = true) (hheld : s.flagHeld (.fleet e) = true) :
    (s.note e f.store.table).Sound f.store.table := by
  have hstore := step_store d hf
  by_cases hcancel : ∃ id, e = .requestCancel id
  · obtain ⟨id, rfl⟩ := hcancel
    have hafter : f.store = (Request.requestCancel id).after s.fleet.store := hstore
    refine Ledger.Sound.settle ?_
    rw [hafter, requestCancel_table]
    exact h.sound.flag id
  · have hnote : s.note e f.store.table = s.ledger.settle f.store.table := by
      cases e with
      | requestCancel id => exact absurd ⟨id, rfl⟩ hcancel
      | _ => rfl
    rw [hnote]
    refine Ledger.Sound.settle ?_
    rw [hstore]
    cases hq : s.fleet.request d e with
    | none => exact h.sound
    | some q =>
      refine sound_after h.sound h.current q ?_ ?_ ?_ ?_
      · rintro id rfl
        refine hcancel ⟨id, ?_⟩
        rcases pending_of_request d hq with ⟨l, o, -, -, hpending⟩ | hother
        · rw [pending] at hpending
          cases hl : s.fleet.loops l <;> simp [hl, Phase.request] at hpending
        · cases e with
          | requestCancel id' =>
            cases hq
            rfl
          | roundTrip l o => exact absurd rfl (hother l o)
          | fetch c =>
            simp only [request] at hq
            split at hq <;> cases hq
          | _ => cases hq
      · rintro record rfl
        obtain rfl := enqueue_of_request d hq
        simpa [admits] using hadm
      · rintro id r rfl hr ht hdoomed
        obtain ⟨l, o, rfl, ho, hl⟩ := claiming_of_request d hq
        exact flag_of_held hheld hl ho hr ht hdoomed
      · rintro worker write ttl rfl hset
        obtain ⟨l, o, attempt, acked, rfl, hl⟩ := saving_of_request d hq
        exact (h.loops l).writing write attempt acked hl (Or.inr hset)

/-- A claim returns what is stored, marked; a late one finds the flag set. -/
theorem Accounted.claimed (h : s.Accounted) {l : LoopId} {o : Outcome} {id : JobId}
    (hl : s.fleet.loops l = .claiming id) (hheld : s.flagHeld (.fleet (.roundTrip l o)) = true) :
    Telling s.ledger (s.watch l) (s.noteClaim (.roundTrip l o) l)
      ((Phase.claiming id).resume o
        (serve s.fleet.store (if o.effect then some (.claim id) else none)).2) := by
  cases o with
  | reply =>
    cases hj : s.fleet.store.jobs id with
    | none =>
      simp only [Outcome.effect, if_true, serve, Request.exec, claimScript_of_none hj,
        Reply.ofRecord, Phase.resume]
      exact Telling.of_quiet rfl
    | some x =>
      simp only [Outcome.effect, if_true, serve, Request.exec, claimScript_of_some hj,
        Reply.ofRecord, Phase.resume]
      have htable : s.fleet.store.table id = some x.record := table_of_some hj
      have hid : x.record.id = id := h.keyed id x hj
      refine Telling.decoding ?_ ?_
      · intro hset
        show s.ledger.accepted x.record.id = true
        rw [hid]
        exact h.sound.honest id x.record htable hset
      · intro hlate
        have hdoomed : s.ledger.doomed id = true := by
          simpa [noteClaim, hl, Outcome.effect] using hlate
        show x.record.requestCancel = true
        rcases h.sound.held id x.record hdoomed htable with hset | hdone
        · exact hset
        · exact flag_of_held hheld hl rfl htable hdone hdoomed
  | raised effect error => exact Telling.of_quiet rfl
  | cancelled effect => exact Telling.of_quiet rfl

/-- A claim is noted for the loop that makes it. -/
theorem noteClaim_of_ne {l l' : LoopId} {o : Outcome} (hl : l ≠ l') :
    s.noteClaim (.roundTrip l' o) l = s.late l := by
  cases hp : s.fleet.loops l' with
  | claiming id =>
    simp only [noteClaim, hp]
    split
    · exact Function.update_of_ne hl _ _
    · rfl
  | _ => simp only [noteClaim, hp]

/-- Other round trips leave a loop as late as it was. -/
theorem noteClaim_of_not_claiming {l : LoopId} {o : Outcome}
    (h : ∀ id, s.fleet.loops l ≠ .claiming id) : s.noteClaim (.roundTrip l o) = s.late := by
  cases hp : s.fleet.loops l with
  | claiming id => exact absurd hp (h id)
  | _ => simp only [noteClaim, hp]

theorem Accounted.loops_step (h : s.Accounted) (hf : s.fleet.step d e = some f)
    (hadm : s.admits e = true) (hheld : s.flagHeld (.fleet e) = true) (l : LoopId) :
    Telling (s.note e f.store.table) ((s.watch l).next (s.fleet.loops l) (f.loops l))
      (s.noteClaim e l) (f.loops l) := by
  refine Telling.mono ?_ fun id => accepted_note f.store.table
  have hsame : s.noteClaim e l = s.late l → f.loops l = s.fleet.loops l →
      Telling s.ledger ((s.watch l).next (s.fleet.loops l) (f.loops l)) (s.noteClaim e l)
        (f.loops l) := by
    intro hlate hphase
    rw [hlate, hphase, Watch.next_of_ne _ fun r => id]
    exact h.loops l
  cases stepOf d hf with
  | moved l' m p hlive hadmits hp =>
    by_cases hl : l = l'
    · subst hl
      simp only [Function.update_self]
      exact (h.loops l).move hadm hp
    · exact hsame rfl (Function.update_of_ne hl _ _)
  | answered l' o q hup hq hend =>
    by_cases hl : l = l'
    · subst hl
      simp only [Function.update_self]
      rw [Watch.next_of_ne _ fun r => Phase.running_of_resume]
      by_cases hclaiming : ∃ id, s.fleet.loops l = .claiming id
      · obtain ⟨id, hphase⟩ := hclaiming
        simp only [pending, hphase, Phase.request, Option.some.injEq] at hq
        subst hq
        rw [hphase]
        exact h.claimed hphase hheld
      · have hne : ∀ id, s.fleet.loops l ≠ .claiming id := fun id hp => hclaiming ⟨id, hp⟩
        rw [noteClaim_of_not_claiming hne]
        exact (h.loops l).resume hne o _
    · exact hsame (noteClaim_of_ne hl) (Function.update_of_ne hl _ _)
  | elsewhere e s' hm hr hloops hstore hcrash =>
    refine hsame ?_ (congrFun hloops l)
    cases e with
    | roundTrip l' o => exact absurd rfl (hr l' o)
    | _ => rfl

/-- A watcher that returns has read a flag, which an accepted request has set. -/
theorem Accounted.look (h : s.Accounted) {l : LoopId} {r : Record}
    (hl : s.fleet.loops l = .running r) :
    Telling s.ledger ((s.watch l).read ((s.fleet.store.table r.id).map Record.requestCancel))
      (s.late l) (s.fleet.loops l) := by
  refine (h.loops l).watch fun hreturned => ?_
  by_cases hbefore : s.watch l = .returned
  · exact Or.inl hbefore
  right
  intro r' hr'
  rw [hl] at hr'
  cases hr'
  cases hr : s.fleet.store.table r.id with
  | none =>
    rw [hr] at hreturned
    cases hw : s.watch l <;> simp [hw, Watch.read] at hreturned hbefore
  | some stored =>
    cases hflag : stored.requestCancel with
    | true => exact h.sound.honest r.id stored hr hflag
    | false =>
      rw [hr, Option.map_some, hflag] at hreturned
      cases hw : s.watch l <;> simp [hw, Watch.read] at hreturned hbefore

theorem Accounted.step {e : WatchedEvent} (h : s.Accounted) (hs : s.step d e = some s')
    (hheld : s.flagHeld e = true) : s'.Accounted := by
  cases e with
  | fleet e =>
    simp only [Watched.step, Option.ite_none_right_eq_some, Option.map_eq_some_iff] at hs
    obtain ⟨hadm, f, hf, rfl⟩ := hs
    refine ⟨?_, h.sound_step hf hadm hheld, current_note s e _, h.loops_step hf hadm hheld⟩
    show f.store.Keyed
    rw [step_store d hf]
    cases hq : s.fleet.request d e with
    | none => exact h.keyed
    | some q => exact q.keyed h.keyed
  | look l =>
    simp only [Watched.step] at hs
    split at hs
    · rename_i r hl
      cases hs
      refine ⟨h.keyed, h.sound, h.current, fun l' => ?_⟩
      by_cases hll : l' = l
      · subst hll
        simp only [Function.update_self]
        exact h.look hl
      · simp only [Function.update_of_ne hll]
        exact h.loops l'
    · cases hs
  | breaks l =>
    cases hs
    refine ⟨h.keyed, h.sound, h.current, fun l' => ?_⟩
    by_cases hll : l' = l
    · subst hll
      simp only [Function.update_self]
      refine (h.loops l').watch fun hreturned => Or.inl ?_
      cases hw : s.watch l' <;> simp [hw, Watch.break] at hreturned ⊢
    · simp only [Function.update_of_ne hll]
      exact h.loops l'

/-- Over Redis, cancellation is exact in every run in which a claim that finds a finished
record whose cancellation was accepted finds its flag set. -/
theorem exact_along (d : Deployment) {es : List WatchedEvent}
    (h : (machine d).Along (fun s e _ => s.flagHeld e = true) (machine d).init es) :
    (machine d).Along (fun _ _ s' => Exact s'.fleet.loops s'.late s'.ledger)
      (machine d).init es := by
  refine Machine.along_of_invariant (J := Accounted) (C := fun s e => s.flagHeld e = true) ?_
    (accounted_init d) h
  intro s e s' hs hheld hstep
  have hs' : s'.Accounted := hs.step hstep hheld
  exact ⟨exact_of_telling hs'.loops, hs'⟩

end Watched

end TaskQueue.Worker
