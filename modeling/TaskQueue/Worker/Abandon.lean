import Mathlib.Data.Set.Card
import TaskQueue.Redis.Leases
import TaskQueue.Worker.Fleet

/-!
# Leases of a worker that is alive

A worker that keeps its heartbeat fresh is never reaped, so what its own loops
leave on its processing list stays there. `NoAbandoned` says that every id on the
list is one that some loop of the worker handles. Round trips may raise or be
cancelled before or after they took effect, records may fail to decode, bodies may end in
anything, and loops may be cancelled at any `await`; only the `BLMOVE` is reliable (`beating`).

`settlesLease` lists the ways in which a loop stops handling a job, and for each
of them the condition under which nothing is left behind. The invariant behind it
counts: an id is on the list at most as often as there are loops delivering it
(`Accounted`), because an `LREM` may remove the occurrence that another loop of
the same worker put there.
-/

namespace TaskQueue.Worker

open Redis Placement

namespace Phase

/-- A move that does not let a job go. A loop lets it go when the record does not decode, when
`_run` raises before it saves or runs the job, and when it comes out of a run of which no save
succeeded: both failed, or none was sent. -/
def settlesOn (c : PoolConfig) : Phase → Move → Bool
  | .decoding record, .decode _ => c.serves record
  | .unwinding _ false, .unwound | .dying _, .unwound => false
  | _, _ => true

theorem dispatch_delivery {c : PoolConfig} {record : Record} (payload : Blob)
    (h : c.takesOn record = true) : (dispatch c payload record).delivery = some record.id := by
  rcases dispatch_cases c payload record with ⟨hrun, -⟩ | ⟨o, hsave⟩ | ⟨-, hraises⟩
  · rw [hrun]
    rfl
  · rw [hsave]
    simp [delivery, acked, handles]
  · rw [h] at hraises
    cases hraises

/-- Such a move keeps the delivery. -/
theorem move_delivery_of_settles {c : PoolConfig} {m : Move} {p p' : Phase}
    (h : p.move c m = some p') (hon : p.settlesOn c m = true) : p'.delivery = p.delivery := by
  cases p with
  | idle => cases m <;> simp [move] at h <;> subst h <;> rfl
  | decoding record =>
    cases m with
    | decode payload =>
      simp only [settlesOn, PoolConfig.serves, Bool.and_eq_true] at hon
      simp only [move, if_pos hon.1, Option.some.injEq] at h
      subst h
      exact dispatch_delivery payload hon.2
    | _ => cases h
  | running record =>
    cases m with
    | finish payload o =>
      cases h
      simp [delivery, acked, handles]
    | unsendable =>
      cases h
      rfl
    | fatal =>
      cases h
      rfl
    | cancel =>
      cases h
      rfl
    | _ => cases h
  | unwinding jobId acked =>
    cases m with
    | unwound =>
      cases acked with
      | false => cases hon
      | true =>
        cases h
        rfl
    | cancel =>
      cases h
      rfl
    | _ => cases h
  | dying jobId =>
    cases m with
    | unwound => cases hon
    | cancel =>
      cases h
      rfl
    | _ => cases h
  | _ => cases m <;> cases h

/-- A round trip that does not let a job go, or takes its id off the list: the claim
script is not cancelled; the compensating `MULTI` and the discard take effect; an
early save takes effect on a stored record, or is cancelled; the release takes
effect on a RUNNING record. -/
def settlesBy (st : Store) : Phase → Outcome → Bool
  | .claiming _, .cancelled _ => false
  | .returning _, o | .discarding _, o => o.effect
  | .saving _ .early false, .cancelled _ => true
  | .saving write .early false, o => o.effect && (st.jobs write.record.id).isSome
  | .releasing jobId false, o =>
    o.effect && (st.jobs jobId).any fun e => e.record.status = .running
  | _, _ => true

end Phase

namespace Fleet

variable (d : Deployment) (worker : InstanceId)

/-! ## The runs and the condition -/

/-- No reaper finds `worker` expired, and what its `BLMOVE` takes from the queue
reaches the loop. -/
def beating (s : Fleet) : Event → Bool
  | .reap peer now => worker ∉ expired s.store now (d.ttls peer).workerTtl
  | .roundTrip l o =>
    match s.loops l with
    | .polling => l.process ≠ worker || o = .reply || !o.effect
    | _ => true
  | _ => true

/-- The loops of `worker` stop handling a job whose id is on the worker's list
only by a move or a round trip that settles it. -/
def settlesLease (s : Fleet) (e : Event) : Bool :=
  let clear (l : LoopId) : Bool := l.process ≠ worker ||
    (s.loops l).handles.all fun jobId => jobId ∉ s.store.lists (.processing worker)
  match e with
  | .move l m => clear l || (s.loops l).settlesOn (d.config l.pool) m
  | .roundTrip l o => clear l || (s.loops l).settlesBy s.store o
  | _ => true

/-- Every id on the worker's list is handled by a loop of the worker. -/
def NoAbandoned (s : Fleet) : Prop :=
  ∀ jobId ∈ s.store.lists (.processing worker),
    ∃ l : LoopId, l.process = worker ∧ (s.loops l).handles = some jobId

/-! ## The counting invariant -/

/-- The loops of `worker` that deliver `jobId`. -/
def deliverers (s : Fleet) (jobId : JobId) : Set LoopId :=
  {l | l.process = worker ∧ (s.loops l).delivery = some jobId}

/-- Each id is on the worker's list at most as often as loops deliver it. -/
def Accounted (s : Fleet) : Prop :=
  ∀ jobId, (occ s.store.lists jobId (.processing worker) : ℕ∞)
    ≤ (s.deliverers worker jobId).encard

theorem accounted_init : Accounted worker init := fun _ => zero_le

variable {worker}

theorem Accounted.noAbandoned {s : Fleet} (h : Accounted worker s) :
    NoAbandoned worker s := by
  intro jobId hmem
  have hpos := occ_pos_iff.mpr hmem
  have hne : (s.deliverers worker jobId).Nonempty := by
    rw [← Set.encard_pos]
    exact lt_of_lt_of_le (by exact_mod_cast hpos) (h jobId)
  obtain ⟨l, hl, hdel⟩ := hne
  refine ⟨l, hl, ?_⟩
  rw [Phase.delivery] at hdel
  split at hdel
  · cases hdel
  · exact hdel

/-- How one loop's step may change the list and the loop's delivery of one job:
the delivery stays and the list does not grow; or the list loses an occurrence, if
it had one; or the loop takes on the job and the list gains one. -/
inductive Balanced (n n' : Nat) (mine before after : Prop) : Prop where
  | kept (hle : n' ≤ n) (h : mine → before → after)
  | dropped (hle : n' ≤ n - 1)
  | leased (hle : n' ≤ n + 1) (hmine : mine) (hbefore : ¬ before) (hafter : after)

/-- **The step rule.** If every job is balanced, the jobs stay accounted for. -/
theorem Accounted.update {s : Fleet} (h : Accounted worker s) {l : LoopId} {p : Phase}
    {st : Store} (hbal : ∀ jobId, Balanced (occ s.store.lists jobId (.processing worker))
      (occ st.lists jobId (.processing worker)) (l.process = worker)
      ((s.loops l).delivery = some jobId) (p.delivery = some jobId)) :
    Accounted worker { s with store := st, loops := Function.update s.loops l p } := by
  intro jobId
  have hcount := h jobId
  -- loops other than `l` deliver what they did
  have hother : ∀ l', l' ≠ l → l' ∈ s.deliverers worker jobId →
      l' ∈ deliverers worker { s with store := st, loops := Function.update s.loops l p }
        jobId := by
    rintro l' hne ⟨hl', hdel⟩
    exact ⟨hl', by simpa only [Function.update_of_ne hne] using hdel⟩
  cases hbal jobId with
  | kept hle hkeep =>
    refine le_trans (by exact_mod_cast hle) (hcount.trans (Set.encard_le_encard ?_))
    intro l' hl'
    by_cases hne : l' = l
    · subst hne
      refine ⟨hl'.1, ?_⟩
      simpa only [Function.update_self] using hkeep hl'.1 hl'.2
    · exact hother l' hne hl'
  | dropped hle =>
    calc (occ st.lists jobId (.processing worker) : ℕ∞)
        ≤ (occ s.store.lists jobId (.processing worker) - 1 : ℕ) := by exact_mod_cast hle
      _ ≤ (s.deliverers worker jobId).encard - 1 := by
          rw [ENat.natCast_sub]
          exact tsub_le_tsub_right hcount 1
      _ ≤ (s.deliverers worker jobId \ {l}).encard :=
          Set.encard_tsub_one_le_encard_sdiff_singleton _ _
      _ ≤ _ := Set.encard_le_encard fun l' hl' => hother l' hl'.2 hl'.1
  | leased hle hmine hbefore hafter =>
    have hnot : l ∉ s.deliverers worker jobId := fun hl => hbefore hl.2
    calc (occ st.lists jobId (.processing worker) : ℕ∞)
        ≤ (occ s.store.lists jobId (.processing worker) : ℕ∞) + 1 := by exact_mod_cast hle
      _ ≤ (s.deliverers worker jobId).encard + 1 := by gcongr
      _ = (insert l (s.deliverers worker jobId)).encard :=
          (Set.encard_insert_of_notMem hnot).symm
      _ ≤ _ := Set.encard_le_encard ?_
    rintro l' (rfl | hl')
    · exact ⟨hmine, by simpa only [Function.update_self] using hafter⟩
    · exact hother l' (fun he => hnot (he ▸ hl')) hl'

/-! ## One step -/

variable {d}

/-- A change that concerns another worker's loop, or no delivery, is balanced. -/
theorem Balanced.of_le {n n' : Nat} {mine before after : Prop} (hle : n' ≤ n)
    (h : mine → ¬ before) : Balanced n n' mine before after :=
  .kept hle fun hm hb => absurd hb (h hm)

theorem handles_of_delivery {p : Phase} {jobId : JobId} (h : p.delivery = some jobId) :
    p.handles = some jobId ∧ p.acked = false := by
  rw [Phase.delivery] at h
  split at h
  · cases h
  · exact ⟨h, by simpa using ‹¬ p.acked = true›⟩

/-- A loop of the worker that may let its job go although nothing settles it: the
id is not on the list. -/
theorem not_listed_of_clear {s : Fleet} {l : LoopId} {jobId : JobId} {settles : Bool}
    (hmine : l.process = worker) (hdel : (s.loops l).delivery = some jobId)
    (h : (l.process ≠ worker || (s.loops l).handles.all
      (fun jobId => jobId ∉ s.store.lists (.processing worker)) || settles) = true)
    (hnot : settles = false) : occ s.store.lists jobId (.processing worker) = 0 := by
  rw [(handles_of_delivery hdel).1, hnot] at h
  simpa [hmine, occ_eq_zero_iff] using h

theorem Accounted.moved {s : Fleet} (h : Accounted worker s) {l : LoopId} {m : Move}
    {p : Phase} (hp : (s.loops l).move (d.config l.pool) m = some p)
    (hsettles : settlesLease d worker s (.move l m) = true) :
    Accounted worker { s with loops := Function.update s.loops l p } := by
  refine h.update fun jobId => ?_
  by_cases hown : l.process = worker ∧ (s.loops l).delivery = some jobId
  · obtain ⟨hmine, hdel⟩ := hown
    cases hon : (s.loops l).settlesOn (d.config l.pool) m with
    | false => exact .dropped (by rw [not_listed_of_clear hmine hdel hsettles hon])
    | true =>
      exact .kept (Nat.le_refl _) fun _ _ => (Phase.move_delivery_of_settles hp hon).trans hdel
  · exact .of_le (Nat.le_refl _) fun hmine hdel => hown ⟨hmine, hdel⟩

/-- The database after an answered round trip. -/
def served (s : Fleet) (o : Outcome) (q : Request) : Store × Reply :=
  serve s.store (if o.effect then some q else none)

theorem served_of_effect {s : Fleet} {o : Outcome} {q : Request} (h : o.effect = true) :
    served s o q = q.exec s.store := by
  rw [served, if_pos h, serve]

theorem served_of_not_effect {s : Fleet} {o : Outcome} {q : Request} (h : o.effect = false) :
    served s o q = (s.store, .nil) := by
  rw [served, if_neg (by simp [h]), serve]

/-- The round trip of a loop of the worker that is delivering `jobId`: the delivery
goes on, or the list loses an occurrence. -/
theorem kept_or_dropped {s : Fleet} (hkeyed : s.store.Keyed) {l : LoopId} {o : Outcome}
    {q : Request} {jobId : JobId} (hmine : l.process = worker)
    (hdel : (s.loops l).delivery = some jobId) (hq : s.pending d l = some q)
    (hby : (s.loops l).settlesBy s.store o = true) :
    ((s.loops l).resume o (served s o q).2).delivery = some jobId ∨
      occ (served s o q).1.lists jobId (.processing worker)
        ≤ occ s.store.lists jobId (.processing worker) - 1 := by
  rw [pending] at hq
  subst hmine
  cases hp : s.loops l with
  | claiming id =>
    rw [hp] at hdel hq hby
    cases hdel
    cases hq
    refine Or.inl ?_
    cases o with
    | reply =>
      cases hj : s.store.jobs jobId with
      | none =>
        simp only [served_of_effect (show Outcome.reply.effect = true from rfl),
          Request.exec, claimScript_of_none hj, Reply.ofRecord]
        rfl
      | some e =>
        simp only [served_of_effect (show Outcome.reply.effect = true from rfl),
          Request.exec, claimScript_of_some hj, Reply.ofRecord]
        exact congrArg some (hkeyed jobId e hj)
    | raised effect error => rfl
    | cancelled effect => cases hby
  | returning id =>
    rw [hp] at hdel hq hby
    cases hdel
    cases hq
    refine Or.inr ?_
    rw [served_of_effect hby]
    show occ ((Request.returnLease l.process jobId).after s.store).lists jobId _ ≤ _
    rw [after_returnLease_lists, occ_push_elsewhere (by simp), occ_drop_self]
  | discarding id =>
    rw [hp] at hdel hq hby
    cases hdel
    cases hq
    refine Or.inr ?_
    rw [served_of_effect hby]
    show occ ((Request.discardLease l.process jobId).after s.store).lists jobId _ ≤ _
    rw [after_discardLease_lists, occ_drop_self]
  | saving write attempt acked =>
    rw [hp] at hdel hq hby
    cases acked with
    | true => cases hdel
    | false =>
      cases hdel
      cases hq
      by_cases hdone : o.effect = true ∧ (s.store.jobs write.record.id).isSome = true
      · obtain ⟨heff, hsome⟩ := hdone
        obtain ⟨e, he⟩ := Option.isSome_iff_exists.mp hsome
        refine Or.inr ?_
        rw [served_of_effect heff]
        show occ ((Request.save l.process write _).after s.store).lists _ _ ≤ _
        rw [after_save_some l.process he, occ_drop_self]
      · -- the save changed nothing, and its reply does not say that it did
        refine Or.inl ?_
        have hcode : (o.effect && decide ((served s o (.save l.process write
            (d.ttls l.process).resultTtl)).2 = .code 1)) = false := by
          cases heff : o.effect with
          | false => rfl
          | true =>
            have hnone : s.store.jobs write.record.id = none := by
              simpa [heff] using hdone
            simp [served_of_effect heff, Request.exec, saveScript_of_none hnone]
        cases o with
        | reply =>
          have hne : (served s .reply (.save l.process write
              (d.ttls l.process).resultTtl)).2 ≠ .code 1 := by
            simpa [Outcome.effect] using hcode
          cases attempt with
          | early =>
            have : (s.store.jobs write.record.id).isSome = true := by
              simpa [Phase.settlesBy, Outcome.effect] using hby
            exact absurd ⟨rfl, this⟩ hdone
          | first => simp [Phase.resume, hne, Phase.saveFailed, Phase.delivery,
              Phase.acked, Phase.handles]
          | fallback => simp [Phase.resume, hne, Phase.saveFailed, Phase.delivery,
              Phase.acked, Phase.handles]
        | raised effect error =>
          cases attempt with
          | early =>
            have : effect = true ∧ (s.store.jobs write.record.id).isSome = true := by
              simpa [Phase.settlesBy, Outcome.effect] using hby
            exact absurd this hdone
          | first => cases error <;> simp [Phase.resume, hcode, Phase.saveFailed, Phase.delivery,
              Phase.acked, Phase.handles]
          | fallback => simp [Phase.resume, hcode, Phase.saveFailed, Phase.delivery,
              Phase.acked, Phase.handles]
        | cancelled effect =>
          simp [Phase.resume, hcode, Phase.delivery, Phase.acked, Phase.handles]
  | releasing id acked =>
    rw [hp] at hdel hq hby
    cases acked with
    | true => cases hdel
    | false =>
      cases hdel
      cases hq
      simp only [Phase.settlesBy, Bool.and_eq_true] at hby
      obtain ⟨heff, hany⟩ := hby
      refine Or.inr ?_
      rw [served_of_effect heff]
      cases hj : s.store.jobs jobId with
      | none =>
        rw [hj] at hany
        cases hany
      | some e =>
        have hs : e.record.status = .running := by simpa [hj] using hany
        show occ ((Request.release l.process jobId).after s.store).lists jobId _ ≤ _
        rw [after_release_of_running l.process hj hs, occ_push_elsewhere (by simp),
          occ_drop_self]
  | idle => rw [hp] at hdel; cases hdel
  | polling => rw [hp] at hdel; cases hdel
  | decoding record => rw [hp] at hq; cases hq
  | running record => rw [hp] at hq; cases hq
  | unwinding id acked => rw [hp] at hq; cases hq
  | dying id => rw [hp] at hq; cases hq
  | ended => rw [hp] at hdel; cases hdel

/-- The `BLMOVE` of a loop: it takes on the id that the list gains. -/
theorem balanced_polling {s : Fleet} {l : LoopId} {o : Outcome} {q : Request}
    (hp : s.loops l = .polling) (hq : s.pending d l = some q)
    (hbeat : beating d worker s (.roundTrip l o) = true) (jobId : JobId) :
    Balanced (occ s.store.lists jobId (.processing worker))
      (occ (served s o q).1.lists jobId (.processing worker)) (l.process = worker)
      ((s.loops l).delivery = some jobId)
      (((s.loops l).resume o (served s o q).2).delivery = some jobId) := by
  have hnone : (s.loops l).delivery ≠ some jobId := by
    rw [hp]
    exact fun h => by cases h
  rw [pending, hp] at hq
  cases hq
  cases heff : o.effect with
  | false =>
    rw [served_of_not_effect heff]
    exact .of_le (Nat.le_refl _) fun _ => hnone
  | true =>
    rw [served_of_effect heff]
    by_cases hmine : l.process = worker
    · subst hmine
      obtain rfl : o = .reply := by simpa [beating, hp, heff] using hbeat
      cases hl : s.store.lists .queue with
      | nil =>
        simp only [Request.exec, blmove_nil hl]
        exact .of_le (Nat.le_refl _) fun _ => hnone
      | cons id rest =>
        simp only [Request.exec, blmove_cons hl, hp]
        by_cases hid : jobId = id
        · subst hid
          refine .leased ?_ trivial (fun h => by cases h) rfl
          rw [Store.rpush_lists, occ_push_self, Store.lrem_lists,
            occ_drop_elsewhere (by simp)]
        · refine .of_le ?_ fun _ h => by cases h
          rw [Store.rpush_lists, Store.lrem_lists, occ_repush_of_ne hid]
    · refine .of_le ?_ fun h => absurd h hmine
      exact (Request.blmove l.process).occ_processing_le s.store jobId
        (fun h => hmine (by cases h; rfl)) (fun _ _ h => by cases h)

theorem Accounted.answered {s : Fleet} (h : Accounted worker s) (hkeyed : s.store.Keyed)
    {l : LoopId} {o : Outcome} {q : Request} (hq : s.pending d l = some q)
    (hbeat : beating d worker s (.roundTrip l o) = true)
    (hsettles : settlesLease d worker s (.roundTrip l o) = true) :
    Accounted worker { s with
      store := (served s o q).1
      loops := Function.update s.loops l ((s.loops l).resume o (served s o q).2) } := by
  refine h.update fun jobId => ?_
  by_cases hp : s.loops l = .polling
  · exact balanced_polling hp hq hbeat jobId
  · have hle : occ (served s o q).1.lists jobId (.processing worker)
        ≤ occ s.store.lists jobId (.processing worker) := by
      cases heff : o.effect with
      | false => rw [served_of_not_effect heff]
      | true =>
        rw [served_of_effect heff]
        refine q.occ_processing_le s.store jobId ?_ ?_
        · rintro rfl
          rw [pending] at hq
          cases hl : s.loops l <;> simp [hl, Phase.request] at hq hp
        · rintro now ttl rfl
          rw [pending] at hq
          cases hl : s.loops l <;> simp [hl, Phase.request] at hq
    by_cases hown : l.process = worker ∧ (s.loops l).delivery = some jobId
    · obtain ⟨hmine, hdel⟩ := hown
      cases hby : (s.loops l).settlesBy s.store o with
      | false =>
        have hzero := not_listed_of_clear hmine hdel hsettles hby
        exact .dropped (by omega)
      | true =>
        rcases kept_or_dropped hkeyed hmine hdel hq hby with hkept | hdropped
        · exact .kept hle fun _ _ => hkept
        · exact .dropped hdropped
    · exact .of_le hle fun hmine hdel => hown ⟨hmine, hdel⟩

theorem Accounted.step {s s' : Fleet} {e : Event} (h : Accounted worker s)
    (hkeyed : s.store.Keyed) (hs : s.step d e = some s')
    (hbeat : beating d worker s e = true) (hsettles : settlesLease d worker s e = true) :
    Accounted worker s' := by
  cases stepOf d hs with
  | moved l m p hlive hadm hp => exact h.moved hp hsettles
  | answered l o q hup hq hend => exact h.answered hkeyed hq hbeat hsettles
  | elsewhere _ _ hm hr hloops hstore hcrash =>
    intro jobId
    have hsame : s'.deliverers worker jobId = s.deliverers worker jobId := by
      simp only [deliverers, hloops]
    rw [hsame, hstore]
    refine le_trans ?_ (h jobId)
    cases hq : s.request d e with
    | none => exact le_refl _
    | some q =>
      refine Nat.cast_le.mpr (q.occ_processing_le s.store jobId ?_ ?_)
      · rintro rfl
        cases e with
        | roundTrip l o => exact absurd rfl (hr l o)
        | fetch c =>
          simp only [request] at hq
          split at hq <;> cases hq
        | _ => cases hq
      · rintro now ttl rfl
        cases e with
        | roundTrip l o => exact absurd rfl (hr l o)
        | reap peer now' =>
          cases hq
          simpa [beating] using hbeat
        | fetch c =>
          simp only [request] at hq
          split at hq <;> cases hq
        | _ => cases hq

/-! ## Whole runs -/

variable (d worker)

/-- **A live worker abandons no lease**, in a run in which every move and every
round trip that lets a listed job go settles it. -/
theorem noAbandoned_along {es : List Event}
    (hbeat : (machine d).Along (fun s e _ => beating d worker s e = true) init es)
    (hsettles : (machine d).Along (fun s e _ => settlesLease d worker s e = true) init es) :
    (machine d).Along (fun _ _ s' => NoAbandoned worker s') init es := by
  refine Machine.along_of_invariant (J := fun s => s.store.Keyed ∧ Accounted worker s)
    (C := fun s e => beating d worker s e = true ∧ settlesLease d worker s e = true) ?_
    ⟨Store.keyed_empty, accounted_init worker⟩ (hbeat.and hsettles)
  rintro s e s' ⟨hkeyed, h⟩ ⟨hb, hc⟩ hs
  have hkeyed' : s'.store.Keyed := by
    rw [step_store d hs]
    cases s.request d e with
    | none => exact hkeyed
    | some q => exact q.keyed hkeyed
  have h' := h.step hkeyed hs hb hc
  exact ⟨h'.noAbandoned, hkeyed', h'⟩

/-- A claim script fails and its lease is returned; the next delivery is
interrupted by a shutdown and released. -/
def handedBack : List Event :=
  [.enqueue job, .start ⟨"a", 0⟩ 0] ++ leases loopA ++
    [.roundTrip loopA (.raised false (some "timeout")), .roundTrip loopA .reply] ++ claims loopA ++
    [.beat ⟨"a", 0⟩ 10, .drain ⟨"a", 0⟩, .move loopA .cancel, .roundTrip loopA .reply]

theorem noAbandoned_handedBack :
    (machine solo).Along (fun _ _ s' => NoAbandoned "a" s') init handedBack :=
  noAbandoned_along solo "a" (by decide) (by decide)

/-- The worker's serializer can load no payload. -/
def poisoned : Deployment :=
  { solo with config := fun _ => { anyTask with loadsPayload := fun _ => false } }

/-- The record does not decode: the loop logs it and claims again. -/
def poisonRecord : List Event :=
  [.enqueue job, .start ⟨"a", 0⟩ 0] ++ claims loopA

/-- The id stays on the list of the worker, which no loop handles and, the worker
being alive, no reaper empties. -/
theorem poisonRecord_abandoned :
    (machine poisoned).Along (fun s e _ => beating poisoned "a" s e = true) init poisonRecord ∧
      ¬ (machine poisoned).Along (fun _ _ s' => NoAbandoned "a" s') init poisonRecord := by
  refine ⟨by decide, fun h => ?_⟩
  have hsplit : poisonRecord = [.enqueue job, .start ⟨"a", 0⟩ 0] ++ leases loopA ++
      [.roundTrip loopA .reply] ++ [.move loopA (.decode [])] := rfl
  rw [hsplit] at h
  obtain ⟨l, -, hl⟩ := h.last rfl rfl "j" (by decide)
  by_cases hla : l = loopA
  · subst hla
    exact absurd hl (by decide)
  · -- no other loop has moved
    simp only [Function.update_of_ne hla] at hl
    cases hl

end Fleet

end TaskQueue.Worker
