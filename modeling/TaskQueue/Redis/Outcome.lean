import TaskQueue.Redis.Server

/-!
# When a request rewrites a terminal outcome

The outcome of a record is its status, error and result. The release script,
the reaper and the cancel script all look at the status before they write, and
leave a finished record alone. The claim script and the save script look only at
the record's existence. `Request.SparesFinished` is the exact condition under
which a request keeps every terminal outcome: no claim script runs on a finished
record, and no save script writes a different outcome over one.
-/

namespace TaskQueue

/-- `new` written over `old` leaves the outcome as it was: the same status, and
an error and a result that are absent or the same. -/
def Record.SameOutcome (new old : Record) : Prop :=
  new.status = old.status ∧ (new.error = none ∨ new.error = old.error) ∧
    (new.result = none ∨ new.result = old.result)

theorem Record.option_orElse_eq_iff {α : Type} (a b : Option α) :
    (a <|> b) = b ↔ a = none ∨ a = b := by
  cases a <;> simp

theorem Record.outcome_hset_iff (old new : Record) :
    (old.hset new).outcome = old.outcome ↔ new.SameOutcome old := by
  simp only [outcome, hset, SameOutcome, Prod.mk.injEq, option_orElse_eq_iff]

namespace Redis

/-- Every terminal outcome survives the step from `st` to `st'`, unless `q` frees
the record. -/
def OutcomesKept (st : Store) (q : Request) (st' : Store) : Prop :=
  ∀ jobId e, st.jobs jobId = some e → e.record.status.terminal = true →
    ¬ q.Frees jobId → ∃ e', st'.jobs jobId = some e' ∧ e'.record.outcome = e.record.outcome

/-- No claim script runs on a finished record, and a save script that runs on
one writes the outcome that is already there. -/
def Request.SparesFinished (st : Store) : Request → Prop
  | .claim jobId => ∀ e, st.jobs jobId = some e → e.record.status.terminal = false
  | .save _ write _ => ∀ e, st.jobs write.record.id = some e →
      e.record.status.terminal = true → write.record.SameOutcome e.record
  | _ => True

/-- **Exactly the requests that spare finished records keep every terminal
outcome.** -/
theorem Request.outcomesKept_iff (q : Request) (st : Store) :
    OutcomesKept st q (q.after st) ↔ q.SparesFinished st := by
  constructor
  · intro h
    cases q with
    | claim jobId =>
      intro e he
      cases ht : e.record.status.terminal with
      | false => rfl
      | true =>
        obtain ⟨e', he', hout⟩ := h jobId e he ht (by simp [Request.Frees])
        rw [after_claim_some he, Store.put_jobs, Function.update_self,
          Option.some.injEq] at he'
        subst he'
        -- a claimed record is RUNNING, which is no terminal status
        have hs : JobStatus.running = e.record.status := congrArg Prod.fst hout
        rw [← hs] at ht
        cases ht
    | save worker write ttl =>
      intro e he ht
      obtain ⟨e', he', hout⟩ := h write.record.id e he ht (by simp [Request.Frees])
      rw [after_save_jobs worker he, Function.update_self, Option.some.injEq] at he'
      subst he'
      exact (Record.outcome_hset_iff _ _).mp hout
    | enqueue record => trivial
    | blmove worker => trivial
    | returnLease worker jobId => trivial
    | discardLease worker jobId => trivial
    | release worker jobId => trivial
    | requestCancel jobId => trivial
    | fetchAndDelete jobId => trivial
    | heartbeat worker now => trivial
    | deregister worker => trivial
    | reap now ttl => trivial
    | expire jobId => trivial
  · intro hc jobId e he ht hfree
    have hstep := q.recordStep st jobId
    rw [he] at hstep
    generalize (q.after st).jobs jobId = new at hstep ⊢
    cases hstep with
    | same => exact ⟨e, rfl, rfl⟩
    | claimed _ hq =>
      subst hq
      exact absurd ht (by rw [hc e he]; simp)
    | saved worker write ttl _ hq hid =>
      subst hq
      subst hid
      exact ⟨_, rfl, (Record.outcome_hset_iff _ _).mpr (hc e he ht)⟩
    | requeued _ hq hs =>
      rw [hs] at ht
      cases ht
    | flagged _ hq hf =>
      rw [hf] at ht
      cases ht
    | freed _ hq => exact absurd hq hfree

end Redis

end TaskQueue
