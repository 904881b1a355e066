import Mathlib.Logic.Relation
import TaskQueue.Scope.Orphans

/-!
# A scope over a backend

The machine of `Group` runs over a table of records. Here the scope runs over a backend
in any state, by the calls that the backend serves: `StepOver.simulates` says that each
step is a run of the machine over the records that the backend holds, and
`run_of_steps` says so of any number of steps. A call of another client may be several
table operations (a reaper requeues a whole list), so one step is a run in general.
-/

namespace TaskQueue.Scope

variable {σ κ : Type} (I : Interface σ κ)

/-- The call that an event of the scope makes. -/
def callOf (g : Group) : Event → Option κ
  | .enqueue jobId => (g.spawnOf jobId).map fun sp => I.enqueue sp.record
  | .take jobId | .broke jobId true => some (I.take jobId)
  | e => (g.asks e).map I.requestCancel

/-- The backend after the call of an event, if it makes one. -/
def serveOf (st : σ) (g : Group) (e : Event) : σ :=
  match callOf I g e with
  | some c => I.serve c st
  | none => st

/-- A step of a scope over a backend: a call of another client, none of which enqueues
under an id of the scope, or an event of the scope. -/
inductive StepOver : σ × Group → σ × Group → Prop where
  | other (c : κ) (st : σ) (g : Group)
      (hfresh : ∀ record, I.does c (.create record) → g.Fresh record.id) :
      StepOver (st, g) (I.serve c st, g)
  | own (e : Event) (st : σ) (g : Group) (s' : System) (he : ∀ op, e ≠ .backend op)
      (h : System.step ⟨I.table st, g⟩ e = some s') : StepOver (st, g) (serveOf I st g e, s'.group)

/-- The records after an event are those of the backend after its call. -/
theorem table_serveOf {st : σ} {g : Group} {e : Event} {s' : System}
    (he : ∀ op, e ≠ .backend op) (h : System.step ⟨I.table st, g⟩ e = some s') :
    s'.table = I.table (serveOf I st g e) := by
  cases e with
  | backend op => exact absurd rfl (he op)
  | enqueue jobId =>
    simp only [System.step] at h
    cases hsp : g.spawnOf jobId with
    | none =>
      rw [hsp] at h
      cases h
    | some sp =>
      simp only [hsp, Option.ite_none_left_eq_some, Option.some.injEq] at h
      obtain ⟨-, rfl⟩ := h
      simp only [serveOf, callOf, hsp, Option.map_some, I.enqueue_table]
  | take jobId =>
    simp only [System.step] at h
    split at h
    · simp only [Option.ite_none_right_eq_some, Option.some.injEq] at h
      obtain ⟨-, rfl⟩ := h
      simp only [serveOf, callOf, I.take_table]
    · cases h
  | broke jobId freed =>
    simp only [System.step] at h
    split at h
    · simp only [Option.ite_none_right_eq_some, Option.some.injEq] at h
      obtain ⟨-, rfl⟩ := h
      cases freed with
      | true => simp only [serveOf, callOf, I.take_table, if_true]
      | false => rfl
    · cases h
  | fanout =>
    simp only [System.step] at h
    split at h
    · rename_i jobId rest hf
      cases h
      have hf' : g.fanout = some (jobId :: rest) := hf
      simp [serveOf, callOf, Group.asks, hf', I.requestCancel_table, System.flag]
    · cases h
  | ask =>
    have hcall : ∀ id, g.phase.requests.head? = some id →
        I.table (serveOf I st g .ask) = (TableOp.flag id).effect (I.table st) := by
      intro id hid
      simp only [serveOf, callOf, Group.asks, hid, Option.map_some, I.requestCancel_table]
    have hnone : g.phase.requests = [] → I.table (serveOf I st g .ask) = I.table st := by
      intro hreq
      simp only [serveOf, callOf, Group.asks, hreq, List.head?_nil, Option.map_none]
    simp only [System.step] at h
    split at h
    · rename_i pending jobId rest hp
      cases h
      exact (hcall jobId (by rw [show g.phase = _ from hp]; rfl)).symm
    · rename_i pending hp
      cases h
      exact (hnone (by rw [show g.phase = _ from hp]; rfl)).symm
    · rename_i jobId rest hp
      cases h
      exact (hcall jobId (by rw [show g.phase = _ from hp]; rfl)).symm
    · rename_i hp
      cases h
      exact (hnone (by rw [show g.phase = _ from hp]; rfl)).symm
    · cases h
  | late jobId =>
    simp only [System.step, Option.ite_none_right_eq_some, Option.some.injEq] at h
    obtain ⟨-, rfl⟩ := h
    simp only [serveOf, callOf, Group.asks, Option.map_some, I.requestCancel_table, System.flag]
  | _ =>
    -- the other events make no call, and leave the records alone
    cases stepOf h with
    | flag jobId phase fanout adrift hnext => cases hnext
    | _ => rfl

variable (table : Table) (onError : OnError) (hasDeadline : Bool) (detached : List JobId)

/-- Other clients' operations, one after the other. -/
theorem run_backend (g : Group) : ∀ (ops : List TableOp) (t : Table),
    (∀ op ∈ ops, ∀ record, op = .create record → g.Fresh record.id) →
    (machine table onError hasDeadline detached).run ⟨t, g⟩ (ops.map .backend)
      = some ⟨runOps t ops, g⟩
  | [], _, _ => rfl
  | op :: ops, t, hfresh => by
    have hstep : (machine table onError hasDeadline detached).step ⟨t, g⟩ (.backend op)
        = some ⟨op.effect t, g⟩ := by
      cases op with
      | create record => exact if_pos (hfresh _ List.mem_cons_self record rfl)
      | _ => rfl
    have hrest := run_backend g ops (op.effect t)
      fun op' hop' => hfresh op' (List.mem_cons_of_mem _ hop')
    simp only [List.map_cons, Machine.run, hstep]
    exact hrest

/-- **A step over a backend is a run over its records.** -/
theorem StepOver.simulates {x y : σ × Group} (h : StepOver I x y) :
    ∃ es, (machine table onError hasDeadline detached).run ⟨I.table x.1, x.2⟩ es
      = some ⟨I.table y.1, y.2⟩ := by
  cases h with
  | other c st g hfresh =>
    obtain ⟨ops, hdoes, htable⟩ := I.refines c st
    refine ⟨ops.map .backend, ?_⟩
    rw [htable]
    refine run_backend table onError hasDeadline detached g ops (I.table st) ?_
    rintro _ hop record rfl
    exact hfresh record (hdoes _ hop)
  | own e st g s' he h =>
    refine ⟨[e], ?_⟩
    have htable := table_serveOf I he h
    have hstep : (machine table onError hasDeadline detached).step ⟨I.table st, g⟩ e = some s' := h
    simp only [Machine.run, hstep, ← htable]

/-- **A scope over a backend is a scope over its records.** Whatever the scope and the
other clients do to a backend, the machine has a run to the records that it holds
then. So what is shown of every run of the machine, from any records, holds of a scope
over either backend. -/
theorem run_of_steps {st st' : σ} {g' : Group}
    (h : Relation.ReflTransGen (StepOver I) (st, .enter onError hasDeadline detached) (st', g')) :
    ∃ es, (machine (I.table st) onError hasDeadline detached).run
      (machine (I.table st) onError hasDeadline detached).init es = some ⟨I.table st', g'⟩ := by
  suffices hall :
      ∀ y, Relation.ReflTransGen (StepOver I) (st, .enter onError hasDeadline detached) y →
      ∃ es, (machine (I.table st) onError hasDeadline detached).run
        (machine (I.table st) onError hasDeadline detached).init es = some ⟨I.table y.1, y.2⟩ from
    hall _ h
  intro y hy
  induction hy with
  | refl => exact ⟨[], rfl⟩
  | tail _ hstep ih =>
    obtain ⟨es, hes⟩ := ih
    obtain ⟨es', hes'⟩ := hstep.simulates I (I.table st) onError hasDeadline detached
    exact ⟨es ++ es', (Machine.run_append hes).trans hes'⟩

end TaskQueue.Scope
