import TaskQueue.Interface
import TaskQueue.Library.Machine

/-!
# Accepted cancellations, and the flag that keeps them

`request_cancel` is accepted when it finds an unfinished record. `Ledger` remembers
which requests were, beside the records themselves: `accepted` for the id, `doomed`
for the record that is stored under it now, until that record is freed or expires.

`Registry` is a backend to which snapshots of records are written back: `save` stores
the whole record that it is given, terminal or not, and the other calls are passive
(they change no request flag), an enqueue, or a cancellation request.

A worker's save carries the request flag of the snapshot that it read, so it undoes
a cancellation accepted since. `Sound` is what is left when all saves are terminal.

- `flagKept_of_current`, `current_of_flagKept`: a save keeps the flag of a doomed
  record exactly when the snapshot has it.
- `cancelDurable_iff`: over whole runs, on both backends.
-/

namespace TaskQueue

/-! ## The ledger -/

/-- `request_cancel` on this id would be accepted. -/
def Table.Unfinished (t : Table) (jobId : JobId) : Prop :=
  ∃ r, t jobId = some r ∧ r.status.terminal = false

instance (t : Table) (jobId : JobId) : Decidable (t.Unfinished jobId) :=
  match h : t jobId with
  | none => isFalse (by simp [Table.Unfinished, h])
  | some r => decidable_of_iff (r.status.terminal = false) (by simp [Table.Unfinished, h])

/-- Which cancellation requests were accepted. -/
structure Ledger where
  accepted : JobId → Bool
  doomed : JobId → Bool

namespace Ledger

/-- No request has been made. -/
def empty : Ledger := ⟨fun _ => false, fun _ => false⟩

/-- A request for `jobId` arrives while the records are `t`. -/
def request (l : Ledger) (t : Table) (jobId : JobId) : Ledger :=
  if t.Unfinished jobId then
    ⟨Function.update l.accepted jobId true, Function.update l.doomed jobId true⟩
  else l

/-- The records are `t` now: one that is gone is doomed no longer. -/
def settle (l : Ledger) (t : Table) : Ledger :=
  { l with doomed := fun jobId => l.doomed jobId && (t jobId).isSome }

/-- The flag of every doomed record is set. -/
def Kept (l : Ledger) (t : Table) : Prop :=
  ∀ jobId r, l.doomed jobId = true → t jobId = some r → r.requestCancel = true

variable {l : Ledger} {t : Table} {jobId : JobId}

theorem doomed_of_settle (h : (l.settle t).doomed jobId = true) : l.doomed jobId = true := by
  simp only [settle, Bool.and_eq_true] at h
  exact h.1

/-- A record that comes to be doomed is the one that the request found. -/
theorem doomed_of_request {id : JobId} (h : (l.request t id).doomed jobId = true) :
    l.doomed jobId = true ∨ (jobId = id ∧ t.Unfinished id) := by
  unfold request at h
  split at h
  · by_cases hid : jobId = id
    · exact Or.inr ⟨hid, by assumption⟩
    · simp only [Function.update_of_ne hid] at h
      exact Or.inl h
  · exact Or.inl h

/-- What is doomed keeps its flag when each record that is still there keeps its own. -/
theorem Kept.settle {t' : Table} (h : l.Kept t)
    (ht : ∀ jobId r', l.doomed jobId = true → t' jobId = some r' →
      ∃ r, t jobId = some r ∧ r'.requestCancel = r.requestCancel) : (l.settle t').Kept t' := by
  intro jobId r' hdoomed hr'
  have hbefore : l.doomed jobId = true := doomed_of_settle hdoomed
  obtain ⟨r, hr, hflag⟩ := ht jobId r' hbefore hr'
  rw [hflag]
  exact h jobId r hbefore hr

end Ledger

/-- Operations that neither store a new record nor touch a request flag. -/
def TableOp.Passive : TableOp → Prop
  | .claim _ | .requeue _ | .free _ => True
  | .create _ | .write _ | .flag _ => False

/-- A passive operation keeps the flag of each record that it leaves. -/
theorem TableOp.Passive.flag_eq {op : TableOp} (hop : op.Passive) {t : Table} {jobId : JobId}
    {r' : Record} (hr' : op.effect t jobId = some r') :
    ∃ r, t jobId = some r ∧ r'.requestCancel = r.requestCancel := by
  by_cases hid : jobId = op.jobId
  · subst hid
    cases op with
    | claim id =>
      simp only [TableOp.effect, Table.modify, TableOp.jobId, Function.update_self,
        Option.map_eq_some_iff] at hr'
      obtain ⟨r, hr, rfl⟩ := hr'
      exact ⟨r, hr, rfl⟩
    | requeue id =>
      simp only [TableOp.effect, Table.modify, TableOp.jobId, Function.update_self,
        Option.map_eq_some_iff] at hr'
      obtain ⟨r, hr, rfl⟩ := hr'
      refine ⟨r, hr, ?_⟩
      split <;> rfl
    | free id =>
      simp only [TableOp.effect, TableOp.jobId, Function.update_self] at hr'
      cases hr'
    | create _ | write _ | flag _ => exact hop.elim
  · rw [TableOp.effect_of_ne t op hid] at hr'
    exact ⟨r', hr', rfl⟩

theorem flag_eq_of_passive {ops : List TableOp} (hops : ∀ op ∈ ops, op.Passive) {t : Table}
    {jobId : JobId} {r' : Record} (hr' : runOps t ops jobId = some r') :
    ∃ r, t jobId = some r ∧ r'.requestCancel = r.requestCancel := by
  induction ops generalizing t with
  | nil => exact ⟨r', hr', rfl⟩
  | cons op ops ih =>
    have hop : op.Passive := hops op List.mem_cons_self
    obtain ⟨r₁, hr₁, hflag₁⟩ := ih (fun o ho => hops o (List.mem_cons_of_mem _ ho)) hr'
    obtain ⟨r, hr, hflag⟩ := hop.flag_eq hr₁
    exact ⟨r, hr, hflag₁.trans hflag⟩

/-! ## Terminal saves only

When workers make terminal saves only, a flag can still be lost, but only together with
the chance to run: the record is finished then. -/

namespace Ledger

variable {l : Ledger} {t : Table} {jobId : JobId}

/-- A set flag was set by an accepted request, and a doomed record has its flag or is
finished. -/
structure Sound (l : Ledger) (t : Table) : Prop where
  honest : ∀ jobId r, t jobId = some r → r.requestCancel = true → l.accepted jobId = true
  held : ∀ jobId r, l.doomed jobId = true → t jobId = some r →
    r.requestCancel = true ∨ r.status.terminal = true

/-- Nothing is doomed that is not stored. -/
def Current (l : Ledger) (t : Table) : Prop := ∀ jobId, l.doomed jobId = true → t jobId ≠ none

theorem sound_empty (t : Table) (ht : ∀ jobId r, t jobId = some r → r.requestCancel = false) :
    Sound .empty t where
  honest jobId r hr hflag := by
    rw [ht jobId r hr] at hflag
    cases hflag
  held _ _ h := by cases h

theorem current_settle (l : Ledger) (t : Table) : (l.settle t).Current t := by
  intro jobId hdoomed hnone
  simp only [settle, hnone] at hdoomed
  simp at hdoomed

theorem Sound.settle (h : l.Sound t) : (l.settle t).Sound t where
  honest := h.honest
  held jobId r hdoomed hr := h.held jobId r (doomed_of_settle hdoomed) hr

/-- Writing one record. -/
theorem Sound.update (h : l.Sound t) {x : Option Record}
    (hx : ∀ r, x = some r → (r.requestCancel = true → l.accepted jobId = true) ∧
      (l.doomed jobId = true → r.requestCancel = true ∨ r.status.terminal = true)) :
    l.Sound (Function.update t jobId x) where
  honest id r hr hflag := by
    by_cases hid : id = jobId
    · subst hid
      rw [Function.update_self] at hr
      exact (hx r hr).1 hflag
    · rw [Function.update_of_ne hid] at hr
      exact h.honest id r hr hflag
  held id r hdoomed hr := by
    by_cases hid : id = jobId
    · subst hid
      rw [Function.update_self] at hr
      exact (hx r hr).2 hdoomed
    · rw [Function.update_of_ne hid] at hr
      exact h.held id r hdoomed hr

/-- Changing the record of a job in place. -/
theorem Sound.modify (h : l.Sound t) {f : Record → Record}
    (hf : ∀ r, t jobId = some r → ((f r).requestCancel = true → l.accepted jobId = true) ∧
      (l.doomed jobId = true → (f r).requestCancel = true ∨ (f r).status.terminal = true)) :
    l.Sound (t.modify jobId f) := by
  refine h.update fun r hr => ?_
  obtain ⟨old, hold, rfl⟩ := Option.map_eq_some_iff.mp hr
  exact hf old hold

/-- A new record has its flag clear. -/
theorem Sound.create (h : l.Sound t) (hcurrent : l.Current t) {record : Record}
    (hclean : record.requestCancel = false) : l.Sound ((TableOp.create record).effect t) := by
  rw [TableOp.effect]
  cases hr : t record.id with
  | some r => exact h
  | none =>
    refine h.update ?_
    rintro _ ⟨⟩
    refine ⟨fun hflag => ?_, fun hdoomed => ?_⟩
    · have hsame : record.requestCancel = true := hflag
      rw [hclean] at hsame
      cases hsame
    · exact absurd hr (hcurrent record.id hdoomed)

/-- A claim keeps the flag, and revives a finished record: the flag must be there. -/
theorem Sound.claim (h : l.Sound t)
    (hflag : ∀ r, t jobId = some r → r.status.terminal = true → l.doomed jobId = true →
      r.requestCancel = true) : l.Sound ((TableOp.claim jobId).effect t) := by
  rw [TableOp.effect]
  refine h.modify fun r hr => ⟨fun hset => h.honest jobId r hr hset, fun hdoomed => ?_⟩
  left
  rcases h.held jobId r hdoomed hr with hset | hdone
  · exact hset
  · exact hflag r hr hdone hdoomed

theorem Sound.write (h : l.Sound t) {write : Finished}
    (hhonest : write.record.requestCancel = true → l.accepted write.record.id = true) :
    l.Sound ((TableOp.write write).effect t) := by
  rw [TableOp.effect]
  exact h.modify fun r hr => ⟨hhonest, fun _ => Or.inr write.terminal⟩

theorem Sound.requeue (h : l.Sound t) (jobId : JobId) :
    l.Sound ((TableOp.requeue jobId).effect t) := by
  rw [TableOp.effect]
  refine h.modify fun r hr => ?_
  by_cases hs : r.status = .running
  · rw [if_pos hs]
    refine ⟨fun hset => h.honest jobId r hr hset, fun hdoomed => ?_⟩
    rcases h.held jobId r hdoomed hr with hset | hdone
    · exact Or.inl hset
    · rw [hs] at hdone
      cases hdone
  · rw [if_neg hs]
    exact ⟨fun hset => h.honest jobId r hr hset, fun hdoomed => h.held jobId r hdoomed hr⟩

theorem Sound.free (h : l.Sound t) (jobId : JobId) : l.Sound ((TableOp.free jobId).effect t) :=
  h.update fun r hr => by cases hr

theorem accepted_request (l : Ledger) (t : Table) (jobId : JobId) {id : JobId}
    (h : l.accepted id = true) : (l.request t jobId).accepted id = true := by
  unfold request
  split
  · show Function.update l.accepted jobId true id = true
    rw [Function.update_apply, h, ite_self]
  · exact h

/-- An accepted request sets the flag of the record that it dooms. -/
theorem Sound.flag (h : l.Sound t) (jobId : JobId) :
    (l.request t jobId).Sound ((TableOp.flag jobId).effect t) := by
  rw [TableOp.effect]
  by_cases hopen : t.Unfinished jobId
  · have hrequest : l.request t jobId
        = ⟨Function.update l.accepted jobId true, Function.update l.doomed jobId true⟩ := by
      rw [request, if_pos hopen]
    obtain ⟨r₀, hr₀, ht₀⟩ := hopen
    rw [hrequest, Table.modify_of_some hr₀, if_neg (by simp [ht₀])]
    constructor
    · intro id r hr hset
      show Function.update l.accepted jobId true id = true
      by_cases hid : id = jobId
      · rw [hid, Function.update_self]
      · rw [Function.update_of_ne hid] at hr ⊢
        exact h.honest id r hr hset
    · intro id r hdoomed hr
      by_cases hid : id = jobId
      · subst hid
        rw [Function.update_self] at hr
        cases hr
        exact Or.inl rfl
      · rw [Function.update_of_ne hid] at hr
        have hbefore : l.doomed id = true := by
          have hsame : Function.update l.doomed jobId true id = true := hdoomed
          rwa [Function.update_of_ne hid] at hsame
        exact h.held id r hbefore hr
  · -- refused: nothing changes
    rw [request, if_neg hopen]
    refine h.modify fun r hr => ?_
    have hdone : r.status.terminal = true := by
      by_contra hne
      exact hopen ⟨r, hr, Bool.eq_false_iff.mpr hne⟩
    rw [if_pos hdone]
    exact ⟨fun hset => h.honest jobId r hr hset, fun hdoomed => h.held jobId r hdoomed hr⟩

/-- Operations of which each, wherever it comes, keeps the ledger sound. -/
def Harmless (l : Ledger) : TableOp → Prop
  | .write write => write.record.requestCancel = true → l.accepted write.record.id = true
  | .requeue _ | .free _ => True
  | .create _ | .claim _ | .flag _ => False

theorem Sound.runOps {ops : List TableOp} (h : l.Sound t) (hops : ∀ op ∈ ops, l.Harmless op) :
    l.Sound (runOps t ops) := by
  induction ops generalizing t with
  | nil => exact h
  | cons op ops ih =>
    refine ih ?_ fun o ho => hops o (List.mem_cons_of_mem _ ho)
    have hop : l.Harmless op := hops op List.mem_cons_self
    cases op with
    | write write => exact h.write hop
    | requeue id => exact h.requeue id
    | free id => exact h.free id
    | create _ | claim _ | flag _ => exact hop.elim

end Ledger

/-! ## Snapshots written back -/

/-- A backend, with the saves of any snapshot by any caller. -/
structure Registry (σ κ ω : Type) extends Interface σ κ where
  save : ω → Record → Bool → σ → σ
  written : Record → Record → Record
  save_table : ∀ who record done st, table (save who record done st)
    = (table st).modify record.id fun old => written old record
  written_requestCancel : ∀ old new, (written old new).requestCancel = new.requestCancel
  passive : κ → Bool
  passive_does : ∀ c, passive c = true → ∀ op, does c op → op.Passive

/-- A registry, the snapshots that were read from it, and the ledger. -/
structure Tracked (σ : Type) where
  store : σ
  reads : List Record
  ledger : Ledger

/-- One call of any client. -/
inductive RegistryEvent (κ ω : Type) where
  | call (c : κ)
  | enqueue (record : Record)
  | read (jobId : JobId)
  | save (who : ω) (record : Record) (done : Bool)
  | cancel (jobId : JobId)

/-- `record` is `to_record` of a job that was read from the backend: the worker sets
its outcome and re-serialises its arguments. -/
def SnapshotOf (reads : List Record) (record : Record) : Prop :=
  ∃ r ∈ reads, record.id = r.id ∧ record.requestCancel = r.requestCancel

instance (reads : List Record) (record : Record) : Decidable (SnapshotOf reads record) :=
  inferInstanceAs (Decidable (∃ r ∈ reads, _))

namespace Registry

variable {σ κ ω : Type} (G : Registry σ κ ω)

/-- One event: a claim is a passive call, after which its caller reads the record. -/
def step (s : Tracked σ) : RegistryEvent κ ω → Option (Tracked σ)
  | .call c =>
    if G.passive c then
      let st := G.serve c s.store
      some { s with store := st, ledger := s.ledger.settle (G.table st) }
    else none
  | .enqueue record => some { s with store := G.serve (G.enqueue record) s.store }
  | .read jobId =>
    match G.table s.store jobId with
    | some r => some { s with reads := r :: s.reads }
    | none => none
  | .save who record done =>
    if SnapshotOf s.reads record then some { s with store := G.save who record done s.store }
    else none
  | .cancel jobId =>
    some { s with
      store := G.serve (G.requestCancel jobId) s.store
      ledger := s.ledger.request (G.table s.store) jobId }

/-- Runs from any records. -/
def machine (st : σ) : Machine (Tracked σ) (RegistryEvent κ ω) where
  init := ⟨st, [], .empty⟩
  step := G.step

/-- A record whose cancellation was accepted has its flag set. -/
def FlagKept (s : Tracked σ) : Prop := s.ledger.Kept (G.table s.store)

/-- A save over a doomed record carries a snapshot whose flag is set. -/
def Current (s : Tracked σ) (e : RegistryEvent κ ω) : Prop :=
  ∀ who record done, e = .save who record done → s.ledger.doomed record.id = true →
    G.table s.store record.id ≠ none → record.requestCancel = true

/-! ### One step -/

variable {G} {s s' : Tracked σ} {e : RegistryEvent κ ω} {es : List (RegistryEvent κ ω)}

/-- A doomed record is stored, and has its flag set. -/
structure Holding (G : Registry σ κ ω) (s : Tracked σ) : Prop where
  stored : ∀ jobId, s.ledger.doomed jobId = true → G.table s.store jobId ≠ none
  kept : G.FlagKept s

theorem Holding.call {c : κ} (hs : G.Holding s) (hc : G.passive c = true) :
    G.Holding { s with
      store := G.serve c s.store
      ledger := s.ledger.settle (G.table (G.serve c s.store)) } := by
  obtain ⟨ops, hdoes, htable⟩ := G.refines c s.store
  have hops : ∀ op ∈ ops, op.Passive := fun op hop => G.passive_does c hc op (hdoes op hop)
  constructor
  · intro jobId hdoomed hnone
    simp only [Ledger.settle, hnone] at hdoomed
    simp at hdoomed
  · refine hs.kept.settle fun jobId r' _ hr' => ?_
    rw [htable] at hr'
    exact flag_eq_of_passive hops hr'

/-- A new record is not doomed. -/
theorem Holding.enqueue (hs : G.Holding s) (record : Record) :
    G.Holding { s with store := G.serve (G.enqueue record) s.store } := by
  have htable := G.enqueue_table record s.store
  have hother : ∀ jobId, s.ledger.doomed jobId = true →
      G.table (G.serve (G.enqueue record) s.store) jobId = G.table s.store jobId := by
    intro jobId hdoomed
    rw [htable, TableOp.effect]
    cases hr : G.table s.store record.id with
    | some r => rfl
    | none =>
      have hne : jobId ≠ record.id := by
        rintro rfl
        exact hs.stored record.id hdoomed hr
      exact Function.update_of_ne hne _ _
  constructor
  · intro jobId hdoomed
    show G.table (G.serve (G.enqueue record) s.store) jobId ≠ none
    rw [hother jobId hdoomed]
    exact hs.stored jobId hdoomed
  · intro jobId r hdoomed hr
    have hr' : G.table s.store jobId = some r := hother jobId hdoomed ▸ hr
    exact hs.kept jobId r hdoomed hr'

/-- A request sets the flag of the record that it dooms. -/
theorem Holding.cancel (hs : G.Holding s) (id : JobId) :
    G.Holding { s with
      store := G.serve (G.requestCancel id) s.store
      ledger := s.ledger.request (G.table s.store) id } := by
  have htable := G.requestCancel_table id s.store
  constructor
  · intro jobId hdoomed hnone
    have hstored : G.table s.store jobId ≠ none := by
      rcases Ledger.doomed_of_request hdoomed with hold | ⟨rfl, r, hr, -⟩
      · exact hs.stored jobId hold
      · rw [hr]
        simp
    rw [htable] at hnone
    obtain ⟨r, hr⟩ := Option.ne_none_iff_exists'.mp hstored
    by_cases hid : jobId = id
    · subst hid
      rw [TableOp.effect, Table.modify_of_some hr, Function.update_self] at hnone
      cases hnone
    · rw [TableOp.effect_of_ne _ _ hid, hr] at hnone
      cases hnone
  · intro jobId r' hdoomed hr'
    rw [htable] at hr'
    by_cases hid : jobId = id
    · subst hid
      simp only [TableOp.effect, Table.modify, Function.update_self,
        Option.map_eq_some_iff] at hr'
      obtain ⟨r, hr, rfl⟩ := hr'
      cases ht : r.status.terminal with
      | false => rw [if_neg (by simp)]
      | true =>
        -- refused, so it was doomed before
        rw [if_pos rfl]
        rcases Ledger.doomed_of_request hdoomed with hold | ⟨-, r₀, hr₀, hopen⟩
        · exact hs.kept jobId r hold hr
        · cases hr.symm.trans hr₀
          rw [ht] at hopen
          cases hopen
    · rw [TableOp.effect_of_ne _ _ hid] at hr'
      rcases Ledger.doomed_of_request hdoomed with hold | ⟨heq, -⟩
      · exact hs.kept jobId r' hold hr'
      · exact absurd heq hid

/-- What a save stores under its id has the flag of the snapshot. -/
theorem save_flag {who : ω} {record r' : Record} {done : Bool} {st : σ}
    (h : G.table (G.save who record done st) record.id = some r') :
    r'.requestCancel = record.requestCancel := by
  rw [G.save_table, Table.modify, Function.update_self, Option.map_eq_some_iff] at h
  obtain ⟨old, -, rfl⟩ := h
  exact G.written_requestCancel old record

theorem save_stored {who : ω} {record : Record} {done : Bool} {st : σ} {jobId : JobId}
    (h : G.table st jobId ≠ none) : G.table (G.save who record done st) jobId ≠ none := by
  rw [G.save_table]
  by_cases hid : jobId = record.id
  · subst hid
    rw [Table.modify, Function.update_self, Option.map_eq_none_iff.ne]
    exact h
  · rw [Table.modify, Function.update_of_ne hid]
    exact h

/-- **A save keeps the flag when its snapshot has it.** -/
theorem Holding.save {who : ω} {record : Record} {done : Bool} (hs : G.Holding s)
    (hcurrent : G.Current s (.save who record done)) :
    G.Holding { s with store := G.save who record done s.store } := by
  constructor
  · intro jobId hdoomed
    exact save_stored (hs.stored jobId hdoomed)
  · intro jobId r' hdoomed hr'
    by_cases hid : jobId = record.id
    · subst hid
      rw [save_flag hr']
      exact hcurrent who record done rfl hdoomed (hs.stored record.id hdoomed)
    · have hr : G.table s.store jobId = some r' := by
        have hsave := G.save_table who record done s.store
        rwa [hsave, Table.modify, Function.update_of_ne hid] at hr'
      exact hs.kept jobId r' hdoomed hr

theorem Holding.step (hs : G.Holding s) (h : G.step s e = some s') (hcurrent : G.Current s e) :
    G.Holding s' := by
  cases e with
  | call c =>
    simp only [Registry.step, Option.ite_none_right_eq_some, Option.some.injEq] at h
    obtain ⟨hc, rfl⟩ := h
    exact hs.call hc
  | enqueue record =>
    cases h
    exact hs.enqueue record
  | read jobId =>
    simp only [Registry.step] at h
    split at h
    · cases h
      exact ⟨hs.stored, hs.kept⟩
    · cases h
  | save who record done =>
    simp only [Registry.step, Option.ite_none_right_eq_some, Option.some.injEq] at h
    obtain ⟨-, rfl⟩ := h
    exact hs.save hcurrent
  | cancel jobId =>
    cases h
    exact hs.cancel jobId

/-- A save that leaves the flag of a doomed record set had it in its snapshot. -/
theorem current_of_flagKept (h : G.step s e = some s') (hkept : G.FlagKept s') :
    G.Current s e := by
  rintro who record done rfl hdoomed hstored
  simp only [Registry.step, Option.ite_none_right_eq_some, Option.some.injEq] at h
  obtain ⟨-, rfl⟩ := h
  have hstill : G.table (G.save who record done s.store) record.id ≠ none := save_stored hstored
  obtain ⟨r', hr'⟩ := Option.ne_none_iff_exists'.mp hstill
  rw [← save_flag hr']
  exact hkept record.id r' hdoomed hr'

/-- A snapshot that is read once the cancellation is accepted has the flag. -/
theorem Holding.read {jobId : JobId} {r : Record} (hs : G.Holding s)
    (hdoomed : s.ledger.doomed jobId = true) (hr : G.table s.store jobId = some r) :
    r.requestCancel = true := hs.kept jobId r hdoomed hr

/-! ### Whole runs -/

/-- A run keeps the flags of all doomed records exactly when each of its saves over
such a record carries a current snapshot. -/
theorem along_flagKept_iff (st : σ) :
    (G.machine st).Along (fun _ _ s' => G.FlagKept s') (G.machine st).init es ↔
      (G.machine st).Along (fun s e _ => G.Current s e) (G.machine st).init es := by
  refine Machine.along_iff_along (J := G.Holding) (E := fun _ _ => True) ?_ ?_ ?_
    (Machine.along_true es _)
  · rintro s e s' hs - h hcurrent
    have hs' : G.Holding s' := hs.step h hcurrent
    exact ⟨hs'.kept, hs'⟩
  · rintro s e s' - - h hkept
    exact current_of_flagKept h hkept
  · constructor
    · intro jobId hdoomed
      cases hdoomed
    · intro jobId r hdoomed
      cases hdoomed

end Registry

/-! ## The two backends -/

/-- `RedisBackend.save` of any instance, with its `result_ttl`. -/
def redisRegistry : Registry Redis.Store Redis.Request (Redis.InstanceId × Nat) where
  toInterface := redisInterface
  save who record done st := (Redis.saveScript st who.1 record.id record done who.2).1
  written := Record.hset
  save_table who record done st := by
    show Redis.Store.table _ = (Redis.Store.table st).modify _ _
    cases hj : st.jobs record.id with
    | none =>
      rw [Redis.saveScript_of_none hj, Table.modify_of_none (Redis.table_of_none hj)]
    | some e =>
      rw [Table.modify_of_some (Redis.table_of_some hj)]
      cases done with
      | true => exact Redis.table_of_jobs (Redis.saveScript_done who.1 hj record who.2).2.1
      | false =>
        simp only [Redis.saveScript, hj, Bool.false_eq_true, if_false]
        exact Redis.table_of_jobs (Redis.Store.put_jobs ..)
  written_requestCancel _ _ := rfl
  passive
    | .enqueue _ | .save _ _ _ | .requestCancel _ => false
    | _ => true
  passive_does c hc op hdoes := by
    cases c <;> cases op <;> trivial

/-- `MemoryBackend.save`. -/
def memoryRegistry : Registry Memory.Backend Memory.Call Unit where
  toInterface := memoryInterface
  save _ record done b := (b.save record.id record done).getD b
  written _ new := new
  save_table _ record done b := by
    show Memory.Backend.jobs _ = Table.modify b.jobs _ _
    cases hj : b.jobs record.id with
    | none =>
      rw [Table.modify_of_none hj]
      simp [Memory.Backend.save, hj]
    | some r =>
      rw [Table.modify_of_some hj]
      cases done <;> simp [Memory.Backend.save, Memory.Backend.put, hj]
  written_requestCancel _ _ := rfl
  passive
    | .enqueue _ | .save _ | .requestCancel _ => false
    | _ => true
  passive_does c hc op hdoes := by
    cases c <;> cases op <;> trivial

/-- **When an accepted cancellation is durable.** On either backend, from any records
and over every interleaving of calls, the record of a job whose cancellation was
accepted has its flag set until it is freed exactly when each save over such a
record carries a snapshot with the flag set. -/
theorem cancelDurable_iff (st : Redis.Store)
    (es : List (RegistryEvent Redis.Request (Redis.InstanceId × Nat)))
    (b : Memory.Backend) (fs : List (RegistryEvent Memory.Call Unit)) :
    ((redisRegistry.machine st).Along (fun _ _ s' => redisRegistry.FlagKept s')
        (redisRegistry.machine st).init es ↔
      (redisRegistry.machine st).Along (fun s e _ => redisRegistry.Current s e)
        (redisRegistry.machine st).init es) ∧
    ((memoryRegistry.machine b).Along (fun _ _ s' => memoryRegistry.FlagKept s')
        (memoryRegistry.machine b).init fs ↔
      (memoryRegistry.machine b).Along (fun s e _ => memoryRegistry.Current s e)
        (memoryRegistry.machine b).init fs) :=
  ⟨Registry.along_flagKept_iff st, Registry.along_flagKept_iff b⟩

/-- A job as its producer enqueues it. -/
def lostUpdateJob : Record where
  id := "j"
  taskName := "task"
  createdAt := "0"
  status := .queued
  attempts := 0
  requestCancel := false
  payload := []
  groupId := none
  error := none
  result := none

/-- What the worker that claimed it saves. -/
def lostUpdateWrite : Record := ((Redis.claimed lostUpdateJob).settle [] (.completed [])).record

/-- A worker claims the job and reads its record; the cancellation is accepted while the
body runs; the worker saves its result, and the flag is back to `0` on either backend. -/
theorem lostUpdate_flag :
    ¬ (redisRegistry.machine .empty).Along (fun _ _ s' => redisRegistry.FlagKept s')
        (redisRegistry.machine .empty).init
        ([.enqueue lostUpdateJob, .call (.blmove "w"), .call (.claim "j"), .read "j",
          .cancel "j"] ++ [.save ("w", 60) lostUpdateWrite true]) ∧
      ¬ (memoryRegistry.machine .empty).Along (fun _ _ s' => memoryRegistry.FlagKept s')
        (memoryRegistry.machine .empty).init
        ([.enqueue lostUpdateJob, .call .claim, .read "j", .cancel "j"] ++
          [.save () lostUpdateWrite true]) := by
  constructor
  · intro h
    have hflag : lostUpdateWrite.requestCancel = true :=
      h.last rfl rfl "j" lostUpdateWrite rfl rfl
    cases hflag
  · intro h
    have hflag : lostUpdateWrite.requestCancel = true :=
      h.last rfl rfl "j" lostUpdateWrite rfl rfl
    cases hflag

end TaskQueue
