import TaskQueue.Conformance.Records
import TaskQueue.Library.Simulation
import TaskQueue.Memory.Backend

/-!
# The in-process backend by value

`Memory.Backend` keeps the value of a record where `MemoryBackend` keeps the dictionary that it
was given. `Task.submit` and `Worker._save` build that dictionary for the call and drop it, so
nobody else changes it: here each call is given a dictionary of its own, and the two are run
side by side.

`values_along`: they answer alike throughout every run, and the dictionaries hold the values.
-/

namespace TaskQueue.Memory

open Wire

/-- The dictionary holds the fields of the record. -/
def Holds (d : WireRecord) (r : Record) : Prop := ∀ k, d.lookup k = r.field k

/-- A call, with what its dictionary holds. `collect` is the end of `take_result`. -/
inductive ValueCall where
  | enqueue (record : Record)
  | claim
  | getJob (jobId : JobId)
  | save (record : Record) (done : Bool)
  | release (jobId : JobId)
  | requestCancel (jobId : JobId)
  | collect (jobId : JobId)

/-- Its answer: `None`, a record, or `KeyError`. -/
inductive ValueAnswer where
  | none
  | record (r : Record)
  | keyError

/-- A record, or `KeyError`. -/
def ValueAnswer.ofRecord : Option Record → ValueAnswer
  | some r => record r
  | Option.none => keyError

/-- The answers mean the same. -/
inductive ValueAnswer.Agree : Answer → ValueAnswer → Prop where
  | none : Agree .none .none
  | record {d : WireRecord} {r : Record} (h : Holds d r) : Agree (.record d) (.record r)
  | keyError : Agree (.error .keyError) .keyError

/-- A call of `Backend`. -/
def Backend.call (b : Backend) : ValueCall → Backend × ValueAnswer
  | .enqueue record => (b.enqueue record.id record, .none)
  | .claim =>
    match b.claim with
    | some (b, r?) => (b, .ofRecord r?)
    | none => (b, .none)
  | .getJob jobId => (b, .ofRecord (b.jobs jobId))
  | .save record done =>
    match b.save record.id record done with
    | some b => (b, .none)
    | none => (b, .keyError)
  | .release jobId =>
    match b.release jobId with
    | some b => (b, .none)
    | none => (b, .keyError)
  | .requestCancel jobId => (b.requestCancel jobId, .none)
  | .collect jobId =>
    let (b, r?) := b.collect jobId
    (b, .ofRecord r?)

/-- The dictionary that a call is given. -/
def ValueCall.dict : ValueCall → WireRecord
  | .enqueue record | .save record _ => record.toDict
  | _ => ∅

/-- The call of `Process`, with the dictionary `ref`. -/
def Process.perform (p : Process) (ref : Ref) : ValueCall → Process × Answer
  | .enqueue record => (p.enqueue record.id ref, .none)
  | .claim => p.claim
  | .getJob jobId => (p, p.getJob jobId)
  | .save record done => p.save record.id ref done
  | .release jobId => p.release jobId
  | .requestCancel jobId => p.requestCancel jobId
  | .collect jobId => p.collect jobId

/-- The process as a server, with the number of the next dictionary. -/
def objectServer : Service (Process × Ref) ValueCall Answer where
  exec s q :=
    let p := { s.1 with heap := Function.update s.1.heap s.2 q.dict }
    (((p.perform s.2 q).1, s.2 + 1), (p.perform s.2 q).2)

/-- The backend by value as a server. -/
def valueServer : Service Backend ValueCall ValueAnswer := ⟨Backend.call⟩

/-! ## The relation -/

/-- The dictionaries hold the values. -/
structure Mirrors (bound : Ref) (p : Process) (b : Backend) : Prop where
  jobs : Objects.Related Holds p.records b.jobs
  owned : p.Owned bound
  events : ∀ jobId, jobId ∈ p.events ↔ b.events jobId ≠ none
  queue : p.queue = b.queue

namespace Mirrors

variable {bound ref : Ref} {p p' : Process} {b b' : Backend} {jobId : JobId} {d : WireRecord}
  {r : Record}

theorem unknown (h : Mirrors bound p b) (hj : p.owner jobId = none) : b.jobs jobId = none :=
  h.jobs.of_none (Process.records_eq_none.mpr hj)

theorem stored (h : Mirrors bound p b) (hj : p.owner jobId = some ref) :
    ∃ r, b.jobs jobId = some r ∧ Holds (p.heap ref) r :=
  h.jobs.of_some (Process.records_of_some hj)

/-- One record changes on both sides, and maybe the queue. -/
theorem put (h : Mirrors bound p b)
    (hrecords : p'.records = Function.update p.records jobId (some d))
    (hjobs : b'.jobs = Function.update b.jobs jobId (some r)) (hd : Holds d r)
    (howned : p'.Owned bound) (hevents : ∀ id, id ∈ p'.events ↔ b'.events id ≠ none)
    (hqueue : p'.queue = b'.queue) : Mirrors bound p' b' :=
  ⟨by rw [hrecords, hjobs]; exact h.jobs.put jobId hd, howned, hevents, hqueue⟩

/-- An assignment to the dictionary of a job. -/
theorem assign (h : Mirrors bound p b) (hj : p.owner jobId = some ref) {k : String} {v : Datum}
    (hd : Holds ((p.heap ref).insert k v) r) {queue : List JobId} (hqueue : queue = b'.queue)
    (hjobs : b'.jobs = Function.update b.jobs jobId (some r))
    (hevents : b'.events = b.events) :
    Mirrors bound { p.assign ref k v with queue := queue } b' :=
  h.put (Process.records_assign h.owned hj k v) hjobs hd ⟨h.owned.unshared, h.owned.born⟩
    (fun id => hevents ▸ h.events id) hqueue

theorem getJob (h : Mirrors bound p b) (jobId : JobId) :
    ValueAnswer.Agree (p.getJob jobId) (.ofRecord (b.jobs jobId)) := by
  cases hj : p.owner jobId with
  | none =>
    rw [h.unknown hj, Process.getJob, hj]
    exact .keyError
  | some ref =>
    obtain ⟨r, hr, hd⟩ := h.stored hj
    rw [hr, Process.getJob, hj]
    exact .record hd

theorem enqueue (h : Mirrors bound p b) (hfree : Objects.Free p.owner ref) (hborn : ref < bound)
    (hd : Holds (p.heap ref) r) (jobId : JobId) :
    Mirrors bound (p.enqueue jobId ref) (b.enqueue jobId r) := by
  cases hj : p.owner jobId with
  | some ref' =>
    obtain ⟨r', hr', -⟩ := h.stored hj
    rw [Process.enqueue_of_some hj, Backend.enqueue_of_some hr']
    exact h
  | none =>
    have hnone := h.unknown hj
    have hqueued : Holds ((p.heap ref).insert "status" (.text (statusValue .queued)))
        { r with status := .queued } := by
      intro k
      rw [Dict.lookup_insert, hd k]
      exact (r.field_setStatus .queued k).symm
    refine h.put (Process.records_enqueue hj (hfree.onlyOf jobId)) ?_ hqueued ?_ ?_ ?_
    · simp only [Backend.enqueue, hnone, Backend.put]
    · refine h.owned.put (hfree.onlyOf jobId) hborn ?_
      rw [Process.enqueue_of_none hj]
      exact Dict.lookup_insert_eq p.jobs jobId ref
    · intro id
      rw [Process.enqueue_of_none hj]
      simp only [Backend.enqueue, hnone, Finset.mem_insert, h.events id]
      by_cases hid : id = jobId
      · simp [hid]
      · simp [hid]
    · rw [Process.enqueue_of_none hj]
      simp only [Backend.enqueue, hnone, h.queue]

/-- A claimed record, marked. -/
theorem holds_marked (hd : Holds d r) :
    Holds (marked d r.attempts) { r with status := .running, attempts := r.attempts + 1 } := by
  intro k
  rw [marked, Dict.lookup_insert, Dict.lookup_insert, hd k]
  refine Eq.trans ?_ (Record.field_setAttempts { r with status := .running } _ k).symm
  rw [r.field_setStatus .running]

theorem claim (h : Mirrors bound p b) :
    Mirrors bound p.claim.1 (b.call .claim).1 ∧
      ValueAnswer.Agree p.claim.2 (b.call .claim).2 := by
  cases hq : p.queue with
  | nil =>
    have hvalue : b.call .claim = (b, .none) := by
      simp only [Backend.call, Backend.claim, ← h.queue, hq]
    have hobject : p.claim = (p, .none) := by
      simp only [Process.claim, hq]
    rw [hvalue, hobject]
    exact ⟨h, .none⟩
  | cons jobId rest =>
    cases hj : p.owner jobId with
    | none =>
      have hvalue : b.call .claim = ({ b with queue := rest }, .keyError) := by
        simp only [Backend.call, Backend.claim, ← h.queue, hq, h.unknown hj]
        rfl
      rw [hvalue, Process.claim_of_none hq hj]
      exact ⟨⟨h.jobs, ⟨h.owned.unshared, h.owned.born⟩, h.events, rfl⟩, .keyError⟩
    | some ref =>
      obtain ⟨r, hr, hd⟩ := h.stored hj
      have hint : ∃ o, optional (p.heap ref) "attempts" Datum.int = .ok o ∧
          o.getD 0 = r.attempts := by
        refine ⟨some r.attempts, ?_, rfl⟩
        unfold Wire.optional
        rw [hd "attempts"]
        show some <$> (Datum.text r.attempts.repr).int = _
        rw [Datum.int_repr]
        rfl
      let r' : Record := { r with status := .running, attempts := r.attempts + 1 }
      have hvalue : b.call .claim = ({ b with queue := rest }.put jobId r', .record r') := by
        simp only [Backend.call, Backend.claim, ← h.queue, hq, hr]
        rfl
      have hmarked := holds_marked hd
      rw [hvalue, Process.claim_of_attempts hq hj hint]
      exact ⟨h.put (Process.records_write h.owned hj _) rfl hmarked
        ⟨h.owned.unshared, h.owned.born⟩ h.events rfl, .record hmarked⟩

theorem save (h : Mirrors bound p b) (hfree : Objects.Free p.owner ref) (hborn : ref < bound)
    (hd : Holds (p.heap ref) r) (done : Bool) :
    Mirrors bound (p.save r.id ref done).1 (b.call (.save r done)).1 ∧
      ValueAnswer.Agree (p.save r.id ref done).2 (b.call (.save r done)).2 := by
  cases hj : p.owner r.id with
  | none =>
    have hvalue : b.call (.save r done) = (b, .keyError) := by
      simp only [Backend.call, Backend.save, h.unknown hj]
    rw [hvalue, Process.save_of_none hj]
    exact ⟨h, .keyError⟩
  | some old =>
    obtain ⟨r', hr', -⟩ := h.stored hj
    have howner := Dict.lookup_insert_eq p.jobs r.id ref
    have honly := hfree.onlyOf r.id
    let p' := { p with jobs := p.jobs.insert r.id ref }
    have howned : p'.Owned bound := h.owned.put honly hborn howner
    have hrecords : p'.records = Function.update p.records r.id (some (p.heap ref)) :=
      Process.records_put honly howner fun r hr => rfl
    rw [Process.save_of_some hj]
    cases done with
    | false =>
      have hvalue : b.call (.save r false) = (b.put r.id r, .none) := by
        simp [Backend.call, Backend.save, hr']
      rw [hvalue]
      exact ⟨h.put hrecords rfl hd howned h.events h.queue, .none⟩
    | true =>
      have hanswer : (b.call (.save r true)).2 = .none := by
        simp [Backend.call, Backend.save, hr']
      rw [hanswer]
      refine ⟨h.put hrecords ?_ hd ⟨howned.unshared, howned.born⟩ (fun id => ?_) ?_, .none⟩
      · simp [Backend.call, Backend.save, hr', Backend.put]
      · simp only [Backend.call, Backend.save, hr', if_true, Backend.put, Finset.mem_erase,
          h.events id]
        by_cases hid : id = r.id
        · simp [hid]
        · simp [hid]
      · simpa [Backend.call, Backend.save, hr', Backend.put] using h.queue

theorem release (h : Mirrors bound p b) (jobId : JobId) :
    Mirrors bound (p.release jobId).1 (b.call (.release jobId)).1 ∧
      ValueAnswer.Agree (p.release jobId).2 (b.call (.release jobId)).2 := by
  cases hj : p.owner jobId with
  | none =>
    have hvalue : b.call (.release jobId) = (b, .keyError) := by
      simp only [Backend.call, Backend.release, h.unknown hj]
    rw [hvalue, Process.release_of_none hj]
    exact ⟨h, .keyError⟩
  | some ref =>
    obtain ⟨r, hr, hd⟩ := h.stored hj
    have hstatus : (p.heap ref).lookup "status" = some (.text (statusValue r.status)) := hd "status"
    rw [Process.release_of_some hj hstatus]
    by_cases hrun : r.status = .running
    · let r' : Record := { r with status := .queued }
      have hvalue : b.call (.release jobId)
          = ({ b.put jobId r' with queue := b.queue ++ [jobId] }, .none) := by
        simp only [Backend.call, Backend.release, hr, hrun, if_true, r']
      have hqueued : Holds ((p.heap ref).insert "status" (.text (statusValue .queued))) r' := by
        intro k
        rw [Dict.lookup_insert, hd k]
        exact (r.field_setStatus .queued k).symm
      rw [hvalue, if_pos (by rw [hrun])]
      exact ⟨h.assign hj hqueued (by rw [h.queue]) rfl rfl, .none⟩
    · have hvalue : b.call (.release jobId) = (b, .none) := by
        simp only [Backend.call, Backend.release, hr, hrun, if_false]
      rw [hvalue, if_neg fun heq => hrun (statusValue_injective (Datum.text.inj heq))]
      exact ⟨h, .none⟩

/-- The table of the terminal statuses. -/
theorem mem_terminals (status : JobStatus) :
    Datum.text (statusValue status) ∈ terminals ↔ status.terminal = true := by
  simp only [terminals, List.mem_cons, Datum.text.injEq, List.not_mem_nil, or_false]
  cases status <;> decide

theorem requestCancel (h : Mirrors bound p b) (jobId : JobId) :
    Mirrors bound (p.requestCancel jobId).1 (b.requestCancel jobId) ∧
      ValueAnswer.Agree (p.requestCancel jobId).2 .none := by
  cases hj : p.owner jobId with
  | none =>
    have hvalue : b.requestCancel jobId = b := by
      simp only [Backend.requestCancel, h.unknown hj]
    rw [hvalue, Process.requestCancel_of_none hj]
    exact ⟨h, .none⟩
  | some ref =>
    obtain ⟨r, hr, hd⟩ := h.stored hj
    have hstatus : (p.heap ref).lookup "status" = some (.text (statusValue r.status)) := hd "status"
    rw [Process.requestCancel_of_some hj hstatus]
    cases hterminal : r.status.terminal with
    | true =>
      have hvalue : b.requestCancel jobId = b := by
        simp only [Backend.requestCancel, hr, hterminal, if_true]
      rw [hvalue, if_pos ((mem_terminals r.status).mpr hterminal)]
      exact ⟨h, .none⟩
    | false =>
      have hflagged : Holds ((p.heap ref).insert "request_cancel" (.text "1"))
          { r with requestCancel := true } := by
        intro k
        rw [Dict.lookup_insert, hd k]
        exact (r.field_setRequestCancel k).symm
      have hlive : Datum.text (statusValue r.status) ∉ terminals := by
        rw [mem_terminals, hterminal]
        exact Bool.false_ne_true
      rw [if_neg hlive]
      refine ⟨h.assign hj hflagged ?_ ?_ ?_, .none⟩
      · simpa [Backend.requestCancel, hr, hterminal, Backend.put] using h.queue
      · simp [Backend.requestCancel, hr, hterminal, Backend.put]
      · simp [Backend.requestCancel, hr, hterminal, Backend.put]

theorem collect (h : Mirrors bound p b) (jobId : JobId) :
    Mirrors bound (p.collect jobId).1 (b.collect jobId).1 where
  jobs := by
    rw [Process.records_collect]
    exact h.jobs.erase jobId
  owned := h.owned.erase (p.owner_collect jobId)
  events id := by
    show id ∈ p.events.erase jobId ↔ Function.update b.events jobId none id ≠ none
    rw [Finset.mem_erase, h.events id]
    by_cases hid : id = jobId
    · simp [hid]
    · simp [hid]
  queue := h.queue

end Mirrors

/-! ## Side by side -/

/-- The process with a new dictionary. -/
theorem Mirrors.receive {bound : Ref} {p : Process} {b : Backend} (h : Mirrors bound p b)
    (d : WireRecord) :
    Mirrors (bound + 1) { p with heap := Function.update p.heap bound d } b where
  jobs := by
    have hrecords : ({ p with heap := Function.update p.heap bound d } : Process).records
        = p.records := Objects.view_congr (fun r hr => Function.update_of_ne hr ..) h.owned.free
    rw [hrecords]
    exact h.jobs
  owned := ⟨h.owned.unshared, (h.owned.mono (Nat.le_succ bound)).born⟩
  events := h.events
  queue := h.queue

/-- **One call**, with a dictionary of its own. -/
theorem Mirrors.perform {ref : Ref} {p : Process} {b : Backend} (h : Mirrors ref p b)
    (q : ValueCall) :
    Mirrors (ref + 1) (objectServer.exec (p, ref) q).1.1 (b.call q).1 ∧
      ValueAnswer.Agree (objectServer.exec (p, ref) q).2 (b.call q).2 := by
  have hnext := h.receive q.dict
  have hfree : Objects.Free p.owner ref := h.owned.free
  have hdict : ∀ r, q.dict = r.toDict → Holds (Function.update p.heap ref q.dict ref) r := by
    intro r hr k
    rw [Function.update_self, hr, r.lookup_toDict_eq]
  cases q with
  | enqueue record =>
    exact ⟨hnext.enqueue hfree (Nat.lt_succ_self ref) (hdict record rfl) record.id, .none⟩
  | claim => exact hnext.claim
  | getJob jobId => exact ⟨hnext, hnext.getJob jobId⟩
  | save record done => exact hnext.save hfree (Nat.lt_succ_self ref) (hdict record rfl) done
  | release jobId => exact hnext.release jobId
  | requestCancel jobId => exact hnext.requestCancel jobId
  | collect jobId => exact ⟨hnext.collect jobId, hnext.getJob jobId⟩

/-- The process does what the backend by value says. -/
def values : Simulation objectServer valueServer where
  Rel s b := Mirrors s.2 s.1 b
  Fits _ _ := True
  Agree := ValueAnswer.Agree
  exec h _ := h.perform _
  fits_of_agree _ _ := trivial

theorem mirrors_empty : Mirrors 0 .empty .empty where
  jobs _ := .none
  owned := by
    constructor
    · intro _ _ _ h
      cases h
    · intro _ _ h
      cases h
  events _ := ⟨fun h => absurd h (Finset.notMem_empty _), fun h => absurd rfl h⟩
  queue := rfl

/-- **By value.** Whatever calls follow one another, each with a dictionary that was built for
it: the answers are alike, and the dictionaries that the backend keeps hold the values that
`Backend` does. -/
theorem values_along (qs : List ValueCall) :
    (objectServer.beside valueServer ((.empty, 0), .empty)).Along values.Alike
      ((.empty, 0), .empty) qs :=
  (values.alike_along_iff (s := (.empty, 0)) (t := .empty) mirrors_empty qs).mpr
    (Machine.along_true qs _)

end TaskQueue.Memory
