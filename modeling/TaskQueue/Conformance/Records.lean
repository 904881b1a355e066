import TaskQueue.Conformance.Calls

/-!
# The records of the in-process backend

What the methods of `MemoryBackend` do to the dictionaries that it keeps, in terms of what these
hold (`Process.records`). As long as each job has a dictionary of its own (`Process.Owned`), an
assignment to the dictionary of one job leaves the records of the others alone.
-/

namespace TaskQueue

open Wire

/-- The attempts that the server reads in a record. -/
def Wire.attempts (d : WireRecord) : Option Int :=
  (d.lookup "attempts").elim (some 0) fun v => counter v.encoded

/-- What a claim makes of a record that has been claimed `n` times. -/
def Wire.marked (d : WireRecord) (n : Int) : WireRecord :=
  (d.insert "status" (.text (statusValue .running))).insert "attempts" (.text (n + 1).repr)

namespace Memory.Process

variable {p p' : Process} {bound ref : Ref} {jobId : JobId} {rest : List JobId}

/-- Each job has a dictionary of its own, and that is one of those below `bound`. -/
structure Owned (bound : Ref) (p : Process) : Prop where
  unshared : Objects.Unshared p.owner
  born : ∀ jobId ref, p.owner jobId = some ref → ref < bound

namespace Owned

theorem mono (h : p.Owned bound) {bound' : Ref} (hle : bound ≤ bound') : p.Owned bound' :=
  ⟨h.unshared, fun jobId ref hj => (h.born jobId ref hj).trans_le hle⟩

/-- A dictionary that is still to come is held by no job. -/
theorem free (h : p.Owned bound) : Objects.Free p.owner bound :=
  fun jobId hj => absurd (h.born jobId bound hj) (Nat.lt_irrefl _)

theorem put (h : p.Owned bound) (honly : Objects.OnlyOf p.owner jobId ref) (hborn : ref < bound)
    (howner : p'.owner = Function.update p.owner jobId (some ref)) : p'.Owned bound := by
  refine ⟨howner ▸ h.unshared.put honly, fun id r hid => ?_⟩
  rw [howner] at hid
  by_cases hne : id = jobId
  · subst hne
    rw [Function.update_self] at hid
    exact Option.some.inj hid ▸ hborn
  · rw [Function.update_of_ne hne] at hid
    exact h.born id r hid

theorem erase (h : p.Owned bound) (howner : p'.owner = Function.update p.owner jobId none) :
    p'.Owned bound := by
  refine ⟨howner ▸ h.unshared.erase jobId, fun id r hid => ?_⟩
  rw [howner] at hid
  by_cases hne : id = jobId
  · subst hne
    rw [Function.update_self] at hid
    cases hid
  · rw [Function.update_of_ne hne] at hid
    exact h.born id r hid

end Owned

/-! ## Reading and changing one record -/

theorem records_of_some (hj : p.owner jobId = some ref) : p.records jobId = some (p.heap ref) :=
  Objects.view_of_some hj

theorem records_eq_none : p.records jobId = none ↔ p.owner jobId = none := Objects.view_eq_none

theorem heap_assign_self (p : Process) (ref : Ref) (k : String) (v : Datum) :
    (p.assign ref k v).heap ref = (p.heap ref).insert k v := Function.update_self ..

theorem heap_assign_of_ne {r : Ref} {k : String} {v : Datum} (hr : r ≠ ref) :
    (p.assign ref k v).heap r = p.heap r := Function.update_of_ne hr ..

/-- The dictionary of a job changes in place. -/
theorem records_write (h : p.Owned bound) (hj : p.owner jobId = some ref) (d : WireRecord) :
    Objects.view p.owner (Function.update p.heap ref d)
      = Function.update p.records jobId (some d) := by
  rw [Objects.view_write h.unshared hj fun r hr => Function.update_of_ne hr ..,
    Function.update_self]
  rfl

theorem records_assign (h : p.Owned bound) (hj : p.owner jobId = some ref) (k : String)
    (v : Datum) :
    (p.assign ref k v).records
      = Function.update p.records jobId (some ((p.heap ref).insert k v)) :=
  records_write h hj _

/-- A dictionary that no other job holds is put under an id. -/
theorem records_put (honly : Objects.OnlyOf p.owner jobId ref)
    (howner : p'.owner = Function.update p.owner jobId (some ref))
    (hheap : ∀ r, r ≠ ref → p'.heap r = p.heap r) :
    p'.records = Function.update p.records jobId (some (p'.heap ref)) := by
  rw [records, howner]
  exact Objects.view_put hheap honly

/-! ## Methods -/

theorem enqueue_of_some (hj : p.owner jobId = some ref) (record : Ref) :
    p.enqueue jobId record = p := by
  simp only [enqueue, hj]

theorem enqueue_of_none (hj : p.owner jobId = none) (record : Ref) :
    p.enqueue jobId record = { p.assign record "status" (.text (statusValue .queued)) with
      jobs := p.jobs.insert jobId record
      events := insert jobId p.events
      queue := p.queue ++ [jobId] } := by
  simp only [enqueue, hj]

theorem records_enqueue (hj : p.owner jobId = none) (honly : Objects.OnlyOf p.owner jobId ref) :
    (p.enqueue jobId ref).records = Function.update p.records jobId
      (some ((p.heap ref).insert "status" (.text (statusValue .queued)))) := by
  rw [enqueue_of_none hj]
  refine (records_put honly ?_ fun r hr => ?_).trans ?_
  · exact Dict.lookup_insert_eq p.jobs jobId ref
  · exact heap_assign_of_ne hr
  · rw [heap_assign_self]

/-- A claim of an id whose record is gone. -/
theorem claim_of_none (hq : p.queue = jobId :: rest) (hj : p.owner jobId = none) :
    p.claim = ({ p with queue := rest }, .error .keyError) := by
  have hj' : owner { p with queue := rest } jobId = none := hj
  simp only [claim, hq, hj']

/-- A claim of a stored job whose attempts are a number. -/
theorem claim_of_attempts {n : Int} (hq : p.queue = jobId :: rest)
    (hj : p.owner jobId = some ref)
    (hn : ∃ o, optional (p.heap ref) "attempts" Datum.int = .ok o ∧ o.getD 0 = n) :
    p.claim = ({ p with
        queue := rest
        heap := Function.update p.heap ref (marked (p.heap ref) n) },
      .record (marked (p.heap ref) n)) := by
  obtain ⟨o, hint, rfl⟩ := hn
  have hstatus : optional ((p.heap ref).insert "status" (.text (statusValue .running))) "attempts"
      Datum.int = .ok o := by
    rw [← hint]
    unfold Wire.optional
    rw [Dict.lookup_insert, if_neg (by decide)]
  have hj' : owner { p with queue := rest } jobId = some ref := hj
  simp only [claim, hq, hj', assign, Heap.assign, Function.update_self, hstatus,
    Function.update_idem, marked]

theorem save_of_none (hj : p.owner jobId = none) (record : Ref) (done : Bool) :
    p.save jobId record done = (p, .error .keyError) := by
  simp only [save, hj]

theorem save_of_some {old : Ref} (hj : p.owner jobId = some old) (record : Ref) (done : Bool) :
    p.save jobId record done = ({ p with
        jobs := p.jobs.insert jobId record
        events := if done then p.events.erase jobId else p.events }, .none) := by
  simp only [save, hj]

theorem release_of_none (hj : p.owner jobId = none) :
    p.release jobId = (p, .error .keyError) := by
  simp only [release, hj]

theorem release_of_some {status : Datum} (hj : p.owner jobId = some ref)
    (hs : (p.heap ref).lookup "status" = some status) :
    p.release jobId = if status = .text (statusValue .running) then
        ({ p.assign ref "status" (.text (statusValue .queued)) with
            queue := p.queue ++ [jobId] }, .none)
      else (p, .none) := by
  simp only [release, hj, hs]

theorem requestCancel_of_none (hj : p.owner jobId = none) :
    p.requestCancel jobId = (p, .none) := by
  simp only [requestCancel, hj]

theorem requestCancel_of_some {status : Datum} (hj : p.owner jobId = some ref)
    (hs : (p.heap ref).lookup "status" = some status) :
    p.requestCancel jobId = if status ∈ terminals then (p, .none)
      else (p.assign ref "request_cancel" (.text "1"), .none) := by
  simp only [requestCancel, hj, hs]

theorem owner_collect (p : Process) (jobId : JobId) :
    (p.collect jobId).1.owner = Function.update p.owner jobId none :=
  Dict.lookup_erase_eq p.jobs jobId

theorem records_collect (p : Process) (jobId : JobId) :
    (p.collect jobId).1.records = Function.update p.records jobId none := by
  rw [records, owner_collect]
  exact Objects.view_erase p.owner p.heap jobId

end Memory.Process

end TaskQueue
