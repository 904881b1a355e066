import TaskQueue.Job
import TaskQueue.Library.Incarnation

/-!
# What `take_result` hands out

A call of `take_result` that returns has a `Receipt`: the record, and which
incarnation of the job it was (the number of times the id had been enqueued anew).
`SingleConsumer` is what the interface promises of all receipts together. Both
backends keep `Issued`, the invariant behind it, by the same three operations: a
record is created, is freed, or is handed to a call.
-/

namespace TaskQueue

/-- What a call of `take_result` returned. -/
structure Receipt where
  jobId : JobId
  record : Record
  incarnation : Nat
deriving DecidableEq

variable {κ : Type}

/-- Every record returned is terminal, and no two calls returned the same
incarnation of a job. -/
structure SingleConsumer (receipt : κ → Option Receipt) : Prop where
  finished : ∀ c x, receipt c = some x → x.record.status.terminal = true
  once : ∀ c c' x x', receipt c = some x → receipt c' = some x' → x.jobId = x'.jobId →
    x.incarnation = x'.incarnation → c = c'

/-- The invariant: the incarnations are handed out soundly, as terminal records. -/
structure Issued (stored : JobId → Prop) (born : JobId → Nat) (receipt : κ → Option Receipt) :
    Prop where
  sound : Incarnation.Sound stored born fun c =>
    (receipt c).map fun x => (x.jobId, x.incarnation)
  finished : ∀ c x, receipt c = some x → x.record.status.terminal = true

namespace Issued

variable {stored stored' : JobId → Prop} {born : JobId → Nat}
  {receipt receipt' : κ → Option Receipt}

theorem init : Issued stored born (fun _ : κ => none) :=
  ⟨Incarnation.sound_init, fun _ _ h => nomatch h⟩

theorem singleConsumer (h : Issued stored born receipt) : SingleConsumer receipt where
  finished := h.finished
  once c c' x x' hc hc' hid hn :=
    h.sound.unique c c' x.jobId x.incarnation (by simp [hc]) (by simp [hc', hid, hn])

theorem congr (h : Issued stored born receipt) (hreceipt : ∀ c, receipt' c = receipt c)
    (hstored : ∀ jobId, stored' jobId → stored jobId) : Issued stored' born receipt' where
  sound := h.sound.congr (fun c => by rw [hreceipt c]) hstored
  finished c x hc := h.finished c x (hreceipt c ▸ hc)

theorem create (h : Issued stored born receipt) (jobId : JobId)
    (hstored : ∀ id, id ≠ jobId → stored' id → stored id) :
    Issued stored' (Function.update born jobId (born jobId + 1)) receipt where
  sound := h.sound.create jobId hstored
  finished := h.finished

theorem hand [DecidableEq κ] (h : Issued stored born receipt) {jobId : JobId} {c : κ}
    {record : Record} (hid : stored jobId) (hfree : ¬ stored' jobId)
    (hstored : ∀ id, stored' id → stored id) (ht : record.status.terminal = true)
    (hreceipt : receipt' = Function.update receipt c (some ⟨jobId, record, born jobId⟩)) :
    Issued stored' born receipt' where
  sound := by
    refine h.sound.hand hid hfree hstored (c := c) ?_
    funext c'
    rw [hreceipt]
    by_cases hc : c' = c
    · subst hc
      simp
    · simp [Function.update_of_ne hc]
  finished c' x hc' := by
    rw [hreceipt] at hc'
    by_cases hc : c' = c
    · subst hc
      rw [Function.update_self, Option.some.injEq] at hc'
      subst hc'
      exact ht
    · rw [Function.update_of_ne hc] at hc'
      exact h.finished c' x hc'

end Issued

end TaskQueue
