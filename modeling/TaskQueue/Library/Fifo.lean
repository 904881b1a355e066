import TaskQueue.Library.Machine

/-!
# A queue in a machine

A machine with a queue in its state, from which steps take the head or to whose end they
append. What stands at position `k` comes to the head when `k` items have been taken, whatever
else the run does (`Fifo.head?_run`): nothing overtakes, and nothing waits for more than the
items before it.
-/

universe u v w

/-- A list in the state of `M` that every step treats as a queue. -/
structure Fifo {σ : Type u} {ε : Type v} (M : Machine σ ε) (α : Type w) where
  queue : σ → List α
  takes : σ → ε → Bool
  step : ∀ {s e s'}, M.step s e = some s' →
    ∃ added, queue s' = (if takes s e then (queue s).tail else queue s) ++ added

namespace Fifo

variable {σ : Type u} {ε : Type v} {α : Type w} {M : Machine σ ε} (F : Fifo M α)

/-- How many items a run takes. -/
def taken : σ → List ε → Nat
  | _, [] => 0
  | s, e :: es =>
    match M.step s e with
    | none => 0
    | some s' => (if F.takes s e then 1 else 0) + taken s' es

/-- **The queue after a run.** -/
theorem queue_run {es : List ε} {s t : σ} (hrun : M.run s es = some t)
    (hlength : F.taken s es ≤ (F.queue s).length) :
    ∃ added, F.queue t = (F.queue s).drop (F.taken s es) ++ added := by
  induction es generalizing s with
  | nil =>
    cases hrun
    exact ⟨[], (List.append_nil _).symm⟩
  | cons e es ih =>
    cases hstep : M.step s e with
    | none =>
      rw [Machine.run, hstep] at hrun
      cases hrun
    | some s' =>
      rw [Machine.run, hstep] at hrun
      simp only [taken, hstep] at hlength ⊢
      obtain ⟨added, hqueue⟩ := F.step hstep
      by_cases htakes : F.takes s e
      · simp only [htakes, if_true] at hlength hqueue ⊢
        have hs' : (F.queue s').length = (F.queue s).length - 1 + added.length := by
          rw [hqueue, List.length_append, List.length_tail]
        obtain ⟨added', ht⟩ := ih hrun (by omega)
        have htail : F.taken s' es ≤ (F.queue s).tail.length := by
          rw [List.length_tail]
          omega
        refine ⟨added ++ added', ?_⟩
        rw [ht, hqueue, List.drop_append_of_le_length htail, List.drop_tail, List.append_assoc,
          Nat.add_comm]
      · simp only [htakes, Bool.false_eq_true, if_false, Nat.zero_add] at hlength hqueue ⊢
        obtain ⟨added', ht⟩ := ih hrun (by rw [hqueue, List.length_append]; omega)
        exact ⟨added ++ added', by
          rw [ht, hqueue, List.drop_append_of_le_length hlength, List.append_assoc]⟩

/-- **First in, first out.** -/
theorem head?_run {es : List ε} {s t : σ} {a : α} (hrun : M.run s es = some t)
    (ha : (F.queue s)[F.taken s es]? = some a) : (F.queue t).head? = some a := by
  obtain ⟨hlt, hget⟩ := List.getElem?_eq_some_iff.mp ha
  obtain ⟨added, ht⟩ := F.queue_run hrun (by omega)
  rw [ht, List.drop_eq_getElem_cons hlt, hget]
  rfl

end Fifo
