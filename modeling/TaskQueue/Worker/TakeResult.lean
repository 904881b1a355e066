import TaskQueue.Worker.Fleet

/-!
# `take_result` over Redis

A call reads the status in one round trip, and runs its fetch-and-delete in a
later one. Any number of calls wait for the same id, and every other event of the
fleet may come in between, in any order.

Handing out is sound in every run: the `HGETALL` and the `DEL` are one atomic step,
so two calls never return the same incarnation. What the code does not guarantee
is that the record a call takes is still the one it has checked.
`gapKept` is the condition: while a call is between its
check and its fetch, nothing revives the record.
-/

namespace TaskQueue.Worker

open Redis

/-- What a call has returned, if it has. -/
def CallPhase.receipt : CallPhase → Option Receipt
  | .returned x => some x
  | _ => none

namespace Fleet

variable (d : Deployment)

/-- No call that is past its check sees the record it is about to take revived. -/
def gapKept (s : Fleet) (e : Event) : Prop :=
  ∀ q, s.request d e = some q → ∀ c jobId, s.calls c = .fetching jobId →
    ¬ q.Revives s.store jobId

/-- What is promised of every step: the receipts are single, and a call that
deletes a record deletes a finished one. -/
def TakesFinished (s : Fleet) (e : Event) (s' : Fleet) : Prop :=
  SingleConsumer (fun c => (s'.calls c).receipt) ∧
    ∀ c jobId entry, e = .fetch c → s.store.jobs jobId = some entry →
      s'.store.jobs jobId = none → entry.record.status.terminal = true

/-- The invariant: receipts are issued soundly, and a call past its check finds the
record finished or gone. -/
structure Collecting (s : Fleet) : Prop where
  issued : Issued (fun jobId => (s.store.jobs jobId).isSome = true) s.born
    fun c => (s.calls c).receipt
  checked : ∀ c jobId, s.calls c = .fetching jobId → s.store.Settled jobId

theorem collecting_init : Collecting init where
  issued := .init
  checked _ _ h := nomatch h

variable {d}

/-- An event that moves no call and starts no incarnation. -/
theorem Collecting.quiet {s s' : Fleet} {e : Event} (h : Collecting s)
    (hs : s.step d e = some s') (henqueue : ∀ record, e ≠ .enqueue record)
    (hcalls : s'.calls = s.calls) (hborn : s'.born = s.born) (hgap : gapKept d s e) :
    Collecting s' := by
  have hreq : ∀ q, s.request d e = some q → ∀ record, q ≠ .enqueue record := by
    rintro q hq record rfl
    exact henqueue record (enqueue_of_request d hq)
  have hstore := step_store d hs
  rw [gapKept] at hgap
  cases hq : s.request d e with
  | none =>
    rw [hq] at hstore
    refine ⟨?_, ?_⟩
    · rw [hborn, hstore]
      exact h.issued.congr (fun c => by rw [hcalls]) fun _ => id
    · rw [hcalls, hstore]
      exact h.checked
  | some q =>
    rw [hq] at hstore hgap
    have hst : s'.store = q.after s.store := hstore
    refine ⟨?_, ?_⟩
    · rw [hborn, hst]
      refine h.issued.congr (fun c => by rw [hcalls]) fun jobId => ?_
      exact q.stored_of_after fun record he => absurd he (hreq q hq record)
    · rw [hcalls, hst]
      exact fun c jobId hc => q.settled (h.checked c jobId hc) (hgap q rfl c jobId hc)

theorem Collecting.enqueue {s s' : Fleet} {record : Record} (h : Collecting s)
    (hs : s.step d (.enqueue record) = some s') (hgap : gapKept d s (.enqueue record)) :
    Collecting s' := by
  have hst : s'.store = (Request.enqueue record).after s.store := step_store d hs
  have hcalls : s'.calls = s.calls := by cases hs; rfl
  refine ⟨?_, ?_⟩
  · cases hj : s.store.jobs record.id with
    | some e =>
      -- the id is known: nothing is created
      have hborn : s'.born = s.born := by
        simp only [step, request, serve, Request.exec, enqueueScript_of_some hj,
          Option.some.injEq] at hs
        subst hs
        simp
      rw [hborn, hst, after_enqueue_some hj]
      exact h.issued.congr (fun c => by rw [hcalls]) fun _ => id
    | none =>
      have hborn : s'.born = Function.update s.born record.id (s.born record.id + 1) := by
        simp only [step, request, serve, Request.exec, enqueueScript_of_none hj,
          Option.some.injEq] at hs
        subst hs
        simp
      rw [hborn, hst]
      refine (h.issued.congr (fun c => by rw [hcalls]) fun _ => id).create record.id ?_
      refine fun jobId hne => (Request.enqueue record).stored_of_after ?_
      rintro _ ⟨⟩
      exact Ne.symm hne
  · rw [hcalls, hst]
    exact fun c jobId hc => (Request.enqueue record).settled (h.checked c jobId hc)
      (hgap _ rfl c jobId hc)

theorem Collecting.check {s s' : Fleet} {c : CallId} (h : Collecting s)
    (hs : s.step d (.check c) = some s') : Collecting s' := by
  simp only [step] at hs
  split at hs
  · rename_i jobId hc
    simp only [Option.some.injEq] at hs
    subst hs
    refine ⟨h.issued.congr (fun c' => ?_) fun _ => id, fun c' id hc' => ?_⟩
    · show (Function.update s.calls c _ c').receipt = _
      by_cases hcc : c' = c
      · subst hcc
        rw [Function.update_self, hc, CallPhase.check]
        split
        · rfl
        · split <;> rfl
      · rw [Function.update_of_ne hcc]
    · change Function.update s.calls c _ c' = _ at hc'
      by_cases hcc : c' = c
      · subst hcc
        rw [Function.update_self, CallPhase.check] at hc'
        split at hc'
        · cases hc'
        · rename_i e he
          split at hc'
          · rename_i ht
            obtain rfl : jobId = id := by simpa using hc'
            intro e' he'
            have : some e = some e' := he.symm.trans he'
            cases this
            exact ht
          · cases hc'
      · rw [Function.update_of_ne hcc] at hc'
        exact h.checked c' id hc'
  · cases hs

theorem Collecting.take {s s' : Fleet} {c : CallId} {jobId : JobId} (h : Collecting s)
    (hs : s.step d (.take c jobId) = some s') : Collecting s' := by
  simp only [step, Option.ite_none_right_eq_some, Option.some.injEq] at hs
  obtain ⟨hc, rfl⟩ := hs
  refine ⟨h.issued.congr (fun c' => ?_) fun _ => id, fun c' id hc' => ?_⟩
  · show (Function.update s.calls c _ c').receipt = _
    by_cases hcc : c' = c
    · rw [hcc, Function.update_self, hc]
      rfl
    · rw [Function.update_of_ne hcc]
  · change Function.update s.calls c _ c' = _ at hc'
    by_cases hcc : c' = c
    · subst hcc
      rw [Function.update_self] at hc'
      cases hc'
    · rw [Function.update_of_ne hcc] at hc'
      exact h.checked c' id hc'

/-- The fetch-and-delete of a call: the record leaves the store and, if there was
one, becomes the call's receipt. -/
theorem Collecting.fetch {s s' : Fleet} {c : CallId} (h : Collecting s)
    (hs : s.step d (.fetch c) = some s') :
    Collecting s' ∧ ∀ jobId entry, s.store.jobs jobId = some entry →
      s'.store.jobs jobId = none → entry.record.status.terminal = true := by
  simp only [step] at hs
  split at hs
  · rename_i jobId hc
    simp only [Option.some.injEq] at hs
    have hsettled := h.checked c jobId hc
    have hother : ∀ id, id ≠ jobId → (s.store.del jobId).jobs id = s.store.jobs id :=
      fun id hne => Function.update_of_ne hne _ _
    have hmono : ∀ id, ((s.store.del jobId).jobs id).isSome = true →
        (s.store.jobs id).isSome = true := by
      intro id hid
      by_cases hne : id = jobId
      · subst hne
        rw [Store.del_jobs, Function.update_self] at hid
        cases hid
      · rwa [hother id hne] at hid
    subst hs
    simp only [request, hc, serve, Request.exec, Redis.fetchAndDelete]
    refine ⟨⟨?_, fun c' id hc' => ?_⟩, fun id entry he hgone => ?_⟩
    · cases hj : s.store.jobs jobId with
      | none =>
        refine h.issued.congr (fun c' => ?_) hmono
        show (Function.update s.calls c _ c').receipt = _
        by_cases hcc : c' = c
        · rw [hcc, Function.update_self, hc]
          rfl
        · rw [Function.update_of_ne hcc]
      | some e =>
        have hstored : (s.store.jobs jobId).isSome = true := by rw [hj]; rfl
        refine h.issued.hand (c := c) hstored ?_ hmono (hsettled e hj) ?_
        · simp [Store.del_jobs]
        · funext c'
          show (Function.update s.calls c _ c').receipt = _
          by_cases hcc : c' = c
          · rw [hcc, Function.update_self, Function.update_self]
            rfl
          · rw [Function.update_of_ne hcc, Function.update_of_ne hcc]
    · change Function.update s.calls c _ c' = _ at hc'
      by_cases hcc : c' = c
      · subst hcc
        rw [Function.update_self] at hc'
        cases hj : (s.store.jobs jobId).map Entry.record <;>
          simp [hj, Reply.ofRecord, CallPhase.collect] at hc'
      · rw [Function.update_of_ne hcc] at hc'
        intro e he
        by_cases hne : id = jobId
        · subst hne
          rw [Store.del_jobs, Function.update_self] at he
          cases he
        · exact h.checked c' id hc' e ((hother id hne) ▸ he)
    · by_cases hne : id = jobId
      · subst hne
        exact hsettled entry he
      · have : s.store.jobs id = none := (hother id hne) ▸ hgone
        rw [this] at he
        cases he
  · cases hs

variable (d)

/-- **Single consumer over Redis.** In a run in which nothing revives a record
between a call's check and its fetch, every receipt is a terminal record of an
incarnation that no other call returned, and no call deletes an unfinished record. -/
theorem takesFinished_along {es : List Event}
    (hgap : (machine d).Along (fun s e _ => gapKept d s e) init es) :
    (machine d).Along TakesFinished init es := by
  refine Machine.along_of_invariant (J := Collecting) (C := gapKept d) ?_
    collecting_init hgap
  intro s e s' h hc hs
  change s.step d e = some s' at hs
  have hquiet : ∀ {e'}, e = e' → (∀ c, e' ≠ .fetch c) → Collecting s' →
      TakesFinished s e s' ∧ Collecting s' := by
    rintro _ rfl hne h'
    exact ⟨⟨h'.issued.singleConsumer, fun c jobId entry he => absurd he (hne c)⟩, h'⟩
  cases e with
  | enqueue record => exact hquiet rfl (by simp) (h.enqueue hs hc)
  | take c jobId => exact hquiet rfl (by simp) (h.take hs)
  | check c => exact hquiet rfl (by simp) (h.check hs)
  | fetch c =>
    obtain ⟨h', hdel⟩ := h.fetch hs
    exact ⟨⟨h'.issued.singleConsumer, fun _ jobId entry _ => hdel jobId entry⟩, h'⟩
  | _ =>
    obtain ⟨hcalls, hborn⟩ := step_clients d hs (by simp) (by simp) (by simp) (by simp)
    exact hquiet rfl (by simp) (h.quiet hs (by simp) hcalls hborn hc)

end Fleet

end TaskQueue.Worker
