import TaskQueue.Interface

/-!
# Counting deliveries

The stored `attempts` against a count that nobody writes: `tally` numbers the
deliveries of each job since it was enqueued, starting from 0 with each new record
and going up with each claim that finds one. It is told from the table operations
(`TableOp`), so it is one notion for both backends.

`attempts` itself is written in two places. A claim adds one to what is stored, and a
terminal save overwrites it with what its loop read from the claim. `Tallied` is the
invariant that makes the second write harmless: the stored counters are the tally, and
the snapshot of every live delivery carries the counter that is stored.

- `Counted`: what one step may do to one record and its tally.
- `Tallied.step`: the rule both backends use.
- `CountsDeliveries`: what is promised of a step.
-/

namespace TaskQueue

/-- The deliveries of each job since it was enqueued, after an operation on `t`. -/
def tally (t : Table) (n : JobId → Nat) : TableOp → JobId → Nat
  | .create record =>
    if (t record.id).isSome then n else Function.update n record.id 0
  | .claim jobId =>
    if (t jobId).isSome then Function.update n jobId (n jobId + 1) else n
  | .write _ | .requeue _ | .flag _ | .free _ => n

/-- One step, for one job: the counter is kept or the record goes, with the tally
unchanged; or the record is new, with both at 0; or, if the step `claims` the job,
both go up by one. -/
inductive Counted (claims : Prop) : Option Record → Nat → Option Record → Nat → Prop where
  | kept (x x' : Option Record) (n : Nat)
      (h : ∀ r', x' = some r' → ∃ r, x = some r ∧ r'.attempts = r.attempts) :
      Counted claims x n x' n
  | created (r' : Record) (n : Nat) (h : r'.attempts = 0) : Counted claims none n (some r') 0
  | delivered (r r' : Record) (n : Nat) (hc : claims) (h : r'.attempts = r.attempts + 1) :
      Counted claims (some r) n (some r') (n + 1)

namespace Counted

variable {claims : Prop} {x x' : Option Record} {n n' : Nat} {r r' : Record}

theorem same (x : Option Record) (n : Nat) : Counted claims x n x n :=
  .kept x x n fun r' h => ⟨r', h, rfl⟩

theorem imp {claims' : Prop} (hc : claims → claims') (h : Counted claims x n x' n') :
    Counted claims' x n x' n' := by
  cases h with
  | kept _ _ _ h => exact .kept _ _ _ h
  | created _ _ h => exact .created _ _ h
  | delivered _ _ _ hclaims h => exact .delivered _ _ _ (hc hclaims) h

/-- A counter that is the tally stays the tally. -/
theorem stored (h : Counted claims x n x' n') (hx : ∀ r, x = some r → r.attempts = n)
    (hx' : x' = some r') : r'.attempts = n' := by
  cases h with
  | kept _ _ _ h =>
    obtain ⟨r, hr, hattempts⟩ := h r' hx'
    rw [hattempts, hx r hr]
  | created _ _ h =>
    cases hx'
    exact h
  | delivered r _ _ _ h =>
    cases hx'
    rw [h, hx r rfl]
    push_cast
    rfl

theorem monotone (h : Counted claims x n x' n') (hx : x = some r) (hx' : x' = some r') :
    r.attempts ≤ r'.attempts := by
  cases h with
  | kept _ _ _ h =>
    obtain ⟨r₀, hr₀, hattempts⟩ := h r' hx'
    cases hx.symm.trans hr₀
    exact hattempts.ge
  | created _ _ _ => cases hx
  | delivered _ _ _ _ h =>
    cases hx
    cases hx'
    omega

/-- Only a claim of the job changes a counter that is stored before and after. -/
theorem steady (h : Counted claims x n x' n') (hc : ¬ claims) (hx : x = some r)
    (hx' : x' = some r') : r'.attempts = r.attempts := by
  cases h with
  | kept _ _ _ h =>
    obtain ⟨r₀, hr₀, hattempts⟩ := h r' hx'
    cases hx.symm.trans hr₀
    exact hattempts
  | created _ _ _ => cases hx
  | delivered _ _ _ hclaims _ => exact absurd hclaims hc

end Counted

/-- What is promised of a step from `t` to `t'`, with `n'` the deliveries counted after
it and `read` what a worker read from a claim in it, if that is what the step was. -/
structure CountsDeliveries (t t' : Table) (n' : JobId → Nat) (read : Option Record) : Prop where
  /-- the stored counter is the number of deliveries since the job was enqueued -/
  stored : ∀ jobId r, t' jobId = some r → r.attempts = n' jobId
  /-- it never decreases -/
  monotone : ∀ jobId r r', t jobId = some r → t' jobId = some r' → r.attempts ≤ r'.attempts
  /-- what the worker read is the ordinal of its delivery -/
  ordinal : ∀ r, read = some r → r.attempts = n' r.id
  /-- a step in which no worker reads the job from a claim leaves its counter alone -/
  steady : ∀ jobId r r', (∀ r₁, read = some r₁ → r₁.id ≠ jobId) → t jobId = some r →
    t' jobId = some r' → r'.attempts = r.attempts

/-- The stored counters are the tally, and every live delivery (`snapshot`) carries the
counter that is stored. -/
structure Tallied {ι : Type} (t : Table) (n : JobId → Nat) (snapshot : ι → Option Record) :
    Prop where
  stored : ∀ jobId r, t jobId = some r → r.attempts = n jobId
  snapshots : ∀ i r, snapshot i = some r → ∃ r₀, t r.id = some r₀ ∧ r₀.attempts = r.attempts

theorem tallied_empty {ι : Type} :
    Tallied (ι := ι) (fun _ => none) (fun _ => 0) (fun _ => none) where
  stored _ _ h := absurd h (Option.some_ne_none _).symm
  snapshots _ _ h := absurd h (Option.some_ne_none _).symm

/-- The new snapshot `r` of a step to `t'`: what the step itself stored, or an old one of
a record that is still there and was not claimed again. -/
def Carried (t' : Table) (claims : JobId → Prop) (old : Option Record) (r : Record) : Prop :=
  (∃ r₀, t' r.id = some r₀ ∧ r₀.attempts = r.attempts) ∨
    ∃ r₁, old = some r₁ ∧ r₁.id = r.id ∧ r₁.attempts = r.attempts ∧ ¬ claims r.id ∧
      t' r.id ≠ none

/-- **The rule.** When every job is `Counted` and every snapshot carried, the invariant
is kept. -/
theorem Tallied.step {ι : Type} {t t' : Table} {n n' : JobId → Nat}
    {snapshot snapshot' : ι → Option Record} {claims : JobId → Prop}
    (h : Tallied t n snapshot)
    (hcounted : ∀ jobId, Counted (claims jobId) (t jobId) (n jobId) (t' jobId) (n' jobId))
    (hcarried : ∀ i r, snapshot' i = some r → Carried t' claims (snapshot i) r) :
    Tallied t' n' snapshot' where
  stored jobId r' hr' := (hcounted jobId).stored (h.stored jobId) hr'
  snapshots i r hr := by
    rcases hcarried i r hr with hfresh | ⟨r₁, hold, hid, hattempts, hclaims, hne⟩
    · exact hfresh
    · obtain ⟨r₀, hr₀, heq⟩ := h.snapshots i r₁ hold
      obtain ⟨r', hr'⟩ := Option.ne_none_iff_exists'.mp hne
      rw [hid] at hr₀
      have hsteady := (hcounted r.id).steady hclaims hr₀ hr'
      exact ⟨r', hr', by rw [hsteady, heq, hattempts]⟩

/-- What the step promises follows, for a claim that hands out the record it stored. -/
theorem Tallied.counts {ι : Type} {t t' : Table} {n n' : JobId → Nat}
    {snapshot : ι → Option Record} {claims : JobId → Prop} {read : Option Record}
    (h : Tallied t n snapshot)
    (hcounted : ∀ jobId, Counted (claims jobId) (t jobId) (n jobId) (t' jobId) (n' jobId))
    (hread : ∀ r, read = some r → t' r.id = some r)
    (hclaims : ∀ jobId, claims jobId → t' jobId ≠ none → ∃ r, read = some r ∧ r.id = jobId) :
    CountsDeliveries t t' n' read where
  stored jobId r' hr' := (hcounted jobId).stored (h.stored jobId) hr'
  monotone jobId r r' hr hr' := (hcounted jobId).monotone hr hr'
  ordinal r hr := (hcounted r.id).stored (h.stored r.id) (hread r hr)
  steady jobId r r' hother hr hr' := by
    refine (hcounted jobId).steady (fun hc => ?_) hr hr'
    obtain ⟨r₁, hr₁, hid⟩ := hclaims jobId hc (by rw [hr']; simp)
    exact hother r₁ hr₁ hid

/-! ## Table operations -/

/-- A table operation is counted, if a new record starts at 0 and a write carries the
counter it overwrites. -/
theorem TableOp.counted {t : Table} {n : JobId → Nat} (op : TableOp)
    (hnew : ∀ record, op = .create record → record.attempts = 0)
    (hwrite : ∀ f r, op = .write f → t f.record.id = some r →
      f.record.attempts = r.attempts) (jobId : JobId) :
    Counted (op = .claim jobId) (t jobId) (n jobId) (op.effect t jobId) (tally t n op jobId) := by
  -- a change to the record of `id` that keeps the counter
  have hmodify : ∀ (id : JobId) (f : Record → Record),
      (∀ r, t id = some r → (f r).attempts = r.attempts) →
      Counted (op = .claim jobId) (t jobId) (n jobId) (t.modify id f jobId) (n jobId) := by
    intro id f hf
    refine .kept _ _ _ fun r' hr' => ?_
    by_cases hid : jobId = id
    · subst hid
      rw [Table.modify, Function.update_self, Option.map_eq_some_iff] at hr'
      obtain ⟨r, hr, rfl⟩ := hr'
      exact ⟨r, hr, hf r hr⟩
    · rw [Table.modify, Function.update_of_ne hid] at hr'
      exact ⟨r', hr', rfl⟩
  cases op with
  | create record =>
    cases hj : t record.id with
    | some r =>
      simp only [effect, tally, hj, Option.isSome_some, if_true]
      exact .same _ _
    | none =>
      simp only [effect, tally, hj, Option.isSome_none, Bool.false_eq_true, if_false]
      by_cases hid : jobId = record.id
      · subst hid
        rw [Function.update_self, Function.update_self, hj]
        exact .created _ _ (hnew record rfl)
      · rw [Function.update_of_ne hid, Function.update_of_ne hid]
        exact .same _ _
  | claim id =>
    cases hj : t id with
    | none =>
      simp only [effect, tally, hj, Option.isSome_none, Bool.false_eq_true, if_false,
        Table.modify_of_none hj]
      exact .same _ _
    | some r =>
      simp only [effect, tally, hj, Option.isSome_some, if_true, Table.modify_of_some hj]
      by_cases hid : jobId = id
      · subst hid
        rw [Function.update_self, Function.update_self, hj]
        exact .delivered _ _ _ rfl rfl
      · rw [Function.update_of_ne hid, Function.update_of_ne hid]
        exact .same _ _
  | write f => exact hmodify f.record.id _ fun r hr => hwrite f r rfl hr
  | requeue id =>
    refine hmodify id _ fun r _ => ?_
    split <;> rfl
  | flag id =>
    refine hmodify id _ fun r _ => ?_
    split <;> rfl
  | free id =>
    refine .kept _ _ _ fun r' hr' => ?_
    by_cases hid : jobId = id
    · subst hid
      rw [effect, Function.update_self] at hr'
      cases hr'
    · rw [effect, Function.update_of_ne hid] at hr'
      exact ⟨r', hr', rfl⟩

end TaskQueue
