import Mathlib.Tactic.Common

/-!
# Coroutines that raise and catch

A coroutine (`Co`) performs operations of a signature one after the other and goes on
with their answers. It says nothing about what the operations do: that is an environment
(`Env`), a relation between the world before an operation, its answer and the world
after, so one program can be run among different schedulers, faults and cancellations.

- `Co.Runs`: a complete run in an environment.
- `Co.wp`: the weakest precondition, and `Co.wp_iff`: it holds exactly when every
  complete run ends as promised. The rules for it are equivalences, so it proves what
  all runs do and, by choosing answers, exhibits a run that does otherwise.
- `Routine`: a coroutine with local variables and exceptions. Assignments survive an
  exception, as in the languages that have `try`, `except` and `finally`.
-/

universe u v

/-- A coroutine that performs operations `q : Q`, answered by an `R q`, and returns. -/
inductive Co (Q : Type u) (R : Q → Type u) (α : Type u) : Type u where
  | ret (a : α)
  | call (q : Q) (k : R q → Co Q R α)

/-- What the operations do to a world `σ`, and how they may be answered. -/
abbrev Env (Q : Type u) (R : Q → Type u) (σ : Type v) := (q : Q) → σ → R q → σ → Prop

namespace Co

variable {Q : Type u} {R : Q → Type u} {α β : Type u} {σ : Type v}

/-- Sequential composition. -/
def bind : Co Q R α → (α → Co Q R β) → Co Q R β
  | ret a, k => k a
  | call q m, k => call q fun r => (m r).bind k

/-- The coroutine, started in world `s`, may return `a` in world `s'`. -/
def Runs (E : Env Q R σ) : Co Q R α → σ → α → σ → Prop
  | ret b, s, a, s' => a = b ∧ s' = s
  | call q k, s, a, s' => ∃ r t, E q s r t ∧ (k r).Runs E t a s'

/-- Whatever the answers, the coroutine can only return as `post` says. -/
def wp (E : Env Q R σ) : Co Q R α → (α → σ → Prop) → σ → Prop
  | ret a, post, s => post a s
  | call q k, post, s => ∀ r t, E q s r t → (k r).wp E post t

variable {E : Env Q R σ}

/-- The weakest precondition is about the complete runs, and about all of them. -/
theorem wp_iff {c : Co Q R α} {post : α → σ → Prop} {s : σ} :
    c.wp E post s ↔ ∀ a s', c.Runs E s a s' → post a s' := by
  induction c generalizing s with
  | ret b =>
    constructor
    · rintro h a s' ⟨rfl, rfl⟩
      exact h
    · intro h
      exact h b s ⟨rfl, rfl⟩
  | call q k ih =>
    constructor
    · rintro h a s' ⟨r, t, hE, hrun⟩
      exact (ih r).mp (h r t hE) a s' hrun
    · intro h r t hE
      exact (ih r).mpr fun a s' hrun => h a s' ⟨r, t, hE, hrun⟩

theorem wp_bind {c : Co Q R α} {k : α → Co Q R β} {post : β → σ → Prop} {s : σ} :
    (c.bind k).wp E post s ↔ c.wp E (fun a t => (k a).wp E post t) s := by
  induction c generalizing s with
  | ret b => exact Iff.rfl
  | call q m ih => exact forall_congr' fun r => forall_congr' fun t => imp_congr_right fun _ => ih r

theorem wp_mono {c : Co Q R α} {post post' : α → σ → Prop} {s : σ}
    (h : c.wp E post s) (hpost : ∀ a s', post a s' → post' a s') : c.wp E post' s :=
  wp_iff.mpr fun a s' hrun => hpost a s' (wp_iff.mp h a s' hrun)

theorem wp_congr {c : Co Q R α} {post post' : α → σ → Prop} {s : σ}
    (hpost : ∀ a s', post a s' ↔ post' a s') : c.wp E post s ↔ c.wp E post' s :=
  ⟨fun h => wp_mono h fun a s' => (hpost a s').mp, fun h => wp_mono h fun a s' => (hpost a s').mpr⟩

end Co

/-! ## Exceptions and local variables -/

/-- A coroutine with local variables `φ` that returns an `α` or raises an `ε`. An
operation `q : Q` is answered by an `A q` or raises. -/
def Routine (Q : Type u) (A : Q → Type u) (φ ε α : Type u) :=
  φ → Co Q (fun q => Except ε (A q)) (Except ε α × φ)

namespace Routine

variable {Q : Type u} {A : Q → Type u} {φ ε α β : Type u} {σ : Type v}

/-- Go on with `k` unless `m` raises. -/
def seq (m : Routine Q A φ ε α) (k : α → Routine Q A φ ε β) : Routine Q A φ ε β := fun f =>
  (m f).bind fun p =>
    match p.1 with
    | .ok a => k a p.2
    | .error e => .ret (.error e, p.2)

instance : Monad (Routine Q A φ ε) where
  pure a := fun f => .ret (.ok a, f)
  bind := seq

/-- `raise e`. -/
def raise (e : ε) : Routine Q A φ ε α := fun f => .ret (.error e, f)

/-- A computed value, or a computed exception. -/
def lift (r : Except ε α) : Routine Q A φ ε α := fun f => .ret (r, f)

/-- Perform an operation. -/
def call (q : Q) : Routine Q A φ ε (A q) := fun f => .call q fun r => .ret (r, f)

/-- Read the local variables. -/
def locals : Routine Q A φ ε φ := fun f => .ret (.ok f, f)

/-- Assign local variables. -/
def assign (g : φ → φ) : Routine Q A φ ε PUnit := fun f => .ret (.ok ⟨⟩, g f)

/-- `try: m; except e: handler e`. -/
def tryExcept (m : Routine Q A φ ε α) (handler : ε → Routine Q A φ ε α) :
    Routine Q A φ ε α := fun f =>
  (m f).bind fun p =>
    match p.1 with
    | .ok a => .ret (.ok a, p.2)
    | .error e => handler e p.2

/-- `try: m; finally: last`. What `last` raises replaces what `m` raised. -/
def tryFinally (m : Routine Q A φ ε α) (last : Routine Q A φ ε PUnit) :
    Routine Q A φ ε α := fun f =>
  (m f).bind fun p => (last p.2).bind fun p' =>
    match p'.1 with
    | .ok _ => .ret (p.1, p'.2)
    | .error e => .ret (.error e, p'.2)

/-- From the variables `f` and the world `s`, the routine may end in `r`. -/
def Runs (E : Env Q (fun q => Except ε (A q)) σ) (m : Routine Q A φ ε α) (f : φ) (s : σ)
    (r : Except ε α) (f' : φ) (s' : σ) : Prop := (m f).Runs E s (r, f') s'

/-- A postcondition told apart by how the routine ended. -/
def upon (returns : α → Prop) (raises : ε → Prop) : Except ε α → Prop
  | .ok a => returns a
  | .error e => raises e

@[simp] theorem upon_ok {returns : α → Prop} {raises : ε → Prop} {a : α} :
    upon returns raises (.ok a) ↔ returns a := Iff.rfl

@[simp] theorem upon_error {returns : α → Prop} {raises : ε → Prop} {e : ε} :
    upon returns raises (.error e) ↔ raises e := Iff.rfl

@[simp] theorem upon_mapError {ε' : Type u} {returns : α → Prop} {raises : ε' → Prop} {g : ε → ε'}
    {r : Except ε α} :
    upon returns raises (r.mapError g) ↔ upon returns (fun e => raises (g e)) r := by
  cases r with
  | ok a => exact Iff.rfl
  | error e => exact Iff.rfl

/-- An operation with one answer. -/
theorem forall_answer {ρ : Type u} {P : ρ → σ → Prop} {a : ρ} {b : σ} :
    (∀ r t, r = a ∧ t = b → P r t) ↔ P a b := by
  constructor
  · exact fun h => h a b ⟨rfl, rfl⟩
  · rintro h r t ⟨rfl, rfl⟩
    exact h

/-- Every complete run from `f` and `s` ends as `post` says. -/
def wp (E : Env Q (fun q => Except ε (A q)) σ) (m : Routine Q A φ ε α)
    (post : Except ε α → φ → σ → Prop) (f : φ) (s : σ) : Prop :=
  (m f).wp E (fun p => post p.1 p.2) s

variable {E : Env Q (fun q => Except ε (A q)) σ} {m : Routine Q A φ ε α}
  {post post' : Except ε α → φ → σ → Prop} {f : φ} {s : σ}

theorem wp_iff : m.wp E post f s ↔ ∀ r f' s', m.Runs E f s r f' s' → post r f' s' := by
  unfold wp Runs
  rw [Co.wp_iff]
  constructor
  · intro h r f' s' hrun
    exact h (r, f') s' hrun
  · intro h p s' hrun
    exact h p.1 p.2 s' hrun

theorem wp_mono (h : m.wp E post f s) (hpost : ∀ r f' s', post r f' s' → post' r f' s') :
    m.wp E post' f s :=
  Co.wp_mono h fun p s' => hpost p.1 p.2 s'

@[simp] theorem wp_pure {a : α} : (pure a : Routine Q A φ ε α).wp E post f s ↔ post (.ok a) f s :=
  Iff.rfl

@[simp] theorem wp_raise {e : ε} :
    (raise e : Routine Q A φ ε α).wp E post f s ↔ post (.error e) f s :=
  Iff.rfl

@[simp] theorem wp_lift {r : Except ε α} :
    (lift r : Routine Q A φ ε α).wp E post f s ↔ post r f s :=
  Iff.rfl

@[simp] theorem wp_call {q : Q} {post : Except ε (A q) → φ → σ → Prop} :
    (call q : Routine Q A φ ε (A q)).wp E post f s ↔ ∀ r t, E q s r t → post r f t :=
  Iff.rfl

@[simp] theorem wp_locals {post : Except ε φ → φ → σ → Prop} :
    (locals : Routine Q A φ ε φ).wp E post f s ↔ post (.ok f) f s :=
  Iff.rfl

@[simp] theorem wp_assign {g : φ → φ} {post : Except ε PUnit → φ → σ → Prop} :
    (assign g : Routine Q A φ ε PUnit).wp E post f s ↔ post (.ok ⟨⟩) (g f) s :=
  Iff.rfl

@[simp] theorem wp_ite {c : Prop} [Decidable c] {m n : Routine Q A φ ε α} :
    (if c then m else n).wp E post f s ↔ if c then m.wp E post f s else n.wp E post f s := by
  by_cases h : c
  · simp only [h, if_true]
  · simp only [h, if_false]

@[simp] theorem wp_bind {k : α → Routine Q A φ ε β} {post : Except ε β → φ → σ → Prop} :
    (m >>= k).wp E post f s ↔ m.wp E (fun r f' s' =>
      upon (fun a => (k a).wp E post f' s') (fun e => post (.error e) f' s') r) f s := by
  refine Co.wp_bind.trans (Co.wp_congr fun p t => ?_)
  rcases p with ⟨a | e, f'⟩
  · exact Iff.rfl
  · exact Iff.rfl

@[simp] theorem wp_tryExcept {handler : ε → Routine Q A φ ε α} :
    (m.tryExcept handler).wp E post f s ↔ m.wp E (fun r f' s' =>
      upon (fun a => post (.ok a) f' s') (fun e => (handler e).wp E post f' s') r) f s := by
  refine Co.wp_bind.trans (Co.wp_congr fun p t => ?_)
  rcases p with ⟨a | e, f'⟩
  · exact Iff.rfl
  · exact Iff.rfl

@[simp] theorem wp_tryFinally {last : Routine Q A φ ε PUnit} :
    (m.tryFinally last).wp E post f s ↔ m.wp E (fun r f' s' =>
      last.wp E (fun r' f'' s'' =>
        upon (fun _ => post r f'' s'') (fun e => post (.error e) f'' s'') r') f' s') f s := by
  refine Co.wp_bind.trans (Co.wp_congr fun p t => ?_)
  refine Co.wp_bind.trans (Co.wp_congr fun p' t' => ?_)
  rcases p' with ⟨a | e, f'⟩
  · exact Iff.rfl
  · exact Iff.rfl

end Routine
