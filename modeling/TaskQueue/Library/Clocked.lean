import Mathlib.Order.Lattice
import TaskQueue.Library.Machine

/-!
# Machines with a clock

A machine runs beside a clock. Time passes between its steps: a tick sets the clock to any
later time that the state does not forbid, and an event that belongs to a moment can only
happen once the moment has come. Forbidding a time is urgency: the event that is due
then happens before time goes on.

`Machine.along_clocked` is the rule for runs: an invariant is kept by the machine's steps
at the time at which they happen, and by the ticks.
-/

universe u v w

/-- A state and the time. -/
structure Clocked (σ : Type u) (τ : Type w) where
  state : σ
  clock : τ

/-- A step of the machine, or time passes. -/
inductive ClockEvent (ε : Type v) (τ : Type w) where
  | act (e : ε)
  | tick (later : τ)
deriving DecidableEq

/-- Which events may happen at a time, and which times a state lets the clock reach. -/
structure Timing (σ : Type u) (ε : Type v) (τ : Type w) where
  ripe : ε → τ → Bool
  lets : σ → τ → Bool

namespace Machine

variable {σ : Type u} {ε : Type v} {τ : Type w} [LinearOrder τ]

/-- The machine beside a clock that starts at `start`. -/
def clocked (M : Machine σ ε) (T : Timing σ ε τ) (start : τ) :
    Machine (Clocked σ τ) (ClockEvent ε τ) where
  init := ⟨M.init, start⟩
  step s
    | .act e =>
      if T.ripe e s.clock = true then (M.step s.state e).map fun s' => ⟨s', s.clock⟩ else none
    | .tick later =>
      if s.clock ≤ later ∧ T.lets s.state later = true then some ⟨s.state, later⟩ else none

variable {M : Machine σ ε} {T : Timing σ ε τ} {start : τ}

theorem clocked_act {s s' : Clocked σ τ} {e : ε}
    (h : (M.clocked T start).step s (.act e) = some s') :
    T.ripe e s.clock = true ∧ M.step s.state e = some s'.state ∧ s'.clock = s.clock := by
  simp only [clocked, Option.ite_none_right_eq_some] at h
  obtain ⟨hripe, h⟩ := h
  obtain ⟨t, hstep, rfl⟩ := Option.map_eq_some_iff.mp h
  exact ⟨hripe, hstep, rfl⟩

theorem clocked_tick {s s' : Clocked σ τ} {later : τ}
    (h : (M.clocked T start).step s (.tick later) = some s') :
    s.clock ≤ later ∧ T.lets s.state later = true ∧ s' = ⟨s.state, later⟩ := by
  simp only [clocked, Option.ite_none_right_eq_some, Option.some.injEq] at h
  exact ⟨h.1.1, h.1.2, h.2.symm⟩

/-- **The rule for runs beside a clock.** What the steps that meet `C` keep at their
time, and the ticks that meet it, holds in every state of a run of such steps. -/
theorem along_clocked {J : Clocked σ τ → Prop} {C : Clocked σ τ → ClockEvent ε τ → Prop}
    (hact : ∀ s e s', J s → C s (.act e) → T.ripe e s.clock = true →
      M.step s.state e = some s' → J ⟨s', s.clock⟩)
    (htick : ∀ s later, J s → C s (.tick later) → s.clock ≤ later → T.lets s.state later = true →
      J ⟨s.state, later⟩)
    {es : List (ClockEvent ε τ)} {s : Clocked σ τ} (hJ : J s)
    (hC : (M.clocked T start).Along (fun s e _ => C s e) s es) :
    (M.clocked T start).Along (fun _ _ s' => J s') s es := by
  refine along_of_invariant (J := J) (C := C) (fun s e s' hs hc hstep => ?_) hJ hC
  have hnext : J s' := by
    cases e with
    | act e =>
      obtain ⟨hripe, hstep, hclock⟩ := clocked_act hstep
      have hkept : J ⟨s'.state, s.clock⟩ := hact s e s'.state hs hc hripe hstep
      rwa [← hclock] at hkept
    | tick later =>
      obtain ⟨hle, hlets, rfl⟩ := clocked_tick hstep
      exact htick s later hs hc hle hlets
  exact ⟨hnext, hnext⟩

end Machine
