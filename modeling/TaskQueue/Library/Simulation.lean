import TaskQueue.Library.Machine

/-!
# Two servers side by side

A server executes requests one after the other and answers each. Two servers that are sent the
same requests form one machine (`Service.beside`), and the claim that the concrete one does
what the abstract one says is a property along its runs.

`Simulation.agree_along_iff` is the rule: when a request that fits keeps the two states related
and the two answers alike, and one that does not fit shows in the answers, then the answers are
alike throughout a run exactly when all its requests fit.
-/

universe u v w

/-- What a server does with a request, and what it answers. -/
structure Service (σ : Type u) (κ : Type v) (ρ : Type w) where
  exec : σ → κ → σ × ρ

namespace Service

variable {σ τ : Type u} {κ : Type v} {ρ ρ' : Type w}

/-- The state after a list of requests. -/
def after (S : Service σ κ ρ) (s : σ) (qs : List κ) : σ := qs.foldl (fun s q => (S.exec s q).1) s

/-- Both servers, sent the same requests. -/
def beside (C : Service σ κ ρ) (A : Service τ κ ρ') (start : σ × τ) : Machine (σ × τ) κ where
  init := start
  step s q := some ((C.exec s.1 q).1, (A.exec s.2 q).1)

variable {C : Service σ κ ρ} {A : Service τ κ ρ'} {start : σ × τ}

theorem run_beside (s : σ) (t : τ) (qs : List κ) :
    (C.beside A start).run (s, t) qs = some (C.after s qs, A.after t qs) := by
  induction qs generalizing s t with
  | nil => rfl
  | cons q qs ih => exact ih _ _

end Service

/-- `C` does what `A` says, for the requests that fit. -/
structure Simulation {σ τ : Type u} {κ : Type v} {ρ ρ' : Type w} (C : Service σ κ ρ)
    (A : Service τ κ ρ') where
  Rel : σ → τ → Prop
  Fits : τ → κ → Prop
  Agree : ρ → ρ' → Prop
  exec : ∀ {s t q}, Rel s t → Fits t q →
    Rel (C.exec s q).1 (A.exec t q).1 ∧ Agree (C.exec s q).2 (A.exec t q).2
  fits_of_agree : ∀ {s t q}, Rel s t → Agree (C.exec s q).2 (A.exec t q).2 → Fits t q

namespace Simulation

variable {σ τ : Type u} {κ : Type v} {ρ ρ' : Type w} {C : Service σ κ ρ} {A : Service τ κ ρ'}
  (S : Simulation C A) {start : σ × τ}

/-- The answers to `q` are alike, and the states after it are related. -/
def Alike (s : σ × τ) (q : κ) (s' : σ × τ) : Prop :=
  S.Agree (C.exec s.1 q).2 (A.exec s.2 q).2 ∧ S.Rel s'.1 s'.2

/-- **The rule for simulations.** -/
theorem alike_along_iff {s : σ} {t : τ} (h : S.Rel s t) (qs : List κ) :
    (C.beside A start).Along S.Alike (s, t) qs ↔
      (C.beside A start).Along (fun p q _ => S.Fits p.2 q) (s, t) qs := by
  refine Machine.along_iff_along (J := fun p => S.Rel p.1 p.2) (E := fun _ _ => True)
    ?_ ?_ h (Machine.along_true _ _)
  · intro p q p' hrel _ hstep hfits
    cases hstep
    obtain ⟨hrel', hagree⟩ := S.exec hrel hfits
    exact ⟨⟨hagree, hrel'⟩, hrel'⟩
  · intro p q p' hrel _ hstep halike
    exact S.fits_of_agree hrel halike.1

/-- The states that a run of fitting requests ends in are related. -/
theorem rel_after {s : σ} {t : τ} (h : S.Rel s t) {qs : List κ}
    (hfits : (C.beside A (s, t)).Along (fun p q _ => S.Fits p.2 q) (s, t) qs) :
    S.Rel (C.after s qs) (A.after t qs) := by
  refine Machine.run_keeps (J := fun p => S.Rel p.1 p.2) ?_ h hfits (Service.run_beside s t qs)
  intro p q p' hrel hfit hstep
  cases hstep
  exact (S.exec hrel hfit).1

end Simulation
