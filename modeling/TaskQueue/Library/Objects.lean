import Mathlib.Data.Option.Basic
import Mathlib.Logic.Function.Basic

/-!
# Tables of objects

A table may hold objects rather than values: `owner k` names the object under the key `k`, and
`heap` says what each object holds. Whoever else has the object can change it. As long as no two
keys hold one object (`Unshared`) the table is one of values, `view owner heap`, and an update
of the table or of an object is an update of the view.

`Related` compares two tables of values key by key.
-/

universe u v w x

namespace Objects

variable {κ : Type u} {ρ : Type v} {α : Type w} {β : Type x}

/-! ## Views -/

/-- What is under a key. -/
def view (owner : κ → Option ρ) (heap : ρ → α) (k : κ) : Option α := (owner k).map heap

/-- No two keys hold one object. -/
def Unshared (owner : κ → Option ρ) : Prop :=
  ∀ k k' r, owner k = some r → owner k' = some r → k = k'

/-- No key but `k` holds the object. -/
def OnlyOf (owner : κ → Option ρ) (k : κ) (r : ρ) : Prop := ∀ k', owner k' = some r → k' = k

/-- No key holds the object. -/
def Free (owner : κ → Option ρ) (r : ρ) : Prop := ∀ k, owner k ≠ some r

variable {owner : κ → Option ρ} {heap heap' : ρ → α} {k : κ} {r : ρ}

theorem view_of_some (hk : owner k = some r) : view owner heap k = some (heap r) := by
  rw [view, hk]
  rfl

theorem view_eq_none : view owner heap k = none ↔ owner k = none := Option.map_eq_none_iff

theorem Unshared.onlyOf (h : Unshared owner) (hk : owner k = some r) : OnlyOf owner k r :=
  fun k' hk' => h k' k r hk' hk

theorem Free.onlyOf (h : Free owner r) (k : κ) : OnlyOf owner k r :=
  fun k' hk' => absurd hk' (h k')

/-- An object that no key holds may change. -/
theorem view_congr (hheap : ∀ r', r' ≠ r → heap' r' = heap r') (hfree : Free owner r) :
    view owner heap' = view owner heap := by
  funext k
  unfold view
  cases hk : owner k with
  | none => rfl
  | some r' =>
    have hne : r' ≠ r := by
      rintro rfl
      exact hfree k hk
    rw [Option.map_some, Option.map_some, hheap r' hne]

variable [DecidableEq κ]

theorem Unshared.put (h : Unshared owner) (honly : OnlyOf owner k r) :
    Unshared (Function.update owner k (some r)) := by
  intro j j' r' hj hj'
  have hput : ∀ i, Function.update owner k (some r) i = some r' →
      (i = k ∧ r = r') ∨ (i ≠ k ∧ owner i = some r') := by
    intro i hi
    by_cases hik : i = k
    · subst hik
      rw [Function.update_self] at hi
      exact Or.inl ⟨rfl, Option.some.inj hi⟩
    · rw [Function.update_of_ne hik] at hi
      exact Or.inr ⟨hik, hi⟩
  rcases hput j hj with ⟨rfl, rfl⟩ | ⟨hne, hold⟩ <;>
    rcases hput j' hj' with ⟨rfl, hr⟩ | ⟨hne', hold'⟩
  · rfl
  · exact (honly j' hold').symm
  · exact honly j (hr ▸ hold)
  · exact h j j' r' hold hold'

theorem Unshared.erase (h : Unshared owner) (k : κ) :
    Unshared (Function.update owner k none) := by
  have hold : ∀ i r, Function.update owner k none i = some r → owner i = some r := by
    intro i r hi
    by_cases hik : i = k
    · subst hik
      rw [Function.update_self] at hi
      cases hi
    · rwa [Function.update_of_ne hik] at hi
  exact fun j j' r hj hj' => h j j' r (hold j r hj) (hold j' r hj')

/-- An object that no other key holds is put under a key, and may change meanwhile. -/
theorem view_put (hheap : ∀ r', r' ≠ r → heap' r' = heap r') (honly : OnlyOf owner k r) :
    view (Function.update owner k (some r)) heap'
      = Function.update (view owner heap) k (some (heap' r)) := by
  funext j
  by_cases hj : j = k
  · subst hj
    rw [Function.update_self, view, Function.update_self]
    rfl
  · rw [Function.update_of_ne hj]
    unfold view
    rw [Function.update_of_ne hj]
    cases hold : owner j with
    | none => rfl
    | some r' =>
      have hne : r' ≠ r := by
        rintro rfl
        exact hj (honly j hold)
      rw [Option.map_some, Option.map_some, hheap r' hne]

/-- The object under a key changes in place. -/
theorem view_write (h : Unshared owner) (hk : owner k = some r)
    (hheap : ∀ r', r' ≠ r → heap' r' = heap r') :
    view owner heap' = Function.update (view owner heap) k (some (heap' r)) := by
  rw [← view_put hheap (h.onlyOf hk), ← hk, Function.update_eq_self]

theorem view_erase (owner : κ → Option ρ) (heap : ρ → α) (k : κ) :
    view (Function.update owner k none) heap = Function.update (view owner heap) k none := by
  funext j
  by_cases hj : j = k
  · subst hj
    rw [Function.update_self, view, Function.update_self]
    rfl
  · rw [Function.update_of_ne hj, view, view, Function.update_of_ne hj]

/-! ## Tables of values -/

/-- The tables have the same keys, and `R` holds of what is under each. -/
def Related (R : α → β → Prop) (f : κ → Option α) (g : κ → Option β) : Prop :=
  ∀ k, Option.Rel R (f k) (g k)

namespace Related

variable {R : α → β → Prop} {f : κ → Option α} {g : κ → Option β} {a : α} {b : β}

omit [DecidableEq κ] in
theorem of_none (h : Related R f g) (hk : f k = none) : g k = none := by
  have hrel := h k
  rw [hk] at hrel
  cases hg : g k with
  | none => rfl
  | some b =>
    rw [hg] at hrel
    cases hrel

omit [DecidableEq κ] in
theorem of_some (h : Related R f g) (hk : f k = some a) : ∃ b, g k = some b ∧ R a b := by
  have hrel := h k
  rw [hk] at hrel
  cases hg : g k with
  | none =>
    rw [hg] at hrel
    cases hrel
  | some b =>
    rw [hg] at hrel
    cases hrel with
    | some hab => exact ⟨b, rfl, hab⟩

theorem put (h : Related R f g) (k : κ) (hab : R a b) :
    Related R (Function.update f k (some a)) (Function.update g k (some b)) := by
  intro j
  by_cases hj : j = k
  · subst hj
    rw [Function.update_self, Function.update_self]
    exact .some hab
  · rw [Function.update_of_ne hj, Function.update_of_ne hj]
    exact h j

theorem erase (h : Related R f g) (k : κ) :
    Related R (Function.update f k none) (Function.update g k none) := by
  intro j
  by_cases hj : j = k
  · subst hj
    rw [Function.update_self, Function.update_self]
    exact .none
  · rw [Function.update_of_ne hj, Function.update_of_ne hj]
    exact h j

end Related

end Objects
