import Mathlib.Logic.Function.Basic

/-!
# Handing out incarnations

Items are created, handed to a party or thrown away, and may be created again
under the same name: `born i` counts the creations of `i`, so that `(i, n)` names
the `n`-th one. `holds c` is the incarnation that party `c` was handed, if any.

`Sound` says that no incarnation was handed to two parties. It needs no restriction
on the order of the operations, only that handing an item out removes it in the
same step (`Sound.hand`) and that an item is created only when it is not stored
(`Sound.create`).
-/

universe u v

namespace Incarnation

variable {ι : Type u} {κ : Type v}

/-- A stored item is newer than every incarnation handed out, and no incarnation
was handed to two parties. -/
structure Sound (stored : ι → Prop) (born : ι → Nat) (holds : κ → Option (ι × Nat)) : Prop where
  bounded : ∀ c i n, holds c = some (i, n) → n ≤ born i
  newer : ∀ c i n, holds c = some (i, n) → stored i → n < born i
  unique : ∀ c c' i n, holds c = some (i, n) → holds c' = some (i, n) → c = c'

variable {stored stored' : ι → Prop} {born : ι → Nat} {holds holds' : κ → Option (ι × Nat)}

theorem sound_init : Sound stored born (fun _ : κ => none) where
  bounded _ _ _ h := nomatch h
  newer _ _ _ h := nomatch h
  unique _ _ _ _ h := nomatch h

theorem Sound.congr (h : Sound stored born holds) (hholds : ∀ c, holds' c = holds c)
    (hstored : ∀ i, stored' i → stored i) : Sound stored' born holds' where
  bounded c i n hc := h.bounded c i n (hholds c ▸ hc)
  newer c i n hc hi := h.newer c i n (hholds c ▸ hc) (hstored i hi)
  unique c c' i n hc hc' := h.unique c c' i n (hholds c ▸ hc) (hholds c' ▸ hc')

/-- Creating an item starts a new incarnation. -/
theorem Sound.create [DecidableEq ι] (h : Sound stored born holds) (i : ι)
    (hstored : ∀ j, j ≠ i → stored' j → stored j) :
    Sound stored' (Function.update born i (born i + 1)) holds where
  bounded c j n hc := by
    have := h.bounded c j n hc
    by_cases hj : j = i
    · subst hj
      rw [Function.update_self]
      exact Nat.le_succ_of_le this
    · rwa [Function.update_of_ne hj]
  newer c j n hc hs := by
    by_cases hj : j = i
    · subst hj
      rw [Function.update_self]
      exact Nat.lt_succ_of_le (h.bounded c j n hc)
    · rw [Function.update_of_ne hj]
      exact h.newer c j n hc (hstored j hj hs)
  unique := h.unique

/-- Handing out a stored item, and removing it. -/
theorem Sound.hand [DecidableEq κ] (h : Sound stored born holds) {i : ι} {c : κ} (hi : stored i)
    (hfree : ¬ stored' i) (hstored : ∀ j, stored' j → stored j)
    (hholds : holds' = Function.update holds c (some (i, born i))) :
    Sound stored' born holds' := by
  subst hholds
  have hold : ∀ c' j n, c' ≠ c → Function.update holds c (some (i, born i)) c' = some (j, n) →
      holds c' = some (j, n) := fun c' j n hne hc => by rwa [Function.update_of_ne hne] at hc
  have hnew : ∀ j n, Function.update holds c (some (i, born i)) c = some (j, n) →
      j = i ∧ n = born i := by
    intro j n hc
    rw [Function.update_self, Option.some.injEq, Prod.mk.injEq] at hc
    exact ⟨hc.1.symm, hc.2.symm⟩
  -- the item was stored, so nobody holds the incarnation that is handed out
  have hnone : ∀ c', holds c' ≠ some (i, born i) :=
    fun c' hc => Nat.lt_irrefl _ (h.newer c' i _ hc hi)
  refine ⟨fun c' j n hc => ?_, fun c' j n hc hs => ?_, fun c₁ c₂ j n h₁ h₂ => ?_⟩
  · by_cases hne : c' = c
    · subst hne
      obtain ⟨rfl, rfl⟩ := hnew j n hc
      exact Nat.le_refl _
    · exact h.bounded c' j n (hold c' j n hne hc)
  · by_cases hne : c' = c
    · subst hne
      obtain ⟨rfl, rfl⟩ := hnew j n hc
      exact absurd hs hfree
    · exact h.newer c' j n (hold c' j n hne hc) (hstored j hs)
  · by_cases h₁c : c₁ = c <;> by_cases h₂c : c₂ = c
    · rw [h₁c, h₂c]
    · subst h₁c
      obtain ⟨rfl, rfl⟩ := hnew j n h₁
      exact absurd (hold c₂ _ _ h₂c h₂) (hnone c₂)
    · subst h₂c
      obtain ⟨rfl, rfl⟩ := hnew j n h₂
      exact absurd (hold c₁ _ _ h₁c h₁) (hnone c₁)
    · exact h.unique c₁ c₂ j n (hold c₁ j n h₁c h₁) (hold c₂ j n h₂c h₂)

end Incarnation
