import Mathlib.Data.List.Count
import Mathlib.Logic.Function.Basic

/-!
# Tokens on a family of lists

A family `L : P → List α` places tokens `a : α` on lists indexed by places
`p : P`. The place type may be infinite, so "the number of times `a` occurs on
all lists taken together" is not a sum here: `Nowhere`, `OnceAt` and
`AtMostOnce` say the same through the occurrence function `occ L a : P → Nat`,
and every list update is described by what it does to `occ`.

Two primitive updates suffice: `push` appends a token at the right end of one
list, `drop` removes its first occurrence from one list (and does nothing when
there is none). Moving a token is a `drop` followed by a `push`.
-/

universe u v

namespace Placement

variable {P : Type u} {α : Type v} [DecidableEq α]

/-- How often `a` occurs on the list at `p`. -/
def occ (L : P → List α) (a : α) (p : P) : Nat := (L p).count a

/-- `a` occurs on no list. -/
def Nowhere (L : P → List α) (a : α) : Prop := ∀ p, occ L a p = 0

/-- `a` occurs on some list. -/
def Somewhere (L : P → List α) (a : α) : Prop := ∃ p, 0 < occ L a p

/-- Over all lists together `a` occurs exactly once, and does so at `p`. -/
def OnceAt (L : P → List α) (a : α) (p : P) : Prop :=
  occ L a p = 1 ∧ ∀ q, q ≠ p → occ L a q = 0

/-- `a` occurs on another list than the one at `p`, or twice on that one. -/
def Besides (L : P → List α) (p : P) (a : α) : Prop :=
  (∃ q, q ≠ p ∧ a ∈ L q) ∨ 1 < occ L a p

/-- Over all lists together `a` occurs at most once. -/
def AtMostOnce (L : P → List α) (a : α) : Prop := Nowhere L a ∨ ∃ p, OnceAt L a p

variable {L : P → List α} {a b : α} {p q : P}

/-! ## Predicates that only look at one token's occurrences -/

theorem occ_pos_iff : 0 < occ L a p ↔ a ∈ L p := List.count_pos_iff

theorem occ_eq_zero_iff : occ L a p = 0 ↔ a ∉ L p := List.count_eq_zero

theorem Nowhere.not_somewhere (h : Nowhere L a) : ¬ Somewhere L a := by
  rintro ⟨p, hp⟩
  have := h p
  omega

theorem nowhere_or_somewhere (L : P → List α) (a : α) : Nowhere L a ∨ Somewhere L a := by
  by_cases h : Somewhere L a
  · exact Or.inr h
  · refine Or.inl fun p => ?_
    by_contra hp
    exact h ⟨p, Nat.pos_of_ne_zero hp⟩

theorem OnceAt.eq_of_occ_pos (h : OnceAt L a p) (hq : 0 < occ L a q) : q = p := by
  by_contra hne
  have := h.2 q hne
  omega

/-- A token's place is unique. -/
theorem OnceAt.unique (h : OnceAt L a p) (h' : OnceAt L a q) : p = q :=
  h'.eq_of_occ_pos (by rw [h.1]; exact Nat.one_pos)

theorem AtMostOnce.onceAt (h : AtMostOnce L a) (hp : 0 < occ L a p) : OnceAt L a p := by
  rcases h with h | ⟨q, h⟩
  · exact absurd ⟨p, hp⟩ h.not_somewhere
  · exact h.eq_of_occ_pos hp ▸ h

theorem AtMostOnce.nodup (h : ∀ a, AtMostOnce L a) (p : P) : (L p).Nodup := by
  refine List.nodup_iff_count.mpr fun a => ?_
  by_cases hp : 0 < occ L a p
  · exact Nat.le_of_eq ((h a).onceAt hp).1
  · exact Nat.le_succ_of_le (Nat.le_of_not_lt hp)

section Frame

variable {L' : P → List α} (hocc : ∀ p, occ L' a p = occ L a p)

include hocc

theorem nowhere_congr : Nowhere L' a ↔ Nowhere L a := by
  simp only [Nowhere, hocc]

theorem somewhere_congr : Somewhere L' a ↔ Somewhere L a := by
  simp only [Somewhere, hocc]

theorem onceAt_congr : OnceAt L' a p ↔ OnceAt L a p := by
  simp only [OnceAt, hocc]

theorem atMostOnce_congr : AtMostOnce L' a ↔ AtMostOnce L a := by
  simp only [AtMostOnce, nowhere_congr hocc, onceAt_congr hocc]

end Frame

/-! ## The two updates -/

variable [DecidableEq P]

/-- Append `a` to the list at `p`. -/
def push (L : P → List α) (p : P) (a : α) : P → List α :=
  Function.update L p (L p ++ [a])

/-- Remove the first occurrence of `a` from the list at `p`. -/
def drop (L : P → List α) (p : P) (a : α) : P → List α :=
  Function.update L p ((L p).erase a)

theorem occ_push : occ (push L p a) b q = occ L b q + if q = p ∧ b = a then 1 else 0 := by
  unfold occ push
  by_cases hq : q = p
  · subst hq
    rw [Function.update_self, List.count_append]
    by_cases hb : b = a
    · simp [hb]
    · simp [hb, Ne.symm hb]
  · rw [Function.update_of_ne hq, if_neg (by simp [hq])]
    rfl

theorem occ_drop : occ (drop L p a) b q = occ L b q - if q = p ∧ b = a then 1 else 0 := by
  unfold occ drop
  by_cases hq : q = p
  · subst hq
    rw [Function.update_self, List.count_erase]
    by_cases hb : b = a
    · simp [hb]
    · simp [hb, Ne.symm hb]
  · rw [Function.update_of_ne hq, if_neg (by simp [hq])]
    rfl

@[simp] theorem occ_push_self : occ (push L p a) a p = occ L a p + 1 := by simp [occ_push]

theorem occ_push_of_ne (h : b ≠ a) : occ (push L p a) b q = occ L b q := by
  simp [occ_push, h]

theorem occ_push_elsewhere (h : q ≠ p) : occ (push L p a) b q = occ L b q := by
  simp [occ_push, h]

@[simp] theorem occ_drop_self : occ (drop L p a) a p = occ L a p - 1 := by simp [occ_drop]

theorem occ_drop_of_ne (h : b ≠ a) : occ (drop L p a) b q = occ L b q := by
  simp [occ_drop, h]

theorem occ_drop_elsewhere (h : q ≠ p) : occ (drop L p a) b q = occ L b q := by
  simp [occ_drop, h]

/-- Dropping the head of a list is popping it. -/
theorem drop_eq_pop {rest : List α} (h : L p = a :: rest) :
    drop L p a = Function.update L p rest := by
  unfold drop
  rw [h, List.erase_cons_head]

/-- Dropping a token that is not on the list changes nothing. -/
theorem drop_eq_self (h : occ L a p = 0) : drop L p a = L := by
  unfold drop
  rw [List.erase_of_not_mem (occ_eq_zero_iff.mp h)]
  exact Function.update_eq_self p L

/-- A token that is pushed and dropped again leaves the same tokens. -/
theorem perm_drop_push (L : P → List α) (p : P) (a : α) (q : P) :
    (drop (push L p a) p a q).Perm (L q) := by
  unfold drop push
  by_cases hq : q = p
  · subst hq
    rw [Function.update_self, Function.update_self]
    have hperm := (List.perm_append_singleton a (L q)).erase a
    rwa [List.erase_cons_head] at hperm
  · rw [Function.update_of_ne hq, Function.update_of_ne hq]

/-! ## Pushing, dropping and moving one token -/

theorem onceAt_push (h : Nowhere L a) : OnceAt (push L p a) a p := by
  refine ⟨by rw [occ_push_self, h p], fun q hq => ?_⟩
  rw [occ_push_elsewhere hq]
  exact h q

theorem somewhere_push : Somewhere (push L p a) a :=
  ⟨p, by rw [occ_push_self]; exact Nat.succ_pos _⟩

theorem Somewhere.push (h : Somewhere L a) (p : P) (b : α) : Somewhere (push L p b) a := by
  obtain ⟨q, hq⟩ := h
  exact ⟨q, by rw [occ_push]; omega⟩

theorem OnceAt.nowhere_drop (h : OnceAt L a p) : Nowhere (drop L p a) a := by
  intro q
  rw [occ_drop]
  by_cases hq : q = p
  · subst hq
    simp [h.1]
  · simp [h.2 q hq]

/-- A drop at `p` leaves an occurrence when `p` did not hold the only one. -/
theorem somewhere_drop_iff : Somewhere (drop L p a) a ↔ Besides L p a := by
  constructor
  · rintro ⟨q, hq⟩
    by_cases hqp : q = p
    · subst hqp
      rw [occ_drop_self] at hq
      exact Or.inr (by omega)
    · rw [occ_drop_elsewhere hqp] at hq
      exact Or.inl ⟨q, hqp, occ_pos_iff.mp hq⟩
  · rintro (⟨q, hqp, hq⟩ | hp)
    · exact ⟨q, by rwa [occ_drop_elsewhere hqp, occ_pos_iff]⟩
    · exact ⟨p, by rw [occ_drop_self]; omega⟩

theorem Nowhere.drop (h : Nowhere L a) (p : P) (b : α) : Nowhere (drop L p b) a := by
  intro q
  rw [occ_drop, h q]
  exact Nat.zero_sub _

theorem AtMostOnce.drop (h : AtMostOnce L a) (p : P) (b : α) : AtMostOnce (drop L p b) a := by
  by_cases hab : a = b
  · subst hab
    by_cases hp : 0 < occ L a p
    · exact Or.inl (h.onceAt hp).nowhere_drop
    · rwa [drop_eq_self (Nat.eq_zero_of_not_pos hp)]
  · rwa [atMostOnce_congr fun q => occ_drop_of_ne hab]

/-- Moving one token leaves the occurrences of every other one alone. -/
theorem occ_repush_of_ne (h : b ≠ a) (r : P) : occ (push (drop L p a) q a) b r = occ L b r := by
  rw [occ_push_of_ne h, occ_drop_of_ne h]

/-- A token that occurs once moves to `q` when it is dropped at its place and
pushed at `q`. -/
theorem OnceAt.move (h : OnceAt L a p) (q : P) : OnceAt (push (drop L p a) q a) a q :=
  onceAt_push h.nowhere_drop

/-- Pushing `a` keeps it from occurring twice exactly when it was nowhere. -/
theorem atMostOnce_push_iff : AtMostOnce (push L q a) a ↔ Nowhere L a := by
  constructor
  · intro h r
    have hq : 0 < occ (push L q a) a q := by
      rw [occ_push_self]
      exact Nat.succ_pos _
    obtain ⟨hone, hrest⟩ := h.onceAt hq
    by_cases hr : r = q
    · subst hr
      rw [occ_push_self] at hone
      omega
    · have := hrest r hr
      rwa [occ_push_elsewhere hr] at this
  · exact fun h => Or.inr ⟨q, onceAt_push h⟩

/-- Dropping `a` at `p` leaves none exactly when there was none elsewhere and at
most one at `p`. -/
theorem nowhere_drop_iff (h : AtMostOnce L a) :
    Nowhere (drop L p a) a ↔ Nowhere L a ∨ 0 < occ L a p := by
  constructor
  · intro h'
    rcases nowhere_or_somewhere L a with hn | ⟨r, hr⟩
    · exact Or.inl hn
    · refine Or.inr ?_
      have hrp : r = p := by
        by_contra hne
        have := h' r
        rw [occ_drop_elsewhere hne] at this
        omega
      exact hrp ▸ hr
  · rintro (hn | hp)
    · exact hn.drop p a
    · exact (h.onceAt hp).nowhere_drop

/-- Dropping `a` at `p` and pushing it at `q` keeps it from occurring twice
exactly when the drop removed its only occurrence or there was none. -/
theorem atMostOnce_repush_iff (h : AtMostOnce L a) :
    AtMostOnce (push (drop L p a) q a) a ↔ Nowhere L a ∨ 0 < occ L a p := by
  rw [atMostOnce_push_iff, nowhere_drop_iff h]

end Placement
