import Mathlib.Data.Finmap

/-!
# Rosters of watchers

A dictionary from keys to sets of watchers. Enrolling a watcher makes the key if it is
not there; dropping the last watcher of a key deletes it. A roster is `Tight` when no
key is left without a watcher, and the two operations keep it so.

What is known of a roster is `Enrolled r k e`, watcher by watcher, and `k ∈ r`, key by
key; in a tight roster a key is there exactly when somebody is enrolled under it.
-/

universe u v

/-- Sets of watchers `ε` under keys `κ`. -/
abbrev Roster (κ : Type u) (ε : Type v) := Finmap fun _ : κ => Finset ε

namespace Roster

variable {κ : Type u} {ε : Type v} [DecidableEq κ] [DecidableEq ε]

/-- The watchers under a key. -/
def watchers (r : Roster κ ε) (k : κ) : Finset ε := (r.lookup k).getD ∅

/-- Add a watcher, and the key with it if need be. -/
def enroll (r : Roster κ ε) (k : κ) (e : ε) : Roster κ ε :=
  r.insert k (insert e (r.watchers k))

/-- Drop a watcher, and the key with it once it has none. -/
def forget (r : Roster κ ε) (k : κ) (e : ε) : Roster κ ε :=
  if k ∈ r then
    if (r.watchers k).erase e = ∅ then r.erase k else r.insert k ((r.watchers k).erase e)
  else r

/-- The watcher is under the key. -/
def Enrolled (r : Roster κ ε) (k : κ) (e : ε) : Prop := e ∈ r.watchers k

/-- No key without a watcher. -/
def Tight (r : Roster κ ε) : Prop := ∀ k ∈ r, (r.watchers k).Nonempty

variable {r : Roster κ ε} {k k' : κ} {e e' : ε}

omit [DecidableEq ε] in
theorem watchers_of_notMem (h : k ∉ r) : r.watchers k = ∅ := by
  rw [watchers, Finmap.lookup_eq_none.mpr h, Option.getD_none]

omit [DecidableEq ε] in
theorem Enrolled.mem (h : r.Enrolled k e) : k ∈ r := by
  by_contra hk
  rw [Enrolled, watchers_of_notMem hk] at h
  exact Finset.notMem_empty e h

omit [DecidableEq ε] in
theorem tight_empty : Tight (∅ : Roster κ ε) := fun _ h => absurd h Finmap.notMem_empty

omit [DecidableEq ε] in
@[simp] theorem watchers_insert (s : Finset ε) :
    watchers (r.insert k s) k' = if k' = k then s else r.watchers k' := by
  by_cases hk : k' = k
  · subst hk
    rw [if_pos rfl, watchers, Finmap.lookup_insert, Option.getD_some]
  · rw [if_neg hk, watchers, Finmap.lookup_insert_of_ne _ hk, watchers]

/-! ## Enrolling -/

@[simp] theorem mem_enroll : k' ∈ r.enroll k e ↔ k' = k ∨ k' ∈ r := Finmap.mem_insert

theorem watchers_enroll :
    (r.enroll k e).watchers k' = if k' = k then insert e (r.watchers k) else r.watchers k' :=
  watchers_insert _

theorem enrolled_enroll : (r.enroll k e).Enrolled k e := by
  rw [Enrolled, watchers_enroll, if_pos rfl]
  exact Finset.mem_insert_self ..

theorem Enrolled.enroll (h : r.Enrolled k' e') (k : κ) (e : ε) :
    (r.enroll k e).Enrolled k' e' := by
  rw [Enrolled, watchers_enroll]
  split
  · rename_i hk
    exact Finset.mem_insert_of_mem (hk ▸ h)
  · exact h

theorem Tight.enroll (h : r.Tight) (k : κ) (e : ε) : (r.enroll k e).Tight := by
  intro k' hk'
  rw [watchers_enroll]
  by_cases hk : k' = k
  · rw [if_pos hk]
    exact Finset.insert_nonempty ..
  · rw [if_neg hk]
    exact h k' ((mem_enroll.mp hk').resolve_left hk)

/-! ## Forgetting -/

theorem watchers_forget :
    (r.forget k e).watchers k' = if k' = k then (r.watchers k).erase e else r.watchers k' := by
  unfold forget
  by_cases hmem : k ∈ r
  · rw [if_pos hmem]
    by_cases hlast : (r.watchers k).erase e = ∅
    · rw [if_pos hlast]
      by_cases hk : k' = k
      · subst hk
        rw [if_pos rfl, hlast, watchers, Finmap.lookup_erase, Option.getD_none]
      · rw [if_neg hk, watchers, Finmap.lookup_erase_ne hk, watchers]
    · rw [if_neg hlast, watchers_insert]
  · rw [if_neg hmem]
    by_cases hk : k' = k
    · subst hk
      rw [if_pos rfl, watchers_of_notMem hmem, Finset.erase_empty]
    · rw [if_neg hk]

theorem mem_of_mem_forget (h : k' ∈ r.forget k e) : k' ∈ r := by
  unfold forget at h
  split at h
  · rename_i hmem
    split at h
    · exact (Finmap.mem_erase.mp h).2
    · rcases Finmap.mem_insert.mp h with rfl | h'
      · exact hmem
      · exact h'
  · exact h

theorem mem_forget_of_ne (hk : k' ≠ k) : k' ∈ r.forget k e ↔ k' ∈ r := by
  refine ⟨mem_of_mem_forget, fun h => ?_⟩
  unfold forget
  split
  · split
    · exact Finmap.mem_erase.mpr ⟨hk, h⟩
    · exact Finmap.mem_insert.mpr (Or.inr h)
  · exact h

theorem Enrolled.forget (h : r.Enrolled k' e') (hne : (k', e') ≠ (k, e)) :
    (r.forget k e).Enrolled k' e' := by
  rw [Enrolled, watchers_forget]
  split
  · rename_i hk
    subst hk
    exact Finset.mem_erase.mpr ⟨fun he => hne (by rw [he]), h⟩
  · exact h

theorem Tight.forget (h : r.Tight) (k : κ) (e : ε) : (r.forget k e).Tight := by
  intro k' hk'
  by_cases hk : k' = k
  · subst hk
    rw [watchers_forget, if_pos rfl]
    have hmem := mem_of_mem_forget hk'
    rw [Roster.forget, if_pos hmem] at hk'
    by_contra hempty
    rw [Finset.not_nonempty_iff_eq_empty] at hempty
    rw [if_pos hempty] at hk'
    exact Finmap.notMem_erase_self hk'
  · rw [watchers_forget, if_neg hk]
    exact h k' (mem_of_mem_forget hk')

/-- Dropping the only watcher of a key deletes the key. -/
theorem notMem_forget_of_alone (h : r.watchers k = {e}) : k ∉ r.forget k e := by
  intro hk
  have hmem := mem_of_mem_forget hk
  rw [forget, if_pos hmem, if_pos (by rw [h, Finset.erase_singleton])] at hk
  exact Finmap.notMem_erase_self hk

omit [DecidableEq κ] [DecidableEq ε] in
/-- A roster with a key is not empty. -/
theorem ne_empty_of_mem (h : k ∈ r) : r ≠ ∅ := by
  rintro rfl
  exact Finmap.notMem_empty h

omit [DecidableEq ε] in
theorem exists_mem_of_ne_empty (h : r ≠ ∅) : ∃ k, k ∈ r := by
  by_contra hall
  refine h (Finmap.ext_lookup fun k => ?_)
  rw [Finmap.lookup_empty, Finmap.lookup_eq_none]
  exact fun hk => hall ⟨k, hk⟩

end Roster
