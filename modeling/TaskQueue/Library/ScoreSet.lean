import Mathlib.Data.List.Sort
import Mathlib.Data.Prod.Lex

/-!
# Sets of scored members

A finite set whose members carry an integer score, kept in ascending order of
score with ties broken by the members' own order, as a sorted set of a
key-value store keeps them. The order is a field, and so is the absence of
duplicate members: a range by score can be read off the entries as they stand,
and a member has one score.
-/

universe u

/-- Members of `α` with integer scores, in order of `(score, member)`. -/
structure ScoreSet (α : Type u) [LinearOrder α] where
  entries : List (ℤ ×ₗ α)
  sorted : entries.Pairwise (· ≤ ·)
  nodup : (entries.map fun e => (ofLex e).2).Nodup

namespace ScoreSet

variable {α : Type u} [LinearOrder α]

/-- The set with no members. -/
def empty : ScoreSet α := ⟨[], List.Pairwise.nil, List.nodup_nil⟩

/-- The members in order. -/
def members (s : ScoreSet α) : List α := s.entries.map fun e => (ofLex e).2

/-- The entries of every member but `a`. -/
def others (s : ScoreSet α) (a : α) : List (ℤ ×ₗ α) :=
  s.entries.filter fun e => (ofLex e).2 ≠ a

theorem not_mem_others (s : ScoreSet α) (a : α) :
    a ∉ (s.others a).map fun e => (ofLex e).2 := by
  intro h
  obtain ⟨e, he, rfl⟩ := List.mem_map.mp h
  simpa using (List.mem_filter.mp he).2

/-- Give member `a` the score `score`, whether or not it was a member. -/
def add (s : ScoreSet α) (score : ℤ) (a : α) : ScoreSet α where
  entries := (s.others a).orderedInsert (· ≤ ·) (toLex (score, a))
  sorted := (s.sorted.filter _).orderedInsert _ _
  nodup := by
    have hperm := (List.perm_orderedInsert (· ≤ ·) (toLex (score, a)) (s.others a)).map
      fun e => (ofLex e).2
    refine hperm.nodup_iff.mpr (List.nodup_cons.mpr ⟨s.not_mem_others a, ?_⟩)
    exact s.nodup.sublist (List.filter_sublist.map _)

/-- Take `a` out of the set. -/
def remove (s : ScoreSet α) (a : α) : ScoreSet α where
  entries := s.others a
  sorted := s.sorted.filter _
  nodup := s.nodup.sublist (List.filter_sublist.map _)

/-- The members whose score is at most `max`, in order. -/
def upTo (s : ScoreSet α) (max : ℤ) : List α :=
  (s.entries.filter fun e => (ofLex e).1 ≤ max).map fun e => (ofLex e).2

@[simp] theorem mem_members_add {s : ScoreSet α} {score : ℤ} {a b : α} :
    b ∈ (s.add score a).members ↔ b = a ∨ b ∈ s.members := by
  have hperm := (List.perm_orderedInsert (· ≤ ·) (toLex (score, a)) (s.others a)).map
    fun e => (ofLex e).2
  rw [members, add, hperm.mem_iff, List.map_cons, List.mem_cons]
  simp only [others, members, List.mem_map, List.mem_filter]
  constructor
  · rintro (rfl | ⟨e, ⟨he, -⟩, rfl⟩)
    · exact Or.inl rfl
    · exact Or.inr ⟨e, he, rfl⟩
  · rintro (rfl | ⟨e, he, rfl⟩)
    · exact Or.inl rfl
    · by_cases hea : (ofLex e).2 = a
      · exact Or.inl hea
      · exact Or.inr ⟨e, ⟨he, by simpa using hea⟩, rfl⟩

@[simp] theorem mem_members_remove {s : ScoreSet α} {a b : α} :
    b ∈ (s.remove a).members ↔ b ≠ a ∧ b ∈ s.members := by
  simp only [members, remove, others, List.mem_map, List.mem_filter]
  constructor
  · rintro ⟨e, ⟨he, hne⟩, rfl⟩
    exact ⟨by simpa using hne, e, he, rfl⟩
  · rintro ⟨hne, e, he, rfl⟩
    exact ⟨e, ⟨he, by simpa using hne⟩, rfl⟩

theorem mem_entries_remove {s : ScoreSet α} {a b : α} {score : ℤ} :
    toLex (score, b) ∈ (s.remove a).entries ↔ b ≠ a ∧ toLex (score, b) ∈ s.entries := by
  show _ ∈ s.entries.filter _ ↔ _
  rw [List.mem_filter, and_comm]
  exact and_congr_left fun _ => decide_eq_true_iff

/-- After `add` a member has its old score, unless it is the one that was added. -/
theorem mem_entries_add {s : ScoreSet α} {a b : α} {score score' : ℤ} :
    toLex (score, b) ∈ (s.add score' a).entries ↔
      (b = a ∧ score = score') ∨ (b ≠ a ∧ toLex (score, b) ∈ s.entries) := by
  have hperm := List.perm_orderedInsert (· ≤ ·) (toLex (score', a)) (s.others a)
  show _ ∈ List.orderedInsert _ _ _ ↔ _
  rw [hperm.mem_iff, List.mem_cons, ← mem_entries_remove]
  show _ ∨ toLex (score, b) ∈ s.others a ↔ _ ∨ toLex (score, b) ∈ s.others a
  simp [and_comm]

/-! ## Ranges by score -/

theorem mem_upTo {s : ScoreSet α} {max : ℤ} {a : α} :
    a ∈ s.upTo max ↔ ∃ score ≤ max, toLex (score, a) ∈ s.entries := by
  simp only [upTo, List.mem_map, List.mem_filter, decide_eq_true_eq]
  constructor
  · rintro ⟨e, ⟨he, hmax⟩, rfl⟩
    exact ⟨(ofLex e).1, hmax, he⟩
  · rintro ⟨score, hmax, he⟩
    exact ⟨toLex (score, a), ⟨he, hmax⟩, rfl⟩

theorem nodup_upTo (s : ScoreSet α) (max : ℤ) : (s.upTo max).Nodup :=
  s.nodup.sublist (List.filter_sublist.map _)

/-- The set of the members whose score exceeds `max`. -/
def above (s : ScoreSet α) (max : ℤ) : ScoreSet α where
  entries := s.entries.filter fun e => max < (ofLex e).1
  sorted := s.sorted.filter _
  nodup := s.nodup.sublist (List.filter_sublist.map _)

theorem eq_of_entries {s t : ScoreSet α} (h : s.entries = t.entries) : s = t := by
  cases s
  cases t
  cases h
  rfl

theorem above_above (s : ScoreSet α) (max max' : ℤ) :
    (s.above max).above max' = s.above (max ⊔ max') := by
  refine eq_of_entries ?_
  show (s.entries.filter _).filter _ = s.entries.filter _
  rw [List.filter_filter]
  refine List.filter_congr fun e _ => ?_
  rw [← Bool.decide_and, decide_eq_decide, sup_lt_iff]
  exact and_comm

/-- In order of score, what is at most `max` comes before what is above it. -/
theorem filter_sup {es : List (ℤ ×ₗ α)} (hsorted : es.Pairwise (· ≤ ·)) (max max' : ℤ) :
    es.filter (fun e => (ofLex e).1 ≤ max ⊔ max') = es.filter (fun e => (ofLex e).1 ≤ max) ++
      (es.filter fun e => max < (ofLex e).1).filter fun e => (ofLex e).1 ≤ max' := by
  induction es with
  | nil => rfl
  | cons e es ih =>
    obtain ⟨hle, hsorted⟩ := List.pairwise_cons.mp hsorted
    have hrest := ih hsorted
    by_cases hmax : (ofLex e).1 ≤ max
    · have hsup : (ofLex e).1 ≤ max ⊔ max' := le_sup_of_le_left hmax
      have hnlt : ¬ max < (ofLex e).1 := Int.not_lt.mpr hmax
      simp only [List.filter_cons, hmax, hsup, hnlt, decide_true, decide_false, if_true,
        Bool.false_eq_true, if_false, hrest, List.cons_append]
    · have hnil : (e :: es).filter (fun e => decide ((ofLex e).1 ≤ max)) = [] := by
        refine List.filter_eq_nil_iff.mpr fun e' he' => ?_
        have hfst : (ofLex e).1 ≤ (ofLex e').1 := by
          rcases List.mem_cons.mp he' with rfl | he'
          · exact Int.le_refl _
          · rcases Prod.Lex.le_iff.mp (hle e' he') with hlt | ⟨heq, -⟩
            · exact Int.le_of_lt hlt
            · exact Int.le_of_eq heq
        simp only [decide_eq_true_eq]
        omega
      rw [hnil, List.nil_append, List.filter_filter]
      refine List.filter_congr fun e' he' => ?_
      have hlt : ¬ (ofLex e').1 ≤ max := by
        simpa using List.filter_eq_nil_iff.mp hnil e' he'
      simp [hlt, Int.not_le.mp hlt]

/-- A range by score is a shorter range and the rest of it. -/
theorem upTo_sup (s : ScoreSet α) (max max' : ℤ) :
    s.upTo (max ⊔ max') = s.upTo max ++ (s.above max).upTo max' := by
  show (s.entries.filter _).map _ = (s.entries.filter _).map _ ++ List.map _ (List.filter _ _)
  rw [filter_sup s.sorted, List.map_append]
  rfl

@[simp] theorem upTo_above (s : ScoreSet α) {max max' : ℤ} (h : max' ≤ max) :
    (s.above max).upTo max' = [] := by
  simp only [upTo, above, List.map_eq_nil_iff, List.filter_eq_nil_iff, List.mem_filter,
    decide_eq_true_eq]
  intro e he
  omega

theorem foldl_remove_entries (as : List α) (s : ScoreSet α) :
    (as.foldl remove s).entries = s.entries.filter fun e => (ofLex e).2 ∉ as := by
  induction as generalizing s with
  | nil => simp
  | cons a as ih =>
    rw [List.foldl_cons, ih]
    show (s.entries.filter _).filter _ = _
    rw [List.filter_filter]
    refine List.filter_congr fun e _ => ?_
    simp [Bool.and_comm]

/-- Removing one by one the members that score at most `max` leaves those above. -/
theorem foldl_remove_upTo (s : ScoreSet α) (max : ℤ) :
    (s.upTo max).foldl remove s = s.above max := by
  refine eq_of_entries ?_
  rw [foldl_remove_entries]
  show _ = s.entries.filter _
  refine List.filter_congr fun e he => ?_
  have hmem : (ofLex e).2 ∈ s.upTo max ↔ (ofLex e).1 ≤ max := by
    rw [mem_upTo]
    constructor
    · rintro ⟨score, hmax, he'⟩
      -- a member has one score
      have : toLex (score, (ofLex e).2) = e := List.inj_on_of_nodup_map s.nodup he' he rfl
      rw [← this]
      exact hmax
    · exact fun hmax => ⟨(ofLex e).1, hmax, he⟩
  simp [hmem]

end ScoreSet
