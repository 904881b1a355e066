import Mathlib.Data.List.AList

/-!
# Dictionaries as lists of pairs

A dictionary that leaves a program is a list of pairs, or the flat list of its keys and
values in turn, in whatever order the sender keeps it. `ofPairs` is what the receiver makes
of it.

- `Dict.lookup_extend`: writing a list of pairs over a dictionary.
- `Dict.lookup_ofPairs`: what the receiver holds does not depend on the order of the pairs.
- `pairs_flatten`: keys and values in turn are read back as pairs.
-/

universe u v

/-- A dictionary with keys in `α` and values in `β`. -/
abbrev Dict (α : Type u) (β : Type v) := AList fun _ : α => β

namespace Dict

variable {α : Type u} {β : Type v}

/-- The items, in order. -/
def items (d : Dict α β) : List (α × β) := d.entries.map fun e => (e.1, e.2)

theorem nodup_items (d : Dict α β) : (d.items.map Prod.fst).Nodup := by
  rw [items, List.map_map]
  exact d.nodupKeys

variable [DecidableEq α] {d d' : Dict α β} {l l' : List (α × β)} {k : α} {x : β}

theorem mem_items : (k, x) ∈ d.items ↔ d.lookup k = some x := by
  rw [AList.lookup, ← Option.mem_def, List.mem_dlookup_iff d.nodupKeys, items, List.mem_map]
  constructor
  · rintro ⟨⟨k', x'⟩, he, heq⟩
    cases heq
    exact he
  · exact fun he => ⟨⟨k, x⟩, he, rfl⟩

theorem lookup_insert (d : Dict α β) (k : α) (x : β) (k' : α) :
    (d.insert k x).lookup k' = if k' = k then some x else d.lookup k' := by
  by_cases hk : k' = k
  · subst hk
    rw [AList.lookup_insert, if_pos rfl]
  · rw [AList.lookup_insert_ne hk, if_neg hk]

/-- An assignment updates the function that a dictionary is. -/
theorem lookup_insert_eq (d : Dict α β) (k : α) (x : β) :
    (fun k' => (d.insert k x).lookup k') = Function.update (fun k' => d.lookup k') k (some x) := by
  funext k'
  rw [lookup_insert, Function.update_apply]

theorem lookup_erase_eq (d : Dict α β) (k : α) :
    (fun k' => (d.erase k).lookup k') = Function.update (fun k' => d.lookup k') k none := by
  funext k'
  by_cases hk : k' = k
  · subst hk
    rw [AList.lookup_erase, Function.update_self]
  · rw [AList.lookup_erase_ne hk, Function.update_of_ne hk]

/-- The same keys with the same values, in whatever order. -/
def Same (d d' : Dict α β) : Prop := ∀ k, d.lookup k = d'.lookup k

theorem same_iff_perm : d.Same d' ↔ d.items.Perm d'.items := by
  have hitems : ∀ d : Dict α β, d.items.Nodup := fun d => d.nodup_items.of_map _
  rw [List.perm_ext_iff_of_nodup (hitems d) (hitems d')]
  constructor
  · rintro hsame ⟨k, x⟩
    rw [mem_items, mem_items, hsame k]
  · intro hmem k
    refine Option.ext fun x => ?_
    rw [← mem_items, hmem, mem_items]

instance [DecidableEq β] (d d' : Dict α β) : Decidable (d.Same d') :=
  decidable_of_iff _ same_iff_perm.symm

/-- Assign the pairs of a list one after the other. -/
def extend (d : Dict α β) (l : List (α × β)) : Dict α β :=
  l.foldl (fun d p => d.insert p.1 p.2) d

/-- The dictionary of a list of pairs. -/
def ofPairs (l : List (α × β)) : Dict α β := extend ∅ l

theorem extend_cons (d : Dict α β) (p : α × β) (l : List (α × β)) :
    extend d (p :: l) = extend (d.insert p.1 p.2) l := rfl

theorem extend_append (d : Dict α β) (l l' : List (α × β)) :
    extend d (l ++ l') = extend (extend d l) l' := List.foldl_append

theorem lookup_extend_of_notMem (hk : k ∉ l.map Prod.fst) : (d.extend l).lookup k = d.lookup k := by
  induction l generalizing d with
  | nil => rfl
  | cons p l ih =>
    rw [List.map_cons, List.mem_cons, not_or] at hk
    rw [extend_cons, ih hk.2, AList.lookup_insert_ne hk.1]

/-- A key that the list assigns has the value it assigns. -/
theorem lookup_extend_of_mem (hl : (l.map Prod.fst).Nodup) (h : (k, x) ∈ l) :
    (d.extend l).lookup k = some x := by
  induction l generalizing d with
  | nil => cases h
  | cons p l ih =>
    rw [List.map_cons, List.nodup_cons] at hl
    rcases List.mem_cons.mp h with rfl | hrest
    · rw [extend_cons, lookup_extend_of_notMem hl.1, AList.lookup_insert]
    · rw [extend_cons, ih hl.2 hrest]

/-- What a dictionary of pairs holds is one of the pairs. -/
theorem mem_of_lookup_extend (h : (extend d l).lookup k = some x) :
    (k, x) ∈ l ∨ d.lookup k = some x := by
  induction l generalizing d with
  | nil => exact Or.inr h
  | cons p l ih =>
    rcases ih h with hmem | hinsert
    · exact Or.inl (List.mem_cons_of_mem _ hmem)
    · rw [lookup_insert] at hinsert
      split at hinsert
      · rename_i hk
        cases hinsert
        subst hk
        exact Or.inl List.mem_cons_self
      · exact Or.inr hinsert

theorem mem_of_lookup_ofPairs (h : (ofPairs l).lookup k = some x) : (k, x) ∈ l := by
  rcases mem_of_lookup_extend h with hmem | hempty
  · exact hmem
  · rw [AList.lookup_empty] at hempty
    cases hempty

/-- **What the receiver holds**: the pairs themselves, in whatever order they came. -/
theorem lookup_ofPairs (hl : (l.map Prod.fst).Nodup) :
    (ofPairs l).lookup k = some x ↔ (k, x) ∈ l :=
  ⟨mem_of_lookup_ofPairs, lookup_extend_of_mem hl⟩

/-- Writing the items of a dictionary over another one: its values come first. -/
theorem lookup_extend (d d' : Dict α β) (k : α) :
    (d.extend d'.items).lookup k = (d'.lookup k).or (d.lookup k) := by
  cases hk : d'.lookup k with
  | some x => rw [lookup_extend_of_mem d'.nodup_items (mem_items.mpr hk), Option.some_or]
  | none =>
    rw [Option.none_or]
    refine lookup_extend_of_notMem fun hmem => ?_
    obtain ⟨⟨k', x⟩, hitem, rfl⟩ := List.mem_map.mp hmem
    rw [mem_items.mp hitem] at hk
    cases hk

end Dict

/-! ## Flat lists -/

variable {α : Type u}

/-- Keys and values in turn. -/
def flatten (l : List (α × α)) : List α := l.flatMap fun p => [p.1, p.2]

/-- Two by two; `none` when one is left over. -/
def pairs : List α → Option (List (α × α))
  | [] => some []
  | [_] => none
  | k :: x :: rest => (pairs rest).map fun l => (k, x) :: l

theorem flatten_cons (p : α × α) (l : List (α × α)) : flatten (p :: l) = p.1 :: p.2 :: flatten l :=
  rfl

/-- Keys and values in turn are read back as pairs. -/
@[simp] theorem pairs_flatten (l : List (α × α)) : pairs (flatten l) = some l := by
  induction l with
  | nil => rfl
  | cons p l ih =>
    rw [flatten_cons, pairs, ih]
    rfl

theorem mem_of_pairs : ∀ {l : List α} {ps : List (α × α)}, pairs l = some ps →
    ∀ p ∈ ps, p.1 ∈ l ∧ p.2 ∈ l
  | [], _, h, p, hp => by
    cases h
    cases hp
  | [_], _, h, _, _ => by cases h
  | k :: x :: rest, ps, h, p, hp => by
    obtain ⟨ps', hrest, rfl⟩ := Option.map_eq_some_iff.mp h
    rcases List.mem_cons.mp hp with rfl | hp'
    · exact ⟨List.mem_cons_self, List.mem_cons_of_mem _ List.mem_cons_self⟩
    · obtain ⟨hk, hx⟩ := mem_of_pairs hrest p hp'
      exact ⟨List.mem_cons_of_mem _ (List.mem_cons_of_mem _ hk),
        List.mem_cons_of_mem _ (List.mem_cons_of_mem _ hx)⟩

theorem map_flatten {β : Type v} (f : α → β) (l : List (α × α)) :
    (flatten l).map f = flatten (l.map fun p => (f p.1, f p.2)) := by
  induction l with
  | nil => rfl
  | cons p l ih =>
    rw [flatten_cons, List.map_cons, List.map_cons, ih]
    rfl

/-! ## Steps that may fail -/

theorem Except.bind_eq_ok {ε α β : Type u} {x : Except ε α} {f : α → Except ε β} {b : β} :
    (x >>= f) = .ok b ↔ ∃ a, x = .ok a ∧ f a = .ok b := by
  constructor
  · intro h
    cases x with
    | error e => cases h
    | ok a => exact ⟨a, rfl, h⟩
  · rintro ⟨a, rfl, h⟩
    exact h

/-- A step that succeeds on every element of a list succeeds on the list. -/
theorem List.mapM_eq_ok {α : Type u} {β ε : Type v} {f : α → Except ε β} {g : α → β} {l : List α}
    (h : ∀ a ∈ l, f a = .ok (g a)) : l.mapM f = .ok (l.map g) := by
  induction l with
  | nil => rfl
  | cons a l ih =>
    rw [List.mapM_cons, h a List.mem_cons_self, ih fun b hb => h b (List.mem_cons_of_mem _ hb)]
    rfl

/-- What a step yields on a list, it yields on some element of it. -/
theorem List.exists_of_mapM_ok {α : Type u} {β ε : Type v} {f : α → Except ε β} :
    ∀ {l : List α} {l' : List β}, l.mapM f = .ok l' → ∀ b ∈ l', ∃ a ∈ l, f a = .ok b
  | [], _, h, b, hb => by
    cases h
    cases hb
  | a :: l, l', h, b, hb => by
    rw [List.mapM_cons] at h
    cases ha : f a with
    | error e =>
      rw [ha] at h
      cases h
    | ok b' =>
      cases hl : l.mapM f with
      | error e =>
        rw [ha, hl] at h
        cases h
      | ok rest =>
        rw [ha, hl] at h
        cases h
        rcases List.mem_cons.mp hb with rfl | hrest
        · exact ⟨a, List.mem_cons_self, ha⟩
        · obtain ⟨a', hmem, ha'⟩ := exists_of_mapM_ok hl b hrest
          exact ⟨a', List.mem_cons_of_mem _ hmem, ha'⟩

/-- A step that succeeds on a list succeeds on every element of it. -/
theorem List.ok_of_mapM_ok {α : Type u} {β ε : Type v} {f : α → Except ε β} {l : List α}
    {l' : List β} (h : l.mapM f = .ok l') : ∀ a ∈ l, ∃ b, f a = .ok b := by
  induction l generalizing l' with
  | nil =>
    intro a ha
    cases ha
  | cons a l ih =>
    rw [List.mapM_cons] at h
    obtain ⟨b, ha, h⟩ := Except.bind_eq_ok.mp h
    obtain ⟨rest, hl, -⟩ := Except.bind_eq_ok.mp h
    intro a' ha'
    rcases List.mem_cons.mp ha' with rfl | hrest
    · exact ⟨b, ha⟩
    · exact ih hl a' hrest
