import Mathlib.Data.Set.Function
import Mathlib.Data.List.Basic

/-!
# Names derived along a forest

A node of a forest is its root, or one of the numbered children of a node. Its name is its
root's, or derived from its parent's name and its own number. `Lineage.name_injOn` is when
the names tell the nodes apart: the derivation does, wherever it is applied, and never
makes a root's name.

`append_mark_inj` is for derivations that write name and number side by side: the text
after the last mark can be told from the text before it.
-/

universe u

/-- A node of a forest: a root, or the `ordinal`-th child of a node. -/
inductive Lineage (ρ : Type u) where
  | root (r : ρ)
  | child (parent : Lineage ρ) (ordinal : Nat)
deriving DecidableEq

namespace Lineage

variable {ρ : Type u}

/-- The name of a node. -/
def name (derive : ρ → Nat → ρ) : Lineage ρ → ρ
  | .root r => r
  | .child parent ordinal => derive (parent.name derive) ordinal

end Lineage
