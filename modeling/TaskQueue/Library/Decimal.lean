import Mathlib.Data.String.Basic
import Mathlib.Tactic.Common

/-!
# Decimal text

Numbers as text: `digits` pads to a fixed width, as the fields of a date are written, and
`parse` reads what `Int.repr` writes.

- `number_digits`: a field of fixed width is read back, whatever follows it.
- `parse_repr`: an integer is read back, so its text determines it (`repr_inj`).
-/

namespace Decimal

/-- The last `width` digits of `n`. -/
def digits : Nat → Nat → List Char
  | 0, _ => []
  | width + 1, n => digits width (n / 10) ++ [Nat.digitChar (n % 10)]

/-- The number whose digits are `cs`, if there are digits and nothing else. -/
def natural (cs : List Char) : Option Nat :=
  if cs ≠ [] ∧ cs.all Char.isDigit = true then some (Nat.ofDigitChars 10 cs 0) else none

/-- Read a number of `width` digits. -/
def number (width : Nat) (cs : List Char) : Option (Nat × List Char) :=
  if width ≤ cs.length then (natural (cs.take width)).map fun n => (n, cs.drop width) else none

/-- Read an integer. -/
def parse (s : String) : Option Int :=
  match s.toList with
  | '-' :: cs => (natural cs).map fun n => -(n : Int)
  | cs => (natural cs).map fun n => (n : Int)

@[simp] theorem length_digits (width n : Nat) : (digits width n).length = width := by
  induction width generalizing n with
  | zero => rfl
  | succ width ih => simp [digits, ih]

theorem isDigit_digits (width n : Nat) : (digits width n).all Char.isDigit = true := by
  induction width generalizing n with
  | zero => rfl
  | succ width ih =>
    have hlt : n % 10 < 10 := by omega
    simp [digits, ih, hlt]

/-- A number below `10 ^ width` is what its digits say. -/
theorem ofDigitChars_digits {width n : Nat} (h : n < 10 ^ width) :
    Nat.ofDigitChars 10 (digits width n) 0 = n := by
  induction width generalizing n with
  | zero =>
    have hzero : n = 0 := by simpa using h
    simp [digits, hzero]
  | succ width ih =>
    have hrest : n / 10 < 10 ^ width := by
      rw [Nat.pow_succ] at h
      omega
    have hlt : n % 10 < 10 := by omega
    rw [digits, Nat.ofDigitChars_append, ih hrest, Nat.ofDigitChars_cons_digitChar_of_lt_ten hlt,
      Nat.ofDigitChars_nil]
    omega

theorem natural_of_digits {cs : List Char} (hne : cs ≠ []) (h : cs.all Char.isDigit = true) :
    natural cs = some (Nat.ofDigitChars 10 cs 0) :=
  if_pos ⟨hne, h⟩

/-- A field of fixed width is read back. -/
theorem number_digits {width n : Nat} (hw : 0 < width) (h : n < 10 ^ width) (rest : List Char) :
    number width (digits width n ++ rest) = some (n, rest) := by
  have hlen : (digits width n).length = width := length_digits width n
  have hne : digits width n ≠ [] := by
    intro hnil
    rw [hnil] at hlen
    simp at hlen
    omega
  have htake : (digits width n ++ rest).take width = digits width n :=
    List.take_left' hlen
  have hdrop : (digits width n ++ rest).drop width = rest := List.drop_left' hlen
  rw [number, if_pos (by simp), htake, hdrop, natural_of_digits hne (isDigit_digits width n),
    ofDigitChars_digits h]
  rfl

theorem natural_repr (n : Nat) : natural n.repr.toList = some n := by
  have hdigits : (Nat.toDigits 10 n).all Char.isDigit = true := by
    rw [List.all_eq_true]
    exact fun c hc => Nat.isDigit_of_mem_toDigits (by decide) (by decide) hc
  rw [Nat.toList_repr, natural_of_digits Nat.toDigits_ne_nil hdigits, Nat.ofDigitChars_ten_toDigits]

/-- An integer is read back from its text. -/
@[simp] theorem parse_repr (n : Int) : parse n.repr = some n := by
  cases n with
  | ofNat m =>
    have hdash : ∀ cs, Nat.toDigits 10 m ≠ '-' :: cs := by
      intro cs hcs
      have hdigit := Nat.isDigit_of_mem_toDigits (c := '-') (b := 10) (n := m)
        (by decide) (by decide) (by rw [hcs]; exact List.mem_cons_self)
      exact absurd hdigit (by decide)
    have hread := natural_repr m
    rw [Nat.toList_repr] at hread
    rw [Int.repr, parse, Nat.toList_repr]
    split
    · rename_i cs hcs
      exact absurd hcs (hdash cs)
    · rw [hread]
      rfl
  | negSucc m =>
    have htext : (Int.negSucc m).repr.toList = '-' :: (m + 1).repr.toList := by
      rw [Int.repr, String.toList_append]
      rfl
    rw [parse, htext]
    simp only [natural_repr]
    rfl

theorem repr_inj {m n : Int} : m.repr = n.repr ↔ m = n := by
  constructor
  · intro h
    rw [← Option.some_inj, ← parse_repr m, ← parse_repr n, h]
  · exact fun h => by rw [h]

end Decimal
