/-
  The partial operators of Quint's lists.

  1. **The operators** (`nth`, `replaceAt`, `head`, `tail`): they are undefined outside the list, which
     is `none` here.
  2. **Where they are defined**: at the index of a prefix, and what a replacement does to a sum.
-/
import Mathlib

namespace QuintList

variable {α : Type} {xs : List α} {x : α}

/-- The item at an index, which may be out of range. -/
def nth (xs : List α) (i : Int) : Option α := if 0 ≤ i then xs[i.toNat]? else none

/-- The list with another item at an index, which has to be in range. -/
def replaceAt (xs : List α) (i : Int) (x : α) : Option (List α) :=
  if 0 ≤ i ∧ i < xs.length then some (xs.set i.toNat x) else none

/-- The first item. -/
def head (xs : List α) : Option α := xs.head?

/-- The list without its first item. -/
def tail (xs : List α) : Option (List α) := if xs = [] then none else some xs.tail

/-- At a natural number it is the item there. -/
@[simp] theorem nth_natCast (xs : List α) (i : Nat) : nth xs i = xs[i]? := by simp [nth]

/-- And only there is one found. -/
theorem nth_eq_some {i : Int} (h : nth xs i = some x) : ∃ n : Nat, i = n ∧ xs[n]? = some x := by
  rw [nth] at h
  split at h
  · next hi => exact ⟨i.toNat, (Int.toNat_of_nonneg hi).symm, h⟩
  · exact absurd h (by simp)

/-- And so for `replaceAt`. -/
@[simp] theorem replaceAt_natCast {i : Nat} (h : i < xs.length) (x : α) :
    replaceAt xs (i : Int) x = some (xs.set i x) := by
  rw [replaceAt, if_pos ⟨Int.natCast_nonneg i, by exact_mod_cast h⟩, Int.toNat_natCast]

/-- A replacement adds to a sum what it adds to the summand. -/
theorem sum_set {xs : List Int} {i : Nat} {x y : Int} (h : xs[i]? = some x) :
    (xs.set i y).sum = xs.sum - x + y := by
  induction xs generalizing i with
  | nil => exact absurd h (by simp)
  | cons z xs ih =>
    cases i with
    | zero =>
      rw [List.getElem?_cons_zero, Option.some_inj] at h
      rw [List.set_cons_zero, List.sum_cons, List.sum_cons, h]
      omega
    | succ i =>
      rw [List.getElem?_cons_succ] at h
      rw [List.set_cons_succ, List.sum_cons, List.sum_cons, ih h]
      omega

end QuintList
