import Mathlib.Algebra.Order.Group.Int
import Mathlib.Data.List.Perm.Basic
import Mathlib.Tactic.Common

/-!
# Sorting with a comparison function

A comparison function answers with a number below, at or above zero.  One that is `Lawful` orders
its arguments totally, ties allowed; keys pull it back (`Lawful.on`), and negating its answers turns
the order round (`Lawful.neg`).  `sort` is the stable sort by such a function.
-/

namespace Sorting

variable {α β : Type*} {cmp : α → α → ℤ}

/-- The answers of a comparison function are those of a total preorder. -/
structure Lawful (cmp : α → α → ℤ) : Prop where
  swap : ∀ a b, cmp b a ≤ 0 ↔ 0 ≤ cmp a b
  trans : ∀ a b c, cmp a b ≤ 0 → cmp b c ≤ 0 → cmp a c ≤ 0

/-- The difference of two numbers compares them. -/
theorem lawful_sub : Lawful fun a b : ℤ => a - b :=
  ⟨fun a b => by omega, fun a b c => by omega⟩

theorem Lawful.on (lawful : Lawful cmp) (key : β → α) : Lawful fun a b => cmp (key a) (key b) :=
  ⟨fun a b => lawful.swap (key a) (key b), fun a b c => lawful.trans (key a) (key b) (key c)⟩

/-- The answers the other way round are those of the opposite order. -/
theorem Lawful.neg (lawful : Lawful cmp) : Lawful fun a b => -cmp a b := by
  refine ⟨fun a b => ?_, fun a b c first second => ?_⟩
  · have turned := lawful.swap b a
    omega
  · have first := (lawful.swap a b).mpr (by omega)
    have second := (lawful.swap b c).mpr (by omega)
    have turned := (lawful.swap a c).mp (lawful.trans c b a second first)
    omega

/-- The stable sort: elements that compare equal stay in order. -/
def sort (cmp : α → α → ℤ) (xs : List α) : List α := xs.mergeSort fun a b => cmp a b ≤ 0

/-- Sorting loses nothing and repeats nothing. -/
theorem perm_sort (cmp : α → α → ℤ) (xs : List α) : (sort cmp xs).Perm xs :=
  List.mergeSort_perm xs _

section Lawful

variable (lawful : Lawful cmp)

include lawful

theorem Lawful.trans_decide (a b c : α) (first : decide (cmp a b ≤ 0) = true)
    (second : decide (cmp b c ≤ 0) = true) : decide (cmp a c ≤ 0) = true :=
  decide_eq_true (lawful.trans a b c (of_decide_eq_true first) (of_decide_eq_true second))

theorem Lawful.total_decide (a b : α) :
    (decide (cmp a b ≤ 0) || decide (cmp b a ≤ 0)) = true := by
  have turned := lawful.swap a b
  simp only [Bool.or_eq_true, decide_eq_true_eq]
  omega

/-- What is sorted is in order. -/
theorem pairwise_sort (xs : List α) : (sort cmp xs).Pairwise fun a b => cmp a b ≤ 0 :=
  (List.pairwise_mergeSort lawful.trans_decide lawful.total_decide xs).imp of_decide_eq_true

/-- What stands in order already keeps its places. -/
theorem sublist_sort {xs ys : List α} (ordered : ys.Pairwise fun a b => cmp a b ≤ 0)
    (inside : ys.Sublist xs) : ys.Sublist (sort cmp xs) :=
  List.sublist_mergeSort lawful.trans_decide lawful.total_decide
    (ordered.imp decide_eq_true) inside

end Lawful

end Sorting
