import Mathlib.Data.List.Range
import Mathlib.Tactic.Common

/-!
# The page bar

`getPageRange` of `numbered-pagination.tsx`: the first and the last page, the current one with its
neighbours, and an ellipsis where numbers are left out.  Its two conditions for an ellipsis are
written as bounds on the current page; `getPageRange_eq` says that they are the gaps between the
numbers, and `getPageRange_isPageBar` is the whole specification.
-/

namespace Wardn.Platform

/-- An item of the bar; the source writes the gap as `"…"`. -/
inductive PageItem
  | page (n : ℕ)
  | ellipsis
  deriving DecidableEq

/-- Pages count from 0.  The differences stay what they are in the source: none that is used falls
below 0 but `current - 1`, under the maximum with 1. -/
def getPageRange (current totalPages : ℕ) : List PageItem :=
  if totalPages ≤ 7 then (List.range totalPages).map .page
  else
    let start := max 1 (current - 1)
    let last := min (totalPages - 2) (current + 1)
    .page 0 :: (if 2 < current then [.ellipsis] else []) ++
      (List.range' start (last + 1 - start)).map .page ++
      (if current < totalPages - 3 then [.ellipsis] else []) ++ [.page (totalPages - 1)]

/-- The page of an item, if it is one. -/
def PageItem.number? : PageItem → Option ℕ
  | page n => some n
  | ellipsis => none

/-- The pages of a bar, without its gaps. -/
def numbers (items : List PageItem) : List ℕ := items.filterMap PageItem.number?

/-- A page bar for the current one of a number of pages. -/
structure IsPageBar (current totalPages : ℕ) (items : List PageItem) : Prop where
  increasing : (numbers items).Pairwise (· < ·)
  inRange : ∀ n ∈ numbers items, n < totalPages
  first : 0 ∈ numbers items
  last : totalPages - 1 ∈ numbers items
  active : current ∈ numbers items
  neighbours : ∀ n < totalPages, n + 1 = current ∨ n = current + 1 → n ∈ numbers items
  /-- Two consecutive numbers have an ellipsis between them if they differ by more than one, and
  nothing otherwise. -/
  gaps : ∀ before a gap b after, items = before ++ .page a :: (gap ++ .page b :: after) →
    (∀ item ∈ gap, item = .ellipsis) → gap = if a + 1 < b then [.ellipsis] else []
  ends : items.head? ≠ some .ellipsis ∧ items.getLast? ≠ some .ellipsis
  alone : ¬ [.ellipsis, .ellipsis] <:+: items
  short : items.length ≤ 7

/-! ## Numbers with their gaps -/

/-- The numbers, with an ellipsis in each gap. -/
def withGaps : List ℕ → List PageItem
  | [] => []
  | [n] => [.page n]
  | n :: m :: rest =>
    if n + 1 < m then .page n :: .ellipsis :: withGaps (m :: rest)
    else .page n :: withGaps (m :: rest)

theorem exists_withGaps_cons (n : ℕ) (rest : List ℕ) :
    ∃ items, withGaps (n :: rest) = .page n :: items := by
  cases rest with
  | nil => exact ⟨[], rfl⟩
  | cons m rest =>
      rw [withGaps]
      split
      next => exact ⟨_, rfl⟩
      next => exact ⟨_, rfl⟩

theorem withGaps_cons_cons (n m : ℕ) (rest : List ℕ) :
    withGaps (n :: m :: rest) =
      .page n :: (if n + 1 < m then [.ellipsis] else []) ++ withGaps (m :: rest) := by
  rw [withGaps]
  split
  next => rfl
  next => rfl

theorem numbers_withGaps (ns : List ℕ) : numbers (withGaps ns) = ns := by
  fun_induction withGaps ns with
  | case1 => rfl
  | case2 n => rfl
  | case3 n m rest gap ih => exact congrArg (n :: ·) ih
  | case4 n m rest close ih => exact congrArg (n :: ·) ih

theorem head?_withGaps (ns : List ℕ) : (withGaps ns).head? ≠ some .ellipsis := by
  cases ns with
  | nil => simp [withGaps]
  | cons n rest =>
      obtain ⟨items, whole⟩ := exists_withGaps_cons n rest
      simp [whole]

/-- No bar ends in a gap. -/
theorem getLast?_withGaps (ns : List ℕ) : (withGaps ns).getLast? ≠ some .ellipsis := by
  fun_induction withGaps ns with
  | case1 => simp
  | case2 n => simp
  | case3 n m rest gap ih =>
      obtain ⟨items, whole⟩ := exists_withGaps_cons m rest
      rw [whole] at ih ⊢
      simpa [List.getLast?_cons_cons] using ih
  | case4 n m rest close ih =>
      obtain ⟨items, whole⟩ := exists_withGaps_cons m rest
      rw [whole] at ih ⊢
      simpa [List.getLast?_cons_cons] using ih

/-- No two gaps stand side by side. -/
theorem alone_withGaps (ns : List ℕ) : ¬ [.ellipsis, .ellipsis] <:+: withGaps ns := by
  fun_induction withGaps ns with
  | case1 => simp
  | case2 n => simp [List.infix_cons_iff]
  | case3 n m rest gap ih =>
      obtain ⟨items, whole⟩ := exists_withGaps_cons m rest
      rw [List.infix_cons_iff, List.infix_cons_iff, whole]
      rw [whole] at ih
      simpa using ih
  | case4 n m rest close ih =>
      rw [List.infix_cons_iff]
      simpa using ih

/-- A page that follows gaps only, from where a page stands, is that page. -/
theorem eq_of_gap_before {gap after items : List PageItem} {b m : ℕ}
    (ellipses : ∀ item ∈ gap, item = .ellipsis)
    (start : .page m :: items = gap ++ .page b :: after) : gap = [] ∧ b = m := by
  cases gap with
  | nil =>
      cases start
      exact ⟨rfl, rfl⟩
  | cons item gap =>
      cases ellipses item List.mem_cons_self
      cases start

/-- Between two consecutive numbers stands what their difference asks for. -/
theorem gaps_withGaps (ns : List ℕ) {before gap after : List PageItem} {a b : ℕ}
    (cut : withGaps ns = before ++ .page a :: (gap ++ .page b :: after))
    (ellipses : ∀ item ∈ gap, item = .ellipsis) :
    gap = if a + 1 < b then [.ellipsis] else [] := by
  fun_induction withGaps ns generalizing before with
  | case1 => simp at cut
  | case2 n =>
      have lengths := congrArg List.length cut
      simp only [List.length_append, List.length_cons, List.length_nil] at lengths
      omega
  | case3 n m rest far ih =>
      obtain ⟨items, whole⟩ := exists_withGaps_cons m rest
      cases before with
      | nil =>
          obtain ⟨same, later⟩ := List.cons_eq_cons.mp cut
          cases same
          cases gap with
          | nil => cases later
          | cons item gap =>
              obtain ⟨same, later⟩ := List.cons_eq_cons.mp later
              rw [whole] at later
              obtain ⟨rfl, rfl⟩ := eq_of_gap_before
                (fun item member => ellipses item (List.mem_cons_of_mem _ member)) later
              rw [if_pos far, same]
      | cons item before =>
          obtain ⟨-, later⟩ := List.cons_eq_cons.mp cut
          cases before with
          | nil => cases later
          | cons item before => exact ih (List.cons_eq_cons.mp later).2
  | case4 n m rest close ih =>
      obtain ⟨items, whole⟩ := exists_withGaps_cons m rest
      cases before with
      | nil =>
          obtain ⟨same, later⟩ := List.cons_eq_cons.mp cut
          cases same
          rw [whole] at later
          obtain ⟨rfl, rfl⟩ := eq_of_gap_before ellipses later
          rw [if_neg close]
      | cons item before => exact ih (List.cons_eq_cons.mp cut).2

/-! ## The numbers of the bar -/

/-- The pages that are listed. -/
def shown (current totalPages : ℕ) : List ℕ :=
  if totalPages ≤ 7 then List.range totalPages
  else
    let start := max 1 (current - 1)
    let last := min (totalPages - 2) (current + 1)
    0 :: List.range' start (last + 1 - start) ++ [totalPages - 1]

/-- Consecutive numbers have no gaps. -/
theorem withGaps_range' (start length : ℕ) :
    withGaps (List.range' start length) = (List.range' start length).map .page := by
  induction length generalizing start with
  | zero => rfl
  | succ length ih =>
      cases length with
      | zero => rfl
      | succ length =>
          have rest := ih (start + 1)
          rw [List.range'_succ] at rest
          rw [List.range'_succ, List.range'_succ, withGaps_cons_cons, if_neg (by omega), rest]
          rfl

/-- Consecutive pages and a last one: at most the one gap before the last. -/
theorem withGaps_range'_concat (start length last : ℕ) :
    withGaps (List.range' start (length + 1) ++ [last]) =
      (List.range' start (length + 1)).map .page ++
        (if start + length + 1 < last then [.ellipsis] else []) ++ [.page last] := by
  induction length generalizing start with
  | zero => exact withGaps_cons_cons start last []
  | succ length ih =>
      have rest := ih (start + 1)
      have shift : start + 1 + length + 1 = start + (length + 1) + 1 := by omega
      rw [List.range'_succ, List.cons_append, shift] at rest
      rw [List.range'_succ, List.range'_succ, List.cons_append, List.cons_append,
        withGaps_cons_cons, if_neg (by omega), rest]
      rfl

/-- The conditions for the ellipses are the gaps between the numbers. -/
theorem getPageRange_eq {current totalPages : ℕ} (inside : current < totalPages) :
    getPageRange current totalPages = withGaps (shown current totalPages) := by
  rw [getPageRange, shown]
  split
  next few => rw [List.range_eq_range', withGaps_range']
  next many =>
    obtain ⟨length, count⟩ : ∃ length,
        min (totalPages - 2) (current + 1) + 1 - max 1 (current - 1) = length + 1 :=
      ⟨min (totalPages - 2) (current + 1) - max 1 (current - 1), by omega⟩
    have window := withGaps_range'_concat (max 1 (current - 1)) length (totalPages - 1)
    have left : 0 + 1 < max 1 (current - 1) ↔ 2 < current := by omega
    have right : max 1 (current - 1) + length + 1 < totalPages - 1 ↔ current < totalPages - 3 := by
      omega
    dsimp only
    rw [count, List.range'_succ]
    rw [List.range'_succ] at window
    simp only [List.cons_append] at window ⊢
    rw [withGaps_cons_cons, window]
    simp only [left, right, List.append_assoc, List.cons_append]

theorem mem_shown_iff {current totalPages : ℕ} (inside : current < totalPages) (n : ℕ) :
    n ∈ shown current totalPages ↔ n < totalPages ∧
      (totalPages ≤ 7 ∨ n = 0 ∨ n + 1 = totalPages ∨ current ≤ n + 1 ∧ n ≤ current + 1) := by
  rw [shown]
  split
  next few => simp [few]
  next many =>
    simp only [List.mem_append, List.mem_cons, List.mem_range'_1, List.not_mem_nil, or_false]
    omega

/-- The pages shown increase. -/
theorem pairwise_shown (current totalPages : ℕ) (inside : current < totalPages) :
    (shown current totalPages).Pairwise (· < ·) := by
  rw [shown]
  split
  next few => exact List.pairwise_lt_range
  next many =>
    refine List.pairwise_append.mpr ⟨List.pairwise_cons.mpr ⟨fun n member => ?_, ?_⟩,
      List.pairwise_singleton _ _, fun n member last same => ?_⟩
    · have low := (List.mem_range'_1.mp member).1
      omega
    · exact List.pairwise_lt_range'
    · rw [List.mem_singleton.mp same]
      rcases List.mem_cons.mp member with rfl | member
      · omega
      · have high := (List.mem_range'_1.mp member).2
        omega

/-- The bar has at most seven items. -/
theorem length_getPageRange (current totalPages : ℕ) :
    (getPageRange current totalPages).length ≤ 7 := by
  rw [getPageRange]
  split
  next few => simpa using few
  next many =>
    have left : (if 2 < current then [PageItem.ellipsis] else []).length ≤ 1 := by
      split <;> simp
    have right : (if current < totalPages - 3 then [PageItem.ellipsis] else []).length ≤ 1 := by
      split <;> simp
    simp only [List.length_append, List.length_cons, List.length_map, List.length_range',
      List.length_nil]
    omega

/-- **The page bar is well formed**, for every number of pages and every current page. -/
theorem getPageRange_isPageBar {current totalPages : ℕ} (positive : 1 ≤ totalPages)
    (inside : current < totalPages) :
    IsPageBar current totalPages (getPageRange current totalPages) := by
  have bar := getPageRange_eq inside
  have listed : numbers (getPageRange current totalPages) = shown current totalPages := by
    rw [bar, numbers_withGaps]
  have member := mem_shown_iff inside
  refine ⟨?_, ?_, ?_, ?_, ?_, ?_, ?_, ?_, ?_, length_getPageRange current totalPages⟩
  · rw [listed]
    exact pairwise_shown current totalPages inside
  · rw [listed]
    exact fun n shown => ((member n).mp shown).1
  · rw [listed, member]
    omega
  · rw [listed, member]
    omega
  · rw [listed, member]
    omega
  · rw [listed]
    intro n bound next
    rw [member]
    omega
  · rw [bar]
    exact fun before a gap b after cut ellipses => gaps_withGaps _ cut ellipses
  · rw [bar]
    exact ⟨head?_withGaps _, getLast?_withGaps _⟩
  · rw [bar]
    exact alone_withGaps _

/-- The fifth of twenty pages. -/
theorem getPageRange_isPageBar_of_twenty :
    getPageRange 4 20 =
        [.page 0, .ellipsis, .page 3, .page 4, .page 5, .ellipsis, .page 19] ∧
      IsPageBar 4 20 (getPageRange 4 20) :=
  ⟨by decide, getPageRange_isPageBar (by decide) (by decide)⟩

end Wardn.Platform
