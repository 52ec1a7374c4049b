import Mathlib.Data.List.Destutter
import Mathlib.Data.List.DropRight

/-!
# Logs

Lists that grow at their end and are read from there: the last entry of a kind, and the log
without consecutive repeats, which `List.destutter (· ≠ ·)` computes.
-/

namespace Logs

variable {α β : Type*}

/-- The last entry that `f` keeps is followed by entries it drops. -/
theorem getLast?_filterMap_eq_some_iff {f : α → Option β} {l : List α} {b : β} :
    (l.filterMap f).getLast? = some b ↔
      ∃ before a after, l = before ++ a :: after ∧ f a = some b ∧ ∀ a' ∈ after, f a' = none := by
  refine ⟨fun last => ?_, fun split => ?_⟩
  · obtain ⟨front, kept⟩ := List.getLast?_eq_some_iff.mp last
    obtain ⟨before, rest, rfl, -, tail⟩ := List.filterMap_eq_append_iff.mp kept
    obtain ⟨skipped, a, after, rfl, -, found, dropped⟩ := List.filterMap_eq_cons_iff.mp tail
    refine ⟨before ++ skipped, a, after, by rw [List.append_assoc], found, ?_⟩
    exact List.filterMap_eq_nil_iff.mp dropped
  · obtain ⟨before, a, after, rfl, found, dropped⟩ := split
    rw [List.filterMap_append, List.filterMap_cons_some found,
      List.filterMap_eq_nil_iff.mpr dropped]
    exact List.getLast?_concat

/-- A repeat at a seam is one that `destutter` would have removed. -/
theorem not_isChain_of_getLast? {l rest : List α} {a : α} (last : l.getLast? = some a) :
    ¬ (l ++ a :: rest).IsChain (· ≠ ·) := by
  obtain ⟨front, rfl⟩ := List.getLast?_eq_some_iff.mp last
  intro chain
  rw [List.append_assoc, List.singleton_append] at chain
  have tail := (List.isChain_append.mp chain).2.1
  exact (List.isChain_cons_cons.mp tail).1 rfl

/-- The last elements are none exactly when there are none at all. -/
theorem rtake_eq_nil_iff {n : Nat} (some : 0 < n) (l : List α) : l.rtake n = [] ↔ l = [] := by
  rw [List.rtake_eq_reverse_take_reverse, List.reverse_eq_nil_iff, List.take_eq_nil_iff,
    List.reverse_eq_nil_iff]
  refine ⟨fun either => ?_, Or.inr⟩
  rcases either with none | empty
  · omega
  · exact empty

variable [DecidableEq α]

theorem destutter'_concat (first : α) (l : List α) (a : α) :
    (l ++ [a]).destutter' (· ≠ ·) first =
      if (first :: l).getLast? = some a then l.destutter' (· ≠ ·) first
      else l.destutter' (· ≠ ·) first ++ [a] := by
  induction l generalizing first with
  | nil =>
      by_cases same : first = a
      · simp [same]
      · simp [same]
  | cons b l ih =>
      rw [List.getLast?_cons_cons, List.cons_append, List.destutter'_cons, List.destutter'_cons]
      by_cases moved : first ≠ b
      · rw [if_pos moved, if_pos moved, ih]
        split <;> rfl
      · obtain rfl := not_not.mp moved
        rw [if_neg moved, if_neg moved, ih]

theorem destutter_concat (l : List α) (a : α) :
    (l ++ [a]).destutter (· ≠ ·) =
      if l.getLast? = some a then l.destutter (· ≠ ·) else l.destutter (· ≠ ·) ++ [a] := by
  cases l with
  | nil => rfl
  | cons first l => exact destutter'_concat first l a

end Logs
