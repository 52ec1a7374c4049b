import Mathlib.Data.List.Induction
import Mathlib.Data.List.Nodup
import Mathlib.Data.List.Perm.Basic
import Mathlib.Tactic.Common

/-!
# Grouping a list by a key

The groups are a map that keeps its keys in the order they came: `add` puts an element behind the
others with its key.  After `group` every key that occurs has one group, with its elements in their
order (`isGrouping_group`), and the groups are a rearrangement of the list (`perm_group`).
-/

namespace Grouping

variable {κ α : Type*} [DecidableEq κ]

/-- `if (!groups.has(k)) groups.set(k, [])`, then `groups.get(k).push(x)`. -/
def add (k : κ) (x : α) : List (κ × List α) → List (κ × List α)
  | [] => [(k, [x])]
  | (j, ys) :: groups => if j = k then (j, ys ++ [x]) :: groups else (j, ys) :: add k x groups

/-- The groups in the order in which their keys come up. -/
def group (key : α → κ) (xs : List α) : List (κ × List α) :=
  xs.foldl (fun groups x => add (key x) x groups) []

variable {k : κ} {x : α} {groups : List (κ × List α)}

/-- A new key goes behind the others. -/
theorem keys_add (k : κ) (x : α) (groups : List (κ × List α)) :
    (add k x groups).map Prod.fst =
      if k ∈ groups.map Prod.fst then groups.map Prod.fst else groups.map Prod.fst ++ [k] := by
  induction groups with
  | nil => rfl
  | cons group groups ih =>
      rw [add]
      split_ifs with same known known
      · rfl
      · exact absurd (List.mem_cons.mpr (.inl same.symm)) known
      · rw [List.map_cons, ih, if_pos ((List.mem_cons.mp known).resolve_left (Ne.symm same))]
        rfl
      · rw [List.map_cons, ih, if_neg fun later => known (List.mem_cons_of_mem _ later)]
        rfl

theorem nodup_keys_add (distinct : (groups.map Prod.fst).Nodup) :
    ((add k x groups).map Prod.fst).Nodup := by
  rw [keys_add]
  split_ifs with known
  · exact distinct
  · exact (List.perm_append_singleton k _).nodup_iff.mpr (List.nodup_cons.mpr ⟨known, distinct⟩)

/-- An element is added and none is lost. -/
theorem perm_add (k : κ) (x : α) (groups : List (κ × List α)) :
    ((add k x groups).flatMap Prod.snd).Perm (x :: groups.flatMap Prod.snd) := by
  induction groups with
  | nil => exact List.Perm.refl [x]
  | cons group groups ih =>
      rw [add]
      split_ifs with same
      · rw [List.flatMap_cons, List.append_assoc, List.singleton_append]
        exact List.perm_middle
      · exact (ih.append_left group.2).trans List.perm_middle

/-- What the groups are after an element is added: the others, and the one of its key. -/
theorem mem_add_cases {group : κ × List α} (distinct : (groups.map Prod.fst).Nodup)
    (member : group ∈ add k x groups) :
    (group ∈ groups ∧ group.1 ≠ k) ∨ (∃ ys, (k, ys) ∈ groups ∧ group = (k, ys ++ [x])) ∨
      (k ∉ groups.map Prod.fst ∧ group = (k, [x])) := by
  induction groups with
  | nil => exact .inr (.inr ⟨List.not_mem_nil, List.mem_singleton.mp member⟩)
  | cons first groups ih =>
      obtain ⟨fresh, distinct⟩ := List.nodup_cons.mp distinct
      rw [add] at member
      split_ifs at member with same
      · subst same
        rcases List.mem_cons.mp member with rfl | later
        · exact .inr (.inl ⟨first.2, List.mem_cons_self, rfl⟩)
        · have other : group.1 ≠ first.1 := fun equal =>
            fresh (equal ▸ List.mem_map_of_mem later)
          exact .inl ⟨List.mem_cons_of_mem _ later, other⟩
      · rcases List.mem_cons.mp member with rfl | later
        · exact .inl ⟨List.mem_cons_self, same⟩
        · rcases ih distinct later with ⟨kept, other⟩ | ⟨ys, kept, rfl⟩ | ⟨new, rfl⟩
          · exact .inl ⟨List.mem_cons_of_mem _ kept, other⟩
          · exact .inr (.inl ⟨ys, List.mem_cons_of_mem _ kept, rfl⟩)
          · refine .inr (.inr ⟨fun known => ?_, rfl⟩)
            exact (List.mem_cons.mp known).elim (fun equal => same equal.symm) new

/-- Every key that occurs has one group, which holds its elements in their order. -/
structure IsGrouping (key : α → κ) (xs : List α) (groups : List (κ × List α)) : Prop where
  distinct : (groups.map Prod.fst).Nodup
  keys : ∀ k, k ∈ groups.map Prod.fst ↔ ∃ x ∈ xs, key x = k
  groups : ∀ group ∈ groups, group.2 = xs.filter fun x => key x = group.1

/-- One more element goes to the end of its group. -/
theorem IsGrouping.add {key : α → κ} {xs : List α} (grouping : IsGrouping key xs groups) (x : α) :
    IsGrouping key (xs ++ [x]) (add (key x) x groups) := by
  refine ⟨nodup_keys_add grouping.distinct, fun k => ?_, fun group member => ?_⟩
  · rw [keys_add]
    simp only [List.mem_append, List.mem_singleton, or_and_right, exists_or, exists_eq_left]
    rw [← grouping.keys k]
    split_ifs with known
    · exact ⟨.inl, fun found => found.elim id fun same => same ▸ known⟩
    · rw [List.mem_append, List.mem_singleton, eq_comm]
  · have alone : [x].filter (fun y => key y = key x) = [x] := by simp
    rw [List.filter_append]
    rcases mem_add_cases grouping.distinct member with ⟨kept, other⟩ | ⟨ys, kept, rfl⟩ | ⟨new, rfl⟩
    · rw [grouping.groups group kept, List.filter_cons_of_neg (by simpa using Ne.symm other),
        List.filter_nil, List.append_nil]
    · have whole : ys = xs.filter fun y => key y = key x := grouping.groups _ kept
      dsimp only
      rw [alone, ← whole]
    · have none : xs.filter (fun y => key y = key x) = [] := by
        refine List.filter_eq_nil_iff.mpr fun y found same => ?_
        exact new ((grouping.keys _).mpr ⟨y, found, of_decide_eq_true same⟩)
      dsimp only
      rw [alone, none, List.nil_append]

theorem isGrouping_group (key : α → κ) (xs : List α) : IsGrouping key xs (group key xs) := by
  induction xs using List.reverseRecOn with
  | nil => exact ⟨List.nodup_nil, by simp [group], by simp [group]⟩
  | append_singleton xs x ih =>
      rw [group, List.foldl_append]
      exact ih.add x

/-- The groups hold every element once. -/
theorem perm_group (key : α → κ) (xs : List α) : ((group key xs).flatMap Prod.snd).Perm xs := by
  induction xs using List.reverseRecOn with
  | nil => exact List.Perm.refl []
  | append_singleton xs x ih =>
      rw [group, List.foldl_append]
      exact ((perm_add (key x) x _).trans (ih.cons x)).trans (List.perm_append_singleton x xs).symm

/-- The order of the groups does not matter. -/
theorem IsGrouping.perm {key : α → κ} {xs : List α} {others : List (κ × List α)}
    (grouping : IsGrouping key xs groups) (same : others.Perm groups) :
    IsGrouping key xs others := by
  have keys := same.map Prod.fst
  refine ⟨keys.nodup_iff.mpr grouping.distinct, fun k => ?_, fun group member => ?_⟩
  · rw [keys.mem_iff]
    exact grouping.keys k
  · exact grouping.groups group (same.mem_iff.mp member)

/-! ## The groups one after the other -/

section Render

variable {ι β : Type*} {k : ι} {groups : List (ι × List α)} {f : ℕ → ι × List α → List β}

theorem flatten_mapIdx_of_not_mem (absent : k ∉ groups.map Prod.fst)
    (others : ∀ i, ∀ group ∈ groups, group.1 ≠ k → f i group = []) :
    (groups.mapIdx f).flatten = [] := by
  refine List.flatten_eq_nil_iff.mpr fun part member => ?_
  obtain ⟨i, bound, rfl⟩ := List.mem_mapIdx.mp member
  have inside := List.getElem_mem bound
  exact others i _ inside fun same => absent (same ▸ List.mem_map_of_mem inside)

/-- Where only the group of one key gives anything, it gives everything. -/
theorem flatten_mapIdx_of_getElem? {i : ℕ} {group : ι × List α}
    (distinct : (groups.map Prod.fst).Nodup) (here : groups[i]? = some group)
    (others : ∀ i, ∀ other ∈ groups, other.1 ≠ group.1 → f i other = []) :
    (groups.mapIdx f).flatten = f i group := by
  induction groups generalizing f i with
  | nil => cases here
  | cons first groups ih =>
      obtain ⟨fresh, distinct⟩ := List.nodup_cons.mp distinct
      have later : ∀ i, ∀ other ∈ groups, other.1 ≠ group.1 → f (i + 1) other = [] :=
        fun i other member => others (i + 1) other (List.mem_cons_of_mem _ member)
      rw [List.mapIdx_cons, List.flatten_cons]
      cases i with
      | zero =>
          cases here
          rw [flatten_mapIdx_of_not_mem fresh later, List.append_nil]
      | succ i =>
          have other : first.1 ≠ group.1 := fun same =>
            fresh (same ▸ List.mem_map_of_mem (List.mem_of_getElem? here))
          rw [others 0 first List.mem_cons_self other, List.nil_append, ih distinct here later]

end Render

end Grouping
