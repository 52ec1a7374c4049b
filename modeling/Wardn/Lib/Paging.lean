import Mathlib.Data.List.Forall2
import Mathlib.Data.List.Nodup
import Mathlib.Data.List.Perm.Basic
import Mathlib.Order.Lattice
import Mathlib.Tactic.Common

/-!
# Pages of a list

A list is read page by page, `page size k` being the part from `k * size` on.  The pages of one
list make up the list again (`flatMap_page`).  When every page is read from another sort of the
same elements, in descending order of a key, they still do if elements with the same key never
fall on two pages (`perm_flatMap_page`), and only then (`exists_not_nodup_flatMap_page`).
A client that does not know how many pages there are reads on until one is short (`drain`).
-/

namespace Paging

variable {α : Type*}

/-- The elements with numbers from `k * size` on. -/
def page (size k : ℕ) (xs : List α) : List α := (xs.drop (k * size)).take size

theorem length_page (size k : ℕ) (xs : List α) :
    (page size k xs).length = min size (xs.length - k * size) := by
  rw [page, List.length_take, List.length_drop]

theorem getElem?_page (size k : ℕ) (xs : List α) (i : ℕ) :
    (page size k xs)[i]? = if i < size then xs[k * size + i]? else none := by
  rw [page, List.getElem?_take, List.getElem?_drop]

/-- The first pages make up the front of the list. -/
theorem flatMap_page_eq_take (size m : ℕ) (xs : List α) :
    (List.range m).flatMap (page size · xs) = xs.take (m * size) := by
  induction m with
  | zero => simp
  | succ m ih =>
      rw [List.range_succ, List.flatMap_append, ih, Nat.succ_mul, List.take_add]
      exact congrArg (xs.take (m * size) ++ ·) (List.append_nil _)

/-- The pages make up the list. -/
theorem flatMap_page {size m : ℕ} {xs : List α} (all : xs.length ≤ m * size) :
    (List.range m).flatMap (page size · xs) = xs := by
  rw [flatMap_page_eq_take, List.take_of_length_le all]

/-- One page more than the full ones is enough. -/
theorem length_le_pages {size : ℕ} (positive : 0 < size) (n : ℕ) : n ≤ (n / size + 1) * size := by
  have whole := Nat.div_add_mod' n size
  have rest := Nat.mod_lt n positive
  rw [Nat.succ_mul]
  omega

/-- An element is on the page that its number divided by the size gives. -/
theorem mem_page_iff {size : ℕ} (positive : 0 < size) (k : ℕ) {xs : List α} {x : α} :
    x ∈ page size k xs ↔ ∃ i, xs[i]? = some x ∧ i / size = k := by
  rw [List.mem_iff_getElem?]
  refine ⟨fun found => ?_, fun found => ?_⟩
  · obtain ⟨j, here⟩ := found
    rw [getElem?_page] at here
    split at here
    next bound =>
      refine ⟨k * size + j, here, ?_⟩
      rw [Nat.mul_comm, Nat.mul_add_div positive, Nat.div_eq_of_lt bound, Nat.add_zero]
    next => cases here
  · obtain ⟨i, here, rfl⟩ := found
    refine ⟨i % size, ?_⟩
    rw [getElem?_page, if_pos (Nat.mod_lt i positive), Nat.div_add_mod', here]

/-! ## Reading page by page -/

/-- A client that reads pages until one has fewer than `size` elements; `fuel` bounds them. -/
def drain (size : ℕ) (pages : ℕ → List α) : ℕ → ℕ → Option (List α)
  | 0, _ => none
  | fuel + 1, k =>
    if (pages k).length < size then some (pages k)
    else (drain size pages fuel (k + 1)).map (pages k ++ ·)

/-- The client stops at the first short page, and has read all pages up to it. -/
theorem drain_eq_some_iff {size fuel k : ℕ} {pages : ℕ → List α} {whole : List α} :
    drain size pages fuel k = some whole ↔ ∃ m < fuel,
      (∀ j < m, size ≤ (pages (k + j)).length) ∧ (pages (k + m)).length < size ∧
      whole = (List.range (m + 1)).flatMap fun j => pages (k + j) := by
  induction fuel generalizing k whole with
  | zero => simp [drain]
  | succ fuel ih =>
      have shift : ∀ j, k + 1 + j = k + (j + 1) := fun j => by omega
      rw [drain]
      split_ifs with short
      · refine ⟨fun stops => ⟨0, Nat.succ_pos fuel, ?_, short, ?_⟩, fun stops => ?_⟩
        · exact fun j none => absurd none (Nat.not_lt_zero j)
        · rw [← Option.some.inj stops]
          simp
        · obtain ⟨m, -, full, -, rfl⟩ := stops
          cases m with
          | zero => simp
          | succ m => exact absurd (full 0 (Nat.succ_pos m)) (Nat.not_le_of_lt short)
      · rw [Option.map_eq_some_iff]
        refine ⟨fun reads => ?_, fun reads => ?_⟩
        · obtain ⟨rest, later, rfl⟩ := reads
          obtain ⟨m, bound, full, last, rfl⟩ := ih.mp later
          refine ⟨m + 1, Nat.succ_lt_succ bound, fun j before => ?_, shift m ▸ last, ?_⟩
          · cases j with
            | zero => exact Nat.le_of_not_lt short
            | succ j => exact shift j ▸ full j (Nat.lt_of_succ_lt_succ before)
          · rw [List.range_succ_eq_map (n := m + 1), List.flatMap_cons, List.flatMap_map]
            simp only [shift, Nat.add_zero, Nat.succ_eq_add_one]
        · obtain ⟨m, bound, full, last, rfl⟩ := reads
          cases m with
          | zero => exact absurd last short
          | succ m =>
              refine ⟨_, ih.mpr ⟨m, Nat.lt_of_succ_lt_succ bound, fun j before => ?_, ?_, rfl⟩, ?_⟩
              · exact shift j ▸ full (j + 1) (Nat.succ_lt_succ before)
              · exact shift m ▸ last
              · rw [List.range_succ_eq_map (n := m + 1), List.flatMap_cons, List.flatMap_map]
                simp only [shift, Nat.add_zero, Nat.succ_eq_add_one]

/-- Full pages and a last one have as many elements as they should. -/
theorem length_flatMap_range {size m : ℕ} {pages : ℕ → List α}
    (full : ∀ j < m, (pages j).length = size) :
    ((List.range (m + 1)).flatMap pages).length = m * size + (pages m).length := by
  have front : ((List.range m).flatMap pages).length = m * size := by
    rw [List.length_flatMap, List.map_congr_left fun j member => full j (List.mem_range.mp member),
      List.map_const', List.sum_replicate_nat, List.length_range]
  rw [List.range_succ, List.flatMap_append, List.length_append, front, List.flatMap_singleton]

/-- What holds of two sequences of pages, element by element, holds of what they make up. -/
theorem forall₂_flatMap_range {β : Type*} {R : α → β → Prop} {m : ℕ} {f : ℕ → List α}
    {g : ℕ → List β} (each : ∀ j < m, List.Forall₂ R (f j) (g j)) :
    List.Forall₂ R ((List.range m).flatMap f) ((List.range m).flatMap g) := by
  induction m with
  | zero => exact .nil
  | succ m ih =>
      have front := ih fun j before => each j (Nat.lt_succ_of_lt before)
      simp only [List.range_succ, List.flatMap_append, List.flatMap_singleton]
      exact List.rel_append front (each m (Nat.lt_succ_self m))

/-! ## Sorts with ties -/

section Ties

variable {κ : Type*} [LinearOrder κ] {key : α → κ}

/-- The number of elements that every sort has in front of this one. -/
def ahead (key : α → κ) (xs : List α) (x : α) : ℕ := xs.countP fun y => key x < key y

/-- The number of elements up to the last one with the same key. -/
def through (key : α → κ) (xs : List α) (x : α) : ℕ := xs.countP fun y => key x ≤ key y

/-- A sort of the elements in descending order of the key. -/
structure IsSort (key : α → κ) (xs sorted : List α) : Prop where
  perm : sorted.Perm xs
  descending : sorted.Pairwise fun x y => key y ≤ key x

/-- Elements with the same key fall on one page. -/
def TiesTogether (key : α → κ) (size : ℕ) (xs : List α) : Prop :=
  ∀ x ∈ xs, ahead key xs x / size = (through key xs x - 1) / size

instance (key : α → κ) (size : ℕ) (xs : List α) : Decidable (TiesTogether key size xs) :=
  inferInstanceAs (Decidable (∀ x ∈ xs, _ = _))

theorem exists_split {xs : List α} {i : ℕ} {x : α} (here : xs[i]? = some x) :
    ∃ before after, xs = before ++ x :: after ∧ before.length = i := by
  obtain ⟨bound, rfl⟩ := List.getElem?_eq_some_iff.mp here
  refine ⟨xs.take i, xs.drop (i + 1), ?_, List.length_take_of_le (Nat.le_of_lt bound)⟩
  rw [← List.drop_eq_getElem_cons bound, List.take_append_drop]

variable {xs sorted : List α} {i : ℕ} {x : α}

/-- An element stands behind those with greater keys and in front of those with smaller ones. -/
theorem IsSort.index_bounds (sort : IsSort key xs sorted) (here : sorted[i]? = some x) :
    ahead key xs x ≤ i ∧ i < through key xs x := by
  obtain ⟨before, after, rfl, rfl⟩ := exists_split here
  obtain ⟨-, later, earlier⟩ := List.pairwise_append.mp sort.descending
  have behind := (List.pairwise_cons.mp later).1
  have front : ∀ y ∈ before, key x ≤ key y := fun y member =>
    earlier y member x List.mem_cons_self
  rw [ahead, through, ← sort.perm.countP_eq, ← sort.perm.countP_eq, List.countP_append,
    List.countP_append, List.countP_cons_of_neg (by simp), List.countP_cons_of_pos (by simp)]
  have none : after.countP (fun y => key x < key y) = 0 :=
    List.countP_eq_zero.mpr fun y member => by simpa using behind y member
  have all : before.countP (fun y => key x ≤ key y) = before.length :=
    List.countP_eq_length.mpr fun y member => by simpa using front y member
  have some : before.countP (fun y => key x < key y) ≤ before.length := List.countP_le_length
  omega

/-- What stands at a position among those of a key has that key. -/
theorem IsSort.key_eq (sort : IsSort key xs sorted) (here : sorted[i]? = some x) {y : α}
    (low : ahead key xs y ≤ i) (high : i < through key xs y) : key x = key y := by
  obtain ⟨low', high'⟩ := sort.index_bounds here
  rcases lt_trichotomy (key x) (key y) with less | same | greater
  · have between : through key xs y ≤ ahead key xs x :=
      List.countP_mono_left fun z _ above => by
        simp only [decide_eq_true_eq] at above ⊢
        exact less.trans_le above
    omega
  · exact same
  · have between : through key xs x ≤ ahead key xs y :=
      List.countP_mono_left fun z _ above => by
        simp only [decide_eq_true_eq] at above ⊢
        exact greater.trans_le above
    omega

/-- Where ties stay on one page, the page of an element does not depend on the sort. -/
theorem mem_page_of_sort {size : ℕ} (positive : 0 < size) (together : TiesTogether key size xs)
    (sort : IsSort key xs sorted) (k : ℕ) :
    x ∈ page size k sorted ↔ x ∈ xs ∧ ahead key xs x / size = k := by
  rw [mem_page_iff positive, ← sort.perm.mem_iff]
  have placed : ∀ {i}, sorted[i]? = some x → i / size = ahead key xs x / size := by
    intro i here
    obtain ⟨low, high⟩ := sort.index_bounds here
    have member : x ∈ xs := sort.perm.mem_iff.mp (List.mem_of_getElem? here)
    have above : i / size ≤ (through key xs x - 1) / size :=
      Nat.div_le_div_right (Nat.le_sub_one_of_lt high)
    rw [← together x member] at above
    exact Nat.le_antisymm above (Nat.div_le_div_right low)
  refine ⟨fun found => ?_, fun found => ?_⟩
  · obtain ⟨i, here, rfl⟩ := found
    exact ⟨List.mem_of_getElem? here, (placed here).symm⟩
  · obtain ⟨member, rfl⟩ := found
    obtain ⟨i, here⟩ := List.mem_iff_getElem?.mp member
    exact ⟨i, here, placed here⟩

/-- Pages that are read from different sorts make up the elements, when ties stay together. -/
theorem perm_flatMap_page {size m : ℕ} (positive : 0 < size)
    (together : TiesTogether key size xs) (distinct : xs.Nodup) (all : xs.length ≤ m * size)
    {sorts : ℕ → List α} (sorted : ∀ k, IsSort key xs (sorts k)) :
    ((List.range m).flatMap fun k => page size k (sorts k)).Perm xs := by
  have member : ∀ k x, x ∈ page size k (sorts k) ↔ x ∈ xs ∧ ahead key xs x / size = k :=
    fun k x => mem_page_of_sort positive together (sorted k) k
  have nodup : ((List.range m).flatMap fun k => page size k (sorts k)).Nodup := by
    refine List.nodup_flatMap.mpr ⟨fun k _ => ?_, ?_⟩
    · have whole : (sorts k).Nodup := (sorted k).perm.nodup_iff.mpr distinct
      exact whole.sublist ((List.take_sublist _ _).trans (List.drop_sublist _ _))
    · refine List.nodup_range.imp fun {k k'} other x here here' => ?_
      exact other ((((member k x).mp here).2).symm.trans ((member k' x).mp here').2)
  refine (List.perm_ext_iff_of_nodup nodup distinct).mpr fun x => ?_
  simp only [List.mem_flatMap, List.mem_range, member]
  refine ⟨fun found => ?_, fun inside => ?_⟩
  · obtain ⟨k, -, inside, -⟩ := found
    exact inside
  · refine ⟨ahead key xs x / size, ?_, inside, rfl⟩
    obtain ⟨i, here⟩ := List.mem_iff_getElem?.mp ((sorted 0).perm.mem_iff.mpr inside)
    have low := ((sorted 0).index_bounds here).1
    have bound := (List.getElem?_eq_some_iff.mp here).1
    rw [(sorted 0).perm.length_eq] at bound
    exact (Nat.div_lt_iff_lt_mul positive).mpr (by omega)

/-- Neighbours with the same key can be exchanged. -/
theorem IsSort.swap {before after : List α} {u v : α}
    (sort : IsSort key xs (before ++ u :: v :: after)) (tie : key u = key v) :
    IsSort key xs (before ++ v :: u :: after) := by
  refine ⟨((List.Perm.swap u v after).append_left before).trans sort.perm, ?_⟩
  obtain ⟨front, back, across⟩ := List.pairwise_append.mp sort.descending
  obtain ⟨first, rest⟩ := List.pairwise_cons.mp back
  obtain ⟨second, rest⟩ := List.pairwise_cons.mp rest
  obtain ⟨-, first⟩ := List.forall_mem_cons.mp first
  refine List.pairwise_append.mpr ⟨front, ?_, fun x member y later => ?_⟩
  · refine List.pairwise_cons.mpr ⟨?_, List.pairwise_cons.mpr ⟨first, rest⟩⟩
    exact List.forall_mem_cons.mpr ⟨le_of_eq tie, second⟩
  · exact across x member y ((List.Perm.swap u v after).mem_iff.mp later)

/-- Where ties do not stay together, some page ends within a tie. -/
theorem exists_tie_across {size : ℕ} (positive : 0 < size)
    (apart : ¬ TiesTogether key size xs) (sort : IsSort key xs sorted) :
    ∃ k before u v after, sorted = before ++ u :: v :: after ∧
      before.length + 1 = (k + 1) * size ∧ key u = key v := by
  obtain ⟨x, member, apart⟩ :
      ∃ x ∈ xs, ahead key xs x / size ≠ (through key xs x - 1) / size := by
    rw [TiesTogether] at apart
    push Not at apart
    exact apart
  obtain ⟨i, here⟩ := List.mem_iff_getElem?.mp (sort.perm.mem_iff.mpr member)
  obtain ⟨low, high⟩ := sort.index_bounds here
  have order : ahead key xs x / size ≤ (through key xs x - 1) / size :=
    Nat.div_le_div_right (by omega)
  have less := Nat.lt_of_le_of_ne order apart
  obtain ⟨k, last⟩ := Nat.exists_eq_succ_of_ne_zero (Nat.ne_zero_of_lt less)
  rw [last] at less
  have start : ahead key xs x < (k + 1) * size := (Nat.div_lt_iff_lt_mul positive).mp less
  have stop : (k + 1) * size ≤ through key xs x - 1 :=
    (Nat.le_div_iff_mul_le positive).mp (Nat.le_of_eq last.symm)
  have inside : through key xs x ≤ sorted.length := by
    rw [sort.perm.length_eq]
    exact List.countP_le_length
  have hereU := List.getElem?_eq_getElem (l := sorted) (i := (k + 1) * size - 1) (by omega)
  have hereV := List.getElem?_eq_getElem (l := sorted) (i := (k + 1) * size) (by omega)
  have tieU := sort.key_eq hereU (y := x) (by omega) (by omega)
  have tieV := sort.key_eq hereV (y := x) (by omega) (by omega)
  obtain ⟨before, rest, whole, length⟩ := exists_split hereU
  generalize sorted[(k + 1) * size - 1] = u at *
  generalize sorted[(k + 1) * size] = v at *
  have next : before.length + 1 = (k + 1) * size := by omega
  rw [whole, ← next, List.getElem?_append_right (by omega)] at hereV
  cases rest with
  | nil => simp at hereV
  | cons w after =>
      have same : w = v := by simpa using hereV
      exact ⟨k, before, u, v, after, by rw [whole, same], next, tieU.trans tieV.symm⟩

/-- Otherwise some choice of sorts has an element on two pages. -/
theorem exists_not_nodup_flatMap_page {size m : ℕ} (positive : 0 < size)
    (apart : ¬ TiesTogether key size xs) (all : xs.length ≤ m * size)
    (sort : IsSort key xs sorted) :
    ∃ sorts : ℕ → List α, (∀ k, IsSort key xs (sorts k)) ∧
      ¬ ((List.range m).flatMap fun k => page size k (sorts k)).Nodup := by
  obtain ⟨k, before, u, v, after, rfl, boundary, tie⟩ := exists_tie_across positive apart sort
  let sorts : ℕ → List α := fun j =>
    if j = k then before ++ u :: v :: after else before ++ v :: u :: after
  have sorted : ∀ j, IsSort key xs (sorts j) := by
    intro j
    by_cases same : j = k
    · simpa only [sorts, if_pos same] using sort
    · simpa only [sorts, if_neg same] using sort.swap tie
  refine ⟨sorts, sorted, fun nodup => ?_⟩
  have first : u ∈ page size k (sorts k) := by
    simp only [sorts, if_true]
    refine (mem_page_iff positive k).mpr ⟨before.length, by simp, ?_⟩
    exact Nat.div_eq_of_lt_le (by rw [Nat.succ_mul] at boundary; omega) (by omega)
  have second : u ∈ page size (k + 1) (sorts (k + 1)) := by
    simp only [sorts, if_neg (Nat.succ_ne_self k)]
    refine (mem_page_iff positive (k + 1)).mpr ⟨before.length + 1, by simp, ?_⟩
    rw [boundary, Nat.mul_div_cancel _ positive]
  have length := sort.perm.length_eq
  rw [List.length_append, List.length_cons, List.length_cons] at length
  have reached : k + 1 < m := by
    have front : (k + 1) * size < m * size := by omega
    exact Nat.lt_of_mul_lt_mul_right front
  have disjoint := List.pairwise_iff_getElem.mp (List.nodup_flatMap.mp nodup).2 k (k + 1)
    (by simpa using Nat.lt_of_succ_lt reached) (by simpa using reached) (Nat.lt_succ_self k)
  simp only [List.getElem_range] at disjoint
  exact disjoint first second

end Ties

end Paging
