import Mathlib.Data.List.Basic

/-!
# Cells, arrays and slices

A heap is the list of the cells that have been allocated, so an address is valid from its
allocation on and allocating extends the heap at its end.  A slice is a window of an array: a
write through it, and an append that finds room, change the array in place; an append without
room moves to a new array.

Everything is stated against a `base` heap that the current one extends.  What is reachable from
the base reads the same (`Loads.extend`, `Reads.extend`), and an operation through references that
lie above the base leaves it a prefix (`prefix_set`, `Window.append`).
-/

variable {γ α : Type*}

/-- The cells of one type, in the order in which they were allocated. -/
abbrev Heap (γ : Type*) := List γ

namespace Heap

/-- A new cell goes to the end; its address is the length of the heap before. -/
def alloc (h : Heap γ) (cell : γ) : Heap γ × ℕ := (h ++ [cell], h.length)

/-- What a pointer leads to, nil to nothing. -/
def Loads (h : Heap γ) : Option ℕ → Option γ → Prop
  | none, none => True
  | some p, some cell => h[p]? = some cell
  | _, _ => False

/-- The pointer, unless it is nil, leads to none of the first `n` cells. -/
def Above (n : ℕ) (p : Option ℕ) : Prop := ∀ addr ∈ p, n ≤ addr

/-- A cell is where it was in a heap that has grown. -/
theorem getElem?_of_prefix {base h : Heap γ} (extends_ : base <+: h) {addr : ℕ} {cell : γ}
    (here : base[addr]? = some cell) : h[addr]? = some cell := by
  obtain ⟨rest, rfl⟩ := extends_
  have inside := (List.getElem?_eq_some_iff.mp here).1
  rwa [List.getElem?_append_left inside]

theorem Loads.extend {base h : Heap γ} (extends_ : base <+: h) {p : Option ℕ} {cell : Option γ}
    (loads : Loads base p cell) : Loads h p cell := by
  cases p with
  | none => cases cell <;> exact loads
  | some addr =>
      cases cell with
      | none => exact loads
      | some cell => exact getElem?_of_prefix extends_ loads

/-- `*p`, nothing through a nil or a dangling pointer. -/
def load (h : Heap γ) (p : Option ℕ) : Option γ := p.bind (h[·]?)

/-- What is loaded is what the pointer leads to. -/
theorem Loads.load_eq {h : Heap γ} {p : Option ℕ} {cell : Option γ} (loads : Loads h p cell) :
    load h p = cell := by
  cases p with
  | none => cases cell with
    | none => rfl
    | some cell => exact loads.elim
  | some addr => cases cell with
    | none => exact loads.elim
    | some cell => exact loads

/-- The current heap extends the base, and the pointer leads to the cell above it. -/
structure Cell (base h : Heap γ) (p : Option ℕ) (cell : Option γ) : Prop where
  extends_ : base <+: h
  above : Above base.length p
  loads : Loads h p cell

theorem Cell.extend {base h h' : Heap γ} {p : Option ℕ} {cell : Option γ}
    (here : Cell base h p cell) (extends_ : h <+: h') : Cell base h' p cell :=
  ⟨here.extends_.trans extends_, here.above, here.loads.extend extends_⟩

/-- A new cell lies above the base. -/
theorem cell_alloc {base h : Heap γ} (extends_ : base <+: h) (cell : γ) :
    Cell base (alloc h cell).1 (some (alloc h cell).2) (some cell) := by
  refine ⟨extends_.trans (List.prefix_append _ _), ?_, List.getElem?_concat_length⟩
  rintro addr ⟨rfl⟩
  exact extends_.length_le

/-- `new(T)` and `**out = **in`, unless the pointer is nil. -/
def copyCell (h : Heap γ) (p : Option ℕ) : Heap γ × Option ℕ :=
  match load h p with
  | some cell =>
    let (h, copied) := alloc h cell
    (h, some copied)
  | none => (h, none)

/-- A copied pointer leads above the base, to the same value. -/
theorem cell_copyCell {base h : Heap γ} (extends_ : base <+: h) {p : Option ℕ} {cell : Option γ}
    (loads : Loads h p cell) : Cell base (copyCell h p).1 (copyCell h p).2 cell := by
  rw [copyCell, loads.load_eq]
  cases cell with
  | none => exact ⟨extends_, nofun, trivial⟩
  | some cell => exact cell_alloc extends_ cell

/-! ## Slices -/

/-- A window of `len` cells that can grow to `cap`. -/
structure Slice where
  addr : ℕ
  off : ℕ
  len : ℕ
  cap : ℕ
  within : len ≤ cap
  deriving DecidableEq

namespace Slice

/-- The slice lies in the array that its address leads to, which holds these elements there. -/
def Holds (h : Heap (List α)) (s : Slice) (xs : List α) : Prop :=
  ∃ cells, h[s.addr]? = some cells ∧ s.off + s.cap ≤ cells.length ∧
    (cells.drop s.off).take s.len = xs

/-- The element at an index, if it is within the length. -/
def get? (h : Heap (List α)) (s : Slice) (i : ℕ) : Option α :=
  if i < s.len then (h[s.addr]?).bind (·[s.off + i]?) else none

/-- `s[i] = x`. -/
def set (h : Heap (List α)) (s : Slice) (i : ℕ) (x : α) : Heap (List α) :=
  h.modify s.addr (·.set (s.off + i) x)

/-- `s[1:]`. -/
def tail (s : Slice) : Slice :=
  ⟨s.addr, s.off + 1, s.len - 1, s.cap - 1, Nat.sub_le_sub_right s.within 1⟩

variable {h base : Heap (List α)} {s : Slice} {xs : List α}

/-- The slice is as long as the list it holds. -/
theorem Holds.length (holds : s.Holds h xs) : xs.length = s.len := by
  obtain ⟨cells, -, room, rfl⟩ := holds
  have within := s.within
  rw [List.length_take, List.length_drop]
  omega

theorem Holds.get? (holds : s.Holds h xs) (i : ℕ) : s.get? h i = xs[i]? := by
  obtain ⟨cells, here, room, rfl⟩ := holds
  rw [Slice.get?, here, Option.bind_some, List.getElem?_take, List.getElem?_drop]

/-- A slice holds the same when the heap has grown. -/
theorem Holds.extend (extends_ : base <+: h) (holds : s.Holds base xs) : s.Holds h xs := by
  obtain ⟨cells, here, window⟩ := holds
  exact ⟨cells, getElem?_of_prefix extends_ here, window⟩

/-- A write to an element is a write to the list. -/
theorem Holds.set (holds : s.Holds h xs) (i : ℕ) (x : α) :
    s.Holds (s.set h i x) (xs.set i x) := by
  obtain ⟨cells, here, room, rfl⟩ := holds
  refine ⟨cells.set (s.off + i) x, ?_, by rwa [List.length_set], ?_⟩
  · rw [Slice.set, List.getElem?_modify_eq, here]
    rfl
  · rw [List.drop_set, if_neg (by omega), Nat.add_sub_cancel_left, List.take_set]

/-- Reslicing from the second element drops the first. -/
theorem Holds.tail {x : α} (holds : s.Holds h (x :: xs)) : s.tail.Holds h xs := by
  have length := holds.length
  obtain ⟨cells, here, room, window⟩ := holds
  have within := s.within
  rw [List.length_cons] at length
  refine ⟨cells, here, ?_, ?_⟩
  · change s.off + 1 + (s.cap - 1) ≤ cells.length
    omega
  · change (cells.drop (s.off + 1)).take (s.len - 1) = xs
    have rest := congrArg (List.drop 1) window
    rwa [List.drop_take, List.drop_drop, List.drop_one, List.tail_cons] at rest

/-- An element written behind the last one, where there is room, is appended. -/
theorem Holds.pushed (holds : s.Holds h xs) (room : s.len < s.cap) (x : α) :
    (⟨s.addr, s.off, s.len + 1, s.cap, room⟩ : Slice).Holds (s.set h s.len x) (xs ++ [x]) := by
  obtain ⟨cells, here, inside, rfl⟩ := holds
  refine ⟨cells.set (s.off + s.len) x, ?_, by rwa [List.length_set], ?_⟩
  · rw [Slice.set, List.getElem?_modify_eq, here]
    rfl
  · have behind : s.len < (cells.drop s.off).length := by
      rw [List.length_drop]
      omega
    have short : ((cells.drop s.off).take s.len).length ≤ s.len := List.length_take_le _ _
    change ((cells.set (s.off + s.len) x).drop s.off).take (s.len + 1) = _
    rw [List.drop_set, if_neg (by omega), Nat.add_sub_cancel_left, List.take_add_one,
      List.take_set, List.getElem?_set_self behind, List.set_eq_of_length_le short]
    rfl

/-- A write above the base leaves it as it is. -/
theorem prefix_set (extends_ : base <+: h) (above : base.length ≤ s.addr) (i : ℕ) (x : α) :
    base <+: s.set h i x := by
  refine List.prefix_iff_getElem?.mpr fun addr inside => ?_
  have other : s.addr ≠ addr := by omega
  rw [Slice.set, List.getElem?_modify_ne _ _ other]
  exact List.prefix_iff_getElem?.mp extends_ addr inside

end Slice

/-! ## Slice variables, which may be nil -/

/-- The elements of a slice; nil has none. -/
def Reads (h : Heap (List α)) : Option Slice → List α → Prop
  | none, xs => xs = []
  | some s, xs => s.Holds h xs

/-- The slice, unless it is nil, is a window of none of the first `n` arrays. -/
def SliceAbove (n : ℕ) (s : Option Slice) : Prop := ∀ window ∈ s, n ≤ window.addr

/-- A slice reads the same when the heap has grown. -/
theorem Reads.extend {base h : Heap (List α)} (extends_ : base <+: h) {s : Option Slice}
    {xs : List α} (reads : Reads base s xs) : Reads h s xs := by
  cases s with
  | none => exact reads
  | some s => exact Slice.Holds.extend extends_ reads

/-- A new array with these elements and room behind them. -/
def make (h : Heap (List α)) (xs : List α) : Heap (List α) × Slice :=
  (h ++ [xs], ⟨h.length, 0, xs.length, xs.length, Nat.le_refl _⟩)

theorem length_le_of_room (xs room : List α) : xs.length ≤ (xs ++ room).length := by
  rw [List.length_append]
  exact Nat.le_add_right _ _

theorem holds_of_last (h : Heap (List α)) (xs room : List α)
    (within : xs.length ≤ (xs ++ room).length) :
    (⟨h.length, 0, xs.length, (xs ++ room).length, within⟩ : Slice).Holds (h ++ [xs ++ room]) xs :=
  ⟨xs ++ room, List.getElem?_concat_length, by simp, by simp⟩

theorem holds_make (h : Heap (List α)) (xs : List α) : (make h xs).2.Holds (make h xs).1 xs :=
  ⟨xs, List.getElem?_concat_length, by simp [make], by simp [make]⟩

/-- The current heap extends the base, and the slice reads the elements above it. -/
structure Window (base h : Heap (List α)) (s : Option Slice) (xs : List α) : Prop where
  extends_ : base <+: h
  above : SliceAbove base.length s
  reads : Reads h s xs

theorem Window.extend {base h h' : Heap (List α)} {s : Option Slice} {xs : List α}
    (window : Window base h s xs) (extends_ : h <+: h') : Window base h' s xs :=
  ⟨window.extends_.trans extends_, window.above, window.reads.extend extends_⟩

/-- A new array lies above the base. -/
theorem window_make {base h : Heap (List α)} (extends_ : base <+: h) (xs : List α) :
    Window base (make h xs).1 (some (make h xs).2) xs := by
  refine ⟨extends_.trans (List.prefix_append _ _), ?_, holds_make h xs⟩
  rintro s ⟨rfl⟩
  exact extends_.length_le

/-- What a slice reads: none through a nil or a dangling one. -/
def contents (h : Heap (List α)) (s : Option Slice) : List α :=
  match s with
  | none => []
  | some s => ((h[s.addr]?.getD []).drop s.off).take s.len

/-- The contents are the list that is read. -/
theorem Reads.contents_eq {h : Heap (List α)} {s : Option Slice} {xs : List α}
    (reads : Reads h s xs) : contents h s = xs := by
  cases s with
  | none => exact reads.symm
  | some s =>
      obtain ⟨cells, here, -, window⟩ := reads
      rwa [contents, here]

/-- `make([]T, len(in))` and `copy(out, in)`, unless the slice is nil. -/
def copySlice (h : Heap (List α)) (s : Option Slice) : Heap (List α) × Option Slice :=
  match s with
  | none => (h, none)
  | some s =>
    let (h, copied) := make h (contents h (some s))
    (h, some copied)

/-- A copied slice lies above the base and reads the same. -/
theorem window_copySlice {base h : Heap (List α)} (extends_ : base <+: h) {s : Option Slice}
    {xs : List α} (reads : Reads h s xs) :
    Window base (copySlice h s).1 (copySlice h s).2 xs := by
  cases s with
  | none => exact ⟨extends_, nofun, reads⟩
  | some s =>
      rw [copySlice, reads.contents_eq]
      exact window_make extends_ xs

/-- A write through a slice above the base stays above the base. -/
theorem Window.set {base h : Heap (List α)} {s : Slice} {xs : List α}
    (window : Window base h (some s) xs) (i : ℕ) (x : α) :
    Window base (s.set h i x) (some s) (xs.set i x) :=
  ⟨Slice.prefix_set window.extends_ (window.above s rfl) i x, window.above,
    Slice.Holds.set window.reads i x⟩

theorem Window.tail {base h : Heap (List α)} {s : Slice} {x : α} {xs : List α}
    (window : Window base h (some s) (x :: xs)) : Window base h (some s.tail) xs := by
  refine ⟨window.extends_, ?_, Slice.Holds.tail window.reads⟩
  rintro t ⟨rfl⟩
  exact window.above s rfl

section Append

variable [Inhabited α] (grow : ℕ → ℕ)

/-- `append(s, x)`; `grow` is how much room the runtime leaves in a new array, by the length. -/
def append (h : Heap (List α)) (s : Option Slice) (x : α) : Heap (List α) × Option Slice :=
  let moved (xs : List α) : Heap (List α) × Option Slice :=
    let room := List.replicate (grow xs.length) default
    (h ++ [xs ++ [x] ++ room], some ⟨h.length, 0, (xs ++ [x]).length, (xs ++ [x] ++ room).length,
      length_le_of_room _ _⟩)
  match s with
  | none => moved []
  | some s =>
    if room : s.len < s.cap then
      (s.set h s.len x, some ⟨s.addr, s.off, s.len + 1, s.cap, room⟩)
    else moved (contents h (some s))

/-- An append above the base is one to the list, whether the array has room or is replaced. -/
theorem Window.append {base h : Heap (List α)} {s : Option Slice} {xs : List α}
    (window : Window base h s xs) (x : α) :
    Window base (append grow h s x).1 (append grow h s x).2 (xs ++ [x]) := by
  have moved : ∀ (room : List α) (within : (xs ++ [x]).length ≤ (xs ++ [x] ++ room).length),
      Window base (h ++ [xs ++ [x] ++ room])
        (some ⟨h.length, 0, (xs ++ [x]).length, (xs ++ [x] ++ room).length, within⟩)
        (xs ++ [x]) := by
    intro room within
    refine ⟨window.extends_.trans (List.prefix_append _ _), ?_,
      holds_of_last h (xs ++ [x]) room within⟩
    rintro s ⟨rfl⟩
    exact window.extends_.length_le
  cases s with
  | none =>
      obtain rfl : xs = [] := window.reads
      exact moved _ _
  | some s =>
      rw [Heap.append]
      dsimp only
      split
      next room =>
        refine ⟨Slice.prefix_set window.extends_ (window.above s rfl) _ _, ?_,
          Slice.Holds.pushed window.reads room x⟩
        rintro t ⟨rfl⟩
        exact window.above s rfl
      next full =>
        simp only [window.reads.contents_eq]
        exact moved _ _

end Append

end Heap
