import Mathlib.Data.List.Basic

/-!
# Tables with unique constraints

The rows of a relation, no two of which clash: `Clash` says which rows a unique constraint keeps
apart (two rows with one key, say).  An insert that would clash is refused, so a table is never
built with such rows, and a search for a row by what clashes finds the only one there is.
-/

/-- Rows of which no two clash. -/
structure Table (ρ : Type*) (Clash : ρ → ρ → Prop) where
  rows : List ρ
  unique : rows.Pairwise fun row other => ¬ Clash row other

namespace Table

variable {ρ : Type*} {Clash : ρ → ρ → Prop} {row : ρ}

instance : Membership ρ (Table ρ Clash) := ⟨fun table row => row ∈ table.rows⟩

theorem mem_iff {table : Table ρ Clash} : row ∈ table ↔ row ∈ table.rows := Iff.rfl

/-- A table that has just been created. -/
def empty : Table ρ Clash := ⟨[], List.Pairwise.nil⟩

@[simp] theorem not_mem_empty (row : ρ) : row ∉ (empty : Table ρ Clash) := by
  rw [mem_iff, empty]
  exact List.not_mem_nil

/-- The table has room for this row: it clashes with none of its rows. -/
def Admits (table : Table ρ Clash) (row : ρ) : Prop := ∀ other ∈ table.rows, ¬ Clash row other

instance [DecidableRel Clash] (table : Table ρ Clash) (row : ρ) : Decidable (table.Admits row) :=
  inferInstanceAs (Decidable (∀ other ∈ table.rows, ¬ Clash row other))

/-- A row that clashes with none is put in front. -/
def insert [DecidableRel Clash] (table : Table ρ Clash) (row : ρ) : Option (Table ρ Clash) :=
  if room : table.Admits row then
    some ⟨row :: table.rows, List.pairwise_cons.mpr ⟨room, table.unique⟩⟩
  else none

/-- An insert is executed exactly when the table has room for the row. -/
theorem insert_eq_some_iff [DecidableRel Clash] {table table' : Table ρ Clash} :
    table.insert row = some table' ↔ table.Admits row ∧ table'.rows = row :: table.rows := by
  rw [insert]
  by_cases room : table.Admits row
  · rw [dif_pos room, Option.some_inj]
    refine ⟨fun same => ⟨room, same ▸ rfl⟩, fun inserted => ?_⟩
    obtain ⟨rows, unique⟩ := table'
    obtain ⟨-, rfl⟩ := inserted
    rfl
  · simp [room]

/-- An insert breaks a constraint exactly when there is no room. -/
theorem insert_eq_none_iff [DecidableRel Clash] {table : Table ρ Clash} :
    table.insert row = none ↔ ¬ table.Admits row := by
  rw [insert]
  split
  next room => simp [room]
  next full => simp [full]

/-- The second table has a row that the first one has not. -/
def Adds (table table' : Table ρ Clash) : Prop := ∃ row ∈ table', row ∉ table

@[simp] theorem not_adds_self (table : Table ρ Clash) : ¬ table.Adds table := by
  rintro ⟨row, member, absent⟩
  exact absent member

/-- An insert adds a row exactly when there is room. -/
theorem adds_insert_iff [DecidableRel Clash] (table : Table ρ Clash) (reflexive : Clash row row) :
    table.Adds ((table.insert row).getD table) ↔ table.Admits row := by
  cases inserted : table.insert row with
  | none => simp [insert_eq_none_iff.mp inserted]
  | some table' =>
      obtain ⟨room, rows⟩ := insert_eq_some_iff.mp inserted
      have absent : row ∉ table := fun member => room row member reflexive
      refine ⟨fun _ => room, fun _ => ⟨row, ?_, absent⟩⟩
      rw [Option.getD_some, mem_iff, rows]
      exact List.mem_cons_self

/-- A search that two rows meet only when they clash finds a row exactly when it is the one. -/
theorem find?_eq_some_iff (table : Table ρ Clash) {p : ρ → Bool}
    (only : ∀ row other, p row = true → p other = true → Clash row other) :
    table.rows.find? p = some row ↔ row ∈ table ∧ p row = true := by
  obtain ⟨rows, unique⟩ := table
  rw [mem_iff]
  induction rows with
  | nil => simp
  | cons first rows ih =>
      obtain ⟨apart, unique⟩ := List.pairwise_cons.mp unique
      rw [List.find?_cons, List.mem_cons]
      cases found : p first with
      | true =>
          refine ⟨fun same => ?_, fun meets => ?_⟩
          · cases same
            exact ⟨.inl rfl, found⟩
          · obtain ⟨rfl | later, holds⟩ := meets
            · rfl
            · exact absurd (only first row found holds) (apart row later)
      | false =>
          rw [ih unique]
          refine ⟨fun later => ⟨.inr later.1, later.2⟩, fun meets => ?_⟩
          obtain ⟨rfl | later, holds⟩ := meets
          · rw [found] at holds
            cases holds
          · exact ⟨later, holds⟩

end Table
