import Mathlib.Data.Nat.Notation
import Mathlib.Logic.Function.Basic
import Mathlib.Tactic.SplitIfs

/-!
# Stores with optimistic concurrency

Every entry carries the version that its last change was given, and no version is given twice.  A
write names the version it was computed from: it is refused when the entry has moved on, and
leaves no trace when it changes nothing.  A copy that was once read stays a `Copy`: whenever the
stored version is the copy's, the stored value is too, so a write from a copy takes effect
exactly when the entry is still the copy and the write changes it (`Copy.write_given_iff`).
-/

namespace Versioned

variable {κ ν : Type*}

/-- A value with the version of its last write. -/
structure Entry (ν : Type*) where
  value : ν
  version : ℕ

/-- The entries, and the number of the last write; versions are never ahead of it. -/
structure Store (κ ν : Type*) where
  /-- The last version given. -/
  revision : ℕ
  entries : κ → Option (Entry ν)
  bounded : ∀ key entry, entries key = some entry → entry.version ≤ revision

/-- A store without entries. -/
def Store.empty : Store κ ν := ⟨0, fun _ => none, fun _ _ stored => by cases stored⟩

/-- The answer to a write under a version. -/
inductive Outcome
  | missing
  | stale
  | unchanged
  | changed (version : ℕ)
  deriving DecidableEq

/-- The version that a write has given, if it changed the entry. -/
def Outcome.given : Outcome → Option ℕ
  | .changed version => some version
  | _ => none

section Set

variable [DecidableEq κ]

/-- A change of an entry without a version; `none` deletes it. -/
def Store.set (store : Store κ ν) (key : κ) (value : Option ν) : Store κ ν where
  revision := store.revision + 1
  entries := Function.update store.entries key (value.map (⟨·, store.revision + 1⟩))
  bounded := by
    intro key' entry stored
    rw [Function.update_apply] at stored
    split at stored
    · obtain ⟨value, -, rfl⟩ := Option.map_eq_some_iff.mp stored
      exact Nat.le_refl _
    · exact Nat.le_succ_of_le (store.bounded key' entry stored)

@[simp] theorem Store.revision_set (store : Store κ ν) (key : κ) (value : Option ν) :
    (store.set key value).revision = store.revision + 1 := rfl

@[simp] theorem Store.entries_set_self (store : Store κ ν) (key : κ) (value : Option ν) :
    (store.set key value).entries key = value.map (⟨·, store.revision + 1⟩) :=
  Function.update_self ..

theorem Store.entries_set_of_ne (store : Store κ ν) {key key' : κ} (other : key' ≠ key)
    (value : Option ν) : (store.set key value).entries key' = store.entries key' :=
  Function.update_of_ne other ..

/-- What stands in the store after a change has a new version or stood there before. -/
theorem Store.entries_set {store : Store κ ν} {key key' : κ} {value : Option ν} {entry : Entry ν}
    (stored : (store.set key value).entries key' = some entry) :
    entry.version = store.revision + 1 ∨ store.entries key' = some entry := by
  change Function.update store.entries key _ key' = some entry at stored
  rw [Function.update_apply] at stored
  split at stored
  · obtain ⟨value, -, rfl⟩ := Option.map_eq_some_iff.mp stored
    exact .inl rfl
  · exact .inr stored

end Set

variable [DecidableEq κ] [DecidableEq ν]

/-- A write that was computed from this version of the entry. -/
def Store.write (store : Store κ ν) (key : κ) (version : ℕ) (f : ν → ν) : Store κ ν × Outcome :=
  match store.entries key with
  | none => (store, .missing)
  | some entry =>
    if entry.version ≠ version then (store, .stale)
    else if f entry.value = entry.value then (store, .unchanged)
    else (store.set key (some (f entry.value)), .changed (store.revision + 1))

/-- A write changes the entry, and gives it the next version, or leaves the store as it is. -/
theorem Store.write_cases (store : Store κ ν) (key : κ) (version : ℕ) (f : ν → ν) :
    (∃ value, store.write key version f =
      (store.set key (some value), .changed (store.revision + 1))) ∨
    ((store.write key version f).2.given = none ∧ (store.write key version f).1 = store) := by
  rw [write]
  cases store.entries key with
  | none => exact .inr ⟨rfl, rfl⟩
  | some entry =>
      dsimp only
      split_ifs
      · exact .inr ⟨rfl, rfl⟩
      · exact .inr ⟨rfl, rfl⟩
      · exact .inl ⟨f entry.value, rfl⟩

/-- An accepted write computes the new value from the entry whose version it names. -/
theorem Store.write_eq (store : Store κ ν) (key : κ) (version : ℕ) (f : ν → ν) :
    (∃ entry, store.entries key = some entry ∧ entry.version = version ∧
      (store.write key version f).1 = store.set key (some (f entry.value))) ∨
    (store.write key version f).1 = store := by
  rw [write]
  cases stored : store.entries key with
  | none => exact .inr rfl
  | some entry =>
      dsimp only
      split_ifs with moved unchanged
      · exact .inr rfl
      · exact .inr rfl
      · exact .inl ⟨entry, rfl, not_not.mp moved, rfl⟩

/-- A write is given a version exactly when it is based on the stored one and changes something. -/
theorem Store.write_given_iff {store : Store κ ν} {key : κ} {version : ℕ} {f : ν → ν} :
    (store.write key version f).2.given ≠ none ↔
      ∃ entry, store.entries key = some entry ∧ entry.version = version ∧
        f entry.value ≠ entry.value := by
  rw [write]
  cases store.entries key with
  | none => simp [Outcome.given]
  | some entry =>
      by_cases current : entry.version = version
      · by_cases same : f entry.value = entry.value
        · simp [current, same, Outcome.given]
        · simp [current, same, Outcome.given]
      · simp [current, Outcome.given]

/-! ## Copies -/

/-- The entry was once read under this key. -/
structure Copy (store : Store κ ν) (key : κ) (entry : Entry ν) : Prop where
  bounded : entry.version ≤ store.revision
  current : ∀ stored, store.entries key = some stored → stored.version = entry.version →
    stored = entry

variable {store : Store κ ν} {key : κ} {entry : Entry ν}

omit [DecidableEq κ] [DecidableEq ν] in
theorem copy_of_entries (stored : store.entries key = some entry) : Copy store key entry where
  bounded := store.bounded key entry stored
  current _ stored' _ := Option.some_inj.mp (stored'.symm.trans stored)

omit [DecidableEq ν] in
/-- A copy stays one, of what was stored, when something is written. -/
theorem Copy.set (copy : Copy store key entry) (key' : κ) (value : Option ν) :
    Copy (store.set key' value) key entry := by
  have bounded := copy.bounded
  refine ⟨Nat.le_succ_of_le bounded, fun stored read same => ?_⟩
  rcases Store.entries_set read with new | old
  · omega
  · exact copy.current stored old same

/-- A write from a copy takes effect exactly when the entry is still the copy and changes. -/
theorem Copy.write_given_iff (copy : Copy store key entry) {f : ν → ν} :
    (store.write key entry.version f).2.given ≠ none ↔
      store.entries key = some entry ∧ f entry.value ≠ entry.value := by
  rw [Store.write_given_iff]
  constructor
  · rintro ⟨stored, read, same, changes⟩
    obtain rfl := copy.current stored read same
    exact ⟨read, changes⟩
  · rintro ⟨read, changes⟩
    exact ⟨entry, read, rfl, changes⟩

/-- What stands in the store after a write from a copy stood there before, or was computed from the
copy. -/
theorem Copy.entries_write (copy : Copy store key entry) {f : ν → ν} {key' : κ}
    {stored : Entry ν}
    (read : (store.write key entry.version f).1.entries key' = some stored) :
    store.entries key' = some stored ∨ key' = key ∧ stored.value = f entry.value := by
  rw [Store.write] at read
  cases found : store.entries key with
  | none =>
      rw [found] at read
      exact .inl read
  | some current =>
      rw [found] at read
      dsimp only at read
      split_ifs at read with moved unchanged
      · exact .inl read
      · exact .inl read
      · obtain rfl := copy.current current found (not_not.mp moved)
        change Function.update store.entries key _ key' = some stored at read
        rw [Function.update_apply] at read
        split_ifs at read with same
        · cases read
          exact .inr ⟨same, rfl⟩
        · exact .inl read

end Versioned
