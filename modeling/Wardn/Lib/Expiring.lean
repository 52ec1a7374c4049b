import Mathlib.Logic.Function.Basic
import Wardn.Lib.Logs

/-!
# Key–value stores whose entries expire

A store maps keys to values that live until a point of the clock.  The commands that change it
are `set`, with a time to live, and `del`; `get_foldl_exec_eq_some_iff` says what a history of
commands leaves to be read: the last command on the key is a `set` whose time has not run out.
-/

namespace Expiring

variable {κ ν : Type*}

/-- A value with the time from which it is gone. -/
structure Entry (ν : Type*) where
  value : ν
  expires : ℕ

/-- An entry is kept, unread, after it has expired. -/
abbrev Store (κ ν : Type*) := κ → Option (Entry ν)

/-- A store without entries. -/
def empty : Store κ ν := fun _ => none

/-- The value of a key, unless it has expired. -/
def get (store : Store κ ν) (now : ℕ) (key : κ) : Option ν :=
  match store key with
  | some entry => if now < entry.expires then some entry.value else none
  | none => none

/-- A write: a value for some time, or none. -/
inductive Command (κ ν : Type*)
  | set (key : κ) (value : ν) (ttl : ℕ)
  | del (key : κ)

/-- The key that is written. -/
def Command.key : Command κ ν → κ
  | .set key _ _ => key
  | .del key => key

/-- What a command at this time leaves under its key. -/
def Command.entry (now : ℕ) : Command κ ν → Option (Entry ν)
  | .set _ value ttl => some ⟨value, now + ttl⟩
  | .del _ => none

variable [DecidableEq κ]

/-- A command writes its key. -/
def exec (store : Store κ ν) (now : ℕ) (command : Command κ ν) : Store κ ν :=
  Function.update store command.key (command.entry now)

variable {store : Store κ ν} {now : ℕ} {key : κ} {value : ν}

omit [DecidableEq κ] in
/-- A value is there from its write until it expires. -/
theorem get_eq_some_iff :
    get store now key = some value ↔
      ∃ entry, store key = some entry ∧ entry.value = value ∧ now < entry.expires := by
  rw [get]
  cases store key with
  | none => simp
  | some entry =>
      by_cases live : now < entry.expires
      · simp [live]
      · simp [live]

omit [DecidableEq κ] in
/-- A value that can be read could be read before. -/
theorem get_of_later {later : ℕ} (order : now ≤ later)
    (read : get store later key = some value) : get store now key = some value := by
  obtain ⟨entry, stored, same, live⟩ := get_eq_some_iff.mp read
  exact get_eq_some_iff.mpr ⟨entry, stored, same, by omega⟩

theorem exec_self (store : Store κ ν) (now : ℕ) (command : Command κ ν) :
    exec store now command command.key = command.entry now :=
  Function.update_self ..

/-- A command leaves the other keys alone. -/
theorem exec_of_ne (store : Store κ ν) (now : ℕ) {command : Command κ ν}
    (other : key ≠ command.key) : exec store now command key = store key :=
  Function.update_of_ne other ..

/-- What stands under a key after a command was left by it or stood there before. -/
theorem exec_eq_some {command : Command κ ν} {entry : Entry ν}
    (stored : exec store now command key = some entry) :
    (command.key = key ∧ command.entry now = some entry) ∨ store key = some entry := by
  by_cases touched : key = command.key
  · subst touched
    rw [exec_self] at stored
    exact .inl ⟨rfl, stored⟩
  · rw [exec_of_ne store now touched] at stored
    exact .inr stored

/-- What is read of another key is as before. -/
theorem get_exec_of_ne (store : Store κ ν) (time : ℕ) {command : Command κ ν}
    (other : key ≠ command.key) : get (exec store time command) now key = get store now key := by
  rw [get, get, exec_of_ne store time other]

@[simp] theorem get_exec_del (store : Store κ ν) (time : ℕ) :
    get (exec store time (.del key)) now key = none := by
  have gone : exec store time (.del key) key = none := exec_self store time (.del key)
  rw [get, gone]

/-! ## Histories -/

/-- A command and the time it is executed at. -/
abbrev Timed (κ ν : Type*) := ℕ × Command κ ν

/-- The store that a history of commands leaves. -/
def run (store : Store κ ν) (history : List (Timed κ ν)) : Store κ ν :=
  history.foldl (fun store timed => exec store timed.1 timed.2) store

@[simp] theorem run_nil (store : Store κ ν) : run store [] = store := rfl

@[simp] theorem run_append (store : Store κ ν) (before after : List (Timed κ ν)) :
    run store (before ++ after) = run (run store before) after :=
  List.foldl_append ..

theorem run_singleton (store : Store κ ν) (timed : Timed κ ν) :
    run store [timed] = exec store timed.1 timed.2 := rfl

/-- A key that no command names keeps its entry. -/
theorem run_of_untouched {history : List (Timed κ ν)}
    (untouched : ∀ timed ∈ history, timed.2.key ≠ key) (store : Store κ ν) :
    run store history key = store key := by
  induction history generalizing store with
  | nil => rfl
  | cons timed history ih =>
      have first := untouched timed List.mem_cons_self
      have rest := ih (fun later member => untouched later (List.mem_cons_of_mem timed member))
      exact (rest (exec store timed.1 timed.2)).trans (exec_of_ne store timed.1 first.symm)

/-- What stands under a key is what the last command on it left. -/
theorem run_apply_eq_some_iff {history : List (Timed κ ν)} {entry : Entry ν} :
    run empty history key = some entry ↔
      ∃ before timed after, history = before ++ timed :: after ∧ timed.2.key = key ∧
        timed.2.entry timed.1 = some entry ∧ ∀ later ∈ after, later.2.key ≠ key := by
  constructor
  · intro stored
    induction history using List.reverseRecOn with
    | nil => cases stored
    | append_singleton history timed ih =>
        rw [run_append, run_singleton] at stored
        by_cases touched : timed.2.key = key
        · subst touched
          rw [exec_self] at stored
          exact ⟨history, timed, [], rfl, rfl, stored, by simp⟩
        · rw [exec_of_ne _ _ (Ne.symm touched)] at stored
          obtain ⟨before, last, after, rfl, same, left, untouched⟩ := ih stored
          refine ⟨before, last, after ++ [timed], by simp, same, left, fun later member => ?_⟩
          rcases List.mem_append.mp member with inside | final
          · exact untouched later inside
          · obtain rfl := List.mem_singleton.mp final
            exact touched
  · rintro ⟨before, timed, after, rfl, rfl, left, untouched⟩
    rw [List.append_cons, run_append, run_of_untouched untouched, run_append, run_singleton,
      exec_self, left]

/-- A history leaves a value to be read exactly when the last command on its key set it and its
time has not run out. -/
theorem get_run_eq_some_iff {history : List (Timed κ ν)} :
    get (run empty history) now key = some value ↔
      ∃ before time ttl after, history = before ++ (time, .set key value ttl) :: after ∧
        now < time + ttl ∧ ∀ later ∈ after, later.2.key ≠ key := by
  rw [get_eq_some_iff]
  refine ⟨fun read => ?_, fun last => ?_⟩
  · obtain ⟨entry, stored, rfl, live⟩ := read
    obtain ⟨before, ⟨time, command⟩, after, rfl, same, left, untouched⟩ :=
      run_apply_eq_some_iff.mp stored
    cases command with
    | set key' value' ttl =>
        cases same
        cases left
        exact ⟨before, time, ttl, after, rfl, live, untouched⟩
    | del key' => cases left
  · obtain ⟨before, time, ttl, after, rfl, live, untouched⟩ := last
    have stored := run_apply_eq_some_iff.mpr
      ⟨before, (time, .set key value ttl), after, rfl, rfl, rfl, untouched⟩
    exact ⟨⟨value, time + ttl⟩, stored, rfl, live⟩

end Expiring
