import Wardn.World

/-!
# The decision that spans reconciles

Whether a reconcile applies depends on two stored fields, the sync status and the revision, on
what it observes of Git, and on whether the application is automated.  `SyncView` is that
machine by itself: `SyncView.step` says what an observation leaves stored, `SyncView.applied`
which revision it applies, if any, and `SyncView.applications` collects these over a run.

`World.step_view` connects it to the reconciler: when nothing is lost, the stored fields of an
object move as the machine does and the cluster receives what the machine applies.
-/

namespace Wardn

open Runs

/-! ## The machine -/

/-- What a reconcile sees of Git. -/
inductive Observation
  | cloneFailed
  | parseFailed (revision : String)
  | observed (revision : String)
  deriving DecidableEq, Repr

/-- The two fields of a status that decide whether a sync is made. -/
structure SyncView where
  syncStatus : SyncStatus
  revision : String
  deriving DecidableEq, Repr

namespace SyncView

/-- The revision that a reconcile applies. -/
def applied (automated : Bool) (v : SyncView) : Observation → Option String
  | .cloneFailed => none
  | .parseFailed _ => none
  | .observed revision =>
    if v = ⟨.synced, revision⟩ then none
    else if automated = true ∨ v.syncStatus = .unset ∨ v.syncStatus = .outOfSync then some revision
    else none

/-- One observation. -/
def step (automated : Bool) (v : SyncView) : Observation → SyncView
  | .cloneFailed => ⟨.unknown, ""⟩
  | .parseFailed revision => ⟨.outOfSync, revision⟩
  | .observed revision =>
    if v = ⟨.synced, revision⟩ then v
    else if automated = true ∨ v.syncStatus = .unset ∨ v.syncStatus = .outOfSync then
      ⟨.synced, revision⟩
    else ⟨.outOfSync, revision⟩

/-- The revisions that a run of observations applies, oldest first. -/
def applications (automated : Bool) : SyncView → List Observation → List String
  | _, [] => []
  | v, o :: os => (v.applied automated o).toList ++ applications automated (v.step automated o) os

end SyncView

/-! ## The reconciler moves as the machine does -/

/-- What a reconcile observes of the repository. -/
def Outcomes.observation (env : Outcomes) : Observation :=
  match env.cloneOrPull with
  | .error _ => .cloneFailed
  | .ok revision =>
    match env.parse with
    | .error _ => .parseFailed revision
    | .ok _ => .observed revision

/-- The two fields of the stored status. -/
def World.view (w : World) : SyncView :=
  ⟨w.app.status.syncStatus, w.app.status.revision⟩

/-- The revisions applied so far, oldest first. -/
def World.appliedRevisions (w : World) : List String :=
  (w.applies.map ApplyAttempt.revision).reverse

/-- The object is read and the first status update is stored. -/
def Outcomes.Recorded (env : Outcomes) : Prop :=
  env.get = none ∧ env.statusUpdate 0 = none

instance (env : Outcomes) : Decidable env.Recorded :=
  inferInstanceAs (Decidable (_ ∧ _))

theorem World.view_eq_iff (w : World) (revision : String) :
    w.view = ⟨.synced, revision⟩ ↔ UpToDate w.app revision := by
  rw [World.view, SyncView.mk.injEq, UpToDate, and_comm]

theorem observation_of_clone_error {env : Outcomes} {err : String}
    (clone : env.cloneOrPull = .error err) : env.observation = .cloneFailed := by
  rw [Outcomes.observation, clone]

theorem observation_of_parse_error {env : Outcomes} {revision err : String}
    (clone : env.cloneOrPull = .ok revision) (parse : env.parse = .error err) :
    env.observation = .parseFailed revision := by
  rw [Outcomes.observation, clone, parse]

/-- Otherwise the revision is observed. -/
theorem observation_of_ok {env : Outcomes} {revision : String} {resources : List Resource}
    (clone : env.cloneOrPull = .ok revision) (parse : env.parse = .ok resources) :
    env.observation = .observed revision := by
  rw [Outcomes.observation, clone, parse]

theorem World.applied_upToDate {w : World} {revision : String} (same : UpToDate w.app revision)
    (automated : Bool) : w.view.applied automated (.observed revision) = none :=
  if_pos ((World.view_eq_iff w revision).mpr same)

/-- A moved revision is applied exactly when the object should sync. -/
theorem World.applied_of_moved {w : World} {revision : String}
    (moved : ¬ UpToDate w.app revision) :
    w.view.applied w.app.spec.automated (.observed revision) =
      if ShouldSync w.app then some revision else none := by
  rw [SyncView.applied, if_neg (mt (World.view_eq_iff w revision).mp moved)]
  rfl

/-- A moved revision is synced, or held back as `OutOfSync`. -/
theorem World.step_view_of_moved {w : World} {revision : String}
    (moved : ¬ UpToDate w.app revision) :
    w.view.step w.app.spec.automated (.observed revision) =
      if ShouldSync w.app then ⟨.synced, revision⟩ else ⟨.outOfSync, revision⟩ := by
  rw [SyncView.step, if_neg (mt (World.view_eq_iff w revision).mp moved)]
  rfl

/-- The reconciles that get to the apply are those whose observation the machine applies. -/
theorem World.startsApply_iff_applied (w : World) (env : Outcomes) :
    w.StartsApply env ↔
      env.get = none ∧ w.view.applied w.app.spec.automated env.observation ≠ none := by
  refine and_congr_right fun get => ⟨fun starts => ?_, fun applied => ?_⟩
  · obtain ⟨revision, resources, clone, parse, moved, sync⟩ := starts
    rw [observation_of_ok clone parse, World.applied_of_moved moved, if_pos sync]
    exact Option.some_ne_none revision
  · cases clone : env.cloneOrPull with
    | error err =>
        rw [observation_of_clone_error clone] at applied
        exact absurd rfl applied
    | ok revision =>
        cases parse : env.parse with
        | error err =>
            rw [observation_of_parse_error clone parse] at applied
            exact absurd rfl applied
        | ok resources =>
            rw [observation_of_ok clone parse] at applied
            by_cases same : UpToDate w.app revision
            · exact absurd (World.applied_upToDate same _) applied
            · rw [World.applied_of_moved same] at applied
              by_cases sync : ShouldSync w.app
              · exact ⟨revision, resources, rfl, rfl, same, sync⟩
              · rw [if_neg sync] at applied
                exact absurd rfl applied

/-- A reconcile that applies nothing stores what the machine does, when it stores anything. -/
theorem World.step_view_of_idle {w : World} {env : Outcomes} (idle : ¬ w.StartsApply env) :
    (w.step (.reconcile env)).view =
      if env.Recorded then w.view.step w.app.spec.automated env.observation else w.view := by
  have landing := w.landing env
  generalize w.step (.reconcile env) = w' at landing
  -- the one write of such a reconcile, and what it stores
  have written : ∀ status : GitApplicationStatus, env.get = none →
      ⟨status.syncStatus, status.revision⟩ = w.view.step w.app.spec.automated env.observation →
      (w.write status (env.statusUpdate 0)).view =
        if env.Recorded then w.view.step w.app.spec.automated env.observation else w.view := by
    intro status get stores
    cases write : env.statusUpdate 0 with
    | none =>
        rw [if_pos ⟨get, write⟩]
        exact stores
    | some err =>
        rw [if_neg (by simp [Outcomes.Recorded, write])]
        rfl
  cases landing with
  | unread get =>
      rw [if_neg (by simp [Outcomes.Recorded, get])]
  | cloneFailed get clone =>
      exact written _ get (by rw [observation_of_clone_error clone]; rfl)
  | parseFailed get clone parse =>
      exact written _ get (by rw [observation_of_parse_error clone parse]; rfl)
  | upToDate get clone parse same =>
      refine written _ get ?_
      rw [observation_of_ok clone parse, SyncView.step,
        if_pos ((World.view_eq_iff w _).mpr same)]
      rfl
  | heldBack get clone parse moved held =>
      refine written _ get ?_
      rw [observation_of_ok clone parse, World.step_view_of_moved moved, if_neg held]
      rfl
  | applyFailed get clone parse moved sync =>
      exact absurd ⟨get, _, _, clone, parse, moved, sync⟩ idle
  | applied get clone parse moved sync => exact absurd ⟨get, _, _, clone, parse, moved, sync⟩ idle

/-- A reconcile that starts no apply records none. -/
theorem World.step_applies_of_idle {w : World} {env : Outcomes} (idle : ¬ w.StartsApply env) :
    (w.step (.reconcile env)).applies = w.applies := by
  have landing := w.landing env
  generalize w.step (.reconcile env) = w' at landing
  cases landing with
  | applyFailed get clone parse moved sync =>
      exact absurd ⟨get, _, _, clone, parse, moved, sync⟩ idle
  | applied get clone parse moved sync => exact absurd ⟨get, _, _, clone, parse, moved, sync⟩ idle
  | _ => simp

/-- **Refinement.**  When the API server and the apply answer without an error, a reconcile moves
the stored fields as the machine does and applies what the machine applies. -/
theorem World.step_refines (w : World) {env : Outcomes} (reliable : env.Reliable) :
    (w.step (.reconcile env)).view = w.view.step w.app.spec.automated env.observation ∧
      (w.step (.reconcile env)).appliedRevisions =
        w.appliedRevisions ++ (w.view.applied w.app.spec.automated env.observation).toList := by
  by_cases starts : w.StartsApply env
  · obtain ⟨get, revision, resources, clone, parse, moved, sync⟩ := starts
    have succeeds : env.Succeeds revision resources := ⟨reliable, clone, parse⟩
    rw [observation_of_ok clone parse, World.step_view_of_moved moved, World.applied_of_moved moved,
      if_pos sync, if_pos sync]
    rcases w.step_of_succeeds succeeds with ⟨same, -⟩ | ⟨-, held, -⟩ | ⟨-, -, ends⟩
    · exact absurd same moved
    · exact absurd sync held
    · rw [ends]
      exact ⟨rfl, by simp [World.appliedRevisions]⟩
  · have nothing : w.view.applied w.app.spec.automated env.observation = none := by
      by_contra applied
      exact starts ((World.startsApply_iff_applied w env).mpr ⟨reliable.get, applied⟩)
    rw [World.step_view_of_idle starts, if_pos ⟨reliable.get, reliable.statusUpdate 0⟩, nothing,
      World.appliedRevisions, World.step_applies_of_idle starts]
    exact ⟨rfl, (List.append_nil _).symm⟩

/-- The refinement over a run. -/
theorem World.run_refines {w : World} {envs : List Outcomes}
    (reliable : ∀ env ∈ envs, env.Reliable) :
    (envs.foldl World.reconciled w).appliedRevisions =
      w.appliedRevisions ++
        w.view.applications w.app.spec.automated (envs.map Outcomes.observation) := by
  induction envs generalizing w with
  | nil => exact (List.append_nil _).symm
  | cons env envs ih =>
      have here := w.step_refines (reliable env List.mem_cons_self)
      have rest := ih (w := w.step (.reconcile env))
        fun env' member => reliable env' (List.mem_cons_of_mem env member)
      rw [List.foldl_cons, rest, here.1, here.2, World.step_reconcile_spec, List.append_assoc]
      rfl

end Wardn
