import Wardn.Lib.Logs
import Wardn.World

/-!
# The rollback history

`PreviousRevisions` should hold the last ten revisions synced before the current one.  Step 7
appends the stored revision when it differs from the new one, but the `Syncing` update of
step 5 has by then put the new revision in its place, so nothing is ever appended: the list a
run leaves is the one it started with.  From a fresh object the history is faithful exactly as
long as no sync moves to another revision (`history_faithful_iff`).
-/

namespace Wardn

open Runs Logs

/-- The revisions successfully synced so far, oldest first. -/
def World.syncedRevisions (w : World) : List String :=
  ((w.applies.filter fun attempt => attempt.outcome = some none).map ApplyAttempt.revision).reverse

/-- The last ten revisions synced before the current one, consecutive repeats removed. -/
def World.rollbackHistory (w : World) : List String :=
  (w.syncedRevisions.destutter (· ≠ ·)).dropLast.rtake 10

/-- The stored history is that one. -/
def World.Faithful (w : World) : Prop :=
  w.app.status.previousRevisions = w.rollbackHistory

instance (w : World) : Decidable w.Faithful :=
  inferInstanceAs (Decidable (_ = _))

/-- A reconcile that syncs does so for the revision synced last, if there is one. -/
def World.StaysOnRevision (w : World) (env : Outcomes) : Prop :=
  w.StartsApply env → ∀ revision, env.cloneOrPull = .ok revision →
    ∀ last ∈ w.syncedRevisions.getLast?, last = revision

/-- No submitted status has a longer history than the object had. -/
theorem submission_previousRevisions {env : Outcomes} {app : GitApplication}
    {status : GitApplicationStatus} (empty : app.status.previousRevisions = [])
    (submission : Submission env app status) : status.previousRevisions = [] := by
  cases submission with
  | @synced revision resources clone parse moved sync applied =>
      -- the revision that step 7 compares is the one it is about to store
      have appended : (env.syncedApp app revision resources).status.previousRevisions =
          if app.status.previousRevisions.length ≥ 10 then app.status.previousRevisions.drop 1
          else app.status.previousRevisions := by
        simp [recordSync]
      rw [appended, empty]
      rfl
  | _ => exact empty

theorem World.step_previousRevisions {w : World} (empty : w.app.status.previousRevisions = [])
    (a : Action) : (w.step a).app.status.previousRevisions = [] :=
  World.step_status_invariant (I := fun status => status.previousRevisions = [])
    (fun _ _ _ empty submission => submission_previousRevisions empty submission) w a empty

/-- A sync grows the expected history unless it is for the revision synced last. -/
theorem rollbackHistory_of_sync {w w' : World} {revision : String}
    (synced : w'.syncedRevisions = w.syncedRevisions ++ [revision])
    (empty : w.rollbackHistory = []) :
    w'.rollbackHistory = [] ↔ ∀ last ∈ w.syncedRevisions.getLast?, last = revision := by
  unfold World.rollbackHistory at *
  rw [rtake_eq_nil_iff (by omega)] at *
  rw [synced, destutter_concat]
  by_cases same : w.syncedRevisions.getLast? = some revision
  · rw [if_pos same]
    refine ⟨fun _ last member => ?_, fun _ => empty⟩
    exact Option.some_inj.mp (member.symm.trans same)
  · rw [if_neg same, List.dropLast_concat, List.destutter_eq_nil]
    refine ⟨fun none last member => ?_, fun all => ?_⟩
    · rw [none] at member
      cases member
    · cases last : w.syncedRevisions.getLast? with
      | none => exact List.getLast?_eq_none_iff.mp last
      | some last' => exact absurd (last.trans (congrArg some (all last' last))) same

/-- One reconcile, from a world whose history is empty and should be. -/
theorem World.faithful_iff {w : World} {env : Outcomes} {revision : String}
    {resources : List Resource} (succeeds : env.Succeeds revision resources)
    (empty : w.app.status.previousRevisions = []) (faithful : w.Faithful) :
    (w.reconciled env).Faithful ↔ w.StaysOnRevision env := by
  have expected : w.rollbackHistory = [] := faithful.symm.trans empty
  have stored : (w.reconciled env).app.status.previousRevisions = [] :=
    World.step_previousRevisions empty (.reconcile env)
  rw [World.Faithful, stored, eq_comm]
  have unmoved : ∀ {w' : World}, w'.applies = w.applies → w'.rollbackHistory = [] := by
    intro w' same
    rw [← expected, World.rollbackHistory, World.rollbackHistory, World.syncedRevisions,
      World.syncedRevisions, same]
  unfold World.reconciled
  rcases w.step_of_succeeds succeeds with ⟨same, ends⟩ | ⟨moved, held, ends⟩ | ⟨moved, sync, ends⟩
  · rw [ends]
    refine ⟨fun _ starts => ?_, fun _ => unmoved (World.write_applies ..)⟩
    obtain ⟨get, revision', resources', clone, parse, moved, sync⟩ := starts
    cases succeeds.clone.symm.trans clone
    exact absurd same moved
  · rw [ends]
    refine ⟨fun _ starts => ?_, fun _ => unmoved (World.write_applies ..)⟩
    obtain ⟨get, revision', resources', clone, parse, moved, sync⟩ := starts
    exact absurd sync held
  · have grown : (w.step (.reconcile env)).syncedRevisions = w.syncedRevisions ++ [revision] := by
      rw [ends]
      simp [World.syncedRevisions]
    rw [rollbackHistory_of_sync grown expected]
    refine ⟨fun all starts revision' clone => ?_, fun stays => ?_⟩
    · cases succeeds.clone.symm.trans clone
      exact all
    · exact stays ⟨succeeds.get, revision, resources, succeeds.clone, succeeds.parse, moved, sync⟩
        revision succeeds.clone

/-- **The rollback history.**  In every run of successful reconciles of a fresh object, the stored
history is the expected one after each reconcile exactly when each sync is for the revision synced
last. -/
theorem history_faithful_iff (name : String) (spec : GitApplicationSpec) (envs : List Outcomes)
    (succeeds : ∀ env ∈ envs, ∃ revision resources, env.Succeeds revision resources) :
    Along World.reconciled (fun w env => (w.reconciled env).Faithful) (World.created name spec)
        envs ↔
      Along World.reconciled World.StaysOnRevision (World.created name spec) envs := by
  have initial : (World.created name spec).app.status.previousRevisions = [] ∧
      (World.created name spec).Faithful := ⟨rfl, rfl⟩
  refine along_congr_on (I := fun w => w.app.status.previousRevisions = [] ∧ w.Faithful)
    (D := fun _ env => ∃ revision resources, env.Succeeds revision resources)
    (fun w env stored succeeds => ?_) (fun w env stored _ faithful => ?_) initial
    (along_of_forall_mem (fun env member _ => succeeds env member) _)
  · obtain ⟨revision, resources, succeeds⟩ := succeeds
    exact World.faithful_iff succeeds stored.1 stored.2
  · exact ⟨World.step_previousRevisions stored.1 (.reconcile env), faithful⟩

/-- Seeing one revision twice leaves nothing to roll back to, as it should. -/
theorem history_faithful_of_resync :
    Along World.reconciled (fun w env => (w.reconciled env).Faithful)
      (World.created "guestbook" { syncPolicy := some { automated := true } })
      [.succeeding "v1" [] 0, .succeeding "v1" [] 60] := by
  refine (history_faithful_iff _ _ _ fun env member => ?_).mpr ⟨?_, ?_, trivial⟩
  · rcases List.mem_cons.mp member with rfl | member
    · exact ⟨"v1", [], Outcomes.succeeding_succeeds "v1" [] 0⟩
    · cases List.mem_singleton.mp member
      exact ⟨"v1", [], Outcomes.succeeding_succeeds "v1" [] 60⟩
  · intro starts revision clone last member
    cases member
  · intro starts revision clone last member
    cases clone
    cases member
    rfl

/-- The sync that moves from `v1` to `v2` should append `v1`, and leaves the history empty. -/
theorem history_not_faithful_of_move :
    ¬ ([Outcomes.succeeding "v1" [] 0, .succeeding "v2" [] 60].foldl World.reconciled
      (World.created "guestbook" { syncPolicy := some { automated := true } })).Faithful := by
  decide

end Wardn
