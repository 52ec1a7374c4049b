import Wardn.Applier
import Wardn.Health
import Wardn.Notify

/-!
# The reconciler

`internal/controller/gitapplication_controller.go`.  `updateStatus`, `updateHealthStatus` and
`recordSync` (the assignments of step 7) give the in-memory object that is passed to the
`r.Status().Update` that follows them; `reconcileApp` puts the calls in order.  A failed
update leaves the in-memory object as it was put together, and the reconcile goes on with it.

`Passage` lists the ways through `Reconcile`, each with its guards, its calls and its result;
`reconcileApp_passage` says there is no other.
-/

namespace Wardn

/-! ## Conditions -/

/-- Search the condition of a type and overwrite it in place, or append a new one. -/
def updateCondition (conditions : List Condition) (condType status message : String) (now : Time) :
    List Condition :=
  match conditions with
  | [] => [{ type := condType, status, message, lastTransitionTime := now }]
  | cond :: conditions =>
    if cond.type = condType then
      { cond with status, message, lastTransitionTime := now } :: conditions
    else cond :: updateCondition conditions condType status message now

/-- The first condition of the updated type carries what the call was given. -/
theorem find_updateCondition (conditions : List Condition) (condType status message : String)
    (now : Time) :
    ∃ cond, (updateCondition conditions condType status message now).find?
        (fun cond => cond.type = condType) = some cond ∧
      cond.status = status ∧ cond.message = message ∧ cond.lastTransitionTime = now := by
  induction conditions with
  | nil => exact ⟨_, by simp [updateCondition]; rfl, rfl, rfl, rfl⟩
  | cons cond conditions ih =>
      unfold updateCondition
      by_cases found : cond.type = condType
      · exact ⟨{ cond with status, message, lastTransitionTime := now }, by simp [found], rfl, rfl,
          rfl⟩
      · simpa [found] using ih

/-! ## Putting a status together -/

/-- The object that `updateStatus` submits. -/
def updateStatus (app : GitApplication) (sync : SyncStatus) (health : HealthStatus)
    (revision : String) (resources : List Resource) (syncErr : Option String) (now : Time) :
    GitApplication :=
  let conditions :=
    match syncErr with
    | some err => updateCondition app.status.conditions "SyncError" "True" err now
    | none => updateCondition app.status.conditions "SyncError" "False" "" now
  -- `resources != nil`: `Parse` returns nil for no resources
  let statuses :=
    if resources ≠ [] then
      resources.map fun res =>
        { kind := res.kind, name := res.name, nameSpace := res.nameSpace,
          syncStatus := sync, healthStatus := health }
    else app.status.resources
  { app with
    status := { app.status with
      syncStatus := sync, healthStatus := health, revision := revision,
      conditions := conditions, resources := statuses } }

/-- The object that `updateHealthStatus` submits. -/
def updateHealthStatus (app : GitApplication) (health : HealthStatus)
    (resources : List ResourceStatus) : GitApplication :=
  { app with status := { app.status with healthStatus := health, resources := resources } }

/-- Step 7 of `Reconcile`. -/
def recordSync (app : GitApplication) (health : HealthStatus) (resources : List ResourceStatus)
    (revision : String) (now : Time) : GitApplication :=
  let previousRevisions := app.status.previousRevisions
  let previousRevisions :=
    if previousRevisions.length ≥ 10 then previousRevisions.drop 1 else previousRevisions
  let previousRevisions :=
    if app.status.revision ≠ "" ∧ app.status.revision ≠ revision then
      previousRevisions ++ [app.status.revision]
    else previousRevisions
  { app with
    status := { app.status with
      syncStatus := .synced, healthStatus := health, lastSyncAt := some now,
      revision := revision, previousRevisions := previousRevisions, resources := resources } }

@[simp] theorem updateStatus_spec (app : GitApplication) (sync : SyncStatus)
    (health : HealthStatus) (revision : String) (resources : List Resource)
    (syncErr : Option String) (now : Time) :
    (updateStatus app sync health revision resources syncErr now).spec = app.spec := rfl

@[simp] theorem updateStatus_syncStatus (app : GitApplication) (sync : SyncStatus)
    (health : HealthStatus) (revision : String) (resources : List Resource)
    (syncErr : Option String) (now : Time) :
    (updateStatus app sync health revision resources syncErr now).status.syncStatus = sync := rfl

@[simp] theorem updateStatus_revision (app : GitApplication) (sync : SyncStatus)
    (health : HealthStatus) (revision : String) (resources : List Resource)
    (syncErr : Option String) (now : Time) :
    (updateStatus app sync health revision resources syncErr now).status.revision = revision := rfl

/-- `updateStatus` leaves the history alone. -/
@[simp] theorem updateStatus_previousRevisions (app : GitApplication) (sync : SyncStatus)
    (health : HealthStatus) (revision : String) (resources : List Resource)
    (syncErr : Option String) (now : Time) :
    (updateStatus app sync health revision resources syncErr now).status.previousRevisions =
      app.status.previousRevisions := rfl

/-- An update of the status makes one call of `updateCondition`. -/
theorem updateStatus_conditions (app : GitApplication) (sync : SyncStatus)
    (health : HealthStatus) (revision : String) (resources : List Resource)
    (syncErr : Option String) (now : Time) :
    (updateStatus app sync health revision resources syncErr now).status.conditions =
      updateCondition app.status.conditions "SyncError"
        (if syncErr.isSome then "True" else "False") (syncErr.getD "") now := by
  cases syncErr with
  | none => rfl
  | some err => rfl

/-- The `SyncError` condition afterwards. -/
theorem find_syncError_updateStatus (app : GitApplication) (sync : SyncStatus)
    (health : HealthStatus) (revision : String) (resources : List Resource)
    (syncErr : Option String) (now : Time) :
    ∃ cond, (updateStatus app sync health revision resources syncErr
        now).status.conditions.find? (fun cond => cond.type = "SyncError") = some cond ∧
      cond.status = (if syncErr.isSome then "True" else "False") ∧
      cond.message = syncErr.getD "" ∧ cond.lastTransitionTime = now := by
  rw [updateStatus_conditions]
  exact find_updateCondition ..

/-! ## The reconcile -/

/-- The test of step 3. -/
def UpToDate (app : GitApplication) (revision : String) : Prop :=
  app.status.revision = revision ∧ app.status.syncStatus = .synced

/-- The decision of step 4. -/
def ShouldSync (app : GitApplication) : Prop :=
  app.spec.automated = true ∨ app.status.syncStatus = .unset ∨ app.status.syncStatus = .outOfSync

instance (app : GitApplication) (revision : String) : Decidable (UpToDate app revision) :=
  inferInstanceAs (Decidable (_ ∧ _))

instance (app : GitApplication) : Decidable (ShouldSync app) :=
  inferInstanceAs (Decidable (_ ∨ _ ∨ _))

/-- `ctrl.Result`, in seconds; zero asks for no requeue. -/
structure Result where
  requeueAfter : Nat := 0
  deriving DecidableEq, Repr

/-- The calls of a reconcile, in order, and its result. -/
structure Reconciliation where
  effects : List Effect
  result : Except String Result

/-- `Reconcile` once the object is read. -/
def reconcileApp (env : Outcomes) (app : GitApplication) : Reconciliation :=
  -- Step 1: Clone/pull the Git repository.
  match env.cloneOrPull with
  | .error err =>
    let app := updateStatus app .unknown .unknown "" [] (some err) (env.now 0)
    ⟨[env.update 0 app], .ok { requeueAfter := 30 }⟩
  | .ok revision =>
  -- Step 2: Parse manifests from the specified path.
  match env.parse with
  | .error err =>
    let app := updateStatus app .outOfSync .unknown revision [] (some err) (env.now 0)
    ⟨[env.update 0 app], .ok { requeueAfter := 30 }⟩
  | .ok resources =>
  -- Step 3: Check if sync is needed.
  if UpToDate app revision then
    let (healthStatus, resourceStatuses) := check resources
    let app := updateHealthStatus app healthStatus resourceStatuses
    ⟨[env.update 0 app], .ok { requeueAfter := 60 }⟩
  -- Step 4: Determine if we should sync.
  else if ¬ ShouldSync app then
    let app := updateStatus app .outOfSync .unknown revision resources none (env.now 0)
    ⟨[env.update 0 app], .ok { requeueAfter := 30 }⟩
  else
    -- Step 5: Apply manifests to the target cluster.
    let app := updateStatus app .syncing .progressing revision resources none (env.now 0)
    let (calls, applyErr) := apply env resources app.spec.syncPolicy
    let applied :=
      env.update 0 app :: .applyStart revision resources :: (calls ++ [.applyEnd applyErr])
    match applyErr with
    | some err =>
      let app := updateStatus app .outOfSync .degraded revision resources (some err) (env.now 1)
      ⟨applied ++ env.update 1 app :: sendNotification env app false (some err),
        .ok { requeueAfter := 30 }⟩
    | none =>
      -- Step 6: Check health of deployed resources.
      let (healthStatus, resourceStatuses) := check resources
      -- Step 7: Update status with sync success.
      let app := recordSync app healthStatus resourceStatuses revision (env.now 1)
      match env.recordErr with
      | some err => ⟨applied ++ [env.update 1 app], .error err⟩
      | none =>
        ⟨applied ++ env.update 1 app :: sendNotification env app true none,
          .ok { requeueAfter := 60 }⟩

/-! ## The ways through a reconcile

The in-memory object at each of its updates, then the ways themselves. -/

/-- The object submitted behind a failed clone. -/
abbrev Outcomes.unknownApp (env : Outcomes) (app : GitApplication) (err : String) :
    GitApplication :=
  updateStatus app .unknown .unknown "" [] (some err) (env.now 0)

/-- The object submitted behind a failed parse. -/
abbrev Outcomes.unparsedApp (env : Outcomes) (app : GitApplication) (revision err : String) :
    GitApplication :=
  updateStatus app .outOfSync .unknown revision [] (some err) (env.now 0)

/-- The object submitted when nothing has moved. -/
abbrev recheckedApp (app : GitApplication) (resources : List Resource) : GitApplication :=
  updateHealthStatus app .healthy (resources.map checkedStatus)

/-- The object submitted when a sync is held back. -/
abbrev Outcomes.heldApp (env : Outcomes) (app : GitApplication) (revision : String)
    (resources : List Resource) : GitApplication :=
  updateStatus app .outOfSync .unknown revision resources none (env.now 0)

/-- The object submitted before an apply. -/
abbrev Outcomes.syncingApp (env : Outcomes) (app : GitApplication) (revision : String)
    (resources : List Resource) : GitApplication :=
  updateStatus app .syncing .progressing revision resources none (env.now 0)

/-- The object submitted behind a failed apply. -/
abbrev Outcomes.degradedApp (env : Outcomes) (app : GitApplication) (revision : String)
    (resources : List Resource) (err : String) : GitApplication :=
  updateStatus (env.syncingApp app revision resources) .outOfSync .degraded revision resources
    (some err) (env.now 1)

/-- The object submitted behind a completed apply. -/
abbrev Outcomes.syncedApp (env : Outcomes) (app : GitApplication) (revision : String)
    (resources : List Resource) : GitApplication :=
  recordSync (env.syncingApp app revision resources) .healthy (resources.map checkedStatus)
    revision (env.now 1)

/-- The object at the update behind an apply. -/
abbrev Outcomes.appliedApp (env : Outcomes) (app : GitApplication) (revision : String)
    (resources : List Resource) : Option String → GitApplication
  | some err => env.degradedApp app revision resources err
  | none => env.syncedApp app revision resources

/-- The calls of step 5: the `Syncing` write and the apply between its start and its end. -/
def applyPhase (env : Outcomes) (app : GitApplication) (revision : String)
    (resources : List Resource) (calls : List Effect) (err : Option String) : List Effect :=
  env.update 0 (env.syncingApp app revision resources) ::
    .applyStart revision resources :: (calls ++ [.applyEnd err])

/-- The seven ways through a reconcile, with the calls and the result of each. -/
inductive Passage (env : Outcomes) (app : GitApplication) : Reconciliation → Prop
  | cloneFailed {err : String} (clone : env.cloneOrPull = .error err) :
    Passage env app ⟨[env.update 0 (env.unknownApp app err)], .ok { requeueAfter := 30 }⟩
  | parseFailed {revision err : String} (clone : env.cloneOrPull = .ok revision)
    (parse : env.parse = .error err) :
    Passage env app
      ⟨[env.update 0 (env.unparsedApp app revision err)], .ok { requeueAfter := 30 }⟩
  | upToDate {revision : String} {resources : List Resource}
    (clone : env.cloneOrPull = .ok revision) (parse : env.parse = .ok resources)
    (same : UpToDate app revision) :
    Passage env app ⟨[env.update 0 (recheckedApp app resources)], .ok { requeueAfter := 60 }⟩
  | heldBack {revision : String} {resources : List Resource}
    (clone : env.cloneOrPull = .ok revision) (parse : env.parse = .ok resources)
    (moved : ¬ UpToDate app revision) (held : ¬ ShouldSync app) :
    Passage env app
      ⟨[env.update 0 (env.heldApp app revision resources)], .ok { requeueAfter := 30 }⟩
  | applyFailed {revision err : String} {resources : List Resource} {calls : List Effect}
    (clone : env.cloneOrPull = .ok revision) (parse : env.parse = .ok resources)
    (moved : ¬ UpToDate app revision) (sync : ShouldSync app)
    (failed : apply env resources app.spec.syncPolicy = (calls, some err)) :
    Passage env app
      ⟨applyPhase env app revision resources calls (some err) ++
        env.update 1 (env.degradedApp app revision resources err) ::
        sendNotification env (env.degradedApp app revision resources err) false (some err),
        .ok { requeueAfter := 30 }⟩
  | unrecorded {revision err : String} {resources : List Resource} {calls : List Effect}
    (clone : env.cloneOrPull = .ok revision) (parse : env.parse = .ok resources)
    (moved : ¬ UpToDate app revision) (sync : ShouldSync app)
    (applied : apply env resources app.spec.syncPolicy = (calls, none))
    (write : env.recordErr = some err) :
    Passage env app
      ⟨applyPhase env app revision resources calls none ++
        [env.update 1 (env.syncedApp app revision resources)], .error err⟩
  | synced {revision : String} {resources : List Resource} {calls : List Effect}
    (clone : env.cloneOrPull = .ok revision) (parse : env.parse = .ok resources)
    (moved : ¬ UpToDate app revision) (sync : ShouldSync app)
    (applied : apply env resources app.spec.syncPolicy = (calls, none))
    (write : env.recordErr = none) :
    Passage env app
      ⟨applyPhase env app revision resources calls none ++
        env.update 1 (env.syncedApp app revision resources) ::
        sendNotification env (env.syncedApp app revision resources) true none,
        .ok { requeueAfter := 60 }⟩

/-- There is no other way through `Reconcile`. -/
theorem reconcileApp_passage (env : Outcomes) (app : GitApplication) :
    Passage env app (reconcileApp env app) := by
  unfold reconcileApp
  cases clone : env.cloneOrPull with
  | error err => exact .cloneFailed clone
  | ok revision =>
      cases parse : env.parse with
      | error err => exact .parseFailed clone parse
      | ok resources =>
          by_cases same : UpToDate app revision
          · simp only [same, if_true, check_eq]
            exact .upToDate clone parse same
          · by_cases sync : ShouldSync app
            · simp only [same, sync, if_false, not_true_eq_false, check_eq]
              cases applied : apply env resources
                  (updateStatus app .syncing .progressing revision resources none
                    (env.now 0)).spec.syncPolicy with
              | mk calls applyErr =>
                  cases applyErr with
                  | some err => exact .applyFailed clone parse same sync applied
                  | none =>
                      cases write : env.recordErr with
                      | some err =>
                          simp only
                          exact .unrecorded clone parse same sync applied write
                      | none =>
                          simp only
                          exact .synced clone parse same sync applied write
            · simp only [same, sync, if_false, not_false_eq_true, if_true]
              exact .heldBack clone parse same sync

/-- Each of the seven is the reconcile itself under its conditions. -/
theorem Passage.eq_reconcileApp {env : Outcomes} {app : GitApplication} {r : Reconciliation}
    (passage : Passage env app r) : r = reconcileApp env app := by
  unfold reconcileApp
  cases passage with
  | cloneFailed clone => simp only [clone]
  | parseFailed clone parse => simp only [clone, parse]
  | upToDate clone parse same => simp only [clone, parse, same, if_true, check_eq]
  | heldBack clone parse moved held =>
      simp only [clone, parse, moved, held, if_false, not_false_eq_true, if_true]
  | applyFailed clone parse moved sync failed =>
      simp only [clone, parse, moved, sync, if_false, not_true_eq_false, updateStatus_spec, failed]
      rfl
  | unrecorded clone parse moved sync applied write =>
      simp only [clone, parse, moved, sync, if_false, not_true_eq_false, updateStatus_spec, applied,
        check_eq, write]
      rfl
  | synced clone parse moved sync applied write =>
      simp only [clone, parse, moved, sync, if_false, not_true_eq_false, updateStatus_spec, applied,
        check_eq, write]
      rfl

/-- A reconcile that applies goes on to its second update, and then only posts messages. -/
theorem reconcileApp_effects_of_sync {env : Outcomes} {app : GitApplication} {revision : String}
    {resources : List Resource} {err : Option String} (clone : env.cloneOrPull = .ok revision)
    (parse : env.parse = .ok resources) (moved : ¬ UpToDate app revision) (sync : ShouldSync app)
    (returned : (apply env resources app.spec.syncPolicy).2 = err) :
    ∃ messages, (reconcileApp env app).effects =
      applyPhase env app revision resources (apply env resources app.spec.syncPolicy).1 err ++
        env.update 1 (env.appliedApp app revision resources err) :: messages := by
  have applied : apply env resources app.spec.syncPolicy =
      ((apply env resources app.spec.syncPolicy).1, err) := Prod.ext rfl returned
  cases err with
  | some err =>
      rw [← (Passage.applyFailed clone parse moved sync applied).eq_reconcileApp]
      exact ⟨_, rfl⟩
  | none =>
      cases write : env.recordErr with
      | some err =>
          rw [← (Passage.unrecorded clone parse moved sync applied write).eq_reconcileApp]
          exact ⟨_, rfl⟩
      | none =>
          rw [← (Passage.synced clone parse moved sync applied write).eq_reconcileApp]
          exact ⟨_, rfl⟩

/-- `Reconcile`; `object` is what the API server stores under the requested name. -/
def reconcile (env : Outcomes) (object : Option GitApplication) : Reconciliation :=
  match env.get with
  | some err => ⟨[], .error err⟩
  | none =>
    match object with
    | none => ⟨[], .ok {}⟩
    | some app => reconcileApp env app

end Wardn
