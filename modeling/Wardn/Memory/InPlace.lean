import Wardn.Controller
import Wardn.Memory.DeepCopy

/-!
# The reconcile in memory

`Reconcile` as the source has it: it reads a deep copy of the cached object and changes that copy
through its pointers and slices, conditions in place, revisions by reslicing and appending.
`reconcile_refines` says that its calls and its result are those of `Wardn.reconcile`, which puts
new objects together instead, and that no cached object reads differently afterwards.
-/

namespace Wardn.Memory

open Heap

instance : Inhabited Condition := ⟨{ type := "", status := "", lastTransitionTime := 0 }⟩

instance : Inhabited ResourceStatus := ⟨{ kind := "", name := "", nameSpace := "" }⟩

/-! ## What a record says, as a function -/

/-- What is read through the pointer. -/
def NotificationRecord.value (m : SpecHeaps) (r : NotificationRecord) : NotificationConfig :=
  { slack := load m.slacks r.slack, onSyncSuccess := r.onSyncSuccess,
    onSyncFailure := r.onSyncFailure, onHealthDegraded := r.onHealthDegraded }

/-- What is read through the pointers of a spec. -/
def SpecRecord.value (m : SpecHeaps) (r : SpecRecord) : Spec :=
  { repoURL := r.repoURL, branch := r.branch, path := r.path, manifestType := r.manifestType,
    helm := load m.helms r.helm, targetCluster := r.targetCluster,
    syncPolicy := load m.policies r.syncPolicy,
    notifications := (load m.notifications r.notifications).map (NotificationRecord.value m),
    webhook := load m.webhooks r.webhook }

/-- What is read through the references of a status. -/
def StatusRecord.value (m : StatusHeaps) (r : StatusRecord) : GitApplicationStatus :=
  { syncStatus := r.syncStatus, healthStatus := r.healthStatus,
    lastSyncAt := load m.times r.lastSyncAt, revision := r.revision,
    previousRevisions := contents m.revisions r.previousRevisions,
    resources := contents m.resources r.resources,
    conditions := contents m.conditions r.conditions }

/-- What the API server would be sent for the object. -/
def ObjectRecord.value (m : Heaps) (r : ObjectRecord) : App :=
  { name := r.name, spec := r.spec.value m.spec, status := r.status.value m.status }

theorem NotificationRecord.Owned.value_eq {base m : SpecHeaps} {r : NotificationRecord}
    {v : NotificationConfig} (owned : r.Owned base m v) : r.value m = v := by
  rw [value, owned.slack.loads.load_eq, owned.onSyncSuccess, owned.onSyncFailure,
    owned.onHealthDegraded]

/-- A spec reads as the value it owns. -/
theorem SpecRecord.Owned.value_eq {base m : SpecHeaps} {r : SpecRecord} {v : Spec}
    (owned : r.Owned base m v) : r.value m = v := by
  have notifications :
      (load m.notifications r.notifications).map (NotificationRecord.value m) =
        v.notifications := by
    have points := owned.notifications.points
    cases shown : v.notifications with
    | none =>
        rw [shown] at points
        rw [show r.notifications = none from points]
        rfl
    | some config =>
        rw [shown] at points
        obtain ⟨addr, record, pointer, here, ownedConfig⟩ := points
        rw [pointer, show load m.notifications (some addr) = some record from here,
          Option.map_some, ownedConfig.value_eq]
  rw [value, notifications, owned.repoURL, owned.branch, owned.path, owned.manifestType,
    owned.helm.loads.load_eq, owned.targetCluster, owned.syncPolicy.loads.load_eq,
    owned.webhook.loads.load_eq]

theorem StatusRecord.Owned.value_eq {base m : StatusHeaps} {r : StatusRecord}
    {v : GitApplicationStatus} (owned : r.Owned base m v) : r.value m = v := by
  rw [value, owned.syncStatus, owned.healthStatus, owned.lastSyncAt.loads.load_eq, owned.revision,
    owned.previousRevisions.reads.contents_eq, owned.resources.reads.contents_eq,
    owned.conditions.reads.contents_eq]

/-- An object reads as the value it owns. -/
theorem ObjectRecord.Owned.value_eq {base m : Heaps} {r : ObjectRecord} {v : App}
    (owned : r.Owned base m v) : r.value m = v := by
  rw [value, owned.name, owned.spec.value_eq, owned.status.value_eq]

/-! ## The writers -/

section Write

-- The room that the runtime leaves behind a grown array.
variable (grow : ℕ → ℕ)

/-- The loop of `updateCondition` over the `n` conditions from index `i` on. -/
def conditionLoop (h : Heap (List Condition)) (s : Slice) (condType status message : String)
    (now : Time) : ℕ → ℕ → Option (Heap (List Condition))
  | _, 0 => none
  | i, n + 1 =>
    match s.get? h i with
    | none => none
    | some cond =>
      if cond.type = condType then
        some (s.set h i { cond with status, message, lastTransitionTime := now })
      else conditionLoop h s condType status message now (i + 1) n

/-- The loop writes the array it finds; a condition that is missing is appended. -/
def updateCondition (h : Heap (List Condition)) (conditions : Option Slice)
    (condType status message : String) (now : Time) : Heap (List Condition) × Option Slice :=
  let found :=
    match conditions with
    | none => none
    | some s => conditionLoop h s condType status message now 0 s.len
  match found with
  | some h => (h, conditions)
  | none =>
    append grow h conditions { type := condType, status, message, lastTransitionTime := now }

/-- `updateStatus`: the conditions are written in place, the resources are a new array. -/
def updateStatus (m : Heaps) (app : ObjectRecord) (sync : SyncStatus) (health : HealthStatus)
    (revision : String) (resources : List Resource) (syncErr : Option String) (now : Time) :
    Heaps × ObjectRecord :=
  let (conditions, statusConditions) :=
    match syncErr with
    | some err =>
      updateCondition grow m.status.conditions app.status.conditions "SyncError" "True" err now
    | none =>
      updateCondition grow m.status.conditions app.status.conditions "SyncError" "False" "" now
  let (resourceHeap, statuses) :=
    if resources ≠ [] then
      let (h, statuses) := make m.status.resources (resources.map fun res =>
        { kind := res.kind, name := res.name, nameSpace := res.nameSpace,
          syncStatus := sync, healthStatus := health })
      (h, some statuses)
    else (m.status.resources, app.status.resources)
  ({ m with status := { m.status with conditions, resources := resourceHeap } },
    { app with
      status := { app.status with
        syncStatus := sync, healthStatus := health, revision := revision,
        conditions := statusConditions, resources := statuses } })

/-- `updateHealthStatus`: the object takes the slice it is given. -/
def updateHealthStatus (app : ObjectRecord) (health : HealthStatus) (resources : Option Slice) :
    ObjectRecord :=
  { app with status := { app.status with healthStatus := health, resources := resources } }

/-- The loop of `Checker.Check`, which appends to a nil slice. -/
def checkWith (assess : Resource → HealthStatus) (h : Heap (List ResourceStatus))
    (resources : List Resource) : Heap (List ResourceStatus) × HealthStatus × Option Slice :=
  resources.foldl
    (fun (h, aggregate, statuses) res =>
      let rs : ResourceStatus :=
        { kind := res.kind, name := res.name, nameSpace := res.nameSpace,
          healthStatus := assess res }
      let (h, statuses) := append grow h statuses rs
      (h, Wardn.aggregate aggregate rs.healthStatus, statuses))
    (h, .healthy, none)

/-- `Checker.Check`. -/
def check (m : Heaps) (resources : List Resource) : Heaps × HealthStatus × Option Slice :=
  let (h, healthStatus, statuses) := checkWith grow (fun _ => .healthy) m.status.resources resources
  ({ m with status := { m.status with resources := h } }, healthStatus, statuses)

/-- Step 7 of `Reconcile`. -/
def recordSync (m : Heaps) (app : ObjectRecord) (health : HealthStatus)
    (resources : Option Slice) (revision : String) (now : Time) : Heaps × ObjectRecord :=
  let previousRevisions := app.status.previousRevisions
  let previousRevisions :=
    previousRevisions.map fun s => if s.len ≥ 10 then s.tail else s
  let (revisions, previousRevisions) :=
    if app.status.revision ≠ "" ∧ app.status.revision ≠ revision then
      append grow m.status.revisions previousRevisions app.status.revision
    else (m.status.revisions, previousRevisions)
  let (times, addr) := alloc m.status.times now
  ({ m with status := { m.status with revisions, times } },
    { app with
      status := { app.status with
        syncStatus := .synced, healthStatus := health, lastSyncAt := some addr,
        revision := revision, previousRevisions := previousRevisions, resources := resources } })

end Write

/-! ## The reconcile -/

section Reconcile

variable (grow : ℕ → ℕ) (env : Outcomes)

/-- `spec.syncPolicy`, through its pointer. -/
def ObjectRecord.policy (m : Heaps) (app : ObjectRecord) : Option SyncPolicy :=
  load m.spec.policies app.spec.syncPolicy

/-- The test of step 3. -/
def UpToDate (app : ObjectRecord) (revision : String) : Prop :=
  app.status.revision = revision ∧ app.status.syncStatus = .synced

/-- The decision of step 4. -/
def ShouldSync (m : Heaps) (app : ObjectRecord) : Prop :=
  (match app.policy m with
    | some policy => policy.automated
    | none => false) = true ∨ app.status.syncStatus = .unset ∨ app.status.syncStatus = .outOfSync

instance (app : ObjectRecord) (revision : String) : Decidable (UpToDate app revision) :=
  inferInstanceAs (Decidable (_ ∧ _))

instance (m : Heaps) (app : ObjectRecord) : Decidable (ShouldSync m app) :=
  inferInstanceAs (Decidable (_ ∨ _ ∨ _))

/-- The `i`-th call of `r.Status().Update(ctx, &app)`, with what the object says then. -/
def update (i : ℕ) (m : Heaps) (app : ObjectRecord) : Effect :=
  env.update i (app.value m).application

/-- `sendNotification`, which reads the object and writes nothing. -/
def notification (m : Heaps) (app : ObjectRecord) (success : Bool) (err : Option String) :
    List Effect :=
  sendNotification env (app.value m).application success err

/-- `Reconcile` once the object is read. -/
def reconcileApp (m : Heaps) (app : ObjectRecord) : Heaps × Reconciliation :=
  -- Step 1: Clone/pull the Git repository.
  match env.cloneOrPull with
  | .error err =>
    let (m, app) := updateStatus grow m app .unknown .unknown "" [] (some err) (env.now 0)
    (m, ⟨[update env 0 m app], .ok { requeueAfter := 30 }⟩)
  | .ok revision =>
  -- Step 2: Parse manifests from the specified path.
  match env.parse with
  | .error err =>
    let (m, app) := updateStatus grow m app .outOfSync .unknown revision [] (some err) (env.now 0)
    (m, ⟨[update env 0 m app], .ok { requeueAfter := 30 }⟩)
  | .ok resources =>
  -- Step 3: Check if sync is needed.
  if UpToDate app revision then
    let (m, healthStatus, resourceStatuses) := check grow m resources
    let app := updateHealthStatus app healthStatus resourceStatuses
    (m, ⟨[update env 0 m app], .ok { requeueAfter := 60 }⟩)
  -- Step 4: Determine if we should sync.
  else if ¬ ShouldSync m app then
    let (m, app) := updateStatus grow m app .outOfSync .unknown revision resources none (env.now 0)
    (m, ⟨[update env 0 m app], .ok { requeueAfter := 30 }⟩)
  else
    -- Step 5: Apply manifests to the target cluster.
    let (m, app) :=
      updateStatus grow m app .syncing .progressing revision resources none (env.now 0)
    let syncing := update env 0 m app
    let (calls, applyErr) := apply env resources (app.policy m)
    let applied := syncing :: .applyStart revision resources :: (calls ++ [.applyEnd applyErr])
    match applyErr with
    | some err =>
      let (m, app) :=
        updateStatus grow m app .outOfSync .degraded revision resources (some err) (env.now 1)
      (m, ⟨applied ++ update env 1 m app :: notification env m app false (some err),
        .ok { requeueAfter := 30 }⟩)
    | none =>
      -- Step 6: Check health of deployed resources.
      let (m, healthStatus, resourceStatuses) := check grow m resources
      -- Step 7: Update status with sync success.
      let (m, app) := recordSync grow m app healthStatus resourceStatuses revision (env.now 1)
      match env.recordErr with
      | some err => (m, ⟨applied ++ [update env 1 m app], .error err⟩)
      | none =>
        (m, ⟨applied ++ update env 1 m app :: notification env m app true none,
          .ok { requeueAfter := 60 }⟩)

/-- `Reconcile`; the pointer is the cached object of the requested name, which `r.Get` copies. -/
def reconcile (m : Heaps) (cached : Option ℕ) : Heaps × Reconciliation :=
  match env.get with
  | some err => (m, ⟨[], .error err⟩)
  | none =>
    match load m.objects cached with
    | none => (m, ⟨[], .ok {}⟩)
    | some object =>
      let (m, app) := object.deepCopyInto m
      reconcileApp grow env m app

end Reconcile

/-! ## The writers in memory do what the writers of values do -/

/-- The working copy owns the value over the base, which is still there. -/
structure Working (base m : Heaps) (app : ObjectRecord) (v : App) : Prop where
  extends_ : base.Extends m
  owned : app.Owned base m v

section Refine

variable (grow : ℕ → ℕ)

/-- The loop writes in place what the search over the rest of the list writes, or it finds none. -/
theorem conditionLoop_window {base h : Heap (List Condition)} {s : Slice}
    {before rest : List Condition} (window : Window base h (some s) (before ++ rest))
    (condType status message : String) (now : Time) :
    (conditionLoop h s condType status message now before.length rest.length = none ∧
      Wardn.updateCondition rest condType status message now =
        rest ++ [{ type := condType, status, message, lastTransitionTime := now }]) ∨
    ∃ h', conditionLoop h s condType status message now before.length rest.length = some h' ∧
      Window base h' (some s)
        (before ++ Wardn.updateCondition rest condType status message now) := by
  induction rest generalizing before with
  | nil => exact .inl ⟨rfl, rfl⟩
  | cons cond rest ih =>
      have here : s.get? h before.length = some cond := by
        rw [Slice.Holds.get? window.reads, List.getElem?_append_right (Nat.le_refl _), Nat.sub_self]
        rfl
      rw [List.length_cons, conditionLoop, here]
      dsimp only
      unfold Wardn.updateCondition
      by_cases found : cond.type = condType
      · rw [if_pos found, if_pos found]
        refine .inr ⟨_, rfl, ?_⟩
        have written := window.set before.length
          { cond with status, message, lastTransitionTime := now }
        rwa [List.set_append_right _ _ (Nat.le_refl _), Nat.sub_self] at written
      · rw [if_neg found, if_neg found]
        have shifted : Window base h (some s) ((before ++ [cond]) ++ rest) := by
          rwa [List.append_assoc]
        have later := ih shifted
        rw [List.length_append, List.append_assoc, List.singleton_append] at later
        rcases later with ⟨missed, appended⟩ | ⟨h', written, after⟩
        · exact .inl ⟨missed, congrArg (cond :: ·) appended⟩
        · exact .inr ⟨h', written, after⟩

/-- The conditions in memory are those of the list, and stay above the base. -/
theorem updateCondition_window {base h : Heap (List Condition)} {conditions : Option Slice}
    {xs : List Condition} (window : Window base h conditions xs)
    (condType status message : String) (now : Time) :
    Window base (updateCondition grow h conditions condType status message now).1
      (updateCondition grow h conditions condType status message now).2
      (Wardn.updateCondition xs condType status message now) := by
  cases conditions with
  | none =>
      obtain rfl : xs = [] := window.reads
      exact window.append grow _
  | some s =>
      have length : s.len = xs.length := (Slice.Holds.length window.reads).symm
      have whole : Window base h (some s) ([] ++ xs) := window
      have loop := conditionLoop_window whole condType status message now
      rw [List.length_nil, ← length, List.nil_append] at loop
      rw [updateCondition]
      rcases loop with ⟨missed, appended⟩ | ⟨h', written, after⟩
      · simp only [missed, appended]
        exact window.append grow _
      · simp only [written]
        exact after

/-- The entries in memory are those of the list, with the same aggregate. -/
theorem checkWith_window {base h : Heap (List ResourceStatus)} (extends_ : base <+: h)
    (assess : Resource → HealthStatus) (resources : List Resource) :
    (checkWith grow assess h resources).2.1 = (Wardn.checkWith assess resources).1 ∧
      Window base (checkWith grow assess h resources).1 (checkWith grow assess h resources).2.2
        (Wardn.checkWith assess resources).2 := by
  have start : Window base h none ([] : List ResourceStatus) := ⟨extends_, nofun, rfl⟩
  refine List.foldl_rel (r := fun (inPlace : Heap (List ResourceStatus) × HealthStatus ×
    Option Slice) (acc : HealthStatus × List ResourceStatus) =>
      inPlace.2.1 = acc.1 ∧ Window base inPlace.1 inPlace.2.2 acc.2) ⟨rfl, start⟩ ?_
  rintro res - ⟨h, aggregate, statuses⟩ ⟨_, xs⟩ ⟨⟨⟩, window⟩
  exact ⟨rfl, window.append grow _⟩

/-- Reslicing drops the first of ten revisions or more. -/
theorem resliced_window {base h : Heap (List String)} {s : Option Slice} {xs : List String}
    (window : Window base h s xs) :
    Window base h (s.map fun s => if s.len ≥ 10 then s.tail else s)
      (if xs.length ≥ 10 then xs.drop 1 else xs) := by
  cases s with
  | none =>
      obtain rfl : xs = [] := window.reads
      exact window
  | some s =>
      have length : xs.length = s.len := Slice.Holds.length window.reads
      rw [Option.map_some, ← length]
      by_cases long : xs.length ≥ 10
      · rw [if_pos long, if_pos long]
        cases xs with
        | nil => exact absurd long (by decide)
        | cons x xs => exact window.tail
      · rw [if_neg long, if_neg long]
        exact window

variable {base m : Heaps} {app : ObjectRecord} {v : App} (working : Working base m app v)

include working

/-- The status written in place is the one that is put together from values. -/
theorem updateStatus_working (sync : SyncStatus) (health : HealthStatus) (revision : String)
    (resources : List Resource) (syncErr : Option String) (now : Time) :
    ∃ w, Working base (updateStatus grow m app sync health revision resources syncErr now).1
        (updateStatus grow m app sync health revision resources syncErr now).2 w ∧
      w.application =
        Wardn.updateStatus v.application sync health revision resources syncErr now := by
  have status := working.owned.status
  have conditions : Window base.status.conditions
      (updateStatus grow m app sync health revision resources syncErr now).1.status.conditions
      (updateStatus grow m app sync health revision resources syncErr now).2.status.conditions
      (Wardn.updateStatus v.application sync health revision resources syncErr
        now).status.conditions := by
    cases syncErr with
    | none => exact updateCondition_window grow status.conditions _ _ _ _
    | some err => exact updateCondition_window grow status.conditions _ _ _ _
  have statuses : Window base.status.resources
      (updateStatus grow m app sync health revision resources syncErr now).1.status.resources
      (updateStatus grow m app sync health revision resources syncErr now).2.status.resources
      (Wardn.updateStatus v.application sync health revision resources syncErr
        now).status.resources := by
    unfold updateStatus Wardn.updateStatus
    dsimp only
    by_cases some : resources ≠ []
    · rw [if_pos some, if_pos some]
      exact window_make status.resources.extends_ _
    · rw [if_neg some, if_neg some]
      exact status.resources
  refine ⟨{ v with
    status := (Wardn.updateStatus v.application sync health revision resources syncErr
      now).status }, ⟨?_, working.owned.name, working.owned.spec, ?_⟩, rfl⟩
  · exact { working.extends_ with
      status := { working.extends_.status with
        resources := statuses.extends_, conditions := conditions.extends_ } }
  · exact { status with
      syncStatus := rfl, healthStatus := rfl, revision := rfl, resources := statuses,
      conditions := conditions }

/-- A check leaves the object as it is; its entries lie above the base. -/
theorem check_working (resources : List Resource) :
    (check grow m resources).2.1 = (Wardn.check resources).1 ∧
      Working base (check grow m resources).1 app v ∧
      Window base.status.resources (check grow m resources).1.status.resources
        (check grow m resources).2.2 (Wardn.check resources).2 := by
  obtain ⟨same, window⟩ := checkWith_window grow (List.prefix_refl m.status.resources)
    (fun _ => .healthy) resources
  have grown : m.Extends (check grow m resources).1 :=
    { Heaps.Extends.refl m with
      status := { StatusHeaps.Extends.refl m.status with resources := window.extends_ } }
  have above := checkWith_window grow working.extends_.status.resources (fun _ => .healthy)
    resources
  exact ⟨same, ⟨working.extends_.trans grown, working.owned.extend grown⟩, above.2⟩

theorem updateHealthStatus_working {statuses : Option Slice} {xs : List ResourceStatus}
    (window : Window base.status.resources m.status.resources statuses xs)
    (health : HealthStatus) :
    ∃ w, Working base m (updateHealthStatus app health statuses) w ∧
      w.application = Wardn.updateHealthStatus v.application health xs :=
  ⟨{ v with status := (Wardn.updateHealthStatus v.application health xs).status },
    ⟨working.extends_, working.owned.name, working.owned.spec,
      { working.owned.status with healthStatus := rfl, resources := window }⟩, rfl⟩

/-- The record of a sync written in place is that of values. -/
theorem recordSync_working {statuses : Option Slice} {xs : List ResourceStatus}
    (window : Window base.status.resources m.status.resources statuses xs)
    (health : HealthStatus) (revision : String) (now : Time) :
    ∃ w, Working base (recordSync grow m app health statuses revision now).1
        (recordSync grow m app health statuses revision now).2 w ∧
      w.application = Wardn.recordSync v.application health xs revision now := by
  have status := working.owned.status
  have time := cell_alloc working.extends_.status.times now
  have resliced := resliced_window status.previousRevisions
  have revisions : Window base.status.revisions
      (recordSync grow m app health statuses revision now).1.status.revisions
      (recordSync grow m app health statuses revision now).2.status.previousRevisions
      (Wardn.recordSync v.application health xs revision now).status.previousRevisions := by
    have same : app.status.revision = v.application.status.revision := status.revision
    unfold recordSync Wardn.recordSync
    rw [same]
    dsimp only
    by_cases moved : v.application.status.revision ≠ "" ∧ v.application.status.revision ≠ revision
    · rw [if_pos moved, if_pos moved]
      exact resliced.append grow _
    · rw [if_neg moved, if_neg moved]
      exact resliced
  refine ⟨{ v with status := (Wardn.recordSync v.application health xs revision now).status },
    ⟨?_, working.owned.name, working.owned.spec, ?_⟩, rfl⟩
  · exact { working.extends_ with
      status := { working.extends_.status with
        times := time.extends_, revisions := revisions.extends_ } }
  · exact { status with
      syncStatus := rfl, healthStatus := rfl, revision := rfl, lastSyncAt := time,
      previousRevisions := revisions, resources := window }

end Refine

/-! ## The reconcile in memory does what the reconcile of values does -/

section Agree

variable {base m : Heaps} {app : ObjectRecord} {v : App} (working : Working base m app v)

include working

theorem update_eq (env : Outcomes) (i : ℕ) : update env i m app = env.update i v.application := by
  rw [update, working.owned.value_eq]

/-- The messages are those of the value. -/
theorem notification_eq (env : Outcomes) (success : Bool) (err : Option String) :
    notification env m app success err = sendNotification env v.application success err := by
  rw [notification, working.owned.value_eq]

theorem policy_eq : app.policy m = v.application.spec.syncPolicy :=
  working.owned.spec.syncPolicy.loads.load_eq

theorem upToDate_iff (revision : String) :
    UpToDate app revision ↔ Wardn.UpToDate v.application revision := by
  rw [UpToDate, working.owned.status.revision, working.owned.status.syncStatus]
  exact Iff.rfl

theorem shouldSync_iff : ShouldSync m app ↔ Wardn.ShouldSync v.application := by
  rw [ShouldSync, policy_eq working, working.owned.status.syncStatus]
  exact Iff.rfl

/-- The same calls and the same result, and the base is still there. -/
theorem reconcileApp_working (grow : ℕ → ℕ) (env : Outcomes) :
    (reconcileApp grow env m app).2 = Wardn.reconcileApp env v.application ∧
      base.Extends (reconcileApp grow env m app).1 := by
  unfold reconcileApp Wardn.reconcileApp
  cases clone : env.cloneOrPull with
  | error err =>
      obtain ⟨w, unknown, same⟩ := updateStatus_working grow working .unknown .unknown "" []
        (some err) (env.now 0)
      dsimp only
      rw [update_eq unknown, same]
      exact ⟨rfl, unknown.extends_⟩
  | ok revision =>
      cases parse : env.parse with
      | error err =>
          obtain ⟨w, unparsed, same⟩ := updateStatus_working grow working .outOfSync .unknown
            revision [] (some err) (env.now 0)
          dsimp only
          rw [update_eq unparsed, same]
          exact ⟨rfl, unparsed.extends_⟩
      | ok resources =>
          have upToDate := upToDate_iff working revision
          have shouldSync := shouldSync_iff working
          dsimp only
          by_cases current : Wardn.UpToDate v.application revision
          · rw [if_pos (upToDate.mpr current), if_pos current]
            obtain ⟨aggregate, checked, window⟩ := check_working grow working resources
            obtain ⟨w, rechecked, same⟩ := updateHealthStatus_working checked window
              (check grow m resources).2.1
            rw [update_eq rechecked, same, aggregate]
            exact ⟨rfl, rechecked.extends_⟩
          · rw [if_neg fun same => current (upToDate.mp same), if_neg current]
            by_cases sync : Wardn.ShouldSync v.application
            · rw [if_neg fun held => held (shouldSync.mpr sync), if_neg fun held => held sync]
              obtain ⟨w, syncing, same⟩ := updateStatus_working grow working .syncing .progressing
                revision resources none (env.now 0)
              rw [update_eq syncing, policy_eq syncing, ← same]
              -- From here on the working copy is the one with the `Syncing` status.
              clear same shouldSync upToDate working
              generalize updateStatus grow m app .syncing .progressing revision resources none
                (env.now 0) = pair at syncing ⊢
              obtain ⟨m, app⟩ := pair
              rcases apply env resources w.application.spec.syncPolicy with ⟨calls, _ | err⟩
              · obtain ⟨aggregate, checked, window⟩ := check_working grow syncing resources
                obtain ⟨w', synced, same⟩ := recordSync_working grow checked window
                  (check grow m resources).2.1 revision (env.now 1)
                cases write : env.recordErr with
                | some err =>
                    dsimp only
                    rw [update_eq synced, same, aggregate]
                    exact ⟨rfl, synced.extends_⟩
                | none =>
                    dsimp only
                    rw [update_eq synced, notification_eq synced, same, aggregate]
                    exact ⟨rfl, synced.extends_⟩
              · obtain ⟨w', degraded, same⟩ := updateStatus_working grow syncing .outOfSync
                  .degraded revision resources (some err) (env.now 1)
                dsimp only
                rw [update_eq degraded, notification_eq degraded, same]
                exact ⟨rfl, degraded.extends_⟩
            · rw [if_pos fun automated => sync (shouldSync.mp automated), if_pos sync]
              obtain ⟨w, held, same⟩ := updateStatus_working grow working .outOfSync .unknown
                revision resources none (env.now 0)
              rw [update_eq held, same]
              exact ⟨rfl, held.extends_⟩

end Agree

/-- The calls and the result are those of the reconcile of values, and whatever could be read
before, the cached object with all the others, reads the same afterwards. -/
theorem reconcile_refines (grow : ℕ → ℕ) (env : Outcomes) (m : Heaps) {cached : Option ℕ}
    {v : Option App} (points : Points m.objects (ObjectRecord.Shows m) cached v) :
    (reconcile grow env m cached).2 = Wardn.reconcile env (v.map App.application) ∧
      ∀ {p : Option ℕ} {u : Option App}, Points m.objects (ObjectRecord.Shows m) p u →
        Points (reconcile grow env m cached).1.objects
          (ObjectRecord.Shows (reconcile grow env m cached).1) p u := by
  have refined : (reconcile grow env m cached).2 = Wardn.reconcile env (v.map App.application) ∧
      m.Extends (reconcile grow env m cached).1 := by
    unfold reconcile Wardn.reconcile
    cases got : env.get with
    | some err => exact ⟨rfl, Heaps.Extends.refl m⟩
    | none =>
        cases v with
        | none =>
            obtain rfl : cached = none := points
            exact ⟨rfl, Heaps.Extends.refl m⟩
        | some v =>
            obtain ⟨addr, r, rfl, here, shows_⟩ := points
            have loaded : load m.objects (some addr) = some r := here
            obtain ⟨grown, owned⟩ := ObjectRecord.deepCopyInto_owned (Heaps.Extends.refl m) shows_
            rw [loaded]
            exact reconcileApp_working ⟨grown, owned⟩ grow env
  obtain ⟨same, grown⟩ := refined
  exact ⟨same, fun shown => shown.extend grown.objects fun _ _ => ObjectRecord.Shows.extend grown⟩

/-- The branch has moved on: the copy is synced, and the cached object is still what it was. -/
theorem reconcile_refines_moved :
    (reconcile (fun _ => 0) (Outcomes.succeeding "r2" [] 9) cachedHeaps (some 0)).2 =
        Wardn.reconcile (Outcomes.succeeding "r2" [] 9) (some cachedApp.application) ∧
      Points
        (reconcile (fun _ => 0) (Outcomes.succeeding "r2" [] 9) cachedHeaps (some 0)).1.objects
        (ObjectRecord.Shows
          (reconcile (fun _ => 0) (Outcomes.succeeding "r2" [] 9) cachedHeaps (some 0)).1)
        (some 0) (some cachedApp) := by
  have points : Points cachedHeaps.objects (ObjectRecord.Shows cachedHeaps) (some 0)
      (some cachedApp) := ⟨0, _, rfl, rfl, cachedRecord_shows⟩
  obtain ⟨same, kept⟩ :=
    reconcile_refines (fun _ => 0) (Outcomes.succeeding "r2" [] 9) cachedHeaps points
  exact ⟨same, kept points⟩

end Wardn.Memory
