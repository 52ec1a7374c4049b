import Wardn.World

/-!
# What a status update keeps and mirrors

`updateStatus` serves the failure and the progress paths of `Reconcile` with different arguments:
an empty revision after a failed clone, no resources after a failed clone or parse.  This module
compares each status a reconcile submits with the one it read (`last_sync_kept_iff`) and with the
manifests it parsed (`resources_mirrored_iff`).
-/

namespace Wardn

/-! ## What a failed clone or parse leaves -/

/-- The record of the last sync: all of the status but `SyncStatus`, `HealthStatus` and the
condition of type `SyncError`. -/
structure KeepsLastSync (old new : GitApplicationStatus) : Prop where
  revision : new.revision = old.revision
  previousRevisions : new.previousRevisions = old.previousRevisions
  lastSyncAt : new.lastSyncAt = old.lastSyncAt
  resources : new.resources = old.resources
  conditions : new.conditions.filter (fun cond => cond.type ≠ "SyncError") =
    old.conditions.filter (fun cond => cond.type ≠ "SyncError")

theorem filter_updateCondition (conditions : List Condition) (condType status message : String)
    (now : Time) :
    (updateCondition conditions condType status message now).filter
        (fun cond => cond.type ≠ condType) =
      conditions.filter (fun cond => cond.type ≠ condType) := by
  induction conditions with
  | nil => simp [updateCondition]
  | cons cond conditions ih =>
      unfold updateCondition
      split
      next found => simp [found]
      next other => rw [List.filter_cons, List.filter_cons, ih]

/-- Without resources, `updateStatus` keeps all of the record but the revision. -/
theorem keepsLastSync_updateStatus_iff (app : GitApplication) (sync : SyncStatus)
    (health : HealthStatus) (revision : String) (syncErr : Option String) (now : Time) :
    KeepsLastSync app.status (updateStatus app sync health revision [] syncErr now).status ↔
      app.status.revision = revision := by
  refine ⟨fun kept => kept.revision.symm, fun same => ?_⟩
  refine ⟨same.symm, rfl, rfl, rfl, ?_⟩
  rw [updateStatus_conditions]
  exact filter_updateCondition ..

/-- The reconcile fails in `CloneOrPull` or in `Parse`; the revision is the one `CloneOrPull` has
returned, which is empty when it failed. -/
inductive Outcomes.FailsAt (env : Outcomes) : String → Prop
  | clone {err : String} (clone : env.cloneOrPull = .error err) : FailsAt env ""
  | parse {revision err : String} (clone : env.cloneOrPull = .ok revision)
    (parse : env.parse = .error err) : FailsAt env revision

/-- A reconcile that makes no other call than one update. -/
theorem submits_iff_of_single {env : Outcomes} {app app' : GitApplication} (get : env.get = none)
    (single : (reconcileApp env app).effects = [env.update 0 app'])
    (status : GitApplicationStatus) :
    Submits env app status ↔ status = app'.status := by
  simp [Submits, reconcile, get, single, Outcomes.update]

/-- Such a reconcile submits one status, with that revision and without resources. -/
theorem Outcomes.FailsAt.submits_iff {env : Outcomes} {revision : String}
    (fails : env.FailsAt revision) (get : env.get = none) (app : GitApplication) :
    ∃ sync err, ∀ status, Submits env app status ↔
      status = (updateStatus app sync .unknown revision [] (some err) (env.now 0)).status := by
  cases fails with
  | @clone err clone =>
      refine ⟨.unknown, err, submits_iff_of_single get ?_⟩
      rw [← (Passage.cloneFailed clone).eq_reconcileApp]
  | @parse revision err clone parse =>
      refine ⟨.outOfSync, err, submits_iff_of_single get ?_⟩
      rw [← (Passage.parseFailed clone parse).eq_reconcileApp]

/-- **A failed clone or parse** keeps the record of the last sync exactly when the revision it
writes is the recorded one. -/
theorem last_sync_kept_iff {env : Outcomes} {revision : String} (app : GitApplication)
    (get : env.get = none) (fails : env.FailsAt revision) :
    (∀ status, Submits env app status → KeepsLastSync app.status status) ↔
      app.status.revision = revision := by
  obtain ⟨sync, err, submits⟩ := fails.submits_iff get app
  rw [← keepsLastSync_updateStatus_iff app sync .unknown revision (some err) (env.now 0)]
  refine ⟨fun kept => kept _ ((submits _).mpr rfl), fun kept status submitted => ?_⟩
  rw [(submits status).mp submitted]
  exact kept

/-- The checked out commit has a file that cannot be read. -/
theorem last_sync_kept_of_parse_error :
    let env : Outcomes :=
      { cloneOrPull := .ok "5e1f", parse := .error "permission denied", now := fun _ => 7 }
    let app : GitApplication :=
      { status := { syncStatus := .synced, revision := "5e1f", previousRevisions := ["31aa"],
                    lastSyncAt := some 3,
                    resources := [{ kind := "Pod", name := "web", nameSpace := "" }],
                    conditions := [⟨"SyncError", "False", "SyncError", "", 3⟩] } }
    env.FailsAt "5e1f" ∧
      ∀ status, Submits env app status → KeepsLastSync app.status status := by
  intro env app
  have fails : env.FailsAt "5e1f" := .parse rfl rfl
  exact ⟨fails, (last_sync_kept_iff app rfl fails).mpr rfl⟩

/-- A fetch that fails once erases the revision of a synced application. -/
theorem last_sync_erased :
    ∃ (env : Outcomes) (app : GitApplication) (status : GitApplicationStatus),
      env.FailsAt "" ∧ Submits env app status ∧ ¬ KeepsLastSync app.status status := by
  let env : Outcomes :=
    { cloneOrPull := .error "failed to fetch", parse := .ok [], now := fun _ => 0 }
  let app : GitApplication := { status := { syncStatus := .synced, revision := "5e1f" } }
  refine ⟨env, app, (env.unknownApp app "failed to fetch").status, .clone rfl, ?_, fun kept => ?_⟩
  · exact ⟨none, List.mem_singleton_self _⟩
  · exact absurd kept.revision (by decide)

/-! ## The resource list

`updateStatus` and the health checker fill it, each from the parsed resources, but `updateStatus`
keeps the stored list when there are none. -/

/-- The resource that an entry is about. -/
def ResourceStatus.identity (rs : ResourceStatus) : String × String × String :=
  (rs.kind, rs.name, rs.nameSpace)

/-- Kind, name and namespace. -/
def Resource.identity (res : Resource) : String × String × String :=
  (res.kind, res.name, res.nameSpace)

/-- The entries of the list are those of the resources, in order. -/
def Mirrors (status : GitApplicationStatus) (resources : List Resource) : Prop :=
  status.resources.map ResourceStatus.identity = resources.map Resource.identity

instance (status : GitApplicationStatus) (resources : List Resource) :
    Decidable (Mirrors status resources) :=
  inferInstanceAs (Decidable (_ = _))

theorem mirrors_of_map {status : GitApplicationStatus} {resources : List Resource}
    {entry : Resource → ResourceStatus} (filled : status.resources = resources.map entry)
    (same : ∀ res, (entry res).identity = res.identity) : Mirrors status resources := by
  rw [Mirrors, filled, List.map_map]
  exact List.map_congr_left fun res _ => same res

/-- What the health checker reports mirrors the resources it was given. -/
theorem mirrors_checked {status : GitApplicationStatus} {resources : List Resource}
    (checked : status.resources = resources.map checkedStatus) : Mirrors status resources :=
  mirrors_of_map checked fun _ => rfl

theorem mirrors_updateStatus_iff (app : GitApplication) (sync : SyncStatus)
    (health : HealthStatus) (revision : String) (resources : List Resource)
    (syncErr : Option String) (now : Time) :
    Mirrors (updateStatus app sync health revision resources syncErr now).status resources ↔
      resources ≠ [] ∨ app.status.resources = [] := by
  by_cases none : resources = []
  · subst none
    simp [Mirrors, updateStatus]
  · refine iff_of_true (mirrors_of_map (if_pos none) fun _ => rfl) (.inl none)

/-- A status behind a successful parse mirrors it, when the list is filled on the paths that go
on. -/
theorem Submission.mirrors {env : Outcomes} {app : GitApplication} {status : GitApplicationStatus}
    {revision : String} {resources : List Resource} (submission : Submission env app status)
    (clone : env.cloneOrPull = .ok revision) (parse : env.parse = .ok resources)
    (filled : ¬ UpToDate app revision → resources ≠ [] ∨ app.status.resources = []) :
    Mirrors status resources := by
  cases submission with
  | unknown clone' => cases clone.symm.trans clone'
  | unparsed clone' parse' => cases parse.symm.trans parse'
  | rechecked clone' parse' same =>
      cases parse.symm.trans parse'
      exact mirrors_checked rfl
  | held clone' parse' moved held =>
      cases clone.symm.trans clone'
      cases parse.symm.trans parse'
      exact (mirrors_updateStatus_iff ..).mpr (filled moved)
  | syncing clone' parse' moved sync =>
      cases clone.symm.trans clone'
      cases parse.symm.trans parse'
      exact (mirrors_updateStatus_iff ..).mpr (filled moved)
  | degraded clone' parse' moved sync failed =>
      cases clone.symm.trans clone'
      cases parse.symm.trans parse'
      refine (mirrors_updateStatus_iff ..).mpr ?_
      rcases filled moved with some | none
      · exact .inl some
      · by_cases empty : resources = []
        · subst empty
          exact .inr none
        · exact .inl empty
  | synced clone' parse' moved sync applied =>
      cases parse.symm.trans parse'
      exact mirrors_checked rfl

/-- **The resource list** of every status behind a successful parse mirrors the manifests exactly
when there are some, or no entry is stored, or only the health is checked. -/
theorem resources_mirrored_iff {env : Outcomes} {revision : String} {resources : List Resource}
    (app : GitApplication) (get : env.get = none) (clone : env.cloneOrPull = .ok revision)
    (parse : env.parse = .ok resources) :
    (∀ status, Submits env app status → Mirrors status resources) ↔
      resources ≠ [] ∨ app.status.resources = [] ∨ UpToDate app revision := by
  refine ⟨fun mirrored => ?_, fun condition status submits => ?_⟩
  · by_cases same : UpToDate app revision
    · exact .inr (.inr same)
    · rw [← or_assoc]
      left
      -- the first status of a reconcile that goes on is put together by `updateStatus`
      by_cases sync : ShouldSync app
      · have first := mirrored _ ((submits_iff ..).mpr ⟨get, .syncing clone parse same sync⟩)
        exact (mirrors_updateStatus_iff ..).mp first
      · have first := mirrored _ ((submits_iff ..).mpr ⟨get, .held clone parse same sync⟩)
        exact (mirrors_updateStatus_iff ..).mp first
  · have submission := ((submits_iff ..).mp submits).2
    exact submission.mirrors clone parse fun moved => by simpa [moved] using condition

/-- A new revision replaces one of the two manifests that are listed. -/
theorem resources_mirrored_of_replaced :
    let manifests : List Resource :=
      [{ kind := "Service", name := "web" }, { kind := "Deployment", name := "web" }]
    let env := Outcomes.succeeding "77ac" manifests 3
    let app : GitApplication :=
      { status := { syncStatus := .synced, revision := "5e1f",
                    resources := [{ kind := "Pod", name := "web", nameSpace := "" },
                      { kind := "Service", name := "web", nameSpace := "" }] } }
    env.parse = .ok manifests ∧
      ∀ status, Submits env app status → Mirrors status manifests := by
  intro manifests env app
  exact ⟨rfl, (resources_mirrored_iff app rfl rfl rfl).mpr (.inl (List.cons_ne_nil _ _))⟩

/-- The manifests are gone from the repository, and the application is held back with the old
list. -/
theorem resources_kept_without_manifests :
    ∃ (env : Outcomes) (app : GitApplication) (status : GitApplicationStatus),
      env.parse = .ok [] ∧ Submits env app status ∧ ¬ Mirrors status [] := by
  let env := Outcomes.succeeding "77ac" [] 5
  let app : GitApplication :=
    { status := { syncStatus := .synced, revision := "5e1f",
                  resources := [{ kind := "Pod", name := "web", nameSpace := "" }] } }
  refine ⟨env, app, (env.heldApp app "77ac" []).status, rfl, ?_, by decide⟩
  exact (submits_iff ..).mpr ⟨rfl, .held rfl rfl (by decide) (by decide)⟩

end Wardn
