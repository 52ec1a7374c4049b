import Wardn.World

/-!
# Which submitted statuses the API server admits

A status is put together by three writers.  `updateStatus` adds a condition without a reason
when there is none of its type, and keeps the resource entries it finds when the manifests are
empty; `updateHealthStatus` and step 7 take the entries of the health checker, which carry no
sync status.  `Admits` is the condition on the object and the outcomes under which a reconcile
submits admissible statuses only (`submits_admissible_iff`); a fresh object never meets it
(`fresh_not_admits`).
-/

namespace Wardn

open Runs

/-- Every condition has a reason. -/
def Reasoned (conditions : List Condition) : Prop :=
  ∀ cond ∈ conditions, cond.reason ≠ ""

/-- A condition `SyncError` is there. -/
def HasSyncError (conditions : List Condition) : Prop :=
  ∃ cond ∈ conditions, cond.type = "SyncError"

/-- Every entry carries both of its statuses. -/
def Complete (resources : List ResourceStatus) : Prop :=
  ∀ rs ∈ resources, rs.Admissible

/-- The object and the outcomes under which a reconcile submits admissible statuses only. -/
def Admits (env : Outcomes) (app : GitApplication) : Prop :=
  env.get = none →
    Reasoned app.status.conditions ∧
      match env.cloneOrPull, env.parse with
      | .error _, _ => HasSyncError app.status.conditions ∧ Complete app.status.resources
      | .ok _, .error _ => HasSyncError app.status.conditions ∧ Complete app.status.resources
      | .ok revision, .ok resources =>
        if UpToDate app revision then resources = []
        else
          HasSyncError app.status.conditions ∧
            (resources = [] → Complete app.status.resources) ∧
            (ShouldSync app → (apply env resources app.spec.syncPolicy).2 = none → resources = [])

/-! ## The writers -/

/-- An updated list has its reasons when it had them and the condition was there to update. -/
theorem reasoned_updateCondition (conditions : List Condition) (status message : String)
    (now : Time) :
    Reasoned (updateCondition conditions "SyncError" status message now) ↔
      Reasoned conditions ∧ HasSyncError conditions := by
  induction conditions with
  | nil => simp [updateCondition, Reasoned, HasSyncError]
  | cons cond conditions ih =>
      unfold updateCondition
      by_cases found : cond.type = "SyncError"
      · simp [found, Reasoned, HasSyncError]
      · have rest : Reasoned (cond :: updateCondition conditions "SyncError" status message now) ↔
            cond.reason ≠ "" ∧
              Reasoned (updateCondition conditions "SyncError" status message now) :=
          List.forall_mem_cons
        rw [if_neg found, rest, ih]
        simp [Reasoned, HasSyncError, found, and_assoc]

theorem hasSyncError_updateCondition (conditions : List Condition) (status message : String)
    (now : Time) : HasSyncError (updateCondition conditions "SyncError" status message now) := by
  obtain ⟨cond, found, -⟩ := find_updateCondition conditions "SyncError" status message now
  exact ⟨cond, List.mem_of_find?_eq_some found, by simpa using List.find?_some found⟩

theorem admissible_iff_reasoned (status : GitApplicationStatus) :
    status.Admissible ↔ Complete status.resources ∧ Reasoned status.conditions :=
  status.admissible_iff

/-- `updateStatus` with a declared pair of statuses completes the entries it writes. -/
theorem complete_updateStatus (app : GitApplication) {sync : SyncStatus} {health : HealthStatus}
    (declared : sync ≠ .unset ∧ health ≠ .unset) (revision : String) (resources : List Resource)
    (syncErr : Option String) (now : Time) :
    Complete (updateStatus app sync health revision resources syncErr now).status.resources ↔
      (resources = [] → Complete app.status.resources) := by
  by_cases empty : resources = []
  · simp [updateStatus, empty]
  · have entries : Complete (resources.map fun res =>
        { kind := res.kind, name := res.name, nameSpace := res.nameSpace,
          syncStatus := sync, healthStatus := health }) := by
      intro rs member
      obtain ⟨res, -, rfl⟩ := List.mem_map.mp member
      exact ⟨(SyncStatus.declared_iff _).mpr declared.1,
        (HealthStatus.declared_iff _).mpr declared.2⟩
    simp [updateStatus, empty, entries]

/-- When `updateStatus` submits an admissible status. -/
theorem admissible_updateStatus (app : GitApplication) {sync : SyncStatus} {health : HealthStatus}
    (declared : sync ≠ .unset ∧ health ≠ .unset) (revision : String) (resources : List Resource)
    (syncErr : Option String) (now : Time) :
    (updateStatus app sync health revision resources syncErr now).status.Admissible ↔
      Reasoned app.status.conditions ∧ HasSyncError app.status.conditions ∧
        (resources = [] → Complete app.status.resources) := by
  rw [admissible_iff_reasoned, updateStatus_conditions, complete_updateStatus app declared,
    reasoned_updateCondition]
  tauto

/-- The entries of the health checker lack a sync status. -/
theorem complete_checked (resources : List Resource) :
    Complete (resources.map checkedStatus) ↔ resources = [] := by
  cases resources with
  | nil => simp [Complete]
  | cons res resources =>
      have incomplete : ¬ Complete ((res :: resources).map checkedStatus) := by
        intro complete
        have first := (complete (checkedStatus res) (by simp)).sync
        exact (SyncStatus.declared_iff _).mp first rfl
      simpa using incomplete

theorem admissible_recheckedApp (app : GitApplication) (resources : List Resource) :
    (recheckedApp app resources).status.Admissible ↔
      Reasoned app.status.conditions ∧ resources = [] := by
  rw [admissible_iff_reasoned, ← complete_checked, and_comm]
  rfl

theorem admissible_syncedApp (env : Outcomes) (app : GitApplication) (revision : String)
    (resources : List Resource) :
    (env.syncedApp app revision resources).status.Admissible ↔
      Reasoned app.status.conditions ∧ HasSyncError app.status.conditions ∧ resources = [] := by
  rw [admissible_iff_reasoned, ← and_assoc, ← complete_checked,
    ← reasoned_updateCondition app.status.conditions "False" "" (env.now 0), and_comm]
  rfl

/-- When the submission behind a failed apply is admissible. -/
theorem admissible_degradedApp (env : Outcomes) (app : GitApplication) (revision err : String)
    (resources : List Resource) :
    (env.degradedApp app revision resources err).status.Admissible ↔
      Reasoned app.status.conditions ∧ HasSyncError app.status.conditions ∧
        (resources = [] → Complete app.status.resources) := by
  rw [admissible_updateStatus _ (by simp), complete_updateStatus _ (by simp)]
  have conditions : (env.syncingApp app revision resources).status.conditions =
      updateCondition app.status.conditions "SyncError" "False" "" (env.now 0) := rfl
  rw [conditions, reasoned_updateCondition]
  have there := hasSyncError_updateCondition app.status.conditions "False" "" (env.now 0)
  tauto

/-! ## A reconcile, and every run -/

/-- Every status that the reconcile passes to `r.Status().Update` is admissible. -/
def SubmitsAdmissible (env : Outcomes) (app : GitApplication) : Prop :=
  ∀ status, Submits env app status → status.Admissible

/-- Admissible submissions meet the condition of their case. -/
theorem admits_of_submitsAdmissible {env : Outcomes} {app : GitApplication}
    (all : SubmitsAdmissible env app) : Admits env app := by
  intro get
  have admissible : ∀ {status}, Submission env app status → status.Admissible :=
    fun submission => all _ ((submits_iff env app _).mpr ⟨get, submission⟩)
  cases clone : env.cloneOrPull with
  | error err =>
      obtain ⟨reasoned, there, complete⟩ :=
        (admissible_updateStatus app (by simp) "" [] _ _).mp (admissible (.unknown clone))
      exact ⟨reasoned, there, complete rfl⟩
  | ok revision =>
      cases parse : env.parse with
      | error err =>
          obtain ⟨reasoned, there, complete⟩ :=
            (admissible_updateStatus app (by simp) revision [] _ _).mp
              (admissible (.unparsed clone parse))
          exact ⟨reasoned, there, complete rfl⟩
      | ok resources =>
          by_cases same : UpToDate app revision
          · simp only [same, if_true]
            exact (admissible_recheckedApp app resources).mp
              (admissible (.rechecked clone parse same))
          · simp only [same, if_false]
            by_cases sync : ShouldSync app
            · obtain ⟨reasoned, there, complete⟩ :=
                (admissible_updateStatus app (by simp) revision resources _ _).mp
                  (admissible (.syncing clone parse same sync))
              refine ⟨reasoned, there, complete, fun _ applied => ?_⟩
              exact ((admissible_syncedApp env app revision resources).mp
                (admissible (.synced clone parse same sync applied))).2.2
            · obtain ⟨reasoned, there, complete⟩ :=
                (admissible_updateStatus app (by simp) revision resources _ _).mp
                  (admissible (.held clone parse same sync))
              exact ⟨reasoned, there, complete, fun sync' => absurd sync' sync⟩

/-- Under the condition of its case every submission is admissible. -/
theorem admissible_of_admits {env : Outcomes} {app : GitApplication} (admits : Admits env app)
    {status : GitApplicationStatus} (get : env.get = none)
    (submission : Submission env app status) :
    status.Admissible := by
  have admitted := admits get
  cases submission with
  | unknown clone =>
      simp only [clone] at admitted
      obtain ⟨reasoned, there, complete⟩ := admitted
      exact (admissible_updateStatus app (by simp) _ _ _ _).mpr ⟨reasoned, there, fun _ => complete⟩
  | unparsed clone parse =>
      simp only [clone, parse] at admitted
      obtain ⟨reasoned, there, complete⟩ := admitted
      exact (admissible_updateStatus app (by simp) _ _ _ _).mpr ⟨reasoned, there, fun _ => complete⟩
  | rechecked clone parse same =>
      simp only [clone, parse, same, if_true] at admitted
      exact (admissible_recheckedApp app _).mpr admitted
  | held clone parse moved held =>
      simp only [clone, parse, moved, if_false] at admitted
      obtain ⟨reasoned, there, complete, -⟩ := admitted
      exact (admissible_updateStatus app (by simp) _ _ _ _).mpr ⟨reasoned, there, complete⟩
  | syncing clone parse moved sync =>
      simp only [clone, parse, moved, if_false] at admitted
      obtain ⟨reasoned, there, complete, -⟩ := admitted
      exact (admissible_updateStatus app (by simp) _ _ _ _).mpr ⟨reasoned, there, complete⟩
  | degraded clone parse moved sync failed =>
      simp only [clone, parse, moved, if_false] at admitted
      obtain ⟨reasoned, there, complete, -⟩ := admitted
      exact (admissible_degradedApp env app _ _ _).mpr ⟨reasoned, there, complete⟩
  | synced clone parse moved sync applied =>
      simp only [clone, parse, moved, if_false] at admitted
      obtain ⟨reasoned, there, -, empty⟩ := admitted
      exact (admissible_syncedApp env app _ _).mpr ⟨reasoned, there, empty sync applied⟩

theorem submitsAdmissible_iff (env : Outcomes) (app : GitApplication) :
    SubmitsAdmissible env app ↔ Admits env app := by
  refine ⟨admits_of_submitsAdmissible, fun admits status submits => ?_⟩
  obtain ⟨get, submission⟩ := (submits_iff env app status).mp submits
  exact admissible_of_admits admits get submission

/-- A fresh object has no condition to update: its first reconcile submits one without a reason. -/
theorem fresh_not_admits (name : String) (spec : GitApplicationSpec) {env : Outcomes}
    (get : env.get = none) : ¬ Admits env (World.created name spec).app := by
  intro admits
  obtain ⟨reasoned, admitted⟩ := admits get
  have absent : ¬ HasSyncError (World.created name spec).app.status.conditions := by
    simp [HasSyncError, World.created]
  cases clone : env.cloneOrPull with
  | error err =>
      simp only [clone] at admitted
      exact absent admitted.1
  | ok revision =>
      cases parse : env.parse with
      | error err =>
          simp only [clone, parse] at admitted
          exact absent admitted.1
      | ok resources =>
          have moved : ¬ UpToDate (World.created name spec).app revision := fun same => by
            cases same.2
          simp only [clone, parse, moved, if_false] at admitted
          exact absent admitted.1

/-- **Admission.**  In every run of reconciles, from any stored object and with any outcomes, all
submitted statuses are admissible exactly when each reconcile meets `Admits`. -/
theorem submits_admissible_iff (w : World) (envs : List Outcomes) :
    Along World.reconciled (fun w env => SubmitsAdmissible env w.app) w envs ↔
      Along World.reconciled (fun w env => Admits env w.app) w envs :=
  along_congr (I := fun _ => True) (fun w env _ => submitsAdmissible_iff env w.app)
    (fun _ _ _ _ => trivial) trivial envs

/-- The very first status of an application with one pod. -/
theorem first_status_not_admissible :
    ¬ SubmitsAdmissible (.succeeding "v1" [{ kind := "Pod", name := "web" }] 0)
      (World.created "guestbook" {}).app := by
  rw [submitsAdmissible_iff]
  exact fresh_not_admits "guestbook" {} rfl

end Wardn
