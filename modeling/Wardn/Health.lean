import Wardn.Effect

/-!
# The health checker

`internal/health/checker.go`: one entry per resource and a running aggregate.  The
assessment of a single resource is a placeholder in the source, which sets `Healthy`;
`checkWith` is the loop for any assessment.
-/

namespace Wardn

/-- The running aggregate of the loop after one more value. -/
def aggregate (current value : HealthStatus) : HealthStatus :=
  if value = .degraded then .degraded
  else if value = .progressing ∧ current ≠ .degraded then .progressing
  else current

/-- The loop body of `Checker.Check` for a resource and its health. -/
def checkStep (acc : HealthStatus × List ResourceStatus) (assessed : Resource × HealthStatus) :
    HealthStatus × List ResourceStatus :=
  let (res, health) := assessed
  let rs : ResourceStatus :=
    { kind := res.kind, name := res.name, nameSpace := res.nameSpace, healthStatus := health }
  (aggregate acc.1 rs.healthStatus, acc.2 ++ [rs])

/-- The loop of `Checker.Check`; the assessment of a resource is a parameter. -/
def checkWith (assess : Resource → HealthStatus) (resources : List Resource) :
    HealthStatus × List ResourceStatus :=
  resources.foldl (fun acc res => checkStep acc (res, assess res)) (.healthy, [])

/-- `Checker.Check`. -/
def check (resources : List Resource) : HealthStatus × List ResourceStatus :=
  checkWith (fun _ => .healthy) resources

/-- The entry the checker writes for a resource. -/
def checkedStatus (res : Resource) : ResourceStatus :=
  { kind := res.kind, name := res.name, nameSpace := res.nameSpace, healthStatus := .healthy }

/-- Every resource gets its entry, and the aggregate stays where it starts. -/
theorem check_eq (resources : List Resource) :
    check resources = (.healthy, resources.map checkedStatus) := by
  have loop : ∀ statuses, resources.foldl
      (fun (acc : HealthStatus × List ResourceStatus) res => (acc.1, acc.2 ++ [checkedStatus res]))
      (.healthy, statuses) = (.healthy, statuses ++ resources.map checkedStatus) := by
    induction resources with
    | nil => simp
    | cons res resources ih =>
        intro statuses
        rw [List.foldl_cons, ih, List.map_cons, List.append_assoc, List.singleton_append]
  have start := loop []
  rw [List.nil_append] at start
  exact start

end Wardn
