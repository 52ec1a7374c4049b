import Wardn.Health

/-!
# Application-level health

The loop of `Checker.Check` for any health value per resource, against the law of the health
checks' documentation (`worst`).  The running aggregate is characterised by which values occur
(`foldl_aggregate`), so it does not depend on the order of the resources; two values of the law
are none of the loop's (`check_worst_iff`).
-/

namespace Wardn

/-- The loop of `Checker.Check` over resources that are given with their health. -/
def checkEach (assessed : List (Resource × HealthStatus)) : HealthStatus × List ResourceStatus :=
  assessed.foldl checkStep (.healthy, [])

/-- An assessment gives every resource its health. -/
theorem checkWith_eq (assess : Resource → HealthStatus) (resources : List Resource) :
    checkWith assess resources = checkEach (resources.map fun res => (res, assess res)) := by
  rw [checkEach, checkWith, List.foldl_map]

/-- "The worst health status of any managed resource", as the documentation spells it out. -/
def worst (values : List HealthStatus) : HealthStatus :=
  if .degraded ∈ values then .degraded
  else if .missing ∈ values then .degraded
  else if .progressing ∈ values then .progressing
  else if ∀ value ∈ values, value = .healthy then .healthy
  else .unknown

/-! ## The loop -/

/-- The loop from any aggregate on, by the values that occur. -/
theorem foldl_aggregate (values : List HealthStatus) (current : HealthStatus) :
    values.foldl aggregate current =
      if .degraded ∈ values then .degraded
      else if .progressing ∈ values ∧ current ≠ .degraded then .progressing
      else current := by
  induction values generalizing current with
  | nil => simp
  | cons value values ih =>
      rw [List.foldl_cons, ih]
      by_cases degraded : HealthStatus.degraded ∈ values
      · simp [degraded]
      · by_cases progressing : HealthStatus.progressing ∈ values
        · cases value <;> cases current <;> simp [aggregate, degraded, progressing]
        · cases value <;> cases current <;> simp [aggregate, degraded, progressing]

/-- The aggregate of the loop is that of the values. -/
theorem foldl_checkStep_fst (assessed : List (Resource × HealthStatus))
    (acc : HealthStatus × List ResourceStatus) :
    (assessed.foldl checkStep acc).1 = (assessed.map Prod.snd).foldl aggregate acc.1 := by
  induction assessed generalizing acc with
  | nil => rfl
  | cons entry assessed ih => exact ih (checkStep acc entry)

/-- What the loop returns depends on the values that occur, not on their order. -/
theorem checkEach_fst_eq (assessed : List (Resource × HealthStatus)) :
    (checkEach assessed).1 =
      if .degraded ∈ assessed.map Prod.snd then .degraded
      else if .progressing ∈ assessed.map Prod.snd then .progressing
      else .healthy := by
  have fresh : HealthStatus.healthy ≠ .degraded := nofun
  rw [checkEach, foldl_checkStep_fst, foldl_aggregate]
  simp only [fresh, ne_eq, not_false_eq_true, and_true]

/-- The order of the resources does not matter. -/
theorem checkEach_fst_perm {assessed assessed' : List (Resource × HealthStatus)}
    (perm : assessed'.Perm assessed) : (checkEach assessed').1 = (checkEach assessed).1 := by
  rw [checkEach_fst_eq, checkEach_fst_eq]
  simp only [(perm.map Prod.snd).mem_iff]

/-! ## Against the law -/

/-- **The aggregate** is the worst health, in any order of the resources, exactly when some
resource is degraded, or none is missing and some is progressing or all are healthy. -/
theorem check_worst_iff (assessed : List (Resource × HealthStatus)) :
    (∀ assessed' : List (Resource × HealthStatus), assessed'.Perm assessed →
      (checkEach assessed').1 = worst (assessed.map Prod.snd)) ↔
      .degraded ∈ assessed.map Prod.snd ∨ .missing ∉ assessed.map Prod.snd ∧
        (.progressing ∈ assessed.map Prod.snd ∨
          ∀ value ∈ assessed.map Prod.snd, value = .healthy) := by
  have ordered : (∀ assessed' : List (Resource × HealthStatus), assessed'.Perm assessed →
      (checkEach assessed').1 = worst (assessed.map Prod.snd)) ↔
        (checkEach assessed).1 = worst (assessed.map Prod.snd) :=
    ⟨fun all => all assessed (.refl assessed), fun same assessed' perm =>
      (checkEach_fst_perm perm).trans same⟩
  rw [ordered, checkEach_fst_eq]
  generalize assessed.map Prod.snd = values
  unfold worst
  by_cases degraded : HealthStatus.degraded ∈ values
  · simp [degraded]
  · by_cases missing : HealthStatus.missing ∈ values
    · by_cases progressing : HealthStatus.progressing ∈ values
      · simp [degraded, missing, progressing]
      · simp [degraded, missing, progressing]
    · by_cases progressing : HealthStatus.progressing ∈ values
      · simp [degraded, missing, progressing]
      · by_cases healthy : ∀ value ∈ values, value = HealthStatus.healthy
        · simp only [degraded, missing, progressing, if_false, if_pos healthy]
          simpa using healthy
        · simp only [degraded, missing, progressing, if_false, if_neg healthy]
          simpa using healthy

/-- A resource that is not there counts for nothing. -/
theorem missing_reported_healthy :
    (checkEach [({ kind := "Deployment", name := "web" }, .missing)]).1 = .healthy ∧
      worst [.missing] = .degraded := by
  decide

end Wardn
