import Mathlib.Data.List.Basic

/-!
# The GitApplication API types

The types of `api/v1alpha1/gitapplication_types.go`, with the fields that the operator
reads or writes.  A Go string type with a declared enumeration is an inductive type with
one more constructor, `unset`, for the empty string (the zero value of a field nobody
wrote).  A nil slice is the empty list: every slice of a status is `omitempty`, so the two
are one on the API server.

Timestamps are seconds: `metav1.Time` is stored as RFC 3339 text without fractions.
-/

namespace Wardn

/-- `metav1.Time` as it is persisted, in seconds. -/
abbrev Time := Nat

/-- `ManifestType`: `Raw` or `Helm`. -/
inductive ManifestType
  | raw
  | helm
  deriving DecidableEq, Repr

/-- `SyncStatus`; `unset` is the empty text. -/
inductive SyncStatus
  | unset
  | synced
  | outOfSync
  | syncing
  | unknown
  deriving DecidableEq, Repr

/-- `HealthStatus`; `unset` is the empty text. -/
inductive HealthStatus
  | unset
  | healthy
  | degraded
  | progressing
  | missing
  | unknown
  deriving DecidableEq, Repr

/-- `SyncPolicy`. -/
structure SyncPolicy where
  automated : Bool := false
  prune : Bool := false
  deriving DecidableEq, Repr

/-- `SlackConfig`. -/
structure SlackConfig where
  webhookURL : String := ""
  deriving DecidableEq, Repr

/-- `NotificationConfig`. -/
structure NotificationConfig where
  slack : Option SlackConfig := none
  onSyncSuccess : Bool := false
  onSyncFailure : Bool := false
  onHealthDegraded : Bool := false
  deriving DecidableEq, Repr

/-- `GitApplicationSpec`, less the fields that no modelled function reads. -/
structure GitApplicationSpec where
  repoURL : String := ""
  branch : String := "main"
  path : String := "."
  manifestType : ManifestType := .raw
  syncPolicy : Option SyncPolicy := none
  notifications : Option NotificationConfig := none
  deriving DecidableEq, Repr

/-- `spec.syncPolicy != nil && spec.syncPolicy.automated`. -/
def GitApplicationSpec.automated (spec : GitApplicationSpec) : Bool :=
  match spec.syncPolicy with
  | some policy => policy.automated
  | none => false

/-- `ResourceStatus`. -/
structure ResourceStatus where
  kind : String
  name : String
  nameSpace : String
  syncStatus : SyncStatus := .unset
  healthStatus : HealthStatus := .unset
  deriving DecidableEq, Repr

/-- `metav1.Condition`. -/
structure Condition where
  type : String
  status : String
  reason : String := ""
  message : String := ""
  lastTransitionTime : Time
  deriving DecidableEq, Repr

/-- `GitApplicationStatus`. -/
structure GitApplicationStatus where
  syncStatus : SyncStatus := .unset
  healthStatus : HealthStatus := .unset
  lastSyncAt : Option Time := none
  revision : String := ""
  previousRevisions : List String := []
  resources : List ResourceStatus := []
  conditions : List Condition := []
  deriving DecidableEq, Repr

/-- `GitApplication`, less the metadata that no modelled function reads. -/
structure GitApplication where
  name : String := ""
  spec : GitApplicationSpec := {}
  status : GitApplicationStatus := {}
  deriving DecidableEq, Repr

/-- The status of the first condition of a type. -/
def GitApplicationStatus.conditionStatus (status : GitApplicationStatus) (condType : String) :
    Option String :=
  (status.conditions.find? fun cond => cond.type = condType).map Condition.status

/-! ## Declared validation

The enumerations of the two status types, the required fields of a resource entry and the
required reason of a condition.  A top-level status is optional, an entry's is not. -/

/-- `+kubebuilder:validation:Enum=Synced;OutOfSync;Syncing;Unknown`. -/
def SyncStatus.Declared (status : SyncStatus) : Prop :=
  status ∈ [SyncStatus.synced, .outOfSync, .syncing, .unknown]

/-- `+kubebuilder:validation:Enum=Healthy;Degraded;Progressing;Missing;Unknown`. -/
def HealthStatus.Declared (status : HealthStatus) : Prop :=
  status ∈ [HealthStatus.healthy, .degraded, .progressing, .missing, .unknown]

instance (status : SyncStatus) : Decidable status.Declared :=
  inferInstanceAs (Decidable (status ∈ _))

instance (status : HealthStatus) : Decidable status.Declared :=
  inferInstanceAs (Decidable (status ∈ _))

/-- An entry that the declared schema takes. -/
structure ResourceStatus.Admissible (rs : ResourceStatus) : Prop where
  sync : rs.syncStatus.Declared
  health : rs.healthStatus.Declared

/-- What the API server checks of a status it is asked to store. -/
structure GitApplicationStatus.Admissible (status : GitApplicationStatus) : Prop where
  sync : status.syncStatus ≠ .unset → status.syncStatus.Declared
  health : status.healthStatus ≠ .unset → status.healthStatus.Declared
  resources : ∀ rs ∈ status.resources, rs.Admissible
  conditions : ∀ cond ∈ status.conditions, cond.reason ≠ ""

@[simp] theorem SyncStatus.declared_iff (status : SyncStatus) :
    status.Declared ↔ status ≠ .unset := by
  cases status <;> decide

/-- Every health status but the empty one is declared. -/
@[simp] theorem HealthStatus.declared_iff (status : HealthStatus) :
    status.Declared ↔ status ≠ .unset := by
  cases status <;> decide

/-- A status that only the controller's constants are written to is admissible as soon as its
lists are. -/
theorem GitApplicationStatus.admissible_iff (status : GitApplicationStatus) :
    status.Admissible ↔
      (∀ rs ∈ status.resources, rs.Admissible) ∧ ∀ cond ∈ status.conditions, cond.reason ≠ "" := by
  refine ⟨fun admissible => ⟨admissible.resources, admissible.conditions⟩, fun lists => ?_⟩
  obtain ⟨resources, conditions⟩ := lists
  refine ⟨fun written => ?_, fun written => ?_, resources, conditions⟩
  · exact (SyncStatus.declared_iff _).mpr written
  · exact (HealthStatus.declared_iff _).mpr written

end Wardn
