import Wardn.Lib.Heap
import Wardn.Webhook.OptIn

/-!
# Objects in memory

The structs of `api/v1alpha1/gitapplication_types.go` with their pointers and slices.  There is one
heap for each type that is pointed to or sliced; a record shows a value when its references lead to
the parts of the value.  The object metadata of apimachinery is the name, as elsewhere.
-/

namespace Wardn.Memory

open Heap

/-- The settings of a Helm chart, all of them texts. -/
structure HelmConfig where
  valuesFile : String := ""
  releaseName : String := ""
  nameSpace : String := ""
  inlineValues : String := ""
  deriving DecidableEq, Repr

/-- The whole spec. -/
structure Spec extends Webhook.Spec where
  helm : Option HelmConfig := none
  targetCluster : String := ""
  deriving DecidableEq

/-- What an object says, without its references. -/
structure App where
  name : String := ""
  spec : Spec := {}
  status : GitApplicationStatus := {}
  deriving DecidableEq

/-- The object with the part of its spec that the reconciler reads. -/
def App.application (app : App) : GitApplication :=
  { name := app.name, spec := app.spec.toGitApplicationSpec, status := app.status }

/-! ## Records -/

/-- `NotificationConfig`; its pointer leads to a Slack configuration. -/
structure NotificationRecord where
  slack : Option ℕ
  onSyncSuccess : Bool
  onSyncFailure : Bool
  onHealthDegraded : Bool

/-- `GitApplicationSpec`, with an address for each of its pointers. -/
structure SpecRecord where
  repoURL : String
  branch : String
  path : String
  manifestType : ManifestType
  helm : Option ℕ
  targetCluster : String
  syncPolicy : Option ℕ
  notifications : Option ℕ
  webhook : Option ℕ

/-- `GitApplicationStatus`, with a slice for each of its lists. -/
structure StatusRecord where
  syncStatus : SyncStatus
  healthStatus : HealthStatus
  lastSyncAt : Option ℕ
  revision : String
  previousRevisions : Option Slice
  resources : Option Slice
  conditions : Option Slice

/-- `GitApplication`: spec and status lie in the object itself. -/
structure ObjectRecord where
  name : String
  spec : SpecRecord
  status : StatusRecord

/-- `GitApplicationList`, a slice of objects. -/
structure ListRecord where
  items : Option Slice

/-- What a spec is made of. -/
structure SpecHeaps where
  helms : Heap HelmConfig := []
  policies : Heap SyncPolicy := []
  slacks : Heap SlackConfig := []
  notifications : Heap NotificationRecord := []
  webhooks : Heap Webhook.WebhookConfig := []

/-- What a status is made of. -/
structure StatusHeaps where
  times : Heap Time := []
  revisions : Heap (List String) := []
  resources : Heap (List ResourceStatus) := []
  conditions : Heap (List Condition) := []

/-- The whole memory. -/
structure Heaps where
  spec : SpecHeaps := {}
  status : StatusHeaps := {}
  objects : Heap ObjectRecord := []
  items : Heap (List ObjectRecord) := []
  lists : Heap ListRecord := []

/-! Everything of the base is still there. -/

/-- The parts of specs are where they were. -/
structure SpecHeaps.Extends (base m : SpecHeaps) : Prop where
  helms : base.helms <+: m.helms
  policies : base.policies <+: m.policies
  slacks : base.slacks <+: m.slacks
  notifications : base.notifications <+: m.notifications
  webhooks : base.webhooks <+: m.webhooks

/-- The parts of statuses are where they were. -/
structure StatusHeaps.Extends (base m : StatusHeaps) : Prop where
  times : base.times <+: m.times
  revisions : base.revisions <+: m.revisions
  resources : base.resources <+: m.resources
  conditions : base.conditions <+: m.conditions

/-- Everything that could be reached before is where it was. -/
structure Heaps.Extends (base m : Heaps) : Prop where
  spec : base.spec.Extends m.spec
  status : base.status.Extends m.status
  objects : base.objects <+: m.objects
  items : base.items <+: m.items
  lists : base.lists <+: m.lists

theorem SpecHeaps.Extends.refl (m : SpecHeaps) : m.Extends m := by
  constructor <;> exact List.prefix_rfl

theorem SpecHeaps.Extends.trans {base m m' : SpecHeaps} (first : base.Extends m)
    (second : m.Extends m') : base.Extends m' where
  helms := first.helms.trans second.helms
  policies := first.policies.trans second.policies
  slacks := first.slacks.trans second.slacks
  notifications := first.notifications.trans second.notifications
  webhooks := first.webhooks.trans second.webhooks

theorem StatusHeaps.Extends.refl (m : StatusHeaps) : m.Extends m := by
  constructor <;> exact List.prefix_rfl

theorem StatusHeaps.Extends.trans {base m m' : StatusHeaps} (first : base.Extends m)
    (second : m.Extends m') : base.Extends m' where
  times := first.times.trans second.times
  revisions := first.revisions.trans second.revisions
  resources := first.resources.trans second.resources
  conditions := first.conditions.trans second.conditions

theorem Heaps.Extends.refl (m : Heaps) : m.Extends m :=
  ⟨.refl _, .refl _, List.prefix_rfl, List.prefix_rfl, List.prefix_rfl⟩

/-- What two steps leave alone is left alone by both. -/
theorem Heaps.Extends.trans {base m m' : Heaps} (first : base.Extends m) (second : m.Extends m') :
    base.Extends m' where
  spec := first.spec.trans second.spec
  status := first.status.trans second.status
  objects := first.objects.trans second.objects
  items := first.items.trans second.items
  lists := first.lists.trans second.lists

/-! ## What a record shows -/

/-- The pointer of the record leads to the Slack configuration of the value. -/
structure NotificationRecord.Shows (m : SpecHeaps) (r : NotificationRecord)
    (v : NotificationConfig) : Prop where
  slack : Loads m.slacks r.slack v.slack
  onSyncSuccess : r.onSyncSuccess = v.onSyncSuccess
  onSyncFailure : r.onSyncFailure = v.onSyncFailure
  onHealthDegraded : r.onHealthDegraded = v.onHealthDegraded

/-- The pointer leads to a record that shows the value; nil shows none. -/
def Points {ρ β : Type} (h : Heap ρ) (Shows : ρ → β → Prop) (p : Option ℕ) : Option β → Prop
  | none => p = none
  | some v => ∃ addr r, p = some addr ∧ h[addr]? = some r ∧ Shows r v

/-- The fields are those of the value, and the pointers lead to its parts. -/
structure SpecRecord.Shows (m : SpecHeaps) (r : SpecRecord) (v : Spec) : Prop where
  repoURL : r.repoURL = v.repoURL
  branch : r.branch = v.branch
  path : r.path = v.path
  manifestType : r.manifestType = v.manifestType
  helm : Loads m.helms r.helm v.helm
  targetCluster : r.targetCluster = v.targetCluster
  syncPolicy : Loads m.policies r.syncPolicy v.syncPolicy
  notifications :
    Points m.notifications (NotificationRecord.Shows m) r.notifications v.notifications
  webhook : Loads m.webhooks r.webhook v.webhook

/-- The fields are those of the value, and the slices read its lists. -/
structure StatusRecord.Shows (m : StatusHeaps) (r : StatusRecord) (v : GitApplicationStatus) :
    Prop where
  syncStatus : r.syncStatus = v.syncStatus
  healthStatus : r.healthStatus = v.healthStatus
  lastSyncAt : Loads m.times r.lastSyncAt v.lastSyncAt
  revision : r.revision = v.revision
  previousRevisions : Reads m.revisions r.previousRevisions v.previousRevisions
  resources : Reads m.resources r.resources v.resources
  conditions : Reads m.conditions r.conditions v.conditions

/-- The record shows spec and status of the value. -/
structure ObjectRecord.Shows (m : Heaps) (r : ObjectRecord) (v : App) : Prop where
  name : r.name = v.name
  spec : r.spec.Shows m.spec v.spec
  status : r.status.Shows m.status v.status

/-- A `GitApplicationList`: its items in order. -/
def ListRecord.Shows (m : Heaps) (r : ListRecord) (vs : List App) : Prop :=
  ∃ records, Reads m.items r.items records ∧ List.Forall₂ (ObjectRecord.Shows m) records vs

/-- A pointer leads to the same value when the heap has grown. -/
theorem Points.extend {ρ β : Type} {h h' : Heap ρ} {Shows Shows' : ρ → β → Prop}
    (grown : h <+: h') (kept : ∀ r v, Shows r v → Shows' r v) {p : Option ℕ} {v : Option β}
    (points : Points h Shows p v) : Points h' Shows' p v := by
  cases v with
  | none => exact points
  | some v =>
      obtain ⟨addr, r, rfl, here, shows_⟩ := points
      exact ⟨addr, r, rfl, getElem?_of_prefix grown here, kept r v shows_⟩

theorem NotificationRecord.Shows.extend {m m' : SpecHeaps} (extends_ : m.Extends m')
    {r : NotificationRecord} {v : NotificationConfig} (shows_ : r.Shows m v) : r.Shows m' v :=
  { shows_ with slack := shows_.slack.extend extends_.slacks }

/-- A spec is shown as before in a memory that has grown. -/
theorem SpecRecord.Shows.extend {m m' : SpecHeaps} (extends_ : m.Extends m') {r : SpecRecord}
    {v : Spec} (shows_ : r.Shows m v) : r.Shows m' v :=
  { shows_ with
    helm := shows_.helm.extend extends_.helms
    syncPolicy := shows_.syncPolicy.extend extends_.policies
    notifications := shows_.notifications.extend extends_.notifications
      fun _ _ => NotificationRecord.Shows.extend extends_
    webhook := shows_.webhook.extend extends_.webhooks }

theorem StatusRecord.Shows.extend {m m' : StatusHeaps} (extends_ : m.Extends m')
    {r : StatusRecord} {v : GitApplicationStatus} (shows_ : r.Shows m v) : r.Shows m' v :=
  { shows_ with
    lastSyncAt := shows_.lastSyncAt.extend extends_.times
    previousRevisions := shows_.previousRevisions.extend extends_.revisions
    resources := shows_.resources.extend extends_.resources
    conditions := shows_.conditions.extend extends_.conditions }

/-- An object is shown as before in a memory that has grown. -/
theorem ObjectRecord.Shows.extend {m m' : Heaps} (extends_ : m.Extends m') {r : ObjectRecord}
    {v : App} (shows_ : r.Shows m v) : r.Shows m' v :=
  ⟨shows_.name, shows_.spec.extend extends_.spec, shows_.status.extend extends_.status⟩

end Wardn.Memory
