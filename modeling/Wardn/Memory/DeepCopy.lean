import Wardn.Memory.Objects

/-!
# Deep copies

The methods of `api/v1alpha1/zz_generated_deepcopy.go`: `*out = *in`, and a copy of each part that
is reached through a reference.  `deepCopy_owned` and `listDeepCopy_owned` say that a copy shows
what the original shows, through new cells and arrays alone.
-/

namespace Wardn.Memory

open Heap

/-- The Slack configuration is copied to a new cell. -/
def NotificationRecord.deepCopyInto (m : SpecHeaps) (r : NotificationRecord) :
    SpecHeaps × NotificationRecord :=
  let (slacks, slack) := copyCell m.slacks r.slack
  ({ m with slacks }, { r with slack })

/-- `new(NotificationConfig)` and `(*in).DeepCopyInto(*out)`, unless the pointer is nil. -/
def copyNotifications (m : SpecHeaps) (p : Option ℕ) : SpecHeaps × Option ℕ :=
  match load m.notifications p with
  | none => (m, none)
  | some r =>
    let (m, r) := r.deepCopyInto m
    let (notifications, addr) := alloc m.notifications r
    ({ m with notifications }, some addr)

/-- Each pointer that is not nil gets a cell of its own, in the order of the fields. -/
def SpecRecord.deepCopyInto (m : SpecHeaps) (r : SpecRecord) : SpecHeaps × SpecRecord :=
  let (helms, helm) := copyCell m.helms r.helm
  let (policies, syncPolicy) := copyCell m.policies r.syncPolicy
  let (m, notifications) := copyNotifications { m with helms, policies } r.notifications
  let (webhooks, webhook) := copyCell m.webhooks r.webhook
  ({ m with webhooks }, { r with helm, syncPolicy, notifications, webhook })

/-- The time gets a new cell, and each slice a new array. -/
def StatusRecord.deepCopyInto (m : StatusHeaps) (r : StatusRecord) : StatusHeaps × StatusRecord :=
  let (times, lastSyncAt) := copyCell m.times r.lastSyncAt
  let (revisions, previousRevisions) := copySlice m.revisions r.previousRevisions
  let (resources, resourceStatuses) := copySlice m.resources r.resources
  -- A `metav1.Condition` has no references: its `DeepCopyInto` assigns it.
  let (conditions, statusConditions) := copySlice m.conditions r.conditions
  ({ m with times, revisions, resources, conditions },
    { r with
      lastSyncAt, previousRevisions, resources := resourceStatuses,
      conditions := statusConditions })

/-- `TypeMeta` and `ObjectMeta` apart, which belong to apimachinery. -/
def ObjectRecord.deepCopyInto (m : Heaps) (r : ObjectRecord) : Heaps × ObjectRecord :=
  let (specHeaps, spec) := r.spec.deepCopyInto m.spec
  let (statusHeaps, status) := r.status.deepCopyInto m.status
  ({ m with spec := specHeaps, status := statusHeaps }, { r with spec, status })

/-- `GitApplication.DeepCopy`. -/
def deepCopy (m : Heaps) (p : Option ℕ) : Heaps × Option ℕ :=
  match load m.objects p with
  | none => (m, none)
  | some r =>
    let (m, r) := r.deepCopyInto m
    let (objects, addr) := alloc m.objects r
    ({ m with objects }, some addr)

/-- The loop over the items. -/
def copyItems (m : Heaps) : List ObjectRecord → Heaps × List ObjectRecord
  | [] => (m, [])
  | r :: records =>
    let (m, r) := r.deepCopyInto m
    let (m, records) := copyItems m records
    (m, r :: records)

/-- A nil slice of items stays nil. -/
def ListRecord.deepCopyInto (m : Heaps) (r : ListRecord) : Heaps × ListRecord :=
  match r.items with
  | none => (m, r)
  | some window =>
    let (m, records) := copyItems m (contents m.items (some window))
    let (items, copied) := make m.items records
    ({ m with items }, { r with items := some copied })

/-- `GitApplicationList.DeepCopy`. -/
def listDeepCopy (m : Heaps) (p : Option ℕ) : Heaps × Option ℕ :=
  match load m.lists p with
  | none => (m, none)
  | some r =>
    let (m, r) := r.deepCopyInto m
    let (lists, addr) := alloc m.lists r
    ({ m with lists }, some addr)

/-! ## What a copy owns

A record owns a value over a base memory when it shows the value and every reference on the way
leads above the base. -/

/-- The pointer leads above the base to a record that owns the value. -/
structure PointsAbove {ρ β : Type} (base h : Heap ρ) (Owned : ρ → β → Prop) (p : Option ℕ)
    (v : Option β) : Prop where
  extends_ : base <+: h
  above : Above base.length p
  points : Points h Owned p v

/-- The Slack configuration lies above the base. -/
structure NotificationRecord.Owned (base m : SpecHeaps) (r : NotificationRecord)
    (v : NotificationConfig) : Prop where
  slack : Cell base.slacks m.slacks r.slack v.slack
  onSyncSuccess : r.onSyncSuccess = v.onSyncSuccess
  onSyncFailure : r.onSyncFailure = v.onSyncFailure
  onHealthDegraded : r.onHealthDegraded = v.onHealthDegraded

/-- All parts of the spec lie above the base. -/
structure SpecRecord.Owned (base m : SpecHeaps) (r : SpecRecord) (v : Spec) : Prop where
  repoURL : r.repoURL = v.repoURL
  branch : r.branch = v.branch
  path : r.path = v.path
  manifestType : r.manifestType = v.manifestType
  helm : Cell base.helms m.helms r.helm v.helm
  targetCluster : r.targetCluster = v.targetCluster
  syncPolicy : Cell base.policies m.policies r.syncPolicy v.syncPolicy
  notifications : PointsAbove base.notifications m.notifications
    (NotificationRecord.Owned base m) r.notifications v.notifications
  webhook : Cell base.webhooks m.webhooks r.webhook v.webhook

/-- The time and the arrays of the status lie above the base. -/
structure StatusRecord.Owned (base m : StatusHeaps) (r : StatusRecord)
    (v : GitApplicationStatus) : Prop where
  syncStatus : r.syncStatus = v.syncStatus
  healthStatus : r.healthStatus = v.healthStatus
  lastSyncAt : Cell base.times m.times r.lastSyncAt v.lastSyncAt
  revision : r.revision = v.revision
  previousRevisions : Window base.revisions m.revisions r.previousRevisions v.previousRevisions
  resources : Window base.resources m.resources r.resources v.resources
  conditions : Window base.conditions m.conditions r.conditions v.conditions

/-- Spec and status own what they show. -/
structure ObjectRecord.Owned (base m : Heaps) (r : ObjectRecord) (v : App) : Prop where
  name : r.name = v.name
  spec : r.spec.Owned base.spec m.spec v.spec
  status : r.status.Owned base.status m.status v.status

/-- The array of items lies above the base, and each item owns what it shows. -/
def ListRecord.Owned (base m : Heaps) (r : ListRecord) (vs : List App) : Prop :=
  ∃ records, Window base.items m.items r.items records ∧
    List.Forall₂ (ObjectRecord.Owned base m) records vs

/-- A new cell lies above the base. -/
theorem pointsAbove_alloc {ρ β : Type} {base h : Heap ρ} (extends_ : base <+: h)
    {Owned : ρ → β → Prop} {r : ρ} {v : β} (owned : Owned r v) :
    PointsAbove base (alloc h r).1 Owned (some (alloc h r).2) (some v) := by
  have here := cell_alloc extends_ r
  exact ⟨here.extends_, here.above, _, r, rfl, here.loads, owned⟩

theorem NotificationRecord.Owned.extend {base m m' : SpecHeaps} (extends_ : m.Extends m')
    {r : NotificationRecord} {v : NotificationConfig} (owned : r.Owned base m v) :
    r.Owned base m' v :=
  { owned with slack := owned.slack.extend extends_.slacks }

theorem SpecRecord.Owned.extend {base m m' : SpecHeaps} (extends_ : m.Extends m') {r : SpecRecord}
    {v : Spec} (owned : r.Owned base m v) : r.Owned base m' v :=
  { owned with
    helm := owned.helm.extend extends_.helms
    syncPolicy := owned.syncPolicy.extend extends_.policies
    notifications :=
      ⟨owned.notifications.extends_.trans extends_.notifications, owned.notifications.above,
        owned.notifications.points.extend extends_.notifications
          fun _ _ => NotificationRecord.Owned.extend extends_⟩
    webhook := owned.webhook.extend extends_.webhooks }

theorem StatusRecord.Owned.extend {base m m' : StatusHeaps} (extends_ : m.Extends m')
    {r : StatusRecord} {v : GitApplicationStatus} (owned : r.Owned base m v) : r.Owned base m' v :=
  { owned with
    lastSyncAt := owned.lastSyncAt.extend extends_.times
    previousRevisions := owned.previousRevisions.extend extends_.revisions
    resources := owned.resources.extend extends_.resources
    conditions := owned.conditions.extend extends_.conditions }

/-- What is owned stays owned when the memory grows. -/
theorem ObjectRecord.Owned.extend {base m m' : Heaps} (extends_ : m.Extends m') {r : ObjectRecord}
    {v : App} (owned : r.Owned base m v) : r.Owned base m' v :=
  ⟨owned.name, owned.spec.extend extends_.spec, owned.status.extend extends_.status⟩

/-! ## The copies own what the originals show -/

section Spec

variable {base m : SpecHeaps} (extends_ : base.Extends m)

include extends_

theorem NotificationRecord.deepCopyInto_owned {r : NotificationRecord} {v : NotificationConfig}
    (shows_ : r.Shows m v) :
    m.Extends (r.deepCopyInto m).1 ∧ (r.deepCopyInto m).2.Owned base (r.deepCopyInto m).1 v := by
  have slack := cell_copyCell extends_.slacks shows_.slack
  have grown := (cell_copyCell List.prefix_rfl shows_.slack).extends_
  exact ⟨{ SpecHeaps.Extends.refl m with slacks := grown }, { shows_ with slack := slack }⟩

/-- Copied notifications own their value, or are nil as before. -/
theorem copyNotifications_owned {p : Option ℕ} {v : Option NotificationConfig}
    (points : Points m.notifications (NotificationRecord.Shows m) p v) :
    m.Extends (copyNotifications m p).1 ∧
      PointsAbove base.notifications (copyNotifications m p).1.notifications
        (NotificationRecord.Owned base (copyNotifications m p).1) (copyNotifications m p).2 v := by
  cases v with
  | none =>
      obtain rfl : p = none := points
      exact ⟨SpecHeaps.Extends.refl m, extends_.notifications, nofun, rfl⟩
  | some v =>
      obtain ⟨addr, r, rfl, here, shows_⟩ := points
      have loaded : load m.notifications (some addr) = some r := here
      obtain ⟨grown, owned⟩ := NotificationRecord.deepCopyInto_owned extends_ shows_
      have stored : (r.deepCopyInto m).1.Extends
          { (r.deepCopyInto m).1 with
            notifications := (alloc (r.deepCopyInto m).1.notifications (r.deepCopyInto m).2).1 } :=
        { SpecHeaps.Extends.refl _ with notifications := List.prefix_append _ _ }
      have above := pointsAbove_alloc (extends_.notifications.trans grown.notifications)
        (NotificationRecord.Owned.extend stored owned)
      rw [copyNotifications, loaded]
      exact ⟨grown.trans stored, above⟩

/-- A copied spec owns the value that its original shows. -/
theorem SpecRecord.deepCopyInto_owned {r : SpecRecord} {v : Spec} (shows_ : r.Shows m v) :
    m.Extends (r.deepCopyInto m).1 ∧ (r.deepCopyInto m).2.Owned base (r.deepCopyInto m).1 v := by
  have helm := cell_copyCell List.prefix_rfl shows_.helm
  have policy := cell_copyCell List.prefix_rfl shows_.syncPolicy
  -- The heaps after the first two copies, then after the third.
  let m₁ := { m with
    helms := (copyCell m.helms r.helm).1, policies := (copyCell m.policies r.syncPolicy).1 }
  have first : m.Extends m₁ :=
    { SpecHeaps.Extends.refl m with helms := helm.extends_, policies := policy.extends_ }
  obtain ⟨second, notifications⟩ := copyNotifications_owned (extends_.trans first)
    (shows_.notifications.extend (List.prefix_rfl : m.notifications <+: m₁.notifications)
      fun _ _ => NotificationRecord.Shows.extend first)
  let m₂ := (copyNotifications m₁ r.notifications).1
  have loads := shows_.webhook.extend (first.trans second).webhooks
  have webhook := cell_copyCell List.prefix_rfl loads
  have third : m₂.Extends { m₂ with webhooks := (copyCell m₂.webhooks r.webhook).1 } :=
    { SpecHeaps.Extends.refl m₂ with webhooks := webhook.extends_ }
  refine ⟨(first.trans second).trans third, { shows_ with
    helm := (cell_copyCell extends_.helms shows_.helm).extend second.helms
    syncPolicy := (cell_copyCell extends_.policies shows_.syncPolicy).extend second.policies
    notifications := ?_
    webhook := cell_copyCell ((extends_.trans first).trans second).webhooks loads }⟩
  exact ⟨notifications.extends_, notifications.above, notifications.points.extend List.prefix_rfl
    fun _ _ => NotificationRecord.Owned.extend third⟩

end Spec

/-- A copied status owns the value that its original shows. -/
theorem StatusRecord.deepCopyInto_owned {base m : StatusHeaps} (extends_ : base.Extends m)
    {r : StatusRecord} {v : GitApplicationStatus} (shows_ : r.Shows m v) :
    m.Extends (r.deepCopyInto m).1 ∧ (r.deepCopyInto m).2.Owned base (r.deepCopyInto m).1 v := by
  refine ⟨{ StatusHeaps.Extends.refl m with
    times := (cell_copyCell List.prefix_rfl shows_.lastSyncAt).extends_
    revisions := (window_copySlice List.prefix_rfl shows_.previousRevisions).extends_
    resources := (window_copySlice List.prefix_rfl shows_.resources).extends_
    conditions := (window_copySlice List.prefix_rfl shows_.conditions).extends_ }, ?_⟩
  exact { shows_ with
    lastSyncAt := cell_copyCell extends_.times shows_.lastSyncAt
    previousRevisions := window_copySlice extends_.revisions shows_.previousRevisions
    resources := window_copySlice extends_.resources shows_.resources
    conditions := window_copySlice extends_.conditions shows_.conditions }

/-- A copied object owns the value that its original shows. -/
theorem ObjectRecord.deepCopyInto_owned {base m : Heaps} (extends_ : base.Extends m)
    {r : ObjectRecord} {v : App} (shows_ : r.Shows m v) :
    m.Extends (r.deepCopyInto m).1 ∧ (r.deepCopyInto m).2.Owned base (r.deepCopyInto m).1 v := by
  obtain ⟨spec, ownedSpec⟩ := SpecRecord.deepCopyInto_owned extends_.spec shows_.spec
  obtain ⟨status, ownedStatus⟩ := StatusRecord.deepCopyInto_owned extends_.status shows_.status
  exact ⟨{ Heaps.Extends.refl m with spec, status }, shows_.name, ownedSpec, ownedStatus⟩

/-- The copies of the items, one after the other, each over all that was there before. -/
theorem copyItems_owned {base m : Heaps} (extends_ : base.Extends m) {records : List ObjectRecord}
    {vs : List App} (shows_ : List.Forall₂ (ObjectRecord.Shows m) records vs) :
    m.Extends (copyItems m records).1 ∧
      List.Forall₂ (ObjectRecord.Owned base (copyItems m records).1) (copyItems m records).2
        vs := by
  induction records generalizing m vs with
  | nil =>
      cases shows_ with
      | nil => exact ⟨Heaps.Extends.refl m, .nil⟩
  | cons r records ih =>
      cases shows_ with
      | cons first rest =>
          obtain ⟨grown, owned⟩ := ObjectRecord.deepCopyInto_owned extends_ first
          obtain ⟨later, others⟩ := ih (extends_.trans grown)
            (rest.imp fun _ _ => ObjectRecord.Shows.extend grown)
          exact ⟨grown.trans later, .cons (owned.extend later) others⟩

/-- A copied list owns the values of its items. -/
theorem ListRecord.deepCopyInto_owned {base m : Heaps} (extends_ : base.Extends m) {r : ListRecord}
    {vs : List App} (shows_ : r.Shows m vs) :
    m.Extends (r.deepCopyInto m).1 ∧ (r.deepCopyInto m).2.Owned base (r.deepCopyInto m).1 vs := by
  obtain ⟨records, reads, apps⟩ := shows_
  obtain ⟨items⟩ := r
  cases items with
  | none =>
      obtain rfl : records = [] := reads
      cases apps
      exact ⟨Heaps.Extends.refl m, [], ⟨extends_.items, nofun, rfl⟩, .nil⟩
  | some window =>
      obtain ⟨grown, owned⟩ := copyItems_owned extends_ apps
      have made := window_make (extends_.items.trans grown.items) (copyItems m records).2
      have stored : (copyItems m records).1.Extends
          { (copyItems m records).1 with
            items := (make (copyItems m records).1.items (copyItems m records).2).1 } :=
        { Heaps.Extends.refl _ with items := List.prefix_append _ _ }
      have read : contents m.items (some window) = records := reads.contents_eq
      rw [ListRecord.deepCopyInto]
      simp only [read]
      exact ⟨grown.trans stored, _, made, owned.imp fun _ _ => ObjectRecord.Owned.extend stored⟩

/-- A deep copy reaches new cells and arrays alone, shows the value of the original, and leaves
everything that was there as it was. -/
theorem deepCopy_owned (m : Heaps) {p : Option ℕ} {v : Option App}
    (points : Points m.objects (ObjectRecord.Shows m) p v) :
    m.Extends (deepCopy m p).1 ∧
      PointsAbove m.objects (deepCopy m p).1.objects (ObjectRecord.Owned m (deepCopy m p).1)
        (deepCopy m p).2 v := by
  cases v with
  | none =>
      obtain rfl : p = none := points
      exact ⟨Heaps.Extends.refl m, List.prefix_rfl, nofun, rfl⟩
  | some v =>
      obtain ⟨addr, r, rfl, here, shows_⟩ := points
      have loaded : load m.objects (some addr) = some r := here
      obtain ⟨grown, owned⟩ := ObjectRecord.deepCopyInto_owned (Heaps.Extends.refl m) shows_
      have stored : (r.deepCopyInto m).1.Extends
          { (r.deepCopyInto m).1 with
            objects := (alloc (r.deepCopyInto m).1.objects (r.deepCopyInto m).2).1 } :=
        { Heaps.Extends.refl _ with objects := List.prefix_append _ _ }
      have above := pointsAbove_alloc grown.objects (ObjectRecord.Owned.extend stored owned)
      rw [deepCopy, loaded]
      exact ⟨grown.trans stored, above⟩

theorem listDeepCopy_owned (m : Heaps) {p : Option ℕ} {vs : Option (List App)}
    (points : Points m.lists (ListRecord.Shows m) p vs) :
    m.Extends (listDeepCopy m p).1 ∧
      PointsAbove m.lists (listDeepCopy m p).1.lists (ListRecord.Owned m (listDeepCopy m p).1)
        (listDeepCopy m p).2 vs := by
  cases vs with
  | none =>
      obtain rfl : p = none := points
      exact ⟨Heaps.Extends.refl m, List.prefix_rfl, nofun, rfl⟩
  | some vs =>
      obtain ⟨addr, r, rfl, here, shows_⟩ := points
      have loaded : load m.lists (some addr) = some r := here
      obtain ⟨grown, records, window, owned⟩ :=
        ListRecord.deepCopyInto_owned (Heaps.Extends.refl m) shows_
      have stored : (r.deepCopyInto m).1.Extends
          { (r.deepCopyInto m).1 with
            lists := (alloc (r.deepCopyInto m).1.lists (r.deepCopyInto m).2).1 } :=
        { Heaps.Extends.refl _ with lists := List.prefix_append _ _ }
      have whole : (r.deepCopyInto m).2.Owned m
          { (r.deepCopyInto m).1 with
            lists := (alloc (r.deepCopyInto m).1.lists (r.deepCopyInto m).2).1 } vs :=
        ⟨records, window, owned.imp fun _ _ => ObjectRecord.Owned.extend stored⟩
      rw [listDeepCopy, loaded]
      exact ⟨grown.trans stored, pointsAbove_alloc grown.lists whole⟩

/-- An automated application that was synced once, and a list with it. -/
def cachedRecord : ObjectRecord :=
  { name := "shop"
    spec :=
      { repoURL := "https://git.example/shop", branch := "main", path := ".", manifestType := .raw,
        helm := none, targetCluster := "", syncPolicy := some 0, notifications := none,
        webhook := none }
    status :=
      { syncStatus := .synced, healthStatus := .healthy, lastSyncAt := some 0, revision := "r1",
        previousRevisions := none, resources := none,
        conditions := some ⟨0, 0, 1, 1, Nat.le_refl 1⟩ } }

/-- A cache with one application: every pointer of it is set, every slice has an entry. -/
def cachedHeaps : Heaps :=
  { spec := { policies := [{ automated := true }] }
    status :=
      { times := [7],
        conditions := [[{ type := "SyncError", status := "False", lastTransitionTime := 7 }]] }
    objects := [cachedRecord]
    items := [[cachedRecord]]
    lists := [{ items := some ⟨0, 0, 1, 1, Nat.le_refl 1⟩ }] }

/-- What the cached object says. -/
def cachedApp : App :=
  { name := "shop"
    spec :=
      { repoURL := "https://git.example/shop", syncPolicy := some { automated := true } }
    status :=
      { syncStatus := .synced, healthStatus := .healthy, lastSyncAt := some 7, revision := "r1",
        conditions := [{ type := "SyncError", status := "False", lastTransitionTime := 7 }] } }

theorem cachedRecord_shows : cachedRecord.Shows cachedHeaps cachedApp where
  name := rfl
  spec :=
    { repoURL := rfl, branch := rfl, path := rfl, manifestType := rfl, helm := trivial,
      targetCluster := rfl, syncPolicy := rfl, notifications := rfl, webhook := trivial }
  status :=
    { syncStatus := rfl, healthStatus := rfl, lastSyncAt := rfl, revision := rfl,
      previousRevisions := rfl, resources := rfl, conditions := ⟨_, rfl, by decide, rfl⟩ }

theorem listDeepCopy_owned_cached :
    cachedHeaps.Extends (listDeepCopy cachedHeaps (some 0)).1 ∧
      PointsAbove cachedHeaps.lists (listDeepCopy cachedHeaps (some 0)).1.lists
        (ListRecord.Owned cachedHeaps (listDeepCopy cachedHeaps (some 0)).1)
        (listDeepCopy cachedHeaps (some 0)).2 (some [cachedApp]) :=
  listDeepCopy_owned cachedHeaps ⟨0, _, rfl, rfl, _, ⟨_, rfl, by decide, rfl⟩,
    .cons cachedRecord_shows .nil⟩

end Wardn.Memory
