import Mathlib.Algebra.Order.Floor.Div
import Mathlib.Data.Finset.Card
import Wardn.Lib.Paging
import Wardn.Lib.Sorting
import Wardn.Platform.PageBar

/-!
# The list views of the platform

`DeploymentView` and `ClusterView`: the items are filtered by the search text and the selected
values, sorted by the chosen field, and shown page by page with a `NumberedPagination` under them.
Both share what happens to the filtered list (`listView`), so `listView_lists` is proved once; a
view adds its filter and its comparison function.
-/

namespace Wardn.Platform

/-- What the runtime knows about texts. -/
structure Locale where
  toLowerCase : String → String
  localeCompare : String → String → ℤ
  lawful : Sorting.Lawful localeCompare

/-- `String.prototype.includes`. -/
def includes (text q : String) : Bool := decide (q.toList <:+: text.toList)

/-- `SortDirection` of the two views. -/
inductive SortDirection
  | asc
  | desc
  deriving DecidableEq

/-- `sortDirection === "asc" ? cmp : -cmp`. -/
def SortDirection.apply : SortDirection → ℤ → ℤ
  | asc, cmp => cmp
  | desc, cmp => -cmp

/-- `selected.size > 0 && !selected.has(value)`. -/
def excludes {α : Type} [DecidableEq α] (selected : Finset α) (value : α) : Bool :=
  decide (0 < selected.card) && !decide (value ∈ selected)

/-! ## Pages -/

/-- What `NumberedPagination` computes from its properties. -/
structure Pagination where
  start : ℕ
  last : ℕ
  totalItems : ℕ
  pageRange : List PageItem
  deriving DecidableEq

/-- The bounds of the label and the items of the bar. -/
def NumberedPagination (page totalPages pageSize totalItems : ℕ) : Pagination where
  start := page * pageSize + 1
  last := min ((page + 1) * pageSize) totalItems
  totalItems := totalItems
  pageRange := getPageRange page totalPages

/-- What a list view computes for one render. -/
structure ListView (α : Type) where
  filtered : List α
  totalPages : ℕ
  currentPage : ℕ
  paged : List α
  pagination : Option Pagination

/-- A filtered and sorted list under a page number, which may be stale. -/
def listView {α : Type} (filtered : List α) (page pageSize : ℕ) : ListView α :=
  let totalPages := max 1 (filtered.length ⌈/⌉ pageSize)
  let currentPage := min page (totalPages - 1)
  { filtered := filtered
    totalPages := totalPages
    currentPage := currentPage
    paged := filtered.extract (currentPage * pageSize) (currentPage * pageSize + pageSize)
    pagination :=
      if 0 < filtered.length then
        some (NumberedPagination currentPage totalPages pageSize filtered.length)
      else none }

/-! ## Deployments -/

/-- `SyncStatus` of `deployments.ts`. -/
inductive SyncStatus
  | Synced
  | OutOfSync
  | Syncing
  | Unknown
  deriving DecidableEq

/-- `HealthStatus` of `deployments.ts`. -/
inductive HealthStatus
  | Healthy
  | Degraded
  | Progressing
  | Missing
  | Unknown
  deriving DecidableEq

/-- The field of a component that the search reads. -/
structure Component where
  name : String

/-- The fields of a deployment that the view reads. -/
structure Deployment where
  name : String
  nameSpace : String
  project : String
  targetCluster : String
  syncStatus : SyncStatus
  healthStatus : HealthStatus
  lastSyncAt : Option String
  components : List Component

/-- `SortField` of the deployment view. -/
inductive SortField
  | name
  | syncStatus
  | healthStatus
  | targetCluster
  | lastSyncAt
  deriving DecidableEq

/-- The state of `DeploymentView` that decides what is listed, less the page. -/
structure DeploymentControls where
  search : String
  sortField : SortField
  sortDirection : SortDirection
  selectedSyncStatuses : Finset SyncStatus
  selectedHealthStatuses : Finset HealthStatus
  selectedClusters : Finset String
  selectedProjects : Finset String

/-- `syncOrder`; `Record<string, number>`, hence `none` for a key it lacks. -/
def syncOrder : SyncStatus → Option ℤ
  | .Synced => some 0
  | .Syncing => some 1
  | .OutOfSync => some 2
  | .Unknown => some 3

/-- `healthOrder`. -/
def healthOrder : HealthStatus → Option ℤ
  | .Healthy => some 0
  | .Progressing => some 1
  | .Degraded => some 2
  | .Missing => some 3
  | .Unknown => some 4

/-- The search of the deployment view: name, namespace, project or a component. -/
def Deployment.matches (locale : Locale) (dep : Deployment) (search : String) : Bool :=
  let q := locale.toLowerCase search
  includes (locale.toLowerCase dep.name) q ||
    includes (locale.toLowerCase dep.nameSpace) q ||
    includes (locale.toLowerCase dep.project) q ||
    dep.components.any fun c => includes (locale.toLowerCase c.name) q

/-- The callback of `filter`. -/
def DeploymentControls.keeps (locale : Locale) (controls : DeploymentControls)
    (dep : Deployment) : Bool :=
  if controls.search ≠ "" ∧ !dep.matches locale controls.search then false
  else if excludes controls.selectedSyncStatuses dep.syncStatus then false
  else if excludes controls.selectedHealthStatuses dep.healthStatus then false
  else if excludes controls.selectedClusters dep.targetCluster then false
  else if excludes controls.selectedProjects dep.project then false
  else true

/-- The `switch` in the callback of `sort`. -/
def SortField.cmp (locale : Locale) : SortField → Deployment → Deployment → ℤ
  | name, a, b => locale.localeCompare a.name b.name
  | syncStatus, a, b =>
    (syncOrder a.syncStatus).getD 99 - (syncOrder b.syncStatus).getD 99
  | healthStatus, a, b =>
    (healthOrder a.healthStatus).getD 99 - (healthOrder b.healthStatus).getD 99
  | targetCluster, a, b => locale.localeCompare a.targetCluster b.targetCluster
  | lastSyncAt, a, b => locale.localeCompare (a.lastSyncAt.getD "0") (b.lastSyncAt.getD "0")

/-- The comparison that the view passes to `sort`. -/
def DeploymentControls.compare (locale : Locale) (controls : DeploymentControls)
    (a b : Deployment) : ℤ :=
  controls.sortDirection.apply (controls.sortField.cmp locale a b)

/-- The list part of `DeploymentView`. -/
def DeploymentView (locale : Locale) (deployments : List Deployment)
    (controls : DeploymentControls) (page pageSize : ℕ) : ListView Deployment :=
  listView (Sorting.sort (controls.compare locale) (deployments.filter (controls.keeps locale)))
    page pageSize

/-! ## Clusters -/

/-- `ClusterStatus` of `clusters.ts`. -/
inductive ClusterStatus
  | Connected
  | Disconnected
  | Error
  | Unknown
  deriving DecidableEq

/-- `ClusterProvider` of `clusters.ts`. -/
inductive ClusterProvider
  | AWS
  | GCP
  | Azure
  | OnPrem
  | Kind
  | Other
  deriving DecidableEq

/-- The fields of a cluster that the view reads. -/
structure Cluster where
  name : String
  serverUrl : String
  status : ClusterStatus
  provider : ClusterProvider
  region : String
  nodeCount : ℤ
  lastSeen : Option String

/-- `SortField` of the cluster view. -/
inductive ClusterSortField
  | name
  | status
  | region
  | nodeCount
  | lastSeen
  deriving DecidableEq

/-- The state of the cluster view's controls. -/
structure ClusterControls where
  search : String
  sortField : ClusterSortField
  sortDirection : SortDirection
  selectedStatuses : Finset ClusterStatus
  selectedProviders : Finset ClusterProvider

/-- `statusOrder` of the cluster view. -/
def statusOrder : ClusterStatus → Option ℤ
  | .Connected => some 0
  | .Unknown => some 1
  | .Error => some 2
  | .Disconnected => some 3

/-- The search of the cluster view. -/
def Cluster.matches (locale : Locale) (cluster : Cluster) (search : String) : Bool :=
  let q := locale.toLowerCase search
  includes (locale.toLowerCase cluster.name) q ||
    includes (locale.toLowerCase cluster.serverUrl) q ||
    includes (locale.toLowerCase cluster.region) q

/-- The filter of the cluster view. -/
def ClusterControls.keeps (locale : Locale) (controls : ClusterControls)
    (cluster : Cluster) : Bool :=
  if controls.search ≠ "" ∧ !cluster.matches locale controls.search then false
  else if excludes controls.selectedStatuses cluster.status then false
  else if excludes controls.selectedProviders cluster.provider then false
  else true

/-- The `switch` of the cluster view's comparison. -/
def ClusterSortField.cmp (locale : Locale) : ClusterSortField → Cluster → Cluster → ℤ
  | name, a, b => locale.localeCompare a.name b.name
  | status, a, b => (statusOrder a.status).getD 99 - (statusOrder b.status).getD 99
  | region, a, b => locale.localeCompare a.region b.region
  | nodeCount, a, b => a.nodeCount - b.nodeCount
  | lastSeen, a, b => locale.localeCompare (a.lastSeen.getD "0") (b.lastSeen.getD "0")

/-- The comparison that the view passes to `sort`. -/
def ClusterControls.compare (locale : Locale) (controls : ClusterControls) (a b : Cluster) : ℤ :=
  controls.sortDirection.apply (controls.sortField.cmp locale a b)

/-- The list part of `ClusterView`. -/
def ClusterView (locale : Locale) (clusters : List Cluster) (controls : ClusterControls)
    (page pageSize : ℕ) : ListView Cluster :=
  listView (Sorting.sort (controls.compare locale) (clusters.filter (controls.keeps locale)))
    page pageSize

/-! ## What is listed -/

/-- The search text occurs in one of the texts, in upper or lower case alike. -/
def Locale.Finds (locale : Locale) (search : String) (texts : List String) : Prop :=
  ∃ text ∈ texts, (locale.toLowerCase search).toList <:+: (locale.toLowerCase text).toList

/-- A selection without values lets everything pass. -/
def Allows {α : Type} (selected : Finset α) (value : α) : Prop := selected = ∅ ∨ value ∈ selected

/-- What the filter of the deployment view asks of a deployment. -/
@[mk_iff]
structure DeploymentControls.Matches (locale : Locale) (controls : DeploymentControls)
    (dep : Deployment) : Prop where
  found : controls.search = "" ∨ locale.Finds controls.search
    (dep.name :: dep.nameSpace :: dep.project :: dep.components.map Component.name)
  syncStatus : Allows controls.selectedSyncStatuses dep.syncStatus
  healthStatus : Allows controls.selectedHealthStatuses dep.healthStatus
  targetCluster : Allows controls.selectedClusters dep.targetCluster
  project : Allows controls.selectedProjects dep.project

/-- What the filter of the cluster view asks of a cluster. -/
@[mk_iff]
structure ClusterControls.Matches (locale : Locale) (controls : ClusterControls)
    (cluster : Cluster) : Prop where
  found : controls.search = "" ∨
    locale.Finds controls.search [cluster.name, cluster.serverUrl, cluster.region]
  status : Allows controls.selectedStatuses cluster.status
  provider : Allows controls.selectedProviders cluster.provider

/-- The key of a field: a text, or a number. -/
inductive Key
  | text (t : String)
  | number (n : ℤ)

/-- Keys of one field, in ascending order. -/
def Locale.Ascending (locale : Locale) : Key → Key → Prop
  | .text a, .text b => locale.localeCompare a b ≤ 0
  | .number a, .number b => a ≤ b
  | _, _ => False

/-- The value of a deployment that a sort field ranks by. -/
def SortField.key (dep : Deployment) : SortField → Key
  | name => .text dep.name
  | syncStatus => .number ((syncOrder dep.syncStatus).getD 99)
  | healthStatus => .number ((healthOrder dep.healthStatus).getD 99)
  | targetCluster => .text dep.targetCluster
  | lastSyncAt => .text (dep.lastSyncAt.getD "0")

/-- The value of a cluster that a sort field ranks by. -/
def ClusterSortField.key (cluster : Cluster) : ClusterSortField → Key
  | name => .text cluster.name
  | status => .number ((statusOrder cluster.status).getD 99)
  | region => .text cluster.region
  | nodeCount => .number cluster.nodeCount
  | lastSeen => .text (cluster.lastSeen.getD "0")

/-- The order of two items by their keys, in the chosen direction. -/
def Locale.InOrder (locale : Locale) {α : Type} (direction : SortDirection) (key : α → Key)
    (a b : α) : Prop :=
  match direction with
  | .asc => locale.Ascending (key a) (key b)
  | .desc => locale.Ascending (key b) (key a)

/-- What a view shows at a page number, when `view` gives what it shows at each. -/
structure Lists {α : Type} (items : List α) (wanted : α → Prop) [DecidablePred wanted]
    (inOrder : α → α → Prop) (view : ℕ → ListView α) (page : ℕ) : Prop where
  /-- The pages, one after the other, are the filtered and sorted list. -/
  pages : (List.range (view page).totalPages).flatMap (fun k => (view k).paged) =
    (view page).filtered
  matching : (view page).filtered.Perm (items.filter fun item => decide (wanted item))
  ordered : (view page).filtered.Pairwise inOrder
  /-- What stands in order before, such as items with the same key, is not rearranged. -/
  stable : ∀ same : List α, same.Pairwise inOrder →
    same.Sublist (items.filter fun item => decide (wanted item)) →
    same.Sublist (view page).filtered
  inRange : (view page).currentPage < (view page).totalPages
  unchanged : page < (view page).totalPages → (view page).currentPage = page
  nonempty : (∃ item ∈ items, wanted item) → (view page).paged ≠ []
  /-- The label counts the items that are shown, from 1. -/
  labelled : ∀ bar, (view page).pagination = some bar →
    bar.totalItems = (view page).filtered.length ∧
      bar.start + (view page).paged.length = bar.last + 1 ∧
      (view page).paged = ((view page).filtered.take bar.last).drop (bar.start - 1)
  hasLabel : (view page).pagination = none ↔ ∀ item ∈ items, ¬ wanted item

/-! ## One page of a list -/

section Pages

variable {α : Type} {filtered : List α} {pageSize : ℕ}

theorem paged_listView (page : ℕ) :
    (listView filtered page pageSize).paged =
      Paging.page pageSize (listView filtered page pageSize).currentPage filtered := by
  rw [Paging.page, listView, List.extract_eq_take_drop, Nat.add_sub_cancel_left]

theorem currentPage_lt (page : ℕ) :
    (listView filtered page pageSize).currentPage <
      (listView filtered page pageSize).totalPages := by
  dsimp only [listView]
  omega

theorem currentPage_of_lt {page : ℕ}
    (inside : page < (listView filtered page pageSize).totalPages) :
    (listView filtered page pageSize).currentPage = page := by
  dsimp only [listView] at inside ⊢
  omega

theorem length_le_totalPages (sized : 1 ≤ pageSize) (page : ℕ) :
    filtered.length ≤ (listView filtered page pageSize).totalPages * pageSize := by
  have count := Nat.le_max_right 1 (filtered.length ⌈/⌉ pageSize)
  have enough := (ceilDiv_le_iff_le_mul sized).mp count
  rwa [Nat.mul_comm] at enough

/-- The pages, one after the other, are the whole list. -/
theorem flatMap_paged (sized : 1 ≤ pageSize) (page : ℕ) :
    (List.range (listView filtered page pageSize).totalPages).flatMap
      (fun k => (listView filtered k pageSize).paged) = filtered := by
  have each : ∀ k ∈ List.range (listView filtered page pageSize).totalPages,
      (listView filtered k pageSize).paged = Paging.page pageSize k filtered := by
    intro k member
    rw [paged_listView, currentPage_of_lt (List.mem_range.mp member)]
  rw [List.flatMap_congr each, Paging.flatMap_page (length_le_totalPages sized page)]

/-- The page that is shown begins within the list. -/
theorem start_lt_length (sized : 1 ≤ pageSize) (page : ℕ) (some : filtered ≠ []) :
    (listView filtered page pageSize).currentPage * pageSize < filtered.length := by
  have inside : (listView filtered page pageSize).currentPage <
      (listView filtered page pageSize).totalPages := currentPage_lt page
  have positive : 0 < filtered.length := List.length_pos_iff.mpr some
  have count : 1 ≤ filtered.length ⌈/⌉ pageSize := by
    by_contra none
    have empty := (ceilDiv_le_iff_le_mul sized).mp (Nat.le_of_lt_succ (Nat.lt_of_not_le none))
    omega
  have last : (listView filtered page pageSize).totalPages = filtered.length ⌈/⌉ pageSize :=
    Nat.max_eq_right count
  rw [last] at inside
  by_contra past
  have enough := Nat.le_of_not_lt past
  rw [Nat.mul_comm] at enough
  have less := (ceilDiv_le_iff_le_mul sized).mpr enough
  omega

/-- The bar is shown exactly when something is left to page through. -/
theorem pagination_eq_some_iff (page : ℕ) (bar : Pagination) :
    (listView filtered page pageSize).pagination = some bar ↔ filtered ≠ [] ∧
      NumberedPagination (listView filtered page pageSize).currentPage
        (listView filtered page pageSize).totalPages pageSize filtered.length = bar := by
  rw [← List.length_pos_iff]
  exact Option.ite_none_right_eq_some.trans (and_congr_right fun _ => Option.some_inj)

theorem pagination_eq_none_iff (page : ℕ) :
    (listView filtered page pageSize).pagination = none ↔ filtered = [] := by
  cases filtered with
  | nil => simp [listView]
  | cons item rest => simp [listView]

/-- The label is about the items that are shown. -/
theorem label_counts (sized : 1 ≤ pageSize) {page : ℕ} {bar : Pagination}
    (shown : (listView filtered page pageSize).pagination = some bar) :
    bar.start + (listView filtered page pageSize).paged.length = bar.last + 1 ∧
      (listView filtered page pageSize).paged = (filtered.take bar.last).drop (bar.start - 1) := by
  obtain ⟨some, rfl⟩ := (pagination_eq_some_iff page bar).mp shown
  have start := start_lt_length sized page some
  rw [paged_listView, Paging.length_page]
  dsimp only [NumberedPagination]
  generalize (listView filtered page pageSize).currentPage = current at start ⊢
  have next : (current + 1) * pageSize = current * pageSize + pageSize := Nat.succ_mul _ _
  refine ⟨by omega, ?_⟩
  have width : min ((current + 1) * pageSize) filtered.length - current * pageSize =
      min pageSize (filtered.length - current * pageSize) := by omega
  rw [Nat.add_sub_cancel, List.drop_take, width, Paging.page, ← List.length_drop,
    ← List.take_eq_take_min]

/-- A view whose filter and comparison function do what they are meant to lists everything. -/
theorem listView_lists {items : List α} {wanted : α → Prop} [DecidablePred wanted]
    {inOrder : α → α → Prop} {keeps : α → Bool} {cmp : α → α → ℤ}
    (filter : ∀ item, keeps item = true ↔ wanted item) (lawful : Sorting.Lawful cmp)
    (order : ∀ a b, cmp a b ≤ 0 ↔ inOrder a b) (sized : 1 ≤ pageSize) (page : ℕ) :
    Lists items wanted inOrder
      (listView (Sorting.sort cmp (items.filter keeps)) · pageSize) page := by
  have kept : items.filter keeps = items.filter fun item => decide (wanted item) :=
    List.filter_congr fun item _ => by
      rw [Bool.eq_iff_iff, filter, decide_eq_true_iff]
  have perm := Sorting.perm_sort cmp (items.filter keeps)
  have empty : Sorting.sort cmp (items.filter keeps) = [] ↔ ∀ item ∈ items, ¬ wanted item := by
    rw [← List.length_eq_zero_iff, perm.length_eq, List.length_eq_zero_iff, List.filter_eq_nil_iff]
    simp only [filter]
  refine ⟨flatMap_paged sized page, kept ▸ perm, ?_, ?_, currentPage_lt page, currentPage_of_lt,
    ?_, fun bar shown => ⟨?_, label_counts sized shown⟩, ?_⟩
  · exact (Sorting.pairwise_sort lawful _).imp fun {a b} => (order a b).mp
  · intro same ordered inside
    rw [← kept] at inside
    exact Sorting.sublist_sort lawful (ordered.imp fun {a b} => (order a b).mpr) inside
  · intro found nothing
    have some : Sorting.sort cmp (items.filter keeps) ≠ [] := fun none => by
      obtain ⟨item, member, wants⟩ := found
      exact empty.mp none item member wants
    have start := start_lt_length sized page some
    have length := congrArg List.length nothing
    rw [paged_listView, Paging.length_page, List.length_nil] at length
    omega
  · obtain ⟨-, rfl⟩ := (pagination_eq_some_iff page bar).mp shown
    rfl
  · exact (pagination_eq_none_iff page).trans empty

end Pages

/-! ## The two views -/

theorem includes_iff (text q : String) : includes text q = true ↔ q.toList <:+: text.toList :=
  decide_eq_true_iff

theorem not_excludes_iff {α : Type} [DecidableEq α] (selected : Finset α) (value : α) :
    ¬ excludes selected value = true ↔ Allows selected value := by
  rw [excludes, Allows, Bool.not_eq_true, Bool.and_eq_false_iff, decide_eq_false_iff_not,
    Finset.card_pos, Finset.not_nonempty_iff_eq_empty, Bool.not_eq_false', decide_eq_true_iff]

theorem not_searched_out_iff (search : String) (found : Bool) :
    ¬ (search ≠ "" ∧ (!found) = true) ↔ search = "" ∨ found = true := by
  rw [Bool.not_eq_true', Classical.not_and_iff_not_or_not, not_not, Bool.not_eq_false]

/-- The filter of the deployment view computes `Matches`. -/
theorem DeploymentControls.keeps_iff (locale : Locale) (controls : DeploymentControls)
    (dep : Deployment) : controls.keeps locale dep = true ↔ controls.Matches locale dep := by
  have found : dep.matches locale controls.search = true ↔ locale.Finds controls.search
      (dep.name :: dep.nameSpace :: dep.project :: dep.components.map Component.name) := by
    simp only [Deployment.matches, Bool.or_eq_true, List.any_eq_true, includes_iff, Locale.Finds,
      List.exists_mem_cons_iff, List.mem_map, exists_exists_and_eq_and, or_assoc]
  rw [controls.matches_iff, ← found]
  simp only [DeploymentControls.keeps, Bool.ite_eq_true_distrib, if_false_left, not_excludes_iff,
    not_searched_out_iff, Bool.false_eq_true, and_true]

/-- The filter of the cluster view computes `Matches`. -/
theorem ClusterControls.keeps_iff (locale : Locale) (controls : ClusterControls)
    (cluster : Cluster) :
    controls.keeps locale cluster = true ↔ controls.Matches locale cluster := by
  have found : cluster.matches locale controls.search = true ↔
      locale.Finds controls.search [cluster.name, cluster.serverUrl, cluster.region] := by
    simp only [Cluster.matches, Bool.or_eq_true, includes_iff, Locale.Finds,
      List.exists_mem_cons_iff, List.not_mem_nil, false_and, exists_false, or_false, or_assoc]
  rw [controls.matches_iff, ← found]
  simp only [ClusterControls.keeps, Bool.ite_eq_true_distrib, if_false_left, not_excludes_iff,
    not_searched_out_iff, Bool.false_eq_true, and_true]

instance (locale : Locale) (controls : DeploymentControls) :
    DecidablePred (controls.Matches locale) := fun dep =>
  decidable_of_iff _ (controls.keeps_iff locale dep)

instance (locale : Locale) (controls : ClusterControls) :
    DecidablePred (controls.Matches locale) := fun cluster =>
  decidable_of_iff _ (controls.keeps_iff locale cluster)

/-- Negating the answers of a comparison function is comparing the other way round. -/
theorem SortDirection.apply_iff {α : Type} {locale : Locale} {cmp : α → α → ℤ} {key : α → Key}
    (lawful : Sorting.Lawful cmp)
    (ascending : ∀ a b, cmp a b ≤ 0 ↔ locale.Ascending (key a) (key b))
    (direction : SortDirection) (a b : α) :
    direction.apply (cmp a b) ≤ 0 ↔ locale.InOrder direction key a b := by
  cases direction with
  | asc => exact ascending a b
  | desc =>
      have turned := lawful.swap a b
      rw [ascending] at turned
      rw [SortDirection.apply, Locale.InOrder, turned]
      omega

/-- Turning a comparison round keeps it a lawful one. -/
theorem SortDirection.lawful {α : Type} {cmp : α → α → ℤ} (lawful : Sorting.Lawful cmp)
    (direction : SortDirection) : Sorting.Lawful fun a b => direction.apply (cmp a b) := by
  cases direction with
  | asc => exact lawful
  | desc => exact lawful.neg

/-- Every comparison of the deployment view is one that `sort` may be given. -/
theorem SortField.lawful (locale : Locale) (field : SortField) :
    Sorting.Lawful (field.cmp locale) := by
  cases field with
  | name => exact locale.lawful.on Deployment.name
  | syncStatus =>
      exact Sorting.lawful_sub.on fun dep : Deployment => (syncOrder dep.syncStatus).getD 99
  | healthStatus =>
      exact Sorting.lawful_sub.on fun dep : Deployment => (healthOrder dep.healthStatus).getD 99
  | targetCluster => exact locale.lawful.on Deployment.targetCluster
  | lastSyncAt => exact locale.lawful.on fun dep : Deployment => dep.lastSyncAt.getD "0"

/-- The deployment comparison is that of the keys. -/
theorem SortField.cmp_le_iff (locale : Locale) (field : SortField) (a b : Deployment) :
    field.cmp locale a b ≤ 0 ↔ locale.Ascending (field.key a) (field.key b) := by
  cases field with
  | name => exact Iff.rfl
  | syncStatus => exact sub_nonpos
  | healthStatus => exact sub_nonpos
  | targetCluster => exact Iff.rfl
  | lastSyncAt => exact Iff.rfl

/-- Every comparison of the cluster view is one that `sort` may be given. -/
theorem ClusterSortField.lawful (locale : Locale) (field : ClusterSortField) :
    Sorting.Lawful (field.cmp locale) := by
  cases field with
  | name => exact locale.lawful.on Cluster.name
  | status =>
      exact Sorting.lawful_sub.on fun cluster : Cluster => (statusOrder cluster.status).getD 99
  | region => exact locale.lawful.on Cluster.region
  | nodeCount => exact Sorting.lawful_sub.on Cluster.nodeCount
  | lastSeen => exact locale.lawful.on fun cluster : Cluster => cluster.lastSeen.getD "0"

/-- The cluster comparison is that of the keys. -/
theorem ClusterSortField.cmp_le_iff (locale : Locale) (field : ClusterSortField)
    (a b : Cluster) :
    field.cmp locale a b ≤ 0 ↔ locale.Ascending (field.key a) (field.key b) := by
  cases field with
  | name => exact Iff.rfl
  | status => exact sub_nonpos
  | region => exact Iff.rfl
  | nodeCount => exact sub_nonpos
  | lastSeen => exact Iff.rfl

/-- **The list views lose and repeat nothing**: under every search, selection, order, page size and
page number, both views show the matching items in order, each on one page. -/
theorem views_list_everything (locale : Locale) {pageSize : ℕ} (sized : 1 ≤ pageSize)
    (page : ℕ) :
    (∀ (deployments : List Deployment) (controls : DeploymentControls),
      Lists deployments (controls.Matches locale)
        (locale.InOrder controls.sortDirection fun dep => controls.sortField.key dep)
        (fun page => DeploymentView locale deployments controls page pageSize) page) ∧
    (∀ (clusters : List Cluster) (controls : ClusterControls),
      Lists clusters (controls.Matches locale)
        (locale.InOrder controls.sortDirection fun cluster => controls.sortField.key cluster)
        (fun page => ClusterView locale clusters controls page pageSize) page) := by
  refine ⟨fun deployments controls => ?_, fun clusters controls => ?_⟩
  · have lawful := SortField.lawful locale controls.sortField
    have ascending := SortField.cmp_le_iff locale controls.sortField
    exact listView_lists (controls.keeps_iff locale)
      (SortDirection.lawful lawful controls.sortDirection)
      (SortDirection.apply_iff lawful ascending controls.sortDirection) sized page
  · have lawful := ClusterSortField.lawful locale controls.sortField
    have ascending := ClusterSortField.cmp_le_iff locale controls.sortField
    exact listView_lists (controls.keeps_iff locale)
      (SortDirection.lawful lawful controls.sortDirection)
      (SortDirection.apply_iff lawful ascending controls.sortDirection) sized page

/-- Texts by their first letters: enough for names in small letters that differ there. -/
def initials : Locale where
  toLowerCase := String.toLower
  localeCompare a b := (a.front.toNat : ℤ) - b.front.toNat
  lawful := Sorting.lawful_sub.on fun text : String => (text.front.toNat : ℤ)

/-- Three clusters on pages of two, under a page number from a longer list. -/
theorem views_list_everything_of_three :
    let cluster := fun name => (⟨name, "https://10.0.1.10:6443", .Connected, .AWS, "us-east-1", 8,
      none⟩ : Cluster)
    let clusters := [cluster "prod", cluster "edge", cluster "staging"]
    let controls : ClusterControls := ⟨"", .name, .asc, ∅, ∅⟩
    1 ≤ 2 ∧ Lists clusters (controls.Matches initials)
      (initials.InOrder controls.sortDirection fun cluster => controls.sortField.key cluster)
      (fun page => ClusterView initials clusters controls page 2) 7 :=
  ⟨by decide, (views_list_everything initials (by decide) 7).2 _ _⟩

/-- Statuses ascend from what is connected to what is disconnected. -/
example :
    let cluster := fun status => (⟨"prod", "https://10.0.1.10:6443", status, .AWS, "us-east-1", 8,
      none⟩ : Cluster)
    [cluster .Connected, cluster .Unknown, cluster .Error, cluster .Disconnected].Pairwise
      fun a b => ClusterControls.compare initials ⟨"", .status, .asc, ∅, ∅⟩ a b < 0 := by
  decide

/-- Health ascends from `Healthy`, and what is degraded stands before what is missing. -/
example :
    let deployment := fun health => (⟨"web", "shop", "retail", "prod", .Synced, health, none,
      []⟩ : Deployment)
    [deployment .Healthy, deployment .Progressing, deployment .Degraded, deployment .Missing,
      deployment .Unknown].Pairwise fun a b =>
        DeploymentControls.compare initials ⟨"", .healthStatus, .asc, ∅, ∅, ∅, ∅⟩ a b < 0 := by
  decide

end Wardn.Platform
