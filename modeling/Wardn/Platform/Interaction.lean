import Wardn.Lib.Runs
import Wardn.Platform.ListView

/-!
# Using the list views

What a user does in `DeploymentView` and `ClusterView`, event by event: text is typed, filter values
are toggled, the order is changed and pages are turned.  An effect sends the view back to its first
page when a state it depends on has changed; `PagedView` is what both views share of this.

`PagedView.Inside` is the invariant: the page in the state is one of the pages there are.  The
events that can change their number reset the page, and the order of the items, which the effect
does not depend on, leaves the number alone (`steady`).
-/

namespace Wardn.Platform

open Runs

/-- The state of a view: its controls, the page asked for and the page size. -/
structure ViewState (C : Type) where
  controls : C
  page : ℕ
  pageSize : ℕ

/-- An event of a view; `E` are those of its filters and its order. -/
inductive ViewEvent (E : Type)
  | control (event : E)
  | prev
  | next
  | goto (page : ℕ)
  | resize (pageSize : ℕ)

/-- A view of a list under its controls. -/
structure PagedView (C E α : Type) where
  /-- The items that are listed, in order. -/
  filtered : C → List α
  handle : C → E → C
  /-- The event changes a state that the effect depends on.  A set of selected values is a new one
  after each event that touches it. -/
  resets : C → E → Bool
  steady : ∀ c e, resets c e = false → (filtered (handle c e)).length = (filtered c).length

/-- The choices of `NumberedPagination`. -/
def pageSizeOptions : List ℕ := [10, 20, 50]

section Paged

variable {C E α : Type} (v : PagedView C E α)

/-- What is rendered in a state. -/
def PagedView.view (s : ViewState C) : ListView α :=
  listView (v.filtered s.controls) s.page s.pageSize

/-- The state of the first render: page 0, ten items a page. -/
def PagedView.start (c : C) : ViewState C := ⟨c, 0, 10⟩

/-- The handler of an event and the effect behind it. -/
def PagedView.step (s : ViewState C) : ViewEvent E → ViewState C
  | .control event =>
    { s with
      controls := v.handle s.controls event
      page := if v.resets s.controls event then 0 else s.page }
  | .prev => { s with page := max 0 ((v.view s).currentPage - 1) }
  | .next => { s with page := min ((v.view s).totalPages - 1) ((v.view s).currentPage + 1) }
  | .goto page => { s with page := page }
  | .resize pageSize =>
    { s with pageSize := pageSize, page := if pageSize = s.pageSize then s.page else 0 }

/-- The events that a view offers: pages are turned with the bar under a list that is not empty,
to the pages that the bar shows. -/
def PagedView.Offered (s : ViewState C) : ViewEvent E → Prop
  | .control _ => True
  | .prev => (v.view s).pagination ≠ none
  | .next => (v.view s).pagination ≠ none
  | .goto page => ∃ bar, (v.view s).pagination = some bar ∧ .page page ∈ bar.pageRange
  | .resize pageSize => (v.view s).pagination ≠ none ∧ pageSize ∈ pageSizeOptions

/-- The page in the state exists. -/
structure PagedView.Inside (s : ViewState C) : Prop where
  page : s.page < (v.view s).totalPages
  sized : s.pageSize ∈ pageSizeOptions

/-- `Next`, a number of times. -/
def PagedView.nexts (n : ℕ) (s : ViewState C) : ViewState C :=
  (List.replicate n ViewEvent.next).foldl v.step s

/-- What a user can rely on in a state of the view. -/
structure PagedView.Browsable (s : ViewState C) : Prop where
  /-- The page that is shown is the one in the state. -/
  shown : (v.view s).currentPage = s.page
  nonempty : v.filtered s.controls ≠ [] → (v.view s).paged ≠ []
  /-- Behind a change of the filters, `Next` goes through all the items. -/
  throughout : ∀ e, v.resets s.controls e = true →
    (List.range (v.view (v.step s (.control e))).totalPages).flatMap
        (fun n => (v.view (v.nexts n (v.step s (.control e)))).paged) =
      v.filtered (v.handle s.controls e)

variable {v}

theorem totalPages_view (s : ViewState C) :
    (v.view s).totalPages = max 1 ((v.filtered s.controls).length ⌈/⌉ s.pageSize) := rfl

theorem one_le_of_mem_pageSizeOptions {pageSize : ℕ} (option : pageSize ∈ pageSizeOptions) :
    1 ≤ pageSize := by
  unfold pageSizeOptions at option
  simp only [List.mem_cons, List.not_mem_nil, or_false] at option
  omega

/-- The first page exists. -/
theorem inside_first (c : C) {pageSize : ℕ} (option : pageSize ∈ pageSizeOptions) :
    v.Inside ⟨c, 0, pageSize⟩ := by
  refine ⟨?_, option⟩
  rw [totalPages_view]
  exact lt_of_lt_of_le Nat.zero_lt_one (Nat.le_max_left _ _)

theorem step_of_resets {s : ViewState C} {e : E} (resets : v.resets s.controls e = true) :
    v.step s (.control e) = ⟨v.handle s.controls e, 0, s.pageSize⟩ := by
  simp only [PagedView.step, resets, if_true]

theorem step_of_steady {s : ViewState C} {e : E} (steady : v.resets s.controls e = false) :
    v.step s (.control e) = ⟨v.handle s.controls e, s.page, s.pageSize⟩ := by
  simp only [PagedView.step, steady, Bool.false_eq_true, if_false]

theorem PagedView.Inside.currentPage {s : ViewState C} (inside : v.Inside s) :
    (v.view s).currentPage = s.page :=
  currentPage_of_lt inside.page

/-- A page that the bar shows exists. -/
theorem lt_totalPages_of_offered {s : ViewState C} {bar : Pagination} {page : ℕ}
    (shown : (v.view s).pagination = some bar) (member : .page page ∈ bar.pageRange) :
    page < (v.view s).totalPages := by
  obtain ⟨-, rfl⟩ := (pagination_eq_some_iff s.page bar).mp shown
  have current : (v.view s).currentPage < (v.view s).totalPages := currentPage_lt s.page
  have listed : page ∈ numbers (getPageRange (v.view s).currentPage (v.view s).totalPages) :=
    List.mem_filterMap.mpr ⟨.page page, member, rfl⟩
  rw [getPageRange_eq current, numbers_withGaps] at listed
  exact ((mem_shown_iff current page).mp listed).1

/-- **One event** leaves a page that exists. -/
theorem PagedView.Inside.step {s : ViewState C} (inside : v.Inside s) {e : ViewEvent E}
    (offered : v.Offered s e) : v.Inside (v.step s e) := by
  have page := inside.page
  have current := inside.currentPage
  cases e with
  | control event =>
      cases reset : v.resets s.controls event with
      | true =>
          rw [step_of_resets reset]
          exact inside_first _ inside.sized
      | false =>
          rw [step_of_steady reset]
          refine ⟨?_, inside.sized⟩
          rw [totalPages_view, v.steady s.controls event reset]
          exact page
  | prev =>
      refine ⟨?_, inside.sized⟩
      change max 0 ((v.view s).currentPage - 1) < (v.view s).totalPages
      omega
  | next =>
      refine ⟨?_, inside.sized⟩
      change min ((v.view s).totalPages - 1) ((v.view s).currentPage + 1) < (v.view s).totalPages
      omega
  | goto page =>
      obtain ⟨bar, shown, member⟩ := offered
      have exists' : page < (v.view s).totalPages := lt_totalPages_of_offered shown member
      exact ⟨exists', inside.sized⟩
  | resize pageSize =>
      obtain ⟨-, option⟩ := offered
      change v.Inside ⟨s.controls, if pageSize = s.pageSize then s.page else 0, pageSize⟩
      by_cases same : pageSize = s.pageSize
      · rw [if_pos same, same]
        exact ⟨page, inside.sized⟩
      · rw [if_neg same]
        exact inside_first s.controls option

/-- `Next` goes one page on up to the last one, and changes nothing else. -/
theorem nexts_eq {s : ViewState C} (inside : v.Inside s) (first : s.page = 0) {n : ℕ}
    (few : n < (v.view s).totalPages) : v.nexts n s = { s with page := n } := by
  induction n with
  | zero =>
      obtain ⟨c, page, pageSize⟩ := s
      obtain rfl : page = 0 := first
      rfl
  | succ n ih =>
      have earlier := ih (by omega)
      have less : n < (listView (v.filtered s.controls) n s.pageSize).totalPages := by
        change n < (v.view s).totalPages
        omega
      have current : (v.view { s with page := n }).currentPage = n := currentPage_of_lt less
      unfold PagedView.nexts at earlier ⊢
      rw [List.replicate_succ', List.foldl_append, earlier, List.foldl_cons, List.foldl_nil]
      unfold PagedView.step
      rw [current]
      change ViewState.mk s.controls (min ((v.view s).totalPages - 1) (n + 1)) s.pageSize = _
      rw [Nat.min_eq_right (by omega)]

/-- From the first page `Next` goes through all the items. -/
theorem flatMap_nexts {s : ViewState C} (inside : v.Inside s) (first : s.page = 0) :
    (List.range (v.view s).totalPages).flatMap (fun n => (v.view (v.nexts n s)).paged) =
      v.filtered s.controls := by
  have each : ∀ n ∈ List.range (v.view s).totalPages, (v.view (v.nexts n s)).paged =
      (listView (v.filtered s.controls) n s.pageSize).paged := by
    intro n member
    rw [nexts_eq inside first (List.mem_range.mp member)]
    rfl
  rw [List.flatMap_congr each]
  exact flatMap_paged (one_le_of_mem_pageSizeOptions inside.sized) s.page

/-- A state whose page exists can be browsed. -/
theorem PagedView.Inside.browsable {s : ViewState C} (inside : v.Inside s) : v.Browsable s := by
  refine ⟨inside.currentPage, fun some nothing => ?_, fun e reset => ?_⟩
  · have start := start_lt_length (one_le_of_mem_pageSizeOptions inside.sized) s.page some
    have length := congrArg List.length nothing
    have sized := one_le_of_mem_pageSizeOptions inside.sized
    unfold PagedView.view at length
    rw [paged_listView, Paging.length_page, List.length_nil] at length
    omega
  · have there : v.Inside (v.step s (.control e)) := inside.step trivial
    rw [step_of_resets reset] at there ⊢
    exact flatMap_nexts there rfl

/-- Every state of a session is browsable. -/
theorem browsable_of_offered (c : C) {events : List (ViewEvent E)}
    (offered : Along v.step v.Offered (PagedView.start c) events) :
    v.Browsable (events.foldl v.step (PagedView.start c)) := by
  have inside := offered.invariant (I := v.Inside)
    (fun _ _ inside offered => inside.step offered) (inside_first c List.mem_cons_self)
  exact inside.browsable

end Paged

/-! ## The events of the two views -/

/-- `toggleFilter`. -/
def toggleFilter {β : Type} [DecidableEq β] (selected : Finset β) (value : β) : Finset β :=
  if value ∈ selected then selected.erase value else insert value selected

/-- The other direction. -/
def SortDirection.flip : SortDirection → SortDirection
  | asc => desc
  | desc => asc

/-- The events of `DeploymentView`; the reset of the order picks the field `name`. -/
inductive DeploymentEvent
  | setSearch (text : String)
  | toggleSyncStatus (s : SyncStatus)
  | toggleHealthStatus (h : HealthStatus)
  | toggleCluster (c : String)
  | toggleProject (p : String)
  | clearAllFilters
  /-- The button under an empty list. -/
  | clearFilters
  /-- A click on a column of the list. -/
  | handleSort (field : SortField)
  | sortFieldChange (field : SortField)
  | sortDirectionChange (direction : SortDirection)

/-- `clearAllFilters` of the deployment view; the sorting stays. -/
def DeploymentControls.clearAllFilters (controls : DeploymentControls) : DeploymentControls :=
  { controls with
    selectedSyncStatuses := ∅, selectedHealthStatuses := ∅, selectedClusters := ∅,
    selectedProjects := ∅ }

/-- The handlers of the deployment view's controls. -/
def DeploymentControls.handle (controls : DeploymentControls) :
    DeploymentEvent → DeploymentControls
  | .setSearch text => { controls with search := text }
  | .toggleSyncStatus s =>
    { controls with selectedSyncStatuses := toggleFilter controls.selectedSyncStatuses s }
  | .toggleHealthStatus h =>
    { controls with selectedHealthStatuses := toggleFilter controls.selectedHealthStatuses h }
  | .toggleCluster c =>
    { controls with selectedClusters := toggleFilter controls.selectedClusters c }
  | .toggleProject p =>
    { controls with selectedProjects := toggleFilter controls.selectedProjects p }
  | .clearAllFilters => controls.clearAllFilters
  | .clearFilters => { controls.clearAllFilters with search := "" }
  | .handleSort field =>
    if controls.sortField = field then
      { controls with sortDirection := controls.sortDirection.flip }
    else { controls with sortField := field, sortDirection := .asc }
  | .sortFieldChange field => { controls with sortField := field, sortDirection := .asc }
  | .sortDirectionChange direction => { controls with sortDirection := direction }

/-- The effect depends on the search text and the selected values; setting the text that is there
changes nothing. -/
def DeploymentControls.resets (controls : DeploymentControls) : DeploymentEvent → Bool
  | .setSearch text => decide (text ≠ controls.search)
  | .handleSort _ => false
  | .sortFieldChange _ => false
  | .sortDirectionChange _ => false
  | _ => true

/-- The controls of the first render. -/
def DeploymentControls.initial : DeploymentControls := ⟨"", .name, .asc, ∅, ∅, ∅, ∅⟩

/-- What a user does to the controls of the cluster view. -/
inductive ClusterEvent
  | setSearch (text : String)
  | toggleStatus (s : ClusterStatus)
  | toggleProvider (p : ClusterProvider)
  | clearAllFilters
  | clearFilters
  | handleSort (field : ClusterSortField)
  | sortFieldChange (field : ClusterSortField)
  | sortDirectionChange (direction : SortDirection)

/-- `clearAllFilters` of the cluster view. -/
def ClusterControls.clearAllFilters (controls : ClusterControls) : ClusterControls :=
  { controls with selectedStatuses := ∅, selectedProviders := ∅ }

/-- The handlers of the cluster view's controls. -/
def ClusterControls.handle (controls : ClusterControls) : ClusterEvent → ClusterControls
  | .setSearch text => { controls with search := text }
  | .toggleStatus s =>
    { controls with selectedStatuses := toggleFilter controls.selectedStatuses s }
  | .toggleProvider p =>
    { controls with selectedProviders := toggleFilter controls.selectedProviders p }
  | .clearAllFilters => controls.clearAllFilters
  | .clearFilters => { controls.clearAllFilters with search := "" }
  | .handleSort field =>
    if controls.sortField = field then
      { controls with sortDirection := controls.sortDirection.flip }
    else { controls with sortField := field, sortDirection := .asc }
  | .sortFieldChange field => { controls with sortField := field, sortDirection := .asc }
  | .sortDirectionChange direction => { controls with sortDirection := direction }

/-- Whether the effect on the filter values runs after the event. -/
def ClusterControls.resets (controls : ClusterControls) : ClusterEvent → Bool
  | .setSearch text => decide (text ≠ controls.search)
  | .handleSort _ => false
  | .sortFieldChange _ => false
  | .sortDirectionChange _ => false
  | _ => true

/-- The controls of the first render. -/
def ClusterControls.initial : ClusterControls := ⟨"", .name, .asc, ∅, ∅⟩

section Views

variable (locale : Locale)

/-- The number of items does not depend on their order. -/
theorem length_sort_filter {α : Type} (cmp : α → α → ℤ) (keeps : α → Bool) (items : List α) :
    (Sorting.sort cmp (items.filter keeps)).length = (items.filter keeps).length :=
  (Sorting.perm_sort cmp (items.filter keeps)).length_eq

/-- An event that resets no page keeps the same deployments. -/
theorem DeploymentControls.steady (deployments : List Deployment) (controls : DeploymentControls)
    (event : DeploymentEvent) (steady : controls.resets event = false) :
    deployments.filter ((controls.handle event).keeps locale) =
      deployments.filter (controls.keeps locale) := by
  cases event with
  | setSearch text =>
      have same : text = controls.search := by
        by_contra other
        exact Bool.noConfusion ((decide_eq_true other).symm.trans steady)
      rw [DeploymentControls.handle, same]
  | handleSort field =>
      unfold DeploymentControls.handle
      dsimp only
      split
      next => rfl
      next => rfl
  | sortFieldChange field => rfl
  | sortDirectionChange direction => rfl
  | _ => cases steady

/-- An event that resets no page keeps the same clusters. -/
theorem ClusterControls.steady (clusters : List Cluster) (controls : ClusterControls)
    (event : ClusterEvent) (steady : controls.resets event = false) :
    clusters.filter ((controls.handle event).keeps locale) =
      clusters.filter (controls.keeps locale) := by
  cases event with
  | setSearch text =>
      have same : text = controls.search := by
        by_contra other
        exact Bool.noConfusion ((decide_eq_true other).symm.trans steady)
      rw [ClusterControls.handle, same]
  | handleSort field =>
      unfold ClusterControls.handle
      dsimp only
      split
      next => rfl
      next => rfl
  | sortFieldChange field => rfl
  | sortDirectionChange direction => rfl
  | _ => cases steady

/-- `DeploymentView` with its handlers. -/
def deploymentPages (deployments : List Deployment) :
    PagedView DeploymentControls DeploymentEvent Deployment where
  filtered controls :=
    Sorting.sort (controls.compare locale) (deployments.filter (controls.keeps locale))
  handle := DeploymentControls.handle
  resets := DeploymentControls.resets
  steady := by
    intro controls event steady
    rw [length_sort_filter, length_sort_filter, controls.steady locale deployments event steady]

/-- `ClusterView` with its handlers. -/
def clusterPages (clusters : List Cluster) : PagedView ClusterControls ClusterEvent Cluster where
  filtered controls :=
    Sorting.sort (controls.compare locale) (clusters.filter (controls.keeps locale))
  handle := ClusterControls.handle
  resets := ClusterControls.resets
  steady := by
    intro controls event steady
    rw [length_sort_filter, length_sort_filter, controls.steady locale clusters event steady]

theorem deploymentPages_view (deployments : List Deployment) (s : ViewState DeploymentControls) :
    (deploymentPages locale deployments).view s =
      DeploymentView locale deployments s.controls s.page s.pageSize := rfl

theorem clusterPages_view (clusters : List Cluster) (s : ViewState ClusterControls) :
    (clusterPages locale clusters).view s =
      ClusterView locale clusters s.controls s.page s.pageSize := rfl

/-- **Sessions.**  Whatever a user does in either view, by the means that the view offers, the page
shown is the one in the state, it is empty only when nothing matches, and behind every change of the
filters `Next` goes through all the matching items. -/
theorem sessions_browsable :
    (∀ deployments events, Along (deploymentPages locale deployments).step
        (deploymentPages locale deployments).Offered (PagedView.start .initial) events →
      (deploymentPages locale deployments).Browsable
        (events.foldl (deploymentPages locale deployments).step (PagedView.start .initial))) ∧
    (∀ clusters events, Along (clusterPages locale clusters).step
        (clusterPages locale clusters).Offered (PagedView.start .initial) events →
      (clusterPages locale clusters).Browsable
        (events.foldl (clusterPages locale clusters).step (PagedView.start .initial))) :=
  ⟨fun _ _ offered => browsable_of_offered DeploymentControls.initial offered,
    fun _ _ offered => browsable_of_offered ClusterControls.initial offered⟩

/-- A bar stands under the clusters as long as one of them is kept. -/
theorem clusterPages_pagination_ne_none {clusters : List Cluster} {s : ViewState ClusterControls}
    (kept : clusters.filter (s.controls.keeps locale) ≠ []) :
    ((clusterPages locale clusters).view s).pagination ≠ none := by
  intro none
  have empty := (pagination_eq_none_iff s.page).mp none
  have length := length_sort_filter (s.controls.compare locale) (s.controls.keeps locale) clusters
  change Sorting.sort _ _ = [] at empty
  rw [empty, List.length_nil] at length
  exact kept (List.length_eq_zero_iff.mp length.symm)

end Views

/-- A status is picked, the order turned round and the page turned. -/
theorem sessions_browsable_of_three :
    let cluster := fun name status => (⟨name, "https://10.0.1.10:6443", status, .AWS, "us-east-1",
      8, none⟩ : Cluster)
    let view := clusterPages initials
      [cluster "prod" .Connected, cluster "edge" .Error, cluster "staging" .Connected]
    let events := [.control (.toggleStatus .Connected), .control (.handleSort .name), .next]
    Along view.step view.Offered (PagedView.start .initial) events ∧
      view.Browsable (events.foldl view.step (PagedView.start .initial)) := by
  intro cluster view events
  have offered : Along view.step view.Offered (PagedView.start .initial) events :=
    ⟨trivial, trivial, clusterPages_pagination_ne_none initials (by decide), trivial⟩
  exact ⟨offered, (sessions_browsable initials).2 _ events offered⟩

end Wardn.Platform
