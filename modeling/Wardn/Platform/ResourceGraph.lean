import Mathlib.Algebra.Order.Field.Rat
import Mathlib.Algebra.BigOperators.Group.List.Basic
import Mathlib.Tactic.FieldSimp
import Mathlib.Tactic.Linarith
import Mathlib.Tactic.Ring
import Wardn.Lib.Grouping
import Wardn.Lib.Sorting

/-!
# The resource graph

`buildNodesAndEdges` of `resource-graph.tsx`: the resources of a component are grouped by the layer
of their kind, the layers that occur become columns, and each column is centred around the
horizontal axis.  `IsLayout` says what a layout of the resources is, and
`buildNodesAndEdges_isLayout` that this is one.
-/

namespace Wardn.Platform

/-- The fields of a resource that the layout reads. -/
structure K8sResource where
  id : String
  kind : String
  deriving DecidableEq

/-- `EdgeType` of `resource-graph.tsx`. -/
inductive EdgeType
  | owner
  | selector
  | ingress
  | config
  | volume
  | scaling
  deriving DecidableEq

/-- A relation between two resources, by their ids. -/
structure ResourceEdge where
  id : String
  source : String
  target : String
  type : EdgeType
  label : Option String

/-- A position on the canvas; rationals, for `yOffset` is a half number of spacings. -/
structure XYPosition where
  x : ℚ
  y : ℚ
  deriving DecidableEq

/-- A node of the flow chart, with the resource of its `data`. -/
structure Node where
  id : String
  type : String
  position : XYPosition
  resource : K8sResource
  deriving DecidableEq

/-- An entry of `edgeStyleMap`. -/
structure EdgeStyle where
  stroke : String
  dashed : Bool
  animated : Bool

/-- `edgeStyleMap`: the colour and the dashes of each type of edge. -/
def edgeStyleMap : EdgeType → EdgeStyle
  | .owner => { stroke := "#94a3b8", dashed := false, animated := false }
  | .selector => { stroke := "#6366f1", dashed := true, animated := true }
  | .ingress => { stroke := "#f59e0b", dashed := true, animated := true }
  | .config => { stroke := "#22c55e", dashed := false, animated := false }
  | .volume => { stroke := "#a855f7", dashed := true, animated := false }
  | .scaling => { stroke := "#06b6d4", dashed := false, animated := false }

/-- The `style` of an edge. -/
structure LineStyle where
  stroke : String
  strokeWidth : ℕ
  strokeDasharray : Option String

/-- The two arrow heads of the library. -/
inductive MarkerType
  | Arrow
  | ArrowClosed

/-- The `markerEnd` of an edge. -/
structure MarkerEnd where
  type : MarkerType
  width : ℕ
  height : ℕ
  color : String

/-- The `labelStyle` of an edge. -/
structure LabelStyle where
  fontSize : ℕ
  fill : String
  fontWeight : ℕ

/-- The `labelBgStyle` of an edge. -/
structure LabelBgStyle where
  fill : String
  fillOpacity : ℚ

/-- An edge of the flow chart. -/
structure FlowEdge where
  id : String
  source : String
  target : String
  type : String
  animated : Bool
  style : LineStyle
  markerEnd : MarkerEnd
  label : Option String
  labelStyle : LabelStyle
  labelBgStyle : LabelBgStyle

/-- `layerOrder`: the kinds from the left column to the right one. -/
def layerOrder : List String :=
  ["Ingress", "HorizontalPodAutoscaler", "Service", "Deployment", "StatefulSet", "DaemonSet",
    "ConfigMap", "Secret", "ReplicaSet", "Pod", "PersistentVolumeClaim", "ServiceAccount", "Role",
    "RoleBinding", "NetworkPolicy", "Job", "CronJob"]

/-- `layerMap.get(kind) ?? 99`; no kind stands twice in `layerOrder`. -/
def layer (kind : String) : ℕ := (layerOrder.idxOf? kind).getD 99

/-- The distance of two columns. -/
def H_SPACING : ℚ := 280

/-- The distance of two nodes of a column. -/
def V_SPACING : ℚ := 90

/-- The inner `forEach`: the nodes of one column. -/
def column (col : ℕ) (layerResources : List K8sResource) : List Node :=
  layerResources.mapIdx fun rowIdx resource =>
    let rowCount := layerResources.length
    let yOffset := ((rowIdx : ℚ) - ((rowCount : ℚ) - 1) / 2) * V_SPACING
    { id := resource.id
      type := "resource"
      position := { x := col * H_SPACING, y := yOffset }
      resource := resource }

/-- The outer `forEach`. -/
def columns (sortedLayers : List (ℕ × List K8sResource)) : List Node :=
  (sortedLayers.mapIdx fun layerCol entry => column layerCol entry.2).flatten

/-- The style of an edge exists for every type, so its default is not needed. -/
def flowEdge (edge : ResourceEdge) : FlowEdge :=
  let style := edgeStyleMap edge.type
  { id := edge.id
    source := edge.source
    target := edge.target
    type := "smoothstep"
    animated := style.animated
    style := {
      stroke := style.stroke
      strokeWidth := 2
      strokeDasharray := if style.dashed then some "6 4" else none }
    markerEnd := { type := .ArrowClosed, width := 16, height := 16, color := style.stroke }
    label := edge.label
    labelStyle := { fontSize := 10, fill := "#94a3b8", fontWeight := 500 }
    labelBgStyle := { fill := "var(--color-card, #fff)", fillOpacity := 9 / 10 } }

/-- `sortedLayers`: the resources by layer, in the order of the layers. -/
def sortedLayers (resources : List K8sResource) : List (ℕ × List K8sResource) :=
  let layers := Grouping.group (fun r : K8sResource => layer r.kind) resources
  Sorting.sort (fun a b => (a.1 : ℤ) - (b.1 : ℤ)) layers

/-- `buildNodesAndEdges`: the nodes column by column, and the edges as they come. -/
def buildNodesAndEdges (resources : List K8sResource) (edges : List ResourceEdge) :
    List Node × List FlowEdge :=
  (columns (sortedLayers resources), edges.map flowEdge)

/-! ## What a layout is -/

/-- The layer of the kind of a node. -/
def Node.layer (node : Node) : ℕ := Platform.layer node.resource.kind

/-- The nodes of one layer. -/
def inLayer (l : ℕ) (nodes : List Node) : List Node := nodes.filter fun node => node.layer = l

/-- A layout of the resources in columns. -/
structure IsLayout (resources : List K8sResource) (nodes : List Node) : Prop where
  /-- There is one node for each resource. -/
  drawn : (nodes.map Node.resource).Perm resources
  named : ∀ node ∈ nodes, node.id = node.resource.id ∧ node.type = "resource"
  apart : (nodes.map Node.position).Nodup
  /-- Two nodes share a column when their kinds share a layer. -/
  together : ∀ a ∈ nodes, ∀ b ∈ nodes, a.position.x = b.position.x ↔ a.layer = b.layer
  /-- The columns are the layers that occur, in their order. -/
  numbered : ∃ layers : List ℕ, layers.Pairwise (· < ·) ∧
    (∀ l, l ∈ layers ↔ ∃ r ∈ resources, layer r.kind = l) ∧
    ∀ node ∈ nodes, ∃ col : ℕ, layers[col]? = some node.layer ∧ node.position.x = col * H_SPACING
  unlistedLast : ∀ a ∈ nodes, ∀ b ∈ nodes, a.resource.kind ∈ layerOrder →
    b.resource.kind ∉ layerOrder → a.position.x < b.position.x
  /-- A column keeps the order of its resources. -/
  ordered : ∀ l, (inLayer l nodes).map Node.resource =
    resources.filter fun r => layer r.kind = l
  spaced : ∀ (l i : ℕ) (a b : Node), (inLayer l nodes)[i]? = some a →
    (inLayer l nodes)[i + 1]? = some b → b.position.y = a.position.y + V_SPACING
  centred : ∀ l, ((inLayer l nodes).map fun node => node.position.y).sum = 0

/-! ## One column -/

/-- How far a row of `n` is from the middle. -/
def offset (n i : ℕ) : ℚ := ((i : ℚ) - ((n : ℚ) - 1) / 2) * V_SPACING

theorem offset_injective (n : ℕ) : Function.Injective (offset n) := by
  intro i j same
  simpa [offset, V_SPACING] using same

theorem offset_succ (n i : ℕ) : offset n (i + 1) = offset n i + V_SPACING := by
  rw [offset, offset, Nat.cast_succ]
  ring

/-- The rows above the middle and those below it cancel out. -/
theorem sum_offsets (n : ℕ) : ((List.range n).map (offset n)).sum = 0 := by
  have upTo : ∀ m : ℕ, ((List.range m).map (offset n)).sum =
      (m : ℚ) * ((m : ℚ) - n) / 2 * V_SPACING := by
    intro m
    induction m with
    | zero => simp
    | succ m ih =>
        rw [List.range_succ, List.map_append, List.sum_append, ih, List.map_singleton,
          List.sum_singleton, offset, Nat.cast_succ]
        ring
  rw [upTo, sub_self, mul_zero, zero_div, zero_mul]

variable {col : ℕ} {rs : List K8sResource} {node : Node}

@[simp] theorem length_column : (column col rs).length = rs.length := List.length_mapIdx

/-- The node in row `i` of a column is made of the `i`th resource and of nothing else. -/
theorem getElem?_column (i : ℕ) :
    (column col rs)[i]? = some node ↔ rs[i]? = some node.resource ∧
      node = ⟨node.resource.id, "resource", ⟨col * H_SPACING, offset rs.length i⟩,
        node.resource⟩ := by
  rw [column, List.getElem?_mapIdx, Option.map_eq_some_iff]
  refine ⟨fun found => ?_, fun found => ⟨node.resource, found.1, found.2.symm⟩⟩
  obtain ⟨resource, here, rfl⟩ := found
  exact ⟨here, rfl⟩

theorem map_resource_column (col : ℕ) (rs : List K8sResource) :
    (column col rs).map Node.resource = rs := by
  refine List.ext_getElem (by simp) fun i inside inside' => ?_
  simp only [List.getElem_map, column, List.getElem_mapIdx]

/-- The heights of a column are the offsets of its rows. -/
theorem map_y_column (col : ℕ) (rs : List K8sResource) :
    (column col rs).map (fun node => node.position.y) =
      (List.range rs.length).map (offset rs.length) := by
  refine List.ext_getElem (by simp) fun i inside inside' => ?_
  rw [List.getElem_map, List.getElem_map, List.getElem_range]
  simp only [column, List.getElem_mapIdx]
  rfl

/-- A node of a column: a resource of the layer, at the column's `x` and under its own id. -/
theorem of_mem_column (member : node ∈ column col rs) :
    node.resource ∈ rs ∧ node.position.x = col * H_SPACING ∧ node.id = node.resource.id ∧
      node.type = "resource" := by
  obtain ⟨i, here⟩ := List.mem_iff_getElem?.mp member
  obtain ⟨inside, whole⟩ := (getElem?_column i).mp here
  rw [whole]
  exact ⟨List.mem_of_getElem? inside, rfl, rfl, rfl⟩

/-- No two nodes of a column stand at one position. -/
theorem nodup_positions_column (col : ℕ) (rs : List K8sResource) :
    ((column col rs).map Node.position).Nodup := by
  refine List.Nodup.of_map XYPosition.y ?_
  rw [List.map_map]
  have rows := map_y_column col rs
  rw [Function.comp_def, rows]
  exact List.nodup_range.map (offset_injective rs.length)

/-! ## The columns of the resources -/

/-- The nodes are those of the columns, each counted from zero. -/
theorem mem_columns_iff {groups : List (ℕ × List K8sResource)} :
    node ∈ columns groups ↔
      ∃ (col : ℕ) (group : ℕ × List K8sResource), groups[col]? = some group ∧
        node ∈ column col group.2 := by
  rw [columns, List.mem_flatten]
  refine ⟨fun found => ?_, fun found => ?_⟩
  · obtain ⟨part, drawn, member⟩ := found
    obtain ⟨col, bound, rfl⟩ := List.mem_mapIdx.mp drawn
    exact ⟨col, _, List.getElem?_eq_getElem bound, member⟩
  · obtain ⟨col, group, here, member⟩ := found
    obtain ⟨bound, rfl⟩ := List.getElem?_eq_some_iff.mp here
    exact ⟨_, List.mem_mapIdx.mpr ⟨col, bound, rfl⟩, member⟩

theorem map_resource_columns (groups : List (ℕ × List K8sResource)) :
    (columns groups).map Node.resource = groups.flatMap Prod.snd := by
  rw [columns, List.map_flatten, List.flatMap_def]
  refine congrArg List.flatten (List.ext_getElem (by simp) fun i inside inside' => ?_)
  simp only [List.getElem_map, List.getElem_mapIdx, map_resource_column]

variable {resources : List K8sResource}

theorem isGrouping_sortedLayers (resources : List K8sResource) :
    Grouping.IsGrouping (fun r : K8sResource => layer r.kind) resources
      (sortedLayers resources) :=
  (Grouping.isGrouping_group _ resources).perm (Sorting.perm_sort _ _)

/-- The layers of the groups increase, so that no layer occurs twice. -/
theorem increasing_sortedLayers (resources : List K8sResource) :
    ((sortedLayers resources).map Prod.fst).Pairwise (· < ·) := by
  have lawful := Sorting.lawful_sub.on fun group : ℕ × List K8sResource => (group.1 : ℤ)
  have ordered := Sorting.pairwise_sort lawful
    (Grouping.group (fun r : K8sResource => layer r.kind) resources)
  have distinct := List.pairwise_map.mp (isGrouping_sortedLayers resources).distinct
  refine List.pairwise_map.mpr ((ordered.and distinct).imp fun {a b} both => ?_)
  obtain ⟨below, other⟩ := both
  omega

/-- A node stands in the column that its layer has among the layers that occur. -/
theorem column_of_mem (member : node ∈ columns (sortedLayers resources)) :
    ∃ col : ℕ, ((sortedLayers resources).map Prod.fst)[col]? = some node.layer ∧
      node.position.x = col * H_SPACING := by
  obtain ⟨col, group, here, drawn⟩ := mem_columns_iff.mp member
  obtain ⟨inside, across, -⟩ := of_mem_column drawn
  have grouping := isGrouping_sortedLayers resources
  rw [grouping.groups group (List.mem_of_getElem? here), List.mem_filter] at inside
  refine ⟨col, ?_, across⟩
  rw [List.getElem?_map, here, Option.map_some, Option.some_inj]
  exact (of_decide_eq_true inside.2).symm

/-- The column of a group has no node of another layer. -/
theorem inLayer_column_of_ne {group : ℕ × List K8sResource} {l : ℕ}
    (member : group ∈ sortedLayers resources) (other : group.1 ≠ l) :
    inLayer l (column col group.2) = [] := by
  refine List.filter_eq_nil_iff.mpr fun node drawn same => other ?_
  have inside := (of_mem_column drawn).1
  rw [(isGrouping_sortedLayers resources).groups group member, List.mem_filter] at inside
  exact (of_decide_eq_true inside.2).symm.trans (of_decide_eq_true same)

/-- Every node of the column of a group is of the group's layer. -/
theorem inLayer_column_self {group : ℕ × List K8sResource}
    (member : group ∈ sortedLayers resources) :
    inLayer group.1 (column col group.2) = column col group.2 := by
  refine List.filter_eq_self.mpr fun node drawn => ?_
  have inside := (of_mem_column drawn).1
  rw [(isGrouping_sortedLayers resources).groups group member, List.mem_filter] at inside
  exact inside.2

/-- The nodes of a layer are the column of its resources. -/
theorem exists_inLayer_eq (resources : List K8sResource) (l : ℕ) :
    ∃ col, inLayer l (columns (sortedLayers resources)) =
      column col (resources.filter fun r => layer r.kind = l) := by
  have grouping := isGrouping_sortedLayers resources
  have parts : inLayer l (columns (sortedLayers resources)) =
      ((sortedLayers resources).mapIdx fun col group =>
        inLayer l (column col group.2)).flatten := by
    rw [columns, inLayer, List.filter_flatten]
    refine congrArg List.flatten (List.ext_getElem (by simp) fun i inside inside' => ?_)
    simp only [List.getElem_map, List.getElem_mapIdx, inLayer]
  have others : ∀ (i : ℕ), ∀ group ∈ sortedLayers resources, group.1 ≠ l →
      inLayer l (column i group.2) = [] := fun i group => inLayer_column_of_ne
  rw [parts]
  by_cases known : l ∈ (sortedLayers resources).map Prod.fst
  · obtain ⟨group, member, rfl⟩ := List.mem_map.mp known
    obtain ⟨col, here⟩ := List.mem_iff_getElem?.mp member
    refine ⟨col, ?_⟩
    rw [Grouping.flatten_mapIdx_of_getElem? grouping.distinct here others,
      inLayer_column_self member, ← grouping.groups group member]
  · have none : resources.filter (fun r => layer r.kind = l) = [] :=
      List.filter_eq_nil_iff.mpr fun r found same =>
        known ((grouping.keys l).mpr ⟨r, found, of_decide_eq_true same⟩)
    refine ⟨0, ?_⟩
    rw [Grouping.flatten_mapIdx_of_not_mem known others, none]
    rfl

/-- In an increasing list the smaller entry stands first. -/
theorem index_lt_of_lt {layers : List ℕ} {i j a b : ℕ} (increasing : layers.Pairwise (· < ·))
    (first : layers[i]? = some a) (second : layers[j]? = some b) (less : a < b) : i < j := by
  obtain ⟨inside, rfl⟩ := List.getElem?_eq_some_iff.mp first
  obtain ⟨inside', rfl⟩ := List.getElem?_eq_some_iff.mp second
  by_contra past
  rcases Nat.lt_or_eq_of_le (Nat.le_of_not_lt past) with before | same
  · have greater := List.pairwise_iff_getElem.mp increasing j i inside' inside before
    omega
  · subst same
    omega

/-- A lower layer stands further to the left. -/
theorem x_lt_of_layer_lt {a b : Node} (first : a ∈ columns (sortedLayers resources))
    (second : b ∈ columns (sortedLayers resources)) (less : a.layer < b.layer) :
    a.position.x < b.position.x := by
  obtain ⟨i, here, across⟩ := column_of_mem first
  obtain ⟨j, here', across'⟩ := column_of_mem second
  have before := index_lt_of_lt (increasing_sortedLayers resources) here here' less
  rw [across, across', H_SPACING]
  have cast : (i : ℚ) < j := Nat.cast_lt.mpr before
  linarith

theorem layer_of_not_mem {kind : String} (unlisted : kind ∉ layerOrder) : layer kind = 99 := by
  rw [layer, List.idxOf?_eq_none_iff.mpr unlisted, Option.getD_none]

theorem layer_lt_of_mem {kind : String} (listed : kind ∈ layerOrder) : layer kind < 99 := by
  obtain ⟨i, here⟩ := Option.isSome_iff_exists.mp (List.isSome_idxOf?.mpr listed)
  obtain ⟨inside, -⟩ := List.idxOf?_eq_some_iff.mp here
  have count : layerOrder.length = 17 := rfl
  rw [layer, here, Option.getD_some]
  omega

/-- Two nodes share a column exactly when their kinds share a layer. -/
theorem x_eq_iff {a b : Node} (first : a ∈ columns (sortedLayers resources))
    (second : b ∈ columns (sortedLayers resources)) :
    a.position.x = b.position.x ↔ a.layer = b.layer := by
  refine ⟨fun aligned => ?_, fun same => ?_⟩
  · rcases Nat.lt_trichotomy a.layer b.layer with before | same | behind
    · exact absurd aligned (ne_of_lt (x_lt_of_layer_lt first second before))
    · exact same
    · exact absurd aligned.symm (ne_of_lt (x_lt_of_layer_lt second first behind))
  · obtain ⟨i, here, across⟩ := column_of_mem first
    obtain ⟨j, here', across'⟩ := column_of_mem second
    rw [← same] at here'
    obtain ⟨inside, -⟩ := List.getElem?_eq_some_iff.mp here
    have distinct := (isGrouping_sortedLayers resources).distinct
    have index : i = j := (List.getElem?_inj inside distinct).mp (here.trans here'.symm)
    rw [across, across', index]

/-- No two nodes stand at one position. -/
theorem nodup_positions (resources : List K8sResource) :
    ((columns (sortedLayers resources)).map Node.position).Nodup := by
  rw [columns, List.map_flatten]
  refine List.nodup_flatten.mpr ⟨fun part member => ?_, ?_⟩
  · obtain ⟨nodes, drawn, rfl⟩ := List.mem_map.mp member
    obtain ⟨col, bound, rfl⟩ := List.mem_mapIdx.mp drawn
    exact nodup_positions_column col _
  · refine List.pairwise_iff_getElem.mpr fun i j inside inside' before => ?_
    simp only [List.getElem_map, List.getElem_mapIdx]
    intro position here there
    obtain ⟨a, drawn, rfl⟩ := List.mem_map.mp here
    obtain ⟨b, drawn', same⟩ := List.mem_map.mp there
    have across := (of_mem_column drawn).2.1
    have across' := (of_mem_column drawn').2.1
    have equal : (i : ℚ) * H_SPACING = j * H_SPACING := by rw [← across, ← across', same]
    have index : (i : ℚ) = j := by simpa [H_SPACING] using equal
    have cast : i = j := Nat.cast_injective index
    omega

/-- **The layout is faithful and free of overlaps**, and the edges keep their ends. -/
theorem buildNodesAndEdges_isLayout (resources : List K8sResource) (edges : List ResourceEdge) :
    IsLayout resources (buildNodesAndEdges resources edges).1 ∧
      (buildNodesAndEdges resources edges).2.map (fun edge => (edge.id, edge.source, edge.target)) =
        edges.map fun edge => (edge.id, edge.source, edge.target) := by
  have grouping := isGrouping_sortedLayers resources
  refine ⟨⟨?_, fun node member => ?_, nodup_positions resources, ?_, ?_, ?_, fun l => ?_, ?_,
    fun l => ?_⟩, List.map_map⟩
  · rw [buildNodesAndEdges, map_resource_columns]
    exact ((Sorting.perm_sort _ _).flatMap_right _).trans (Grouping.perm_group _ resources)
  · obtain ⟨col, group, -, drawn⟩ := mem_columns_iff.mp member
    exact (of_mem_column drawn).2.2
  · exact fun a first b second => x_eq_iff first second
  · exact ⟨_, increasing_sortedLayers resources, grouping.keys, fun node => column_of_mem⟩
  · intro a first b second listed unlisted
    refine x_lt_of_layer_lt first second ?_
    rw [Node.layer, Node.layer, layer_of_not_mem unlisted]
    exact layer_lt_of_mem listed
  · obtain ⟨col, whole⟩ := exists_inLayer_eq resources l
    rw [buildNodesAndEdges, whole, map_resource_column]
  · intro l i a b first second
    obtain ⟨col, whole⟩ := exists_inLayer_eq resources l
    rw [buildNodesAndEdges, whole] at first second
    rw [((getElem?_column i).mp first).2, ((getElem?_column (i + 1)).mp second).2]
    exact offset_succ _ i
  · obtain ⟨col, whole⟩ := exists_inLayer_eq resources l
    rw [buildNodesAndEdges, whole, map_y_column, sum_offsets]

/-- An ingress, a service, two deployments, and a kind that the layer order does not list. -/
example :
    let resources : List K8sResource := [⟨"w", "Widget"⟩, ⟨"a", "Deployment"⟩, ⟨"s", "Service"⟩,
      ⟨"b", "Deployment"⟩, ⟨"i", "Ingress"⟩]
    (buildNodesAndEdges resources []).1.map (fun node => (node.id, node.position)) =
      [("i", ⟨0, 0⟩), ("s", ⟨280, 0⟩), ("a", ⟨560, -45⟩), ("b", ⟨560, 45⟩),
        ("w", ⟨840, 0⟩)] := by
  intro resources
  have layers : Grouping.group (fun r => layer r.kind) resources =
      [(99, [⟨"w", "Widget"⟩]), (3, [⟨"a", "Deployment"⟩, ⟨"b", "Deployment"⟩]),
        (2, [⟨"s", "Service"⟩]), (0, [⟨"i", "Ingress"⟩])] := by decide
  have sorted : sortedLayers resources = [(0, [⟨"i", "Ingress"⟩]), (2, [⟨"s", "Service"⟩]),
      (3, [⟨"a", "Deployment"⟩, ⟨"b", "Deployment"⟩]), (99, [⟨"w", "Widget"⟩])] := by
    rw [sortedLayers, layers]
    simp [Sorting.sort, List.mergeSort, List.MergeSort.Internal.splitInTwo]
  rw [buildNodesAndEdges, sorted]
  decide +kernel

end Wardn.Platform
