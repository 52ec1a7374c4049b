import Wardn.Lib.Yaml
import Wardn.Manifest.Documents

/-!
# The identity of a rendered object

`extractResourceMeta` on the rendering of a tree of mappings and sequences.  The scanner sees no
indentation, so a key counts wherever it stands on a line of its own: at any depth of the tree,
except as the first key of a mapping in a sequence (which stands behind the dash), and also
inside block scalars.  `Mapping.mentions` lists these places in document order; the scanner takes
the last one, and the identity it returns is the object's own exactly when the last mention of
each of the four keys carries the object's own value (`own_identity_iff`).
-/

namespace Wardn

open Strings Yaml

/-! ## Mentions -/

/-- The value on the line of a key. -/
def headValue (value : Node) : String := String.ofList (trim value.head)

mutual

/-- The values a key has on the lines below a node's head. -/
def mentionsBelow (key : String) : Node → List String
  | .scalar _ => []
  | .block _ lines => lines.filterMap fun line => keyValue key (trim line.text)
  | .mapping m => mentions key m
  | .sequence s => mentionsInSequence key s

/-- The values a key has on the lines of a mapping, in document order. -/
def mentions (key : String) : Mapping → List String
  | .nil => []
  | .cons key' value rest =>
    (if key' = key then [headValue value] else []) ++ mentionsBelow key value ++ mentions key rest

def mentionsInSequence (key : String) : Sequence → List String
  | .nil => []
  | .cons item rest => mentionsInItem key item ++ mentionsInSequence key rest

def mentionsInItem (key : String) : Node → List String
  | .scalar _ => []
  | .block _ lines => lines.filterMap fun line => keyValue key (trim line.text)
  | .mapping m => mentionsBehindDash key m
  | .sequence s => mentionsInSequence key s

/-- The first key of a mapping in a sequence stands behind the dash. -/
def mentionsBehindDash (key : String) : Mapping → List String
  | .nil => []
  | .cons _ value rest => mentionsBelow key value ++ mentions key rest

end

/-- The value of the last mention; empty when there is none. -/
def lastMention (key : String) (m : Mapping) : String := (mentions key m).getLast?.getD ""

/-- The identity that the tree itself gives the object. -/
def ownIdentity (m : Mapping) : Resource :=
  { apiVersion := m.text "apiVersion", kind := m.text "kind",
    name := (m.child "metadata").text "name", nameSpace := (m.child "metadata").text "namespace" }

/-! ## What the scanner reads of a rendered line -/

theorem keyValue_pad (key : String) (indent : Nat) (line : List Char) :
    keyValue key (trim (pad indent line)) = keyValue key (trim line) := by
  have blank : ∀ c ∈ List.replicate indent ' ', isSpace c := by
    intro c member
    rw [List.eq_of_mem_replicate member]
    decide
  rw [pad, trim_blank_append blank]

/-- Of two texts before their first colon, one starts the other only when they are the same. -/
theorem prefix_colon_iff {front front' : List Char} (apart : ':' ∉ front) (apart' : ':' ∉ front')
    (rest : List Char) : front ++ [':'] <+: front' ++ ':' :: rest ↔ front = front' := by
  induction front generalizing front' with
  | nil =>
      cases front' with
      | nil => simp
      | cons c front' =>
          have other : c ≠ ':' := fun same => apart' (same ▸ List.mem_cons_self)
          simp [Ne.symm other]
  | cons c front ih =>
      cases front' with
      | nil =>
          have other : c ≠ ':' := fun same => apart (same ▸ List.mem_cons_self)
          simp [other]
      | cons c' front' =>
          rw [List.cons_append, List.cons_append, List.cons_prefix_cons,
            ih (fun member => apart (List.mem_cons_of_mem c member))
              fun member => apart' (List.mem_cons_of_mem c' member), List.cons.injEq]

/-- A line that starts with another character than the key gives it no value. -/
theorem keyValue_of_head {key : String} (nonempty : key.toList ≠ []) {line : List Char} {c : Char}
    (head : line.head? = some c) (other : key.toList.head? ≠ some c) :
    keyValue key line = none := by
  rw [keyValue, if_neg]
  intro starts
  obtain ⟨rest, rfl⟩ := starts
  obtain ⟨d, ds, split⟩ := List.exists_cons_of_ne_nil nonempty
  rw [String.toList_append, split] at head
  rw [split] at other
  exact other head

section PlainKey

variable {key : String} (plain : plainKey key = true)

include plain

theorem colon_not_mem_plainKey : ':' ∉ key.toList :=
  not_mem_of_plainKey plain (by decide) (by decide)

/-- The text of a plain key and its colon is trimmed. -/
theorem trimmed_plainKey : Trimmed (key.toList ++ [':']) := by
  have visible := forall_of_plainKey plain (P := fun c => isSpace c = false)
    (fun c alphanum => isSpace_of_isAlphanum alphanum) (by simp [isSpace])
  obtain ⟨c, cs, split⟩ := List.exists_cons_of_ne_nil (of_decide_eq_true plain).1
  refine ⟨fun d first => ?_, fun d last => ?_⟩
  · rw [split] at first visible
    cases first
    exact visible c List.mem_cons_self
  · rw [List.getLast?_concat] at last
    cases last
    decide

/-- Nothing behind a dash is read. -/
theorem keyValue_dash (head : List Char) : keyValue key (trim (headed ['-'] head)) = none :=
  keyValue_of_head (of_decide_eq_true plain).1 (head?_trim_cons (by decide) _)
    (of_decide_eq_true plain).2.1

/-- The line of a key is a mention of that key and of no other. -/
theorem keyValue_keyLine (key' : String) (value : Node) :
    keyValue key (trim (keyLine key' value)) =
      if key' = key then some (headValue value) else none := by
  by_cases plain' : plainKey key' = true
  · have line : trim (keyLine key' value) = (key'.toList ++ [':']) ++
        (if value.head = [] then [] else ' ' :: value.head).rdropWhile isSpace := by
      rw [keyLine, headed, writtenKey, if_pos plain']
      exact trim_trimmed_append (trimmed_plainKey plain') (by simp) _
    have colon : (key ++ ":").toList = key.toList ++ [':'] := String.toList_append
    have starts : (key ++ ":").toList <+: trim (keyLine key' value) ↔ key' = key := by
      rw [line, colon, List.append_assoc, List.singleton_append,
        prefix_colon_iff (colon_not_mem_plainKey plain) (colon_not_mem_plainKey plain'),
        String.toList_inj, eq_comm]
    by_cases same : key' = key
    · rw [keyValue, if_pos (starts.mpr same), if_pos same, line, colon, same, List.drop_left,
        trim_rdropWhile, headValue]
      split_ifs with empty
      · rw [empty]
      · have blank : ∀ c ∈ [' '], isSpace c := by simp [isSpace]
        exact congrArg (fun s => some (String.ofList s)) (trim_blank_append blank value.head)
    · rw [keyValue, if_neg (mt starts.mp same), if_neg same]
  · have other : key' ≠ key := fun same => plain' (same ▸ plain)
    have quote : (trim (keyLine key' value)).head? = some '"' := by
      rw [keyLine, headed, writtenKey, if_neg plain']
      exact head?_trim_cons (by decide) _
    have unquoted : '"' ∉ key.toList := not_mem_of_plainKey plain (by decide) (by decide)
    rw [if_neg other]
    refine keyValue_of_head (of_decide_eq_true plain).1 quote fun first => ?_
    exact unquoted (List.mem_of_head? first)

end PlainKey

/-! ## What the scanner reads of a rendered tree -/

mutual

theorem filterMap_bodyLines {key : String} (plain : plainKey key = true) (layout : Layout)
    (indent : Nat) (node : Node) :
    (node.bodyLines layout indent).filterMap (keyValue key ∘ trim) = mentionsBelow key node := by
  cases node with
  | scalar leaf => rfl
  | block style lines =>
      rw [Node.bodyLines, List.filterMap_map, mentionsBelow]
      exact List.filterMap_congr fun line _ => keyValue_pad key _ line.text
  | mapping m => exact filterMap_lines plain layout _ m
  | sequence s => exact filterMap_sequenceLines plain layout _ s

theorem filterMap_lines {key : String} (plain : plainKey key = true) (layout : Layout)
    (indent : Nat) (m : Mapping) :
    (m.lines layout indent).filterMap (keyValue key ∘ trim) = mentions key m := by
  cases m with
  | nil => rfl
  | cons key' value rest =>
      have first : (keyValue key ∘ trim) (pad indent (keyLine key' value)) =
          if key' = key then some (headValue value) else none :=
        (keyValue_pad key indent _).trans (keyValue_keyLine plain key' value)
      rw [Mapping.lines, List.filterMap_cons, List.filterMap_append, filterMap_bodyLines plain,
        filterMap_lines plain, first, mentions]
      split_ifs
      · rfl
      · rfl

theorem filterMap_sequenceLines {key : String} (plain : plainKey key = true) (layout : Layout)
    (indent : Nat) (s : Sequence) :
    (s.lines layout indent).filterMap (keyValue key ∘ trim) = mentionsInSequence key s := by
  cases s with
  | nil => rfl
  | cons item rest =>
      rw [Sequence.lines, List.filterMap_append, filterMap_itemLines plain,
        filterMap_sequenceLines plain, mentionsInSequence]

theorem filterMap_itemLines {key : String} (plain : plainKey key = true) (layout : Layout)
    (indent : Nat) (node : Node) :
    (node.itemLines layout indent).filterMap (keyValue key ∘ trim) = mentionsInItem key node := by
  have dash : ∀ head, (keyValue key ∘ trim) (pad indent (headed ['-'] head)) = none :=
    fun head => (keyValue_pad key indent _).trans (keyValue_dash plain head)
  cases node with
  | scalar leaf =>
      rw [Node.itemLines, List.filterMap_cons_none (dash _)]
      rfl
  | block style lines =>
      rw [Node.itemLines, List.filterMap_cons_none (dash _), List.filterMap_map, mentionsInItem]
      exact List.filterMap_congr fun line _ => keyValue_pad key _ line.text
  | mapping m => exact filterMap_mappingItemLines plain layout _ m
  | sequence s =>
      rw [Node.itemLines, List.filterMap_cons_none (dash _), filterMap_sequenceLines plain,
        mentionsInItem]

theorem filterMap_mappingItemLines {key : String} (plain : plainKey key = true) (layout : Layout)
    (indent : Nat) (m : Mapping) :
    (m.itemLines layout indent).filterMap (keyValue key ∘ trim) = mentionsBehindDash key m := by
  have dash : ∀ head, (keyValue key ∘ trim) (pad indent (headed ['-'] head)) = none :=
    fun head => (keyValue_pad key indent _).trans (keyValue_dash plain head)
  cases m with
  | nil =>
      rw [Mapping.itemLines, List.filterMap_cons_none (dash _)]
      rfl
  | cons key' value rest =>
      rw [Mapping.itemLines, List.filterMap_cons_none (dash _), List.filterMap_append,
        filterMap_bodyLines plain, filterMap_lines plain, mentionsBehindDash]

end

/-- The value that the scanner finds for a plain key in a rendered tree. -/
theorem lastValue_render {key : String} (plain : plainKey key = true) (layout : Layout)
    (m : Mapping) :
    lastValue key (visible (lines (m.render layout).toList)) = lastMention key m := by
  rw [lastValue, filterMap_visible, List.filterMap_map, lastMention,
    ← filterMap_lines plain layout 0]
  by_cases empty : m.lines layout 0 = []
  · have blank : (m.render layout).toList = [] := by rw [Mapping.render, empty]; rfl
    have silent : (keyValue key ∘ trim) [] = none := keyValue_nil key
    have single : lines [] = [[]] := rfl
    rw [empty, blank, single, List.filterMap_cons_none silent]
  · rw [m.lines_render layout empty]

/-- **The identity of a rendered object** is its own exactly when each of the four keys is mentioned
last with the object's own value. -/
theorem own_identity_iff (layout : Layout) (m : Mapping) :
    extractResourceMeta (m.render layout) = ownIdentity m ↔
      lastMention "apiVersion" m = m.text "apiVersion" ∧ lastMention "kind" m = m.text "kind" ∧
        lastMention "name" m = (m.child "metadata").text "name" ∧
          lastMention "namespace" m = (m.child "metadata").text "namespace" := by
  rw [extractResourceMeta_eq, lastValue_render (by decide), lastValue_render (by decide),
    lastValue_render (by decide), lastValue_render (by decide), ownIdentity, Resource.mk.injEq]
  tauto

/-- A rendered tree announces its kind, and is kept by the parser, when the last mention of the key
has a value. -/
theorem announces_render_iff (layout : Layout) (m : Mapping) :
    Announces (m.render layout).toList ↔ lastMention "kind" m ≠ "" := by
  rw [announces_iff, lastValue_render (by decide)]

/-! ## A sample of the platform -/

/-- `yamlHPA("web", "default", 1, 3)`. -/
def yamlHPA : Mapping :=
  .cons "apiVersion" (.scalar { value := "autoscaling/v2" }) <|
  .cons "kind" (.scalar { value := "HorizontalPodAutoscaler" }) <|
  .cons "metadata" (.mapping <|
    .cons "name" (.scalar { value := "web" }) <|
    .cons "namespace" (.scalar { value := "default" }) .nil) <|
  .cons "spec" (.mapping <|
    .cons "scaleTargetRef" (.mapping <|
      .cons "apiVersion" (.scalar { value := "apps/v1" }) <|
      .cons "kind" (.scalar { value := "Deployment" }) <|
      .cons "name" (.scalar { value := "web" }) .nil) <|
    .cons "minReplicas" (.scalar { value := "1" }) <|
    .cons "maxReplicas" (.scalar { value := "3" }) <|
    .cons "metrics" (.sequence <|
      .cons (.mapping <|
        .cons "type" (.scalar { value := "Resource" }) <|
        .cons "resource" (.mapping <|
          .cons "name" (.scalar { value := "cpu" }) <|
          .cons "target" (.mapping <|
            .cons "type" (.scalar { value := "Utilization" }) <|
            .cons "averageUtilization" (.scalar { value := "70" }) .nil) .nil) .nil) .nil) .nil)
  .nil

example : yamlHPA.lines {} 0 =
    ["apiVersion: autoscaling/v2", "kind: HorizontalPodAutoscaler", "metadata:", "  name: web",
      "  namespace: default", "spec:", "  scaleTargetRef:", "    apiVersion: apps/v1",
      "    kind: Deployment", "    name: web", "  minReplicas: 1", "  maxReplicas: 3", "  metrics:",
      "  - type: Resource", "    resource:", "      name: cpu", "      target:",
      "        type: Utilization", "        averageUtilization: 70"].map String.toList := by
  decide

/-- The scanner takes the autoscaler for its target, and for its metric. -/
theorem yamlHPA_identity_lost :
    ownIdentity yamlHPA =
      { apiVersion := "autoscaling/v2", kind := "HorizontalPodAutoscaler", name := "web",
        nameSpace := "default" } ∧
    extractResourceMeta (yamlHPA.render {}) =
      { apiVersion := "apps/v1", kind := "Deployment", name := "cpu", nameSpace := "default" } := by
  rw [extractResourceMeta_eq, lastValue_render (by decide), lastValue_render (by decide),
    lastValue_render (by decide), lastValue_render (by decide)]
  decide

end Wardn
