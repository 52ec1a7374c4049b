import Wardn.Manifest.Parser

/-!
# What the scanner reads

`extractResourceMeta` looks at every line by itself, whatever its indentation, and keeps the
last match: each field of its result is the value on the last line that, trimmed, starts with
the key and a colon (`extractResourceMeta_eq`).
-/

namespace Wardn

open Strings

/-- The value that a trimmed line gives a key, when it starts with the key and a colon. -/
def keyValue (key : String) (line : List Char) : Option String :=
  if (key ++ ":").toList <+: line then
    some (String.ofList (trim (line.drop (key ++ ":").toList.length)))
  else none

/-- The value on the last of the lines that gives the key one; empty when there is none. -/
def lastValue (key : String) (lines : List (List Char)) : String :=
  (lines.filterMap (keyValue key)).getLast?.getD ""

theorem keyValue_nil (key : String) : keyValue key [] = none := by
  simp [keyValue]

/-- Lines without a visible character give no key a value. -/
theorem filterMap_visible (key : String) (lines : List (List Char)) :
    (visible lines).filterMap (keyValue key) = (lines.map trim).filterMap (keyValue key) := by
  induction lines with
  | nil => rfl
  | cons line lines ih =>
      rw [visible_cons, List.map_cons, List.filterMap_cons, ← ih]
      by_cases blank : trim line = []
      · rw [if_pos blank, blank, keyValue_nil]
      · rw [if_neg blank, List.filterMap_cons]

/-- The value of a key after one more line. -/
theorem getLast?_filterMap_cons (key : String) (line : List Char) (lines : List (List Char))
    (old : String) :
    ((line :: lines).filterMap (keyValue key)).getLast?.getD old =
      (lines.filterMap (keyValue key)).getLast?.getD ((keyValue key line).getD old) := by
  rw [List.filterMap_cons]
  cases found : keyValue key line with
  | none => rfl
  | some value =>
      cases later : lines.filterMap (keyValue key) with
      | nil => rfl
      | cons first rest =>
          rw [List.getLast?_cons_cons, List.getLast?_eq_some_getLast (List.cons_ne_nil first rest)]
          rfl

/-- The test and the cut of the scanner's loop body, for one key. -/
theorem keyValue_trim (key line : String) :
    (if hasPrefix (trimSpace line) (key ++ ":") then
      some (trimSpace (trimPrefix (trimSpace line) (key ++ ":"))) else none) =
      keyValue key (trim line.toList) := by
  by_cases found : (key ++ ":").toList <+: trim line.toList
  · have found' : hasPrefix (trimSpace line) (key ++ ":") = true := by simpa using found
    rw [if_pos found', keyValue, if_pos found, trimPrefix, if_pos found']
    simp [trimSpace]
  · have unfound : ¬ hasPrefix (trimSpace line) (key ++ ":") = true := by simpa using found
    rw [if_neg unfound, keyValue, if_neg found]

theorem scanLine_eq (res : Resource) (line : String) :
    scanLine res line =
      { res with
        apiVersion := (keyValue "apiVersion" (trim line.toList)).getD res.apiVersion,
        kind := (keyValue "kind" (trim line.toList)).getD res.kind,
        name := (keyValue "name" (trim line.toList)).getD res.name,
        nameSpace := (keyValue "namespace" (trim line.toList)).getD res.nameSpace } := by
  have apiVersion := keyValue_trim "apiVersion" line
  have kind := keyValue_trim "kind" line
  have name := keyValue_trim "name" line
  have nameSpace := keyValue_trim "namespace" line
  rw [← apiVersion, ← kind, ← name, ← nameSpace]
  unfold scanLine
  by_cases isApiVersion : hasPrefix (trimSpace line) "apiVersion:" <;>
    by_cases isKind : hasPrefix (trimSpace line) "kind:" <;>
      by_cases isName : hasPrefix (trimSpace line) "name:" <;>
        by_cases isNamespace : hasPrefix (trimSpace line) "namespace:" <;>
          simp [isApiVersion, isKind, isName, isNamespace]

theorem foldl_scanLine (text : List String) (res : Resource) :
    let lines := text.map fun line => trim line.toList
    text.foldl scanLine res =
      { res with
        apiVersion := (lines.filterMap (keyValue "apiVersion")).getLast?.getD res.apiVersion,
        kind := (lines.filterMap (keyValue "kind")).getLast?.getD res.kind,
        name := (lines.filterMap (keyValue "name")).getLast?.getD res.name,
        nameSpace := (lines.filterMap (keyValue "namespace")).getLast?.getD res.nameSpace } := by
  induction text generalizing res with
  | nil => rfl
  | cons line text ih =>
      rw [List.foldl_cons, ih, scanLine_eq, List.map_cons]
      simp only [getLast?_filterMap_cons]

/-- **The scanner** gives each field the last value its key has on a line of the text. -/
theorem extractResourceMeta_eq (content : String) :
    extractResourceMeta content =
      { apiVersion := lastValue "apiVersion" (visible (lines content.toList)),
        kind := lastValue "kind" (visible (lines content.toList)),
        name := lastValue "name" (visible (lines content.toList)),
        nameSpace := lastValue "namespace" (visible (lines content.toList)) } := by
  have trimmed : (split content "\n").map (fun line => trim line.toList) =
      (lines content.toList).map trim := by
    rw [split, List.map_map]
    refine List.map_congr_left fun line _ => ?_
    simp
  rw [extractResourceMeta, foldl_scanLine, trimmed]
  simp only [lastValue, filterMap_visible]

end Wardn
