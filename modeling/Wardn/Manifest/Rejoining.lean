import Wardn.Manifest.Joining

/-!
# Resources written out again

What `parseYAMLDocuments` returns, put back into one text with a line `---` between each two
contents.  Parsing that text gives the same resources exactly when no content but the first starts
with `---` (`parseYAMLDocuments_rejoined_iff`): a line of six dashes is a marker followed by three
dashes, so a content can start like a marker line, and behind another marker it is cut there.
-/

namespace Wardn

open Strings

theorem length_flatMap_le {α β : Type*} {f : α → List β} {l : List α}
    (short : ∀ a ∈ l, (f a).length ≤ 1) : (l.flatMap f).length ≤ l.length := by
  induction l with
  | nil => simp
  | cons a l ih =>
      obtain ⟨here, later⟩ := List.forall_mem_cons.mp short
      have rest := ih later
      rw [List.flatMap_cons, List.length_append, List.length_cons]
      omega

/-- A function that gives at most one element for each leaves a list as it is only when it gives
every element itself. -/
theorem flatMap_eq_self_iff {α : Type*} {f : α → List α} {l : List α}
    (short : ∀ a ∈ l, (f a).length ≤ 1) : l.flatMap f = l ↔ ∀ a ∈ l, f a = [a] := by
  induction l with
  | nil => simp
  | cons a l ih =>
      obtain ⟨here, later⟩ := List.forall_mem_cons.mp short
      have most := length_flatMap_le later
      rw [List.flatMap_cons, List.forall_mem_cons, ← ih later]
      refine ⟨fun same => ?_, fun each => ?_⟩
      · cases first : f a with
        | nil =>
            rw [first, List.nil_append] at same
            rw [same, List.length_cons] at most
            omega
        | cons b rest =>
            rw [first, List.length_cons] at here
            obtain rfl : rest = [] := List.eq_nil_of_length_eq_zero (by omega)
            rw [first] at same
            obtain ⟨rfl, rest⟩ := List.cons_eq_cons.mp same
            exact ⟨rfl, rest⟩
      · rw [each.1, each.2]
        rfl

/-! ## The content of a resource -/

/-- The verdict on a document is one on what is left of it between its margins. -/
theorem parseDocument_congr {doc doc' : String} (same : trimSpace doc = trimSpace doc') :
    parseDocument doc = parseDocument doc' := by
  unfold parseDocument
  rw [same]

/-- A resource is that of its own content, which the splitter would not cut. -/
structure Resource.OwnContent (res : Resource) : Prop where
  trimmed : trimSpace res.content = res.content
  uncut : Uncut res.content.toList
  own : parseDocument res.content = some res

theorem trimSpace_trimSpace (doc : String) : trimSpace (trimSpace doc) = trimSpace doc := by
  have trimmed := trim_eq_self (trimmed_trim doc.toList)
  rw [trimSpace, toList_trimSpace, trimmed]
  rfl

/-- The content of a resource is its trimmed document. -/
theorem content_of_parseDocument {doc : String} {res : Resource}
    (parsed : parseDocument doc = some res) : res.content = trimSpace doc := by
  rw [← String.ofList_toList (s := doc), parseDocument_eq] at parsed
  split_ifs at parsed
  rw [← Option.some.inj parsed, trimSpace]

/-- A parsed resource has a content that is read as itself. -/
theorem ownContent_of_mem_partResources {part : List Char} {res : Resource}
    (member : res ∈ partResources part) : res.OwnContent := by
  obtain ⟨piece, -, verdict⟩ := List.mem_filterMap.mp member
  rw [Function.comp_apply] at verdict
  have content := content_of_parseDocument verdict
  have trimmed : trimSpace res.content = res.content := by
    rw [content, trimSpace_trimSpace]
  have same : parseDocument res.content = parseDocument (String.ofList piece) :=
    parseDocument_congr (trimmed.trans content)
  exact ⟨trimmed, uncut_of_mem_partResources member, same.trans verdict⟩

/-! ## A content behind a marker -/

/-- A part without a separator gives at most one resource. -/
theorem length_partResources_of_uncut {part : List Char} (uncut : Uncut part) :
    (partResources part).length ≤ 1 := by
  rw [partResources_of_uncut uncut]
  cases parseDocument (String.ofList part) <;> simp

/-- The dashes that a content starts with, and the line break before them, are another marker. -/
theorem partResources_of_dashes (rest : List Char) :
    partResources ('\n' :: ("---".toList ++ rest)) = partResources rest := by
  have nothing : partResources [] = [] := partResources_of_blank (by simp)
  have cut := partResources_append_marker [] rest
  rw [nothing, List.nil_append, List.nil_append] at cut
  exact cut

/-- A content without dashes at its start stays one part behind the line break of a marker. -/
theorem Resource.OwnContent.uncut_newline {res : Resource} (own : res.OwnContent)
    (fresh : ¬ "---".toList <+: res.content.toList) : Uncut ('\n' :: res.content.toList) := by
  intro occurs
  rw [marker_eq] at occurs
  rcases List.infix_cons_iff.mp occurs with start | later
  · exact fresh (List.cons_prefix_cons.mp start).2
  · exact own.uncut (by rwa [← marker_eq] at later)

theorem Resource.OwnContent.length_le {res : Resource} (own : res.OwnContent) :
    (partResources ('\n' :: res.content.toList)).length ≤ 1 := by
  by_cases starts : "---".toList <+: res.content.toList
  · obtain ⟨rest, split⟩ := starts
    have uncut := own.uncut
    rw [← split] at uncut ⊢
    rw [partResources_of_dashes]
    exact length_partResources_of_uncut fun occurs =>
      uncut (occurs.trans (List.suffix_append _ rest).isInfix)
  · exact length_partResources_of_uncut (own.uncut_newline starts)

/-- Behind a marker a content gives its resource exactly when it does not start with dashes. -/
theorem Resource.OwnContent.partResources_iff {res : Resource} (own : res.OwnContent) :
    partResources ('\n' :: res.content.toList) = [res] ↔
      ¬ "---".toList <+: res.content.toList := by
  refine ⟨fun same starts => ?_, fun fresh => ?_⟩
  · obtain ⟨rest, split⟩ := starts
    have uncut : Uncut rest := by
      intro occurs
      refine own.uncut ?_
      rw [← split]
      exact occurs.trans (List.suffix_append _ rest).isInfix
    rw [← split, partResources_of_dashes, partResources_of_uncut uncut] at same
    have verdict : parseDocument (String.ofList rest) = some res := by
      cases found : parseDocument (String.ofList rest) with
      | none =>
          rw [found] at same
          cases same
      | some res' =>
          rw [found] at same
          cases same
          rfl
    -- the resource would have to hold more than it is read from
    have content := congrArg String.toList (content_of_parseDocument verdict)
    rw [toList_trimSpace, String.toList_ofList] at content
    have shorter := (trim_isInfix rest).length_le
    have longer := congrArg List.length split
    rw [List.length_append, content] at longer
    have dashes : "---".toList.length = 3 := rfl
    omega
  · have margin : ∀ c ∈ ['\n'], isSpace c := by simp [isSpace]
    have core : trimSpace (String.ofList ('\n' :: res.content.toList)) = trimSpace res.content := by
      rw [trimSpace, trimSpace, String.toList_ofList, ← List.singleton_append,
        trim_blank_append margin]
    have verdict := (parseDocument_congr core).trans own.own
    rw [partResources_of_uncut (own.uncut_newline fresh), verdict]
    rfl

/-! ## The text -/

theorem no_trailing : "" ∈ ["", "\n---", "\n---\n"] := List.mem_cons_self

/-- Contents joined by separators are read one by one. -/
theorem partResources_rejoined (resources : List Resource) :
    partResources ('\n' :: (joined (resources.map Resource.content) "").toList) =
      resources.flatMap fun res => partResources ('\n' :: res.content.toList) := by
  induction resources with
  | nil =>
      have blank : ∀ c ∈ ['\n'], isSpace c := by simp [isSpace]
      have empty := partResources_of_blank blank
      rw [List.map_nil, List.flatMap_nil, joined, String.intercalate_nil, String.empty_append]
      exact empty
  | cons res resources ih =>
      have cut := partResources_joined_cons no_trailing ['\n'] res.content
        (resources.map Resource.content)
      rw [List.map_cons, List.flatMap_cons, ← ih]
      exact cut

/-- **Parsing what was parsed.**  The contents of the resources of a text, with a line `---` between
each two, are parsed into the same resources exactly when none but the first starts with dashes. -/
theorem parseYAMLDocuments_rejoined_iff {text : String} {resources : List Resource}
    (parsed : parseYAMLDocuments text = .ok resources) :
    parseYAMLDocuments (joined (resources.map Resource.content) "") = .ok resources ↔
      ∀ res ∈ resources.tail, ¬ "---".toList <+: res.content.toList := by
  rw [parseYAMLDocuments_eq] at parsed ⊢
  have own : ∀ res ∈ resources, res.OwnContent := by
    intro res member
    cases parsed
    exact ownContent_of_mem_partResources member
  rw [Except.ok.injEq]
  cases resources with
  | nil =>
      have empty : partResources [] = [] := partResources_of_blank (by simp)
      simpa [joined] using empty
  | cons first rest =>
      obtain ⟨here, later⟩ := List.forall_mem_cons.mp own
      have cut := partResources_joined_cons no_trailing [] first.content
        (rest.map Resource.content)
      rw [List.nil_append, List.nil_append, partResources_rejoined] at cut
      have alone : partResources first.content.toList = [first] := by
        rw [partResources_of_uncut here.uncut, String.ofList_toList, here.own]
        rfl
      rw [List.map_cons, cut, alone, List.singleton_append, List.cons_inj_right, List.tail_cons,
        flatMap_eq_self_iff fun res member => (later res member).length_le]
      exact forall₂_congr fun res member => (later res member).partResources_iff

/-- Two documents with a comment on the marker line between them. -/
theorem parseYAMLDocuments_rejoined_of_comment :
    parseYAMLDocuments (joined ["kind: ConfigMap\nname: flags", "# next\n\nkind: Secret"] "") =
      .ok [{ kind := "ConfigMap", name := "flags", content := "kind: ConfigMap\nname: flags" },
        { kind := "Secret", content := "# next\n\nkind: Secret" }] := by
  have parsed : parseYAMLDocuments "kind: ConfigMap\nname: flags\n--- # next\n\nkind: Secret\n" =
      .ok [{ kind := "ConfigMap", name := "flags", content := "kind: ConfigMap\nname: flags" },
        { kind := "Secret", content := "# next\n\nkind: Secret" }] := by
    decide
  refine (parseYAMLDocuments_rejoined_iff parsed).mpr fun res member => ?_
  rw [List.mem_singleton.mp member]
  decide

end Wardn
