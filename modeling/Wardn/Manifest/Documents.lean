import Mathlib.Data.List.Forall2
import Wardn.Lib.Json
import Wardn.Lib.Logs
import Wardn.Manifest.Scanner
import Wardn.Manifest.Walk

/-!
# One resource per document

`Parse` walks a tree of files, splits each manifest at `---` lines and keeps the parts in which
the scanner finds a kind.  Over trees whose manifests are sequences of documents it returns one
resource per document, in order, exactly when no document is cut by the splitter and every one
announces its kind: the last of its lines that start with `kind:` carries a value
(`no_manifest_lost_iff`).  The documents that announce none are left out without an error, all
JSON texts among them (`not_announces_of_json`).
-/

namespace Wardn

open Strings Logs

/-! ## Documents

A manifest is cut into parts by the lines that start with `---`.  What is left of such a line,
comments and blank lines hold no document. -/

/-- No line of the text but the first starts with `---`. -/
def Uncut (text : List Char) : Prop :=
  ¬ "\n---".toList <:+: text

instance (text : List Char) : Decidable (Uncut text) :=
  inferInstanceAs (Decidable (¬ _))

/-- Blank lines, comments, directives, document ends and the rest of a marker line. -/
structure Silent (text : List Char) : Prop where
  nothing : ∀ line ∈ visible (lines text), line.head? ∈ [some '#', some '%', some '.', some '-']
  uncut : Uncut text

/-- A text that can be seen and does not start with a marker line. -/
structure IsDocument (doc : List Char) : Prop where
  seen : trim doc ≠ []
  fresh : ¬ "---".toList <+: trim doc

/-- A part of a manifest and the documents in it: none, or one after some silent lines. -/
inductive Part : List Char → List (List Char) → Prop
  | silent {text : List Char} (silent : Silent text) : Part text []
  | bare {doc : List Char} (isDocument : IsDocument doc) : Part doc [doc]
  | headed {header doc : List Char} (silent : Silent header) (isDocument : IsDocument doc) :
    Part (header ++ '\n' :: doc) [doc]

/-- A text that is a sequence of documents: parts with markers between them. -/
def IsSequence (text : String) (docs : List (List Char)) : Prop :=
  ∃ parts docss, parts ≠ [] ∧ text.toList = "\n---".toList.intercalate parts ∧
    List.Forall₂ Part parts docss ∧ docs = docss.flatten

/-- A line of the document starts with `kind:`, whatever its indentation, and carries a value, and
no later line starts so. -/
def Announces (doc : List Char) : Prop :=
  ∃ before line after, lines doc = before ++ line :: after ∧ "kind:".toList <+: trim line ∧
    trim ((trim line).drop "kind:".toList.length) ≠ [] ∧
      ∀ later ∈ after, ¬ "kind:".toList <+: trim later

/-- The content of the resource ends with the document. -/
def IsResourceOf (doc : List Char) (res : Resource) : Prop :=
  trim doc <:+ res.content.toList

/-- What the splitter's loop makes of a part and of the documents in it. -/
inductive Parsed : List Resource → List (List Char) → Prop
  | silent : Parsed [] []
  | lost {doc : List Char} (unannounced : ¬ Announces doc) : Parsed [] [doc]
  | kept {doc : List Char} {res : Resource} (announced : Announces doc)
    (same : IsResourceOf doc res) : Parsed [res] [doc]
  | cut {doc : List Char} {resources : List Resource} (cut : ¬ Uncut doc) : Parsed resources [doc]

theorem keyValue_kind (line : List Char) :
    keyValue "kind" line =
      if "kind:".toList <+: line then
        some (String.ofList (trim (line.drop "kind:".toList.length)))
      else none := rfl

/-- A document announces a kind exactly when its last visible `kind:` line has a value. -/
theorem announces_iff (doc : List Char) :
    Announces doc ↔ lastValue "kind" (visible (lines doc)) ≠ "" := by
  rw [lastValue, filterMap_visible, List.filterMap_map]
  refine ⟨fun announces => ?_, fun value => ?_⟩
  · obtain ⟨before, line, after, split, starts, carries, last⟩ := announces
    have found : ((lines doc).filterMap (keyValue "kind" ∘ trim)).getLast? =
        some (String.ofList (trim ((trim line).drop "kind:".toList.length))) :=
      getLast?_filterMap_eq_some_iff.mpr
        ⟨before, line, after, split, if_pos starts, fun later member => if_neg (last later member)⟩
    rw [found]
    simpa [eq_empty_iff] using carries
  · cases found : ((lines doc).filterMap (keyValue "kind" ∘ trim)).getLast? with
    | none =>
        rw [found] at value
        exact absurd rfl value
    | some kind =>
        obtain ⟨before, line, after, split, reads, last⟩ := getLast?_filterMap_eq_some_iff.mp found
        rw [found] at value
        rw [Function.comp_apply, keyValue_kind] at reads
        split_ifs at reads with starts
        cases reads
        refine ⟨before, line, after, split, starts, fun blank => ?_, fun later member starts' => ?_⟩
        · exact value (by rw [blank]; rfl)
        · have dropped := last later member
          rw [Function.comp_apply, keyValue_kind, if_pos starts'] at dropped
          cases dropped

/-- No JSON text announces a kind, in whatever layout: its lines start with JSON tokens. -/
theorem not_announces_of_json {doc : List Char} (json : Json.Text doc) : ¬ Announces doc := by
  have unread : (visible (lines doc)).filterMap (keyValue "kind") = [] := by
    refine List.filterMap_eq_nil_iff.mpr fun line member => ?_
    rw [keyValue_kind, if_neg]
    intro starts
    obtain ⟨rest, rfl⟩ := starts
    exact absurd (json.head_mem_starts _ member 'k' rfl) (by decide)
  rw [announces_iff, lastValue, unread]
  exact not_not.mpr rfl

theorem Silent.filterMap_eq_nil {text : List Char} (silent : Silent text) :
    (visible (lines text)).filterMap (keyValue "kind") = [] := by
  refine List.filterMap_eq_nil_iff.mpr fun line member => ?_
  have marked := silent.nothing line member
  rw [keyValue_kind, if_neg]
  intro starts
  obtain ⟨rest, rfl⟩ := starts
  have first : ("kind:".toList ++ rest).head? = some 'k' := rfl
  rw [first] at marked
  simp at marked

/-- The parser's verdict on one part. -/
theorem parseDocument_eq (part : List Char) :
    parseDocument (String.ofList part) =
      if lastValue "kind" (visible (lines part)) = "" then none
      else some { extractResourceMeta (String.ofList (trim part)) with
        content := String.ofList (trim part) } := by
  have trimmed : trimSpace (String.ofList part) = String.ofList (trim part) := by simp [trimSpace]
  have kind : (extractResourceMeta (String.ofList (trim part))).kind =
      lastValue "kind" (visible (lines part)) := by
    rw [extractResourceMeta_eq, String.toList_ofList, visible_lines_trim]
  unfold parseDocument
  simp only [trimmed, kind]
  by_cases blank : String.ofList (trim part) = ""
  · have empty : trim part = [] := by simpa [eq_empty_iff] using blank
    have unseen : visible (lines part) = [] := by
      rw [← visible_lines_trim, empty]
      rfl
    rw [if_pos blank, unseen, if_pos (by rfl)]
  · rw [if_neg blank]

/-! ## The splitter -/

/-- The resources of a part, which the splitter may cut further. -/
def partResources (part : List Char) : List Resource :=
  (splitList "\n---".toList part).filterMap (parseDocument ∘ String.ofList)

theorem marker_eq : "\n---".toList = '\n' :: "---".toList := by rfl

theorem newline_not_mem_dashes : '\n' ∉ "---".toList := by decide

theorem trimmed_dashes : Trimmed "---".toList := by
  constructor
  · intro c first
    cases first
    rfl
  · intro c last
    cases last
    rfl

theorem partResources_of_uncut {part : List Char} (uncut : Uncut part) :
    partResources part = (parseDocument (String.ofList part)).toList := by
  rw [Uncut, marker_eq] at uncut
  rw [partResources, marker_eq, splitList_of_absent newline_not_mem_dashes uncut]
  cases verdict : parseDocument (String.ofList part) <;> simp [verdict]

/-- The splitter leaves no marker in what it keeps. -/
theorem uncut_of_mem_partResources {part : List Char} {res : Resource}
    (member : res ∈ partResources part) : Uncut res.content.toList := by
  obtain ⟨piece, inside, verdict⟩ := List.mem_filterMap.mp member
  rw [marker_eq] at inside
  have uncut := not_infix_of_mem_splitList newline_not_mem_dashes inside
  rw [Function.comp_apply, parseDocument_eq] at verdict
  split_ifs at verdict
  cases verdict
  rw [String.toList_ofList]
  exact fun occurs => uncut (occurs.trans (trim_isInfix piece))

/-- The resources of a text are those of its parts. -/
theorem resourcesOf_eq {text : String} {parts : List (List Char)} (nonempty : parts ≠ [])
    (joined : text.toList = "\n---".toList.intercalate parts) :
    resourcesOf text = parts.flatMap partResources := by
  rw [resourcesOf, split, joined, marker_eq,
    splitList_intercalate_eq_flatMap newline_not_mem_dashes nonempty, List.filterMap_map,
    List.filterMap_flatMap]
  rfl

/-- Behind a silent header the splitter cuts a document no more than by itself. -/
theorem IsDocument.uncut_headed {header doc : List Char} (isDocument : IsDocument doc)
    (silent : Silent header) (uncut : Uncut doc) : Uncut (header ++ '\n' :: doc) := by
  have before := silent.uncut
  rw [Uncut, marker_eq] at before uncut ⊢
  have whole : ¬ '\n' :: "---".toList <:+: '\n' :: doc := by
    intro occurs
    rcases List.infix_cons_iff.mp occurs with start | later
    · obtain ⟨rest, split⟩ := (List.cons_prefix_cons.mp start).2
      refine isDocument.fresh ?_
      rw [← split, trim_trimmed_append trimmed_dashes (by decide)]
      exact List.prefix_append _ _
    · exact uncut later
  have pieces : splitList ('\n' :: "---".toList) (header ++ '\n' :: doc) =
      [header ++ '\n' :: doc] := by
    rw [splitList_append newline_not_mem_dashes before (.inr rfl),
      splitList_of_absent newline_not_mem_dashes whole]
    rfl
  have member :
      header ++ '\n' :: doc ∈ splitList ('\n' :: "---".toList) (header ++ '\n' :: doc) := by
    rw [pieces]
    exact List.mem_singleton_self _
  exact not_infix_of_mem_splitList newline_not_mem_dashes member

/-- A document that some resource ends with is not cut. -/
theorem IsDocument.uncut_of_isResourceOf {doc : List Char} {res : Resource}
    (isDocument : IsDocument doc) (same : IsResourceOf doc res)
    (uncut : Uncut res.content.toList) : Uncut doc := by
  intro occurs
  rw [marker_eq] at occurs
  rcases infix_trim_of_infix trimmed_dashes (by decide) (by decide) occurs with start | inside
  · exact isDocument.fresh start
  · exact uncut (inside.trans same.isInfix)

theorem parsed_of_document {part doc : List Char} (uncut : Uncut part)
    (ends : trim doc <:+ trim part)
    (kind : lastValue "kind" (visible (lines part)) = lastValue "kind" (visible (lines doc))) :
    Parsed (partResources part) [doc] := by
  rw [partResources_of_uncut uncut, parseDocument_eq, kind]
  by_cases announced : lastValue "kind" (visible (lines doc)) = ""
  · rw [if_pos announced]
    exact .lost fun announces => (announces_iff doc).mp announces announced
  · rw [if_neg announced]
    refine .kept ((announces_iff doc).mpr announced) ?_
    rw [IsResourceOf, String.toList_ofList]
    exact ends

/-- A part is parsed into the resources of its documents. -/
theorem parsed_of_part {part : List Char} {docs : List (List Char)} (isPart : Part part docs) :
    Parsed (partResources part) docs := by
  cases isPart with
  | silent silent =>
      rw [partResources_of_uncut silent.uncut, parseDocument_eq, lastValue,
        silent.filterMap_eq_nil, if_pos (by rfl)]
      exact .silent
  | bare isDocument =>
      by_cases uncut : Uncut part
      · exact parsed_of_document uncut List.suffix_rfl rfl
      · exact .cut uncut
  | @headed header doc silent isDocument =>
      by_cases uncut : Uncut doc
      · have ends : trim doc <:+ trim (header ++ '\n' :: doc) := by
          rw [List.append_cons]
          exact trim_suffix_trim_append (header ++ ['\n']) isDocument.seen
        refine parsed_of_document (isDocument.uncut_headed silent uncut) ends ?_
        rw [lines_append_newline, visible_append, lastValue, List.filterMap_append,
          silent.filterMap_eq_nil]
        rfl
      · exact .cut uncut

theorem Part.isDocument {part : List Char} {docs : List (List Char)} (isPart : Part part docs) :
    ∀ doc ∈ docs, IsDocument doc := by
  cases isPart with
  | silent => simp
  | bare isDocument => simpa using isDocument
  | headed silent isDocument => simpa using isDocument

theorem isDocument_of_parts {parts : List (List Char)} {docss : List (List (List Char))}
    (isPart : List.Forall₂ Part parts docss) : ∀ doc ∈ docss.flatten, IsDocument doc := by
  induction isPart with
  | nil => simp
  | cons head _ ih =>
      rw [List.flatten_cons]
      exact List.forall_mem_append.mpr ⟨head.isDocument, ih⟩

/-- The parts of all the texts, with what the splitter makes of them and their documents. -/
theorem parts_of_sequences {texts : List String} {docs : List (List (List Char))}
    (sequences : List.Forall₂ IsSequence texts docs) :
    ∃ (parts : List (List Char)) (docss : List (List (List Char))),
      texts.flatMap resourcesOf = (parts.map partResources).flatten ∧
        docs.flatten = docss.flatten ∧ List.Forall₂ Part parts docss := by
  induction sequences with
  | nil => exact ⟨[], [], rfl, rfl, .nil⟩
  | cons sequence _ ih =>
      obtain ⟨parts, docss, nonempty, joined, isPart, rfl⟩ := sequence
      obtain ⟨parts', docss', resources', whole', isPart'⟩ := ih
      refine ⟨parts ++ parts', docss ++ docss', ?_, ?_, List.rel_append isPart isPart'⟩
      · rw [List.flatMap_cons, resourcesOf_eq nonempty joined, resources', List.map_append,
          List.flatten_append]
        rfl
      · rw [List.flatten_cons, whole', List.flatten_append]

/-! ## One resource per document -/

/-- When no document is cut, there are at most as many resources as documents, and as many only
when none is lost. -/
theorem length_of_parsed {docss : List (List (List Char))} {outs : List (List Resource)}
    (parsed : List.Forall₂ Parsed outs docss) (uncut : ∀ doc ∈ docss.flatten, Uncut doc) :
    outs.flatten.length ≤ docss.flatten.length ∧
      (outs.flatten.length = docss.flatten.length → ∀ doc ∈ docss.flatten, Announces doc) := by
  induction parsed with
  | nil => simp
  | cons head _ ih =>
      rw [List.flatten_cons] at uncut
      obtain ⟨most, all⟩ := ih fun doc member => uncut doc (List.mem_append_right _ member)
      cases head with
      | silent => exact ⟨most, all⟩
      | lost unannounced =>
          simp only [List.flatten_cons, List.singleton_append, List.length_cons, List.nil_append]
          refine ⟨by omega, fun same => by omega⟩
      | kept announced same =>
          simp only [List.flatten_cons, List.singleton_append, List.length_cons]
          refine ⟨by omega, fun same => ?_⟩
          exact List.forall_mem_cons.mpr ⟨announced, all (by omega)⟩
      | cut cut =>
          exact absurd (uncut _ (List.mem_append_left _ List.mem_cons_self)) cut

theorem uncut_of_forall₂ {docs : List (List Char)} {resources : List Resource}
    (isDocument : ∀ doc ∈ docs, IsDocument doc)
    (whole : ∀ res ∈ resources, Uncut res.content.toList)
    (each : List.Forall₂ IsResourceOf docs resources) : ∀ doc ∈ docs, Uncut doc := by
  induction each with
  | nil => simp
  | cons same _ ih =>
      rw [List.forall_mem_cons] at isDocument whole ⊢
      exact ⟨isDocument.1.uncut_of_isResourceOf same whole.1, ih isDocument.2 whole.2⟩

theorem forall₂_of_parsed {docss : List (List (List Char))} {outs : List (List Resource)}
    (parsed : List.Forall₂ Parsed outs docss)
    (complete : ∀ doc ∈ docss.flatten, Uncut doc ∧ Announces doc) :
    List.Forall₂ IsResourceOf docss.flatten outs.flatten := by
  induction parsed with
  | nil => exact .nil
  | cons head _ ih =>
      rw [List.flatten_cons] at complete
      have later := ih fun doc member => complete doc (List.mem_append_right _ member)
      cases head with
      | silent => exact later
      | lost unannounced =>
          exact absurd (complete _ (List.mem_append_left _ List.mem_cons_self)).2 unannounced
      | kept announced same => exact .cons same later
      | cut cut => exact absurd (complete _ (List.mem_append_left _ List.mem_cons_self)).1 cut

/-- One resource per document, in order, exactly when no document is cut or lost. -/
theorem forall₂_isResourceOf_iff {parts : List (List Char)} {docss : List (List (List Char))}
    (isPart : List.Forall₂ Part parts docss) :
    List.Forall₂ IsResourceOf docss.flatten (parts.map partResources).flatten ↔
      ∀ doc ∈ docss.flatten, Uncut doc ∧ Announces doc := by
  have parsed : List.Forall₂ Parsed (parts.map partResources) docss :=
    List.forall₂_map_left_iff.mpr (isPart.imp fun part docs isPart => parsed_of_part isPart)
  refine ⟨fun each => ?_, forall₂_of_parsed parsed⟩
  have whole : ∀ res ∈ (parts.map partResources).flatten, Uncut res.content.toList := by
    intro res member
    obtain ⟨resources, inParts, member⟩ := List.mem_flatten.mp member
    obtain ⟨part, -, rfl⟩ := List.mem_map.mp inParts
    exact uncut_of_mem_partResources member
  have uncut := uncut_of_forall₂ (isDocument_of_parts isPart) whole each
  have announced := (length_of_parsed parsed uncut).2 each.length_eq.symm
  exact fun doc member => ⟨uncut doc member, announced doc member⟩

/-- **No manifest is lost.**  Over a tree of readable files whose manifests are sequences of
documents, `Parse` returns one resource per document, in the order of the walk and of the
documents, exactly when no document is cut and every one announces its kind. -/
theorem no_manifest_lost_iff (lstat : String → Except String Entry) (repoPath subPath : String)
    (docs : List (List (List Char)))
    (sequences : List.Forall₂ IsSequence
      ((rootVisits (FilePath.join repoPath subPath)
        (lstat (FilePath.join repoPath subPath))).flatMap manifestTexts) docs) :
    ((∃ err, parse lstat repoPath subPath .raw = .error err) ∨
        ∃ resources, parse lstat repoPath subPath .raw = .ok resources ∧
          List.Forall₂ IsResourceOf docs.flatten resources) ↔
      (∃ v ∈ rootVisits (FilePath.join repoPath subPath) (lstat (FilePath.join repoPath subPath)),
          Fails v) ∨
        ∀ doc ∈ docs.flatten, Uncut doc ∧ Announces doc := by
  rcases parse_raw_cases lstat repoPath subPath rfl with ⟨fails, err, stops⟩ | ⟨reads, collects⟩
  · exact ⟨fun _ => .inl fails, fun _ => .inl ⟨err, stops⟩⟩
  · obtain ⟨parts, docss, resources, whole, isPart⟩ := parts_of_sequences sequences
    rw [resources] at collects
    rw [collects, whole, ← forall₂_isResourceOf_iff isPart]
    refine ⟨fun complete => ?_, fun complete => ?_⟩
    · rcases complete with ⟨err, stops⟩ | ⟨found, same, each⟩
      · cases stops
      · cases same
        exact .inr each
    · rcases complete with fails | each
      · exact absurd fails reads
      · exact .inr ⟨_, rfl, each⟩

/-- A checkout with one file in it. -/
def checkout (name content : String) : String → Except String Entry :=
  fun _ => .ok (.dir "repo" (.cons (.file name (.ok content)) .nil))

/-- Two documents in one file. -/
theorem no_manifest_lost_of_two_documents :
    ∃ resources, parse (checkout "app.yaml" "kind: ConfigMap\n---\nkind: Secret") "repo" "." .raw =
        .ok resources ∧
      List.Forall₂ IsResourceOf ["kind: ConfigMap".toList, "kind: Secret".toList] resources := by
  have sequence : IsSequence "kind: ConfigMap\n---\nkind: Secret"
      ["kind: ConfigMap".toList, "kind: Secret".toList] := by
    have first : Part "kind: ConfigMap".toList ["kind: ConfigMap".toList] :=
      .bare ⟨by decide, by decide⟩
    have second : Part ([] ++ '\n' :: "kind: Secret".toList) ["kind: Secret".toList] := by
      refine .headed ⟨fun line member => ?_, by decide⟩ ⟨by decide, by decide⟩
      cases member
    exact ⟨_, _, by decide, by decide, .cons first (.cons second .nil), rfl⟩
  have complete : ∀ doc ∈ ["kind: ConfigMap".toList, "kind: Secret".toList],
      Uncut doc ∧ Announces doc := by
    simp only [announces_iff]
    decide
  rcases (no_manifest_lost_iff (checkout "app.yaml" "kind: ConfigMap\n---\nkind: Secret") "repo" "."
    [["kind: ConfigMap".toList, "kind: Secret".toList]] (.cons sequence .nil)).mpr (.inr complete)
    with ⟨err, stops⟩ | each
  · cases stops
  · exact each

/-- A JSON manifest is parsed without an error, and into nothing. -/
theorem json_manifest_lost :
    List.Forall₂ IsSequence
      ((rootVisits "repo" (checkout "pod.json" "\x7b\"kind\": \"Pod\"\x7d" "repo")).flatMap
        manifestTexts) [["\x7b\"kind\": \"Pod\"\x7d".toList]] ∧
    parse (checkout "pod.json" "\x7b\"kind\": \"Pod\"\x7d") "repo" "." .raw = .ok [] ∧
    ¬ List.Forall₂ IsResourceOf ["\x7b\"kind\": \"Pod\"\x7d".toList] [] := by
  refine ⟨.cons ⟨[_], [_], by decide, rfl, .cons (.bare ⟨by decide, by decide⟩) .nil, rfl⟩ .nil,
    by rfl, fun each => ?_⟩
  cases each

end Wardn
