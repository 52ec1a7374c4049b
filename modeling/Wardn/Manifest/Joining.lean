import Wardn.Manifest.Documents

/-!
# Documents joined by separator lines

`parseYAMLDocuments` on documents that are put together with a line `---` between each two.  A
part of the joined text is a document or a blank one, behind the rest of a separator line, which
is a line break; the splitter finds exactly these parts and the trimming takes the line break
away, so splitting undoes joining (`parseYAMLDocuments_joined`).
-/

namespace Wardn

open Strings

/-- A document that stands for itself: visible, without white space around it and without a line
that starts with `---`, and the scanner finds its kind. -/
structure IsManifest (doc : String) : Prop where
  nonempty : doc ≠ ""
  trimmed : Trimmed doc.toList
  unmarked : ∀ line ∈ lines doc.toList, ¬ "---".toList <+: line
  recognised : (extractResourceMeta doc).kind ≠ ""

/-- The documents, with blank ones inserted anywhere. -/
inductive BlanksInserted : List String → List String → Prop
  | nil : BlanksInserted [] []
  | blank {blank : String} {docs pieces : List String} (isBlank : ∀ c ∈ blank.toList, isSpace c)
    (inserted : BlanksInserted docs pieces) : BlanksInserted docs (blank :: pieces)
  | document (doc : String) {docs pieces : List String} (inserted : BlanksInserted docs pieces) :
    BlanksInserted (doc :: docs) (doc :: pieces)

/-- The pieces with a line `---` between each two, and an optional separator at the end. -/
def joined (pieces : List String) (trailing : String) : String :=
  "\n---\n".intercalate pieces ++ trailing

/-- The resource of a document that stands alone. -/
def resourceOf (doc : String) : Resource :=
  { extractResourceMeta doc with content := doc }

/-! ## One part

What follows a marker starts with the line break that ends its line. -/

theorem uncut_newline_cons_iff (text : List Char) :
    Uncut ('\n' :: text) ↔ ∀ line ∈ lines text, ¬ "---".toList <+: line := by
  have split : lines ('\n' :: text) = [] :: lines text := lines_append_newline [] text
  rw [Uncut, marker_eq, infix_newline_iff newline_not_mem_dashes, split]
  simp

theorem uncut_of_blank {text : List Char} (isBlank : ∀ c ∈ text, isSpace c) : Uncut text := by
  intro occurs
  have dash : '-' ∈ text := occurs.subset (by decide)
  exact absurd (isBlank '-' dash) (by decide)

/-- A document yields its resource, also behind the line break of a marker line. -/
theorem partResources_of_isManifest {doc : String} (isManifest : IsManifest doc)
    {margin : List Char}
    (ends : margin = [] ∨ margin = ['\n']) :
    partResources (margin ++ doc.toList) = [resourceOf doc] := by
  have uncut : Uncut ('\n' :: doc.toList) := (uncut_newline_cons_iff _).mpr isManifest.unmarked
  have blank : ∀ c ∈ margin, isSpace c := by
    rcases ends with rfl | rfl
    · simp
    · simp [isSpace]
  have part : Uncut (margin ++ doc.toList) := by
    rcases ends with rfl | rfl
    · exact fun occurs => uncut (List.infix_cons occurs)
    · exact uncut
  have core : trimSpace (String.ofList (margin ++ doc.toList)) = doc := by
    rw [trimSpace, String.toList_ofList, trim_blank_append blank, trim_eq_self isManifest.trimmed,
      String.ofList_toList]
  have verdict : parseDocument (String.ofList (margin ++ doc.toList)) = some (resourceOf doc) := by
    simp only [parseDocument, core, isManifest.nonempty, isManifest.recognised, if_false,
      resourceOf]
  rw [partResources_of_uncut part, verdict]
  rfl

theorem partResources_of_blank {text : List Char} (isBlank : ∀ c ∈ text, isSpace c) :
    partResources text = [] := by
  have nothing : trimSpace (String.ofList text) = "" := by
    rw [trimSpace, String.toList_ofList, trim_eq_nil_iff.mpr isBlank]
  have verdict : parseDocument (String.ofList text) = none := by
    simp only [parseDocument, nothing, if_true]
  rw [partResources_of_uncut (uncut_of_blank isBlank), verdict]
  rfl

/-- The splitter treats what stands before a marker and what follows it by itself. -/
theorem partResources_append_marker (before after : List Char) :
    partResources (before ++ ("\n---".toList ++ after)) =
      partResources before ++ partResources after := by
  rw [partResources, marker_eq, splitList_append_sep_append newline_not_mem_dashes,
    List.filterMap_append]
  rfl

theorem parseYAMLDocuments_eq (content : String) :
    parseYAMLDocuments content = .ok (partResources content.toList) := by
  rw [parseYAMLDocuments, partResources, split, List.filterMap_map]

/-! ## The joined text -/

theorem toList_joined_cons_cons (piece next : String) (pieces : List String) (trailing : String) :
    (joined (piece :: next :: pieces) trailing).toList =
      piece.toList ++ ("\n---".toList ++ '\n' :: (joined (next :: pieces) trailing).toList) := by
  have marker : "\n---\n".toList = "\n---".toList ++ ['\n'] := by rfl
  simp only [joined, String.intercalate_cons_cons, String.toList_append, marker, List.append_assoc]
  rfl

/-- A trailing separator adds a blank part. -/
theorem partResources_append_trailing {trailing : String}
    (ends : trailing ∈ ["", "\n---", "\n---\n"]) (text : List Char) :
    partResources (text ++ trailing.toList) = partResources text := by
  have cut : ∀ blank : List Char, (∀ c ∈ blank, isSpace c) →
      partResources (text ++ ("\n---".toList ++ blank)) = partResources text := by
    intro blank isBlank
    rw [partResources_append_marker, partResources_of_blank isBlank, List.append_nil]
  simp only [List.mem_cons, List.not_mem_nil, or_false] at ends
  rcases ends with rfl | rfl | rfl
  · exact congrArg partResources (List.append_nil text)
  · exact cut [] (by simp)
  · exact cut ['\n'] (by simp [isSpace])

/-- The first piece is a part, and the rest is joined behind the line break of its marker. -/
theorem partResources_joined_cons {trailing : String} (ends : trailing ∈ ["", "\n---", "\n---\n"])
    (margin : List Char) (piece : String) (pieces : List String) :
    partResources (margin ++ (joined (piece :: pieces) trailing).toList) =
      partResources (margin ++ piece.toList) ++
        partResources ('\n' :: (joined pieces trailing).toList) := by
  cases pieces with
  | nil =>
      have rest : partResources ('\n' :: (joined [] trailing).toList) = [] := by
        have blank : partResources ['\n'] = [] := partResources_of_blank (by simp [isSpace])
        have cut := partResources_append_trailing ends ['\n']
        rw [blank, List.singleton_append] at cut
        rw [joined, String.intercalate_nil, String.empty_append, cut]
      rw [rest, joined, String.intercalate_singleton, String.toList_append, ← List.append_assoc,
        partResources_append_trailing ends, List.append_nil]
  | cons next pieces =>
      rw [toList_joined_cons_cons, ← List.append_assoc, partResources_append_marker]

/-- The parts of the joined text, by induction on the pieces. -/
theorem partResources_joined {docs pieces : List String} {trailing : String}
    (documents : ∀ doc ∈ docs, IsManifest doc) (inserted : BlanksInserted docs pieces)
    (ends : trailing ∈ ["", "\n---", "\n---\n"]) {margin : List Char}
    (start : margin = [] ∨ margin = ['\n']) :
    partResources (margin ++ (joined pieces trailing).toList) = docs.map resourceOf := by
  have marginBlank : ∀ c ∈ margin, isSpace c := by
    rcases start with rfl | rfl
    · simp
    · simp [isSpace]
  induction inserted generalizing margin with
  | nil =>
      rw [joined, String.intercalate_nil, String.empty_append, partResources_append_trailing ends,
        partResources_of_blank marginBlank]
      rfl
  | @blank blank docs pieces isBlank inserted ih =>
      have rest := ih documents (.inr rfl) (by simp [isSpace])
      rw [partResources_joined_cons ends, ← List.singleton_append, rest, partResources_of_blank,
        List.nil_append]
      exact List.forall_mem_append.mpr ⟨marginBlank, isBlank⟩
  | @document doc docs pieces inserted ih =>
      obtain ⟨first, later⟩ := List.forall_mem_cons.mp documents
      have rest := ih later (.inr rfl) (by simp [isSpace])
      rw [partResources_joined_cons ends, ← List.singleton_append, rest,
        partResources_of_isManifest first start]
      rfl

/-- **Splitting undoes joining**: one resource per document, in order, with the document as its
content and the metadata of the document alone. -/
theorem parseYAMLDocuments_joined {docs pieces : List String} {trailing : String}
    (documents : ∀ doc ∈ docs, IsManifest doc) (inserted : BlanksInserted docs pieces)
    (ends : trailing ∈ ["", "\n---", "\n---\n"]) :
    parseYAMLDocuments (joined pieces trailing) = .ok (docs.map resourceOf) := by
  have parts := partResources_joined documents inserted ends (.inl rfl)
  rw [List.nil_append] at parts
  rw [parseYAMLDocuments_eq, parts]

/-- A namespace and a pod, between blank documents and before a last separator. -/
theorem parseYAMLDocuments_of_two :
    parseYAMLDocuments
        (joined ["", "kind: Namespace\nname: shop", " \n", "kind: Pod\n--\nname: web"] "\n---") =
      .ok [{ kind := "Namespace", name := "shop", content := "kind: Namespace\nname: shop" },
        { kind := "Pod", name := "web", content := "kind: Pod\n--\nname: web" }] := by
  have first : IsManifest "kind: Namespace\nname: shop" :=
    ⟨by decide, trimmed_iff.mpr (by decide), by decide, by decide⟩
  have second : IsManifest "kind: Pod\n--\nname: web" :=
    ⟨by decide, trimmed_iff.mpr (by decide), by decide, by decide⟩
  have inserted : BlanksInserted ["kind: Namespace\nname: shop", "kind: Pod\n--\nname: web"]
      ["", "kind: Namespace\nname: shop", " \n", "kind: Pod\n--\nname: web"] :=
    .blank (by simp) (.document _ (.blank (by simp [isSpace]) (.document _ .nil)))
  have parsed := parseYAMLDocuments_joined (by simpa using ⟨first, second⟩) inserted
    (show "\n---" ∈ _ by simp)
  exact parsed

end Wardn
