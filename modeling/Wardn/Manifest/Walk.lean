import Wardn.Manifest.Parser

/-!
# The walk over the manifests

`walkDir` calls back on the files and directories of a tree in a fixed order, so it is a fold
over the list of its visits (`walkRoot_eq`).  With the parser's callback the walk fails when a
directory cannot be listed or a manifest not be read, and otherwise collects the resources of the
manifests in the order of the visits (`foldlM_visitManifest`).
-/

namespace Wardn

open Strings

/-! ## Visits -/

mutual

/-- The visits of an entry and, for a directory, of what is in it. -/
def Entry.visits (path : String) : Entry → List (String × Visit)
  | .file _ read => [(path, .file read)]
  | .dir _ entries => (path, .dir) :: entries.visits path
  | .unlistable _ err => [(path, .dir), (path, .failed err)]

/-- The visits of the entries of a directory, in order. -/
def Entries.visits (path : String) : Entries → List (String × Visit)
  | .nil => []
  | .cons entry rest => entry.visits (FilePath.join path entry.name) ++ rest.visits path

end

/-- The visits of a walk, beginning with the root. -/
def rootVisits (path : String) (root : Except String Entry) : List (String × Visit) :=
  match root with
  | .error err => [(path, .failed err)]
  | .ok entry => entry.visits path

section Walk

variable {σ : Type} (fn : String → Visit → σ → Except String σ)

mutual

theorem walkDir_eq (path : String) (entry : Entry) (acc : σ) :
    walkDir fn path entry acc = (entry.visits path).foldlM (fun acc v => fn v.1 v.2 acc) acc := by
  cases entry with
  | file name read => simp [walkDir, Entry.visits]
  | dir name entries =>
      rw [walkDir, Entry.visits, List.foldlM_cons]
      exact bind_congr fun acc => walkEntries_eq path entries acc
  | unlistable name err => simp [walkDir, Entry.visits]

theorem walkEntries_eq (path : String) (entries : Entries) (acc : σ) :
    walkEntries fn path entries acc =
      (entries.visits path).foldlM (fun acc v => fn v.1 v.2 acc) acc := by
  cases entries with
  | nil => rfl
  | cons entry rest =>
      rw [walkEntries, Entries.visits, List.foldlM_append, walkDir_eq]
      exact bind_congr fun acc => walkEntries_eq path rest acc

end

/-- A walk calls its function on the visits, in order, until an error. -/
theorem walkRoot_eq (path : String) (root : Except String Entry) (acc : σ) :
    walkRoot fn path root acc =
      (rootVisits path root).foldlM (fun acc v => fn v.1 v.2 acc) acc := by
  cases root with
  | error err => simp [walkRoot, rootVisits]
  | ok entry => exact walkDir_eq fn path entry acc

end Walk

/-! ## Manifests on the walk -/

/-- The callback returns an error: a directory cannot be listed or a manifest not be read. -/
def Fails (v : String × Visit) : Prop :=
  match v.2 with
  | .failed _ => True
  | .dir => False
  | .file read => isManifest v.1 = true ∧ ∃ err, read = .error err

/-- The content of a visited manifest. -/
def manifestTexts (v : String × Visit) : List String :=
  match v.2 with
  | .failed _ => []
  | .dir => []
  | .file read =>
    match read with
    | .error _ => []
    | .ok content => if isManifest v.1 then [content] else []

/-- The resources of a manifest's content. -/
def resourcesOf (content : String) : List Resource :=
  (split content "\n---").filterMap parseDocument

/-- A visit that fails ends the walk with an error. -/
theorem visitManifest_of_fails {v : String × Visit} (fails : Fails v) (resources : List Resource) :
    ∃ err, visitManifest v.1 v.2 resources = .error err := by
  obtain ⟨path, visit⟩ := v
  cases visit with
  | dir => cases fails
  | failed err => exact ⟨err, rfl⟩
  | file read =>
      obtain ⟨manifest, err, rfl⟩ := fails
      exact ⟨_, by simp only [visitManifest, manifest, not_true_eq_false, if_false]; rfl⟩

/-- Any other visit appends the resources of its texts. -/
theorem visitManifest_of_not_fails {v : String × Visit} (reads : ¬ Fails v)
    (resources : List Resource) :
    visitManifest v.1 v.2 resources =
      .ok (resources ++ (manifestTexts v).flatMap resourcesOf) := by
  obtain ⟨path, visit⟩ := v
  cases visit with
  | dir => simp [visitManifest, manifestTexts]
  | failed err => exact absurd trivial reads
  | file read =>
      by_cases manifest : isManifest path = true
      · cases read with
        | error err => exact absurd ⟨manifest, err, rfl⟩ reads
        | ok content =>
            simp [visitManifest, manifestTexts, manifest, parseYAMLDocuments, resourcesOf]
      · cases read with
        | error err => simp [visitManifest, manifestTexts, manifest]
        | ok content => simp [visitManifest, manifestTexts, manifest]

/-- The walk fails with the first visit that does, and collects the manifests otherwise. -/
theorem foldlM_visitManifest (visits : List (String × Visit)) (resources : List Resource) :
    ((∃ v ∈ visits, Fails v) ∧
      ∃ err, visits.foldlM (fun acc v => visitManifest v.1 v.2 acc) resources = .error err) ∨
    ((¬ ∃ v ∈ visits, Fails v) ∧
      visits.foldlM (fun acc v => visitManifest v.1 v.2 acc) resources =
        .ok (resources ++ (visits.flatMap manifestTexts).flatMap resourcesOf)) := by
  induction visits generalizing resources with
  | nil => exact .inr ⟨by simp, by simp; rfl⟩
  | cons v visits ih =>
      rw [List.foldlM_cons]
      by_cases fails : Fails v
      · obtain ⟨err, stops⟩ := visitManifest_of_fails fails resources
        rw [stops]
        exact .inl ⟨⟨v, List.mem_cons_self, fails⟩, err, rfl⟩
      · rw [visitManifest_of_not_fails fails]
        rcases ih (resources ++ (manifestTexts v).flatMap resourcesOf) with
          ⟨⟨v', member, fails'⟩, stops⟩ | ⟨reads, collects⟩
        · exact .inl ⟨⟨v', List.mem_cons_of_mem v member, fails'⟩, stops⟩
        · refine .inr ⟨fun failing => ?_, ?_⟩
          · obtain ⟨v', member, fails'⟩ := failing
            rcases List.mem_cons.mp member with rfl | later
            · exact fails fails'
            · exact reads ⟨v', later, fails'⟩
          · rw [List.flatMap_cons, List.flatMap_append, ← List.append_assoc]
            exact collects

/-- `Parse` of plain manifests is the walk. -/
theorem parse_raw_cases (lstat : String → Except String Entry) (repoPath subPath : String)
    {visits : List (String × Visit)}
    (under : visits = rootVisits (FilePath.join repoPath subPath)
      (lstat (FilePath.join repoPath subPath))) :
    ((∃ v ∈ visits, Fails v) ∧ ∃ err, parse lstat repoPath subPath .raw = .error err) ∨
    ((¬ ∃ v ∈ visits, Fails v) ∧
      parse lstat repoPath subPath .raw =
        .ok ((visits.flatMap manifestTexts).flatMap resourcesOf)) := by
  have walked : parse lstat repoPath subPath .raw =
      visits.foldlM (fun acc v => visitManifest v.1 v.2 acc) [] := by
    rw [under]
    exact walkRoot_eq visitManifest _ _ []
  rw [walked]
  exact foldlM_visitManifest visits []

end Wardn
