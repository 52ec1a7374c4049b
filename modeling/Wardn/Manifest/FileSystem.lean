import Wardn.Git.Branches
import Wardn.Git.Repository
import Wardn.Manifest.Confinement
import Wardn.Manifest.Reading

/-!
# What is found in the directories of the client

The file system is a parameter like git is: `found` gives what is at each path, for what the
directories of the client hold and for everything else there is.  Of a path in a directory of the
client it is known that a clean checkout shows the files of its commit, and that nothing else
matters, as long as no symbolic link leads out of the directory (`Enclosed`).  An application whose
path stays in its clone (`Confined`) then parses the files of the commit (`FileSystem.parse_eq`).
-/

namespace Wardn

open FilePath

/-- A cleaned path in the directory of a URL. -/
def InClone (tempDir repoURL path : String) : Prop :=
  BuiltOn (rooted (newClient tempDir).basePath)
    ((simpleHash repoURL).toList :: stack (newClient tempDir).basePath) path

/-- The file system around the directories of a client; what git keeps under `.git` is left out, as
there is no manifest among it, and no read fails that what is there does not make fail. -/
structure FileSystem {σ ε : Type*} (git : Git σ ε) (tempDir : String) where
  /-- What a walk finds; `ε` says what there is outside of the directories of the client. -/
  found : ε → (String → σ) → Files
  /-- The files of a commit, checked out in a directory. -/
  files : String → Commit → Files
  /-- No symbolic link of the commit has an absolute target, one with `..`, or one in `.git`. -/
  Enclosed : Commit → Prop
  listed : ∀ {env disk path entry}, (found env disk).lstat path = .ok entry → entry.Listed
  found_clean : ∀ {env disk repoURL commit path},
    git.tree (disk ((newClient tempDir).repoPath repoURL)) = .clean commit → Enclosed commit →
      InClone tempDir repoURL path → (found env disk).lstat path =
        (files ((newClient tempDir).repoPath repoURL) commit).lstat path
  found_local : ∀ {env disk disk' repoURL path},
    disk ((newClient tempDir).repoPath repoURL) = disk' ((newClient tempDir).repoPath repoURL) →
      (∀ commit ∈ git.commits (disk ((newClient tempDir).repoPath repoURL)), Enclosed commit) →
      InClone tempDir repoURL path → (found env disk).lstat path = (found env disk').lstat path

/-- The path of an application stays among the files of its clone. -/
def Confined (localPath : String) (spec : GitApplicationSpec) : Prop :=
  spec.manifestType = .helm ∨ ComesBack localPath spec.path ∧
    ¬ Within (join localPath ".git") (join localPath spec.path)

instance (localPath : String) (spec : GitApplicationSpec) : Decidable (Confined localPath spec) :=
  inferInstanceAs (Decidable (_ ∨ _ ∧ _))

/-- The root of the walk of a confined application. -/
theorem Confined.inClone {tempDir : String} {spec : GitApplicationSpec}
    (confined : Confined ((newClient tempDir).repoPath spec.repoURL) spec)
    (raw : spec.manifestType = .raw) :
    InClone tempDir spec.repoURL
      (join ((newClient tempDir).repoPath spec.repoURL) spec.path) := by
  have plain := simpleHash_plain spec.repoURL
  have normal := normal_stack (newClient tempDir).basePath
  obtain ⟨back, -⟩ := confined.resolve_left fun helm => nomatch raw.symm.trans helm
  rw [repoPath_eq] at back ⊢
  obtain ⟨joined, normal', whole, -⟩ := exists_join_text (.name plain normal) spec.path
  have within := (within_join_iff plain normal spec.path).mpr back
  rw [whole] at within ⊢
  exact ⟨joined, normal', (within_text_iff (.name plain normal) normal'
    (List.cons_ne_nil _ _)).mp within, rfl⟩

section Parse

variable {σ ε : Type*} {git : Git σ ε} {tempDir : String} (fs : FileSystem git tempDir)

/-- Nothing misleads the first two steps of a reconcile: nothing is taken for the branch, the path
of the application stays in its clone, and no symbolic link at the head of the branch leads out. -/
structure FileSystem.Straight (env : ε) (spec : GitApplicationSpec) (dir : σ) : Prop where
  unmistaken : git.Unmistaken env spec.repoURL spec.branch dir
  confined : Confined ((newClient tempDir).repoPath spec.repoURL) spec
  enclosed : ∀ commit, git.remote env spec.repoURL (branchRef spec.branch) = some commit →
    fs.Enclosed commit

/-- The parse of the files that a commit has in a directory. -/
def parseOf (dir : String) (commit : Commit) (spec : GitApplicationSpec) :
    Except String (List Resource) :=
  parse (fs.files dir commit).lstat dir spec.path spec.manifestType

/-- A parse looks at the root of its walk. -/
theorem parse_congr {lstat lstat' : String → Except String Entry} {dir : String}
    {spec : GitApplicationSpec}
    (same : spec.manifestType = .raw → lstat (join dir spec.path) = lstat' (join dir spec.path)) :
    parse lstat dir spec.path spec.manifestType = parse lstat' dir spec.path spec.manifestType := by
  cases type : spec.manifestType with
  | helm => rfl
  | raw => simp only [parse, same type]

variable {env : ε} {disk disk' : String → σ} {spec : GitApplicationSpec} {commit : Commit}

/-- **A parse of a clean checkout** is the parse of its commit. -/
theorem FileSystem.parse_eq
    (clean : git.tree (disk ((newClient tempDir).repoPath spec.repoURL)) = .clean commit)
    (enclosed : fs.Enclosed commit)
    (confined : Confined ((newClient tempDir).repoPath spec.repoURL) spec) :
    parse (fs.found env disk).lstat ((newClient tempDir).repoPath spec.repoURL) spec.path
        spec.manifestType =
      parseOf fs ((newClient tempDir).repoPath spec.repoURL) commit spec :=
  parse_congr fun raw => fs.found_clean clean enclosed (confined.inClone raw)

/-- A parse depends on its own directory. -/
theorem FileSystem.parse_local
    (same : disk ((newClient tempDir).repoPath spec.repoURL) =
      disk' ((newClient tempDir).repoPath spec.repoURL))
    (enclosed : ∀ commit ∈ git.commits (disk ((newClient tempDir).repoPath spec.repoURL)),
      fs.Enclosed commit)
    (confined : Confined ((newClient tempDir).repoPath spec.repoURL) spec) :
    parse (fs.found env disk).lstat ((newClient tempDir).repoPath spec.repoURL) spec.path
        spec.manifestType =
      parse (fs.found env disk').lstat ((newClient tempDir).repoPath spec.repoURL) spec.path
        spec.manifestType :=
  parse_congr fun raw => fs.found_local same enclosed (confined.inClone raw)

end Parse

/-! ## One operation of a walk -/

theorem InClone.join {tempDir repoURL path name : String} (inside : InClone tempDir repoURL path)
    (plain : Plain name.toList) : InClone tempDir repoURL (FilePath.join path name) :=
  BuiltOn.join inside plain

theorem plain_of_listed {entries : Entries} (listed : entries.Listed) :
    ∀ entry ∈ entries.toList, Plain entry.name.toList := by
  intro entry member
  cases entries with
  | nil => cases member
  | cons first rest =>
      obtain ⟨plain, -, later⟩ := listed
      rcases List.mem_cons.mp member with rfl | below
      · exact plain
      · exact plain_of_listed later entry below

theorem Task.path_of {path : String} {entry : Entry} : (Task.of path entry).path = path := by
  cases entry <;> rfl

/-- The operations that come next are on paths of the same clone. -/
theorem Task.inClone_of_run {tempDir repoURL : String} {files : Files} {task : Task}
    {resources : List Resource} {next : List Task × List Resource}
    (listed : ∀ {path entry}, files.lstat path = .ok entry → entry.Listed)
    (inside : InClone tempDir repoURL task.path) (ran : task.run files resources = .ok next) :
    ∀ later ∈ next.1, InClone tempDir repoURL later.path := by
  intro later member
  cases task with
  | root path =>
      simp only [Task.run] at ran
      split at ran
      · cases ran
      · cases ran
        cases List.mem_singleton.mp member
        rwa [Task.path_of]
  | file path =>
      simp only [Task.run] at ran
      cases visited : visitManifest path (.file (files.read path)) resources with
      | error err =>
          rw [visited] at ran
          cases ran
      | ok resources =>
          rw [visited] at ran
          cases ran
          cases member
  | directory path =>
      cases found : files.readDir path with
      | error err =>
          simp only [Task.run, found] at ran
          cases ran
      | ok entries =>
          simp only [Task.run, found] at ran
          cases ran
          obtain ⟨entry, here, rfl⟩ := List.mem_map.mp member
          rw [Task.path_of]
          refine inside.join (plain_of_listed ?_ entry here)
          unfold Files.readDir at found
          split at found
          next => cases found
          next => cases found
          next there =>
            cases found
            exact listed there
          next => cases found

/-! ## An instance -/

/-- The directory of the client that a path lies in. -/
def cloneOf (tempDir path : String) : String :=
  let depth := (stack (newClient tempDir).basePath).length + 1
  text (rooted path) ((stack path).drop ((stack path).length - depth))

theorem cloneOf_of_inClone {tempDir repoURL path : String} (inside : InClone tempDir repoURL path) :
    cloneOf tempDir path = (newClient tempDir).repoPath repoURL := by
  obtain ⟨components, normal, ⟨front, rfl⟩, rfl⟩ := inside
  rw [repoPath_eq, cloneOf, rooted_text normal, stack_text normal]
  congr 1
  have excess : (front ++ (simpleHash repoURL).toList ::
      stack (newClient tempDir).basePath).length -
        ((stack (newClient tempDir).basePath).length + 1) = front.length := by
    rw [List.length_append, List.length_cons]
    omega
  simp only [excess, List.drop_left]

/-- A manifest at every path of a clone, which names the commit that is checked out. -/
def manifestAt (tree : Tree) : Except String Entry :=
  match tree with
  | .clean commit => .ok (.file "app.yaml" (.ok ("kind: " ++ commit.name)))
  | _ => .error "no such file or directory"

/-- A file system in which every checkout holds one manifest. -/
def oneManifest : FileSystem exampleGit "/tmp" where
  found := fun _ disk =>
    { lstat := fun path => manifestAt (exampleGit.tree (disk (cloneOf "/tmp" path)))
      listed := by
        intro path name entries listing
        unfold manifestAt at listing
        split at listing
        · cases listing
        · cases listing }
  files := fun dir commit =>
    { lstat := fun path =>
        if cloneOf "/tmp" path = dir then manifestAt (.clean commit)
        else .error "no such file or directory"
      listed := by
        intro path name entries listing
        split at listing
        · cases listing
        · cases listing }
  Enclosed := fun _ => True
  listed := by
    intro env disk path entry found
    simp only [manifestAt] at found
    split at found
    · cases found
      trivial
    · cases found
  found_clean := by
    intro env disk repoURL commit path clean enclosed inside
    have own := cloneOf_of_inClone inside
    simp only [own, clean, if_true]
  found_local := by
    intro env disk disk' repoURL path same enclosed inside
    have own := cloneOf_of_inClone inside
    simp only [own, same]

end Wardn
