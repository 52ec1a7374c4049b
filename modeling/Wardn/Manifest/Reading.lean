import Wardn.Manifest.Parser

/-!
# The walk, one file operation at a time

`filepath.WalkDir` asks the file system once for its root, once for each directory and, through
the parser's callback, once for each file.  A `Task` is such an operation still to come, and
`Task.run` does one on the files as they are at that moment.  `collectTasks_cons` is the law of
the steps: on files that do not change, running a task keeps what the rest of the walk comes to
(`collectTasks`), so a walk that is never disturbed ends in `parseRaw` (`collectTasks_root`).
-/

namespace Wardn

/-- The entries of a directory as a list. -/
def Entries.toList : Entries → List Entry
  | .nil => []
  | .cons entry rest => entry :: rest.toList

/-- What the file system holds at each path. -/
structure Files where
  lstat : String → Except String Entry
  /-- The entries that a directory lists are found under it. -/
  listed : ∀ path name entries, lstat path = .ok (.dir name entries) →
    ∀ entry ∈ entries.toList, lstat (FilePath.join path entry.name) = .ok entry

/-- `os.ReadFile`. -/
def Files.read (files : Files) (path : String) : Except String String :=
  match files.lstat path with
  | .error err => .error err
  | .ok (.file _ read) => read
  | .ok (.dir _ _) => .error "is a directory"
  | .ok (.unlistable _ _) => .error "is a directory"

/-- `os.ReadDir`. -/
def Files.readDir (files : Files) (path : String) : Except String Entries :=
  match files.lstat path with
  | .error err => .error err
  | .ok (.file _ _) => .error "not a directory"
  | .ok (.dir _ entries) => .ok entries
  | .ok (.unlistable _ err) => .error err

theorem Files.listed_of_readDir (files : Files) {path : String} {entries : Entries}
    (found : files.readDir path = .ok entries) :
    ∀ entry ∈ entries.toList, files.lstat (FilePath.join path entry.name) = .ok entry := by
  unfold Files.readDir at found
  split at found
  · cases found
  · cases found
  · cases found
    exact files.listed path _ _ ‹_›
  · cases found

/-- A file operation of the walk that is still to come. -/
inductive Task
  /-- `os.Lstat` of the root. -/
  | root (path : String)
  | directory (path : String)
  | file (path : String)
  deriving DecidableEq, Repr

/-- The operation for an entry that is not the root. -/
def Task.of (path : String) : Entry → Task
  | .file _ _ => .file path
  | .dir _ _ => .directory path
  | .unlistable _ _ => .directory path

/-- The operations for the entries of a directory. -/
def Task.children (path : String) (entries : Entries) : List Task :=
  entries.toList.map fun entry => .of (FilePath.join path entry.name) entry

/-- One operation with the parser's callback: the operations that come next and the resources. -/
def Task.run (files : Files) (task : Task) (resources : List Resource) :
    Except String (List Task × List Resource) :=
  match task with
  | .root path =>
    match files.lstat path with
    | .error err => do
      let resources ← visitManifest path (.failed err) resources
      .ok ([], resources)
    | .ok entry => .ok ([.of path entry], resources)
  | .directory path => do
    let resources ← visitManifest path .dir resources
    match files.readDir path with
    | .error err => do
      let resources ← visitManifest path (.failed err) resources
      .ok ([], resources)
    | .ok entries => .ok (Task.children path entries, resources)
  | .file path => do
    let resources ← visitManifest path (.file (files.read path)) resources
    .ok ([], resources)

/-- The path that the operation is on. -/
def Task.path : Task → String
  | .root path => path
  | .directory path => path
  | .file path => path

/-- An operation looks at its own path only. -/
theorem Task.run_congr {files files' : Files} {task : Task}
    (same : files.lstat task.path = files'.lstat task.path) (resources : List Resource) :
    task.run files resources = task.run files' resources := by
  cases task with
  | root path =>
      have here : files.lstat path = files'.lstat path := same
      simp only [Task.run, here]
  | directory path =>
      have here : files.lstat path = files'.lstat path := same
      simp only [Task.run, Files.readDir, here]
  | file path =>
      have here : files.lstat path = files'.lstat path := same
      simp only [Task.run, Files.read, here]

/-! ## What the remaining tasks come to -/

/-- The rest of the walk below a task, on files that do not change. -/
def Task.collect (files : Files) (task : Task) (resources : List Resource) :
    Except String (List Resource) :=
  match task with
  | .root path => walkRoot visitManifest path (files.lstat path) resources
  | .directory path => do
    let resources ← visitManifest path .dir resources
    match files.readDir path with
    | .error err => visitManifest path (.failed err) resources
    | .ok entries => walkEntries visitManifest path entries resources
  | .file path => visitManifest path (.file (files.read path)) resources

def collectTasks (files : Files) (tasks : List Task) (resources : List Resource) :
    Except String (List Resource) :=
  tasks.foldlM (fun resources task => task.collect files resources) resources

theorem Task.collect_of {files : Files} {path : String} {entry : Entry}
    (found : files.lstat path = .ok entry) (resources : List Resource) :
    (Task.of path entry).collect files resources =
      walkDir visitManifest path entry resources := by
  cases entry with
  | file name read => simp only [Task.of, Task.collect, Files.read, found, walkDir]
  | dir name entries => simp only [Task.of, Task.collect, Files.readDir, found, walkDir]
  | unlistable name err => simp only [Task.of, Task.collect, Files.readDir, found, walkDir]

theorem collectTasks_children {files : Files} {path : String} :
    ∀ {entries : Entries},
      (∀ entry ∈ entries.toList, files.lstat (FilePath.join path entry.name) = .ok entry) →
      ∀ resources, collectTasks files (Task.children path entries) resources =
        walkEntries visitManifest path entries resources
  | .nil, _, _ => rfl
  | .cons entry rest, found, resources => by
      have here := found entry List.mem_cons_self
      have later := fun resources => @collectTasks_children files path rest
        (fun next member => found next (List.mem_cons_of_mem entry member)) resources
      rw [walkEntries, ← Task.collect_of here]
      exact bind_congr later

theorem collectTasks_append (files : Files) (tasks later : List Task) (resources : List Resource) :
    collectTasks files (tasks ++ later) resources =
      (collectTasks files tasks resources).bind fun resources =>
        collectTasks files later resources :=
  List.foldlM_append

/-- What an operation leads to comes to what the operation does. -/
theorem Task.run_collect (files : Files) (task : Task) (resources : List Resource) :
    ((task.run files resources).bind fun next => collectTasks files next.1 next.2) =
      task.collect files resources := by
  cases task with
  | root path =>
      cases found : files.lstat path with
      | error err =>
          simp only [Task.run, Task.collect, found]
          rfl
      | ok entry =>
          simp only [Task.run, Task.collect, found]
          have below := Task.collect_of found resources
          exact (bind_pure ((Task.of path entry).collect files resources)).trans below
  | file path =>
      simp only [Task.run, Task.collect]
      cases visitManifest path (.file (files.read path)) resources <;> rfl
  | directory path =>
      cases found : files.readDir path with
      | error err =>
          simp only [Task.run, Task.collect, found]
          rfl
      | ok entries =>
          simp only [Task.run, Task.collect, found]
          exact collectTasks_children (files.listed_of_readDir found) resources

/-- **One operation** keeps what the walk comes to. -/
theorem collectTasks_cons (files : Files) (task : Task) (tasks : List Task)
    (resources : List Resource) :
    collectTasks files (task :: tasks) resources =
      (task.run files resources).bind fun next => collectTasks files (next.1 ++ tasks) next.2 := by
  have first : collectTasks files (task :: tasks) resources =
      (task.collect files resources).bind fun resources => collectTasks files tasks resources := rfl
  rw [first, ← Task.run_collect]
  cases task.run files resources with
  | error err => rfl
  | ok next => exact (collectTasks_append files next.1 tasks next.2).symm

/-- An undisturbed walk ends in what `parseRaw` collects. -/
theorem collectTasks_root (files : Files) (dir : String) :
    collectTasks files [.root dir] [] = parseRaw dir (files.lstat dir) := by
  simp [collectTasks, Task.collect, parseRaw]

end Wardn
