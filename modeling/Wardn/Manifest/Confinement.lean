import Wardn.Git.Client
import Wardn.Lib.Containment
import Wardn.Manifest.Walk

/-!
# Where the parser reads

`Parse` joins `spec.path` to the directory of the clone and walks whatever is there.  The join is
cleaned as a whole, so a path with enough `..` leads out of the clone; the walk below the root of
the walk never does.  `reads_inside_iff` is the exact condition on the path.
-/

namespace Wardn

open FilePath

/-! ## The paths of a walk -/

mutual

/-- The names below an entry are as `os.ReadDir` gives them: single components, none of them `.`
or `..`. -/
def Entry.Listed : Entry → Prop
  | .file _ _ => True
  | .dir _ entries => entries.Listed
  | .unlistable _ _ => True

/-- The names of the entries are plain ones. -/
def Entries.Listed : Entries → Prop
  | .nil => True
  | .cons entry rest => Plain entry.name.toList ∧ entry.Listed ∧ rest.Listed

end

/-- The paths that `Parse` hands to `filepath.WalkDir` and `os.ReadFile`: the root of the walk, and
each manifest that the walk comes to before it fails. -/
inductive Handed (lstat : String → Except String Entry) (repoPath subPath : String) :
    ManifestType → String → Prop
  | walk : Handed lstat repoPath subPath .raw (join repoPath subPath)
  | read {before after : List (String × Visit)} {path : String} {read : Except String String}
    (visits : rootVisits (join repoPath subPath) (lstat (join repoPath subPath)) =
      before ++ (path, .file read) :: after)
    (reached : ¬ ∃ v ∈ before, Fails v) (manifest : isManifest path = true) :
    Handed lstat repoPath subPath .raw path

section Visits

variable {isRooted : Bool} {dir : Stack}

/-- The path is cleaned and built on a directory. -/
def BuiltOn (isRooted : Bool) (dir : Stack) (path : String) : Prop :=
  ∃ components, Normal isRooted components ∧ dir <:+ components ∧ path = text isRooted components

theorem BuiltOn.join {path name : String} (built : BuiltOn isRooted dir path)
    (plain : Plain name.toList) : BuiltOn isRooted dir (FilePath.join path name) := by
  obtain ⟨components, normal, suffix, rfl⟩ := built
  refine ⟨name.toList :: components, .name plain normal, ?_, join_text_of_plain normal plain⟩
  exact suffix.trans (List.suffix_cons _ _)

theorem BuiltOn.within {path : String} (built : BuiltOn isRooted dir path)
    (normal : Normal isRooted dir) (nonempty : dir ≠ []) : Within (text isRooted dir) path := by
  obtain ⟨components, normal', suffix, rfl⟩ := built
  exact (within_text_iff normal normal' nonempty).mpr suffix

mutual

/-- A walk that starts in a directory stays there. -/
theorem Entry.builtOn_visits {path : String} (built : BuiltOn isRooted dir path) (entry : Entry)
    (listed : entry.Listed) : ∀ v ∈ entry.visits path, BuiltOn isRooted dir v.1 := by
  intro v member
  cases entry with
  | file name read =>
      cases List.mem_singleton.mp member
      exact built
  | dir name entries =>
      rcases List.mem_cons.mp member with rfl | below
      · exact built
      · exact Entries.builtOn_visits built entries listed v below
  | unlistable name err =>
      simp only [Entry.visits, List.mem_cons, List.not_mem_nil, or_false] at member
      rcases member with rfl | rfl
      · exact built
      · exact built

theorem Entries.builtOn_visits {path : String} (built : BuiltOn isRooted dir path)
    (entries : Entries) (listed : entries.Listed) :
    ∀ v ∈ entries.visits path, BuiltOn isRooted dir v.1 := by
  intro v member
  cases entries with
  | nil => cases member
  | cons entry rest =>
      obtain ⟨plain, here, later⟩ := listed
      rcases List.mem_append.mp member with first | second
      · exact Entry.builtOn_visits (built.join plain) entry here v first
      · exact Entries.builtOn_visits built rest later v second

end

theorem builtOn_rootVisits {path : String} (built : BuiltOn isRooted dir path)
    {root : Except String Entry} (listed : ∀ entry, root = .ok entry → entry.Listed) :
    ∀ v ∈ rootVisits path root, BuiltOn isRooted dir v.1 := by
  intro v member
  cases root with
  | error err =>
      cases List.mem_singleton.mp member
      exact built
  | ok entry => exact Entry.builtOn_visits built entry (listed entry rfl) v member

/-- Everything the parser reads lies within a directory when the root of its walk does. -/
theorem handed_within_iff {lstat : String → Except String Entry}
    (listed : ∀ path entry, lstat path = .ok entry → entry.Listed) (normal : Normal isRooted dir)
    (nonempty : dir ≠ []) (subPath : String) (manifestType : ManifestType) :
    (∀ path, Handed lstat (text isRooted dir) subPath manifestType path →
        Within (text isRooted dir) path) ↔
      manifestType = .helm ∨
        Within (text isRooted dir) (FilePath.join (text isRooted dir) subPath) := by
  cases manifestType with
  | helm => exact iff_of_true (fun path handed => by cases handed) (.inl rfl)
  | raw =>
      refine ⟨fun inside => .inr (inside _ .walk), fun within path handed => ?_⟩
      have root := within.resolve_left nofun
      cases handed with
      | walk => exact root
      | @read before after path read visits reached manifest =>
          obtain ⟨joined, normal', whole, -⟩ := exists_join_text normal subPath
          rw [whole] at root visits
          have built : BuiltOn isRooted dir (text isRooted joined) :=
            ⟨joined, normal', (within_text_iff normal normal' nonempty).mp root, rfl⟩
          have member : (path, Visit.file read) ∈
              rootVisits (text isRooted joined) (lstat (text isRooted joined)) := by
            rw [visits]
            exact List.mem_append_right _ List.mem_cons_self
          exact (builtOn_rootVisits built (listed _) _ member).within normal nonempty

end Visits

/-! ## The clone -/

/-- What `LocalPath` answers after `CloneOrPull`. -/
theorem localPath_cloneOrPull {σ : Type*} (git : GitCommand → σ → σ × Except String String)
    (c : Client) (hasGit : σ → Bool) (disk : String → σ) (repoURL branch : String) :
    (c.cloneOrPull git hasGit disk repoURL branch).1.localPath repoURL = c.repoPath repoURL :=
  Function.update_self ..

theorem repoPath_eq (c : Client) (repoURL : String) :
    c.repoPath repoURL =
      text (rooted c.basePath) ((simpleHash repoURL).toList :: stack c.basePath) :=
  join_of_plain c.based (simpleHash_plain repoURL)

/-- **Reads stay inside the clone** of a repository exactly when the application's path, cleaned by
itself, comes back as far as it climbs; nothing is read for a Helm chart. -/
theorem reads_inside_iff {σ : Type*} (git : GitCommand → σ → σ × Except String String)
    (c : Client) (hasGit : σ → Bool) (disk : String → σ) (repoURL branch : String)
    {lstat : String → Except String Entry}
    (listed : ∀ path entry, lstat path = .ok entry → entry.Listed) (subPath : String)
    (manifestType : ManifestType) :
    let localPath := (c.cloneOrPull git hasGit disk repoURL branch).1.localPath repoURL
    (∀ path, Handed lstat localPath subPath manifestType path → Within localPath path) ↔
      manifestType = .helm ∨ ComesBack localPath subPath := by
  intro localPath
  have plain := simpleHash_plain repoURL
  have normal := normal_stack c.basePath
  have clone : localPath =
      text (rooted c.basePath) ((simpleHash repoURL).toList :: stack c.basePath) :=
    (localPath_cloneOrPull ..).trans (repoPath_eq c repoURL)
  rw [clone, handed_within_iff listed (.name plain normal) (List.cons_ne_nil _ _),
    within_join_iff plain normal]

/-- A directory with a manifest and, below it, another one. -/
def manifestTree : Entry :=
  .dir "k8s" (.cons (.dir "base" (.cons (.file "app.yaml" (.ok "kind: Service")) .nil))
    (.cons (.file "web.yml" (.ok "kind: Deployment")) .nil))

/-- Both manifests of a path below the clone are read, and nothing outside. -/
theorem reads_inside_of_subdirectory :
    let localPath := ((newClient "/tmp").cloneOrPull (fun _ dir => (dir, .ok "5e1f"))
      (fun _ => true) (fun _ => ()) "https://git.io/shop" "main").1.localPath "https://git.io/shop"
    let root := join localPath "deploy/../k8s"
    Handed (fun _ => .ok manifestTree) localPath "deploy/../k8s" .raw
        (join (join root "base") "app.yaml") ∧
      Handed (fun _ => .ok manifestTree) localPath "deploy/../k8s" .raw (join root "web.yml") ∧
      ∀ path, Handed (fun _ => .ok manifestTree) localPath "deploy/../k8s" .raw path →
        Within localPath path := by
  intro localPath root
  let front : List (String × Visit) := [(root, .dir), (join root "base", .dir)]
  have first : rootVisits root (.ok manifestTree) = front ++
      (join (join root "base") "app.yaml", .file (.ok "kind: Service")) ::
        [(join root "web.yml", .file (.ok "kind: Deployment"))] := rfl
  have second : rootVisits root (.ok manifestTree) =
      (front ++ [(join (join root "base") "app.yaml", .file (.ok "kind: Service"))]) ++
        (join root "web.yml", .file (.ok "kind: Deployment")) :: [] := rfl
  have below : climbs "deploy/../k8s" = 0 := by decide
  refine ⟨.read first (by simp [front, Fails]) (by decide +kernel),
    .read second (by simp [front, Fails]) (by decide +kernel),
    (reads_inside_iff (fun _ dir => (dir, .ok "5e1f")) (newClient "/tmp") (fun _ => true)
      (fun _ => ()) "https://git.io/shop" "main" (fun _ _ found => ?_) "deploy/../k8s" .raw).mpr
      (.inr (comesBack_of_climbs_eq_zero below _))⟩
  cases found
  have plain : Plain "base".toList ∧ Plain "app.yaml".toList ∧ Plain "web.yml".toList := by
    refine ⟨⟨?_, ?_, ?_, ?_⟩, ⟨?_, ?_, ?_, ?_⟩, ⟨?_, ?_, ?_, ?_⟩⟩ <;> decide
  obtain ⟨base, app, web⟩ := plain
  exact ⟨base, ⟨app, trivial, trivial⟩, web, trivial, trivial⟩

/-- The clone of another repository is a sibling. -/
theorem other_clone_read :
    ∃ (c : Client) (subPath : String),
      c.repoPath "https://git.io/shop" ≠ c.repoPath "https://git.io/blog" ∧
      Handed (fun _ => .error "no such file or directory") (c.repoPath "https://git.io/shop")
        subPath .raw (c.repoPath "https://git.io/blog") ∧
      ¬ Within (c.repoPath "https://git.io/shop") (c.repoPath "https://git.io/blog") := by
  refine ⟨newClient "/tmp", "../" ++ simpleHash "https://git.io/blog", ?_, ?_, ?_⟩
  · decide +kernel
  · have same : (newClient "/tmp").repoPath "https://git.io/blog" =
        join ((newClient "/tmp").repoPath "https://git.io/shop")
          ("../" ++ simpleHash "https://git.io/blog") := by decide +kernel
    rw [same]
    exact .walk
  · decide +kernel

end Wardn
