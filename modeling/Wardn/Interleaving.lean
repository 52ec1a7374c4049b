import Wardn.Git.Tracking
import Wardn.Manifest.FileSystem

/-!
# Reconciles that share a checkout

The first two steps of a reconcile in pieces: `CloneOrPull` and `LocalPath` are one step each, the
mutex of the client sees to that, and the walk of `Parse` is one step for each of its file
operations, each on the working tree as it is then.  Any number of reconciles take these steps in
any order.

Nothing holds the checkout from a reconcile's `CloneOrPull` to its last read.  `Considerate` is what
a reconcile has to look after before its `CloneOrPull`: that nothing misleads it, and that the files
do not change under one that is reading them.  Where all do, a parse is that of the revision
(`own_manifests_of_considerate`).
-/

namespace Wardn

open Runs

/-- Where a reconcile is in its first two steps. -/
inductive Phase
  | start
  | failed (err : String)
  | pulled (revision : String)
  | walking (revision : String) (tasks : List Task) (resources : List Resource)
  | parsed (revision : String) (result : Except String (List Resource))
  deriving DecidableEq

/-- The phase behind a `CloneOrPull`. -/
def Phase.called : Except String String → Phase
  | .ok revision => .pulled revision
  | .error err => .failed err

/-- The step of a reconcile that has its revision. -/
def Phase.next (localPath : String) (files : Files) (spec : GitApplicationSpec) : Phase → Phase
  | .start => .start
  | .failed err => .failed err
  | .pulled revision =>
    match spec.manifestType with
    | .helm => .parsed revision parseHelm
    | .raw => .walking revision [.root (FilePath.join localPath spec.path)] []
  | .walking revision [] resources => .parsed revision (.ok resources)
  | .walking revision (task :: tasks) resources =>
    match task.run files resources with
    | .error err => .parsed revision (.error err)
    | .ok (next, resources) => .walking revision (next ++ tasks) resources
  | .parsed revision result => .parsed revision result

theorem Phase.next_ne_pulled (localPath : String) (files : Files) (spec : GitApplicationSpec)
    (phase : Phase) (revision : String) : phase.next localPath files spec ≠ .pulled revision := by
  intro pulled
  unfold Phase.next at pulled
  split at pulled
  · cases pulled
  · cases pulled
  · split at pulled <;> cases pulled
  · cases pulled
  · split at pulled <;> cases pulled
  · cases pulled

/-- File operations on the checkout are still to come. -/
def Phase.Reads (spec : GitApplicationSpec) : Phase → Prop
  | .start => False
  | .failed _ => False
  | .pulled _ => spec.manifestType = .raw
  | .walking _ tasks _ => tasks ≠ []
  | .parsed _ _ => False

/-- The host and the phase of each reconcile. -/
structure System (σ ι : Type*) where
  host : Host σ
  phase : ι → Phase

section Interleaving

variable {σ ε ι : Type*} [DecidableEq ι] {git : Git σ ε} {tempDir : String}
  (fs : FileSystem git tempDir) (spec : ι → GitApplicationSpec)

variable (git tempDir) in
/-- A new client over an empty disk, and no reconcile has begun. -/
def System.idle : System σ ι := ⟨.started git tempDir, fun _ => .start⟩

variable (tempDir) in
/-- The directory of a reconcile's repository. -/
def dirOf (i : ι) : String := (newClient tempDir).repoPath (spec i).repoURL

/-- What is in it. -/
def System.checkout (s : System σ ι) (i : ι) : σ := s.host.checkout (spec i).repoURL

/-- The `CloneOrPull` of a reconcile, with what it meets. -/
def callOf (move : ι × ε) : Call ε :=
  ⟨(spec move.1).repoURL, (spec move.1).branch, move.2⟩

/-- One step of one reconcile. -/
def System.step (s : System σ ι) (move : ι × ε) : System σ ι :=
  match s.phase move.1 with
  | .start =>
    let (host, result) := s.host.call git (callOf spec move)
    ⟨host, Function.update s.phase move.1 (.called result)⟩
  | phase =>
    let localPath := s.host.client.localPath (spec move.1).repoURL
    let files := fs.found move.2 s.host.disk
    ⟨s.host, Function.update s.phase move.1 (phase.next localPath files (spec move.1))⟩

/-- Every parse that has ended is the parse of the revision its reconcile records. -/
def System.OwnManifests (s : System σ ι) : Prop :=
  ∀ i revision result, s.phase i = .parsed revision result →
    ∃ commit : Commit, revision = commit.name ∧
      result = parseOf fs (dirOf tempDir spec i) commit (spec i)

/-- A call that nothing stops finds its checkout at the head of the branch already. -/
structure Steady (git : Git σ ε) (call : Call ε) (dir : σ) (commit : Commit) : Prop where
  able : git.Able call.env
  head : git.remote call.env call.repoURL (branchRef call.branch) = some commit
  ready : git.Ready call.env call.repoURL call.branch dir
  covered : git.Covered call.branch dir
  tree : git.tree dir = .clean commit

/-- Before its `CloneOrPull` a reconcile finds nothing that misleads it and no other repository in
its directory, and another one that is still reading the directory will find it as it is. -/
structure System.Considerate (s : System σ ι) (move : ι × ε) : Prop where
  straight : fs.Straight move.2 (spec move.1) (s.checkout spec move.1)
  own : git.FromRemotes {(spec move.1).repoURL} (s.checkout spec move.1)
  steady : ∀ j ≠ move.1, (s.phase j).Reads (spec j) →
    dirOf tempDir spec j = dirOf tempDir spec move.1 →
      ∃ commit, Steady git (callOf spec move) (s.checkout spec move.1) commit

/-- A step that calls `CloneOrPull` is considerate. -/
def System.Considers (s : System σ ι) (move : ι × ε) : Prop :=
  s.phase move.1 = .start → s.Considerate fs spec move

/-! ## What a considerate reconcile keeps -/

/-- The phase is one of a reconcile that reads the commit of its revision. -/
def Phase.Own (tree : Tree) (spec : GitApplicationSpec) : Phase → Prop
  | .start => True
  | .failed _ => True
  | .pulled revision =>
    ∃ commit : Commit, revision = commit.name ∧ fs.Enclosed commit ∧
      Confined ((newClient tempDir).repoPath spec.repoURL) spec ∧
      (spec.manifestType = .raw → tree = .clean commit)
  | .walking revision tasks resources =>
    ∃ commit : Commit, revision = commit.name ∧ fs.Enclosed commit ∧
      (∀ task ∈ tasks, InClone tempDir spec.repoURL task.path) ∧
      (tasks ≠ [] → tree = .clean commit) ∧
      collectTasks (fs.files ((newClient tempDir).repoPath spec.repoURL) commit) tasks resources =
        parseOf fs ((newClient tempDir).repoPath spec.repoURL) commit spec
  | .parsed revision result =>
    ∃ commit : Commit, revision = commit.name ∧
      result = parseOf fs ((newClient tempDir).repoPath spec.repoURL) commit spec

/-- **One read** of a reconcile that is not disturbed. -/
theorem Phase.Own.next {disk : String → σ} {spec : GitApplicationSpec} {phase : Phase}
    (own : phase.Own fs (git.tree (disk ((newClient tempDir).repoPath spec.repoURL))) spec)
    (env : ε) :
    (phase.next ((newClient tempDir).repoPath spec.repoURL) (fs.found env disk) spec).Own fs
      (git.tree (disk ((newClient tempDir).repoPath spec.repoURL))) spec := by
  cases phase with
  | start => exact own
  | failed err => exact own
  | parsed revision result => exact own
  | pulled revision =>
      obtain ⟨commit, rfl, enclosed, confined, checkedOut⟩ := own
      unfold Phase.next
      cases type : spec.manifestType with
      | helm => exact ⟨commit, rfl, by simp only [parseOf, parse, type]⟩
      | raw =>
          refine ⟨commit, rfl, enclosed, fun task member => ?_, fun _ => checkedOut type, ?_⟩
          · cases List.mem_singleton.mp member
            exact confined.inClone type
          · rw [collectTasks_root]
            simp only [parseOf, parse, type]
  | walking revision tasks resources =>
      obtain ⟨commit, rfl, enclosed, inside, checkedOut, whole⟩ := own
      cases tasks with
      | nil => exact ⟨commit, rfl, whole⟩
      | cons task tasks =>
          have here := checkedOut (List.cons_ne_nil task tasks)
          have own := inside task List.mem_cons_self
          -- the operation finds what the commit has there
          have same : task.run (fs.found env disk) resources =
              task.run (fs.files ((newClient tempDir).repoPath spec.repoURL) commit) resources :=
            Task.run_congr (fs.found_clean here enclosed own) resources
          rw [collectTasks_cons, ← same] at whole
          cases ran : task.run (fs.found env disk) resources with
          | error err =>
              simp only [Phase.next, ran]
              rw [ran] at whole
              exact ⟨commit, rfl, whole⟩
          | ok next =>
              simp only [Phase.next, ran]
              rw [ran] at whole
              refine ⟨commit, rfl, enclosed, fun later member => ?_, fun _ => here, whole⟩
              rcases List.mem_append.mp member with new | old
              · exact Task.inClone_of_run fs.listed own ran later new
              · exact inside later (List.mem_cons_of_mem task old)

/-- A phase that reads no more does not depend on the working tree. -/
theorem Phase.Own.of_not_reads {tree tree' : Tree} {spec : GitApplicationSpec} {phase : Phase}
    (own : phase.Own fs tree spec) (done : ¬ phase.Reads spec) : phase.Own fs tree' spec := by
  cases phase with
  | start => exact own
  | failed err => exact own
  | parsed revision result => exact own
  | pulled revision =>
      obtain ⟨commit, name, enclosed, confined, -⟩ := own
      exact ⟨commit, name, enclosed, confined, fun raw => absurd raw done⟩
  | walking revision tasks resources =>
      obtain ⟨commit, name, enclosed, inside, -, whole⟩ := own
      exact ⟨commit, name, enclosed, inside, fun more => absurd more done, whole⟩

/-! ## Runs -/

/-- Every reconcile has located its directory and reads the commit of its revision, and no directory
has a remote-tracking reference that its refspec does not cover. -/
structure System.Sound (s : System σ ι) : Prop where
  base : s.host.client.basePath = (newClient tempDir).basePath
  tracks : ∀ path, git.TracksCovered (s.host.disk path)
  located : ∀ i revision, s.phase i = .pulled revision →
    s.host.client.localPath (spec i).repoURL = dirOf tempDir spec i
  own : ∀ i, (s.phase i).Own fs (git.tree (s.checkout spec i)) (spec i)

omit [DecidableEq ι] in
theorem System.sound_idle : (System.idle git tempDir : System σ ι).Sound fs spec :=
  ⟨rfl, fun _ => Git.tracksCovered_absent, nofun, fun _ => trivial⟩

variable {fs spec} {s : System σ ι} {move : ι × ε}

omit [DecidableEq ι] in
theorem System.Sound.ownManifests (sound : s.Sound fs spec) : s.OwnManifests fs spec := by
  intro i revision result parsed
  have own := sound.own i
  rw [parsed] at own
  exact own

omit [DecidableEq ι] in
/-- The directories are where the client would put them at first. -/
theorem System.Sound.repoPath (sound : s.Sound fs spec) (repoURL : String) :
    s.host.client.repoPath repoURL = (newClient tempDir).repoPath repoURL := by
  rw [Client.repoPath, Client.repoPath, sound.base]

omit [DecidableEq ι] in
theorem System.Sound.checkout_eq (sound : s.Sound fs spec) (i : ι) :
    s.checkout spec i = s.host.disk (dirOf tempDir spec i) :=
  congrArg s.host.disk (sound.repoPath (spec i).repoURL)

variable (fs spec) in
/-- The first step of a reconcile is its call of `CloneOrPull`. -/
theorem System.step_of_start (start : s.phase move.1 = .start) :
    s.step fs spec move =
      ⟨s.host.step git (callOf spec move),
        Function.update s.phase move.1 (.called (s.host.call git (callOf spec move)).2)⟩ := by
  simp only [System.step, start]
  rfl

/-- Every later step moves its own phase alone. -/
theorem System.step_of_started (started : s.phase move.1 ≠ .start) :
    s.step fs spec move =
      ⟨s.host, Function.update s.phase move.1
        ((s.phase move.1).next (s.host.client.localPath (spec move.1).repoURL)
          (fs.found move.2 s.host.disk) (spec move.1))⟩ := by
  unfold System.step
  cases here : s.phase move.1 with
  | start => exact absurd here started
  | failed err => rfl
  | pulled revision => rfl
  | walking revision tasks resources => rfl
  | parsed revision result => rfl

/-- The call of a reconcile, seen by one of the same repository. -/
theorem System.checkout_step_of_start (start : s.phase move.1 = .start) {i : ι}
    (same : (spec i).repoURL = (spec move.1).repoURL) :
    (s.step fs spec move).checkout spec i = (s.host.pull git (callOf spec move)).1 := by
  rw [System.step_of_start fs spec start, System.checkout, same]
  exact s.host.step_checkout_self git (callOf spec move)

/-- A reconcile that has made its call makes no other. -/
theorem System.started_step (started : ∀ i, s.phase i ≠ .start) (i : ι) :
    (s.step fs spec move).phase i ≠ .start := by
  rw [System.step_of_started (started move.1)]
  change Function.update s.phase move.1 _ i ≠ .start
  by_cases own : i = move.1
  · subst own
    rw [Function.update_self]
    have here := started move.1
    generalize s.phase move.1 = phase at here
    unfold Phase.next
    split
    · exact here
    · exact nofun
    · split <;> exact nofun
    · exact nofun
    · split <;> exact nofun
    · exact nofun
  · rw [Function.update_of_ne own]
    exact started i

/-- From the last call on nothing disturbs a read. -/
theorem System.along_of_started (started : ∀ i, s.phase i ≠ .start) (run : List (ι × ε)) :
    Along (System.step fs spec) (System.Considers fs spec) s run :=
  along_of_invariant (I := fun s => ∀ i, s.phase i ≠ .start) (D := fun _ => True)
    (fun _ move started _ start => absurd start (started move.1))
    (fun _ _ started _ => System.started_step started) started fun _ _ => trivial

omit [DecidableEq ι] in
/-- A considerate call leaves the files of one that is reading as they are. -/
theorem System.Considerate.tree_eq (considerate : s.Considerate fs spec move)
    (sound : s.Sound fs spec) {i : ι} (other : i ≠ move.1) (reads : (s.phase i).Reads (spec i)) :
    git.tree ((s.host.step git (callOf spec move)).checkout (spec i).repoURL) =
      git.tree (s.checkout spec i) := by
  by_cases shared : dirOf tempDir spec i = dirOf tempDir spec move.1
  · obtain ⟨commit, able, head, ready, covered, tree⟩ := considerate.steady i other reads shared
    have path : s.host.client.repoPath (spec i).repoURL =
        s.host.client.repoPath (callOf spec move).repoURL := by
      rw [sound.repoPath, sound.repoPath]
      exact shared
    obtain ⟨dir, pulled, clean⟩ := Git.pull_of_ready ready covered able head
      (s.host.client.repoPath (callOf spec move).repoURL)
    rw [Host.step_checkout_of_eq git s.host (callOf spec move) path, sound.checkout_eq, shared,
      ← sound.checkout_eq, tree]
    exact (congrArg (fun result => git.tree result.1) pulled).trans clean
  · rw [Host.step_checkout_of_ne]
    · rfl
    · rw [sound.repoPath, sound.repoPath]
      exact shared

theorem System.Sound.step_of_start (sound : s.Sound fs spec)
    (considers : s.Considers fs spec move) (start : s.phase move.1 = .start) :
    (s.step fs spec move).Sound fs spec := by
  have considerate := considers start
  have tracked : git.TracksCovered (s.checkout spec move.1) := by
    rw [sound.checkout_eq]
    exact sound.tracks _
  rw [System.step_of_start fs spec start]
  refine ⟨sound.base, fun path => ?_, fun i revision pulled => ?_, fun i => ?_⟩
  · rw [Host.step_disk, Function.update_apply]
    split
    · exact Git.tracksCovered_pull considerate.straight.unmistaken.plain tracked
    · exact sound.tracks path
  · change (s.host.step git (callOf spec move)).client.localPath (spec i).repoURL = _
    rw [Host.step_localPath]
    by_cases own : i = move.1
    · rw [own]
      exact (if_pos rfl).trans (sound.repoPath _)
    · have before := (Function.update_of_ne own ..).symm.trans pulled
      rw [sound.located i revision before, sound.repoPath]
      exact ite_self _
  · change (Function.update s.phase move.1 _ i).Own fs
      (git.tree ((s.host.step git (callOf spec move)).checkout (spec i).repoURL)) (spec i)
    by_cases own : i = move.1
    · subst own
      rw [Function.update_self]
      cases result : (s.host.call git (callOf spec move)).2 with
      | error err => trivial
      | ok revision =>
          have ok : s.host.pull git (callOf spec move) =
            ((s.host.pull git (callOf spec move)).1, .ok revision) := Prod.ext rfl result
          obtain ⟨commit, head, name, clean, -⟩ :=
            Git.pulled_of_ok considerate.straight.unmistaken considerate.own tracked ok
          refine ⟨commit, name, considerate.straight.enclosed commit head,
            considerate.straight.confined, fun _ => ?_⟩
          exact (congrArg git.tree (s.host.step_checkout_self git (callOf spec move))).trans clean
    · rw [Function.update_of_ne own]
      by_cases reads : (s.phase i).Reads (spec i)
      · rw [considerate.tree_eq sound own reads]
        exact sound.own i
      · exact (sound.own i).of_not_reads fs reads

theorem System.Sound.step_of_started (sound : s.Sound fs spec)
    (started : s.phase move.1 ≠ .start) : (s.step fs spec move).Sound fs spec := by
  rw [System.step_of_started started]
  have located : (s.phase move.1).next (s.host.client.localPath (spec move.1).repoURL)
      (fs.found move.2 s.host.disk) (spec move.1) =
      (s.phase move.1).next (dirOf tempDir spec move.1) (fs.found move.2 s.host.disk)
        (spec move.1) := by
    cases here : s.phase move.1 with
    | pulled revision => rw [sound.located move.1 revision here]
    | walking revision tasks resources => cases tasks <;> rfl
    | _ => rfl
  rw [located]
  refine ⟨sound.base, sound.tracks, fun i revision pulled => ?_, fun i => ?_⟩
  · by_cases own : i = move.1
    · subst own
      exact (Phase.next_ne_pulled _ _ _ _ _ ((Function.update_self ..).symm.trans pulled)).elim
    · exact sound.located i revision ((Function.update_of_ne own ..).symm.trans pulled)
  · change (Function.update s.phase move.1 _ i).Own fs (git.tree (s.checkout spec i)) (spec i)
    by_cases own : i = move.1
    · subst own
      rw [Function.update_self]
      have before := sound.own move.1
      rw [sound.checkout_eq] at before ⊢
      exact before.next fs move.2
    · rw [Function.update_of_ne own]
      exact sound.own i

theorem System.Sound.step (sound : s.Sound fs spec) (considers : s.Considers fs spec move) :
    (s.step fs spec move).Sound fs spec := by
  by_cases start : s.phase move.1 = .start
  · exact sound.step_of_start considers start
  · exact sound.step_of_started start

variable (fs spec)

/-- **Reading a shared checkout.**  In every run of reconciles whose calls of `CloneOrPull` are
considerate, each parse that ends, wherever in the run, is the parse of the revision recorded with
it. -/
theorem own_manifests_of_considerate {run : List (ι × ε)}
    (considerate : Along (System.step fs spec) (System.Considers fs spec) (.idle git tempDir) run)
    (n : ℕ) :
    ((run.take n).foldl (System.step fs spec) (.idle git tempDir)).OwnManifests fs spec := by
  rw [← List.take_append_drop n run, along_append] at considerate
  have sound := considerate.1.invariant (I := System.Sound fs spec)
    (fun _ _ sound considers => sound.step considers) (System.sound_idle fs spec)
  exact sound.ownManifests

end Interleaving

/-- Two applications of one repository. -/
def sharedSpec (_ : Bool) : GitApplicationSpec :=
  { repoURL := "https://git.io/shop", path := "app.yaml" }

/-- Two reconciles of one repository read in turn; the second call finds nothing new. -/
theorem own_manifests_of_two_reconciles :
    let met := remoteAt ⟨"5e1f", by decide⟩
    let run := (List.replicate 5 [(false, met), (true, met)]).flatten
    ((run.take 10).foldl (System.step oneManifest sharedSpec)
      (.idle exampleGit "/tmp")).OwnManifests oneManifest sharedSpec := by
  intro met run
  have remote := (peaceful_remoteAt ⟨"5e1f", by decide⟩ "https://git.io/shop").remote
  let start : System (Option Repository) Bool := .idle exampleGit "/tmp"
  let called := start.step oneManifest sharedSpec (false, met)
  have first : exampleGit.InOrder "https://git.io/shop" "main" (start.checkout sharedSpec false) :=
    Git.inOrder_absent
  have pulled : called.checkout sharedSpec true =
      (start.host.pull exampleGit (callOf sharedSpec (false, met))).1 :=
    System.checkout_step_of_start rfl rfl
  have second : exampleGit.InOrder "https://git.io/shop" "main"
      (called.checkout sharedSpec true) := by
    rw [pulled]
    exact Git.inOrder_pull trivial (by decide) (peaceful_remoteAt _ _) first
  have own : exampleGit.FromRemotes {"https://git.io/shop"} (called.checkout sharedSpec true) := by
    rw [pulled]
    exact Git.fromRemotes_pull (Git.fromRemotes_absent _) rfl
  have ready : exampleGit.Ready met "https://git.io/shop" "main"
      (start.checkout sharedSpec false) := first.ready trivial (by decide) remote
  obtain ⟨dir, answered, clean⟩ := Git.pull_of_ready ready first.covered (fun _ => rfl) rfl
    (start.host.client.repoPath "https://git.io/shop")
  have tree : exampleGit.tree (called.checkout sharedSpec true) = .clean ⟨"5e1f", by decide⟩ := by
    rw [pulled]
    exact (congrArg (fun result => exampleGit.tree result.1) answered).trans clean
  have considerate : Along (System.step oneManifest sharedSpec)
      (System.Considers oneManifest sharedSpec) start run := by
    refine ⟨fun _ => ?_, fun _ => ?_, System.along_of_started (by decide +kernel) _⟩
    · exact ⟨⟨first.unmistaken trivial (by decide) remote, by decide +kernel,
        fun _ _ => trivial⟩, Git.fromRemotes_absent _, fun _ _ reads => reads.elim⟩
    · exact ⟨⟨second.unmistaken trivial (by decide) remote, by decide +kernel,
        fun _ _ => trivial⟩, own, fun _ _ _ _ => ⟨_, fun _ => rfl, rfl,
          second.ready trivial (by decide) remote, second.covered, tree⟩⟩
  exact own_manifests_of_considerate oneManifest sharedSpec considerate 10

/-- The shop, whose path leads into the clone of the blog, and the blog. -/
def climbingSpec (blog : Bool) : GitApplicationSpec :=
  if blog then { repoURL := "https://git.io/blog", path := "app.yaml" }
  else { repoURL := "https://git.io/shop", path := "../" ++ simpleHash "https://git.io/blog" }

/-- A second reconcile moves the checkout before the first one has read it; and a reconcile that
nothing disturbs reads the clone of another repository. -/
theorem other_manifests_parsed :
    let shop := remoteAt ⟨"5e1f", by decide⟩
    let other := remoteAt ⟨"77ac", by decide⟩
    ¬ (((false, shop) :: (true, other) :: List.replicate 4 (false, shop)).foldl
        (System.step oneManifest sharedSpec)
        (.idle exampleGit "/tmp")).OwnManifests oneManifest sharedSpec ∧
      ¬ ((List.replicate 5 (true, other) ++ List.replicate 5 (false, shop)).foldl
        (System.step oneManifest climbingSpec)
        (.idle exampleGit "/tmp")).OwnManifests oneManifest climbingSpec := by
  intro shop other
  refine ⟨fun own => ?_, fun own => ?_⟩
  · obtain ⟨⟨name, word⟩, revision, parsed⟩ := own false "5e1f"
      (.ok [{ kind := "77ac", content := "kind: 77ac" }]) (by decide +kernel)
    obtain rfl : "5e1f" = name := revision
    have parsed' : parseOf oneManifest (dirOf "/tmp" sharedSpec false) ⟨"5e1f", by decide⟩
        (sharedSpec false) = .ok [{ kind := "5e1f", content := "kind: 5e1f" }] := by
      decide +kernel
    exact absurd (parsed.trans parsed') (by decide)
  · obtain ⟨⟨name, word⟩, revision, parsed⟩ := own false "5e1f"
      (.ok []) (by decide +kernel)
    obtain rfl : "5e1f" = name := revision
    have parsed' : parseOf oneManifest (dirOf "/tmp" climbingSpec false) ⟨"5e1f", by decide⟩
        (climbingSpec false) = .error "no such file or directory" := by
      decide +kernel
    cases parsed.trans parsed'

end Wardn
