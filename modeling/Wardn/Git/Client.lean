import Mathlib.Logic.Function.Basic
import Wardn.Lib.FilePath
import Wardn.Lib.Fnv

/-!
# The Git client

`internal/git/client.go` and `internal/git/exec.go`.  The client keeps one directory for each
repository URL and runs git in it; what a git command does to a directory is a parameter here
(`git`), and so is what a directory holds (`σ`).  The mutex makes `CloneOrPull` and `LocalPath`
one step each.
-/

namespace Wardn

/-- The git commands of the client; all but `clone` run in the directory of the repository. -/
inductive GitCommand
  | clone (branch repoURL repoDir : String)
  | fetch (branch : String)
  | checkout (branch : String)
  | reset (branch : String)
  | revParse
  deriving DecidableEq, Repr

/-- The branch that a command names. -/
def GitCommand.branch? : GitCommand → Option String
  | .clone branch _ _ => some branch
  | .fetch branch => some branch
  | .checkout branch => some branch
  | .reset branch => some branch
  | .revParse => none

/-- The command names this branch, or none. -/
def GitCommand.IsOf (branch : String) (command : GitCommand) : Prop :=
  ∀ b, command.branch? = some b → b = branch

theorem GitCommand.IsOf.of_eq {command : GitCommand} {branch : String}
    (named : command.branch? = some branch) : command.IsOf branch :=
  fun _ other => Option.some.inj (other.symm.trans named)

/-- The command runs in a repository. -/
def GitCommand.InPlace : GitCommand → Prop
  | .clone _ _ _ => False
  | _ => True

/-- The arguments of the command, as they are passed to git. -/
def GitCommand.args : GitCommand → List String
  | .clone branch repoURL repoDir =>
    ["clone", "--branch", branch, "--single-branch", "--depth", "1", repoURL, repoDir]
  | .fetch branch => ["fetch", "origin", branch, "--depth", "1"]
  | .checkout branch => ["checkout", branch]
  | .reset branch => ["reset", "--hard", "origin/" ++ branch]
  | .revParse => ["rev-parse", "HEAD"]

/-- `Client`: the directory of the checkouts, and the path of each URL cloned so far. -/
structure Client where
  basePath : String
  based : basePath ≠ ""
  /-- The map of the source; the zero value of a string stands where it has no entry. -/
  repoPaths : String → String

/-- `simpleHash`: FNV-1a over the bytes, in hexadecimal. -/
def simpleHash (s : String) : String := Fnv.hexText (Fnv.sum32a (Fnv.bytes s)).toNat

/-- The directory of a URL. -/
def Client.repoPath (c : Client) (repoURL : String) : String :=
  FilePath.join c.basePath (simpleHash repoURL)

/-- `LocalPath`; empty for a URL that was never cloned. -/
def Client.localPath (c : Client) (repoURL : String) : String := c.repoPaths repoURL

section Commands

variable {σ : Type*} (git : GitCommand → σ → σ × Except String String)

/-- Commands in order up to the first that fails; its error is reported under its heading. -/
def runGit : List (GitCommand × String) → σ → σ × Option String
  | [], dir => (dir, none)
  | (command, heading) :: commands, dir =>
    match git command dir with
    | (dir, .error err) => (dir, some (heading ++ ": " ++ err))
    | (dir, .ok _) => runGit commands dir

/-- The commands of `CloneOrPull` up to the reading of the revision. -/
def pullCommands (hasGit : Bool) (repoURL branch repoDir : String) : List (GitCommand × String) :=
  if ¬ hasGit then [(.clone branch repoURL repoDir, "failed to clone " ++ repoURL)]
  else
    [(.fetch branch, "failed to fetch " ++ repoURL),
      (.checkout branch, "failed to checkout " ++ branch),
      (.reset branch, "failed to reset " ++ repoURL)]

/-- `CloneOrPull` in the directory of the repository; `hasGit` is the test for `.git`. -/
def pull (hasGit : σ → Bool) (repoURL branch repoDir : String) (dir : σ) :
    σ × Except String String :=
  match runGit git (pullCommands (hasGit dir) repoURL branch repoDir) dir with
  | (dir, some err) => (dir, .error err)
  | (dir, none) =>
    match git .revParse dir with
    | (dir, .error err) => (dir, .error ("failed to get revision: " ++ err))
    | (dir, .ok output) => (dir, .ok (Strings.trimSpace output))

/-- `CloneOrPull`; `disk` gives what each directory holds. -/
def Client.cloneOrPull (c : Client) (hasGit : σ → Bool) (disk : String → σ)
    (repoURL branch : String) : Client × (String → σ) × Except String String :=
  let repoDir := c.repoPath repoURL
  let (dir, revision) := pull git hasGit repoURL branch repoDir (disk repoDir)
  ({ c with repoPaths := Function.update c.repoPaths repoURL repoDir },
    Function.update disk repoDir dir, revision)

/-! ## Rules for the calls -/

variable {git} {hasGit : σ → Bool} {repoURL branch repoDir : String} {dir dir' : σ}

/-- What each command keeps, the sequence keeps, however far it gets. -/
theorem runGit_invariant {I : σ → Prop} {commands : List (GitCommand × String)}
    (keeps : ∀ command ∈ commands, ∀ dir, I dir → I (git command.1 dir).1) (holds : I dir) :
    I (runGit git commands dir).1 := by
  induction commands generalizing dir with
  | nil => exact holds
  | cons command commands ih =>
      obtain ⟨command, heading⟩ := command
      have here := keeps _ List.mem_cons_self dir holds
      unfold runGit
      generalize git command dir = result at here
      obtain ⟨dir, err | output⟩ := result
      · exact here
      · exact ih (fun later member => keeps later (List.mem_cons_of_mem _ member)) here

/-- What a clone keeps where there is no repository, and the commands for the branch everywhere,
`CloneOrPull` keeps. -/
theorem pull_invariant {I : σ → Prop}
    (clone : hasGit dir = false → I dir → I (git (.clone branch repoURL repoDir) dir).1)
    (inPlace : ∀ command : GitCommand, command.InPlace → command.IsOf branch →
      ∀ dir, I dir → I (git command dir).1)
    (holds : I dir) : I (pull git hasGit repoURL branch repoDir dir).1 := by
  have pulled : I (runGit git (pullCommands (hasGit dir) repoURL branch repoDir) dir).1 := by
    unfold pullCommands
    cases there : hasGit dir with
    | false =>
        have cloned := clone there holds
        unfold runGit
        simp only [Bool.false_eq_true, not_false_eq_true, if_true]
        generalize git (.clone branch repoURL repoDir) dir = result at cloned
        obtain ⟨dir, err | output⟩ := result
        · exact cloned
        · exact cloned
    | true =>
        refine runGit_invariant (fun command member dir => ?_) holds
        simp only [not_true_eq_false, if_false, List.mem_cons, List.not_mem_nil, or_false] at member
        rcases member with rfl | rfl | rfl
        · exact inPlace (.fetch branch) trivial (.of_eq rfl) dir
        · exact inPlace (.checkout branch) trivial (.of_eq rfl) dir
        · exact inPlace (.reset branch) trivial (.of_eq rfl) dir
  unfold pull
  generalize runGit git _ dir = result at pulled
  obtain ⟨dir, err | err⟩ := result
  · have read := inPlace .revParse trivial nofun dir pulled
    simp only
    generalize git .revParse dir = result at read
    obtain ⟨dir, err | output⟩ := result
    · exact read
    · exact read
  · exact pulled

/-- What holds behind the first command if it fails, and behind the rest if it does not, holds
behind the commands. -/
theorem runGit_cons_of {I : σ → Prop} {command : GitCommand} {heading : String}
    {commands : List (GitCommand × String)}
    (failed : ∀ dir' err, git command dir = (dir', .error err) → I dir')
    (done : ∀ dir' output, git command dir = (dir', .ok output) → I (runGit git commands dir').1) :
    I (runGit git ((command, heading) :: commands) dir).1 := by
  rw [runGit]
  generalize executed : git command dir = result at failed done
  obtain ⟨dir', err | output⟩ := result
  · exact failed dir' err rfl
  · exact done dir' output rfl

/-- The reading of the revision apart, a call does to its directory what its commands do. -/
theorem pull_dir (readOnly : ∀ dir, (git .revParse dir).1 = dir) :
    (pull git hasGit repoURL branch repoDir dir).1 =
      (runGit git (pullCommands (hasGit dir) repoURL branch repoDir) dir).1 := by
  unfold pull
  generalize runGit git _ dir = result
  obtain ⟨dir, err | err⟩ := result
  · have same := readOnly dir
    simp only
    generalize git .revParse dir = read at same
    obtain ⟨dir', err | output⟩ := read
    · exact same
    · exact same
  · rfl

theorem runGit_cons_eq_none_iff {command : GitCommand} {heading : String}
    {commands : List (GitCommand × String)} :
    runGit git ((command, heading) :: commands) dir = (dir', none) ↔
      ∃ middle output, git command dir = (middle, .ok output) ∧
        runGit git commands middle = (dir', none) := by
  rw [runGit]
  generalize git command dir = result
  obtain ⟨middle, err | output⟩ := result
  · simp
  · simp

/-- A call that succeeds: all its commands have succeeded. -/
theorem pull_eq_ok_iff {revision : String} :
    pull git hasGit repoURL branch repoDir dir = (dir', .ok revision) ↔
      ∃ middle output,
        runGit git (pullCommands (hasGit dir) repoURL branch repoDir) dir = (middle, none) ∧
        git .revParse middle = (dir', .ok output) ∧ revision = Strings.trimSpace output := by
  unfold pull
  generalize runGit git _ dir = pulled
  obtain ⟨middle, err | err⟩ := pulled
  · simp only [Prod.mk.injEq, and_true, exists_and_left, exists_eq_left']
    generalize git .revParse middle = read
    obtain ⟨last, err | output⟩ := read
    · simp
    · simp [eq_comm]
  · simp

end Commands

/-- The directory of the clones is `wardn-git` under the temporary directory. -/
def newClient (tempDir : String) : Client where
  basePath := FilePath.join tempDir "wardn-git"
  based := by
    by_cases unset : tempDir = ""
    · subst unset
      decide
    · obtain ⟨front, joined⟩ := FilePath.exists_join_eq unset
      rw [joined "wardn-git" ⟨by decide, by decide, by decide, by decide⟩]
      intro empty
      exact absurd (String.ofList_injective empty)
        (List.append_ne_nil_of_right_ne_nil _ (by decide))
  repoPaths := fun _ => ""

/-! ## Directories -/

theorem simpleHash_plain (s : String) : FilePath.Plain (simpleHash s).toList := by
  have word := Fnv.isAlphanum_hexText (Fnv.sum32a (Fnv.bytes s)).toNat
  refine ⟨Fnv.hexText_ne_nil _, fun slash => ?_, fun dot => ?_, fun dots => ?_⟩
  · exact absurd (word '/' slash) (by decide)
  · exact absurd (word '.' (by unfold simpleHash at dot; simp [dot])) (by decide)
  · exact absurd (word '.' (by unfold simpleHash at dots; simp [dots])) (by decide)

/-- Two URLs share a directory exactly when their hashes are equal. -/
theorem Client.repoPath_eq_iff (c : Client) (u v : String) :
    c.repoPath u = c.repoPath v ↔ Fnv.sum32a (Fnv.bytes u) = Fnv.sum32a (Fnv.bytes v) := by
  refine ⟨fun same => ?_, fun same => ?_⟩
  · have names := FilePath.join_injective c.based (simpleHash_plain u) (simpleHash_plain v) same
    exact UInt32.toNat_inj.mp (Fnv.hexText_injective names)
  · rw [Client.repoPath, Client.repoPath, simpleHash, simpleHash, same]

end Wardn
