import Mathlib.Data.Set.Basic
import Wardn.Git.Arguments

/-!
# What is assumed of git

The git program is no part of this repository, so it is a parameter.  A `GitView` is a program with
what its commands depend on: what can be seen of a directory, of the remotes, and of names.  `Git`
adds the laws, each of which is documented behaviour.  Of a command that has failed or that has
been interrupted they say next to nothing: it may leave lock files, half a repository, or files of
several commits, only not another remote.

A name is looked up under several references (gitrevisions, "Specifying Revisions"), at the remote
by `fetch`, in the repository by `checkout` and `reset`.  The laws say what becomes of a branch
where `Unambiguous` holds, so that nothing else is found under its name.
-/

namespace Wardn

/-- A commit, by its object name. -/
structure Commit where
  name : String
  word : name.toList.all Char.isAlphanum = true
  deriving DecidableEq

/-- The output of `git rev-parse`, trimmed. -/
theorem trimSpace_output (commit : Commit) :
    Strings.trimSpace (commit.name ++ "\n") = commit.name := by
  have trimmed : Strings.trim commit.name.toList = commit.name.toList := by
    have word := List.all_eq_true.mp commit.word
    refine Strings.trim_eq_self ⟨fun c first => ?_, fun c last => ?_⟩
    · exact Strings.isSpace_of_isAlphanum (word c (List.mem_of_mem_head? first))
    · exact Strings.isSpace_of_isAlphanum (word c (List.mem_of_mem_getLast? last))
  have newline : ∀ c ∈ "\n".toList, Strings.isSpace c = true := by simp [Strings.isSpace]
  have output : Strings.trim (commit.name ++ "\n").toList = commit.name.toList := by
    rw [String.toList_append, Strings.trim_append_blank newline, trimmed]
  rw [Strings.trimSpace, output, String.ofList_toList]

/-- `remote.origin` in the configuration: the URL it was set up with, and the branch that its fetch
refspec covers. -/
structure Origin where
  url : String
  fetch : Option String
  deriving DecidableEq, Repr

/-- What is checked out. -/
inductive Tree
  /-- There is nothing beside `.git`, and nothing in the index. -/
  | empty
  /-- The files, and the index, of one commit, and no other ones. -/
  | clean (commit : Commit)
  /-- Files of several commits, or files that git does not know of. -/
  | mixed
  deriving DecidableEq

/-! ## Names -/

/-- The full name of a branch. -/
def branchRef (branch : String) : String := "refs/heads/" ++ branch

/-- The full name of the remote-tracking branch. -/
def trackingRef (branch : String) : String := "refs/remotes/" ++ ("origin/" ++ branch)

/-- The references under which a name is looked up. -/
def lookups (name : String) : List String :=
  [name, "refs/" ++ name, "refs/tags/" ++ name, "refs/heads/" ++ name, "refs/remotes/" ++ name,
    "refs/remotes/" ++ name ++ "/HEAD"]

/-- The name is found as this reference, if at all. -/
def Unambiguous (refs : String → Option Commit) (name ref : String) : Prop :=
  ∀ other ∈ lookups name, other ≠ ref → refs other = none

/-- The references that the commands for a branch look up. -/
def refsOf (branch : String) : List String := lookups branch ++ lookups ("origin/" ++ branch)

theorem branchRef_mem_refsOf (branch : String) : branchRef branch ∈ refsOf branch := by
  simp [refsOf, lookups, branchRef]

theorem trackingRef_mem_refsOf (branch : String) : trackingRef branch ∈ refsOf branch := by
  simp [refsOf, lookups, trackingRef]

/-- Two branches have different remote-tracking branches. -/
theorem trackingRef_injective {branch other : String}
    (same : trackingRef branch = trackingRef other) : branch = other := by
  have chars := congrArg String.toList same
  simp only [trackingRef, String.toList_append] at chars
  exact String.toList_injective (List.append_cancel_left (List.append_cancel_left chars))

/-- A reference of the one kind is not one of the other. -/
theorem trackingRef_ne_branchRef (branch other : String) :
    trackingRef branch ≠ branchRef other := by
  intro same
  have chars := congrArg String.toList same
  simp [trackingRef, branchRef] at chars

theorem tagRef_ne_branchRef (branch : String) : "refs/tags/" ++ branch ≠ branchRef branch := by
  intro same
  have chars := congrArg String.toList same
  simp [branchRef] at chars

theorem length_branchRef (branch : String) : (branchRef branch).length = 11 + branch.length := by
  rw [branchRef, String.length_append]
  rfl

/-- The length of a remote-tracking branch's full name. -/
theorem length_trackingRef (branch : String) :
    (trackingRef branch).length = 20 + branch.length := by
  rw [trackingRef, String.length_append, String.length_append, ← Nat.add_assoc]
  rfl

/-- What a lookup puts around the name. -/
theorem length_of_mem_lookups {name ref : String} (member : ref ∈ lookups name) :
    ∃ added ∈ [0, 5, 10, 11, 13, 18], ref.length = added + name.length := by
  have refs : "refs/".length = 5 := rfl
  have tags : "refs/tags/".length = 10 := rfl
  have heads : "refs/heads/".length = 11 := rfl
  have remotes : "refs/remotes/".length = 13 := rfl
  have head : "/HEAD".length = 5 := rfl
  simp only [lookups, List.mem_cons, List.not_mem_nil, or_false] at member
  rcases member with rfl | rfl | rfl | rfl | rfl | rfl
  · exact ⟨0, by decide, (Nat.zero_add _).symm⟩
  · exact ⟨5, by decide, by rw [String.length_append, refs]⟩
  · exact ⟨10, by decide, by rw [String.length_append, tags]⟩
  · exact ⟨11, by decide, by rw [String.length_append, heads]⟩
  · exact ⟨13, by decide, by rw [String.length_append, remotes]⟩
  · refine ⟨18, by decide, ?_⟩
    rw [String.length_append, String.length_append, remotes, head]
    omega

/-- The branch is not looked up under the name of its remote-tracking reference. -/
theorem branchRef_notMem_lookups (branch : String) :
    branchRef branch ∉ lookups ("origin/" ++ branch) := by
  intro member
  obtain ⟨added, listed, length⟩ := length_of_mem_lookups member
  have origin : ("origin/" ++ branch).length = 7 + branch.length := by
    rw [String.length_append]
    rfl
  rw [length_branchRef, origin] at length
  obtain rfl : added = 4 := by omega
  exact absurd listed (by decide)

/-- The remote-tracking reference is not looked up under the name of the branch. -/
theorem trackingRef_notMem_lookups (branch : String) : trackingRef branch ∉ lookups branch := by
  intro member
  obtain ⟨added, listed, length⟩ := length_of_mem_lookups member
  rw [length_trackingRef] at length
  obtain rfl : added = 20 := by omega
  exact absurd listed (by decide)

/-! ## The program -/

/-- A git program; `ε` is what a command meets outside its directory (the remotes, and what may stop
it), `σ` what a directory holds, which lies in no other repository and is written by the commands of
the client alone. -/
structure GitView (σ ε : Type*) where
  /-- What the directory holds behind the command, and the output or the error. -/
  exec : ε → GitCommand → σ → σ × Except String String
  /-- The directory does not exist. -/
  absent : σ
  /-- There is a `.git`. -/
  hasGit : σ → Bool
  origin : σ → Option Origin
  /-- The references, by their full names. -/
  ref : σ → String → Option Commit
  /-- The commit that `HEAD` comes to. -/
  head : σ → Option Commit
  /-- The branch that `HEAD` names. -/
  current : σ → Option String
  tree : σ → Tree
  /-- The commits that the directory has been given. -/
  commits : σ → Set Commit
  /-- No lock file is left and nothing is damaged. -/
  Intact : σ → Prop
  /-- The commands are able to run, and the remotes are reached. -/
  Able : ε → Prop
  /-- The references of the remote at a URL, by their full names. -/
  remote : ε → String → String → Option Commit
  /-- The commits that the remote at a URL hands out. -/
  offers : ε → String → Set Commit
  /-- git reads the text as the name of a branch and as nothing else (an option, a refspec, a
  keyword, an object name, a file of `.git`), and no file of `.git` that is named by it looks like a
  manifest. -/
  Plain : String → Prop
  /-- The commit has a file or a directory at this path. -/
  HasPath : Commit → String → Prop

namespace GitView

variable {σ ε : Type*} (git : GitView σ ε)

/-- The fetch refspec covers the branch. -/
def Covers (dir : σ) (branch : String) : Prop := (git.origin dir).bind Origin.fetch = some branch

/-- The remote that the command contacts. -/
def contacts (dir : σ) : GitCommand → Option String
  | .clone _ repoURL _ => some repoURL
  | .fetch _ => (git.origin dir).map Origin.url
  | .checkout _ => none
  | .reset _ => none
  | .revParse => none

/-- The repository that a clone of a branch makes. -/
structure Cloned (repoURL branch : String) (commit : Commit) (dir : σ) : Prop where
  hasGit : git.hasGit dir = true
  intact : git.Intact dir
  origin : git.origin dir = some ⟨repoURL, some branch⟩
  current : git.current dir = some branch
  head : git.head dir = some commit
  branchAt : git.ref dir (branchRef branch) = some commit
  trackingAt : git.ref dir (trackingRef branch) = some commit
  tree : git.tree dir = .clean commit

/-- A command for a branch leaves its references alone, this one apart, and the repository in order.
-/
structure Keeps (branch written : String) (dir dir' : σ) : Prop where
  hasGit : git.hasGit dir' = git.hasGit dir
  intact : git.Intact dir → git.Intact dir'
  ref : ∀ name ∈ refsOf branch, name ≠ written → git.ref dir' name = git.ref dir name

end GitView

/-- A git program that does what git documents. -/
structure Git (σ ε : Type*) extends GitView σ ε where
  -- a directory without a repository
  hasGit_absent : hasGit absent = false
  tree_absent : tree absent = .empty
  commits_absent : commits absent = ∅
  origin_of_no_git : ∀ {dir}, hasGit dir = false → origin dir = none
  ref_of_no_git : ∀ {dir}, hasGit dir = false → ∀ name, ref dir name = none
  -- what has been handed out, and what is found of it
  head_mem : ∀ {dir commit}, head dir = some commit → commit ∈ commits dir
  tree_mem : ∀ {dir commit}, tree dir = .clean commit → commit ∈ commits dir
  -- whatever becomes of a command
  /-- The remote of a clone is the one it was called with. -/
  origin_clone : ∀ {env branch repoURL repoDir dir o}, hasGit dir = false →
    origin (exec env (.clone branch repoURL repoDir) dir).1 = some o → o.url = repoURL
  /-- No other command writes `remote.origin`. -/
  origin_kept : ∀ {env command dir}, command.InPlace → origin (exec env command dir).1 = origin dir
  /-- A commit comes from the remote that is contacted. -/
  commits_exec : ∀ {env command dir commit}, commit ∈ commits (exec env command dir).1 →
    commit ∈ commits dir ∨
      ∃ repoURL, toGitView.contacts dir command = some repoURL ∧ commit ∈ offers env repoURL
  /-- A remote-tracking reference is made by a clone or a fetch whose refspec covers the branch. -/
  tracking_exec : ∀ {env command dir branch}, (∀ b, command.branch? = some b → Plain b) →
    Plain branch → ref (exec env command dir).1 (trackingRef branch) ≠ none →
      ref dir (trackingRef branch) ≠ none ∨ toGitView.Covers (exec env command dir).1 branch
  /-- `rev-parse` writes nothing. -/
  revParse_dir : ∀ {env dir}, (exec env .revParse dir).1 = dir
  -- commands that succeed
  clone_ok : ∀ {env branch repoURL repoDir dir dir' output commit}, hasGit dir = false →
    ¬ Dashed repoURL → Plain branch → remote env repoURL (branchRef branch) = some commit →
      exec env (.clone branch repoURL repoDir) dir = (dir', .ok output) →
        toGitView.Cloned repoURL branch commit dir'
  /-- `--branch` takes a branch or a tag. -/
  clone_named : ∀ {env branch repoURL repoDir dir dir' output}, hasGit dir = false →
    ¬ Dashed repoURL → exec env (.clone branch repoURL repoDir) dir = (dir', .ok output) →
      remote env repoURL (branchRef branch) ≠ none ∨
        remote env repoURL ("refs/tags/" ++ branch) ≠ none
  /-- Of the other references of the remote a clone brings tags at most. -/
  clone_unambiguous : ∀ {env branch repoURL repoDir dir dir' output}, hasGit dir = false →
    ¬ Dashed repoURL → Plain branch →
      Unambiguous (remote env repoURL) ("origin/" ++ branch) (trackingRef branch) →
      exec env (.clone branch repoURL repoDir) dir = (dir', .ok output) →
        Unambiguous (ref dir') ("origin/" ++ branch) (trackingRef branch)
  /-- What is fetched is looked up at the configured remote. -/
  fetch_ok : ∀ {env branch dir dir' output}, Plain branch →
    exec env (.fetch branch) dir = (dir', .ok output) → ∃ o, origin dir = some o ∧
      (Unambiguous (remote env o.url) branch (branchRef branch) →
        ∃ commit, remote env o.url (branchRef branch) = some commit ∧
          ref dir' (trackingRef branch) =
            if o.fetch = some branch then some commit else ref dir (trackingRef branch))
  fetch_keeps : ∀ {env branch dir dir' output}, Plain branch →
    exec env (.fetch branch) dir = (dir', .ok output) →
      toGitView.Keeps branch (trackingRef branch) dir dir' ∧ tree dir' = tree dir
  checkout_keeps : ∀ {env branch dir dir' output}, Plain branch →
    exec env (.checkout branch) dir = (dir', .ok output) →
      toGitView.Keeps branch (branchRef branch) dir dir' ∧ (tree dir ≠ .mixed → tree dir' ≠ .mixed)
  /-- The local branch is checked out, or made from the remote-tracking reference; the files of the
  branch that is checked out already are kept as they are. -/
  checkout_branch : ∀ {env branch dir dir' output}, Plain branch → tree dir ≠ .mixed →
    (ref dir (branchRef branch) ≠ none ∨
      tree dir = .empty ∧ Unambiguous (ref dir) branch (branchRef branch)) →
    exec env (.checkout branch) dir = (dir', .ok output) →
      current dir' = some branch ∧
        ∃ commit, (ref dir (branchRef branch)).or (ref dir (trackingRef branch)) = some commit ∧
          ref dir' (branchRef branch) = some commit ∧
          (tree dir' = tree dir ∨ tree dir' = .clean commit)
  reset_ok : ∀ {env branch dir dir' output}, Plain branch →
    Unambiguous (ref dir) ("origin/" ++ branch) (trackingRef branch) →
    exec env (.reset branch) dir = (dir', .ok output) →
      ∃ commit, ref dir (trackingRef branch) = some commit ∧ head dir' = some commit ∧
        (tree dir ≠ .mixed → tree dir' = .clean commit)
  /-- `reset` moves the branch that is checked out. -/
  reset_keeps : ∀ {env branch dir dir' output}, Plain branch → current dir = some branch →
    exec env (.reset branch) dir = (dir', .ok output) →
      toGitView.Keeps branch (branchRef branch) dir dir' ∧ ref dir' (branchRef branch) = head dir'
  revParse_ok : ∀ {env dir dir' output}, exec env .revParse dir = (dir', .ok output) →
    ∃ commit, head dir = some commit ∧ output = commit.name ++ "\n"
  -- commands that are able to run
  clone_able : ∀ {env branch repoURL repoDir dir commit}, Able env → hasGit dir = false →
    tree dir = .empty → ¬ Dashed repoURL → Plain branch →
      remote env repoURL (branchRef branch) = some commit →
        ∃ dir' output, exec env (.clone branch repoURL repoDir) dir = (dir', .ok output)
  fetch_able : ∀ {env branch dir o commit}, Able env → hasGit dir = true → Intact dir →
    origin dir = some o → Plain branch → remote env o.url (branchRef branch) = some commit →
      ∃ dir' output, exec env (.fetch branch) dir = (dir', .ok output)
  checkout_able : ∀ {env branch dir}, Able env → hasGit dir = true → Intact dir →
    Plain branch → tree dir ≠ .mixed →
      (ref dir (branchRef branch) ≠ none ∨ tree dir = .empty ∧
        Unambiguous (ref dir) branch (branchRef branch) ∧ ref dir (trackingRef branch) ≠ none) →
        ∃ dir' output, exec env (.checkout branch) dir = (dir', .ok output)
  /-- A path of the name would make the argument ambiguous. -/
  reset_able : ∀ {env branch dir}, Able env → hasGit dir = true → Intact dir → Plain branch →
    Unambiguous (ref dir) ("origin/" ++ branch) (trackingRef branch) →
      ref dir (trackingRef branch) ≠ none → tree dir ≠ .mixed →
      (∀ commit, tree dir = .clean commit → ¬ HasPath commit ("origin/" ++ branch)) →
        ∃ dir' output, exec env (.reset branch) dir = (dir', .ok output)
  revParse_able : ∀ {env dir commit}, Able env → hasGit dir = true → Intact dir →
    head dir = some commit → ∃ dir' output, exec env .revParse dir = (dir', .ok output)

end Wardn
