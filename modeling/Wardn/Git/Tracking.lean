import Wardn.Git.Branches
import Wardn.Git.Repository
import Wardn.Lib.Runs

/-!
# Following a branch

The calls for one URL share one directory.  Its refspec is the one of the clone that left it, and
no later command widens it, so a call for another branch fetches nothing that `reset` could go to.
`FollowsBranch` is what a call has to achieve when nothing stops it, and `CanFollow` the condition
under which it does: nothing in the directory and at the remote is in the way, and the refspec of
the repository, if there is one, covers the branch.
-/

namespace Wardn

open Runs

section Tracking

variable {σ ε : Type*} (git : Git σ ε)

/-- A call for a branch, with what it meets; the URL is fixed for the run. -/
abbrev BranchCall (ε : Type*) := String × ε

/-- The call of the client. -/
abbrev BranchCall.of (repoURL : String) (call : BranchCall ε) : Call ε :=
  ⟨repoURL, call.1, call.2⟩

/-- A call of the client for the URL. -/
def Host.stepFor (repoURL : String) (h : Host σ) (call : BranchCall ε) : Host σ :=
  h.step git (call.of repoURL)

/-- Every command is able to run and the remote has the branch, with its head at `commit`. -/
structure Unhindered (repoURL : String) (call : BranchCall ε) (commit : Commit) : Prop where
  able : git.Able call.2
  head : git.remote call.2 repoURL (branchRef call.1) = some commit

/-- An unhindered call succeeds with the head of the branch, and leaves the working tree at it. -/
def FollowsBranch (repoURL : String) (h : Host σ) (call : BranchCall ε) : Prop :=
  ∀ commit, Unhindered git repoURL call commit →
    (h.call git (call.of repoURL)).2 = .ok commit.name ∧
      git.tree ((h.stepFor git repoURL call).checkout repoURL) = .clean commit

/-- An unhindered call finds nothing in its way. -/
def FindsReady (repoURL : String) (h : Host σ) (call : BranchCall ε) : Prop :=
  ∀ commit, Unhindered git repoURL call commit →
    git.Ready call.2 repoURL call.1 (h.checkout repoURL)

/-- An unhindered call finds no repository, or one whose refspec covers the branch. -/
def FindsCovered (repoURL : String) (h : Host σ) (call : BranchCall ε) : Prop :=
  ∀ commit, Unhindered git repoURL call commit → git.Covered call.1 (h.checkout repoURL)

/-- An unhindered call finds a directory from which the head of its branch can be reached. -/
def CanFollow (repoURL : String) (h : Host σ) (call : BranchCall ε) : Prop :=
  FindsReady git repoURL h call ∧ FindsCovered git repoURL h call

/-- What the checkout of the URL keeps: no other remote, and no uncovered remote-tracking
references. -/
structure Host.Tracks (repoURL : String) (h : Host σ) : Prop where
  own : git.FromRemotes {repoURL} (h.checkout repoURL)
  tracks : git.TracksCovered (h.checkout repoURL)

variable {git} {repoURL : String} {h : Host σ}

theorem Host.tracks_started (tempDir repoURL : String) :
    (Host.started git tempDir).Tracks git repoURL :=
  ⟨Git.fromRemotes_absent _, Git.tracksCovered_absent⟩

theorem Host.Tracks.stepFor (tracks : h.Tracks git repoURL) {call : BranchCall ε}
    (plain : git.Plain call.1) : (h.stepFor git repoURL call).Tracks git repoURL := by
  have here := h.step_checkout_self git (call.of repoURL)
  refine ⟨?_, ?_⟩
  · rw [Host.stepFor, here]
    exact Git.fromRemotes_pull tracks.own rfl
  · rw [Host.stepFor, here]
    exact Git.tracksCovered_pull plain tracks.tracks

/-- **One call** that can follow its branch does. -/
theorem followsBranch_of_canFollow {call : BranchCall ε} (can : CanFollow git repoURL h call) :
    FollowsBranch git repoURL h call := by
  intro commit unhindered
  obtain ⟨dir, pulled, tree⟩ := Git.pull_of_ready (can.1 commit unhindered)
    (can.2 commit unhindered) unhindered.able unhindered.head (h.client.repoPath repoURL)
  have called : h.pull git (call.of repoURL) = (dir, .ok commit.name) := pulled
  refine ⟨by rw [Host.call_result, called], ?_⟩
  rw [Host.stepFor, Host.step_checkout_self, called]
  exact tree

/-- A call that nothing is in the way of gets no further than the refspec. -/
theorem findsCovered_of_followsBranch (tracks : h.Tracks git repoURL) {call : BranchCall ε}
    (ready : FindsReady git repoURL h call) (follows : FollowsBranch git repoURL h call) :
    FindsCovered git repoURL h call := by
  intro commit unhindered
  cases ready commit unhindered with
  | unborn plain unborn => exact fun there => nomatch unborn.symm.trans there
  | cloned plain there intact configured url remote unshadowed tidy branchAt noPath =>
      have ok : h.pull git (call.of repoURL) =
        ((h.pull git (call.of repoURL)).1, .ok commit.name) :=
          Prod.ext rfl (follows commit unhindered).1
      obtain ⟨-, -, -, -, covers⟩ := Git.pulled_of_git plain remote unshadowed tidy tracks.own
        tracks.tracks there ok
      exact fun _ => covers

/-- **Following a branch.**  In a run of calls for one URL, with any branches, failures and moves
of the remote, every unhindered call follows its branch if each finds nothing in its way and no
repository or one whose refspec covers the branch; and where the other obstacles are absent, only
if the refspec covers it. -/
theorem follows_branch_of_canFollow (git : Git σ ε) (tempDir repoURL : String)
    (run : List (BranchCall ε)) :
    let start := Host.started git tempDir
    let Always := fun P => Along (Host.stepFor git repoURL) P start run
    (Always (CanFollow git repoURL) → Always (FollowsBranch git repoURL)) ∧
      ((∀ call ∈ run, git.Plain call.1) → Always (FindsReady git repoURL) →
        Always (FollowsBranch git repoURL) → Always (CanFollow git repoURL)) := by
  intro start Always
  refine ⟨Along.mono fun _ _ can => followsBranch_of_canFollow can, fun plain ready follows => ?_⟩
  have names : Always fun _ call => git.Plain call.1 :=
    along_of_forall_mem (fun call member _ => plain call member) start
  refine (along_congr_on (I := Host.Tracks git repoURL)
    (D := fun h call => git.Plain call.1 ∧ FindsReady git repoURL h call) ?_ ?_
    (Host.tracks_started tempDir repoURL) (names.and ready)).mp follows
  · rintro h call tracks ⟨-, ready⟩
    exact ⟨fun follows => ⟨ready, findsCovered_of_followsBranch tracks ready follows⟩,
      followsBranch_of_canFollow⟩
  · rintro h call tracks ⟨plain, -⟩ -
    exact tracks.stepFor plain

/-! ## A directory for one branch -/

/-- A checkout that is used for one branch can follow it. -/
theorem canFollow_of_inOrder {call : BranchCall ε} (plain : git.Plain call.1)
    (undashed : ¬ Dashed repoURL)
    (remote : Unambiguous (git.remote call.2 repoURL) call.1 (branchRef call.1))
    (inOrder : git.InOrder repoURL call.1 (h.checkout repoURL)) : CanFollow git repoURL h call :=
  ⟨fun _ _ => inOrder.ready plain undashed remote, fun _ _ => inOrder.covered⟩

end Tracking

/-- Remotes with the branch `main` and nothing else, its head at the commit; nothing fails. -/
def remoteAt (commit : Commit) : GitEnv where
  remote := fun _ ref => if ref = "refs/heads/main" then some commit else none

theorem peaceful_remoteAt (commit : Commit) (repoURL : String) :
    exampleGit.Peaceful (remoteAt commit) repoURL "main" := by
  refine ⟨fun other _ different => if_neg different, fun other member different => ?_,
    fun commit _ => id, fun command own dir dir' err inOrder failed => ?_⟩
  · refine if_neg fun same => ?_
    have found : other = branchRef "main" := same
    exact branchRef_notMem_lookups "main" (found ▸ member)
  · have executed : (remoteAt commit).exec command dir = (dir', .error err) := failed
    rw [GitEnv.exec_error executed]
    exact inOrder

/-- The branch moves between two calls for it. -/
theorem follows_branch_of_moved :
    (((Host.started exampleGit "/tmp").stepFor exampleGit "https://git.io/shop"
        ("main", remoteAt ⟨"8d21", by decide⟩)).call exampleGit
      (BranchCall.of "https://git.io/shop" ("main", remoteAt ⟨"c04b", by decide⟩))).2 =
      .ok "c04b" := by
  have first : exampleGit.InOrder "https://git.io/shop" "main"
      ((Host.started exampleGit "/tmp").checkout "https://git.io/shop") := Git.inOrder_absent
  have second : exampleGit.InOrder "https://git.io/shop" "main"
      (((Host.started exampleGit "/tmp").stepFor exampleGit "https://git.io/shop"
        ("main", remoteAt ⟨"8d21", by decide⟩)).checkout "https://git.io/shop") := by
    have here := (Host.started exampleGit "/tmp").step_checkout_self exampleGit
      (BranchCall.of "https://git.io/shop" ("main", remoteAt ⟨"8d21", by decide⟩))
    rw [Host.stepFor, here]
    exact Git.inOrder_pull trivial (by decide) (peaceful_remoteAt _ _) first
  obtain ⟨follows, -⟩ := follows_branch_of_canFollow exampleGit "/tmp" "https://git.io/shop"
    [("main", remoteAt ⟨"8d21", by decide⟩), ("main", remoteAt ⟨"c04b", by decide⟩)]
  obtain ⟨-, moved, -⟩ := follows ⟨canFollow_of_inOrder trivial (by decide)
      (peaceful_remoteAt _ _).remote first,
    canFollow_of_inOrder trivial (by decide) (peaceful_remoteAt _ _).remote second, trivial⟩
  exact (moved ⟨"c04b", by decide⟩ ⟨fun _ => rfl, rfl⟩).1

/-- A remote with a head for each of two branches. -/
def twoBranches : GitEnv where
  remote := fun _ ref =>
    if ref = "refs/heads/main" then some ⟨"8d21", by decide⟩
    else if ref = "refs/heads/dev" then some ⟨"c04b", by decide⟩
    else none

/-- A second application on another branch of the same repository is never checked out. -/
theorem second_branch_not_followed :
    ¬ Along (Host.stepFor exampleGit "https://git.io/shop")
      (FollowsBranch exampleGit "https://git.io/shop")
      (.started exampleGit "/tmp") [("main", twoBranches), ("dev", twoBranches)] := by
  rintro ⟨-, follows, -⟩
  have ok := (follows ⟨"c04b", by decide⟩ ⟨fun _ => rfl, rfl⟩).1
  have failed : (((Host.started exampleGit "/tmp").stepFor exampleGit "https://git.io/shop"
        ("main", twoBranches)).call exampleGit
      (BranchCall.of "https://git.io/shop" ("dev", twoBranches))).2 =
      .error "failed to checkout dev: pathspec did not match any file(s) known to git" := by
    decide +kernel
  cases failed.symm.trans ok

end Wardn
