import Wardn.Git.Program

/-!
# The checkouts of a client

A `Host` is the client and the disk its directories are on; a `Call` is one call of `CloneOrPull`
with what its git commands meet, so a run of calls lets the remotes move and the commands fail
between any two of them.

Whatever becomes of the commands of a call, the directory has no remote but the URL that it was
cloned from, no commits but those its remotes have handed out, and no remote-tracking reference that
the refspec does not cover (`fromRemote_pull`, `commits_pull`, `tracksCovered_pull`).
-/

namespace Wardn

/-- The client and what is found in each directory. -/
structure Host (σ : Type*) where
  client : Client
  disk : String → σ

/-- A call of `CloneOrPull`. -/
structure Call (ε : Type*) where
  repoURL : String
  branch : String
  env : ε

variable {σ ε : Type*} (git : Git σ ε)

/-- A new client over a disk without clones. -/
def Host.started (tempDir : String) : Host σ := ⟨newClient tempDir, fun _ => git.absent⟩

/-- A call of `CloneOrPull`: the host behind it and the answer. -/
def Host.call (h : Host σ) (call : Call ε) : Host σ × Except String String :=
  let (client, disk, revision) :=
    h.client.cloneOrPull (git.exec call.env) git.hasGit h.disk call.repoURL call.branch
  (⟨client, disk⟩, revision)

/-- The host behind a call. -/
def Host.step (h : Host σ) (call : Call ε) : Host σ := (h.call git call).1

/-- What the directory of a URL holds. -/
def Host.checkout (h : Host σ) (repoURL : String) : σ :=
  h.disk (h.client.repoPath repoURL)

/-- The commands of a call in a directory. -/
def Git.pull (env : ε) (repoURL branch repoDir : String) (dir : σ) : σ × Except String String :=
  Wardn.pull (git.exec env) git.hasGit repoURL branch repoDir dir

/-- The call in its own directory. -/
def Host.pull (h : Host σ) (call : Call ε) : σ × Except String String :=
  git.pull call.env call.repoURL call.branch (h.client.repoPath call.repoURL)
    (h.checkout call.repoURL)

@[simp] theorem Host.step_basePath (h : Host σ) (call : Call ε) :
    (h.step git call).client.basePath = h.client.basePath := rfl

@[simp] theorem Host.step_repoPath (h : Host σ) (call : Call ε) (repoURL : String) :
    (h.step git call).client.repoPath repoURL = h.client.repoPath repoURL := by
  rw [Client.repoPath, Client.repoPath, Host.step_basePath]

/-- The answer of a call is that of its commands. -/
theorem Host.call_result (h : Host σ) (call : Call ε) :
    (h.call git call).2 = (h.pull git call).2 := rfl

/-- A call writes the directory of its URL. -/
theorem Host.step_disk (h : Host σ) (call : Call ε) :
    (h.step git call).disk =
      Function.update h.disk (h.client.repoPath call.repoURL) (h.pull git call).1 := rfl

/-- A call locates its own URL. -/
theorem Host.step_localPath (h : Host σ) (call : Call ε) (repoURL : String) :
    (h.step git call).client.localPath repoURL =
      if repoURL = call.repoURL then h.client.repoPath repoURL
      else h.client.localPath repoURL := by
  have path : (h.step git call).client.localPath repoURL = Function.update h.client.repoPaths
      call.repoURL (h.client.repoPath call.repoURL) repoURL := rfl
  rw [path, Function.update_apply]
  split
  next same => rw [same]
  next => rfl

/-- A call is seen under every URL of its directory. -/
theorem Host.step_checkout_of_eq (h : Host σ) (call : Call ε) {repoURL : String}
    (shared : h.client.repoPath repoURL = h.client.repoPath call.repoURL) :
    (h.step git call).checkout repoURL = (h.pull git call).1 := by
  rw [Host.checkout, Host.step_repoPath, Host.step_disk, shared, Function.update_self]

@[simp] theorem Host.step_checkout_self (h : Host σ) (call : Call ε) :
    (h.step git call).checkout call.repoURL = (h.pull git call).1 :=
  h.step_checkout_of_eq git call rfl

/-- A call leaves the directories of other hashes alone. -/
theorem Host.step_checkout_of_ne (h : Host σ) (call : Call ε) {repoURL : String}
    (apart : h.client.repoPath repoURL ≠ h.client.repoPath call.repoURL) :
    (h.step git call).checkout repoURL = h.checkout repoURL := by
  rw [Host.checkout, Host.checkout, Host.step_repoPath, Host.step_disk,
    Function.update_of_ne apart]

/-! ## What no command does -/

variable {git} in
/-- What `rev-parse` has read is still there. -/
theorem Git.eq_of_revParse {env : ε} {dir dir' : σ} {result : Except String String}
    (read : git.exec env .revParse dir = (dir', result)) : dir' = dir := by
  have kept : (git.exec env .revParse dir).1 = dir := git.revParse_dir
  rwa [read] at kept

/-- The remote that is configured, if any, is one of these URLs. -/
def Git.FromRemotes (urls : Set String) (dir : σ) : Prop :=
  ∀ o, git.origin dir = some o → o.url ∈ urls

/-- A remote-tracking reference of a branch is covered by the fetch refspec. -/
def Git.TracksCovered (dir : σ) : Prop :=
  ∀ branch, git.Plain branch → git.ref dir (trackingRef branch) ≠ none → git.Covers dir branch

section Calls

variable {git} {urls : Set String} {env : ε} {repoURL branch repoDir : String} {dir : σ}

theorem Git.fromRemotes_absent (urls : Set String) : git.FromRemotes urls git.absent := by
  intro o configured
  cases (git.origin_of_no_git git.hasGit_absent).symm.trans configured

/-- Where nothing is, no remote-tracking reference is uncovered. -/
theorem Git.tracksCovered_absent : git.TracksCovered git.absent := by
  intro branch plain tracked
  exact absurd (git.ref_of_no_git git.hasGit_absent _) tracked

/-- The remote stays one of those that the directory is called with. -/
theorem Git.fromRemotes_pull (own : git.FromRemotes urls dir) (member : repoURL ∈ urls) :
    git.FromRemotes urls (git.pull env repoURL branch repoDir dir).1 := by
  refine pull_invariant (I := git.FromRemotes urls) (fun unborn _ o configured => ?_)
    (fun command inPlace _ dir own o configured => ?_) own
  · rwa [git.origin_clone unborn configured]
  · rw [git.origin_kept inPlace] at configured
    exact own o configured

/-- Commits come from the remotes of these URLs. -/
theorem Git.commits_pull {handed : Set Commit} (own : git.FromRemotes urls dir)
    (member : repoURL ∈ urls) (offers : ∀ url ∈ urls, git.offers env url ⊆ handed)
    (before : git.commits dir ⊆ handed) :
    git.commits (git.pull env repoURL branch repoDir dir).1 ⊆ handed := by
  have both : git.FromRemotes urls (git.pull env repoURL branch repoDir dir).1 ∧
      git.commits (git.pull env repoURL branch repoDir dir).1 ⊆ handed := by
    refine pull_invariant (I := fun dir => git.FromRemotes urls dir ∧ git.commits dir ⊆ handed)
      ?_ ?_ ⟨own, before⟩
    · rintro unborn ⟨own, before⟩
      refine ⟨fun o configured => ?_, fun commit here => ?_⟩
      · rwa [git.origin_clone unborn configured]
      · rcases git.commits_exec here with earlier | ⟨url, contacted, offered⟩
        · exact before earlier
        · cases contacted
          exact offers repoURL member offered
    · rintro command inPlace - dir ⟨own, before⟩
      refine ⟨fun o configured => ?_, fun commit here => ?_⟩
      · rw [git.origin_kept inPlace] at configured
        exact own o configured
      · rcases git.commits_exec here with earlier | ⟨url, contacted, offered⟩
        · exact before earlier
        · cases command with
          | fetch branch =>
              obtain ⟨o, configured, rfl⟩ := Option.map_eq_some_iff.mp contacted
              exact offers o.url (own o configured) offered
          | clone branch url dir => exact inPlace.elim
          | _ => cases contacted
  exact both.2

/-- Commands for a branch make no remote-tracking reference that the refspec does not cover. -/
theorem Git.tracksCovered_pull (plain : git.Plain branch) (before : git.TracksCovered dir) :
    git.TracksCovered (git.pull env repoURL branch repoDir dir).1 := by
  refine pull_invariant (I := git.TracksCovered) (fun unborn _ other plain' tracked => ?_)
    (fun command inPlace of dir before other plain' tracked => ?_) before
  · refine (git.tracking_exec (fun b named => ?_) plain' tracked).resolve_left fun earlier => ?_
    · cases named
      exact plain
    · exact earlier (git.ref_of_no_git unborn _)
  · rcases git.tracking_exec (fun b named => of b named ▸ plain) plain' tracked with
      earlier | covers
    · have covered := before other plain' earlier
      rwa [GitView.Covers, git.origin_kept inPlace]
    · exact covers

end Calls

end Wardn
