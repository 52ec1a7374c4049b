import Wardn.Git.Checkouts

/-!
# One call for a branch

What a call of `CloneOrPull` answers, and when it answers.  Under `Unmistaken` nothing is taken for
the branch and nothing lies about in the working tree: a revision that is answered is then the head
of the branch, and its files are the ones checked out (`Git.pulled_of_ok`).  Under `Ready` no
command has a reason to fail, and a call that nothing stops gets there when the refspec covers the
branch (`Git.pull_of_ready`).  `InOrder` is what a directory that is used for one branch keeps, as
long as a command that fails leaves no traces.
-/

namespace Wardn

variable {σ ε : Type*} (git : Git σ ε)

/-- Before a call for a branch nothing can be taken for the branch, neither a reference of the
remote nor one of the repository, and no files are left over in the working tree. -/
structure Git.Unmistaken (env : ε) (repoURL branch : String) (dir : σ) : Prop where
  plain : git.Plain branch
  undashed : git.hasGit dir = false → ¬ Dashed repoURL
  remote : Unambiguous (git.remote env repoURL) branch (branchRef branch)
  unshadowed : git.hasGit dir = true →
    Unambiguous (git.ref dir) ("origin/" ++ branch) (trackingRef branch)
  tidy : git.hasGit dir = true → git.tree dir ≠ .mixed

/-- Before a call for a branch no command has a reason to fail: there is nothing yet, or the
repository of the URL, without a lock file and tidy, with a branch to check out and without a path
that `origin/branch` could be. -/
inductive Git.Ready (env : ε) (repoURL branch : String) (dir : σ) : Prop
  | unborn (plain : git.Plain branch) (unborn : git.hasGit dir = false)
    (empty : git.tree dir = .empty) (undashed : ¬ Dashed repoURL)
  | cloned {o : Origin} (plain : git.Plain branch) (hasGit : git.hasGit dir = true)
    (intact : git.Intact dir) (configured : git.origin dir = some o) (url : o.url = repoURL)
    (remote : Unambiguous (git.remote env repoURL) branch (branchRef branch))
    (unshadowed : Unambiguous (git.ref dir) ("origin/" ++ branch) (trackingRef branch))
    (tidy : git.tree dir ≠ .mixed)
    (branchAt : git.ref dir (branchRef branch) ≠ none ∨
      git.tree dir = .empty ∧ Unambiguous (git.ref dir) branch (branchRef branch))
    (noPath : ∀ commit, git.tree dir = .clean commit ∨ (git.ref dir (branchRef branch)).or
        (git.remote env repoURL (branchRef branch)) = some commit →
      ¬ git.HasPath commit ("origin/" ++ branch))

/-- The command is one of a call for this branch of this URL. -/
def GitCommand.For (repoURL branch : String) : GitCommand → Prop
  | .clone b url _ => b = branch ∧ url = repoURL
  | .fetch b => b = branch
  | .checkout b => b = branch
  | .reset b => b = branch
  | .revParse => True

/-- A repository that is used for one branch: it covers the branch, it has it as a local branch, and
nothing is in the way of the commands. -/
structure Git.Established (repoURL branch : String) (dir : σ) : Prop where
  hasGit : git.hasGit dir = true
  intact : git.Intact dir
  configured : git.origin dir = some ⟨repoURL, some branch⟩
  unshadowed : Unambiguous (git.ref dir) ("origin/" ++ branch) (trackingRef branch)
  tidy : git.tree dir ≠ .mixed
  branchAt : git.ref dir (branchRef branch) ≠ none
  noPath : ∀ ref ∈ [branchRef branch, trackingRef branch], ∀ commit,
    git.ref dir ref = some commit → ¬ git.HasPath commit ("origin/" ++ branch)
  treePath : ∀ commit, git.tree dir = .clean commit → ¬ git.HasPath commit ("origin/" ++ branch)

/-- A directory that is used for one branch. -/
inductive Git.InOrder (repoURL branch : String) (dir : σ) : Prop
  | unborn (unborn : git.hasGit dir = false) (empty : git.tree dir = .empty)
  | established (established : git.Established repoURL branch dir)

/-- The remote has nothing that could be taken for the branch, and commands that fail put the
directory in order again. -/
structure Git.Peaceful (env : ε) (repoURL branch : String) : Prop where
  remote : Unambiguous (git.remote env repoURL) branch (branchRef branch)
  unshadowed : Unambiguous (git.remote env repoURL) ("origin/" ++ branch) (trackingRef branch)
  noPath : ∀ commit, git.remote env repoURL (branchRef branch) = some commit →
    ¬ git.HasPath commit ("origin/" ++ branch)
  traceless : ∀ command : GitCommand, command.For repoURL branch → ∀ dir dir' err,
    git.InOrder repoURL branch dir → git.exec env command dir = (dir', .error err) →
      git.InOrder repoURL branch dir'

/-- The refspec of a repository, if there is one, covers the branch. -/
def Git.Covered (branch : String) (dir : σ) : Prop :=
  git.hasGit dir = true → git.Covers dir branch

section Calls

variable {git} {env : ε} {repoURL branch repoDir revision : String} {dir dir' : σ}
  {commit : Commit}

theorem Git.covered_absent : git.Covered branch git.absent := by
  intro there
  cases git.hasGit_absent.symm.trans there

theorem Unambiguous.congr {refs refs' : String → Option Commit} {name ref : String}
    (found : Unambiguous refs name ref)
    (same : ∀ other ∈ lookups name, other ≠ ref → refs' other = refs other) :
    Unambiguous refs' name ref := by
  intro other member different
  rw [same other member different]
  exact found other member different

/-- What a remote-tracking reference is read as stays read so when none of the other references is
written. -/
theorem GitView.Keeps.unshadowed {git : GitView σ ε} {written : String}
    (keeps : git.Keeps branch written dir dir') (own : written ∉ lookups ("origin/" ++ branch) ∨
      written = trackingRef branch)
    (before : Unambiguous (git.ref dir) ("origin/" ++ branch) (trackingRef branch)) :
    Unambiguous (git.ref dir') ("origin/" ++ branch) (trackingRef branch) := by
  refine before.congr fun other member different => ?_
  refine keeps.ref other (List.mem_append_right _ member) fun same => ?_
  rcases own with outside | own
  · exact outside (same ▸ member)
  · exact different (same.trans own)

/-- A clone that succeeds is of a branch: a tag of the name would be found as well. -/
theorem Git.exists_head_of_clone (unborn : git.hasGit dir = false) (undashed : ¬ Dashed repoURL)
    (remote : Unambiguous (git.remote env repoURL) branch (branchRef branch)) {output : String}
    (clone : git.exec env (.clone branch repoURL repoDir) dir = (dir', .ok output)) :
    ∃ commit, git.remote env repoURL (branchRef branch) = some commit := by
  refine Option.ne_none_iff_exists'.mp ?_
  refine (git.clone_named unborn undashed clone).resolve_right fun tagged => tagged ?_
  exact remote _ (by simp [lookups]) (tagRef_ne_branchRef branch)

/-- Between a fetch and the end of a call that has got there. -/
theorem Git.reset_of_fetched {fetched checkedOut wasReset : σ} {out out' : String}
    (plain : git.Plain branch)
    (unshadowed : Unambiguous (git.ref fetched) ("origin/" ++ branch) (trackingRef branch))
    (tidy : git.tree fetched ≠ .mixed)
    (checkout : git.exec env (.checkout branch) fetched = (checkedOut, .ok out))
    (reset : git.exec env (.reset branch) checkedOut = (wasReset, .ok out')) :
    ∃ commit, git.ref fetched (trackingRef branch) = some commit ∧
      git.head wasReset = some commit ∧ git.tree wasReset = .clean commit := by
  obtain ⟨keeps, tidied⟩ := git.checkout_keeps plain checkout
  obtain ⟨commit, tracked, head, clean⟩ := git.reset_ok plain
    (keeps.unshadowed (.inl (branchRef_notMem_lookups branch)) unshadowed) reset
  have same := keeps.ref _ (trackingRef_mem_refsOf branch) (trackingRef_ne_branchRef branch branch)
  exact ⟨commit, same ▸ tracked, head, clean (tidied tidy)⟩

/-- What a call does whose commands have succeeded. -/
theorem Git.exists_head_of_ok
    (ok : git.pull env repoURL branch repoDir dir = (dir', .ok revision)) :
    runGit (git.exec env) (pullCommands (git.hasGit dir) repoURL branch repoDir) dir =
        (dir', none) ∧
      ∃ commit, git.head dir' = some commit ∧ revision = commit.name := by
  obtain ⟨middle, output, commands, read, rfl⟩ := pull_eq_ok_iff.mp ok
  obtain ⟨commit, head, rfl⟩ := git.revParse_ok read
  rw [Git.eq_of_revParse read]
  exact ⟨commands, commit, head, trimSpace_output commit⟩

/-- The answer of a call on a repository: the head of the branch, which the refspec covers. -/
theorem Git.pulled_of_git (plain : git.Plain branch)
    (remote : Unambiguous (git.remote env repoURL) branch (branchRef branch))
    (unshadowed : Unambiguous (git.ref dir) ("origin/" ++ branch) (trackingRef branch))
    (tidy : git.tree dir ≠ .mixed) (own : git.FromRemotes {repoURL} dir)
    (tracks : git.TracksCovered dir) (there : git.hasGit dir = true)
    (ok : git.pull env repoURL branch repoDir dir = (dir', .ok revision)) :
    ∃ commit, git.remote env repoURL (branchRef branch) = some commit ∧ revision = commit.name ∧
      git.tree dir' = .clean commit ∧ git.Covers dir branch := by
  obtain ⟨commands, found, head, rfl⟩ := Git.exists_head_of_ok ok
  rw [pullCommands, there, if_neg (not_not.mpr rfl)] at commands
  obtain ⟨first, out, fetch, rest⟩ := runGit_cons_eq_none_iff.mp commands
  obtain ⟨second, out', checkout, rest⟩ := runGit_cons_eq_none_iff.mp rest
  obtain ⟨last, out'', reset, done⟩ := runGit_cons_eq_none_iff.mp rest
  cases done
  obtain ⟨keeps, sameTree⟩ := git.fetch_keeps plain fetch
  obtain ⟨o, configured, looked⟩ := git.fetch_ok plain fetch
  have url : o.url = repoURL := own o configured
  rw [url] at looked
  obtain ⟨commit, branchHead, updated⟩ := looked remote
  obtain ⟨commit', tracked, last, clean⟩ := Git.reset_of_fetched plain
    (keeps.unshadowed (.inr rfl) unshadowed) (sameTree ▸ tidy) checkout reset
  obtain rfl := Option.some.inj (last.symm.trans head)
  -- only a covered branch has a remote-tracking reference to go to
  have covers : o.fetch = some branch := by
    by_contra uncovered
    rw [if_neg uncovered] at updated
    have before : git.ref dir (trackingRef branch) ≠ none := by
      rw [← updated, tracked]
      exact Option.some_ne_none _
    have covered := tracks branch plain before
    rw [GitView.Covers, configured] at covered
    exact uncovered covered
  rw [if_pos covers, tracked] at updated
  obtain rfl := Option.some.inj updated
  refine ⟨_, branchHead, rfl, clean, ?_⟩
  rw [GitView.Covers, configured]
  exact covers

/-- **What is answered.**  A revision is the head of the branch, and its files are checked out; a
repository that was there before covers the branch. -/
theorem Git.pulled_of_ok (unmistaken : git.Unmistaken env repoURL branch dir)
    (own : git.FromRemotes {repoURL} dir) (tracks : git.TracksCovered dir)
    (ok : git.pull env repoURL branch repoDir dir = (dir', .ok revision)) :
    ∃ commit, git.remote env repoURL (branchRef branch) = some commit ∧ revision = commit.name ∧
      git.tree dir' = .clean commit ∧ git.Covered branch dir := by
  obtain ⟨plain, undashed, remote, unshadowed, tidy⟩ := unmistaken
  cases there : git.hasGit dir with
  | false =>
      obtain ⟨commands, found, head, rfl⟩ := Git.exists_head_of_ok ok
      rw [pullCommands, there, if_pos Bool.false_ne_true] at commands
      obtain ⟨last, out, clone, done⟩ := runGit_cons_eq_none_iff.mp commands
      cases done
      obtain ⟨commit, branchHead⟩ :=
        Git.exists_head_of_clone there (undashed there) remote clone
      have cloned := git.clone_ok there (undashed there) plain branchHead clone
      obtain rfl := Option.some.inj (cloned.head.symm.trans head)
      have uncovered : git.Covered branch dir :=
        fun born => absurd (there.symm.trans born) Bool.false_ne_true
      exact ⟨_, branchHead, rfl, cloned.tree, uncovered⟩
  | true =>
      obtain ⟨commit, branchHead, name, clean, covers⟩ := Git.pulled_of_git plain remote
        (unshadowed there) (tidy there) own tracks there ok
      exact ⟨commit, branchHead, name, clean, fun _ => covers⟩

/-- A call whose commands have got to a commit reads it. -/
theorem Git.pull_eq_ok_of_head {last : σ} (able : git.Able env)
    (commands : runGit (git.exec env) (pullCommands (git.hasGit dir) repoURL branch repoDir) dir =
      (last, none))
    (there : git.hasGit last = true) (intact : git.Intact last)
    (head : git.head last = some commit) :
    git.pull env repoURL branch repoDir dir = (last, .ok commit.name) := by
  obtain ⟨dir', output, parsed⟩ := git.revParse_able able there intact head
  obtain rfl := Git.eq_of_revParse parsed
  obtain ⟨commit', head', rfl⟩ := git.revParse_ok parsed
  obtain rfl := Option.some.inj (head.symm.trans head')
  exact pull_eq_ok_iff.mpr ⟨_, _, commands, parsed, (trimSpace_output commit).symm⟩

/-- The checkout and the reset behind a fetch get to what has been fetched. -/
theorem Git.exists_reset_of_fetched {fetched : σ} (able : git.Able env) (plain : git.Plain branch)
    (there : git.hasGit fetched = true) (intact : git.Intact fetched)
    (unshadowed : Unambiguous (git.ref fetched) ("origin/" ++ branch) (trackingRef branch))
    (tidy : git.tree fetched ≠ .mixed)
    (branchAt : git.ref fetched (branchRef branch) ≠ none ∨
      git.tree fetched = .empty ∧ Unambiguous (git.ref fetched) branch (branchRef branch))
    (tracked : git.ref fetched (trackingRef branch) = some commit)
    (noPath : ∀ shown, git.tree fetched = .clean shown ∨
        (git.ref fetched (branchRef branch)).or (some commit) = some shown →
      ¬ git.HasPath shown ("origin/" ++ branch)) :
    ∃ checkedOut out last out', git.exec env (.checkout branch) fetched = (checkedOut, .ok out) ∧
      git.exec env (.reset branch) checkedOut = (last, .ok out') ∧ git.hasGit last = true ∧
      git.Intact last ∧ git.head last = some commit ∧ git.tree last = .clean commit := by
  have known : git.ref fetched (trackingRef branch) ≠ none := by
    rw [tracked]
    exact Option.some_ne_none commit
  obtain ⟨checkedOut, out, checkout⟩ := git.checkout_able able there intact plain tidy
    (branchAt.imp_right fun alone => ⟨alone.1, alone.2, known⟩)
  obtain ⟨keeps, tidied⟩ := git.checkout_keeps plain checkout
  obtain ⟨current, local', found, -, files⟩ := git.checkout_branch plain tidy branchAt checkout
  rw [tracked] at found
  have same : git.ref checkedOut (trackingRef branch) = git.ref fetched (trackingRef branch) :=
    keeps.ref _ (trackingRef_mem_refsOf branch) (trackingRef_ne_branchRef branch branch)
  have clear : ∀ shown, git.tree checkedOut = .clean shown →
      ¬ git.HasPath shown ("origin/" ++ branch) := by
    intro shown clean
    rcases files with kept | files
    · exact noPath shown (.inl (kept.symm.trans clean))
    · obtain rfl := Tree.clean.inj (files.symm.trans clean)
      exact noPath _ (.inr found)
  obtain ⟨last, out', reset⟩ := git.reset_able able (keeps.hasGit.trans there)
    (keeps.intact intact) plain
    (keeps.unshadowed (.inl (branchRef_notMem_lookups branch)) unshadowed) (same ▸ known)
    (tidied tidy) clear
  obtain ⟨keeps', -⟩ := git.reset_keeps plain current reset
  obtain ⟨commit', tracked', head, clean⟩ :=
    Git.reset_of_fetched plain unshadowed tidy checkout reset
  obtain rfl := Option.some.inj (tracked.symm.trans tracked')
  exact ⟨checkedOut, out, last, out', checkout, reset,
    keeps'.hasGit.trans (keeps.hasGit.trans there), keeps'.intact (keeps.intact intact), head,
    clean⟩

/-- **Getting there.**  A call that nothing stops, on a directory where nothing is in its way and
the refspec covers the branch, answers the head of the branch and leaves its files checked out. -/
theorem Git.pull_of_ready (ready : git.Ready env repoURL branch dir)
    (covered : git.Covered branch dir) (able : git.Able env)
    (branchHead : git.remote env repoURL (branchRef branch) = some commit) (repoDir : String) :
    ∃ dir', git.pull env repoURL branch repoDir dir = (dir', .ok commit.name) ∧
      git.tree dir' = .clean commit := by
  cases ready with
  | unborn plain unborn empty undashed =>
      obtain ⟨last, out, clone⟩ := git.clone_able able unborn empty undashed plain branchHead
      have cloned := git.clone_ok unborn undashed plain branchHead clone
      refine ⟨last, Git.pull_eq_ok_of_head able ?_ cloned.hasGit cloned.intact cloned.head,
        cloned.tree⟩
      rw [pullCommands, unborn, if_pos Bool.false_ne_true]
      exact runGit_cons_eq_none_iff.mpr ⟨last, out, clone, rfl⟩
  | @cloned o plain there intact configured url remote unshadowed tidy branchAt noPath =>
      subst url
      have covers := covered there
      rw [GitView.Covers, configured] at covers
      obtain ⟨fetched, out, fetch⟩ := git.fetch_able able there intact configured plain branchHead
      obtain ⟨keeps, sameTree⟩ := git.fetch_keeps plain fetch
      obtain ⟨o', configured', looked⟩ := git.fetch_ok plain fetch
      obtain rfl := Option.some.inj (configured.symm.trans configured')
      obtain ⟨head, branchHead', updated⟩ := looked remote
      obtain rfl := Option.some.inj (branchHead.symm.trans branchHead')
      rw [if_pos (show o.fetch = some branch from covers)] at updated
      -- the fetch leaves the local branch and the files alone
      have sameBranch : git.ref fetched (branchRef branch) = git.ref dir (branchRef branch) :=
        keeps.ref _ (branchRef_mem_refsOf branch) (trackingRef_ne_branchRef branch branch).symm
      have branchAt' : git.ref fetched (branchRef branch) ≠ none ∨ git.tree fetched = .empty ∧
          Unambiguous (git.ref fetched) branch (branchRef branch) := by
        rw [sameBranch, sameTree]
        refine branchAt.imp_right fun alone =>
          ⟨alone.1, alone.2.congr fun other member _ => ?_⟩
        refine keeps.ref other (List.mem_append_left _ member) fun same => ?_
        exact trackingRef_notMem_lookups branch (same ▸ member)
      obtain ⟨checkedOut, out', last, out'', checkout, reset, there', intact', read, clean⟩ :=
        Git.exists_reset_of_fetched able plain (keeps.hasGit.trans there) (keeps.intact intact)
          (keeps.unshadowed (.inr rfl) unshadowed) (sameTree ▸ tidy) branchAt' updated
          (by rwa [sameBranch, sameTree, ← branchHead])
      refine ⟨last, Git.pull_eq_ok_of_head able ?_ there' intact' read, clean⟩
      rw [pullCommands, there, if_neg (not_not.mpr rfl)]
      exact runGit_cons_eq_none_iff.mpr ⟨fetched, out, fetch, runGit_cons_eq_none_iff.mpr
        ⟨checkedOut, out', checkout, runGit_cons_eq_none_iff.mpr ⟨last, out'', reset, rfl⟩⟩⟩

/-! ## Directories of one branch -/

theorem Git.inOrder_absent : git.InOrder repoURL branch git.absent :=
  .unborn git.hasGit_absent git.tree_absent

theorem Git.InOrder.covered (inOrder : git.InOrder repoURL branch dir) :
    git.Covered branch dir := by
  intro there
  cases inOrder with
  | unborn unborn empty => cases unborn.symm.trans there
  | established established =>
      rw [GitView.Covers, established.configured]
      rfl

/-- A directory in order is ready for its branch. -/
theorem Git.InOrder.ready (inOrder : git.InOrder repoURL branch dir) (plain : git.Plain branch)
    (undashed : ¬ Dashed repoURL)
    (remote : Unambiguous (git.remote env repoURL) branch (branchRef branch)) :
    git.Ready env repoURL branch dir := by
  cases inOrder with
  | unborn unborn empty => exact .unborn plain unborn empty undashed
  | established established =>
      obtain ⟨there, intact, configured, unshadowed, tidy, branchAt, noPath, treePath⟩ :=
        established
      refine .cloned plain there intact configured rfl remote unshadowed tidy (.inl branchAt) ?_
      refine fun commit found => found.elim (treePath commit) fun found => ?_
      obtain ⟨local', at'⟩ := Option.ne_none_iff_exists'.mp branchAt
      rw [at', Option.some_or] at found
      exact noPath _ List.mem_cons_self commit (at'.trans found)

/-- In a directory in order the branch is not mistaken. -/
theorem Git.InOrder.unmistaken (inOrder : git.InOrder repoURL branch dir) (plain : git.Plain branch)
    (undashed : ¬ Dashed repoURL)
    (remote : Unambiguous (git.remote env repoURL) branch (branchRef branch)) :
    git.Unmistaken env repoURL branch dir := by
  refine ⟨plain, fun _ => undashed, remote, fun there => ?_, fun there => ?_⟩
  · cases inOrder with
    | unborn unborn empty => cases unborn.symm.trans there
    | established established => exact established.unshadowed
  · cases inOrder with
    | unborn unborn empty => cases unborn.symm.trans there
    | established established => exact established.tidy

/-- A clone from a peaceful remote leaves a directory established for its branch. -/
theorem Git.Established.of_clone (plain : git.Plain branch) (undashed : ¬ Dashed repoURL)
    (peaceful : git.Peaceful env repoURL branch) (unborn : git.hasGit dir = false) {output : String}
    (clone : git.exec env (.clone branch repoURL repoDir) dir = (dir', .ok output)) :
    git.Established repoURL branch dir' := by
  obtain ⟨commit, head⟩ := Git.exists_head_of_clone unborn undashed peaceful.remote clone
  have cloned := git.clone_ok unborn undashed plain head clone
  refine ⟨cloned.hasGit, cloned.intact, cloned.origin,
    git.clone_unambiguous unborn undashed plain peaceful.unshadowed clone, ?_, ?_, ?_, ?_⟩
  · exact fun mixed => nomatch cloned.tree.symm.trans mixed
  · exact fun missing => nomatch cloned.branchAt.symm.trans missing
  · intro ref member shown found
    have same : shown = commit := by
      rcases List.mem_pair.mp member with rfl | rfl
      · exact Option.some.inj (found.symm.trans cloned.branchAt)
      · exact Option.some.inj (found.symm.trans cloned.trackingAt)
    exact same ▸ peaceful.noPath commit head
  · intro shown clean
    obtain rfl := Tree.clean.inj (cloned.tree.symm.trans clean)
    exact peaceful.noPath _ head

/-- A command of the branch that writes one of its two references. -/
theorem Git.Established.of_keeps {command : GitCommand} {result : Except String String}
    {written : String} (before : git.Established repoURL branch dir)
    (executed : git.exec env command dir = (dir', result)) (inPlace : command.InPlace)
    (keeps : git.Keeps branch written dir dir')
    (own : written = branchRef branch ∨ written = trackingRef branch)
    (tidy : git.tree dir' ≠ .mixed)
    (branchAt : git.ref dir' (branchRef branch) ≠ none)
    (new : ∀ commit, git.tree dir' = .clean commit ∨ git.ref dir' written = some commit →
      ¬ git.HasPath commit ("origin/" ++ branch)) :
    git.Established repoURL branch dir' := by
  have sameOrigin : git.origin (git.exec env command dir).1 = git.origin dir :=
    git.origin_kept inPlace
  rw [executed] at sameOrigin
  refine ⟨keeps.hasGit.trans before.hasGit, keeps.intact before.intact,
    sameOrigin.trans before.configured, keeps.unshadowed ?_ before.unshadowed, tidy, branchAt, ?_,
    fun commit clean => new commit (.inl clean)⟩
  · refine own.imp_left fun same => ?_
    rw [same]
    exact branchRef_notMem_lookups branch
  · intro ref member commit found
    by_cases other : ref = written
    · exact new commit (.inr (other ▸ found))
    · have listed : ref ∈ refsOf branch := by
        rcases List.mem_pair.mp member with rfl | rfl
        · exact branchRef_mem_refsOf branch
        · exact trackingRef_mem_refsOf branch
      rw [keeps.ref ref listed other] at found
      exact before.noPath ref member commit found

/-- The fetch moves the remote-tracking reference to the head. -/
theorem Git.Established.fetch (before : git.Established repoURL branch dir)
    (plain : git.Plain branch) (peaceful : git.Peaceful env repoURL branch) {output : String}
    (fetch : git.exec env (.fetch branch) dir = (dir', .ok output)) :
    git.Established repoURL branch dir' := by
  obtain ⟨keeps, sameTree⟩ := git.fetch_keeps plain fetch
  obtain ⟨o, configured, looked⟩ := git.fetch_ok plain fetch
  obtain rfl := Option.some.inj (before.configured.symm.trans configured)
  obtain ⟨head, branchHead, updated⟩ := looked peaceful.remote
  rw [if_pos rfl] at updated
  have sameBranch := keeps.ref _ (branchRef_mem_refsOf branch)
    (trackingRef_ne_branchRef branch branch).symm
  refine before.of_keeps fetch trivial keeps (.inr rfl) (sameTree ▸ before.tidy)
    (sameBranch ▸ before.branchAt) fun commit found => ?_
  rcases found with clean | found
  · exact before.treePath commit (sameTree.symm.trans clean)
  · obtain rfl := Option.some.inj (updated.symm.trans found)
    exact peaceful.noPath head branchHead

/-- The checkout is of the local branch. -/
theorem Git.Established.checkout (before : git.Established repoURL branch dir)
    (plain : git.Plain branch) {output : String}
    (checkout : git.exec env (.checkout branch) dir = (dir', .ok output)) :
    git.Established repoURL branch dir' ∧ git.current dir' = some branch := by
  obtain ⟨keeps, tidied⟩ := git.checkout_keeps plain checkout
  obtain ⟨current, commit, found, moved, files⟩ :=
    git.checkout_branch plain before.tidy (.inl before.branchAt) checkout
  obtain ⟨local', at'⟩ := Option.ne_none_iff_exists'.mp before.branchAt
  rw [at', Option.some_or] at found
  obtain rfl := Option.some.inj found
  refine ⟨before.of_keeps checkout trivial keeps (.inl rfl) (tidied before.tidy) ?_ ?_, current⟩
  · exact fun missing => nomatch moved.symm.trans missing
  · have branchPath := before.noPath _ List.mem_cons_self _ at'
    rintro shown (clean | found)
    · rcases files with kept | files
      · exact before.treePath shown (kept.symm.trans clean)
      · exact Tree.clean.inj (files.symm.trans clean) ▸ branchPath
    · exact Option.some.inj (moved.symm.trans found) ▸ branchPath

/-- The reset moves the local branch to the remote-tracking reference. -/
theorem Git.Established.reset (before : git.Established repoURL branch dir)
    (plain : git.Plain branch) (current : git.current dir = some branch) {output : String}
    (reset : git.exec env (.reset branch) dir = (dir', .ok output)) :
    git.Established repoURL branch dir' := by
  obtain ⟨keeps, moved⟩ := git.reset_keeps plain current reset
  obtain ⟨commit, tracked, head, clean⟩ := git.reset_ok plain before.unshadowed reset
  rw [head] at moved
  refine before.of_keeps reset trivial keeps (.inl rfl) ?_ ?_ ?_
  · exact fun mixed => nomatch (clean before.tidy).symm.trans mixed
  · exact fun missing => nomatch moved.symm.trans missing
  · have trackedPath := before.noPath _ (List.mem_cons_of_mem _ List.mem_cons_self) _ tracked
    rintro shown (files | found)
    · exact Tree.clean.inj ((clean before.tidy).symm.trans files) ▸ trackedPath
    · exact Option.some.inj (moved.symm.trans found) ▸ trackedPath

/-- **A directory that is used for one branch** stays in order. -/
theorem Git.inOrder_pull (plain : git.Plain branch) (undashed : ¬ Dashed repoURL)
    (peaceful : git.Peaceful env repoURL branch) (before : git.InOrder repoURL branch dir) :
    git.InOrder repoURL branch (git.pull env repoURL branch repoDir dir).1 := by
  have failed : ∀ {command : GitCommand} {dir}, command.For repoURL branch →
      git.InOrder repoURL branch dir → ∀ dir' err, git.exec env command dir = (dir', .error err) →
        git.InOrder repoURL branch dir' :=
    fun own inOrder dir' err executed => peaceful.traceless _ own _ dir' err inOrder executed
  rw [Git.pull, pull_dir fun _ => git.revParse_dir]
  unfold pullCommands
  cases before with
  | unborn unborn empty =>
      rw [unborn, if_pos Bool.false_ne_true]
      refine runGit_cons_of (failed ⟨rfl, rfl⟩ (.unborn unborn empty)) fun last out clone => ?_
      exact .established (.of_clone plain undashed peaceful unborn clone)
  | established before =>
      rw [before.hasGit, if_neg (not_not.mpr rfl)]
      refine runGit_cons_of (failed rfl (.established before)) fun first out fetch => ?_
      have fetched := before.fetch plain peaceful fetch
      refine runGit_cons_of (failed rfl (.established fetched)) fun second out checkout => ?_
      obtain ⟨checkedOut, current⟩ := fetched.checkout plain checkout
      refine runGit_cons_of (failed rfl (.established checkedOut)) fun last out reset => ?_
      exact .established (checkedOut.reset plain current reset)

end Calls

end Wardn
