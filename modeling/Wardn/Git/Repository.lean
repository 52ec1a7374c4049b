import Wardn.Git.Program

/-!
# A git to run

An instance of `Git`, for runs on fixed inputs: a directory holds nothing, or a repository with the
files of one commit; remotes have branches and tags; a command that fails leaves no traces.  The
results of this development are about every instance, not about this one.
-/

namespace Wardn

/-- A repository whose working tree has the files of one commit. -/
structure Repository where
  origin : Origin
  refs : String → Option Commit
  current : String
  tree : Commit

/-- The remotes, by URL and reference, and the commands that fail, with their errors. -/
structure GitEnv where
  remote : String → String → Option Commit
  fails : GitCommand → Option String := fun _ => none

namespace Repository

/-- What `clone --depth=1 --branch` leaves. -/
def cloned (repoURL branch : String) (commit : Commit) : Repository where
  origin := ⟨repoURL, some branch⟩
  refs := fun ref =>
    if ref = branchRef branch ∨ ref = trackingRef branch then some commit else none
  current := branch
  tree := commit

/-- What `fetch origin branch` leaves: the remote-tracking reference moves if the refspec covers it.
-/
def fetched (repo : Repository) (branch : String) (commit : Commit) : Repository :=
  if repo.origin.fetch = some branch then
    { repo with refs := Function.update repo.refs (trackingRef branch) (some commit) }
  else repo

/-- What `checkout branch` leaves. -/
def checkedOut (repo : Repository) (branch : String) (commit : Commit) : Repository :=
  { repo with
    refs := Function.update repo.refs (branchRef branch) (some commit), current := branch,
    tree := commit }

/-- What `reset --hard` leaves. -/
def wasReset (repo : Repository) (commit : Commit) : Repository :=
  { repo with
    refs := Function.update repo.refs (branchRef repo.current) (some commit), tree := commit }

end Repository

/-- A command that no failure stops. -/
def GitEnv.run (env : GitEnv) (command : GitCommand) (dir : Option Repository) :
    Option Repository × Except String String :=
  match dir, command with
  | none, .clone branch repoURL _ =>
    match env.remote repoURL (branchRef branch) with
    | some commit => (some (.cloned repoURL branch commit), .ok "")
    | none => (none, .error "remote branch not found in upstream origin")
  | some repo, .clone _ _ _ => (some repo, .error "destination path already exists")
  | none, _ => (none, .error "not a git repository")
  | some repo, .fetch branch =>
    match env.remote repo.origin.url (branchRef branch) with
    | some commit => (some (repo.fetched branch commit), .ok "")
    | none => (some repo, .error "could not find remote ref")
  | some repo, .checkout branch =>
    match (repo.refs (branchRef branch)).or (repo.refs (trackingRef branch)) with
    | some commit => (some (repo.checkedOut branch commit), .ok "")
    | none => (some repo, .error "pathspec did not match any file(s) known to git")
  | some repo, .reset branch =>
    match repo.refs (trackingRef branch) with
    | some commit => (some (repo.wasReset commit), .ok "")
    | none => (some repo, .error "ambiguous argument: unknown revision")
  | some repo, .revParse =>
    match repo.refs (branchRef repo.current) with
    | some commit => (some repo, .ok (commit.name ++ "\n"))
    | none => (some repo, .error "ambiguous argument 'HEAD': unknown revision")

/-- A command, which may be one that fails. -/
def GitEnv.exec (env : GitEnv) (command : GitCommand) (dir : Option Repository) :
    Option Repository × Except String String :=
  match env.fails command with
  | some err => (dir, .error err)
  | none => env.run command dir

/-! ## Commands that succeed -/

/-- The directories and the output of a command that succeeds. -/
inductive Ran (env : GitEnv) : GitCommand → Option Repository → Option Repository → String → Prop
  | clone {branch repoURL repoDir : String} {commit : Commit}
    (remote : env.remote repoURL (branchRef branch) = some commit) :
    Ran env (.clone branch repoURL repoDir) none (some (.cloned repoURL branch commit)) ""
  | fetch {branch : String} {repo : Repository} {commit : Commit}
    (remote : env.remote repo.origin.url (branchRef branch) = some commit) :
    Ran env (.fetch branch) (some repo) (some (repo.fetched branch commit)) ""
  | checkout {branch : String} {repo : Repository} {commit : Commit}
    (found : (repo.refs (branchRef branch)).or (repo.refs (trackingRef branch)) = some commit) :
    Ran env (.checkout branch) (some repo) (some (repo.checkedOut branch commit)) ""
  | reset {branch : String} {repo : Repository} {commit : Commit}
    (tracked : repo.refs (trackingRef branch) = some commit) :
    Ran env (.reset branch) (some repo) (some (repo.wasReset commit)) ""
  | revParse {repo : Repository} {commit : Commit}
    (born : repo.refs (branchRef repo.current) = some commit) :
    Ran env .revParse (some repo) (some repo) (commit.name ++ "\n")

section Run

variable {env : GitEnv} {command : GitCommand} {dir dir' : Option Repository} {output err : String}

/-- A command succeeds in one of these ways, or leaves the directory as it was. -/
theorem GitEnv.run_cases (env : GitEnv) (command : GitCommand) (dir : Option Repository) :
    (∃ dir' output, env.run command dir = (dir', .ok output) ∧ Ran env command dir dir' output) ∨
      ∃ err, env.run command dir = (dir, .error err) := by
  cases dir with
  | none =>
      cases command with
      | clone branch repoURL repoDir =>
          cases remote : env.remote repoURL (branchRef branch) with
          | some commit => exact .inl ⟨_, _, by simp only [GitEnv.run, remote], .clone remote⟩
          | none => exact .inr ⟨_, by simp only [GitEnv.run, remote]; rfl⟩
      | fetch branch => exact .inr ⟨_, rfl⟩
      | checkout branch => exact .inr ⟨_, rfl⟩
      | reset branch => exact .inr ⟨_, rfl⟩
      | revParse => exact .inr ⟨_, rfl⟩
  | some repo =>
      cases command with
      | clone branch repoURL repoDir => exact .inr ⟨_, rfl⟩
      | fetch branch =>
          cases remote : env.remote repo.origin.url (branchRef branch) with
          | some commit => exact .inl ⟨_, _, by simp only [GitEnv.run, remote], .fetch remote⟩
          | none => exact .inr ⟨_, by simp only [GitEnv.run, remote]; rfl⟩
      | checkout branch =>
          cases found : (repo.refs (branchRef branch)).or (repo.refs (trackingRef branch)) with
          | some commit => exact .inl ⟨_, _, by simp only [GitEnv.run, found], .checkout found⟩
          | none => exact .inr ⟨_, by simp only [GitEnv.run, found]; rfl⟩
      | reset branch =>
          cases tracked : repo.refs (trackingRef branch) with
          | some commit => exact .inl ⟨_, _, by simp only [GitEnv.run, tracked], .reset tracked⟩
          | none => exact .inr ⟨_, by simp only [GitEnv.run, tracked]; rfl⟩
      | revParse =>
          cases born : repo.refs (branchRef repo.current) with
          | some commit => exact .inl ⟨_, _, by simp only [GitEnv.run, born], .revParse born⟩
          | none => exact .inr ⟨_, by simp only [GitEnv.run, born]; rfl⟩

/-- A command that does not fail has run, and one that fails leaves the directory as it was. -/
theorem GitEnv.exec_cases (env : GitEnv) (command : GitCommand) (dir : Option Repository) :
    (∃ dir' output, env.exec command dir = (dir', .ok output) ∧ Ran env command dir dir' output) ∨
      ∃ err, env.exec command dir = (dir, .error err) := by
  unfold GitEnv.exec
  cases env.fails command with
  | some err => exact .inr ⟨err, rfl⟩
  | none => exact env.run_cases command dir

theorem GitEnv.ran_of_exec (executed : env.exec command dir = (dir', .ok output)) :
    Ran env command dir dir' output := by
  rcases env.exec_cases command dir with ⟨last, out, executed', ran⟩ | ⟨err, failed⟩
  · cases executed.symm.trans executed'
    exact ran
  · cases executed.symm.trans failed

theorem GitEnv.exec_error (executed : env.exec command dir = (dir', .error err)) : dir' = dir := by
  rcases env.exec_cases command dir with ⟨last, out, executed', -⟩ | ⟨err', failed⟩
  · cases executed.symm.trans executed'
  · cases executed.symm.trans failed
    rfl

/-- What is kept by the commands that succeed is kept by all. -/
theorem GitEnv.exec_of_ran {P : Option Repository → Prop} (same : P dir)
    (ran : ∀ dir' output, Ran env command dir dir' output → P dir') :
    P (env.exec command dir).1 := by
  rcases env.exec_cases command dir with ⟨dir', output, executed, done⟩ | ⟨err, failed⟩
  · rw [executed]
    exact ran dir' output done
  · rw [failed]
    exact same

end Run

/-! ## The instance -/

/-- What is seen of such a directory, and of these remotes. -/
def exampleView : GitView (Option Repository) GitEnv where
  exec := GitEnv.exec
  absent := none
  hasGit := Option.isSome
  origin := Option.map Repository.origin
  ref := fun dir ref => dir.bind (Repository.refs · ref)
  head := fun dir => dir.bind fun repo => repo.refs (branchRef repo.current)
  current := Option.map Repository.current
  tree := fun dir => dir.elim .empty fun repo => .clean repo.tree
  commits := fun dir => { commit | ∃ repo, dir = some repo ∧
    (commit = repo.tree ∨ ∃ ref, repo.refs ref = some commit) }
  Intact := fun _ => True
  Able := fun env => ∀ command, env.fails command = none
  remote := GitEnv.remote
  offers := fun env repoURL => { commit | ∃ ref, env.remote repoURL ref = some commit }
  Plain := fun _ => True
  HasPath := fun _ _ => False

section Laws

variable {env : GitEnv} {command : GitCommand} {dir dir' : Option Repository}
  {branch repoURL repoDir output : String} {repo : Repository} {commit : Commit}

theorem GitEnv.exec_of_able (able : exampleView.Able env) :
    env.exec command dir = env.run command dir := by
  rw [GitEnv.exec, able command]

/-- No command but a clone writes the configuration. -/
theorem Repository.fetched_origin (repo : Repository) (branch : String) (commit : Commit) :
    (repo.fetched branch commit).origin = repo.origin := by
  unfold Repository.fetched
  split <;> rfl

theorem Repository.fetched_tree (repo : Repository) (branch : String) (commit : Commit) :
    (repo.fetched branch commit).tree = repo.tree := by
  unfold Repository.fetched
  split <;> rfl

/-- A fetch writes the covered remote-tracking reference and no other. -/
theorem Repository.fetched_refs (repo : Repository) (branch : String) (commit : Commit)
    (ref : String) : (repo.fetched branch commit).refs ref =
      if ref = trackingRef branch ∧ repo.origin.fetch = some branch then some commit
      else repo.refs ref := by
  unfold Repository.fetched
  by_cases covers : repo.origin.fetch = some branch
  · simp only [covers, if_true, and_true, Function.update_apply]
  · simp only [covers, if_false, and_false]

/-- A reference behind an update is the one written or was there. -/
theorem Repository.updated_refs (refs : String → Option Commit) {written ref : String}
    {commit commit' : Commit}
    (found : Function.update refs written (some commit) ref = some commit') :
    commit' = commit ∨ refs ref = some commit' := by
  rw [Function.update_apply] at found
  split at found
  · exact .inl (Option.some.inj found).symm
  · exact .inr found

/-- No command but a clone changes the remote. -/
theorem origin_exec_example (inPlace : command.InPlace) :
    exampleView.origin (env.exec command dir).1 = exampleView.origin dir := by
  refine GitEnv.exec_of_ran (P := fun last => exampleView.origin last = exampleView.origin dir) rfl
    fun last output ran => ?_
  cases ran with
  | clone remote => exact inPlace.elim
  | fetch remote => exact congrArg some (Repository.fetched_origin ..)
  | checkout found => rfl
  | reset tracked => rfl
  | revParse born => rfl

/-- New commits come from the remote that is contacted. -/
theorem commits_exec_example (member : commit ∈ exampleView.commits (env.exec command dir).1) :
    commit ∈ exampleView.commits dir ∨ ∃ repoURL, exampleView.contacts dir command = some repoURL ∧
      commit ∈ exampleView.offers env repoURL := by
  revert member
  refine GitEnv.exec_of_ran (P := fun last => commit ∈ exampleView.commits last → _) .inl
    fun last output ran member => ?_
  obtain ⟨repo', there, shown⟩ := member
  cases ran with
  | @clone branch repoURL repoDir head remote =>
      cases there
      refine .inr ⟨repoURL, rfl, _, remote.trans (congrArg some ?_)⟩
      rcases shown with rfl | ⟨ref, found⟩
      · rfl
      · exact Option.some.inj (Option.ite_none_right_eq_some.mp found).2
  | @fetch branch repo head remote =>
      cases there
      rw [Repository.fetched_tree] at shown
      rcases shown with rfl | ⟨ref, found⟩
      · exact .inl ⟨repo, rfl, .inl rfl⟩
      · rw [Repository.fetched_refs] at found
        split at found
        · cases found
          exact .inr ⟨repo.origin.url, rfl, _, remote⟩
        · exact .inl ⟨repo, rfl, .inr ⟨ref, found⟩⟩
  | @checkout branch repo head found =>
      cases there
      have known : ∃ ref, repo.refs ref = some head := by
        rcases Option.or_eq_some_iff.mp found with at' | ⟨-, at'⟩
        · exact ⟨_, at'⟩
        · exact ⟨_, at'⟩
      rcases shown with rfl | ⟨ref, found⟩
      · exact .inl ⟨repo, rfl, .inr known⟩
      · rcases Repository.updated_refs repo.refs found with rfl | found
        · exact .inl ⟨repo, rfl, .inr known⟩
        · exact .inl ⟨repo, rfl, .inr ⟨ref, found⟩⟩
  | @reset branch repo head tracked =>
      cases there
      rcases shown with rfl | ⟨ref, found⟩
      · exact .inl ⟨repo, rfl, .inr ⟨_, tracked⟩⟩
      · rcases Repository.updated_refs repo.refs found with rfl | found
        · exact .inl ⟨repo, rfl, .inr ⟨_, tracked⟩⟩
        · exact .inl ⟨repo, rfl, .inr ⟨ref, found⟩⟩
  | revParse born =>
      cases there
      exact .inl ⟨_, rfl, shown⟩

/-- A new remote-tracking reference is one that the refspec covers. -/
theorem tracking_exec_example
    (tracked : exampleView.ref (env.exec command dir).1 (trackingRef branch) ≠ none) :
    exampleView.ref dir (trackingRef branch) ≠ none ∨
      exampleView.Covers (env.exec command dir).1 branch := by
  revert tracked
  refine GitEnv.exec_of_ran (P := fun last => exampleView.ref last (trackingRef branch) ≠ none →
    _ ∨ exampleView.Covers last branch) .inl fun last output ran tracked => ?_
  cases ran with
  | @clone own repoURL repoDir head remote =>
      have named : trackingRef branch = branchRef own ∨ trackingRef branch = trackingRef own :=
        not_not.mp fun other => tracked (if_neg other)
      have same := trackingRef_injective (named.resolve_left (trackingRef_ne_branchRef branch own))
      exact .inr (congrArg some same.symm)
  | @fetch own repo head remote =>
      change (repo.fetched own head).refs _ ≠ none at tracked
      rw [Repository.fetched_refs] at tracked
      split at tracked
      next written =>
        refine .inr ?_
        change some (repo.fetched own head).origin >>= Origin.fetch = some branch
        rw [Repository.fetched_origin, trackingRef_injective written.1]
        exact written.2
      next => exact .inl tracked
  | @checkout own repo head found =>
      change Function.update repo.refs (branchRef own) (some head) (trackingRef branch) ≠ none
        at tracked
      rw [Function.update_of_ne (trackingRef_ne_branchRef branch own)] at tracked
      exact .inl tracked
  | @reset own repo head found =>
      change Function.update repo.refs (branchRef repo.current) (some head) (trackingRef branch) ≠
        none at tracked
      rw [Function.update_of_ne (trackingRef_ne_branchRef branch repo.current)] at tracked
      exact .inl tracked
  | revParse born => exact .inl tracked

/-- A command that writes one reference and no configuration. -/
theorem keeps_example {repo' : Repository} {written : String}
    (refs : ∀ ref, ref ≠ written → repo'.refs ref = repo.refs ref) :
    exampleView.Keeps branch written (some repo) (some repo') :=
  ⟨rfl, fun _ => trivial, fun ref _ other => refs ref other⟩

/-- The instance of the laws. -/
def exampleGit : Git (Option Repository) GitEnv where
  toGitView := exampleView
  hasGit_absent := rfl
  tree_absent := rfl
  commits_absent := Set.eq_empty_iff_forall_notMem.mpr fun commit member => by
    obtain ⟨repo, there, -⟩ := member
    cases there
  origin_of_no_git := by
    rintro (_ | repo) unborn
    · rfl
    · cases unborn
  ref_of_no_git := by
    rintro (_ | repo) unborn ref
    · rfl
    · cases unborn
  head_mem := by
    rintro (_ | repo) commit found
    · cases found
    · exact ⟨repo, rfl, .inr ⟨_, found⟩⟩
  tree_mem := by
    rintro (_ | repo) commit clean
    · cases clean
    · cases clean
      exact ⟨repo, rfl, .inl rfl⟩
  origin_clone := by
    rintro env branch repoURL repoDir (_ | repo) o unborn
    · refine GitEnv.exec_of_ran (P := fun last => exampleView.origin last = some o → _) nofun
        fun last output ran configured => ?_
      cases ran
      cases configured
      rfl
    · cases unborn
  origin_kept := origin_exec_example
  commits_exec := commits_exec_example
  tracking_exec := fun _ _ => tracking_exec_example
  revParse_dir := by
    intro env dir
    refine GitEnv.exec_of_ran (P := fun last => last = dir) rfl fun last output ran => ?_
    cases ran
    rfl
  clone_ok := by
    intro env branch repoURL repoDir dir dir' output commit unborn undashed plain remote executed
    cases GitEnv.ran_of_exec executed with
    | @clone _ _ _ head found =>
        cases remote.symm.trans found
        exact ⟨rfl, trivial, rfl, rfl, if_pos (.inl rfl), if_pos (.inl rfl), if_pos (.inr rfl), rfl⟩
  clone_named := by
    intro env branch repoURL repoDir dir dir' output unborn undashed executed
    cases GitEnv.ran_of_exec executed with
    | clone found => exact .inl fun missing => nomatch missing.symm.trans found
  clone_unambiguous := by
    intro env branch repoURL repoDir dir dir' output unborn undashed plain remote executed
    cases GitEnv.ran_of_exec executed with
    | clone found =>
        intro other member different
        refine if_neg fun named => ?_
        rcases named with rfl | rfl
        · exact branchRef_notMem_lookups branch member
        · exact different rfl
  fetch_ok := by
    intro env branch dir dir' output plain executed
    cases GitEnv.ran_of_exec executed with
    | @fetch _ repo commit found =>
        refine ⟨repo.origin, rfl, fun alone => ⟨commit, found, ?_⟩⟩
        exact (Repository.fetched_refs ..).trans (by simp only [true_and]; rfl)
  fetch_keeps := by
    intro env branch dir dir' output plain executed
    cases GitEnv.ran_of_exec executed with
    | @fetch _ repo commit found =>
        refine ⟨keeps_example fun ref other => ?_, ?_⟩
        · exact (Repository.fetched_refs ..).trans (if_neg fun written => other written.1)
        · exact congrArg Tree.clean (Repository.fetched_tree ..)
  checkout_keeps := by
    intro env branch dir dir' output plain executed
    cases GitEnv.ran_of_exec executed with
    | checkout found =>
        exact ⟨keeps_example fun ref other => Function.update_of_ne other .., fun _ => nofun⟩
  checkout_branch := by
    intro env branch dir dir' output plain tidy branchAt executed
    cases GitEnv.ran_of_exec executed with
    | @checkout _ repo commit found =>
        exact ⟨rfl, commit, found, Function.update_self .., .inr rfl⟩
  reset_ok := by
    intro env branch dir dir' output plain alone executed
    cases GitEnv.ran_of_exec executed with
    | @reset _ repo commit tracked => exact ⟨commit, tracked, Function.update_self .., fun _ => rfl⟩
  reset_keeps := by
    intro env branch dir dir' output plain current executed
    cases GitEnv.ran_of_exec executed with
    | @reset _ repo commit tracked =>
        cases current
        exact ⟨keeps_example fun ref other => Function.update_of_ne other .., rfl⟩
  revParse_ok := by
    intro env dir dir' output executed
    cases GitEnv.ran_of_exec executed with
    | revParse born => exact ⟨_, born, rfl⟩
  clone_able := by
    rintro env branch repoURL repoDir (_ | repo) commit able unborn empty undashed plain remote
    · refine ⟨some (.cloned repoURL branch commit), "", ?_⟩
      change env.exec _ _ = _
      rw [GitEnv.exec_of_able able]
      simp only [GitEnv.run, show env.remote repoURL (branchRef branch) = some commit from remote]
    · cases unborn
  fetch_able := by
    rintro env branch (_ | repo) o commit able there intact configured plain remote
    · cases there
    · cases configured
      refine ⟨some (repo.fetched branch commit), "", ?_⟩
      change env.exec _ _ = _
      rw [GitEnv.exec_of_able able]
      simp only [GitEnv.run, show env.remote repo.origin.url (branchRef branch) = some commit
        from remote]
  checkout_able := by
    rintro env branch (_ | repo) able there intact plain tidy branchAt
    · cases there
    · have at' : repo.refs (branchRef branch) ≠ none :=
        branchAt.resolve_right fun empty => nomatch empty.1
      obtain ⟨commit, found⟩ := Option.ne_none_iff_exists'.mp at'
      refine ⟨some (repo.checkedOut branch commit), "", ?_⟩
      change env.exec _ _ = _
      rw [GitEnv.exec_of_able able]
      simp only [GitEnv.run, found, Option.some_or]
  reset_able := by
    rintro env branch (_ | repo) able there intact plain alone tracked tidy noPath
    · cases there
    · obtain ⟨commit, found⟩ := Option.ne_none_iff_exists'.mp tracked
      refine ⟨some (repo.wasReset commit), "", ?_⟩
      change env.exec _ _ = _
      rw [GitEnv.exec_of_able able]
      simp only [GitEnv.run, show repo.refs (trackingRef branch) = some commit from found]
  revParse_able := by
    rintro env (_ | repo) commit able there intact head
    · cases there
    · refine ⟨some repo, commit.name ++ "\n", ?_⟩
      change env.exec _ _ = _
      rw [GitEnv.exec_of_able able]
      simp only [GitEnv.run, show repo.refs (branchRef repo.current) = some commit from head]

end Laws

end Wardn
