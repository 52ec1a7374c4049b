import Wardn.Git.Client

/-!
# Git options and the strings of the specification

`CloneOrPull` places the branch and the URL of a specification among the arguments of git.  Git
reads arguments from left to right (`readFrom`): before a separator `--`, one that begins with a
dash is an option, and some options take the next argument as their value.  `never_options_iff`
says for which strings every argument is read as it is meant.
-/

namespace Wardn

/-- What git takes an argument for. -/
inductive Role
  | subcommand
  | option
  | value
  | separator
  | operand
  deriving DecidableEq

/-- The options of git that matter here; for all others, whether they take a value is left open. -/
structure GitOptions where
  takesValue : String → String → Bool
  clone_branch : takesValue "clone" "--branch" = true
  clone_singleBranch : takesValue "clone" "--single-branch" = false
  clone_depth : takesValue "clone" "--depth" = true
  reset_hard : takesValue "reset" "--hard" = false

/-- The argument begins with a dash. -/
def Dashed (arg : String) : Prop := arg.toList.head? = some '-'

instance (arg : String) : Decidable (Dashed arg) := inferInstanceAs (Decidable (_ = _))

/-- The roles of the arguments; `pending` says that the option before them takes a value. -/
def readFrom (takesValue : String → Bool) : Bool → List String → List Role
  | _, [] => []
  | true, _ :: args => .value :: readFrom takesValue false args
  | false, arg :: args =>
    if arg = "--" then .separator :: args.map fun _ => .operand
    else if Dashed arg then .option :: readFrom takesValue (takesValue arg) args
    else .operand :: readFrom takesValue false args

/-- The role that git gives to each argument of a command line. -/
def GitOptions.read (o : GitOptions) : List String → List Role
  | [] => []
  | subcommand :: args => .subcommand :: readFrom (o.takesValue subcommand) false args

/-- An argument with its origin: the client's own, or from the specification and meant as this. -/
inductive Argument
  | own (text : String)
  | given (meant : Role) (text : String)

/-- The argument as it stands on the command line. -/
def Argument.text : Argument → String
  | own text => text
  | given _ text => text

/-- The arguments of a command with their origins. -/
def GitCommand.arguments : GitCommand → List Argument
  | .clone branch repoURL repoDir =>
    [.own "clone", .own "--branch", .given .value branch, .own "--single-branch", .own "--depth",
      .own "1", .given .operand repoURL, .own repoDir]
  | .fetch branch =>
    [.own "fetch", .own "origin", .given .operand branch, .own "--depth", .own "1"]
  | .checkout branch => [.own "checkout", .given .operand branch]
  | .reset branch => [.own "reset", .own "--hard", .given .operand ("origin/" ++ branch)]
  | .revParse => [.own "rev-parse", .own "HEAD"]

theorem map_text_arguments (command : GitCommand) :
    command.arguments.map Argument.text = command.args := by
  cases command <;> rfl

/-- Every string of the specification is read as it is meant at its position. -/
def GitCommand.ReadAsMeant (o : GitOptions) (command : GitCommand) : Prop :=
  ∀ (i : ℕ) (meant : Role) (text : String), command.arguments[i]? = some (.given meant text) →
    (o.read command.args)[i]? = some meant

/-! ## The commands of a call -/

section Recording

variable {σ : Type*} (git : GitCommand → σ → σ × Except String String)

/-- Git with a list of the commands it was given. -/
def recording (command : GitCommand) (dir : σ × List GitCommand) :
    (σ × List GitCommand) × Except String String :=
  let (after, result) := git command dir.1
  ((after, dir.2 ++ [command]), result)

/-- The commands that a call of `CloneOrPull` issues. -/
def Client.issued (c : Client) (hasGit : σ → Bool) (disk : String → σ)
    (repoURL branch : String) : List GitCommand :=
  let after := (c.cloneOrPull (recording git) (fun dir => hasGit dir.1)
    (fun path => (disk path, [])) repoURL branch).2.1
  (after (c.repoPath repoURL)).2

/-- Recording changes nothing, and the record is the front of the commands. -/
theorem runGit_recording (commands : List (GitCommand × String)) (dir : σ) (log : List GitCommand) :
    ∃ n, (commands ≠ [] → 0 < n) ∧
      runGit (recording git) commands (dir, log) =
        (((runGit git commands dir).1, log ++ (commands.take n).map Prod.fst),
          (runGit git commands dir).2) := by
  induction commands generalizing dir log with
  | nil => exact ⟨0, fun some => absurd rfl some, by simp [runGit]⟩
  | cons command commands ih =>
      obtain ⟨command, heading⟩ := command
      rw [runGit, runGit, recording]
      obtain ⟨after, err | output⟩ := git command dir
      · exact ⟨1, fun _ => Nat.one_pos, by simp⟩
      · obtain ⟨n, -, rest⟩ := ih after (log ++ [command])
        refine ⟨n + 1, fun _ => Nat.succ_pos n, ?_⟩
        simp only [rest, List.take_succ_cons, List.map_cons, List.append_assoc,
          List.singleton_append]

theorem pullCommands_ne_nil (hasGit : Bool) (repoURL branch repoDir : String) :
    pullCommands hasGit repoURL branch repoDir ≠ [] := by
  unfold pullCommands
  split <;> simp

/-- A call issues its commands in order, from the first on, and last the reading of the revision. -/
theorem pull_recording (hasGit : σ → Bool) (repoURL branch repoDir : String) (dir : σ) :
    ∃ n last, 0 < n ∧ (∀ command ∈ last, command = GitCommand.revParse) ∧
      pull (recording git) (fun dir => hasGit dir.1) repoURL branch repoDir (dir, []) =
        (((pull git hasGit repoURL branch repoDir dir).1,
          ((pullCommands (hasGit dir) repoURL branch repoDir).take n).map Prod.fst ++ last),
          (pull git hasGit repoURL branch repoDir dir).2) := by
  obtain ⟨n, some, run⟩ :=
    runGit_recording git (pullCommands (hasGit dir) repoURL branch repoDir) dir []
  have positive := some (pullCommands_ne_nil _ _ _ _)
  rw [List.nil_append] at run
  unfold pull
  rw [run]
  obtain ⟨middle, err | err⟩ := runGit git (pullCommands (hasGit dir) repoURL branch repoDir) dir
  · refine ⟨n, [.revParse], positive, fun command => List.mem_singleton.mp, ?_⟩
    dsimp only [recording]
    obtain ⟨after, err | output⟩ := git .revParse middle
    · rfl
    · rfl
  · exact ⟨n, [], positive, fun command member => absurd member List.not_mem_nil, by simp⟩

/-- The commands issued are the first ones of the list, at least one, and then perhaps `rev-parse`.
-/
theorem exists_issued_eq (c : Client) (hasGit : σ → Bool) (disk : String → σ)
    (repoURL branch : String) :
    ∃ n last, 0 < n ∧ (∀ command ∈ last, command = GitCommand.revParse) ∧
      c.issued git hasGit disk repoURL branch =
        ((pullCommands (hasGit (disk (c.repoPath repoURL))) repoURL branch
          (c.repoPath repoURL)).take n).map Prod.fst ++ last := by
  obtain ⟨n, last, positive, reads, run⟩ :=
    pull_recording git hasGit repoURL branch (c.repoPath repoURL)
      (disk (c.repoPath repoURL))
  refine ⟨n, last, positive, reads, ?_⟩
  rw [Client.issued, Client.cloneOrPull]
  dsimp only
  rw [run, Function.update_self]

end Recording

/-! ## How the arguments are read -/

variable {o : GitOptions} {branch repoURL repoDir : String}

section Reading

variable {takesValue : String → Bool} {arg : String} {args : List String}

theorem readFrom_value :
    readFrom takesValue true (arg :: args) = .value :: readFrom takesValue false args := rfl

theorem readFrom_of_option (option : arg ≠ "--" ∧ Dashed arg) :
    readFrom takesValue false (arg :: args) =
      .option :: readFrom takesValue (takesValue arg) args := by
  rw [readFrom, if_neg option.1, if_pos option.2]

theorem readFrom_of_plain (plain : ¬ Dashed arg) :
    readFrom takesValue false (arg :: args) = .operand :: readFrom takesValue false args := by
  have separator : arg ≠ "--" := fun same => plain (same ▸ by decide)
  rw [readFrom, if_neg separator, if_neg plain]

/-- Where an operand is meant, there is one unless the argument has a dash. -/
theorem head_readFrom_iff :
    (readFrom takesValue false (arg :: args))[0]? = some .operand ↔ ¬ Dashed arg := by
  rw [readFrom]
  split_ifs with separator dashed
  · subst separator
    exact iff_of_false (by simp) (not_not_intro (by decide))
  · exact iff_of_false (by simp) (not_not_intro dashed)
  · exact iff_of_true rfl dashed

end Reading

variable {o : GitOptions} {branch repoURL repoDir : String}

/-- The branch is the value of `--branch`; the URL is an operand. -/
theorem readAsMeant_clone_iff :
    (GitCommand.clone branch repoURL repoDir).ReadAsMeant o ↔ ¬ Dashed repoURL := by
  have read : o.read (GitCommand.clone branch repoURL repoDir).args =
      [.subcommand, .option, .value, .option, .option, .value] ++
        readFrom (o.takesValue "clone") false [repoURL, repoDir] := by
    rw [GitCommand.args, GitOptions.read, readFrom_of_option (by decide), o.clone_branch,
      readFrom_value, readFrom_of_option (by decide), o.clone_singleBranch,
      readFrom_of_option (by decide), o.clone_depth, readFrom_value]
    rfl
  rw [GitCommand.ReadAsMeant, read, ← head_readFrom_iff]
  refine ⟨fun meant => meant 6 .operand repoURL rfl, fun operand i meant text here => ?_⟩
  rcases i with _ | _ | _ | _ | _ | _ | _ | _ | i
  all_goals try cases here
  · rfl
  · exact operand

/-- `fetch` is read as it is meant exactly when the branch does not begin with a dash. -/
theorem readAsMeant_fetch_iff : (GitCommand.fetch branch).ReadAsMeant o ↔ ¬ Dashed branch := by
  have read : o.read (GitCommand.fetch branch).args =
      [.subcommand, .operand] ++
        readFrom (o.takesValue "fetch") false [branch, "--depth", "1"] := by
    rw [GitCommand.args, GitOptions.read, readFrom_of_plain (by decide)]
    rfl
  rw [GitCommand.ReadAsMeant, read, ← head_readFrom_iff]
  refine ⟨fun meant => meant 2 .operand branch rfl, fun operand i meant text here => ?_⟩
  rcases i with _ | _ | _ | _ | _ | i
  all_goals try cases here
  exact operand

/-- `checkout` is read as it is meant exactly when the branch does not begin with a dash. -/
theorem readAsMeant_checkout_iff :
    (GitCommand.checkout branch).ReadAsMeant o ↔ ¬ Dashed branch := by
  rw [GitCommand.ReadAsMeant, GitCommand.args, GitOptions.read, ← head_readFrom_iff]
  refine ⟨fun meant => meant 1 .operand branch rfl, fun operand i meant text here => ?_⟩
  rcases i with _ | _ | i
  all_goals try cases here
  exact operand

/-- Behind `origin/`, no branch has a dash. -/
theorem readAsMeant_reset : (GitCommand.reset branch).ReadAsMeant o := by
  have plain : ¬ Dashed ("origin/" ++ branch) := by simp [Dashed]
  have read : o.read (GitCommand.reset branch).args = [.subcommand, .option, .operand] := by
    rw [GitCommand.args, GitOptions.read, readFrom_of_option (by decide), o.reset_hard,
      readFrom_of_plain plain]
    rfl
  intro i meant text here
  rw [read]
  rcases i with _ | _ | _ | i
  all_goals try cases here
  rfl

/-- `rev-parse` is read as it is meant. -/
theorem readAsMeant_revParse : GitCommand.revParse.ReadAsMeant o := by
  intro i meant text here
  rcases i with _ | _ | i
  all_goals cases here

/-! ## A whole call -/

/-- **The strings of a specification are never read as further options** exactly when the one that
stands where an operand is meant does not begin with a dash: the URL where the repository is cloned,
the branch where it is pulled. -/
theorem never_options_iff {σ : Type*} (o : GitOptions) (c : Client)
    (git : GitCommand → σ → σ × Except String String) (hasGit : σ → Bool) (disk : String → σ)
    (repoURL branch : String) :
    (∀ command ∈ c.issued git hasGit disk repoURL branch, command.ReadAsMeant o) ↔
      if hasGit (disk (c.repoPath repoURL)) then ¬ Dashed branch else ¬ Dashed repoURL := by
  obtain ⟨n, last, positive, reads, issued⟩ :=
    exists_issued_eq git c hasGit disk repoURL branch
  obtain ⟨n, rfl⟩ := Nat.exists_eq_succ_of_ne_zero (Nat.ne_of_gt positive)
  have later : ∀ command ∈ last, command.ReadAsMeant o := by
    intro command member
    rw [reads command member]
    exact readAsMeant_revParse
  rw [issued, List.forall_mem_append, and_iff_left later]
  unfold pullCommands
  cases cloned : hasGit (disk (c.repoPath repoURL)) with
  | false =>
      simp only [Bool.false_eq_true, not_false_eq_true, if_true, if_false, List.take_succ_cons,
        List.take_nil, List.map_cons, List.map_nil, List.forall_mem_singleton]
      exact readAsMeant_clone_iff
  | true =>
      simp only [not_true, if_false, if_true, List.take_succ_cons, List.map_cons,
        List.forall_mem_cons, readAsMeant_fetch_iff]
      refine and_iff_left_of_imp fun plain command member => ?_
      obtain ⟨entry, front, rfl⟩ := List.mem_map.mp member
      have inside := List.mem_of_mem_take front
      simp only [List.mem_cons, List.not_mem_nil, or_false] at inside
      rcases inside with rfl | rfl
      · exact readAsMeant_checkout_iff.mpr plain
      · exact readAsMeant_reset

/-- Options as git documents them. -/
def GitOptions.documented : GitOptions where
  takesValue subcommand arg :=
    (subcommand, arg) ∈ [("clone", "--branch"), ("clone", "--depth"), ("fetch", "--depth"),
      ("clone", "--upload-pack"), ("fetch", "--upload-pack"), ("clone", "--config")]
  clone_branch := by decide
  clone_singleBranch := by decide
  clone_depth := by decide
  reset_hard := by decide

/-- A branch that names a program for `fetch` to run, once the repository is cloned; and a URL that
does so for `clone`. -/
theorem branch_read_as_option :
    let succeeds : GitCommand → Bool → Bool × Except String String := fun _ _ => (true, .ok "")
    let call := fun (cloned : Bool) => (newClient "/tmp").issued succeeds id fun _ => cloned
    (∃ command ∈ call true "https://git.example/app.git" "--upload-pack=touch /tmp/run",
      ¬ command.ReadAsMeant .documented) ∧
    ∃ command ∈ call false "--upload-pack=touch /tmp/run" "main",
      ¬ command.ReadAsMeant .documented := by
  intro succeeds call
  refine ⟨?_, ?_⟩
  · refine ⟨.fetch "--upload-pack=touch /tmp/run", ?_, fun meant => ?_⟩
    · simp [call, succeeds, Client.issued, Client.cloneOrPull, pull, pullCommands, runGit,
        recording]
    · exact readAsMeant_fetch_iff.mp meant (by decide)
  · refine ⟨.clone "main" "--upload-pack=touch /tmp/run"
      ((newClient "/tmp").repoPath "--upload-pack=touch /tmp/run"), ?_, fun meant => ?_⟩
    · simp [call, succeeds, Client.issued, Client.cloneOrPull, pull, pullCommands, runGit,
        recording]
    · exact readAsMeant_clone_iff.mp meant (by decide)

end Wardn
