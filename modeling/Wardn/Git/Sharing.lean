import Wardn.Git.Checkouts
import Wardn.Git.Repository
import Wardn.Lib.Runs

/-!
# Directories that repositories share

The directory of a URL is named by a 32-bit hash of it, and `CloneOrPull` takes a directory with a
`.git` for a clone of the URL it is called with.  Over a set of URLs whose hashes differ every
checkout belongs to its URL (`Separate`); where two hashes are equal the second URL is answered
from the first one's repository.
-/

namespace Wardn

open Runs

section Sharing

variable {σ ε : Type*} (git : Git σ ε)

/-- In one of these calls the remote of the URL has handed out the commit. -/
def HandedOut (calls : List (Call ε)) (repoURL : String) (commit : Commit) : Prop :=
  ∃ call ∈ calls, call.repoURL = repoURL ∧ commit ∈ git.offers call.env repoURL

/-- A directory of this URL: no other remote is configured, and all its commits, the one checked
out among them, have been handed out by the remote of the URL. -/
structure OwnCheckout (calls : List (Call ε)) (repoURL : String) (dir : σ) : Prop where
  remote : git.FromRemotes {repoURL} dir
  commits : ∀ commit ∈ git.commits dir, HandedOut git calls repoURL commit

/-- The tree under the local path of a URL is a checkout of that URL. -/
def Host.OwnTrees (calls : List (Call ε)) (h : Host σ) : Prop :=
  ∀ repoURL, h.client.localPath repoURL ≠ "" →
    OwnCheckout git calls repoURL (h.disk (h.client.localPath repoURL))

/-- A revision that the call answers is a commit of its own remote, and the trees are their URLs'
own behind the call. -/
def Isolates (calls : List (Call ε)) (h : Host σ) (call : Call ε) : Prop :=
  (∀ revision, (h.call git call).2 = .ok revision →
    ∃ commit, HandedOut git (calls ++ [call]) call.repoURL commit ∧ revision = commit.name) ∧
  (h.step git call).OwnTrees git (calls ++ [call])

/-- The calls use a directory for each URL, and every revision and every tree is of its own URL. -/
def NeverShared (tempDir : String) (run : List (Call ε)) : Prop :=
  (∀ first ∈ run, ∀ second ∈ run, first.repoURL ≠ second.repoURL →
    (newClient tempDir).repoPath first.repoURL ≠ (newClient tempDir).repoPath second.repoURL) ∧
  ∀ before call after, run = before ++ call :: after →
    Isolates git before (before.foldl (Host.step git) (.started git tempDir)) call

/-- The hashes of the URLs called differ. -/
def HashesApart (run : List (Call ε)) : Prop :=
  ∀ first ∈ run, ∀ second ∈ run, first.repoURL ≠ second.repoURL →
    Fnv.sum32a (Fnv.bytes first.repoURL) ≠ Fnv.sum32a (Fnv.bytes second.repoURL)

/-! ## Checkouts of a set of URLs -/

/-- The directories of these URLs are different ones. -/
def Host.Apart (urls : Set String) (h : Host σ) : Prop :=
  ∀ u ∈ urls, ∀ v ∈ urls, u ≠ v → h.client.repoPath u ≠ h.client.repoPath v

/-- Every URL of the set has its own checkout, and no other URL has been called. -/
structure Separate (urls : Set String) (h : Host σ) : Prop where
  own : ∀ repoURL ∈ urls, git.FromRemotes {repoURL} (h.checkout repoURL)
  paths : ∀ repoURL, h.client.localPath repoURL ≠ "" →
    repoURL ∈ urls ∧ h.client.localPath repoURL = h.client.repoPath repoURL

variable {git} {urls : Set String} {h : Host σ} {call : Call ε} {calls : List (Call ε)}

theorem separate_started (urls : Set String) (tempDir : String) :
    Separate git urls (.started git tempDir) :=
  ⟨fun repoURL _ => Git.fromRemotes_absent {repoURL}, fun _ called => absurd rfl called⟩

/-- What holds of every checkout still does behind a call, if the call makes it hold of its own. -/
theorem Host.checkouts_step {P : String → σ → Prop} (apart : h.Apart urls)
    (member : call.repoURL ∈ urls) (all : ∀ repoURL ∈ urls, P repoURL (h.checkout repoURL))
    (own : P call.repoURL (h.pull git call).1) :
    ∀ repoURL ∈ urls, P repoURL ((h.step git call).checkout repoURL) := by
  intro repoURL other
  by_cases same : repoURL = call.repoURL
  · rw [same, Host.step_checkout_self]
    exact own
  · rw [Host.step_checkout_of_ne git h call (apart repoURL other call.repoURL member same)]
    exact all repoURL other

/-- A call leaves every URL with a checkout of its own. -/
theorem Separate.step (separate : Separate git urls h) (apart : h.Apart urls)
    (member : call.repoURL ∈ urls) : Separate git urls (h.step git call) := by
  refine ⟨Host.checkouts_step (P := fun u => git.FromRemotes {u}) apart member separate.own
    (Git.fromRemotes_pull (separate.own _ member) rfl), fun repoURL called => ?_⟩
  rw [Host.step_localPath] at called ⊢
  by_cases same : repoURL = call.repoURL
  · rw [if_pos same]
    exact ⟨same ▸ member, rfl⟩
  · rw [if_neg same] at called ⊢
    exact separate.paths repoURL called

/-- Every commit on the disk has been handed out by the remote of its directory's URL. -/
def Host.Handed (git : Git σ ε) (urls : Set String) (calls : List (Call ε)) (h : Host σ) : Prop :=
  ∀ repoURL ∈ urls, ∀ commit ∈ git.commits (h.checkout repoURL), HandedOut git calls repoURL commit

theorem HandedOut.later {repoURL : String} {commit : Commit}
    (handed : HandedOut git calls repoURL commit) (call : Call ε) :
    HandedOut git (calls ++ [call]) repoURL commit := by
  obtain ⟨earlier, member, url, offered⟩ := handed
  exact ⟨earlier, List.mem_append_left _ member, url, offered⟩

/-- What a call leaves in its own directory has been handed out by the end of the call. -/
theorem Separate.handed_pull (separate : Separate git urls h) (handed : h.Handed git urls calls)
    (member : call.repoURL ∈ urls) :
    ∀ commit ∈ git.commits (h.pull git call).1,
      HandedOut git (calls ++ [call]) call.repoURL commit := by
  have before : git.commits (h.checkout call.repoURL) ⊆
      { commit | HandedOut git (calls ++ [call]) call.repoURL commit } :=
    fun commit here => (handed _ member commit here).later call
  refine Git.commits_pull (separate.own _ member) rfl ?_ before
  rintro _ rfl commit offered
  exact ⟨call, List.mem_append_right _ List.mem_cons_self, rfl, offered⟩

theorem Separate.handed_step (separate : Separate git urls h) (apart : h.Apart urls)
    (handed : h.Handed git urls calls) (member : call.repoURL ∈ urls) :
    (h.step git call).Handed git urls (calls ++ [call]) :=
  Host.checkouts_step
    (P := fun u dir => ∀ commit ∈ git.commits dir, HandedOut git (calls ++ [call]) u commit) apart
    member (fun repoURL other commit here => (handed repoURL other commit here).later call)
    (separate.handed_pull handed member)

theorem Separate.ownTrees (separate : Separate git urls h) (handed : h.Handed git urls calls) :
    h.OwnTrees git calls := by
  intro repoURL called
  obtain ⟨member, path⟩ := separate.paths repoURL called
  rw [path]
  exact ⟨separate.own repoURL member, handed repoURL member⟩

/-- A revision that is answered is the name of a commit of the directory. -/
theorem exists_commit_of_answered {revision : String}
    (answered : (h.call git call).2 = .ok revision) :
    ∃ commit ∈ git.commits (h.pull git call).1, revision = commit.name := by
  have ok : h.pull git call = ((h.pull git call).1, .ok revision) := Prod.ext rfl answered
  obtain ⟨middle, output, -, read, rfl⟩ := pull_eq_ok_iff.mp ok
  obtain ⟨commit, head, rfl⟩ := git.revParse_ok read
  rw [Git.eq_of_revParse read]
  exact ⟨commit, git.head_mem head, trimSpace_output commit⟩

/-- A call of a separate host returns a revision of its own URL and disturbs no other. -/
theorem Separate.isolates (separate : Separate git urls h) (apart : h.Apart urls)
    (handed : h.Handed git urls calls) (member : call.repoURL ∈ urls) :
    Isolates git calls h call := by
  refine ⟨fun revision answered => ?_,
    (separate.step apart member).ownTrees (separate.handed_step apart handed member)⟩
  obtain ⟨commit, here, name⟩ := exists_commit_of_answered answered
  exact ⟨commit, separate.handed_pull handed member commit here, name⟩

/-- Behind calls for URLs with directories of their own, the checkouts are separate and all their
commits handed out. -/
theorem separate_run {tempDir : String} (apart : (Host.started git tempDir).Apart urls)
    (within : ∀ call ∈ calls, call.repoURL ∈ urls) :
    let h := calls.foldl (Host.step git) (.started git tempDir)
    h.Apart urls ∧ Separate git urls h ∧ h.Handed git urls calls := by
  induction calls using List.reverseRecOn with
  | nil =>
      refine ⟨apart, separate_started urls tempDir, fun repoURL _ commit member => ?_⟩
      change commit ∈ git.commits git.absent at member
      rw [git.commits_absent] at member
      exact member.elim
  | append_singleton calls call ih =>
      obtain ⟨earlier, last⟩ := List.forall_mem_append.mp within
      obtain ⟨apart, separate, handed⟩ := ih earlier
      have member : call.repoURL ∈ urls := last call List.mem_cons_self
      rw [List.foldl_append, List.foldl_cons, List.foldl_nil]
      refine ⟨fun u hu v hv different => ?_, separate.step apart member,
        separate.handed_step apart handed member⟩
      rw [Host.step_repoPath, Host.step_repoPath]
      exact apart u hu v hv different

variable (git)

/-- **Sharing.**  The calls of a run never share a checkout exactly when the hashes of their URLs
differ. -/
theorem never_shared_iff (tempDir : String) (run : List (Call ε)) :
    NeverShared git tempDir run ↔ HashesApart run := by
  have paths : (∀ first ∈ run, ∀ second ∈ run, first.repoURL ≠ second.repoURL →
      (newClient tempDir).repoPath first.repoURL ≠ (newClient tempDir).repoPath second.repoURL) ↔
      HashesApart run := by
    simp only [HashesApart, ne_eq, Client.repoPath_eq_iff]
  refine ⟨fun unshared => paths.mp unshared.1, fun hashes => ⟨paths.mpr hashes, ?_⟩⟩
  rintro before call after rfl
  let urls : Set String := { repoURL | ∃ other ∈ before ++ call :: after, other.repoURL = repoURL }
  have apart : (Host.started git tempDir).Apart urls := by
    rintro _ ⟨first, firstCalled, rfl⟩ _ ⟨second, secondCalled, rfl⟩ different
    exact paths.mpr hashes first firstCalled second secondCalled different
  obtain ⟨apart', separate, handed⟩ := separate_run apart fun other member =>
    ⟨other, List.mem_append_left _ member, rfl⟩
  exact separate.isolates apart' handed
    ⟨call, List.mem_append_right _ List.mem_cons_self, rfl⟩

end Sharing

/-- Two remotes, each with its own head. -/
def twoRemotes : GitEnv where
  remote := fun repoURL ref =>
    if ref = "refs/heads/main" then
      if repoURL = "https://git.io/events/auth-data" then some ⟨"5e1f", by decide⟩
      else if repoURL = "https://git.io/cache/docs-auth-c" then some ⟨"77ac", by decide⟩
      else none
    else none

/-- The second URL is answered with the head of the first one's remote. -/
theorem equal_hashes_shared :
    ¬ NeverShared exampleGit "/tmp"
      [⟨"https://git.io/events/auth-data", "main", twoRemotes⟩,
        ⟨"https://git.io/cache/docs-auth-c", "main", twoRemotes⟩] := by
  rintro ⟨-, isolated⟩
  obtain ⟨answers, -⟩ := isolated [⟨"https://git.io/events/auth-data", "main", twoRemotes⟩]
    ⟨"https://git.io/cache/docs-auth-c", "main", twoRemotes⟩ [] rfl
  have answered : (((Host.started exampleGit "/tmp").step exampleGit
      ⟨"https://git.io/events/auth-data", "main", twoRemotes⟩).call exampleGit
      ⟨"https://git.io/cache/docs-auth-c", "main", twoRemotes⟩).2 = .ok "5e1f" := by
    decide +kernel
  obtain ⟨commit, ⟨call, member, url, ref, offered⟩, name⟩ := answers "5e1f" answered
  have own : commit = ⟨"77ac", by decide⟩ := by
    rcases List.mem_pair.mp member with rfl | rfl
    · exact absurd url (by decide)
    · obtain ⟨-, offered⟩ := Option.ite_none_right_eq_some.mp offered
      exact (Option.some.inj offered).symm
  rw [own] at name
  exact absurd name (by decide)

end Wardn
