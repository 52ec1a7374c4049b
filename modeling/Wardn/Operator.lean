import Wardn.Attempts
import Wardn.Git.Sharing
import Wardn.Git.Tracking
import Wardn.Interleaving

/-!
# The operator

The client, the parser and the reconciler together, for any number of applications.  One worker
takes one request at a time: `SetupWithManager` leaves the number of concurrent reconciles at its
default.  What a reconcile applies is then the parse of what its own `CloneOrPull` has left on the
disk, and no other reconcile moves that in between.

An `Event` is a reconcile, a reconcile in which the process stops, or an edit of a spec.  When the
process stops the map of the client is lost, and the disk may be; what a git command leaves that is
stopped with it is whatever a command leaves that fails.
-/

namespace Wardn

open Runs

/-- What a reconcile meets outside the operator. -/
structure Surroundings (ε : Type*) where
  get : Option String := none
  git : ε
  applyResource : Nat → Option String := fun _ => none
  pruneResources : Option String := none
  statusUpdate : Nat → Option String := fun _ => none
  unanswered : Option String := none
  newRequest : String → Option String := fun _ => none
  now : Nat → Time

/-- The process of the operator with its disk, and the objects on the API server. -/
structure Operator (σ ι : Type*) where
  host : Host σ
  worlds : ι → World

/-- What happens to an operator and its applications. -/
inductive Event (ι ε : Type*)
  | reconcile (i : ι) (met : Surroundings ε)
  /-- The process stops after the first `stop` calls of the reconcile. -/
  | crash (i : ι) (met : Surroundings ε) (stop : Nat) (wiped : Bool)
  | edit (i : ι) (spec : GitApplicationSpec)

section Events

variable {σ ε ι : Type*}

/-- The application that the event is about. -/
def Event.subject : Event ι ε → ι
  | .reconcile i _ => i
  | .crash i _ _ _ => i
  | .edit i _ => i

/-- The application that is reconciled, and what the reconcile meets. -/
def Event.Reconciles (i : ι) (met : Surroundings ε) : Event ι ε → Prop
  | .reconcile j met' => j = i ∧ met' = met
  | .crash j met' _ _ => j = i ∧ met' = met
  | .edit _ _ => False

/-- A spec that is stored from the event on. -/
def Event.Stores (spec : GitApplicationSpec) : Event ι ε → Prop
  | .edit _ spec' => spec' = spec
  | _ => False

/-- `CloneOrPull` of step 1. -/
def Surroundings.call (met : Surroundings ε) (spec : GitApplicationSpec) : Call ε :=
  ⟨spec.repoURL, spec.branch, met.git⟩

/-- What the directories of the client hold once a reconcile is over. -/
def Surroundings.leaves (git : Git σ ε) (met : Surroundings ε) (h : Host σ)
    (spec : GitApplicationSpec) : Host σ :=
  if met.get = none then h.step git (met.call spec) else h

/-- A new process over the disk of the last one. -/
def Host.restarted (git : Git σ ε) (h : Host σ) (wiped : Bool) : Host σ where
  client := { h.client with repoPaths := fun _ => "" }
  disk := if wiped then fun _ => git.absent else h.disk

/-- What holds of every checkout holds behind a stop, if it holds of a directory that is gone. -/
theorem Host.checkouts_restarted {git : Git σ ε} {h : Host σ} {urls : Set String}
    {P : String → σ → Prop} (all : ∀ repoURL ∈ urls, P repoURL (h.checkout repoURL))
    (absent : ∀ repoURL ∈ urls, P repoURL git.absent) (wiped : Bool) :
    ∀ repoURL ∈ urls, P repoURL ((h.restarted git wiped).checkout repoURL) := by
  intro repoURL member
  cases wiped with
  | true => exact absent repoURL member
  | false => exact all repoURL member

end Events

section Steps

variable {σ ε ι : Type*} [DecidableEq ι] {git : Git σ ε} {tempDir : String}
  (fs : FileSystem git tempDir)

/-- The answers of a reconcile: those of the client, and of a parse of what it leaves. -/
def Surroundings.outcomes (met : Surroundings ε) (h : Host σ) (spec : GitApplicationSpec) :
    Outcomes where
  get := met.get
  cloneOrPull := (h.call git (met.call spec)).2
  parse :=
    let h := h.step git (met.call spec)
    parse (fs.found met.git h.disk).lstat (h.client.localPath spec.repoURL) spec.path
      spec.manifestType
  applyResource := met.applyResource
  pruneResources := met.pruneResources
  statusUpdate := met.statusUpdate
  unanswered := met.unanswered
  newRequest := met.newRequest
  now := met.now

/-- What the reconcile of an application meets: its `CloneOrPull` and its `Parse` are those of the
shared host. -/
def Operator.outcomes (o : Operator σ ι) (i : ι) (met : Surroundings ε) : Outcomes :=
  met.outcomes fs o.host (o.worlds i).app.spec

/-- What the directory of an application holds. -/
def Operator.checkout (o : Operator σ ι) (i : ι) : σ :=
  o.host.checkout (o.worlds i).app.spec.repoURL

/-- An action on one of the objects. -/
def Operator.act (o : Operator σ ι) (i : ι) (a : Action) : ι → World :=
  Function.update o.worlds i ((o.worlds i).step a)

/-- The state after one event. -/
def Operator.step (o : Operator σ ι) : Event ι ε → Operator σ ι
  | .reconcile i met =>
    ⟨met.leaves git o.host (o.worlds i).app.spec, o.act i (.reconcile (o.outcomes fs i met))⟩
  | .crash i met stop wiped =>
    ⟨(met.leaves git o.host (o.worlds i).app.spec).restarted git wiped,
      o.act i (.crash (o.outcomes fs i met) stop)⟩
  | .edit i spec => ⟨o.host, o.act i (.edit spec)⟩

variable (git tempDir) in
/-- A new process over an empty disk, with freshly created objects. -/
def Operator.started (name : ι → String) (spec : ι → GitApplicationSpec) : Operator σ ι :=
  ⟨.started git tempDir, fun i => .created (name i) (spec i)⟩

/-- Nothing misleads a reconcile of this event. -/
def Operator.StraightAt (o : Operator σ ι) (event : Event ι ε) : Prop :=
  ∀ i met, event.Reconciles i met → fs.Straight met.git (o.worlds i).app.spec (o.checkout i)

/-- The event fetches a commit for the application, the head of the branch its spec names, and
the files of the commit parse to these resources. -/
def Operator.Fetches (o : Operator σ ι) (event : Event ι ε) (i : ι) (revision : String)
    (resources : List Resource) (spec : GitApplicationSpec) : Prop :=
  spec = (o.worlds i).app.spec ∧ ∃ met commit, event.Reconciles i met ∧
    git.remote met.git spec.repoURL (branchRef spec.branch) = some commit ∧
      revision = commit.name ∧
        parseOf fs ((newClient tempDir).repoPath spec.repoURL) commit spec = .ok resources

/-- The specs of a run: those it starts with and those that users store. -/
def specsOf (spec : ι → GitApplicationSpec) (run : List (Event ι ε)) : Set GitApplicationSpec :=
  { stored | (∃ i, spec i = stored) ∨ ∃ event ∈ run, event.Stores stored }

/-- The URLs of these specs. -/
def urlsOf (specs : Set GitApplicationSpec) : Set String := GitApplicationSpec.repoURL '' specs

/-- The hashes of these URLs differ. -/
def URLsApart (urls : Set String) : Prop :=
  ∀ u ∈ urls, ∀ v ∈ urls, u ≠ v → Fnv.sum32a (Fnv.bytes u) ≠ Fnv.sum32a (Fnv.bytes v)

/-! ## The checkouts of a run -/

variable (git tempDir) in
/-- The checkouts are separate and where the client puts them, and no remote-tracking reference is
uncovered. -/
structure Host.Sound (urls : Set String) (h : Host σ) : Prop extends Separate git urls h where
  base : h.client.basePath = (newClient tempDir).basePath
  tracks : ∀ repoURL ∈ urls, git.TracksCovered (h.checkout repoURL)

variable {fs} {urls : Set String} {h : Host σ} {spec : GitApplicationSpec} {met : Surroundings ε}

variable (git tempDir) in
theorem Host.sound_started (urls : Set String) :
    (Host.started git tempDir).Sound git tempDir urls :=
  { separate_started urls tempDir with
    base := rfl
    tracks := fun _ _ => Git.tracksCovered_absent }

theorem Host.Sound.repoPath (sound : h.Sound git tempDir urls) (repoURL : String) :
    h.client.repoPath repoURL = (newClient tempDir).repoPath repoURL := by
  rw [Client.repoPath, Client.repoPath, sound.base]

theorem Host.Sound.apart (_ : h.Sound git tempDir urls) (apart : URLsApart urls) :
    h.Apart urls :=
  fun u hu v hv different same => apart u hu v hv different ((h.client.repoPath_eq_iff u v).mp same)

theorem Host.Sound.leaves (sound : h.Sound git tempDir urls) (apart : URLsApart urls)
    (member : spec.repoURL ∈ urls) (plain : git.Plain spec.branch) :
    (met.leaves git h spec).Sound git tempDir urls := by
  unfold Surroundings.leaves
  split
  · refine { sound.toSeparate.step (sound.apart apart) member with base := ?_, tracks := ?_ }
    · exact sound.base
    · exact Host.checkouts_step (P := fun _ => git.TracksCovered) (sound.apart apart) member
        sound.tracks (Git.tracksCovered_pull plain (sound.tracks _ member))
  · exact sound

theorem Host.Sound.restarted (sound : h.Sound git tempDir urls) (wiped : Bool) :
    (h.restarted git wiped).Sound git tempDir urls where
  base := sound.base
  tracks := Host.checkouts_restarted sound.tracks (fun _ _ => Git.tracksCovered_absent) wiped
  own := Host.checkouts_restarted sound.own (fun _ _ => Git.fromRemotes_absent _) wiped
  paths := fun _ called => absurd rfl called

/-- A parse of a clean checkout is the parse of its commit. -/
theorem Host.Sound.parse_eq (sound : h.Sound git tempDir urls) {dir : σ} {commit : Commit}
    {result : Except String String} (pulled : h.pull git (met.call spec) = (dir, result))
    (clean : git.tree dir = .clean commit) (enclosed : fs.Enclosed commit)
    (confined : Confined ((newClient tempDir).repoPath spec.repoURL) spec) :
    (met.outcomes fs h spec).parse =
      parseOf fs ((newClient tempDir).repoPath spec.repoURL) commit spec := by
  have path : (h.step git (met.call spec)).client.localPath spec.repoURL =
      (newClient tempDir).repoPath spec.repoURL := by
    rw [Host.step_localPath, ← sound.repoPath]
    exact if_pos rfl
  have here : (h.step git (met.call spec)).disk ((newClient tempDir).repoPath spec.repoURL) =
      dir := by
    rw [Host.step_disk, pulled, ← sound.repoPath]
    exact Function.update_self ..
  unfold Surroundings.outcomes
  simp only [path]
  refine fs.parse_eq ?_ enclosed confined
  rw [here]
  exact clean

/-- A revision the client answers is the head of the branch, and what is parsed is its tree. -/
theorem Host.Sound.outcomes (sound : h.Sound git tempDir urls) (member : spec.repoURL ∈ urls)
    (straight : fs.Straight met.git spec (h.checkout spec.repoURL)) {revision : String}
    (answered : (met.outcomes fs h spec).cloneOrPull = .ok revision) :
    ∃ commit, git.remote met.git spec.repoURL (branchRef spec.branch) = some commit ∧
      revision = commit.name ∧ (met.outcomes fs h spec).parse =
        parseOf fs ((newClient tempDir).repoPath spec.repoURL) commit spec := by
  have ok : h.pull git (met.call spec) = ((h.pull git (met.call spec)).1, .ok revision) :=
    Prod.ext rfl answered
  obtain ⟨commit, head, name, clean, -⟩ := Git.pulled_of_ok straight.unmistaken
    (sound.own _ member) (sound.tracks _ member) ok
  exact ⟨commit, head, name,
    sound.parse_eq ok clean (straight.enclosed commit head) straight.confined⟩

/-! ## Runs -/

variable (git tempDir) in
/-- The host is sound, and every stored spec is one of these. -/
structure Operator.Sound (specs : Set GitApplicationSpec) (o : Operator σ ι) : Prop where
  host : o.host.Sound git tempDir (urlsOf specs)
  stored : ∀ i, (o.worlds i).app.spec ∈ specs

variable {specs : Set GitApplicationSpec} {o : Operator σ ι} {event : Event ι ε} {i : ι}

omit [DecidableEq ι] in
theorem Operator.Sound.member (sound : o.Sound git tempDir specs) (i : ι) :
    (o.worlds i).app.spec.repoURL ∈ urlsOf specs :=
  Set.mem_image_of_mem _ (sound.stored i)

theorem World.step_spec (w : World) (a : Action) :
    (w.step a).app.spec = w.app.spec ∨ ∃ spec, a = .edit spec ∧ (w.step a).app.spec = spec := by
  have kept : ∀ effects : List Effect, (effects.foldl World.exec w).app.spec = w.app.spec :=
    fun effects => foldl_invariant (I := fun w' => w'.app.spec = w.app.spec)
      (fun w' e same => (World.exec_spec w' e).trans same) rfl effects
  cases a with
  | reconcile env => exact .inl (kept _)
  | crash env stop => exact .inl (kept _)
  | edit spec => exact .inr ⟨spec, rfl, rfl⟩

/-- An event leaves the worlds of the other applications alone. -/
theorem Operator.step_worlds_of_ne (o : Operator σ ι) {j : ι} (other : j ≠ event.subject) :
    (o.step fs event).worlds j = o.worlds j := by
  cases event with
  | reconcile i met => exact Function.update_of_ne other ..
  | crash i met stop wiped => exact Function.update_of_ne other ..
  | edit i spec => exact Function.update_of_ne other ..

/-- What holds of every stored spec, and of the specs that users store, is kept. -/
theorem Operator.step_specs {Q : ι → GitApplicationSpec → Prop}
    (all : ∀ i, Q i (o.worlds i).app.spec)
    (stored : ∀ spec, event.Stores spec → Q event.subject spec) (j : ι) :
    Q j ((o.step fs event).worlds j).app.spec := by
  by_cases other : j ≠ event.subject
  · rw [o.step_worlds_of_ne other]
    exact all j
  · obtain rfl := not_not.mp other
    have acted : ∀ i a, (∀ spec, a = .edit spec → Q i spec) → Q i (o.act i a i).app.spec := by
      intro i a edits
      unfold Operator.act
      rw [Function.update_self]
      rcases (o.worlds i).step_spec a with kept | ⟨spec, edited, here⟩
      · rw [kept]
        exact all i
      · rw [here]
        exact edits spec edited
    cases event with
    | reconcile i met => exact acted i _ nofun
    | crash i met stop wiped => exact acted i _ nofun
    | edit i spec =>
        refine acted i _ fun spec' edited => ?_
        cases edited
        exact stored spec rfl

/-- The branch of a spec that is reconciled is plain. -/
def Operator.PlainAt (git : Git σ ε) (o : Operator σ ι) (event : Event ι ε) : Prop :=
  ∀ i met, event.Reconciles i met → git.Plain (o.worlds i).app.spec.branch

omit [DecidableEq ι] in
theorem Operator.StraightAt.plainAt (straight : o.StraightAt fs event) : o.PlainAt git event :=
  fun i met reconciles => (straight i met reconciles).unmistaken.plain

theorem Operator.Sound.step (sound : o.Sound git tempDir specs) (apart : URLsApart (urlsOf specs))
    (plain : o.PlainAt git event) (stored : ∀ spec, event.Stores spec → spec ∈ specs) :
    (o.step fs event).Sound git tempDir specs := by
  refine ⟨?_, Operator.step_specs (Q := fun _ spec => spec ∈ specs) sound.stored stored⟩
  cases event with
  | reconcile i met => exact sound.host.leaves apart (sound.member i) (plain i met ⟨rfl, rfl⟩)
  | crash i met stop wiped =>
      exact (sound.host.leaves apart (sound.member i) (plain i met ⟨rfl, rfl⟩)).restarted wiped
  | edit i spec => exact sound.host

omit [DecidableEq ι] in
variable (git tempDir) in
theorem Operator.sound_started (name : ι → String) {spec : ι → GitApplicationSpec}
    (within : ∀ i, spec i ∈ specs) :
    (Operator.started git tempDir name spec).Sound git tempDir specs :=
  ⟨Host.sound_started git tempDir _, within⟩

theorem Operator.sound_run (name : ι → String) (spec : ι → GitApplicationSpec)
    {run : List (Event ι ε)} (within : specsOf spec run ⊆ specs) (apart : URLsApart (urlsOf specs))
    (plain : Along (Operator.step fs) (Operator.PlainAt git) (.started git tempDir name spec) run) :
    (run.foldl (Operator.step fs) (.started git tempDir name spec)).Sound git tempDir specs := by
  have stored : Along (Operator.step fs) (fun _ event => ∀ spec', event.Stores spec' →
      spec' ∈ specs) (.started git tempDir name spec) run :=
    along_of_forall_mem (fun event member _ spec' stores =>
      within (.inr ⟨event, member, stores⟩)) _
  refine (plain.and stored).invariant (I := Operator.Sound git tempDir specs)
    (fun o event sound step => sound.step apart step.1 step.2) ?_
  exact Operator.sound_started git tempDir name fun i => within (.inl ⟨i, rfl⟩)

/-! ## Where what is applied comes from -/

theorem Operator.step_worlds (o : Operator σ ι) (fs : FileSystem git tempDir) (event : Event ι ε)
    (i : ι) : (o.step fs event).worlds i = o.worlds i ∨
      ∃ a, (o.step fs event).worlds i = (o.worlds i).step a ∧
        ∀ env, a.Meets env → ∃ met, event.Reconciles i met ∧ env = o.outcomes fs i met := by
  have acted : ∀ j a, o.act j a i = o.worlds i ∨ j = i ∧ o.act j a i = (o.worlds i).step a := by
    intro j a
    unfold Operator.act
    by_cases same : i = j
    · subst same
      exact .inr ⟨rfl, Function.update_self ..⟩
    · exact .inl (Function.update_of_ne same ..)
  cases event with
  | reconcile j met =>
      refine (acted j _).imp_right fun ⟨same, here⟩ => ⟨_, here, fun env meets => ?_⟩
      subst same
      exact ⟨met, ⟨rfl, rfl⟩, meets.symm⟩
  | crash j met stop wiped =>
      refine (acted j _).imp_right fun ⟨same, here⟩ => ⟨_, here, fun env meets => ?_⟩
      subst same
      exact ⟨met, ⟨rfl, rfl⟩, meets.symm⟩
  | edit j spec =>
      exact (acted j _).imp_right fun ⟨_, here⟩ => ⟨_, here, fun env meets => meets.elim⟩

/-- **One event.**  An attempt it adds is of a commit it fetches. -/
theorem Operator.Sound.step_applies (sound : o.Sound git tempDir specs)
    (straight : o.StraightAt fs event)
    {T : String → List Resource → GitApplicationSpec → Prop}
    (fetched : ∀ revision resources spec, o.Fetches fs event i revision resources spec →
      T revision resources spec)
    (before : (o.worlds i).AppliesOf T) : ((o.step fs event).worlds i).AppliesOf T := by
  rcases o.step_worlds fs event i with same | ⟨a, stepped, meets⟩
  · rwa [same]
  · rw [stepped]
    refine World.step_applies (fun env revision resources action get clone parse => ?_) before
    obtain ⟨met, reconciles, rfl⟩ := meets env action
    obtain ⟨commit, remote, name, parsed⟩ :=
      sound.host.outcomes (sound.member i) (straight i met reconciles) clone
    exact fetched revision resources _
      ⟨rfl, met, commit, reconciles, remote, name, parsed.symm.trans parse⟩

theorem Operator.step_completed (completed : (o.worlds i).Completed) (event : Event ι ε) :
    ((o.step fs event).worlds i).Completed := by
  rcases o.step_worlds fs event i with same | ⟨a, stepped, meets⟩
  · rwa [same]
  · rw [stepped]
    exact completed.step a

variable (fs)

/-- An event of the run has fetched the revision for the application. -/
def FetchedIn (o : Operator σ ι) (run : List (Event ι ε)) (i : ι) (revision : String)
    (resources : List Resource) (spec : GitApplicationSpec) : Prop :=
  ∃ before event after, run = before ++ event :: after ∧
    (before.foldl (Operator.step fs) o).Fetches fs event i revision resources spec

/-- **A whole run** in which nothing misleads a reconcile: every attempt is of a commit fetched. -/
theorem Operator.appliesOf_run (name : ι → String) (spec : ι → GitApplicationSpec)
    {run : List (Event ι ε)} (within : specsOf spec run ⊆ specs) (apart : URLsApart (urlsOf specs))
    (straight : Along (Operator.step fs) (Operator.StraightAt fs)
      (.started git tempDir name spec) run) (i : ι) :
    ((run.foldl (Operator.step fs) (.started git tempDir name spec)).worlds i).AppliesOf
      (FetchedIn fs (.started git tempDir name spec) run i) := by
  induction run using List.reverseRecOn with
  | nil => exact fun attempt member => absurd member List.not_mem_nil
  | append_singleton run event ih =>
      have earlier : specsOf spec run ⊆ specs := by
        intro stored used
        refine within (used.imp_right fun ⟨event, member, stores⟩ => ?_)
        exact ⟨event, List.mem_append_left _ member, stores⟩
      rw [along_append] at straight
      obtain ⟨before, last, -⟩ := straight
      have sound := Operator.sound_run name spec earlier apart
        (before.mono fun o event straight => straight.plainAt)
      rw [List.foldl_append, List.foldl_cons, List.foldl_nil]
      refine sound.step_applies last ?_ ?_
      · intro revision resources spec' fetches
        exact ⟨run, event, [], rfl, fetches⟩
      · intro attempt member
        obtain ⟨before, event', after, cut, fetches⟩ := ih earlier before attempt member
        exact ⟨before, event', after ++ [event], by rw [cut, List.append_assoc]; rfl, fetches⟩

/-- **From the branch to the cluster.**  In a run over URLs whose hashes differ, in which nothing
misleads a reconcile, with any failures and stops, every attempt to apply is of a commit that was
the head of the application's own branch when it was fetched, with exactly the resources of the
commit's files; and a stored `Synced` names a commit of which such an attempt has completed. -/
theorem applied_from_branch (name : ι → String) (spec : ι → GitApplicationSpec)
    (run : List (Event ι ε)) (apart : URLsApart (urlsOf (specsOf spec run)))
    (straight : Along (Operator.step fs) (Operator.StraightAt fs)
      (.started git tempDir name spec) run) (i : ι) :
    let w := (run.foldl (Operator.step fs) (.started git tempDir name spec)).worlds i
    let fetched := FetchedIn fs (.started git tempDir name spec) run i
    (∀ attempt ∈ w.applies, fetched attempt.revision attempt.resources attempt.spec) ∧
      (w.app.status.syncStatus = .synced → ∃ attempt ∈ w.applies, attempt.outcome = some none ∧
        fetched w.app.status.revision attempt.resources attempt.spec) := by
  intro w fetched
  have applies := Operator.appliesOf_run fs name spec (fun _ used => used) apart straight i
  refine ⟨applies, fun synced => ?_⟩
  have completed : w.Completed := by
    refine foldl_invariant (I := fun o : Operator σ ι => (o.worlds i).Completed)
      (fun o event completed => Operator.step_completed completed event) ?_ run
    exact World.completed_of_ne_synced (by simp [Operator.started, World.created])
  obtain ⟨attempt, member, same, done⟩ := completed synced
  exact ⟨attempt, member, done, same ▸ applies attempt member⟩

/-! ## Getting back to the head of the branch -/

/-- Nothing fails, the branch has its head at the commit, and the commit's files, which the path of
the application and their symbolic links stay among, parse. -/
structure Operator.Unhindered (o : Operator σ ι) (i : ι) (met : Surroundings ε) (commit : Commit)
    (resources : List Resource) : Prop where
  get : met.get = none
  able : git.Able met.git
  head : git.remote met.git (o.worlds i).app.spec.repoURL
    (branchRef (o.worlds i).app.spec.branch) = some commit
  confined : Confined ((newClient tempDir).repoPath (o.worlds i).app.spec.repoURL)
    (o.worlds i).app.spec
  enclosed : fs.Enclosed commit
  parse : parseOf fs ((newClient tempDir).repoPath (o.worlds i).app.spec.repoURL) commit
    (o.worlds i).app.spec = .ok resources
  applyResource : ∀ n, met.applyResource n = none
  pruneResources : met.pruneResources = none
  statusUpdate : ∀ n, met.statusUpdate n = none

/-- Nothing is in the way of the git commands in the directory of the application. -/
def Operator.ReadyFor (git : Git σ ε) (o : Operator σ ι) (i : ι) (met : Surroundings ε) : Prop :=
  git.Ready met.git (o.worlds i).app.spec.repoURL (o.worlds i).app.spec.branch (o.checkout i)

/-- The directory of the application has no repository, or one whose refspec covers the branch. -/
def Operator.CoveredFor (git : Git σ ε) (o : Operator σ ι) (i : ι) : Prop :=
  git.Covered (o.worlds i).app.spec.branch (o.checkout i)

theorem Operator.step_reconcile (o : Operator σ ι) (i : ι) (met : Surroundings ε) :
    (o.step fs (.reconcile i met)).worlds i =
      (o.worlds i).step (.reconcile (o.outcomes fs i met)) :=
  Function.update_self ..

omit [DecidableEq ι] in
/-- An unhindered reconcile over a directory that is ready and covers the branch succeeds. -/
theorem Operator.Sound.succeeds (sound : o.Sound git tempDir specs) {commit : Commit}
    {resources : List Resource} (unhindered : o.Unhindered fs i met commit resources)
    (ready : o.ReadyFor git i met) (covered : o.CoveredFor git i) :
    (o.outcomes fs i met).Succeeds commit.name resources := by
  obtain ⟨dir, pulled, clean⟩ := Git.pull_of_ready ready covered unhindered.able unhindered.head
    (o.host.client.repoPath (o.worlds i).app.spec.repoURL)
  have parse : (o.outcomes fs i met).parse =
      parseOf fs ((newClient tempDir).repoPath (o.worlds i).app.spec.repoURL) commit
        (o.worlds i).app.spec :=
    sound.host.parse_eq pulled clean unhindered.enclosed unhindered.confined
  exact
    { get := unhindered.get
      applyResource := unhindered.applyResource
      pruneResources := unhindered.pruneResources
      statusUpdate := unhindered.statusUpdate
      clone := congrArg Prod.snd pulled
      parse := parse.trans unhindered.parse }

/-- A reconcile whose clone fails stores `Unknown`. -/
theorem World.step_of_clone_error (w : World) {env : Outcomes} {err : String} (get : env.get = none)
    (clone : env.cloneOrPull = .error err) (write : env.statusUpdate 0 = none) :
    (w.step (.reconcile env)).app.status.syncStatus = .unknown := by
  have landing := w.landing env
  generalize w.step (.reconcile env) = w' at landing
  cases landing with
  | unread failed => cases get.symm.trans failed
  | cloneFailed get clone =>
      rw [write]
      rfl
  | parseFailed get cloned => cases clone.symm.trans cloned
  | upToDate get cloned => cases clone.symm.trans cloned
  | heldBack get cloned => cases clone.symm.trans cloned
  | applyFailed get cloned => cases clone.symm.trans cloned
  | applied get cloned => cases clone.symm.trans cloned

omit [DecidableEq ι] in
/-- A call that is answered has found the refspec to cover the branch. -/
theorem Operator.Sound.covered_of_ok (sound : o.Sound git tempDir specs)
    (ready : o.ReadyFor git i met) {revision : String}
    (answered : (o.outcomes fs i met).cloneOrPull = .ok revision) : o.CoveredFor git i := by
  have ok : o.host.pull git (met.call (o.worlds i).app.spec) =
      ((o.host.pull git (met.call (o.worlds i).app.spec)).1, .ok revision) := Prod.ext rfl answered
  cases ready with
  | unborn plain unborn => exact fun there => nomatch unborn.symm.trans there
  | cloned plain there intact configured url remote unshadowed tidy =>
      obtain ⟨-, -, -, -, covers⟩ := Git.pulled_of_git plain remote unshadowed tidy
        (sound.host.own _ (sound.member i)) (sound.host.tracks _ (sound.member i)) there ok
      exact fun _ => covers

/-- **Back to the head of the branch.**  Whatever a run over plain branch names has left behind, an
unhindered reconcile of an automated application with nothing in its way leaves it `Synced` at the
head of its branch exactly when its URL has no checkout yet or one whose refspec covers the branch.
-/
theorem synced_at_head_iff (name : ι → String) (spec : ι → GitApplicationSpec)
    (run : List (Event ι ε)) (apart : URLsApart (urlsOf (specsOf spec run)))
    (plain : ∀ stored ∈ specsOf spec run, git.Plain stored.branch) (i : ι) (met : Surroundings ε)
    (commit : Commit) (resources : List Resource) :
    let o := run.foldl (Operator.step fs) (.started git tempDir name spec)
    o.Unhindered fs i met commit resources → o.ReadyFor git i met →
      (o.worlds i).app.spec.automated = true →
      ((((o.step fs (.reconcile i met)).worlds i).app.status.syncStatus = .synced ∧
        ((o.step fs (.reconcile i met)).worlds i).app.status.revision = commit.name) ↔
      o.CoveredFor git i) := by
  intro o unhindered ready automated
  have named : Along (Operator.step fs) (Operator.PlainAt git) (.started git tempDir name spec)
      run := by
    refine along_of_invariant (I := fun o => ∀ i, (o.worlds i).app.spec ∈ specsOf spec run)
      (D := fun event => ∀ stored, event.Stores stored → stored ∈ specsOf spec run)
      (fun o event here _ i met _ => plain _ (here i))
      (fun o event here stored => Operator.step_specs (Q := fun _ s => s ∈ specsOf spec run) here
        stored) (fun i => .inl ⟨i, rfl⟩) ?_
    exact fun event member stored stores => .inr ⟨event, member, stores⟩
  have sound : o.Sound git tempDir (specsOf spec run) :=
    Operator.sound_run name spec (fun _ used => used) apart named
  rw [Operator.step_reconcile]
  refine ⟨fun synced => ?_, fun covered => ?_⟩
  · cases clone : (o.outcomes fs i met).cloneOrPull with
    | error err =>
        have unknown := (o.worlds i).step_of_clone_error unhindered.get clone
          (unhindered.statusUpdate 0)
        cases unknown.symm.trans synced.1
    | ok revision => exact sound.covered_of_ok fs ready clone
  · have succeeds := sound.succeeds fs unhindered ready covered
    exact (o.worlds i).reconcile_synced succeeds (.inr (.inl automated))

/-! ## One branch for each URL -/

variable (branchOf : String → String)

/-- A specification names the branch that belongs to its URL; neither is read as anything else. -/
structure GitApplicationSpec.Follows (git : Git σ ε) (spec : GitApplicationSpec) : Prop where
  named : spec.branch = branchOf spec.repoURL
  plain : git.Plain spec.branch
  undashed : ¬ Dashed spec.repoURL

/-- The remotes have nothing that could be taken for the branches, and commands that fail leave the
directories in order. -/
def Event.Peaceful (git : Git σ ε) (urls : Set String) (event : Event ι ε) : Prop :=
  ∀ i met, event.Reconciles i met → ∀ repoURL ∈ urls,
    git.Peaceful met.git repoURL (branchOf repoURL)

/-- The head of every branch has symbolic links that stay in the clone. -/
def Event.Enclosed (urls : Set String) (event : Event ι ε) : Prop :=
  ∀ i met, event.Reconciles i met → ∀ repoURL ∈ urls, ∀ commit,
    git.remote met.git repoURL (branchRef (branchOf repoURL)) = some commit → fs.Enclosed commit

variable (git tempDir) in
/-- The checkouts of a run that is peaceful. -/
structure Operator.Orderly (specs : Set GitApplicationSpec) (o : Operator σ ι) : Prop
    extends o.Sound git tempDir specs where
  inOrder : ∀ repoURL ∈ urlsOf specs,
    git.InOrder repoURL (branchOf repoURL) (o.host.checkout repoURL)

variable {fs branchOf}

omit [DecidableEq ι] in
/-- What a reconcile leaves is in order again. -/
theorem Operator.Orderly.leaves (orderly : o.Orderly git tempDir branchOf specs)
    (apart : URLsApart (urlsOf specs)) (follows : ∀ spec ∈ specs, spec.Follows branchOf git)
    (peaceful : ∀ repoURL ∈ urlsOf specs, git.Peaceful met.git repoURL (branchOf repoURL)) (i : ι) :
    ∀ repoURL ∈ urlsOf specs, git.InOrder repoURL (branchOf repoURL)
      ((met.leaves git o.host (o.worlds i).app.spec).checkout repoURL) := by
  unfold Surroundings.leaves
  split
  · have own := follows _ (orderly.stored i)
    have member := orderly.member i
    refine Host.checkouts_step (P := fun u => git.InOrder u (branchOf u))
      (orderly.host.apart apart) member orderly.inOrder ?_
    have inOrder := orderly.inOrder _ member
    have calm := peaceful _ member
    rw [← own.named] at inOrder calm
    change git.InOrder (o.worlds i).app.spec.repoURL (branchOf (o.worlds i).app.spec.repoURL) _
    rw [← own.named]
    exact Git.inOrder_pull own.plain own.undashed calm inOrder
  · exact orderly.inOrder

theorem Operator.Orderly.step (orderly : o.Orderly git tempDir branchOf specs)
    (apart : URLsApart (urlsOf specs)) (follows : ∀ spec ∈ specs, spec.Follows branchOf git)
    (peaceful : event.Peaceful branchOf git (urlsOf specs))
    (stored : ∀ spec, event.Stores spec → spec ∈ specs) :
    (o.step fs event).Orderly git tempDir branchOf specs := by
  have plain : o.PlainAt git event := fun i _ _ => (follows _ (orderly.stored i)).plain
  refine ⟨orderly.toSound.step apart plain stored, ?_⟩
  cases event with
  | reconcile i met => exact orderly.leaves apart follows (peaceful i met ⟨rfl, rfl⟩) i
  | crash i met stop wiped =>
      exact Host.checkouts_restarted (P := fun u => git.InOrder u (branchOf u))
        (orderly.leaves apart follows (peaceful i met ⟨rfl, rfl⟩) i)
        (fun _ _ => Git.inOrder_absent) wiped
  | edit i spec => exact orderly.inOrder

variable (branchOf) in
/-- Nothing misleads a reconcile of a confined application in a run that is peaceful. -/
theorem Operator.straight_run (name : ι → String) (spec : ι → GitApplicationSpec)
    {run : List (Event ι ε)} (apart : URLsApart (urlsOf (specsOf spec run)))
    (follows : ∀ stored ∈ specsOf spec run, stored.Follows branchOf git)
    (confined : ∀ stored ∈ specsOf spec run,
      Confined ((newClient tempDir).repoPath stored.repoURL) stored)
    (calm : ∀ event ∈ run, event.Peaceful branchOf git (urlsOf (specsOf spec run)) ∧
      event.Enclosed fs branchOf (urlsOf (specsOf spec run))) :
    Along (Operator.step fs) (Operator.StraightAt fs) (.started git tempDir name spec) run := by
  refine along_of_invariant (I := Operator.Orderly git tempDir branchOf (specsOf spec run))
    (D := fun event => event ∈ run) (fun o event orderly member i met reconciles => ?_)
    (fun o event orderly member => orderly.step apart follows (calm event member).1
      fun stored stores => .inr ⟨event, member, stores⟩)
    ⟨Operator.sound_started git tempDir name fun i => .inl ⟨i, rfl⟩,
      fun _ _ => Git.inOrder_absent⟩ fun event member => member
  have own := follows _ (orderly.stored i)
  have known := orderly.member i
  have inOrder := orderly.inOrder _ known
  have remote := ((calm event member).1 i met reconciles _ known).remote
  have enclosed := (calm event member).2 i met reconciles _ known
  rw [← own.named] at inOrder remote enclosed
  exact ⟨inOrder.unmistaken own.plain own.undashed remote, confined _ (orderly.stored i), enclosed⟩

variable (fs) in
omit [DecidableEq ι] in
theorem Operator.Orderly.succeeds (orderly : o.Orderly git tempDir branchOf specs)
    (follows : ∀ spec ∈ specs, spec.Follows branchOf git)
    (peaceful : (Event.reconcile i met).Peaceful branchOf git (urlsOf specs)) {commit : Commit}
    {resources : List Resource} (unhindered : o.Unhindered fs i met commit resources) :
    (o.outcomes fs i met).Succeeds commit.name resources := by
  have own := follows _ (orderly.stored i)
  have inOrder := orderly.inOrder _ (orderly.member i)
  have remote := (peaceful i met ⟨rfl, rfl⟩ _ (orderly.member i)).remote
  rw [← own.named] at inOrder remote
  exact orderly.toSound.succeeds fs unhindered (inOrder.ready own.plain own.undashed remote)
    inOrder.covered

variable (fs branchOf)

end Steps

/-- Nothing fails, and the branch `main` of every remote is at the commit. -/
def Surroundings.at (commit : Commit) : Surroundings GitEnv :=
  { git := remoteAt commit, now := fun _ => 0 }

section Unedited

variable {ε ι : Type*} {spec : ι → GitApplicationSpec} {run : List (Event ι ε)}

/-- A run without edits has the specs it starts with. -/
theorem exists_of_mem_specsOf (unedited : ∀ event ∈ run, ∀ stored, ¬ event.Stores stored)
    {stored : GitApplicationSpec} (used : stored ∈ specsOf spec run) : ∃ i, spec i = stored :=
  used.resolve_right fun ⟨event, member, stores⟩ => unedited event member stored stores

theorem urlsApart_of_unedited (unedited : ∀ event ∈ run, ∀ stored, ¬ event.Stores stored)
    {repoURL : String} (one : ∀ i, (spec i).repoURL = repoURL) :
    URLsApart (urlsOf (specsOf spec run)) := by
  have only : ∀ u ∈ urlsOf (specsOf spec run), u = repoURL := by
    rintro _ ⟨stored, used, rfl⟩
    obtain ⟨i, rfl⟩ := exists_of_mem_specsOf unedited used
    exact one i
  intro u hu v hv different
  exact absurd ((only u hu).trans (only v hv).symm) different

end Unedited

/-- Surroundings without failures are peaceful, in a reconcile and in one that stops. -/
theorem Surroundings.peaceful_at {ι : Type*} (i : ι) (commit : Commit) (urls : Set String) :
    (Event.reconcile i (.at commit)).Peaceful (fun _ => "main") exampleGit urls ∧
      ∀ stop wiped, (Event.crash i (.at commit) stop wiped).Peaceful (fun _ => "main") exampleGit
        urls := by
  refine ⟨?_, fun stop wiped => ?_⟩
  · rintro i met ⟨rfl, rfl⟩ repoURL -
    exact peaceful_remoteAt commit repoURL
  · rintro i met ⟨rfl, rfl⟩ repoURL -
    exact peaceful_remoteAt commit repoURL

/-- Two applications of one repository: the second one moves the checkout that the first one has
applied from. -/
theorem applied_from_branch_shared :
    FetchedIn oneManifest (.started exampleGit "/tmp" (fun _ => "shop") sharedSpec)
      [.reconcile false (.at ⟨"5e1f", by decide⟩), .reconcile true (.at ⟨"77ac", by decide⟩)]
      false "5e1f" [{ kind := "5e1f", content := "kind: 5e1f" }] (sharedSpec false) := by
  have unedited : ∀ event ∈ [Event.reconcile false (.at ⟨"5e1f", by decide⟩),
      .reconcile true (.at ⟨"77ac", by decide⟩)], ∀ stored, ¬ event.Stores stored := by
    intro event member stored stores
    rcases List.mem_pair.mp member with rfl | rfl
    · exact stores
    · exact stores
  have apart := urlsApart_of_unedited unedited
    (show ∀ i, (sharedSpec i).repoURL = _ from fun _ => rfl)
  have undashed : ∀ i, ¬ Dashed (sharedSpec i).repoURL := by decide
  have confined : ∀ i, Confined ((newClient "/tmp").repoPath (sharedSpec i).repoURL)
      (sharedSpec i) := by decide +kernel
  refine (applied_from_branch oneManifest (fun _ => "shop") sharedSpec _ apart
    (Operator.straight_run (fun _ => "main") _ _ apart ?_ ?_ ?_) false).1
      ⟨"5e1f", [{ kind := "5e1f", content := "kind: 5e1f" }], sharedSpec false, some none⟩
      (by decide +kernel)
  · intro stored used
    obtain ⟨i, rfl⟩ := exists_of_mem_specsOf unedited used
    exact ⟨rfl, trivial, undashed i⟩
  · intro stored used
    obtain ⟨i, rfl⟩ := exists_of_mem_specsOf unedited used
    exact confined i
  · intro event member
    refine ⟨?_, fun _ _ _ _ _ _ _ => trivial⟩
    rcases List.mem_pair.mp member with rfl | rfl
    · exact (Surroundings.peaceful_at ..).1
    · exact (Surroundings.peaceful_at ..).1

/-- An automated application of that repository. -/
def automatedSpec (_ : Unit) : GitApplicationSpec :=
  { sharedSpec false with syncPolicy := some { automated := true } }

/-- The pod is replaced in the middle of an apply; the next process clones again. -/
theorem synced_at_head_of_wiped :
    (((([Event.crash () (.at ⟨"5e1f", by decide⟩) 2 true].foldl (Operator.step oneManifest)
        (.started exampleGit "/tmp" (fun _ => "shop") automatedSpec)).step oneManifest
      (.reconcile () (.at ⟨"77ac", by decide⟩))).worlds ()).app.status.revision = "77ac") := by
  have unedited : ∀ event ∈ [Event.crash () (.at ⟨"5e1f", by decide⟩) 2 true],
      ∀ stored, ¬ event.Stores stored := List.forall_mem_singleton.mpr fun _ stores => stores
  have synced := synced_at_head_iff oneManifest (fun _ => "shop") automatedSpec _
    (urlsApart_of_unedited unedited fun _ => rfl) (fun _ _ => trivial) () (.at ⟨"77ac", by decide⟩)
    ⟨"77ac", by decide⟩ [{ kind := "77ac", content := "kind: 77ac" }]
    ⟨rfl, fun _ => rfl, by decide +kernel, by decide +kernel, trivial, by decide +kernel,
      fun _ => rfl, rfl, fun _ => rfl⟩
    (.unborn trivial rfl rfl (by decide +kernel)) (by decide +kernel)
  exact (synced.mpr Git.covered_absent).2

end Wardn
