import Wardn.ApplyCalls
import Wardn.Manifest.Walk

/-!
# Pruning waits for complete information

`pruneResources` is the call that deletes.  Three places have to keep it from running on less
than the whole set of manifests: the walk stops at the first directory or manifest it cannot
read, `Reconcile` returns on a parse error, and `Applier.Apply` returns at the first resource
that fails.  Here the reconcile parses the files found under the application's path
(`Outcomes.parsing`), and every other answer is free.
-/

namespace Wardn

/-- The answers of a reconcile whose manifests are the files of a checkout. -/
def Outcomes.parsing (env : Outcomes) (lstat : String → Except String Entry) (repoPath : String)
    (spec : GitApplicationSpec) : Outcomes :=
  { env with parse := Wardn.parse lstat repoPath spec.path spec.manifestType }

/-- What the walk over the application's path visits, in its order. -/
def visitsUnder (lstat : String → Except String Entry) (repoPath : String)
    (spec : GitApplicationSpec) : List (String × Visit) :=
  let dir := FilePath.join repoPath spec.path
  rootVisits dir (lstat dir)

/-- The documents of the visited manifests, in the order of the walk. -/
def documentsOf (visits : List (String × Visit)) : List Resource :=
  (visits.flatMap manifestTexts).flatMap resourcesOf

/-! ## What a parse collects -/

/-- A parse that succeeds has read every manifest, and returns all documents. -/
theorem parse_eq_ok {lstat : String → Except String Entry} {repoPath : String}
    {spec : GitApplicationSpec} {resources : List Resource}
    (parsed : parse lstat repoPath spec.path spec.manifestType = .ok resources) :
    (¬ ∃ v ∈ visitsUnder lstat repoPath spec, Fails v) ∧
      resources = documentsOf (visitsUnder lstat repoPath spec) := by
  cases type : spec.manifestType with
  | helm =>
      rw [type] at parsed
      cases parsed
  | raw =>
      rw [type] at parsed
      rcases parse_raw_cases lstat repoPath spec.path rfl with
        ⟨-, err, stops⟩ | ⟨reads, collects⟩
      · cases parsed.symm.trans stops
      · exact ⟨reads, Except.ok.inj (parsed.symm.trans collects)⟩

/-! ## The guarantee -/

theorem applyCalls_eq_of_split {calls before after : List Effect} {e : Effect}
    (split : calls = before ++ e :: after) (call : e.IsApplyCall) :
    applyCalls calls = applyCalls before ++ e :: applyCalls after := by
  rw [split, applyCalls_append]
  exact congrArg (applyCalls before ++ ·) (List.filter_cons_of_pos (by simpa using call))

/-- A pruning in the calls of an apply is the last of them, and the whole list is applied. -/
theorem Applied.of_prune {resources desired : List Resource} {syncPolicy : Option SyncPolicy}
    {before after : List Effect} {err text : Option String}
    (applied : Applied resources syncPolicy (before ++ .pruneResources desired err :: after) text) :
    prunes syncPolicy = true ∧ desired = resources ∧
      before = resources.map (.applyResource · none) ∧ after = [] := by
  generalize calls : before ++ Effect.pruneResources desired err :: after = all at applied
  have member : Effect.pruneResources desired err ∈ all := by simp [← calls]
  cases applied with
  | failed cut => simp at member
  | kept keeps => simp at member
  | pruned pruning err' =>
      have first : ∀ resources : List Resource,
          Effect.pruneResources desired err ∉ resources.map (.applyResource · none) := by simp
      obtain ⟨rfl, rfl⟩ : desired = resources ∧ err = err' := by simpa using member
      obtain ⟨same, -, last⟩ := (List.append_cons_inj_of_notMem (first desired) List.not_mem_nil).mp
        calls.symm
      exact ⟨pruning, rfl, same.symm, last.symm⟩

/-- A failing resource is the last call of an apply. -/
theorem Applied.of_failed {resources : List Resource} {res : Resource}
    {syncPolicy : Option SyncPolicy} {before after : List Effect} {err : String}
    {text : Option String}
    (applied : Applied resources syncPolicy
      (before ++ .applyResource res (some err) :: after) text) :
    after = [] ∧ (∀ desired err', .pruneResources desired err' ∉ before) ∧ text ≠ none := by
  generalize calls : before ++ Effect.applyResource res (some err) :: after = all at applied
  have member : Effect.applyResource res (some err) ∈ all := by simp [← calls]
  cases applied with
  | kept keeps => simp at member
  | pruned pruning err' => simp at member
  | @failed applied later res' err' text cut =>
      obtain ⟨rfl, rfl⟩ : res = res' ∧ err = err' := by simpa using member
      have first : ∀ resources : List Resource,
          Effect.applyResource res (some err) ∉ resources.map (.applyResource · none) := by simp
      obtain ⟨same, -, last⟩ := (List.append_cons_inj_of_notMem (first _) List.not_mem_nil).mp
        calls.symm
      refine ⟨last.symm, fun desired err' pruning => ?_, Option.some_ne_none _⟩
      rw [← same] at pruning
      exact absurd pruning (by simp)

/-- The reconcile does not end in `Synced`: it submits no such status, the stored one is another as
soon as one of its updates is executed, its first one to begin with, and where `Synced` stays
stored the whole status is the one from before, every update being lost. -/
structure World.EndsUnsynced (w : World) (env : Outcomes) : Prop where
  submits : ∀ status, Submits env w.app status → status.syncStatus ≠ .synced
  executed : (∃ status, .statusUpdate status none ∈ w.calls env) →
    (w.reconciled env).app.status.syncStatus ≠ .synced
  recorded : env.get = none → env.statusUpdate 0 = none →
    (w.reconciled env).app.status.syncStatus ≠ .synced
  kept : (w.reconciled env).app.status.syncStatus = .synced →
    (w.reconciled env).app.status = w.app.status

/-- A submitted `Synced` comes from a complete reading. -/
theorem submission_synced {env : Outcomes} {app : GitApplication} {status : GitApplicationStatus}
    (submission : Submission env app status) (synced : status.syncStatus = .synced) :
    ∃ revision resources, env.cloneOrPull = .ok revision ∧ env.parse = .ok resources ∧
      (UpToDate app revision ∨ (apply env resources app.spec.syncPolicy).2 = none) := by
  cases submission with
  | unknown => cases synced
  | unparsed => cases synced
  | held => cases synced
  | syncing => cases synced
  | degraded => cases synced
  | rechecked clone parse same => exact ⟨_, _, clone, parse, .inl same⟩
  | synced clone parse moved sync applied => exact ⟨_, _, clone, parse, .inr applied⟩

/-- The first update of a reconcile is always made, and answered by the first answer. -/
theorem exists_first_update (w : World) {env : Outcomes} (get : env.get = none) :
    ∃ status, .statusUpdate status (env.statusUpdate 0) ∈ w.calls env := by
  rw [World.calls_of_get_eq_none get]
  have passage := reconcileApp_passage env w.app
  generalize reconcileApp env w.app = reconciliation at passage
  cases passage with
  | cloneFailed clone => exact ⟨_, List.mem_cons_self⟩
  | parseFailed clone parse => exact ⟨_, List.mem_cons_self⟩
  | upToDate clone parse same => exact ⟨_, List.mem_cons_self⟩
  | heldBack clone parse moved held => exact ⟨_, List.mem_cons_self⟩
  | applyFailed => exact ⟨_, List.mem_append_left _ List.mem_cons_self⟩
  | unrecorded => exact ⟨_, List.mem_append_left _ List.mem_cons_self⟩
  | synced => exact ⟨_, List.mem_append_left _ List.mem_cons_self⟩

/-- Behind an executed update the stored status is one of those submitted. -/
theorem foldl_exec_status_of_executed {I : GitApplicationStatus → Prop} {calls : List Effect}
    (submitted : ∀ status err, .statusUpdate status err ∈ calls → I status)
    {status : GitApplicationStatus} (executed : .statusUpdate status none ∈ calls) (w : World) :
    I (calls.foldl World.exec w).app.status := by
  obtain ⟨front, later, rfl⟩ := List.append_of_mem executed
  rw [List.foldl_append, List.foldl_cons]
  refine World.foldl_exec_status_invariant (fun other err member => ?_)
    (submitted status none executed)
  exact submitted other err (List.mem_append_right _ (List.mem_cons_of_mem _ member))

theorem World.endsUnsynced_of_submits {w : World} {env : Outcomes}
    (unsynced : ∀ status, Submits env w.app status → status.syncStatus ≠ .synced) :
    w.EndsUnsynced env := by
  have executed : (∃ status, .statusUpdate status none ∈ w.calls env) →
      (w.reconciled env).app.status.syncStatus ≠ .synced := by
    rintro ⟨status, member⟩
    exact foldl_exec_status_of_executed (I := fun status => status.syncStatus ≠ .synced)
      (fun other err inside => unsynced other ⟨err, inside⟩) member w
  refine ⟨unsynced, executed, fun get first => ?_, fun synced => ?_⟩
  · obtain ⟨status, member⟩ := exists_first_update w get
    exact executed ⟨status, first ▸ member⟩
  · have stored : (w.reconciled env).app.status = w.app.status ∨
        (w.reconciled env).app.status.syncStatus ≠ .synced :=
      World.foldl_exec_status_invariant
        (I := fun status => status = w.app.status ∨ status.syncStatus ≠ .synced)
        (fun status err member => .inr (unsynced status ⟨err, member⟩)) (.inl rfl)
    exact stored.resolve_right fun unsynced => unsynced synced

/-- **Pruning waits for complete information.**  A pruning is preceded by every document of every
visited manifest, each applied without an error and in the order of the walk, and these are the
resources it spares; nothing of the apply follows it.  Where the walk or a resource fails there is
none, nothing is attempted after the failure, and the reconcile does not end in `Synced`. -/
theorem prunes_on_complete_information (w : World) (env : Outcomes)
    (lstat : String → Except String Entry) (repoPath : String) :
    let spec := w.app.spec
    let visits := visitsUnder lstat repoPath spec
    let env := env.parsing lstat repoPath spec
    (∀ before desired err after, w.calls env = before ++ .pruneResources desired err :: after →
      (∃ policy, spec.syncPolicy = some policy ∧ policy.prune = true) ∧
        env.parse = .ok desired ∧ desired = documentsOf visits ∧ (¬ ∃ v ∈ visits, Fails v) ∧
        applyCalls before = desired.map (.applyResource · none) ∧ applyCalls after = []) ∧
    ((∃ v ∈ visits, Fails v) → applyCalls (w.calls env) = [] ∧ w.EndsUnsynced env) ∧
    ∀ before res err after, w.calls env = before ++ .applyResource res (some err) :: after →
      (∀ desired err', .pruneResources desired err' ∉ w.calls env) ∧ applyCalls after = [] ∧
        w.EndsUnsynced env := by
  intro spec visits env
  refine ⟨fun before desired err after split => ?_, fun failing => ?_,
    fun before res err after split => ?_⟩
  · have own := applyCalls_eq_of_split split (.prune desired err)
    rcases applyCalls_calls w env with none | ⟨resources, parsed, starts, calls⟩
    · simp [own] at none
    · have returned := apply_applied env resources w.app.spec.syncPolicy
      rw [← calls, own] at returned
      obtain ⟨pruning, rfl, applied, last⟩ := returned.of_prune
      obtain ⟨reads, documents⟩ := parse_eq_ok parsed
      refine ⟨?_, parsed, documents, reads, applied, last⟩
      unfold prunes at pruning
      split at pruning
      next policy stated => exact ⟨policy, stated, pruning⟩
      next => cases pruning
  · have unparsed : ∀ resources, env.parse ≠ .ok resources :=
      fun resources parsed => (parse_eq_ok parsed).1 failing
    refine ⟨?_, World.endsUnsynced_of_submits fun status submits synced => ?_⟩
    · rcases applyCalls_calls w env with none | ⟨resources, parsed, -, -⟩
      · exact none
      · exact absurd parsed (unparsed resources)
    · obtain ⟨-, submission⟩ := (submits_iff env w.app status).mp submits
      obtain ⟨revision, resources, -, parsed, -⟩ := submission_synced submission synced
      exact unparsed resources parsed
  · have own := applyCalls_eq_of_split split (.resource res (some err))
    rcases applyCalls_calls w env with none | ⟨resources, parsed, starts, calls⟩
    · simp [own] at none
    · have returned := apply_applied env resources w.app.spec.syncPolicy
      rw [← calls, own] at returned
      obtain ⟨last, unpruned, failed⟩ := returned.of_failed
      refine ⟨fun desired err' pruning => ?_, last,
        World.endsUnsynced_of_submits fun status submits synced => ?_⟩
      · have among : Effect.pruneResources desired err' ∈ applyCalls (w.calls env) :=
          List.mem_filter.mpr ⟨pruning, by simpa using .prune desired err'⟩
        rw [own, last] at among
        simp [unpruned] at among
      · obtain ⟨-, submission⟩ := (submits_iff env w.app status).mp submits
        obtain ⟨revision, resources', clone, parsed', ends⟩ := submission_synced submission synced
        cases parsed.symm.trans parsed'
        obtain ⟨-, revision', -, clone', -, moved, -⟩ := starts
        cases clone.symm.trans clone'
        exact ends.elim moved failed

end Wardn
