import Wardn.World

/-!
# What a stored `Synced` means across crashes and lost writes

`World.Consistent` is the promise of a stored `Synced`: the last attempt to apply was for the
recorded revision and completed.  A run keeps it in every world it passes through exactly as
long as no reconcile that found the object `Synced` starts to apply after its `Syncing` write
was lost (`consistent_iff_marksApply`): `updateStatus` drops the error of that write, and the
apply then runs behind a stored status that still speaks of the revision before.

`World.synced_syncError` is the companion invariant that survives every failure: a stored
`Synced` comes with the condition `SyncError` at `False`.  With it an automated application
is never stuck (`automated_recovers`).
-/

namespace Wardn

open Runs

/-- A stored `Synced` names the revision of the last attempt, which completed without error. -/
def World.Consistent (w : World) : Prop :=
  w.app.status.syncStatus = .synced →
    ∃ attempt ∈ w.applies.head?,
      attempt.revision = w.app.status.revision ∧ attempt.outcome = some none

/-- The worlds an action passes through: those after each of its calls. -/
def World.Passes (w : World) (a : Action) (w' : World) : Prop :=
  match a with
  | .reconcile env => ∃ n, w' = w.step (.crash env n)
  | .crash env stop => ∃ n ≤ stop, w' = w.step (.crash env n)
  | .edit _ => w' = w.step a

/-- An apply is started over a stored `Synced` only after the `Syncing` write succeeded. -/
def World.MarksApply (w : World) (a : Action) : Prop :=
  w.app.status.syncStatus = .synced →
    match a with
    | .reconcile env => w.StartsApply env → env.statusUpdate 0 = none
    | .crash env stop => w.StartsApply env → 2 ≤ stop → env.statusUpdate 0 = none
    | .edit _ => True

/-! ## One reconcile -/

theorem World.consistent_of_ne_synced {w : World} (h : w.app.status.syncStatus ≠ .synced) :
    w.Consistent :=
  fun synced => absurd synced h

theorem World.consistent_write {w : World} {status : GitApplicationStatus}
    (stored : w.Consistent) (unsynced : status.syncStatus ≠ .synced) (err : Option String) :
    (w.write status err).Consistent := by
  cases err with
  | none => exact World.consistent_of_ne_synced unsynced
  | some err => exact stored

/-- The calls of an apply do not touch the stored status. -/
theorem World.along_applyCalls {w : World} {calls : List Effect}
    (silent : ∀ e ∈ calls, e.IsApplyCall) (unsynced : w.app.status.syncStatus ≠ .synced)
    (revision : String) (resources : List Resource) (err : Option String) :
    Along World.exec (fun w e => (w.exec e).Consistent) w
      (.applyStart revision resources :: (calls ++ [.applyEnd err])) := by
  have quiet : ∀ e ∈ calls, ∀ w, World.exec w e = w :=
    fun e member w => World.exec_of_isApplyCall (silent e member) w
  have started : (w.exec (.applyStart revision resources)).Consistent :=
    World.consistent_of_ne_synced unsynced
  rw [along_cons, along_append, foldl_of_silent quiet]
  exact ⟨started, along_of_silent quiet started, World.consistent_of_ne_synced unsynced, trivial⟩

theorem World.along_messages {w : World} (stored : w.Consistent) (env : Outcomes)
    (app : GitApplication) (success : Bool) (err : Option String) :
    Along World.exec (fun w e => (w.exec e).Consistent) w
      (sendNotification env app success err) := by
  refine along_of_silent (fun e member w => ?_) stored
  obtain ⟨url, message, rfl⟩ := sendNotification_isSlack env app success err e member
  rfl

/-- The way through an apply, when nothing is stored as `Synced` once it starts. -/
theorem World.along_applyPhase {w : World} {env : Outcomes} {revision : String}
    {resources : List Resource} {calls : List Effect} {err : Option String}
    (applied : apply env resources w.app.spec.syncPolicy = (calls, err))
    (unsynced : (w.write (env.syncingApp w.app revision resources).status
      (env.statusUpdate 0)).app.status.syncStatus ≠ .synced) :
    Along World.exec (fun w e => (w.exec e).Consistent) w
      (applyPhase env w.app revision resources calls err) := by
  have silent := apply_isApplyCall env resources w.app.spec.syncPolicy
  rw [applied] at silent
  exact ⟨World.consistent_of_ne_synced unsynced, World.along_applyCalls silent unsynced _ _ _⟩

/-- A marked apply starts over something else than a stored `Synced`. -/
theorem World.unsynced_of_marked {w : World} {env : Outcomes}
    (marked : w.app.status.syncStatus = .synced → env.statusUpdate 0 = none) (revision : String)
    (resources : List Resource) :
    (w.write (env.syncingApp w.app revision resources).status
      (env.statusUpdate 0)).app.status.syncStatus ≠ .synced := by
  by_cases synced : w.app.status.syncStatus = .synced
  · rw [marked synced]
    simp
  · cases env.statusUpdate 0 with
    | none => simp
    | some err => exact synced

/-- Behind an apply that has succeeded, the `Synced` of step 7 is consistent, and so is its loss. -/
theorem World.consistent_recorded {w : World} {env : Outcomes} {revision : String}
    {resources : List Resource}
    (unsynced : (w.write (env.syncingApp w.app revision resources).status
      (env.statusUpdate 0)).app.status.syncStatus ≠ .synced) (err : Option String) :
    World.Consistent (((w.write (env.syncingApp w.app revision resources).status
      (env.statusUpdate 0)).attempted revision resources none).write
      (env.syncedApp w.app revision resources).status err) := by
  cases err with
  | none => exact fun _ => ⟨_, rfl, rfl, rfl⟩
  | some err => exact World.consistent_of_ne_synced unsynced

/-- Every world a reconcile passes through is consistent, when its apply, if it starts one over
a stored `Synced`, is marked. -/
theorem World.along_calls {w : World} (stored : w.Consistent) {env : Outcomes}
    (marked : w.app.status.syncStatus = .synced → w.StartsApply env → env.statusUpdate 0 = none) :
    Along World.exec (fun w e => (w.exec e).Consistent) w (w.calls env) := by
  cases get : env.get with
  | some err =>
      rw [World.calls_of_get_eq_some get]
      trivial
  | none =>
      rw [World.calls_of_get_eq_none get]
      have passage := reconcileApp_passage env w.app
      generalize reconcileApp env w.app = reconciliation at passage
      cases passage with
      | cloneFailed clone => exact ⟨World.consistent_write stored (by simp) _, trivial⟩
      | parseFailed clone parse => exact ⟨World.consistent_write stored (by simp) _, trivial⟩
      | @upToDate revision resources clone parse same =>
          have after : ∀ err, (w.write (recheckedApp w.app resources).status err).Consistent := by
            intro err
            cases err with
            | none => exact stored
            | some err => exact stored
          exact ⟨after _, trivial⟩
      | heldBack clone parse moved held =>
          exact ⟨World.consistent_write stored (by simp) _, trivial⟩
      | @applyFailed revision err resources calls clone parse moved sync failed =>
          have before := World.unsynced_of_marked
            (fun synced => marked synced ⟨get, _, _, clone, parse, moved, sync⟩) revision resources
          have returned : World.Consistent
              ((w.write (env.syncingApp w.app revision resources).status
                (env.statusUpdate 0)).attempted revision resources (some err)) :=
            World.consistent_of_ne_synced before
          have after := World.consistent_write returned
            (show (env.degradedApp w.app revision resources err).status.syncStatus ≠ .synced by
              simp) (env.statusUpdate 1)
          rw [along_append, World.foldl_exec_applyPhase w failed]
          exact ⟨World.along_applyPhase failed before, after, World.along_messages after _ _ _ _⟩
      | @unrecorded revision err resources calls clone parse moved sync applied write =>
          have before := World.unsynced_of_marked
            (fun synced => marked synced ⟨get, _, _, clone, parse, moved, sync⟩) revision resources
          rw [along_append, World.foldl_exec_applyPhase w applied, along_cons, World.exec_update]
          exact ⟨World.along_applyPhase applied before, World.consistent_recorded before _, trivial⟩
      | @synced revision resources calls clone parse moved sync applied write =>
          have before := World.unsynced_of_marked
            (fun synced => marked synced ⟨get, _, _, clone, parse, moved, sync⟩) revision resources
          have after := World.consistent_recorded before (env.statusUpdate 1)
          rw [along_append, World.foldl_exec_applyPhase w applied, along_cons, World.exec_update]
          exact ⟨World.along_applyPhase applied before, after, World.along_messages after _ _ _ _⟩

theorem World.crash_consistent {w : World} (stored : w.Consistent) {env : Outcomes}
    (marked : w.app.status.syncStatus = .synced → w.StartsApply env → env.statusUpdate 0 = none)
    (n : Nat) : (w.step (.crash env n)).Consistent := by
  have stopped : ∀ n, World.Consistent (((w.calls env).take n).foldl World.exec w) :=
    forall_take_iff_along.mpr ⟨stored, World.along_calls stored marked⟩
  exact stopped n

/-- Over a stored `Synced` an unmarked apply is inconsistent as soon as it has started: the
attempt is open. -/
theorem World.not_consistent_of_unmarked {w : World} {env : Outcomes}
    (synced : w.app.status.syncStatus = .synced) (starts : w.StartsApply env)
    (lost : env.statusUpdate 0 ≠ none) : ¬ (w.step (.crash env 2)).Consistent := by
  obtain ⟨err, lost⟩ := Option.ne_none_iff_exists'.mp lost
  obtain ⟨revision, resources, rest, moved, calls⟩ := starts.calls
  intro consistent
  rw [World.step, calls, List.take_succ_cons, List.take_succ_cons, List.take_zero, List.foldl_cons,
    List.foldl_cons, List.foldl_nil, World.exec_update, lost] at consistent
  obtain ⟨attempt, head, same, done⟩ := consistent synced
  cases head
  cases done

/-- Up to its first call an unmarked reconcile leaves the world as it was. -/
theorem World.crash_of_unmarked {w : World} {env : Outcomes} (starts : w.StartsApply env)
    (lost : env.statusUpdate 0 ≠ none) {n : Nat} (early : n < 2) : w.step (.crash env n) = w := by
  obtain ⟨err, lost⟩ := Option.ne_none_iff_exists'.mp lost
  obtain ⟨revision, resources, rest, moved, calls⟩ := starts.calls
  have stop : n = 0 ∨ n = 1 := by omega
  rcases stop with rfl | rfl
  · rfl
  · rw [World.step, calls, List.take_succ_cons, List.take_zero, List.foldl_cons, List.foldl_nil,
      World.exec_update, lost]
    rfl

theorem World.reconcile_eq_crash (w : World) (env : Outcomes) :
    w.step (.reconcile env) = w.step (.crash env (w.calls env).length) := by
  rw [World.step, World.step, List.take_length]

/-! ## Every run -/

/-- From a consistent world, an action passes through consistent worlds only exactly when it
marks its apply. -/
theorem World.passes_consistent_iff {w : World} (a : Action) (stored : w.Consistent) :
    (∀ w', w.Passes a w' → w'.Consistent) ↔ w.MarksApply a := by
  cases a with
  | reconcile env =>
      refine ⟨fun all synced starts => ?_, fun marked w' passed => ?_⟩
      · by_contra lost
        exact World.not_consistent_of_unmarked synced starts lost (all _ ⟨2, rfl⟩)
      · obtain ⟨n, rfl⟩ := passed
        exact World.crash_consistent stored marked n
  | crash env stop =>
      refine ⟨fun all synced starts late => ?_, fun marked w' passed => ?_⟩
      · by_contra lost
        exact World.not_consistent_of_unmarked synced starts lost (all _ ⟨2, late, rfl⟩)
      · obtain ⟨n, before, rfl⟩ := passed
        by_cases unstarted : w.StartsApply env ∧ env.statusUpdate 0 ≠ none ∧ n < 2
        · obtain ⟨starts, lost, early⟩ := unstarted
          rwa [World.crash_of_unmarked starts lost early]
        · refine World.crash_consistent stored (fun synced starts => ?_) n
          by_contra lost
          have late : 2 ≤ n := by
            by_contra early
            exact unstarted ⟨starts, lost, by omega⟩
          exact lost (marked synced starts (by omega))
  | edit spec =>
      refine ⟨fun _ _ => trivial, fun _ w' passed => ?_⟩
      cases passed
      exact stored

theorem World.step_passes (w : World) (a : Action) : w.Passes a (w.step a) := by
  cases a with
  | reconcile env => exact ⟨_, World.reconcile_eq_crash w env⟩
  | crash env stop => exact ⟨stop, le_rfl, rfl⟩
  | edit spec => rfl

/-- **Crash consistency of `Synced`.**  In every run from a fresh object, with any failures and
stops, the worlds passed through are consistent exactly when no apply is started over a stored
`Synced` behind a `Syncing` write that failed. -/
theorem consistent_iff_marksApply (name : String) (spec : GitApplicationSpec)
    (run : List Action) :
    Along World.step (fun w a => ∀ w', w.Passes a w' → w'.Consistent) (World.created name spec)
        run ↔
      Along World.step World.MarksApply (World.created name spec) run := by
  have initial : (World.created name spec).Consistent :=
    World.consistent_of_ne_synced (by simp [World.created])
  have keeps : ∀ (w : World) (a : Action), w.Consistent →
      (∀ w', w.Passes a w' → w'.Consistent) → (w.step a).Consistent :=
    fun w a _ all => all _ (World.step_passes w a)
  have agree : ∀ (w : World) (a : Action), w.Consistent →
      ((∀ w', w.Passes a w' → w'.Consistent) ↔ w.MarksApply a) :=
    fun w a stored => World.passes_consistent_iff a stored
  exact along_congr agree keeps initial run

/-- Both status writes of the second reconcile are lost: `v2` has been applied, `v1` is stored. -/
theorem lost_syncing_write_not_consistent :
    ¬ World.Consistent
      ([.reconcile (.succeeding "v1" [] 0),
        .reconcile { Outcomes.succeeding "v2" [] 0 with
          statusUpdate := fun _ => some "conflict" }].foldl World.step
        (World.created "guestbook" { syncPolicy := some { automated := true } })) := by
  intro consistent
  obtain ⟨attempt, head, same, done⟩ := consistent (by decide)
  cases head
  revert same
  decide

/-! ## Recovery -/

/-- A `Synced` is only ever submitted with the condition `SyncError` at `False`: the condition is
written with `Syncing`, and neither step 7 nor the skip path touches it. -/
theorem submission_synced_syncError {env : Outcomes} {app : GitApplication}
    {status : GitApplicationStatus}
    (stored : app.status.syncStatus = .synced →
      app.status.conditionStatus "SyncError" = some "False")
    (submission : Submission env app status) :
    status.syncStatus = .synced → status.conditionStatus "SyncError" = some "False" := by
  intro synced
  cases submission with
  | unknown => cases synced
  | unparsed => cases synced
  | rechecked clone parse same => exact stored synced
  | held => cases synced
  | syncing => cases synced
  | degraded => cases synced
  | synced clone parse moved sync applied =>
      obtain ⟨cond, found, status, message, time⟩ :=
        find_updateCondition app.status.conditions "SyncError" "False" "" (env.now 0)
      exact (congrArg (Option.map Condition.status) found).trans (congrArg some status)

theorem World.synced_syncError (name : String) (spec : GitApplicationSpec) (run : List Action) :
    (run.foldl World.step (World.created name spec)).app.status.syncStatus = .synced →
      (run.foldl World.step (World.created name spec)).app.status.conditionStatus "SyncError" =
        some "False" := by
  refine World.run_status_invariant
    (I := fun status => status.syncStatus = .synced →
      status.conditionStatus "SyncError" = some "False")
    (fun env app status stored submission => submission_synced_syncError stored submission) ?_ run
  intro synced
  cases synced

/-- A reconcile in which nothing fails ends `Synced` when it syncs at all. -/
theorem World.reconcile_synced (w : World) {env : Outcomes} {revision : String}
    {resources : List Resource} (succeeds : env.Succeeds revision resources)
    (sync : UpToDate w.app revision ∨ ShouldSync w.app) :
    (w.step (.reconcile env)).app.status.syncStatus = .synced ∧
      (w.step (.reconcile env)).app.status.revision = revision := by
  rcases w.step_of_succeeds succeeds with ⟨same, ends⟩ | ⟨moved, held, ends⟩ | ⟨moved, sync, ends⟩
  · rw [ends]
    exact ⟨same.2, same.1⟩
  · rcases sync with same | sync
    · exact absurd same moved
    · exact absurd sync held
  · rw [ends]
    exact ⟨rfl, rfl⟩

/-- Every reconcile of an existing object asks to be called again. -/
theorem reconcile_polls (env : Outcomes) (app : GitApplication) :
    (∃ err, (reconcile env (some app)).result = .error err) ∨
      ∃ result, (reconcile env (some app)).result = .ok result ∧ 0 < result.requeueAfter := by
  rw [reconcile]
  cases get : env.get with
  | some err => exact .inl ⟨err, rfl⟩
  | none =>
      have passage := reconcileApp_passage env app
      simp only
      generalize reconcileApp env app = reconciliation at passage
      cases passage with
      | cloneFailed => exact .inr ⟨_, rfl, by simp⟩
      | parseFailed => exact .inr ⟨_, rfl, by simp⟩
      | upToDate => exact .inr ⟨_, rfl, by simp⟩
      | heldBack => exact .inr ⟨_, rfl, by simp⟩
      | applyFailed => exact .inr ⟨_, rfl, by simp⟩
      | unrecorded => exact .inl ⟨_, rfl⟩
      | synced => exact .inr ⟨_, rfl, by simp⟩

/-- An automated application is never stuck: from whatever a run with failures and crashes has
left behind, one reconcile without failures syncs it, and no reconcile ends the polling. -/
theorem automated_recovers (name : String) (spec : GitApplicationSpec) (run : List Action) :
    (∀ (env : Outcomes) revision resources, env.Succeeds revision resources →
      (run.foldl World.step (World.created name spec)).app.spec.automated = true →
      let recovered := (run ++ [Action.reconcile env]).foldl World.step (World.created name spec)
      recovered.app.status.syncStatus = .synced ∧ recovered.app.status.revision = revision ∧
        recovered.app.status.conditionStatus "SyncError" = some "False") ∧
    ∀ env app, (∃ err, (reconcile env (some app)).result = .error err) ∨
      ∃ result, (reconcile env (some app)).result = .ok result ∧ 0 < result.requeueAfter := by
  refine ⟨fun env revision resources succeeds automated => ?_, reconcile_polls⟩
  suffices synced :
      let recovered := (run ++ [Action.reconcile env]).foldl World.step (World.created name spec)
      recovered.app.status.syncStatus = .synced ∧ recovered.app.status.revision = revision from
    ⟨synced.1, synced.2, World.synced_syncError name spec _ synced.1⟩
  rw [List.foldl_append, List.foldl_cons, List.foldl_nil]
  generalize run.foldl World.step (World.created name spec) = w at automated
  exact w.reconcile_synced succeeds (.inr (.inl automated))

/-- From the `Syncing` that a crash in the middle of an apply has left behind. -/
theorem automated_recovers_after_crash :
    ([Action.crash (.succeeding "v1" [] 0) 2, .reconcile (.succeeding "v2" [] 30)].foldl World.step
      (World.created "guestbook"
        { syncPolicy := some { automated := true } })).app.status.syncStatus = .synced :=
  ((automated_recovers "guestbook" { syncPolicy := some { automated := true } }
    [.crash (.succeeding "v1" [] 0) 2]).1 (.succeeding "v2" [] 30) "v2" []
    (Outcomes.succeeding_succeeds "v2" [] 30) (by decide)).1

end Wardn
