import Wardn.World

/-!
# Which alerts a reconcile sends

`sendNotification` is called on two ways through `Reconcile`: behind a failed apply and behind a
recorded success.  The alerts of a reconcile are read off its calls (`alerts`) and compared with its
events, each told from the calls and the submitted statuses as well.  `Unreported` lists the ways
on which an event is not dispatched, or its message not sent.
-/

namespace Wardn

/-- The three kinds of message. -/
inductive Alert
  | success
  | failure
  | degraded
  deriving DecidableEq, Repr

/-- The kind of a message is told by the sign it starts with. -/
def alertOf (message : String) : Option Alert :=
  match message.toList with
  | '✅' :: _ => some .success
  | '❌' :: _ => some .failure
  | '⚠' :: _ => some .degraded
  | _ => none

/-- The alerts among the calls, in their order. -/
def alerts (calls : List Effect) : List Alert :=
  calls.filterMap fun
    | .sendSlack _ message => alertOf message
    | _ => none

/-! ## Events -/

/-- A sync error was recorded: a status other than `Synced` with a true `SyncError`. -/
def RecordsSyncError (env : Outcomes) (app : GitApplication) : Prop :=
  ∃ status, Submits env app status ∧ status.syncStatus ≠ .synced ∧
    status.conditionStatus "SyncError" = some "True"

/-- The manifests were applied and `Synced` was stored, whether the answer came back or not. -/
def PersistsSynced (env : Outcomes) (app : GitApplication) : Prop :=
  .applyEnd none ∈ (reconcile env (some app)).effects ∧
    ∃ status, .statusUpdate status none ∈ (reconcile env (some app)).effects ∧
      status.syncStatus = .synced

/-- The health was not `Degraded` and a `Degraded` was submitted. -/
def MovesToDegraded (env : Outcomes) (app : GitApplication) : Prop :=
  app.status.healthStatus ≠ .degraded ∧
    ∃ status, Submits env app status ∧ status.healthStatus = .degraded

/-- Each alert is sent exactly for its event, and once. -/
structure AlertsFollowEvents (env : Outcomes) (app : GitApplication) (cfg : NotificationConfig) :
    Prop where
  failure : .failure ∈ alerts (reconcile env (some app)).effects ↔
    cfg.onSyncFailure = true ∧ RecordsSyncError env app
  success : .success ∈ alerts (reconcile env (some app)).effects ↔
    cfg.onSyncSuccess = true ∧ PersistsSynced env app
  degraded : .degraded ∈ alerts (reconcile env (some app)).effects ↔
    cfg.onHealthDegraded = true ∧ MovesToDegraded env app
  once : (alerts (reconcile env (some app)).effects).Nodup

/-- An apply of these resources fails: one of them does, or the prune the policy asks for. -/
def FailsToApply (env : Outcomes) (resources : List Resource) (syncPolicy : Option SyncPolicy) :
    Prop :=
  (∃ i < resources.length, env.applyResource i ≠ none) ∨
    (prunes syncPolicy = true ∧ env.pruneResources ≠ none)

/-- The reconcile gets to its apply, and the apply fails. -/
def ApplyFails (env : Outcomes) (app : GitApplication) : Prop :=
  ∃ revision resources, env.cloneOrPull = .ok revision ∧ env.parse = .ok resources ∧
    ¬ UpToDate app revision ∧ ShouldSync app ∧ FailsToApply env resources app.spec.syncPolicy

/-- `CloneOrPull` or `Parse` returns an error. -/
def FetchFails (env : Outcomes) : Prop :=
  (∃ err, env.cloneOrPull = .error err) ∨
    ∃ revision err, env.cloneOrPull = .ok revision ∧ env.parse = .error err

/-- The reconcile gets to its apply, the apply succeeds, and the update behind it is executed. -/
def Completes (env : Outcomes) (app : GitApplication) : Prop :=
  env.statusUpdate 1 = none ∧ ∃ revision resources, env.cloneOrPull = .ok revision ∧
    env.parse = .ok resources ∧ ¬ UpToDate app revision ∧ ShouldSync app ∧
      ¬ FailsToApply env resources app.spec.syncPolicy

/-- The ways on which an event that is asked for is not told. -/
inductive Untold (env : Outcomes) (app : GitApplication) (cfg : NotificationConfig) (url : String) :
    Prop
  /-- Nothing is dispatched for a failed clone or parse. -/
  | fetch (flagged : cfg.onSyncFailure = true) (fails : FetchFails env)
  /-- Nothing is dispatched for a fall to `Degraded`. -/
  | degraded (flagged : cfg.onHealthDegraded = true) (start : app.status.healthStatus ≠ .degraded)
    (fails : ApplyFails env app)
  /-- The update of step 7 is executed, but its answer is lost. -/
  | unanswered (flagged : cfg.onSyncSuccess = true) (completes : Completes env app)
    (lost : env.unanswered ≠ none)
  /-- No request can be made for the URL. -/
  | failureRefused (flagged : cfg.onSyncFailure = true) (fails : ApplyFails env app)
    (refused : env.newRequest url ≠ none)
  | successRefused (flagged : cfg.onSyncSuccess = true) (completes : Completes env app)
    (refused : env.newRequest url ≠ none)

/-- The object is read, and one of its events is not told. -/
def Unreported (env : Outcomes) (app : GitApplication) (cfg : NotificationConfig) (url : String) :
    Prop :=
  env.get = none ∧ Untold env app cfg url

/-! ## The alerts of a reconcile -/

/-- An apply fails exactly when it returns an error. -/
theorem failsToApply_iff (env : Outcomes) (resources : List Resource)
    (syncPolicy : Option SyncPolicy) :
    FailsToApply env resources syncPolicy ↔ (apply env resources syncPolicy).2 ≠ none := by
  rw [Ne, apply_err_eq_none_iff, FailsToApply, not_and_or]
  push Not
  rfl

theorem alerts_append (calls later : List Effect) :
    alerts (calls ++ later) = alerts calls ++ alerts later :=
  List.filterMap_append ..

theorem alerts_applyCalls {calls : List Effect} (all : ∀ e ∈ calls, e.IsApplyCall) :
    alerts calls = [] := by
  refine List.filterMap_eq_nil_iff.mpr fun e member => ?_
  cases all e member <;> rfl

theorem alerts_applyPhase {env : Outcomes} {app : GitApplication} {revision : String}
    {resources : List Resource} {calls : List Effect} {err : Option String}
    (applied : apply env resources app.spec.syncPolicy = (calls, err)) :
    alerts (applyPhase env app revision resources calls err) = [] := by
  have silent := apply_isApplyCall env resources app.spec.syncPolicy
  rw [applied] at silent
  change alerts (calls ++ [.applyEnd err]) = []
  rw [alerts_append, alerts_applyCalls silent]
  rfl

section Configured

variable {app : GitApplication} {cfg : NotificationConfig} {slack : SlackConfig}

/-- With a Slack URL that a request can be made for, a flag that is set sends its message. -/
theorem sendNotification_eq (env : Outcomes) (configured : app.spec.notifications = some cfg)
    (channel : cfg.slack = some slack) (url : slack.webhookURL ≠ "") (success : Bool)
    (err : Option String) :
    alerts (sendNotification env app success err) =
      if env.newRequest slack.webhookURL = none then
        (if success then (if cfg.onSyncSuccess then [.success] else [])
        else if cfg.onSyncFailure then [.failure] else [])
      else [] := by
  cases requested : env.newRequest slack.webhookURL <;> cases success <;>
    cases flagged : cfg.onSyncSuccess <;> cases flagged' : cfg.onSyncFailure <;>
    simp [sendNotification, dispatch, sendSlack, configured, channel, url, flagged, flagged',
      requested, alerts, alertOf]

end Configured

/-! ## The ways through a reconcile, for its events -/

/-- A reconcile with one update and nothing else alerts nobody. -/
theorem alerts_update (env : Outcomes) (last : GitApplication) :
    alerts [env.update 0 last] = [] := by
  simp [Outcomes.update, alerts]

theorem applyFails_of_failed {env : Outcomes} {app : GitApplication} {revision err : String}
    {resources : List Resource} (clone : env.cloneOrPull = .ok revision)
    (parse : env.parse = .ok resources) (moved : ¬ UpToDate app revision) (sync : ShouldSync app)
    (failed : (apply env resources app.spec.syncPolicy).2 = some err) :
    ApplyFails env app := by
  refine ⟨revision, resources, clone, parse, moved, sync, ?_⟩
  rw [failsToApply_iff, failed]
  exact Option.some_ne_none err

/-- An apply that returns no error, with the update of step 7 executed or not. -/
theorem completes_iff_of_applied {env : Outcomes} {app : GitApplication} {revision : String}
    {resources : List Resource} {calls : List Effect} (clone : env.cloneOrPull = .ok revision)
    (parse : env.parse = .ok resources) (moved : ¬ UpToDate app revision) (sync : ShouldSync app)
    (applied : apply env resources app.spec.syncPolicy = (calls, none)) :
    ¬ ApplyFails env app ∧ (Completes env app ↔ env.statusUpdate 1 = none) := by
  have fine : ¬ FailsToApply env resources app.spec.syncPolicy := by
    rw [failsToApply_iff, applied]
    exact not_not_intro rfl
  refine ⟨?_, fun completes => completes.1, fun executed => ?_⟩
  · rintro ⟨revision', resources', -, parse', -, -, fails⟩
    cases parse.symm.trans parse'
    exact fine fails
  · exact ⟨executed, revision, resources, clone, parse, moved, sync, fine⟩

/-- A reconcile that does not get to its apply neither fails nor completes one. -/
theorem idle_of_not_shouldSync {env : Outcomes} {app : GitApplication}
    (idle : ∀ revision resources, env.cloneOrPull = .ok revision → env.parse = .ok resources →
      ¬ UpToDate app revision → ¬ ShouldSync app) :
    ¬ ApplyFails env app ∧ ¬ Completes env app := by
  constructor
  · rintro ⟨revision, resources, clone, parse, moved, sync, -⟩
    exact idle revision resources clone parse moved sync
  · rintro ⟨-, revision, resources, clone, parse, moved, sync, -⟩
    exact idle revision resources clone parse moved sync

/-- What a reconcile dispatches: nothing, the alert of a failed apply, or the alert of an apply that
has succeeded and been recorded. -/
theorem alerts_reconcileApp (env : Outcomes) (app : GitApplication) :
    let sent := alerts (reconcileApp env app).effects
    (¬ ApplyFails env app ∧ ¬ Completes env app ∧ sent = []) ∨
    (ApplyFails env app ∧ ¬ Completes env app ∧ ∃ last : GitApplication, last.spec = app.spec ∧
      ∃ err, sent = alerts (sendNotification env last false err)) ∨
    (¬ ApplyFails env app ∧ Completes env app ∧ env.unanswered ≠ none ∧ sent = []) ∨
    (¬ ApplyFails env app ∧ Completes env app ∧ env.unanswered = none ∧
      ∃ last : GitApplication, last.spec = app.spec ∧
        sent = alerts (sendNotification env last true none)) := by
  intro sent
  have passage := reconcileApp_passage env app
  subst sent
  generalize reconcileApp env app = reconciliation at passage
  cases passage with
  | cloneFailed clone =>
      refine .inl (and_assoc.mp ⟨idle_of_not_shouldSync ?_, alerts_update env _⟩)
      intro revision resources clone'
      cases clone.symm.trans clone'
  | parseFailed clone parse =>
      refine .inl (and_assoc.mp ⟨idle_of_not_shouldSync ?_, alerts_update env _⟩)
      intro revision resources _ parse'
      cases parse.symm.trans parse'
  | upToDate clone parse same =>
      refine .inl (and_assoc.mp ⟨idle_of_not_shouldSync ?_, alerts_update env _⟩)
      intro revision resources clone' _ moved
      cases clone.symm.trans clone'
      exact absurd same moved
  | heldBack clone parse moved held =>
      refine .inl (and_assoc.mp ⟨idle_of_not_shouldSync ?_, alerts_update env _⟩)
      exact fun _ _ _ _ _ => held
  | @applyFailed revision err resources calls clone parse moved sync failed =>
      refine .inr (.inl ⟨applyFails_of_failed clone parse moved sync (by rw [failed]), ?_,
        env.degradedApp app revision resources err, rfl, some err, ?_⟩)
      · rintro ⟨-, revision', resources', -, parse', -, -, fine⟩
        cases parse.symm.trans parse'
        rw [failsToApply_iff, failed] at fine
        exact fine (Option.some_ne_none err)
      · rw [alerts_append, alerts_applyPhase failed]
        rfl
  | @unrecorded revision err resources calls clone parse moved sync applied write =>
      obtain ⟨fine, completes⟩ := completes_iff_of_applied clone parse moved sync applied
      have sent : alerts (applyPhase env app revision resources calls none ++
          [env.update 1 (env.syncedApp app revision resources)]) = [] := by
        rw [alerts_append, alerts_applyPhase applied]
        rfl
      unfold Outcomes.recordErr at write
      cases executed : env.statusUpdate 1 with
      | some err' => exact .inl ⟨fine, by simp [completes, executed], sent⟩
      | none =>
          rw [executed, Option.none_or] at write
          exact .inr (.inr (.inl ⟨fine, completes.mpr executed, by simp [write], sent⟩))
  | @synced revision resources calls clone parse moved sync applied write =>
      obtain ⟨fine, completes⟩ := completes_iff_of_applied clone parse moved sync applied
      obtain ⟨executed, answered⟩ := Option.or_eq_none_iff.mp write
      refine .inr (.inr (.inr ⟨fine, completes.mpr executed, answered,
        env.syncedApp app revision resources, rfl, ?_⟩))
      rw [alerts_append, alerts_applyPhase applied]
      rfl

/-! ## The events -/

theorem syncError_updateStatus (app : GitApplication) (sync : SyncStatus) (health : HealthStatus)
    (revision : String) (resources : List Resource) (syncErr : Option String) (now : Time) :
    (updateStatus app sync health revision resources syncErr now).status.conditionStatus
      "SyncError" = some (if syncErr.isSome then "True" else "False") := by
  obtain ⟨cond, found, status, -⟩ :=
    find_syncError_updateStatus app sync health revision resources syncErr now
  exact (congrArg (Option.map Condition.status) found).trans (congrArg some status)

/-- A reconcile records an error exactly when the fetch or the apply fails. -/
theorem recordsSyncError_iff (env : Outcomes) (app : GitApplication) :
    RecordsSyncError env app ↔ env.get = none ∧ (FetchFails env ∨ ApplyFails env app) := by
  refine ⟨fun recorded => ?_, fun event => ?_⟩
  · obtain ⟨status, submits, unsynced, syncError⟩ := recorded
    obtain ⟨get, submission⟩ := (submits_iff env app status).mp submits
    refine ⟨get, ?_⟩
    cases submission with
    | unknown clone => exact .inl (.inl ⟨_, clone⟩)
    | unparsed clone parse => exact .inl (.inr ⟨_, _, clone, parse⟩)
    | rechecked clone parse same => exact absurd same.2 unsynced
    | held => simp [syncError_updateStatus] at syncError
    | syncing => simp [syncError_updateStatus] at syncError
    | degraded clone parse moved sync failed =>
        exact .inr (applyFails_of_failed clone parse moved sync failed)
    | synced => exact absurd rfl unsynced
  · obtain ⟨get, event⟩ := event
    have recorded : ∀ status, Submission env app status → status.syncStatus ≠ .synced →
        status.conditionStatus "SyncError" = some "True" → RecordsSyncError env app :=
      fun status submission unsynced syncError =>
        ⟨status, (submits_iff env app status).mpr ⟨get, submission⟩, unsynced, syncError⟩
    rcases event with (⟨err, clone⟩ | ⟨revision, err, clone, parse⟩) | fails
    · exact recorded _ (.unknown clone) (by simp) (syncError_updateStatus ..)
    · exact recorded _ (.unparsed clone parse) (by simp) (syncError_updateStatus ..)
    · obtain ⟨revision, resources, clone, parse, moved, sync, fails⟩ := fails
      obtain ⟨err, failed⟩ := Option.ne_none_iff_exists'.mp ((failsToApply_iff ..).mp fails)
      exact recorded _ (.degraded clone parse moved sync failed) (by simp)
        (syncError_updateStatus ..)

/-- The health moves to `Degraded` exactly when an apply fails on an object that was not. -/
theorem movesToDegraded_iff (env : Outcomes) (app : GitApplication) :
    MovesToDegraded env app ↔
      app.status.healthStatus ≠ .degraded ∧ env.get = none ∧ ApplyFails env app := by
  refine and_congr_right fun start => ⟨fun moves => ?_, fun event => ?_⟩
  · obtain ⟨status, submits, degraded⟩ := moves
    obtain ⟨get, submission⟩ := (submits_iff env app status).mp submits
    refine ⟨get, ?_⟩
    cases submission with
    | unknown => cases degraded
    | unparsed => cases degraded
    | rechecked => cases degraded
    | held => cases degraded
    | syncing => cases degraded
    | synced => cases degraded
    | degraded clone parse moved sync failed =>
        exact applyFails_of_failed clone parse moved sync failed
  · obtain ⟨get, revision, resources, clone, parse, moved, sync, fails⟩ := event
    obtain ⟨err, failed⟩ := Option.ne_none_iff_exists'.mp ((failsToApply_iff ..).mp fails)
    exact ⟨_, (submits_iff ..).mpr ⟨get, .degraded clone parse moved sync failed⟩, rfl⟩

/-- A `Synced` is stored behind an apply exactly when the apply succeeds and its update is
executed. -/
theorem persistsSynced_iff (env : Outcomes) (app : GitApplication) :
    PersistsSynced env app ↔ env.get = none ∧ Completes env app := by
  unfold PersistsSynced reconcile
  cases get : env.get with
  | some err => simp
  | none =>
      simp only [true_and]
      refine ⟨fun persisted => ?_, fun completes => ?_⟩
      · obtain ⟨returned, status, stored, synced⟩ := persisted
        have passage := reconcileApp_passage env app
        generalize reconcileApp env app = reconciliation at passage stored returned
        have quick : ∀ {last}, .applyEnd none ∈ [env.update 0 last] → Completes env app :=
          fun member => by cases List.mem_singleton.mp member
        cases passage with
        | cloneFailed => exact quick returned
        | parseFailed => exact quick returned
        | upToDate => exact quick returned
        | heldBack => exact quick returned
        | applyFailed clone parse moved sync failed =>
            rcases (mem_statusUpdate_of_applied failed _ (not_statusUpdate_sendNotification _ _ _ _)
              _ _).mp stored with ⟨rfl, -⟩ | ⟨rfl, -⟩
            · cases synced
            · cases synced
        | unrecorded clone parse moved sync applied write =>
            rcases (mem_statusUpdate_of_applied applied _ (fun _ _ => List.not_mem_nil) _ _).mp
              stored with ⟨rfl, -⟩ | ⟨-, executed⟩
            · cases synced
            · exact (completes_iff_of_applied clone parse moved sync applied).2.mpr executed.symm
        | synced clone parse moved sync applied write =>
            rcases (mem_statusUpdate_of_applied applied _
              (not_statusUpdate_sendNotification _ _ _ _) _ _).mp stored with
              ⟨rfl, -⟩ | ⟨-, executed⟩
            · cases synced
            · exact (completes_iff_of_applied clone parse moved sync applied).2.mpr executed.symm
      · obtain ⟨executed, revision, resources, clone, parse, moved, sync, fine⟩ := completes
        rw [failsToApply_iff, not_not] at fine
        obtain ⟨messages, effects⟩ := reconcileApp_effects_of_sync clone parse moved sync fine
        rw [effects]
        have stored : .statusUpdate (env.syncedApp app revision resources).status
            (env.statusUpdate 1) ∈
              env.update 1 (env.syncedApp app revision resources) :: messages :=
          List.mem_cons_self
        rw [executed] at stored
        exact ⟨List.mem_append_left _ (by simp [applyPhase]), _, List.mem_append_right _ stored,
          rfl⟩

theorem not_applyFails_of_fetchFails {env : Outcomes} {app : GitApplication}
    (fetch : FetchFails env) : ¬ ApplyFails env app := by
  refine (idle_of_not_shouldSync fun revision resources clone parse => ?_).1
  rcases fetch with ⟨err, clone'⟩ | ⟨revision', err, -, parse'⟩
  · cases clone.symm.trans clone'
  · cases parse.symm.trans parse'

/-! ## Alerts and events -/

section Configured

variable (env : Outcomes) {app : GitApplication} {cfg : NotificationConfig} {slack : SlackConfig}

/-- With a Slack URL the alerts of a reconcile are the one of its failed apply or of its recorded
success, when the flag for it is set and a request can be made. -/
theorem alerts_reconcile (configured : app.spec.notifications = some cfg)
    (channel : cfg.slack = some slack) (url : slack.webhookURL ≠ "") :
    let sent := alerts (reconcile env (some app)).effects
    let failing := env.get = none ∧ ApplyFails env app
    let requested := env.newRequest slack.webhookURL = none
    (¬ failing ∧ ¬ PersistsSynced env app ∧ sent = []) ∨
    (failing ∧ ¬ PersistsSynced env app ∧
      sent = if requested ∧ cfg.onSyncFailure then [.failure] else []) ∨
    (¬ failing ∧ PersistsSynced env app ∧
      sent = if requested ∧ env.unanswered = none ∧ cfg.onSyncSuccess then [.success] else []) := by
  rw [persistsSynced_iff]
  unfold reconcile
  cases get : env.get with
  | some err => simp [alerts]
  | none =>
      simp only [true_and]
      rcases alerts_reconcileApp env app with ⟨fine, open_, sent⟩ |
        ⟨fails, open_, last, spec, err, sent⟩ | ⟨fine, completes, lost, sent⟩ |
        ⟨fine, completes, answered, last, spec, sent⟩
      · exact .inl ⟨fine, open_, sent⟩
      · rw [sendNotification_eq env (spec ▸ configured) channel url] at sent
        exact .inr (.inl ⟨fails, open_, by rw [sent, ite_and]; rfl⟩)
      · exact .inr (.inr ⟨fine, completes, by rw [sent]; simp [lost]⟩)
      · rw [sendNotification_eq env (spec ▸ configured) channel url] at sent
        exact .inr (.inr ⟨fine, completes, by rw [sent, ite_and]; simp [answered]⟩)

/-- When a failure is sent. -/
theorem failure_mem_alerts_iff (configured : app.spec.notifications = some cfg)
    (channel : cfg.slack = some slack) (url : slack.webhookURL ≠ "") :
    .failure ∈ alerts (reconcile env (some app)).effects ↔
      cfg.onSyncFailure = true ∧ env.newRequest slack.webhookURL = none ∧
        env.get = none ∧ ApplyFails env app := by
  rcases alerts_reconcile env configured channel url with
    ⟨fine, -, sent⟩ | ⟨failing, -, sent⟩ | ⟨fine, -, sent⟩
  · simp only [sent, fine, List.not_mem_nil, and_false]
  · rw [sent]
    by_cases requested : env.newRequest slack.webhookURL = none <;> cases cfg.onSyncFailure <;>
      simp [failing, requested]
  · rw [sent]
    split <;> simp [fine]

/-- When a success is sent. -/
theorem success_mem_alerts_iff (configured : app.spec.notifications = some cfg)
    (channel : cfg.slack = some slack) (url : slack.webhookURL ≠ "") :
    .success ∈ alerts (reconcile env (some app)).effects ↔
      cfg.onSyncSuccess = true ∧ env.newRequest slack.webhookURL = none ∧
        env.unanswered = none ∧ PersistsSynced env app := by
  rcases alerts_reconcile env configured channel url with
    ⟨-, lost, sent⟩ | ⟨-, lost, sent⟩ | ⟨-, persisted, sent⟩
  · simp only [sent, lost, List.not_mem_nil, and_false]
  · rw [sent]
    split <;> simp [lost]
  · rw [sent]
    by_cases requested : env.newRequest slack.webhookURL = none <;>
      by_cases answered : env.unanswered = none <;> cases cfg.onSyncSuccess <;>
      simp [persisted, requested, answered]

/-- No degraded alert is ever sent, and no alert twice. -/
theorem degraded_not_mem_alerts (configured : app.spec.notifications = some cfg)
    (channel : cfg.slack = some slack) (url : slack.webhookURL ≠ "") :
    .degraded ∉ alerts (reconcile env (some app)).effects ∧
      (alerts (reconcile env (some app)).effects).Nodup := by
  rcases alerts_reconcile env configured channel url with
    ⟨-, -, sent⟩ | ⟨-, -, sent⟩ | ⟨-, -, sent⟩
  · simp [sent]
  · rw [sent]
    split <;> simp
  · rw [sent]
    split <;> simp

end Configured

/-- **Alerts.**  With a Slack URL, each alert is sent exactly for its event unless one of the events
that are asked for stays untold. -/
theorem alerts_follow_events_iff (env : Outcomes) {app : GitApplication}
    {cfg : NotificationConfig} {slack : SlackConfig}
    (configured : app.spec.notifications = some cfg) (channel : cfg.slack = some slack)
    (url : slack.webhookURL ≠ "") :
    AlertsFollowEvents env app cfg ↔ ¬ Unreported env app cfg slack.webhookURL := by
  have failure := failure_mem_alerts_iff env configured channel url
  have success := success_mem_alerts_iff env configured channel url
  have undegraded := degraded_not_mem_alerts env configured channel url
  refine ⟨fun follow unreported => ?_, fun reported => ?_⟩
  · obtain ⟨get, untold⟩ := unreported
    cases untold with
    | fetch flagged fetch =>
        have sent := follow.failure.mpr
          ⟨flagged, (recordsSyncError_iff env app).mpr ⟨get, .inl fetch⟩⟩
        exact not_applyFails_of_fetchFails fetch (failure.mp sent).2.2.2
    | degraded flagged start fails =>
        have sent := follow.degraded.mpr
          ⟨flagged, (movesToDegraded_iff env app).mpr ⟨start, get, fails⟩⟩
        exact undegraded.1 sent
    | unanswered flagged completes lost =>
        have sent := follow.success.mpr
          ⟨flagged, (persistsSynced_iff env app).mpr ⟨get, completes⟩⟩
        exact lost (success.mp sent).2.2.1
    | failureRefused flagged fails refused =>
        have sent := follow.failure.mpr
          ⟨flagged, (recordsSyncError_iff env app).mpr ⟨get, .inr fails⟩⟩
        exact refused (failure.mp sent).2.1
    | successRefused flagged completes refused =>
        have sent := follow.success.mpr
          ⟨flagged, (persistsSynced_iff env app).mpr ⟨get, completes⟩⟩
        exact refused (success.mp sent).2.1
  · refine ⟨?_, ?_, ?_, undegraded.2⟩
    · rw [failure, recordsSyncError_iff]
      refine and_congr_right fun flagged => ⟨fun sent => ⟨sent.2.1, .inr sent.2.2⟩, fun event => ?_⟩
      obtain ⟨get, fetch | fails⟩ := event
      · exact absurd ⟨get, .fetch flagged fetch⟩ reported
      · refine ⟨not_not.mp fun refused => ?_, get, fails⟩
        exact reported ⟨get, .failureRefused flagged fails refused⟩
    · rw [success]
      refine and_congr_right fun flagged => ⟨fun sent => sent.2.2, fun persisted => ?_⟩
      obtain ⟨get, completes⟩ := (persistsSynced_iff env app).mp persisted
      refine ⟨not_not.mp fun refused => ?_, not_not.mp fun lost => ?_, persisted⟩
      · exact reported ⟨get, .successRefused flagged completes refused⟩
      · exact reported ⟨get, .unanswered flagged completes lost⟩
    · refine ⟨fun sent => absurd sent undegraded.1, fun event => ?_⟩
      obtain ⟨flagged, moves⟩ := event
      obtain ⟨start, get, fails⟩ := (movesToDegraded_iff env app).mp moves
      exact absurd ⟨get, .degraded flagged start fails⟩ reported

/-- Every alert switched on. -/
def everyAlert : NotificationConfig :=
  { slack := some { webhookURL := "https://hooks.slack.com/services/T000/B000/XXX" }
    onSyncSuccess := true, onSyncFailure := true, onHealthDegraded := true }

def alertedApp : GitApplication :=
  { name := "shop", spec := { notifications := some everyAlert } }

/-- A first sync in which nothing fails. -/
theorem alerts_follow_first_sync :
    AlertsFollowEvents (.succeeding "c1" [] 0) alertedApp everyAlert := by
  have succeeds : ¬ ApplyFails (.succeeding "c1" [] 0) alertedApp := by
    simp [ApplyFails, FailsToApply, Outcomes.succeeding]
  refine (alerts_follow_events_iff (.succeeding "c1" [] 0) rfl rfl (by decide)).mpr ?_
  rintro ⟨-, untold⟩
  cases untold with
  | fetch flagged fails => simp [FetchFails, Outcomes.succeeding] at fails
  | degraded flagged start fails => exact succeeds fails
  | unanswered flagged completes lost => exact lost rfl
  | failureRefused flagged fails refused => exact succeeds fails
  | successRefused flagged completes refused => exact refused rfl

/-- The answers of a reconcile that cannot reach the repository. -/
def unreachableRepository : Outcomes :=
  { cloneOrPull := .error "failed to fetch", parse := .ok [], now := fun _ => 0 }

/-- A failed clone is recorded and nobody is told. -/
theorem failed_clone_not_alerted :
    ¬ AlertsFollowEvents unreachableRepository alertedApp everyAlert := by
  intro follow
  have recorded := (recordsSyncError_iff unreachableRepository alertedApp).mpr
    ⟨rfl, .inl (.inl ⟨_, rfl⟩)⟩
  have sent := follow.failure.mpr ⟨rfl, recorded⟩
  simp [reconcile, reconcileApp, alerts, Outcomes.update, unreachableRepository] at sent

end Wardn
