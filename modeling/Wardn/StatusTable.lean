import Wardn.World

/-!
# The statuses that can be stored

Of the combinations of sync status, health and condition that the types admit, a run reaches six and
the empty status (`Recorded`), whichever updates are lost and wherever a reconcile stops
(`World.run_recorded`).  There is one condition, `SyncError`; it is `True` with the text of the
failure or `False` without a text, and an application that is synced says since when.
-/

namespace Wardn

/-- `SyncError` is the only condition, and carries this flag and this text. -/
def GitApplicationStatus.Flagged (status : GitApplicationStatus) (flag message : String) : Prop :=
  ∃ cond, status.conditions = [cond] ∧ cond.type = "SyncError" ∧ cond.status = flag ∧
    cond.message = message

/-- The last accepted update, by the step of the reconcile that made it. -/
inductive Recorded : GitApplicationStatus → Prop
  | created : Recorded {}
  | unknown {status : GitApplicationStatus} (sync : status.syncStatus = .unknown)
    (health : status.healthStatus = .unknown) (revision : status.revision = "")
    (failed : ∃ err, status.Flagged "True" err) : Recorded status
  | unparsed {status : GitApplicationStatus} (sync : status.syncStatus = .outOfSync)
    (health : status.healthStatus = .unknown) (failed : ∃ err, status.Flagged "True" err) :
    Recorded status
  | held {status : GitApplicationStatus} (sync : status.syncStatus = .outOfSync)
    (health : status.healthStatus = .unknown) (fine : status.Flagged "False" "") : Recorded status
  | syncing {status : GitApplicationStatus} (sync : status.syncStatus = .syncing)
    (health : status.healthStatus = .progressing) (fine : status.Flagged "False" "") :
    Recorded status
  | degraded {status : GitApplicationStatus} (sync : status.syncStatus = .outOfSync)
    (health : status.healthStatus = .degraded) (failed : ∃ err, status.Flagged "True" err) :
    Recorded status
  | synced {status : GitApplicationStatus} (sync : status.syncStatus = .synced)
    (health : status.healthStatus = .healthy) (fine : status.Flagged "False" "")
    (since : status.lastSyncAt ≠ none) : Recorded status

theorem Recorded.conditions {status : GitApplicationStatus} (recorded : Recorded status) :
    status.conditions = [] ∨ ∃ flag message, status.Flagged flag message := by
  cases recorded with
  | created => exact .inl rfl
  | unknown sync health revision failed => exact .inr ⟨_, failed⟩
  | unparsed sync health failed => exact .inr ⟨_, failed⟩
  | held sync health fine => exact .inr ⟨_, _, fine⟩
  | syncing sync health fine => exact .inr ⟨_, _, fine⟩
  | degraded sync health failed => exact .inr ⟨_, failed⟩
  | synced sync health fine => exact .inr ⟨_, _, fine⟩

theorem Recorded.of_synced {status : GitApplicationStatus} (recorded : Recorded status)
    (synced : status.syncStatus = .synced) :
    status.Flagged "False" "" ∧ status.lastSyncAt ≠ none := by
  cases recorded with
  | synced sync health fine since => exact ⟨fine, since⟩
  | created => cases synced
  | unknown sync => exact absurd (sync.symm.trans synced) (by decide)
  | unparsed sync => exact absurd (sync.symm.trans synced) (by decide)
  | held sync => exact absurd (sync.symm.trans synced) (by decide)
  | syncing sync => exact absurd (sync.symm.trans synced) (by decide)
  | degraded sync => exact absurd (sync.symm.trans synced) (by decide)

/-- One call of `updateCondition` leaves the one condition, with what it was given. -/
theorem flagged_updateStatus {app : GitApplication}
    (before : app.status.conditions = [] ∨ ∃ flag message, app.status.Flagged flag message)
    (sync : SyncStatus) (health : HealthStatus) (revision : String) (resources : List Resource)
    (syncErr : Option String) (now : Time) :
    (updateStatus app sync health revision resources syncErr now).status.Flagged
      (if syncErr.isSome then "True" else "False") (syncErr.getD "") := by
  have updated := updateStatus_conditions app sync health revision resources syncErr now
  rcases before with none | ⟨flag, message, cond, single, type, -, -⟩
  · rw [none] at updated
    exact ⟨_, updated, rfl, rfl, rfl⟩
  · rw [single, updateCondition, if_pos type] at updated
    exact ⟨_, updated, type, rfl, rfl⟩

/-- What a reconcile submits for a recorded status is recorded. -/
theorem Recorded.submission {env : Outcomes} {app : GitApplication}
    (recorded : Recorded app.status) {status : GitApplicationStatus}
    (submission : Submission env app status) : Recorded status := by
  have conditions := recorded.conditions
  cases submission with
  | unknown clone =>
      exact .unknown rfl rfl rfl ⟨_, flagged_updateStatus conditions ..⟩
  | unparsed clone parse =>
      exact .unparsed rfl rfl ⟨_, flagged_updateStatus conditions ..⟩
  | held clone parse moved held => exact .held rfl rfl (flagged_updateStatus conditions ..)
  | syncing clone parse moved sync => exact .syncing rfl rfl (flagged_updateStatus conditions ..)
  | @degraded revision err resources clone parse moved sync failed =>
      have syncing := flagged_updateStatus conditions .syncing .progressing revision resources none
        (env.now 0)
      exact .degraded rfl rfl ⟨_, flagged_updateStatus (.inr ⟨_, _, syncing⟩) ..⟩
  | @synced revision resources clone parse moved sync applied =>
      exact .synced rfl rfl (flagged_updateStatus conditions .syncing .progressing revision
        resources none (env.now 0)) nofun
  | rechecked clone parse same =>
      -- The object is synced, and the update changes its health and its entries alone.
      obtain ⟨fine, since⟩ := recorded.of_synced same.2
      exact .synced same.2 rfl fine since

/-- Every status that a run can leave behind is one of the seven. -/
theorem World.run_recorded (name : String) (spec : GitApplicationSpec) (run : List Action) :
    Recorded (run.foldl World.step (World.created name spec)).app.status :=
  World.run_status_invariant (fun _ _ _ recorded submission => recorded.submission submission)
    .created run

end Wardn
