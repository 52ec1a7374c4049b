import Wardn.CrashConsistency

/-!
# What an attempt to apply is of

A reconcile enters `Applier.Apply` with the revision its clone returned and the manifests its
parse returned, under the spec it read (`World.mem_calls_applyStart`), so what holds of every such
triple holds of every attempt of a run (`World.step_applies`).

`World.Completed` is what is left of crash consistency when status writes are lost: a stored
`Synced` names a revision of which some attempt has completed, if not the last one.  Every action
keeps it.
-/

namespace Wardn

open Runs

/-! ## The start of an apply -/

theorem not_applyStart_of_isApplyCall {calls : List Effect} (all : ∀ e ∈ calls, e.IsApplyCall)
    (revision : String) (resources : List Resource) :
    Effect.applyStart revision resources ∉ calls := by
  intro member
  cases all _ member

theorem not_applyStart_sendNotification (env : Outcomes) (app : GitApplication) (success : Bool)
    (err : Option String) (revision : String) (resources : List Resource) :
    Effect.applyStart revision resources ∉ sendNotification env app success err := by
  intro member
  obtain ⟨url, message, slack⟩ := sendNotification_isSlack env app success err _ member
  cases slack

/-- An apply that is started by a way through step 5. -/
theorem mem_applyStart_of_applied {env : Outcomes} {app : GitApplication}
    {revision revision' : String} {resources resources' : List Resource} {calls : List Effect}
    {applyErr : Option String}
    (applied : apply env resources app.spec.syncPolicy = (calls, applyErr))
    (last : GitApplication) {messages : List Effect}
    (quiet : Effect.applyStart revision' resources' ∉ messages)
    (member : Effect.applyStart revision' resources' ∈
      applyPhase env app revision resources calls applyErr ++ env.update 1 last :: messages) :
    revision' = revision ∧ resources' = resources := by
  have silent := apply_isApplyCall env resources app.spec.syncPolicy
  rw [applied] at silent
  rw [applyPhase, List.mem_append] at member
  simpa [Outcomes.update, not_applyStart_of_isApplyCall silent, quiet] using member

/-- An apply starts behind a successful read, clone and parse, with what these have returned. -/
theorem World.mem_calls_applyStart {w : World} {env : Outcomes} {revision : String}
    {resources : List Resource} (member : .applyStart revision resources ∈ w.calls env) :
    env.get = none ∧ env.cloneOrPull = .ok revision ∧ env.parse = .ok resources := by
  cases get : env.get with
  | some err =>
      rw [World.calls_of_get_eq_some get] at member
      cases member
  | none =>
      rw [World.calls_of_get_eq_none get] at member
      have passage := reconcileApp_passage env w.app
      generalize reconcileApp env w.app = reconciliation at passage member
      cases passage with
      | cloneFailed => cases List.mem_singleton.mp member
      | parseFailed => cases List.mem_singleton.mp member
      | upToDate => cases List.mem_singleton.mp member
      | heldBack => cases List.mem_singleton.mp member
      | applyFailed clone parse moved sync failed =>
          obtain ⟨rfl, rfl⟩ := mem_applyStart_of_applied failed _
            (not_applyStart_sendNotification _ _ _ _ _ _) member
          exact ⟨rfl, clone, parse⟩
      | unrecorded clone parse moved sync applied write =>
          obtain ⟨rfl, rfl⟩ := mem_applyStart_of_applied applied _ List.not_mem_nil member
          exact ⟨rfl, clone, parse⟩
      | synced clone parse moved sync applied write =>
          obtain ⟨rfl, rfl⟩ := mem_applyStart_of_applied applied _
            (not_applyStart_sendNotification _ _ _ _ _ _) member
          exact ⟨rfl, clone, parse⟩

/-! ## Attempts -/

section Attempts

variable {T : String → List Resource → GitApplicationSpec → Prop}

/-- Every attempt is of a triple of the relation, whatever its outcome. -/
def World.AppliesOf (T : String → List Resource → GitApplicationSpec → Prop) (w : World) : Prop :=
  ∀ attempt ∈ w.applies, T attempt.revision attempt.resources attempt.spec

@[simp] theorem World.exec_spec (w : World) (e : Effect) : (w.exec e).app.spec = w.app.spec := by
  cases e with
  | statusUpdate status err => exact World.write_spec w status err
  | applyEnd err => cases applies : w.applies <;> simp [World.exec, applies]
  | _ => rfl

/-- A call adds at most the apply that it starts. -/
theorem World.exec_applies {w : World} {e : Effect}
    (started : ∀ revision resources, e = .applyStart revision resources →
      T revision resources w.app.spec)
    (before : w.AppliesOf T) : (w.exec e).AppliesOf T := by
  cases e with
  | statusUpdate status err =>
      unfold World.AppliesOf
      rw [World.exec, World.write_applies]
      exact before
  | applyStart revision resources =>
      intro attempt member
      rcases List.mem_cons.mp member with rfl | member
      · exact started revision resources rfl
      · exact before attempt member
  | applyEnd err =>
      unfold World.AppliesOf World.exec
      cases applies : w.applies with
      | nil =>
          intro attempt member
          cases applies ▸ member
      | cons open' earlier =>
          intro attempt member
          rcases List.mem_cons.mp member with rfl | member
          · exact before open' (applies ▸ List.mem_cons_self)
          · exact before attempt (applies ▸ List.mem_cons_of_mem open' member)
  | applyResource res err => exact before
  | pruneResources desired err => exact before
  | sendSlack url message => exact before

/-- The same for a stretch of calls. -/
theorem World.foldl_exec_applies {effects : List Effect} {w : World}
    (started : ∀ revision resources, .applyStart revision resources ∈ effects →
      T revision resources w.app.spec)
    (before : w.AppliesOf T) : (effects.foldl World.exec w).AppliesOf T := by
  induction effects generalizing w with
  | nil => exact before
  | cons e effects ih =>
      have first := World.exec_applies
        (fun revision resources same => started revision resources (same ▸ List.mem_cons_self))
        before
      refine ih (fun revision resources member => ?_) first
      rw [World.exec_spec]
      exact started revision resources (List.mem_cons_of_mem e member)

/-- The reconcile of an action, run to its end or not. -/
def Action.Meets (env : Outcomes) : Action → Prop
  | .reconcile env' => env' = env
  | .crash env' _ => env' = env
  | .edit _ => False

/-- What every apply that starts satisfies, an action keeps true of the recorded applies. -/
theorem World.step_applies {w : World} {a : Action}
    (started : ∀ env revision resources, a.Meets env → env.get = none →
      env.cloneOrPull = .ok revision → env.parse = .ok resources → T revision resources w.app.spec)
    (before : w.AppliesOf T) : (w.step a).AppliesOf T := by
  cases a with
  | reconcile env =>
      refine World.foldl_exec_applies (fun revision resources member => ?_) before
      obtain ⟨get, clone, parse⟩ := World.mem_calls_applyStart member
      exact started env revision resources rfl get clone parse
  | crash env stop =>
      refine World.foldl_exec_applies (fun revision resources member => ?_) before
      obtain ⟨get, clone, parse⟩ := World.mem_calls_applyStart (List.mem_of_mem_take member)
      exact started env revision resources rfl get clone parse
  | edit spec => exact before

end Attempts

/-! ## Completed attempts -/

/-- A stored `Synced` names a revision of which an attempt has completed. -/
def World.Completed (w : World) : Prop :=
  w.app.status.syncStatus = .synced →
    ∃ attempt ∈ w.applies, attempt.revision = w.app.status.revision ∧ attempt.outcome = some none

theorem World.completed_of_ne_synced {w : World} (unsynced : w.app.status.syncStatus ≠ .synced) :
    w.Completed :=
  fun synced => absurd synced unsynced

theorem World.completed_write {w : World} {status : GitApplicationStatus} (stored : w.Completed)
    (unsynced : status.syncStatus ≠ .synced) (err : Option String) :
    (w.write status err).Completed := by
  cases err with
  | none => exact World.completed_of_ne_synced unsynced
  | some err => exact stored

theorem World.completed_marked {w : World} (stored : w.Completed) (env : Outcomes)
    (revision : String) (resources : List Resource) :
    (w.write (env.syncingApp w.app revision resources).status (env.statusUpdate 0)).Completed :=
  World.completed_write stored (by simp) _

/-- An attempt more, open or returned. -/
theorem World.completed_cons {w : World} (stored : w.Completed) (attempt : ApplyAttempt) :
    World.Completed { w with applies := attempt :: w.applies } := by
  intro synced
  obtain ⟨completed, member, same, done⟩ := stored synced
  exact ⟨completed, List.mem_cons_of_mem attempt member, same, done⟩

/-- The invariant holds at each of the messages. -/
theorem World.along_completed_messages {w : World} (stored : w.Completed) (env : Outcomes)
    (app : GitApplication) (success : Bool) (err : Option String) :
    Along World.exec (fun w e => (w.exec e).Completed) w
      (sendNotification env app success err) := by
  refine along_of_silent (fun e member w => ?_) stored
  obtain ⟨url, message, rfl⟩ := sendNotification_isSlack env app success err e member
  rfl

/-- The invariant holds at each call of the apply phase: `Synced` is written behind an apply that
has ended well. -/
theorem World.along_completed_applyPhase {w : World} (stored : w.Completed) {env : Outcomes}
    {revision : String} {resources : List Resource} {calls : List Effect} {err : Option String}
    (applied : apply env resources w.app.spec.syncPolicy = (calls, err)) :
    Along World.exec (fun w e => (w.exec e).Completed) w
      (applyPhase env w.app revision resources calls err) := by
  have silent := apply_isApplyCall env resources w.app.spec.syncPolicy
  rw [applied] at silent
  have quiet : ∀ e ∈ calls, ∀ w, World.exec w e = w :=
    fun e member w => World.exec_of_isApplyCall (silent e member) w
  have marked := World.completed_marked stored env revision resources
  have started := World.completed_cons marked
  rw [applyPhase, along_cons, along_cons, along_append, foldl_of_silent quiet]
  exact ⟨marked, started _, along_of_silent quiet (started _), started _, trivial⟩

/-- The attempt that has just returned is the one that the `Synced` of step 7 names. -/
theorem World.completed_recorded {w : World} (stored : w.Completed) (env : Outcomes)
    (revision : String) (resources : List Resource) (err : Option String) :
    World.Completed (((w.write (env.syncingApp w.app revision resources).status
      (env.statusUpdate 0)).attempted revision resources none).write
      (env.syncedApp w.app revision resources).status err) := by
  cases err with
  | none => exact fun _ => ⟨_, List.mem_cons_self, rfl, rfl⟩
  | some err => exact World.completed_cons (World.completed_marked stored env revision resources) _

/-- Whatever is lost, every world a reconcile passes through has completed what it stores as
`Synced`. -/
theorem World.along_completed {w : World} (stored : w.Completed) (env : Outcomes) :
    Along World.exec (fun w e => (w.exec e).Completed) w (w.calls env) := by
  cases get : env.get with
  | some err =>
      rw [World.calls_of_get_eq_some get]
      trivial
  | none =>
      rw [World.calls_of_get_eq_none get]
      have passage := reconcileApp_passage env w.app
      generalize reconcileApp env w.app = reconciliation at passage
      cases passage with
      | cloneFailed clone => exact ⟨World.completed_write stored (by simp) _, trivial⟩
      | parseFailed clone parse => exact ⟨World.completed_write stored (by simp) _, trivial⟩
      | @upToDate revision resources clone parse same =>
          have after : ∀ err, (w.write (recheckedApp w.app resources).status err).Completed := by
            intro err
            cases err with
            | none => exact stored
            | some err => exact stored
          exact ⟨after _, trivial⟩
      | heldBack clone parse moved held =>
          exact ⟨World.completed_write stored (by simp) _, trivial⟩
      | @applyFailed revision err resources calls clone parse moved sync failed =>
          have returned : World.Completed
              ((w.write (env.syncingApp w.app revision resources).status
                (env.statusUpdate 0)).attempted revision resources (some err)) :=
            World.completed_cons (World.completed_marked stored env revision resources) _
          have after := World.completed_write returned
            (show (env.degradedApp w.app revision resources err).status.syncStatus ≠ .synced by
              simp) (env.statusUpdate 1)
          rw [along_append, World.foldl_exec_applyPhase w failed]
          exact ⟨World.along_completed_applyPhase stored failed, after,
            World.along_completed_messages after _ _ _ _⟩
      | @unrecorded revision err resources calls clone parse moved sync applied write =>
          rw [along_append, World.foldl_exec_applyPhase w applied, along_cons, World.exec_update]
          exact ⟨World.along_completed_applyPhase stored applied,
            World.completed_recorded stored env revision resources _, trivial⟩
      | @synced revision resources calls clone parse moved sync applied write =>
          have after := World.completed_recorded stored env revision resources (env.statusUpdate 1)
          rw [along_append, World.foldl_exec_applyPhase w applied, along_cons, World.exec_update]
          exact ⟨World.along_completed_applyPhase stored applied, after,
            World.along_completed_messages after _ _ _ _⟩

/-- Every action keeps the invariant. -/
theorem World.Completed.step {w : World} (stored : w.Completed) (a : Action) :
    (w.step a).Completed := by
  have stopped : ∀ env n, World.Completed (((w.calls env).take n).foldl World.exec w) :=
    fun env => forall_take_iff_along.mpr ⟨stored, World.along_completed stored env⟩
  cases a with
  | reconcile env =>
      have whole := stopped env (w.calls env).length
      rwa [List.take_length] at whole
  | crash env stop => exact stopped env stop
  | edit spec => exact stored

end Wardn
