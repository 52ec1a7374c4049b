import Wardn.Controller
import Wardn.Lib.Runs

/-!
# The stored object and the cluster across reconciles

A `World` is what outlives a reconcile: the object on the API server and the attempts to
apply, newest first.  `World.exec` is the effect of one call; a status update that fails
stores nothing.  An `Action` is a reconcile that runs to its end, a reconcile that stops
after some number of its calls (a crash), or a user edit of the spec; a run is a list of
actions from a freshly created object.

`Landing` says in which worlds a whole reconcile can end, and `Submission` which statuses it
can submit; the invariants of the later modules are derived from these two.
-/

namespace Wardn

open Runs

/-- One call of `Applier.Apply`; `outcome` is `none` until it returns. -/
structure ApplyAttempt where
  revision : String
  resources : List Resource
  /-- The stored spec when the apply was started. -/
  spec : GitApplicationSpec
  outcome : Option (Option String)
  deriving DecidableEq, Repr

/-- The stored object, with the applies made for it so far, the last one first. -/
structure World where
  app : GitApplication
  applies : List ApplyAttempt := []
  deriving DecidableEq, Repr

/-- A status update with its answer. -/
def World.write (w : World) (status : GitApplicationStatus) (err : Option String) : World :=
  match err with
  | none => { w with app := { w.app with status := status } }
  | some _ => w

/-- What one call changes: a status update stores a status, an apply begins or ends. -/
def World.exec (w : World) : Effect → World
  | .statusUpdate status err => w.write status err
  | .applyStart revision resources =>
    { w with applies := ⟨revision, resources, w.app.spec, none⟩ :: w.applies }
  | .applyEnd err =>
    match w.applies with
    | [] => w
    | attempt :: earlier => { w with applies := { attempt with outcome := some err } :: earlier }
  | .applyResource _ _ => w
  | .pruneResources _ _ => w
  | .sendSlack _ _ => w

/-- What happens to the stored object. -/
inductive Action
  /-- A reconcile that runs to its end. -/
  | reconcile (env : Outcomes)
  /-- A reconcile whose process stops after its first `stop` calls. -/
  | crash (env : Outcomes) (stop : Nat)
  /-- A user edit of the spec. -/
  | edit (spec : GitApplicationSpec)

/-- The calls of a reconcile of the stored object. -/
def World.calls (w : World) (env : Outcomes) : List Effect :=
  (reconcile env (some w.app)).effects

/-- The state after one action; a crash executes a prefix of the calls. -/
def World.step (w : World) : Action → World
  | .reconcile env => (w.calls env).foldl World.exec w
  | .crash env stop => ((w.calls env).take stop).foldl World.exec w
  | .edit spec => { w with app := { w.app with spec := spec } }

/-- A reconcile that runs to its end. -/
abbrev World.reconciled (w : World) (env : Outcomes) : World :=
  w.step (.reconcile env)

/-- A freshly created object: the API server stores it with an empty status. -/
def World.created (name : String) (spec : GitApplicationSpec) : World :=
  { app := { name := name, spec := spec } }

/-- An attempt that has returned. -/
def World.attempted (w : World) (revision : String) (resources : List Resource)
    (err : Option String) : World :=
  { w with applies := ⟨revision, resources, w.app.spec, some err⟩ :: w.applies }

@[simp] theorem World.exec_update (w : World) (env : Outcomes) (i : Nat) (app : GitApplication) :
    w.exec (env.update i app) = w.write app.status (env.statusUpdate i) := rfl

@[simp] theorem World.write_applies (w : World) (status : GitApplicationStatus)
    (err : Option String) : (w.write status err).applies = w.applies := by
  cases err <;> rfl

@[simp] theorem World.write_spec (w : World) (status : GitApplicationStatus)
    (err : Option String) : (w.write status err).app.spec = w.app.spec := by
  cases err <;> rfl

@[simp] theorem World.write_none_status (w : World) (status : GitApplicationStatus) :
    (w.write status none).app.status = status := rfl

@[simp] theorem World.attempted_app (w : World) (revision : String) (resources : List Resource)
    (err : Option String) : (w.attempted revision resources err).app = w.app := rfl

@[simp] theorem World.attempted_applies (w : World) (revision : String)
    (resources : List Resource) (err : Option String) :
    (w.attempted revision resources err).applies =
      ⟨revision, resources, w.app.spec, some err⟩ :: w.applies := rfl

/-! ## Calls that leave the world alone -/

theorem World.exec_of_isApplyCall {e : Effect} (call : e.IsApplyCall) (w : World) :
    w.exec e = w := by
  cases call <;> rfl

/-- The calls of a whole apply change nothing that is recorded here. -/
theorem World.foldl_exec_applyCalls (w : World) (env : Outcomes) (resources : List Resource)
    (syncPolicy : Option SyncPolicy) :
    (apply env resources syncPolicy).1.foldl World.exec w = w :=
  foldl_of_silent
    (fun e member =>
      World.exec_of_isApplyCall (apply_isApplyCall env resources syncPolicy e member)) w

/-- Messages change nothing that is recorded here. -/
theorem World.foldl_exec_sendNotification (w : World) (env : Outcomes) (app : GitApplication)
    (success : Bool) (err : Option String) :
    (sendNotification env app success err).foldl World.exec w = w := by
  refine foldl_of_silent (fun e member w => ?_) w
  obtain ⟨url, message, rfl⟩ := sendNotification_isSlack env app success err e member
  rfl

/-- The apply phase: the `Syncing` status, the apply, and the final status. -/
theorem World.foldl_exec_applyPhase (w : World) {env : Outcomes} {app : GitApplication}
    {revision : String} {resources : List Resource} {calls : List Effect} {err : Option String}
    (applied : apply env resources app.spec.syncPolicy = (calls, err)) :
    (applyPhase env app revision resources calls err).foldl World.exec w =
      (w.write (env.syncingApp app revision resources).status (env.statusUpdate 0)).attempted
        revision resources err := by
  have silent := World.foldl_exec_applyCalls
    ((w.write (env.syncingApp app revision resources).status (env.statusUpdate 0)).exec
      (.applyStart revision resources)) env resources app.spec.syncPolicy
  rw [applied] at silent
  rw [applyPhase, List.foldl_cons, List.foldl_cons, List.foldl_append, World.exec_update, silent]
  rfl

/-! ## Where a reconcile ends -/

/-- The worlds a whole reconcile of `w` can end in. -/
inductive Landing (env : Outcomes) (w : World) : World → Prop
  | unread {err : String} (get : env.get = some err) : Landing env w w
  | cloneFailed {err : String} (get : env.get = none) (clone : env.cloneOrPull = .error err) :
    Landing env w (w.write (env.unknownApp w.app err).status (env.statusUpdate 0))
  | parseFailed {revision err : String} (get : env.get = none)
    (clone : env.cloneOrPull = .ok revision) (parse : env.parse = .error err) :
    Landing env w (w.write (env.unparsedApp w.app revision err).status (env.statusUpdate 0))
  | upToDate {revision : String} {resources : List Resource} (get : env.get = none)
    (clone : env.cloneOrPull = .ok revision) (parse : env.parse = .ok resources)
    (same : UpToDate w.app revision) :
    Landing env w (w.write (recheckedApp w.app resources).status (env.statusUpdate 0))
  | heldBack {revision : String} {resources : List Resource} (get : env.get = none)
    (clone : env.cloneOrPull = .ok revision) (parse : env.parse = .ok resources)
    (moved : ¬ UpToDate w.app revision) (held : ¬ ShouldSync w.app) :
    Landing env w (w.write (env.heldApp w.app revision resources).status (env.statusUpdate 0))
  | applyFailed {revision err : String} {resources : List Resource} (get : env.get = none)
    (clone : env.cloneOrPull = .ok revision) (parse : env.parse = .ok resources)
    (moved : ¬ UpToDate w.app revision) (sync : ShouldSync w.app)
    (failed : (apply env resources w.app.spec.syncPolicy).2 = some err) :
    Landing env w
      (((w.write (env.syncingApp w.app revision resources).status (env.statusUpdate 0)).attempted
          revision resources (some err)).write
        (env.degradedApp w.app revision resources err).status (env.statusUpdate 1))
  | applied {revision : String} {resources : List Resource} (get : env.get = none)
    (clone : env.cloneOrPull = .ok revision) (parse : env.parse = .ok resources)
    (moved : ¬ UpToDate w.app revision) (sync : ShouldSync w.app)
    (applied : (apply env resources w.app.spec.syncPolicy).2 = none) :
    Landing env w
      (((w.write (env.syncingApp w.app revision resources).status (env.statusUpdate 0)).attempted
          revision resources none).write
        (env.syncedApp w.app revision resources).status (env.statusUpdate 1))

theorem World.calls_of_get_eq_none {w : World} {env : Outcomes} (get : env.get = none) :
    w.calls env = (reconcileApp env w.app).effects := by
  rw [World.calls, reconcile, get]

theorem World.calls_of_get_eq_some {w : World} {env : Outcomes} {err : String}
    (get : env.get = some err) : w.calls env = [] := by
  rw [World.calls, reconcile, get]

/-- A reconcile that runs to its end ends in one of these. -/
theorem World.landing (w : World) (env : Outcomes) : Landing env w (w.step (.reconcile env)) := by
  cases get : env.get with
  | some err =>
      rw [World.step, World.calls_of_get_eq_some get]
      exact .unread get
  | none =>
      have passage := reconcileApp_passage env w.app
      rw [World.step, World.calls_of_get_eq_none get]
      generalize reconcileApp env w.app = reconciliation at passage
      cases passage with
      | cloneFailed clone => exact .cloneFailed get clone
      | parseFailed clone parse => exact .parseFailed get clone parse
      | upToDate clone parse same => exact .upToDate get clone parse same
      | heldBack clone parse moved held => exact .heldBack get clone parse moved held
      | applyFailed clone parse moved sync failed =>
          rw [List.foldl_append, World.foldl_exec_applyPhase w failed, List.foldl_cons,
            World.foldl_exec_sendNotification]
          exact .applyFailed get clone parse moved sync (by rw [failed])
      | unrecorded clone parse moved sync applied write =>
          rw [List.foldl_append, World.foldl_exec_applyPhase w applied]
          exact .applied get clone parse moved sync (by rw [applied])
      | synced clone parse moved sync applied write =>
          rw [List.foldl_append, World.foldl_exec_applyPhase w applied, List.foldl_cons,
            World.foldl_exec_sendNotification]
          exact .applied get clone parse moved sync (by rw [applied])

/-- A reconcile in which nothing fails. -/
theorem World.step_of_succeeds (w : World) {env : Outcomes} {revision : String}
    {resources : List Resource} (succeeds : env.Succeeds revision resources) :
    (UpToDate w.app revision ∧
      w.step (.reconcile env) = w.write (recheckedApp w.app resources).status none) ∨
    (¬ UpToDate w.app revision ∧ ¬ ShouldSync w.app ∧
      w.step (.reconcile env) = w.write (env.heldApp w.app revision resources).status none) ∨
    (¬ UpToDate w.app revision ∧ ShouldSync w.app ∧
      w.step (.reconcile env) =
        ((w.write (env.syncingApp w.app revision resources).status none).attempted revision
          resources none).write (env.syncedApp w.app revision resources).status none) := by
  have landing := w.landing env
  generalize w.step (.reconcile env) = w' at landing
  cases landing with
  | unread get => simp [succeeds.get] at get
  | cloneFailed get clone => simp [succeeds.clone] at clone
  | parseFailed get clone parse => simp [succeeds.parse] at parse
  | upToDate get clone parse same =>
      cases succeeds.clone.symm.trans clone
      cases succeeds.parse.symm.trans parse
      exact .inl ⟨same, by rw [succeeds.statusUpdate]⟩
  | heldBack get clone parse moved held =>
      cases succeeds.clone.symm.trans clone
      cases succeeds.parse.symm.trans parse
      exact .inr (.inl ⟨moved, held, by rw [succeeds.statusUpdate]⟩)
  | applyFailed get clone parse moved sync failed => simp [succeeds.apply_err] at failed
  | applied get clone parse moved sync applied =>
      cases succeeds.clone.symm.trans clone
      cases succeeds.parse.symm.trans parse
      exact .inr (.inr ⟨moved, sync, by rw [succeeds.statusUpdate 0, succeeds.statusUpdate 1]⟩)

/-- A reconcile leaves the spec alone. -/
theorem World.step_reconcile_spec (w : World) (env : Outcomes) :
    (w.step (.reconcile env)).app.spec = w.app.spec := by
  have landing := w.landing env
  generalize w.step (.reconcile env) = w' at landing
  cases landing <;> simp

/-! ## Reconciles that get to the apply -/

/-- The reconcile gets as far as calling `Applier.Apply`. -/
def World.StartsApply (w : World) (env : Outcomes) : Prop :=
  env.get = none ∧ ∃ revision resources,
    env.cloneOrPull = .ok revision ∧ env.parse = .ok resources ∧
      ¬ UpToDate w.app revision ∧ ShouldSync w.app

/-- The first two calls of such a reconcile. -/
theorem World.StartsApply.calls {w : World} {env : Outcomes} (starts : w.StartsApply env) :
    ∃ revision resources rest, ¬ UpToDate w.app revision ∧
      w.calls env = env.update 0 (env.syncingApp w.app revision resources) ::
        .applyStart revision resources :: rest := by
  obtain ⟨get, revision, resources, clone, parse, moved, sync⟩ := starts
  obtain ⟨messages, effects⟩ := reconcileApp_effects_of_sync clone parse moved sync rfl
  rw [World.calls_of_get_eq_none get, effects]
  exact ⟨revision, resources, _, moved, rfl⟩

/-- Such reconciles are those with the mark of an apply among their calls. -/
theorem World.startsApply_iff (w : World) (env : Outcomes) :
    w.StartsApply env ↔
      ∃ revision resources, Effect.applyStart revision resources ∈ w.calls env := by
  refine ⟨fun starts => ?_, fun called => ?_⟩
  · obtain ⟨revision, resources, rest, moved, calls⟩ := starts.calls
    rw [calls]
    exact ⟨revision, resources, List.mem_cons_of_mem _ List.mem_cons_self⟩
  · obtain ⟨revision, resources, member⟩ := called
    cases get : env.get with
    | some err =>
        rw [World.calls_of_get_eq_some get] at member
        cases member
    | none =>
        rw [World.calls_of_get_eq_none get] at member
        have passage := reconcileApp_passage env w.app
        generalize reconcileApp env w.app = reconciliation at passage member
        cases passage with
        | cloneFailed => cases List.mem_singleton.mp member
        | parseFailed => cases List.mem_singleton.mp member
        | upToDate => cases List.mem_singleton.mp member
        | heldBack => cases List.mem_singleton.mp member
        | applyFailed clone parse moved sync => exact ⟨get, _, _, clone, parse, moved, sync⟩
        | unrecorded clone parse moved sync => exact ⟨get, _, _, clone, parse, moved, sync⟩
        | synced clone parse moved sync => exact ⟨get, _, _, clone, parse, moved, sync⟩

/-! ## Which statuses a reconcile submits -/

/-- The statuses that `Reconcile` of `app` passes to `r.Status().Update`. -/
inductive Submission (env : Outcomes) (app : GitApplication) : GitApplicationStatus → Prop
  | unknown {err : String} (clone : env.cloneOrPull = .error err) :
    Submission env app (env.unknownApp app err).status
  | unparsed {revision err : String} (clone : env.cloneOrPull = .ok revision)
    (parse : env.parse = .error err) :
    Submission env app (env.unparsedApp app revision err).status
  | rechecked {revision : String} {resources : List Resource}
    (clone : env.cloneOrPull = .ok revision) (parse : env.parse = .ok resources)
    (same : UpToDate app revision) :
    Submission env app (recheckedApp app resources).status
  | held {revision : String} {resources : List Resource}
    (clone : env.cloneOrPull = .ok revision) (parse : env.parse = .ok resources)
    (moved : ¬ UpToDate app revision) (held : ¬ ShouldSync app) :
    Submission env app (env.heldApp app revision resources).status
  | syncing {revision : String} {resources : List Resource}
    (clone : env.cloneOrPull = .ok revision) (parse : env.parse = .ok resources)
    (moved : ¬ UpToDate app revision) (sync : ShouldSync app) :
    Submission env app (env.syncingApp app revision resources).status
  | degraded {revision err : String} {resources : List Resource}
    (clone : env.cloneOrPull = .ok revision) (parse : env.parse = .ok resources)
    (moved : ¬ UpToDate app revision) (sync : ShouldSync app)
    (failed : (apply env resources app.spec.syncPolicy).2 = some err) :
    Submission env app (env.degradedApp app revision resources err).status
  | synced {revision : String} {resources : List Resource}
    (clone : env.cloneOrPull = .ok revision) (parse : env.parse = .ok resources)
    (moved : ¬ UpToDate app revision) (sync : ShouldSync app)
    (applied : (apply env resources app.spec.syncPolicy).2 = none) :
    Submission env app (env.syncedApp app revision resources).status

/-- `status` is passed to `r.Status().Update` by the reconcile of `app`. -/
def Submits (env : Outcomes) (app : GitApplication) (status : GitApplicationStatus) : Prop :=
  ∃ err, Effect.statusUpdate status err ∈ (reconcile env (some app)).effects

/-- No call to the cluster is a status update. -/
theorem not_statusUpdate_of_isApplyCall {calls : List Effect} (all : ∀ e ∈ calls, e.IsApplyCall)
    (status : GitApplicationStatus) (err : Option String) :
    Effect.statusUpdate status err ∉ calls := by
  intro member
  cases all _ member

/-- No message is a status update. -/
theorem not_statusUpdate_sendNotification (env : Outcomes) (app : GitApplication)
    (success : Bool) (syncErr : Option String) (status : GitApplicationStatus)
    (err : Option String) :
    Effect.statusUpdate status err ∉ sendNotification env app success syncErr := by
  intro member
  obtain ⟨url, message, slack⟩ := sendNotification_isSlack env app success syncErr _ member
  cases slack

/-- The status updates of the apply phase: the `Syncing` one and the last one. -/
theorem mem_applyPhase_statusUpdate {env : Outcomes} {app : GitApplication} {revision : String}
    {resources : List Resource} {calls : List Effect} {applyErr : Option String}
    (applied : apply env resources app.spec.syncPolicy = (calls, applyErr))
    (status : GitApplicationStatus) (err : Option String) :
    Effect.statusUpdate status err ∈ applyPhase env app revision resources calls applyErr ↔
      status = (env.syncingApp app revision resources).status ∧ err = env.statusUpdate 0 := by
  have silent := apply_isApplyCall env resources app.spec.syncPolicy
  rw [applied] at silent
  simp [applyPhase, Outcomes.update, not_statusUpdate_of_isApplyCall silent]

/-- Membership of a status update in the calls of a way that applies. -/
theorem mem_statusUpdate_of_applied {env : Outcomes} {app : GitApplication} {revision : String}
    {resources : List Resource} {calls : List Effect} {applyErr : Option String}
    (applied : apply env resources app.spec.syncPolicy = (calls, applyErr)) (last : GitApplication)
    {messages : List Effect}
    (quiet : ∀ status err, Effect.statusUpdate status err ∉ messages)
    (status : GitApplicationStatus) (err : Option String) :
    Effect.statusUpdate status err ∈
        applyPhase env app revision resources calls applyErr ++ env.update 1 last :: messages ↔
      (status = (env.syncingApp app revision resources).status ∧ err = env.statusUpdate 0) ∨
        (status = last.status ∧ err = env.statusUpdate 1) := by
  rw [List.mem_append, mem_applyPhase_statusUpdate applied]
  simp [Outcomes.update, quiet]

/-- Every submitted status is one of these. -/
theorem submission_of_mem {env : Outcomes} {app : GitApplication} {status : GitApplicationStatus}
    {err : Option String}
    (member : Effect.statusUpdate status err ∈ (reconcileApp env app).effects) :
    Submission env app status := by
  have passage := reconcileApp_passage env app
  generalize reconcileApp env app = reconciliation at passage member
  cases passage with
  | cloneFailed clone =>
      cases List.mem_singleton.mp member
      exact .unknown clone
  | parseFailed clone parse =>
      cases List.mem_singleton.mp member
      exact .unparsed clone parse
  | upToDate clone parse same =>
      cases List.mem_singleton.mp member
      exact .rechecked clone parse same
  | heldBack clone parse moved held =>
      cases List.mem_singleton.mp member
      exact .held clone parse moved held
  | applyFailed clone parse moved sync failed =>
      rcases (mem_statusUpdate_of_applied failed _
        (not_statusUpdate_sendNotification _ _ _ _) _ _).mp member with ⟨rfl, -⟩ | ⟨rfl, -⟩
      · exact .syncing clone parse moved sync
      · exact .degraded clone parse moved sync (by rw [failed])
  | unrecorded clone parse moved sync applied write =>
      rcases (mem_statusUpdate_of_applied applied _
        (fun _ _ => List.not_mem_nil) _ _).mp member with ⟨rfl, -⟩ | ⟨rfl, -⟩
      · exact .syncing clone parse moved sync
      · exact .synced clone parse moved sync (by rw [applied])
  | synced clone parse moved sync applied write =>
      rcases (mem_statusUpdate_of_applied applied _
        (not_statusUpdate_sendNotification _ _ _ _) _ _).mp member with ⟨rfl, -⟩ | ⟨rfl, -⟩
      · exact .syncing clone parse moved sync
      · exact .synced clone parse moved sync (by rw [applied])

/-- And each of these is submitted. -/
theorem mem_of_submission {env : Outcomes} {app : GitApplication} {status : GitApplicationStatus}
    (submission : Submission env app status) :
    ∃ err, Effect.statusUpdate status err ∈ (reconcileApp env app).effects := by
  cases submission with
  | unknown clone =>
      rw [← (Passage.cloneFailed clone).eq_reconcileApp]
      exact ⟨_, List.mem_singleton_self _⟩
  | unparsed clone parse =>
      rw [← (Passage.parseFailed clone parse).eq_reconcileApp]
      exact ⟨_, List.mem_singleton_self _⟩
  | rechecked clone parse same =>
      rw [← (Passage.upToDate clone parse same).eq_reconcileApp]
      exact ⟨_, List.mem_singleton_self _⟩
  | held clone parse moved held =>
      rw [← (Passage.heldBack clone parse moved held).eq_reconcileApp]
      exact ⟨_, List.mem_singleton_self _⟩
  | syncing clone parse moved sync =>
      obtain ⟨messages, effects⟩ := reconcileApp_effects_of_sync clone parse moved sync rfl
      rw [effects]
      exact ⟨_, List.mem_append_left _ List.mem_cons_self⟩
  | degraded clone parse moved sync failed =>
      obtain ⟨messages, effects⟩ := reconcileApp_effects_of_sync clone parse moved sync failed
      rw [effects]
      exact ⟨_, List.mem_append_right _ List.mem_cons_self⟩
  | synced clone parse moved sync applied =>
      obtain ⟨messages, effects⟩ := reconcileApp_effects_of_sync clone parse moved sync applied
      rw [effects]
      exact ⟨_, List.mem_append_right _ List.mem_cons_self⟩

/-- The submitted statuses, each on the way it belongs to. -/
theorem submits_iff (env : Outcomes) (app : GitApplication) (status : GitApplicationStatus) :
    Submits env app status ↔ env.get = none ∧ Submission env app status := by
  cases get : env.get with
  | some err => simp [Submits, reconcile, get]
  | none =>
      rw [Submits, reconcile, get]
      refine ⟨fun submits => ?_, fun submission => mem_of_submission submission.2⟩
      obtain ⟨err, member⟩ := submits
      exact ⟨rfl, submission_of_mem member⟩

/-! ## Invariants of the stored status

What every submitted status keeps, the stored status keeps, whichever updates are lost and
wherever a reconcile stops. -/

section StatusInvariant

variable {I : GitApplicationStatus → Prop}

/-- A property of the submitted statuses is one of the stored status after a call. -/
theorem World.exec_status_invariant {w : World} {e : Effect}
    (submitted : ∀ status err, e = .statusUpdate status err → I status) (stored : I w.app.status) :
    I (w.exec e).app.status := by
  cases e with
  | statusUpdate status err =>
      cases err with
      | none => exact submitted status none rfl
      | some err => exact stored
  | applyEnd err =>
      cases applies : w.applies <;> simpa [World.exec, applies] using stored
  | _ => exact stored

/-- The same after any stretch of calls. -/
theorem World.foldl_exec_status_invariant {effects : List Effect}
    (submitted : ∀ status err, .statusUpdate status err ∈ effects → I status) {w : World}
    (stored : I w.app.status) : I (effects.foldl World.exec w).app.status := by
  induction effects generalizing w with
  | nil => exact stored
  | cons e effects ih =>
      refine ih (fun status err member => submitted status err (List.mem_cons_of_mem e member)) ?_
      exact World.exec_status_invariant
        (fun status err same => submitted status err (same ▸ List.mem_cons_self)) stored

/-- What every submission keeps, an action keeps, whether it crashes or not. -/
theorem World.step_status_invariant
    (keeps : ∀ env app status, I app.status → Submission env app status → I status) (w : World)
    (a : Action) (stored : I w.app.status) : I (w.step a).app.status := by
  have submitted : ∀ env status err, .statusUpdate status err ∈ w.calls env → I status := by
    intro env status err member
    have submission := ((submits_iff env w.app status).mp ⟨err, member⟩).2
    exact keeps env w.app status stored submission
  cases a with
  | reconcile env => exact World.foldl_exec_status_invariant (submitted env) stored
  | crash env stop =>
      exact World.foldl_exec_status_invariant
        (fun status err member => submitted env status err (List.mem_of_mem_take member)) stored
  | edit spec => exact stored

/-- What every submission keeps holds of the stored status after every run. -/
theorem World.run_status_invariant
    (keeps : ∀ env app status, I app.status → Submission env app status → I status) {w : World}
    (stored : I w.app.status) (run : List Action) : I (run.foldl World.step w).app.status :=
  foldl_invariant (fun w a => World.step_status_invariant keeps w a) stored run

end StatusInvariant

end Wardn
