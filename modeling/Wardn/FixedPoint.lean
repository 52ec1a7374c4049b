import Wardn.World

/-!
# Constant environments

Git, the manifests and the cluster answer every reconcile alike and only the clock moves.  An
application that can sync settles after two reconciles: from then on every submitted status is
the stored one.  Under a lasting error it never settles.  A failed clone or parse stamps the
condition with the clock each time, although its status has not changed; a failed apply
stores `OutOfSync` over the `Syncing` that the next reconcile writes again.
`reaches_fixed_point_iff` says that these are all the cases.
-/

namespace Wardn

/-- The same answers, at another time. -/
def Outcomes.onClock (env : Outcomes) (clock : Nat → Time) : Outcomes :=
  { env with now := clock }

/-- The world after `k` reconciles of one environment; `clock j i` is the `i`-th clock read of
reconcile `j`. -/
def World.pass (w : World) (env : Outcomes) (clock : Nat → Nat → Time) : Nat → World
  | 0 => w
  | k + 1 => (w.pass env clock k).reconciled (env.onClock (clock k))

/-- The clock does not run backwards. -/
def Advancing (clock : Nat → Nat → Time) : Prop :=
  ∀ k, clock k 0 ≤ clock k 1 ∧ clock k 1 ≤ clock (k + 1) 0

/-- The reconcile leaves the stored status as it read it, and writes no other in between. -/
def World.Quiet (w : World) (env : Outcomes) : Prop :=
  (w.reconciled env).app.status = w.app.status ∧
    ∀ status, Submits env w.app status → status = w.app.status

/-- From some reconcile on, at whatever later times, every reconcile is quiet. -/
def World.ReachesFixedPoint (w : World) (env : Outcomes) : Prop :=
  ∃ n, ∀ clock, Advancing clock → ∀ k ≥ n, (w.pass env clock k).Quiet (env.onClock (clock k))

/-- The last transition of the first condition of a type. -/
def GitApplicationStatus.transitionTime (status : GitApplicationStatus) (condType : String) :
    Option Time :=
  (status.conditions.find? fun cond => cond.type = condType).map Condition.lastTransitionTime

theorem transitionTime_updateStatus (app : GitApplication) (sync : SyncStatus)
    (health : HealthStatus) (revision : String) (resources : List Resource)
    (syncErr : Option String) (now : Time) :
    (updateStatus app sync health revision resources syncErr now).status.transitionTime
      "SyncError" = some now := by
  obtain ⟨cond, found, -, -, time⟩ :=
    find_syncError_updateStatus app sync health revision resources syncErr now
  exact (congrArg (Option.map Condition.lastTransitionTime) found).trans (congrArg some time)

theorem apply_onClock (env : Outcomes) (clock : Nat → Time) (resources : List Resource)
    (syncPolicy : Option SyncPolicy) :
    (apply (env.onClock clock) resources syncPolicy).2 = none ↔
      (apply env resources syncPolicy).2 = none := by
  rw [apply_err_eq_none_iff, apply_err_eq_none_iff]
  rfl

theorem World.pass_spec (w : World) (env : Outcomes) (clock : Nat → Nat → Time) (k : Nat) :
    (w.pass env clock k).app.spec = w.app.spec := by
  induction k with
  | zero => rfl
  | succ k ih => rw [World.pass, World.reconciled, World.step_reconcile_spec, ih]

theorem World.quiet_of_submits {w : World} {env : Outcomes}
    (all : ∀ status, Submits env w.app status → status = w.app.status) : w.Quiet env := by
  refine ⟨?_, all⟩
  exact World.foldl_exec_status_invariant (I := fun status => status = w.app.status)
    (fun status err member => all status ⟨err, member⟩) rfl

/-- A reconcile that does not take the skip path stamps the condition with the clock. -/
theorem submits_stamped {env : Outcomes} {app : GitApplication} (get : env.get = none)
    (unskipped : ∀ revision resources, env.cloneOrPull = .ok revision →
      env.parse = .ok resources → ¬ UpToDate app revision) :
    ∃ status, Submits env app status ∧ status.transitionTime "SyncError" = some (env.now 0) := by
  have submits : ∀ {status}, Submission env app status → Submits env app status :=
    fun submission => (submits_iff env app _).mpr ⟨get, submission⟩
  cases clone : env.cloneOrPull with
  | error err => exact ⟨_, submits (.unknown clone), transitionTime_updateStatus ..⟩
  | ok revision =>
      cases parse : env.parse with
      | error err => exact ⟨_, submits (.unparsed clone parse), transitionTime_updateStatus ..⟩
      | ok resources =>
          have moved := unskipped revision resources clone parse
          by_cases sync : ShouldSync app
          · exact ⟨_, submits (.syncing clone parse moved sync), transitionTime_updateStatus ..⟩
          · exact ⟨_, submits (.held clone parse moved sync), transitionTime_updateStatus ..⟩

/-! ## Settling -/

/-- `Synced` at the revision, with what the health checker reports. -/
structure World.Settled (w : World) (revision : String) (resources : List Resource) : Prop where
  same : UpToDate w.app revision
  health : w.app.status.healthStatus = .healthy
  entries : w.app.status.resources = resources.map checkedStatus

theorem World.Settled.rechecked {w : World} {revision : String} {resources : List Resource}
    (settled : w.Settled revision resources) :
    (recheckedApp w.app resources).status = w.app.status := by
  obtain ⟨same, health, entries⟩ := settled
  rw [recheckedApp, updateHealthStatus, ← health, ← entries]

theorem World.Settled.quiet {w : World} {env : Outcomes} {revision : String}
    {resources : List Resource} (settled : w.Settled revision resources)
    (clone : env.cloneOrPull = .ok revision) (parse : env.parse = .ok resources) : w.Quiet env := by
  refine World.quiet_of_submits fun status submits => ?_
  obtain ⟨-, submission⟩ := (submits_iff env w.app status).mp submits
  cases submission with
  | unknown clone' => cases clone.symm.trans clone'
  | unparsed clone' parse' => cases parse.symm.trans parse'
  | rechecked clone' parse' same =>
      cases parse.symm.trans parse'
      exact settled.rechecked
  | held clone' parse' moved =>
      cases clone.symm.trans clone'
      exact absurd settled.same moved
  | syncing clone' parse' moved =>
      cases clone.symm.trans clone'
      exact absurd settled.same moved
  | degraded clone' parse' moved =>
      cases clone.symm.trans clone'
      exact absurd settled.same moved
  | synced clone' parse' moved =>
      cases clone.symm.trans clone'
      exact absurd settled.same moved

/-- Where one reconcile leads: it settles when it skips or syncs, and stores `OutOfSync` when it
is held back or fails to apply. -/
theorem World.reconciled_settled_or_outOfSync (w : World) (env : Outcomes) {revision : String}
    {resources : List Resource} (get : env.get = none) (stored : ∀ i, env.statusUpdate i = none)
    (clone : env.cloneOrPull = .ok revision) (parse : env.parse = .ok resources) :
    ((UpToDate w.app revision ∨
        ShouldSync w.app ∧ (apply env resources w.app.spec.syncPolicy).2 = none) ∧
      (w.reconciled env).Settled revision resources) ∨
    (¬ UpToDate w.app revision ∧
      ¬ (ShouldSync w.app ∧ (apply env resources w.app.spec.syncPolicy).2 = none) ∧
      (w.reconciled env).app.status.syncStatus = .outOfSync) := by
  have landing := w.landing env
  unfold World.reconciled
  generalize w.step (.reconcile env) = w' at landing
  cases landing with
  | unread get' => cases get.symm.trans get'
  | cloneFailed get' clone' => cases clone.symm.trans clone'
  | parseFailed get' clone' parse' => cases parse.symm.trans parse'
  | upToDate get' clone' parse' same =>
      cases clone.symm.trans clone'
      cases parse.symm.trans parse'
      rw [stored]
      exact .inl ⟨.inl same, same, rfl, rfl⟩
  | heldBack get' clone' parse' moved held =>
      cases clone.symm.trans clone'
      rw [stored]
      exact .inr ⟨moved, fun sync => held sync.1, rfl⟩
  | applyFailed get' clone' parse' moved sync failed =>
      cases clone.symm.trans clone'
      cases parse.symm.trans parse'
      rw [stored 1]
      refine .inr ⟨moved, fun applied => ?_, rfl⟩
      cases failed.symm.trans applied.2
  | applied get' clone' parse' moved sync applied =>
      cases clone.symm.trans clone'
      cases parse.symm.trans parse'
      rw [stored 1]
      exact .inl ⟨.inr ⟨sync, applied⟩, ⟨rfl, rfl⟩, rfl, rfl⟩

section Constant

variable {w : World} {env : Outcomes} {revision : String} {resources : List Resource}
  (get : env.get = none) (stored : ∀ i, env.statusUpdate i = none)
  (clone : env.cloneOrPull = .ok revision) (parse : env.parse = .ok resources)

include get stored clone parse

/-- `reconciled_settled_or_outOfSync` for the reconciles of a constant environment. -/
theorem World.pass_succ (clock : Nat → Nat → Time) (k : Nat) :
    ((UpToDate (w.pass env clock k).app revision ∨ ShouldSync (w.pass env clock k).app ∧
          (apply env resources w.app.spec.syncPolicy).2 = none) ∧
        (w.pass env clock (k + 1)).Settled revision resources) ∨
      (¬ UpToDate (w.pass env clock k).app revision ∧
        ¬ (ShouldSync (w.pass env clock k).app ∧
          (apply env resources w.app.spec.syncPolicy).2 = none) ∧
        (w.pass env clock (k + 1)).app.status.syncStatus = .outOfSync) := by
  have next := World.reconciled_settled_or_outOfSync (w.pass env clock k) (env.onClock (clock k))
    get stored clone parse
  rw [apply_onClock, World.pass_spec] at next
  exact next

/-- From the second reconcile on the object is settled, when it was up to date or can be synced. -/
theorem World.pass_settled (clock : Nat → Nat → Time)
    (syncs : UpToDate w.app revision ∨ (apply env resources w.app.spec.syncPolicy).2 = none)
    {k : Nat} (late : 2 ≤ k) : (w.pass env clock k).Settled revision resources := by
  induction k, late using Nat.le_induction with
  | base =>
      rcases World.pass_succ get stored clone parse clock 1 with ⟨-, settled⟩ | ⟨moved, unsynced, -⟩
      · exact settled
      · rcases World.pass_succ get stored clone parse clock 0 with
          ⟨-, settled⟩ | ⟨moved', -, outOfSync⟩
        · exact absurd settled.same moved
        · rcases syncs with same | applied
          · exact absurd same moved'
          · exact absurd ⟨.inr (.inr outOfSync), applied⟩ unsynced
  | succ k late ih =>
      rcases World.pass_succ get stored clone parse clock k with ⟨-, settled⟩ | ⟨moved, -, -⟩
      · exact settled
      · exact absurd ih.same moved

/-- Nothing makes an object up to date that was not and cannot be synced. -/
theorem World.pass_not_upToDate (clock : Nat → Nat → Time) (moved : ¬ UpToDate w.app revision)
    (fails : (apply env resources w.app.spec.syncPolicy).2 ≠ none) (k : Nat) :
    ¬ UpToDate (w.pass env clock k).app revision := by
  induction k with
  | zero => exact moved
  | succ k ih =>
      rcases World.pass_succ get stored clone parse clock k with ⟨either, -⟩ | ⟨-, -, outOfSync⟩
      · rcases either with same | ⟨-, applied⟩
        · exact absurd same ih
        · exact absurd applied fails
      · intro same
        cases outOfSync.symm.trans same.2

end Constant

/-! ## Which environments settle -/

/-- An object that settles takes the skip path at some point: two stamps at different times cannot
both be the stored one. -/
theorem World.ReachesFixedPoint.skips {w : World} {env : Outcomes}
    (reaches : w.ReachesFixedPoint env)
    (get : env.get = none) :
    ∃ clock k revision resources, env.cloneOrPull = .ok revision ∧ env.parse = .ok resources ∧
      UpToDate (w.pass env clock k).app revision := by
  obtain ⟨n, quiet⟩ := reaches
  have advancing : Advancing fun k _ => k := fun k => ⟨le_rfl, k.le_succ⟩
  have here := quiet _ advancing n le_rfl
  have next := quiet _ advancing (n + 1) n.le_succ
  by_contra unskipped
  push Not at unskipped
  have stamped : ∀ k, ∃ status,
      Submits (env.onClock fun _ => k) (w.pass env (fun k _ => k) k).app status ∧
        status.transitionTime "SyncError" = some k :=
    fun k => submits_stamped get (unskipped (fun k _ => k) k)
  obtain ⟨status, submits, time⟩ := stamped n
  obtain ⟨status', submits', time'⟩ := stamped (n + 1)
  have same : status' = status := calc
    status' = (w.pass env (fun k _ => k) (n + 1)).app.status := next.2 status' submits'
    _ = (w.pass env (fun k _ => k) n).app.status := here.1
    _ = status := (here.2 status submits).symm
  rw [same, time] at time'
  exact absurd (Option.some.inj time') n.succ_ne_self.symm

/-- **Fixed point.**  In a constant environment every reconcile is quiet from some point on, at
whatever later times, exactly when clone and parse succeed and the object is up to date or the
apply succeeds. -/
theorem reaches_fixed_point_iff (w : World) (env : Outcomes) (get : env.get = none)
    (stored : ∀ i, env.statusUpdate i = none) :
    w.ReachesFixedPoint env ↔
      ∃ revision resources, env.cloneOrPull = .ok revision ∧ env.parse = .ok resources ∧
        (UpToDate w.app revision ∨ (apply env resources w.app.spec.syncPolicy).2 = none) := by
  refine ⟨fun reaches => ?_, fun settles => ?_⟩
  · obtain ⟨clock, k, revision, resources, clone, parse, same⟩ := reaches.skips get
    refine ⟨revision, resources, clone, parse, ?_⟩
    by_contra neither
    rw [not_or] at neither
    exact World.pass_not_upToDate get stored clone parse clock neither.1 neither.2 k same
  · obtain ⟨revision, resources, clone, parse, syncs⟩ := settles
    refine ⟨2, fun clock _ k late => ?_⟩
    exact (World.pass_settled get stored clone parse clock syncs late).quiet clone parse

/-- A manual application that is behind settles, after one hold and one apply. -/
theorem reaches_fixed_point_of_manual :
    World.ReachesFixedPoint { app := { status := { syncStatus := .synced, revision := "v1" } } }
      (.succeeding "v2" [{ kind := "Pod", name := "web" }] 0) :=
  (reaches_fixed_point_iff { app := { status := { syncStatus := .synced, revision := "v1" } } }
    (.succeeding "v2" [{ kind := "Pod", name := "web" }] 0) rfl fun _ => rfl).mpr
    ⟨"v2", _, rfl, rfl, .inr (by decide)⟩

/-- A repository that cannot be cloned: the condition moves with every reconcile. -/
theorem no_fixed_point_of_clone_error :
    ¬ World.ReachesFixedPoint (World.created "guestbook" {})
      { Outcomes.succeeding "" [] 0 with cloneOrPull := .error "authentication required" } := by
  intro reaches
  obtain ⟨clock, k, revision, resources, clone, -⟩ := reaches.skips rfl
  cases clone

end Wardn
