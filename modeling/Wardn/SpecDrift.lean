import Wardn.World

/-!
# What a `Synced` stands for when the spec is edited

The manifests of a revision depend on the path and the manifest type of the spec, but the test
of step 3 compares the revision alone.  Over runs in which every operation succeeds and the
spec is edited freely, a reconcile that leaves `Synced` has parsed what was applied last
exactly as long as the edits between the last apply and a skipped one do not change the
manifests of the recorded revision (`synced_deployed_iff`).
-/

namespace Wardn

open Runs

/-- The manifests of a revision under a path, for a manifest type. -/
abbrev Manifests := String → String → ManifestType → Except String (List Resource)

/-- Every reconcile of the run succeeds and parses what the observed revision holds under the
path of the current spec. -/
def World.Observes (manifests : Manifests) (w : World) : Action → Prop
  | .reconcile env => ∃ revision resources, env.Succeeds revision resources ∧
      manifests revision w.app.spec.path w.app.spec.manifestType = .ok resources
  | .crash _ _ => False
  | .edit _ => True

/-- A reconcile that leaves `Synced` has parsed the list most recently applied. -/
def World.SyncedIsDeployed (w : World) : Action → Prop
  | .reconcile env => (w.step (.reconcile env)).app.status.syncStatus = .synced →
      ∀ resources, env.parse = .ok resources →
        ∃ attempt ∈ (w.step (.reconcile env)).applies.head?, attempt.resources = resources
  | .crash _ _ => True
  | .edit _ => True

/-- When the recorded revision is observed again, the current path and manifest type select the
manifests that those of the last apply selected. -/
def World.KeepsManifests (manifests : Manifests) (w : World) : Action → Prop
  | .reconcile env => ∀ revision, env.cloneOrPull = .ok revision → UpToDate w.app revision →
      ∀ attempt ∈ w.applies.head?,
        manifests revision w.app.spec.path w.app.spec.manifestType =
          manifests revision attempt.spec.path attempt.spec.manifestType
  | .crash _ _ => True
  | .edit _ => True

/-- A stored `Synced` is for the last attempt, which applied the manifests that the spec of its
time selected at the recorded revision. -/
def World.Deployed (manifests : Manifests) (w : World) : Prop :=
  w.app.status.syncStatus = .synced →
    ∃ attempt ∈ w.applies.head?,
      manifests w.app.status.revision attempt.spec.path attempt.spec.manifestType =
        .ok attempt.resources

theorem World.Deployed.step {manifests : Manifests} {w : World} {a : Action}
    (deployed : w.Deployed manifests) (observes : w.Observes manifests a) :
    (w.step a).Deployed manifests := by
  cases a with
  | reconcile env =>
      obtain ⟨revision, resources, succeeds, selected⟩ := observes
      rcases w.step_of_succeeds succeeds with ⟨-, ends⟩ | ⟨-, -, ends⟩ | ⟨-, -, ends⟩
      · rw [ends]
        exact deployed
      · rw [ends]
        intro synced
        cases synced
      · rw [ends]
        exact fun _ => ⟨_, rfl, selected⟩
  | crash env stop => exact observes.elim
  | edit spec => exact deployed

/-- Only the skip path can leave a `Synced` for manifests that were not applied. -/
theorem World.Deployed.syncedIsDeployed_iff {manifests : Manifests} {w : World} {a : Action}
    (deployed : w.Deployed manifests) (observes : w.Observes manifests a) :
    w.SyncedIsDeployed a ↔ w.KeepsManifests manifests a := by
  cases a with
  | reconcile env =>
      obtain ⟨revision, resources, succeeds, selected⟩ := observes
      simp only [World.SyncedIsDeployed, World.KeepsManifests]
      rcases w.step_of_succeeds succeeds with
        ⟨same, ends⟩ | ⟨moved, held, ends⟩ | ⟨moved, sync, ends⟩
      · obtain ⟨attempt, head, applied⟩ := deployed same.2
        rw [same.1] at applied
        rw [ends]
        refine ⟨fun skipped revision' clone same' attempt' head' => ?_,
          fun keeps _ resources' parse => ?_⟩
        · cases succeeds.clone.symm.trans clone
          cases Option.mem_unique head head'
          obtain ⟨attempt'', head'', listed⟩ := skipped same.2 resources succeeds.parse
          cases Option.mem_unique head head''
          rw [selected, applied, listed]
        · cases succeeds.parse.symm.trans parse
          have kept := keeps revision succeeds.clone same attempt head
          rw [selected, applied] at kept
          cases kept
          exact ⟨attempt, head, rfl⟩
      · rw [ends]
        refine ⟨fun _ revision' clone same => ?_, fun _ synced => ?_⟩
        · cases succeeds.clone.symm.trans clone
          exact absurd same moved
        · cases synced
      · rw [ends]
        refine ⟨fun _ revision' clone same => ?_, fun _ _ resources' parse => ?_⟩
        · cases succeeds.clone.symm.trans clone
          exact absurd same moved
        · cases succeeds.parse.symm.trans parse
          exact ⟨_, rfl, rfl⟩
  | crash env stop => exact observes.elim
  | edit spec => exact Iff.rfl

/-- **`Synced` and the current spec.**  In every run of successful reconciles and spec edits, each
reconcile that leaves `Synced` has parsed the list most recently applied exactly when no skip
happens under a path or manifest type that selects other manifests than the last apply did. -/
theorem synced_deployed_iff (manifests : Manifests) (name : String) (spec : GitApplicationSpec)
    (run : List Action)
    (observes : Along World.step (World.Observes manifests) (World.created name spec) run) :
    Along World.step World.SyncedIsDeployed (World.created name spec) run ↔
      Along World.step (World.KeepsManifests manifests) (World.created name spec) run := by
  have initial : (World.created name spec).Deployed manifests := by
    intro synced
    cases synced
  exact along_congr_on (fun w a deployed observes => deployed.syncedIsDeployed_iff observes)
    (fun w a deployed observes _ => deployed.step observes) initial observes

/-- A directory per path, each with one pod named after it. -/
def podPerPath : Manifests := fun _ path _ => .ok [{ kind := "Pod", name := path }]

/-- Turning automated sync off between two reconciles of one revision keeps its manifests. -/
theorem synced_deployed_of_policy_edit :
    Along World.step World.SyncedIsDeployed (World.created "guestbook" {})
      [.reconcile (.succeeding "v1" [{ kind := "Pod", name := "." }] 0),
        .edit { syncPolicy := some { automated := false } },
        .reconcile (.succeeding "v1" [{ kind := "Pod", name := "." }] 60)] := by
  have succeeds : ∀ clock, ∃ revision resources,
      (Outcomes.succeeding "v1" [{ kind := "Pod", name := "." }] clock).Succeeds revision
          resources ∧
        podPerPath revision "." .raw = .ok resources :=
    fun clock => ⟨_, _, Outcomes.succeeding_succeeds _ _ clock, rfl⟩
  refine (synced_deployed_iff podPerPath "guestbook" {} _ ?_).mpr ?_
  · exact ⟨succeeds 0, trivial, succeeds 60, trivial⟩
  · refine ⟨fun revision clone same attempt head => ?_, trivial,
      fun revision clone same attempt head => ?_, trivial⟩
    · cases head
    · cases head
      rfl

/-- Moving the path while the revision stands still: the second reconcile parses the pod of `web`
and leaves `Synced`, with the pod of `.` applied last. -/
theorem path_edit_not_deployed :
    Along World.step (World.Observes podPerPath) (World.created "guestbook" {})
      [.reconcile (.succeeding "v1" [{ kind := "Pod", name := "." }] 0), .edit { path := "web" },
        .reconcile (.succeeding "v1" [{ kind := "Pod", name := "web" }] 60)] ∧
    ¬ Along World.step World.SyncedIsDeployed (World.created "guestbook" {})
      [.reconcile (.succeeding "v1" [{ kind := "Pod", name := "." }] 0), .edit { path := "web" },
        .reconcile (.succeeding "v1" [{ kind := "Pod", name := "web" }] 60)] := by
  refine ⟨⟨⟨_, _, Outcomes.succeeding_succeeds _ _ 0, rfl⟩, trivial,
    ⟨_, _, Outcomes.succeeding_succeeds _ _ 60, rfl⟩, trivial⟩, fun along => ?_⟩
  obtain ⟨-, -, deployed, -⟩ := along
  obtain ⟨attempt, head, same⟩ := deployed (by decide) _ rfl
  cases head
  revert same
  decide

end Wardn
