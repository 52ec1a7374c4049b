import Wardn.SyncView

/-!
# Applications that are not automated

Step 4 lets an application without automated sync apply when it reads `OutOfSync`, and the
reconcile that holds a change back is the one that stores `OutOfSync`: the hold lasts for one
reconcile.  A manual application that starts `Synced` therefore stays untouched exactly as long
as every reconcile that parses its manifests comes after nothing but sights of the recorded
revision, or right after a failed clone, which stores `Unknown` (`manual_never_applies_iff`).
-/

namespace Wardn

open Runs

/-! ## The machine, when it is not automated -/

/-- What was seen leaves the application held: the recorded revision and nothing else, or a failed
clone last. -/
def Held (revision : String) (seen : List Observation) : Prop :=
  (∀ o ∈ seen, o = .observed revision) ∨ seen.getLast? = some .cloneFailed

/-- Where the machine stands after `seen`, from `Synced` at a revision and with nothing applied. -/
inductive Standing (revision : String) (seen : List Observation) : SyncView → Prop
  | synced (all : ∀ o ∈ seen, o = .observed revision) :
    Standing revision seen ⟨.synced, revision⟩
  | unknown {stored : String} (last : seen.getLast? = some .cloneFailed) :
    Standing revision seen ⟨.unknown, stored⟩
  | outOfSync {stored : String} (moved : ∃ o ∈ seen, o ≠ .observed revision)
    (last : seen.getLast? ≠ some .cloneFailed) :
    Standing revision seen ⟨.outOfSync, stored⟩

theorem Standing.applied_eq_none_iff {revision : String} {seen : List Observation} {v : SyncView}
    (standing : Standing revision seen v) (sight : String) :
    v.applied false (.observed sight) = none ↔ Held revision seen := by
  cases standing with
  | synced all =>
      have held : Held revision seen := .inl all
      simpa [SyncView.applied] using held
  | unknown last =>
      have held : Held revision seen := .inr last
      simpa [SyncView.applied] using held
  | outOfSync moved last =>
      obtain ⟨o, member, other⟩ := moved
      have unheld : ¬ Held revision seen := by
        intro held
        rcases held with all | failed
        · exact other (all o member)
        · exact last failed
      simpa [SyncView.applied] using unheld

theorem Standing.step {revision : String} {seen : List Observation} {v : SyncView}
    (standing : Standing revision seen v) {o : Observation} (idle : v.applied false o = none) :
    Standing revision (seen ++ [o]) (v.step false o) := by
  cases o with
  | cloneFailed => exact .unknown List.getLast?_concat
  | parseFailed sight =>
      exact .outOfSync ⟨.parseFailed sight, by simp, by simp⟩ (by simp)
  | observed sight =>
      have last : (seen ++ [Observation.observed sight]).getLast? ≠ some .cloneFailed := by simp
      cases standing with
      | synced all =>
          by_cases same : sight = revision
          · subst same
            have stays : SyncView.step false ⟨.synced, sight⟩ (.observed sight) =
                ⟨.synced, sight⟩ := if_pos rfl
            rw [stays]
            exact .synced (List.forall_mem_append.mpr ⟨all, by simp⟩)
          · have moves : SyncView.step false ⟨.synced, revision⟩ (.observed sight) =
                ⟨.outOfSync, sight⟩ := by simp [SyncView.step, Ne.symm same]
            rw [moves]
            exact .outOfSync ⟨.observed sight, by simp, by simpa using same⟩ last
      | unknown failed =>
          exact .outOfSync ⟨.cloneFailed, List.mem_append_left _ (List.mem_of_getLast? failed),
            by simp⟩ last
      | outOfSync moved last => simp [SyncView.applied] at idle

/-! ## The reconciler -/

/-- The reconcile never calls `Applier.Apply`. -/
def World.LeavesAlone (w : World) (env : Outcomes) : Prop :=
  ∀ revision resources, Effect.applyStart revision resources ∉ w.calls env

theorem World.leavesAlone_iff (w : World) (env : Outcomes) :
    w.LeavesAlone env ↔ ¬ w.StartsApply env := by
  rw [World.startsApply_iff]
  push Not
  rfl

/-- The observations that reached the stored status. -/
def recordedObservations (envs : List Outcomes) : List Observation :=
  (envs.filter fun env => env.Recorded).map Outcomes.observation

/-- While nothing is applied, the stored status stands where the machine does. -/
theorem standing_of_along {w : World} (manual : w.app.spec.automated = false)
    (synced : w.app.status.syncStatus = .synced) {envs : List Outcomes}
    (idle : Along World.reconciled (fun w env => ¬ w.StartsApply env) w envs) :
    let w' := envs.foldl World.reconciled w
    w'.app.spec.automated = false ∧
      Standing w.app.status.revision (recordedObservations envs) w'.view := by
  induction envs using List.reverseRecOn with
  | nil =>
      have start : w.view = ⟨.synced, w.app.status.revision⟩ := by rw [World.view, synced]
      refine ⟨manual, ?_⟩
      rw [List.foldl_nil, start]
      exact .synced fun o member => by cases member
  | append_singleton envs env ih =>
      rw [along_append, along_cons] at idle
      obtain ⟨earlier, here, -⟩ := idle
      obtain ⟨manual', standing⟩ := ih earlier
      rw [List.foldl_append, List.foldl_cons, List.foldl_nil]
      generalize envs.foldl World.reconciled w = w' at here manual' standing
      refine ⟨by rw [World.step_reconcile_spec, manual'], ?_⟩
      rw [World.step_view_of_idle here, manual', recordedObservations, List.filter_append,
        List.map_append]
      by_cases recorded : env.Recorded
      · rw [if_pos recorded, List.filter_cons_of_pos (by simpa using recorded)]
        have nothing : w'.view.applied false env.observation = none := by
          by_contra applied
          rw [← manual'] at applied
          exact here ((World.startsApply_iff_applied w' env).mpr ⟨recorded.1, applied⟩)
        exact standing.step nothing
      · rw [if_neg recorded, List.filter_cons_of_neg (by simpa using recorded)]
        rw [List.filter_nil, List.map_nil, List.append_nil]
        exact standing

/-- **Manual sync.**  From a stored `Synced`, whatever the reconciles meet, no reconcile of an
application without automated sync calls `Applier.Apply` exactly when each one that parses its
manifests finds the application held. -/
theorem manual_never_applies_iff (w : World) (manual : w.app.spec.automated = false)
    (synced : w.app.status.syncStatus = .synced) (envs : List Outcomes) :
    Along World.reconciled World.LeavesAlone w envs ↔
      ∀ before env after, envs = before ++ env :: after →
        env.get = none → ∀ revision, env.observation = .observed revision →
          Held w.app.status.revision (recordedObservations before) := by
  refine along_iff_forall_history fun before env along => ?_
  have idle := along.mono fun w env => (World.leavesAlone_iff w env).mp
  obtain ⟨manual', standing⟩ := standing_of_along manual synced idle
  rw [World.leavesAlone_iff, World.startsApply_iff_applied, manual']
  refine ⟨fun unapplied get revision sight => ?_, fun held starts => ?_⟩
  · by_contra unheld
    have applied := mt (standing.applied_eq_none_iff revision).mp unheld
    exact unapplied ⟨get, by rwa [sight]⟩
  · obtain ⟨get, applied⟩ := starts
    cases sight : env.observation with
    | cloneFailed => exact applied (by rw [sight]; rfl)
    | parseFailed revision => exact applied (by rw [sight]; rfl)
    | observed revision =>
        rw [sight] at applied
        exact applied ((standing.applied_eq_none_iff revision).mpr (held get revision sight))

/-- A push seen right after a failed clone is held. -/
theorem manual_never_applies_after_failed_clone :
    Along World.reconciled World.LeavesAlone
      { app := { status := { syncStatus := .synced, revision := "v1" } } }
      [{ Outcomes.succeeding "" [] 0 with cloneOrPull := .error "timeout" },
        .succeeding "v2" [] 30] := by
  refine (manual_never_applies_iff _ rfl rfl _).mpr
    fun before env after cut get revision sight => ?_
  rcases before with _ | ⟨first, before⟩
  · exact .inl fun o member => by cases member
  · rcases before with _ | ⟨second, before⟩
    · cases cut
      exact .inr rfl
    · simp at cut

/-- The first reconcile after a push stores `OutOfSync`, the second one applies. -/
theorem manual_applies_on_second_reconcile :
    ¬ Along World.reconciled World.LeavesAlone
      { app := { status := { syncStatus := .synced, revision := "v1" } } }
      [.succeeding "v2" [] 0, .succeeding "v2" [] 30] := by
  intro along
  exact along.2.1 "v2" [] (by decide)

end Wardn
