import Wardn.Lib.Logs
import Wardn.SyncView

/-!
# One apply per change of revision

An automated application should apply a revision when it is first seen and not again until
another one has been.  The machine of `Wardn.SyncView` forgets what it has applied as soon as a
clone or a parse fails: the failure replaces the stored `Synced`.  So the applied revisions are
the observed ones without consecutive repeats exactly when no failure stands between two sights
of one revision (`applied_once_iff`).
-/

namespace Wardn

open Logs

/-! ## The machine, when it is automated -/

/-- The revision of a clone and a parse that both succeeded. -/
def Observation.sight : Observation → Option String
  | .cloneFailed => none
  | .parseFailed _ => none
  | .observed revision => some revision

/-- The observed revisions, oldest first. -/
def sights (seen : List Observation) : List String :=
  seen.filterMap Observation.sight

theorem sights_append (seen seen' : List Observation) :
    sights (seen ++ seen') = sights seen ++ sights seen' :=
  List.filterMap_append

/-- Two sights of one revision never have failures, and nothing else, between them. -/
def Unbroken (seen : List Observation) : Prop :=
  ∀ revision failed,
    .observed revision :: (failed ++ [.observed revision]) <:+: seen →
      (∀ o ∈ failed, Observation.sight o = none) → failed = []

theorem Unbroken.of_append {seen seen' : List Observation} (unbroken : Unbroken (seen ++ seen')) :
    Unbroken seen :=
  fun revision failed inside =>
    unbroken revision failed (inside.trans (List.infix_append' [] seen seen'))

namespace SyncView

theorem applications_append (automated : Bool) (v : SyncView) (seen seen' : List Observation) :
    applications automated v (seen ++ seen') =
      applications automated v seen ++
        applications automated (seen.foldl (step automated) v) seen' := by
  induction seen generalizing v with
  | nil => rfl
  | cons o seen ih => rw [List.cons_append, applications, applications, ih, List.append_assoc,
      List.foldl_cons]

/-- A failed observation applies nothing. -/
theorem applied_of_failed {o : Observation} (failed : o.sight = none) (automated : Bool)
    (v : SyncView) : v.applied automated o = none := by
  cases o with
  | observed revision => cases failed
  | _ => rfl

theorem applications_of_failed {failed : List Observation}
    (all : ∀ o ∈ failed, Observation.sight o = none) (automated : Bool) (v : SyncView) :
    applications automated v failed = [] := by
  induction failed generalizing v with
  | nil => rfl
  | cons o failed ih =>
      rw [applications, applied_of_failed (all o List.mem_cons_self),
        ih fun o member => all o (List.mem_cons_of_mem _ member)]
      rfl

/-- A failure leaves nothing stored as `Synced`. -/
theorem foldl_step_of_failed {failed : List Observation}
    (all : ∀ o ∈ failed, Observation.sight o = none) (some : failed ≠ []) (automated : Bool)
    (v : SyncView) : (failed.foldl (step automated) v).syncStatus ≠ .synced := by
  obtain ⟨front, o, rfl⟩ := List.eq_nil_or_concat failed |>.resolve_left some
  rw [List.concat_eq_append, List.foldl_append, List.foldl_cons, List.foldl_nil]
  have last := all o (by simp)
  cases o with
  | cloneFailed => simp [step]
  | parseFailed revision => simp [step]
  | observed revision => cases last

theorem applied_automated (v : SyncView) (revision : String) :
    v.applied true (.observed revision) =
      if v = ⟨.synced, revision⟩ then none else some revision := by
  simp [applied]

/-- An automated application is synced behind every observation. -/
theorem step_automated (v : SyncView) (revision : String) :
    v.step true (.observed revision) = ⟨.synced, revision⟩ := by
  by_cases same : v = ⟨.synced, revision⟩
  · simp [step, same]
  · simp [step, same]

/-- `Synced` is stored for the revision last seen, which is the one last applied. -/
theorem last_of_synced {v : SyncView} (start : v.syncStatus ≠ .synced)
    {seen : List Observation} {revision : String}
    (synced : seen.foldl (step true) v = ⟨.synced, revision⟩) :
    (applications true v seen).getLast? = some revision ∧
      (sights seen).getLast? = some revision := by
  induction seen using List.reverseRecOn with
  | nil => exact absurd (congrArg syncStatus synced) start
  | append_singleton seen o ih =>
      rw [List.foldl_append, List.foldl_cons, List.foldl_nil] at synced
      rw [applications_append, sights_append]
      cases o with
      | cloneFailed => cases synced
      | parseFailed revision' => cases synced
      | observed revision' =>
          rw [step_automated] at synced
          cases synced
          refine ⟨?_, List.getLast?_concat⟩
          rw [applications, applications, List.append_nil, applied_automated]
          by_cases same : seen.foldl (step true) v = ⟨.synced, revision⟩
          · rw [if_pos same]
            simpa using (ih same).1
          · rw [if_neg same]
            exact List.getLast?_concat

/-- In an unbroken run the revision last seen is still stored as `Synced`. -/
theorem synced_of_last {v : SyncView} {seen : List Observation} {revision : String}
    (unbroken : Unbroken (seen ++ [.observed revision]))
    (last : (sights seen).getLast? = some revision) :
    seen.foldl (step true) v = ⟨.synced, revision⟩ := by
  obtain ⟨before, o, failed, rfl, sight, all⟩ := getLast?_filterMap_eq_some_iff.mp last
  cases o with
  | cloneFailed => cases sight
  | parseFailed revision' => cases sight
  | observed revision' =>
      cases sight
      have adjacent := unbroken revision failed ⟨before, [], by simp⟩ all
      subst adjacent
      rw [List.foldl_append, List.foldl_cons, List.foldl_nil, step_automated]

theorem applications_cons_of_unsynced {v : SyncView} (unsynced : v.syncStatus ≠ .synced)
    (revision : String) (seen : List Observation) :
    applications true v (.observed revision :: seen) =
      revision :: applications true (v.step true (.observed revision)) seen := by
  rw [applications, applied_automated, if_neg fun same => unsynced (congrArg syncStatus same)]
  rfl

/-- A run that applies no revision twice in a row is unbroken: behind failures a revision is
applied again. -/
theorem unbroken_of_isChain {v : SyncView} (start : v.syncStatus ≠ .synced)
    {seen : List Observation} (chain : (applications true v seen).IsChain (· ≠ ·)) :
    Unbroken seen := by
  intro revision failed inside all
  obtain ⟨before, after, rfl⟩ := inside
  by_contra some
  have applied : (applications true v (before ++ [.observed revision] ++ failed)).getLast? =
      .some revision := by
    rw [applications_append, applications_of_failed all, List.append_nil]
    refine (last_of_synced start ?_).1
    rw [List.foldl_append, List.foldl_cons, List.foldl_nil, step_automated]
  have unsynced : SyncView.syncStatus
      ((before ++ [Observation.observed revision] ++ failed).foldl (step true) v) ≠ .synced := by
    rw [List.foldl_append]
    exact foldl_step_of_failed all some true _
  rw [show before ++ .observed revision :: (failed ++ [.observed revision]) ++ after =
      (before ++ [.observed revision] ++ failed) ++ .observed revision :: after by simp,
    applications_append, applications_cons_of_unsynced unsynced] at chain
  exact not_isChain_of_getLast? applied chain

/-- In an unbroken sequence the sights are applied, each change once. -/
theorem applications_of_unbroken {v : SyncView} (start : v.syncStatus ≠ .synced)
    {seen : List Observation} (unbroken : Unbroken seen) :
    applications true v seen = (sights seen).destutter (· ≠ ·) := by
  induction seen using List.reverseRecOn with
  | nil => rfl
  | append_singleton seen o ih =>
      rw [applications_append, ih unbroken.of_append, sights_append]
      -- a failure adds nothing on either side
      have silent : (sights seen).destutter (· ≠ ·) ++ [] =
          (sights seen ++ []).destutter (· ≠ ·) := by
        rw [List.append_nil, List.append_nil]
      cases o with
      | cloneFailed => exact silent
      | parseFailed revision => exact silent
      | observed revision =>
          have stored : seen.foldl (step true) v = ⟨.synced, revision⟩ ↔
              (sights seen).getLast? = some revision :=
            ⟨fun synced => (last_of_synced start synced).2, synced_of_last unbroken⟩
          rw [applications, applications, applied_automated, List.append_nil]
          refine Eq.trans ?_ (destutter_concat (sights seen) revision).symm
          by_cases last : (sights seen).getLast? = some revision
          · rw [if_pos (stored.mpr last), if_pos last]
            exact List.append_nil _
          · rw [if_neg (mt stored.mp last), if_neg last]
            rfl

/-- **The machine applies each change of revision once**, and nothing else, exactly when its run is
unbroken. -/
theorem applications_eq_destutter_iff {v : SyncView} (start : v.syncStatus ≠ .synced)
    (seen : List Observation) :
    applications true v seen = (sights seen).destutter (· ≠ ·) ↔ Unbroken seen := by
  refine ⟨fun once => unbroken_of_isChain start ?_, applications_of_unbroken start⟩
  rw [once]
  exact List.isChain_destutter (· ≠ ·) (sights seen)

end SyncView

/-! ## The reconciler -/

/-- **One apply per change of revision.**  From a fresh object with automated sync, whatever clones
and parses fail, the revisions applied are the observed ones without consecutive repeats exactly
when no two sights of one revision have failures, and nothing else, between them. -/
theorem applied_once_iff (name : String) (spec : GitApplicationSpec)
    (automated : spec.automated = true) (envs : List Outcomes)
    (reliable : ∀ env ∈ envs, env.Reliable) :
    (envs.foldl World.reconciled (World.created name spec)).appliedRevisions =
        (sights (envs.map Outcomes.observation)).destutter (· ≠ ·) ↔
      Unbroken (envs.map Outcomes.observation) := by
  have fresh : (World.created name spec).view.syncStatus ≠ .synced := by
    simp [World.created, World.view]
  rw [World.run_refines reliable, ← SyncView.applications_eq_destutter_iff fresh]
  have automated' : (World.created name spec).app.spec.automated = true := automated
  rw [automated']
  rfl

/-- A failed clone between two revisions does no harm. -/
theorem applied_once_of_failed_clone :
    ([Outcomes.succeeding "v1" [] 0,
        { Outcomes.succeeding "" [] 30 with cloneOrPull := .error "timeout" },
        .succeeding "v2" [] 60].foldl World.reconciled
      (World.created "guestbook" { syncPolicy := some { automated := true } })).appliedRevisions =
      ["v1", "v2"] := by
  refine (applied_once_iff "guestbook" { syncPolicy := some { automated := true } } rfl _ ?_).mpr ?_
  · intro env member
    rcases List.mem_cons.mp member with rfl | member
    · exact (Outcomes.succeeding_succeeds "v1" [] 0).toReliable
    rcases List.mem_cons.mp member with rfl | member
    · exact ⟨rfl, fun _ => rfl, rfl, fun _ => rfl⟩
    rcases List.mem_cons.mp member with rfl | member
    · exact (Outcomes.succeeding_succeeds "v2" [] 60).toReliable
    cases member
  · have start : (⟨.unset, ""⟩ : SyncView).syncStatus ≠ .synced := by decide
    exact (SyncView.applications_eq_destutter_iff start _).mp (by decide)

/-- A failed clone between two sights of one revision has it applied again. -/
theorem failed_clone_applies_again :
    ([Outcomes.succeeding "v1" [] 0,
        { Outcomes.succeeding "" [] 30 with cloneOrPull := .error "timeout" },
        .succeeding "v1" [] 60].foldl World.reconciled
      (World.created "guestbook" { syncPolicy := some { automated := true } })).appliedRevisions ≠
      (sights ([Outcomes.succeeding "v1" [] 0,
        { Outcomes.succeeding "" [] 30 with cloneOrPull := .error "timeout" },
        .succeeding "v1" [] 60].map Outcomes.observation)).destutter (· ≠ ·) := by
  decide

end Wardn
