import Wardn.World

/-!
# The calls of an apply

Among the calls of a reconcile, those made inside `Applier.Apply`: none, or those of the one apply
that it enters, with the resources it has parsed (`applyCalls_calls`).
-/

namespace Wardn

/-- The calls made inside `Applier.Apply`. -/
def applyCalls (calls : List Effect) : List Effect :=
  calls.filter fun e => e.IsApplyCall

@[simp] theorem applyCalls_append (calls later : List Effect) :
    applyCalls (calls ++ later) = applyCalls calls ++ applyCalls later :=
  List.filter_append ..

theorem applyCalls_eq_nil {calls : List Effect} (others : ∀ e ∈ calls, ¬ e.IsApplyCall) :
    applyCalls calls = [] :=
  List.filter_eq_nil_iff.mpr fun e member => by simpa using others e member

theorem applyCalls_eq_self {calls : List Effect} (all : ∀ e ∈ calls, e.IsApplyCall) :
    applyCalls calls = calls :=
  List.filter_eq_self.mpr fun e member => by simpa using all e member

/-! ## The calls of a reconcile -/

/-- A message is no apply call. -/
theorem not_isApplyCall_sendNotification (env : Outcomes) (app : GitApplication) (success : Bool)
    (err : Option String) : ∀ e ∈ sendNotification env app success err, ¬ e.IsApplyCall := by
  intro e member call
  obtain ⟨url, message, rfl⟩ := sendNotification_isSlack env app success err e member
  cases call

/-- A status update is no apply call. -/
theorem not_isApplyCall_update (env : Outcomes) (i : Nat) (app : GitApplication) :
    ¬ (env.update i app).IsApplyCall := by
  intro call
  cases call

/-- A status update contributes no apply call. -/
theorem applyCalls_update (env : Outcomes) (i : Nat) (app : GitApplication) :
    applyCalls [env.update i app] = [] :=
  applyCalls_eq_nil (by simp [not_isApplyCall_update])

/-- Between the marks of an apply stand the calls of `Applier.Apply` and no other apply calls. -/
theorem applyCalls_applyPhase {env : Outcomes} {app : GitApplication} {revision : String}
    {resources : List Resource} {calls : List Effect} {err : Option String}
    (applied : apply env resources app.spec.syncPolicy = (calls, err)) {messages : List Effect}
    (silent : ∀ e ∈ messages, ¬ e.IsApplyCall) (last : GitApplication) :
    applyCalls (applyPhase env app revision resources calls err ++ env.update 1 last :: messages) =
      calls := by
  have all := apply_isApplyCall env resources app.spec.syncPolicy
  rw [applied] at all
  have rest : applyCalls messages = [] := applyCalls_eq_nil silent
  have own : applyCalls calls = calls := applyCalls_eq_self all
  have start : ¬ (Effect.applyStart revision resources).IsApplyCall := by rintro ⟨⟩
  have stop : ¬ (Effect.applyEnd err).IsApplyCall := by rintro ⟨⟩
  unfold applyCalls at rest own ⊢
  simp [applyPhase, not_isApplyCall_update, own, rest, start, stop]

/-- The apply that a reconcile enters is called with the parsed resources. -/
theorem applyCalls_of_startsApply {w : World} {env : Outcomes} {resources : List Resource}
    (starts : w.StartsApply env) (parse : env.parse = .ok resources) :
    applyCalls (w.calls env) = (apply env resources w.app.spec.syncPolicy).1 := by
  obtain ⟨get, revision, resources', clone, parse', moved, sync⟩ := starts
  cases parse.symm.trans parse'
  rw [World.calls_of_get_eq_none get]
  cases applied : apply env resources w.app.spec.syncPolicy with
  | mk calls err =>
      cases err with
      | some err =>
          rw [← (Passage.applyFailed clone parse moved sync applied).eq_reconcileApp]
          exact applyCalls_applyPhase applied (not_isApplyCall_sendNotification _ _ _ _) _
      | none =>
          cases write : env.recordErr with
          | some err =>
              rw [← (Passage.unrecorded clone parse moved sync applied write).eq_reconcileApp]
              exact applyCalls_applyPhase applied (by simp) _
          | none =>
              rw [← (Passage.synced clone parse moved sync applied write).eq_reconcileApp]
              exact applyCalls_applyPhase applied (not_isApplyCall_sendNotification _ _ _ _) _

/-- Either a reconcile makes no call of an apply, or these are the calls of the one apply it
enters, with the parsed resources. -/
theorem applyCalls_calls (w : World) (env : Outcomes) :
    applyCalls (w.calls env) = [] ∨
      ∃ resources, env.parse = .ok resources ∧ w.StartsApply env ∧
        applyCalls (w.calls env) = (apply env resources w.app.spec.syncPolicy).1 := by
  by_cases starts : w.StartsApply env
  · have entered := starts
    obtain ⟨-, revision, resources, -, parse, -⟩ := entered
    exact .inr ⟨resources, parse, starts, applyCalls_of_startsApply starts parse⟩
  · left
    cases get : env.get with
    | some err =>
        rw [World.calls_of_get_eq_some get]
        rfl
    | none =>
        rw [World.calls_of_get_eq_none get]
        have passage := reconcileApp_passage env w.app
        generalize reconcileApp env w.app = reconciliation at passage
        cases passage with
        | cloneFailed => exact applyCalls_update env 0 _
        | parseFailed => exact applyCalls_update env 0 _
        | upToDate => exact applyCalls_update env 0 _
        | heldBack => exact applyCalls_update env 0 _
        | applyFailed clone parse moved sync =>
            exact absurd ⟨get, _, _, clone, parse, moved, sync⟩ starts
        | unrecorded clone parse moved sync =>
            exact absurd ⟨get, _, _, clone, parse, moved, sync⟩ starts
        | synced clone parse moved sync =>
            exact absurd ⟨get, _, _, clone, parse, moved, sync⟩ starts

end Wardn
