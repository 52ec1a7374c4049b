import Wardn.World

/-!
# The condition list

`updateCondition` overwrites the condition of a type in place or appends a new one.  Over any
sequence of calls the list stays a set of conditions, one for each type
(`conditions_stay_proper`), and so does the list of a stored status in every run of reconciles,
crashes and edits (`World.run_conditions_nodup`).
-/

namespace Wardn

/-- The arguments of a call of `updateCondition`, with the clock it reads. -/
structure ConditionUpdate where
  type : String
  status : String
  message : String
  now : Time

/-- The conditions behind a call of `updateCondition`. -/
def ConditionUpdate.call (conditions : List Condition) (u : ConditionUpdate) : List Condition :=
  updateCondition conditions u.type u.status u.message u.now

/-- The types of the conditions, in order. -/
def conditionTypes (conditions : List Condition) : List String := conditions.map Condition.type

/-- The condition says what the call was given. -/
def Condition.Carries (cond : Condition) (u : ConditionUpdate) : Prop :=
  cond.type = u.type ∧ cond.status = u.status ∧ cond.message = u.message

/-- What one call does to a list. -/
structure UpdatesOnly (conditions : List Condition) (u : ConditionUpdate)
    (updated : List Condition) : Prop where
  distinct : (conditionTypes updated).Nodup
  carried : ∃ cond ∈ updated, cond.Carries u
  kept : ∀ (i : ℕ) (cond : Condition), conditions[i]? = some cond → cond.type ≠ u.type →
    updated[i]? = some cond
  length : updated.length =
    if u.type ∈ conditionTypes conditions then conditions.length else conditions.length + 1

/-- What a sequence of calls does to a list. -/
structure StaysProper (conditions : List Condition) (updates : List ConditionUpdate)
    (updated : List Condition) : Prop where
  distinct : (conditionTypes updated).Nodup
  /-- The last call for a type is the one that is carried. -/
  carried : ∀ before u after, updates = before ++ u :: after → (∀ v ∈ after, v.type ≠ u.type) →
    ∃ cond ∈ updated, cond.Carries u
  kept : ∀ (i : ℕ) (cond : Condition), conditions[i]? = some cond →
    (∀ u ∈ updates, cond.type ≠ u.type) → updated[i]? = some cond

/-! ## One call -/

/-- Either the type is there, and its first condition is overwritten, or a condition is
appended. -/
theorem ConditionUpdate.call_cases (conditions : List Condition) (u : ConditionUpdate) :
    (∃ before cond after, conditions = before ++ cond :: after ∧ cond.type = u.type ∧
      u.call conditions = before ++
        { cond with status := u.status, message := u.message, lastTransitionTime := u.now } ::
          after) ∨
    (u.type ∉ conditionTypes conditions ∧
      u.call conditions = conditions ++
        [{ type := u.type, status := u.status, message := u.message,
           lastTransitionTime := u.now }]) := by
  induction conditions with
  | nil => exact .inr ⟨List.not_mem_nil, rfl⟩
  | cons cond conditions ih =>
      unfold ConditionUpdate.call updateCondition
      by_cases found : cond.type = u.type
      · rw [if_pos found]
        exact .inl ⟨[], cond, conditions, rfl, found, rfl⟩
      · rw [if_neg found]
        rcases ih with ⟨before, same, after, cut, type, written⟩ | ⟨absent, appended⟩
        · exact .inl ⟨cond :: before, same, after, congrArg (cond :: ·) cut, type,
            congrArg (cond :: ·) written⟩
        · refine .inr ⟨fun member => ?_, congrArg (cond :: ·) appended⟩
          rcases List.mem_cons.mp member with same | later
          · exact found same.symm
          · exact absent later

/-- The types of the list grow by the type that was absent. -/
theorem conditionTypes_call (conditions : List Condition) (u : ConditionUpdate) :
    conditionTypes (u.call conditions) =
      if u.type ∈ conditionTypes conditions then conditionTypes conditions
      else conditionTypes conditions ++ [u.type] := by
  rcases u.call_cases conditions with
    ⟨before, cond, after, rfl, found, written⟩ | ⟨absent, appended⟩
  · have present : u.type ∈ conditionTypes (before ++ cond :: after) := by
      simp [conditionTypes, ← found]
    rw [if_pos present, written]
    simp [conditionTypes]
  · rw [if_neg absent, appended]
    simp [conditionTypes]

theorem nodup_call {conditions : List Condition} (distinct : (conditionTypes conditions).Nodup)
    (u : ConditionUpdate) : (conditionTypes (u.call conditions)).Nodup := by
  rw [conditionTypes_call]
  split
  next present => exact distinct
  next absent =>
    have grown := List.nodup_cons.mpr ⟨absent, distinct⟩
    exact (List.perm_append_singleton _ _).nodup_iff.mpr grown

theorem carries_call (conditions : List Condition) (u : ConditionUpdate) :
    ∃ cond ∈ u.call conditions, cond.Carries u := by
  obtain ⟨cond, found, status, message, -⟩ :=
    find_updateCondition conditions u.type u.status u.message u.now
  have type := List.find?_some found
  exact ⟨cond, List.mem_of_find?_eq_some found, by simpa using type, status, message⟩

/-- A call leaves the conditions of other types where they are. -/
theorem getElem?_call_of_ne {conditions : List Condition} {i : ℕ} {cond : Condition}
    (here : conditions[i]? = some cond) {u : ConditionUpdate} (other : cond.type ≠ u.type) :
    (u.call conditions)[i]? = some cond := by
  rcases u.call_cases conditions with ⟨before, same, after, rfl, found, written⟩ | ⟨-, appended⟩
  · rw [written]
    rcases Nat.lt_trichotomy i before.length with front | rfl | back
    · rwa [List.getElem?_append_left front] at here ⊢
    · rw [List.getElem?_append_right (Nat.le_refl _), Nat.sub_self] at here
      cases here
      exact absurd found other
    · obtain ⟨j, rfl⟩ : ∃ j, i = before.length + (j + 1) := ⟨i - before.length - 1, by omega⟩
      rw [List.getElem?_append_right (by omega), Nat.add_sub_cancel_left] at here ⊢
      exact here
  · have inside : i < conditions.length := (List.getElem?_eq_some_iff.mp here).1
    rwa [appended, List.getElem?_append_left inside]

/-- A call adds a condition only for a new type. -/
theorem length_call (conditions : List Condition) (u : ConditionUpdate) :
    (u.call conditions).length =
      if u.type ∈ conditionTypes conditions then conditions.length else conditions.length + 1 := by
  have counted := congrArg List.length (conditionTypes_call conditions u)
  rw [conditionTypes, List.length_map] at counted
  rw [counted]
  split
  next => exact List.length_map ..
  next => simp [conditionTypes]

theorem updatesOnly_call {conditions : List Condition}
    (distinct : (conditionTypes conditions).Nodup) (u : ConditionUpdate) :
    UpdatesOnly conditions u (u.call conditions) where
  distinct := nodup_call distinct u
  carried := carries_call conditions u
  kept _ _ here other := getElem?_call_of_ne here other
  length := length_call conditions u

/-! ## Sequences of calls -/

theorem nodup_foldl_call {conditions : List Condition}
    (distinct : (conditionTypes conditions).Nodup) (updates : List ConditionUpdate) :
    (conditionTypes (updates.foldl ConditionUpdate.call conditions)).Nodup :=
  Runs.foldl_invariant (I := fun conditions => (conditionTypes conditions).Nodup)
    (fun _ u distinct => nodup_call distinct u) distinct updates

/-- No sequence of calls of other types touches a condition. -/
theorem getElem?_foldl_call {conditions : List Condition} {i : ℕ} {cond : Condition}
    (here : conditions[i]? = some cond) {updates : List ConditionUpdate}
    (others : ∀ u ∈ updates, cond.type ≠ u.type) :
    (updates.foldl ConditionUpdate.call conditions)[i]? = some cond := by
  induction updates generalizing conditions with
  | nil => exact here
  | cons u updates ih =>
      obtain ⟨first, later⟩ := List.forall_mem_cons.mp others
      exact ih (getElem?_call_of_ne here first) later

/-- What the last call for a type has given is carried to the end. -/
theorem carries_foldl_call (conditions : List Condition) {before after : List ConditionUpdate}
    {u : ConditionUpdate} (last : ∀ v ∈ after, v.type ≠ u.type) :
    ∃ cond ∈ (before ++ u :: after).foldl ConditionUpdate.call conditions, cond.Carries u := by
  rw [List.foldl_append, List.foldl_cons]
  obtain ⟨cond, member, carries⟩ :=
    carries_call (before.foldl ConditionUpdate.call conditions) u
  obtain ⟨i, here⟩ := List.mem_iff_getElem?.mp member
  have stays := getElem?_foldl_call here fun v later same =>
    last v later (same.symm.trans carries.1)
  exact ⟨cond, List.mem_of_getElem? stays, carries⟩

/-- **The conditions stay a proper set**: every call of a sequence changes the condition of its
type alone, and what stands at the end is what the last calls gave. -/
theorem conditions_stay_proper {conditions : List Condition}
    (distinct : (conditionTypes conditions).Nodup) (updates : List ConditionUpdate) :
    Runs.Along ConditionUpdate.call
        (fun conditions u => UpdatesOnly conditions u (u.call conditions)) conditions updates ∧
      StaysProper conditions updates (updates.foldl ConditionUpdate.call conditions) := by
  refine ⟨?_, nodup_foldl_call distinct updates, ?_, fun i cond here others => ?_⟩
  · exact Runs.along_of_invariant (I := fun conditions => (conditionTypes conditions).Nodup)
      (D := fun _ => True) (fun conditions u distinct _ => updatesOnly_call distinct u)
      (fun conditions u distinct _ => nodup_call distinct u) distinct fun _ _ => trivial
  · rintro before u after rfl last
    exact carries_foldl_call conditions last
  · exact getElem?_foldl_call here others

/-- A condition of another controller, and two syncs of which the second fails. -/
theorem conditions_stay_proper_of_two :
    let ready : Condition := { type := "Ready", status := "True", lastTransitionTime := 1 }
    let updates : List ConditionUpdate :=
      [⟨"SyncError", "False", "", 5⟩, ⟨"SyncError", "True", "failed to fetch", 9⟩]
    (conditionTypes [ready]).Nodup ∧
      StaysProper [ready] updates (updates.foldl ConditionUpdate.call [ready]) := by
  intro ready updates
  have distinct : (conditionTypes [ready]).Nodup := by decide
  exact ⟨distinct, (conditions_stay_proper distinct updates).2⟩

/-! ## The stored list -/

theorem nodup_updateStatus {app : GitApplication}
    (distinct : (conditionTypes app.status.conditions).Nodup) (sync : SyncStatus)
    (health : HealthStatus) (revision : String) (resources : List Resource)
    (syncErr : Option String) (now : Time) :
    (conditionTypes (updateStatus app sync health revision resources syncErr
      now).status.conditions).Nodup := by
  rw [updateStatus_conditions]
  exact nodup_call distinct ⟨"SyncError", _, _, now⟩

/-- No submitted status has two conditions of a type, if the stored one has not. -/
theorem Submission.conditions_nodup {env : Outcomes} {app : GitApplication}
    {status : GitApplicationStatus} (submission : Submission env app status)
    (distinct : (conditionTypes app.status.conditions).Nodup) :
    (conditionTypes status.conditions).Nodup := by
  cases submission with
  | unknown => exact nodup_updateStatus distinct ..
  | unparsed => exact nodup_updateStatus distinct ..
  | rechecked => exact distinct
  | held => exact nodup_updateStatus distinct ..
  | syncing => exact nodup_updateStatus distinct ..
  | degraded => exact nodup_updateStatus (nodup_updateStatus distinct ..) ..
  | @synced revision resources =>
      have syncing :=
        nodup_updateStatus distinct .syncing .progressing revision resources none (env.now 0)
      exact syncing

/-- In every run the stored conditions have distinct types. -/
theorem World.run_conditions_nodup (name : String) (spec : GitApplicationSpec)
    (run : List Action) :
    (conditionTypes
      (run.foldl World.step (World.created name spec)).app.status.conditions).Nodup := by
  have created : (conditionTypes (World.created name spec).app.status.conditions).Nodup :=
    List.nodup_nil
  exact World.run_status_invariant (I := fun status => (conditionTypes status.conditions).Nodup)
    (fun _ _ _ distinct submission => submission.conditions_nodup distinct) created run

end Wardn
