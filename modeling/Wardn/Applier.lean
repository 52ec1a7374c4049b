import Wardn.Effect

/-!
# The applier

`internal/k8s/applier.go`: resources are applied in list order up to the first failure, and
pruning follows a complete pass when the policy asks for it.
-/

namespace Wardn

/-- The loop of `Applier.Apply` over the resources from index `i` on. -/
def applyFrom (env : Outcomes) : Nat → List Resource → List Effect × Option String
  | _, [] => ([], none)
  | i, res :: resources =>
    match env.applyResource i with
    | some err =>
      ([.applyResource res (some err)],
        some ("failed to apply " ++ res.kind ++ "/" ++ res.name ++ ": " ++ err))
    | none =>
      let (effects, err) := applyFrom env (i + 1) resources
      (.applyResource res none :: effects, err)

/-- `syncPolicy != nil && syncPolicy.Prune`. -/
def prunes (syncPolicy : Option SyncPolicy) : Bool :=
  match syncPolicy with
  | some policy => policy.prune
  | none => false

/-- `Applier.Apply`: its calls and its error. -/
def apply (env : Outcomes) (resources : List Resource) (syncPolicy : Option SyncPolicy) :
    List Effect × Option String :=
  match applyFrom env 0 resources with
  | (effects, some err) => (effects, some err)
  | (effects, none) =>
    if prunes syncPolicy then
      match env.pruneResources with
      | some err =>
        (effects ++ [.pruneResources resources (some err)],
          some ("failed to prune resources: " ++ err))
      | none => (effects ++ [.pruneResources resources none], none)
    else (effects, none)

/-- The calls of an apply: none of them writes a status or starts another apply. -/
inductive Effect.IsApplyCall : Effect → Prop
  | resource (res : Resource) (err : Option String) : IsApplyCall (.applyResource res err)
  | prune (desired : List Resource) (err : Option String) :
    IsApplyCall (.pruneResources desired err)

instance : DecidablePred Effect.IsApplyCall
  | .applyResource res err => .isTrue (.resource res err)
  | .pruneResources desired err => .isTrue (.prune desired err)
  | .statusUpdate _ _ => .isFalse nofun
  | .applyStart _ _ => .isFalse nofun
  | .applyEnd _ => .isFalse nofun
  | .sendSlack _ _ => .isFalse nofun

/-- The calls of the loop: every resource in list order, or the resources up to the first that
fails. -/
theorem applyFrom_calls (env : Outcomes) (i : Nat) (resources : List Resource) :
    (applyFrom env i resources = (resources.map (.applyResource · none), none)) ∨
      ∃ applied res later err text, resources = applied ++ res :: later ∧
        applyFrom env i resources =
          (applied.map (.applyResource · none) ++ [.applyResource res (some err)], some text) := by
  induction resources generalizing i with
  | nil => exact .inl rfl
  | cons res resources ih =>
      unfold applyFrom
      cases here : env.applyResource i with
      | some err => exact .inr ⟨[], res, resources, err, _, rfl, rfl⟩
      | none =>
          rcases ih (i + 1) with all | ⟨applied, failing, later, err, text, cut, stops⟩
          · simp only [all]
            exact .inl rfl
          · simp only [stops]
            exact .inr ⟨res :: applied, failing, later, err, text, by rw [cut]; rfl, rfl⟩

/-- The calls of `Applier.Apply` and its error, in the three ways it can return. -/
inductive Applied (resources : List Resource) (syncPolicy : Option SyncPolicy) :
    List Effect → Option String → Prop
  | failed {applied later : List Resource} {res : Resource} {err text : String}
    (cut : resources = applied ++ res :: later) :
    Applied resources syncPolicy
      (applied.map (.applyResource · none) ++ [.applyResource res (some err)]) (some text)
  | kept (keeps : prunes syncPolicy = false) :
    Applied resources syncPolicy (resources.map (.applyResource · none)) none
  | pruned (pruning : prunes syncPolicy = true) (err : Option String) :
    Applied resources syncPolicy
      (resources.map (.applyResource · none) ++ [.pruneResources resources err])
      (err.map ("failed to prune resources: " ++ ·))

/-- `Apply` does what `Applied` says. -/
theorem apply_applied (env : Outcomes) (resources : List Resource)
    (syncPolicy : Option SyncPolicy) :
    Applied resources syncPolicy (apply env resources syncPolicy).1
      (apply env resources syncPolicy).2 := by
  unfold apply
  rcases applyFrom_calls env 0 resources with all | ⟨applied, res, later, err, text, cut, stops⟩
  · cases pruning : prunes syncPolicy with
    | false => simpa [all] using .kept pruning
    | true =>
        cases env.pruneResources with
        | some err => simpa [all, pruning] using Applied.pruned pruning (some err)
        | none => simpa [all, pruning] using Applied.pruned pruning none
  · simpa [stops] using .failed cut

theorem apply_isApplyCall (env : Outcomes) (resources : List Resource)
    (syncPolicy : Option SyncPolicy) :
    ∀ e ∈ (apply env resources syncPolicy).1, e.IsApplyCall := by
  have loop : ∀ applied : List Resource, ∀ e ∈ applied.map (Effect.applyResource · none),
      e.IsApplyCall := by
    intro applied e member
    obtain ⟨res, -, rfl⟩ := List.mem_map.mp member
    exact .resource res none
  have returned := apply_applied env resources syncPolicy
  generalize (apply env resources syncPolicy).1 = calls,
    (apply env resources syncPolicy).2 = err at returned
  cases returned with
  | failed cut => exact List.forall_mem_append.mpr ⟨loop _, by simpa using .resource _ _⟩
  | kept keeps => exact loop resources
  | pruned pruning err => exact List.forall_mem_append.mpr ⟨loop _, by simpa using .prune _ _⟩

/-- The loop ends well exactly when every apply of a resource does. -/
theorem applyFrom_err_eq_none_iff (env : Outcomes) (i : Nat) (resources : List Resource) :
    (applyFrom env i resources).2 = none ↔
      ∀ j < resources.length, env.applyResource (i + j) = none := by
  induction resources generalizing i with
  | nil => simp [applyFrom]
  | cons res resources ih =>
      unfold applyFrom
      cases here : env.applyResource i with
      | some err =>
          have refuted : ¬ ∀ j < (res :: resources).length, env.applyResource (i + j) = none :=
            fun all => by simpa [here] using all 0 (by simp)
          simpa using refuted
      | none =>
          refine (ih (i + 1)).trans ⟨fun all j bound => ?_, fun all j bound => ?_⟩
          · cases j with
            | zero => exact here
            | succ j =>
                have later := all j (by simpa using bound)
                rwa [show i + (j + 1) = i + 1 + j by omega]
          · have later := all (j + 1) (by simpa using bound)
            rwa [show i + 1 + j = i + (j + 1) by omega]

/-- An apply reports no error exactly when every resource was applied and a prune the policy
asks for succeeded. -/
theorem apply_err_eq_none_iff (env : Outcomes) (resources : List Resource)
    (syncPolicy : Option SyncPolicy) :
    (apply env resources syncPolicy).2 = none ↔
      (∀ i < resources.length, env.applyResource i = none) ∧
        (prunes syncPolicy = true → env.pruneResources = none) := by
  have loop := applyFrom_err_eq_none_iff env 0 resources
  simp only [Nat.zero_add] at loop
  rw [← loop]
  unfold apply
  cases applied : applyFrom env 0 resources with
  | mk effects err =>
      cases err with
      | some err => simp
      | none =>
          cases prunes syncPolicy with
          | false => simp
          | true => cases env.pruneResources <;> simp

/-- Where the cluster answers, an apply ends well. -/
theorem Outcomes.Reliable.apply_err {env : Outcomes} (reliable : env.Reliable)
    (resources : List Resource) (syncPolicy : Option SyncPolicy) :
    (apply env resources syncPolicy).2 = none :=
  (apply_err_eq_none_iff env resources syncPolicy).mpr
    ⟨fun i _ => reliable.applyResource i, fun _ => reliable.pruneResources⟩

end Wardn
