import Wardn.ApplyCalls
import Wardn.Manifest.Documents

/-!
# The order of the apply

`Applier.Apply` goes through the parsed resources in the order in which the walk has come upon
them, and stops at the first that fails.  The documentation has namespaces applied first, then
custom resource definitions, then the rest; nothing sorts the resources, so this is the order
exactly when the manifests lie in the repository that way (`prerequisites_first_iff`).
-/

namespace Wardn

open Strings

/-- Namespaces come first, custom resource definitions next. -/
def applyRank (kind : String) : Nat :=
  if kind = "Namespace" then 0 else if kind = "CustomResourceDefinition" then 1 else 2

/-- None of the kinds stands behind one that it should precede. -/
def Ranked (kinds : List String) : Prop :=
  kinds.Pairwise fun kind later => applyRank kind ≤ applyRank later

instance (kinds : List String) : Decidable (Ranked kinds) :=
  inferInstanceAs (Decidable (kinds.Pairwise _))

/-- The resource of an apply call. -/
def Effect.resource? : Effect → Option Resource
  | .applyResource res _ => some res
  | _ => none

/-- The resources that are applied, in order; the apply of the last one may have failed. -/
def attempts (calls : List Effect) : List Resource := calls.filterMap Effect.resource?

/-- Every reconcile of these resources applies them in this order, whatever the object and the
cluster: namespaces and definitions precede what may need them. -/
structure PrerequisitesFirst (resources order : List Resource) : Prop where
  perm : order.Perm resources
  ranked : Ranked (order.map Resource.kind)
  applied : ∀ (w : World) (env : Outcomes), w.StartsApply env → env.parse = .ok resources →
    attempts (w.calls env) <+: order
  complete : ∀ (w : World) (env : Outcomes), w.StartsApply env → env.parse = .ok resources →
    (∀ i < resources.length, env.applyResource i = none) → attempts (w.calls env) = order
  /-- Nothing that is still to be applied should have preceded the resource an apply stops at. -/
  stopped : ∀ (w : World) (env : Outcomes), w.StartsApply env → env.parse = .ok resources →
    ∀ before res, attempts (w.calls env) = before ++ [res] →
      ∀ later ∈ order.drop (before.length + 1), applyRank res.kind ≤ applyRank later.kind

/-! ## What a reconcile applies -/

@[simp] theorem attempts_append (calls more : List Effect) :
    attempts (calls ++ more) = attempts calls ++ attempts more :=
  List.filterMap_append

@[simp] theorem attempts_map (resources : List Resource) (err : Option String) :
    attempts (resources.map (.applyResource · err)) = resources := by
  simp [attempts, List.filterMap_map, Function.comp_def, Effect.resource?]

/-- Resources are applied inside the apply. -/
theorem attempts_applyCalls (calls : List Effect) :
    attempts (applyCalls calls) = attempts calls := by
  rw [attempts, applyCalls, List.filterMap_filter, attempts]
  refine List.filterMap_congr fun e _ => ?_
  cases e with
  | applyResource res err => exact if_pos (by simpa using .resource res err)
  | _ => simp [Effect.resource?]

/-- Pruning applies nothing. -/
theorem attempts_apply (env : Outcomes) (resources : List Resource)
    (syncPolicy : Option SyncPolicy) :
    attempts (apply env resources syncPolicy).1 = attempts (applyFrom env 0 resources).1 := by
  unfold apply
  cases applyFrom env 0 resources with
  | mk calls err =>
      cases err with
      | some err => rfl
      | none =>
          cases prunes syncPolicy with
          | false => rfl
          | true =>
              cases env.pruneResources with
              | some err => exact (attempts_append calls _).trans (List.append_nil _)
              | none => exact (attempts_append calls _).trans (List.append_nil _)

/-- The resources that a reconcile applies are those of the apply loop. -/
theorem attempts_calls {w : World} {env : Outcomes} {resources : List Resource}
    (starts : w.StartsApply env) (parse : env.parse = .ok resources) :
    attempts (w.calls env) = attempts (applyFrom env 0 resources).1 := by
  rw [← attempts_applyCalls, applyCalls_of_startsApply starts parse, attempts_apply]

theorem attempts_applyFrom_prefix (env : Outcomes) (i : Nat) (resources : List Resource) :
    attempts (applyFrom env i resources).1 <+: resources := by
  rcases applyFrom_calls env i resources with all | ⟨applied, res, later, err, text, cut, stops⟩
  · rw [all, attempts_map]
  · have last : attempts [Effect.applyResource res (some err)] = [res] := rfl
    rw [stops, attempts_append, attempts_map, last, cut]
    exact ⟨later, by simp⟩

theorem attempts_applyFrom_complete {env : Outcomes} {i : Nat} {resources : List Resource}
    (all : ∀ j < resources.length, env.applyResource (i + j) = none) :
    attempts (applyFrom env i resources).1 = resources := by
  have none := (applyFrom_err_eq_none_iff env i resources).mpr all
  rcases applyFrom_calls env i resources with all | ⟨applied, res, later, err, text, cut, stops⟩
  · rw [all, attempts_map]
  · rw [stops] at none
    cases none

/-! ## Resources that are in order -/

/-- The parsed order is the applied one, so no other order will do. -/
theorem prerequisitesFirst_iff (resources order : List Resource) :
    PrerequisitesFirst resources order ↔
      order = resources ∧ Ranked (resources.map Resource.kind) := by
  refine ⟨fun first => ?_, fun sorted => ?_⟩
  · let w := World.created "shop" {}
    let env := Outcomes.succeeding "5e1f" resources 0
    have starts : w.StartsApply env :=
      ⟨rfl, "5e1f", resources, rfl, rfl, by decide, .inr (.inl rfl)⟩
    have parsed : attempts (w.calls env) = resources := by
      rw [attempts_calls starts rfl]
      exact attempts_applyFrom_complete fun _ _ => rfl
    have same := (first.complete w env starts rfl fun _ _ => rfl).symm.trans parsed
    exact ⟨same, same ▸ first.ranked⟩
  · obtain ⟨rfl, ranked⟩ := sorted
    have applied : ∀ (w : World) (env : Outcomes), w.StartsApply env → env.parse = .ok order →
        attempts (w.calls env) <+: order := by
      intro w env starts parse
      rw [attempts_calls starts parse]
      exact attempts_applyFrom_prefix env 0 order
    refine ⟨.refl order, ranked, applied, fun w env starts parse all => ?_, ?_⟩
    · rw [attempts_calls starts parse]
      exact attempts_applyFrom_complete fun j bound => by simpa using all j bound
    · intro w env starts parse before res stops later member
      obtain ⟨rest, whole⟩ := applied w env starts parse
      rw [stops] at whole
      rw [← whole, List.drop_left' (by simp)] at member
      rw [← whole, Ranked, List.map_append, List.map_append, List.pairwise_append] at ranked
      exact ranked.2.2 res.kind (by simp) later.kind (List.mem_map_of_mem member)

/-! ## Repositories that are in order -/

/-- The kinds of the documents of a manifest, in order. -/
def documentKinds (content : String) : List String :=
  ((split content "\n---").map fun doc => (extractResourceMeta (trimSpace doc)).kind).filter
    (· ≠ "")

theorem kinds_resourcesOf (content : String) :
    (resourcesOf content).map Resource.kind = documentKinds content := by
  rw [resourcesOf, documentKinds]
  induction split content "\n---" with
  | nil => rfl
  | cons doc docs ih =>
      rw [List.map_cons, List.filterMap_cons]
      by_cases blank : trimSpace doc = ""
      · have verdict : parseDocument doc = none := by simp [parseDocument, blank]
        have kind : (extractResourceMeta "").kind = "" := by decide
        simpa [verdict, blank, kind] using ih
      · by_cases silent : (extractResourceMeta (trimSpace doc)).kind = ""
        · have verdict : parseDocument doc = none := by simp [parseDocument, blank, silent]
          simpa [verdict, silent] using ih
        · have verdict : parseDocument doc = some
              { extractResourceMeta (trimSpace doc) with content := trimSpace doc } := by
            simp [parseDocument, blank, silent]
          simpa [verdict, silent] using ih

/-- The kinds of the documents of all manifests: files in the order of the walk, documents in the
order of the file. -/
def repositoryKinds (lstat : String → Except String Entry) (dir : String) : List String :=
  ((rootVisits dir (lstat dir)).flatMap manifestTexts).flatMap documentKinds

theorem kinds_of_parse {lstat : String → Except String Entry} {repoPath subPath : String}
    {resources : List Resource} (parsed : parse lstat repoPath subPath .raw = .ok resources) :
    resources.map Resource.kind = repositoryKinds lstat (FilePath.join repoPath subPath) := by
  rw [repositoryKinds]
  rcases parse_raw_cases lstat repoPath subPath rfl with ⟨-, err, stops⟩ | ⟨-, collects⟩
  · cases parsed.symm.trans stops
  · cases parsed.symm.trans collects
    rw [List.map_flatMap]
    exact List.flatMap_congr fun content _ => kinds_resourcesOf content

/-- **Prerequisites are applied first**, in every reconcile of a repository, exactly when its
documents lie in that order. -/
theorem prerequisites_first_iff {lstat : String → Except String Entry} {repoPath subPath : String}
    {resources : List Resource} (parsed : parse lstat repoPath subPath .raw = .ok resources) :
    (∃ order, PrerequisitesFirst resources order) ↔
      Ranked (repositoryKinds lstat (FilePath.join repoPath subPath)) := by
  simp only [prerequisitesFirst_iff, exists_eq_left, kinds_of_parse parsed]

/-- A namespace before what is in it. -/
theorem prerequisites_first_of_one_file :
    ∃ order, PrerequisitesFirst
      [{ kind := "Namespace", content := "kind: Namespace" },
        { kind := "Pod", content := "kind: Pod" }] order := by
  have parsed : parse (checkout "app.yaml" "kind: Namespace\n---\nkind: Pod") "repo" "." .raw =
      .ok [{ kind := "Namespace", content := "kind: Namespace" },
        { kind := "Pod", content := "kind: Pod" }] := by rfl
  exact (prerequisites_first_iff parsed).mpr (by decide)

/-- `app.yaml` comes before `namespace.yaml`. -/
theorem namespace_applied_last :
    ∃ (lstat : String → Except String Entry) (resources : List Resource),
      parse lstat "repo" "." .raw = .ok resources ∧
        resources.map Resource.kind = ["Deployment", "Namespace"] ∧
          ¬ ∃ order, PrerequisitesFirst resources order := by
  let files : Entries :=
    .cons (.file "app.yaml" (.ok "kind: Deployment"))
      (.cons (.file "namespace.yaml" (.ok "kind: Namespace")) .nil)
  refine ⟨fun _ => .ok (.dir "repo" files),
    [{ kind := "Deployment", content := "kind: Deployment" },
      { kind := "Namespace", content := "kind: Namespace" }], by rfl, rfl, fun first => ?_⟩
  obtain ⟨order, first⟩ := first
  exact absurd ((prerequisitesFirst_iff _ _).mp first).2 (by decide)

end Wardn
