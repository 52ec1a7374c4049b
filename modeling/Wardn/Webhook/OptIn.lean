import Mathlib.Data.Finmap
import Mathlib.Data.List.Forall2
import Wardn.Webhook.Handler

/-!
# Which applications a push touches

One delivery of `handleGitHub` over whole objects: their labels, all their annotations and
`spec.webhook`.  The handler tests the URL and the branch, in the ref with or without its prefix,
and never looks at `spec.webhook`; `touches_opted_in_iff` says when that makes no difference.  For
the objects of `Wardn.Webhook.Handler`, which keep the trigger alone, the loop is the same
(`receive_listed`, `object_trigger`).
-/

namespace Wardn.Webhook

/-- `WebhookConfig`. -/
structure WebhookConfig where
  enabled : Bool := false
  secretRef : String := ""
  deriving DecidableEq

/-- The spec, with its webhook configuration. -/
structure Spec extends GitApplicationSpec where
  webhook : Option WebhookConfig := none
  deriving DecidableEq

/-- A Go map from strings to strings; `none` is the nil map. -/
abbrev StringMap := Option (Finmap fun _ : String => String)

/-- `m[key]`, with the second result. -/
def lookup (m : StringMap) (key : String) : Option String :=
  m.bind fun entries => entries.lookup key

/-- A listed GitApplication, with its metadata. -/
structure Application where
  key : ObjectKey
  labels : StringMap
  annotations : StringMap
  spec : Spec
  status : GitApplicationStatus
  deriving DecidableEq

/-- The annotation that the handler writes. -/
def triggerKey : String := "wardn.space/webhook-trigger"

/-- `r.Update` is called with this object for a listed one. -/
def Application.trigger (app : Application) (stamp : String) : Application :=
  let annotations :=
    match app.annotations with
    | none => ∅
    | some annotations => annotations
  { app with annotations := some (annotations.insert triggerKey stamp) }

/-- `spec.webhook != nil && spec.webhook.enabled`. -/
def Application.webhookEnabled (app : Application) : Bool :=
  match app.spec.webhook with
  | some config => config.enabled
  | none => false

/-! ## `handleGitHub` -/

/-- The test of the loop. -/
def Payload.Targets (payload : Payload) (app : Application) : Prop :=
  app.spec.repoURL = payload.cloneURL ∧
    app.spec.branch = Strings.trimPrefix payload.ref "refs/heads/"

instance (payload : Payload) : DecidablePred payload.Targets := fun app =>
  inferInstanceAs (Decidable (app.spec.repoURL = _ ∧ app.spec.branch = _))

/-- A call of `k8sClient.Update` with its answer. -/
structure UpdateCall where
  sent : Application
  err : Option String

/-- A status code and a body. -/
structure Response where
  status : ℕ
  body : String
  deriving DecidableEq

section Handler

-- What each call of `Update` is answered, and the text of the time it is made at.
variable (update : ℕ → Option String) (stamp : ℕ → String)

/-- The loop over the listed applications, with the calls so far and their successes. -/
def triggerLoop (payload : Payload) :
    List Application → List UpdateCall → ℕ → List UpdateCall × ℕ
  | [], calls, matched => (calls, matched)
  | app :: apps, calls, matched =>
    if payload.Targets app then
      let err := update calls.length
      let calls' := calls ++ [⟨app.trigger (stamp calls.length), err⟩]
      match err with
      | some _ => triggerLoop payload apps calls' matched
      | none => triggerLoop payload apps calls' (matched + 1)
    else triggerLoop payload apps calls matched

/-- The body of a `200`. -/
def matchedBody (matched : ℕ) : String := "\x7b\"matched\": " ++ toString matched ++ "\x7d"

/-- `handleGitHub`: the updates that are sent, in order, and the reply. -/
def handleGitHub (request : Request) (list : Except String (List Application)) :
    List UpdateCall × Response :=
  if request.method ≠ "POST" then ([], ⟨405, "method not allowed\n"⟩)
  else
    match request.payload, list with
    | none, _ => ([], ⟨400, "bad request\n"⟩)
    | some _, .error _ => ([], ⟨500, "internal error\n"⟩)
    | some payload, .ok apps =>
      let (calls, matched) := triggerLoop update stamp payload apps [] 0
      (calls, ⟨200, matchedBody matched⟩)

end Handler

/-! ## What the calls change -/

/-- The objects differ in the trigger annotation only. -/
structure OnlyTriggers (app sent : Application) : Prop where
  key : sent.key = app.key
  labels : sent.labels = app.labels
  annotations : ∀ key, key ≠ triggerKey → lookup sent.annotations key = lookup app.annotations key
  triggered : ∃ stamp, lookup sent.annotations triggerKey = some stamp
  spec : sent.spec = app.spec
  status : sent.status = app.status

theorem onlyTriggers_trigger (app : Application) (stamp : String) :
    OnlyTriggers app (app.trigger stamp) := by
  refine ⟨rfl, rfl, fun key other => ?_, ⟨stamp, ?_⟩, rfl, rfl⟩
  · unfold Application.trigger
    cases app.annotations with
    | none => exact Finmap.lookup_insert_of_ne _ other
    | some annotations => exact Finmap.lookup_insert_of_ne _ other
  · exact Finmap.lookup_insert _

/-- One round of the loop for an application that is targeted. -/
theorem triggerLoop_cons (update : ℕ → Option String) (stamp : ℕ → String) {payload : Payload}
    {app : Application} (targeted : payload.Targets app) (apps : List Application)
    (calls : List UpdateCall) (matched : ℕ) :
    ∃ call : UpdateCall, OnlyTriggers app call.sent ∧
      triggerLoop update stamp payload (app :: apps) calls matched =
        triggerLoop update stamp payload apps (calls ++ [call])
          (matched + [call].countP (·.err.isNone)) := by
  refine ⟨⟨app.trigger (stamp calls.length), update calls.length⟩, onlyTriggers_trigger app _, ?_⟩
  rw [triggerLoop, if_pos targeted]
  cases update calls.length with
  | some err => rfl
  | none => rfl

/-- The loop calls `Update` for every application it targets, in order, whatever the answers, and
counts the successes. -/
theorem triggerLoop_eq (update : ℕ → Option String) (stamp : ℕ → String) (payload : Payload)
    (apps : List Application) (calls : List UpdateCall) (matched : ℕ) :
    ∃ made, triggerLoop update stamp payload apps calls matched =
        (calls ++ made, matched + made.countP (·.err.isNone)) ∧
      List.Forall₂ (fun app call => OnlyTriggers app call.sent) (apps.filter payload.Targets)
        made := by
  induction apps generalizing calls matched with
  | nil => exact ⟨[], by simp [triggerLoop], .nil⟩
  | cons app apps ih =>
      by_cases targeted : payload.Targets app
      · obtain ⟨call, triggers, round⟩ :=
          triggerLoop_cons update stamp targeted apps calls matched
        obtain ⟨made, loop, changed⟩ :=
          ih (calls ++ [call]) (matched + [call].countP (·.err.isNone))
        rw [List.filter_cons_of_pos (by simpa using targeted), round, loop, List.append_assoc,
          Nat.add_assoc, ← List.countP_append]
        exact ⟨call :: made, rfl, .cons triggers changed⟩
      · rw [triggerLoop, if_neg targeted, List.filter_cons_of_neg (by simpa using targeted)]
        exact ih calls matched

theorem handleGitHub_eq (update : ℕ → Option String) (stamp : ℕ → String) (payload : Payload)
    (apps : List Application) :
    ∃ calls, handleGitHub update stamp ⟨"POST", some payload⟩ (.ok apps) =
        (calls, ⟨200, matchedBody (calls.countP (·.err.isNone))⟩) ∧
      List.Forall₂ (fun app call => OnlyTriggers app call.sent) (apps.filter payload.Targets)
        calls := by
  obtain ⟨calls, loop, changed⟩ := triggerLoop_eq update stamp payload apps [] 0
  rw [List.nil_append, Nat.zero_add] at loop
  refine ⟨calls, ?_, changed⟩
  simp only [handleGitHub, ne_eq, not_true_eq_false, if_false, loop]

/-- An `Update` with a copy of a stored object changes its trigger or nothing. -/
theorem stored_of_update {store : Versioned.Store ObjectKey Application} {app : Application}
    {version : ℕ} (copy : Versioned.Copy store app.key ⟨app, version⟩) {stamp : String}
    {key : ObjectKey} {stored : Versioned.Entry Application}
    (read : (store.write app.key version fun stored =>
      { app.trigger stamp with status := stored.status }).1.entries key = some stored) :
    store.entries key = some stored ∨ key = app.key ∧ OnlyTriggers app stored.value := by
  rcases copy.entries_write read with untouched | ⟨same, written⟩
  · exact .inl untouched
  · rw [written]
    exact .inr ⟨same, { onlyTriggers_trigger app stamp with status := rfl }⟩

/-! ## Those that opted in -/

/-- The application has its webhook enabled, for pushes to this branch. -/
def Payload.OptsIn (payload : Payload) (app : Application) : Prop :=
  app.webhookEnabled = true ∧ app.spec.repoURL = payload.cloneURL ∧
    payload.ref = "refs/heads/" ++ app.spec.branch

instance (payload : Payload) : DecidablePred payload.OptsIn := fun app =>
  inferInstanceAs (Decidable (app.webhookEnabled = true ∧ app.spec.repoURL = _ ∧ _ = _))

/-- One call for each application that opted in, whatever becomes of the others, and a count of
those that succeeded. -/
structure TouchesOptedIn (payload : Payload) (apps : List Application)
    (outcome : List UpdateCall × Response) : Prop where
  written : List.Forall₂ (fun app call => OnlyTriggers app call.sent)
    (apps.filter payload.OptsIn) outcome.1
  counted : outcome.2 = ⟨200, matchedBody (outcome.1.countP (·.err.isNone))⟩

theorem Payload.OptsIn.targets {payload : Payload} {app : Application}
    (opted : payload.OptsIn app) : payload.Targets app := by
  obtain ⟨-, url, ref⟩ := opted
  have stripped := Strings.trimPrefix_append "refs/heads/" app.spec.branch
  exact ⟨url, by rw [ref, stripped]⟩

theorem Payload.Targets.optsIn_iff {payload : Payload} {app : Application}
    (targeted : payload.Targets app) :
    payload.OptsIn app ↔
      app.webhookEnabled = true ∧ Strings.hasPrefix payload.ref "refs/heads/" = true := by
  obtain ⟨url, branch⟩ := targeted
  rw [OptsIn, branch, Strings.eq_append_trimPrefix_iff]
  simp [url]

/-- **A push touches those that opted in** exactly when every application of its repository whose
branch is the ref, its prefix removed if there, has its webhook enabled, and the prefix is there. -/
theorem touches_opted_in_iff (update : ℕ → Option String) (stamp : ℕ → String)
    (payload : Payload) (apps : List Application) :
    TouchesOptedIn payload apps
        (handleGitHub update stamp ⟨"POST", some payload⟩ (.ok apps)) ↔
      ∀ app ∈ apps, payload.Targets app →
        app.webhookEnabled = true ∧ Strings.hasPrefix payload.ref "refs/heads/" = true := by
  obtain ⟨calls, reply, changed⟩ := handleGitHub_eq update stamp payload apps
  rw [reply]
  refine ⟨fun touches app member targeted => ?_, fun opted => ⟨?_, rfl⟩⟩
  · have lengths : (apps.filter payload.OptsIn).length = (apps.filter payload.Targets).length :=
      touches.written.length_eq.trans changed.length_eq.symm
    have sublist : (apps.filter payload.OptsIn).Sublist (apps.filter payload.Targets) := by
      refine List.monotone_filter_right apps fun app opted => ?_
      simp only [decide_eq_true_eq] at opted ⊢
      exact opted.targets
    have same := sublist.eq_of_length lengths
    have member : app ∈ apps.filter payload.OptsIn := by
      rw [same]
      exact List.mem_filter.mpr ⟨member, decide_eq_true targeted⟩
    exact targeted.optsIn_iff.mp (of_decide_eq_true (List.mem_filter.mp member).2)
  · have same : apps.filter payload.OptsIn = apps.filter payload.Targets := by
      refine List.filter_congr fun app member => ?_
      rw [decide_eq_decide]
      exact ⟨Payload.OptsIn.targets, fun targeted => targeted.optsIn_iff.mpr
        (opted app member targeted)⟩
    rw [same]
    exact changed

/-- A push to a reference of the repository. -/
private def pushOf (ref : String) : Payload := ⟨"https://github.com/acme/shop.git", ref⟩

/-- An application of the branch `main`. -/
private def onMain (webhook : Option WebhookConfig) : Application where
  key := ⟨"default", "shop"⟩
  labels := none
  annotations := none
  spec := { repoURL := "https://github.com/acme/shop.git", webhook }
  status := {}

/-- An application without a webhook is triggered by a push to its branch, and one with a webhook by
a ref that is its branch's bare name. -/
theorem opted_out_triggered :
    ¬ TouchesOptedIn (pushOf "refs/heads/main") [onMain none]
        (handleGitHub (fun _ => none) (fun _ => "") ⟨"POST", some (pushOf "refs/heads/main")⟩
          (.ok [onMain none])) ∧
      ¬ TouchesOptedIn (pushOf "main") [onMain (some { enabled := true })]
        (handleGitHub (fun _ => none) (fun _ => "") ⟨"POST", some (pushOf "main")⟩
          (.ok [onMain (some { enabled := true })])) := by
  refine ⟨fun touches => ?_, fun touches => ?_⟩
  · have calls := touches.written.length_eq
    revert calls
    decide
  · have calls := touches.written.length_eq
    revert calls
    decide

/-! ## The objects of a run -/

/-- What `Wardn.Webhook.Handler` keeps of an application. -/
def Application.object (app : Application) : Object where
  spec := app.spec.toGitApplicationSpec
  status := app.status
  webhookTrigger := lookup app.annotations triggerKey

/-- The object that the delivery of `Wardn.Webhook.Handler` holds. -/
def Application.listed (app : Application) (version : ℕ) : Listed :=
  (app.key, ⟨app.object, version⟩)

/-- The delivery of a run targets the same applications. -/
theorem receive_listed (s : State) (payload : Payload) (apps : List (Application × ℕ))
    (cached : s.cache = apps.map fun app => app.1.listed app.2) :
    receive s ⟨"POST", some payload⟩ false =
      .running ⟨s.store.revision,
        (apps.filter fun app => payload.Targets app.1).map fun app => app.1.listed app.2,
        [], 0⟩ := by
  have targeted : s.cache.filter payload.Matches =
      (apps.filter fun app => payload.Targets app.1).map fun app => app.1.listed app.2 := by
    rw [cached, List.filter_map]
    rfl
  exact congrArg (fun todo => Progress.running ⟨s.store.revision, todo, [], 0⟩) targeted

/-- It updates them to the same objects. -/
theorem object_trigger (app stored : Application) (stamp : String) :
    { app.trigger stamp with status := stored.status }.object =
      annotate app.object stamp stored.object := by
  have triggered : lookup (app.trigger stamp).annotations triggerKey = some stamp :=
    Finmap.lookup_insert _
  exact congrArg (Object.mk app.spec.toGitApplicationSpec stored.status) triggered

end Wardn.Webhook
