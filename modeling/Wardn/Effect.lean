import Wardn.Manifest.Parser

/-!
# What one reconcile asks of the outside, and what it is answered

`Reconcile` is modelled as a function of the object it reads and of the answers its calls
get; it returns the calls that change something outside, in order, each with its answer.
A process that stops between two steps has made a prefix of these calls.
-/

namespace Wardn

/-- The answers of one reconcile; an error is its text.

`statusUpdate i` says whether the `i`-th call of `r.Status().Update` is executed, or the error with
which it is not, and `now i` is the clock read while the status of that call was put together.  An
update can be executed and its answer still be lost; only step 7 looks at the error
(`unanswered`).  `applyResource i` answers the apply of the `i`-th resource: the source's
`applyResource` and `pruneResources` are placeholders that return nil, and their outcome is left
open here. -/
structure Outcomes where
  /-- An error of `r.Get` other than not-found. -/
  get : Option String := none
  /-- The revision checked out; with an error, `CloneOrPull` returns the empty revision. -/
  cloneOrPull : Except String String
  parse : Except String (List Resource)
  applyResource : Nat → Option String := fun _ => none
  pruneResources : Option String := none
  statusUpdate : Nat → Option String := fun _ => none
  /-- The error of the update of step 7 when it is executed and its answer is lost. -/
  unanswered : Option String := none
  /-- The error of `http.NewRequestWithContext` for a URL that it cannot parse, or of the client for
  one that it sends nothing to: without a host, or of another scheme. -/
  newRequest : String → Option String := fun _ => none
  now : Nat → Time

/-- The error that the update of step 7 returns. -/
def Outcomes.recordErr (env : Outcomes) : Option String := (env.statusUpdate 1).or env.unanswered

/-- The API server executes what it is asked, and so does the apply; Git and the manifests may
fail. -/
structure Outcomes.Reliable (env : Outcomes) : Prop where
  get : env.get = none
  applyResource : ∀ i, env.applyResource i = none
  pruneResources : env.pruneResources = none
  statusUpdate : ∀ i, env.statusUpdate i = none

/-- Every operation succeeds, with Git at `revision` and these manifests. -/
structure Outcomes.Succeeds (env : Outcomes) (revision : String) (resources : List Resource) :
    Prop extends env.Reliable where
  clone : env.cloneOrPull = .ok revision
  parse : env.parse = .ok resources

/-- The answers of a reconcile in which nothing fails. -/
def Outcomes.succeeding (revision : String) (resources : List Resource) (clock : Time) : Outcomes :=
  { cloneOrPull := .ok revision, parse := .ok resources, now := fun _ => clock }

theorem Outcomes.succeeding_succeeds (revision : String) (resources : List Resource)
    (clock : Time) : (Outcomes.succeeding revision resources clock).Succeeds revision resources :=
  { get := rfl, applyResource := fun _ => rfl, pruneResources := rfl, statusUpdate := fun _ => rfl,
    clone := rfl, parse := rfl }

/-- The calls of a reconcile. -/
inductive Effect
  /-- `r.Status().Update`, executed or not executed with an error. -/
  | statusUpdate (status : GitApplicationStatus) (err : Option String)
  /-- `Applier.Apply` is entered, for the manifests of a revision. -/
  | applyStart (revision : String) (resources : List Resource)
  | applyResource (res : Resource) (err : Option String)
  | pruneResources (desired : List Resource) (err : Option String)
  /-- `Applier.Apply` has returned. -/
  | applyEnd (err : Option String)
  /-- A message handed to the HTTP client for a Slack webhook. -/
  | sendSlack (webhookURL message : String)
  deriving DecidableEq, Repr

/-- The call `r.Status().Update(ctx, app)`, the `i`-th of this reconcile. -/
def Outcomes.update (env : Outcomes) (i : Nat) (app : GitApplication) : Effect :=
  .statusUpdate app.status (env.statusUpdate i)

end Wardn
