import Wardn.Api
import Wardn.Lib.Runs
import Wardn.Lib.Strings
import Wardn.Lib.Versioned

/-!
# Webhook deliveries

`handleGitHub` lists the applications from the manager's cache and sends one `Update` for each
that matches the push, while other deliveries, the reconciler's status writes and edits by others
go on.  A `State` holds the API server's objects, the cache, the watch events so far and the
deliveries; an `Event` is one call, of a delivery or of somebody else, or the cache catching up.
-/

namespace Wardn.Webhook

/-- `types.NamespacedName`. -/
structure ObjectKey where
  nameSpace : String
  name : String
  deriving DecidableEq

/-- A stored GitApplication; of its annotations, `wardn.space/webhook-trigger`. -/
structure Object where
  spec : GitApplicationSpec
  status : GitApplicationStatus
  webhookTrigger : Option String
  deriving DecidableEq

/-- The API server's objects. -/
abbrev Store := Versioned.Store ObjectKey Object

/-- An object as it was read from the server, with its `resourceVersion`. -/
abbrev Listed := ObjectKey × Versioned.Entry Object

/-- What is read of a push. -/
structure Payload where
  cloneURL : String
  ref : String

/-- A request to `/github`. -/
structure Request where
  method : String
  /-- The decoded body, `none` when it is no JSON of this type. -/
  payload : Option Payload

/-- Where a delivery stands whose list has been read. -/
structure Delivery where
  /-- The server's revision when it came in. -/
  received : ℕ
  /-- The matching applications that are still to be updated. -/
  todo : List Listed
  /-- Those that were, with the `resourceVersion` an update gave that changed the object. -/
  handled : List (ObjectKey × Option ℕ)
  /-- What the reply counts. -/
  matched : ℕ

/-- A delivery is refused with a status, or runs and answers 200 when nothing is left to do. -/
inductive Progress
  | refused (status : ℕ)
  | running (delivery : Delivery)

/-- What becomes of an API call: it is answered, or an error is reported before it is executed or
after. -/
inductive Transport
  | answered
  | unsent
  | lost
  deriving DecidableEq

/-- The server, the operator's cache, the watch events so far, and the deliveries by their id. -/
structure State where
  store : Store
  cache : List Listed
  watch : List (ObjectKey × ℕ)
  deliveries : ℕ → Option Progress

/-- A write that was computed from this version of the object; a change is watched. -/
def State.write (s : State) (key : ObjectKey) (version : ℕ) (f : Object → Object) :
    State × Versioned.Outcome :=
  let (store, outcome) := s.store.write key version f
  ({ s with store, watch := s.watch ++ (outcome.given.map (key, ·)).toList }, outcome)

/-! ## `handleGitHub` -/

/-- The test of the loop, on a listed object. -/
def Payload.Matches (payload : Payload) (app : Listed) : Prop :=
  app.2.value.spec.repoURL = payload.cloneURL ∧
    app.2.value.spec.branch = Strings.trimPrefix payload.ref "refs/heads/"

instance (payload : Payload) : DecidablePred payload.Matches := fun app =>
  inferInstanceAs (Decidable (app.2.value.spec.repoURL = _ ∧ app.2.value.spec.branch = _))

/-- Up to the loop over the listed applications. -/
def receive (s : State) (request : Request) (listFails : Bool) : Progress :=
  if request.method ≠ "POST" then .refused 405
  else
    match request.payload with
    | none => .refused 400
    | some payload =>
      if listFails then .refused 500
      else .running ⟨s.store.revision, s.cache.filter payload.Matches, [], 0⟩

/-- The object with a new trigger; an `Update` leaves the status of the stored object alone. -/
def annotate (app : Object) (stamp : String) (stored : Object) : Object :=
  { app with webhookTrigger := some stamp, status := stored.status }

/-- One round of the loop for a matching application. -/
def update (s : State) (app : Listed) (stamp : String) (transport : Transport)
    (delivery : Delivery) : State × Delivery :=
  match transport with
  | .unsent => (s, { delivery with handled := delivery.handled ++ [(app.1, none)] })
  | transport =>
    let (after, outcome) := s.write app.1 app.2.version (annotate app.2.value stamp)
    (after, { delivery with
      handled := delivery.handled ++ [(app.1, outcome.given)]
      matched :=
        if transport = .answered ∧ outcome ≠ .missing ∧ outcome ≠ .stale then delivery.matched + 1
        else delivery.matched })

/-! ## Events -/

/-- One call of a delivery or of somebody else, or a step of the cache. -/
inductive Event
  /-- A request comes in, under an id of its own. -/
  | receive (id : ℕ) (request : Request) (listFails : Bool)
  /-- A delivery reads the clock, in milliseconds, and sends its next update. -/
  | update (id clock : ℕ) (transport : Transport)
  /-- A `Status().Update` of a reconcile that has read this version. -/
  | statusWrite (key : ObjectKey) (version : ℕ) (status : GitApplicationStatus)
  /-- Somebody creates, edits or deletes an object. -/
  | edit (key : ObjectKey) (object : Option Object)
  /-- The cache catches up with the server on an object. -/
  | sync (key : ObjectKey)

/-- A delivery moves on. -/
def State.setDelivery (s : State) (id : ℕ) (progress : Progress) : State :=
  { s with deliveries := Function.update s.deliveries id (some progress) }

section Step

-- The RFC 3339 text of a second, in the operator's time zone.
variable (format : ℕ → String)

/-- `time.Now().Format(time.RFC3339)`. -/
def stamp (clock : ℕ) : String := format (clock / 1000)

/-- One event. -/
def State.step (s : State) : Event → State
  | .receive id request listFails =>
    match s.deliveries id with
    | none => s.setDelivery id (receive s request listFails)
    | some _ => s
  | .update id clock transport =>
    match s.deliveries id with
    | some (.running delivery) =>
      match delivery.todo with
      | app :: todo =>
        let (after, delivery) := update s app (stamp format clock) transport delivery
        after.setDelivery id (.running { delivery with todo })
      | [] => s
    | _ => s
  | .statusWrite key version status =>
    (s.write key version fun stored => { stored with status }).1
  | .edit key object =>
    if (s.store.entries key).map Versioned.Entry.value = object then s
    else
      let store := s.store.set key object
      { s with store, watch := s.watch ++ [(key, store.revision)] }
  | .sync key =>
    let others := s.cache.filter fun app => app.1 ≠ key
    match s.store.entries key with
    | some entry => { s with cache := (key, entry) :: others }
    | none => { s with cache := others }

end Step

/-- Nothing is cached and no delivery has come in. -/
def State.started (store : Store) : State := ⟨store, [], [], fun _ => none⟩

end Wardn.Webhook
