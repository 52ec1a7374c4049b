import Wardn.Webhook.Handler

/-!
# Which pushes leave a trace

An update of a delivery changes its application exactly when the object is still the one that was
listed and its trigger is not already the text of the current second (`Effective`); nothing in
the handler looks at the outcome, so a delivery is answered 200 either way.  Along any
interleaving no trigger is lost exactly when every update of the answered deliveries is effective
(`no_trigger_lost_iff`).
-/

namespace Wardn.Webhook

open Runs

/-- Every delivery answered 200 has changed every application it matched, and each change is
watched, later than the delivery came in. -/
def NoTriggerLost (s : State) : Prop :=
  ∀ id delivery, s.deliveries id = some (.running delivery) → delivery.todo = [] →
    ∀ app ∈ delivery.handled, ∃ version, app.2 = some version ∧ delivery.received < version ∧
      (app.1, version) ∈ s.watch

/-- The delivery is answered 200. -/
def Answered (s : State) (id : ℕ) : Prop :=
  ∃ delivery, s.deliveries id = some (.running delivery) ∧ delivery.todo = []

/-- The delivery's next update is of this application. -/
def Next (s : State) (id : ℕ) (app : Listed) : Prop :=
  ∃ delivery todo, s.deliveries id = some (.running delivery) ∧ delivery.todo = app :: todo

/-- The update reaches the server, whose object is still the listed one, and writes another
trigger than the one that is there. -/
def Effective (s : State) (app : Listed) (stamp : String) (transport : Transport) : Prop :=
  transport ≠ .unsent ∧ s.store.entries app.1 = some app.2 ∧
    app.2.value.webhookTrigger ≠ some stamp

/-! ## What goes on besides -/

/-- Versions, watch events and what is known of copies only grow. -/
structure Extends (s s' : State) : Prop where
  copies : ∀ key entry, Versioned.Copy s.store key entry → Versioned.Copy s'.store key entry
  revision : s.store.revision ≤ s'.store.revision
  watch : s.watch ⊆ s'.watch

/-- What is known of a delivery: it still holds what was once read, and the changes it has made
are watched, later than it came in. -/
structure Sound (s : State) (delivery : Delivery) : Prop where
  listed : ∀ app ∈ delivery.todo, Versioned.Copy s.store app.1 app.2
  received : delivery.received ≤ s.store.revision
  watched : ∀ app ∈ delivery.handled, ∀ version, app.2 = some version →
    delivery.received < version ∧ (app.1, version) ∈ s.watch

/-- What every reachable state keeps: the cache and the running deliveries hold nothing that was
never read. -/
structure Inv (s : State) : Prop where
  cached : ∀ app ∈ s.cache, Versioned.Copy s.store app.1 app.2
  sound : ∀ id delivery, s.deliveries id = some (.running delivery) → Sound s delivery

theorem inv_started (store : Store) : Inv (State.started store) := by
  constructor <;> simp [State.started]

/-- What is known of a delivery stays true while the server goes on. -/
theorem Sound.extend {s s' : State} {delivery : Delivery} (sound : Sound s delivery)
    (grows : Extends s s') : Sound s' delivery where
  listed app member := grows.copies _ _ (sound.listed app member)
  received := sound.received.trans grows.revision
  watched app member version written := by
    obtain ⟨later, watched⟩ := sound.watched app member version written
    exact ⟨later, grows.watch watched⟩

theorem Inv.extend {s s' : State} (inv : Inv s) (grows : Extends s s') (cache : s'.cache = s.cache)
    (deliveries : s'.deliveries = s.deliveries) : Inv s' where
  cached app member := grows.copies _ _ (inv.cached app (cache ▸ member))
  sound id delivery running := (inv.sound id delivery (deliveries ▸ running)).extend grows

/-- What a write does to the state: a change that is watched, or nothing. -/
theorem write_cases (s : State) (key : ObjectKey) (version : ℕ) (f : Object → Object) :
    (∃ value, s.write key version f =
      ({ s with store := s.store.set key (some value),
                watch := s.watch ++ [(key, s.store.revision + 1)] },
        .changed (s.store.revision + 1))) ∨
    ((s.write key version f).2.given = none ∧ (s.write key version f).1 = s) := by
  rw [State.write]
  rcases s.store.write_cases key version f with ⟨value, after⟩ | ⟨unchanged, after⟩
  · refine .inl ⟨value, ?_⟩
    rw [after]
    rfl
  · exact .inr ⟨unchanged, by simp [unchanged, after]⟩

/-- A set with its watch event only adds. -/
theorem extends_set (s : State) (key : ObjectKey) (value : Option Object) (event : ObjectKey × ℕ) :
    Extends s { s with store := s.store.set key value, watch := s.watch ++ [event] } where
  copies _ _ copy := copy.set key value
  revision := Nat.le_succ _
  watch := List.subset_append_left _ _

theorem Extends.refl (s : State) : Extends s s := ⟨fun _ _ copy => copy, le_rfl, List.Subset.refl _⟩

/-- A write only adds. -/
theorem extends_write (s : State) (key : ObjectKey) (version : ℕ) (f : Object → Object) :
    Extends s (s.write key version f).1 := by
  rcases write_cases s key version f with ⟨value, after⟩ | ⟨-, after⟩
  · rw [after]
    exact extends_set s key (some value) _
  · rw [after]
    exact .refl s

theorem write_cache (s : State) (key : ObjectKey) (version : ℕ) (f : Object → Object) :
    (s.write key version f).1.cache = s.cache := by
  rcases write_cases s key version f with ⟨value, after⟩ | ⟨-, after⟩ <;> rw [after]

theorem write_deliveries (s : State) (key : ObjectKey) (version : ℕ) (f : Object → Object) :
    (s.write key version f).1.deliveries = s.deliveries := by
  rcases write_cases s key version f with ⟨value, after⟩ | ⟨-, after⟩ <;> rw [after]

theorem Inv.write {s : State} (inv : Inv s) (key : ObjectKey) (version : ℕ)
    (f : Object → Object) : Inv (s.write key version f).1 :=
  inv.extend (extends_write s key version f) (write_cache s key version f)
    (write_deliveries s key version f)

/-! ## One round of a delivery -/

/-- The annotation changes an object exactly when the trigger is a new one. -/
theorem annotate_ne_iff (app : Object) (stamp : String) :
    annotate app stamp app ≠ app ↔ app.webhookTrigger ≠ some stamp := by
  refine not_congr ⟨fun same => ?_, fun same => ?_⟩
  · rw [← same]
    rfl
  · rw [annotate, ← same]

/-- What one round leaves: an entry for its application, with a version when it was effective. -/
structure Round (s : State) (app : Listed) (stamp : String) (transport : Transport)
    (delivery : Delivery) (after : State × Delivery) : Prop where
  grows : Extends s after.1
  cache : after.1.cache = s.cache
  deliveries : after.1.deliveries = s.deliveries
  received : after.2.received = delivery.received
  handled : ∃ written : Option ℕ, after.2.handled = delivery.handled ++ [(app.1, written)] ∧
    (written ≠ none ↔ Effective s app stamp transport) ∧ ∀ version, written = some version →
      s.store.revision < version ∧ (app.1, version) ∈ after.1.watch

/-- One update of the loop is such a round. -/
theorem round_update {s : State} {app : Listed} (copy : Versioned.Copy s.store app.1 app.2)
    (stamp : String) (transport : Transport) (delivery : Delivery) :
    Round s app stamp transport delivery (update s app stamp transport delivery) := by
  by_cases unsent : transport = .unsent
  · subst unsent
    exact ⟨.refl s, rfl, rfl, rfl, none, rfl, by simp [Effective], by simp⟩
  · have effective : (s.write app.1 app.2.version (annotate app.2.value stamp)).2.given ≠ none ↔
        Effective s app stamp transport :=
      copy.write_given_iff.trans (by simp [Effective, unsent, annotate_ne_iff])
    have given : ∀ version,
        (s.write app.1 app.2.version (annotate app.2.value stamp)).2.given = some version →
          s.store.revision < version ∧ (app.1, version) ∈
            (s.write app.1 app.2.version (annotate app.2.value stamp)).1.watch := by
      intro version written
      rcases write_cases s app.1 app.2.version (annotate app.2.value stamp) with
        ⟨value, after⟩ | ⟨unchanged, -⟩
      · rw [after] at written ⊢
        cases written
        exact ⟨Nat.lt_succ_self _, by simp⟩
      · rw [unchanged] at written
        cases written
    cases transport with
    | unsent => exact absurd rfl unsent
    | answered =>
        exact ⟨extends_write .., write_cache .., write_deliveries .., rfl, _, rfl, effective, given⟩
    | lost =>
        exact ⟨extends_write .., write_cache .., write_deliveries .., rfl, _, rfl, effective, given⟩

/-! ## Runs -/

/-- The deliveries after one of them has moved on. -/
theorem setDelivery_eq_some_iff {s : State} {id id' : ℕ} {progress progress' : Progress} :
    (s.setDelivery id progress).deliveries id' = some progress' ↔
      if id' = id then progress = progress' else s.deliveries id' = some progress' := by
  rw [State.setDelivery]
  dsimp only
  rw [Function.update_apply]
  split
  next => exact Option.some_inj
  next => exact Iff.rfl

/-- A delivery may move on to what is known of it. -/
theorem Inv.setDelivery {s : State} (inv : Inv s) (id : ℕ) {progress : Progress}
    (sound : ∀ delivery, progress = .running delivery → Sound s delivery) :
    Inv (s.setDelivery id progress) := by
  refine ⟨inv.cached, fun id' delivery running => ?_⟩
  rw [setDelivery_eq_some_iff] at running
  have known : Sound s delivery := by
    split at running
    · exact sound delivery running
    · exact inv.sound id' delivery running
  exact ⟨known.listed, known.received, known.watched⟩

/-- A delivery that runs has listed what matches in the cache and handled nothing yet. -/
theorem receive_eq_running {s : State} {request : Request} {listFails : Bool} {delivery : Delivery}
    (running : receive s request listFails = .running delivery) :
    delivery.received = s.store.revision ∧ (∀ app ∈ delivery.todo, app ∈ s.cache) ∧
      delivery.handled = [] := by
  rw [receive] at running
  split at running
  · cases running
  · split at running
    · cases running
    · split at running
      · cases running
      · cases running
        exact ⟨rfl, fun app member => (List.mem_filter.mp member).1, rfl⟩

/-- A new delivery holds what it has read in the cache. -/
theorem Inv.receive {s : State} (inv : Inv s) (id : ℕ) (request : Request) (listFails : Bool) :
    Inv (s.setDelivery id (receive s request listFails)) := by
  refine inv.setDelivery id fun delivery running => ?_
  obtain ⟨received, listed, handled⟩ := receive_eq_running running
  exact ⟨fun app member => inv.cached app (listed app member), received.le, by simp [handled]⟩

/-- A round keeps the invariant. -/
theorem Inv.round {s : State} (inv : Inv s) {id : ℕ} {delivery : Delivery} {app : Listed}
    {todo : List Listed} (running : s.deliveries id = some (.running delivery))
    (next : delivery.todo = app :: todo) {stamp : String} {transport : Transport}
    {after : State × Delivery} (round : Round s app stamp transport delivery after) :
    Inv (after.1.setDelivery id (.running { after.2 with todo })) := by
  have before := inv.sound id delivery running
  have grown := before.extend round.grows
  refine (inv.extend round.grows round.cache round.deliveries).setDelivery id ?_
  rintro _ ⟨⟩
  constructor
  · exact fun app' member => grown.listed app' (next ▸ List.mem_cons_of_mem app member)
  · exact round.received.trans_le grown.received
  · intro entry member version written
    obtain ⟨given, handled, -, watched⟩ := round.handled
    dsimp only at member ⊢
    rw [round.received]
    rw [handled, List.mem_append, List.mem_singleton] at member
    rcases member with earlier | rfl
    · exact grown.watched entry earlier version written
    · obtain ⟨later, member⟩ := watched version written
      exact ⟨before.received.trans_lt later, member⟩

section Run

variable (format : ℕ → String)

/-- Every event keeps the invariant. -/
theorem inv_step (s : State) (event : Event) (inv : Inv s) : Inv (s.step format event) := by
  cases event with
  | receive id request listFails =>
      rw [State.step]
      split
      · exact inv.receive id request listFails
      · exact inv
  | update id clock transport =>
      rw [State.step]
      split
      next delivery running =>
        split
        next app todo next =>
          have copy := (inv.sound id delivery running).listed app (next ▸ List.mem_cons_self)
          exact inv.round running next (round_update copy (stamp format clock) transport delivery)
        next => exact inv
      next => exact inv
  | statusWrite key version status => exact inv.write key version _
  | edit key object =>
      rw [State.step]
      split
      · exact inv
      · exact inv.extend (extends_set s key object _) rfl rfl
  | sync key =>
      have others : ∀ app ∈ s.cache.filter fun app => app.1 ≠ key,
          Versioned.Copy s.store app.1 app.2 :=
        fun app member => inv.cached app (List.mem_filter.mp member).1
      have sound : ∀ cache id delivery, s.deliveries id = some (.running delivery) →
          Sound { s with cache } delivery := fun _ id delivery running =>
        (inv.sound id delivery running).extend ⟨fun _ _ copy => copy, le_rfl, List.Subset.refl _⟩
      rw [State.step]
      cases stored : s.store.entries key with
      | none => exact ⟨others, sound _⟩
      | some entry =>
          refine ⟨fun app member => ?_, sound _⟩
          rcases List.mem_cons.mp member with rfl | other
          · exact Versioned.copy_of_entries stored
          · exact others app other

/-- What a delivery has handled so far. -/
def handledOf (s : State) (id : ℕ) : List (ObjectKey × Option ℕ) :=
  match s.deliveries id with
  | some (.running delivery) => delivery.handled
  | _ => []

/-- If the event is the next update of this delivery, it is effective. -/
def EffectiveFor (id : ℕ) (s : State) (event : Event) : Prop :=
  ∀ clock transport app, event = .update id clock transport → Next s id app →
    Effective s app (stamp format clock) transport

/-- What a running delivery has handled. -/
theorem handledOf_of_running {s : State} {id : ℕ} {delivery : Delivery}
    (running : s.deliveries id = some (.running delivery)) :
    handledOf s id = delivery.handled := by
  rw [handledOf, running]

theorem handledOf_congr {s s' : State} {id : ℕ} (same : s'.deliveries id = s.deliveries id) :
    handledOf s' id = handledOf s id := by
  rw [handledOf, handledOf, same]

theorem handledOf_setDelivery_self (s : State) (id : ℕ) (delivery : Delivery) :
    handledOf (s.setDelivery id (.running delivery)) id = delivery.handled :=
  handledOf_of_running (Function.update_self ..)

theorem handledOf_setDelivery_of_ne (s : State) {id id' : ℕ} (other : id' ≠ id)
    (progress : Progress) : handledOf (s.setDelivery id progress) id' = handledOf s id' :=
  handledOf_congr (Function.update_of_ne other ..)

/-- A new delivery has handled nothing yet. -/
theorem handledOf_receive (s : State) {id : ℕ} (new : s.deliveries id = none) (id' : ℕ)
    (request : Request) (listFails : Bool) :
    handledOf (s.setDelivery id (receive s request listFails)) id' = handledOf s id' := by
  by_cases own : id' = id
  · subst own
    have before : handledOf s id' = [] := by rw [handledOf, new]
    rw [before, handledOf]
    split
    next delivery running =>
      rw [setDelivery_eq_some_iff, if_pos rfl] at running
      exact (receive_eq_running running).2.2
    next => rfl
  · exact handledOf_setDelivery_of_ne s own _

/-- An update is effective for a delivery exactly when it is for the application at its head. -/
theorem effectiveFor_update_iff {s : State} {id : ℕ} {delivery : Delivery} {app : Listed}
    {todo : List Listed} (running : s.deliveries id = some (.running delivery))
    (next : delivery.todo = app :: todo) (clock : ℕ) (transport : Transport) :
    EffectiveFor format id s (.update id clock transport) ↔
      Effective s app (stamp format clock) transport := by
  refine ⟨fun effective => effective clock transport app rfl ⟨delivery, todo, running, next⟩,
    fun effective clock' transport' app' same next' => ?_⟩
  cases same
  obtain ⟨delivery', todo', running', next'⟩ := next'
  rw [running'] at running
  cases running
  rw [next'] at next
  cases next
  exact effective

/-- The entries of a delivery record which of its updates were effective. -/
theorem handledOf_step {s : State} (inv : Inv s) (id : ℕ) (event : Event) :
    (∀ entry ∈ handledOf (s.step format event) id, entry.2 ≠ none) ↔
      (∀ entry ∈ handledOf s id, entry.2 ≠ none) ∧ EffectiveFor format id s event := by
  have idle : ∀ s' : State, handledOf s' id = handledOf s id → EffectiveFor format id s event →
      ((∀ entry ∈ handledOf s' id, entry.2 ≠ none) ↔
        (∀ entry ∈ handledOf s id, entry.2 ≠ none) ∧ EffectiveFor format id s event) := by
    intro s' same effective
    rw [same]
    exact (and_iff_left effective).symm
  cases event with
  | update id' clock transport =>
      rw [State.step]
      split
      next delivery running =>
        split
        next app todo next =>
          have copy := (inv.sound id' delivery running).listed app (next ▸ List.mem_cons_self)
          have round := round_update copy (stamp format clock) transport delivery
          by_cases own : id = id'
          · subst own
            obtain ⟨written, handled, effective, -⟩ := round.handled
            rw [handledOf_setDelivery_self, handledOf_of_running running,
              effectiveFor_update_iff format running next, ← effective]
            dsimp only
            rw [handled]
            simp [or_imp, forall_and]
          · refine idle _ ?_ fun clock transport app same => by
              cases same
              exact absurd rfl own
            rw [handledOf_setDelivery_of_ne _ own]
            exact handledOf_congr (congrFun round.deliveries id)
        next done =>
          refine idle s rfl fun clock transport app same next => ?_
          cases same
          obtain ⟨delivery', todo, running', next⟩ := next
          rw [running'] at running
          cases running
          rw [done] at next
          cases next
      next stopped =>
        refine idle s rfl fun clock transport app same next => ?_
        cases same
        obtain ⟨delivery, todo, running, -⟩ := next
        exact absurd running (stopped delivery)
  | receive id' request listFails =>
      refine idle _ ?_ fun _ _ _ same => by cases same
      rw [State.step]
      split
      next new => exact handledOf_receive s new id request listFails
      next => rfl
  | statusWrite key version status =>
      refine idle _ ?_ fun _ _ _ same => by cases same
      exact handledOf_congr (congrFun (write_deliveries s key version _) id)
  | edit key object =>
      refine idle _ ?_ fun _ _ _ same => by cases same
      rw [State.step]
      split <;> rfl
  | sync key =>
      refine idle _ ?_ fun _ _ _ same => by cases same
      rw [State.step]
      split <;> rfl

/-- Along any interleaving, every delivery answered 200 has changed every application it matched
exactly when each of its updates was effective. -/
theorem no_trigger_lost_iff (store : Store) (events : List Event) :
    NoTriggerLost (events.foldl (State.step format) (State.started store)) ↔
      ∀ id, Answered (events.foldl (State.step format) (State.started store)) id →
        Along (State.step format) (EffectiveFor format id) (State.started store) events := by
  have inv : Inv (events.foldl (State.step format) (State.started store)) :=
    foldl_invariant (inv_step format) (inv_started store) events
  have recorded : ∀ id, (∀ entry ∈ handledOf (events.foldl (State.step format)
      (State.started store)) id, entry.2 ≠ none) ↔
        Along (State.step format) (EffectiveFor format id) (State.started store) events := by
    intro id
    rw [recorded_iff_along (R := fun s => ∀ entry ∈ handledOf s id, entry.2 ≠ none)
      (fun s event inv => handledOf_step format inv id event) (inv_step format)
      (inv_started store) events]
    simp [handledOf, State.started]
  constructor
  · rintro kept id ⟨delivery, running, done⟩
    refine (recorded id).mp fun entry member => ?_
    rw [handledOf_of_running running] at member
    obtain ⟨version, written, -⟩ := kept id delivery running done entry member
    simp [written]
  · intro effective id delivery running done entry member
    have written := (recorded id).mpr (effective id ⟨delivery, running, done⟩) entry
      (by rwa [handledOf_of_running running])
    obtain ⟨version, given⟩ := Option.ne_none_iff_exists'.mp written
    obtain ⟨later, watched⟩ := (inv.sound id delivery running).watched entry member version given
    exact ⟨version, given, later, watched⟩

end Run

/-! ## Two pushes in one second -/

/-- An application. -/
def shop : ObjectKey := ⟨"default", "shop"⟩

/-- A push to its branch. -/
def shopPush : Request :=
  ⟨"POST", some ⟨"https://github.com/wardn/shop.git", "refs/heads/main"⟩⟩

/-- A server that holds it. -/
def shopStore : Store :=
  Versioned.Store.empty.set shop
    (some ⟨{ repoURL := "https://github.com/wardn/shop.git" }, {}, none⟩)

/-- The second delivery lists the object that the first one has just annotated. -/
def twoPushes : List Event :=
  [.sync shop, .receive 0 shopPush false, .update 0 1000 .answered, .sync shop,
    .receive 1 shopPush false, .update 1 1700 .answered]

/-- RFC 3339, for the first ten seconds of the epoch in UTC. -/
def epochSecond (second : ℕ) : String := "1970-01-01T00:00:0" ++ toString second ++ "Z"

/-- Two pushes in one second leave one trigger. -/
theorem second_push_lost :
    ¬ NoTriggerLost (twoPushes.foldl (State.step epochSecond) (State.started shopStore)) := by
  intro kept
  have answered :
      (twoPushes.foldl (State.step epochSecond) (State.started shopStore)).deliveries 1 =
        some (.running ⟨2, [], [(shop, none)], 1⟩) := rfl
  obtain ⟨version, written, -⟩ := kept 1 _ answered rfl (shop, none) List.mem_cons_self
  cases written

end Wardn.Webhook
