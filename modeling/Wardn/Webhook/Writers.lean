import Wardn.Webhook.Triggers

/-!
# Deliveries and the reconciler on one object

A delivery sends the whole object that it listed, the reconciler sends a status.  Along any
interleaving the two keep apart (`writers_keep_apart`): as long as nobody else edits an object, its
spec stays, its status is the one it had or one that a status write brought, and its trigger is the
one it had or the text of a delivery's clock.
-/

namespace Wardn.Webhook

open Runs

/-- The stored object. -/
def State.object (s : State) (key : ObjectKey) : Option Object :=
  (s.store.entries key).map Versioned.Entry.value

section Descends

variable (format : ℕ → String) (key : ObjectKey)

/-- What the object may have become through these events. -/
structure Descends (events : List Event) (old new : Object) : Prop where
  spec : new.spec = old.spec
  status : new.status = old.status ∨ ∃ version, .statusWrite key version new.status ∈ events
  trigger : new.webhookTrigger = old.webhookTrigger ∨
    ∃ id clock transport, .update id clock transport ∈ events ∧
      new.webhookTrigger = some (stamp format clock)

/-- The object is there afterwards if it was before, and descends from it. -/
def Kept (events : List Event) : Option Object → Option Object → Prop
  | none, new => new = none
  | some old, new => ∃ object, new = some object ∧ Descends format key events old object

variable {format key}

theorem Descends.refl (events : List Event) (object : Object) :
    Descends format key events object object := ⟨rfl, .inl rfl, .inl rfl⟩

theorem Kept.refl (events : List Event) (object : Option Object) :
    Kept format key events object object := by
  cases object with
  | none => rfl
  | some object => exact ⟨object, rfl, .refl events object⟩

/-- Descent over one stretch and the next. -/
theorem Descends.trans {earlier later : List Event} {old mid new : Object}
    (first : Descends format key earlier old mid) (second : Descends format key later mid new) :
    Descends format key (earlier ++ later) old new where
  spec := second.spec.trans first.spec
  status := by
    rcases second.status with same | ⟨version, written⟩
    · rw [same]
      exact first.status.imp_right fun ⟨version, written⟩ =>
        ⟨version, List.mem_append_left later written⟩
    · exact .inr ⟨version, List.mem_append_right earlier written⟩
  trigger := by
    rcases second.trigger with same | ⟨id, clock, transport, sent, stamped⟩
    · rw [same]
      exact first.trigger.imp_right fun ⟨id, clock, transport, sent, stamped⟩ =>
        ⟨id, clock, transport, List.mem_append_left later sent, stamped⟩
    · exact .inr ⟨id, clock, transport, List.mem_append_right earlier sent, stamped⟩

/-- What is kept over one stretch and the next is kept over both. -/
theorem Kept.trans {earlier later : List Event} {old mid new : Option Object}
    (first : Kept format key earlier old mid) (second : Kept format key later mid new) :
    Kept format key (earlier ++ later) old new := by
  cases old with
  | none =>
      obtain rfl : mid = none := first
      exact second
  | some old =>
      obtain ⟨middle, rfl, descends⟩ := first
      obtain ⟨object, rfl, further⟩ := second
      exact ⟨object, rfl, descends.trans further⟩

end Descends

/-! ## One event -/

/-- A write changes the object under its key, from the version it names, or nothing. -/
theorem object_write (s : State) (key key' : ObjectKey) (version : ℕ) (f : Object → Object) :
    (∃ entry, key' = key ∧ s.store.entries key = some entry ∧ entry.version = version ∧
      (s.write key version f).1.object key' = some (f entry.value)) ∨
    (s.write key version f).1.object key' = s.object key' := by
  rcases s.store.write_eq key version f with ⟨entry, stored, current, written⟩ | same
  · have store : (s.write key version f).1.store = s.store.set key (some (f entry.value)) := written
    by_cases own : key' = key
    · subst own
      refine .inl ⟨entry, rfl, stored, current, ?_⟩
      rw [State.object, store, Versioned.Store.entries_set_self]
      rfl
    · refine .inr ?_
      rw [State.object, store, Versioned.Store.entries_set_of_ne _ own]
      rfl
  · have store : (s.write key version f).1.store = s.store := same
    refine .inr ?_
    rw [State.object, store]
    rfl

section Run

variable (format : ℕ → String)

/-- The update of a delivery keeps spec and status of the stored object. -/
theorem kept_update {s : State} {id : ℕ} {delivery : Delivery} {app : Listed}
    (copy : Versioned.Copy s.store app.1 app.2) (clock : ℕ) (transport : Transport)
    (key : ObjectKey) :
    Kept format key [.update id clock transport] (s.object key)
      ((update s app (stamp format clock) transport delivery).1.object key) := by
  have written : Kept format key [.update id clock transport] (s.object key)
      ((s.write app.1 app.2.version (annotate app.2.value (stamp format clock))).1.object
        key) := by
    rcases object_write s app.1 key app.2.version (annotate app.2.value (stamp format clock)) with
      ⟨entry, rfl, stored, current, new⟩ | same
    · -- The stored object is the listed one, which the delivery sends back with its trigger.
      obtain rfl := copy.current entry stored current
      have old : s.object app.1 = some app.2.value := by rw [State.object, stored]; rfl
      rw [old, new]
      exact ⟨_, rfl, rfl, .inl rfl, .inr ⟨id, clock, transport, List.mem_singleton_self _, rfl⟩⟩
    · rw [same]
      exact .refl _ _
  cases transport with
  | unsent => exact .refl _ _
  | answered => exact written
  | lost => exact written

/-- An event that is no edit of the object keeps it. -/
theorem kept_step {s : State} (inv : Inv s) (event : Event) (key : ObjectKey)
    (unedited : ∀ object, event ≠ .edit key object) :
    Kept format key [event] (s.object key) ((s.step format event).object key) := by
  cases event with
  | receive id request listFails =>
      rw [State.step]
      split
      · exact .refl _ _
      · exact .refl _ _
  | update id clock transport =>
      rw [State.step]
      split
      next delivery running =>
        split
        next app todo next =>
          have copy := (inv.sound id delivery running).listed app (next ▸ List.mem_cons_self)
          exact kept_update format copy clock transport key
        next => exact .refl _ _
      next => exact .refl _ _
  | statusWrite key' version status =>
      rcases object_write s key' key version (fun stored => { stored with status }) with
        ⟨entry, rfl, stored, current, new⟩ | same
      · have old : s.object key = some entry.value := by rw [State.object, stored]; rfl
        rw [State.step, old, new]
        exact ⟨_, rfl, rfl, .inr ⟨version, List.mem_singleton_self _⟩, .inl rfl⟩
      · rw [State.step, same]
        exact .refl _ _
  | edit key' object =>
      have other : key ≠ key' := by
        rintro rfl
        exact unedited object rfl
      have same : (s.step format (.edit key' object)).object key = s.object key := by
        rw [State.step]
        split
        · rfl
        · rw [State.object, Versioned.Store.entries_set_of_ne _ other]
          rfl
      rw [same]
      exact .refl _ _
  | sync key' =>
      rw [State.step]
      split
      · exact .refl _ _
      · exact .refl _ _

/-- Over every run the spec is kept, the status comes from the status writes, and the trigger from
the deliveries. -/
theorem kept_run {s : State} (inv : Inv s) (events : List Event) (key : ObjectKey)
    (unedited : ∀ object, Event.edit key object ∉ events) :
    Kept format key events (s.object key) ((events.foldl (State.step format) s).object key) := by
  induction events generalizing s with
  | nil => exact .refl _ _
  | cons event events ih =>
      have first := kept_step format inv event key fun object same =>
        unedited object (same ▸ List.mem_cons_self)
      have rest := ih (inv_step format s event inv) fun object member =>
        unedited object (List.mem_cons_of_mem event member)
      exact first.trans rest

/-- From any state of the webhook server, with any number of deliveries under way on objects that
they have listed before. -/
theorem writers_keep_apart (store : Store) (before after : List Event) (key : ObjectKey)
    (unedited : ∀ object, Event.edit key object ∉ after) :
    Kept format key after
      ((before.foldl (State.step format) (State.started store)).object key)
      (((before ++ after).foldl (State.step format) (State.started store)).object key) := by
  rw [List.foldl_append]
  exact kept_run format (foldl_invariant (inv_step format) (inv_started store) before) after key
    unedited

end Run

/-- The spec is edited between the listing and the update of a delivery, then a reconcile writes. -/
def listedThenEdited : List Event :=
  [.sync shop, .receive 0 shopPush false,
    .edit shop
      (some ⟨{ repoURL := "https://github.com/wardn/shop.git", path := "deploy" }, {}, none⟩)]

/-- A delivery sends its update, and a reconcile records its status. -/
def sentThenRecorded : List Event :=
  [.update 0 1000 .answered, .statusWrite shop 2 { revision := "r1" }]

theorem writers_keep_apart_edited :
    Kept epochSecond shop sentThenRecorded
      ((listedThenEdited.foldl (State.step epochSecond) (State.started shopStore)).object shop)
      (((listedThenEdited ++ sentThenRecorded).foldl (State.step epochSecond)
        (State.started shopStore)).object shop) :=
  writers_keep_apart epochSecond shopStore listedThenEdited sentThenRecorded shop
    (by simp [sentThenRecorded])

end Wardn.Webhook
