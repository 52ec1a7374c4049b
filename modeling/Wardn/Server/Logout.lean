import Wardn.Server.Authenticity

/-!
# Logging out

`Logout` deletes the session of the cookie, while the token that a request is authenticated with
comes from the `Authorization` header when there is one; and it answers the same whatever became
of the delete.  A token is revoked exactly when no session was open under it or the cookie
carries it and the delete was executed (`logout_revokes_iff`).
-/

namespace Wardn.Server

/-- `Logout` always answers with success. -/
theorem logout_status (s : State) (answers : Answers) (request : Request) :
    (logout s answers request).2.status = 200 := rfl

/-- No later request with this token is passed on, whatever happens in between; the session ids
drawn from now on are others. -/
def Revoked (s : State) (token : String) : Prop :=
  ∀ later : List Event, (∀ event ∈ later, ∀ id, event.draw = some id → id.text ≠ token) →
    ∀ e userID, extractToken e.request = token → ¬ Passes (s.run later) e userID

/-! ## What opens and what closes a session -/

/-- A session that can be read after a step could be read before, or the step is a `Login` that
draws its token. -/
theorem live_of_live_step {s : State} {event : Event} {now : ℕ} {token : String} {id : Uuid}
    (undrawn : ∀ id, event.draw = some id → id.text ≠ token)
    (live : Live (s.step event).sessions now token id) : Live s.sessions now token id := by
  obtain ⟨email, read⟩ := live
  obtain ⟨entry, stored, value, unexpired⟩ := Expiring.get_eq_some_iff.mp read
  rcases entry_of_step stored with before | ⟨e, token', user, rfl, issues, key, -⟩
  · exact ⟨email, Expiring.get_eq_some_iff.mpr ⟨entry, before, value, unexpired⟩⟩
  · obtain rfl := sessionKey_inj.mp key
    have draw := issues.draw
    obtain ⟨-, -, -, drawn, -⟩ := issues
    exact absurd drawn (undrawn _ draw)

/-- A token that is live after a run that never draws it was live before. -/
theorem live_of_live_run {s : State} {events : List Event} {now : ℕ} {token : String} {id : Uuid}
    (undrawn : ∀ event ∈ events, ∀ id, event.draw = some id → id.text ≠ token)
    (live : Live (s.run events).sessions now token id) : Live s.sessions now token id := by
  induction events generalizing s with
  | nil => exact live
  | cons event events ih =>
      have rest := ih (fun later member => undrawn later (List.mem_cons_of_mem event member)) live
      exact live_of_live_step (undrawn event List.mem_cons_self) rest

theorem now_le_run (s : State) (events : List Event) : s.now ≤ (s.run events).now := by
  induction events generalizing s with
  | nil => exact le_rfl
  | cons event events ih =>
      calc s.now ≤ s.now + event.wait := Nat.le_add_right ..
        _ = (s.step event).now := (s.step_now event).symm
        _ ≤ ((s.step event).run events).now := ih (s.step event)

/-- A logout destroys the session of its cookie and touches no other. -/
theorem step_logout_sessions {s : State} {e : Exchange} (route : e.request.route = .logout) :
    (s.step (.exchange e)).sessions =
      match e.request.cookie with
      | some value => destroySession s.sessions (s.now + e.wait) e.answers value
      | none => s.sessions := by
  change (newRouter (s.wait e.wait) e).1.sessions = _
  rw [newRouter, route]
  rfl

/-- A `Logout` closes the session of its cookie, if the delete is executed, and no other. -/
theorem live_logout_iff {s : State} {e : Exchange} (route : e.request.route = .logout) {now : ℕ}
    {token : String} {id : Uuid} :
    Live (s.step (.exchange e)).sessions now token id ↔
      Live s.sessions now token id ∧ ¬ Destroys e token := by
  rw [step_logout_sessions route]
  cases cookie : e.request.cookie with
  | none => simp [Destroys, cookie]
  | some value =>
      dsimp only
      rw [destroySession, send]
      split
      next executed =>
        by_cases own : token = value
        · subst own
          simp [Live, Destroys, route, cookie, executed]
        · have other : sessionKey token ≠ (Expiring.Command.del (sessionKey value) :
              Expiring.Command String String).key := fun same => own (sessionKey_inj.mp same)
          simp [Live, Destroys, cookie, Ne.symm own, Expiring.get_exec_of_ne _ _ other]
      next failed => simp [Destroys, failed]

/-! ## What a `Logout` revokes -/

section Run

variable {now : ℕ} {uuidInput : UuidInput} {db : Database}

theorem token_ne_empty_of_live {events : List Event} {later : ℕ} {token : String} {id : Uuid}
    (live : Live ((State.started now uuidInput db).run events).sessions later token id) :
    token ≠ "" := by
  obtain ⟨-, login, -, -, -, ⟨-, -, -, drawn, -⟩, -⟩ := live_run_iff.mp live
  exact drawn ▸ login.answers.sessionID.nonempty

end Run

/-- The token that a `Logout` is authenticated with is revoked exactly when no session was open
under it, or the cookie carries it and the delete is executed. -/
theorem logout_revokes_iff (now : ℕ) (uuidInput : UuidInput) (db : Database)
    (before : List Event) (e : Exchange) (route : e.request.route = .logout) :
    Revoked (((State.started now uuidInput db).run before).step (.exchange e))
        (extractToken e.request) ↔
      ((∃ id, Live ((State.started now uuidInput db).run before).sessions
          (((State.started now uuidInput db).run before).now + e.wait) (extractToken e.request)
            id) →
        e.request.cookie = some (extractToken e.request) ∧ e.answers.redis.executed = true) := by
  set s := (State.started now uuidInput db).run before with start
  have history : ∀ later : List Event, (s.step (.exchange e)).run later =
      (State.started now uuidInput db).run (before ++ .exchange e :: later) := by
    intro later
    rw [State.run, State.run, List.foldl_append]
    rfl
  have elapsed : s.now + e.wait = (s.step (.exchange e)).now := (s.step_now (.exchange e)).symm
  constructor
  · rintro revoked ⟨id, live⟩
    by_contra kept
    have live' := (live_logout_iff route).mpr ⟨live, fun destroys => kept destroys.2⟩
    -- the same credentials, at once, on a Redis that answers
    refine revoked [] (by simp) ⟨0, e.request, { e.answers with redis := .answered }⟩ id.text rfl ?_
    have wellFormed : WellFormed ((s.step (.exchange e)).run []).sessions :=
      history [] ▸ run_wellFormed
    refine (passes_iff wellFormed).mpr ⟨token_ne_empty_of_live live, rfl, id, ?_, rfl⟩
    rw [elapsed] at live'
    exact live'
  · intro closes later undrawn e' userID token passes
    have wellFormed : WellFormed ((s.step (.exchange e)).run later).sessions :=
      history later ▸ run_wellFormed
    obtain ⟨-, -, id, live, -⟩ := (passes_iff wellFormed).mp passes
    rw [token] at live
    obtain ⟨open', kept⟩ := (live_logout_iff route).mp (live_of_live_run undrawn live)
    have order : s.now + e.wait ≤ ((s.step (.exchange e)).run later).now + e'.wait := by
      have passed := now_le_run (s.step (.exchange e)) later
      omega
    obtain ⟨email, read⟩ := open'
    exact kept ⟨route, closes ⟨id, email, Expiring.get_of_later order read⟩⟩

theorem cookie_logout_revokes :
    Revoked (((State.started 0 .exact aliceDb).run [.exchange aliceLogin]).step
      (.exchange ⟨1, ⟨.logout, "", some "5e55", ""⟩, calm⟩)) "5e55" :=
  (logout_revokes_iff 0 .exact aliceDb [.exchange aliceLogin]
    ⟨1, ⟨.logout, "", some "5e55", ""⟩, calm⟩ rfl).mpr fun _ => ⟨rfl, rfl⟩

/-- A client that keeps its token in the header logs out, is told so, and stays logged in. -/
theorem header_logout_revokes_nothing :
    (((State.started 0 .exact aliceDb).run [.exchange aliceLogin]).serve
        (bearer .logout)).2.status = 200 ∧
      ¬ Revoked (((State.started 0 .exact aliceDb).run [.exchange aliceLogin]).step
        (.exchange (bearer .logout))) (extractToken (bearer .logout).request) :=
  ⟨rfl, fun revoked => revoked [] (by simp) (bearer .me) "a11ce" rfl ⟨_, rfl, rfl⟩⟩

end Wardn.Server
