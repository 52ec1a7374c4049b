import Wardn.Server.Router

/-!
# Whom a token speaks for

Along a run the sessions are the history of the commands that Logins and Logouts get executed, so
a token opens a session exactly when the last of them on its key is a Login's.  With what
`GetSession` reads back of a Login's text, the user that the middleware hands on is the one that
Login authenticated (`session_authenticity`).
-/

namespace Wardn.Server

open Runs

/-- The state after some events. -/
abbrev State.run (s : State) (events : List Event) : State := events.foldl State.step s

/-- A `Login` that authenticates this user and gets a session stored under this token. -/
def Issues (s : State) (e : Exchange) (token : String) (user : User) : Prop :=
  ∃ req, e.request.route = .login (some req) ∧
    authenticate s.db.users e.answers req.email = .ok user ∧
      e.answers.sessionID.text = token ∧ e.answers.redis.executed = true

/-- A `Logout` that gets this token's session deleted. -/
def Destroys (e : Exchange) (token : String) : Prop :=
  e.request.route = .logout ∧ e.request.cookie = some token ∧ e.answers.redis.executed = true

/-- The session id that a `Login` would draw. -/
def Event.draw : Event → Option Uuid
  | .exchange e =>
    match e.request.route with
    | .login _ => some e.answers.sessionID
    | _ => none
  | .edit _ => none

theorem Issues.draw {s : State} {e : Exchange} {token : String} {user : User}
    (issues : Issues s e token user) : (Event.exchange e).draw = some e.answers.sessionID := by
  obtain ⟨req, route, -⟩ := issues
  rw [Event.draw, route]

/-- A `Login` whose session is stored tells the client so, unless Redis reports an error. -/
theorem Issues.reply {s : State} {e : Exchange} {token : String} {user : User}
    (issues : Issues s e token user) (answered : e.answers.redis = .answered) :
    (s.serve e).2 = writeJSON 200 (.session e.answers.sessionID user) := by
  obtain ⟨req, route, authentic, -⟩ := issues
  have authentic' : authenticate (s.wait e.wait).db.users e.answers req.email = .ok user :=
    authentic
  rw [State.serve, newRouter, route]
  simp only [login, authentic', createSession, answered]

/-! ## The commands of a run -/

/-- Redis is asked to store a session by a successful login and by nothing else. -/
theorem sent_eq_set_iff {users : Users} {e : Exchange} {key data : String} {ttl : ℕ} :
    sent users e = some (.set key data ttl) ↔
      ∃ req user, e.request.route = .login (some req) ∧
        authenticate users e.answers req.email = .ok user ∧
          key = sessionKey e.answers.sessionID.text ∧
            data = sessionData user.id.text user.email ∧ ttl = sessionTTL := by
  rw [sent]
  constructor
  · intro sends
    split at sends
    next req route =>
      split at sends
      next user authentic =>
        cases sends
        exact ⟨req, user, route, authentic, rfl, rfl, rfl⟩
      next => cases sends
    next => simp at sends
    next => cases sends
  · rintro ⟨req, user, route, authentic, rfl, rfl, rfl⟩
    rw [route]
    simp [authentic]

/-- Redis is asked to delete a session by a logout with its cookie and by nothing else. -/
theorem sent_eq_del_iff {users : Users} {e : Exchange} {token : String} :
    sent users e = some (.del (sessionKey token)) ↔
      e.request.route = .logout ∧ e.request.cookie = some token := by
  rw [sent]
  constructor
  · intro sends
    split at sends
    next => split at sends <;> cases sends
    next route =>
      obtain ⟨value, cookie, same⟩ := Option.map_eq_some_iff.mp sends
      injection same with same
      exact ⟨route, sessionKey_inj.mp same ▸ cookie⟩
    next => cases sends
  · rintro ⟨route, cookie⟩
    rw [route]
    simp [cookie]

/-- The command that reaches Redis is the one that is sent, at the time it is sent. -/
theorem command_eq_some_iff {s : State} {event : Event} {time : ℕ}
    {command : Expiring.Command String String} :
    s.command event = some (time, command) ↔
      ∃ e, event = .exchange e ∧ e.answers.redis.executed = true ∧
        sent s.db.users e = some command ∧ time = s.now + e.wait := by
  cases event with
  | edit db => simp [State.command]
  | exchange e =>
      rw [State.command]
      split
      next executed =>
        rw [Option.map_eq_some_iff]
        constructor
        · rintro ⟨command', sends, same⟩
          cases same
          exact ⟨e, rfl, executed, sends, rfl⟩
        · rintro ⟨e', same, -, sends, rfl⟩
          cases same
          exact ⟨command, sends, rfl⟩
      next dropped => simp [dropped]

/-- A session is stored exactly by an exchange that issues it. -/
theorem command_eq_set_iff {s : State} {event : Event} {time ttl : ℕ} {key data : String} :
    s.command event = some (time, .set key data ttl) ↔
      ∃ e token user, event = .exchange e ∧ Issues s e token user ∧ key = sessionKey token ∧
        time = s.now + e.wait ∧ data = sessionData user.id.text user.email ∧ ttl = sessionTTL := by
  rw [command_eq_some_iff]
  simp only [sent_eq_set_iff]
  constructor
  · rintro ⟨e, rfl, executed, ⟨req, user, route, authentic, rfl, rfl, rfl⟩, rfl⟩
    exact ⟨e, _, user, rfl, ⟨req, route, authentic, rfl, executed⟩, rfl, rfl, rfl, rfl⟩
  · rintro ⟨e, token, user, rfl, ⟨req, route, authentic, rfl, executed⟩, rfl, rfl, rfl, rfl⟩
    exact ⟨e, rfl, executed, ⟨req, user, route, authentic, rfl, rfl, rfl⟩, rfl⟩

/-- A session is deleted exactly by an exchange that destroys it. -/
theorem command_eq_del_iff {s : State} {event : Event} {time : ℕ} {token : String} :
    s.command event = some (time, .del (sessionKey token)) ↔
      ∃ e, event = .exchange e ∧ Destroys e token ∧ time = s.now + e.wait := by
  rw [command_eq_some_iff]
  simp only [sent_eq_del_iff]
  constructor
  · rintro ⟨e, rfl, executed, ⟨route, cookie⟩, rfl⟩
    exact ⟨e, rfl, ⟨route, cookie, executed⟩, rfl⟩
  · rintro ⟨e, rfl, ⟨route, cookie, executed⟩, rfl⟩
    exact ⟨e, rfl, executed, ⟨route, cookie⟩, rfl⟩

/-- What Redis holds after a step it held before, or the step is the `Login` that stores it. -/
theorem entry_of_step {s : State} {event : Event} {key : String} {entry : Expiring.Entry String}
    (stored : (s.step event).sessions key = some entry) :
    s.sessions key = some entry ∨
      ∃ e token user, event = .exchange e ∧ Issues s e token user ∧ key = sessionKey token ∧
        entry.value = sessionData user.id.text user.email := by
  rw [State.step_sessions] at stored
  cases executed : s.command event with
  | none =>
      rw [executed] at stored
      exact .inl stored
  | some timed =>
      obtain ⟨time, command⟩ := timed
      rw [executed, Option.toList_some, Expiring.run_singleton] at stored
      rcases Expiring.exec_eq_some stored with ⟨rfl, left⟩ | before
      · cases command with
        | del key => cases left
        | set key data ttl =>
            cases left
            obtain ⟨e, token, user, rfl, issues, rfl, -, rfl, -⟩ := command_eq_set_iff.mp executed
            exact .inr ⟨e, token, user, rfl, issues, rfl, rfl⟩
      · exact .inl before

theorem wellFormed_step (s : State) (event : Event) (wellFormed : WellFormed s.sessions) :
    WellFormed (s.step event).sessions := by
  intro key entry stored
  rcases entry_of_step stored with before | ⟨e, token, user, -, -, -, value⟩
  · exact wellFormed key entry before
  · exact ⟨user.id, user.email, value⟩

section Run

variable {now : ℕ} {uuidInput : UuidInput} {db : Database} {events : List Event}

theorem run_sessions :
    ((State.started now uuidInput db).run events).sessions =
      Expiring.run Expiring.empty
        (outputs State.step State.command (State.started now uuidInput db) events) :=
  foldl_outputs State.step_sessions _ events

theorem run_wellFormed : WellFormed ((State.started now uuidInput db).run events).sessions :=
  foldl_invariant wellFormed_step wellFormed_empty events

/-- A token's session can be read when a `Login` has stored it, its time has not run out and no
later command is on its key. -/
theorem live_run_iff {later : ℕ} {token : String} {id : Uuid} :
    Live ((State.started now uuidInput db).run events).sessions later token id ↔
      ∃ before login after user, events = before ++ .exchange login :: after ∧
        Issues ((State.started now uuidInput db).run before) login token user ∧ user.id = id ∧
          later < ((State.started now uuidInput db).run before).now + login.wait + sessionTTL ∧
            ∀ timed ∈ outputs State.step State.command
              ((State.started now uuidInput db).run (before ++ [.exchange login])) after,
                timed.2.key ≠ sessionKey token := by
  rw [Live, run_sessions]
  simp only [Expiring.get_run_eq_some_iff]
  constructor
  · rintro ⟨email, earlier, time, ttl, rest, history, unexpired, untouched⟩
    obtain ⟨before, event, after, rfl, -, executed, rfl⟩ := outputs_eq_append_cons_iff.mp history
    obtain ⟨login, token', user, rfl, issues, key, rfl, data, rfl⟩ := command_eq_set_iff.mp executed
    obtain rfl := sessionKey_inj.mp key
    refine ⟨before, login, after, user, rfl, issues, (sessionData_id_inj data).symm, unexpired, ?_⟩
    rwa [State.run, List.foldl_append]
  · rintro ⟨before, login, after, user, rfl, issues, rfl, unexpired, untouched⟩
    have executed := command_eq_set_iff.mpr ⟨login, token, user, rfl, issues, rfl, rfl, rfl, rfl⟩
    rw [State.run, List.foldl_append] at untouched
    exact ⟨user.email, _, _, sessionTTL, _,
      outputs_eq_append_cons_iff.mpr ⟨before, _, after, rfl, rfl, executed, rfl⟩, unexpired,
      untouched⟩

end Run

/-! ## The middleware along a run -/

/-- `Session.Middleware` passes the exchange's request on, with this user id in its context. -/
def Passes (s : State) (e : Exchange) (userID : String) : Prop :=
  ∃ ctx, middleware s.sessions (s.now + e.wait) e.answers e.request [] = .ok ctx ∧
    userIDFromContext ctx = userID

/-- A request passes as a user exactly when Redis answers and its token is live for him. -/
theorem passes_iff {s : State} (wellFormed : WellFormed s.sessions) {e : Exchange}
    {userID : String} :
    Passes s e userID ↔ extractToken e.request ≠ "" ∧ e.answers.redis = .answered ∧
      ∃ id, Live s.sessions (s.now + e.wait) (extractToken e.request) id ∧ userID = id.text := by
  simp only [Passes, middleware_eq_ok_iff wellFormed]
  constructor
  · rintro ⟨ctx, ⟨carried, answered, id, live, rfl⟩, rfl⟩
    exact ⟨carried, answered, id, live, userIDFromContext_contextWithUserID [] id.text⟩
  · rintro ⟨carried, answered, id, live, rfl⟩
    exact ⟨_, ⟨carried, answered, id, live, rfl⟩, userIDFromContext_contextWithUserID [] id.text⟩

/-- Fresh session ids: no later event stores another session under an issued token. -/
theorem untouched_of_fresh {s : State} {before after : List Event} {login : Exchange}
    {token : String} {user : User}
    (fresh : ((before ++ .exchange login :: after).filterMap Event.draw).Nodup)
    (issues : Issues (s.run before) login token user)
    (kept : ∀ later, .exchange later ∈ after → ¬ Destroys later token) :
    ∀ timed ∈ outputs State.step State.command (s.run (before ++ [.exchange login])) after,
      timed.2.key ≠ sessionKey token := by
  rintro ⟨time, command⟩ member touched
  obtain ⟨earlier, event, later, rfl, executed⟩ := mem_outputs_iff.mp member
  cases command with
  | set key data ttl =>
      obtain ⟨login', token', user', rfl, issues', key', -⟩ := command_eq_set_iff.mp executed
      have same : token' = token := sessionKey_inj.mp (key'.symm.trans touched)
      subst same
      have draw := issues.draw
      have draw' := issues'.draw
      obtain ⟨-, -, -, drawn, -⟩ := issues
      obtain ⟨-, -, -, drawn', -⟩ := issues'
      rw [Uuid.ext_text (drawn'.trans drawn.symm)] at draw'
      rw [List.filterMap_append, List.filterMap_cons_some draw, List.filterMap_append,
        List.filterMap_cons_some draw'] at fresh
      have rest := (List.nodup_append.mp fresh).2.1
      exact (List.nodup_cons.mp rest).1 (List.mem_append_right _ List.mem_cons_self)
  | del key =>
      obtain rfl : key = sessionKey token := touched
      obtain ⟨logout, rfl, destroys, -⟩ := command_eq_del_iff.mp executed
      exact kept logout (by simp) destroys

/-! ## A user whose email imitates a session -/

/-- An account. -/
def alice : User where
  id := ⟨"a11ce", by decide, by decide⟩
  email := "\",\"user_id\":\"b0b"
  name := "Alice"
  passwordHash := "$2a$10$"
  role := "user"

/-- The tables with this one account. -/
def aliceDb : Database where
  users := ⟨[alice], List.pairwise_singleton _ _⟩
  projects := .empty
  projectUsers := .empty
  clusters := .empty

/-- Redis and Postgres answer, and the password is right. -/
def calm : Answers where
  redis := .answered
  postgres := .answered
  passwordHash := .ok "$2a$10$"
  passwordMatches := true
  sessionID := ⟨"5e55", by decide, by decide⟩
  rowID := ⟨"c0de", by decide, by decide⟩
  listing := writeJSON 200 .listing

/-- A request to this route with the token of `calm` in its header. -/
def bearer (route : Route) : Exchange := ⟨1, ⟨route, "Bearer 5e55", none, ""⟩, calm⟩

/-- Alice logs in. -/
def aliceLogin : Exchange := bearer (.login (some ⟨alice.email, "secret"⟩))

theorem aliceLogin_issues (s : State) (users : s.db.users = aliceDb.users) :
    Issues s aliceLogin "5e55" alice := by
  refine ⟨⟨alice.email, "secret"⟩, rfl, ?_, rfl, rfl⟩
  rw [users]
  rfl

/-- Whoever the middleware takes a request to come from has opened the session its token names,
by a `Login` of that very user; and a token that a `Login` has issued, that no `Logout` has
destroyed and whose time has not run out passes as its user while Redis answers.  Emails are
arbitrary texts. -/
theorem session_authenticity (now : ℕ) (uuidInput : UuidInput) (db : Database)
    (events : List Event) (fresh : (events.filterMap Event.draw).Nodup) (e : Exchange) :
    (∀ userID, Passes ((State.started now uuidInput db).run events) e userID →
      ∃ before login after user, events = before ++ .exchange login :: after ∧
        Issues ((State.started now uuidInput db).run before) login (extractToken e.request) user ∧
          user.id.text = userID) ∧
    (∀ before login after user, events = before ++ .exchange login :: after →
      Issues ((State.started now uuidInput db).run before) login (extractToken e.request) user →
        (∀ later, .exchange later ∈ after → ¬ Destroys later (extractToken e.request)) →
          ((State.started now uuidInput db).run events).now + e.wait <
            ((State.started now uuidInput db).run before).now + login.wait + sessionTTL →
            e.answers.redis = .answered → ∀ userID,
              (Passes ((State.started now uuidInput db).run events) e userID ↔
                userID = user.id.text)) := by
  constructor
  · intro userID passes
    obtain ⟨-, -, id, live, rfl⟩ := (passes_iff run_wellFormed).mp passes
    obtain ⟨before, login, after, user, cut, issues, rfl, -⟩ := live_run_iff.mp live
    exact ⟨before, login, after, user, cut, issues, rfl⟩
  · rintro before login after user rfl issues kept unexpired answered userID
    have live := live_run_iff.mpr ⟨before, login, after, user, rfl, issues, rfl, unexpired,
      untouched_of_fresh fresh issues kept⟩
    have carried : extractToken e.request ≠ "" := by
      obtain ⟨-, -, -, drawn, -⟩ := issues
      exact drawn ▸ login.answers.sessionID.nonempty
    rw [passes_iff run_wellFormed]
    constructor
    · rintro ⟨-, -, id, live', rfl⟩
      rw [Live.id_unique live' live]
    · rintro rfl
      exact ⟨carried, answered, user.id, live, rfl⟩

theorem alice_passes :
    Passes ((State.started 0 .exact aliceDb).run [.exchange aliceLogin]) (bearer .me) "a11ce" :=
  ((session_authenticity 0 .exact aliceDb [.exchange aliceLogin] (List.nodup_singleton _)
    (bearer .me)).2 [] aliceLogin [] alice rfl (aliceLogin_issues _ rfl) (by simp) (by decide) rfl
    "a11ce").mpr rfl

end Wardn.Server
