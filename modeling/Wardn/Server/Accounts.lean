import Wardn.Server.Privilege

/-!
# Accounts

Through the API a row of `users` comes from a `Register` and stays as it is, so what `/auth/me`
shows is the account that some `Register` created and whose `Login` issued the token of the request
(`me_reply_iff`), and no two accounts are given out for one email (`registered_once`).
-/

namespace Wardn.Server

open Runs

/-- The run of a server on these exchanges, with no edit of the tables from outside. -/
abbrev State.serveAll (s : State) (exchanges : List Exchange) : State :=
  exchanges.foldl (fun s e => (s.serve e).1) s

/-- A `Register` whose row is stored. -/
def Registers (s : State) (e : Exchange) (user : User) : Prop :=
  ∃ req hash, e.request.route = .register (some req) ∧
    (req.email ≠ "" ∧ req.name ≠ "" ∧ req.password ≠ "") ∧ e.answers.passwordHash = .ok hash ∧
      e.answers.postgres.executed = true ∧
        user = ⟨e.answers.rowID, req.email, req.name, hash, "user"⟩ ∧ s.db.users.Admits user

/-! ## What an exchange does to the users -/

/-- The rows after an insert: the old ones, and the new one if it was executed and nothing clashes.
-/
theorem mem_insertRow_iff {ρ : Type*} {Clash : ρ → ρ → Prop} [DecidableRel Clash]
    (delivery : Delivery) (table : Table ρ Clash) (row row' : ρ) :
    row' ∈ (insertRow delivery table row).1 ↔
      row' ∈ table ∨ (delivery.executed = true ∧ row' = row ∧ table.Admits row) := by
  unfold insertRow
  cases delivery.executed with
  | false => simp
  | true =>
      dsimp only
      rw [if_pos rfl]
      cases inserted : table.insert row with
      | none =>
          have full := Table.insert_eq_none_iff.mp inserted
          simp [full]
      | some table' =>
          obtain ⟨room, rows⟩ := Table.insert_eq_some_iff.mp inserted
          rw [Option.getD_some, Table.mem_iff, rows, List.mem_cons, or_comm]
          simp [room, Table.mem_iff]

theorem createUser_fst (users : Users) {answers : Answers} (email name : String) {hash : String}
    (hashed : answers.passwordHash = .ok hash) :
    (createUser users answers email name).1 =
      (insertRow answers.postgres users ⟨answers.rowID, email, name, hash, "user"⟩).1 := by
  rw [createUser, hashed]
  dsimp only
  cases (insertRow answers.postgres users ⟨answers.rowID, email, name, hash, "user"⟩).2 <;> rfl

/-- The accounts after `CreateUser`. -/
theorem mem_users_createUser_iff (users : Users) (answers : Answers) (email name : String)
    (user : User) :
    user ∈ (createUser users answers email name).1 ↔ user ∈ users ∨
      ∃ hash, answers.passwordHash = .ok hash ∧ answers.postgres.executed = true ∧
        user = ⟨answers.rowID, email, name, hash, "user"⟩ ∧ users.Admits user := by
  cases hashed : answers.passwordHash with
  | error err =>
      have unchanged : (createUser users answers email name).1 = users := by
        rw [createUser, hashed]
      rw [unchanged]
      simp
  | ok hash =>
      rw [createUser_fst users email name hashed, mem_insertRow_iff]
      simp only [Except.ok.injEq, exists_eq_left']
      refine or_congr_right ⟨?_, ?_⟩
      · rintro ⟨executed, rfl, room⟩
        exact ⟨executed, rfl, room⟩
      · rintro ⟨executed, rfl, room⟩
        exact ⟨executed, rfl, room⟩

/-- The accounts after `Register`. -/
theorem register_users_iff (s : State) (answers : Answers) (req : RegisterRequest) (user : User) :
    user ∈ (register s answers (some req)).1.db.users ↔ user ∈ s.db.users ∨
      ((req.email ≠ "" ∧ req.name ≠ "" ∧ req.password ≠ "") ∧
        ∃ hash, answers.passwordHash = .ok hash ∧ answers.postgres.executed = true ∧
          user = ⟨answers.rowID, req.email, req.name, hash, "user"⟩ ∧ s.db.users.Admits user) := by
  rw [register]
  by_cases empty : req.email = "" ∨ req.name = "" ∨ req.password = ""
  · rw [if_pos empty]
    have lacking : ¬ (req.email ≠ "" ∧ req.name ≠ "" ∧ req.password ≠ "") := by
      simpa only [not_and_or, not_not] using empty
    simp [lacking]
  · rw [if_neg empty]
    have whole : req.email ≠ "" ∧ req.name ≠ "" ∧ req.password ≠ "" := by
      simpa only [not_or] using empty
    rw [and_iff_right whole]
    exact mem_users_createUser_iff s.db.users answers req.email req.name user

/-- The users change by `Register` alone. -/
theorem newRouter_users_of_ne {s : State} {e : Exchange}
    (other : ∀ req, e.request.route ≠ .register (some req)) :
    (newRouter s e).1.db.users = s.db.users := by
  rw [newRouter]
  cases route : e.request.route with
  | register body =>
      cases body with
      | none => rfl
      | some req => exact absurd route (other req)
  | login body =>
      obtain ⟨sessions, after⟩ := login_fst s e.answers body
      exact congrArg (·.db.users) after
  | me =>
      exact withSession_ind (motive := fun result => result.1.db.users = s.db.users)
        (fun _ _ => rfl) fun ctx _ => congrArg (·.db.users) (me_fst s e.answers ctx)
  | createProject body =>
      refine withSession_ind (motive := fun result => result.1.db.users = s.db.users)
        (fun _ _ => rfl) fun ctx _ => ?_
      obtain ⟨projects, after⟩ := createProject_fst s e.answers body
      exact congrArg (·.db.users) after
  | registerCluster body =>
      refine withSession_ind (motive := fun result => result.1.db.users = s.db.users)
        (fun _ _ => rfl) fun ctx _ => ?_
      obtain ⟨clusters, after⟩ := registerCluster_fst s e.answers body
      exact congrArg (·.db.users) after
  | preflight => rfl
  | unmatched => rfl
  | health => rfl
  | logout => rfl
  | _ =>
      exact withSession_ind (motive := fun result => result.1.db.users = s.db.users)
        (fun _ _ => rfl) fun _ _ => rfl

/-- A request adds an account exactly when it is a registration that Postgres takes. -/
theorem mem_users_serve_iff (s : State) (e : Exchange) (user : User) :
    user ∈ (s.serve e).1.db.users ↔ user ∈ s.db.users ∨ Registers s e user := by
  change user ∈ (newRouter (s.wait e.wait) e).1.db.users ↔ _
  by_cases other : ∀ req, e.request.route ≠ .register (some req)
  · rw [newRouter_users_of_ne other]
    have none : ¬ Registers s e user := fun ⟨req, _, route, _⟩ => other req route
    exact (or_iff_left none).symm
  · obtain ⟨req, route⟩ := not_forall_not.mp other
    have own : newRouter (s.wait e.wait) e = register (s.wait e.wait) e.answers (some req) := by
      rw [newRouter, route]
    rw [own, register_users_iff]
    refine or_congr_right ⟨fun stored => ?_, fun registers => ?_⟩
    · obtain ⟨whole, hash, hashed, executed, same, room⟩ := stored
      exact ⟨req, hash, route, whole, hashed, executed, same, room⟩
    · obtain ⟨req', hash, route', whole, hashed, executed, same, room⟩ := registers
      rw [route] at route'
      cases route'
      exact ⟨whole, hash, hashed, executed, same, room⟩

/-- The rows are those that were there and those that the run's `Register`s have stored. -/
theorem mem_users_serveAll_iff (s : State) (exchanges : List Exchange) (user : User) :
    user ∈ (s.serveAll exchanges).db.users ↔ user ∈ s.db.users ∨
      ∃ before register after, exchanges = before ++ register :: after ∧
        Registers (s.serveAll before) register user :=
  foldl_iff_or_exists (I := fun s => user ∈ s.db.users)
    (fun s e => mem_users_serve_iff s e user) s exchanges

theorem run_map_exchange (s : State) (exchanges : List Exchange) :
    s.run (exchanges.map .exchange) = s.serveAll exchanges := by
  rw [State.run, List.foldl_map]
  rfl

/-- No row goes away. -/
theorem users_serveAll_mono {s : State} {user : User} (member : user ∈ s.db.users)
    (exchanges : List Exchange) : user ∈ (s.serveAll exchanges).db.users :=
  (mem_users_serveAll_iff s exchanges user).mpr (.inl member)

theorem mem_users_of_authenticate {users : Users} {answers : Answers} {email : String} {user : User}
    (authentic : authenticate users answers email = .ok user) : user ∈ users := by
  rw [authenticate] at authentic
  split at authentic
  · cases authentic
  · split at authentic
    next => cases authentic
    next found =>
      split at authentic
      · cases authentic
        exact List.mem_of_find?_eq_some found
      · cases authentic

theorem eq_of_mem_users {users : Users} {user user' : User} (member : user ∈ users)
    (member' : user' ∈ users) (same : user'.id = user.id) : user' = user := by
  have only : ∀ row other : User, decide (row.id = user.id) = true →
      decide (other.id = user.id) = true → row.id = other.id ∨ row.email = other.email :=
    fun row other first second =>
      .inl ((of_decide_eq_true first).trans (of_decide_eq_true second).symm)
  have found := (Table.find?_eq_some_iff users only).mpr ⟨member, decide_eq_true rfl⟩
  have found' := (Table.find?_eq_some_iff users only).mpr ⟨member', decide_eq_true same⟩
  exact Option.some_inj.mp (found'.symm.trans found)

/-! ## What `/auth/me` shows -/

/-- `GetUserByID` finds the account of the id whenever Postgres answers. -/
theorem getUserByID_eq_ok_iff {uuidInput : UuidInput} {users : Users} {answers : Answers}
    {id : Uuid} {user : User} :
    getUserByID uuidInput users answers id.text = .ok user ↔
      answers.postgres = .answered ∧ user ∈ users ∧ user.id = id := by
  have found : users.rows.find? (fun user => user.id = id) = some user ↔
      user ∈ users ∧ user.id = id := by
    rw [Table.find?_eq_some_iff users fun row other first second => ?_]
    · simp
    · exact .inl ((of_decide_eq_true first).trans (of_decide_eq_true second).symm)
  rw [← found, getUserByID, uuidInput.read_text]
  cases answers.postgres with
  | failed error executed => simp
  | answered =>
      cases lookup : List.find? (fun user => decide (user.id = id)) users.rows <;> simp [lookup]

/-- The account of the live session, while Redis and Postgres answer. -/
theorem serve_me_iff {s : State} (wellFormed : WellFormed s.sessions) {e : Exchange}
    (route : e.request.route = .me) {user : User} :
    (s.serve e).2 = writeJSON 200 (.user user) ↔
      extractToken e.request ≠ "" ∧ e.answers.redis = .answered ∧
        e.answers.postgres = .answered ∧
          Live s.sessions (s.now + e.wait) (extractToken e.request) user.id ∧
            user ∈ s.db.users := by
  have own : (s.serve e).2 = (withSession (s.wait e.wait) e (me (s.wait e.wait) e.answers)).2 := by
    rw [State.serve, newRouter, route]
  rw [own, withSession]
  have passes := @middleware_eq_ok_iff s.sessions wellFormed (s.now + e.wait) e.answers e.request []
  cases passed : middleware (s.wait e.wait).sessions (s.wait e.wait).now e.answers e.request [] with
  | error reply =>
      refine iff_of_false (fun shown => ?_) ?_
      · have status : reply.status = 200 := congrArg Reply.status shown
        rcases middleware_status passed with refused | refused <;> omega
      · rintro ⟨carried, answered, -, live, -⟩
        have passed' := passes.mpr ⟨carried, answered, user.id, live, rfl⟩
        cases passed.symm.trans passed'
  | ok ctx =>
      obtain ⟨carried, answered, id, live, rfl⟩ := passes.mp passed
      have shown : (me (s.wait e.wait) e.answers (contextWithUserID [] id.text)).2 =
          writeJSON 200 (.user user) ↔
            getUserByID s.uuidInput s.db.users e.answers id.text = .ok user := by
        have account : getUserByID (s.wait e.wait).uuidInput (s.wait e.wait).db.users e.answers
          id.text = getUserByID s.uuidInput s.db.users e.answers id.text := rfl
        rw [me, userIDFromContext_contextWithUserID, if_neg id.nonempty, account]
        cases getUserByID s.uuidInput s.db.users e.answers id.text with
        | error failure => simp [writeError, writeJSON]
        | ok user' => simp [writeJSON]
      rw [shown, getUserByID_eq_ok_iff]
      constructor
      · rintro ⟨answered', member, rfl⟩
        exact ⟨carried, answered, answered', live, member⟩
      · rintro ⟨-, -, answered', live', member⟩
        exact ⟨answered', member, live'.id_unique live⟩

section Run

variable (now : ℕ) (uuidInput : UuidInput) (db : Database)

/-- Behind these exchanges, the request is made in a session that a `Login` of this account has
opened, that no `Logout` has destroyed and whose time has not run out. -/
def MadeBy (exchanges : List Exchange) (e : Exchange) (user : User) : Prop :=
  ∃ before login after, exchanges = before ++ login :: after ∧
    Issues ((State.started now uuidInput db).serveAll before) login (extractToken e.request) user ∧
    ((State.started now uuidInput db).serveAll exchanges).now + e.wait <
      ((State.started now uuidInput db).serveAll before).now + login.wait + sessionTTL ∧
    ∀ later ∈ after, ¬ Destroys later (extractToken e.request)

variable {now uuidInput db} {exchanges : List Exchange} {e : Exchange}

theorem serveAll_wellFormed :
    WellFormed ((State.started now uuidInput db).serveAll exchanges).sessions := by
  rw [← run_map_exchange]
  exact run_wellFormed

/-- A live token was issued by a login, which no logout has undone. -/
theorem madeBy_of_live {id : Uuid}
    (live : Live ((State.started now uuidInput db).serveAll exchanges).sessions
      (((State.started now uuidInput db).serveAll exchanges).now + e.wait)
      (extractToken e.request) id) :
    ∃ user, MadeBy now uuidInput db exchanges e user ∧ user.id = id := by
  rw [← run_map_exchange, live_run_iff] at live
  obtain ⟨before, login, after, user, cut, issues, same, unexpired, untouched⟩ := live
  obtain ⟨before, rest, rfl, rfl, rest'⟩ := List.map_eq_append_iff.mp cut
  obtain ⟨login, after, rfl, ⟨⟩, rfl⟩ := List.map_eq_cons_iff.mp rest'
  simp only [run_map_exchange] at issues unexpired
  refine ⟨user, ⟨before, login, after, rfl, issues, unexpired, fun later found destroys => ?_⟩,
    same⟩
  obtain ⟨front, back, rfl⟩ := List.mem_iff_append.mp found
  refine untouched _ (mem_outputs_iff.mpr ⟨front.map .exchange, .exchange later,
    back.map .exchange, by rw [List.map_append, List.map_cons],
    command_eq_del_iff.mpr ⟨later, rfl, destroys, rfl⟩⟩) rfl

/-- Conversely such a login leaves its token live, for tokens are drawn once. -/
theorem MadeBy.live {user : User} (made : MadeBy now uuidInput db exchanges e user)
    (fresh : ((exchanges.map Event.exchange).filterMap Event.draw).Nodup) :
    Live ((State.started now uuidInput db).serveAll exchanges).sessions
      (((State.started now uuidInput db).serveAll exchanges).now + e.wait)
      (extractToken e.request) user.id := by
  obtain ⟨before, login, after, rfl, issues, unexpired, kept⟩ := made
  simp only [← run_map_exchange] at issues unexpired ⊢
  rw [List.map_append, List.map_cons] at fresh
  refine live_run_iff.mpr ⟨before.map .exchange, login, after.map .exchange, user,
    by rw [List.map_append, List.map_cons], issues, rfl, unexpired,
    untouched_of_fresh fresh issues fun later member => ?_⟩
  obtain ⟨later, found, ⟨⟩⟩ := List.mem_map.mp member
  exact kept later found

/-- Whoever has logged in still has the account. -/
theorem MadeBy.mem_users {user : User} (made : MadeBy now uuidInput db exchanges e user) :
    user ∈ ((State.started now uuidInput db).serveAll exchanges).db.users := by
  obtain ⟨before, login, after, rfl, ⟨req, opens, authentic, drawn⟩, -⟩ := made
  rw [State.serveAll, List.foldl_append]
  exact users_serveAll_mono (mem_users_of_authenticate authentic) (login :: after)

theorem MadeBy.token_ne {user : User} (made : MadeBy now uuidInput db exchanges e user) :
    extractToken e.request ≠ "" := by
  obtain ⟨before, login, after, -, ⟨req, opens, authentic, drawn, -⟩, -⟩ := made
  exact drawn ▸ login.answers.sessionID.nonempty

/-- `/auth/me` shows an account exactly while Redis and Postgres answer and the token of the request
was issued by a `Login` of that very account, has not run out and was destroyed by no `Logout`; the
account was there from the start or comes from a `Register`. -/
theorem me_reply_iff (now : ℕ) (uuidInput : UuidInput) (db : Database) (exchanges : List Exchange)
    (fresh : ((exchanges.map Event.exchange).filterMap Event.draw).Nodup) {e : Exchange}
    (route : e.request.route = .me) {user : User} :
    (((State.started now uuidInput db).serveAll exchanges).serve e).2 =
        writeJSON 200 (.user user) ↔
      e.answers.redis = .answered ∧ e.answers.postgres = .answered ∧
        MadeBy now uuidInput db exchanges e user ∧
        (user ∈ db.users ∨ ∃ before register after, exchanges = before ++ register :: after ∧
          Registers ((State.started now uuidInput db).serveAll before) register user) := by
  rw [serve_me_iff serveAll_wellFormed route]
  constructor
  · rintro ⟨-, answered, answered', live, member⟩
    -- The account that the `Login` authenticated is still there, and has the id of the session.
    obtain ⟨user', made, same⟩ := madeBy_of_live live
    obtain rfl := eq_of_mem_users member made.mem_users same
    exact ⟨answered, answered', made, (mem_users_serveAll_iff _ exchanges user').mp member⟩
  · rintro ⟨answered, answered', made, -⟩
    exact ⟨made.token_ne, answered, answered', made.live fresh, made.mem_users⟩

end Run

/-- The tables without their users. -/
def noAccounts : Database := { aliceDb with users := .empty }

/-- Alice registers. -/
def aliceRegister : Exchange :=
  bearer (.register (some ⟨alice.email, alice.name, "secret"⟩))

/-- The row that `aliceRegister` leaves. -/
def registeredAlice : User := { alice with id := calm.rowID }

theorem me_shows_registered :
    (((State.started 0 .exact noAccounts).serveAll [aliceRegister, aliceLogin]).serve
      (bearer .me)).2 = writeJSON 200 (.user registeredAlice) := by
  have registers : Registers (State.started 0 .exact noAccounts) aliceRegister registeredAlice :=
    ⟨_, _, rfl, by decide, rfl, rfl, rfl, fun other member => by cases member⟩
  have issues : Issues ((State.started 0 .exact noAccounts).serveAll [aliceRegister]) aliceLogin
      "5e55" registeredAlice := ⟨⟨alice.email, "secret"⟩, rfl, rfl, rfl, rfl⟩
  exact (me_reply_iff 0 .exact noAccounts [aliceRegister, aliceLogin] (by decide) rfl).mpr
    ⟨rfl, rfl, ⟨[aliceRegister], aliceLogin, [], rfl, issues, by decide, by simp⟩,
      .inr ⟨[], aliceRegister, [aliceLogin], rfl, registers⟩⟩

/-! ## One account for an email -/

/-- The account that a `Register` answers with. -/
def created (s : State) (e : Exchange) : Option User :=
  match e.request.route, (s.serve e).2 with
  | .register _, ⟨201, .user user⟩ => some user
  | _, _ => none

theorem insertRow_eq_ok_iff {ρ : Type*} {Clash : ρ → ρ → Prop} [DecidableRel Clash]
    {delivery : Delivery} {table : Table ρ Clash} {row row' : ρ} :
    (insertRow delivery table row).2 = .ok row' ↔
      delivery = .answered ∧ table.Admits row ∧ row' = row := by
  unfold insertRow
  cases delivery with
  | failed error executed => simp
  | answered =>
      dsimp only
      split
      next room => simp [room, eq_comm]
      next full => simp [full]

/-- An account that `CreateUser` returns is the one it has inserted. -/
theorem createUser_eq_ok {users : Users} {answers : Answers} {email name : String} {user : User}
    (made : (createUser users answers email name).2 = .ok user) :
    ∃ hash, answers.passwordHash = .ok hash ∧ answers.postgres.executed = true ∧
      user = ⟨answers.rowID, email, name, hash, "user"⟩ ∧ users.Admits user := by
  rw [createUser] at made
  cases hashed : answers.passwordHash with
  | error err =>
      rw [hashed] at made
      cases made
  | ok hash =>
      rw [hashed] at made
      dsimp only at made
      split at made
      next => cases made
      next stored inserted =>
        cases made
        obtain ⟨answered, room, rfl⟩ := insertRow_eq_ok_iff.mp inserted
        exact ⟨hash, rfl, by rw [answered]; rfl, rfl, room⟩

/-- The account of a `201` reply is one that the request has registered. -/
theorem registers_of_created {s : State} {e : Exchange} {user : User}
    (shown : created s e = some user) : Registers s e user := by
  have own : ∀ body, e.request.route = .register body →
      (s.serve e).2 = (register (s.wait e.wait) e.answers body).2 := by
    intro body route
    rw [State.serve, newRouter, route]
  rw [created] at shown
  split at shown
  next body user' route reply =>
    cases shown
    rw [own body route] at reply
    cases body with
    | none => cases congrArg Reply.status reply
    | some req =>
        rw [register] at reply
        split at reply
        next => cases congrArg Reply.status reply
        next whole =>
          dsimp only at reply
          split at reply
          next => cases congrArg Reply.status reply
          next => cases congrArg Reply.status reply
          next made =>
            cases reply
            obtain ⟨hash, hashed, executed, same, room⟩ := createUser_eq_ok made
            rw [not_or, not_or] at whole
            exact ⟨req, hash, route, whole, hashed, executed, same, room⟩
  next => cases shown

/-- The accounts that a run answers its `Register`s with have different ids and emails. -/
theorem accounts_distinct (s : State) (exchanges : List Exchange) :
    (outputs (fun s e => (s.serve e).1) created s exchanges).Pairwise
      fun user user' => user.id ≠ user'.id ∧ user.email ≠ user'.email := by
  induction exchanges generalizing s with
  | nil => exact .nil
  | cons e exchanges ih =>
      rw [outputs]
      cases shown : created s e with
      | none => exact ih _
      | some user =>
          have stored := (mem_users_serve_iff s e user).mpr (.inr (registers_of_created shown))
          refine List.pairwise_cons.mpr ⟨fun user' later => ?_, ih _⟩
          obtain ⟨before, e', after, rfl, shown'⟩ := mem_outputs_iff.mp later
          obtain ⟨-, -, -, -, -, -, -, room⟩ := registers_of_created shown'
          have apart := room user (users_serveAll_mono stored before)
          rw [not_or] at apart
          exact ⟨Ne.symm apart.1, Ne.symm apart.2⟩

end Wardn.Server
