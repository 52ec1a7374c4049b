import Wardn.Lib.Runs
import Wardn.Server.Rbac

/-!
# Handlers and routes

`newRouter` answers one exchange; a `State` is what a server keeps in Redis and Postgres with the
clock, and an `Event` is an exchange or an edit of the tables from outside the server.
-/

namespace Wardn.Server

/-- The state of the server: the tables, the sessions in Redis and the clock. -/
structure State where
  now : ℕ
  sessions : SessionStore
  uuidInput : UuidInput
  db : Database

/-! ## Users -/

/-- How pgx prints a violated unique constraint. -/
def duplicateKey : String :=
  "ERROR: duplicate key value violates unique constraint (SQLSTATE 23505)"

section Insert

variable {ρ : Type*} {Clash : ρ → ρ → Prop} [DecidableRel Clash]

/-- An `INSERT` of one row, `RETURNING` it. -/
def insertRow (delivery : Delivery) (table : Table ρ Clash) (row : ρ) :
    Table ρ Clash × Except String ρ :=
  (if delivery.executed then (table.insert row).getD table else table,
    match delivery with
    | .failed error _ => .error error
    | .answered => if table.Admits row then .ok row else .error duplicateKey)

theorem adds_insertRow_iff (delivery : Delivery) (table : Table ρ Clash) {row : ρ}
    (reflexive : Clash row row) :
    table.Adds (insertRow delivery table row).1 ↔
      delivery.executed = true ∧ table.Admits row := by
  unfold insertRow
  cases delivery.executed with
  | false => simp
  | true => simpa using table.adds_insert_iff reflexive

end Insert

/-- `contains` of `auth.go`. -/
def contains (s substr : String) : Bool := substr.toList <:+: s.toList

/-- The loop of `contains`; the slice is of as many characters as the text that is looked for. -/
def containsStr (s substr : List Char) : Bool :=
  (List.range (s.length + 1 - substr.length)).any fun i =>
    s.extract i (i + substr.length) = substr

/-- `containsStr` finds the text as a consecutive part. -/
theorem containsStr_iff (s substr : List Char) : containsStr s substr = true ↔ substr <:+: s := by
  unfold containsStr
  simp only [List.any_eq_true, List.mem_range, decide_eq_true_eq, List.extract_eq_take_drop,
    Nat.add_sub_cancel_left]
  constructor
  · rintro ⟨i, -, slice⟩
    rw [← slice]
    exact (List.take_prefix _ _).isInfix.trans (List.drop_suffix _ _).isInfix
  · rintro ⟨before, after, rfl⟩
    refine ⟨before.length, ?_, ?_⟩
    · simp only [List.length_append]
      omega
    · rw [List.append_assoc, List.drop_left, List.take_left]

/-- The tests before the loop change nothing. -/
theorem contains_eq (s substr : String) :
    contains s substr = (decide (substr.length ≤ s.length) && (decide (s = substr) ||
      (decide (0 < s.length) && containsStr s.toList substr.toList))) := by
  unfold contains
  rw [Bool.eq_iff_iff]
  simp only [Bool.and_eq_true, Bool.or_eq_true, decide_eq_true_eq, containsStr_iff]
  constructor
  · intro found
    have fits : substr.length ≤ s.length := found.length_le
    refine ⟨fits, ?_⟩
    by_cases positive : 0 < s.length
    · exact .inr ⟨positive, found⟩
    · have none : s.toList = [] := List.length_eq_zero_iff.mp (by simpa using positive)
      rw [none] at found
      exact .inl (String.toList_inj.mp (none.trans (List.infix_nil.mp found).symm))
  · rintro ⟨-, same | ⟨-, found⟩⟩
    · rw [same]
    · exact found

/-- `isDuplicateKey`: the test on the text of an error. -/
def isDuplicateKey (error : String) : Bool :=
  contains error "duplicate key" || contains error "unique constraint"

/-- `CreateUser`. -/
def createUser (users : Users) (answers : Answers) (email name : String) :
    Users × Except AuthError User :=
  match answers.passwordHash with
  | .error error => (users, .error (.other ("hash password: " ++ error)))
  | .ok hash =>
    let (users, inserted) :=
      insertRow answers.postgres users ⟨answers.rowID, email, name, hash, "user"⟩
    match inserted with
    | .error error =>
      let failure :=
        if isDuplicateKey error then .userExists else .other ("create user: " ++ error)
      (users, .error failure)
    | .ok user => (users, .ok user)

/-- `Authenticate`; bcrypt's comparison is one of the answers. -/
def authenticate (users : Users) (answers : Answers) (email : String) : Except AuthError User :=
  match answers.postgres with
  | .failed error _ => .error (.other ("query user: " ++ error))
  | .answered =>
    match users.rows.find? fun user => user.email = email with
    | none => .error .invalidCredentials
    | some user => if answers.passwordMatches then .ok user else .error .invalidCredentials

/-- `GetUserByID`. -/
def getUserByID (uuidInput : UuidInput) (users : Users) (answers : Answers) (id : String) :
    Except AuthError User :=
  match answers.postgres with
  | .failed error _ => .error (.other ("query user: " ++ error))
  | .answered =>
    match uuidInput.read id with
    | none =>
      .error (.other "query user: ERROR: invalid input syntax for type uuid (SQLSTATE 22P02)")
    | some id =>
      match users.rows.find? fun user => user.id = id with
      | none => .error (.other "query user: no rows in result set")
      | some user => .ok user

/-! ## Handlers -/

/-- `Register`. -/
def register (s : State) (answers : Answers) : Option RegisterRequest → State × Reply
  | none => (s, writeError 400 "invalid request body")
  | some req =>
    if req.email = "" ∨ req.name = "" ∨ req.password = "" then
      (s, writeError 400 "email, name, and password are required")
    else
      let (users, created) := createUser s.db.users answers req.email req.name
      ({ s with db := { s.db with users } },
        match created with
        | .error .userExists => writeError 409 "user already exists"
        | .error _ => writeError 500 "failed to create user"
        | .ok user => writeJSON 201 (.user user))

/-- `Login`. -/
def login (s : State) (answers : Answers) : Option LoginRequest → State × Reply
  | none => (s, writeError 400 "invalid request body")
  | some req =>
    match authenticate s.db.users answers req.email with
    | .error _ => (s, writeError 401 "invalid email or password")
    | .ok user =>
      let (sessions, created) := createSession s.sessions s.now answers user.id.text user.email
      ({ s with sessions },
        match created with
        | .error _ => writeError 500 "failed to create session"
        | .ok sessionID => writeJSON 200 (.session sessionID user))

/-- `Logout` looks at the cookie only, and at no error of the delete. -/
def logout (s : State) (answers : Answers) (request : Request) : State × Reply :=
  let sessions :=
    match request.cookie with
    | some value => destroySession s.sessions s.now answers value
    | none => s.sessions
  ({ s with sessions }, writeJSON 200 (.status "logged out"))

/-- `Me`. -/
def me (s : State) (answers : Answers) (ctx : Context) : State × Reply :=
  let userID := userIDFromContext ctx
  if userID = "" then (s, writeError 401 "unauthorized")
  else
    match getUserByID s.uuidInput s.db.users answers userID with
    | .error _ => (s, writeError 500 "failed to get user")
    | .ok user => (s, writeJSON 200 (.user user))

/-- `SyncApp`, which changes nothing. -/
def syncApp (s : State) («namespace» name : String) : State × Reply :=
  (s, writeJSON 202 (.sync «namespace» name))

/-- The row that `CreateProject` inserts. -/
def ProjectRequest.row (req : ProjectRequest) (id : Uuid) : Project :=
  ⟨id, req.name, req.description⟩

/-- `CreateProject`. -/
def createProject (s : State) (answers : Answers) : Option ProjectRequest → State × Reply
  | none => (s, writeError 400 "invalid request body")
  | some req =>
    if req.name = "" then (s, writeError 400 "name is required")
    else
      let (projects, inserted) :=
        insertRow answers.postgres s.db.projects (req.row answers.rowID)
      ({ s with db := { s.db with projects } },
        match inserted with
        | .error _ => writeError 500 "failed to create project"
        | .ok project => writeJSON 201 (.project project))

/-- The row that `RegisterCluster` inserts. -/
def ClusterRequest.row (req : ClusterRequest) (id : Uuid) : Cluster :=
  ⟨id, req.name, req.serverURL, req.kubeconfigRef, req.namespace⟩

/-- `RegisterCluster`. -/
def registerCluster (s : State) (answers : Answers) : Option ClusterRequest → State × Reply
  | none => (s, writeError 400 "invalid request body")
  | some req =>
    if req.name = "" ∨ req.serverURL = "" ∨ req.kubeconfigRef = "" then
      (s, writeError 400 "name, serverUrl, and kubeconfigSecretRef are required")
    else
      let (clusters, inserted) :=
        insertRow answers.postgres s.db.clusters (req.row answers.rowID)
      ({ s with db := { s.db with clusters } },
        match inserted with
        | .error _ => writeError 500 "failed to register cluster"
        | .ok cluster => writeJSON 201 (.cluster cluster))

/-! ## Routes -/

/-- A handler behind `Session.Middleware`; the context of a request has no string value under a
key of the server's own types before it. -/
def withSession (s : State) (e : Exchange) (handler : Context → State × Reply) : State × Reply :=
  match middleware s.sessions s.now e.answers e.request [] with
  | .error reply => (s, reply)
  | .ok ctx => handler ctx

/-- `NewRouter`: what each route calls, and which of them go through the session middleware. -/
def newRouter (s : State) (e : Exchange) : State × Reply :=
  match e.request.route with
  | .preflight => (s, writeJSON 200 (.status ""))
  | .unmatched => (s, writeJSON 404 (.status ""))
  | .health => (s, writeJSON 200 (.status "ok"))
  | .register body => register s e.answers body
  | .login body => login s e.answers body
  | .logout => logout s e.answers e.request
  | .me => withSession s e (me s e.answers)
  | .listApps => withSession s e fun _ => (s, writeJSON 200 .listing)
  | .getApp _ _ => withSession s e fun _ => (s, writeJSON 200 (.status "not implemented"))
  | .syncApp «namespace» name => withSession s e fun _ => syncApp s «namespace» name
  | .appHistory _ _ => withSession s e fun _ => (s, writeJSON 200 .listing)
  | .listProjects => withSession s e fun _ => (s, e.answers.listing)
  | .createProject body => withSession s e fun _ => createProject s e.answers body
  | .getProject _ => withSession s e fun _ => (s, writeJSON 200 (.status "not implemented"))
  | .listClusters => withSession s e fun _ => (s, e.answers.listing)
  | .registerCluster body => withSession s e fun _ => registerCluster s e.answers body
  | .listAudit => withSession s e fun _ => (s, e.answers.listing)

/-! ## Runs -/

/-- What happens to the server. -/
inductive Event
  | exchange (e : Exchange)
  /-- Somebody edits the tables by other means than the API. -/
  | edit (db : Database)

/-- How long an event keeps the clock waiting. -/
def Event.wait : Event → ℕ
  | .exchange e => e.wait
  | .edit _ => 0

/-- The state some milliseconds later. -/
def State.wait (s : State) (milliseconds : ℕ) : State := { s with now := s.now + milliseconds }

/-- One request is served. -/
def State.serve (s : State) (e : Exchange) : State × Reply := newRouter (s.wait e.wait) e

/-- One event. -/
def State.step (s : State) : Event → State
  | .exchange e => (s.serve e).1
  | .edit db => { s with db }

/-- No session has been opened yet. -/
def State.started (now : ℕ) (uuidInput : UuidInput) (db : Database) : State :=
  ⟨now, Expiring.empty, uuidInput, db⟩

/-! ## What a step sends to Redis -/

/-- The command that changes the sessions, if the exchange sends one. -/
def sent (users : Users) (e : Exchange) : Option (Expiring.Command String String) :=
  match e.request.route with
  | .login (some req) =>
    match authenticate users e.answers req.email with
    | .ok user => some (.set (sessionKey e.answers.sessionID.text)
        (sessionData user.id.text user.email) sessionTTL)
    | .error _ => none
  | .logout => e.request.cookie.map fun value => .del (sessionKey value)
  | _ => none

/-- The command that an event gets executed, with the time it is executed at. -/
def State.command (s : State) : Event → Option (Expiring.Timed String String)
  | .exchange e =>
    if e.answers.redis.executed then
      (sent s.db.users e).map fun command => (s.now + e.wait, command)
    else none
  | .edit _ => none

/-- To reason about a route behind the session middleware: it rejects, or its handler runs. -/
theorem withSession_ind {s : State} {e : Exchange} {handler : Context → State × Reply}
    {motive : State × Reply → Prop}
    (rejected : ∀ reply, middleware s.sessions s.now e.answers e.request [] = .error reply →
      motive (s, reply))
    (called : ∀ ctx, middleware s.sessions s.now e.answers e.request [] = .ok ctx →
      motive (handler ctx)) :
    motive (withSession s e handler) := by
  rw [withSession]
  cases passed : middleware s.sessions s.now e.answers e.request [] with
  | error reply => exact rejected reply passed
  | ok ctx => exact called ctx passed

/-! ### What the handlers leave alone -/

section Frames

variable (s : State) (answers : Answers)

theorem register_fst (body : Option RegisterRequest) :
    ∃ users, (register s answers body).1 = { s with db := { s.db with users } } := by
  cases body with
  | none => exact ⟨s.db.users, rfl⟩
  | some req =>
      rw [register]
      split
      · exact ⟨s.db.users, rfl⟩
      · exact ⟨_, rfl⟩

theorem login_fst (body : Option LoginRequest) :
    ∃ sessions, (login s answers body).1 = { s with sessions } := by
  cases body with
  | none => exact ⟨s.sessions, rfl⟩
  | some req =>
      rw [login]
      split
      · exact ⟨s.sessions, rfl⟩
      · exact ⟨_, rfl⟩

theorem me_fst (ctx : Context) : (me s answers ctx).1 = s := by
  rw [me]
  split
  · rfl
  · split <;> rfl

/-- `CreateProject` writes the projects alone. -/
theorem createProject_fst (body : Option ProjectRequest) :
    ∃ projects, (createProject s answers body).1 = { s with db := { s.db with projects } } := by
  cases body with
  | none => exact ⟨s.db.projects, rfl⟩
  | some req =>
      rw [createProject]
      split
      · exact ⟨s.db.projects, rfl⟩
      · exact ⟨_, rfl⟩

/-- `RegisterCluster` writes the clusters alone. -/
theorem registerCluster_fst (body : Option ClusterRequest) :
    ∃ clusters, (registerCluster s answers body).1 = { s with db := { s.db with clusters } } := by
  cases body with
  | none => exact ⟨s.db.clusters, rfl⟩
  | some req =>
      rw [registerCluster]
      split
      · exact ⟨s.db.clusters, rfl⟩
      · exact ⟨_, rfl⟩

end Frames

/-- What one exchange can change: a table of the database, or the sessions by `Login` and
`Logout`. -/
inductive Changed (s : State) (route : Route) : State → Prop
  | nothing : Changed s route s
  | users (users : Users) : Changed s route { s with db := { s.db with users } }
  | projects (body : Option ProjectRequest) (created : route = .createProject body)
    (projects : Projects) : Changed s route { s with db := { s.db with projects } }
  | clusters (body : Option ClusterRequest) (registered : route = .registerCluster body)
    (clusters : Clusters) : Changed s route { s with db := { s.db with clusters } }
  | sessions (opens : route = .logout ∨ ∃ body, route = .login body) (sessions : SessionStore) :
    Changed s route { s with sessions }

theorem Changed.withSession {s : State} {e : Exchange} {route : Route}
    {handler : Context → State × Reply} (changed : ∀ ctx, Changed s route (handler ctx).1) :
    Changed s route (withSession s e handler).1 :=
  withSession_ind (motive := fun result => Changed s route result.1) (fun _ _ => .nothing)
    fun ctx _ => changed ctx

/-- A request changes at most the table of its route. -/
theorem newRouter_changed (s : State) (e : Exchange) :
    Changed s e.request.route (newRouter s e).1 := by
  rw [newRouter]
  cases e.request.route with
  | register body =>
      obtain ⟨users, after⟩ := register_fst s e.answers body
      exact after ▸ .users users
  | login body =>
      obtain ⟨sessions, after⟩ := login_fst s e.answers body
      exact after ▸ .sessions (.inr ⟨body, rfl⟩) sessions
  | logout => exact .sessions (.inl rfl) _
  | me => exact .withSession fun ctx => (me_fst s e.answers ctx).symm ▸ .nothing
  | createProject body =>
      refine .withSession fun _ => ?_
      obtain ⟨projects, after⟩ := createProject_fst s e.answers body
      exact after ▸ .projects body rfl projects
  | registerCluster body =>
      refine .withSession fun _ => ?_
      obtain ⟨clusters, after⟩ := registerCluster_fst s e.answers body
      exact after ▸ .clusters body rfl clusters
  | preflight => exact .nothing
  | unmatched => exact .nothing
  | health => exact .nothing
  | _ => exact .withSession fun _ => .nothing

/-- The clock runs on by the wait of an event. -/
theorem State.step_now (s : State) (event : Event) :
    (s.step event).now = s.now + event.wait := by
  cases event with
  | edit db => rfl
  | exchange e =>
      have changed := newRouter_changed (s.wait e.wait) e
      change (newRouter (s.wait e.wait) e).1.now = _
      generalize (newRouter (s.wait e.wait) e).1 = after at changed
      cases changed <;> rfl

/-- The sessions after a login: the new one is sent when the user is found. -/
theorem login_sessions (s : State) (answers : Answers) (req : LoginRequest) :
    (login s answers (some req)).1.sessions =
      match authenticate s.db.users answers req.email with
      | .ok user => send answers.redis s.sessions s.now
          (.set (sessionKey answers.sessionID.text) (sessionData user.id.text user.email)
            sessionTTL)
      | .error _ => s.sessions := by
  rw [login]
  cases authenticate s.db.users answers req.email <;> rfl

/-- The sessions after a request: what the command sent to Redis makes of them. -/
theorem newRouter_sessions (s : State) (e : Exchange) :
    (newRouter s e).1.sessions =
      match sent s.db.users e with
      | some command => send e.answers.redis s.sessions s.now command
      | none => s.sessions := by
  have changed := newRouter_changed s e
  rw [sent]
  cases route : e.request.route with
  | login body =>
      have own : newRouter s e = login s e.answers body := by rw [newRouter, route]
      rw [own]
      cases body with
      | none => rfl
      | some req =>
          rw [login_sessions]
          dsimp only
          cases authenticate s.db.users e.answers req.email <;> rfl
  | logout =>
      have own : newRouter s e = logout s e.answers e.request := by rw [newRouter, route]
      rw [own, logout]
      cases e.request.cookie <;> rfl
  | _ =>
      rw [route] at changed
      generalize (newRouter s e).1 = after at changed
      cases changed with
      | sessions opens => simp at opens
      | _ => rfl

/-- The sessions change by the executed command. -/
theorem State.step_sessions (s : State) (event : Event) :
    (s.step event).sessions = Expiring.run s.sessions (s.command event).toList := by
  cases event with
  | edit db => rfl
  | exchange e =>
      refine (newRouter_sessions (s.wait e.wait) e).trans ?_
      change (match sent s.db.users e with
        | some command => send e.answers.redis s.sessions (s.now + e.wait) command
        | none => s.sessions) = _
      rw [State.command]
      cases sent s.db.users e with
      | none => simp
      | some command =>
          simp only [send]
          split <;> rfl

end Wardn.Server
