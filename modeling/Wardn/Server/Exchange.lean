import Wardn.Lib.Strings
import Wardn.Lib.Expiring
import Wardn.Lib.Table

/-!
# Requests, answers and tables of the server

An `Exchange` is a request with what the server meets while it answers it: the time that has
passed, and what Redis, Postgres, bcrypt and the UUID generators answer to its calls.  Every
handler makes at most one call of each kind.  The tables are those of the schema, with their
unique constraints; UUID columns hold a `Uuid`, and `UuidInput` is how Postgres reads a text
parameter as one.
-/

namespace Wardn.Server

/-! ## UUIDs -/

/-- A hexadecimal digit in lower case, or a hyphen. -/
def isUuidChar (c : Char) : Bool := c.isDigit || ('a' ≤ c && c ≤ 'f') || c == '-'

/-- A UUID in the text form that `uuid.New().String()` and Postgres print. -/
structure Uuid where
  text : String
  nonempty : text ≠ ""
  form : text.toList.all isUuidChar = true
  deriving DecidableEq

theorem Uuid.ext_text {id id' : Uuid} (same : id.text = id'.text) : id = id' := by
  cases id
  cases id'
  cases same
  rfl

/-- No UUID contains a quote. -/
theorem Uuid.quote_not_mem (id : Uuid) : '"' ∉ id.text.toList := by
  intro member
  have digit := List.all_eq_true.mp id.form '"' member
  have other : isUuidChar '"' = false := by decide
  rw [other] at digit
  cases digit

/-- How Postgres reads a text as a UUID; it reads what it prints, and may accept other
spellings. -/
structure UuidInput where
  read : String → Option Uuid
  read_text : ∀ id : Uuid, read id.text = some id

/-- The reader that accepts the printed form only. -/
def UuidInput.exact : UuidInput where
  read text :=
    if form : text ≠ "" ∧ text.toList.all isUuidChar = true then some ⟨text, form.1, form.2⟩
    else none
  read_text id := dif_pos ⟨id.nonempty, id.form⟩

/-! ## Tables -/

/-- A row of `users`. -/
structure User where
  id : Uuid
  email : String
  name : String
  passwordHash : String
  role : String
  deriving DecidableEq

/-- A row of `projects`. -/
structure Project where
  id : Uuid
  name : String
  description : String
  deriving DecidableEq

/-- A row of `project_users`: the role of a user in a project. -/
structure ProjectUser where
  project : Uuid
  user : Uuid
  role : String
  deriving DecidableEq

/-- A row of `clusters`. -/
structure Cluster where
  id : Uuid
  name : String
  serverURL : String
  kubeconfigRef : String
  «namespace» : String
  deriving DecidableEq

/-- `users`, with its primary key and its unique email. -/
abbrev Users := Table User fun u v => u.id = v.id ∨ u.email = v.email

/-- `projects`, with its primary key and its unique name. -/
abbrev Projects := Table Project fun p q => p.id = q.id ∨ p.name = q.name

/-- `project_users`, one role for a user and a project. -/
abbrev ProjectUsers := Table ProjectUser fun r s => r.project = s.project ∧ r.user = s.user

/-- `clusters`, with its primary key and its unique name. -/
abbrev Clusters := Table Cluster fun c d => c.id = d.id ∨ c.name = d.name

/-- The tables that the modelled handlers read and write. -/
structure Database where
  users : Users
  projects : Projects
  projectUsers : ProjectUsers
  clusters : Clusters

/-! ## Requests -/

/-- `registerRequest` of `handler_auth.go`. -/
structure RegisterRequest where
  email : String
  name : String
  password : String

/-- `loginRequest` of `handler_auth.go`. -/
structure LoginRequest where
  email : String
  password : String

/-- `projectRequest` of `handler_projects.go`. -/
structure ProjectRequest where
  name : String
  description : String

/-- `clusterRequest` of `handler_clusters.go`. -/
structure ClusterRequest where
  name : String
  serverURL : String
  kubeconfigRef : String
  «namespace» : String

/-- The method and path of a request, as the router matches them, and the decoded body: `none`
when it is no JSON of the handler's type. -/
inductive Route
  /-- `OPTIONS` on any path. -/
  | preflight
  /-- No registered route has this method and path. -/
  | unmatched
  | health
  | register (body : Option RegisterRequest)
  | login (body : Option LoginRequest)
  | logout
  | me
  | listApps
  | getApp («namespace» name : String)
  | syncApp («namespace» name : String)
  | appHistory («namespace» name : String)
  | listProjects
  | createProject (body : Option ProjectRequest)
  | getProject (id : String)
  | listClusters
  | registerCluster (body : Option ClusterRequest)
  | listAudit

/-- A request: its route, and where a session token and a project can be given. -/
structure Request where
  route : Route
  /-- The `Authorization` header, empty when there is none. -/
  authorization : String
  /-- The `wardn_session` cookie. -/
  cookie : Option String
  /-- The `project_id` of the query, empty when there is none. -/
  projectID : String

/-! ## Replies -/

/-- The body of a reply. -/
inductive Body
  | error (message : String)
  | user (user : User)
  | session (token : Uuid) (user : User)
  | status (text : String)
  | project (project : Project)
  | cluster (cluster : Cluster)
  | sync («namespace» name : String)
  /-- A list of rows; what they hold is not modelled. -/
  | listing

/-- A status code and a body. -/
structure Reply where
  status : ℕ
  body : Body

/-- `writeJSON`. -/
def writeJSON (status : ℕ) (body : Body) : Reply := ⟨status, body⟩

/-- `writeError`: the body is `{"error": message}`. -/
def writeError (status : ℕ) (message : String) : Reply := writeJSON status (.error message)

/-! ## What the outside answers -/

/-- What becomes of a command: it is executed and answered, or an error is reported, after it has
been executed or without. -/
inductive Delivery
  | answered
  | failed (error : String) (executed : Bool)

/-- Whether the store has done what it was asked for. -/
def Delivery.executed : Delivery → Bool
  | .answered => true
  | .failed _ executed => executed

/-- What the stores and the generators answer during one request. -/
structure Answers where
  redis : Delivery
  postgres : Delivery
  /-- `bcrypt.GenerateFromPassword`. -/
  passwordHash : Except String String
  /-- `bcrypt.CompareHashAndPassword` returned no error. -/
  passwordMatches : Bool
  /-- `uuid.New()`. -/
  sessionID : Uuid
  /-- `gen_random_uuid()`. -/
  rowID : Uuid
  /-- What a handler that lists the rows of a query replies. -/
  listing : Reply

/-- A request, the time since the last one, and the answers it meets. -/
structure Exchange where
  /-- The milliseconds since the last event. -/
  wait : ℕ
  request : Request
  answers : Answers

/-! ## Contexts -/

/-- A key of a context: its dynamic type and its value. -/
structure ContextKey where
  type : String
  value : String
  deriving DecidableEq

/-- The string values of a context, innermost first. -/
abbrev Context := List (ContextKey × String)

/-- `context.WithValue`. -/
def Context.withValue (ctx : Context) (key : ContextKey) (value : String) : Context :=
  (key, value) :: ctx

/-- `ctx.Value`. -/
def Context.value (ctx : Context) (key : ContextKey) : Option String := ctx.lookup key

/-- The last value put under a key is the one found there. -/
theorem Context.value_withValue (ctx : Context) (key key' : ContextKey) (value : String) :
    (ctx.withValue key value).value key' = if key' = key then some value else ctx.value key' := by
  rw [Context.value, Context.withValue, List.lookup_cons]
  by_cases same : key' = key
  · simp [same]
  · have differ : (key' == key) = false := by simpa using same
    rw [differ, if_neg same]
    rfl

end Wardn.Server
