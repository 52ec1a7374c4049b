import Wardn.Server.Session

/-!
# Roles

`RequireRole` reads the user from the context, under the key of its own package, and compares the
role of the row of `project_users` with a minimum.  The check is written with the key as a
parameter, so that what the key decides can be said (`requireRoleAt_eq_ok_iff`).
-/

namespace Wardn.Server

/-- `Role`. -/
abbrev Role := String

/-- `RoleRead`. -/
def roleRead : Role := "read"

/-- `RoleSync`. -/
def roleSync : Role := "sync"

/-- `RoleAdmin`. -/
def roleAdmin : Role := "admin"

/-- `roleLevel`; a role that the map lacks has level 0. -/
def roleLevel (role : Role) : ℕ :=
  if role = roleRead then 1
  else if role = roleSync then 2
  else if role = roleAdmin then 3
  else 0

/-- `getUserRole`: the row of the user and the project. -/
def getUserRole (uuidInput : UuidInput) (projectUsers : ProjectUsers) (answers : Answers)
    (userID projectID : String) : Except String Role :=
  match answers.postgres with
  | .failed error _ => .error ("get user role: " ++ error)
  | .answered =>
    match uuidInput.read userID, uuidInput.read projectID with
    | some user, some project =>
      match projectUsers.rows.find? fun row => row.user = user ∧ row.project = project with
      | some row => .ok row.role
      | none => .error "get user role: no rows in result set"
    | _, _ => .error "get user role: ERROR: invalid input syntax for type uuid (SQLSTATE 22P02)"

/-- The key of package `rbac`. -/
def Rbac.userIDKey : ContextKey := ⟨"rbac.contextKey", "user_id"⟩

/-- `RequireRole`, reading the user under this key. -/
def requireRoleAt (key : ContextKey) (minRole : Role) (uuidInput : UuidInput)
    (projectUsers : ProjectUsers) (answers : Answers) (request : Request) (ctx : Context) :
    Except Reply Context :=
  let userID := (ctx.value key).getD ""
  if userID = "" then .error (writeError 401 "unauthorized")
  else
    let projectID := request.projectID
    if projectID = "" then .error (writeError 400 "project_id required")
    else
      match getUserRole uuidInput projectUsers answers userID projectID with
      | .error _ => .error (writeError 403 "forbidden")
      | .ok role =>
        if roleLevel role < roleLevel minRole then
          .error (writeError 403 "insufficient permissions")
        else .ok ctx

/-- `RequireRole`, with the context key of its own package. -/
def requireRole : Role → UuidInput → ProjectUsers → Answers → Request → Context →
    Except Reply Context :=
  requireRoleAt Rbac.userIDKey

/-- The user has a row for the project with a declared role of at least this one. -/
def HasRole (projectUsers : ProjectUsers) (user project : Uuid) (minRole : Role) : Prop :=
  ∃ row ∈ projectUsers, row.user = user ∧ row.project = project ∧ 0 < roleLevel row.role ∧
    roleLevel minRole ≤ roleLevel row.role

/-- A role is found exactly when Postgres answers and has the row. -/
theorem getUserRole_eq_ok_iff {uuidInput : UuidInput} {projectUsers : ProjectUsers}
    {answers : Answers} {user : Uuid} {projectID : String} {role : Role} :
    getUserRole uuidInput projectUsers answers user.text projectID = .ok role ↔
      answers.postgres = .answered ∧ ∃ project, uuidInput.read projectID = some project ∧
        ∃ row ∈ projectUsers, row.user = user ∧ row.project = project ∧ row.role = role := by
  rw [getUserRole, uuidInput.read_text]
  cases answers.postgres with
  | failed error executed => simp
  | answered =>
      cases uuidInput.read projectID with
      | none => simp
      | some project =>
          have search : ∀ row, projectUsers.rows.find?
              (fun row => row.user = user ∧ row.project = project) = some row ↔
              row ∈ projectUsers ∧ row.user = user ∧ row.project = project := by
            intro row
            rw [projectUsers.find?_eq_some_iff fun row other mine theirs => by
              simp only [decide_eq_true_eq] at mine theirs
              exact ⟨mine.2.trans theirs.2.symm, mine.1.trans theirs.1.symm⟩]
            simp
          simp only [true_and, Option.some.injEq, exists_eq_left']
          cases found : projectUsers.rows.find?
              (fun row => row.user = user ∧ row.project = project) with
          | none =>
              simp only [reduceCtorEq, false_iff]
              rintro ⟨row, member, own, here, -⟩
              have hit := (search row).mpr ⟨member, own, here⟩
              rw [found] at hit
              cases hit
          | some row =>
              simp only [Except.ok.injEq]
              refine ⟨fun same => ?_, fun listed => ?_⟩
              · obtain ⟨member, own, here⟩ := (search row).mp found
                exact ⟨row, member, own, here, same⟩
              · obtain ⟨row', member, own, here, rfl⟩ := listed
                have hit := (search row').mpr ⟨member, own, here⟩
                rw [found, Option.some_inj] at hit
                rw [hit]

/-- An identified request passes exactly when it names a project in which the user's role suffices.
-/
theorem requireRoleAt_eq_ok_iff_getUserRole {key : ContextKey} {minRole : Role}
    {uuidInput : UuidInput} {projectUsers : ProjectUsers} {answers : Answers} {request : Request}
    {ctx ctx' : Context} {userID : String} (identified : ctx.value key = some userID)
    (nonempty : userID ≠ "") :
    requireRoleAt key minRole uuidInput projectUsers answers request ctx = .ok ctx' ↔
      request.projectID ≠ "" ∧ ctx' = ctx ∧
        ∃ role, getUserRole uuidInput projectUsers answers userID request.projectID = .ok role ∧
          roleLevel minRole ≤ roleLevel role := by
  rw [requireRoleAt, identified]
  dsimp only [Option.getD_some]
  rw [if_neg nonempty]
  by_cases named : request.projectID = ""
  · simp [named]
  · rw [if_neg named]
    cases getUserRole uuidInput projectUsers answers userID request.projectID with
    | error text => simp
    | ok role =>
        by_cases low : roleLevel role < roleLevel minRole
        · simp [low]
        · simp [low, named, Nat.le_of_not_lt low, eq_comm]

/-- A request is let through exactly when its user has the role in the project it names. -/
theorem requireRoleAt_eq_ok_iff {key : ContextKey} {minRole : Role} {uuidInput : UuidInput}
    {projectUsers : ProjectUsers} {answers : Answers} {request : Request} {ctx ctx' : Context}
    {user : Uuid} (identified : ctx.value key = some user.text) (declared : 0 < roleLevel minRole) :
    requireRoleAt key minRole uuidInput projectUsers answers request ctx = .ok ctx' ↔
      answers.postgres = .answered ∧ request.projectID ≠ "" ∧ ctx' = ctx ∧
        ∃ project, uuidInput.read request.projectID = some project ∧
          HasRole projectUsers user project minRole := by
  rw [requireRoleAt_eq_ok_iff_getUserRole identified user.nonempty]
  simp only [getUserRole_eq_ok_iff]
  constructor
  · rintro ⟨named, same, role, ⟨answered, project, read, row, member, own, here, rfl⟩, enough⟩
    exact ⟨answered, named, same, project, read, row, member, own, here, by omega, enough⟩
  · rintro ⟨answered, named, same, project, read, row, member, own, here, -, enough⟩
    exact ⟨named, same, row.role, ⟨answered, project, read, row, member, own, here, rfl⟩, enough⟩

/-- Without a value under the key, nothing is let through. -/
theorem requireRoleAt_of_unidentified {key : ContextKey} {ctx : Context}
    (unidentified : ctx.value key = none) (minRole : Role) (uuidInput : UuidInput)
    (projectUsers : ProjectUsers) (answers : Answers) (request : Request) :
    requireRoleAt key minRole uuidInput projectUsers answers request ctx =
      .error (writeError 401 "unauthorized") := by
  rw [requireRoleAt, unidentified]
  rfl

end Wardn.Server
