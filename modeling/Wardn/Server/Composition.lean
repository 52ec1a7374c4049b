import Wardn.Server.Authenticity

/-!
# The session middleware and the role middleware

`RequireRole` behind `Session.Middleware` reads the user under a key.  With the key that the
session middleware writes, the two of them let through exactly the entitled requests
(`chainAt_passes_iff`).  The key that `RequireRole` does read has the same text and another type,
so the chain lets nothing through (`chain_rejects`).
-/

namespace Wardn.Server

/-- `Session.Middleware(RequireRole(minRole)(next))`, with the user read under this key; a context
is what `next` is called with. -/
def chainAt (key : ContextKey) (minRole : Role) (uuidInput : UuidInput)
    (projectUsers : ProjectUsers) (sessions : SessionStore) (now : ℕ) (answers : Answers)
    (request : Request) : Except Reply Context :=
  match middleware sessions now answers request [] with
  | .error reply => .error reply
  | .ok ctx => requireRoleAt key minRole uuidInput projectUsers answers request ctx

/-- `Session.Middleware(RequireRole(minRole)(next))`. -/
def chain (minRole : Role) (uuidInput : UuidInput) (projectUsers : ProjectUsers)
    (sessions : SessionStore) (now : ℕ) (answers : Answers) (request : Request) :
    Except Reply Context :=
  match middleware sessions now answers request [] with
  | .error reply => .error reply
  | .ok ctx => requireRole minRole uuidInput projectUsers answers request ctx

theorem chain_eq : chain = chainAt Rbac.userIDKey := rfl

/-- The request carries the token of a live session, names a project, and the session's user has
a row for it whose role is at least `minRole`. -/
def Entitled (minRole : Role) (uuidInput : UuidInput) (projectUsers : ProjectUsers)
    (sessions : SessionStore) (now : ℕ) (request : Request) : Prop :=
  extractToken request ≠ "" ∧ ∃ user project,
    Live sessions now (extractToken request) user ∧ request.projectID ≠ "" ∧
      uuidInput.read request.projectID = some project ∧
        HasRole projectUsers user project minRole

variable {minRole : Role} {uuidInput : UuidInput} {projectUsers : ProjectUsers}
  {sessions : SessionStore} {now : ℕ} {answers : Answers} {request : Request}

theorem value_contextWithUserID (key : ContextKey) (userID : String) :
    (contextWithUserID [] userID).value key = if key = userIDKey then some userID else none :=
  Context.value_withValue [] userIDKey key userID

/-- Reading the key that the session middleware writes, the chain lets the entitled requests
through and no others. -/
theorem chainAt_passes_iff (wellFormed : WellFormed sessions) (declared : 0 < roleLevel minRole) :
    (∃ ctx, chainAt userIDKey minRole uuidInput projectUsers sessions now answers request =
        .ok ctx) ↔
      answers.redis = .answered ∧ answers.postgres = .answered ∧
        Entitled minRole uuidInput projectUsers sessions now request := by
  have identified : ∀ user : Uuid, (contextWithUserID [] user.text).value userIDKey =
      some user.text := fun user => (value_contextWithUserID userIDKey user.text).trans (if_pos rfl)
  constructor
  · rintro ⟨ctx, passed⟩
    rw [chainAt] at passed
    cases session : middleware sessions now answers request [] with
    | error reply =>
        rw [session] at passed
        cases passed
    | ok inner =>
        rw [session] at passed
        obtain ⟨carried, redis, user, live, rfl⟩ := (middleware_eq_ok_iff wellFormed).mp session
        obtain ⟨postgres, named, -, project, read, role⟩ :=
          (requireRoleAt_eq_ok_iff (identified user) declared).mp passed
        exact ⟨redis, postgres, carried, user, project, live, named, read, role⟩
  · rintro ⟨redis, postgres, carried, user, project, live, named, read, role⟩
    have session : middleware sessions now answers request [] =
        .ok (contextWithUserID [] user.text) :=
      (middleware_eq_ok_iff wellFormed).mpr ⟨carried, redis, user, live, rfl⟩
    refine ⟨contextWithUserID [] user.text, ?_⟩
    rw [chainAt, session]
    exact (requireRoleAt_eq_ok_iff (identified user) declared).mpr
      ⟨postgres, named, rfl, project, read, role⟩

/-- Reading any other key, it lets nothing through. -/
theorem chainAt_rejects {key : ContextKey} (other : key ≠ userIDKey) (ctx : Context) :
    chainAt key minRole uuidInput projectUsers sessions now answers request ≠ .ok ctx := by
  intro passed
  rw [chainAt] at passed
  cases session : middleware sessions now answers request [] with
  | error reply =>
      rw [session] at passed
      cases passed
  | ok inner =>
      rw [session] at passed
      obtain ⟨-, userID, -, rfl⟩ := middleware_eq_ok_iff_getSession.mp session
      dsimp only at passed
      rw [requireRoleAt_of_unidentified
        ((value_contextWithUserID key userID).trans (if_neg other))] at passed
      cases passed

/-- The chain never calls `next`. -/
theorem chain_rejects (ctx : Context) :
    chain minRole uuidInput projectUsers sessions now answers request ≠ .ok ctx :=
  chain_eq ▸ chainAt_rejects (by decide) ctx

/-- So the chain and the entitlement agree on exactly the requests that are not entitled. -/
theorem composition_sound_iff (minRole : Role) (uuidInput : UuidInput)
    (projectUsers : ProjectUsers) (sessions : SessionStore) (now : ℕ) (answers : Answers)
    (request : Request) :
    ((∃ ctx, chain minRole uuidInput projectUsers sessions now answers request = .ok ctx) ↔
        Entitled minRole uuidInput projectUsers sessions now request) ↔
      ¬ Entitled minRole uuidInput projectUsers sessions now request := by
  have rejects : ¬ ∃ ctx, chain minRole uuidInput projectUsers sessions now answers request =
      .ok ctx := fun ⟨ctx, passed⟩ => chain_rejects ctx passed
  rw [iff_false_left rejects]

/-- An administrator of a project, with a live session, is rejected at every minimum role. -/
theorem administrator_rejected :
    ¬ ((∃ ctx, chain roleRead .exact
          ⟨[⟨calm.rowID, alice.id, "admin"⟩], List.pairwise_singleton _ _⟩
          ((State.started 0 .exact aliceDb).run [.exchange aliceLogin]).sessions 2 calm
          ⟨.listApps, "Bearer 5e55", none, "c0de"⟩ = .ok ctx) ↔
        Entitled roleRead .exact ⟨[⟨calm.rowID, alice.id, "admin"⟩], List.pairwise_singleton _ _⟩
          ((State.started 0 .exact aliceDb).run [.exchange aliceLogin]).sessions 2
          ⟨.listApps, "Bearer 5e55", none, "c0de"⟩) := by
  intro composed
  have live : Live ((State.started 0 .exact aliceDb).run [.exchange aliceLogin]).sessions 2 "5e55"
      alice.id := ⟨alice.email, by decide +kernel⟩
  obtain ⟨ctx, passed⟩ := composed.mpr ⟨by decide, alice.id, calm.rowID, live, by decide, rfl, _,
    List.mem_singleton_self _, rfl, rfl, by decide, by decide⟩
  exact chain_rejects ctx passed

end Wardn.Server
