import Wardn.Server.Authenticity

/-!
# Who may write

The documentation names a role for `POST /clusters`, `POST /projects` and the sync of an
application.  The routes sit behind the session middleware alone, so a write goes through for
whoever is logged in: along a run every accepted write comes from a holder of its role exactly
when nobody without the role sends a proper request for one (`privileged_writes_iff`).

Nothing in the code says to which project an application belongs; `projectOf` stands for that.
-/

namespace Wardn.Server

open Runs

/-- A write that the documentation names a role for. -/
inductive PrivilegedWrite
  | cluster
  | project
  | sync («namespace» name : String)

/-- The user has the account role `admin`. -/
def GlobalAdmin (db : Database) (user : Uuid) : Prop :=
  ∃ account ∈ db.users, account.id = user ∧ account.role = "admin"

section Holders

variable (projectOf : String → String → Option Uuid)

/-- The user holds the role of the write.  A cluster belongs to no project, so `admin` in one is
enough there; a project is made by a global administrator; `sync` is asked for in the project of
the application. -/
def Holds (db : Database) (user : Uuid) : PrivilegedWrite → Prop
  | .cluster => GlobalAdmin db user ∨ ∃ project, HasRole db.projectUsers user project roleAdmin
  | .project => GlobalAdmin db user
  | .sync «namespace» name => GlobalAdmin db user ∨
    ∃ project, projectOf «namespace» name = some project ∧
      HasRole db.projectUsers user project roleSync

/-- The request comes from a user with the role of the write. -/
def FromHolder (s : State) (e : Exchange) (write : PrivilegedWrite) : Prop :=
  ∃ user, Live s.sessions (s.now + e.wait) (extractToken e.request) user ∧
    Holds projectOf s.db user write

/-- What an exchange gets accepted, it gets for a user with the documented role. -/
structure Privileged (s : State) (e : Exchange) : Prop where
  cluster : s.db.clusters.Adds (s.serve e).1.db.clusters → FromHolder projectOf s e .cluster
  project : s.db.projects.Adds (s.serve e).1.db.projects → FromHolder projectOf s e .project
  sync : ∀ «namespace» name, e.request.route = .syncApp «namespace» name →
    (s.serve e).2.status = 202 → FromHolder projectOf s e (.sync «namespace» name)

end Holders

/-! ## What gets through -/

/-- The fields that `RegisterCluster` requires are there. -/
def ClusterRequest.Complete (req : ClusterRequest) : Prop :=
  req.name ≠ "" ∧ req.serverURL ≠ "" ∧ req.kubeconfigRef ≠ ""

section Handlers

variable (s : State) (answers : Answers)

/-- When `RegisterCluster` adds a row. -/
theorem registerCluster_adds_iff (body : Option ClusterRequest) :
    s.db.clusters.Adds (registerCluster s answers body).1.db.clusters ↔
      ∃ req, body = some req ∧ req.Complete ∧ answers.postgres.executed = true ∧
        s.db.clusters.Admits (req.row answers.rowID) := by
  cases body with
  | none => simp [registerCluster]
  | some req =>
      have incomplete : (req.name = "" ∨ req.serverURL = "" ∨ req.kubeconfigRef = "") ↔
          ¬ req.Complete := by
        simp only [ClusterRequest.Complete, ne_eq]
        tauto
      rw [registerCluster]
      split
      next missing => simp [incomplete.mp missing]
      next filled =>
        have complete : req.Complete := not_not.mp (mt incomplete.mpr filled)
        have reflexive : (req.row answers.rowID).id = (req.row answers.rowID).id ∨
          (req.row answers.rowID).name = (req.row answers.rowID).name := .inl rfl
        simpa [complete] using adds_insertRow_iff answers.postgres s.db.clusters reflexive

/-- When `CreateProject` adds a row. -/
theorem createProject_adds_iff (body : Option ProjectRequest) :
    s.db.projects.Adds (createProject s answers body).1.db.projects ↔
      ∃ req, body = some req ∧ req.name ≠ "" ∧ answers.postgres.executed = true ∧
        s.db.projects.Admits (req.row answers.rowID) := by
  cases body with
  | none => simp [createProject]
  | some req =>
      rw [createProject]
      split
      next missing => simp [missing]
      next named =>
        have reflexive : (req.row answers.rowID).id = (req.row answers.rowID).id ∨
          (req.row answers.rowID).name = (req.row answers.rowID).name := .inl rfl
        simpa [named] using adds_insertRow_iff answers.postgres s.db.projects reflexive

end Handlers

theorem withSession_iff {s : State} {e : Exchange} {handler : State × Reply}
    {P : State × Reply → Prop} (rejected : ∀ reply, ¬ P (s, reply)) :
    P (withSession s e fun _ => handler) ↔
      (∃ ctx, middleware s.sessions s.now e.answers e.request [] = .ok ctx) ∧ P handler := by
  rw [withSession]
  cases middleware s.sessions s.now e.answers e.request [] with
  | error reply => simp [rejected reply]
  | ok ctx => simp

/-- A request for a write that nothing but a role could refuse. -/
inductive Asks (s : State) (e : Exchange) : PrivilegedWrite → Prop
  | cluster (req : ClusterRequest) (route : e.request.route = .registerCluster (some req))
    (complete : req.Complete) (executed : e.answers.postgres.executed = true)
    (room : s.db.clusters.Admits (req.row e.answers.rowID)) : Asks s e .cluster
  | project (req : ProjectRequest) (route : e.request.route = .createProject (some req))
    (named : req.name ≠ "") (executed : e.answers.postgres.executed = true)
    (room : s.db.projects.Admits (req.row e.answers.rowID)) : Asks s e .project
  | sync («namespace» name : String) (route : e.request.route = .syncApp «namespace» name) :
    Asks s e (.sync «namespace» name)

/-- When a request adds a cluster. -/
theorem clusters_adds_iff (s : State) (e : Exchange) :
    s.db.clusters.Adds (newRouter s e).1.db.clusters ↔
      (∃ ctx, middleware s.sessions s.now e.answers e.request [] = .ok ctx) ∧
        ∃ req, e.request.route = .registerCluster (some req) ∧ req.Complete ∧
          e.answers.postgres.executed = true ∧ s.db.clusters.Admits (req.row e.answers.rowID) := by
  have changed := newRouter_changed s e
  cases route : e.request.route with
  | registerCluster body =>
      have own : newRouter s e = withSession s e fun _ => registerCluster s e.answers body := by
        rw [newRouter, route]
      rw [own, withSession_iff (P := fun result => s.db.clusters.Adds result.1.db.clusters)
        (fun _ => Table.not_adds_self _), registerCluster_adds_iff]
      simp
  | _ =>
      rw [route] at changed
      generalize (newRouter s e).1 = after at changed
      cases changed with
      | clusters body registered => cases registered
      | _ => simp

/-- When a request adds a project. -/
theorem projects_adds_iff (s : State) (e : Exchange) :
    s.db.projects.Adds (newRouter s e).1.db.projects ↔
      (∃ ctx, middleware s.sessions s.now e.answers e.request [] = .ok ctx) ∧
        ∃ req, e.request.route = .createProject (some req) ∧ req.name ≠ "" ∧
          e.answers.postgres.executed = true ∧ s.db.projects.Admits (req.row e.answers.rowID) := by
  have changed := newRouter_changed s e
  cases route : e.request.route with
  | createProject body =>
      have own : newRouter s e = withSession s e fun _ => createProject s e.answers body := by
        rw [newRouter, route]
      rw [own, withSession_iff (P := fun result => s.db.projects.Adds result.1.db.projects)
        (fun _ => Table.not_adds_self _), createProject_adds_iff]
      simp
  | _ =>
      rw [route] at changed
      generalize (newRouter s e).1 = after at changed
      cases changed with
      | projects body created => cases created
      | _ => simp

/-- The session middleware rejects with 401 or 500. -/
theorem middleware_status {sessions : SessionStore} {now : ℕ} {answers : Answers}
    {request : Request} {ctx : Context} {reply : Reply}
    (rejected : middleware sessions now answers request ctx = .error reply) :
    reply.status = 401 ∨ reply.status = 500 := by
  rw [middleware] at rejected
  split at rejected
  · cases rejected
    exact .inl rfl
  · split at rejected
    · cases rejected
      exact .inr rfl
    · cases rejected
      exact .inl rfl
    · cases rejected

/-- A sync is accepted exactly when the session middleware passes it. -/
theorem sync_accepted_iff {s : State} {e : Exchange} {«namespace» name : String}
    (route : e.request.route = .syncApp «namespace» name) :
    (newRouter s e).2.status = 202 ↔
      ∃ ctx, middleware s.sessions s.now e.answers e.request [] = .ok ctx := by
  rw [newRouter, route]
  dsimp only
  rw [withSession]
  cases session : middleware s.sessions s.now e.answers e.request [] with
  | error reply =>
      rcases middleware_status session with refused | refused
      · simp [refused]
      · simp [refused]
  | ok ctx => simp [syncApp, writeJSON]

/-! ## Along a run -/

section Runs

variable (projectOf : String → String → Option Uuid)

/-- Somebody who is logged in asks for a write without holding its role. -/
structure Intrudes (s : State) (e : Exchange) (write : PrivilegedWrite) (user : Uuid) : Prop where
  asks : Asks s e write
  carried : extractToken e.request ≠ ""
  answered : e.answers.redis = .answered
  live : Live s.sessions (s.now + e.wait) (extractToken e.request) user
  unentitled : ¬ Holds projectOf s.db user write

/-- Nobody without the role asks for a write. -/
def Unintruded (s : State) (e : Exchange) : Prop :=
  ∀ write user, ¬ Intrudes projectOf s e write user

/-- The session middleware passes the requests with a live token while Redis answers. -/
theorem exists_middleware_iff {s : State} (wellFormed : WellFormed s.sessions) (e : Exchange) :
    (∃ ctx, middleware (s.wait e.wait).sessions (s.wait e.wait).now e.answers e.request [] =
        .ok ctx) ↔
      extractToken e.request ≠ "" ∧ e.answers.redis = .answered ∧
        ∃ user, Live s.sessions (s.now + e.wait) (extractToken e.request) user := by
  constructor
  · rintro ⟨ctx, passed⟩
    obtain ⟨carried, answered, user, live, -⟩ := (middleware_eq_ok_iff wellFormed).mp passed
    exact ⟨carried, answered, user, live⟩
  · rintro ⟨carried, answered, user, live⟩
    exact ⟨_, (middleware_eq_ok_iff wellFormed).mpr ⟨carried, answered, user, live, rfl⟩⟩

/-- An exchange gets no write accepted that its user may not make exactly when its user may make
the one it asks for. -/
theorem privileged_iff_unintruded {s : State} (wellFormed : WellFormed s.sessions) (e : Exchange) :
    Privileged projectOf s e ↔ Unintruded projectOf s e := by
  have session := exists_middleware_iff wellFormed e
  constructor
  · intro privileged write user intrudes
    obtain ⟨asks, carried, answered, live, unentitled⟩ := intrudes
    have passed := session.mpr ⟨carried, answered, user, live⟩
    refine unentitled ?_
    have own : FromHolder projectOf s e write → Holds projectOf s.db user write := by
      rintro ⟨user', live', holds⟩
      rwa [Live.id_unique live live']
    cases asks with
    | cluster req route complete executed room =>
        exact own (privileged.cluster ((clusters_adds_iff (s.wait e.wait) e).mpr
          ⟨passed, req, route, complete, executed, room⟩))
    | project req route named executed room =>
        exact own (privileged.project ((projects_adds_iff (s.wait e.wait) e).mpr
          ⟨passed, req, route, named, executed, room⟩))
    | sync «namespace» name route =>
        exact own (privileged.sync «namespace» name route ((sync_accepted_iff route).mpr passed))
  · intro unintruded
    have holder : ∀ write, Asks s e write → (∃ ctx, middleware (s.wait e.wait).sessions
        (s.wait e.wait).now e.answers e.request [] = .ok ctx) → FromHolder projectOf s e write := by
      intro write asks passed
      obtain ⟨carried, answered, user, live⟩ := session.mp passed
      exact ⟨user, live, not_not.mp fun unentitled =>
        unintruded write user ⟨asks, carried, answered, live, unentitled⟩⟩
    constructor
    · intro adds
      obtain ⟨passed, req, route, complete, executed, room⟩ :=
        (clusters_adds_iff (s.wait e.wait) e).mp adds
      exact holder .cluster (.cluster req route complete executed room) passed
    · intro adds
      obtain ⟨passed, req, route, named, executed, room⟩ :=
        (projects_adds_iff (s.wait e.wait) e).mp adds
      exact holder .project (.project req route named executed room) passed
    · intro «namespace» name route accepted
      exact holder _ (.sync «namespace» name route) ((sync_accepted_iff route).mp accepted)

/-- Of the events of a run, the exchanges. -/
def OnExchange (P : State → Exchange → Prop) (s : State) : Event → Prop
  | .exchange e => P s e
  | .edit _ => True

/-- **Who may write.**  Along a run the accepted writes come from holders of their roles exactly as
long as nobody without the role asks for one. -/
theorem privileged_writes_iff (now : ℕ) (uuidInput : UuidInput) (db : Database)
    (events : List Event) :
    Along State.step (OnExchange (Privileged projectOf)) (State.started now uuidInput db) events ↔
      Along State.step (OnExchange (Unintruded projectOf)) (State.started now uuidInput db)
        events := by
  refine along_congr (I := fun s => WellFormed s.sessions) (fun s event wellFormed => ?_)
    (fun s event wellFormed _ => wellFormed_step s event wellFormed) wellFormed_empty events
  cases event with
  | edit db => exact Iff.rfl
  | exchange e => exact privileged_iff_unintruded projectOf wellFormed e

end Runs

/-- Somebody registers, logs in and registers a cluster. -/
def newcomer : List Event :=
  [.exchange (bearer (.register (some ⟨alice.email, alice.name, "secret"⟩))),
    .exchange aliceLogin,
    .exchange (bearer (.registerCluster (some ⟨"prod", "https://k8s", "kubeconfig", ""⟩)))]

/-- Whichever projects the applications belong to. -/
theorem newcomer_not_privileged :
    ¬ ∃ projectOf, Along State.step (OnExchange (Privileged projectOf))
      (State.started 0 .exact ⟨.empty, .empty, .empty, .empty⟩) newcomer := by
  rintro ⟨projectOf, -, -, privileged, -⟩
  have added : ClusterRequest.row ⟨"prod", "https://k8s", "kubeconfig", ""⟩ calm.rowID ∈
      ((State.started 0 .exact ⟨.empty, .empty, .empty, .empty⟩).run
        newcomer).db.clusters.rows := by
    decide +kernel
  obtain ⟨user, -, holds⟩ := privileged.cluster ⟨_, added, Table.not_mem_empty _⟩
  rcases holds with ⟨account, member, -, admin⟩ | ⟨project, row, member, -⟩
  · have plain : ∀ account ∈ ((State.started 0 .exact ⟨.empty, .empty, .empty, .empty⟩).run
        (newcomer.take 2)).db.users.rows, account.role ≠ "admin" := by decide +kernel
    exact plain account member admin
  · exact Table.not_mem_empty row member

end Wardn.Server
