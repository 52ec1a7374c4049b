import Wardn.Server.Accounts

/-!
# Clusters and projects

Through the API a row of `clusters` or `projects` comes from a `RegisterCluster` or `CreateProject`
and stays as it is.  `inventory_iff`: the rows are those that were there and those that a logged-in
account has put there, no two of one name.
-/

namespace Wardn.Server

open Runs

/-- The clusters after `RegisterCluster`. -/
theorem mem_registerCluster_iff (s : State) (answers : Answers) (body : Option ClusterRequest)
    (cluster : Cluster) :
    cluster ∈ (registerCluster s answers body).1.db.clusters ↔ cluster ∈ s.db.clusters ∨
      ∃ req, body = some req ∧ req.Complete ∧ answers.postgres.executed = true ∧
        cluster = req.row answers.rowID ∧ s.db.clusters.Admits cluster := by
  cases body with
  | none => simp [registerCluster]
  | some req =>
      rw [registerCluster]
      by_cases missing : req.name = "" ∨ req.serverURL = "" ∨ req.kubeconfigRef = ""
      · have incomplete : ¬ req.Complete := by
          simpa only [ClusterRequest.Complete, not_and_or, not_not] using missing
        rw [if_pos missing]
        simp [incomplete]
      · have complete : req.Complete := by
          simpa only [ClusterRequest.Complete, not_or] using missing
        rw [if_neg missing]
        refine (mem_insertRow_iff answers.postgres s.db.clusters (req.row answers.rowID)
          cluster).trans (or_congr_right ⟨?_, ?_⟩)
        · rintro ⟨executed, rfl, room⟩
          exact ⟨req, rfl, complete, executed, rfl, room⟩
        · rintro ⟨req, ⟨⟩, -, executed, rfl, room⟩
          exact ⟨executed, rfl, room⟩

/-- The projects after `CreateProject`. -/
theorem mem_createProject_iff (s : State) (answers : Answers) (body : Option ProjectRequest)
    (project : Project) :
    project ∈ (createProject s answers body).1.db.projects ↔ project ∈ s.db.projects ∨
      ∃ req, body = some req ∧ req.name ≠ "" ∧ answers.postgres.executed = true ∧
        project = req.row answers.rowID ∧ s.db.projects.Admits project := by
  cases body with
  | none => simp [createProject]
  | some req =>
      rw [createProject]
      by_cases missing : req.name = ""
      · rw [if_pos missing]
        simp [missing]
      · rw [if_neg missing]
        refine (mem_insertRow_iff answers.postgres s.db.projects (req.row answers.rowID)
          project).trans (or_congr_right ⟨?_, ?_⟩)
        · rintro ⟨executed, rfl, room⟩
          exact ⟨req, rfl, missing, executed, rfl, room⟩
        · rintro ⟨req, ⟨⟩, -, executed, rfl, room⟩
          exact ⟨executed, rfl, room⟩

/-! ## One exchange -/

/-- `Session.Middleware` passes the request on. -/
def PassesOn (s : State) (e : Exchange) : Prop :=
  ∃ ctx, middleware s.sessions (s.now + e.wait) e.answers e.request [] = .ok ctx

/-- What only a handler behind the session adds to a table, the exchange adds when it is passed on.
-/
theorem mem_withSession_iff {ρ : Type*} {Clash : ρ → ρ → Prop} (part : State → Table ρ Clash)
    (s : State) (e : Exchange) {handler : State × Reply} {row : ρ} {Added : Prop}
    (kept : part (s.wait e.wait) = part s)
    (handled : row ∈ part handler.1 ↔ row ∈ part s ∨ Added) :
    row ∈ part (withSession (s.wait e.wait) e fun _ => handler).1 ↔
      row ∈ part s ∨ (PassesOn s e ∧ Added) := by
  have passes : PassesOn s e ↔ ∃ ctx, middleware (s.wait e.wait).sessions (s.wait e.wait).now
    e.answers e.request [] = .ok ctx := Iff.rfl
  rw [withSession, passes]
  cases middleware (s.wait e.wait).sessions (s.wait e.wait).now e.answers e.request [] with
  | error reply => simp [kept]
  | ok ctx => simp [handled]

/-- A request adds a cluster exactly when it gets past the middleware with a complete body. -/
theorem mem_clusters_serve_iff (s : State) (e : Exchange) (cluster : Cluster) :
    cluster ∈ (s.serve e).1.db.clusters ↔ cluster ∈ s.db.clusters ∨ (PassesOn s e ∧
      ∃ req, e.request.route = .registerCluster (some req) ∧ req.Complete ∧
        e.answers.postgres.executed = true ∧ cluster = req.row e.answers.rowID ∧
          s.db.clusters.Admits cluster) := by
  have changed := newRouter_changed (s.wait e.wait) e
  rw [State.serve]
  cases route : e.request.route with
  | registerCluster body =>
      have own : newRouter (s.wait e.wait) e = withSession (s.wait e.wait) e fun _ =>
          registerCluster (s.wait e.wait) e.answers body := by
        rw [newRouter, route]
      rw [own]
      refine (mem_withSession_iff (fun s => s.db.clusters) s e rfl
        (mem_registerCluster_iff (s.wait e.wait) e.answers body cluster)).trans ?_
      simp only [Route.registerCluster.injEq]
      exact Iff.rfl
  | _ =>
      rw [route] at changed
      generalize (newRouter (s.wait e.wait) e).1 = after at changed
      cases changed with
      | clusters body registered => cases registered
      | _ => simp [State.wait]

/-- A request adds a project exactly when it gets past the middleware with a name. -/
theorem mem_projects_serve_iff (s : State) (e : Exchange) (project : Project) :
    project ∈ (s.serve e).1.db.projects ↔ project ∈ s.db.projects ∨ (PassesOn s e ∧
      ∃ req, e.request.route = .createProject (some req) ∧ req.name ≠ "" ∧
        e.answers.postgres.executed = true ∧ project = req.row e.answers.rowID ∧
          s.db.projects.Admits project) := by
  have changed := newRouter_changed (s.wait e.wait) e
  rw [State.serve]
  cases route : e.request.route with
  | createProject body =>
      have own : newRouter (s.wait e.wait) e = withSession (s.wait e.wait) e fun _ =>
          createProject (s.wait e.wait) e.answers body := by
        rw [newRouter, route]
      rw [own]
      refine (mem_withSession_iff (fun s => s.db.projects) s e rfl
        (mem_createProject_iff (s.wait e.wait) e.answers body project)).trans ?_
      simp only [Route.createProject.injEq]
      exact Iff.rfl
  | _ =>
      rw [route] at changed
      generalize (newRouter (s.wait e.wait) e).1 = after at changed
      cases changed with
      | projects body created => cases created
      | _ => simp [State.wait]

/-! ## Along a run -/

section Run

variable (now : ℕ) (uuidInput : UuidInput) (db : Database) (exchanges : List Exchange)

/-- Behind these exchanges, the request registers this cluster for an account. -/
def RegistersCluster (e : Exchange) (cluster : Cluster) : Prop :=
  (∃ user, MadeBy now uuidInput db exchanges e user) ∧ e.answers.redis = .answered ∧
    ∃ req, e.request.route = .registerCluster (some req) ∧ req.Complete ∧
      e.answers.postgres.executed = true ∧ cluster = req.row e.answers.rowID ∧
        ((State.started now uuidInput db).serveAll exchanges).db.clusters.Admits cluster

/-- Behind these exchanges, the request creates this project for an account. -/
def CreatesProject (e : Exchange) (project : Project) : Prop :=
  (∃ user, MadeBy now uuidInput db exchanges e user) ∧ e.answers.redis = .answered ∧
    ∃ req, e.request.route = .createProject (some req) ∧ req.name ≠ "" ∧
      e.answers.postgres.executed = true ∧ project = req.row e.answers.rowID ∧
        ((State.started now uuidInput db).serveAll exchanges).db.projects.Admits project

variable {now uuidInput db exchanges}

theorem passesOn_iff (fresh : ((exchanges.map Event.exchange).filterMap Event.draw).Nodup)
    (e : Exchange) :
    PassesOn ((State.started now uuidInput db).serveAll exchanges) e ↔
      (∃ user, MadeBy now uuidInput db exchanges e user) ∧ e.answers.redis = .answered := by
  simp only [PassesOn, middleware_eq_ok_iff serveAll_wellFormed]
  constructor
  · rintro ⟨ctx, -, answered, id, live, -⟩
    obtain ⟨user, made, -⟩ := madeBy_of_live live
    exact ⟨⟨user, made⟩, answered⟩
  · rintro ⟨⟨user, made⟩, answered⟩
    exact ⟨_, made.token_ne, answered, user.id, made.live fresh, rfl⟩

theorem fresh_of_append {before after : List Exchange}
    (fresh : (((before ++ after).map Event.exchange).filterMap Event.draw).Nodup) :
    ((before.map Event.exchange).filterMap Event.draw).Nodup := by
  rw [List.map_append, List.filterMap_append] at fresh
  exact (List.nodup_append.mp fresh).1

/-- The inventory is what was there and what logged-in accounts have put there. -/
theorem inventory_iff (now : ℕ) (uuidInput : UuidInput) (db : Database) (exchanges : List Exchange)
    (fresh : ((exchanges.map Event.exchange).filterMap Event.draw).Nodup) :
    (∀ cluster, cluster ∈ ((State.started now uuidInput db).serveAll exchanges).db.clusters ↔
      cluster ∈ db.clusters ∨ ∃ before e after, exchanges = before ++ e :: after ∧
        RegistersCluster now uuidInput db before e cluster) ∧
    ∀ project, project ∈ ((State.started now uuidInput db).serveAll exchanges).db.projects ↔
      project ∈ db.projects ∨ ∃ before e after, exchanges = before ++ e :: after ∧
        CreatesProject now uuidInput db before e project := by
  refine ⟨fun cluster => ?_, fun project => ?_⟩
  · refine (foldl_iff_or_exists (I := fun s => cluster ∈ s.db.clusters)
      (fun s e => mem_clusters_serve_iff s e cluster) _ exchanges).trans (or_congr_right ?_)
    refine exists_congr fun before => exists_congr fun e => exists_congr fun after =>
      and_congr_right ?_
    rintro rfl
    have passes := @passesOn_iff now uuidInput db before (fresh_of_append fresh) e
    rw [passes, RegistersCluster, and_assoc]
  · refine (foldl_iff_or_exists (I := fun s => project ∈ s.db.projects)
      (fun s e => mem_projects_serve_iff s e project) _ exchanges).trans (or_congr_right ?_)
    refine exists_congr fun before => exists_congr fun e => exists_congr fun after =>
      and_congr_right ?_
    rintro rfl
    have passes := @passesOn_iff now uuidInput db before (fresh_of_append fresh) e
    rw [passes, CreatesProject, and_assoc]

end Run

/-- A cluster to register. -/
def prodRequest : ClusterRequest := ⟨"prod", "https://prod.example", "prod-kubeconfig", "apps"⟩

/-- Its registration, with a bearer token. -/
def prodRegistered : Exchange := bearer (.registerCluster (some prodRequest))

theorem prod_in_inventory :
    prodRequest.row calm.rowID ∈
      ((State.started 0 .exact aliceDb).serveAll [aliceLogin, prodRegistered]).db.clusters := by
  have made : MadeBy 0 .exact aliceDb [aliceLogin] prodRegistered alice :=
    ⟨[], aliceLogin, [], rfl, aliceLogin_issues _ rfl, by decide, by simp⟩
  exact ((inventory_iff 0 .exact aliceDb [aliceLogin, prodRegistered] (by decide)).1 _).mpr
    (.inr ⟨[aliceLogin], prodRegistered, [], rfl, ⟨alice, made⟩, rfl, prodRequest, rfl,
      ⟨by decide, by decide, by decide⟩, rfl, rfl, fun other member => by cases member⟩)

end Wardn.Server
