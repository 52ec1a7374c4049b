import Mathlib.Algebra.Group.Int.Defs
import Mathlib.Data.List.Forall2
import Wardn.Server.Exchange

/-!
# List endpoints

`ListProjects`, `ListClusters` and `ListAudit` loop over the rows of a query in the same way: scan
a row, give up on an error of the scan, and answer with what has been collected when `rows.Next`
returns false.  They do not ask `rows.Err` why it did, and they scan nullable columns into strings.
`lists_complete_or_fail_iff` says for which streams they answer as they should.
-/

namespace Wardn.Server

/-! ## Rows and the driver -/

/-- The types of the columns that the three queries read. -/
inductive ColumnType
  | uuid
  | text
  | jsonb
  | timestamptz
  deriving DecidableEq

/-- The Go type a column is scanned into. -/
inductive Target
  | string
  | bytes
  deriving DecidableEq

/-- `Scan` of pgx, for one column; NULL is `none`. -/
structure Driver where
  scan : Target → ColumnType → Option String → Except String String
  scan_null : ∀ type, ∃ err, scan .string type none = .error err

/-- A selected column of a row, with its key in the reply. -/
structure Column where
  key : String
  type : ColumnType
  value : Option String
  target : Target := .string

/-- What a query streams: `rows.Next` returns false behind the delivered rows, and `rows.Err` is
the error when the stream has broken off there. -/
structure Rows (ρ : Type) where
  delivered : List ρ
  err : Option String

/-- The columns that `ListProjects` selects, as the schema has them. -/
structure ProjectRow where
  id : String
  name : String
  description : Option String
  createdAt : String

/-- A row of the query of `ListClusters`. -/
structure ClusterRow where
  id : String
  name : String
  serverURL : String
  «namespace» : Option String
  status : String
  createdAt : String

/-- A row of the query of `Service.List`. -/
structure AuditRow where
  id : String
  userID : Option String
  action : String
  resourceType : String
  resourceName : String
  detailsJSON : String
  timestamp : String

/-- The columns that `ListProjects` scans, and into what. -/
def ProjectRow.columns (row : ProjectRow) : List Column :=
  [⟨"id", .uuid, some row.id, .string⟩, ⟨"name", .text, some row.name, .string⟩,
    ⟨"description", .text, row.description, .string⟩,
    ⟨"created_at", .timestamptz, some row.createdAt, .string⟩]

/-- The columns that `ListClusters` scans, and into what. -/
def ClusterRow.columns (row : ClusterRow) : List Column :=
  [⟨"id", .uuid, some row.id, .string⟩, ⟨"name", .text, some row.name, .string⟩,
    ⟨"server_url", .text, some row.serverURL, .string⟩,
    ⟨"namespace", .text, row.namespace, .string⟩, ⟨"status", .text, some row.status, .string⟩,
    ⟨"created_at", .timestamptz, some row.createdAt, .string⟩]

/-- The columns that `Service.List` scans, and into what. -/
def AuditRow.columns (row : AuditRow) : List Column :=
  [⟨"id", .uuid, some row.id, .string⟩, ⟨"user_id", .uuid, row.userID, .string⟩,
    ⟨"action", .text, some row.action, .string⟩,
    ⟨"resource_type", .text, some row.resourceType, .string⟩,
    ⟨"resource_name", .text, some row.resourceName, .string⟩,
    ⟨"details", .jsonb, some row.detailsJSON, .bytes⟩,
    ⟨"timestamp", .timestamptz, some row.timestamp, .string⟩]

/-! ## The handlers -/

/-- An object of the reply. -/
abbrev ListEntry := List (String × String)

/-- The body of a reply. -/
inductive ListBody
  | error (message : String)
  /-- The rows under their key, with the limit and the offset of a page. -/
  | list (key : String) (entries : List ListEntry) (page : Option (ℕ × ℕ))
  deriving DecidableEq

/-- A status code and a body. -/
structure ListReply where
  status : ℕ
  body : ListBody
  deriving DecidableEq

/-- `rows.Scan`: the first column that fails ends it. -/
def scanRow (driver : Driver) : List Column → Except String ListEntry
  | [] => .ok []
  | column :: columns =>
    match driver.scan column.target column.type column.value, scanRow driver columns with
    | .error err, _ => .error err
    | .ok _, .error err => .error err
    | .ok text, .ok entry => .ok ((column.key, text) :: entry)

section Loop

variable {ρ : Type} (driver : Driver) (columns : ρ → List Column)

/-- The loop `for rows.Next()`. -/
def collect : List ρ → List ListEntry → Except String (List ListEntry)
  | [], entries => .ok entries
  | row :: rows, entries =>
    match scanRow driver (columns row) with
    | .error err => .error err
    | .ok entry => collect rows (entries ++ [entry])

/-- The body of the three handlers, behind the query. -/
def listRows (noQuery noScan key : String) (page : Option (ℕ × ℕ))
    (query : Except String (Rows ρ)) : ListReply :=
  match query with
  | .error _ => ⟨500, .error noQuery⟩
  | .ok rows =>
    match collect driver columns rows.delivered [] with
    | .error _ => ⟨500, .error noScan⟩
    | .ok entries => ⟨200, .list key entries page⟩

end Loop

/-- `ListProjects`. -/
def listProjects (driver : Driver) (query : Except String (Rows ProjectRow)) : ListReply :=
  listRows driver ProjectRow.columns "failed to list projects" "failed to scan project" "projects"
    none query

/-- `ListClusters`. -/
def listClusters (driver : Driver) (query : Except String (Rows ClusterRow)) : ListReply :=
  listRows driver ClusterRow.columns "failed to list clusters" "failed to scan cluster" "clusters"
    none query

/-- `strconv.Atoi`; `none` is an error. -/
def atoi (s : String) : Option ℤ :=
  let (negative, digits) :=
    match s.toList with
    | '-' :: digits => (true, digits)
    | '+' :: digits => (false, digits)
    | digits => (false, digits)
  if digits = [] ∨ ¬ digits.all Char.isDigit then none
  else
    let n : ℤ := digits.foldl (fun n c => 10 * n + (c.toNat - '0'.toNat : ℕ)) 0
    let n := if negative then -n else n
    if -2 ^ 63 ≤ n ∧ n < 2 ^ 63 then some n else none

/-- The limit that a query asks for. -/
def pageLimit (v : String) : ℕ :=
  match atoi v with
  | some n => if 0 < n ∧ n ≤ 200 then n.toNat else 50
  | none => 50

/-- The offset that a query asks for. -/
def pageOffset (v : String) : ℕ :=
  match atoi v with
  | some n => if 0 ≤ n then n.toNat else 0
  | none => 0

/-- `ListAudit`, with `Service.List`, whose errors it does not tell apart. -/
def listAudit (driver : Driver) (limit offset : String)
    (query : ℕ → ℕ → Except String (Rows AuditRow)) : ListReply :=
  let limit := pageLimit limit
  let offset := pageOffset offset
  listRows driver AuditRow.columns "failed to list audit log" "failed to list audit log" "entries"
    (some (limit, offset)) (query limit offset)

/-! ## Complete, or an error -/

/-- The object has the keys of the columns, and shows every value that is there. -/
def Shows (driver : Driver) (columns : List Column) (entry : ListEntry) : Prop :=
  List.Forall₂
    (fun column field => field.1 = column.key ∧
      ∀ text, column.value = some text →
        driver.scan column.target column.type (some text) = .ok field.2)
    columns entry

/-- A stream that ends is answered with all its rows, in order, and one that breaks off with an
error. -/
structure CompleteOrFails {ρ : Type} (driver : Driver) (columns : ρ → List Column) (rows : Rows ρ)
    (reply : ListReply) : Prop where
  complete : rows.err = none → ∃ key entries page, reply = ⟨200, .list key entries page⟩ ∧
    List.Forall₂ (fun row entry => Shows driver (columns row) entry) rows.delivered entries
  broken : rows.err ≠ none → 400 ≤ reply.status

/-- Every column of the row can be scanned. -/
def Scans (driver : Driver) (columns : List Column) : Prop :=
  ∀ column ∈ columns, ∃ text, driver.scan column.target column.type column.value = .ok text

theorem scanRow_of_scans {driver : Driver} {columns : List Column} (scans : Scans driver columns) :
    ∃ entry, scanRow driver columns = .ok entry ∧ Shows driver columns entry := by
  induction columns with
  | nil => exact ⟨[], rfl, .nil⟩
  | cons column columns ih =>
      obtain ⟨⟨text, first⟩, later⟩ := List.forall_mem_cons.mp scans
      obtain ⟨entry, rest, shows⟩ := ih later
      refine ⟨(column.key, text) :: entry, ?_, .cons ⟨rfl, fun value same => ?_⟩ shows⟩
      · simp only [scanRow, first, rest]
      · rw [← same, first]

/-- A row with a column that does not scan is an error. -/
theorem scanRow_of_not_scans {driver : Driver} {columns : List Column}
    (fails : ¬ Scans driver columns) : ∃ err, scanRow driver columns = .error err := by
  induction columns with
  | nil => exact absurd (fun column member => by cases member) fails
  | cons column columns ih =>
      rw [scanRow]
      cases first : driver.scan column.target column.type column.value with
      | error err => exact ⟨err, rfl⟩
      | ok text =>
          have later : ¬ Scans driver columns := fun scans =>
            fails (List.forall_mem_cons.mpr ⟨⟨text, first⟩, scans⟩)
          obtain ⟨err, rest⟩ := ih later
          exact ⟨err, by rw [rest]⟩

section Loop

variable {ρ : Type} {driver : Driver} {columns : ρ → List Column}

/-- The loop collects one entry for each row, in order. -/
theorem collect_of_scans {rows : List ρ} (scans : ∀ row ∈ rows, Scans driver (columns row))
    (entries : List ListEntry) :
    ∃ collected, collect driver columns rows entries = .ok (entries ++ collected) ∧
      List.Forall₂ (fun row entry => Shows driver (columns row) entry) rows collected := by
  induction rows generalizing entries with
  | nil => exact ⟨[], by rw [List.append_nil]; rfl, .nil⟩
  | cons row rows ih =>
      obtain ⟨here, later⟩ := List.forall_mem_cons.mp scans
      obtain ⟨entry, first, shows⟩ := scanRow_of_scans here
      obtain ⟨collected, rest, shown⟩ := ih later (entries ++ [entry])
      refine ⟨entry :: collected, ?_, .cons shows shown⟩
      simp only [collect, first, rest, List.append_assoc, List.singleton_append]

/-- One row that does not scan ends the loop with an error. -/
theorem collect_of_not_scans {rows : List ρ} {row : ρ} (member : row ∈ rows)
    (fails : ¬ Scans driver (columns row)) (entries : List ListEntry) :
    ∃ err, collect driver columns rows entries = .error err := by
  induction rows generalizing entries with
  | nil => cases member
  | cons first rows ih =>
      rw [collect]
      cases scanned : scanRow driver (columns first) with
      | error err => exact ⟨err, rfl⟩
      | ok entry =>
          rcases List.mem_cons.mp member with rfl | later
          · obtain ⟨err, stops⟩ := scanRow_of_not_scans fails
            cases scanned.symm.trans stops
          · exact ih later (entries ++ [entry])

/-- The body of the handlers answers as it should when a stream ends exactly if its rows can all
be scanned. -/
theorem completeOrFails_listRows_iff (noQuery noScan key : String) (page : Option (ℕ × ℕ))
    (rows : Rows ρ) :
    CompleteOrFails driver columns rows
        (listRows driver columns noQuery noScan key page (.ok rows)) ↔
      (rows.err = none ↔ ∀ row ∈ rows.delivered, Scans driver (columns row)) := by
  by_cases scans : ∀ row ∈ rows.delivered, Scans driver (columns row)
  · obtain ⟨entries, collected, shown⟩ := collect_of_scans scans []
    have reply : listRows driver columns noQuery noScan key page (.ok rows) =
        ⟨200, .list key entries page⟩ := by
      simp only [listRows, collected, List.nil_append]
    rw [reply]
    refine ⟨fun answered => iff_of_true ?_ scans, fun ended => ⟨fun _ => ?_, fun broken => ?_⟩⟩
    · by_contra broken
      have refused : 400 ≤ 200 := answered.broken broken
      omega
    · exact ⟨key, entries, page, rfl, shown⟩
    · exact absurd (ended.mpr scans) broken
  · have failing : ∃ row ∈ rows.delivered, ¬ Scans driver (columns row) := by
      push Not at scans
      exact scans
    obtain ⟨row, member, fails⟩ := failing
    obtain ⟨err, stops⟩ := collect_of_not_scans member fails []
    have reply : listRows driver columns noQuery noScan key page (.ok rows) =
        ⟨500, .error noScan⟩ := by
      simp only [listRows, stops]
    rw [reply]
    refine ⟨fun answered => iff_of_false (fun ended => ?_) scans, fun ended => ⟨fun none => ?_, ?_⟩⟩
    · obtain ⟨key', entries, page', same, -⟩ := answered.complete ended
      cases same
    · exact absurd (ended.mp none) scans
    · exact fun _ => (by decide : 400 ≤ 500)

end Loop

/-- A row with NULL in a column that is scanned into a string does not scan. -/
theorem not_scans_of_null {driver : Driver} {columns : List Column} {column : Column}
    (member : column ∈ columns) (null : column.value = none) (target : column.target = .string) :
    ¬ Scans driver columns := by
  intro scans
  obtain ⟨text, scanned⟩ := scans column member
  obtain ⟨err, fails⟩ := driver.scan_null column.type
  rw [null, target, fails] at scanned
  cases scanned

/-- With a driver that scans every value, the rows that do not scan are those with NULL. -/
theorem scans_iff_of_texts {driver : Driver}
    (texts : ∀ target type text, ∃ scanned, driver.scan target type (some text) = .ok scanned)
    {columns : List Column} (strings : ∀ column ∈ columns, column.value = none →
      column.target = .string) :
    Scans driver columns ↔ ∀ column ∈ columns, column.value ≠ none := by
  refine ⟨fun scans column member null => ?_, fun present column member => ?_⟩
  · exact not_scans_of_null member null (strings column member null) scans
  · obtain ⟨text, there⟩ := Option.ne_none_iff_exists'.mp (present column member)
    rw [there]
    exact texts _ _ text

theorem ProjectRow.scans_iff {driver : Driver}
    (texts : ∀ target type text, ∃ scanned, driver.scan target type (some text) = .ok scanned)
    (row : ProjectRow) : Scans driver row.columns ↔ row.description ≠ none := by
  rw [scans_iff_of_texts texts (by simp [columns])]
  simp [columns]

theorem ClusterRow.scans_iff {driver : Driver}
    (texts : ∀ target type text, ∃ scanned, driver.scan target type (some text) = .ok scanned)
    (row : ClusterRow) : Scans driver row.columns ↔ row.namespace ≠ none := by
  rw [scans_iff_of_texts texts (by simp [columns])]
  simp [columns]

theorem AuditRow.scans_iff {driver : Driver}
    (texts : ∀ target type text, ∃ scanned, driver.scan target type (some text) = .ok scanned)
    (row : AuditRow) : Scans driver row.columns ↔ row.userID ≠ none := by
  rw [scans_iff_of_texts texts (by simp [columns])]
  simp [columns]

/-- **The lists are complete or fail** exactly when the stream ends if all its rows can be scanned,
and breaks off if some cannot. -/
theorem lists_complete_or_fail_iff (driver : Driver) (projects : Rows ProjectRow)
    (clusters : Rows ClusterRow) (limit offset : String) (audit : ℕ → ℕ → Rows AuditRow) :
    (CompleteOrFails driver ProjectRow.columns projects (listProjects driver (.ok projects)) ↔
      (projects.err = none ↔ ∀ row ∈ projects.delivered, Scans driver row.columns)) ∧
    (CompleteOrFails driver ClusterRow.columns clusters (listClusters driver (.ok clusters)) ↔
      (clusters.err = none ↔ ∀ row ∈ clusters.delivered, Scans driver row.columns)) ∧
    (CompleteOrFails driver AuditRow.columns (audit (pageLimit limit) (pageOffset offset))
        (listAudit driver limit offset fun limit offset => .ok (audit limit offset)) ↔
      ((audit (pageLimit limit) (pageOffset offset)).err = none ↔
        ∀ row ∈ (audit (pageLimit limit) (pageOffset offset)).delivered,
          Scans driver row.columns)) :=
  ⟨completeOrFails_listRows_iff "failed to list projects" .., completeOrFails_listRows_iff
    "failed to list clusters" .., completeOrFails_listRows_iff "failed to list audit log" ..⟩

/-- A driver that scans every column into text, timestamps too.  One that refuses to scan a
`timestamptz` into a string is another driver, under which no row with such a column scans. -/
def plainDriver : Driver where
  scan target _ value :=
    match target, value with
    | _, some text => .ok text
    | .string, none => .error "cannot scan NULL into *string"
    | .bytes, none => .ok ""
  scan_null _ := ⟨_, rfl⟩

/-- A stream that breaks off before its first row. -/
private def lostRows : Rows ProjectRow := ⟨[], some "unexpected EOF"⟩

/-- A project without a description. -/
private def undescribed : Rows ProjectRow := ⟨[⟨"77", "shop", none, "2026-01-01"⟩], none⟩

/-- A connection that is lost before the first row looks like an empty table, and a project without
a description fails the whole list. -/
theorem projects_truncated_and_refused :
    ¬ CompleteOrFails plainDriver ProjectRow.columns lostRows
        (listProjects plainDriver (.ok lostRows)) ∧
      ¬ CompleteOrFails plainDriver ProjectRow.columns undescribed
        (listProjects plainDriver (.ok undescribed)) := by
  refine ⟨fun answered => ?_, fun answered => ?_⟩
  · have refused : 400 ≤ 200 := answered.broken (by simp [lostRows])
    omega
  · obtain ⟨key, entries, page, same, -⟩ := answered.complete rfl
    cases same

end Wardn.Server
