import Mathlib.Algebra.Group.Nat.Defs
import Wardn.Lib.Paging
import Wardn.Lib.Sorting
import Wardn.Server.Listing

/-!
# Exporting the audit log

The documentation of `/api/v1/audit` shows how to export the log: ask for pages of one size, each
behind the last, until one has fewer entries.  `ListAudit` replaces a page size it does not accept
by 50, and sorts by the timestamp only, so that each request may order equal timestamps anew.
`export_exact_iff` says for which tables and page sizes the loop still returns every entry once.
-/

namespace Wardn.Server

open Paging

/-! ## The client and the server -/

/-- The entries a client finds in a reply. -/
def ListReply.entries (reply : ListReply) : List ListEntry :=
  match reply.body with
  | .list _ entries _ => entries
  | .error _ => []

/-- The loop of the documentation with pages of `p`; `request k` answers its `k`-th request. -/
def exportFrom (request : ℕ → String → String → ListReply) (p : ℕ) :
    ℕ → ℕ → ℕ → Option (List ListEntry)
  | 0, _, _ => none
  | fuel + 1, k, offset =>
    let entries := (request k (toString p) (toString offset)).entries
    if entries.length < p then some entries
    else (exportFrom request p fuel (k + 1) (offset + p)).map (entries ++ ·)

/-- `ListAudit` over a table; `order k` is how Postgres orders it for the `k`-th query. -/
def auditServer (driver : Driver) (order : ℕ → List AuditRow) (k : ℕ) (limit offset : String) :
    ListReply :=
  listAudit driver limit offset fun limit offset => .ok ⟨((order k).drop offset).take limit, none⟩

/-- `ORDER BY timestamp DESC`, for the instants that the timestamps stand for. -/
def Ordered (instant : String → ℤ) (rows sorted : List AuditRow) : Prop :=
  IsSort (fun row : AuditRow => instant row.timestamp) rows sorted

/-- The entries show these rows, in this order. -/
abbrev Listed (driver : Driver) : List AuditRow → List ListEntry → Prop :=
  List.Forall₂ fun row entry => Shows driver row.columns entry

/-- The entries show every row of the table once. -/
def ShowsOnce (driver : Driver) (rows : List AuditRow) (entries : List ListEntry) : Prop :=
  ∃ order : List AuditRow, order.Perm rows ∧ Listed driver order entries

/-- The loop ends, and has every row of the table once. -/
def ExportsAll (driver : Driver) (rows : List AuditRow) (p : ℕ) (order : ℕ → List AuditRow) :
    Prop :=
  ∃ fuel entries, exportFrom (auditServer driver order) p fuel 0 0 = some entries ∧
    ShowsOnce driver rows entries

/-! ## Parameters of a request -/

/-- The loop of `Atoi` reads a decimal numeral. -/
theorem foldl_digits (digits : List Char) (n : ℕ) :
    digits.foldl (fun (n : ℤ) c => 10 * n + (c.toNat - '0'.toNat : ℕ)) n =
      Nat.ofDigitChars 10 digits n := by
  induction digits generalizing n with
  | nil => rw [Nat.ofDigitChars_nil, List.foldl_nil]
  | cons c cs ih =>
      rw [Nat.ofDigitChars_cons, List.foldl_cons, ← ih]
      rfl

/-- A number that fits into 64 bits is read back. -/
theorem atoi_toString (n : ℕ) : atoi (toString n) = if n < 2 ^ 63 then some (n : ℤ) else none := by
  have digit : ∀ c ∈ Nat.toDigits 10 n, c.isDigit = true := fun c member =>
    Nat.isDigit_of_mem_toDigits (by decide) (by decide) member
  have text : (toString n).toList = Nat.toDigits 10 n := String.toList_ofList
  have some : Nat.toDigits 10 n ≠ [] := Nat.toDigits_ne_nil
  have value := foldl_digits (Nat.toDigits 10 n) 0
  rw [Nat.ofDigitChars_ten_toDigits] at value
  rw [atoi, text]
  generalize Nat.toDigits 10 n = digits at digit some value
  have all : digits.all Char.isDigit = true := List.all_eq_true.mpr digit
  split
  next negative rest sign =>
    obtain ⟨rfl, rfl⟩ : false = negative ∧ digits = rest := by
      split at sign
      · exact absurd (digit '-' List.mem_cons_self) (by decide)
      · exact absurd (digit '+' List.mem_cons_self) (by decide)
      · exact Prod.mk.inj sign
    rw [if_neg (by simp [some, all])]
    simp only [Bool.false_eq_true, if_false]
    change digits.foldl _ (0 : ℤ) = n at value
    rw [value]
    refine if_congr ?_ rfl rfl
    omega

/-- A printed page size is taken up to 200, and replaced by 50 above. -/
theorem pageLimit_toString {p : ℕ} (sized : 1 ≤ p) :
    pageLimit (toString p) = if p ≤ 200 then p else 50 := by
  rw [pageLimit, atoi_toString]
  split_ifs with fits small small
  · dsimp only
    rw [if_pos (by omega), Int.toNat_natCast]
  · dsimp only
    rw [if_neg (by omega)]
  · omega
  · rfl

/-- A printed offset is taken up to the largest `int`. -/
theorem pageOffset_toString (n : ℕ) :
    pageOffset (toString n) = if n < 2 ^ 63 then n else 0 := by
  rw [pageOffset, atoi_toString]
  split_ifs with fits
  · dsimp only
    rw [if_pos (by omega), Int.toNat_natCast]
  · rfl

/-! ## The replies -/

section Replies

variable {driver : Driver} {rows : List AuditRow} {order : ℕ → List AuditRow} {p k : ℕ}

/-- The rows that the `k`-th request of the loop is answered with. -/
def requested (order : ℕ → List AuditRow) (p k : ℕ) : List AuditRow :=
  ((order k).drop (pageOffset (toString (k * p)))).take (pageLimit (toString p))

/-- The entries that the loop finds in the reply. -/
def replied (driver : Driver) (order : ℕ → List AuditRow) (p k : ℕ) : List ListEntry :=
  (auditServer driver order k (toString p) (toString (k * p))).entries

/-- A page with a row that does not scan is answered with an error, which has no entries. -/
theorem replied_cases (driver : Driver) (order : ℕ → List AuditRow) (p k : ℕ) :
    ((∀ row ∈ requested order p k, Scans driver row.columns) ∧
      Listed driver (requested order p k) (replied driver order p k)) ∨
    ((∃ row ∈ requested order p k, ¬ Scans driver row.columns) ∧
      replied driver order p k = []) := by
  by_cases scans : ∀ row ∈ requested order p k, Scans driver row.columns
  · obtain ⟨entries, collected, shown⟩ := collect_of_scans scans []
    refine .inl ⟨scans, ?_⟩
    have reply : replied driver order p k = entries := by
      rw [requested] at collected
      simp only [replied, auditServer, listAudit, listRows, collected, List.nil_append,
        ListReply.entries]
    rwa [reply]
  · push Not at scans
    obtain ⟨row, member, fails⟩ := scans
    obtain ⟨err, stops⟩ := collect_of_not_scans member fails []
    refine .inr ⟨⟨row, member, fails⟩, ?_⟩
    rw [requested] at stops
    simp only [replied, auditServer, listAudit, listRows, stops, ListReply.entries]

theorem length_replied_le (driver : Driver) (order : ℕ → List AuditRow) (p k : ℕ) :
    (replied driver order p k).length ≤ (requested order p k).length := by
  rcases replied_cases driver order p k with ⟨-, shown⟩ | ⟨-, none⟩
  · exact Nat.le_of_eq shown.length_eq.symm
  · rw [none]
    exact Nat.zero_le _

theorem replied_of_scans (scans : ∀ row ∈ requested order p k, Scans driver row.columns) :
    Listed driver (requested order p k) (replied driver order p k) := by
  rcases replied_cases driver order p k with ⟨-, shown⟩ | ⟨failing, -⟩
  · exact shown
  · obtain ⟨row, member, fails⟩ := failing
    exact absurd (scans row member) fails

theorem scans_of_replied (some : replied driver order p k ≠ []) :
    ∀ row ∈ requested order p k, Scans driver row.columns := by
  rcases replied_cases driver order p k with ⟨scans, -⟩ | ⟨-, none⟩
  · exact scans
  · exact absurd none some

theorem replied_ne_nil_of_full (sized : 1 ≤ p) (full : p ≤ (replied driver order p k).length) :
    replied driver order p k ≠ [] := by
  intro none
  rw [none, List.length_nil] at full
  omega

/-- The export is a drain of the replies, counted by request. -/
theorem exportFrom_eq_drain (fuel k : ℕ) :
    exportFrom (auditServer driver order) p fuel k (k * p) =
      drain p (replied driver order p) fuel k := by
  induction fuel generalizing k with
  | zero => rfl
  | succ fuel ih =>
      rw [exportFrom, drain, ← Nat.succ_mul, ih (k + 1)]
      rfl

/-- The loop ends at the first short reply. -/
theorem exportsAll_iff :
    ExportsAll driver rows p order ↔ ∃ m,
      (∀ j < m, p ≤ (replied driver order p j).length) ∧ (replied driver order p m).length < p ∧
      ShowsOnce driver rows ((List.range (m + 1)).flatMap (replied driver order p)) := by
  have loop : ∀ fuel, exportFrom (auditServer driver order) p fuel 0 0 =
      drain p (replied driver order p) fuel 0 := fun fuel => by
    rw [← exportFrom_eq_drain, Nat.zero_mul]
  simp only [ExportsAll, loop, drain_eq_some_iff, Nat.zero_add]
  refine ⟨fun exported => ?_, fun exported => ?_⟩
  · obtain ⟨fuel, entries, ⟨m, -, full, short, rfl⟩, once⟩ := exported
    exact ⟨m, full, short, once⟩
  · obtain ⟨m, full, short, once⟩ := exported
    exact ⟨m + 1, _, ⟨m, Nat.lt_succ_self m, full, short, rfl⟩, once⟩

theorem ShowsOnce.length_eq {entries : List ListEntry} (once : ShowsOnce driver rows entries) :
    entries.length = rows.length := by
  obtain ⟨order, perm, shown⟩ := once
  rw [← shown.length_eq, perm.length_eq]

/-- The entries show the ids of the rows. -/
theorem ids_of_shown (texts : ∀ text, driver.scan .string .uuid (some text) = .ok text)
    {entries : List ListEntry} (shown : Listed driver rows entries) :
    entries.map List.head? = rows.map fun row => some ("id", row.id) := by
  induction shown with
  | nil => rfl
  | @cons row entry rows entries first later ih =>
      rw [List.map_cons, List.map_cons, ih]
      rw [Shows, AuditRow.columns] at first
      obtain ⟨field, rest, ⟨key, value⟩, -, rfl⟩ := List.forall₂_cons_left_iff.mp first
      have id := value row.id rfl
      rw [texts] at id
      have shown : field = ("id", row.id) := Prod.ext key (Except.ok.inj id).symm
      rw [List.head?_cons, shown]

end Replies

/-! ## Page sizes that the server accepts -/

section Accepted

variable {driver : Driver} {rows : List AuditRow} {order : ℕ → List AuditRow} {p k m : ℕ}
  (sized : 1 ≤ p) (accepted : p ≤ 200)

include sized accepted

theorem requested_of_accepted :
    requested order p k = if k * p < 2 ^ 63 then page p k (order k) else page p 0 (order k) := by
  rw [requested, pageLimit_toString sized, if_pos accepted, pageOffset_toString, page, page,
    Nat.zero_mul]
  split_ifs <;> rfl

theorem length_replied_le_size : (replied driver order p k).length ≤ p := by
  refine (length_replied_le driver order p k).trans ?_
  rw [requested, pageLimit_toString sized, if_pos accepted]
  exact List.length_take_le _ _

/-- The number of rows says at which request a complete export ends. -/
theorem last_request (full : ∀ j < m, p ≤ (replied driver order p j).length)
    (short : (replied driver order p m).length < p)
    (once : ShowsOnce driver rows ((List.range (m + 1)).flatMap (replied driver order p))) :
    m = rows.length / p ∧ (replied driver order p m).length = rows.length % p := by
  have count := once.length_eq
  rw [length_flatMap_range fun j before =>
    Nat.le_antisymm (length_replied_le_size sized accepted) (full j before)] at count
  rw [← count]
  refine ⟨?_, ?_⟩
  · rw [Nat.mul_comm, Nat.mul_add_div sized, Nat.div_eq_of_lt short, Nat.add_zero]
  · rw [Nat.mul_add_mod', Nat.mod_eq_of_lt short]

/-- The replies up to the last full page list their pages. -/
theorem shown_of_accepted (scans : ∀ row ∈ rows, Scans driver row.columns)
    (bound : rows.length / p * p < 2 ^ 63) (perm : ∀ j, (order j).Perm rows) {j : ℕ}
    (reached : j ≤ rows.length / p) :
    Listed driver (page p j (order j)) (replied driver order p j) := by
  have inside : j * p < 2 ^ 63 := (Nat.mul_le_mul_right p reached).trans_lt bound
  have request : requested order p j = page p j (order j) := by
    rw [requested_of_accepted sized accepted, if_pos inside]
  rw [← request]
  refine replied_of_scans fun row member => scans row ?_
  rw [request] at member
  exact (perm j).mem_iff.mp (List.mem_of_mem_drop (List.mem_of_mem_take member))

/-- If ties never straddle a page border, every order of each query exports all rows. -/
theorem exportsAll_of_accepted {instant : String → ℤ} (distinct : rows.Nodup)
    (together : TiesTogether (fun row : AuditRow => instant row.timestamp) p rows)
    (scans : ∀ row ∈ rows, Scans driver row.columns) (bound : rows.length / p * p < 2 ^ 63)
    (ordered : ∀ k, Ordered instant rows (order k)) : ExportsAll driver rows p order := by
  have shown : ∀ j ≤ rows.length / p,
      Listed driver (page p j (order j)) (replied driver order p j) := fun j =>
    shown_of_accepted sized accepted scans bound fun k => (ordered k).perm
  have length : ∀ j ≤ rows.length / p,
      (replied driver order p j).length = min p (rows.length - j * p) := fun j reached => by
    rw [← (shown j reached).length_eq, length_page, (ordered j).perm.length_eq]
  have whole := Nat.div_add_mod' rows.length p
  have rest := Nat.mod_lt rows.length sized
  refine exportsAll_iff.mpr ⟨rows.length / p, fun j before => ?_, ?_, ?_⟩
  · have next := Nat.mul_le_mul_right p (Nat.succ_le_of_lt before)
    rw [Nat.succ_mul] at next
    rw [length j (Nat.le_of_lt before)]
    omega
  · rw [length _ (Nat.le_refl _)]
    omega
  · have all := length_le_pages sized rows.length
    refine ⟨_, perm_flatMap_page sized together distinct all ordered, ?_⟩
    exact forall₂_flatMap_range fun j before => shown j (Nat.le_of_lt_succ before)

/-- A complete export in one order has no request past the offsets that are understood: it would be
read as one for the first page, which has been answered in full. -/
theorem bound_of_exportsAll {sorted : List AuditRow}
    (exported : ExportsAll driver rows p fun _ => sorted) : rows.length / p * p < 2 ^ 63 := by
  obtain ⟨m, full, short, once⟩ := exportsAll_iff.mp exported
  obtain ⟨rfl, -⟩ := last_request sized accepted full short once
  by_contra past
  have positive : 0 < rows.length / p := by
    refine Nat.pos_of_ne_zero fun none => ?_
    rw [none] at past
    omega
  have again : requested (fun _ => sorted) p (rows.length / p) =
      requested (fun _ => sorted) p 0 := by
    rw [requested_of_accepted sized accepted, requested_of_accepted sized accepted,
      if_neg past, Nat.zero_mul, if_pos (by decide)]
  have first := full 0 positive
  have scans := scans_of_replied (replied_ne_nil_of_full sized first)
  have shown := (replied_of_scans scans).length_eq
  rw [← again] at scans shown
  have last := (replied_of_scans scans).length_eq
  omega

/-- Nor has it a row that does not scan. -/
theorem scans_of_exportsAll {sorted : List AuditRow} (perm : sorted.Perm rows)
    (exported : ExportsAll driver rows p fun _ => sorted) :
    ∀ row ∈ rows, Scans driver row.columns := by
  have bound := bound_of_exportsAll sized accepted exported
  obtain ⟨m, full, short, once⟩ := exportsAll_iff.mp exported
  obtain ⟨rfl, rest⟩ := last_request sized accepted full short once
  intro row member
  obtain ⟨i, here⟩ := List.mem_iff_getElem?.mp (perm.mem_iff.mpr member)
  have inside := (List.getElem?_eq_some_iff.mp here).1
  rw [perm.length_eq] at inside
  have reached : i / p ≤ rows.length / p := Nat.div_le_div_right (Nat.le_of_lt inside)
  have request : requested (fun _ => sorted) p (i / p) = page p (i / p) sorted := by
    have low := (Nat.mul_le_mul_right p reached).trans_lt bound
    rw [requested_of_accepted sized accepted, if_pos low]
  have among : row ∈ requested (fun _ => sorted) p (i / p) := by
    rw [request]
    exact (mem_page_iff sized _).mpr ⟨i, here, rfl⟩
  refine scans_of_replied (fun none => ?_) row among
  rcases Nat.lt_or_eq_of_le reached with before | last
  · exact replied_ne_nil_of_full sized (full _ before) none
  · -- The last page is empty only if no rows are left for it.
    rw [last] at none request among
    rw [none, List.length_nil] at rest
    have left := List.length_pos_of_mem among
    have whole := Nat.div_add_mod' rows.length p
    rw [request, length_page, perm.length_eq] at left
    omega

/-- Conversely ties across a border can be broken so that a row is lost. -/
theorem together_of_exportsAll {instant : String → ℤ} {sorted : List AuditRow}
    (texts : ∀ text, driver.scan .string .uuid (some text) = .ok text)
    (distinct : (rows.map AuditRow.id).Nodup) (scans : ∀ row ∈ rows, Scans driver row.columns)
    (bound : rows.length / p * p < 2 ^ 63) (sort : Ordered instant rows sorted)
    (exported : ∀ order, (∀ k, Ordered instant rows (order k)) → ExportsAll driver rows p order) :
    TiesTogether (fun row : AuditRow => instant row.timestamp) p rows := by
  by_contra apart
  have all := length_le_pages sized rows.length
  obtain ⟨order, ordered, twice⟩ := exists_not_nodup_flatMap_page sized apart all sort
  obtain ⟨m, full, short, once⟩ := exportsAll_iff.mp (exported order ordered)
  obtain ⟨rfl, -⟩ := last_request sized accepted full short once
  obtain ⟨listed, perm, shown⟩ := once
  have pages := forall₂_flatMap_range (m := rows.length / p + 1) fun j before =>
    shown_of_accepted sized accepted scans bound (fun k => (ordered k).perm)
      (Nat.le_of_lt_succ before)
  have ids := (ids_of_shown texts pages).symm.trans (ids_of_shown texts shown)
  refine twice (List.Nodup.of_map (fun row : AuditRow => some ("id", row.id)) ?_)
  rw [ids]
  refine (perm.map _).nodup_iff.mpr ?_
  have injective : Function.Injective fun id : String => some ("id", id) := fun id id' same =>
    (Prod.mk.inj (Option.some.inj same)).2
  have marked := distinct.map injective
  rwa [List.map_map] at marked

end Accepted

/-! ## Page sizes that the server replaces -/

section Replaced

variable {driver : Driver} {rows : List AuditRow} {order : ℕ → List AuditRow} {p : ℕ}
  (replaced : 200 < p)

include replaced

theorem requested_of_replaced : requested order p 0 = (order 0).take 50 := by
  rw [requested, pageLimit_toString (by omega), if_neg (Nat.not_le_of_lt replaced), Nat.zero_mul,
    pageOffset_toString, if_pos (by decide), List.drop_zero]

theorem requested_of_few (few : rows.length ≤ 50) (perm : (order 0).Perm rows) :
    requested order p 0 = order 0 := by
  rw [requested_of_replaced replaced, List.take_of_length_le (perm.length_eq.trans_le few)]

/-- The loop takes the first reply for the last. -/
theorem exportsAll_of_replaced_iff :
    ExportsAll driver rows p order ↔ ShowsOnce driver rows (replied driver order p 0) := by
  have short : (replied driver order p 0).length < p := by
    have bound := length_replied_le driver order p 0
    rw [requested_of_replaced replaced, List.length_take] at bound
    omega
  have single : (List.range (0 + 1)).flatMap (replied driver order p) = replied driver order p 0 :=
    List.append_nil _
  rw [exportsAll_iff]
  refine ⟨fun exported => ?_, fun once => ⟨0, fun j none => ?_, short, single.symm ▸ once⟩⟩
  · obtain ⟨m, full, -, once⟩ := exported
    cases m with
    | zero => rwa [single] at once
    | succ m => exact absurd (full 0 (Nat.succ_pos m)) (Nat.not_le_of_lt short)
  · exact absurd none (Nat.not_lt_zero j)

/-- Up to 50 rows are exported by the one request. -/
theorem exportsAll_of_replaced (few : rows.length ≤ 50)
    (scans : ∀ row ∈ rows, Scans driver row.columns) (perm : (order 0).Perm rows) :
    ExportsAll driver rows p order := by
  refine (exportsAll_of_replaced_iff replaced).mpr ⟨order 0, perm, ?_⟩
  have request := requested_of_few replaced few perm
  have scanned : ∀ row ∈ requested order p 0, Scans driver row.columns := fun row member =>
    scans row (perm.mem_iff.mp (request ▸ member))
  have shown := replied_of_scans scanned
  rwa [request] at shown

/-- With a replaced page size nothing beyond 50 rows is exported. -/
theorem few_of_exportsAll (perm : (order 0).Perm rows)
    (exported : ExportsAll driver rows p order) :
    rows.length ≤ 50 ∧ ∀ row ∈ rows, Scans driver row.columns := by
  have count := ((exportsAll_of_replaced_iff replaced).mp exported).length_eq
  have bound := length_replied_le driver order p 0
  rw [requested_of_replaced replaced, List.length_take] at bound
  have few : rows.length ≤ 50 := by omega
  refine ⟨few, fun row member => ?_⟩
  have request := requested_of_few replaced few perm
  have some : replied driver order p 0 ≠ [] := fun none => by
    have positive := List.length_pos_of_mem member
    rw [none, List.length_nil] at count
    omega
  exact scans_of_replied some row (request ▸ perm.mem_iff.mpr member)

end Replaced

/-! ## The whole loop -/

/-- A table can be sorted by any instants. -/
theorem exists_ordered (instant : String → ℤ) (rows : List AuditRow) :
    ∃ sorted, Ordered instant rows sorted := by
  have lawful := (Sorting.lawful_sub.on fun row : AuditRow => instant row.timestamp).neg
  have descending := Sorting.pairwise_sort lawful rows
  refine ⟨_, Sorting.perm_sort _ rows, descending.imp fun {a b} below => ?_⟩
  omega

/-- **The paged export is exact** exactly when every row scans and the server takes the page size as
it is, with no tie across two pages, or the table fits into the 50 entries it answers instead. -/
theorem export_exact_iff (driver : Driver)
    (texts : ∀ text, driver.scan .string .uuid (some text) = .ok text) (instant : String → ℤ)
    {rows : List AuditRow} (distinct : (rows.map AuditRow.id).Nodup) {p : ℕ} (sized : 1 ≤ p) :
    (∀ order, (∀ k, Ordered instant rows (order k)) → ExportsAll driver rows p order) ↔
      (∀ row ∈ rows, Scans driver row.columns) ∧
        if p ≤ 200 then
          TiesTogether (fun row : AuditRow => instant row.timestamp) p rows ∧
            rows.length / p * p < 2 ^ 63
        else rows.length ≤ 50 := by
  obtain ⟨sorted, sort⟩ := exists_ordered instant rows
  split_ifs with accepted
  · refine ⟨fun exported => ?_, fun exact order ordered => ?_⟩
    · have once := exported (fun _ => sorted) fun _ => sort
      have scans := scans_of_exportsAll sized accepted sort.perm once
      have bound := bound_of_exportsAll sized accepted once
      exact ⟨scans, together_of_exportsAll sized accepted texts distinct scans bound sort exported,
        bound⟩
    · obtain ⟨scans, together, bound⟩ := exact
      have rows_distinct := List.Nodup.of_map _ distinct
      exact exportsAll_of_accepted sized accepted rows_distinct together scans bound ordered
  · have replaced := Nat.lt_of_not_le accepted
    refine ⟨fun exported => ?_, fun exact order ordered => ?_⟩
    · exact (few_of_exportsAll replaced sort.perm (exported _ fun _ => sort)).symm
    · exact exportsAll_of_replaced replaced exact.2 exact.1 (ordered 0).perm

/-- An audit row of this id and time. -/
private def entry (id timestamp : String) : AuditRow :=
  ⟨id, some "u1", "app.sync", "app", "shop", "\x7b\x7d", timestamp⟩

/-- Texts of one length in their order. -/
private def textual (timestamp : String) : ℤ :=
  timestamp.toList.foldl (fun n c => 256 * n + c.toNat) 0

private theorem scans_entry (id timestamp : String) :
    Scans plainDriver (entry id timestamp).columns :=
  (AuditRow.scans_iff (fun target _ text => ⟨text, by cases target <;> rfl⟩) _).mpr
    (Option.some_ne_none "u1")

/-- Three rows at different instants, exported in pages of two. -/
theorem export_exact_of_three :
    let rows := [entry "a" "2026-01-01", entry "b" "2026-01-02", entry "c" "2026-01-03"]
    (rows.map AuditRow.id).Nodup ∧ 1 ≤ 2 ∧
      ∀ order, (∀ k, Ordered textual rows (order k)) → ExportsAll plainDriver rows 2 order := by
  intro rows
  have distinct : (rows.map AuditRow.id).Nodup := by decide
  have scans : ∀ row ∈ rows, Scans plainDriver row.columns := by
    simp [rows, scans_entry]
  have exact := export_exact_iff plainDriver (fun text => rfl) textual distinct (p := 2) (by decide)
  refine ⟨distinct, by decide, exact.mpr ⟨scans, ?_⟩⟩
  rw [if_pos (by decide)]
  exact ⟨by decide, by decide⟩

/-- The documented page size returns 50 of 51 rows, and one row may come twice, for another, when
three have the same timestamp. -/
theorem export_loses_rows :
    let many := (List.range 51).map fun i => entry (toString i) "2026-01-01"
    let three := [entry "a" "2026-01-01", entry "b" "2026-01-01", entry "c" "2026-01-01"]
    (¬ ∀ order, (∀ k, Ordered textual many (order k)) → ExportsAll plainDriver many 500 order) ∧
      ¬ ∀ order, (∀ k, Ordered textual three (order k)) → ExportsAll plainDriver three 2 order := by
  intro many three
  refine ⟨fun exported => ?_, fun exported => ?_⟩
  · obtain ⟨sorted, sort⟩ := exists_ordered textual many
    have few := (few_of_exportsAll (by decide) sort.perm (exported _ fun _ => sort)).1
    simp [many] at few
  · obtain ⟨sorted, sort⟩ := exists_ordered textual three
    have scans : ∀ row ∈ three, Scans plainDriver row.columns := by
      simp [three, scans_entry]
    have together := together_of_exportsAll (by decide) (by decide) (fun text => rfl) (by decide)
      scans (by decide) sort exported
    exact absurd together (by decide)

end Wardn.Server
