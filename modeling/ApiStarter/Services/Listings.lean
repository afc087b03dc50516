import ApiStarter.Interleave.Solo
import ApiStarter.Relational.Pages
import ApiStarter.Repositories.Files
import ApiStarter.Services.Files
import ApiStarter.Services.Users
import ApiStarter.Text.Like
import ApiStarter.Text.Lines
import ApiStarter.Text.Lowercase

/-!
# Listings

The administrators' list of users with its search and sorting, the audit log and
a user's own files.  Each listing counts what matches and cuts one page out of
the ordered rows.
-/

namespace ApiStarter

open Interleave Relational Text

structure PaginatedResponse (α : Type) where
  items : List α
  page : ℕ
  perPage : ℕ
  total : ℕ

/-- The page window of the two query parameters, as they are sent. -/
def Pagination.ofQuery (page perPage : Option UInt32) : Pagination :=
  .new (page.map UInt32.toNat) (perPage.map UInt32.toNat)

def PaginatedResponse.new {α : Type} (items : List α) (pagination : Pagination) (total : ℕ) :
    PaginatedResponse α :=
  ⟨items, pagination.page, pagination.perPage, total⟩

/-! ## Users -/

inductive UserSort
  | createdAt
  | email
  deriving DecidableEq

inductive SortOrder
  | asc
  | desc
  deriving DecidableEq

structure ListUsersQuery where
  page : Option UInt32
  perPage : Option UInt32
  q : Option String
  sort : Option UserSort
  order : Option SortOrder

def ListUsersQuery.pagination (query : ListUsersQuery) : Pagination :=
  .ofQuery query.page query.perPage

structure UserFilter where
  search : Option String
  sort : UserSort
  order : SortOrder
  limit : ℕ
  offset : ℕ

/-- How the database orders texts. -/
structure Collation where
  le : String → String → Bool
  le_total : ∀ a b, le a b = true ∨ le b a = true
  le_trans : ∀ a b c, le a b = true → le b c = true → le a c = true

/-- `str::replace` of one character. -/
def replaceChar (c : Char) (by' : List Char) (input : List Char) : List Char :=
  input.flatMap fun d ↦ if d = c then by' else [d]

def escapeLike (input : List Char) : List Char :=
  replaceChar '_' ['\\', '_'] (replaceChar '%' ['\\', '%'] (replaceChar '\\' ['\\', '\\'] input))

/-- `push_search`: a null display name matches nothing. -/
def pushSearch (pattern : Option (List Char)) (u : User) : Bool :=
  pattern.all fun pattern ↦
    like '\\' pattern u.email.toList = some true ||
      u.displayName.any fun name ↦ like '\\' pattern name.toList = some true

/-- `column ASC` -/
def UserSort.le (c : Collation) (sort : UserSort) (a b : User) : Bool :=
  match sort with
  | .createdAt => a.createdAt ≤ b.createdAt
  | .email => c.le a.email b.email

/-- `column ASC, id ASC` -/
def UserSort.ascending (c : Collation) (sort : UserSort) (a b : User) : Bool :=
  sort.le c a b && (!sort.le c b a || a.id ≤ b.id)

/-- `ORDER BY column direction, id direction` -/
def listedBefore (c : Collation) (sort : UserSort) (order : SortOrder) (a b : User) : Bool :=
  match order with
  | .asc => sort.ascending c a b
  | .desc => sort.ascending c b a

/-- `UsersRepository::list`: the count and the select are built apart. -/
def UsersRepository.list (c : Collation) (filter : UserFilter) (users : Table User.id) :
    List User × ℕ :=
  let pattern := filter.search.map fun q ↦ '%' :: escapeLike q.toList ++ ['%']
  let total := users.countWhere fun u ↦ u.isLive && pushSearch pattern u
  let selected := users.selectWhere fun u ↦ u.isLive && pushSearch pattern u
  (window filter.limit filter.offset
    (selected.insertionSort fun a b ↦ listedBefore c filter.sort filter.order a b = true), total)

/-- `q.trim()` unless blank. -/
def ListUsersQuery.search (query : ListUsersQuery) : Option String :=
  (query.q.map fun q ↦ String.ofList (strip isWhitespace q.toList)).filter fun q ↦ !q.isEmpty

def ListUsersQuery.filter (query : ListUsersQuery) : UserFilter where
  search := query.search
  sort := query.sort.getD .createdAt
  order := query.order.getD .desc
  limit := query.pagination.perPage
  offset := query.pagination.offset

def UsersService.list (c : Collation) (query : ListUsersQuery) (users : Table User.id) :
    PaginatedResponse UserResponse :=
  let (users, total) := UsersRepository.list c query.filter users
  .new (users.map User.response) query.pagination total

/-! ## The audit log -/

structure AuditLogEntry extends AuditEntry where
  id : Uuid

structure ListAuditLogQuery where
  page : Option UInt32
  perPage : Option UInt32

/-- `ORDER BY created_at DESC, id DESC` -/
def AuditLogEntry.newer (a b : AuditLogEntry) : Bool :=
  b.createdAt < a.createdAt || (b.createdAt = a.createdAt && b.id ≤ a.id)

def AuditLogRepository.list (limit offset : ℕ) (entries : Table AuditLogEntry.id) :
    List AuditLogEntry × ℕ :=
  let total := entries.countWhere fun _ ↦ true
  let selected := entries.selectWhere fun _ ↦ true
  (window limit offset (selected.insertionSort fun a b ↦ a.newer b = true), total)

structure AuditLogEntryResponse where
  id : Uuid
  actorUserId : Uuid
  action : String
  targetUserId : Option Uuid
  details : AuditDetails
  createdAt : Time

def AuditLogEntry.response (e : AuditLogEntry) : AuditLogEntryResponse where
  id := e.id
  actorUserId := e.actorUserId
  action := e.action
  targetUserId := e.targetUserId
  details := e.details
  createdAt := e.createdAt

def AuditLogService.list (query : ListAuditLogQuery) (entries : Table AuditLogEntry.id) :
    PaginatedResponse AuditLogEntryResponse :=
  let pagination := Pagination.ofQuery query.page query.perPage
  let (entries, total) := AuditLogRepository.list pagination.perPage pagination.offset entries
  .new (entries.map AuditLogEntry.response) pagination total

/-! ## A user's files -/

/-- What `MediaService::list` answers when nothing else happens meanwhile. -/
def MediaService.listed (cx : Context) (fails : FileStatement → Bool) (actor : AuthUser)
    (page perPage : Option UInt32) (s : FileServer) : Except AppError (List MediaResponse × ℕ) :=
  ((MediaService.list actor (.ofQuery page perPage)).alone (fileMachine cx fails) s).1

end ApiStarter
