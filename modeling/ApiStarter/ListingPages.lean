import ApiStarter.UserSearch
import Mathlib.Algebra.Group.Int.Defs

/-!
# Paging

Every listing orders by a column and then by the id, both in one direction, so
the pages are pieces of one list.  Page numbers end at `u32::MAX`: what lies past
the last page that can be asked for is out of reach, and nothing else is lost or
repeated.
-/

namespace ApiStarter

open Interleave Relational Text

/-- The last page that can be asked for. -/
def lastPage : ℕ := UInt32.size - 1

/-- A listing, as a function of the page asked for and of which view of the table it reads, cuts
`all` of the matching rows, each once and in one total order, into pages. -/
structure CutsIntoPages {α β κ : Type} {key : α → κ} (t : Views key) (isMatch : α → Prop)
    (before : α → α → Prop) (response : α → β) (perPage : Option UInt32)
    (listed : Option UInt32 → ℕ → List β × ℕ) (all : List α) : Prop where
  nodup : all.Nodup
  mem_iff : ∀ a, a ∈ all ↔ a ∈ t.view 0 ∧ isMatch a
  ordered : all.Pairwise before
  pages : PagesThrough (fun n ↦ (listed (some (UInt32.ofNat n)) n).1)
    (Pagination.ofQuery none perPage).perPage lastPage (all.map response)
  total : ∀ page i, (listed page i).2 = all.length
  /-- An absent page and page 0 are the first one. -/
  first : ∀ page i, page = none ∨ page = some 0 → listed page i = listed (some 1) i

/-- The bounds fit into an `i64`, and the page number minus one into a `u32`. -/
def Pagination.Fits (p : Pagination) : Prop :=
  1 ≤ p.page ∧ (p.perPage : ℤ) < 2 ^ 63 ∧ ((p.page - 1 : ℕ) : ℤ) * (p.perPage : ℤ) < 2 ^ 63

section Window

variable {page perPage : Option UInt32}

theorem ofQuery_perPage_bounds (page perPage : Option UInt32) :
    1 ≤ (Pagination.ofQuery page perPage).perPage ∧
      (Pagination.ofQuery page perPage).perPage ≤ 100 := by
  simp only [Pagination.ofQuery, Pagination.new]
  omega

theorem ofQuery_page_le (page perPage : Option UInt32) :
    (Pagination.ofQuery page perPage).page ≤ lastPage := by
  have hsize : ∀ n : UInt32, n.toNat ≤ lastPage := fun n ↦ Nat.le_sub_one_of_lt n.toNat_lt
  cases page with
  | none => simp [Pagination.ofQuery, Pagination.new, lastPage]
  | some n =>
      have := hsize n
      simp only [Pagination.ofQuery, Pagination.new, Option.map_some, Option.getD_some]
      simp only [lastPage, UInt32.size] at this ⊢
      omega

/-- Any two query parameters give a window the database can be asked for. -/
theorem ofQuery_fits (page perPage : Option UInt32) : (Pagination.ofQuery page perPage).Fits := by
  obtain ⟨hone, hmax⟩ := ofQuery_perPage_bounds page perPage
  have hpage := ofQuery_page_le page perPage
  refine ⟨?_, by omega, ?_⟩
  · simp only [Pagination.ofQuery, Pagination.new]
    omega
  · have hmul : ((Pagination.ofQuery page perPage).page - 1) *
        (Pagination.ofQuery page perPage).perPage ≤ UInt32.size * 100 := by
      apply Nat.mul_le_mul ?_ hmax
      simp only [lastPage] at hpage
      omega
    have hsize : UInt32.size * 100 < 2 ^ 63 := by decide
    exact_mod_cast hmul.trans_lt hsize

theorem ofQuery_some {n : ℕ} (hn : 1 ≤ n) (hlast : n ≤ lastPage) (perPage : Option UInt32) :
    (Pagination.ofQuery (some (UInt32.ofNat n)) perPage).page = n := by
  have hlt : n < UInt32.size := by
    simp only [lastPage, UInt32.size] at hlast ⊢
    omega
  have hvalue : (UInt32.ofNat n).toNat = n := by
    rw [UInt32.toNat_ofNat']
    exact Nat.mod_eq_of_lt hlt
  simp only [Pagination.ofQuery, Pagination.new, Option.map_some, Option.getD_some, hvalue]
  omega

end Window

/-- A count and a window of the ordered rows are a listing cut into pages. -/
theorem exists_cutsIntoPages {α β κ : Type} {key : α → κ} (t : Views key) (p : α → Bool)
    (r : α → α → Prop) [DecidableRel r] [Std.Total r] [IsTrans α r]
    (hkey : ∀ a b, r a b → r b a → key a = key b) (response : α → β) (perPage : Option UInt32)
    (listed : Option UInt32 → ℕ → List β × ℕ)
    (hlisted : ∀ page i, listed page i =
      ((window (Pagination.ofQuery page perPage).perPage (Pagination.ofQuery page perPage).offset
        (((t.view i).selectWhere p).insertionSort r)).map response, (t.view i).countWhere p)) :
    ∃ all, CutsIntoPages t (fun a ↦ p a = true) (fun a b ↦ r a b ∧ ¬r b a) response perPage listed
      all := by
  obtain ⟨all, hnodup, hmem, hordered, hviews⟩ := t.exists_sorted p r hkey
  refine ⟨all, hnodup, hmem, hordered, ?_, fun page i ↦ ?_, fun page i hpage ↦ ?_⟩
  · apply pagesThrough_of_window
    intro n hn hlast
    rw [hlisted, (hviews n).1, map_window, Pagination.offset, ofQuery_some hn hlast]
    rfl
  · rw [hlisted]
    exact (hviews i).2
  · rw [hlisted, hlisted]
    rcases hpage with rfl | rfl <;> rfl

/-! ## The three orders -/

section Orders

variable (c : Collation) (sort : UserSort) (order : SortOrder)

theorem UserSort.le_total (a b : User) : sort.le c a b = true ∨ sort.le c b a = true := by
  cases sort with
  | createdAt => simpa [UserSort.le] using Int.le_total a.createdAt b.createdAt
  | email => exact c.le_total _ _

theorem UserSort.le_trans {a b d : User} (hab : sort.le c a b = true) (hbd : sort.le c b d = true) :
    sort.le c a d = true := by
  cases sort with
  | createdAt =>
      simp only [UserSort.le, decide_eq_true_eq] at hab hbd ⊢
      exact Int.le_trans hab hbd
  | email => exact c.le_trans _ _ _ hab hbd

theorem UserSort.ascending_iff {a b : User} : sort.ascending c a b = true ↔
    sort.le c a b = true ∧ (sort.le c b a = true → a.id ≤ b.id) := by
  cases h : sort.le c b a <;> simp [UserSort.ascending, h]

theorem UserSort.ascending_total (a b : User) :
    sort.ascending c a b = true ∨ sort.ascending c b a = true := by
  rw [UserSort.ascending_iff, UserSort.ascending_iff]
  have htotal := sort.le_total c a b
  have hid := Nat.le_total a.id b.id
  cases h : sort.le c a b <;> cases h' : sort.le c b a <;> simp_all

theorem UserSort.ascending_trans {a b d : User} (hab : sort.ascending c a b = true)
    (hbd : sort.ascending c b d = true) : sort.ascending c a d = true := by
  rw [UserSort.ascending_iff] at *
  refine ⟨sort.le_trans c hab.1 hbd.1, fun hda ↦ ?_⟩
  have hba := sort.le_trans c hbd.1 hda
  have hdb := sort.le_trans c hda hab.1
  exact (hab.2 hba).trans (hbd.2 hdb)

theorem UserSort.id_eq_of_ascending {a b : User} (hab : sort.ascending c a b = true)
    (hba : sort.ascending c b a = true) : a.id = b.id := by
  rw [UserSort.ascending_iff] at *
  exact Nat.le_antisymm (hab.2 hba.1) (hba.2 hab.1)

instance : Std.Total fun a b ↦ listedBefore c sort order a b = true where
  total a b := by
    cases order with
    | asc => exact sort.ascending_total c a b
    | desc => exact sort.ascending_total c b a

instance : IsTrans User fun a b ↦ listedBefore c sort order a b = true where
  trans a b d hab hbd := by
    cases order with
    | asc => exact sort.ascending_trans c hab hbd
    | desc => exact sort.ascending_trans c hbd hab

theorem id_eq_of_listedBefore {a b : User} (hab : listedBefore c sort order a b = true)
    (hba : listedBefore c sort order b a = true) : a.id = b.id := by
  cases order with
  | asc => exact sort.id_eq_of_ascending c hab hba
  | desc => exact sort.id_eq_of_ascending c hba hab

theorem AuditLogEntry.newer_iff {a b : AuditLogEntry} : a.newer b = true ↔
    b.createdAt < a.createdAt ∨ (b.createdAt = a.createdAt ∧ b.id ≤ a.id) := by
  simp [AuditLogEntry.newer]

instance : Std.Total fun a b : AuditLogEntry ↦ a.newer b = true where
  total a b := by
    rw [AuditLogEntry.newer_iff, AuditLogEntry.newer_iff]
    exact newer_total a.createdAt b.createdAt a.id b.id

instance : IsTrans AuditLogEntry fun a b ↦ a.newer b = true where
  trans a b d hab hbd := by
    rw [AuditLogEntry.newer_iff] at *
    exact newer_trans a.createdAt b.createdAt d.createdAt a.id b.id d.id hab hbd

end Orders

/-! ## The three listings -/

/-- Servers whose media tables hold the same rows. -/
structure FileViews where
  server : ℕ → FileServer
  same : ∀ i m, m ∈ (server i).media.table ↔ m ∈ (server 0).media.table

def FileViews.media (files : FileViews) : Views Media.id where
  view i := (files.server i).media.table
  same := files.same

theorem listed_eq (cx : Context) (fails : FileStatement → Bool) (actor : AuthUser)
    (page perPage : Option UInt32) (s : FileServer) :
    MediaService.listed cx fails actor page perPage s =
      .ok ((window (Pagination.ofQuery page perPage).perPage
        (Pagination.ofQuery page perPage).offset
        (((s.media.table.selectWhere (Media.isOwnedBy actor.id)).insertionSort Media.newer))).map
          Media.response,
        s.media.table.countWhere (Media.isOwnedBy actor.id)) := rfl

/-- What the administrators' list shows for a query with another page. -/
def usersListed (c : Collation) (users : Views User.id) (query : ListUsersQuery)
    (page : Option UInt32) (i : ℕ) : List UserResponse × ℕ :=
  let response := UsersService.list c { query with page := page } (users.view i)
  (response.items, response.total)

def auditListed (entries : Views AuditLogEntry.id) (query : ListAuditLogQuery)
    (page : Option UInt32) (i : ℕ) : List AuditLogEntryResponse × ℕ :=
  let response := AuditLogService.list { query with page := page } (entries.view i)
  (response.items, response.total)

/-- The live users the query asks for. -/
def ListUsersQuery.Matches (query : ListUsersQuery) (u : User) : Prop :=
  u.isLive = true ∧ ∀ q ∈ query.search, u.contains q

theorem usersListed_cut (c : Collation) (users : Views User.id) (query : ListUsersQuery) :
    ∃ all, CutsIntoPages users query.Matches
      (fun a b ↦ listedBefore c query.filter.sort query.filter.order a b = true ∧
        ¬listedBefore c query.filter.sort query.filter.order b a = true)
      User.response query.perPage (usersListed c users query) all := by
  obtain ⟨all, hcut⟩ := exists_cutsIntoPages users
    (fun u ↦ u.isLive &&
      pushSearch (query.search.map fun q ↦ '%' :: escapeLike q.toList ++ ['%']) u)
    (fun a b ↦ listedBefore c query.filter.sort query.filter.order a b = true)
    (fun _ _ ↦ id_eq_of_listedBefore c _ _) User.response query.perPage
    (usersListed c users query) fun _ _ ↦ rfl
  refine ⟨all, hcut.nodup, fun u ↦ ?_, hcut.ordered, hcut.pages, hcut.total, hcut.first⟩
  rw [hcut.mem_iff, Bool.and_eq_true, pushSearch_iff, ListUsersQuery.Matches]

theorem mediaListed_cut (cx : Context) (fails : FileStatement → Bool) (actor : AuthUser)
    (files : FileViews) (perPage : Option UInt32) :
    ∃ listed : Option UInt32 → ℕ → List MediaResponse × ℕ,
      (∀ page i, MediaService.listed cx fails actor page perPage (files.server i) =
        .ok (listed page i)) ∧
      ∃ all, CutsIntoPages files.media (fun m ↦ m.ownerId = actor.id)
        (fun a b ↦ Media.newer a b ∧ ¬Media.newer b a) Media.response perPage listed all := by
  refine ⟨_, fun page i ↦ listed_eq cx fails actor page perPage (files.server i), ?_⟩
  obtain ⟨all, hcut⟩ := exists_cutsIntoPages files.media (Media.isOwnedBy actor.id) Media.newer
    (fun a b hab hba ↦ newer_antisymm a.createdAt b.createdAt a.id b.id hab hba) Media.response
    perPage _ fun _ _ ↦ rfl
  refine ⟨all, hcut.nodup, fun m ↦ ?_, hcut.ordered, hcut.pages, hcut.total, hcut.first⟩
  rw [hcut.mem_iff, Media.isOwnedBy, decide_eq_true_eq]

theorem auditListed_cut (entries : Views AuditLogEntry.id) (query : ListAuditLogQuery) :
    ∃ all, CutsIntoPages entries (fun _ ↦ True)
      (fun a b ↦ a.newer b = true ∧ ¬b.newer a = true) AuditLogEntry.response query.perPage
      (auditListed entries query) all := by
  obtain ⟨all, hcut⟩ := exists_cutsIntoPages entries (fun _ ↦ true)
    (fun a b : AuditLogEntry ↦ a.newer b = true)
    (fun a b hab hba ↦ newer_antisymm a.createdAt b.createdAt a.id b.id
      (AuditLogEntry.newer_iff.mp hab) (AuditLogEntry.newer_iff.mp hba))
    AuditLogEntry.response query.perPage (auditListed entries query) fun _ _ ↦ rfl
  exact ⟨all, hcut.nodup, fun e ↦ (hcut.mem_iff e).trans (by simp), hcut.ordered, hcut.pages,
    hcut.total, hcut.first⟩

/-- Every listing cuts its matching rows into pages, and no page asks the database for a bound
outside its integers. -/
theorem listings_cut_into_pages (c : Collation) (users : Views User.id) (query : ListUsersQuery)
    (cx : Context) (fails : FileStatement → Bool) (actor : AuthUser) (files : FileViews)
    (mediaPerPage : Option UInt32) (entries : Views AuditLogEntry.id) (log : ListAuditLogQuery) :
    (∃ all, CutsIntoPages users query.Matches
      (fun a b ↦ listedBefore c query.filter.sort query.filter.order a b = true ∧
        ¬listedBefore c query.filter.sort query.filter.order b a = true)
      User.response query.perPage (usersListed c users query) all) ∧
    (∃ listed : Option UInt32 → ℕ → List MediaResponse × ℕ,
      (∀ page i, MediaService.listed cx fails actor page mediaPerPage (files.server i) =
        .ok (listed page i)) ∧
      ∃ all, CutsIntoPages files.media (fun m ↦ m.ownerId = actor.id)
        (fun a b ↦ Media.newer a b ∧ ¬Media.newer b a) Media.response mediaPerPage listed all) ∧
    (∃ all, CutsIntoPages entries (fun _ ↦ True)
      (fun a b ↦ a.newer b = true ∧ ¬b.newer a = true) AuditLogEntry.response log.perPage
      (auditListed entries log) all) ∧
    ∀ page perPage, (Pagination.ofQuery page perPage).Fits :=
  ⟨usersListed_cut c users query, mediaListed_cut cx fails actor files mediaPerPage,
    auditListed_cut entries log, ofQuery_fits⟩

namespace CrowdSample

/-- Accounts that differ in their ids only. -/
def account (i : ℕ) : User := { SearchSample.discount with id := i }

theorem nodup_ids (n : ℕ) : (((List.range n).map account).map User.id).Nodup := by
  have hids : (((List.range n).map account).map User.id) = List.range n := by
    rw [List.map_map]
    exact List.map_id _
  rw [hids]
  exact List.nodup_range

def crowd (n : ℕ) : Table User.id := ⟨(List.range n).map account, nodup_ids n⟩

def crowds (n : ℕ) : Views User.id := ⟨fun _ ↦ crowd n, fun _ _ ↦ Iff.rfl⟩

/-- One user a page. -/
def query : ListUsersQuery := ⟨none, some 1, none, none, none⟩

theorem matches_account (i : ℕ) : query.Matches (account i) :=
  ⟨rfl, by simp [query, ListUsersQuery.search]⟩

theorem length_all {n : ℕ} {all : List User} (hnodup : all.Nodup)
    (hmem : ∀ u, u ∈ all ↔ u ∈ (crowds n).view 0 ∧ query.Matches u) : all.length = n := by
  have hperm : all.Perm (crowd n).rows := by
    apply (List.perm_ext_iff_of_nodup hnodup (crowd n).nodup.of_map).mpr
    intro u
    rw [hmem]
    refine ⟨And.left, fun hu ↦ ⟨hu, ?_⟩⟩
    obtain ⟨i, -, rfl⟩ := List.mem_map.mp hu
    exact matches_account i
  rw [hperm.length_eq, crowd, List.length_map, List.length_range]

end CrowdSample

open CrowdSample in
/-- One user a page does not reach beyond `u32::MAX` users. -/
theorem last_user_out_of_reach : ¬∀ (c : Collation) (users : Views User.id)
    (query : ListUsersQuery), ∃ all, CutsIntoPages users query.Matches
      (fun a b ↦ listedBefore c query.filter.sort query.filter.order a b = true ∧
        ¬listedBefore c query.filter.sort query.filter.order b a = true)
      User.response query.perPage (usersListed c users query) all ∧
        firstPages (fun n ↦ (usersListed c users query (some (UInt32.ofNat n)) n).1) lastPage =
          all.map User.response := by
  intro h
  obtain ⟨all, hcut, hall⟩ := h SearchSample.flat (crowds UInt32.size) query
  have hlength := length_all hcut.nodup hcut.mem_iff
  have htaken := congrArg List.length ((hcut.pages.joined lastPage (Nat.le_refl _)).symm.trans hall)
  have hone : (Pagination.ofQuery none query.perPage).perPage = 1 := rfl
  rw [List.length_take, List.length_map, hlength, hone, Nat.mul_one] at htaken
  simp only [lastPage, UInt32.size] at htaken
  omega

end ApiStarter
