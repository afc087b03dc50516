import ApiStarter.Calls

/-!
# The audit trail

An administrator's request changes an account in one statement and records the
change in later ones.  What an update records it takes from the account as it
was read before the change, and an invitation records nothing.  Played back in
the order of the changes, the entries lead to each account's role and active
status as long as every update finds what its request had read and no
invitation succeeds.
-/

namespace ApiStarter

open Interleave Interleave.Prog Relational

/-- Administrator actions on users. -/
def Request.administers : Request → Bool
  | .createUser .. | .inviteUser .. | .updateUser .. | .deleteUser .. => true
  | _ => false

/-- A statement that can create, change or delete an account. -/
def Statement.changesUsers : Statement → Bool
  | .sql (.users (.create ..)) | .sql (.users (.update ..)) | .sql (.users (.softDelete ..)) => true
  | _ => false

/-- A statement that neither changes accounts nor records. -/
def Statement.isIdle : Statement → Bool
  | .sql (.recordAudit ..) => false
  | q => !q.changesUsers

/-- Like `Statement.fault`, with every insert into the audit log succeeding. -/
def Statement.auditedFault : (q : Statement) → Option q.Res
  | .sql (.recordAudit ..) => none
  | q => q.fault

def auditedMachine (cx : Context) : Machine Statement.Res Server ℕ :=
  { machine cx with fault := Statement.auditedFault }

/-- The role and active status of an account that exists. -/
structure Standing where
  role : Role
  isActive : Bool
  deriving DecidableEq

def User.standing (u : User) : Standing := ⟨u.role, u.isActive⟩

/-- `none` when there is no such account or it was deleted. -/
def status (u : Uuid) (s : Server) : Option Standing :=
  (s.db.users.find? (liveId u)).map User.standing

/-! ## Changes and what they are recorded as -/

inductive AuditChange
  | created (role : Role)
  | roleChanged (before after : Role)
  | activeChanged (before after : Bool)
  | deleted
  deriving DecidableEq

def AuditDetails.change : AuditDetails → AuditChange
  | .created _ role => .created role
  | .roleChanged before after => .roleChanged before after
  | .activeChanged before after => .activeChanged before after
  | .deleted _ => .deleted

def roleChanges (before after : Role) : List AuditChange :=
  if after ≠ before then [.roleChanged before after] else []

def activeChanges (before after : Bool) : List AuditChange :=
  if after ≠ before then [.activeChanged before after] else []

/-- What leads from one status to another. -/
def changes : Option Standing → Option Standing → List AuditChange
  | none, none => []
  | none, some after => [.created after.role]
  | some _, none => [.deleted]
  | some before, some after =>
      roleChanges before.role after.role ++ activeChanges before.isActive after.isActive

/-- What an event changed about the account. -/
def made (cx : Context) (u : Uuid) : AppEvent → List AuditChange
  | .ran _ _ q s => changes (status u s) (status u ((machine cx).exec q s).2)
  | .answered .. => []

/-- The row an event added to the audit log. -/
def audited : AppEvent → Option AuditEntry
  | .ran _ _ (.sql (.recordAudit actor action target details)) s =>
      some ⟨actor, action, target, details, s.now⟩
  | _ => none

/-- The change of the account that an event recorded. -/
def entry (u : Uuid) (e : AppEvent) : Option AuditChange :=
  ((audited e).filter fun x ↦ decide (x.targetUserId = some u)).map fun x ↦ x.details.change

/-- All changes of the account in a history, oldest first. -/
def madeIn (cx : Context) (u : Uuid) (h : List AppEvent) : List AuditChange :=
  h.reverse.flatMap (made cx u)

/-- All entries about the account in a history, oldest first. -/
def recordedIn (u : Uuid) (h : List AppEvent) : List AuditChange := h.reverse.filterMap (entry u)

def AppEvent.changesUsers : AppEvent → Bool
  | .ran _ _ q _ => q.changesUsers
  | .answered .. => false

/-- The entries about the account, each request's where it changed the account. -/
def inCommitOrder (u : Uuid) (h : List AppEvent) : List AuditChange :=
  h.reverse.flatMap fun e ↦
    if AppEvent.changesUsers e then recordedIn u (ownEvents e.tid h) else []

def AuditChange.apply : Option Standing → AuditChange → Option Standing
  | _, .created role => some ⟨role, true⟩
  | before, .roleChanged _ after => before.map fun x ↦ { x with role := after }
  | before, .activeChanged _ after => before.map fun x ↦ { x with isActive := after }
  | _, .deleted => none

def replay (before : Option Standing) (l : List AuditChange) : Option Standing :=
  l.foldl AuditChange.apply before

/-- Every request that did anything has been answered. -/
def Quiescent (h : List AppEvent) : Prop := ∀ e ∈ h, ∃ a ∈ h, a.tid = e.tid ∧ a.isAnswer = true

/-- What the audit log promises in a world reached from `s`. -/
structure AuditTruthful (cx : Context) (s : Server) (W : AppWorld) : Prop where
  /-- The entries are those that requests recorded. -/
  logged : W.store.db.auditLog = W.history.filterMap audited ++ s.db.auditLog
  /-- A request that was answered has recorded the changes it made, with the values they had. -/
  recorded : ∀ a ∈ W.history, a.isAnswer = true → ∀ u,
    recordedIn u (ownEvents a.tid W.history) = madeIn cx u (ownEvents a.tid W.history)
  /-- The entries replay to what the account is now. -/
  replays : Quiescent W.history → ∀ u,
    replay (status u s) (inCommitOrder u W.history) = status u W.store

/-- The account as a request found it last. -/
def lastRead (u : Uuid) : List AppEvent → Option User
  | .ran _ _ (.sql (.users (.findById id))) s :: own =>
      if id = u then s.db.users.find? (liveId u) else lastRead u own
  | _ :: own => lastRead u own
  | [] => none

/-- An update that is carried out finds what it changes as its request had read it, and an
invitation creates no account. -/
def foundAsRead : AppEvent → List AppEvent → Bool
  | .ran _ _ (.sql (.users (.update id patch guard))) s, own =>
      guard && otherActiveAdmins s.db.users id = 0 || (s.db.users.find? (liveId id)).all fun row ↦
        (lastRead id own).any fun read ↦
          (patch.role.isNone || decide (row.role = read.role)) &&
            (patch.isActive.isNone || decide (row.isActive = read.isActive))
  | .ran _ (.inviteUser ..) (.sql (.users (.create id new))) s, _ =>
      emailTaken s.db.users new.email || (s.db.users.get? id).isSome
  | _, _ => true

/-! ## Replaying -/

section Replay

variable {cx : Context} {u : Uuid} {before after : Option Standing}

theorem replay_append (before : Option Standing) (l l' : List AuditChange) :
    replay before (l ++ l') = replay (replay before l) l' := by
  simp [replay]

theorem replay_changes (hactive : before = none → ∀ x, after = some x → x.isActive = true) :
    replay before (changes before after) = after := by
  cases before with
  | none =>
      cases after with
      | none => rfl
      | some x =>
          obtain ⟨role, isActive⟩ := x
          obtain rfl : isActive = true := hactive rfl _ rfl
          rfl
  | some x =>
      cases after with
      | none => rfl
      | some y =>
          obtain ⟨role, isActive⟩ := x
          obtain ⟨role', isActive'⟩ := y
          by_cases hrole : role' = role <;> by_cases hactive : isActive' = isActive <;>
            simp [replay, changes, roleChanges, activeChanges, AuditChange.apply, hrole, hactive]

@[simp] theorem changes_self (x : Option Standing) : changes x x = [] := by
  cases x <;> simp [changes, roleChanges, activeChanges]

theorem roleChanges_getD {found read : Role} {new : Option Role}
    (h : new.isNone = true ∨ found = read) :
    roleChanges found (new.getD found) = new.elim [] (roleChanges read) := by
  cases new with
  | none => simp [roleChanges]
  | some r =>
      obtain rfl : found = read := by simpa using h
      rfl

theorem activeChanges_getD {found read : Bool} {new : Option Bool}
    (h : new.isNone = true ∨ found = read) :
    activeChanges found (new.getD found) = new.elim [] (activeChanges read) := by
  cases new with
  | none => simp [activeChanges]
  | some b =>
      obtain rfl : found = read := by simpa using h
      rfl

theorem madeIn_cons (cx : Context) (u : Uuid) (e : AppEvent) (h : List AppEvent) :
    madeIn cx u (e :: h) = madeIn cx u h ++ made cx u e := by
  simp [madeIn]

theorem madeIn_eq_nil {h : List AppEvent} (hnone : ∀ e ∈ h, made cx u e = []) :
    madeIn cx u h = [] :=
  List.flatMap_eq_nil_iff.mpr fun e he ↦ hnone e (by simpa using he)

theorem madeIn_split (cx : Context) (u : Uuid) (later earlier : List AppEvent) (e : AppEvent) :
    madeIn cx u (later ++ e :: earlier) =
      madeIn cx u earlier ++ made cx u e ++ madeIn cx u later := by
  simp [madeIn]

theorem recordedIn_cons (u : Uuid) (e : AppEvent) (h : List AppEvent) :
    recordedIn u (e :: h) = recordedIn u h ++ (entry u e).toList := by
  cases he : entry u e <;> simp [recordedIn, List.filterMap_append, he]

end Replay

/-! ## One statement -/

section Statements

variable {cx : Context} {u : Uuid} {s : Server} {q : Statement}

theorem status_eq (u : Uuid) (s : Server) :
    status u s = ((s.db.users.get? u).filter User.isLive).map User.standing := by
  rw [status, find?_liveId]

/-- The other writes of a row leave role, active status and deletion alone. -/
theorem UsersSql.standing_onRow (now : Time) (users : Table User.id) (row : User) {q : UsersSql}
    (hq : (Statement.sql (.users q)).changesUsers = false) :
    (q.onRow now users row).standing = row.standing ∧
      (q.onRow now users row).isLive = row.isLive := by
  cases q with
  | create id new => simp [Statement.changesUsers] at hq
  | update id patch guard => simp [Statement.changesUsers] at hq
  | softDelete id guard => simp [Statement.changesUsers] at hq
  | _ =>
      simp only [onRow]
      repeat' split
      all_goals simp [User.standing, User.isLive, User.withFailedLogin]

theorem status_exec (hq : q.changesUsers = false) (u : Uuid) (s : Server) :
    status u ((machine cx).exec q s).2 = status u s := by
  cases q with
  | sql q =>
      cases q with
      | users q =>
          simp only [status_eq, exec_sql, Sql.run]
          cases hget : s.db.users.get? u with
          | none =>
              cases hget' : (q.run s.now s.db.users).2.get? u with
              | none => rfl
              | some row =>
                  obtain ⟨new, rfl, -⟩ := UsersSql.get?_run_none hget hget'
                  simp [Statement.changesUsers] at hq
          | some row =>
              obtain ⟨hstanding, hlive⟩ := UsersSql.standing_onRow s.now s.db.users row hq
              rw [UsersSql.get?_run hget]
              simp [Option.filter, hlive, apply_ite (Option.map User.standing), hstanding]
      | _ => rfl
  | _ => rfl

theorem made_of_changesUsers {e : AppEvent} (he : AppEvent.changesUsers e = false) :
    made cx u e = [] := by
  cases e with
  | ran i k q s =>
      have hsame : status u ((machine cx).exec q s).2 = status u s := status_exec he u s
      simp [made, hsame]
  | answered => rfl

/-- Accounts are created active. -/
theorem isActive_of_created {x : Standing} (hnone : status u s = none)
    (hsome : status u ((machine cx).exec q s).2 = some x) : x.isActive = true := by
  by_cases hq : q.changesUsers = true
  · cases q with
    | sql q =>
        cases q with
        | users q =>
            simp only [status_eq, exec_sql, Sql.run] at hnone hsome
            cases hget : s.db.users.get? u with
            | none =>
                obtain ⟨row, hrow, rfl⟩ := Option.map_eq_some_iff.mp hsome
                obtain ⟨hrow, -⟩ := Option.filter_eq_some_iff.mp hrow
                obtain ⟨new, -, rfl⟩ := UsersSql.get?_run_none hget hrow
                rfl
            | some row =>
                have hdead : row.isLive = false := by simpa [hget, Option.filter] using hnone
                have hstays := UsersSql.isLive_onRow s.now s.db.users q hdead
                simp [UsersSql.get?_run hget, Option.filter, hstays] at hsome
        | _ => simp [Statement.changesUsers] at hq
    | _ => simp [Statement.changesUsers] at hq
  · rw [status_exec (by simpa using hq), hnone] at hsome
    cases hsome

theorem made_users (cx : Context) (u : Uuid) (i : ℕ) (k : Request) (q : UsersSql) (s : Server) :
    made cx u (.ran i k (.sql (.users q)) s) = changes (status u s)
      ((((q.run s.now s.db.users).2.get? u).filter User.isLive).map User.standing) := by
  rw [← find?_liveId]
  rfl

theorem made_of_unchanged {q : UsersSql} (h : (q.run s.now s.db.users).2 = s.db.users) (i : ℕ)
    (k : Request) : made cx u (.ran i k (.sql (.users q)) s) = [] := by
  rw [made_users, h, ← status_eq, changes_self]

/-- A write to the live row of `id` changes what it does to that row. -/
theorem changes_updateWhere (s : Server) (id u : Uuid) (f : User → User)
    (hf : ∀ row, (f row).id = row.id) :
    changes (status u s) ((((s.db.users.updateWhere (liveId id) f hf).get? u).filter
      User.isLive).map User.standing) =
      if id = u then (s.db.users.find? (liveId id)).elim [] fun row ↦
        changes (some row.standing) (((some (f row)).filter User.isLive).map User.standing)
      else [] := by
  rw [status_eq, find?_liveId]
  cases hget : s.db.users.get? u with
  | none =>
      rw [Table.get?_updateWhere_none hget]
      split
      next hid => simp [hid, hget, changes]
      next => rfl
  | some row =>
      have hrow : row.id = u := Table.key_of_get? hget
      rw [Table.get?_updateWhere_some hget]
      by_cases hid : id = u
      · subst hid
        cases hlive : row.isLive <;> simp [hget, liveId, hrow, hlive, Option.filter]
      · have hne : row.id ≠ id := fun h ↦ hid (h.symm.trans hrow)
        simp [liveId, hne, hid]

theorem made_create_error {id : Uuid} {new : NewUser} {e : UsersError}
    (h : ((UsersSql.create id new).run s.now s.db.users).1 = some (.error e))
    (i : ℕ) (k : Request) :
    made cx u (.ran i k (.sql (.users (.create id new))) s) = [] := by
  apply made_of_unchanged
  simp only [UsersSql.run] at h ⊢
  split
  · rfl
  next htaken =>
    rw [if_neg htaken] at h
    split
    · rfl
    next hinsert =>
      rw [hinsert] at h
      cases Option.some.inj h

theorem made_create {id : Uuid} {new : NewUser} {row : User}
    (h : ((UsersSql.create id new).run s.now s.db.users).1 = some (.ok row)) (i : ℕ) (k : Request)
    (u : Uuid) : made cx u (.ran i k (.sql (.users (.create id new))) s) =
      if id = u then [.created new.role] else [] := by
  obtain ⟨rfl, hnone, hget⟩ := UsersSql.create_eq_ok h
  rw [made_users, status_eq]
  split
  next hid =>
    subst hid
    rw [hnone, hget]
    rfl
  next hid =>
    cases hu : s.db.users.get? u with
    | some row =>
        rw [UsersSql.get?_run hu]
        exact changes_self _
    | none =>
        cases hu' : ((UsersSql.create id new).run s.now s.db.users).2.get? u with
        | none => rfl
        | some row =>
            obtain ⟨new', heq, -⟩ := UsersSql.get?_run_none hu hu'
            exact absurd (UsersSql.create.inj heq).1 hid

/-- A guarded statement fails only when its guard holds. -/
theorem guarded_error {α ε τ : Type} {g : Prop} [Decidable g] {e e' : ε} {a : α} {t t' : τ}
    (h : (if g then (some (.error e), t) else (some (.ok a), t')).1 = some (Except.error e')) :
    g := by
  by_contra hno
  rw [if_neg hno] at h
  cases Option.some.inj h

theorem guarded_ok {α ε τ : Type} {g : Prop} [Decidable g] {e : ε} {a a' : α} {t t' : τ}
    (h : (if g then (some (.error e), t) else (some (.ok a), t')).1 = some (Except.ok a')) :
    ¬g ∧ a = a' := by
  split at h
  next => cases Option.some.inj h
  next hno => exact ⟨hno, Except.ok.inj (Option.some.inj h)⟩

theorem made_update_error {id : Uuid} {patch : UserPatch} {guard : Bool} {e : UsersError}
    (h : ((UsersSql.update id patch guard).run s.now s.db.users).1 = some (.error e)) (i : ℕ)
    (k : Request) : made cx u (.ran i k (.sql (.users (.update id patch guard))) s) = [] := by
  apply made_of_unchanged
  exact congrArg Prod.snd (if_pos (guarded_error h))

theorem made_update {id : Uuid} {patch : UserPatch} {guard : Bool} {found : Option User}
    (h : ((UsersSql.update id patch guard).run s.now s.db.users).1 = some (.ok found)) (i : ℕ)
    (k : Request) :
    (guard && decide (otherActiveAdmins s.db.users id = 0)) = false ∧
      found = (s.db.users.find? (liveId id)).map (patch.apply s.now) ∧
      ∀ u, made cx u (.ran i k (.sql (.users (.update id patch guard))) s) =
        if id = u then (s.db.users.find? (liveId id)).elim [] fun row ↦
          roleChanges row.role (patch.role.getD row.role) ++
            activeChanges row.isActive (patch.isActive.getD row.isActive)
        else [] := by
  obtain ⟨hno, hfound⟩ := guarded_ok h
  have hguard := Bool.eq_false_of_not_eq_true hno
  refine ⟨hguard, hfound.symm, fun u ↦ ?_⟩
  rw [made_users]
  simp only [UsersSql.run, hguard, Bool.false_eq_true, if_false, changes_updateWhere]
  cases hfind : s.db.users.find? (liveId id) with
  | none => rfl
  | some row =>
      obtain ⟨-, -, hlive⟩ := find?_liveId_eq_some hfind
      have hkept : (some (patch.apply s.now row)).filter User.isLive =
          some (patch.apply s.now row) := Option.filter_eq_some_iff.mpr ⟨rfl, hlive⟩
      rw [Option.elim_some, Option.elim_some, hkept]
      rfl

theorem made_softDelete_error {id : Uuid} {guard : Bool} {e : UsersError}
    (h : ((UsersSql.softDelete id guard).run s.now s.db.users).1 = some (.error e)) (i : ℕ)
    (k : Request) : made cx u (.ran i k (.sql (.users (.softDelete id guard))) s) = [] := by
  apply made_of_unchanged
  exact congrArg Prod.snd (if_pos (guarded_error h))

theorem made_softDelete {id : Uuid} {guard deleted : Bool}
    (h : ((UsersSql.softDelete id guard).run s.now s.db.users).1 = some (.ok deleted)) (i : ℕ)
    (k : Request) (u : Uuid) : made cx u (.ran i k (.sql (.users (.softDelete id guard))) s) =
      if id = u ∧ deleted = true then [.deleted] else [] := by
  obtain ⟨hno, hcounted⟩ := guarded_ok h
  have hguard := Bool.eq_false_of_not_eq_true hno
  have hdeleted : deleted = (s.db.users.find? (liveId id)).isSome := by
    rw [find?_liveId, ← hcounted]
    unfold liveId
    rw [s.db.users.countWhere_key id User.isLive]
    cases hget : s.db.users.get? id with
    | none => rfl
    | some row => cases hlive : row.isLive <;> simp [Option.filter, hlive]
  rw [made_users]
  simp only [UsersSql.run, hguard, Bool.false_eq_true, if_false, changes_updateWhere, hdeleted]
  cases hfind : s.db.users.find? (liveId id) with
  | none => simp
  | some row => simp [Option.filter, User.markDeleted, User.isLive, changes]

end Statements

/-! ## One request -/

def AppEvent.isIdle : AppEvent → Bool
  | .ran _ _ q _ => q.isIdle
  | .answered .. => true

abbrev AllFoundAsRead (own : List AppEvent) : Prop :=
  Along (fun e own ↦ foundAsRead e own = true) own

/-- What was done has been recorded. -/
def Told (cx : Context) (own : List AppEvent) : Prop :=
  AllFoundAsRead own → ∀ u, recordedIn u own = madeIn cx u own

def Untouched (own : List AppEvent) : Prop := ∀ x ∈ own, AppEvent.isIdle x = true

/-- A request changes accounts once, records after that, and has told all when it is answered. -/
def Tells (cx : Context) : AppEvent → List AppEvent → Prop
  | .ran _ _ q _, own => q.changesUsers = true → Untouched own
  | .answered .., own => Told cx own

/-- The thread went from `own` to `own'` and recorded `l` about the account. -/
structure Records (cx : Context) (id : Uuid) (l : List AuditChange) (own own' : List AppEvent) :
    Prop where
  recorded : ∀ u, recordedIn u own' = recordedIn u own ++ if id = u then l else []
  made : ∀ u, madeIn cx u own' = madeIn cx u own
  along : AllFoundAsRead own' → AllFoundAsRead own

section Walk

variable {cx : Context} {i : ℕ} {k : Request} {own own' own'' : List AppEvent} {id : Uuid}
  {l l' : List AuditChange}

theorem Records.refl (cx : Context) (id : Uuid) (own : List AppEvent) : Records cx id [] own own :=
  ⟨by simp, fun _ ↦ rfl, fun h ↦ h⟩

theorem Records.trans (h : Records cx id l own own') (h' : Records cx id l' own' own'') :
    Records cx id (l ++ l') own own'' := by
  refine ⟨fun u ↦ ?_, fun u ↦ (h'.made u).trans (h.made u), fun halong ↦ h.along (h'.along halong)⟩
  rw [h'.recorded, h.recorded, List.append_assoc]
  split <;> rfl

theorem changesUsers_of_isIdle {e : AppEvent} (he : AppEvent.isIdle e = true) :
    AppEvent.changesUsers e = false := by
  cases e with
  | ran i k q s =>
      simp only [AppEvent.isIdle, Statement.isIdle] at he
      split at he
      · cases he
      · simpa [AppEvent.changesUsers] using he
  | answered => rfl

theorem entry_of_isIdle {e : AppEvent} (he : AppEvent.isIdle e = true) (u : Uuid) :
    entry u e = none := by
  unfold entry audited
  split
  · cases he
  · rfl

theorem Told.of_untouched (h : Untouched own) : Told cx own := by
  intro _ u
  have hrecorded : recordedIn u own = [] :=
    List.filterMap_eq_nil_iff.mpr fun e he ↦ entry_of_isIdle (h e (by simpa using he)) u
  have hmade : madeIn cx u own = [] :=
    madeIn_eq_nil fun e he ↦ made_of_changesUsers (changesUsers_of_isIdle (h e he))
  rw [hrecorded, hmade]

theorem Untouched.cons (h : Untouched own) {e : AppEvent} (he : AppEvent.isIdle e = true) :
    Untouched (e :: own) := by
  simpa [Untouched, he] using h

/-- After the one change, what is left is to record it. -/
theorem Told.of_records {w : AppEvent} (hown : Untouched own)
    (hw : AppEvent.changesUsers w = true) (h : Records cx id l (w :: own) own')
    (hmade : AllFoundAsRead (w :: own) → ∀ u, made cx u w = if id = u then l else []) :
    Told cx own' := by
  intro halong u
  have halong' := h.along halong
  have hclean : Told cx own := Told.of_untouched hown
  have hbefore := hclean halong'.2 u
  have hentry : entry u w = none := by
    unfold entry audited
    split
    · cases hw
    · rfl
  rw [h.recorded, h.made, recordedIn_cons, madeIn_cons, hbefore, hentry, hmade halong' u]
  simp

/-- A change that changed nothing needs no entry. -/
theorem Told.of_made_nil {w : AppEvent} (hown : Untouched own)
    (hw : AppEvent.changesUsers w = true) (hmade : ∀ u, made cx u w = []) : Told cx (w :: own) :=
  Told.of_records hown hw (Records.refl cx 0 _) fun _ u ↦ by simp [hmade]

theorem tells_recordAudit {actor : Uuid} {action : String} {details : AuditDetails}
    {Q : Unit → List AppEvent → Prop} {E : AppError → List AppEvent → Prop}
    (hQ : ∀ own', Records cx id [details.change] own own' → Q () own') :
    Traced (auditedMachine cx) (Tells cx) i k (recordAudit actor action (some id) details) Q E
      own := by
  refine traced_bind.mpr (traced_bindBoth.mpr
    (traced_sql_on (M := auditedMachine cx) (fun _ ↦ rfl) ?_ ?_ ?_ ?_))
  · exact fun s h ↦ by cases h
  · refine fun s r _ ↦ hQ _ ⟨fun u ↦ ?_, fun u ↦ ?_, fun halong ↦ halong.2⟩
    · rw [recordedIn_cons]
      by_cases hu : id = u <;> simp [entry, audited, hu]
    · rw [madeIn_cons, made_of_changesUsers rfl, List.append_nil]
  · exact fun s hnone ↦ by cases hnone
  · rintro r ⟨⟩

theorem tells_auditRole {actor : AuthUser} {before : User} {newRole : Option Role}
    {Q : Unit → List AppEvent → Prop} {E : AppError → List AppEvent → Prop}
    (hQ : ∀ own', Records cx before.id (newRole.elim [] (roleChanges before.role)) own own' →
      Q () own') :
    Traced (auditedMachine cx) (Tells cx) i k (UsersService.auditRole actor before newRole) Q E
      own := by
  cases newRole with
  | none => exact hQ own (Records.refl cx _ own)
  | some newRole =>
      simp only [UsersService.auditRole]
      split
      next hne =>
        refine tells_recordAudit fun own' h ↦ hQ own' ?_
        simpa [roleChanges, hne, AuditDetails.change] using h
      next heq =>
        apply hQ
        simpa [roleChanges, heq] using Records.refl cx before.id own

theorem tells_auditActive {actor : AuthUser} {before : User} {nowActive : Option Bool}
    {Q : Unit → List AppEvent → Prop} {E : AppError → List AppEvent → Prop}
    (hQ : ∀ own',
      Records cx before.id (nowActive.elim [] (activeChanges before.isActive)) own own' →
      Q () own') :
    Traced (auditedMachine cx) (Tells cx) i k (UsersService.auditActive actor before nowActive) Q E
      own := by
  cases nowActive with
  | none => exact hQ own (Records.refl cx _ own)
  | some nowActive =>
      simp only [UsersService.auditActive]
      split
      next hne =>
        refine tells_recordAudit fun own' h ↦ hQ own' ?_
        simpa [activeChanges, hne, AuditDetails.change] using h
      next heq =>
        apply hQ
        simpa [activeChanges, heq] using Records.refl cx before.id own

theorem only_idle_authUser (cx : Context) (caller : Presented) (isSafe : Bool) :
    (authUser cx caller isSafe).Only fun q ↦ q.isIdle = true := by
  cases caller with
  | bearer claims => simp [authUser, verifySession, Statement.isIdle, Statement.changesUsers]
  | apiKey raw =>
      simp [authUser, authenticateApiKey, Prog.bind_assoc, Statement.isIdle, Statement.changesUsers]

/-- What runs idle statements only leaves nothing to tell. -/
theorem tells_idle {α ε' : Type} {p : Prog Statement.Res ε' α} {Q : α → List AppEvent → Prop}
    {E : ε' → List AppEvent → Prop} (hp : p.Only fun q ↦ q.isIdle = true) (hown : Untouched own)
    (hQ : ∀ a own', Untouched own' → Q a own') (hE : ∀ e own', Untouched own' → E e own') :
    Traced (auditedMachine cx) (Tells cx) i k p Q E own :=
  (traced_of_only (A := Untouched) hp (returns_true _)
    (fun _ hq _ _ h ↦ ⟨fun _ ↦ h, h.cons hq⟩) hown).mono (fun a own' h ↦ hQ a own' h.2) hE

theorem tells_adminUser {caller : Presented} {isSafe : Bool} {Q : AuthUser → List AppEvent → Prop}
    {E : AppError → List AppEvent → Prop} (hQ : ∀ actor own', Untouched own' → Q actor own')
    (hE : ∀ e own', Told cx own' → E e own') :
    Traced (auditedMachine cx) (Tells cx) i k (adminUser cx caller isSafe) Q E [] :=
  tells_idle ((only_idle_authUser cx caller isSafe).bind fun _ ↦ by simp) (by simp [Untouched]) hQ
    fun e own' h ↦ hE e own' (Told.of_untouched h)

/-- Reading the account before it is changed. -/
theorem tells_require {Q : User → List AppEvent → Prop} {E : AppError → List AppEvent → Prop}
    (hown : Untouched own) (hQ : ∀ before own', Untouched own' → before.id = id →
      lastRead id own' = some before → Q before own') (hE : ∀ e own', Told cx own' → E e own') :
    Traced (auditedMachine cx) (Tells cx) i k (UsersService.require id) Q E own := by
  have hread : ∀ s, Untouched (.ran i k (.sql (.users (.findById id))) s :: own) :=
    fun s ↦ hown.cons rfl
  refine traced_bind.mpr (traced_sql_on (M := auditedMachine cx) (fun _ ↦ rfl) ?_ ?_ ?_ ?_)
  · exact fun s h ↦ by cases h
  · intro s found hfound
    refine (traced_okOr ..).mpr ⟨fun before hbefore ↦ ?_, fun _ ↦ hE _ _ (.of_untouched (hread s))⟩
    have hfind := (Option.some.inj hfound).trans hbefore
    apply hQ before _ (hread s) (find?_liveId_eq_some hfind).2.1
    rw [lastRead, if_pos rfl, hfind]
  · exact fun s hnone ↦ by cases hnone
  · rintro r hr
    exact ⟨(Option.some.inj hr).symm, hE _ _ (.of_untouched hown)⟩

theorem tells_update {actor : AuthUser} {dto : UpdateUserDto}
    {Q : UserResponse → List AppEvent → Prop}
    {E : AppError → List AppEvent → Prop} (hown : Untouched own)
    (hQ : ∀ r own', Told cx own' → Q r own') (hE : ∀ e own', Told cx own' → E e own') :
    Traced (auditedMachine cx) (Tells cx) i k (UsersService.update actor id dto) Q E own := by
  have hclean : Told cx own := Told.of_untouched hown
  refine traced_bind.mpr ((traced_ensure ..).mpr ⟨fun _ ↦ ?_, fun _ ↦ hE _ _ hclean⟩)
  refine traced_bind.mpr (tells_require hown (fun before own₁ hown₁ hid hread ↦ ?_) hE)
  refine traced_bind.mpr (traced_sql_on (M := auditedMachine cx) (fun _ ↦ rfl) ?_ ?_ ?_ ?_)
  · exact fun _ _ ↦ hown₁
  · intro s result hresult
    cases result with
    | error e => exact hE _ _ (.of_made_nil hown₁ rfl fun u ↦ made_update_error hresult i k)
    | ok found =>
        obtain ⟨hguard, hfound, hmade⟩ := @made_update cx _ _ _ _ _ hresult i k
        refine traced_bind.mpr (traced_bind.mpr
          ((traced_okOr ..).mpr ⟨fun updated hupdated ↦ ?_, fun hnone ↦ ?_⟩))
        · obtain ⟨row, hrow, rfl⟩ := Option.map_eq_some_iff.mp (hfound.symm.trans hupdated)
          refine traced_bind.mpr (tells_auditRole fun own₂ hrole ↦ ?_)
          refine traced_bind.mpr (tells_auditActive fun own₃ hactive ↦ ?_)
          apply hQ
          rw [hid] at hrole hactive
          refine .of_records hown₁ rfl (hrole.trans hactive) fun halong u ↦ ?_
          have hmatch := halong.1
          simp only [foundAsRead, hguard, hrow, hread, Bool.false_or, Option.all_some,
            Option.any_some, Bool.and_eq_true, Bool.or_eq_true, decide_eq_true_eq] at hmatch
          rw [hmade, hrow, Option.elim_some, roleChanges_getD hmatch.1, activeChanges_getD hmatch.2]
        · have hgone : s.db.users.find? (liveId id) = none :=
            Option.map_eq_none_iff.mp (hfound.symm.trans hnone)
          exact hE _ _ (.of_made_nil hown₁ rfl fun u ↦ by simp [hmade, hgone])
  · intro s hnone
    simp only [Sql.run, UsersSql.run] at hnone
    split at hnone <;> cases hnone
  · rintro r hr
    exact ⟨(Option.some.inj hr).symm, hE _ _ (.of_untouched hown₁)⟩

theorem tells_delete {actor : AuthUser} {Q : Option String → List AppEvent → Prop}
    {E : AppError → List AppEvent → Prop} (hown : Untouched own)
    (hQ : ∀ r own', Told cx own' → Q r own') (hE : ∀ e own', Told cx own' → E e own') :
    Traced (auditedMachine cx) (Tells cx) i k (UsersService.delete actor id) Q E own := by
  have hclean : Told cx own := Told.of_untouched hown
  refine traced_bind.mpr ((traced_ensure ..).mpr ⟨fun _ ↦ ?_, fun _ ↦ hE _ _ hclean⟩)
  refine traced_bind.mpr (tells_require hown (fun target own₁ hown₁ _ _ ↦ ?_) hE)
  refine traced_bind.mpr (traced_sql_on (M := auditedMachine cx) (fun _ ↦ rfl) ?_ ?_ ?_ ?_)
  · exact fun _ _ ↦ hown₁
  · intro s result hresult
    cases result with
    | error e => exact hE _ _ (.of_made_nil hown₁ rfl fun u ↦ made_softDelete_error hresult i k)
    | ok deleted =>
        have hmade := @made_softDelete cx _ _ _ _ hresult i k
        refine traced_bind.mpr
          (traced_bind.mpr ((traced_ensure ..).mpr ⟨fun hdone ↦ ?_, fun hnot ↦ ?_⟩))
        · refine traced_bind.mpr (tells_recordAudit fun own₂ hrecords ↦ hQ _ _ ?_)
          exact .of_records hown₁ rfl hrecords fun _ u ↦ by simp [hmade, hdone, AuditDetails.change]
        · exact hE _ _ (.of_made_nil hown₁ rfl fun u ↦ by simp [hmade, hnot])
  · intro s hnone
    simp only [Sql.run, UsersSql.run] at hnone
    split at hnone <;> cases hnone
  · rintro r hr
    exact ⟨(Option.some.inj hr).symm, hE _ _ (.of_untouched hown₁)⟩

/-- Creating an account is the last thing that happens on the way. -/
theorem tells_createWithPassword {email password : String} {name : Option String} {role : Role}
    {verified : Bool} {Q : User → List AppEvent → Prop} {E : AppError → List AppEvent → Prop}
    (hown : Untouched own)
    (hQ : ∀ row id new s own', Untouched own' →
      ((UsersSql.create id new).run s.now s.db.users).1 = some (.ok row) → new.role = role →
        Q row (.ran i k (.sql (.users (.create id new))) s :: own'))
    (hE : ∀ e own', Told cx own' → E e own') :
    Traced (auditedMachine cx) (Tells cx) i k
      (UsersService.createWithPassword cx email password name role verified) Q E own := by
  have hclean : ∀ e own', Untouched own' → E e own' := fun e own' h ↦ hE e own' (.of_untouched h)
  refine traced_bind.mpr (tells_idle only_rejectPasswordIfPolicyViolation hown
    (fun _ own₁ hown₁ ↦ ?_) hclean)
  refine traced_bind.mpr (tells_idle ?_ hown₁ (fun hash own₂ hown₂ ↦ ?_) hclean)
  · simp [hashBlocking, Statement.isIdle, Statement.changesUsers]
  refine traced_bind.mpr ((traced_ask _).mpr ⟨fun s₃ ↦ ⟨fun h ↦ (by cases h), ?_⟩, by rintro _ ⟨⟩⟩)
  have hown₃ := hown₂.cons (e := .ran i k .draw s₃) rfl
  refine traced_bind.mpr (traced_sql_on (M := auditedMachine cx) (fun _ ↦ rfl) ?_ ?_ ?_ ?_)
  · exact fun _ _ ↦ hown₃
  · intro s result hresult
    cases result with
    | error e => exact hE _ _ (.of_made_nil hown₃ rfl fun u ↦ made_create_error hresult i k)
    | ok row => exact hQ row _ _ s _ hown₃ hresult rfl
  · intro s hnone
    simp only [Sql.run, UsersSql.run] at hnone
    repeat' split at hnone
    all_goals cases hnone
  · rintro r hr
    exact ⟨(Option.some.inj hr).symm, hclean _ _ hown₃⟩

end Walk

/-- Once an account was created by invitation the condition is broken. -/
theorem not_foundAsRead_of_invited {s : Server} {id : Uuid} {new : NewUser} {row : User}
    (h : ((UsersSql.create id new).run s.now s.db.users).1 = some (.ok row)) (i : ℕ)
    (caller : Presented) (email : String) (name : Option String) (role : Option Role)
    (own : List AppEvent) :
    foundAsRead (.ran i (.inviteUser caller email name role) (.sql (.users (.create id new))) s)
      own = false := by
  obtain ⟨rfl, hnone, -⟩ := UsersSql.create_eq_ok h
  have hfree : emailTaken s.db.users new.email = false := by
    cases htaken : emailTaken s.db.users new.email with
    | false => rfl
    | true => simp [UsersSql.run, htaken] at h
  simp [foundAsRead, hfree, hnone]

theorem traces_tells (cx : Context) {k : Request} (hk : k.administers = true) :
    Traces (auditedMachine cx) (Tells cx) k (handle cx) := by
  intro i
  have hE : ∀ (e : AppError) own, Told cx own → Delivers (Tells cx) i k (.error e) own :=
    fun _ _ h _ ↦ h
  have hret : ∀ (r : Response) own, Told cx own → Delivers (Tells cx) i k (.ok r) own :=
    fun _ _ h _ ↦ h
  cases k with
  | createUser caller email password name role =>
      refine traced_bind.mpr (tells_adminUser (fun actor own hown ↦ ?_) hE)
      refine traced_bind.mpr (traced_bind.mpr (tells_createWithPassword hown ?_ hE))
      intro row id new s own₁ hown₁ hcreate hrole
      obtain ⟨rfl, -, -⟩ := UsersSql.create_eq_ok hcreate
      refine traced_bind.mpr (tells_recordAudit fun own₂ hrecords ↦ hret _ _ ?_)
      refine .of_records hown₁ rfl hrecords fun _ u ↦ ?_
      rw [made_create hcreate, hrole]
      rfl
  | updateUser caller id dto =>
      refine traced_bind.mpr (tells_adminUser (fun actor own hown ↦ ?_) hE)
      exact traced_bind.mpr (tells_update hown (fun _ own' h ↦ hret _ own' h) hE)
  | deleteUser caller id =>
      refine traced_bind.mpr (tells_adminUser (fun actor own hown ↦ ?_) hE)
      exact traced_bind.mpr (tells_delete hown (fun _ own' h ↦ hret _ own' h) hE)
  | inviteUser caller email name role =>
      refine traced_bind.mpr (tells_adminUser (fun _ own hown ↦ ?_) hE)
      have htoken : (generateToken cx : Req GeneratedToken).Only fun q ↦ q.isIdle = true := by
        simp [generateToken, Statement.isIdle, Statement.changesUsers]
      refine traced_bind.mpr (traced_bind.mpr (tells_idle htoken hown (fun _ own hown ↦ ?_)
        fun e own' h ↦ hE e own' (.of_untouched h)))
      refine traced_bind.mpr (tells_createWithPassword hown ?_ hE)
      intro row id new s own₁ hown₁ hcreate _
      have hbroken : ¬AllFoundAsRead (.ran i (.inviteUser caller email name role)
          (.sql (.users (.create id new))) s :: own₁) := by
        intro halong
        simpa [not_foundAsRead_of_invited hcreate] using halong.1
      have hidle : (do
          let raw ← OneTimeTokenService.issue cx row.id .passwordReset
            (Time.hours cx.emailVerificationTtlHours) none
          send (.invitation row.email raw)
          pure row.response : Req UserResponse).Only fun q ↦ q.isIdle = true := by
        simp [OneTimeTokenService.issue, Prog.bind_assoc, Statement.isIdle, Statement.changesUsers]
      have hrest := traced_of_only (M := auditedMachine cx) (P := Tells cx) (i := i)
        (k := .inviteUser caller email name role) (A := fun own ↦ ¬AllFoundAsRead own) hidle
        (returns_true _) (fun q hq s own h ↦ ⟨fun hw ↦ ?_, fun halong ↦ h halong.2⟩) hbroken
      · exact hrest.mono (fun _ own' h ↦ hret _ own' fun halong ↦ absurd halong h.2)
          fun e own' h ↦ hE e own' fun halong ↦ absurd halong h
      · have hnot := changesUsers_of_isIdle (e := .ran i .cleanup q s) hq
        simp [AppEvent.changesUsers, hw] at hnot
  | _ => cases hk

/-! ## All runs -/

section Runs

variable {cx : Context} {s : Server} {c : AppConfig}

/-- What changed leads to what there is. -/
theorem replay_madeIn {allowed : Request → Prop}
    (hc : Reachable (auditedMachine cx) (handle cx) allowed s c) (u : Uuid) :
    replay (status u s) (madeIn cx u c.world.history) = status u c.world.store := by
  refine hc.world_induction (P := fun W ↦
    replay (status u s) (madeIn cx u W.history) = status u W.store) rfl ?_ ?_ ?_
  · intro i k q W ih
    rw [World.ran_history, madeIn_cons, replay_append, ih]
    exact replay_changes fun hnone x hx ↦ isActive_of_created (q := q) hnone hx
  · intro i k a W ih
    rw [World.answered_history, madeIn_cons]
    simpa [made] using ih
  · exact fun x W ih ↦ ih

theorem auditLog_eq {allowed : Request → Prop}
    (hc : Reachable (auditedMachine cx) (handle cx) allowed s c) :
    c.world.store.db.auditLog = c.world.history.filterMap audited ++ s.db.auditLog := by
  refine hc.world_induction (P := fun W ↦
    W.store.db.auditLog = W.history.filterMap audited ++ s.db.auditLog) rfl ?_ ?_ ?_
  · intro i k q W ih
    cases q with
    | sql q =>
        cases q with
        | recordAudit actor action target details => exact congrArg (List.cons _) ih
        | _ => exact ih
    | _ => exact ih
  · exact fun i k a W ih ↦ ih
  · exact fun x W ih ↦ ih

variable (hc : Reachable (auditedMachine cx) (handle cx) (fun k ↦ k.administers = true) s c)
include hc

/-- What a request did before and after its change to the accounts changed nothing. -/
theorem madeIn_ownEvents {u : Uuid} {e : AppEvent} (he : e ∈ c.world.history)
    (hchanges : AppEvent.changesUsers e = true) :
    madeIn cx u (ownEvents e.tid c.world.history) = made cx u e := by
  have htells := hc.traces fun k hk ↦ traces_tells cx hk
  obtain ⟨later, earlier, hhist⟩ := List.append_of_mem he
  have hbefore : ∀ x ∈ ownEvents e.tid earlier, made cx u x = [] := by
    intro x hx
    have hlocal : AlongOwn (Tells cx) e earlier := Along.of_append (hhist ▸ htells)
    cases e with
    | ran i k q b => exact made_of_changesUsers (changesUsers_of_isIdle (hlocal hchanges x hx))
    | answered => cases hchanges
  have hafter : ∀ x ∈ ownEvents e.tid later, made cx u x = [] := by
    intro x hx
    obtain ⟨hx, htid⟩ := mem_ownEvents.mp hx
    obtain ⟨newest, mid, rfl⟩ := List.append_of_mem hx
    have hsplit : c.world.history = newest ++ x :: (mid ++ e :: earlier) := by simp [hhist]
    have hlocal : AlongOwn (Tells cx) x (mid ++ e :: earlier) := Along.of_append (hsplit ▸ htells)
    cases hx' : AppEvent.changesUsers x with
    | false => exact made_of_changesUsers hx'
    | true =>
        cases x with
        | ran i k q b =>
            have hidle := hlocal hx' e (mem_ownEvents.mpr ⟨by simp, htid.symm⟩)
            rw [changesUsers_of_isIdle hidle] at hchanges
            cases hchanges
        | answered => cases hx'
  rw [hhist, ownEvents_split, madeIn_split, madeIn_eq_nil hbefore, madeIn_eq_nil hafter]
  simp

variable (hfound : Along (AlongOwn fun e own ↦ foundAsRead e own = true) c.world.history)
include hfound

theorem recordedIn_of_answered {a : AppEvent} (ha : a ∈ c.world.history)
    (hanswer : a.isAnswer = true) (u : Uuid) :
    recordedIn u (ownEvents a.tid c.world.history) =
      madeIn cx u (ownEvents a.tid c.world.history) := by
  have htells := hc.traces fun k hk ↦ traces_tells cx hk
  have hsilent := hc.silent_after_answer
  obtain ⟨later, earlier, hhist⟩ := List.append_of_mem ha
  have hlater : ownEvents a.tid later = [] := by
    apply List.filter_eq_nil_iff.mpr
    intro x hx htid
    rw [hhist] at hsilent
    exact (List.pairwise_append.mp hsilent).2.2 x hx a List.mem_cons_self
      ⟨hanswer, (of_decide_eq_true htid).symm⟩
  have hown : ownEvents a.tid c.world.history = a :: ownEvents a.tid earlier := by
    rw [hhist, ownEvents_split, hlater, List.nil_append]
  have hlocal : AlongOwn (Tells cx) a earlier := Along.of_append (hhist ▸ htells)
  have halong : AllFoundAsRead (ownEvents a.tid c.world.history) := hfound.ownEvents a.tid
  rw [hown] at halong ⊢
  cases a with
  | ran => cases hanswer
  | answered i k r b =>
      have htold : Told cx (ownEvents (Event.answered i k r b).tid earlier) := hlocal
      rw [recordedIn_cons, madeIn_cons, htold halong.2 u]
      rfl

theorem inCommitOrder_eq (hanswered : Quiescent c.world.history) (u : Uuid) :
    inCommitOrder u c.world.history = madeIn cx u c.world.history := by
  apply List.flatMap_congr
  intro e he
  have hmem : e ∈ c.world.history := by simpa using he
  split
  next hchanges =>
    obtain ⟨a, ha, htid, hanswer⟩ := hanswered e hmem
    rw [← htid, recordedIn_of_answered hc hfound ha hanswer, htid,
      madeIn_ownEvents hc hmem hchanges]
  next hchanges => rw [made_of_changesUsers (by simpa using hchanges)]

theorem audit_log_truthful : AuditTruthful cx s c.world where
  logged := auditLog_eq hc
  recorded a ha hanswer u := recordedIn_of_answered hc hfound ha hanswer u
  replays hanswered u := by rw [inCommitOrder_eq hc hfound hanswered, replay_madeIn hc]

end Runs

/-! ## Two administrators -/

namespace AuditSample

open Sample

/-- Ada and Bob administer, Eve is a member. -/
def start : Server :=
  server ⟨[account 1 "ada@example.com" .admin, account 2 "bob@example.com" .admin,
  account 3 "eve@example.com" .user], by simp [account, NewUser.row]⟩

/-- `caller` gives Eve a role. -/
def setRole (caller : Uuid) (role : Role) : Request :=
  .updateUser (bearer caller .admin) 3 ⟨none, some role, none⟩

/-- Ada wants Eve to stay a member and reads that she is one, Bob makes her an administrator,
and Ada's update takes that back. -/
def crossed : List (Action Request ℕ) :=
  .start (setRole 1 .user) :: List.replicate 3 (.run 0) ++ alone 1 (setRole 2 .admin) 5 ++
    [.run 0, .answer 0]

end AuditSample

theorem audit_log_truthful_sample :
    ∃ c, Reachable (auditedMachine .sample) (handle .sample) (fun k ↦ k.administers = true)
      AuditSample.start c ∧ c.world.store.db.auditLog.length = 1 ∧
        AuditTruthful .sample AuditSample.start c.world := by
  let test : AppConfig → Bool := fun c ↦ decide (c.world.store.db.auditLog.length = 1) &&
    decide (Along (AlongOwn fun e own ↦ foundAsRead e own = true) c.world.history)
  obtain ⟨c, hc, htest⟩ : ∃ c, Reachable (auditedMachine .sample) (handle .sample)
      (fun k ↦ k.administers = true) AuditSample.start c ∧ test c = true :=
    Reachable.of_schedule (Sample.alone 0 (AuditSample.setRole 1 .admin) 5) test (by decide)
      (by decide)
  simp only [test, Bool.and_eq_true, decide_eq_true_eq] at htest
  exact ⟨c, hc, htest.1, audit_log_truthful hc htest.2⟩

/-- The log says that Eve became an administrator, and she is a member. -/
theorem audit_log_misleads :
    ¬∀ (cx : Context) (s : Server) (c : AppConfig),
      Reachable (auditedMachine cx) (handle cx) (fun k ↦ k.administers = true) s c →
        AuditTruthful cx s c.world := by
  intro h
  let test : AppConfig → Bool := fun c ↦
    c.world.history.all
      (fun e ↦ c.world.history.any fun a ↦ decide (a.tid = e.tid) && a.isAnswer) &&
    decide (status 3 c.world.store = some ⟨.user, true⟩) &&
    decide (replay (status 3 AuditSample.start) (inCommitOrder 3 c.world.history) =
      some ⟨.admin, true⟩)
  obtain ⟨c, hc, htest⟩ : ∃ c, Reachable (auditedMachine .sample) (handle .sample)
      (fun k ↦ k.administers = true) AuditSample.start c ∧ test c = true :=
    Reachable.of_schedule AuditSample.crossed test (by decide) (by decide)
  simp only [test, Bool.and_eq_true, decide_eq_true_eq, List.all_eq_true, List.any_eq_true] at htest
  obtain ⟨⟨hanswered, hstatus⟩, hreplay⟩ := htest
  have hends := (h .sample _ c hc).replays hanswered 3
  rw [hstatus, hreplay] at hends
  cases hends

end ApiStarter
