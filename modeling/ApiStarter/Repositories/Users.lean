import ApiStarter.Schema

/-!
# The users table

One constructor per statement or transaction of `modules/users/repositories`,
with the type of its answer and what it does to the table.  `now` is the
instant the statement binds.
-/

namespace ApiStarter

open Relational

structure NewUser where
  email : String
  passwordHash : String
  displayName : Option String
  role : Role
  emailVerified : Bool
  /-- `false` for accounts created through OAuth that have no usable password. -/
  passwordSet : Bool

structure UserPatch where
  displayName : Option String
  role : Option Role
  isActive : Option Bool

inductive UsersSql
  | create (id : Uuid) (new : NewUser)
  | findByEmail (email : String)
  | findById (id : Uuid)
  | update (id : Uuid) (patch : UserPatch) (guardLastAdmin : Bool)
  | softDelete (id : Uuid) (guardLastAdmin : Bool)
  | countActiveAdmins
  | setPasswordHash (id : Uuid) (passwordHash : String)
  | recordFailedLogin (id : Uuid) (maxAttempts : ℤ) (lockout : Time)
  | resetFailedLogins (id : Uuid)
  | markEmailVerified (id : Uuid)
  | changeEmail (id : Uuid) (newEmail : String)
  | setPendingTotpSecret (id : Uuid) (base32Secret : String)
  | enableTotp (id : Uuid)
  | disableTotp (id : Uuid)

@[reducible] def UsersSql.Res : UsersSql → Type
  | .create .. => Except UsersError User
  | .findByEmail _ => Option User
  | .findById _ => Option User
  | .update .. => Except UsersError (Option User)
  | .softDelete .. => Except UsersError Bool
  | .countActiveAdmins => ℕ
  | .changeEmail .. => Except UsersError Unit
  | .setPasswordHash .. => Unit
  | .recordFailedLogin .. => Unit
  | .resetFailedLogins _ => Unit
  | .markEmailVerified _ => Unit
  | .setPendingTotpSecret .. => Unit
  | .enableTotp _ => Unit
  | .disableTotp _ => Unit

/-- `role = 'admin' AND is_active = TRUE AND deleted_at IS NULL` -/
def User.isActiveAdmin (u : User) : Bool := u.role.isAdmin && u.isActive && u.isLive

/-- The row `INSERT` writes; the other columns take their defaults. -/
def NewUser.row (new : NewUser) (id : Uuid) (now : Time) : User where
  id := id
  email := new.email
  passwordHash := new.passwordHash
  displayName := new.displayName
  role := new.role
  isActive := true
  emailVerifiedAt := if new.emailVerified then some now else none
  createdAt := now
  updatedAt := none
  deletedAt := none
  avatarKey := none
  passwordSet := new.passwordSet
  tokenVersion := 1
  failedLoginAttempts := 0
  lockedUntil := none
  totpSecret := none
  totpEnabled := false

def UserPatch.apply (patch : UserPatch) (now : Time) (u : User) : User :=
  { u with
    updatedAt := some now
    displayName := patch.displayName <|> u.displayName
    role := patch.role.getD u.role
    isActive := patch.isActive.getD u.isActive }

def User.markDeleted (now : Time) (u : User) : User :=
  { u with deletedAt := some now, updatedAt := some now, isActive := false }

def User.withFailedLogin (now : Time) (maxAttempts : ℤ) (lockout : Time) (u : User) : User :=
  { u with
    failedLoginAttempts := u.failedLoginAttempts + 1
    lockedUntil :=
      if u.failedLoginAttempts + 1 ≥ maxAttempts then some (now + lockout) else u.lockedUntil }

@[simp] theorem UserPatch.id_apply (patch : UserPatch) (now : Time) (u : User) :
    (patch.apply now u).id = u.id := rfl
@[simp] theorem User.id_markDeleted (now : Time) (u : User) : (u.markDeleted now).id = u.id := rfl
@[simp] theorem User.id_withFailedLogin (now : Time) (maxAttempts : ℤ) (lockout : Time) (u : User) :
    (u.withFailedLogin now maxAttempts lockout).id = u.id := rfl

/-- `WHERE id = $1 AND deleted_at IS NULL` -/
def liveId (id : Uuid) (u : User) : Bool := decide (u.id = id) && u.isLive

/-- Active admins other than `id`, what the guarded transactions count. -/
def otherActiveAdmins (users : Table User.id) (id : Uuid) : ℕ :=
  users.countWhere fun u ↦ u.isActiveAdmin && decide (u.id ≠ id)

/-- The partial unique index on `email` of accounts that are not deleted. -/
def emailTaken (users : Table User.id) (email : String) : Bool :=
  (users.find? fun u ↦ decide (u.email = email) && u.isLive).isSome

def UsersSql.run (now : Time) (users : Table User.id) :
    (q : UsersSql) → Option q.Res × Table User.id
  | .create id new =>
      if emailTaken users new.email then (some (.error .emailTaken), users)
      else match users.insert? (new.row id now) with
        | none => (some (.error .emailTaken), users)
        | some users' => (some (.ok (new.row id now)), users')
  | .findByEmail email =>
      (some (users.find? fun u ↦ decide (u.email = email) && u.isLive), users)
  | .findById id => (some (users.find? (liveId id)), users)
  | .update id patch guardLastAdmin =>
      if guardLastAdmin && otherActiveAdmins users id = 0 then
        (some (.error .cannotRemoveLastAdmin), users)
      else
        (some (.ok ((users.find? (liveId id)).map (patch.apply now))),
          users.updateWhere (liveId id) (patch.apply now) (patch.id_apply now))
  | .softDelete id guardLastAdmin =>
      if guardLastAdmin && otherActiveAdmins users id = 0 then
        (some (.error .cannotRemoveLastAdmin), users)
      else
        (some (.ok (users.countWhere (liveId id) = 1)),
          users.updateWhere (liveId id) (User.markDeleted now) (User.id_markDeleted now))
  | .countActiveAdmins => (some (users.countWhere User.isActiveAdmin), users)
  | .setPasswordHash id passwordHash =>
      (some (), users.updateWhere (liveId id)
        (fun u ↦ { u with
          passwordHash := passwordHash
          passwordSet := true
          tokenVersion := u.tokenVersion + 1
          updatedAt := some now }) fun _ ↦ rfl)
  | .recordFailedLogin id maxAttempts lockout =>
      (some (), users.updateWhere (fun u ↦ decide (u.id = id))
        (User.withFailedLogin now maxAttempts lockout)
          (User.id_withFailedLogin now maxAttempts lockout))
  | .resetFailedLogins id =>
      (some (), users.updateWhere (fun u ↦ decide (u.id = id))
        (fun u ↦ { u with failedLoginAttempts := 0, lockedUntil := none }) fun _ ↦ rfl)
  | .markEmailVerified id =>
      (some (), users.updateWhere (liveId id)
        (fun u ↦ { u with
          emailVerifiedAt := u.emailVerifiedAt <|> some now
          updatedAt := some now }) fun _ ↦ rfl)
  | .changeEmail id newEmail =>
      -- the row itself does not count against the unique index
      if (users.find? (liveId id)).isSome &&
          (users.find? fun u ↦
            decide (u.email = newEmail) && u.isLive && decide (u.id ≠ id)).isSome then
        (some (.error .emailTaken), users)
      else
        (some (.ok ()), users.updateWhere (liveId id)
          (fun u ↦ { u with
            email := newEmail
            emailVerifiedAt := some now
            updatedAt := some now }) fun _ ↦ rfl)
  | .setPendingTotpSecret id base32Secret =>
      (some (), users.updateWhere (fun u ↦ decide (u.id = id))
        (fun u ↦ { u with totpSecret := some base32Secret }) fun _ ↦ rfl)
  | .enableTotp id =>
      (some (), users.updateWhere (fun u ↦ decide (u.id = id))
        (fun u ↦ { u with totpEnabled := true }) fun _ ↦ rfl)
  | .disableTotp id =>
      (some (), users.updateWhere (fun u ↦ decide (u.id = id))
        (fun u ↦ { u with totpEnabled := false, totpSecret := none }) fun _ ↦ rfl)

/-- A patch that can take an active admin away. -/
def UserPatch.removesAdmin (patch : UserPatch) : Bool :=
  decide (patch.role = some .user) || decide (patch.isActive = some false)

/-! ## What a statement does to one row -/

/-- The columns of an account after a statement. -/
def UsersSql.onRow (now : Time) (users : Table User.id) (u : User) : UsersSql → User
  | .update id patch guardLastAdmin =>
      if guardLastAdmin && otherActiveAdmins users id = 0 then u
      else if liveId id u then patch.apply now u else u
  | .softDelete id guardLastAdmin =>
      if guardLastAdmin && otherActiveAdmins users id = 0 then u
      else if liveId id u then u.markDeleted now else u
  | .setPasswordHash id passwordHash =>
      if liveId id u then { u with
        passwordHash := passwordHash
        passwordSet := true
        tokenVersion := u.tokenVersion + 1
        updatedAt := some now }
      else u
  | .recordFailedLogin id maxAttempts lockout =>
      if u.id = id then u.withFailedLogin now maxAttempts lockout else u
  | .resetFailedLogins id =>
      if u.id = id then { u with failedLoginAttempts := 0, lockedUntil := none } else u
  | .markEmailVerified id =>
      if liveId id u then { u with
        emailVerifiedAt := u.emailVerifiedAt <|> some now
        updatedAt := some now }
      else u
  | .changeEmail id newEmail =>
      if (users.find? (liveId id)).isSome &&
          (users.find? fun u ↦
            decide (u.email = newEmail) && u.isLive && decide (u.id ≠ id)).isSome then u
      else if liveId id u then { u with
        email := newEmail
        emailVerifiedAt := some now
        updatedAt := some now }
      else u
  | .setPendingTotpSecret id base32Secret =>
      if u.id = id then { u with totpSecret := some base32Secret } else u
  | .enableTotp id => if u.id = id then { u with totpEnabled := true } else u
  | .disableTotp id => if u.id = id then { u with totpEnabled := false, totpSecret := none } else u
  | .create .. | .findByEmail _ | .findById _ | .countActiveAdmins => u

theorem UsersSql.get?_run {now : Time} {users : Table User.id} {id : Uuid} {u : User}
    (h : users.get? id = some u) (q : UsersSql) :
    (q.run now users).2.get? id = some (q.onRow now users u) := by
  cases q with
  | create id' new =>
      simp only [run, onRow]
      split
      · exact h
      · split
        · exact h
        · next hinsert =>
          obtain ⟨hnone, hget⟩ := Table.insert?_eq_some hinsert
          have hne : (new.row id' now).id ≠ id := by
            rintro rfl
            simp [hnone] at h
          dsimp only
          rw [hget, if_neg hne, h]
  | update id' patch guard =>
      simp only [run, onRow]
      split
      · exact h
      · dsimp only
        rw [Table.get?_updateWhere_some h]
  | softDelete id' guard =>
      simp only [run, onRow]
      split
      · exact h
      · dsimp only
        rw [Table.get?_updateWhere_some h]
  | changeEmail id' newEmail =>
      simp only [run, onRow]
      split
      · exact h
      · dsimp only
        rw [Table.get?_updateWhere_some h]
  | findByEmail email => exact h
  | findById id' => exact h
  | countActiveAdmins => exact h
  | setPasswordHash id' hash =>
      simp only [run, onRow]
      rw [Table.get?_updateWhere_some h]
  | markEmailVerified id' =>
      simp only [run, onRow]
      rw [Table.get?_updateWhere_some h]
  | _ =>
      simp only [run, onRow]
      rw [Table.get?_updateWhere_some h]
      simp only [decide_eq_true_eq]

/-- A deleted account stays deleted. -/
theorem UsersSql.isLive_onRow (now : Time) (users : Table User.id) {row : User} (q : UsersSql)
    (h : row.isLive = false) : (q.onRow now users row).isLive = false := by
  cases q with
  | _ =>
      simp only [onRow]
      repeat' split
      all_goals simp_all [UserPatch.apply, User.markDeleted, User.withFailedLogin, User.isLive]

/-- A new account is a fresh row under a new id. -/
theorem UsersSql.get?_run_none {now : Time} {users : Table User.id} {id : Uuid}
    (h : users.get? id = none) {q : UsersSql} {u : User}
    (hu : (q.run now users).2.get? id = some u) : ∃ new, q = .create id new ∧
      u = new.row id now := by
  cases q with
  | create id' new =>
      simp only [run] at hu
      split at hu
      · simp [h] at hu
      · split at hu
        · simp [h] at hu
        · next hinsert =>
          obtain ⟨-, hget⟩ := Table.insert?_eq_some hinsert
          simp only [hget, h] at hu
          split at hu
          · next hid =>
            obtain rfl : id' = id := hid
            exact ⟨new, rfl, (Option.some.inj hu).symm⟩
          · cases hu
  | update id' patch guard =>
      simp only [run] at hu
      split at hu
      · simp [h] at hu
      · dsimp only at hu
        rw [Table.get?_updateWhere_none h] at hu
        cases hu
  | softDelete id' guard =>
      simp only [run] at hu
      split at hu
      · simp [h] at hu
      · dsimp only at hu
        rw [Table.get?_updateWhere_none h] at hu
        cases hu
  | changeEmail id' newEmail =>
      simp only [run] at hu
      split at hu
      · simp [h] at hu
      · dsimp only at hu
        rw [Table.get?_updateWhere_none h] at hu
        cases hu
  | findByEmail email => simp [run, h] at hu
  | findById id' => simp [run, h] at hu
  | countActiveAdmins => simp [run, h] at hu
  | _ =>
      simp only [run] at hu
      rw [Table.get?_updateWhere_none h] at hu
      cases hu

/-- A new account is stored as it is returned, and was not there before. -/
theorem UsersSql.create_eq_ok {now : Time} {users : Table User.id} {id : Uuid} {new : NewUser}
    {u : User} (h : ((UsersSql.create id new).run now users).1 = some (.ok u)) :
    u = new.row id now ∧ users.get? id = none ∧
      ((UsersSql.create id new).run now users).2.get? id = some u := by
  simp only [run] at h ⊢
  split at h
  · cases Option.some.inj h
  next htaken =>
    rw [if_neg htaken]
    split at h
    · cases Option.some.inj h
    next users' hinsert =>
      cases Option.some.inj h
      obtain ⟨hnone, hget⟩ := Table.insert?_eq_some hinsert
      refine ⟨rfl, hnone, (hget id).trans ?_⟩
      rw [if_pos (show (new.row id now).id = id from rfl)]

theorem find?_liveId (users : Table User.id) (id : Uuid) :
    users.find? (liveId id) = (users.get? id).filter User.isLive :=
  users.find?_key id User.isLive

end ApiStarter
