import ApiStarter.Repositories.Users

/-!
# The media table and the profile photo column

The statements of `modules/media/repository.rs`, and those of the transaction
`set_avatar_key`.  At `READ COMMITTED`, and without `FOR UPDATE`, what other
transactions do may come between its `SELECT` and its `UPDATE`, so these are two
statements here.
-/

namespace ApiStarter

open Relational

structure Media where
  id : Uuid
  ownerId : Uuid
  storageKey : String
  /-- Detected from the file's bytes at upload time. -/
  contentType : String
  sizeBytes : ℤ
  originalFilename : Option String
  createdAt : Time
  deriving DecidableEq

structure NewMedia where
  ownerId : Uuid
  storageKey : String
  contentType : String
  sizeBytes : ℤ
  originalFilename : Option String

def NewMedia.row (new : NewMedia) (id : Uuid) (now : Time) : Media where
  id := id
  ownerId := new.ownerId
  storageKey := new.storageKey
  contentType := new.contentType
  sizeBytes := new.sizeBytes
  originalFilename := new.originalFilename
  createdAt := now

/-- The table `media`, of which a second column is `UNIQUE`. -/
structure MediaTable where
  table : Table Media.id
  uniqueKeys : (table.rows.map Media.storageKey).Nodup

namespace MediaTable

instance : Membership Media MediaTable := ⟨fun t m ↦ m ∈ t.table⟩

theorem mem_def {t : MediaTable} {m : Media} : m ∈ t ↔ m ∈ t.table := Iff.rfl

def empty : MediaTable := ⟨.empty, List.nodup_nil⟩

def single (m : Media) : MediaTable := ⟨.single m, by simp [Table.single]⟩

def insert? (t : MediaTable) (m : Media) : Option MediaTable :=
  if hkey : m.storageKey ∈ t.table.rows.map Media.storageKey then none
  else if hid : m.id ∈ t.table.rows.map Media.id then none
  else some {
    table := {
      rows := t.table.rows ++ [m]
      nodup := by simpa using List.Nodup.concat hid t.table.nodup }
    uniqueKeys := by simpa using List.Nodup.concat hkey t.uniqueKeys }

def deleteWhere (t : MediaTable) (p : Media → Bool) : MediaTable where
  table := t.table.deleteWhere p
  uniqueKeys := t.uniqueKeys.sublist (List.filter_sublist.map Media.storageKey)

theorem eq_of_storageKey {t : MediaTable} {m m' : Media} (h : m ∈ t) (h' : m' ∈ t)
    (hkey : m.storageKey = m'.storageKey) : m = m' :=
  List.inj_on_of_nodup_map t.uniqueKeys h h' hkey

@[simp] theorem mem_deleteWhere {t : MediaTable} {p : Media → Bool} {m : Media} :
    m ∈ t.deleteWhere p ↔ m ∈ t ∧ p m = false := Table.mem_deleteWhere

theorem mem_insert? {t t' : MediaTable} {m m' : Media} (h : t.insert? m = some t') :
    m' ∈ t' ↔ m' ∈ t ∨ m' = m := by
  unfold insert? at h
  split at h
  · cases h
  · split at h
    · cases h
    · cases h
      simp [mem_def, Table.mem_def]

end MediaTable

inductive MediaSql
  | insert (id : Uuid) (new : NewMedia)
  | findById (id : Uuid)
  | countByOwner (ownerId : Uuid)
  | listByOwner (ownerId : Uuid) (limit offset : ℕ)
  | delete (id : Uuid)
  | deleteAllByOwner (ownerId : Uuid)

@[reducible] def MediaSql.Res : MediaSql → Type
  | .insert .. => Media
  | .findById _ => Option Media
  | .countByOwner _ => ℕ
  | .listByOwner .. => List Media
  | .delete _ => Option String
  | .deleteAllByOwner _ => List String

def Media.isOwnedBy (ownerId : Uuid) (m : Media) : Bool := decide (m.ownerId = ownerId)

theorem newer_total (x y : ℤ) (i j : ℕ) :
    (y < x ∨ (y = x ∧ j ≤ i)) ∨ x < y ∨ (x = y ∧ i ≤ j) := by omega

theorem newer_trans (x y z : ℤ) (i j k : ℕ) : (y < x ∨ (y = x ∧ j ≤ i)) →
    (z < y ∨ (z = y ∧ k ≤ j)) → z < x ∨ (z = x ∧ k ≤ i) := by omega

theorem newer_antisymm (x y : ℤ) (i j : ℕ) :
    (y < x ∨ (y = x ∧ j ≤ i)) → (x < y ∨ (x = y ∧ i ≤ j)) → i = j := by omega

/-- `ORDER BY created_at DESC, id DESC` on files. -/
def Media.newer (a b : Media) : Prop :=
  b.createdAt < a.createdAt ∨ (b.createdAt = a.createdAt ∧ b.id ≤ a.id)

instance : DecidableRel Media.newer := fun a b ↦
  inferInstanceAs (Decidable (b.createdAt < a.createdAt ∨
    (b.createdAt = a.createdAt ∧ b.id ≤ a.id)))

instance : Std.Total Media.newer where
  total a b := newer_total a.createdAt b.createdAt a.id b.id

instance : IsTrans Media Media.newer where
  trans a b d := newer_trans a.createdAt b.createdAt d.createdAt a.id b.id d.id

/-- `ORDER BY created_at DESC, id DESC` -/
def newestFirst (rows : List Media) : List Media :=
  rows.insertionSort fun a b ↦
    b.createdAt < a.createdAt ∨ (b.createdAt = a.createdAt ∧ b.id ≤ a.id)

/-- No two rows share a place in this order. -/
theorem newestFirst_eq {t t' : Table Media.id} {p : Media → Bool}
    (h : ∀ m, p m = true → (m ∈ t ↔ m ∈ t')) :
    newestFirst (t.selectWhere p) = newestFirst (t'.selectWhere p) := by
  have hsort := List.perm_insertionSort Media.newer
  have hperm := Table.selectWhere_perm h
  refine List.Perm.eq_of_pairwise ?_ (List.pairwise_insertionSort Media.newer _)
    (List.pairwise_insertionSort Media.newer _) ((hsort _).trans (hperm.trans (hsort _).symm))
  intro a b ha hb hab hba
  have ha' : a ∈ t := (Table.mem_selectWhere.mp ((hsort _).mem_iff.mp ha)).1
  have hb' : b ∈ t :=
    (Table.mem_selectWhere.mp (hperm.mem_iff.mpr ((hsort _).mem_iff.mp hb))).1
  have hid : a.id = b.id := newer_antisymm a.createdAt b.createdAt a.id b.id hab hba
  exact Table.eq_of_mem ha' hb' hid

def MediaSql.run (now : Time) (media : MediaTable) : (q : MediaSql) → Option q.Res × MediaTable
  | .insert id new =>
      match media.insert? (new.row id now) with
      | none => (none, media)
      | some media => (some (new.row id now), media)
  | .findById id => (some (media.table.get? id), media)
  | .countByOwner ownerId => (some (media.table.countWhere (Media.isOwnedBy ownerId)), media)
  | .listByOwner ownerId limit offset =>
      (some (((newestFirst (media.table.selectWhere (Media.isOwnedBy ownerId))).drop offset).take
        limit), media)
  | .delete id =>
      (some ((media.table.get? id).map Media.storageKey),
        media.deleteWhere fun m ↦ decide (m.id = id))
  | .deleteAllByOwner ownerId =>
      (some ((media.table.selectWhere (Media.isOwnedBy ownerId)).map Media.storageKey),
        media.deleteWhere (Media.isOwnedBy ownerId))

/-- The `SELECT` and the `UPDATE` of `set_avatar_key`. -/
inductive AvatarSql
  | selectKey (id : Uuid)
  | updateKey (id : Uuid) (avatarKey : Option String)

@[reducible] def AvatarSql.Res : AvatarSql → Type
  | .selectKey _ => Option (Option String)
  | .updateKey .. => Unit

def User.withAvatarKey (avatarKey : Option String) (now : Time) (u : User) : User :=
  { u with avatarKey := avatarKey, updatedAt := some now }

@[simp] theorem User.id_withAvatarKey (avatarKey : Option String) (now : Time) (u : User) :
    (u.withAvatarKey avatarKey now).id = u.id := rfl

def AvatarSql.run (now : Time) (users : Table User.id) :
    (q : AvatarSql) → Option q.Res × Table User.id
  | .selectKey id => (some ((users.find? (liveId id)).map User.avatarKey), users)
  | .updateKey id avatarKey =>
      (some (), users.updateWhere (fun u ↦ decide (u.id = id)) (User.withAvatarKey avatarKey now)
        (User.id_withAvatarKey avatarKey now))

end ApiStarter
