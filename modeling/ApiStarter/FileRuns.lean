import ApiStarter.FileSteps

/-!
# Runs over files

Every key is made of a draw, so an object is stored under it once, by one
request, and whatever that request or another does with it can be placed before
or after.  The column of a profile photo and the key of a row are of the same
kind: what they stopped to hold they do not hold again.
-/

namespace ApiStarter

open Interleave Interleave.Prog Relational

/-- What the draw number `n` can become. -/
def FileContext.Source (cx : FileContext) (n : ℕ) (key : String) : Prop :=
  (∃ extension, cx.mediaKey n extension = key) ∨
    AvatarStorage.objectKey (AvatarStorage.newName cx.toContext n) = key

/-- The generated keys are fresh: they differ from each other and from all that were there. -/
structure FreshKeys (cx : FileContext) (s : FileServer) (draws : ℕ) : Prop where
  distinct : ∀ key m n, m < draws → n < draws → cx.Source m key → cx.Source n key → m = n
  noObject : ∀ key n, s.draws ≤ n → n < draws → cx.Source n key → s.objects key = none
  noRow : ∀ key n, s.draws ≤ n → n < draws → cx.Source n key → ∀ m ∈ s.media, m.storageKey ≠ key
  noPhoto : ∀ key n, s.draws ≤ n → n < draws → cx.Source n key →
    ∀ u ∈ s.db.users, ∀ name ∈ u.avatarKey, AvatarStorage.objectKey name ≠ key

abbrev FileReached (cx : FileContext) (fails : FileStatement → Bool) (s : FileServer)
    (c : FileConfig) : Prop :=
  Reachable (fileMachine cx.toContext fails) (handleFile cx) (fun _ ↦ True) s c

def fileDrawing (cx : FileContext) (fails : FileStatement → Bool) :
    Dispenser (fileMachine cx.toContext fails) where
  draw := .base .draw
  count s := s.draws
  count_draw _ := rfl
  count_le q s := by
    cases q with
    | base q =>
        cases q with
        | draw => exact Nat.le_succ _
        | _ => exact le_rfl
    | _ => exact le_rfl
  count_env _ _ := rfl

def FileStatement.Stores (q : FileStatement) (key : String) : Prop :=
  ∃ bytes, q = .storage (.put key bytes)

/-- What a step was that did this. -/
def IsAct : FileAct → FileEvent → Prop
  | .other, _ => True
  | .reads u photo, e => ∃ i k b, e = .ran i k (.base (.sql (.users (.findById u)))) b ∧
      photoOf u b.toServer = photo
  | .puts key, e => ∃ i k bytes b, e = .ran i k (.storage (.put key bytes)) b
  | .deletes key, e => ∃ i k b, e = .ran i k (.storage (.delete key)) b
  | .lists key, e => ∃ i k id new b media, e = .ran i k (.media (.insert id new)) b ∧
      new.storageKey = key ∧ b.media.insert? (new.row id b.now) = some media
  | .unlists keys, e => ∃ i k id b, e = .ran i k (.media (.delete id)) b ∧
      ((b.media.table.get? id).map Media.storageKey).toList = keys
  | .clears u keys, e => ∃ i k b, e = .ran i k (.media (.deleteAllByOwner u)) b ∧
      (b.media.table.selectWhere (Media.isOwnedBy u)).map Media.storageKey = keys
  | .selects u photo, e => ∃ i k b, e = .ran i k (.avatar (.selectKey u)) b ∧
      photoOf u b.toServer = photo
  | .updates u photo, e => ∃ i k b, e = .ran i k (.avatar (.updateKey u photo)) b

theorem isAct (e : FileEvent) : IsAct (fileAct e) e := by
  unfold fileAct
  split
  case h_4 i k id new b =>
    split
    next h =>
      obtain ⟨media, hmedia⟩ := Option.isSome_iff_exists.mp h
      exact ⟨i, k, id, new, b, media, rfl, rfl, hmedia⟩
    next => trivial
  all_goals first
    | exact ⟨_, _, _, _, rfl, rfl⟩
    | exact ⟨_, _, _, rfl, rfl⟩
    | exact ⟨_, _, _, _, rfl⟩
    | exact ⟨_, _, _, rfl⟩
    | trivial

theorem mediaKey_ne_objectKey (cx : Context) (n : ℕ) (extension name : String) :
    cx.mediaKey n extension ≠ AvatarStorage.objectKey name := by
  intro h
  have hfirst := congrArg (fun key : String ↦ key.toList.head?) h
  simp [Context.mediaKey, AvatarStorage.objectKey, String.toList_append] at hfirst

theorem act_of_stores {e : FileEvent} {key : String} (h : e.Mints FileStatement.Stores key) :
    fileAct e = .puts key := by
  cases e with
  | answered => exact h.elim
  | ran i k q b =>
      obtain ⟨bytes, rfl⟩ := h
      rfl

theorem mem_fileActs {h : List FileEvent} {a : FileAct} :
    a ∈ fileActs h ↔ ∃ e ∈ h, fileAct e = a := List.mem_map

theorem mem_of_split {h later earlier : List FileEvent} {e : FileEvent}
    (hh : h = later ++ e :: earlier) : ∀ x ∈ earlier, x ∈ h := by
  intro x hx
  rw [hh]
  exact List.mem_append_right _ (List.mem_cons_of_mem _ hx)

theorem mem_own {i : ℕ} {h : List FileEvent} {a : FileAct} :
    a ∈ fileActs (ownEvents i h) ↔ ∃ e ∈ h, e.tid = i ∧ fileAct e = a := by
  simp [mem_fileActs, and_assoc]

theorem unlisted_of_own {i : ℕ} {h : List FileEvent} {keys : List String}
    (hown : .unlists keys ∈ fileActs (ownEvents i h) ∨
      ∃ u, .clears u keys ∈ fileActs (ownEvents i h)) :
    ∃ e ∈ h, fileAct e = .unlists keys ∨ ∃ u, fileAct e = .clears u keys := by
  rcases hown with hunlists | ⟨u, hclears⟩
  · obtain ⟨e, he, -, hact⟩ := mem_own.mp hunlists
    exact ⟨e, he, .inl hact⟩
  · obtain ⟨e, he, -, hact⟩ := mem_own.mp hclears
    exact ⟨e, he, .inr ⟨u, hact⟩⟩

/-! ## One statement -/

/-- What the column says, whether the account is deleted or not. -/
def photoColumn (u : Uuid) (s : FileServer) : Option String :=
  (s.db.users.get? u).bind User.avatarKey

def HasPhoto (u : Uuid) (name : String) (s : FileServer) : Prop := photoColumn u s = some name

def HasRow (key : String) (s : FileServer) : Prop := ∃ m ∈ s.media, m.storageKey = key

def HasObject (key : String) (s : FileServer) : Prop := (s.objects key).isSome

section Statements

variable {cx : Context} {fails : FileStatement → Bool} {b : FileServer} {q : FileStatement} {i : ℕ}
  {k : FileRequest} {key name : String} {u : Uuid}

theorem hasPhoto_of_photoOf (h : photoOf u b.toServer = some name) : HasPhoto u name b := by
  obtain ⟨row, hfind, hkey⟩ := Option.bind_eq_some_iff.mp h
  obtain ⟨hget, -, -⟩ := find?_liveId_eq_some hfind
  simp [HasPhoto, photoColumn, hget, hkey]

theorem UsersSql.avatarKey_onRow (now : Time) (users : Table User.id) (row : User) (q : UsersSql) :
    (q.onRow now users row).avatarKey = row.avatarKey := by
  cases q <;> simp only [UsersSql.onRow] <;> (repeat' split) <;> rfl

theorem UsersSql.photo_run (now : Time) (users : Table User.id) (q : UsersSql) (u : Uuid) :
    ((q.run now users).2.get? u).bind User.avatarKey = (users.get? u).bind User.avatarKey := by
  cases hget : users.get? u with
  | some row =>
      rw [UsersSql.get?_run hget, Option.bind_some, Option.bind_some, UsersSql.avatarKey_onRow]
  | none =>
      cases hrow : (q.run now users).2.get? u with
      | none => rfl
      | some row =>
          obtain ⟨new, -, rfl⟩ := UsersSql.get?_run_none hget hrow
          rfl

/-- Only the `UPDATE` of the account's photo changes the column. -/
theorem photoColumn_exec (hq : ∀ photo, q ≠ .avatar (.updateKey u photo)) :
    photoColumn u ((fileMachine cx fails).exec q b).2 = photoColumn u b := by
  cases q with
  | base q =>
      cases q with
      | sql q =>
          cases q with
          | users q => exact q.photo_run b.now b.db.users u
          | _ => rfl
      | _ => rfl
  | avatar q =>
      cases q with
      | selectKey id => rfl
      | updateKey id photo =>
          have hne : id ≠ u := by
            rintro rfl
            exact hq photo rfl
          simp only [photoColumn, exec_avatar, AvatarSql.run]
          rw [Table.get?_updateKey, if_neg hne]
  | _ => rfl

theorem photoColumn_update (photo : Option String) :
    photoColumn u ((fileMachine cx fails).exec (.avatar (.updateKey u photo)) b).2 =
      (b.db.users.get? u).bind fun _ ↦ photo := by
  simp only [photoColumn, exec_avatar, AvatarSql.run]
  rw [Table.get?_updateKey, if_pos rfl]
  cases b.db.users.get? u <;> rfl

theorem act_of_rises_photo (h : Rises (fileMachine cx fails) (HasPhoto u name) q b) :
    fileAct (.ran i k q b) = .updates u (some name) := by
  obtain ⟨hbefore, hafter⟩ := h
  by_cases hq : ∃ photo, q = .avatar (.updateKey u photo)
  · obtain ⟨photo, rfl⟩ := hq
    unfold HasPhoto at hafter
    rw [photoColumn_update] at hafter
    obtain ⟨-, -, rfl⟩ := Option.bind_eq_some_iff.mp hafter
    rfl
  · unfold HasPhoto at hafter
    rw [photoColumn_exec (not_exists.mp hq)] at hafter
    exact absurd hafter hbefore

theorem act_of_ends_photo (hphoto : HasPhoto u name b)
    (h : Ends (fileMachine cx fails) (HasPhoto u name) q b) :
    ∃ photo, fileAct (.ran i k q b) = .updates u photo := by
  by_cases hq : ∃ photo, q = .avatar (.updateKey u photo)
  · obtain ⟨photo, rfl⟩ := hq
    exact ⟨photo, rfl⟩
  · refine absurd ?_ h
    unfold HasPhoto
    rw [photoColumn_exec (not_exists.mp hq)]
    exact hphoto

theorem ends_photo_of_update {photo : Option String} (hne : photo ≠ some name) :
    Ends (fileMachine cx fails) (HasPhoto u name) (.avatar (.updateKey u photo)) b := by
  intro hafter
  unfold HasPhoto at hafter
  rw [photoColumn_update] at hafter
  obtain ⟨-, -, rfl⟩ := Option.bind_eq_some_iff.mp hafter
  exact hne rfl

theorem photo_of_update (h : (b.db.users.get? u).isSome) :
    HasPhoto u name ((fileMachine cx fails).exec (.avatar (.updateKey u (some name))) b).2 := by
  obtain ⟨row, hrow⟩ := Option.isSome_iff_exists.mp h
  unfold HasPhoto
  rw [photoColumn_update, hrow]
  rfl

theorem mem_media_exec {m : Media} (h : m ∈ ((fileMachine cx fails).exec q b).2.media) :
    m ∈ b.media ∨ ∃ id new media, q = .media (.insert id new) ∧ m = new.row id b.now ∧
      b.media.insert? (new.row id b.now) = some media := by
  cases q with
  | media q =>
      cases q with
      | insert id new =>
          simp only [exec_media, MediaSql.run] at h
          split at h
          next => exact .inl h
          next media hmedia =>
            rcases (MediaTable.mem_insert? hmedia).mp h with hold | rfl
            · exact .inl hold
            · exact .inr ⟨id, new, media, rfl, rfl, hmedia⟩
      | delete id => exact .inl (MediaTable.mem_deleteWhere.mp h).1
      | deleteAllByOwner u => exact .inl (MediaTable.mem_deleteWhere.mp h).1
      | _ => exact .inl h
  | _ => exact .inl h

theorem lists_of_insert {id : Uuid} {new : NewMedia} {media : MediaTable}
    (h : b.media.insert? (new.row id b.now) = some media) :
    fileAct (.ran i k (.media (.insert id new)) b) = .lists new.storageKey := by
  simp [fileAct, h]

theorem act_of_rises_row (h : Rises (fileMachine cx fails) (HasRow key) q b) :
    fileAct (.ran i k q b) = .lists key := by
  obtain ⟨hbefore, m, hm, hkey⟩ := h
  rcases mem_media_exec hm with hold | ⟨id, new, media, rfl, rfl, hmedia⟩
  · exact absurd ⟨m, hold, hkey⟩ hbefore
  · rw [lists_of_insert hmedia]
    exact congrArg _ hkey

/-- A row is deleted by its id or with all of its owner's. -/
theorem act_of_ends_media {m : Media} (hm : m ∈ b.media)
    (h : Ends (fileMachine cx fails) (fun s ↦ m ∈ s.media) q b) :
    ∃ keys, m.storageKey ∈ keys ∧ (fileAct (.ran i k q b) = .unlists keys ∨
      fileAct (.ran i k q b) = .clears m.ownerId keys) := by
  have hgone : m ∉ ((fileMachine cx fails).exec q b).2.media := h
  cases q with
  | media q =>
      cases q with
      | insert id new =>
          refine absurd ?_ hgone
          simp only [exec_media, MediaSql.run]
          split
          next => exact hm
          next media hmedia => exact (MediaTable.mem_insert? hmedia).mpr (.inl hm)
      | delete id =>
          have hid : m.id = id := by
            by_contra hne
            exact hgone (MediaTable.mem_deleteWhere.mpr ⟨hm, by simpa using hne⟩)
          have hget : b.media.table.get? id = some m := Table.get?_eq_some_iff.mpr ⟨hm, hid⟩
          exact ⟨_, by simp [hget], .inl rfl⟩
      | deleteAllByOwner u =>
          have howner : m.isOwnedBy u = true := by
            by_contra hne
            exact hgone (MediaTable.mem_deleteWhere.mpr ⟨hm, by simpa using hne⟩)
          have hu : m.ownerId = u := of_decide_eq_true howner
          exact ⟨_, List.mem_map.mpr ⟨m, Table.mem_selectWhere.mpr ⟨hm, howner⟩, rfl⟩,
            .inr (hu ▸ rfl)⟩
      | _ => exact absurd hm hgone
  | _ => exact absurd hm hgone

theorem lists_of_rises {x : FileEvent} (h : x.Ran (Rises (fileMachine cx fails) (HasRow key))) :
    fileAct x = .lists key := by
  cases x with
  | answered => exact h.elim
  | ran i k q b => exact act_of_rises_row h

theorem names_of_rises {x : FileEvent}
    (h : x.Ran (Rises (fileMachine cx fails) (HasPhoto u name))) :
    fileAct x = .updates u (some name) := by
  cases x with
  | answered => exact h.elim
  | ran i k q b => exact act_of_rises_photo h

/-- With its row, the only one with its key, a key is gone. -/
theorem row_of_act (cx : Context) (fails : FileStatement → Bool) {e : FileEvent}
    {keys : List String} (hkey : key ∈ keys)
    (h : fileAct e = .unlists keys ∨ ∃ u, fileAct e = .clears u keys) :
    HasRow key e.store ∧ e.Ran (Ends (fileMachine cx fails) (HasRow key)) := by
  rcases h with h | ⟨u, h⟩
  · obtain ⟨i, k, id, b, rfl, hkeys⟩ : IsAct (.unlists keys) e := h ▸ isAct e
    obtain ⟨m, hget, rfl⟩ : ∃ m, b.media.table.get? id = some m ∧ m.storageKey = key := by
      rw [← hkeys] at hkey
      simpa using hkey
    have hm : m ∈ b.media := Table.mem_of_get? hget
    refine ⟨⟨m, hm, rfl⟩, ?_⟩
    rintro ⟨m', hm', hsame⟩
    obtain ⟨hmem, hkept⟩ := MediaTable.mem_deleteWhere.mp hm'
    obtain rfl := MediaTable.eq_of_storageKey hmem hm hsame
    simp [Table.key_of_get? hget] at hkept
  · obtain ⟨i, k, b, rfl, hkeys⟩ : IsAct (.clears u keys) e := h ▸ isAct e
    rw [← hkeys] at hkey
    obtain ⟨m, hm, rfl⟩ := List.mem_map.mp hkey
    obtain ⟨hmem, howner⟩ := Table.mem_selectWhere.mp hm
    refine ⟨⟨m, hmem, rfl⟩, ?_⟩
    rintro ⟨m', hm', hsame⟩
    obtain ⟨hmem', hkept⟩ := MediaTable.mem_deleteWhere.mp hm'
    obtain rfl := MediaTable.eq_of_storageKey hmem' hmem hsame
    simp [howner] at hkept

theorem objects_exec (hput : ∀ bytes, q ≠ .storage (.put key bytes))
    (hdelete : q ≠ .storage (.delete key)) :
    ((fileMachine cx fails).exec q b).2.objects key = b.objects key := by
  cases q with
  | storage call =>
      cases call with
      | put key' bytes =>
          have hne : key ≠ key' := by
            rintro rfl
            exact hput bytes rfl
          simp [Objects.serve, hne]
      | get key' => rfl
      | delete key' =>
          have hne : key ≠ key' := by
            rintro rfl
            exact hdelete rfl
          simp [Objects.serve, hne]
  | _ => rfl

/-- Unless it stores or deletes the object, a step leaves it as it is. -/
theorem objects_of_act (hput : fileAct (.ran i k q b) ≠ .puts key)
    (hdelete : fileAct (.ran i k q b) ≠ .deletes key) :
    ((fileMachine cx fails).exec q b).2.objects key = b.objects key := by
  apply objects_exec
  · rintro bytes rfl
    exact hput rfl
  · rintro rfl
    exact hdelete rfl

theorem act_of_rises_object (h : Rises (fileMachine cx fails) (HasObject key) q b) :
    fileAct (.ran i k q b) = .puts key := by
  by_contra hput
  by_cases hdelete : fileAct (.ran i k q b) = .deletes key
  · obtain ⟨i', k', b', heq⟩ : IsAct (.deletes key) (.ran i k q b) := hdelete ▸ isAct _
    cases heq
    simp [HasObject, Rises, Objects.serve] at h
  · have hsame : ((fileMachine cx fails).exec q b).2.objects key = b.objects key :=
      objects_of_act hput hdelete
    apply h.1
    have hafter := h.2
    unfold HasObject at hafter ⊢
    rwa [hsame] at hafter

theorem act_of_ends_object (hobject : HasObject key b)
    (h : Ends (fileMachine cx fails) (HasObject key) q b) :
    fileAct (.ran i k q b) = .deletes key := by
  by_contra hdelete
  by_cases hput : fileAct (.ran i k q b) = .puts key
  · obtain ⟨i', k', bytes, b', heq⟩ : IsAct (.puts key) (.ran i k q b) := hput ▸ isAct _
    cases heq
    simp [HasObject, Ends, Objects.serve] at h
  · apply h
    unfold HasObject
    rw [objects_of_act hput hdelete]
    exact hobject

theorem ends_object_of_act {e : FileEvent} (h : fileAct e = .deletes key) :
    e.Ran (Ends (fileMachine cx fails) (HasObject key)) := by
  obtain ⟨i, k, b, rfl⟩ : IsAct (.deletes key) e := h ▸ isAct e
  simp [HasObject, Ends, Objects.serve]

end Statements

section Runs

variable {cx : FileContext} {fails : FileStatement → Bool} {allowed : FileRequest → Prop}
  {s : FileServer} {c : FileConfig} {later earlier : List FileEvent} {e x : FileEvent}
  {key : String}
  (hc : Reachable (fileMachine cx.toContext fails) (handleFile cx) allowed s c)
include hc

theorem fileStep_at (hhist : c.world.history = later ++ e :: earlier) :
    FileStep cx fails e (ownEvents e.tid earlier) := by
  have halong := hc.traces fun k _ ↦ traces_fileStep cx fails k
  rw [hhist] at halong
  exact halong.of_append

theorem stores_fresh : Along (MintsFresh (fileDrawing cx fails) FileStatement.Stores cx.Source)
    c.world.history := by
  refine Along.of_splits fun later e earlier hhist ↦ ?_
  cases e with
  | answered => trivial
  | ran i k q b =>
      rintro key ⟨bytes, rfl⟩
      obtain ⟨n, ⟨newer, j, k', b', older, hown, rfl, hnone⟩, hmay⟩ :
        MayPut cx k key bytes (ownEvents i earlier) := fileStep_at hc hhist
      obtain ⟨newer', older', rfl, hnewer, -⟩ := exists_of_ownEvents hown
      have hj : j = i := by
        have hmem : (.ran j k' (.base .draw) b' : FileEvent) ∈ ownEvents i
            (newer' ++ .ran j k' (.base .draw) b' :: older') := by
          rw [hown]
          exact List.mem_append_right _ List.mem_cons_self
        exact (mem_ownEvents.mp hmem).2
      subst hj
      refine ⟨b'.draws, ?_, newer', k', b', older', rfl, rfl, fun e he htid v hv ↦ ?_⟩
      · rcases hmay with ⟨caller, filename, type, -, rfl⟩ | ⟨caller, upload, -, -, rfl⟩
        · exact .inl ⟨type.extension, rfl⟩
        · exact .inr rfl
      · refine hnone v (mem_fileActs.mpr ⟨e, ?_, act_of_stores hv⟩)
        rw [← hnewer]
        exact mem_ownEvents.mpr ⟨he, htid⟩

theorem draws_le : s.draws ≤ c.world.store.draws := by
  refine hc.world_induction (P := fun W ↦ s.draws ≤ W.store.draws) le_rfl ?_ ?_ ?_
  · exact fun i k q W h ↦ h.trans ((fileDrawing cx fails).count_le q W.store)
  · exact fun i k a W h ↦ h
  · exact fun x W h ↦ h

/-- A key under which an object is stored comes from a draw of the run. -/
theorem source_of_put (hx : x ∈ c.world.history) (hput : fileAct x = .puts key) :
    ∃ n, s.draws ≤ n ∧ n < c.world.store.draws ∧ cx.Source n key := by
  obtain ⟨i, k, bytes, b, rfl⟩ : IsAct (.puts key) x := hput ▸ isAct x
  obtain ⟨later, earlier, hhist, hstep⟩ := (stores_fresh hc).of_mem hx
  obtain ⟨n, hsource, newer, k', b', older, hdraw, rfl, -⟩ := hstep key ⟨bytes, rfl⟩
  have hat : c.world.history = (later ++ .ran i k (.storage (.put key bytes)) b :: newer) ++
      .ran i k' (.base .draw) b' :: older := by
    simp [hhist, hdraw, fileDrawing]
  obtain ⟨d, hd, hworld⟩ := hc.past hat
  have hle := draws_le hd
  rw [hworld] at hle
  exact ⟨b'.draws, hle, hc.count_lt (d := fileDrawing cx fails) hat, hsource⟩

/-- What a request needs stored was not there before the run. -/
theorem source_of_need {i : ℕ} (h : ∀ e ∈ earlier, e ∈ c.world.history)
    (hput : .puts key ∈ fileActs (ownEvents i earlier)) :
    ∃ n, s.draws ≤ n ∧ n < c.world.store.draws ∧ cx.Source n key := by
  obtain ⟨x, hx, -, hact⟩ := mem_own.mp hput
  exact source_of_put hc (h x hx) hact

theorem needs_of_lists (hhist : c.world.history = later ++ e :: earlier)
    (hlists : fileAct e = .lists key) : .puts key ∈ fileActs (ownEvents e.tid earlier) := by
  obtain ⟨i, k, id, new, b, -, rfl, rfl, -⟩ : IsAct (.lists key) e := hlists ▸ isAct e
  obtain ⟨-, hput, -⟩ : MayInsert k new (fileActs (ownEvents i earlier)) := fileStep_at hc hhist
  exact hput

theorem needs_of_names {u : Uuid} {name : String} (hhist : c.world.history = later ++ e :: earlier)
    (hnames : fileAct e = .updates u (some name)) :
    .puts (AvatarStorage.objectKey name) ∈ fileActs (ownEvents e.tid earlier) := by
  obtain ⟨i, k, b, rfl⟩ : IsAct (.updates u (some name)) e := hnames ▸ isAct e
  obtain ⟨-, -, -, hput⟩ : MayUpdate u (some name) (fileActs (ownEvents i earlier)) :=
    fileStep_at hc hhist
  exact hput name rfl

/-- The request that adds a row has uploaded the object. -/
theorem uploaded_of_lists {later earlier : List FileEvent} {e : FileEvent}
    (hhist : c.world.history = later ++ e :: earlier) (hlists : fileAct e = .lists key) :
    ∃ i caller bytes filename id new b, e = .ran i (.uploadMedia caller bytes filename)
        (.media (.insert id new)) b ∧ new.storageKey = key ∧
      (∃ k b', .ran i k (.storage (.put key bytes)) b' ∈ earlier) ∧
        ∃ n extension, key = cx.mediaKey n extension := by
  obtain ⟨i, k, id, new, b, -, rfl, rfl, -⟩ : IsAct (.lists key) e := hlists ▸ isAct e
  obtain ⟨⟨caller, bytes, filename, rfl⟩, hput, -⟩ :
    MayInsert k new (fileActs (ownEvents i earlier)) :=
    fileStep_at hc hhist
  obtain ⟨p, hp, htid, hact⟩ := mem_own.mp hput
  obtain ⟨j, k', bytes', b', rfl⟩ : IsAct (.puts new.storageKey) p := hact ▸ isAct p
  obtain rfl : j = i := htid
  have hinsert : .ran j (.uploadMedia caller bytes filename) (.media (.insert id new)) b ∈
      c.world.history := by simp [hhist]
  obtain rfl : k' = .uploadMedia caller bytes filename :=
    hc.request_eq (mem_of_split hhist _ hp) hinsert rfl
  obtain ⟨l, older, hp'⟩ := List.append_of_mem (mem_of_split hhist _ hp)
  obtain ⟨n, -, hmay⟩ : MayPut cx (.uploadMedia caller bytes filename) new.storageKey bytes'
      (ownEvents j older) := fileStep_at hc hp'
  rcases hmay with ⟨caller', filename', type, hk, hkey⟩ | ⟨caller', upload, hk, -⟩
  · cases hk
    exact ⟨j, caller, bytes, filename, id, new, b, rfl, rfl, ⟨_, b', hp⟩, n, type.extension, hkey⟩
  · cases hk

/-- Rows are never about photos. -/
theorem key_ne_objectKey
    (hstart : ∀ m ∈ s.media, ∀ name, m.storageKey ≠ AvatarStorage.objectKey name)
    (hrow : HasRow key c.world.store) (name : String) :
    key ≠ AvatarStorage.objectKey name := by
  by_cases hs : HasRow key s
  · obtain ⟨m, hm, rfl⟩ := hs
    exact hstart m hm name
  · obtain ⟨mid, r, older, hold, hr, -⟩ := hc.rises_of_live (HasRow key) (fun _ _ ↦ Iff.rfl) hs hrow
    obtain ⟨-, -, -, -, -, -, -, -, -, -, n, extension, rfl⟩ :=
      uploaded_of_lists hc hold (lists_of_rises hr)
    exact mediaKey_ne_objectKey cx.toContext n extension name

theorem object_gone (hhist : c.world.history = later ++ e :: earlier)
    (hdeletes : fileAct e = .deletes key) (hlater : ∀ x ∈ later, fileAct x ≠ .puts key) :
    ¬HasObject key c.world.store := by
  refine hc.not_live_of_ended (HasObject key) (fun _ _ ↦ Iff.rfl) hhist (fun x hx hrise ↦ ?_)
    (ends_object_of_act hdeletes)
  cases x with
  | answered => exact hrise
  | ran i k q b => exact hlater _ hx (act_of_rises_object hrise)

variable (hfresh : FreshKeys cx s c.world.store.draws)
include hfresh

theorem put_once (key : String) : Once (fun e ↦ fileAct e = .puts key) c.world.history := by
  refine (hc.minted_once (stores_fresh hc) (hfresh.distinct key)).mono fun e _ h ↦ ?_
  obtain ⟨i, k, bytes, b, rfl⟩ : IsAct (.puts key) e := h ▸ isAct e
  exact ⟨bytes, rfl⟩

theorem not_put_later (hhist : c.world.history = later ++ e :: earlier)
    (hput : fileAct e = .puts key) : ∀ x ∈ later, fileAct x ≠ .puts key := by
  intro x hx hputx
  have honce := put_once hc hfresh key
  rw [hhist] at honce
  exact (List.pairwise_append.mp honce).2.2 x hx e List.mem_cons_self ⟨hput, hputx⟩

/-- A request that stored an object under a key another one needs stored is that request. -/
theorem tid_eq_of_put {i j : ℕ} {h h' : List FileEvent} (hh : ∀ e ∈ h, e ∈ c.world.history)
    (hh' : ∀ e ∈ h', e ∈ c.world.history) (hput : .puts key ∈ fileActs (ownEvents i h))
    (hput' : .puts key ∈ fileActs (ownEvents j h')) : i = j := by
  obtain ⟨x, hx, rfl, hactx⟩ := mem_own.mp hput
  obtain ⟨y, hy, rfl, hacty⟩ := mem_own.mp hput'
  rw [(put_once hc hfresh key).eq (hh x hx) (hh' y hy) hactx hacty]

theorem lists_once (key : String) : Once (fun e ↦ fileAct e = .lists key) c.world.history := by
  refine pairwise_of_split fun later e₂ mid e₁ earlier hhist ↦ ?_
  rintro ⟨h₁, h₂⟩
  have hhist₁ : c.world.history = (later ++ e₂ :: mid) ++ e₁ :: earlier := by simp [hhist]
  obtain ⟨i₁, k₁, id₁, new₁, b₁, -, rfl, hkey₁, -⟩ : IsAct (.lists key) e₁ := h₁ ▸ isAct e₁
  obtain ⟨i₂, k₂, id₂, new₂, b₂, -, rfl, hkey₂, -⟩ : IsAct (.lists key) e₂ := h₂ ▸ isAct e₂
  obtain ⟨-, hput₁, -, -⟩ : MayInsert k₁ new₁ (fileActs (ownEvents i₁ earlier)) :=
    fileStep_at hc hhist₁
  obtain ⟨-, hput₂, -, hidle⟩ : MayInsert k₂ new₂ (fileActs (ownEvents i₂ _)) :=
    fileStep_at hc hhist
  rw [hkey₁] at hput₁
  rw [hkey₂] at hput₂
  obtain rfl := tid_eq_of_put hc hfresh (fun e he ↦ by simp [hhist, he]) (fun e he ↦ by
    rw [hhist]
    exact List.mem_append_right _ (List.mem_cons_of_mem _ he)) hput₁ hput₂
  exact (hidle key).2 (mem_own.mpr ⟨_, by simp, rfl, h₁⟩)

theorem names_once (name : String) :
    Once (fun e ↦ ∃ u, fileAct e = .updates u (some name)) c.world.history := by
  refine pairwise_of_split fun later e₂ mid e₁ earlier hhist ↦ ?_
  rintro ⟨⟨u₁, h₁⟩, u₂, h₂⟩
  have hhist₁ : c.world.history = (later ++ e₂ :: mid) ++ e₁ :: earlier := by simp [hhist]
  obtain ⟨i₁, k₁, b₁, rfl⟩ : IsAct (.updates u₁ (some name)) e₁ := h₁ ▸ isAct e₁
  obtain ⟨i₂, k₂, b₂, rfl⟩ : IsAct (.updates u₂ (some name)) e₂ := h₂ ▸ isAct e₂
  obtain ⟨-, -, -, hput₁⟩ : MayUpdate u₁ (some name) (fileActs (ownEvents i₁ earlier)) :=
    fileStep_at hc hhist₁
  obtain ⟨hfirst, -, -, hput₂⟩ : MayUpdate u₂ (some name) (fileActs (ownEvents i₂ _)) :=
    fileStep_at hc hhist
  obtain rfl := tid_eq_of_put hc hfresh (fun e he ↦ by simp [hhist, he]) (fun e he ↦ by
    rw [hhist]
    exact List.mem_append_right _ (List.mem_cons_of_mem _ he)) (hput₁ name rfl) (hput₂ name rfl)
  exact hfirst u₁ (some name) (mem_own.mpr ⟨_, by simp, rfl, h₁⟩)

/-- A key that had a row before the run gets none in it. -/
theorem not_lists_of_row (hrow : HasRow key s) (hx : x ∈ c.world.history) :
    fileAct x ≠ .lists key := by
  intro hlists
  obtain ⟨later, earlier, hhist⟩ := List.append_of_mem hx
  obtain ⟨n, hle, hlt, hsource⟩ := source_of_need hc (mem_of_split hhist)
    (needs_of_lists hc hhist hlists)
  obtain ⟨m, hm, hkey⟩ := hrow
  exact hfresh.noRow key n hle hlt hsource m hm hkey

theorem not_names_of_photo {u u' : Uuid} {name : String} (hphoto : HasPhoto u name s)
    (hx : x ∈ c.world.history) : fileAct x ≠ .updates u' (some name) := by
  intro hnames
  obtain ⟨later, earlier, hhist⟩ := List.append_of_mem hx
  obtain ⟨n, hle, hlt, hsource⟩ := source_of_need hc (mem_of_split hhist)
    (needs_of_names hc hhist hnames)
  obtain ⟨row, hrow, hkey⟩ := Option.bind_eq_some_iff.mp hphoto
  exact hfresh.noPhoto _ n hle hlt hsource row (Table.mem_of_get? hrow) name hkey rfl

/-- A key whose row was deleted has no row again. -/
theorem row_gone {keys : List String} (hhist : c.world.history = later ++ e :: earlier)
    (hkey : key ∈ keys) (hact : fileAct e = .unlists keys ∨ ∃ u, fileAct e = .clears u keys) :
    ¬HasRow key c.world.store := by
  obtain ⟨hrow, hends⟩ := row_of_act cx.toContext fails hkey hact
  refine hc.gone_of_ended (HasRow key) (fun _ _ ↦ Iff.rfl) (fun hs x hx hrise ↦ ?_) ?_ hhist
    ⟨e, List.mem_cons_self, hrow⟩ hends
  · exact not_lists_of_row hc hfresh hs hx (lists_of_rises hrise)
  · exact (lists_once hc hfresh key).mono fun x _ hrise ↦ lists_of_rises hrise

/-- A photo that was replaced is not the account's again. -/
theorem photo_gone {u : Uuid} {name : String} (hhist : c.world.history = later ++ e :: earlier)
    (hphoto : ∃ x ∈ e :: earlier, HasPhoto u name x.store)
    (hends : e.Ran (Ends (fileMachine cx.toContext fails) (HasPhoto u name))) :
    ¬HasPhoto u name c.world.store := by
  refine hc.gone_of_ended (HasPhoto u name) (fun _ _ ↦ Iff.rfl) (fun hs x hx hrise ↦ ?_) ?_ hhist
    hphoto hends
  · exact not_names_of_photo hc hfresh hs hx (names_of_rises hrise)
  · exact (names_once hc hfresh name).mono fun x _ hrise ↦ ⟨u, names_of_rises hrise⟩

end Runs

/-! ## Servers and schedules to evaluate -/

namespace FileSample

open Sample

/-- Every upload is a picture, and the text of an id has its 32 digits. -/
def context : FileContext where
  toContext := { Context.sample with
    simple := fun id ↦ "0000000000000000000000000000" ++ toString id }
  maxUploadBytes := 1024
  allowedContentTypes := ["image/png"]
  infer _ := some ⟨"image/png", "png"⟩
  toAvatarJpeg upload := .ok upload

/-- Ada and an administrator, and no files. -/
def start : FileServer where
  toServer := server
    ((Relational.Table.single (account 1 "ada@example.com" .user)).put
      (account 2 "root@example.com" .admin))
  media := .empty
  objects _ := none

def upload : FileRequest := .uploadMedia (bearer 1 .user) [1, 2, 3] (some "a.png")

def setAvatar : FileRequest := .setAvatar (bearer 1 .user) [4, 5]

def removeAvatar : FileRequest := .removeAvatar (bearer 1 .user)

def deleteAda : FileRequest := .deleteUser (bearer 2 .admin) 1

/-- Thread `i` serves `k` from start to answer, `n` statements with nothing in between. -/
def alone (i : ℕ) (k : FileRequest) (n : ℕ) : List (Action FileRequest ℕ) :=
  .start k :: List.replicate n (.run i) ++ [.answer i]

def idText (n : ℕ) : List Char := (context.simple (context.randomUuid n)).toList

theorem idText_length : ∀ n < 8, (idText n).length = 32 := by decide

theorem idText_inj : ∀ m < 8, ∀ n < 8, idText m = idText n → m = n := by decide

theorem isValidName_newName : ∀ n < 8, AvatarStorage.isValidName
    (AvatarStorage.newName context.toContext n) = true := by decide

theorem source_text {n : ℕ} {key : String} (h : context.Source n key) :
    ∃ kind rest, key.toList = kind ++ (idText n ++ rest) ∧
      (kind = "media/".toList ∨ kind = "avatars/".toList) := by
  rcases h with ⟨extension, rfl⟩ | rfl
  · exact ⟨_, ("." ++ extension).toList, by
      simp [Context.mediaKey, idText, String.toList_append], .inl rfl⟩
  · exact ⟨_, ".jpg".toList, by
      simp [AvatarStorage.objectKey, AvatarStorage.newName, idText, String.toList_append], .inr rfl⟩

theorem noPhotos : ∀ u ∈ start.db.users, u.avatarKey = none := by
  intro u hu
  simp only [start, server, Table.put, Table.single, Table.mem_def, List.mem_cons,
    List.mem_filter, List.not_mem_nil, or_false] at hu
  rcases hu with rfl | ⟨rfl, -⟩ <;> rfl

theorem freshKeys {draws : ℕ} (h : draws ≤ 8) : FreshKeys context start draws where
  distinct key m n hm hn hsource hsource' := by
    obtain ⟨kind, rest, hkey, hkind⟩ := source_text hsource
    obtain ⟨kind', rest', hkey', hkind'⟩ := source_text hsource'
    obtain rfl : kind = kind' := by
      have hhead := congrArg List.head? (hkey.symm.trans hkey')
      rcases hkind with rfl | rfl <;> rcases hkind' with rfl | rfl <;> first | rfl | simp at hhead
    have htexts := List.append_cancel_left (hkey.symm.trans hkey')
    apply idText_inj m (by omega) n (by omega)
    exact List.append_inj_left htexts
      ((idText_length m (by omega)).trans (idText_length n (by omega)).symm)
  noObject _ _ _ _ _ := rfl
  noRow _ _ _ _ _ m hm := by cases hm
  noPhoto _ _ _ _ _ u hu name hname := by simp [noPhotos u hu] at hname

end FileSample

end ApiStarter
