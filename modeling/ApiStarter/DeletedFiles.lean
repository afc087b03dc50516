import ApiStarter.AvatarFiles
import ApiStarter.StoredMedia

/-!
# The files of a deleted account

Deleting an account ends with the photo that was read before and with the rows
there are then and their objects.  A request of the account that was let in
earlier may list a file or name a photo after that, and nobody comes back for it.
-/

namespace ApiStarter

open Interleave Interleave.Prog Relational

/-- The object was in a row of the account or its photo, or a request of the account stored it. -/
def ObjectOf (u : Uuid) (key : String) (s : FileServer) (h : List FileEvent) : Prop :=
  (∃ m ∈ s.media, m.ownerId = u ∧ m.storageKey = key) ∨
    (∃ name, HasPhoto u name s ∧ AvatarStorage.objectKey name = key) ∨
    ∃ e ∈ h, fileAct e = .puts key ∧ ∃ r ∈ h, r.tid = e.tid ∧ ∃ photo, fileAct r = .reads u photo

structure FilesRemoved (u : Uuid) (s : FileServer) (W : FileWorld) : Prop where
  rows : ∀ m ∈ W.store.media, m.ownerId ≠ u
  objects : ∀ key, ObjectOf u key s W.history → ¬HasObject key W.store

/-- A row of the account is added. -/
def ListsFor (u : Uuid) (key : String) (e : FileEvent) : Prop :=
  fileAct e = .lists key ∧ ∃ i k id new b,
    e = .ran i k (.media (.insert id new)) b ∧ new.ownerId = u

/-- After every row that is added for the account its rows are deleted, or this one is. -/
def RowsCleared (u : Uuid) (h : List FileEvent) : Prop :=
  ∀ later e earlier key, h = later ++ e :: earlier → ListsFor u key e →
    ∃ x ∈ later, ∃ keys, fileAct x = .clears u keys ∨ fileAct x = .unlists keys ∧ key ∈ keys

theorem PhotoOf.objectOf {u : Uuid} {name : String} {s : FileServer} {h : List FileEvent}
    (hphoto : PhotoOf u name s h) : ObjectOf u (AvatarStorage.objectKey name) s h := by
  rcases hphoto with hs | hput
  · exact .inr (.inl ⟨name, hs, rfl⟩)
  · exact .inr (.inr hput)

/-- Deleting the rows of the account deletes this one. -/
theorem ends_media_of_clears {cx : Context} {fails : FileStatement → Bool} {m : Media}
    {x : FileEvent} {keys : List String} (h : fileAct x = .clears m.ownerId keys) :
    x.Ran (Ends (fileMachine cx fails) fun s ↦ m ∈ s.media) := by
  obtain ⟨i, k, b, rfl, -⟩ : IsAct (.clears m.ownerId keys) x := h ▸ isAct x
  intro hmem
  obtain ⟨-, hkept⟩ := MediaTable.mem_deleteWhere.mp hmem
  simp [Media.isOwnedBy] at hkept

theorem ends_media_of_unlists {cx : Context} {fails : FileStatement → Bool} {m : Media}
    {x : FileEvent} {keys : List String} (h : fileAct x = .unlists keys)
    (hkey : m.storageKey ∈ keys) :
    x.Ran (Ends (fileMachine cx fails) fun s ↦ m ∈ s.media) := by
  obtain ⟨-, hends⟩ := row_of_act cx fails hkey (.inl h)
  cases x with
  | answered => exact hends
  | ran i k q b => exact fun hmem ↦ hends ⟨m, hmem, rfl⟩

section Runs

variable {cx : FileContext} {fails : FileStatement → Bool} {s : FileServer} {c : FileConfig}
  {u : Uuid} {m : Media} {key : String} (hc : FileReached cx fails s c)
include hc

theorem lists_of_media (hm : m ∈ c.world.store.media) (hnew : m ∉ s.media) :
    ∃ later e earlier, c.world.history = later ++ e :: earlier ∧
      ListsFor m.ownerId m.storageKey e ∧
      ∀ x ∈ later, ¬x.Ran (Ends (fileMachine cx.toContext fails) fun s ↦ m ∈ s.media) := by
  obtain ⟨later, e, earlier, hhist, hrises, hkept⟩ := hc.rises_of_live (fun s ↦ m ∈ s.media)
    (fun _ _ ↦ Iff.rfl) hnew hm
  refine ⟨later, e, earlier, hhist, ?_, fun x hx ↦ (hkept x hx).2⟩
  cases e with
  | answered => exact hrises.elim
  | ran i k q b =>
      rcases mem_media_exec hrises.2 with h | ⟨id, new, media, rfl, rfl, hmedia⟩
      · exact absurd h hrises.1
      · exact ⟨lists_of_insert hmedia, i, k, id, new, b, rfl, rfl⟩

/-- A row that was added and is gone was deleted. -/
theorem unlisted_of_lists {later earlier : List FileEvent} {e : FileEvent}
    (hhist : c.world.history = later ++ e :: earlier) (hlists : ListsFor u key e)
    (hgone : ∀ m ∈ c.world.store.media, m.ownerId ≠ u) :
    ∃ x ∈ later, ∃ keys, key ∈ keys ∧ (fileAct x = .unlists keys ∨ fileAct x = .clears u keys) := by
  obtain ⟨hact, i, k, id, new, b, rfl, rfl⟩ := hlists
  obtain ⟨i', k', id', new', b', media, heq, hkey, hmedia⟩ : IsAct (.lists key)
    (.ran i k (.media (.insert id new)) b) := hact ▸ isAct _
  cases heq
  by_contra hnone
  refine hgone (new.row id b.now) (hc.live_of_begun (fun s ↦ new.row id b.now ∈ s.media)
    (fun _ _ ↦ Iff.rfl) hhist ?_ fun x hx hlive hends ↦ ?_) rfl
  · simp only [Event.Ran, exec_media, MediaSql.run, hmedia]
    exact (MediaTable.mem_insert? hmedia).mpr (.inr rfl)
  · cases x with
    | answered => exact hends
    | ran j k q b₁ =>
        obtain ⟨keys, hmem, hdeleted⟩ := act_of_ends_media (i := j) (k := k) hlive hends
        exact hnone ⟨_, hx, keys, hkey ▸ hmem, hdeleted⟩

theorem unlisted_of_start (hm : m ∈ s.media) (hgone : m ∉ c.world.store.media) :
    ∃ x ∈ c.world.history, ∃ keys, m.storageKey ∈ keys ∧
      (fileAct x = .unlists keys ∨ fileAct x = .clears m.ownerId keys) := by
  by_contra hnone
  refine hgone (hc.live_of_start (fun s ↦ m ∈ s.media) (fun _ _ ↦ Iff.rfl) hm
    fun x hx hlive hends ↦ ?_)
  cases x with
  | answered => exact hends
  | ran j k q b =>
      obtain ⟨keys, hmem, hdeleted⟩ := act_of_ends_media (i := j) (k := k) hlive hends
      exact hnone ⟨_, hx, keys, hmem, hdeleted⟩

/-- A request lists for the account it read. -/
theorem listsFor_of_reads {e r : FileEvent} {photo : Option String} (he : e ∈ c.world.history)
    (hlists : fileAct e = .lists key) (hr : r ∈ c.world.history) (htid : r.tid = e.tid)
    (hreads : fileAct r = .reads u photo) : ListsFor u key e := by
  refine ⟨hlists, ?_⟩
  obtain ⟨later, earlier, hhist⟩ := List.append_of_mem he
  obtain ⟨i, k, id, new, b, -, rfl, rfl, -⟩ : IsAct (.lists key) e := hlists ▸ isAct e
  obtain ⟨⟨caller, bytes, filename, rfl⟩, -, ⟨photo', hread⟩, -⟩ :
    MayInsert k new (fileActs (ownEvents i earlier)) := fileStep_at hc hhist
  obtain ⟨r', hr', htid', hreads'⟩ := mem_own.mp hread
  refine ⟨i, _, id, new, b, rfl, ?_⟩
  apply reads_same hc (mem_of_split hhist r' hr') hr (htid'.trans htid.symm) hreads' hreads
  rw [hc.request_eq (mem_of_split hhist r' hr') he htid']
  rfl

variable (hfresh : FreshKeys cx s c.world.store.draws)
  (hsure : ∀ key, fails (.storage (.delete key)) = false)
include hfresh hsure

/-- The object of a deleted row is deleted by whoever deleted the row. -/
theorem object_gone_of_unlisted (hanswered : AllAnswered c.world.history) {x : FileEvent}
    {keys : List String} (hx : x ∈ c.world.history) (hkey : key ∈ keys)
    (hdeleted : fileAct x = .unlists keys ∨ fileAct x = .clears u keys) :
    ¬HasObject key c.world.store := by
  have hown : .unlists keys ∈ fileActs (ownEvents x.tid c.world.history) ∨
      ∃ u, .clears u keys ∈ fileActs (ownEvents x.tid c.world.history) := by
    rcases hdeleted with h | h
    · exact .inl (mem_own.mpr ⟨x, hx, rfl, h⟩)
    · exact .inr ⟨u, mem_own.mpr ⟨x, hx, rfl, h⟩⟩
  have hsettled := settled_of_answered hc hsure hanswered hx
  obtain ⟨d, hd, -, hact⟩ := mem_own.mp (hsettled.unlisted keys hown key hkey)
  exact object_gone_of_deletes hc hfresh hd hact

/-- No row of the account is left exactly if they are deleted after the last was added. -/
theorem rowsCleared_iff (hcleared : fails (.media (.deleteAllByOwner u)) = false)
    (hdone : ∃ a ∈ c.world.history, deletionDone u a = true) :
    (∀ m ∈ c.world.store.media, m.ownerId ≠ u) ↔ RowsCleared u c.world.history := by
  constructor
  · intro hgone later e earlier key hhist hlists
    obtain ⟨x, hx, keys, hkey, hdeleted⟩ := unlisted_of_lists hc hhist hlists hgone
    exact ⟨x, hx, keys, hdeleted.symm.imp_right fun h ↦ ⟨h, hkey⟩⟩
  · rintro hrows m hm rfl
    by_cases hold : m ∈ s.media
    · obtain ⟨a, ha, hdone⟩ := hdone
      obtain ⟨-, hclears⟩ := cleanedUp_of_done hc hsure ha hdone
      obtain ⟨keys, hkeys⟩ := hclears hcleared
      obtain ⟨x, hx, -, hact⟩ := mem_own.mp hkeys
      obtain ⟨later, earlier, hhist⟩ := List.append_of_mem hx
      refine hc.not_live_of_ended (fun s ↦ m ∈ s.media) (fun _ _ ↦ Iff.rfl) hhist
        (fun y hy hrises ↦ ?_) (ends_media_of_clears hact) hm
      cases y with
      | answered => exact hrises
      | ran i k q b =>
          rcases mem_media_exec hrises.2 with h | ⟨id, new, media, rfl, rfl, hmedia⟩
          · exact hrises.1 h
          · exact not_lists_of_row hc hfresh ⟨_, hold, rfl⟩ (hhist ▸ List.mem_append_left _ hy)
              (lists_of_insert hmedia)
    · obtain ⟨later, e, earlier, hhist, hlists, hkept⟩ := lists_of_media hc hm hold
      obtain ⟨x, hx, keys, hclears | ⟨hunlists, hkey⟩⟩ := hrows later e earlier _ hhist hlists
      · exact hkept x hx (ends_media_of_clears hclears)
      · exact hkept x hx (ends_media_of_unlists hunlists hkey)

end Runs

/-- A deletion that is answered has removed all files of the account exactly if what its requests
listed or named later was seen to. -/
theorem deleted_files_removed_iff {cx : FileContext} {fails : FileStatement → Bool}
    {s : FileServer} {c : FileConfig} {u : Uuid} (hc : FileReached cx fails s c)
    (hfresh : FreshKeys cx s c.world.store.draws)
    (hnames : ∀ n < c.world.store.draws,
      AvatarStorage.isValidName (AvatarStorage.newName cx.toContext n) = true)
    (hsure : ∀ key, fails (.storage (.delete key)) = false)
    (hcleared : fails (.media (.deleteAllByOwner u)) = false) (hstart : PhotosStored u s)
    (hanswered : AllAnswered c.world.history)
    (hdone : ∃ a ∈ c.world.history, deletionDone u a = true) :
    FilesRemoved u s c.world ↔ RowsCleared u c.world.history ∧
      ∀ name, Named u name s c.world.history → TakenOver u name c.world.history := by
  have hphotos : ∀ name, PhotoOf u name s c.world.history →
      (HasObject (AvatarStorage.objectKey name) c.world.store ↔
        Named u name s c.world.history ∧ ¬TakenOver u name c.world.history) :=
    fun name ↦ object_iff hc hfresh hstart hsure hnames hanswered
  rw [← rowsCleared_iff hc hfresh hsure hcleared hdone]
  constructor
  · intro hremoved
    refine ⟨hremoved.rows, fun name hnamed ↦ ?_⟩
    by_contra hnot
    have hof := photoOf_of_named hc hnamed
    exact hremoved.objects _ hof.objectOf ((hphotos name hof).mpr ⟨hnamed, hnot⟩)
  · rintro ⟨hrows, htaken⟩
    have hgone : ∀ name, PhotoOf u name s c.world.history →
        ¬HasObject (AvatarStorage.objectKey name) c.world.store := by
      intro name hof hobject
      obtain ⟨hnamed, hnot⟩ := (hphotos name hof).mp hobject
      exact hnot (htaken name hnamed)
    refine ⟨hrows, ?_⟩
    rintro key (⟨m, hm, rfl, rfl⟩ | ⟨name, hs, rfl⟩ | ⟨p, hp, hput, r, hr, htid, photo, hreads⟩)
    · obtain ⟨x, hx, keys, hkey, hdeleted⟩ := unlisted_of_start hc hm fun h ↦ hrows m h rfl
      exact object_gone_of_unlisted hc hfresh hsure hanswered hx hkey hdeleted
    · exact hgone name (.inl hs)
    · by_cases hphoto : ∃ name, key = AvatarStorage.objectKey name
      · obtain ⟨name, rfl⟩ := hphoto
        exact hgone name (.inr ⟨p, hp, hput, r, hr, htid, photo, hreads⟩)
      have hsettled := settled_of_answered hc hsure hanswered hp
      rcases hsettled.put key (mem_own.mpr ⟨p, hp, rfl, hput⟩)
        (fun name h ↦ absurd ⟨name, h⟩ hphoto) with hdeletes | hlists | ⟨u', name, hkey, -⟩
      · obtain ⟨d, hd, -, hact⟩ := mem_own.mp hdeletes
        exact object_gone_of_deletes hc hfresh hd hact
      · obtain ⟨e, he, hetid, hact⟩ := mem_own.mp hlists
        obtain ⟨later, earlier, hhist⟩ := List.append_of_mem he
        have hfor : ListsFor u key e :=
          listsFor_of_reads hc he hact hr (htid.trans hetid.symm) hreads
        obtain ⟨x, hx, keys, hkey, hdeleted⟩ := unlisted_of_lists hc hhist hfor hrows
        exact object_gone_of_unlisted hc hfresh hsure hanswered (hhist ▸ List.mem_append_left _ hx)
          hkey hdeleted
      · exact absurd ⟨name, hkey⟩ hphoto

/-- It is enough that nothing is added after the rows were deleted. -/
theorem rowsCleared_of_newest {u : Uuid} {newer older : List FileEvent}
    (hclears : ∃ x ∈ newer, ∃ keys, fileAct x = .clears u keys)
    (hnone : ∀ e ∈ newer, ∀ key, fileAct e ≠ .lists key) : RowsCleared u (newer ++ older) := by
  intro later e earlier key hhist hlists
  obtain ⟨x, hx, keys, hact⟩ := hclears
  refine ⟨x, ?_, keys, .inl hact⟩
  rcases List.append_eq_append_iff.mp hhist with ⟨l, rfl, -⟩ | ⟨l, rfl, hsplit⟩
  · exact List.mem_append_left _ hx
  · cases l with
    | nil => simpa using hx
    | cons e' l =>
        obtain ⟨rfl, -⟩ := List.cons.inj hsplit
        exact absurd hlists.1 (hnone e (by simp) key)

theorem deleted_files_removed_when_idle :
    ∃ c, FileReached FileSample.context (fun _ ↦ false) FileSample.start c ∧
      (∃ a ∈ c.world.history, deletionDone 1 a = true) ∧
        FilesRemoved 1 FileSample.start c.world := by
  let photo : String := AvatarStorage.newName FileSample.context.toContext 0
  let key : String := FileSample.context.mediaKey 1 "png"
  let done : List FileAct := [.other, .clears 1 [key], .deletes key]
  let acts : List FileAct := done ++ [.reads 1 none, .reads 1 (some photo), .reads 2 none,
    .puts (AvatarStorage.objectKey photo), .selects 1 none, .updates 1 (some photo),
    .deletes (AvatarStorage.objectKey photo), .puts key, .lists key]
  let test : FileConfig → Bool := fun c ↦
    decide (c.world.store.draws = 3) &&
    c.world.history.all
      (fun e ↦ c.world.history.any fun a ↦ decide (a.tid = e.tid) && a.isAnswer) &&
    c.world.history.any (fun a ↦ decide (a.tid = 2) && deletionDone 1 a) &&
    c.world.history.any (fun x ↦ decide (x.tid = 2 ∧ fileAct x = .reads 1 (some photo))) &&
    c.world.history.all (fun e ↦ decide (fileAct e ∈ acts)) &&
    (c.world.history.take 3).any (fun x ↦ decide (fileAct x = .clears 1 [key])) &&
    (c.world.history.take 3).all fun e ↦ decide (fileAct e ∈ done)
  obtain ⟨c, hc, htest⟩ : ∃ c, FileReached FileSample.context (fun _ ↦ false) FileSample.start c ∧
      test c = true :=
    Reachable.of_schedule (FileSample.alone 0 FileSample.setAvatar 7 ++
      FileSample.alone 1 FileSample.upload 6 ++ FileSample.alone 2 FileSample.deleteAda 8) test
      (by decide) (by decide)
  simp only [test, Bool.and_eq_true, decide_eq_true_eq, List.all_eq_true, List.any_eq_true] at htest
  obtain ⟨⟨⟨⟨⟨⟨hdraws, hanswered⟩, ⟨a, ha, hatid, hdone⟩⟩, ⟨x, hx, hxtid, hreads⟩⟩, hacts⟩,
    ⟨y, hy, hclears⟩⟩, hnewest⟩ := htest
  refine ⟨c, hc, ⟨a, ha, hdone⟩, (deleted_files_removed_iff hc (FileSample.freshKeys (by omega))
    (fun n hn ↦ FileSample.isValidName_newName n (by omega)) (fun _ ↦ rfl) rfl
    FileSample.photosStored hanswered ⟨a, ha, hdone⟩).mpr ⟨?_, ?_⟩⟩
  · rw [← List.take_append_drop 3 c.world.history]
    refine rowsCleared_of_newest ⟨y, hy, _, hclears⟩ fun e he key' hlists ↦ ?_
    have hmem := hnewest e he
    rw [hlists] at hmem
    simp [done] at hmem
  · rintro name (hs | ⟨e, he, hact⟩)
    · cases hs
    · obtain rfl : name = photo := by
        have hmem := hacts e he
        rw [hact] at hmem
        simpa [acts, done] using hmem
      exact .inr ⟨x, hx, hreads, a, ha, hatid.trans hxtid.symm, hdone⟩

def FileRequest.isUpload : FileRequest → Bool
  | .uploadMedia .. => true
  | .setAvatar .. => true
  | _ => false

/-- A file listed after the cleanup stays. -/
theorem late_upload_stays :
    ∃ c, Reachable (fileMachine FileSample.context.toContext fun _ ↦ false)
        (handleFile FileSample.context) (fun k ↦ (k.isUpload || k.isDeletion) = true)
        FileSample.start c ∧
      AllAnswered c.world.history ∧ (∃ a ∈ c.world.history, deletionDone 1 a = true) ∧
      ¬FilesRemoved 1 FileSample.start c.world := by
  let test : FileConfig → Bool := fun c ↦
    c.world.history.all
      (fun e ↦ c.world.history.any fun a ↦ decide (a.tid = e.tid) && a.isAnswer) &&
    c.world.history.any (deletionDone 1) &&
    c.world.store.media.table.rows.any fun m ↦ decide (m.ownerId = 1)
  obtain ⟨c, hc, htest⟩ : ∃ c, Reachable (fileMachine FileSample.context.toContext fun _ ↦ false)
      (handleFile FileSample.context) (fun k ↦ (k.isUpload || k.isDeletion) = true)
      FileSample.start c ∧ test c = true :=
    Reachable.of_schedule (.start FileSample.upload :: .start FileSample.deleteAda ::
      List.replicate 5 (.run 0) ++ List.replicate 6 (.run 1) ++ [.answer 1, .run 0, .answer 0]) test
      (by decide) (by decide)
  simp only [test, Bool.and_eq_true, decide_eq_true_eq, List.all_eq_true, List.any_eq_true] at htest
  obtain ⟨⟨hanswered, hdone⟩, m, hm, howner⟩ := htest
  exact ⟨c, hc, hanswered, hdone, fun hremoved ↦ hremoved.rows m hm howner⟩

end ApiStarter
