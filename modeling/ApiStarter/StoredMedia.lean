import ApiStarter.FileRuns

/-!
# Every listed file can be downloaded

Rows and objects live in two stores.  An upload stores the object before it adds
the row, and an object is deleted only when its row is gone or never came, so at
no moment does a row name an object that is not there, wherever requests are cut
off.
-/

namespace ApiStarter

open Interleave Interleave.Prog Relational

/-- Every row has its object, under a key that is no photo's. -/
structure MediaStored (s : FileServer) : Prop where
  object : ∀ m ∈ s.media, HasObject m.storageKey s
  noPhoto : ∀ m ∈ s.media, ∀ name, m.storageKey ≠ AvatarStorage.objectKey name

/-- The request that added the row uploaded these bytes. -/
def Uploaded (m : Media) (bytes : Bytes) (h : List FileEvent) : Prop :=
  ∃ i caller filename id new b,
    .ran i (.uploadMedia caller bytes filename) (.media (.insert id new)) b ∈ h ∧
      m = new.row id b.now

/-- The object of the row has the bytes uploaded for it, in this run or before `s`. -/
def Downloadable (cx : FileContext) (fails : FileStatement → Bool) (s : FileServer)
    (W : FileWorld) (m : Media) : Prop :=
  ∃ bytes, W.store.objects m.storageKey = some bytes ∧
    (Uploaded m bytes W.history ∨ m ∈ s.media ∧ s.objects m.storageKey = some bytes) ∧
    ∀ actor : AuthUser, m.ownerId = actor.id ∨ actor.role.isAdmin = true →
      ((MediaService.content actor m.id).alone (fileMachine cx.toContext fails) W.store).1 =
        .ok ⟨m, bytes⟩

/-- Bytes stay as they are unless they are deleted or stored again. -/
theorem not_ends_bytes {cx : Context} {fails : FileStatement → Bool} {key : String} {bytes : Bytes}
    {x : FileEvent} (hlive : x.store.objects key = some bytes) (hput : fileAct x ≠ .puts key)
    (hdelete : fileAct x ≠ .deletes key) :
    ¬x.Ran (Ends (fileMachine cx fails) fun s ↦ s.objects key = some bytes) := by
  cases x with
  | answered => exact id
  | ran i k q b => exact fun hend ↦ hend ((objects_of_act hput hdelete).trans hlive)

section Runs

variable {cx : FileContext} {fails : FileStatement → Bool} {s : FileServer} {c : FileConfig}
  {m : Media} {key : String} (hc : FileReached cx fails s c)
  (hfresh : FreshKeys cx s c.world.store.draws)
include hc hfresh

/-- As long as a key has its row, its object has never been deleted. -/
theorem not_deleted_of_row (hstart : MediaStored s) (hrow : HasRow key c.world.store)
    (x : FileEvent) (hx : x ∈ c.world.history) : fileAct x ≠ .deletes key := by
  intro hdeletes
  obtain ⟨later, earlier, hhist⟩ := List.append_of_mem hx
  obtain ⟨i, k, b, rfl⟩ : IsAct (.deletes key) x := hdeletes ▸ isAct x
  have hmay : MayDelete k key (fileActs (ownEvents i earlier)) := fileStep_at hc hhist
  rcases hmay with ⟨hput, hlists, -⟩ | ⟨keys, hkey, hunlisted⟩ | ⟨u, name, photo, hphoto, -⟩ |
    ⟨caller, u, name, -, hphoto, -⟩
  · -- a row for the object was added by the same request, before or after
    have hnew : ¬HasRow key s := by
      rintro ⟨m, hm, hkey⟩
      obtain ⟨n, hle, hlt, hsource⟩ := source_of_need hc (mem_of_split hhist) hput
      exact hfresh.noRow key n hle hlt hsource m hm hkey
    obtain ⟨mid, r, older, hold, hr, -⟩ :=
      hc.rises_of_live (HasRow key) (fun _ _ ↦ Iff.rfl) hnew hrow
    have hr := lists_of_rises hr
    have hputr := needs_of_lists hc hold hr
    have htid : r.tid = i :=
      tid_eq_of_put hc hfresh (mem_of_split hold) (mem_of_split hhist) hputr hput
    have hne : r ≠ .ran i k (.storage (.delete key)) b := by
      rintro rfl
      cases hr
    rcases before_or_after hhist (by simp [hold]) hne with hbefore | ⟨l, mid', hafter⟩
    · exact hlists key (mem_own.mpr ⟨r, hbefore, htid, hr⟩)
    · obtain ⟨j, k', id, new, b', -, rfl, rfl, -⟩ : IsAct (.lists key) r := hr ▸ isAct r
      obtain ⟨-, -, -, hidle⟩ : MayInsert k' new (fileActs (ownEvents j
          (mid' ++ .ran i k (.storage (.delete new.storageKey)) b :: earlier))) :=
        fileStep_at hc hafter
      exact (hidle _).1
        (mem_own.mpr ⟨_, List.mem_append_right _ List.mem_cons_self, htid.symm, rfl⟩)
  · obtain ⟨y, hy, hact⟩ := unlisted_of_own hunlisted
    obtain ⟨l, older, hold⟩ := List.append_of_mem (mem_of_split hhist y hy)
    exact row_gone hc hfresh hold hkey hact hrow
  · exact key_ne_objectKey hc hstart.noPhoto hrow name hphoto
  · exact key_ne_objectKey hc hstart.noPhoto hrow name hphoto

/-- No row names an object that is not there. -/
theorem media_downloadable (hstart : MediaStored s) (hm : m ∈ c.world.store.media) :
    Downloadable cx fails s c.world m := by
  have hrow : HasRow m.storageKey c.world.store := ⟨m, hm, rfl⟩
  have hkept := not_deleted_of_row hc hfresh hstart hrow
  obtain ⟨bytes, hobject, horigin⟩ : ∃ bytes, c.world.store.objects m.storageKey = some bytes ∧
      (Uploaded m bytes c.world.history ∨ m ∈ s.media ∧ s.objects m.storageKey = some bytes) := by
    by_cases hold : m ∈ s.media
    · obtain ⟨bytes, hbytes⟩ := Option.isSome_iff_exists.mp (hstart.object m hold)
      refine ⟨bytes, ?_, .inr ⟨hold, hbytes⟩⟩
      refine hc.live_of_start (fun s ↦ s.objects m.storageKey = some bytes)
        (fun _ _ ↦ Iff.rfl) hbytes
        fun x hx hlive ↦ not_ends_bytes hlive (fun hput ↦ ?_) (hkept x hx)
      obtain ⟨n, hle, hlt, hsource⟩ := source_of_put hc hx hput
      exact hfresh.noRow _ n hle hlt hsource m hold rfl
    · obtain ⟨mid, r, older, hhist, hr, -⟩ := hc.rises_of_live (fun s ↦ m ∈ s.media)
        (fun _ _ ↦ Iff.rfl) hold hm
      obtain ⟨i₀, k₀, id₀, new₀, b₀, media, rfl, rfl, hmedia⟩ : ∃ i k id new b media,
          r = .ran i k (.media (.insert id new)) b ∧ m = new.row id b.now ∧
            b.media.insert? (new.row id b.now) = some media := by
        cases r with
        | answered => exact hr.elim
        | ran i k q b =>
            rcases mem_media_exec hr.2 with h | ⟨id, new, media, rfl, h⟩
            · exact absurd h hr.1
            · exact ⟨i, k, id, new, b, media, rfl, h⟩
      obtain ⟨i, caller, bytes, filename, id, new, b, heq, hkey, ⟨k, b', hp⟩, -⟩ :=
        uploaded_of_lists hc hhist (lists_of_insert hmedia)
      cases heq
      refine ⟨bytes, ?_, .inl ⟨i₀, caller, filename, id₀, new₀, b₀, by simp [hhist], rfl⟩⟩
      obtain ⟨l, older, hp'⟩ := List.append_of_mem (mem_of_split hhist _ hp)
      refine hc.live_of_begun (fun s ↦ s.objects new₀.storageKey = some bytes)
        (fun _ _ ↦ Iff.rfl) hp'
        (by simp [Objects.serve]) fun x hx hlive ↦ not_ends_bytes hlive ?_ ?_
      · exact not_put_later hc hfresh hp' rfl x hx
      · exact hkept x (hp' ▸ List.mem_append_left _ hx)
  refine ⟨bytes, hobject, horigin, fun actor hactor ↦ ?_⟩
  have hget : c.world.store.media.table.get? m.id = some m := Table.get?_of_mem hm
  have hmay : (decide (m.ownerId = actor.id) || actor.role.isAdmin) = true := by simpa using hactor
  simp [MediaService.content, MediaService.findAccessible, mediaSql, getObject, Prog.alone,
    MediaSql.run, hget, hmay, Objects.serve, hobject, Option.filter_some]

end Runs

theorem media_downloadable_upload :
    ∃ c, FileReached FileSample.context (fun _ ↦ true) FileSample.start c ∧
      ∃ m ∈ c.world.store.media,
        Downloadable FileSample.context (fun _ ↦ true) FileSample.start c.world m := by
  let test : FileConfig → Bool := fun c ↦
    decide (c.world.store.media.table.rows ≠ []) && decide (c.world.store.draws = 2)
  obtain ⟨c, hc, htest⟩ : ∃ c, FileReached FileSample.context (fun _ ↦ true) FileSample.start c ∧
      test c = true :=
    Reachable.of_schedule (FileSample.alone 0 FileSample.upload 6) test (by decide) (by decide)
  simp only [test, Bool.and_eq_true, decide_eq_true_eq] at htest
  obtain ⟨hrows, hdraws⟩ := htest
  obtain ⟨m, hm⟩ := List.exists_mem_of_ne_nil _ hrows
  refine ⟨c, hc, m, hm, media_downloadable hc (FileSample.freshKeys (by omega)) ⟨?_, ?_⟩ hm⟩
  · intro m hm
    cases hm
  · intro m hm
    cases hm

end ApiStarter
