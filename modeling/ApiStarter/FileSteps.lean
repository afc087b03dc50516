import ApiStarter.Calls
import ApiStarter.Interleave.Fresh
import ApiStarter.Services.Files

/-!
# What a request does to the files

Requests only meet in the two stores, so what is needed of the handlers is said
of one request at a time: which of its earlier steps allow it to store, to list,
to name or to delete an object, and what it has seen to by the time it is
answered.
-/

namespace ApiStarter

open Interleave Interleave.Prog Relational

abbrev FileEvent := Event FileStatement FileServer FileRequest AppError FileResponse
abbrev FileWorld := World FileStatement FileServer FileRequest AppError FileResponse
abbrev FileConfig := Config FileStatement.Res FileServer FileRequest AppError FileResponse

/-- The photo of the account `u`, when it is read. -/
def photoOf (u : Uuid) (s : Server) : Option String :=
  (s.db.users.find? (liveId u)).bind User.avatarKey

/-- What a step does to the files. -/
inductive FileAct
  | other
  /-- The account `u` is read, with this photo. -/
  | reads (u : Uuid) (photo : Option String)
  | puts (key : String)
  | deletes (key : String)
  /-- A row with this key is added. -/
  | lists (key : String)
  /-- Rows with these keys are deleted. -/
  | unlists (keys : List String)
  /-- The rows of `u`, with these keys, are deleted. -/
  | clears (u : Uuid) (keys : List String)
  /-- The `SELECT` of `set_avatar_key` finds this photo. -/
  | selects (u : Uuid) (photo : Option String)
  /-- The `UPDATE` of `set_avatar_key`. -/
  | updates (u : Uuid) (photo : Option String)
  deriving DecidableEq

def fileAct : FileEvent → FileAct
  | .ran _ _ (.base (.sql (.users (.findById u)))) b => .reads u (photoOf u b.toServer)
  | .ran _ _ (.storage (.put key _)) _ => .puts key
  | .ran _ _ (.storage (.delete key)) _ => .deletes key
  | .ran _ _ (.media (.insert id new)) b =>
      if (b.media.insert? (new.row id b.now)).isSome then .lists new.storageKey else .other
  | .ran _ _ (.media (.delete id)) b =>
      .unlists ((b.media.table.get? id).map Media.storageKey).toList
  | .ran _ _ (.media (.deleteAllByOwner u)) b =>
      .clears u ((b.media.table.selectWhere (Media.isOwnedBy u)).map Media.storageKey)
  | .ran _ _ (.avatar (.selectKey u)) b => .selects u (photoOf u b.toServer)
  | .ran _ _ (.avatar (.updateKey u photo)) _ => .updates u photo
  | _ => .other

def fileActs (h : List FileEvent) : List FileAct := h.map fileAct

@[simp] theorem fileActs_nil : fileActs [] = [] := rfl
@[simp] theorem fileActs_cons (e : FileEvent) (h : List FileEvent) :
    fileActs (e :: h) = fileAct e :: fileActs h := rfl
@[simp] theorem fileActs_append (h h' : List FileEvent) :
    fileActs (h ++ h') = fileActs h ++ fileActs h' := List.map_append

/-! ## What a thread may do after `own` -/

section Steps

variable (cx : FileContext) (fails : FileStatement → Bool)

/-- The thread drew the number `n` and stored nothing since. -/
def Drew (n : ℕ) (own : List FileEvent) : Prop :=
  ∃ newer i k b older, own = newer ++ .ran i k (.base .draw) b :: older ∧ b.draws = n ∧
    ∀ key, .puts key ∉ fileActs newer

/-- An object is stored under a key made of a draw of its own. -/
def MayPut (k : FileRequest) (key : String) (bytes : Bytes) (own : List FileEvent) : Prop :=
  ∃ n, Drew n own ∧
    ((∃ caller filename, ∃ type : FileType, k = .uploadMedia caller bytes filename ∧
        key = cx.mediaKey n type.extension) ∨
      ∃ caller upload, k = .setAvatar caller upload ∧ cx.toAvatarJpeg upload = .ok bytes ∧
        key = AvatarStorage.objectKey (AvatarStorage.newName cx.toContext n))

/-- A row is added for the object the request stored before, and has not deleted. -/
def MayInsert (k : FileRequest) (new : NewMedia) (acts : List FileAct) : Prop :=
  (∃ caller bytes filename, k = .uploadMedia caller bytes filename) ∧
    .puts new.storageKey ∈ acts ∧ (∃ photo, .reads new.ownerId photo ∈ acts) ∧
      ∀ key, .deletes key ∉ acts ∧ .lists key ∉ acts

/-- What an object is deleted for: it was stored in vain, its row was deleted, its name was read
to be replaced, or the account whose photo it is was deleted. -/
def MayDelete (k : FileRequest) (key : String) (acts : List FileAct) : Prop :=
  (.puts key ∈ acts ∧ (∀ key', .lists key' ∉ acts) ∧ ∀ u photo, .updates u photo ∉ acts) ∨
    (∃ keys, key ∈ keys ∧ (.unlists keys ∈ acts ∨ ∃ u, .clears u keys ∈ acts)) ∨
    (∃ u name photo, key = AvatarStorage.objectKey name ∧ .selects u (some name) ∈ acts ∧
      .updates u photo ∈ acts) ∨
    ∃ caller u name, k = .deleteUser caller u ∧ key = AvatarStorage.objectKey name ∧
      .reads u (some name) ∈ acts

/-- A photo is named at most once by a request, after it was stored. -/
def MayUpdate (u : Uuid) (photo : Option String) (acts : List FileAct) : Prop :=
  (∀ u' photo', .updates u' photo' ∉ acts) ∧ (∀ key, .deletes key ∉ acts) ∧
    (∃ photo', .reads u photo' ∈ acts) ∧
      ∀ name ∈ photo, .puts (AvatarStorage.objectKey name) ∈ acts

/-- What a request has seen to when it is answered. -/
structure Settled (acts : List FileAct) : Prop where
  /-- An object that was stored is deleted again, or in a row, or named. -/
  put : ∀ key, .puts key ∈ acts →
    (∀ name, key = AvatarStorage.objectKey name → AvatarStorage.isValidName name = true) →
      .deletes key ∈ acts ∨ .lists key ∈ acts ∨
        ∃ u name, key = AvatarStorage.objectKey name ∧ .updates u (some name) ∈ acts
  /-- A photo that was read and replaced is deleted. -/
  replaced : ∀ u name photo, .selects u (some name) ∈ acts → .updates u photo ∈ acts →
    AvatarStorage.isValidName name = true → .deletes (AvatarStorage.objectKey name) ∈ acts
  /-- The objects of deleted rows are deleted. -/
  unlisted : ∀ keys, (.unlists keys ∈ acts ∨ ∃ u, .clears u keys ∈ acts) →
    ∀ key ∈ keys, .deletes key ∈ acts

/-- The photo of a deleted account is deleted, and so are its rows. -/
def CleanedUp (u : Uuid) (acts : List FileAct) : Prop :=
  (∀ name, .reads u (some name) ∈ acts → AvatarStorage.isValidName name = true →
    .deletes (AvatarStorage.objectKey name) ∈ acts) ∧
  (fails (.media (.deleteAllByOwner u)) = false → ∃ keys, .clears u keys ∈ acts)

def FileRequest.isDeletion : FileRequest → Bool
  | .deleteUser .. => true
  | _ => false

/-- An answer, when no deletion of an object fails. -/
def MayAnswer (k : FileRequest) (a : Except AppError FileResponse) (acts : List FileAct) : Prop :=
  (∀ key, fails (.storage (.delete key)) = false) →
    Settled acts ∧ ∀ caller u, k = .deleteUser caller u →
      (∀ response, a = .ok response → CleanedUp fails u acts) ∧
        ∀ e, a = .error e → ∀ key, .deletes key ∉ acts

/-- Each step of a request and what it did before. -/
def FileStep : FileEvent → List FileEvent → Prop
  | .ran _ k (.base (.sql (.users (.findById u)))) _, own =>
      k.isDeletion = false → ∀ u' photo, .reads u' photo ∈ fileActs own → u' = u
  | .ran _ k (.storage (.put key bytes)) _, own => MayPut cx k key bytes own
  | .ran _ k (.storage (.delete key)) _, own => MayDelete k key (fileActs own)
  | .ran _ k (.media (.insert _ new)) _, own => MayInsert k new (fileActs own)
  | .ran _ _ (.avatar (.selectKey _)) _, own => ∀ u photo, .updates u photo ∉ fileActs own
  | .ran _ _ (.avatar (.updateKey u photo)) _, own => MayUpdate u photo (fileActs own)
  | .answered _ k a _, own => MayAnswer fails k a (fileActs own)
  | _, _ => True

end Steps

/-! ## The parts of a handler -/

section Base

variable {α β : Type}

@[simp] theorem base_ret (a : α) : base (.ret a) = .ret a := rfl
@[simp] theorem base_fail (e : AppError) : base (.fail e : Req α) = .fail e := rfl

@[simp] theorem base_bind (p : Req α) (f : α → Req β) :
    base (p >>= f) = base p >>= fun a ↦ base (f a) := by
  induction p with
  | ret a => rfl
  | fail e => rfl
  | stmt q next ih =>
      simp only [base, Prog.stmt_bind, Prog.lift] at ih ⊢
      simp only [ih]

@[simp] theorem base_okOr (e : AppError) (o : Option α) : base (okOr e o) = okOr e o := by
  cases o <;> rfl

@[simp] theorem base_ensure (c : Prop) [Decidable c] (e : AppError) :
    base (ensure c e) = ensure c e := by
  unfold ensure
  split <;> rfl

theorem base_only {S : FileStatement → Prop} {p : Req α} (hp : p.Only fun q ↦ S (.base q)) :
    (base p).Only S := hp.lift

end Base

section Walk

variable {cx : FileContext} {fails : FileStatement → Bool} {i : ℕ} {k : FileRequest}
  {own : List FileEvent} {α : Type}

theorem traced_baseAsk {q : Statement} {Q : q.Res → List FileEvent → Prop}
    {E : AppError → List FileEvent → Prop}
    (hP : ∀ s, FileStep cx fails (.ran i k (.base q) s) own)
    (hnext : ∀ s : FileServer, Q (q.exec cx.toContext s.toServer).1 (.ran i k (.base q) s :: own))
    (hfault : ∀ r ∈ q.fault, Q r own) :
    @Traced _ _ _ _ _ _ _ (no_index q.Res) _ (fileMachine cx.toContext fails)
      (FileStep cx fails) i k
      (base (ask q)) Q E own := by
  refine ⟨fun s ↦ ⟨hP s, hnext s⟩, fun r hr ↦ hfault r ?_⟩
  exact (fault_fileMachine hr).2

theorem traced_baseSql {q : Sql} {Q : q.Res → List FileEvent → Prop}
    {E : AppError → List FileEvent → Prop}
    (hP : ∀ s, FileStep cx fails (.ran i k (.base (.sql q)) s) own)
    (hnext : ∀ (s : FileServer) r, (q.run s.now s.db).1 = some r →
      Q r (.ran i k (.base (.sql q)) s :: own))
    (hnone : ∀ s : FileServer, E .database (.ran i k (.base (.sql q)) s :: own))
    (hfault : E .database own) :
    @Traced _ _ _ _ _ _ _ (no_index q.Res) _ (fileMachine cx.toContext fails)
      (FileStep cx fails) i k
      (base (sql q)) Q E own := by
  rw [sql, base_bind]
  refine traced_bind.mpr (traced_baseAsk hP (fun s ↦ ?_) ?_)
  · rw [base_okOr]
    exact (traced_okOr ..).mpr ⟨fun r hr ↦ hnext s r hr, fun _ ↦ hnone s⟩
  · intro r hr
    obtain rfl : none = r := Option.some.inj hr
    rw [base_okOr]
    exact (traced_okOr ..).mpr ⟨by simp, fun _ ↦ hfault⟩

/-- A reply to a call of the object store. -/
theorem traced_storage {call : StorageCall} {f : StorageReply → FileReq α}
    {Q : α → List FileEvent → Prop} {E : AppError → List FileEvent → Prop}
    (hP : ∀ s, FileStep cx fails (.ran i k (.storage call) s) own)
    (hnext : ∀ s : FileServer, Traced (fileMachine cx.toContext fails) (FileStep cx fails) i k
      (f (s.objects.serve call).1) Q E (.ran i k (.storage call) s :: own))
    (hfault : fails (.storage call) = true → ∀ r ∈ (FileStatement.storage call).fault,
      Traced (fileMachine cx.toContext fails) (FileStep cx fails) i k (f r) Q E own) :
    Traced (fileMachine cx.toContext fails) (FileStep cx fails) i k
      (ask (FileStatement.storage call) >>= f) Q E own := by
  refine ⟨fun s ↦ ⟨hP s, hnext s⟩, fun r hr ↦ ?_⟩
  obtain ⟨hfails, hr⟩ := fault_fileMachine hr
  exact hfault hfails r hr

theorem traced_putObject {key : String} {bytes : Bytes} {Q : Unit → List FileEvent → Prop}
    {E : AppError → List FileEvent → Prop} (hP : MayPut cx k key bytes own)
    (hnext : ∀ s, Q () (.ran i k (.storage (.put key bytes)) s :: own)) (hfault : E .internal own) :
    Traced (fileMachine cx.toContext fails) (FileStep cx fails) i k
      (putObject key bytes) Q E own := by
  refine traced_storage (fun _ ↦ hP) (fun s ↦ hnext s) fun _ r hr ↦ ?_
  obtain rfl := Option.some.inj hr
  exact hfault

theorem traced_deleteObject {key : String} {Q : Unit → List FileEvent → Prop}
    {E : AppError → List FileEvent → Prop} (hP : MayDelete k key (fileActs own))
    (hnext : ∀ s, Q () (.ran i k (.storage (.delete key)) s :: own))
    (hfault : fails (.storage (.delete key)) = true → Q () own) :
    Traced (fileMachine cx.toContext fails) (FileStep cx fails) i k (deleteObject key) Q E own :=
  traced_storage (fun _ ↦ hP) hnext fun hfails _ _ ↦ hfault hfails

theorem traced_mediaSql {q : MediaSql} {Q : q.Res → List FileEvent → Prop}
    {E : AppError → List FileEvent → Prop}
    (hP : ∀ s, FileStep cx fails (.ran i k (.media q) s) own)
    (hnext : ∀ (s : FileServer) r, (q.run s.now s.media).1 = some r →
      Q r (.ran i k (.media q) s :: own))
    (hnone : ∀ s : FileServer, (q.run s.now s.media).1 = none →
      E .database (.ran i k (.media q) s :: own))
    (hfault : fails (.media q) = true → E .database own) :
    @Traced _ _ _ _ _ _ _ (no_index q.Res) _ (fileMachine cx.toContext fails)
      (FileStep cx fails) i k
      (mediaSql q) Q E own := by
  refine traced_bind.mpr ⟨fun s ↦ ⟨hP s, ?_⟩, fun r hr ↦ ?_⟩
  · exact (traced_okOr ..).mpr ⟨fun r hr ↦ hnext s r hr, fun hr ↦ hnone s hr⟩
  · obtain ⟨hfails, hr⟩ := fault_fileMachine hr
    obtain rfl : none = r := Option.some.inj hr
    exact (traced_okOr ..).mpr ⟨by simp, fun _ ↦ hfault hfails⟩

theorem traced_avatarSql {q : AvatarSql} {Q : q.Res → List FileEvent → Prop}
    {E : AppError → List FileEvent → Prop}
    (hP : ∀ s, FileStep cx fails (.ran i k (.avatar q) s) own)
    (hnext : ∀ (s : FileServer) r, (q.run s.now s.db.users).1 = some r →
      Q r (.ran i k (.avatar q) s :: own))
    (hnone : ∀ s : FileServer, (q.run s.now s.db.users).1 = none →
      E .database (.ran i k (.avatar q) s :: own)) (hfault : E .database own) :
    @Traced _ _ _ _ _ _ _ (no_index q.Res) _ (fileMachine cx.toContext fails)
      (FileStep cx fails) i k
      (avatarSql q) Q E own := by
  refine traced_bind.mpr ⟨fun s ↦ ⟨hP s, ?_⟩, fun r hr ↦ ?_⟩
  · exact (traced_okOr ..).mpr ⟨fun r hr ↦ hnext s r hr, fun hr ↦ hnone s hr⟩
  · obtain rfl : none = r := Option.some.inj (fault_fileMachine hr).2
    exact (traced_okOr ..).mpr ⟨by simp, fun _ ↦ hfault⟩

/-- The objects of rows that were deleted are deleted one after the other. -/
theorem traced_deleteObjects {keys : List String} {Q : Unit → List FileEvent → Prop}
    {E : AppError → List FileEvent → Prop}
    (hmay : ∀ key ∈ keys, ∃ keys', key ∈ keys' ∧
      (.unlists keys' ∈ fileActs own ∨ ∃ u, .clears u keys' ∈ fileActs own))
    (hnext : ∀ new : List FileEvent, (∀ a ∈ fileActs new, ∃ key, a = .deletes key) →
      ((∀ key, fails (.storage (.delete key)) = false) → ∀ key ∈ keys,
        .deletes key ∈ fileActs new) →
        Q () (new ++ own)) :
    Traced (fileMachine cx.toContext fails) (FileStep cx fails) i k
      (deleteObjects keys) Q E own := by
  induction keys generalizing own with
  | nil => exact hnext [] (by simp) (by simp)
  | cons key keys ih =>
      have hrest : ∀ key ∈ keys, ∃ keys', key ∈ keys' ∧
          (.unlists keys' ∈ fileActs own ∨ ∃ u, .clears u keys' ∈ fileActs own) :=
        fun key' h ↦ hmay key' (List.mem_cons_of_mem _ h)
      refine traced_bind.mpr (traced_deleteObject (.inr (.inl (hmay key List.mem_cons_self)))
        (fun s ↦ ?_) ?_)
      · refine ih (fun key' h ↦ ?_) fun new hnew hall ↦ ?_
        · obtain ⟨keys', hkey', hunlisted⟩ := hrest key' h
          exact ⟨keys', hkey', by simpa [fileAct] using hunlisted⟩
        · rw [List.append_cons]
          refine hnext _ (fun a ha ↦ ?_) fun hsure key' hkey' ↦ ?_
          · rw [fileActs_append] at ha
            rcases List.mem_append.mp ha with ha | ha
            · exact hnew a ha
            · exact ⟨key, List.mem_singleton.mp ha⟩
          · rw [fileActs_append]
            rcases List.mem_cons.mp hkey' with rfl | hkey'
            · exact List.mem_append_right _ (by simp [fileAct])
            · exact List.mem_append_left _ (hall hsure key' hkey')
      · intro hfails
        refine ih hrest fun new hnew hall ↦ hnext new hnew fun hsure ↦ ?_
        rw [hsure key] at hfails
        cases hfails

theorem traced_removePrevious {previous : Option String} {Q : Unit → List FileEvent → Prop}
    {E : AppError → List FileEvent → Prop}
    (hmay : ∀ name ∈ previous, MayDelete k (AvatarStorage.objectKey name) (fileActs own))
    (hnext : ∀ new : List FileEvent, (∀ a ∈ fileActs new, ∃ key, a = .deletes key) →
      ((∀ key, fails (.storage (.delete key)) = false) → ∀ name ∈ previous,
        AvatarStorage.isValidName name = true →
          .deletes (AvatarStorage.objectKey name) ∈ fileActs new) → Q () (new ++ own)) :
    Traced (fileMachine cx.toContext fails) (FileStep cx fails) i k
      (AvatarService.removePrevious previous) Q E own := by
  cases previous with
  | none => exact hnext [] (by simp) (by simp)
  | some name =>
      simp only [AvatarService.removePrevious, AvatarStorage.remove]
      split
      next =>
        refine traced_deleteObject (hmay name rfl) (fun s ↦ ?_) fun hfails ↦ ?_
        · exact hnext [_] (by simp [fileAct]) (by simp [fileAct])
        · refine hnext [] (by simp) fun hsure ↦ ?_
          rw [hsure _] at hfails
          cases hfails
      next hinvalid => exact hnext [] (by simp) (by simp [hinvalid])

/-! ## Who is calling -/

/-- So far the request found out that it acts for `u`. -/
structure ActingFor (u : Uuid) (acts : List FileAct) : Prop where
  reads : ∃ photo, .reads u photo ∈ acts
  only : ∀ a ∈ acts, a = .other ∨ ∃ photo, a = .reads u photo

theorem ActingFor.notMem {u : Uuid} {acts : List FileAct} (h : ActingFor u acts) {a : FileAct}
    (hother : a ≠ .other) (hreads : ∀ photo, a ≠ .reads u photo) : a ∉ acts := by
  intro ha
  rcases h.only a ha with rfl | ⟨photo, rfl⟩
  · exact hother rfl
  · exact hreads photo rfl

/-- Nothing was done to the files. -/
def Idle (acts : List FileAct) : Prop :=
  ∀ a ∈ acts, a = .other ∨ ∃ u photo, a = .reads u photo ∨ a = .selects u photo

theorem ActingFor.idle {u : Uuid} {acts : List FileAct} (h : ActingFor u acts) : Idle acts :=
  fun a ha ↦ (h.only a ha).imp_right fun ⟨photo, hphoto⟩ ↦ ⟨u, photo, .inl hphoto⟩

theorem Idle.settled {acts : List FileAct} (h : Idle acts) : Settled acts := by
  constructor
  · intro key hput
    simpa using h _ hput
  · intro u name photo _ hupdate
    simpa using h _ hupdate
  · rintro keys (hunlists | ⟨u, hclears⟩)
    · simpa using h _ hunlists
    · simpa using h _ hclears

theorem traced_authUser {caller : Presented} {safe : Bool} :
    Traced (fileMachine cx.toContext fails) (FileStep cx fails) i k
      (base (authUser cx.toContext caller safe)) (fun actor own ↦ ActingFor actor.id (fileActs own))
      (fun _ own ↦ Idle (fileActs own)) [] := by
  cases caller with
  | bearer claims =>
      simp only [authUser, verifySession, clock, base_bind, base_okOr, base_ensure]
      refine traced_bind.mpr (traced_baseAsk (fun _ ↦ trivial) (fun s₀ ↦ ?_)
        (by simp [Statement.fault]))
      refine traced_bind.mpr ((traced_ensure ..).mpr ⟨fun _ ↦ ?_, fun _ ↦ by simp [Idle, fileAct]⟩)
      refine traced_bind.mpr (traced_baseSql (fun s ↦ by simp [FileStep, fileAct])
        (fun s found hfound ↦ ?_) (fun s ↦ by simp [Idle, fileAct]) (by simp [Idle, fileAct]))
      refine traced_bind.mpr ((traced_okOr ..).mpr ⟨fun user huser ↦ ?_,
        fun _ ↦ by simp [Idle, fileAct]⟩)
      refine traced_bind.mpr ((traced_ensure ..).mpr ⟨fun _ ↦ ?_, fun _ ↦ by simp [Idle, fileAct]⟩)
      obtain ⟨hfind, -⟩ := Option.filter_eq_some_iff.mp huser
      obtain ⟨-, hid, -⟩ := find?_liveId_eq_some ((Option.some.inj hfound).trans hfind)
      exact ⟨by simp [fileAct, hid], by simp [fileAct, hid]⟩
  | apiKey raw =>
      simp only [authUser, authenticateApiKey, clock, base_bind, base_okOr, base_ensure]
      refine traced_bind.mpr (traced_bind.mpr (traced_baseAsk (fun _ ↦ trivial) (fun s₀ ↦ ?_)
        (by simp [Statement.fault])))
      refine traced_bind.mpr (traced_baseSql (fun _ ↦ trivial) (fun s₁ found _ ↦ ?_)
        (fun s ↦ by simp [Idle, fileAct]) (by simp [Idle, fileAct]))
      refine traced_bind.mpr ((traced_okOr ..).mpr ⟨fun key _ ↦ ?_,
        fun _ ↦ by simp [Idle, fileAct]⟩)
      refine traced_bind.mpr (traced_baseSql (fun s ↦ by simp [FileStep, fileAct])
        (fun s₂ found hfound ↦ ?_) (fun s ↦ by simp [Idle, fileAct]) (by simp [Idle, fileAct]))
      refine traced_bind.mpr ((traced_okOr ..).mpr ⟨fun user huser ↦ ?_,
        fun _ ↦ by simp [Idle, fileAct]⟩)
      obtain ⟨hfind, -⟩ := Option.filter_eq_some_iff.mp huser
      obtain ⟨-, hid, -⟩ := find?_liveId_eq_some ((Option.some.inj hfound).trans hfind)
      refine traced_bind.mpr (traced_baseSql (fun _ ↦ trivial) (fun s₃ _ _ ↦ ?_)
        (fun s ↦ by simp [Idle, fileAct]) (by simp [Idle, fileAct]))
      refine traced_bind.mpr ((traced_ensure ..).mpr ⟨fun _ ↦ ?_, fun _ ↦ by simp [Idle, fileAct]⟩)
      exact ⟨by simp [fileAct, hid], by simp [fileAct, hid]⟩

/-! ## The requests -/

/-- As far as objects can be deleted, the request can be answered. -/
def Leaves (fails : FileStatement → Bool) (own : List FileEvent) : Prop :=
  (∀ key, fails (.storage (.delete key)) = false) → Settled (fileActs own)

theorem Idle.leaves (h : Idle (fileActs own)) : Leaves fails own := fun _ ↦ h.settled

theorem Leaves.delivers (h : Leaves fails own) (hk : k.isDeletion = false)
    (a : Except AppError FileResponse) : Delivers (FileStep cx fails) i k a own := by
  refine fun _ hsure ↦ ⟨h hsure, ?_⟩
  rintro caller u rfl
  cases hk

/-- One object was stored, and is in a row or deleted again. -/
theorem settled_of_closed (key : String) {acts : List FileAct}
    (hacts : ∀ a ∈ acts, a = .other ∨ (∃ u photo, a = .reads u photo ∨ a = .selects u photo) ∨
      a = .puts key ∨ a = .deletes key ∨ a = .lists key)
    (hclosed : .deletes key ∈ acts ∨ .lists key ∈ acts) : Settled acts := by
  constructor
  · intro key' hput _
    have hsame : key' = key := by simpa using hacts _ hput
    rcases hclosed with hdeletes | hlists
    · exact .inl (hsame ▸ hdeletes)
    · exact .inr (.inl (hsame ▸ hlists))
  · intro u' name photo _ hupdate
    simpa using hacts _ hupdate
  · rintro keys (hunlists | ⟨u', hclears⟩)
    · simpa using hacts _ hunlists
    · simpa using hacts _ hclears

theorem traced_insertMedia {new : NewMedia} {caller : Presented} {bytes : Bytes}
    {filename : Option String} {Q : Media → List FileEvent → Prop}
    {E : AppError → List FileEvent → Prop}
    (hmay : MayInsert (.uploadMedia caller bytes filename) new (fileActs own))
    (hnext : ∀ m new', fileActs new' = [.lists new.storageKey, .other] → Q m (new' ++ own))
    (hfail : ∀ e new', (∀ a ∈ fileActs new', a = .other) → E e (new' ++ own)) :
    Traced (fileMachine cx.toContext fails) (FileStep cx fails) i
      (.uploadMedia caller bytes filename)
      (MediaService.insertMedia cx new) Q E own := by
  refine traced_bind.mpr
    (traced_baseAsk (fun _ ↦ trivial) (fun s₁ ↦ ?_) (by simp [Statement.fault]))
  have hmay' : MayInsert (.uploadMedia caller bytes filename) new
      (fileActs (.ran i (.uploadMedia caller bytes filename) (.base .draw) s₁ :: own)) := by
    obtain ⟨hk, hput, ⟨photo, hreads⟩, hidle⟩ := hmay
    refine ⟨hk, by simp [hput], ⟨photo, by simp [hreads]⟩, by simpa [fileAct] using hidle⟩
  refine traced_mediaSql (fun s₂ ↦ hmay') (fun s₂ media hmedia ↦ ?_) (fun s₂ hnone ↦ ?_) fun _ ↦ ?_
  · apply hnext media [_, _]
    simp only [MediaSql.run] at hmedia
    split at hmedia
    next => cases hmedia
    next t ht =>
      simp only [fileActs_cons, fileAct, fileActs_nil]
      rw [if_pos (by simp [ht])]
  · apply hfail _ [_, _]
    simp only [MediaSql.run] at hnone
    split at hnone
    next hfull => simp [fileAct, hfull]
    next => cases hnone
  · exact hfail _ [_] (by simp [fileAct])

theorem traced_upload {actor : AuthUser} {caller : Presented} {upload : Bytes}
    {filename : Option String} (hown : ActingFor actor.id (fileActs own)) :
    Traced (fileMachine cx.toContext fails) (FileStep cx fails) i
      (.uploadMedia caller upload filename) (MediaService.upload cx actor upload filename)
      (fun _ ↦ Leaves fails) (fun _ ↦ Leaves fails) own := by
  have hleave : Leaves fails own := hown.idle.leaves
  unfold MediaService.upload
  refine traced_bind.mpr ((traced_ensure ..).mpr ⟨fun _ ↦ ?_, fun _ ↦ hleave⟩)
  refine traced_bind.mpr ((traced_ensure ..).mpr ⟨fun _ ↦ ?_, fun _ ↦ hleave⟩)
  refine traced_bind.mpr ((traced_okOr ..).mpr ⟨fun detected _ ↦ ?_, fun _ ↦ hleave⟩)
  refine traced_bind.mpr ((traced_ensure ..).mpr ⟨fun _ ↦ ?_, fun _ ↦ hleave⟩)
  refine traced_bind.mpr
    (traced_baseAsk (fun _ ↦ trivial) (fun s₁ ↦ ?_) (by simp [Statement.fault]))
  refine traced_bind.mpr (traced_putObject ?_ (fun s₂ ↦ ?_) ?_)
  · exact ⟨s₁.draws,
      ⟨[], i, _, s₁, own, rfl, rfl, by simp⟩, .inl ⟨caller, filename, detected, rfl, rfl⟩⟩
  swap
  · refine Idle.leaves fun a ha ↦ ?_
    rcases List.mem_cons.mp ha with rfl | ha
    · exact .inl rfl
    · exact hown.idle a ha
  -- the object is stored: from here on a row lists it or it is deleted again
  have hacts : ∀ new : List FileEvent, (∀ a ∈ fileActs new, a = .other ∨
      a = .deletes (cx.mediaKey s₁.draws detected.extension) ∨
        a = .lists (cx.mediaKey s₁.draws detected.extension)) →
      (.deletes (cx.mediaKey s₁.draws detected.extension) ∈ fileActs new ∨
        .lists (cx.mediaKey s₁.draws detected.extension) ∈ fileActs new) →
      Leaves fails (new ++ .ran i (.uploadMedia caller upload filename) (.storage
        (.put (cx.mediaKey s₁.draws detected.extension) upload)) s₂ ::
          .ran i (.uploadMedia caller upload filename) (.base .draw) s₁ :: own) := by
    intro new hnew hclosed _
    refine settled_of_closed (cx.mediaKey s₁.draws detected.extension) (fun a ha ↦ ?_) ?_
    · simp only [fileActs_append, fileActs_cons, fileAct, List.mem_append, List.mem_cons] at ha
      rcases ha with ha | rfl | rfl | ha
      · rcases hnew a ha with rfl | rfl | rfl <;> simp
      · simp
      · simp
      · rcases hown.only a ha with rfl | ⟨photo, rfl⟩ <;> simp
    · rw [fileActs_append]
      exact hclosed.imp (List.mem_append_left _) (List.mem_append_left _)
  refine traced_bind.mpr (traced_bindBoth.mpr (traced_insertMedia ?_ (fun m new hnew ↦ ?_)
    fun e new hnew ↦ ?_))
  · obtain ⟨photo, hreads⟩ := hown.reads
    refine ⟨⟨_, _, _, rfl⟩, by simp [fileAct], ⟨photo, by simp [hreads]⟩, fun key ↦ ⟨?_, ?_⟩⟩
    · simpa [fileAct] using hown.notMem (a := .deletes key) (by simp) (by simp)
    · simpa [fileAct] using hown.notMem (a := .lists key) (by simp) (by simp)
  · exact hacts new (by simp [hnew, Statement.exec]) (by simp [hnew, Statement.exec])
  · refine traced_bind.mpr (traced_deleteObject (.inl ⟨?_, fun key ↦ ?_, fun u photo ↦ ?_⟩)
      (fun s₃ ↦ ?_) fun hfails hsure ↦ ?_)
    · simp [fileAct]
    · have hnot : .lists key ∉ fileActs new := fun h ↦ by simpa using hnew _ h
      simpa [fileAct, hnot] using hown.notMem (a := .lists key) (by simp) (by simp)
    · have hnot : .updates u photo ∉ fileActs new := fun h ↦ by simpa using hnew _ h
      simpa [fileAct, hnot] using hown.notMem (a := .updates u photo) (by simp) (by simp)
    · refine hacts (_ :: new) (fun a ha ↦ ?_) (.inl (by simp [fileAct, Statement.exec]))
      rcases List.mem_cons.mp ha with rfl | ha
      · exact .inr (.inl rfl)
      · exact .inl (hnew a ha)
    · rw [hsure _] at hfails
      cases hfails

/-- No object was stored, and those of the deleted rows are deleted. -/
theorem settled_of_unlisted (keys : List String) {acts : List FileAct}
    (hacts : ∀ a ∈ acts, a = .other ∨ (∃ u photo, a = .reads u photo ∨ a = .selects u photo) ∨
      a = .unlists keys ∨ (∃ u, a = .clears u keys) ∨ ∃ key, a = .deletes key)
    (hall : ∀ key ∈ keys, .deletes key ∈ acts) : Settled acts := by
  constructor
  · intro key hput
    simpa using hacts _ hput
  · intro u name photo _ hupdate
    simpa using hacts _ hupdate
  · intro keys' hunlisted key hkey
    have hsame : keys' = keys := by
      rcases hunlisted with hunlists | ⟨u, hclears⟩
      · simpa using hacts _ hunlists
      · simpa using hacts _ hclears
    exact hall key (hsame ▸ hkey)

theorem traced_findAccessible {actor : AuthUser} {id : Uuid} {Q : Media → List FileEvent → Prop}
    {E : AppError → List FileEvent → Prop}
    (hnext : ∀ media new, (∀ a ∈ fileActs new, a = .other) → Q media (new ++ own))
    (hfail : ∀ e new, (∀ a ∈ fileActs new, a = .other) → E e (new ++ own)) :
    Traced (fileMachine cx.toContext fails) (FileStep cx fails) i k
      (MediaService.findAccessible actor id) Q E own := by
  refine traced_bind.mpr (traced_mediaSql (fun _ ↦ trivial) (fun s found _ ↦ ?_)
    (fun s _ ↦ hfail _ [_] (by simp [fileAct])) fun _ ↦ hfail _ [] (by simp))
  exact (traced_okOr ..).mpr ⟨fun media _ ↦ hnext media [_] (by simp [fileAct]),
    fun _ ↦ hfail _ [_] (by simp [fileAct])⟩

theorem Idle.append {own new : List FileEvent} (h : Idle (fileActs own))
    (hnew : ∀ a ∈ fileActs new, a = .other) : Idle (fileActs (new ++ own)) := by
  intro a ha
  rw [fileActs_append] at ha
  rcases List.mem_append.mp ha with ha | ha
  · exact .inl (hnew a ha)
  · exact h a ha

theorem traced_delete {actor : AuthUser} {id : Uuid} (hown : Idle (fileActs own)) :
    Traced (fileMachine cx.toContext fails) (FileStep cx fails) i k (MediaService.delete actor id)
      (fun _ ↦ Leaves fails) (fun _ ↦ Leaves fails) own := by
  refine traced_bind.mpr (traced_findAccessible (fun media new hnew ↦ ?_)
    fun e new hnew ↦ (hown.append hnew).leaves)
  have hidle := hown.append hnew
  refine traced_bind.mpr (traced_mediaSql (fun _ ↦ trivial) (fun s deleted hdeleted ↦ ?_)
    (fun _ h ↦ by cases h) fun _ ↦ hidle.leaves)
  obtain rfl := Option.some.inj hdeleted
  refine traced_deleteObjects (fun key hkey ↦ ⟨_, hkey, .inl (by simp [fileAct])⟩)
    fun deletions hdeletions hall hsure ↦ ?_
  refine settled_of_unlisted ((s.media.table.get? media.id).map Media.storageKey).toList
    (fun a ha ↦ ?_) fun key hkey ↦ ?_
  · simp only [fileActs_append, fileActs_cons, List.mem_append, List.mem_cons, fileAct] at ha
    rcases ha with ha | rfl | ha
    · exact .inr (.inr (.inr (.inr (hdeletions a ha))))
    · simp
    · rcases hidle a (by simpa using ha) with rfl | ⟨u, photo, rfl | rfl⟩ <;> simp
  · rw [fileActs_append]
    exact List.mem_append_left _ (hall hsure key hkey)

theorem traced_content {actor : AuthUser} {id : Uuid} (hown : Idle (fileActs own)) :
    Traced (fileMachine cx.toContext fails) (FileStep cx fails) i k (MediaService.content actor id)
      (fun _ ↦ Leaves fails) (fun _ ↦ Leaves fails) own := by
  refine traced_bind.mpr (traced_findAccessible (fun media new hnew ↦ ?_)
    fun e new hnew ↦ (hown.append hnew).leaves)
  have hidle := hown.append hnew
  refine traced_bind.mpr (traced_storage (fun _ ↦ trivial) (fun s ↦ ?_) fun _ r hr ↦ ?_)
  · have hread : Idle
        (fileActs (.ran i k (.storage (.get media.storageKey)) s :: (new ++ own))) := by
      intro a ha
      rcases List.mem_cons.mp ha with rfl | ha
      · exact .inl rfl
      · exact hidle a ha
    refine traced_bind.mpr ((traced_okOr ..).mpr ⟨fun bytes _ ↦ hread.leaves, fun _ ↦ hread.leaves⟩)
  · obtain rfl := Option.some.inj hr
    exact hidle.leaves

theorem traced_list {actor : AuthUser} {pagination : Pagination} (hown : Idle (fileActs own)) :
    Traced (fileMachine cx.toContext fails) (FileStep cx fails) i k
      (MediaService.list actor pagination) (fun _ ↦ Leaves fails) (fun _ ↦ Leaves fails) own := by
  have hread : ∀ new : List FileEvent, (∀ a ∈ fileActs new, a = .other) →
      Leaves fails (new ++ own) := fun new hnew ↦ (hown.append hnew).leaves
  refine traced_bind.mpr (traced_mediaSql (fun _ ↦ trivial) (fun s₁ total _ ↦ ?_)
    (fun s₁ _ ↦ hread [_] (by simp [fileAct])) fun _ ↦ hown.leaves)
  refine traced_bind.mpr (traced_mediaSql (fun _ ↦ trivial) (fun s₂ items _ ↦ ?_)
    (fun s₂ _ ↦ hread [_, _] (by simp [fileAct])) fun _ ↦ hread [_] (by simp [fileAct]))
  exact hread [_, _] (by simp [fileAct])

theorem photoOf_eq {u : Uuid} {s : Server} {previous : Option (Option String)}
    (h : previous = (s.db.users.find? (liveId u)).map User.avatarKey) :
    photoOf u s = previous.join := by
  subst h
  unfold photoOf
  cases s.db.users.find? (liveId u) <;> rfl

theorem traced_setAvatarKey {u : Uuid} {photo : Option String}
    {Q : Option String → List FileEvent → Prop} {E : AppError → List FileEvent → Prop}
    (hmay : ∀ previous, MayUpdate u photo (.selects u previous :: fileActs own))
    (hnext : ∀ previous new, fileActs new = [.updates u photo, .selects u previous] →
      Q previous (new ++ own))
    (hfail : ∀ e new, (∀ a ∈ fileActs new, ∃ previous, a = .selects u previous) →
      E e (new ++ own)) :
    Traced (fileMachine cx.toContext fails) (FileStep cx fails) i k
      (UsersService.setAvatarKey u photo) Q E own := by
  have hselect : ∀ u' photo', FileAct.updates u' photo' ∉ fileActs own := by
    intro u' photo' hmem
    exact (hmay none).1 u' photo' (List.mem_cons_of_mem _ hmem)
  refine traced_bind.mpr (traced_bind.mpr (traced_avatarSql (fun _ ↦ hselect)
    (fun s₁ previous hprevious ↦ ?_) (fun _ h ↦ by cases h) (hfail _ [] (by simp))))
  have hphoto := photoOf_eq (u := u) (s := s₁.toServer) (Option.some.inj hprevious).symm
  cases previous with
  | none => exact hfail _ [_] (by simp [fileAct])
  | some previous =>
      refine traced_bind.mpr (traced_avatarSql (fun _ ↦ by
        simpa only [FileStep, fileActs_cons, fileAct] using hmay _) (fun s₂ _ _ ↦ ?_)
        (fun _ h ↦ by cases h) (hfail _ [_] (by simp [fileAct])))
      refine (traced_okOr ..).mpr ⟨fun previous' heq ↦ ?_, by simp⟩
      obtain rfl := Option.some.inj heq
      exact hnext _ [_, _] (by simp [fileAct, hphoto])

theorem Settled.cons {acts : List FileAct} (h : Settled acts) {a : FileAct}
    (ha : a = .other ∨ ∃ u photo, a = .reads u photo) : Settled (a :: acts) := by
  have hmem : ∀ b, b ∈ a :: acts → b ≠ .other → (∀ u photo, b ≠ .reads u photo) → b ∈ acts := by
    intro b hb hother hreads
    rcases List.mem_cons.mp hb with rfl | hb
    · rcases ha with rfl | ⟨u, photo, rfl⟩
      · exact absurd rfl hother
      · exact absurd rfl (hreads u photo)
    · exact hb
  constructor
  · intro key hput hvalid
    rcases h.put key (hmem _ hput (by simp) (by simp)) hvalid with hd | hl | ⟨u, name, rfl, hu⟩
    · exact .inl (List.mem_cons_of_mem _ hd)
    · exact .inr (.inl (List.mem_cons_of_mem _ hl))
    · exact .inr (.inr ⟨u, name, rfl, List.mem_cons_of_mem _ hu⟩)
  · intro u name photo hselect hupdate hvalid
    exact List.mem_cons_of_mem _ (h.replaced u name photo (hmem _ hselect (by simp) (by simp))
      (hmem _ hupdate (by simp) (by simp)) hvalid)
  · intro keys hunlisted key hkey
    refine List.mem_cons_of_mem _ (h.unlisted keys ?_ key hkey)
    rcases hunlisted with hunlists | ⟨u, hclears⟩
    · exact .inl (hmem _ hunlists (by simp) (by simp))
    · exact .inr ⟨u, hmem _ hclears (by simp) (by simp)⟩

theorem traced_current {actor : AuthUser} (hleave : Leaves fails own)
    (honly : ∀ u photo, .reads u photo ∈ fileActs own → u = actor.id) :
    Traced (fileMachine cx.toContext fails) (FileStep cx fails) i k (AvatarService.current actor)
      (fun _ ↦ Leaves fails) (fun _ ↦ Leaves fails) own := by
  have hread : ∀ s, Leaves fails
      (.ran i k (.base (.sql (.users (.findById actor.id)))) s :: own) :=
    fun s hsure ↦ (hleave hsure).cons (.inr ⟨_, _, rfl⟩)
  simp only [AvatarService.current, UsersService.require, base_bind, base_okOr]
  refine traced_bind.mpr (traced_bind.mpr (traced_baseSql (fun s _ ↦ honly) (fun s found _ ↦ ?_)
    (fun s ↦ hread s) hleave))
  exact (traced_okOr ..).mpr ⟨fun user _ ↦ hread s, fun _ ↦ hread s⟩

/-- The photo that was read is replaced and deleted. -/
theorem settled_of_replaced {u : Uuid} {previous photo : Option String}
    {deletions rest : List FileAct} (hdeletions : ∀ a ∈ deletions, ∃ key, a = .deletes key)
    (hdeleted : ∀ name ∈ previous, AvatarStorage.isValidName name = true →
      .deletes (AvatarStorage.objectKey name) ∈ deletions)
    (hrest : ∀ a ∈ rest, a = .other ∨ (∃ photo, a = .reads u photo) ∨
      ∃ name ∈ photo, a = .puts (AvatarStorage.objectKey name)) :
    Settled (deletions ++ .updates u photo :: .selects u previous :: rest) := by
  have hacts : ∀ a ∈ deletions ++ .updates u photo :: .selects u previous :: rest,
      (∃ key, a = .deletes key) ∨ a = .updates u photo ∨ a = .selects u previous ∨ a = .other ∨
        (∃ photo, a = .reads u photo) ∨ ∃ name ∈ photo,
          a = .puts (AvatarStorage.objectKey name) := by
    intro a ha
    simp only [List.mem_append, List.mem_cons] at ha
    rcases ha with ha | rfl | rfl | ha
    · exact .inl (hdeletions a ha)
    · exact .inr (.inl rfl)
    · exact .inr (.inr (.inl rfl))
    · exact .inr (.inr (.inr (hrest a ha)))
  constructor
  · intro key hput _
    obtain ⟨name, hname, rfl⟩ : ∃ name ∈ photo, key = AvatarStorage.objectKey name := by
      simpa using hacts _ hput
    exact .inr (.inr ⟨u, name, rfl, by simp [Option.mem_def.mp hname]⟩)
  · intro u' name photo' hselect _ hvalid
    obtain ⟨rfl, hname⟩ : u' = u ∧ some name = previous := by simpa using hacts _ hselect
    exact List.mem_append_left _ (hdeleted name (Option.mem_def.mpr hname.symm) hvalid)
  · rintro keys (hunlists | ⟨u', hclears⟩)
    · simpa using hacts _ hunlists
    · simpa using hacts _ hclears

theorem traced_afterUpdate {actor : AuthUser} {photo previous : Option String}
    {new : List FileEvent}
    (hnew : fileActs new = [.updates actor.id photo, .selects actor.id previous])
    (hown : ∀ a ∈ fileActs own, a = .other ∨ (∃ photo, a = .reads actor.id photo) ∨
      ∃ name ∈ photo, a = .puts (AvatarStorage.objectKey name)) :
    Traced (fileMachine cx.toContext fails) (FileStep cx fails) i k
      (AvatarService.removePrevious previous >>= fun _ ↦ AvatarService.current actor)
      (fun _ ↦ Leaves fails) (fun _ ↦ Leaves fails) (new ++ own) := by
  refine traced_bind.mpr (traced_removePrevious (fun name hname ↦ ?_)
    fun deletions hdeletions hdeleted ↦ ?_)
  · refine .inr (.inr (.inl ⟨actor.id, name, photo, rfl, ?_, ?_⟩))
    · simp [hnew, Option.mem_def.mp hname]
    · simp [hnew]
  · refine traced_current (fun hsure ↦ ?_) fun u photo' hreads ↦ ?_
    · rw [fileActs_append, fileActs_append, hnew]
      exact settled_of_replaced hdeletions (hdeleted hsure) hown
    · simp only [fileActs_append, hnew, List.mem_append, List.mem_cons] at hreads
      rcases hreads with hdeletes | (h | h | h) | hreads
      · simpa using hdeletions _ hdeletes
      · cases h
      · cases h
      · cases h
      · have hu := hown _ hreads
        simp only [reduceCtorEq, FileAct.reads.injEq, false_or, exists_and_left, exists_eq',
          and_true, and_false, exists_false, or_false] at hu
        exact hu

theorem traced_set {actor : AuthUser} {caller : Presented} {upload : Bytes}
    (hown : ActingFor actor.id (fileActs own)) :
    Traced (fileMachine cx.toContext fails) (FileStep cx fails) i (.setAvatar caller upload)
      (AvatarService.set cx actor upload) (fun _ ↦ Leaves fails) (fun _ ↦ Leaves fails) own := by
  have hleave : Leaves fails own := hown.idle.leaves
  unfold AvatarService.set
  refine traced_bind.mpr ((traced_ensure ..).mpr ⟨fun _ ↦ ?_, fun _ ↦ hleave⟩)
  split
  next => exact hleave
  next jpeg hjpeg =>
    refine traced_bind.mpr (traced_baseAsk (fun _ ↦ trivial) (fun s₁ ↦ ?_)
      (by simp [Statement.fault]))
    refine traced_bind.mpr (traced_putObject ?_ (fun s₂ ↦ ?_) ?_)
    · exact ⟨s₁.draws,
        ⟨[], i, _, s₁, own, rfl, rfl, by simp⟩, .inr ⟨caller, upload, rfl, hjpeg, rfl⟩⟩
    swap
    · refine Idle.leaves fun a ha ↦ ?_
      rcases List.mem_cons.mp ha with rfl | ha
      · exact .inl rfl
      · exact hown.idle a ha
    refine traced_bind.mpr (traced_bindBoth.mpr (traced_setAvatarKey (fun previous ↦ ?_)
      (fun previous new hnew ↦ ?_) fun e new hnew ↦ ?_))
    · obtain ⟨photo, hreads⟩ := hown.reads
      refine ⟨fun u photo ↦ ?_, fun key ↦ ?_, ⟨photo, by simp [hreads]⟩, ?_⟩
      · simpa [fileAct] using hown.notMem (a := .updates u photo) (by simp) (by simp)
      · simpa [fileAct] using hown.notMem (a := .deletes key) (by simp) (by simp)
      · simp [fileAct]
    · refine traced_afterUpdate hnew fun a ha ↦ ?_
      simp only [fileActs_cons, fileAct, List.mem_cons] at ha
      rcases ha with rfl | rfl | ha
      · exact .inr (.inr ⟨_, rfl, rfl⟩)
      · exact .inl rfl
      · exact (hown.only a ha).imp_right .inl
    -- the photo was stored in vain
    · have hacts : ∀ a ∈ fileActs (new ++ .ran i (.setAvatar caller upload) (.storage (.put
          (AvatarStorage.objectKey (AvatarStorage.newName cx.toContext s₁.draws)) jpeg)) s₂ ::
            .ran i (.setAvatar caller upload) (.base .draw) s₁ :: own),
          a = .other ∨ (∃ u photo, a = .reads u photo ∨ a = .selects u photo) ∨
            a = .puts (AvatarStorage.objectKey (AvatarStorage.newName cx.toContext s₁.draws)) := by
        intro a ha
        simp only [fileActs_append, fileActs_cons, fileAct, List.mem_append, List.mem_cons] at ha
        rcases ha with ha | rfl | rfl | ha
        · obtain ⟨previous, rfl⟩ := hnew a ha
          simp
        · simp
        · simp
        · rcases hown.only a ha with rfl | ⟨photo, rfl⟩ <;> simp
      simp only [AvatarStorage.remove]
      split
      next hvalid =>
        refine traced_bind.mpr (traced_deleteObject (.inl ⟨?_, fun key hlists ↦ ?_,
          fun u photo hupdate ↦ ?_⟩) (fun s₃ _ ↦ ?_) fun hfails hsure ↦ ?_)
        · simp [fileAct, Statement.exec]
        · simpa using hacts _ hlists
        · simpa using hacts _ hupdate
        · refine settled_of_closed _ (fun a ha ↦ ?_) (.inl List.mem_cons_self)
          rcases List.mem_cons.mp ha with rfl | ha
          · exact .inr (.inr (.inr (.inl rfl)))
          · rcases hacts a ha with rfl | hread | rfl
            · exact .inl rfl
            · exact .inr (.inl hread)
            · exact .inr (.inr (.inl rfl))
        · rw [hsure _] at hfails
          cases hfails
      next hinvalid =>
        refine fun _ ↦ ⟨fun key hput hvalid ↦ ?_, fun u name photo _ hupdate ↦ ?_, ?_⟩
        · have hkey : key = AvatarStorage.objectKey
              (AvatarStorage.newName cx.toContext s₁.draws) := by
            simpa using hacts _ hput
          exact absurd (hvalid _ hkey) hinvalid
        · simpa using hacts _ hupdate
        · rintro keys (hunlists | ⟨u, hclears⟩)
          · simpa using hacts _ hunlists
          · simpa using hacts _ hclears

theorem traced_remove {actor : AuthUser} (hown : ActingFor actor.id (fileActs own)) :
    Traced (fileMachine cx.toContext fails) (FileStep cx fails) i k (AvatarService.remove actor)
      (fun _ ↦ Leaves fails) (fun _ ↦ Leaves fails) own := by
  refine traced_bind.mpr (traced_setAvatarKey (fun previous ↦ ?_) (fun previous new hnew ↦ ?_)
    fun e new hnew ↦ ?_)
  · obtain ⟨photo, hreads⟩ := hown.reads
    refine ⟨fun u photo ↦ ?_, fun key ↦ ?_, ⟨photo, by simp [hreads]⟩, by simp⟩
    · simpa using hown.notMem (a := .updates u photo) (by simp) (by simp)
    · simpa using hown.notMem (a := .deletes key) (by simp) (by simp)
  · exact traced_afterUpdate hnew fun a ha ↦ (hown.only a ha).imp_right .inl
  · refine Idle.leaves fun a ha ↦ ?_
    rw [fileActs_append] at ha
    rcases List.mem_append.mp ha with ha | ha
    · obtain ⟨previous, rfl⟩ := hnew a ha
      exact .inr ⟨_, _, .inr rfl⟩
    · exact hown.idle a ha

/-- The account is deleted, and its photo was the one returned. -/
def Deleted (id : Uuid) (avatarKey : Option String) (own : List FileEvent) : Prop :=
  Idle (fileActs own) ∧
    ∀ name, .reads id (some name) ∈ fileActs own ↔ avatarKey = some name

theorem traced_deleteAccount {actor : AuthUser} {caller : Presented} {id : Uuid}
    (hown : ActingFor actor.id (fileActs own)) :
    Traced (fileMachine cx.toContext fails) (FileStep cx fails) i (.deleteUser caller id)
      (base (UsersService.delete actor id)) (Deleted id) (fun _ own ↦ Idle (fileActs own)) own := by
  simp only [UsersService.delete, Policy.checkDelete, UsersService.require, base_bind, base_ensure,
    base_okOr]
  refine traced_bind.mpr ((traced_ensure ..).mpr ⟨fun hother ↦ ?_, fun _ ↦ hown.idle⟩)
  have hread : ∀ s, Idle (fileActs
      (.ran i (.deleteUser caller id) (.base (.sql (.users (.findById id)))) s :: own)) := by
    intro s a ha
    rcases List.mem_cons.mp ha with rfl | ha
    · exact .inr ⟨_, _, .inl rfl⟩
    · exact hown.idle a ha
  refine traced_bind.mpr (traced_bind.mpr (traced_baseSql (fun _ ↦ fun hnot ↦ by cases hnot)
    (fun s₁ found hfound ↦ ?_) (fun s ↦ hread s) hown.idle))
  refine (traced_okOr ..).mpr ⟨fun target htarget ↦ ?_, fun _ ↦ hread s₁⟩
  have hphoto : photoOf id s₁.toServer = target.avatarKey := by
    have hfind := (Option.some.inj hfound).trans htarget
    simp [photoOf, hfind]
  have hdeleted : Deleted id target.avatarKey
      (.ran i (.deleteUser caller id) (.base (.sql (.users (.findById id)))) s₁ :: own) := by
    refine ⟨hread s₁, fun name ↦ ?_⟩
    have hnot : .reads id (some name) ∉ fileActs own := by
      refine hown.notMem (by simp) fun photo heq ↦ hother ?_
      cases heq
      rfl
    simp [fileAct, hphoto, hnot, eq_comm]
  have hother : ∀ {own : List FileEvent} (q : Statement) (s : FileServer),
      Deleted id target.avatarKey own →
        fileAct (.ran i (.deleteUser caller id) (.base q) s) = .other →
          Deleted id target.avatarKey (.ran i (.deleteUser caller id) (.base q) s :: own) := by
    intro own q s h hact
    refine ⟨fun a ha ↦ ?_, fun name ↦ ?_⟩
    · rw [fileActs_cons, hact] at ha
      rcases List.mem_cons.mp ha with rfl | ha
      · exact .inl rfl
      · exact h.1 a ha
    · rw [fileActs_cons, hact]
      simpa using h.2 name
  refine traced_bind.mpr (traced_baseSql (fun _ ↦ trivial) (fun s₂ result _ ↦ ?_)
    (fun s ↦ (hother _ s hdeleted rfl).1) hdeleted.1)
  have hsoft := hother (.sql (.users (.softDelete id (target.role.isAdmin && target.isActive)))) s₂
    hdeleted rfl
  cases result with
  | error e => exact hsoft.1
  | ok deleted =>
      refine traced_bind.mpr (traced_bind.mpr ((traced_ensure ..).mpr ⟨fun _ ↦ ?_,
        fun _ ↦ hsoft.1⟩))
      refine traced_bind.mpr ((traced_of_only (A := Deleted id target.avatarKey)
        (S := fun q ↦ ∃ details, q = .base (.sql
          (.recordAudit actor.id "user.deleted" (some id) details))) ?_
            (returns_true _) ?_ hsoft).mono
        (fun _ _ h ↦ h.2) fun _ _ h ↦ h.1)
      · refine base_only (Only.bind (Only.attempt ?_) fun _ ↦ trivial)
        exact only_sql.mpr ⟨.deleted target.email, rfl⟩
      · rintro _ ⟨details, rfl⟩ s own h
        exact ⟨trivial, hother _ s h rfl⟩

/-- The cleanup of a deleted account's files. -/
theorem traced_cleanUp {caller : Presented} {id : Uuid} {avatarKey : Option String}
    (hown : Deleted id avatarKey own) :
    Traced (fileMachine cx.toContext fails) (FileStep cx fails) i (.deleteUser caller id)
      (do
        AvatarService.removePrevious avatarKey
        let _ ← (attempt (MediaService.deleteAllForUser id) : FileReq (Except AppError Unit))
        pure FileResponse.noContent)
      (fun a ↦ Delivers (FileStep cx fails) i (.deleteUser caller id) (.ok a))
      (fun e ↦ Delivers (FileStep cx fails) i (.deleteUser caller id) (.error e)) own := by
  refine traced_bind.mpr (traced_removePrevious (fun name hname ↦ ?_) fun photos hphotos hall ↦ ?_)
  · exact .inr (.inr (.inr ⟨caller, id, name, rfl, rfl, (hown.2 name).mpr hname⟩))
  -- what is there when the rows have been deleted, or could not be
  have hdone : ∀ (keys : List String) (rows deletions : List FileEvent),
      (∀ a ∈ fileActs deletions, ∃ key, a = .deletes key) →
      (∀ a ∈ fileActs rows, a = .clears id keys) →
      (fails (.media (.deleteAllByOwner id)) = false → .clears id keys ∈ fileActs rows) →
      ((∀ key, fails (.storage (.delete key)) = false) →
        ∀ key ∈ keys, .deletes key ∈ fileActs deletions) →
      Delivers (FileStep cx fails) i (.deleteUser caller id) (.ok .noContent)
        (deletions ++ (rows ++ (photos ++ own))) := by
    intro keys rows deletions hdeletions hrows hcleared hdeleted s hsure
    refine ⟨settled_of_unlisted keys (fun a ha ↦ ?_) fun key hkey ↦ ?_, ?_⟩
    · simp only [fileActs_append, List.mem_append] at ha
      rcases ha with ha | ha | ha | ha
      · exact .inr (.inr (.inr (.inr (hdeletions a ha))))
      · exact .inr (.inr (.inr (.inl ⟨id, hrows a ha⟩)))
      · exact .inr (.inr (.inr (.inr (hphotos a ha))))
      · exact (hown.1 a ha).imp_right .inl
    · rw [fileActs_append]
      exact List.mem_append_left _ (hdeleted hsure key hkey)
    · rintro _ _ ⟨rfl, rfl⟩
      refine ⟨fun _ _ ↦ ⟨fun name hreads hvalid ↦ ?_, fun hsql ↦ ⟨keys, ?_⟩⟩, by rintro _ ⟨⟩⟩
      · have hread : .reads id (some name) ∈ fileActs own := by
          simp only [fileActs_append, List.mem_append] at hreads
          rcases hreads with h | h | h | h
          · simpa using hdeletions _ h
          · simpa using hrows _ h
          · simpa using hphotos _ h
          · exact h
        have hphoto := hall hsure name ((hown.2 name).mp hread) hvalid
        simp [hphoto]
      · simp [hcleared hsql]
  refine traced_bind.mpr (traced_bindBoth.mpr (traced_bind.mpr (traced_mediaSql (fun _ ↦ trivial)
    (fun s keys hkeys ↦ ?_) (fun _ h ↦ by cases h) fun hfails ↦ ?_)))
  · obtain rfl := Option.some.inj hkeys
    refine traced_deleteObjects (fun key hkey ↦ ⟨_, hkey, .inr ⟨id, by simp [fileAct]⟩⟩)
      fun deletions hdeletions hdeleted ↦ ?_
    exact hdone _ [_] deletions hdeletions (by simp [fileAct]) (by simp [fileAct]) hdeleted
  · refine hdone [] [] [] (by simp) (by simp) (fun h ↦ ?_) (by simp)
    rw [hfails] at h
    cases h

theorem traces_fileStep (cx : FileContext) (fails : FileStatement → Bool) (k : FileRequest) :
    Traces (fileMachine cx.toContext fails) (FileStep cx fails) k (handleFile cx) := by
  intro i
  have hidle : ∀ {k : FileRequest} {own : List FileEvent} (e : AppError), Idle (fileActs own) →
      Delivers (FileStep cx fails) i k (.error e) own := by
    intro k own e h s hsure
    refine ⟨h.settled, fun _ _ _ ↦ ⟨by rintro _ ⟨⟩, fun _ _ key hdeletes ↦ ?_⟩⟩
    simpa using h _ hdeletes
  cases k with
  | uploadMedia caller upload filename =>
      refine traced_bind.mpr (traced_authUser.mono (fun actor own hown ↦ ?_) fun e own ↦ hidle e)
      exact traced_bind.mpr ((traced_upload hown).mono (fun _ _ h ↦ h.delivers rfl _)
        fun _ _ h ↦ h.delivers rfl _)
  | listMedia caller page perPage =>
      refine traced_bind.mpr (traced_authUser.mono (fun actor own hown ↦ ?_) fun e own ↦ hidle e)
      exact traced_bind.mpr ((traced_list hown.idle).mono (fun _ _ h ↦ h.delivers rfl _)
        fun _ _ h ↦ h.delivers rfl _)
  | downloadMedia caller id =>
      refine traced_bind.mpr (traced_authUser.mono (fun actor own hown ↦ ?_) fun e own ↦ hidle e)
      exact traced_bind.mpr ((traced_content hown.idle).mono (fun _ _ h ↦ h.delivers rfl _)
        fun _ _ h ↦ h.delivers rfl _)
  | deleteMedia caller id =>
      refine traced_bind.mpr (traced_authUser.mono (fun actor own hown ↦ ?_) fun e own ↦ hidle e)
      exact traced_bind.mpr ((traced_delete hown.idle).mono (fun _ _ h ↦ h.delivers rfl _)
        fun _ _ h ↦ h.delivers rfl _)
  | setAvatar caller upload =>
      refine traced_bind.mpr (traced_authUser.mono (fun actor own hown ↦ ?_) fun e own ↦ hidle e)
      exact traced_bind.mpr ((traced_set hown).mono (fun _ _ h ↦ h.delivers rfl _)
        fun _ _ h ↦ h.delivers rfl _)
  | removeAvatar caller =>
      refine traced_bind.mpr (traced_authUser.mono (fun actor own hown ↦ ?_) fun e own ↦ hidle e)
      exact traced_bind.mpr ((traced_remove hown).mono (fun _ _ h ↦ h.delivers rfl _)
        fun _ _ h ↦ h.delivers rfl _)
  | deleteUser caller id =>
      simp only [handleFile, adminUser, base_bind, base_ensure]
      refine traced_bind.mpr (traced_bind.mpr (traced_authUser.mono (fun actor own hown ↦ ?_)
        fun e own ↦ hidle e))
      refine traced_bind.mpr ((traced_ensure ..).mpr ⟨fun _ ↦ ?_, fun _ ↦ hidle _ hown.idle⟩)
      refine traced_bind.mpr ((traced_deleteAccount hown).mono (fun avatarKey own h ↦ ?_)
        fun e own ↦ hidle e)
      exact traced_cleanUp h

end Walk

end ApiStarter
