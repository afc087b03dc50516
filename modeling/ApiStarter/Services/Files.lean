import ApiStarter.ObjectStorage
import ApiStarter.Repositories.Files
import ApiStarter.Services.Users

/-!
# Uploaded files

The use cases of `modules/media` and `modules/avatars`, and the whole of the
delete-user request.  Rows and objects are kept in two stores with no
transaction in common, so each statement and each call to the object store is a
step of its own, and any of them may be the last of its request.
-/

namespace ApiStarter

open Interleave Interleave.Prog

structure FileType where
  mimeType : String
  extension : String

/-- With the settings of `MediaConfig`, the detection of file types by the `infer` library and
`processing::to_avatar_jpeg`. -/
structure FileContext extends Context where
  maxUploadBytes : ℕ
  allowedContentTypes : List String
  infer : Bytes → Option FileType
  toAvatarJpeg : Bytes → Except AvatarError Bytes

/-- The application's world with the files in it. -/
structure FileServer extends Server where
  media : MediaTable
  objects : Objects

inductive FileStatement
  | base (q : Statement)
  | media (q : MediaSql)
  | avatar (q : AvatarSql)
  | storage (call : StorageCall)

@[reducible] def FileStatement.Res : FileStatement → Type
  | .base q => q.Res
  | .media q => Option q.Res
  | .avatar q => Option q.Res
  | .storage _ => StorageReply

def FileStatement.exec (cx : Context) : (q : FileStatement) → FileServer → q.Res × FileServer
  | .base q, s => ((q.exec cx s.toServer).1, { s with toServer := (q.exec cx s.toServer).2 })
  | .media q, s => ((q.run s.now s.media).1, { s with media := (q.run s.now s.media).2 })
  | .avatar q, s =>
      ((q.run s.now s.db.users).1, { s with db.users := (q.run s.now s.db.users).2 })
  | .storage call, s => ((s.objects.serve call).1, { s with objects := (s.objects.serve call).2 })

/-- Which error a failed call gives makes no difference to its caller. -/
def FileStatement.fault : (q : FileStatement) → Option q.Res
  | .base q => q.fault
  | .media _ => some none
  | .avatar _ => some none
  | .storage (.delete _) => some .deleted
  | .storage _ => some (.failed (.storing .notFound))

/-- The application's machine, of which the statements listed may fail without effect. -/
def fileMachine (cx : Context) (fails : FileStatement → Bool) :
    Machine FileStatement.Res FileServer ℕ where
  exec := FileStatement.exec cx
  fault q := if fails q then q.fault else none
  env ticks s := { s with now := s.now + ticks }

section Simp

variable (cx : Context) (fails : FileStatement → Bool) (s : FileServer)

@[simp] theorem exec_base (q : Statement) : (fileMachine cx fails).exec (.base q) s =
    ((q.exec cx s.toServer).1, { s with toServer := (q.exec cx s.toServer).2 }) := rfl
@[simp] theorem exec_media (q : MediaSql) : (fileMachine cx fails).exec (.media q) s =
    ((q.run s.now s.media).1, { s with media := (q.run s.now s.media).2 }) := rfl
@[simp] theorem exec_avatar (q : AvatarSql) : (fileMachine cx fails).exec (.avatar q) s =
    ((q.run s.now s.db.users).1, { s with db.users := (q.run s.now s.db.users).2 }) := rfl
@[simp] theorem exec_storage (call : StorageCall) : (fileMachine cx fails).exec (.storage call) s =
    ((s.objects.serve call).1, { s with objects := (s.objects.serve call).2 }) := rfl
@[simp] theorem env_file (ticks : ℕ) :
    (fileMachine cx fails).env ticks s = { s with now := s.now + ticks } := rfl

end Simp

theorem fault_fileMachine {cx : Context} {fails : FileStatement → Bool} {q : FileStatement}
    {r : q.Res} (h : (fileMachine cx fails).fault q = some r) :
    fails q = true ∧ q.fault = some r := by
  simp only [fileMachine] at h
  split at h
  next hfails => exact ⟨hfails, h⟩
  next => cases h

abbrev FileReq (α : Type) := Prog FileStatement.Res AppError α

/-- What the rest of the application provides. -/
def base {α : Type} (p : Req α) : FileReq α := p.lift FileStatement.base fun _ r ↦ r

def mediaSql (q : MediaSql) : FileReq q.Res := do
  let r ← ask (FileStatement.media q)
  okOr .database r

def avatarSql (q : AvatarSql) : FileReq q.Res := do
  let r ← ask (FileStatement.avatar q)
  okOr .database r

def putObject (key : String) (bytes : Bytes) : FileReq Unit := do
  let reply ← ask (FileStatement.storage (.put key bytes))
  match reply with
  | .failed _ => throw .internal
  | _ => pure ()

/-- `Ok(None)` when no object has this key. -/
def getObject (key : String) : FileReq (Option Bytes) := do
  let reply ← ask (FileStatement.storage (.get key))
  match reply with
  | .found bytes => pure bytes
  | _ => throw .internal

/-- Failures are only logged. -/
def deleteObject (key : String) : FileReq Unit := do
  let _ ← ask (FileStatement.storage (.delete key))
  pure ()

def deleteObjects : List String → FileReq Unit
  | [] => pure ()
  | key :: keys => do
      deleteObject key
      deleteObjects keys

/-! ## Media -/

structure MediaResponse where
  id : Uuid
  contentType : String
  sizeBytes : ℤ
  originalFilename : Option String
  url : String
  createdAt : Time
  deriving DecidableEq

def Media.response (media : Media) : MediaResponse where
  url := "/api/v1/media/" ++ toString media.id ++ "/content"
  id := media.id
  contentType := media.contentType
  sizeBytes := media.sizeBytes
  originalFilename := media.originalFilename
  createdAt := media.createdAt

structure Pagination where
  page : ℕ
  perPage : ℕ

def Pagination.new (page perPage : Option ℕ) : Pagination where
  page := max (page.getD 1) 1
  perPage := min (max (perPage.getD 20) 1) 100

def Pagination.offset (p : Pagination) : ℕ := (p.page - 1) * p.perPage

/-- A stored file's metadata together with its bytes. -/
structure MediaContent where
  media : Media
  bytes : Bytes
  deriving DecidableEq

/-- The key an upload of this extension draws. -/
def Context.mediaKey (cx : Context) (n : ℕ) (extension : String) : String :=
  "media/" ++ cx.simple (cx.randomUuid n) ++ "." ++ extension

namespace MediaService

variable (cx : FileContext)

/-- The owner, or an admin. Anyone else gets `NotFound`. -/
def findAccessible (actor : AuthUser) (id : Uuid) : FileReq Media := do
  let found ← mediaSql (.findById id)
  okOr MediaError.notFound.into
    (found.filter fun media ↦ decide (media.ownerId = actor.id) || actor.role.isAdmin)

/-- `MediaRepository::insert`, which draws the id itself. -/
def insertMedia (new : NewMedia) : FileReq Media := do
  let n ← base (ask Statement.draw)
  mediaSql (.insert (cx.randomUuid n) new)

def upload (actor : AuthUser) (upload : Bytes) (originalFilename : Option String) :
    FileReq MediaResponse := do
  ensure (upload ≠ []) MediaError.empty.into
  ensure (upload.length ≤ cx.maxUploadBytes)
    (MediaError.tooLarge (cx.maxUploadBytes / (1024 * 1024))).into
  let detected ← okOr MediaError.unrecognizedType.into (cx.infer upload)
  ensure (detected.mimeType ∈ cx.allowedContentTypes)
    (MediaError.typeNotAllowed detected.mimeType).into
  let n ← base (ask Statement.draw)
  let storageKey := cx.mediaKey n detected.extension
  putObject storageKey upload
  let inserted ← attempt (insertMedia cx
    ⟨actor.id, storageKey, detected.mimeType, upload.length, originalFilename⟩)
  match inserted with
  | .ok media => pure media.response
  | .error e => do
      deleteObject storageKey
      throw e

def list (actor : AuthUser) (pagination : Pagination) : FileReq (List MediaResponse × ℕ) := do
  let total ← mediaSql (.countByOwner actor.id)
  let items ← mediaSql (.listByOwner actor.id pagination.perPage pagination.offset)
  pure (items.map Media.response, total)

def metadata (actor : AuthUser) (id : Uuid) : FileReq MediaResponse := do
  let media ← findAccessible actor id
  pure media.response

def content (actor : AuthUser) (id : Uuid) : FileReq MediaContent := do
  let media ← findAccessible actor id
  let bytes ← getObject media.storageKey
  let bytes ← okOr MediaError.notFound.into bytes
  pure ⟨media, bytes⟩

def delete (actor : AuthUser) (id : Uuid) : FileReq Unit := do
  let media ← findAccessible actor id
  let storageKey ← mediaSql (.delete media.id)
  deleteObjects storageKey.toList

/-- Removes everything a user uploaded. Used when their account is deleted. -/
def deleteAllForUser (userId : Uuid) : FileReq Unit := do
  let storageKeys ← mediaSql (.deleteAllByOwner userId)
  deleteObjects storageKeys

end MediaService

/-! ## Profile photos -/

namespace AvatarStorage

def objectKey (name : String) : String := "avatars/" ++ name

/-- A fresh unguessable name. -/
def newName (cx : Context) (n : ℕ) : String := cx.simple (cx.randomUuid n) ++ ".jpg"

def isNameDigit (c : Char) : Bool := c.isDigit || ('a' ≤ c && c ≤ 'f')

def isValidName (name : String) : Bool :=
  decide (name.utf8ByteSize = 36) && decide (".jpg".toList <:+ name.toList) &&
    (name.toList.take 32).all isNameDigit

def write (name : String) (bytes : Bytes) : FileReq Unit := putObject (objectKey name) bytes

/-- Best effort: an orphaned file is harmless, so failures are only logged. -/
def remove (name : String) : FileReq Unit :=
  if isValidName name then deleteObject (objectKey name) else pure ()

end AvatarStorage

/-- `UsersRepository::set_avatar_key`: the previous file name, if there is such an account. -/
def setAvatarKey (id : Uuid) (avatarKey : Option String) : FileReq (Option (Option String)) := do
  let previous ← avatarSql (.selectKey id)
  if previous.isNone then pure none
  else do
    avatarSql (.updateKey id avatarKey)
    pure previous

/-- `UsersService::set_avatar_key` -/
def UsersService.setAvatarKey (id : Uuid) (avatarKey : Option String) :
    FileReq (Option String) := do
  let previous ← ApiStarter.setAvatarKey id avatarKey
  okOr UsersError.notFound.into previous

namespace AvatarService

variable (cx : FileContext)

def maxUploadBytes : ℕ := 2 * 1024 * 1024

def current (actor : AuthUser) : FileReq UserResponse := do
  let user ← base (UsersService.require actor.id)
  pure user.response

def removePrevious : Option String → FileReq Unit
  | some old => AvatarStorage.remove old
  | none => pure ()

def set (actor : AuthUser) (upload : Bytes) : FileReq UserResponse := do
  ensure (upload.length ≤ maxUploadBytes)
    (AvatarError.tooLarge (maxUploadBytes / (1024 * 1024))).into
  match cx.toAvatarJpeg upload with
  | .error e => throw e.into
  | .ok jpeg => do
      let n ← base (ask Statement.draw)
      let name := AvatarStorage.newName cx.toContext n
      AvatarStorage.write name jpeg
      let result ← attempt (UsersService.setAvatarKey actor.id (some name))
      match result with
      | .ok previous => removePrevious previous
      | .error e => do
          AvatarStorage.remove name
          throw e
      current actor

def remove (actor : AuthUser) : FileReq UserResponse := do
  let previous ← UsersService.setAvatarKey actor.id none
  removePrevious previous
  current actor

end AvatarService

/-! ## Requests -/

inductive FileRequest
  | uploadMedia (caller : Presented) (upload : Bytes) (filename : Option String)
  | listMedia (caller : Presented) (page perPage : Option ℕ)
  | downloadMedia (caller : Presented) (id : Uuid)
  | deleteMedia (caller : Presented) (id : Uuid)
  | setAvatar (caller : Presented) (upload : Bytes)
  | removeAvatar (caller : Presented)
  | deleteUser (caller : Presented) (id : Uuid)

inductive FileResponse
  | stored (media : MediaResponse)
  | listed (items : List MediaResponse) (total : ℕ)
  | content (content : MediaContent)
  | user (response : UserResponse)
  | noContent

def handleFile (cx : FileContext) : FileRequest → FileReq FileResponse
  | .uploadMedia caller upload filename => do
      let actor ← base (authUser cx.toContext caller false)
      let stored ← MediaService.upload cx actor upload filename
      pure (.stored stored)
  | .listMedia caller page perPage => do
      let actor ← base (authUser cx.toContext caller true)
      let (items, total) ← MediaService.list actor (.new page perPage)
      pure (.listed items total)
  | .downloadMedia caller id => do
      let actor ← base (authUser cx.toContext caller true)
      let stored ← MediaService.content actor id
      pure (.content stored)
  | .deleteMedia caller id => do
      let actor ← base (authUser cx.toContext caller false)
      MediaService.delete actor id
      pure .noContent
  | .setAvatar caller upload => do
      let actor ← base (authUser cx.toContext caller false)
      let response ← AvatarService.set cx actor upload
      pure (.user response)
  | .removeAvatar caller => do
      let actor ← base (authUser cx.toContext caller false)
      let response ← AvatarService.remove actor
      pure (.user response)
  | .deleteUser caller id => do
      let actor ← base (adminUser cx.toContext caller false)
      let avatarKey ← base (UsersService.delete actor id)
      AvatarService.removePrevious avatarKey
      -- the account is already gone, so a cleanup failure must not turn this into an error
      let _ ← attempt (MediaService.deleteAllForUser id)
      pure .noContent

/-- The requests of `media/controllers`. -/
inductive MediaRequest
  | list (caller : Presented) (page perPage : Option ℕ)
  | metadata (caller : Presented) (id : Uuid)
  | content (caller : Presented) (id : Uuid)
  | upload (caller : Presented) (upload : Bytes) (filename : Option String)
  | delete (caller : Presented) (id : Uuid)

def MediaRequest.caller : MediaRequest → Presented
  | .list caller .. | .metadata caller _ | .content caller _ | .upload caller .. |
    .delete caller _ =>
      caller

def handleMedia (cx : FileContext) : MediaRequest → FileReq FileResponse
  | .list caller page perPage => handleFile cx (.listMedia caller page perPage)
  | .metadata caller id => do
      let actor ← base (authUser cx.toContext caller true)
      let stored ← MediaService.metadata actor id
      pure (.stored stored)
  | .content caller id => handleFile cx (.downloadMedia caller id)
  | .upload caller upload filename => handleFile cx (.uploadMedia caller upload filename)
  | .delete caller id => handleFile cx (.deleteMedia caller id)

end ApiStarter
