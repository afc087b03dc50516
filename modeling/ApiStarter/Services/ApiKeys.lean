import ApiStarter.Requests

/-!
# API keys

The statements of `modules/api_keys/repository.rs` that manage keys, the use cases
of `modules/api_keys/services` and the requests under `/api-keys`.  What checks a
key that a caller presents is part of the rest of the application.
-/

namespace ApiStarter

open Interleave Interleave.Prog Relational

/-- The columns of `api_keys` that are only shown to the owner. -/
structure KeyLabel where
  name : String
  keyPrefix : String
  createdAt : Time

/-- A row of `api_keys`. -/
structure StoredKey extends ApiKey, KeyLabel

/-- The application's world with the labels of the keys in it. -/
structure KeyServer extends Server where
  labels : Uuid → KeyLabel

structure NewApiKey where
  userId : Uuid
  name : String
  keyPrefix : String
  keyHash : String
  scope : ApiKeyScope
  expiresAt : Option Time

def NewApiKey.row (new : NewApiKey) (id : Uuid) : ApiKey where
  id := id
  userId := new.userId
  keyHash := new.keyHash
  scope := new.scope
  expiresAt := new.expiresAt
  lastUsedAt := none
  revokedAt := none

/-! ## Statements -/

inductive KeySql
  | insert (id : Uuid) (new : NewApiKey)
  | listActive (userId : Uuid)
  | revoke (userId id : Uuid)

@[reducible] def KeySql.Res : KeySql → Type
  | .insert .. => StoredKey
  | .listActive _ => List StoredKey
  | .revoke .. => Bool

/-- The key belongs to the user and has not been revoked. -/
def ApiKey.isActiveOf (u : Uuid) (k : ApiKey) : Bool :=
  decide (k.userId = u) && k.revokedAt.isNone

def KeySql.run (s : KeyServer) : (q : KeySql) → Option q.Res × KeyServer
  | .insert id new =>
      -- `key_hash` is UNIQUE
      if (s.db.apiKeys.find? fun k ↦ decide (k.keyHash = new.keyHash)).isSome then (none, s)
      else
        match s.db.apiKeys.insert? (new.row id) with
        | none => (none, s)
        | some apiKeys =>
            let label : KeyLabel := ⟨new.name, new.keyPrefix, s.now⟩
            (some ⟨new.row id, label⟩,
              { s with db.apiKeys := apiKeys, labels := Function.update s.labels id label })
  | .listActive userId =>
      -- ORDER BY created_at DESC
      (some (Table.orderBy (fun k : StoredKey ↦ -k.createdAt)
        ((s.db.apiKeys.selectWhere (ApiKey.isActiveOf userId)).map fun k ↦
          (⟨k, s.labels k.id⟩ : StoredKey))), s)
  | .revoke userId id =>
      let mine := fun k : ApiKey ↦ decide (k.id = id) && k.isActiveOf userId
      (some (s.db.apiKeys.countWhere mine = 1),
        { s with
          db.apiKeys := s.db.apiKeys.updateWhere mine
            (fun k ↦ { k with revokedAt := some s.now }) fun _ ↦ rfl })

inductive KeyStatement
  | base (q : Statement)
  | keys (q : KeySql)

@[reducible] def KeyStatement.Res : KeyStatement → Type
  | .base q => q.Res
  | .keys q => Option q.Res

def KeyStatement.exec (cx : Context) : (q : KeyStatement) → KeyServer → q.Res × KeyServer
  | .base q, s => ((q.exec cx s.toServer).1, { s with toServer := (q.exec cx s.toServer).2 })
  | .keys q, s => q.run s

def KeyStatement.fault : (q : KeyStatement) → Option q.Res
  | .base q => q.fault
  | .keys _ => some none

def keyMachine (cx : Context) : Machine KeyStatement.Res KeyServer ℕ where
  exec := KeyStatement.exec cx
  fault := KeyStatement.fault
  env ticks s := { s with now := s.now + ticks }

abbrev KeyReq (α : Type) := Prog KeyStatement.Res AppError α

/-- What the rest of the application provides. -/
def keyBase {α : Type} (p : Req α) : KeyReq α := p.lift KeyStatement.base fun _ r ↦ r

def keySql (q : KeySql) : KeyReq q.Res := do
  let r ← ask (KeyStatement.keys q)
  okOr .database r

/-! ## Use cases -/

inductive ApiKeysError
  | limitReached (limit : ℤ)
  | notFound
  deriving DecidableEq

def ApiKeysError.message : ApiKeysError → String
  | .limitReached limit =>
      "you can have at most " ++ toString limit ++ " active API keys, revoke one first"
  | .notFound => "API key not found"

def ApiKeysError.into (e : ApiKeysError) : AppError :=
  match e with
  | .limitReached _ => .badRequest e.message
  | .notFound => .notFound

structure CreateApiKeyDto where
  name : String
  scope : Option ApiKeyScope
  expiresInDays : Option ℕ

structure ApiKeyResponse where
  id : Uuid
  name : String
  keyPrefix : String
  scope : ApiKeyScope
  expiresAt : Option Time
  lastUsedAt : Option Time
  createdAt : Time

def StoredKey.response (k : StoredKey) : ApiKeyResponse where
  id := k.id
  name := k.name
  keyPrefix := k.keyPrefix
  scope := k.scope
  expiresAt := k.expiresAt
  lastUsedAt := k.lastUsedAt
  createdAt := k.createdAt

/-- Returned once, when the key is created: the only time the secret is visible. -/
structure CreatedApiKeyResponse where
  apiKey : ApiKeyResponse
  key : String

namespace ApiKeysService

def maxActiveKeysPerUser : ℤ := 20

/-- Characters of the secret part shown as the key's recognisable prefix. -/
def displayPrefixLen : ℕ := 6

def apiKeyPrefix : String := "ak_"

def create (cx : Context) (actor : AuthUser) (dto : CreateApiKeyDto) :
    KeyReq CreatedApiKeyResponse := do
  let active ← keySql (.listActive actor.id)
  ensure (¬(active.length : ℤ) ≥ maxActiveKeysPerUser)
    (ApiKeysError.limitReached maxActiveKeysPerUser).into
  let generated ← keyBase (generateToken cx)
  let key := apiKeyPrefix ++ generated.raw
  let shown := apiKeyPrefix ++ String.ofList (generated.raw.toList.take displayPrefixLen)
  let expiresAt ← match dto.expiresInDays with
    | some days => do
        let now ← keyBase clock
        pure (some (now + Time.days days))
    | none => pure none
  let n ← keyBase (ask Statement.draw)
  -- the hash covers the whole key (prefix included), which is what clients send
  let stored ← keySql (.insert (cx.randomUuid n)
    ⟨actor.id, trim dto.name, shown, cx.sha256 key, dto.scope.getD .read, expiresAt⟩)
  pure ⟨stored.response, key⟩

/-- The caller's active keys (never the secret). -/
def list (actor : AuthUser) : KeyReq (List ApiKeyResponse) := do
  let active ← keySql (.listActive actor.id)
  pure (active.map StoredKey.response)

def revoke (actor : AuthUser) (id : Uuid) : KeyReq Unit := do
  let revoked ← keySql (.revoke actor.id id)
  ensure (revoked = true) ApiKeysError.notFound.into

end ApiKeysService

/-! ## Requests -/

inductive KeyRequest
  | createKey (caller : Presented) (dto : CreateApiKeyDto)
  | listKeys (caller : Presented)
  | revokeKey (caller : Presented) (id : Uuid)
  /-- Any other request. -/
  | app (k : Request)

inductive KeyResponse
  | created (response : CreatedApiKeyResponse)
  | listed (items : List ApiKeyResponse)
  | noContent
  | app (response : Response)

/-- API keys are managed with an interactive sign-in only: a key cannot mint or revoke keys. -/
def handleKeys (cx : Context) : KeyRequest → KeyReq KeyResponse
  | .createKey caller dto => do
      let actor ← keyBase (sessionUser cx caller false)
      let created ← ApiKeysService.create cx actor dto
      pure (.created created)
  | .listKeys caller => do
      let actor ← keyBase (sessionUser cx caller true)
      let items ← ApiKeysService.list actor
      pure (.listed items)
  | .revokeKey caller id => do
      let actor ← keyBase (sessionUser cx caller false)
      ApiKeysService.revoke actor id
      pure .noContent
  | .app k => do
      let response ← keyBase (handle cx k)
      pure (.app response)

end ApiStarter
