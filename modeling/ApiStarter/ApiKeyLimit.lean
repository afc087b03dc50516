import ApiStarter.Calls
import ApiStarter.Interleave.Capacity
import ApiStarter.Services.ApiKeys

/-!
# The number of active API keys

Creating a key lists the active ones in one statement, compares their number with
the limit, and inserts the new one in a later statement.  The limit holds as long
as no other key of the user is inserted in between.
-/

namespace ApiStarter

open Interleave Interleave.Prog Relational

abbrev KeyEvent := Event KeyStatement KeyServer KeyRequest AppError KeyResponse
abbrev KeyConfig := Config KeyStatement.Res KeyServer KeyRequest AppError KeyResponse

abbrev KeyReached (cx : Context) (s : KeyServer) (c : KeyConfig) : Prop :=
  Reachable (keyMachine cx) (handleKeys cx) (fun _ ↦ True) s c

/-- How many keys of the user are not revoked. -/
def activeKeys (u : Uuid) (s : KeyServer) : ℕ := s.db.apiKeys.countWhere (ApiKey.isActiveOf u)

/-- The statement adds a key to the account. -/
def addsKey (u : Uuid) : KeyEvent → Bool
  | .ran _ _ (.keys (.insert id new)) b =>
      decide (new.userId = u) &&
        (b.db.apiKeys.find? fun k ↦ decide (k.keyHash = new.keyHash)).isNone &&
          (b.db.apiKeys.get? id).isNone
  | _ => false

/-- The statement revokes a key of the account. -/
def revokesKey (u : Uuid) : KeyEvent → Bool
  | .ran _ _ (.keys (.revoke userId id)) b =>
      decide (userId = u) && (b.db.apiKeys.get? id).any (ApiKey.isActiveOf u)
  | _ => false

/-- The count that the creation in thread `i` made. -/
def listsActive (i : ℕ) (u : Uuid) : KeyEvent → Bool
  | .ran j _ (.keys (.listActive id)) _ => decide (j = i) && decide (id = u)
  | _ => false

/-- Between the creation's own list of the active keys and its insert, no key of the user is
inserted. -/
def CreatesUndisturbed (u : Uuid) (e : KeyEvent) (earlier : List KeyEvent) : Prop :=
  addsKey u e = true → ∀ x ∈ earlier.takeWhile fun x ↦ !listsActive e.tid u x, addsKey u x = false

instance (u : Uuid) (e : KeyEvent) (earlier : List KeyEvent) :
    Decidable (CreatesUndisturbed u e earlier) :=
  inferInstanceAs (Decidable (_ → _))

/-! ## One request -/

/-- A key is inserted after its user's active keys were listed and found to be few enough. -/
def InsertsBelowLimit : KeyEvent → List KeyEvent → Prop
  | .ran i k (.keys (.insert _ new)) _, own => ∃ b,
      own.find? (listsActive i new.userId) = some (.ran i k (.keys (.listActive new.userId)) b) ∧
        (activeKeys new.userId b : ℤ) < ApiKeysService.maxActiveKeysPerUser
  | _, _ => True

/-- Statements that insert no key. -/
def InsertsNone : KeyStatement → Prop
  | .keys (.insert ..) => False
  | _ => True

theorem tid_of_listsActive {i : ℕ} {u : Uuid} {e : KeyEvent} (h : listsActive i u e = true) :
    e.tid = i := by
  unfold listsActive at h
  split at h
  · exact of_decide_eq_true (Bool.and_eq_true_iff.mp h).1
  · cases h

section Requests

variable {cx : Context} {i : ℕ} {k : KeyRequest} {own : List KeyEvent}

theorem insertsBelowLimit_of_none {q : KeyStatement} (hq : InsertsNone q) (s : KeyServer) :
    InsertsBelowLimit (.ran i k q s) own := by
  unfold InsertsBelowLimit
  split
  next heq =>
    cases heq
    exact hq.elim
  next => trivial

theorem traced_insertsNone {α : Type} {p : KeyReq α} (hp : p.Only InsertsNone) :
    Traced (keyMachine cx) InsertsBelowLimit i k p (fun _ _ ↦ True) (fun _ _ ↦ True) own :=
  (traced_of_only (A := fun _ ↦ True) hp (returns_true p)
    (fun _ hq s _ _ ↦ ⟨insertsBelowLimit_of_none hq s, trivial⟩) trivial).mono
      (fun _ _ _ ↦ trivial) fun _ _ _ ↦ trivial

theorem only_keyBase {α : Type} (p : Req α) : (keyBase p).Only InsertsNone :=
  Only.lift (only_true p)

theorem only_keySql {q : KeySql} (hq : InsertsNone (.keys q)) : (keySql q).Only InsertsNone :=
  .bind ((only_ask _).mpr hq) fun _ ↦ only_okOr ..

/-- The list that `create` looks at has as many entries as there are active keys. -/
theorem length_listActive {u : Uuid} {s : KeyServer} {active : List StoredKey}
    (h : ((KeySql.listActive u).run s).1 = some active) : active.length = activeKeys u s := by
  obtain rfl := Option.some.inj h
  simp [Table.orderBy, activeKeys, Table.countWhere, Table.selectWhere,
    List.countP_eq_length_filter]

/-- The rest of the application lists no keys. -/
theorem traced_keyBase_listed {α : Type} {u : Uuid} {x : KeyEvent} (p : Req α)
    (h : own.find? (listsActive i u) = some x) :
    Traced (keyMachine cx) InsertsBelowLimit i k (keyBase p)
      (fun _ own ↦ own.find? (listsActive i u) = some x) (fun _ _ ↦ True) own := by
  have hbase : (keyBase p).Only fun q ↦ ∃ q', q = .base q' :=
    Only.lift ((only_true p).mono fun q _ ↦ ⟨q, rfl⟩)
  refine (traced_of_only (A := fun own ↦ own.find? (listsActive i u) = some x) hbase
    (returns_true _) ?_ h).mono (fun _ _ h ↦ h.2) fun _ _ _ ↦ trivial
  rintro _ ⟨q, rfl⟩ s own' hown
  exact ⟨trivial, by simpa [listsActive] using hown⟩

theorem traced_insertListed {id : Uuid} {new : NewApiKey} {b : KeyServer}
    (hlisted : own.find? (listsActive i new.userId) =
      some (.ran i k (.keys (.listActive new.userId)) b))
    (hfew : (activeKeys new.userId b : ℤ) < ApiKeysService.maxActiveKeysPerUser)
    {Q : StoredKey → List KeyEvent → Prop} (hQ : ∀ stored own', Q stored own') :
    Traced (keyMachine cx) InsertsBelowLimit i k (keySql (.insert id new)) Q
      (fun _ _ ↦ True) own := by
  refine traced_bind.mpr ((traced_ask _).mpr ⟨fun s ↦ ⟨⟨b, hlisted, hfew⟩, ?_⟩, ?_⟩)
  · exact (traced_okOr ..).mpr ⟨fun _ _ ↦ hQ _ _, fun _ ↦ trivial⟩
  · rintro _ ⟨⟩
    exact (traced_okOr ..).mpr ⟨by simp, fun _ ↦ trivial⟩

theorem traced_create {actor : AuthUser} {dto : CreateApiKeyDto} :
    Traced (keyMachine cx) InsertsBelowLimit i k (ApiKeysService.create cx actor dto)
      (fun _ _ ↦ True) (fun _ _ ↦ True) own := by
  refine traced_bind.mpr (traced_bind.mpr ((traced_ask _).mpr ⟨fun s₁ ↦ ⟨trivial, ?_⟩, ?_⟩))
  swap
  · rintro _ ⟨⟩
    exact (traced_okOr ..).mpr ⟨by simp, fun _ ↦ trivial⟩
  refine (traced_okOr ..).mpr ⟨fun active hactive ↦ ?_, fun _ ↦ trivial⟩
  refine traced_bind.mpr ((traced_ensure ..).mpr ⟨fun hfew ↦ ?_, fun _ ↦ trivial⟩)
  rw [length_listActive hactive, ge_iff_le, Int.not_le] at hfew
  have hlisted : (Event.ran i k (.keys (.listActive actor.id)) s₁ :: own).find?
      (listsActive i actor.id) = some (.ran i k (.keys (.listActive actor.id)) s₁) := by
    simp [listsActive]
  refine traced_bind.mpr ((traced_keyBase_listed _ hlisted).mono (fun generated own₂ h₂ ↦ ?_)
    fun _ _ _ ↦ trivial)
  cases dto.expiresInDays with
  | none =>
      refine traced_bind.mpr ((traced_ret _).mpr (traced_bind.mpr
        ((traced_keyBase_listed _ h₂).mono (fun n _ h₄ ↦ ?_) fun _ _ _ ↦ trivial)))
      apply traced_bind.mpr
      apply traced_insertListed
      · exact h₄
      · exact hfew
      · exact fun _ _ ↦ trivial
  | some days =>
      refine traced_bind.mpr ((traced_keyBase_listed _ h₂).mono (fun now _ h₃ ↦ ?_)
        fun _ _ _ ↦ trivial)
      refine traced_bind.mpr ((traced_ret _).mpr (traced_bind.mpr
        ((traced_keyBase_listed _ h₃).mono (fun n _ h₄ ↦ ?_) fun _ _ _ ↦ trivial)))
      apply traced_bind.mpr
      apply traced_insertListed
      · exact h₄
      · exact hfew
      · exact fun _ _ ↦ trivial

theorem traces_insertsBelowLimit (cx : Context) (k : KeyRequest) :
    Traces (keyMachine cx) InsertsBelowLimit k (handleKeys cx) := by
  intro i
  have hends (a : Except AppError KeyResponse) (own : List KeyEvent) :
      Delivers InsertsBelowLimit i k a own := fun _ ↦ trivial
  cases k with
  | createKey caller dto =>
      refine traced_bind.mpr ((traced_insertsNone (only_keyBase _)).mono (fun actor own _ ↦ ?_)
        fun _ _ _ ↦ hends _ _)
      exact traced_bind.mpr (traced_create.mono (fun _ _ _ ↦ hends _ _) fun _ _ _ ↦ hends _ _)
  | listKeys caller =>
      refine (traced_insertsNone ?_).mono (fun _ _ _ ↦ hends _ _) fun _ _ _ ↦ hends _ _
      exact .bind (only_keyBase _) fun _ ↦ .bind (.bind (only_keySql trivial) fun _ ↦ trivial)
        fun _ ↦ trivial
  | revokeKey caller id =>
      refine (traced_insertsNone ?_).mono (fun _ _ _ ↦ hends _ _) fun _ _ _ ↦ hends _ _
      exact .bind (only_keyBase _) fun _ ↦ .bind (.bind (only_keySql trivial) fun _ ↦ by simp)
        fun _ ↦ trivial
  | app k =>
      refine (traced_insertsNone ?_).mono (fun _ _ _ ↦ hends _ _) fun _ _ _ ↦ hends _ _
      exact .bind (only_keyBase _) fun _ ↦ trivial

end Requests

/-! ## All runs -/

section Runs

variable {cx : Context} {u : Uuid} {s : KeyServer} {c : KeyConfig}

theorem activeKeys_inserted (i : ℕ) (k : KeyRequest) (id : Uuid) (new : NewApiKey) (b : KeyServer) :
    activeKeys u b + (if addsKey u (.ran i k (.keys (.insert id new)) b) then 1 else 0) =
      activeKeys u ((keyMachine cx).exec (.keys (.insert id new)) b).2 := by
  simp only [keyMachine, KeyStatement.exec, KeySql.run, activeKeys]
  cases hfind : b.db.apiKeys.find? fun k ↦ decide (k.keyHash = new.keyHash) with
  | some k => simp [addsKey, hfind]
  | none =>
      simp only [Option.isSome_none, Bool.false_eq_true, if_false]
      cases hinsert : b.db.apiKeys.insert? (new.row id) with
      | none =>
          obtain ⟨row, hrow⟩ := Option.isSome_iff_exists.mp (Table.insert?_eq_none.mp hinsert)
          simp [addsKey, hfind, show b.db.apiKeys.get? id = some row from hrow]
      | some apiKeys =>
          have hnone : b.db.apiKeys.get? id = none := (Table.insert?_eq_some hinsert).1
          by_cases huser : new.userId = u <;> simp [addsKey, hfind, hnone,
            Table.countWhere_insert? hinsert, ApiKey.isActiveOf, NewApiKey.row, huser]

theorem activeKeys_revoked (i : ℕ) (k : KeyRequest) (userId id : Uuid) (b : KeyServer) :
    activeKeys u b = activeKeys u ((keyMachine cx).exec (.keys (.revoke userId id)) b).2 +
      if revokesKey u (.ran i k (.keys (.revoke userId id)) b) then 1 else 0 := by
  simp only [keyMachine, KeyStatement.exec, KeySql.run, activeKeys]
  by_cases huser : userId = u
  · subst huser
    have hone := b.db.apiKeys.countWhere_key id (ApiKey.isActiveOf userId)
    have hmine : ∀ k : ApiKey, (decide (k.id = id) && k.isActiveOf userId) = true →
        k.isActiveOf userId = true := fun k hk ↦ (Bool.and_eq_true_iff.mp hk).2
    have hadd := @Table.countWhere_updateWhere_add _ _ _ b.db.apiKeys _ _
      (fun k ↦ { k with revokedAt := some b.now }) (fun _ ↦ rfl) hmine
        fun k _ ↦ by simp [ApiKey.isActiveOf]
    rw [hone] at hadd
    simpa [revokesKey] using hadd.symm
  · simp only [revokesKey, huser, decide_false, Bool.false_and, Bool.false_eq_true, if_false,
      Nat.add_zero]
    refine (Table.countWhere_updateWhere_of_eq fun k hk ↦ ?_).symm
    have howner : k.userId = userId := by
      simp only [ApiKey.isActiveOf, Bool.and_eq_true, decide_eq_true_eq] at hk
      exact hk.2.1
    simp [ApiKey.isActiveOf, howner, huser]

/-- Keys are created and revoked one by one. -/
theorem tally_keys (h : List KeyEvent) :
    Tally (keyMachine cx) (activeKeys u) (addsKey u) (revokesKey u) h where
  env _ _ := rfl
  answered _ _ _ _ := ⟨rfl, rfl⟩
  ran i k q b _ := by
    cases q with
    | base q =>
        cases q with
        | sql q =>
            cases q with
            | apiKeys q => 
                cases q with
                | findByHash => rfl
                | touch id instant =>
                    simp only [keyMachine, KeyStatement.exec, Statement.exec, Sql.run,
                      ApiKeySql.run, activeKeys]
                    exact (Table.countWhere_updateWhere (by intro; rfl)).symm
            | _ => rfl
        | _ => rfl
    | keys q =>
        cases q with
        | insert id new => exact activeKeys_inserted i k id new b
        | listActive => rfl
        | revoke userId id => exact activeKeys_revoked i k userId id b

/-- What is inserted undisturbed has been checked for. -/
theorem checksFirst_of_undisturbed (hc : KeyReached cx s c)
    (hundisturbed : Along (CreatesUndisturbed u) c.world.history) :
    Along (ChecksFirst (activeKeys u) (addsKey u) ApiKeysService.maxActiveKeysPerUser.toNat)
      c.world.history := by
  refine Along.of_splits fun later e earlier hhist hadds ↦ ?_
  have hlocal : AlongOwn InsertsBelowLimit e earlier :=
    Along.of_append (hhist ▸ hc.traces fun k _ ↦ traces_insertsBelowLimit cx k)
  have halone : CreatesUndisturbed u e earlier := Along.of_append (hhist ▸ hundisturbed)
  specialize halone hadds
  unfold addsKey at hadds
  split at hadds
  next i k id new b =>
    obtain ⟨⟨hu, -⟩, -⟩ := Bool.and_eq_true_iff.mp hadds |>.imp_left Bool.and_eq_true_iff.mp
    obtain rfl : new.userId = u := of_decide_eq_true hu
    obtain ⟨b₀, hfind, hfew⟩ := hlocal
    simp only [Event.tid_ran] at hfind halone
    rw [find?_ownEvents fun _ ↦ tid_of_listsActive] at hfind
    obtain ⟨hlists, newer, older, rfl, hnewer⟩ := List.find?_eq_some_iff_append.mp hfind
    refine ⟨newer, _, older, rfl, ?_, fun y hy ↦ ?_⟩
    · simp only [Event.store_ran]
      omega
    · rcases List.mem_append.mp hy with hy | hy
      · apply halone
        rw [List.takeWhile_append_of_pos hnewer]
        exact List.mem_append_left _ hy
      · rw [List.mem_singleton.mp hy]
        rfl
  next => cases hadds

theorem key_limit_kept (hc : KeyReached cx s c)
    (hs : (activeKeys u s : ℤ) ≤ ApiKeysService.maxActiveKeysPerUser)
    (hundisturbed : Along (CreatesUndisturbed u) c.world.history) :
    (activeKeys u c.world.store : ℤ) ≤ ApiKeysService.maxActiveKeysPerUser ∧
      ∀ i k q b, .ran i k q b ∈ c.world.history →
        (activeKeys u ((keyMachine cx).exec q b).2 : ℤ) ≤
          ApiKeysService.maxActiveKeysPerUser := by
  have hnat (n : ℕ) : n ≤ ApiKeysService.maxActiveKeysPerUser.toNat ↔
      (n : ℤ) ≤ ApiKeysService.maxActiveKeysPerUser := Int.le_toNat (by decide)
  have hwithin := hc.within_of_checksFirst (tally_keys c.world.history) ((hnat _).mpr hs)
    (checksFirst_of_undisturbed hc hundisturbed)
  simpa only [hnat] using hwithin

end Runs

/-! ## Two creations at once -/

namespace KeySample

open Sample

/-- Ada has nineteen keys. -/
def start : KeyServer where
  db := { Db.empty with
    users := .single (account 1 "ada@example.com" .user)
    apiKeys := ⟨(List.range 19).map fun n ↦
      ⟨100 + n, 1, "hash-" ++ toString n, .read, none, none, none⟩, by decide⟩ }
  now := 0
  draws := 0
  mails := []
  labels := fun _ ↦ ⟨"script", "ak_123456", 0⟩

def creation : KeyRequest := .createKey (bearer 1 .user) ⟨"script", none, none⟩

def single : List (Action KeyRequest ℕ) :=
  .start creation :: List.replicate 6 (.run 0) ++ [.answer 0]

/-- Both creations list the keys before either inserts. -/
def crossed : List (Action KeyRequest ℕ) :=
  .start creation :: .start creation :: List.replicate 3 (.run 0) ++ List.replicate 6 (.run 1) ++
    List.replicate 3 (.run 0)

end KeySample

theorem key_limit_single :
    ∃ c, KeyReached .sample KeySample.start c ∧ activeKeys 1 c.world.store = 20 ∧
      (activeKeys 1 c.world.store : ℤ) ≤ ApiKeysService.maxActiveKeysPerUser ∧
        ∀ i k q b, .ran i k q b ∈ c.world.history →
          (activeKeys 1 ((keyMachine .sample).exec q b).2 : ℤ) ≤
            ApiKeysService.maxActiveKeysPerUser := by
  obtain ⟨c, hc, htest⟩ : ∃ c, KeyReached .sample KeySample.start c ∧
      decide (activeKeys 1 c.world.store = 20 ∧ Along (CreatesUndisturbed 1) c.world.history) =
        true :=
    Reachable.of_schedule KeySample.single _ (by decide) (by decide)
  obtain ⟨hcount, hundisturbed⟩ := of_decide_eq_true htest
  exact ⟨c, hc, hcount, key_limit_kept hc (by decide) hundisturbed⟩

/-- Two creations that both list nineteen keys leave twenty-one. -/
theorem key_limit_exceeded :
    ∃ c, KeyReached .sample KeySample.start c ∧
      (activeKeys 1 KeySample.start : ℤ) ≤ ApiKeysService.maxActiveKeysPerUser ∧
        ApiKeysService.maxActiveKeysPerUser < activeKeys 1 c.world.store := by
  obtain ⟨c, hc, htest⟩ : ∃ c, KeyReached .sample KeySample.start c ∧
      decide (activeKeys 1 c.world.store = 21) = true :=
    Reachable.of_schedule KeySample.crossed _ (by decide) (by decide)
  have hmore : activeKeys 1 c.world.store = 21 := of_decide_eq_true htest
  refine ⟨c, hc, by decide, ?_⟩
  rw [hmore]
  decide

end ApiStarter
