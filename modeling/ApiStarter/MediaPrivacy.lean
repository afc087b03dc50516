import ApiStarter.FileRuns
import ApiStarter.Interleave.Solo

/-!
# Media are private

What a caller who is no administrator is told about media depends on their own
media only, whatever ids they name, and what they ask for touches no other.  Two
runs of the same requests are compared, from states that agree on the caller's
media.
-/

namespace ApiStarter

open Interleave Interleave.Prog Relational

/-- The states agree on the owner's media and on everything that is not media. -/
structure AgreeOn (owner : Uuid) (s s' : FileServer) : Prop where
  server : s.toServer = s'.toServer
  rows : ∀ m, m.ownerId = owner → (m ∈ s.media ↔ m ∈ s'.media)
  objects : ∀ m ∈ s.media, m.ownerId = owner → s.objects m.storageKey = s'.objects m.storageKey

/-- The media of others are as they were in `s₀`. -/
structure OthersKept (owner : Uuid) (s₀ s : FileServer) : Prop where
  rows : ∀ m, m.ownerId ≠ owner → (m ∈ s.media ↔ m ∈ s₀.media)
  objects : ∀ m ∈ s₀.media, m.ownerId ≠ owner → s.objects m.storageKey = s₀.objects m.storageKey

/-- The ids and keys still to be drawn are not those of others' media. -/
structure FreshBeside (cx : FileContext) (owner : Uuid) (s : FileServer) : Prop where
  id : ∀ n, s.draws ≤ n → ∀ m ∈ s.media, m.ownerId ≠ owner → m.id ≠ cx.randomUuid n
  key : ∀ n, s.draws ≤ n → ∀ m ∈ s.media, m.ownerId ≠ owner →
    ∀ extension, m.storageKey ≠ cx.mediaKey n extension

/-- Whoever presents this can only pass for `owner`. -/
def Presented.ActsFor (cx : Context) (owner : Uuid) (s : Server) : Presented → Prop
  | .bearer claims => claims.sub = owner
  | .apiKey raw => ∀ key ∈ s.db.apiKeys, key.keyHash = cx.sha256 raw → key.userId = owner

def NoAdmin (owner : Uuid) (s : Server) : Prop :=
  ∀ u ∈ s.db.users, u.id = owner → u.role.isAdmin = false

/-- The answers to requests that come one after the other, with time passing between all
statements and some of the statements failing. -/
def mediaAnswers (cx : FileContext) (fails : FileStatement → Bool) (pace : ℕ → ℕ)
    (down : ℕ → Bool) (ks : List MediaRequest) (s : FileServer) :
    List (Except AppError FileResponse) :=
  serve ((fileMachine cx.toContext fails).faulty pace down) (handleMedia cx) ks (s, 0)

/-- What such requests leave. -/
def mediaAfter (cx : FileContext) (fails : FileStatement → Bool) (pace : ℕ → ℕ)
    (down : ℕ → Bool) (ks : List MediaRequest) (s : FileServer) : FileServer :=
  (served ((fileMachine cx.toContext fails).faulty pace down) (handleMedia cx) ks (s, 0)).1

/-! ## Stores -/

/-- No media of another has this key. -/
def NotOthers (owner : Uuid) (s₀ : FileServer) (key : String) : Prop :=
  ∀ m ∈ s₀.media, m.ownerId ≠ owner → m.storageKey ≠ key

/-- How far two runs from `s₀` and `s₀'` have come. -/
structure Alike (cx : FileContext) (owner : Uuid) (ks : List MediaRequest)
    (s₀ s₀' s s' : FileServer) : Prop where
  agree : AgreeOn owner s s'
  kept : OthersKept owner s₀ s
  kept' : OthersKept owner s₀' s'
  draws : s₀.draws ≤ s.draws
  noAdmin : NoAdmin owner s.toServer
  callers : ∀ k ∈ ks, k.caller.ActsFor cx.toContext owner s.toServer

section Stores

variable {cx : FileContext} {owner : Uuid} {ks : List MediaRequest} {s₀ s₀' s s' : FileServer}
  {m : Media} {key : String}

theorem OthersKept.notOthers (h : OthersKept owner s₀ s) (hm : m ∈ s.media)
    (howner : m.ownerId = owner) : NotOthers owner s₀ m.storageKey := by
  intro x hx hother hsame
  obtain rfl : x = m := MediaTable.eq_of_storageKey ((h.rows x hother).mpr hx) hm hsame
  exact hother howner

theorem OthersKept.objectChanged {value : Option Bytes} (h : OthersKept owner s₀ s)
    (hkey : NotOthers owner s₀ key) :
    OthersKept owner s₀
      { s with objects := fun k ↦ if k = key then value else s.objects k } where
  rows := h.rows
  objects x hx hother := (if_neg (hkey x hx hother)).trans (h.objects x hx hother)

theorem OthersKept.inserted {media : MediaTable} (h : OthersKept owner s₀ s)
    (howner : m.ownerId = owner) (hmedia : s.media.insert? m = some media) :
    OthersKept owner s₀ { s with media := media } where
  rows x hother := by
    have hne : x ≠ m := fun hx ↦ hother (hx ▸ howner)
    simpa [MediaTable.mem_insert? hmedia, hne] using h.rows x hother
  objects := h.objects

theorem OthersKept.deleted (h : OthersKept owner s₀ s) (hm : m ∈ s.media)
    (howner : m.ownerId = owner) :
    OthersKept owner s₀ { s with media := s.media.deleteWhere fun x ↦ decide (x.id = m.id) } where
  rows x hother := by
    rw [← h.rows x hother, MediaTable.mem_deleteWhere]
    refine and_iff_left_of_imp fun hx ↦ decide_eq_false fun hid ↦ ?_
    obtain rfl : x = m := Table.eq_of_mem hx hm hid
    exact hother howner
  objects := h.objects

theorem Alike.objectChanged {value : Option Bytes} (h : Alike cx owner ks s₀ s₀' s s')
    (hkey : NotOthers owner s₀ key) (hkey' : NotOthers owner s₀' key) :
    Alike cx owner ks s₀ s₀' { s with objects := fun k ↦ if k = key then value else s.objects k }
      { s' with objects := fun k ↦ if k = key then value else s'.objects k } where
  agree := {
    server := h.agree.server
    rows := h.agree.rows
    objects := fun m hm howner ↦ by simp only [h.agree.objects m hm howner] }
  kept := h.kept.objectChanged hkey
  kept' := h.kept'.objectChanged hkey'
  draws := h.draws
  noAdmin := h.noAdmin
  callers := h.callers

theorem Alike.deleted (h : Alike cx owner ks s₀ s₀' s s') (hm : m ∈ s.media)
    (howner : m.ownerId = owner) :
    Alike cx owner ks s₀ s₀'
      { s with media := s.media.deleteWhere fun x ↦ decide (x.id = m.id) }
      { s' with media := s'.media.deleteWhere fun x ↦ decide (x.id = m.id) } where
  agree := {
    server := h.agree.server
    rows := fun x hx ↦ by simp [h.agree.rows x hx]
    objects := fun x hx hown ↦ h.agree.objects x (MediaTable.mem_deleteWhere.mp hx).1 hown }
  kept := h.kept.deleted hm howner
  kept' := h.kept'.deleted ((h.agree.rows m howner).mp hm) howner
  draws := h.draws
  noAdmin := h.noAdmin
  callers := h.callers

theorem Alike.inserted {media media' : MediaTable} (h : Alike cx owner ks s₀ s₀' s s')
    (howner : m.ownerId = owner) (hobject : s.objects m.storageKey = s'.objects m.storageKey)
    (hmedia : s.media.insert? m = some media) (hmedia' : s'.media.insert? m = some media') :
    Alike cx owner ks s₀ s₀' { s with media := media } { s' with media := media' } where
  agree := {
    server := h.agree.server
    rows := fun x hx ↦ by
      simp [MediaTable.mem_insert? hmedia, MediaTable.mem_insert? hmedia', h.agree.rows x hx]
    objects := fun x hx hown ↦ by
      rcases (MediaTable.mem_insert? hmedia).mp hx with hx | rfl
      · exact h.agree.objects x hx hown
      · exact hobject }
  kept := h.kept.inserted howner hmedia
  kept' := h.kept'.inserted howner hmedia'
  draws := h.draws
  noAdmin := h.noAdmin
  callers := h.callers

theorem MediaTable.insert?_eq_none {t : MediaTable} {m : Media} :
    t.insert? m = none ↔ ∃ x ∈ t, x.storageKey = m.storageKey ∨ x.id = m.id := by
  unfold MediaTable.insert?
  split
  next hkey =>
    obtain ⟨x, hx, hsame⟩ := List.mem_map.mp hkey
    exact iff_of_true rfl ⟨x, hx, .inl hsame⟩
  next hkey =>
    split
    next hid =>
      obtain ⟨x, hx, hsame⟩ := List.mem_map.mp hid
      exact iff_of_true rfl ⟨x, hx, .inr hsame⟩
    next hid =>
      apply iff_of_false (by simp)
      rintro ⟨x, hx, hsame | hsame⟩
      · exact hkey (List.mem_map.mpr ⟨x, hx, hsame⟩)
      · exact hid (List.mem_map.mpr ⟨x, hx, hsame⟩)

theorem AgreeOn.symm (h : AgreeOn owner s s') : AgreeOn owner s' s where
  server := h.server.symm
  rows m howner := (h.rows m howner).symm
  objects m hm howner := (h.objects m ((h.rows m howner).mpr hm) howner).symm

/-- Whether a row of the owner can be added depends on the owner's rows, as long as the id and
the key are new. -/
theorem AgreeOn.insertable (h : AgreeOn owner s s')
    (hnew : ∀ x ∈ s.media, x.ownerId ≠ owner → x.storageKey ≠ m.storageKey ∧ x.id ≠ m.id)
    (hnone : s.media.insert? m = none) : s'.media.insert? m = none := by
  obtain ⟨x, hx, hsame⟩ := MediaTable.insert?_eq_none.mp hnone
  have howner : x.ownerId = owner := by
    by_contra hother
    obtain ⟨hkey, hid⟩ := hnew x hx hother
    exact hsame.elim hkey hid
  exact MediaTable.insert?_eq_none.mpr ⟨x, (h.rows x howner).mp hx, hsame⟩

end Stores

/-! ## Statements -/

section Statements

variable {cx : FileContext} {fails : FileStatement → Bool} {pace : ℕ → ℕ} {down : ℕ → Bool}
  {owner : Uuid} {ks : List MediaRequest} {s₀ s₀' : FileServer} {t t' : FileServer × ℕ}

/-- The runs are alike, and as many statements old. -/
def InStep (cx : FileContext) (owner : Uuid) (ks : List MediaRequest) (s₀ s₀' : FileServer)
    (t t' : FileServer × ℕ) : Prop :=
  t.2 = t'.2 ∧ Alike cx owner ks s₀ s₀' t.1 t'.1

theorem Alike.inStep {s s' : FileServer} (h : Alike cx owner ks s₀ s₀' s s') (n : ℕ) :
    InStep cx owner ks s₀ s₀' (s, n) (s', n) := ⟨rfl, h⟩

/-- The statements with which a caller is identified, and the random draw. -/
def Statement.identifies : Statement → Bool
  | .clock | .draw | .sql (.users (.findById _)) | .sql (.apiKeys _) => true
  | _ => false

theorem identifies_exec {q : Statement} (hq : q.identifies = true) (s : Server) :
    (q.exec cx.toContext s).2.db.users = s.db.users ∧
      s.draws ≤ (q.exec cx.toContext s).2.draws ∧
        ∀ key ∈ (q.exec cx.toContext s).2.db.apiKeys, ∃ key' ∈ s.db.apiKeys,
          key'.keyHash = key.keyHash ∧ key'.userId = key.userId := by
  unfold Statement.identifies at hq
  split at hq
  · exact ⟨rfl, le_rfl, fun key hkey ↦ ⟨key, hkey, rfl, rfl⟩⟩
  · exact ⟨rfl, Nat.le_succ _, fun key hkey ↦ ⟨key, hkey, rfl, rfl⟩⟩
  · exact ⟨rfl, le_rfl, fun key hkey ↦ ⟨key, hkey, rfl, rfl⟩⟩
  · rename_i q
    refine ⟨rfl, le_rfl, fun key hkey ↦ ?_⟩
    cases q with
    | findByHash => exact ⟨key, hkey, rfl, rfl⟩
    | touch id instant =>
        simp only [Statement.exec, Sql.run, ApiKeySql.run, Table.mem_updateWhere] at hkey
        obtain ⟨key', hkey', rfl⟩ := hkey
        refine ⟨key', hkey', ?_⟩
        split <;> exact ⟨rfl, rfl⟩
  · cases hq

theorem Alike.waits {s s' : FileServer} (h : Alike cx owner ks s₀ s₀' s s') (ticks : ℕ) :
    Alike cx owner ks s₀ s₀' { s with now := s.now + ticks } { s' with now := s'.now + ticks } where
  agree := {
    server := by rw [h.agree.server]
    rows := h.agree.rows
    objects := h.agree.objects }
  kept := ⟨h.kept.rows, h.kept.objects⟩
  kept' := ⟨h.kept'.rows, h.kept'.objects⟩
  draws := h.draws
  noAdmin := h.noAdmin
  callers k hk := by
    have hcaller := h.callers k hk
    unfold Presented.ActsFor at hcaller ⊢
    exact hcaller

theorem Alike.identifies {s s' : FileServer} (h : Alike cx owner ks s₀ s₀' s s') {q : Statement}
    (hq : q.identifies = true) : Alike cx owner ks s₀ s₀'
      { s with toServer := (q.exec cx.toContext s.toServer).2 }
      { s' with toServer := (q.exec cx.toContext s'.toServer).2 } := by
  obtain ⟨husers, hdraws, hkeys⟩ := @identifies_exec cx _ hq s.toServer
  constructor
  · refine ⟨?_, h.agree.rows, h.agree.objects⟩
    rw [h.agree.server]
  · exact ⟨h.kept.rows, h.kept.objects⟩
  · exact ⟨h.kept'.rows, h.kept'.objects⟩
  · exact h.draws.trans hdraws
  · intro u hu
    exact h.noAdmin u (husers ▸ hu)
  · intro k hk
    have hcaller := h.callers k hk
    cases hpresented : k.caller with
    | bearer claims =>
        rw [hpresented] at hcaller
        exact hcaller
    | apiKey raw =>
        rw [hpresented] at hcaller
        intro key hkey hhash
        obtain ⟨key', hkey', hsame, hsameUser⟩ := hkeys key hkey
        exact hsameUser ▸ hcaller key' hkey' (hsame.trans hhash)

variable {α : Type} {Q : α → FileServer × ℕ → FileServer × ℕ → Prop}
  {E : AppError → FileServer × ℕ → FileServer × ℕ → Prop} (h : InStep cx owner ks s₀ s₀' t t')
include h

theorem accords_baseAsk {q : Statement} (hq : q.identifies = true)
    {Q : q.Res → FileServer × ℕ → FileServer × ℕ → Prop}
    (hexec : ∀ s : Server, NoAdmin owner s →
      (∀ k ∈ ks, k.caller.ActsFor cx.toContext owner s) → s.draws = t.1.draws →
        ∀ t₁ t₁', InStep cx owner ks s₀ s₀' t₁ t₁' → t₁.1.objects = t.1.objects →
          t₁'.1.objects = t'.1.objects → Q (q.exec cx.toContext s).1 t₁ t₁')
    (hfault : ∀ r ∈ q.fault, ∀ t₁ t₁', InStep cx owner ks s₀ s₀' t₁ t₁' → Q r t₁ t₁') :
    @Accords _ _ _ _ (no_index q.Res) _ ((fileMachine cx.toContext fails).faulty pace down)
      (base (ask q)) (base (ask q)) Q E t t' := by
  obtain ⟨hcount, halike⟩ := h
  have hwaits := halike.waits (pace t.2)
  refine accords_faulty hcount (accords_ret_of_eq ?_ ?_) fun r hr ↦ accords_ret ?_
  · simp only [exec_base, env_file, halike.agree.server]
  · exact hexec _ hwaits.noAdmin hwaits.callers rfl _ _ ⟨rfl, hwaits.identifies hq⟩ rfl rfl
  · exact hfault r (fault_fileMachine hr).2 _ _ ⟨rfl, hwaits⟩

theorem accords_draw {Q : ℕ → FileServer × ℕ → FileServer × ℕ → Prop}
    (hnext : ∀ n t₁ t₁', s₀.draws ≤ n → InStep cx owner ks s₀ s₀' t₁ t₁' →
      t₁.1.objects = t.1.objects → t₁'.1.objects = t'.1.objects → Q n t₁ t₁') :
    Accords ((fileMachine cx.toContext fails).faulty pace down)
      (base (ask Statement.draw)) (base (ask Statement.draw)) Q E t t' := by
  refine accords_baseAsk h rfl (fun s _ _ hdraws t₁ t₁' h₁ hobj hobj' ↦ ?_)
    (by simp [Statement.fault])
  exact hnext s.draws t₁ t₁' (hdraws ▸ h.2.draws) h₁ hobj hobj'

theorem accords_baseSql {q : Sql} (hq : (Statement.sql q).identifies = true)
    {Q : q.Res → FileServer × ℕ → FileServer × ℕ → Prop}
    (hE : ∀ t₁ t₁', InStep cx owner ks s₀ s₀' t₁ t₁' → E .database t₁ t₁')
    (hexec : ∀ s : Server, NoAdmin owner s →
      (∀ k ∈ ks, k.caller.ActsFor cx.toContext owner s) → ∀ r, (q.run s.now s.db).1 = some r →
        ∀ t₁ t₁', InStep cx owner ks s₀ s₀' t₁ t₁' → Q r t₁ t₁') :
    @Accords _ _ _ _ (no_index q.Res) _ ((fileMachine cx.toContext fails).faulty pace down)
      (base (sql q)) (base (sql q)) Q E t t' := by
  rw [sql, base_bind]
  refine accords_bind (accords_baseAsk h hq (fun s hadmin hcallers _ t₁ t₁' h₁ _ _ ↦ ?_) ?_)
  · rw [base_okOr]
    exact accords_okOr (fun r hr ↦ hexec s hadmin hcallers r hr t₁ t₁' h₁) fun _ ↦ hE t₁ t₁' h₁
  · intro r hr t₁ t₁' h₁
    obtain rfl : none = r := Option.some.inj hr
    exact accords_fail (hE t₁ t₁' h₁)

/-- The caller found is the owner, and no administrator. -/
theorem accords_authUser {k : MediaRequest} (hk : k ∈ ks) {safe : Bool}
    {Q : AuthUser → FileServer × ℕ → FileServer × ℕ → Prop}
    (hE : ∀ e t₁ t₁', InStep cx owner ks s₀ s₀' t₁ t₁' → E e t₁ t₁')
    (hQ : ∀ role credential t₁ t₁', role.isAdmin = false → InStep cx owner ks s₀ s₀' t₁ t₁' →
      Q ⟨owner, role, credential⟩ t₁ t₁') :
    Accords ((fileMachine cx.toContext fails).faulty pace down)
      (base (authUser cx.toContext k.caller safe)) (base (authUser cx.toContext k.caller safe))
      Q E t t' := by
  have hfound {s : Server} {u : User} {id : Uuid} {found : Option User} (hadmin : NoAdmin owner s)
      (hid : id = owner) (hrun : ((UsersSql.findById id).run s.now s.db.users).1 = some found)
      (hu : found.filter User.isActive = some u) : u.id = owner ∧ u.role.isAdmin = false := by
    obtain ⟨hfind, -⟩ := Option.filter_eq_some_iff.mp hu
    obtain ⟨hget, huid, -⟩ := find?_liveId_eq_some ((Option.some.inj hrun).trans hfind)
    exact ⟨huid.trans hid, hadmin u (Table.mem_of_get? hget) (huid.trans hid)⟩
  cases hpresented : k.caller with
  | bearer claims =>
      simp only [authUser, verifySession, clock, base_bind, base_okOr, base_ensure]
      refine accords_bind (accords_baseAsk h rfl (fun _ _ _ _ t₁ t₁' h₁ _ _ ↦ ?_)
        (by simp [Statement.fault]))
      refine accords_bind (accords_ensure (fun _ ↦ ?_) fun _ ↦ hE _ _ _ h₁)
      refine accords_bind (accords_baseSql h₁ rfl (hE _)
        fun s hadmin hcallers found hrun t₂ t₂' h₂ ↦ ?_)
      refine accords_bind (accords_okOr (fun u hu ↦ ?_) fun _ ↦ hE _ _ _ h₂)
      refine accords_bind (accords_ensure (fun _ ↦ ?_) fun _ ↦ hE _ _ _ h₂)
      have hsub : claims.sub = owner := by
        have hcaller := hcallers k hk
        rw [hpresented] at hcaller
        exact hcaller
      obtain ⟨rfl, hrole⟩ := hfound hadmin hsub hrun hu
      exact accords_ret (hQ _ _ _ _ hrole h₂)
  | apiKey raw =>
      simp only [authUser, authenticateApiKey, clock, base_bind, base_okOr, base_ensure]
      refine accords_bind (accords_bind (accords_baseAsk h rfl (fun _ _ _ _ t₁ t₁' h₁ _ _ ↦ ?_)
        (by simp [Statement.fault])))
      refine accords_bind (accords_baseSql h₁ rfl (hE _)
        fun s hadmin hcallers found hrun t₂ t₂' h₂ ↦ ?_)
      refine accords_bind (accords_okOr (fun key hkey ↦ ?_) fun _ ↦ hE _ _ _ h₂)
      have huser : key.userId = owner := by
        obtain ⟨hfind, -⟩ := Option.filter_eq_some_iff.mp hkey
        obtain ⟨hmem, hhash⟩ := Table.find?_eq_some ((Option.some.inj hrun).trans hfind)
        have hcaller := hcallers k hk
        rw [hpresented] at hcaller
        exact hcaller key hmem (of_decide_eq_true hhash)
      refine accords_bind (accords_baseSql h₂ rfl (hE _)
        fun s₁ hadmin₁ _ found₁ hrun₁ t₃ t₃' h₃ ↦ ?_)
      refine accords_bind (accords_okOr (fun u hu ↦ ?_) fun _ ↦ hE _ _ _ h₃)
      refine accords_bind (accords_baseSql h₃ rfl (hE _) fun _ _ _ _ _ t₄ t₄' h₄ ↦ ?_)
      obtain ⟨hid, hrole⟩ := hfound hadmin₁ huser hrun₁ hu
      apply accords_ret
      refine accords_bind (accords_ensure (fun _ ↦ ?_) fun _ ↦ hE _ _ _ h₄)
      rw [hid]
      exact accords_ret (hQ _ _ _ _ hrole h₄)

end Statements

/-! ## The use cases -/

section UseCases

variable {cx : FileContext} {fails : FileStatement → Bool} {pace : ℕ → ℕ} {down : ℕ → Bool}
  {owner : Uuid} {ks : List MediaRequest} {s₀ s₀' : FileServer} {t t' : FileServer × ℕ}
  {α : Type} (h : InStep cx owner ks s₀ s₀' t t')
include h

/-- A statement on the media table that changes nothing. -/
theorem accords_readMedia {q : MediaSql} {f f' : q.Res → FileReq α}
    {Q : α → FileServer × ℕ → FileServer × ℕ → Prop}
    {E : AppError → FileServer × ℕ → FileServer × ℕ → Prop} {r r' : q.Res}
    (hrun : ∀ now, q.run now t.1.media = (some r, t.1.media))
    (hrun' : ∀ now, q.run now t'.1.media = (some r', t'.1.media))
    (hE : ∀ t₁ t₁', InStep cx owner ks s₀ s₀' t₁ t₁' → E .database t₁ t₁')
    (hnext : ∀ t₁ t₁', InStep cx owner ks s₀ s₀' t₁ t₁' → t₁.1.media = t.1.media →
      Accords ((fileMachine cx.toContext fails).faulty pace down) (f r) (f' r') Q E t₁ t₁') :
    Accords ((fileMachine cx.toContext fails).faulty pace down)
      (mediaSql q >>= f) (mediaSql q >>= f') Q E t t' := by
  obtain ⟨hcount, halike⟩ := h
  have hwaits := halike.waits (pace t.2)
  simp only [mediaSql, ask_bind]
  refine accords_faulty hcount ?_ fun r hr ↦ ?_
  · simp only [exec_media, env_file, hrun, hrun', okOr_some]
    exact hnext _ _ ⟨rfl, hwaits⟩ rfl
  · obtain rfl : none = r := Option.some.inj (fault_fileMachine hr).2
    exact accords_fail (hE _ _ ⟨rfl, hwaits⟩)

/-- Of others' media there is no trace. -/
theorem accords_findAccessible {actor : AuthUser} (hid : actor.id = owner)
    (hrole : actor.role.isAdmin = false) (id : Uuid) :
    Accords ((fileMachine cx.toContext fails).faulty pace down)
      (MediaService.findAccessible actor id) (MediaService.findAccessible actor id)
      (fun m t₁ t₁' ↦ InStep cx owner ks s₀ s₀' t₁ t₁' ∧ m.ownerId = owner ∧ m ∈ t₁.1.media)
      (fun _ t₁ t₁' ↦ InStep cx owner ks s₀ s₀' t₁ t₁') t t' := by
  have hmay (m : Media) : (decide (m.ownerId = actor.id) || actor.role.isAdmin) =
      decide (m.ownerId = owner) := by rw [hid, hrole, Bool.or_false]
  have hsame : (t.1.media.table.get? id).filter (fun m ↦ decide (m.ownerId = owner)) =
      (t'.1.media.table.get? id).filter fun m ↦ decide (m.ownerId = owner) := by
    ext m
    simp only [Option.filter_eq_some_iff, Table.get?_eq_some_iff, decide_eq_true_eq]
    constructor
    · rintro ⟨⟨hm, rfl⟩, howner⟩
      exact ⟨⟨(h.2.agree.rows m howner).mp hm, rfl⟩, howner⟩
    · rintro ⟨⟨hm, rfl⟩, howner⟩
      exact ⟨⟨(h.2.agree.rows m howner).mpr hm, rfl⟩, howner⟩
  refine accords_readMedia h (fun _ ↦ rfl) (fun _ ↦ rfl) (fun _ _ h₁ ↦ h₁) fun t₁ t₁' h₁ hmedia ↦ ?_
  simp only [hmay, hsame]
  refine accords_okOr (fun m hm ↦ ?_) fun _ ↦ h₁
  rw [← hsame] at hm
  obtain ⟨hget, howner⟩ := Option.filter_eq_some_iff.mp hm
  exact ⟨h₁, of_decide_eq_true howner, hmedia ▸ Table.mem_of_get? hget⟩

theorem accords_list {actor : AuthUser} (hid : actor.id = owner) (pagination : Pagination) :
    Accords ((fileMachine cx.toContext fails).faulty pace down)
      (MediaService.list actor pagination) (MediaService.list actor pagination)
      (fun _ t₁ t₁' ↦ InStep cx owner ks s₀ s₀' t₁ t₁')
      (fun _ t₁ t₁' ↦ InStep cx owner ks s₀ s₀' t₁ t₁') t t' := by
  have hrows {t₁ t₁' : FileServer × ℕ} (h₁ : InStep cx owner ks s₀ s₀' t₁ t₁') (m : Media)
      (hm : m.isOwnedBy actor.id = true) : m ∈ t₁.1.media.table ↔ m ∈ t₁'.1.media.table :=
    h₁.2.agree.rows m ((of_decide_eq_true hm).trans hid)
  refine accords_readMedia h (fun _ ↦ rfl) (fun _ ↦ rfl) (fun _ _ h₁ ↦ h₁) fun t₁ t₁' h₁ _ ↦ ?_
  rw [Table.countWhere_congr (hrows h)]
  refine accords_readMedia h₁ (fun _ ↦ rfl) (fun _ ↦ rfl) (fun _ _ h₂ ↦ h₂) fun t₂ t₂' h₂ _ ↦ ?_
  rw [newestFirst_eq (hrows h₁)]
  exact accords_ret h₂

theorem accords_metadata {actor : AuthUser} (hid : actor.id = owner)
    (hrole : actor.role.isAdmin = false) (id : Uuid) :
    Accords ((fileMachine cx.toContext fails).faulty pace down)
      (MediaService.metadata actor id) (MediaService.metadata actor id)
      (fun _ t₁ t₁' ↦ InStep cx owner ks s₀ s₀' t₁ t₁')
      (fun _ t₁ t₁' ↦ InStep cx owner ks s₀ s₀' t₁ t₁') t t' :=
  accords_bind ((accords_findAccessible h hid hrole id).mono
    (fun _ _ _ hm ↦ accords_ret hm.1) fun _ _ _ h₁ ↦ h₁)

theorem accords_getObject {m : Media} (hm : m ∈ t.1.media) (howner : m.ownerId = owner) :
    Accords ((fileMachine cx.toContext fails).faulty pace down)
      (getObject m.storageKey) (getObject m.storageKey)
      (fun _ t₁ t₁' ↦ InStep cx owner ks s₀ s₀' t₁ t₁')
      (fun _ t₁ t₁' ↦ InStep cx owner ks s₀ s₀' t₁ t₁') t t' := by
  obtain ⟨hcount, halike⟩ := h
  have hwaits := halike.waits (pace t.2)
  refine accords_faulty hcount ?_ fun r hr ↦ ?_
  · refine accords_ret_of_eq ?_ ⟨rfl, hwaits⟩
    exact halike.agree.objects m hm howner
  · obtain rfl := Option.some.inj (fault_fileMachine hr).2
    exact accords_fail ⟨rfl, hwaits⟩

theorem accords_putObject {key : String} (bytes : Bytes) (hkey : NotOthers owner s₀ key)
    (hkey' : NotOthers owner s₀' key) :
    Accords ((fileMachine cx.toContext fails).faulty pace down)
      (putObject key bytes) (putObject key bytes)
      (fun _ t₁ t₁' ↦ InStep cx owner ks s₀ s₀' t₁ t₁' ∧ t₁.1.objects key = t₁'.1.objects key)
      (fun _ t₁ t₁' ↦ InStep cx owner ks s₀ s₀' t₁ t₁') t t' := by
  obtain ⟨hcount, halike⟩ := h
  have hwaits := halike.waits (pace t.2)
  refine accords_faulty hcount ?_ fun r hr ↦ ?_
  · refine accords_ret ⟨⟨rfl, hwaits.objectChanged hkey hkey'⟩, ?_⟩
    simp [Objects.serve]
  · obtain rfl := Option.some.inj (fault_fileMachine hr).2
    exact accords_fail ⟨rfl, hwaits⟩

theorem accords_deleteObject {key : String} (hkey : NotOthers owner s₀ key)
    (hkey' : NotOthers owner s₀' key) :
    Accords ((fileMachine cx.toContext fails).faulty pace down)
      (deleteObject key) (deleteObject key)
      (fun _ t₁ t₁' ↦ InStep cx owner ks s₀ s₀' t₁ t₁')
      (fun _ t₁ t₁' ↦ InStep cx owner ks s₀ s₀' t₁ t₁') t t' := by
  obtain ⟨hcount, halike⟩ := h
  have hwaits := halike.waits (pace t.2)
  refine accords_faulty hcount ?_ fun r hr ↦ accords_ret ⟨rfl, hwaits⟩
  exact accords_ret ⟨rfl, hwaits.objectChanged hkey hkey'⟩

theorem accords_content {actor : AuthUser} (hid : actor.id = owner)
    (hrole : actor.role.isAdmin = false) (id : Uuid) :
    Accords ((fileMachine cx.toContext fails).faulty pace down)
      (MediaService.content actor id) (MediaService.content actor id)
      (fun _ t₁ t₁' ↦ InStep cx owner ks s₀ s₀' t₁ t₁')
      (fun _ t₁ t₁' ↦ InStep cx owner ks s₀ s₀' t₁ t₁') t t' := by
  refine accords_bind ((accords_findAccessible h hid hrole id).mono ?_ fun _ _ _ h₁ ↦ h₁)
  rintro m t₁ t₁' ⟨h₁, howner, hm⟩
  refine accords_bind ((accords_getObject h₁ hm howner).mono ?_ fun _ _ _ h₂ ↦ h₂)
  intro bytes t₂ t₂' h₂
  exact accords_bind (accords_okOr (fun _ _ ↦ accords_ret h₂) fun _ ↦ h₂)

theorem accords_delete {actor : AuthUser} (hid : actor.id = owner)
    (hrole : actor.role.isAdmin = false) (id : Uuid) :
    Accords ((fileMachine cx.toContext fails).faulty pace down)
      (MediaService.delete actor id) (MediaService.delete actor id)
      (fun _ t₁ t₁' ↦ InStep cx owner ks s₀ s₀' t₁ t₁')
      (fun _ t₁ t₁' ↦ InStep cx owner ks s₀ s₀' t₁ t₁') t t' := by
  refine accords_bind ((accords_findAccessible h hid hrole id).mono ?_ fun _ _ _ h₁ ↦ h₁)
  rintro m t₁ t₁' ⟨⟨hcount, halike⟩, howner, hm⟩
  have hwaits := halike.waits (pace t₁.2)
  have hm' : m ∈ t₁'.1.media := (halike.agree.rows m howner).mp hm
  -- the row is the caller's own in both runs, and so is its object
  have hget : t₁.1.media.table.get? m.id = some m := Table.get?_of_mem hm
  have hget' : t₁'.1.media.table.get? m.id = some m := Table.get?_of_mem hm'
  simp only [mediaSql, ask_bind, stmt_bind]
  refine accords_faulty hcount ?_ fun r hr ↦ ?_
  · simp only [exec_media, env_file, MediaSql.run, hget, hget', Option.map_some, okOr_some,
      ret_bind, Option.toList_some, deleteObjects]
    have hdeleted := (hwaits.deleted hm howner).inStep (t₁.2 + 1)
    apply accords_bind
    refine (accords_deleteObject hdeleted ?_ ?_).mono (fun _ _ _ h₂ ↦ accords_ret h₂)
      fun _ _ _ h₂ ↦ h₂
    · exact halike.kept.notOthers hm howner
    · exact halike.kept'.notOthers hm' howner
  · obtain rfl : none = r := Option.some.inj (fault_fileMachine hr).2
    exact accords_fail ⟨rfl, hwaits⟩

section Upload

variable (hfresh : FreshBeside cx owner s₀) (hfresh' : FreshBeside cx owner s₀')
  (hserver : s₀.toServer = s₀'.toServer)
include hfresh hfresh' hserver

theorem accords_insertMedia {new : NewMedia} (howner : new.ownerId = owner)
    (hkey : NotOthers owner s₀ new.storageKey) (hkey' : NotOthers owner s₀' new.storageKey)
    (hobject : t.1.objects new.storageKey = t'.1.objects new.storageKey) :
    Accords ((fileMachine cx.toContext fails).faulty pace down)
      (MediaService.insertMedia cx new) (MediaService.insertMedia cx new)
      (fun _ t₁ t₁' ↦ InStep cx owner ks s₀ s₀' t₁ t₁')
      (fun _ t₁ t₁' ↦ InStep cx owner ks s₀ s₀' t₁ t₁') t t' := by
  refine accords_bind (accords_draw h fun n t₁ t₁' hn h₁ hobj hobj' ↦ ?_)
  obtain ⟨hcount, halike⟩ := h₁
  have hwaits := halike.waits (pace t₁.2)
  let m : Media := new.row (cx.randomUuid n) (t₁.1.now + pace t₁.2)
  have hrow : new.row (cx.randomUuid n) (t₁'.1.now + pace t₁.2) = m := by
    rw [← halike.agree.server]
  have hnew {s₀ s₁ : FileServer} (hkept : OthersKept owner s₀ s₁) (hfresh : FreshBeside cx owner s₀)
      (hn : s₀.draws ≤ n) (hkey : NotOthers owner s₀ new.storageKey) (x : Media)
      (hx : x ∈ s₁.media) (hother : x.ownerId ≠ owner) :
      x.storageKey ≠ m.storageKey ∧ x.id ≠ m.id := by
    have hx₀ := (hkept.rows x hother).mp hx
    exact ⟨hkey x hx₀ hother, hfresh.id n hn x hx₀ hother⟩
  simp only [mediaSql, ask_bind]
  refine accords_faulty hcount ?_ fun r hr ↦ ?_
  · simp only [exec_media, env_file, MediaSql.run, hrow]
    cases hmedia : t₁.1.media.insert? m with
    | none =>
        have hmedia' := halike.agree.insertable (hnew halike.kept hfresh hn hkey) hmedia
        simp only [hmedia']
        exact accords_fail ⟨rfl, hwaits⟩
    | some media =>
        cases hmedia' : t₁'.1.media.insert? m with
        | none =>
            have hnone := halike.agree.symm.insertable
              (hnew halike.kept' hfresh' (hserver ▸ hn) hkey') hmedia'
            rw [hmedia] at hnone
            cases hnone
        | some media' =>
            have hobject' : t₁.1.objects m.storageKey = t₁'.1.objects m.storageKey := by
              rw [hobj, hobj']
              exact hobject
            exact accords_ret ((hwaits.inserted howner hobject' hmedia hmedia').inStep _)
  · obtain rfl : none = r := Option.some.inj (fault_fileMachine hr).2
    exact accords_fail ⟨rfl, hwaits⟩

/-- Also what a failed upload leaves is alike. -/
theorem accords_upload {actor : AuthUser} (hid : actor.id = owner) (upload : Bytes)
    (filename : Option String) :
    Accords ((fileMachine cx.toContext fails).faulty pace down)
      (MediaService.upload cx actor upload filename) (MediaService.upload cx actor upload filename)
      (fun _ t₁ t₁' ↦ InStep cx owner ks s₀ s₀' t₁ t₁')
      (fun _ t₁ t₁' ↦ InStep cx owner ks s₀ s₀' t₁ t₁') t t' := by
  refine accords_bind (accords_ensure (fun _ ↦ ?_) fun _ ↦ h)
  refine accords_bind (accords_ensure (fun _ ↦ ?_) fun _ ↦ h)
  refine accords_bind (accords_okOr (fun detected _ ↦ ?_) fun _ ↦ h)
  refine accords_bind (accords_ensure (fun _ ↦ ?_) fun _ ↦ h)
  refine accords_bind (accords_draw h fun n t₁ t₁' hn h₁ _ _ ↦ ?_)
  have hkey : NotOthers owner s₀ (cx.mediaKey n detected.extension) :=
    fun x hx hother ↦ hfresh.key n hn x hx hother _
  have hkey' : NotOthers owner s₀' (cx.mediaKey n detected.extension) :=
    fun x hx hother ↦ hfresh'.key n (hserver ▸ hn) x hx hother _
  apply accords_bind
  refine (accords_putObject h₁ upload hkey hkey').mono ?_ fun _ _ _ h₂ ↦ h₂
  rintro - t₂ t₂' ⟨h₂, hobject⟩
  apply accords_bind
  apply accords_bindBoth
  refine (accords_insertMedia h₂ hfresh hfresh' hserver hid hkey hkey' hobject).mono ?_ ?_
  · exact fun _ t₃ t₃' h₃ ↦ accords_ret (accords_ret h₃)
  · intro e t₃ t₃' h₃
    apply accords_ret
    apply accords_bind
    exact (accords_deleteObject h₃ hkey hkey').mono (fun _ _ _ h₄ ↦ accords_fail h₄)
      fun _ _ _ h₄ ↦ h₄

theorem accords_handleMedia {k : MediaRequest} (hk : k ∈ ks) :
    Accords ((fileMachine cx.toContext fails).faulty pace down) (handleMedia cx k)
      (handleMedia cx k) (fun _ t₁ t₁' ↦ InStep cx owner ks s₀ s₀' t₁ t₁')
      (fun _ t₁ t₁' ↦ InStep cx owner ks s₀ s₀' t₁ t₁') t t' := by
  cases k with
  | list caller page perPage =>
      apply accords_bind
      refine accords_authUser h hk (fun _ _ _ h₁ ↦ h₁) fun role credential t₁ t₁' hrole h₁ ↦ ?_
      apply accords_bind
      exact (accords_list h₁ rfl _).mono (fun _ _ _ h₂ ↦ accords_ret h₂) fun _ _ _ h₂ ↦ h₂
  | metadata caller id =>
      apply accords_bind
      refine accords_authUser h hk (fun _ _ _ h₁ ↦ h₁) fun role credential t₁ t₁' hrole h₁ ↦ ?_
      apply accords_bind
      exact (accords_metadata h₁ rfl hrole id).mono (fun _ _ _ h₂ ↦ accords_ret h₂)
        fun _ _ _ h₂ ↦ h₂
  | content caller id =>
      apply accords_bind
      refine accords_authUser h hk (fun _ _ _ h₁ ↦ h₁) fun role credential t₁ t₁' hrole h₁ ↦ ?_
      apply accords_bind
      exact (accords_content h₁ rfl hrole id).mono (fun _ _ _ h₂ ↦ accords_ret h₂)
        fun _ _ _ h₂ ↦ h₂
  | upload caller upload filename =>
      apply accords_bind
      refine accords_authUser h hk (fun _ _ _ h₁ ↦ h₁) fun role credential t₁ t₁' hrole h₁ ↦ ?_
      apply accords_bind
      exact (accords_upload h₁ hfresh hfresh' hserver rfl upload filename).mono
        (fun _ _ _ h₂ ↦ accords_ret h₂) fun _ _ _ h₂ ↦ h₂
  | delete caller id =>
      apply accords_bind
      refine accords_authUser h hk (fun _ _ _ h₁ ↦ h₁) fun role credential t₁ t₁' hrole h₁ ↦ ?_
      apply accords_bind
      exact (accords_delete h₁ rfl hrole id).mono (fun _ _ _ h₂ ↦ accords_ret h₂)
        fun _ _ _ h₂ ↦ h₂

end Upload

end UseCases

/-- The answers do not depend on the media of others, which stay as they are. -/
theorem media_private {cx : FileContext} {fails : FileStatement → Bool} {pace : ℕ → ℕ}
    {down : ℕ → Bool} {owner : Uuid} {ks : List MediaRequest} {s s' : FileServer}
    (hadmin : NoAdmin owner s.toServer)
    (hcallers : ∀ k ∈ ks, k.caller.ActsFor cx.toContext owner s.toServer)
    (hagree : AgreeOn owner s s') (hfresh : FreshBeside cx owner s)
    (hfresh' : FreshBeside cx owner s') :
    mediaAnswers cx fails pace down ks s = mediaAnswers cx fails pace down ks s' ∧
      OthersKept owner s (mediaAfter cx fails pace down ks s) ∧
        OthersKept owner s' (mediaAfter cx fails pace down ks s') := by
  have hstart : InStep cx owner ks s s' (s, 0) (s', 0) := by
    apply Alike.inStep
    constructor
    · exact hagree
    · exact ⟨fun _ _ ↦ Iff.rfl, fun _ _ _ ↦ rfl⟩
    · exact ⟨fun _ _ ↦ Iff.rfl, fun _ _ _ ↦ rfl⟩
    · exact le_rfl
    · exact hadmin
    · exact hcallers
  have hkeeps : ∀ k ∈ ks, ∀ t t', InStep cx owner ks s s' t t' →
      Accords ((fileMachine cx.toContext fails).faulty pace down) (handleMedia cx k)
        (handleMedia cx k) (fun _ ↦ InStep cx owner ks s s') (fun _ ↦ InStep cx owner ks s s')
          t t' :=
    fun k hk t t' h ↦ accords_handleMedia h hfresh hfresh' hagree.server hk
  obtain ⟨hanswers, -, hafter⟩ := serve_accords hkeeps hstart
  exact ⟨hanswers, hafter.kept, hafter.kept'⟩

namespace MediaSample

open Sample

/-- A picture of the administrator's. -/
def picture : Media where
  id := 5
  ownerId := 2
  storageKey := "media/other.png"
  contentType := "image/png"
  sizeBytes := 3
  originalFilename := none
  createdAt := 0

def withPicture : FileServer :=
  { FileSample.start with
    media := .single picture
    objects := fun key ↦ if key = "media/other.png" then some [7, 8, 9] else none }

/-- Ada names the picture and uploads one of her own. -/
def requests : List MediaRequest :=
  [.list (bearer 1 .user) none none, .metadata (bearer 1 .user) 5, .content (bearer 1 .user) 5,
    .upload (bearer 1 .user) [1, 2, 3] (some "a.png"), .delete (bearer 1 .user) 5,
    .list (bearer 1 .user) none none]

theorem mediaKey_ne (n : ℕ) (extension : String) :
    picture.storageKey ≠ FileSample.context.mediaKey n extension := by
  intro h
  have hseventh := congrArg (fun key ↦ key.toList[6]?) h
  simp [picture, Context.mediaKey, FileSample.context, String.toList_append] at hseventh

end MediaSample

theorem media_private_picture :
    mediaAnswers FileSample.context (fun _ ↦ true) (fun _ ↦ 1) (fun _ ↦ false)
        MediaSample.requests MediaSample.withPicture =
      mediaAnswers FileSample.context (fun _ ↦ true) (fun _ ↦ 1) (fun _ ↦ false)
        MediaSample.requests FileSample.start ∧
      MediaSample.picture ∈ (mediaAfter FileSample.context (fun _ ↦ true) (fun _ ↦ 1)
        (fun _ ↦ false) MediaSample.requests MediaSample.withPicture).media := by
  have hadmin : NoAdmin 1 MediaSample.withPicture.toServer := by
    intro u hu hid
    simp only [MediaSample.withPicture, FileSample.start, Sample.server, Table.put, Table.single,
      Table.mem_def, List.mem_cons, List.mem_filter, List.not_mem_nil, or_false] at hu
    rcases hu with rfl | ⟨rfl, -⟩
    · cases hid
    · rfl
  have hfresh : FreshBeside FileSample.context 1 MediaSample.withPicture := by
    constructor
    · intro n _ m hm _
      obtain rfl : m = MediaSample.picture := List.mem_singleton.mp hm
      change (5 : ℕ) ≠ 1000 + n
      omega
    · intro n _ m hm _ extension
      obtain rfl : m = MediaSample.picture := List.mem_singleton.mp hm
      exact MediaSample.mediaKey_ne n extension
  have hagree : AgreeOn 1 MediaSample.withPicture FileSample.start := by
    constructor
    · rfl
    · intro m howner
      refine iff_of_false (fun hm ↦ ?_) fun hm ↦ ?_
      · obtain rfl : m = MediaSample.picture := List.mem_singleton.mp hm
        cases howner
      · cases hm
    · intro m hm howner
      obtain rfl : m = MediaSample.picture := List.mem_singleton.mp hm
      cases howner
  have hcallers : ∀ k ∈ MediaSample.requests,
      k.caller.ActsFor FileSample.context.toContext 1 MediaSample.withPicture.toServer := by
    intro k hk
    simp only [MediaSample.requests, List.mem_cons, List.not_mem_nil, or_false] at hk
    rcases hk with rfl | rfl | rfl | rfl | rfl | rfl <;> rfl
  have hfresh' : FreshBeside FileSample.context 1 FileSample.start :=
    ⟨by rintro _ _ _ ⟨⟩, by rintro _ _ _ ⟨⟩⟩
  obtain ⟨hanswers, hkept, -⟩ := @media_private FileSample.context (fun _ ↦ true) (fun _ ↦ 1)
    (fun _ ↦ false) 1 MediaSample.requests _ _ hadmin hcallers hagree hfresh hfresh'
  refine ⟨hanswers, (hkept.rows _ (by decide)).mpr ?_⟩
  exact List.mem_singleton.mpr rfl

end ApiStarter
