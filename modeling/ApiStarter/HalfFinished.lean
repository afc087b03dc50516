import ApiStarter.QrSessions

/-!
# Half-finished sign-ins and password changes

A password change raises `token_version`, which ends every session issued
before it.  A sign-in that is still under way reads the account again when it
finishes and issues its token from the version it finds then: it is ended by
the change only if that read came before the change.
-/

namespace ApiStarter

open Interleave Interleave.Prog Relational

/-! ## Sessions -/

/-- `SessionVerifier::verify` accepts the token in this state. -/
def accepts (cx : Context) (claims : Claims) (s : Server) : Bool :=
  ((verifySession claims.sub claims.tv).alone (machine cx) s).1.isOk

/-- Tokens of version `tv` are refused for good. -/
def User.outdates (tv : ℕ) (row : User) : Prop := row.isLive = false ∨ tv < row.tokenVersion

section Sessions

variable {cx : Context} {claims : Claims} {s : Server} {u : Uuid}

theorem verifySession_eq_ok {tv : ℕ} {actor : AuthUser} :
    ((verifySession u tv).alone (machine cx) s).1 = .ok actor ↔
      ∃ row, s.db.users.get? u = some row ∧ row.isLive = true ∧ row.isActive = true ∧
        row.tokenVersion = tv ∧ actor = ⟨u, row.role, .session⟩ := by
  have hrun : ((verifySession u tv).alone (machine cx) s).1 = ((do
      let user ← okOr SecurityError.invalidToken.into
        ((s.db.users.find? (liveId u)).filter User.isActive)
      ensure (user.tokenVersion = tv) SecurityError.invalidToken.into
      ret ⟨user.id, user.role, .session⟩ : Req AuthUser).alone (machine cx) s).1 := rfl
  rw [hrun, find?_liveId]
  cases hrow : s.db.users.get? u with
  | none => simp [Prog.alone]
  | some row =>
      have hid : row.id = u := Table.key_of_get? hrow
      cases hlive : row.isLive <;> cases hactive : row.isActive <;>
        by_cases htv : row.tokenVersion = tv <;>
          simp [Option.filter, hlive, hactive, htv, hid, ensure, Prog.alone, eq_comm (a := actor)]

theorem accepts_iff : accepts cx claims s = true ↔
    userIs claims.sub (fun row ↦ row.isLive = true ∧ row.isActive = true ∧
      row.tokenVersion = claims.tv) s := by
  have hok : accepts cx claims s = true ↔
      ∃ actor, ((verifySession claims.sub claims.tv).alone (machine cx) s).1 = .ok actor := by
    unfold accepts
    cases ((verifySession claims.sub claims.tv).alone (machine cx) s).1 <;>
      simp [Except.isOk, Except.toBool]
  rw [hok]
  constructor
  · rintro ⟨actor, hactor⟩
    obtain ⟨row, hrow, hlive, hactive, htv, -⟩ := verifySession_eq_ok.mp hactor
    exact ⟨row, hrow, hlive, hactive, htv⟩
  · rintro ⟨row, hrow, hlive, hactive, htv⟩
    exact ⟨_, verifySession_eq_ok.mpr ⟨row, hrow, hlive, hactive, htv, rfl⟩⟩

theorem not_accepts_of_outdates (h : userIs claims.sub (User.outdates claims.tv) s) :
    accepts cx claims s = false := by
  rw [Bool.eq_false_iff, Ne, accepts_iff]
  rintro ⟨row, hrow, hlive, -, htv⟩
  obtain ⟨row', hrow', hdead⟩ := h
  obtain rfl : row = row' := Option.some.inj (hrow.symm.trans hrow')
  rcases hdead with hdead | hlt
  · simp [hlive] at hdead
  · omega

theorem UsersSql.tokenVersion_le_onRow (now : Time) (users : Table User.id) (row : User)
    (q : UsersSql) : row.tokenVersion ≤ (q.onRow now users row).tokenVersion := by
  cases q with
  | _ =>
      simp only [onRow]
      repeat' split
      all_goals simp [UserPatch.apply, User.markDeleted, User.withFailedLogin]

theorem outdates_onRow (tv : ℕ) (now : Time) (users : Table User.id) (row : User) (q : UsersSql)
    (h : row.outdates tv) : (q.onRow now users row).outdates tv := by
  rcases h with hdead | hlt
  · exact .inl (UsersSql.isLive_onRow now users q hdead)
  · exact .inr (hlt.trans_le (UsersSql.tokenVersion_le_onRow now users row q))

/-- A password change outdates every version seen so far. -/
theorem outdates_setPasswordHash {tv : ℕ} {hash : String}
    (h : userIs u (fun row ↦ tv ≤ row.tokenVersion) s) :
    userIs u (User.outdates tv)
      ((machine cx).exec (.sql (.users (.setPasswordHash u hash))) s).2 := by
  obtain ⟨row, hrow, hle⟩ := h
  have hid : row.id = u := Table.key_of_get? hrow
  refine ⟨_, UsersSql.get?_run hrow _, ?_⟩
  cases hlive : row.isLive with
  | false => exact .inl (by simp [UsersSql.onRow, liveId, hlive])
  | true => exact .inr (by simp [UsersSql.onRow, liveId, hlive, hid]; omega)

end Sessions

/-! ## Signing in in two steps -/

def changesPassword (u : Uuid) : AppEvent → Bool
  | .ran _ _ (.sql (.users (.setPasswordHash id _))) _ => decide (id = u)
  | _ => false

/-- The read behind a login's password check or an approval's session check. -/
def checksCredential : AppEvent → Bool
  | .ran _ (.login ..) (.sql (.users (.findByEmail _))) _ => true
  | .ran _ (.qrApprove ..) (.sql (.users (.findById _))) _ => true
  | _ => false

/-- The half-finished sign-in of `u` that `k` is to finish comes into being: its pending token
is stored, or its QR session is approved. -/
def obtains (cx : Context) (u : Uuid) (k : Request) : AppEvent → Bool
  | .ran _ _ (.sql (.authTokens (.insert u' .twoFactorPending hash _ _))) _ =>
      match k with
      | .twoFactorVerify pendingToken _ => decide (u' = u) && decide (hash = cx.sha256 pendingToken)
      | _ => false
  | .ran _ _ (.sql (.qrSessions (.resolve id u' .approved))) before =>
      match k with
      | .qrPoll id' _ => decide (u' = u) && decide (id' = id) &&
          (before.db.qrSessions.get? id).any fun r ↦ r.resolvable u' before.now
      | _ => false
  | _ => false

/-- The access token with which `k` finishes a sign-in. -/
def finishedWith : Request → Response → Option Claims
  | .twoFactorVerify .., .token response => some response.accessToken
  | .qrPoll .., .qrPolled ⟨_, some response⟩ => some response.accessToken
  | _, _ => none

/-- No sign-in that rests on a credential checked before a password change is finished after
the change with a token that is accepted. -/
def HalfFinishedRevoked (cx : Context) (u : Uuid) (W : AppWorld) : Prop :=
  ∀ later i k response b between change before token,
    W.history = later ++ .answered i k (.ok response) b :: (between ++ change :: before) →
      changesPassword u change = true → finishedWith k response = some token → token.sub = u →
        ∀ got ∈ between ++ change :: before, obtains cx u k got = true →
          ∀ check ∈ before, checksCredential check = true → check.tid = got.tid →
            accepts cx token W.store = false

/-- The token is made from an account read of the same thread. -/
def FinishesFromRead : AppEvent → List AppEvent → Prop
  | .answered i (.twoFactorVerify ..) (.ok (.token response)) _, earlier =>
      ∃ read ∈ earlier, readsAccount i response.accessToken.sub read = true ∧
        userIs response.accessToken.sub
          (fun row ↦ row.tokenVersion = response.accessToken.tv) read.store
  | _, _ => True

theorem handles_finishesFromRead (cx : Context) (k : Request) :
    Handles (machine cx) (.along FinishesFromRead) k (handle cx) := by
  cases k with
  | twoFactorVerify pendingToken code =>
      have harmless : ∀ (q : Statement) (i : ℕ) (k : Request) (W : AppWorld),
          (Discipline.along FinishesFromRead).Inv W →
            (Discipline.along FinishesFromRead).Keeps W (W.ran (machine cx) i k q) :=
        fun q i k W hW ↦ Discipline.keeps_along_ran.mpr ⟨trivial, hW⟩
      have hquiet : Quiet cx (.along FinishesFromRead) := fun q _ i k W ↦ harmless q i k W
      have hE : ∀ {i : ℕ} (e : AppError) (W : AppWorld), (Discipline.along FinishesFromRead).Inv W →
          Answers (.along FinishesFromRead) i (.twoFactorVerify pendingToken code) (.error e) W :=
        fun e W _ W' hW' ↦ Discipline.keeps_along_answered.mpr ⟨trivial, hW'.inv⟩
      intro i W hW _
      refine wp_bind.mpr (wp_bind.mpr (wp_bind.mpr (wp_read hE hquiet rfl
        fun W₁ found _ _ hInv ↦ wp_unwrap hE hInv fun claim _ ↦ ?_)))
      rw [← Prog.bind_assoc]
      refine wp_bind.mpr (wp_findUser hE hquiet fun W₂ u _ hget hid _ _ hInv ↦ ?_)
      -- from here on only the read has to be remembered
      let read : AppEvent := .ran i (.twoFactorVerify pendingToken code)
        (.sql (.users (.findById claim.userId))) W₂.store
      have rest : ∀ {α : Type} (p : Req α) (W : AppWorld),
          (Discipline.along FinishesFromRead).Inv W → read ∈ W.history →
            wp (machine cx) (.along FinishesFromRead) i (.twoFactorVerify pendingToken code) p
              (fun _ W ↦ (Discipline.along FinishesFromRead).Inv W ∧ read ∈ W.history)
              (fun _ W ↦ (Discipline.along FinishesFromRead).Inv W ∧ read ∈ W.history) W :=
        fun p W hW hread ↦ wp_stable (only_true p)
          (fun q _ W hW hread ↦ ⟨harmless q _ _ W hW, List.mem_cons_of_mem _ hread⟩)
          (fun _ _ h hread ↦ h.mem hread) hW hread
      refine wp_bind.mpr (wp_unwrap hE hInv fun secret _ ↦ wp_bind.mpr ?_)
      refine (rest _ _ hInv List.mem_cons_self).mono (fun valid W₃ h₃ ↦ ?_) fun e W h ↦ hE e W h.1
      refine wp_bind.mpr (wp_check hE h₃.1 fun _ ↦ wp_bind.mpr ?_)
      refine (rest _ _ h₃.1 h₃.2).mono (fun _ W₄ h₄ ↦ wp_bind.mpr ?_) fun e W h ↦ hE e W h.1
      refine wp_clock hquiet fun W₅ h₅ _ W₆ h₆ ↦ Discipline.keeps_along_answered.mpr ⟨?_, h₆.inv⟩
      refine ⟨read, h₆.mem (List.mem_cons_of_mem _ (h₅.mem h₄.2)), ?_, u, ?_, rfl⟩
      · simp [read, readsAccount, hid]
      · simpa [read, hid] using hget
  | _ =>
      exact .along_of_only (S := fun _ ↦ True) (only_true _)
        (fun _ _ _ _ _ ↦ trivial) fun _ _ _ _ ↦ trivial

/-! ## All runs -/

/-- Between the credential check behind a sign-in and the account read of the request that
finishes it no password change comes. -/
def finishesInTime (cx : Context) (u : Uuid) : AppEvent → List AppEvent → Bool
  | .answered i k (.ok _) _, earlier =>
      let outdated := (earlier.dropWhile fun e ↦ !readsAccount i u e).dropWhile
        fun e ↦ !changesPassword u e
      earlier.all fun got ↦ !obtains cx u k got ||
        outdated.all fun check ↦ !(checksCredential check && decide (check.tid = got.tid))
  | _, _ => true

section

variable {cx : Context} {s : Server} {c : AppConfig} {u : Uuid}

/-- A finished sign-in got its token version from an account read of its own. -/
theorem Reached.finisher_read (hc : Reached cx s c) {later earlier : List AppEvent} {i : ℕ}
    {k : Request} {response : Response} {b : Server} {token : Claims}
    (hhist : c.world.history = later ++ .answered i k (.ok response) b :: earlier)
    (htoken : finishedWith k response = some token) :
    ∃ read ∈ earlier, readsAccount i token.sub read = true ∧
      userIs token.sub (fun row ↦ row.tokenVersion = token.tv) read.store := by
  unfold finishedWith at htoken
  split at htoken
  next pendingToken code response =>
    obtain rfl := Option.some.inj htoken
    exact Along.of_append (hhist ▸ hc.along fun k _ ↦ handles_finishesFromRead cx k)
  next id secret status response =>
    obtain rfl := Option.some.inj htoken
    have hstep : QrSteps cx (.answered i (.qrPoll id secret)
        (.ok (.qrPolled ⟨status, some response⟩)) b) earlier :=
      Along.of_append (hhist ▸ hc.along (P := QrSteps cx) fun k _ ↦ handles_qrSteps k)
    obtain ⟨newer, bc, older, r, rfl, -, -, -, br, row, hread, hrow, -, -, htv, -⟩ := hstep
    exact ⟨_, List.mem_append_left _ hread, by simp [readsAccount], row, hrow, htv⟩
  next => cases htoken

/-- A token made from a row that was read before a password change is refused ever after. -/
theorem Reached.refused_of_read_before (hc : Reached cx s c) {newer older : List AppEvent}
    {change read : AppEvent} {token : Claims} (hhist : c.world.history = newer ++ change :: older)
    (hchange : changesPassword token.sub change = true) (hread : read ∈ older)
    (hrow : userIs token.sub (fun row ↦ row.tokenVersion = token.tv) read.store) :
    accepts cx token c.world.store = false := by
  obtain ⟨row, hget, htv⟩ := hrow
  obtain ⟨c₁, c₂, rfl⟩ := List.append_of_mem hread
  obtain ⟨d, hd, hworld⟩ := hc.past hhist
  have hversion : userIs token.sub (fun row ↦ token.tv ≤ row.tokenVersion) change.store := by
    have := Reachable.live_of_lasting (userIs token.sub fun row ↦ token.tv ≤ row.tokenVersion)
      (fun _ _ ↦ Iff.rfl) hd
      (userIs_exec fun _ _ _ q h ↦ h.trans (UsersSql.tokenVersion_le_onRow _ _ _ q))
      (by rw [hworld]) ⟨row, hget, htv.ge⟩
    rwa [hworld] at this
  apply not_accepts_of_outdates
  refine hc.live_of_made (userIs token.sub (User.outdates token.tv)) (fun _ _ ↦ Iff.rfl)
    (userIs_exec fun _ _ _ q h ↦ outdates_onRow _ _ _ _ q h) hhist ?_
  unfold changesPassword at hchange
  split at hchange
  next id hash b =>
    obtain rfl : id = token.sub := of_decide_eq_true hchange
    exact outdates_setPasswordHash hversion
  next => cases hchange

theorem half_finished_revoked (hc : Reached cx s c)
    (htime : Along (fun e earlier ↦ finishesInTime cx u e earlier = true) c.world.history) :
    HalfFinishedRevoked cx u c.world := by
  intro later i k response b between change before token hhist hchange htoken hsub got hgot
    hobtains check hcheck hchecks htid
  subst hsub
  obtain ⟨own, hown, hreads, row, hrow, htv⟩ := hc.finisher_read hhist htoken
  have hother : own ≠ change := by
    rintro rfl
    unfold readsAccount at hreads
    split at hreads
    · cases hchange
    · cases hreads
  rcases List.mem_append.mp hown with hnew | hold
  · -- the account was read after the change, which the condition forbids
    exfalso
    obtain ⟨b₁, b₂, rfl⟩ := List.append_of_mem hnew
    have hcond : finishesInTime cx token.sub (.answered i k (.ok response) b)
        ((b₁ ++ own :: b₂) ++ change :: before) = true := Along.of_append (hhist ▸ htime)
    obtain ⟨a, ha⟩ := suffix_dropWhile hreads b₁ (b₂ ++ change :: before)
    have hsuffix₂ := suffix_dropWhile hchange (a ++ own :: b₂) before
    have hmem : check ∈ (((b₁ ++ own :: b₂) ++ change :: before).dropWhile
        fun e ↦ !readsAccount i token.sub e).dropWhile fun e ↦ !changesPassword token.sub e := by
      have heq : (b₁ ++ own :: b₂) ++ change :: before = b₁ ++ own :: (b₂ ++ change :: before) := by
        simp
      have hlast : change :: before <:+ (a ++ own :: (b₂ ++ change :: before)).dropWhile
          fun e ↦ !changesPassword token.sub e := by simpa using hsuffix₂
      rw [heq, ← ha]
      exact hlast.subset (List.mem_cons_of_mem _ hcheck)
    have hall := List.all_eq_true.mp hcond got hgot
    simp only [hobtains, Bool.not_true, Bool.false_or, List.all_eq_true] at hall
    simpa [hchecks, htid] using hall check hmem
  · -- the account was read before the change, so the token has an older version
    have hold := (List.mem_cons.mp hold).resolve_left hother
    have hhist₂ : c.world.history = (later ++ .answered i k (.ok response) b :: between) ++
        change :: before := by simp [hhist]
    exact hc.refused_of_read_before hhist₂ hchange hold ⟨row, hrow, htv⟩

end

/-! ## A pending sign-in that survives the change -/

def Request.changesOrSignsIn : Request → Bool
  | .login .. | .twoFactorVerify .. | .changePassword .. | .resetPassword .. => true
  | .qrCreate .. | .qrScan .. | .qrApprove .. | .qrReject .. | .qrPoll .. => true
  | _ => false

namespace PendingSample

open Sample

/-- Ada has two-factor on. -/
def start : Server := server (.single { account 1 "ada@example.com" .user with
  totpSecret := some "SECRET100000", totpEnabled := true })

def pendingToken : String := Context.sample.randomToken 0

/-- The password is given, and the second factor is still missing. -/
def halfway : List (Action Request ℕ) := alone 0 (.login "ada@example.com" "correct-horse") 6

def changed (i : ℕ) : List (Action Request ℕ) :=
  alone i (.changePassword (bearer 1 .user) "correct-horse" "battery-staple") 7

def finished (i : ℕ) : List (Action Request ℕ) := alone i (.twoFactorVerify pendingToken "100000") 5

/-- The last answer is a token, earned with a credential that was changed before. -/
def finishesLate (c : AppConfig) : Bool :=
  match c.world.history with
  | .answered _ k (.ok response) _ :: earlier =>
      (finishedWith k response).any fun token ↦
        decide (token.sub = 1) && accepts .sample token c.world.store &&
          match earlier.dropWhile fun e ↦ !changesPassword 1 e with
          | change :: before => changesPassword 1 change && earlier.any fun got ↦
              obtains .sample 1 k got && before.any fun check ↦
                checksCredential check && decide (check.tid = got.tid)
          | [] => false
  | _ => false

/-- The second factor is given before the change, and answered after it; then Ada signs in with
her new password. -/
def renewed : List (Action Request ℕ) :=
  halfway ++ .start (.twoFactorVerify pendingToken "100000") :: List.replicate 5 (.run 1) ++
    changed 2 ++ .answer 1 :: alone 3 (.login "ada@example.com" "battery-staple") 6 ++
      alone 4 (.twoFactorVerify (Context.sample.randomToken 2) "100000") 5

/-- A sign-in is finished with a token that is accepted in this state, or is not. -/
def signsIn (s : Server) (accepted : Bool) : AppEvent → Bool
  | .answered _ k (.ok response) _ => (finishedWith k response).any fun token ↦
      decide (token.sub = 1) && decide (accepts .sample token s = accepted)
  | _ => false

end PendingSample

/-- After the change one sign-in ends with a token that is refused and one with a token that is
accepted. -/
theorem half_finished_revoked_afterwards :
    ∃ c later change before, Reached .sample PendingSample.start c ∧
      c.world.history = later ++ change :: before ∧ changesPassword 1 change = true ∧
        (∃ e ∈ later, PendingSample.signsIn c.world.store false e = true) ∧
        (∃ e ∈ later, PendingSample.signsIn c.world.store true e = true) ∧
        HalfFinishedRevoked .sample 1 c.world := by
  let unchanged (e : AppEvent) : Bool := !changesPassword 1 e
  let test : AppConfig → Bool := fun c ↦ (c.world.history.dropWhile unchanged).length ≠ 0 &&
    (c.world.history.takeWhile unchanged).any (PendingSample.signsIn c.world.store false) &&
    (c.world.history.takeWhile unchanged).any (PendingSample.signsIn c.world.store true) &&
    decide (Along (fun e earlier ↦ finishesInTime .sample 1 e earlier = true) c.world.history)
  obtain ⟨c, hc, htest⟩ : ∃ c, Reached .sample PendingSample.start c ∧ test c = true :=
    Reachable.of_schedule PendingSample.renewed test (by decide) (by decide)
  simp only [test, Bool.and_eq_true, List.any_eq_true, decide_eq_true_eq] at htest
  obtain ⟨⟨⟨hlength, hrefused⟩, haccepted⟩, htime⟩ := htest
  obtain ⟨change, before, hdrop⟩ := List.exists_cons_of_length_pos (Nat.pos_of_ne_zero hlength)
  have hchange : unchanged change = false := by
    simpa [hdrop] using List.head_dropWhile_not unchanged (l := c.world.history) (by simp [hdrop])
  refine ⟨c, _, change, before, hc, ?_, by simpa [unchanged] using hchange, hrefused, haccepted,
    half_finished_revoked hc htime⟩
  rw [← hdrop, List.takeWhile_append_dropWhile]

/-- A pending token earned with the old password signs in after the change. -/
theorem pending_token_outlives_change :
    ¬∀ (cx : Context) (s : Server) (c : AppConfig) (u : Uuid),
      Reachable (machine cx) (handle cx) (fun k ↦ k.changesOrSignsIn = true) s c →
        HalfFinishedRevoked cx u c.world := by
  intro h
  obtain ⟨c, hc, htest⟩ : ∃ c, Reachable (machine .sample) (handle .sample)
      (fun k ↦ k.changesOrSignsIn = true) PendingSample.start c ∧
        PendingSample.finishesLate c = true :=
    Reachable.of_schedule (PendingSample.halfway ++ PendingSample.changed 1 ++
      PendingSample.finished 2) PendingSample.finishesLate (by decide) (by decide)
  unfold PendingSample.finishesLate at htest
  split at htest
  next i k response b earlier hhist =>
    obtain ⟨token, htoken, hboth⟩ := (Option.any_eq_true ..).mp htest
    split at hboth
    next change before hdrop =>
      simp only [Bool.and_eq_true, decide_eq_true_eq, List.any_eq_true] at hboth
      obtain ⟨⟨hsub, haccepts⟩, hchange, got, hgot, hobtains, check, hcheck, hchecks, htid⟩ := hboth
      have hsplit : earlier = (earlier.takeWhile fun e ↦ !changesPassword 1 e) ++
          change :: before := by
        rw [← hdrop, List.takeWhile_append_dropWhile]
      have hrefused := h .sample _ c 1 hc [] i k response b _ change before token
        (by rw [hhist, ← hsplit]; rfl) hchange htoken hsub got (hsplit ▸ hgot) hobtains check hcheck
        hchecks htid
      simp [haccepts] at hrefused
    next => simp at hboth
  next => cases htest

end ApiStarter
