import ApiStarter.HalfFinished

/-!
# Password changes that meet

Changing a password reads the account, checks the current password against the
hash it found, and writes the new one several statements later.  The write names
the account only.  The change is one of the password it checked exactly when the
account still has the token version that was read with it.
-/

namespace ApiStarter

open Interleave Interleave.Prog Relational

/-- A change of the account's password that takes effect replaces the password it was allowed
by: the current password given is still the account's, and none was set since it was checked.
Between the check and the write lies one more read of the account. -/
def ChangesCurrent (cx : Context) (u : Uuid) (W : AppWorld) : Prop :=
  ∀ later i caller current new hash b between read older,
    W.history = later ++ .ran i (.changePassword caller current new)
      (.sql (.users (.setPasswordHash u hash))) b :: (between ++ read :: older) →
        readsAccount i u read = true → between.countP (readsAccount i u) = 1 →
          userIs u (fun row ↦ row.isLive = true) b →
            userIs u (fun row ↦ cx.verifyPassword current row.passwordHash = true) b ∧
              ∀ x ∈ between, changesPassword u x = false

/-- Where a password change writes, the account has the token version it was found with when
its password was checked. -/
def writesChecked (u : Uuid) : AppEvent → List AppEvent → Bool
  | .ran i (.changePassword ..) (.sql (.users (.setPasswordHash id _))) b, earlier =>
      !decide (id = u) || (b.db.users.find? (liveId u)).all fun row ↦
        (earlier.filter (readsAccount i u))[1]?.any fun read ↦
          (read.store.db.users.get? u).any fun checked ↦
            decide (checked.tokenVersion = row.tokenVersion)
  | _, _ => true

/-! ## One request -/

/-- The password of `id` was checked, the account read once more, and the new password hashed. -/
def CheckedBefore (cx : Context) (i : ℕ) (k : Request) (id : Uuid) (current : String)
    (own : List AppEvent) : Prop :=
  ∃ s₁ s₂ s₃ first, own = .ran i k .draw s₃ :: .ran i k (.sql (.users (.findById id))) s₂ ::
    .ran i k (.sql (.users (.findById id))) s₁ :: first ∧
      userIs id (fun row ↦ cx.verifyPassword current row.passwordHash = true) s₁

/-- A password change writes after its check. -/
def ChangesAfterCheck (cx : Context) : AppEvent → List AppEvent → Prop
  | .ran i (.changePassword caller current new) (.sql (.users (.setPasswordHash id _))) _, own =>
      CheckedBefore cx i (.changePassword caller current new) id current own
  | _, _ => True

section Walk

variable {cx : Context} {i : ℕ} {k : Request} {own : List AppEvent} {s : Server} {q : Statement}

theorem changesAfterCheck_of_effect (hq : q.effect ≠ .setPassword) :
    ChangesAfterCheck cx (.ran i k q s) own := by
  unfold ChangesAfterCheck
  split
  next heq =>
    cases heq
    exact absurd rfl hq
  next => trivial

variable {caller : Presented} {current new : String} {Q : Unit → List AppEvent → Prop}
  {E : AppError → List AppEvent → Prop} (hQ : ∀ own', Q () own') (hE : ∀ e own', E e own')
include hQ hE

theorem traced_setPassword {u : User} (hu : userIs u.id (fun row ↦
      cx.verifyPassword current row.passwordHash = true) s) :
    Traced (machine cx) (ChangesAfterCheck cx) i (.changePassword caller current new)
      (UsersService.setPassword cx u.id new) Q E
        (.ran i (.changePassword caller current new)
          (.sql (.users (.findById u.id))) s :: own) := by
  have hquiet : ∀ q : Statement, q.effect = .none → ∀ s own, ChangesAfterCheck cx
      (.ran i (.changePassword caller current new) q s) own := fun q hq s own ↦
    changesAfterCheck_of_effect (by simp [hq])
  refine traced_bind.mpr (traced_bind.mpr (traced_sql (fun s₂ ↦ hquiet _ rfl s₂ _)
    (fun s₂ found _ ↦ ?_) (fun _ _ ↦ hE _ _) (hE _ _)))
  refine (traced_okOr ..).mpr ⟨fun account _ ↦ traced_bind.mpr ?_, fun _ ↦ hE _ _⟩
  have hwrite : Traced (machine cx) (ChangesAfterCheck cx) i (.changePassword caller current new)
      (do let hash ← hashBlocking cx new; sql (.users (.setPasswordHash u.id hash))) Q E
        (.ran i (.changePassword caller current new) (.sql (.users (.findById u.id))) s₂ ::
          .ran i (.changePassword caller current new)
            (.sql (.users (.findById u.id))) s :: own) := by
    refine traced_bind.mpr (traced_bind.mpr ((traced_ask _).mpr
      ⟨fun s₃ ↦ ⟨changesAfterCheck_of_effect (by simp), ?_⟩, by rintro _ ⟨⟩⟩))
    refine (traced_okOr ..).mpr ⟨fun hash _ ↦ ?_, fun _ ↦ hE _ _⟩
    exact traced_sql (fun _ ↦ ⟨s, s₂, s₃, own, rfl, hu⟩) (fun _ _ _ ↦ hQ _) (fun _ _ ↦ hE _ _)
      (hE _ _)
  unfold UsersService.rejectPasswordIfPolicyViolation
  split
  · exact hE _ _
  · exact (traced_ensure ..).mpr ⟨fun _ ↦ hwrite, fun _ ↦ hE _ _⟩

end Walk

theorem traces_changesAfterCheck (cx : Context) (k : Request) :
    Traces (machine cx) (ChangesAfterCheck cx) k (handle cx) := by
  cases k with
  | changePassword caller current new =>
      intro i
      have hE : ∀ (e : AppError) own, Delivers (ChangesAfterCheck cx) i
          (.changePassword caller current new) (.error e) own := fun _ _ _ ↦ trivial
      have hquiet : ∀ q : Statement, q.effect = .none → ∀ s own, ChangesAfterCheck cx
          (.ran i (.changePassword caller current new) q s) own := fun q hq s own ↦
        changesAfterCheck_of_effect (by simp [hq])
      refine traced_bind.mpr (traced_of_quiet (only_sessionUser (fun _ hq ↦ hq) _ _)
        (returns_true _) hquiet (fun actor own _ _ ↦ ?_) fun e own _ ↦ hE e own)
      refine traced_bind.mpr (traced_bind.mpr (traced_bind.mpr (traced_sql
        (fun s ↦ hquiet _ rfl s _) (fun s found hfound ↦ ?_) (fun _ _ ↦ hE _ _) (hE _ _))))
      refine (traced_okOr ..).mpr ⟨fun user huser ↦ ?_, fun _ ↦ hE _ _⟩
      obtain ⟨hget, hid, -⟩ := find?_liveId_eq_some ((Option.some.inj hfound).trans huser)
      refine traced_bind.mpr ((traced_ensure ..).mpr ⟨fun hverified ↦ ?_, fun _ ↦ hE _ _⟩)
      rw [← hid] at hget ⊢
      refine traced_bind.mpr (traced_setPassword (fun _ ↦ ?_) hE ⟨user, hget, hverified⟩)
      exact (traced_ask _).mpr ⟨fun s ↦ ⟨changesAfterCheck_of_effect (by simp), fun _ ↦ trivial⟩,
        by rintro _ ⟨⟩⟩
  | _ =>
      exact .of_only (S := fun _ ↦ True) (only_true _) (fun _ _ _ _ _ ↦ trivial)
        fun _ a _ _ ↦ by cases a <;> trivial

/-! ## One account -/

section Account

variable {cx : Context} {u : Uuid} {tv : ℕ} {hash : String} {s : Server} {q : Statement}

theorem UsersSql.password_onRow (now : Time) (users : Table User.id) (row : User) (q : UsersSql)
    (hq : ∀ hash, q ≠ .setPasswordHash row.id hash) :
    (q.onRow now users row).passwordHash = row.passwordHash ∧
      (q.onRow now users row).tokenVersion = row.tokenVersion := by
  cases q with
  | setPasswordHash id hash =>
      have hid : row.id ≠ id := by
        rintro rfl
        exact hq hash rfl
      simp [onRow, liveId, hid]
  | _ =>
      simp only [onRow]
      repeat' split
      all_goals simp [UserPatch.apply, User.markDeleted, User.withFailedLogin]

/-- The account has the password hash `hash` and the token version `tv`. -/
def hasPassword (u : Uuid) (hash : String) (tv : ℕ) (s : Server) : Prop :=
  userIs u (fun row ↦ row.passwordHash = hash ∧ row.tokenVersion = tv) s

/-- Only a password change changes the password. -/
theorem hasPassword_exec (i : ℕ) (k : Request) (hq : changesPassword u (.ran i k q s) = false)
    (h : hasPassword u hash tv s) : hasPassword u hash tv ((machine cx).exec q s).2 := by
  obtain ⟨row, hrow, hsame⟩ := h
  cases q with
  | sql q =>
      cases q with
      | users q =>
          have hother : ∀ hash, q ≠ .setPasswordHash row.id hash := by
            rintro hash rfl
            simp [changesPassword, Table.key_of_get? hrow] at hq
          obtain ⟨hhash, htv⟩ := UsersSql.password_onRow s.now s.db.users row q hother
          exact ⟨_, UsersSql.get?_run hrow q, hhash.trans hsame.1, htv.trans hsame.2⟩
      | _ => exact ⟨row, hrow, hsame⟩
  | _ => exact ⟨row, hrow, hsame⟩

end Account

/-! ## All runs -/

section Runs

variable {cx : Context} {s : Server} {c : AppConfig} {u : Uuid}
  {later between older : List AppEvent}
  {read : AppEvent} {b : Server} {hash : String} {tv : ℕ} {i : ℕ} {caller : Presented}
  {current new : String}

/-- The password read is the account's until somebody changes it. -/
theorem Reached.hasPassword_of_unchanged (hc : Reached cx s c)
    (hhist : c.world.history = between ++ read :: older) (hread : hasPassword u hash tv read.store)
    (hquiet : readsAccount i u read = true) (hsame : ∀ x ∈ between, changesPassword u x = false) :
    hasPassword u hash tv c.world.store := by
  refine hc.live_of_kept (hasPassword u hash tv) (fun _ _ ↦ Iff.rfl) hhist hread ?_
  intro x hx hlive hend
  have hunchanged : changesPassword u x = false := by
    rcases List.mem_cons.mp hx with rfl | hx
    · unfold readsAccount at hquiet
      split at hquiet
      · rfl
      · cases hquiet
    · exact hsame x hx
  cases x with
  | ran i k q b => exact hend (hasPassword_exec i k hunchanged hlive)
  | answered => exact hend

/-- The version read is outdated once somebody changed the password. -/
theorem Reached.outdated_of_changed (hc : Reached cx s c)
    (hhist : c.world.history = between ++ read :: older) (hread : hasPassword u hash tv read.store)
    {x : AppEvent} (hx : x ∈ between) (hchanges : changesPassword u x = true) :
    userIs u (User.outdates tv) c.world.store := by
  obtain ⟨newer, mid, rfl⟩ := List.append_of_mem hx
  have hsplit : c.world.history = newer ++ x :: (mid ++ read :: older) := by simp [hhist]
  obtain ⟨d, hd, hworld⟩ := hc.past hsplit
  have hversion : userIs u (fun row ↦ tv ≤ row.tokenVersion) d.world.store := by
    refine hd.live_of_lasting (userIs u fun row ↦ tv ≤ row.tokenVersion) (fun _ _ ↦ Iff.rfl)
      (userIs_exec fun _ _ _ q h ↦ h.trans (UsersSql.tokenVersion_le_onRow _ _ _ q))
      (by rw [hworld]) ?_
    obtain ⟨row, hrow, -, htv⟩ := hread
    exact ⟨row, hrow, htv.ge⟩
  refine hc.live_of_made (userIs u (User.outdates tv)) (fun _ _ ↦ Iff.rfl)
    (userIs_exec fun _ _ _ q h ↦ outdates_onRow _ _ _ _ q h) hsplit ?_
  unfold changesPassword at hchanges
  split at hchanges
  next id newHash before =>
    obtain rfl : id = u := of_decide_eq_true hchanges
    rw [hworld] at hversion
    exact outdates_setPasswordHash hversion
  next => cases hchanges

/-- The read that a password change was checked against. -/
theorem Reached.checked_of_changes (hc : Reached cx s c)
    (hhist : c.world.history = later ++ .ran i (.changePassword caller current new)
      (.sql (.users (.setPasswordHash u hash))) b :: older) :
    ∃ between read before, older = between ++ read :: before ∧ readsAccount i u read = true ∧
      between.countP (readsAccount i u) = 1 ∧
        userIs u (fun row ↦ cx.verifyPassword current row.passwordHash = true) read.store := by
  have hlocal : AlongOwn (ChangesAfterCheck cx) (.ran i (.changePassword caller current new)
      (.sql (.users (.setPasswordHash u hash))) b) older :=
    Along.of_append (hhist ▸ hc.traces fun k _ ↦ traces_changesAfterCheck cx k)
  obtain ⟨s₁, s₂, s₃, first, hevents, hverified⟩ := hlocal
  let read (s : Server) : AppEvent :=
    .ran i (.changePassword caller current new) (.sql (.users (.findById u))) s
  have hsplit : ownEvents i older =
      [.ran i (.changePassword caller current new) .draw s₃, read s₂] ++ read s₁ :: first := hevents
  obtain ⟨between, before, rfl, hbetween, -⟩ := exists_of_ownEvents hsplit
  refine ⟨between, _, before, rfl, by simp [read, readsAccount], ?_, hverified⟩
  have hreads : between.countP (readsAccount i u) =
      (ownEvents i between).countP (readsAccount i u) := by
    rw [ownEvents, List.countP_filter]
    refine List.countP_congr fun e _ ↦ ?_
    by_cases htid : e.tid = i
    · simp [htid]
    · simp [readsAccount_of_tid_ne htid, htid]
  rw [hreads, hbetween]
  simp [read, readsAccount]

/-- One more read lies between the check and the write. -/
theorem secondRead (older : List AppEvent) (hread : readsAccount i u read = true)
    (hone : between.countP (readsAccount i u) = 1) :
    ((between ++ read :: older).filter (readsAccount i u))[1]? = some read := by
  have hlength : (between.filter (readsAccount i u)).length = 1 := by
    rw [← List.countP_eq_length_filter, hone]
  rw [List.filter_append, List.getElem?_append_right (by omega), hlength]
  simp [hread]

theorem Reached.writesChecked_of_current (hc : Reached cx s c)
    (hcurrent : ChangesCurrent cx u c.world) :
    Along (fun e earlier ↦ writesChecked u e earlier = true) c.world.history := by
  apply Along.of_splits
  intro later e older hhist
  unfold writesChecked
  split
  next i caller current new id hash b =>
    by_cases hid : id = u
    swap
    · simp [hid]
    subst hid
    cases hlive : b.db.users.find? (liveId id) with
    | none => simp
    | some row =>
        obtain ⟨hrow, -, hrowLive⟩ := find?_liveId_eq_some hlive
        obtain ⟨between, read, before, rfl, hread, hone, was, hwas, -⟩ :=
          hc.checked_of_changes hhist
        obtain ⟨-, hsame⟩ := hcurrent _ _ _ _ _ _ _ _ _ _ hhist hread hone ⟨row, hrow, hrowLive⟩
        obtain ⟨d, hd, hworld⟩ := hc.past hhist
        obtain ⟨row', hrow', -, htv⟩ := Reached.hasPassword_of_unchanged hd
          (by rw [hworld])
          ⟨was, hwas, rfl, rfl⟩ hread hsame
        rw [hworld] at hrow'
        obtain rfl : row = row' := Option.some.inj (hrow.symm.trans hrow')
        simp only [secondRead _ hread hone]
        simp [hwas, htv]
  next => rfl

theorem Reached.current_of_writesChecked (hc : Reached cx s c)
    (hchecked : Along (fun e earlier ↦ writesChecked u e earlier = true) c.world.history) :
    ChangesCurrent cx u c.world := by
  intro later i caller current new hash b between read older hhist hread hone hlive
  obtain ⟨row, hrow, hrowLive⟩ := hlive
  have hcond : writesChecked u (.ran i (.changePassword caller current new)
      (.sql (.users (.setPasswordHash u hash))) b) (between ++ read :: older) = true :=
    Along.of_append (hhist ▸ hchecked)
  have hfind : b.db.users.find? (liveId u) = some row := by
    rw [find?_liveId, hrow]
    simp [Option.filter, hrowLive]
  obtain ⟨between', read', before, hsplit, hread', hone', was, hwas, hverified⟩ :=
    hc.checked_of_changes hhist
  obtain rfl : read = read' := by
    have hsecond := secondRead older hread hone
    rw [hsplit, secondRead _ hread' hone'] at hsecond
    exact (Option.some.inj hsecond).symm
  have htv : was.tokenVersion = row.tokenVersion := by
    simp only [writesChecked, hfind, secondRead _ hread hone] at hcond
    simpa [hwas] using hcond
  obtain ⟨d, hd, hworld⟩ := hc.past hhist
  have hsame : ∀ x ∈ between, changesPassword u x = false := by
    intro x hx
    by_contra hchanges
    obtain ⟨row', hrow', hdead⟩ := Reached.outdated_of_changed hd (by rw [hworld])
      ⟨was, hwas, rfl, rfl⟩ hx
      (Bool.not_eq_false _ ▸ hchanges)
    rw [hworld] at hrow'
    obtain rfl : row = row' := Option.some.inj (hrow.symm.trans hrow')
    rcases hdead with hdead | hlt
    · simp [hrowLive] at hdead
    · omega
  refine ⟨⟨row, hrow, ?_⟩, hsame⟩
  obtain ⟨row', hrow', hhash, -⟩ := Reached.hasPassword_of_unchanged hd
          (by rw [hworld])
    ⟨was, hwas, rfl, rfl⟩ hread hsame
  rw [hworld] at hrow'
  obtain rfl : row = row' := Option.some.inj (hrow.symm.trans hrow')
  rw [hhash]
  exact hverified

end Runs

theorem changes_current_iff {cx : Context} {s : Server} {c : AppConfig} {u : Uuid}
    (hc : Reached cx s c) : ChangesCurrent cx u c.world ↔
      Along (fun e earlier ↦ writesChecked u e earlier = true) c.world.history :=
  ⟨hc.writesChecked_of_current, hc.current_of_writesChecked⟩

/-! ## Two changes at once -/

def Request.replacesPassword : Request → Bool
  | .changePassword .. | .resetPassword .. => true
  | _ => false

namespace ChangeSample

open Sample

def start : Server := server (.single (account 1 "ada@example.com" .user))

def change (new : String) : Request := .changePassword (bearer 1 .user) "correct-horse" new

/-- Both requests check the old password before either writes. -/
def crossed : List (Action Request ℕ) :=
  .start (change "battery-staple") :: .start (change "correct-horses") ::
    List.replicate 5 (.run 0) ++
    List.replicate 5 (.run 1) ++ [.run 0, .run 1]

end ChangeSample

theorem change_current_alone : ∃ c, Reached .sample ChangeSample.start c ∧
    (∃ e ∈ c.world.history, changesPassword 1 e = true) ∧ ChangesCurrent .sample 1 c.world := by
  let test : AppConfig → Bool := fun c ↦ c.world.history.any (changesPassword 1) &&
    decide (Along (fun e earlier ↦ writesChecked 1 e earlier = true) c.world.history)
  obtain ⟨c, hc, htest⟩ : ∃ c, Reached .sample ChangeSample.start c ∧ test c = true :=
    Reachable.of_schedule (Sample.alone 0 (ChangeSample.change "battery-staple") 7) test (by decide)
      (by decide)
  simp only [test, Bool.and_eq_true, List.any_eq_true, decide_eq_true_eq] at htest
  exact ⟨c, hc, htest.1, (changes_current_iff hc).mpr htest.2⟩

/-- The second change overwrites the first, with a password that is no longer the account's. -/
theorem change_overwrites_change :
    ¬∀ (cx : Context) (s : Server) (c : AppConfig) (u : Uuid),
      Reachable (machine cx) (handle cx) (fun k ↦ k.replacesPassword = true) s c →
        ChangesCurrent cx u c.world := by
  intro h
  obtain ⟨c, hc, htest⟩ : ∃ c, Reachable (machine .sample) (handle .sample)
      (fun k ↦ k.replacesPassword = true) ChangeSample.start c ∧
        decide (¬Along (fun e earlier ↦ writesChecked 1 e earlier = true) c.world.history) = true :=
    Reachable.of_schedule ChangeSample.crossed _ (by decide) (by decide)
  have hreached : Reached .sample ChangeSample.start c := hc.mono fun _ _ ↦ trivial
  exact of_decide_eq_true htest (hreached.writesChecked_of_current (h .sample _ c 1 hc))

end ApiStarter
