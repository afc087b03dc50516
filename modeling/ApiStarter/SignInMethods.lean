import ApiStarter.Calls

/-!
# A way to sign in remains

Unlinking a provider and deleting a passkey both count the account's sign-in
methods first.  The count is of single identities, but unlinking removes every
identity of the provider at once.
-/

namespace ApiStarter

open Interleave Interleave.Prog Relational

/-- The account has a password, a linked identity or a passkey. -/
def HasSignInMethod (u : Uuid) (s : Server) : Prop :=
  ∃ n, s.db.signInMethodCount u = some n ∧ 0 < n

instance (u : Uuid) (s : Server) : Decidable (HasSignInMethod u s) :=
  decidable_of_iff ((s.db.signInMethodCount u).any (0 < ·)) (by
    simp [HasSignInMethod, Option.any_eq_true])

/-- The requests of a run do not overlap: the statements of each follow one another. -/
def DoesNotOverlap (e : AppEvent) (earlier : List AppEvent) : Prop :=
  ∀ x ∈ earlier, x.tid = e.tid → earlier.head?.map Event.tid = some e.tid

instance (e : AppEvent) (earlier : List AppEvent) : Decidable (DoesNotOverlap e earlier) :=
  inferInstanceAs
    (Decidable (∀ x ∈ earlier, x.tid = e.tid → earlier.head?.map Event.tid = some e.tid))

/-- Identities of `provider` linked to the account, all of which `unlink` removes. -/
def identitiesOf (db : Db) (u : Uuid) (provider : Provider) : ℕ :=
  db.oauthIdentities.countWhere (OAuthIdentity.isLink u provider)

/-! ## One statement -/

/-- Sign-in methods of `u` that a statement takes away. -/
def removedMethods (u : Uuid) (db : Db) : Statement → ℕ
  | .sql (.oauthIdentities (.delete id provider)) =>
      if id = u then identitiesOf db u provider else 0
  | .sql (.passkeys (.delete id _)) => if id = u then 1 else 0
  | _ => 0

theorem linkedIdentities_delete (db : Db) (u id : Uuid) (provider : Provider) :
    db.linkedIdentities u ≤
      (db.oauthIdentities.deleteWhere (OAuthIdentity.isLink id provider)).countWhere
        (fun i ↦ decide (i.userId = u)) + if id = u then identitiesOf db u provider else 0 := by
  have h := db.oauthIdentities.countWhere_deleteWhere_add (fun i ↦ decide (i.userId = u))
    (OAuthIdentity.isLink id provider)
  by_cases hid : id = u
  · subst hid
    have hboth : (fun i : OAuthIdentity ↦ decide (i.userId = id) && i.isLink id provider) =
        OAuthIdentity.isLink id provider := by
      funext i
      simp only [OAuthIdentity.isLink]
      cases decide (i.userId = id) <;> rfl
    rw [hboth] at h
    simp only [Db.linkedIdentities, identitiesOf, if_pos]
    omega
  · have hnone : (fun i : OAuthIdentity ↦ decide (i.userId = u) && i.isLink id provider) =
        fun _ ↦ false := by
      funext i
      simp only [OAuthIdentity.isLink, Bool.and_eq_false_iff, decide_eq_false_iff_not]
      by_cases hu : i.userId = u
      · exact .inr (.inl fun h ↦ hid (h ▸ hu))
      · exact .inl hu
    rw [hnone] at h
    simp only [Db.linkedIdentities, if_neg hid]
    have hzero : db.oauthIdentities.countWhere (fun _ ↦ false) = 0 :=
      Table.countWhere_eq_zero.mpr fun _ _ ↦ rfl
    omega

/-- A deletion takes the passkey away from the account that has it. -/
theorem registeredPasskeys_deleteWhere (db : Db) (u id passkey : Uuid) :
    (db.passkeys.deleteWhere fun p ↦ decide (p.id = passkey) && decide (p.userId = id)).countWhere
        (fun p ↦ decide (p.userId = u)) +
      (if (db.passkeys.get? passkey).any (fun p ↦ decide (p.userId = u) && decide (p.userId = id))
        then 1 else 0) = db.registeredPasskeys u := by
  have h := db.passkeys.countWhere_deleteWhere_add (fun p ↦ decide (p.userId = u))
    (fun p ↦ decide (p.id = passkey) && decide (p.userId = id))
  have hone := db.passkeys.countWhere_key passkey
    (fun p ↦ decide (p.userId = u) && decide (p.userId = id))
  have hcomm : (fun p : PasskeyRow ↦ decide (p.userId = u) &&
      (decide (p.id = passkey) && decide (p.userId = id))) =
        fun p ↦ decide (p.id = passkey) && (decide (p.userId = u) && decide (p.userId = id)) := by
    funext p
    rw [Bool.and_left_comm]
  rwa [hcomm, hone] at h

theorem registeredPasskeys_delete (db : Db) (u id passkey : Uuid) :
    db.registeredPasskeys u ≤
      (db.passkeys.deleteWhere fun p ↦ decide (p.id = passkey) && decide (p.userId = id)).countWhere
        (fun p ↦ decide (p.userId = u)) + if id = u then 1 else 0 := by
  have h := registeredPasskeys_deleteWhere db u id passkey
  by_cases hid : id = u
  · rw [if_pos hid]
    split at h <;> omega
  · rw [if_neg hid]
    have hnone : (db.passkeys.get? passkey).any
        (fun p ↦ decide (p.userId = u) && decide (p.userId = id)) = false := by
      cases db.passkeys.get? passkey with
      | none => rfl
      | some p =>
          have hne : ¬(p.userId = u ∧ p.userId = id) := fun h ↦ hid (h.2.symm.trans h.1)
          simpa using hne
    rw [hnone, if_neg Bool.false_ne_true] at h
    omega

theorem passwordMethods_onRow (now : Time) (users : Table User.id) (row : User) (q : UsersSql) :
    row.passwordMethods ≤ (q.onRow now users row).passwordMethods := by
  cases q with
  | setPasswordHash id hash =>
      simp only [UsersSql.onRow, User.passwordMethods]
      split <;> split <;> simp_all
  | _ =>
      simp only [UsersSql.onRow]
      repeat' split
      all_goals exact le_rfl

theorem linkedIdentities_exec (cx : Context) (u : Uuid) (s : Server) (q : OAuthIdentitySql) :
    s.db.linkedIdentities u ≤
      ((machine cx).exec (.sql (.oauthIdentities q)) s).2.db.linkedIdentities u +
        removedMethods u s.db (.sql (.oauthIdentities q)) := by
  cases q with
  | insert id provider subject email =>
      simp only [exec_sql, Sql.run, OAuthIdentitySql.run, Db.linkedIdentities, removedMethods]
      split
      · exact le_rfl
      · next hinsert => exact Table.countWhere_insert?_le hinsert _
  | delete id provider => exact linkedIdentities_delete s.db u id provider
  | _ => exact le_rfl

theorem registeredPasskeys_exec (cx : Context) (u : Uuid) (s : Server) (q : PasskeySql) :
    s.db.registeredPasskeys u ≤
      ((machine cx).exec (.sql (.passkeys q)) s).2.db.registeredPasskeys u +
        removedMethods u s.db (.sql (.passkeys q)) := by
  cases q with
  | insert id userId name credentialId json =>
      simp only [exec_sql, Sql.run, PasskeySql.run, Db.registeredPasskeys, removedMethods]
      split
      · exact le_rfl
      · split
        · exact le_rfl
        · next hinsert => exact Table.countWhere_insert?_le hinsert _
  | updateAfterUse id json =>
      simp only [exec_sql, Sql.run, PasskeySql.run, Db.registeredPasskeys, removedMethods]
      exact (Table.countWhere_updateWhere (by intro; rfl)).ge
  | delete id passkey => exact registeredPasskeys_delete s.db u id passkey
  | _ => exact le_rfl

/-- A statement takes away what it removes and nothing more. -/
theorem signInMethodCount_exec (cx : Context) {u : Uuid} {s : Server} {n : ℕ} (q : Statement)
    (hn : s.db.signInMethodCount u = some n) :
    ∃ n', ((machine cx).exec q s).2.db.signInMethodCount u = some n' ∧
      n ≤ n' + removedMethods u s.db q := by
  obtain ⟨row, hrow, rfl⟩ := Option.map_eq_some_iff.mp hn
  cases q with
  | sql q =>
      cases q with
      | users q =>
          refine ⟨(q.onRow s.now s.db.users row).passwordMethods + s.db.linkedIdentities u +
            s.db.registeredPasskeys u, ?_, ?_⟩
          · simp only [exec_sql, Sql.run, Db.signInMethodCount, UsersSql.get?_run hrow q,
              Option.map_some]
            rfl
          · have := passwordMethods_onRow s.now s.db.users row q
            simp only [removedMethods]
            omega
      | oauthIdentities q =>
          refine ⟨_, Option.map_eq_some_iff.mpr ⟨row, hrow, rfl⟩, ?_⟩
          have := linkedIdentities_exec cx u s q
          simp only [exec_sql, Sql.run, Db.registeredPasskeys] at this ⊢
          omega
      | passkeys q =>
          refine ⟨_, Option.map_eq_some_iff.mpr ⟨row, hrow, rfl⟩, ?_⟩
          have := registeredPasskeys_exec cx u s q
          simp only [exec_sql, Sql.run, Db.linkedIdentities] at this ⊢
          omega
      | _ => exact ⟨_, hn, Nat.le_add_right ..⟩
  | _ => exact ⟨_, hn, Nat.le_add_right ..⟩

/-! ## One removal -/

/-- Thread `i` counted at least two methods of `u` and has run nothing since. -/
def CountedMethods (i : ℕ) (u : Uuid) (earlier : List AppEvent) : Prop :=
  ∃ newer k b older n, earlier = newer ++ .ran i k (.sql (.signInMethodCount u)) b :: older ∧
    b.db.signInMethodCount u = some n ∧ 2 ≤ n ∧ ∀ e ∈ newer, e.tid ≠ i

/-- Both removals follow a count of at least two. -/
def RemovesAfterCounting : AppEvent → List AppEvent → Prop
  | .ran i _ (.sql (.oauthIdentities (.delete u _))) _, earlier => CountedMethods i u earlier
  | .ran i _ (.sql (.passkeys (.delete u _))) _, earlier => CountedMethods i u earlier
  | _, _ => True

section

variable {cx : Context}

theorem removesAfterCounting_of_effect {q : Statement} (hi : q.effect ≠ .deleteIdentity)
    (hp : q.effect ≠ .deletePasskey) (i : ℕ) (k : Request) (b : Server) (h : List AppEvent) :
    RemovesAfterCounting (.ran i k q b) h := by
  unfold RemovesAfterCounting
  split
  next heq =>
    cases heq
    exact absurd rfl hi
  next heq =>
    cases heq
    exact absurd rfl hp
  next => trivial

theorem quiet_removesAfterCounting : Quiet cx (.along RemovesAfterCounting) :=
  quiet_along fun q hq i k b h ↦ removesAfterCounting_of_effect (by simp [hq])
    (by simp [hq]) i k b h

/-- What `unlink` and `delete` share: count, refuse below two, remove. -/
theorem wp_removal {i : ℕ} {k : Request} {u : Uuid} {e : AppError} {q : Sql} {W : AppWorld}
    {Q : Unit → AppWorld → Prop} {E : AppError → AppWorld → Prop}
    (hE : ∀ e W, (Discipline.along RemovesAfterCounting).Inv W → E e W)
    (hq : ∀ b earlier, CountedMethods i u earlier →
      RemovesAfterCounting (.ran i k (.sql q) b) earlier)
    (hQ : ∀ W, (Discipline.along RemovesAfterCounting).Inv W → Q () W) :
    wp (machine cx) (.along RemovesAfterCounting) i k (do
      let count ← sql (.signInMethodCount u)
      ensure (¬count < 2) e
      let _ ← sql q
      pure ()) Q E W := by
  refine wp_bind.mpr (wp_read hE quiet_removesAfterCounting rfl fun W₁ n _ hn hInv ↦ ?_)
  refine wp_bind.mpr (wp_check hE hInv fun htwo ↦ ?_)
  refine wp_bind.mpr (wp_sql hE (fun W₂ h₂ ↦ ?_) fun W₂ _ _ _ hInv ↦ hQ _ hInv)
  obtain ⟨newer, hnewer, hother⟩ := h₂.others
  refine Discipline.keeps_along_ran.mpr ⟨hq _ _ ⟨newer, k, W₁.store, W₁.history, n, hnewer, hn,
    Nat.le_of_not_lt htwo, hother⟩, h₂.inv⟩

theorem handles_removesAfterCounting (k : Request) :
    Handles (machine cx) (.along RemovesAfterCounting) k (handle cx) := by
  have answers : ∀ (a : Except AppError Response) (i : ℕ) (W : AppWorld),
      (Discipline.along RemovesAfterCounting).Inv W →
        Answers (Discipline.along RemovesAfterCounting) i k a W := fun a i W _ W' hW' ↦
    Discipline.keeps_along_answered.mpr ⟨trivial, hW'.inv⟩
  by_cases hk : Effect.deleteIdentity ∈ k.effects ∨ Effect.deletePasskey ∈ k.effects
  · cases k with
    | oauthUnlink caller provider =>
        intro i W hW _
        refine wp_bind.mpr (wp_sessionUser quiet_removesAfterCounting (fun e W ↦ answers _ i W) hW
          fun claims W₁ _ _ _ _ _ _ ↦ wp_bind.mpr (wp_bind.mpr ?_))
        refine wp_read (fun e W ↦ answers _ i W) quiet_removesAfterCounting rfl
          fun W₂ identities _ _ hInv ↦ ?_
        refine wp_bind.mpr (wp_check (fun e W ↦ answers _ i W) hInv fun _ ↦ ?_)
        exact wp_removal (fun e W ↦ answers _ i W) (fun _ _ h ↦ h) fun W hW ↦ answers _ i W hW
    | passkeyDelete caller id =>
        intro i W hW _
        refine wp_bind.mpr (wp_sessionUser quiet_removesAfterCounting (fun e W ↦ answers _ i W) hW
          fun claims W₁ _ _ _ _ _ _ ↦ wp_bind.mpr (wp_bind.mpr ?_))
        refine wp_read (fun e W ↦ answers _ i W) quiet_removesAfterCounting rfl
          fun W₂ passkeys _ _ hInv ↦ ?_
        refine wp_bind.mpr (wp_check (fun e W ↦ answers _ i W) hInv fun _ ↦ ?_)
        exact wp_removal (fun e W ↦ answers _ i W) (fun _ _ h ↦ h) fun W hW ↦ answers _ i W hW
    | _ => simp at hk
  · simp only [not_or] at hk
    refine .along_of_only (S := fun q ↦ q.effect ≠ .deleteIdentity ∧ q.effect ≠ .deletePasskey)
      (handle_only k fun q hq ↦ ⟨fun h ↦ hk.1 ?_, fun h ↦ hk.2 ?_⟩)
      (fun q hq i b h ↦ removesAfterCounting_of_effect hq.1 hq.2 i k b h) fun _ _ _ _ ↦ trivial
    · simpa [h] using hq
    · simpa [h] using hq

end

/-! ## All runs -/

/-- When identities of a provider are unlinked, the account had at most one of them or some
other way to sign in. -/
def unlinksOneOfMany : AppEvent → Bool
  | .ran _ _ (.sql (.oauthIdentities (.delete u provider))) before =>
      decide (identitiesOf before.db u provider ≤ 1) ||
        (before.db.signInMethodCount u).any fun n ↦ decide (identitiesOf before.db u provider < n)
  | _ => true

/-- Where requests do not overlap, the count is still right when the removal runs. -/
theorem CountedMethods.now {cx : Context} {s : Server} {c : AppConfig} (hc : Reached cx s c)
    {i : ℕ} {u : Uuid} (hcount : CountedMethods i u c.world.history)
    (halone : ∀ x ∈ c.world.history, x.tid = i → c.world.history.head?.map Event.tid = some i) :
    ∃ n, c.world.store.db.signInMethodCount u = some n ∧ 2 ≤ n := by
  obtain ⟨newer, k, b, older, n, hhist, hn, htwo, hother⟩ := hcount
  have hnewer : newer = [] := by
    cases newer with
    | nil => rfl
    | cons e newer =>
        have hhead := halone (.ran i k (.sql (.signInMethodCount u)) b) (by simp [hhist]) rfl
        have hi : e.tid = i := by simpa [hhist] using hhead
        exact absurd hi (hother e List.mem_cons_self)
  subst hnewer
  refine ⟨n, ?_, htwo⟩
  refine hc.live_of_kept (fun s ↦ s.db.signInMethodCount u = some n) (fun _ _ ↦ Iff.rfl) hhist hn ?_
  intro x hx hlive hend
  obtain rfl := List.mem_singleton.mp hx
  exact hend hlive

theorem sign_in_method_remains {cx : Context} {s : Server} {c : AppConfig} {u : Uuid}
    (hc : Reached cx s c) (halone : Along DoesNotOverlap c.world.history)
    (hunlink : ∀ e ∈ c.world.history, unlinksOneOfMany e = true)
    (hu : HasSignInMethod u s ∨ ∃ e ∈ c.world.history, HasSignInMethod u e.store) :
    HasSignInMethod u c.world.store := by
  have hkept : ∀ x ∈ c.world.history, HasSignInMethod u x.store →
      ¬x.Ran (Ends (machine cx) (HasSignInMethod u)) := by
    intro x hx hlive hend
    obtain ⟨later, earlier, hhist⟩ := List.append_of_mem hx
    obtain ⟨c', hc', hworld⟩ := hc.past hhist
    have hlocal : RemovesAfterCounting x earlier :=
      Along.of_append (hhist ▸ hc.along fun k _ ↦ handles_removesAfterCounting k)
    have hoverlap : DoesNotOverlap x earlier := Along.of_append (hhist ▸ halone)
    have hcond := hunlink x hx
    cases x with
    | answered i k a b => exact hend
    | ran i k q b =>
        obtain ⟨n, hn, hpos⟩ := hlive
        obtain ⟨n', hn', hle⟩ := signInMethodCount_exec cx q hn
        refine hend ⟨n', hn', ?_⟩
        have counted : CountedMethods i u earlier → 2 ≤ n := by
          intro hcount
          obtain ⟨m, hm, htwo⟩ := CountedMethods.now (i := i) hc' (by simpa [hworld] using hcount)
            (by rw [hworld]; exact hoverlap)
          have heq : some m = some n := hm.symm.trans (by simpa [hworld] using hn)
          cases heq
          exact htwo
        unfold removedMethods at hle
        split at hle
        next id provider =>
          split at hle
          next hid =>
            subst hid
            have htwo := counted hlocal
            simp only [unlinksOneOfMany, Event.store_ran] at hcond hn
            simp only [hn, Option.any_some, Bool.or_eq_true, decide_eq_true_eq] at hcond
            simp only [Event.store_ran] at hle
            omega
          next => omega
        next id passkey =>
          split at hle
          next hid =>
            subst hid
            have htwo := counted hlocal
            omega
          next => omega
        next => omega
  rcases hu with hu | ⟨e, he, hu⟩
  · exact hc.live_of_start (HasSignInMethod u) (fun _ _ ↦ Iff.rfl) hu hkept
  · obtain ⟨later, earlier, hhist⟩ := List.append_of_mem he
    refine hc.live_of_kept (HasSignInMethod u) (fun _ _ ↦ Iff.rfl) hhist hu fun x hx ↦ hkept x ?_
    rw [hhist]
    simp only [List.mem_cons, List.mem_append] at hx ⊢
    tauto

/-! ## Two identities of one provider -/

def Request.managesSignInMethods : Request → Bool
  | .register .. | .oauthLogin .. | .oauthLink .. | .oauthCallback .. | .oauthUnlink ..
  | .passkeyRegisterBegin _ | .passkeyRegisterFinish .. | .passkeyDelete .. | .resetPassword ..
  | .changePassword .. => true
  | _ => false

namespace TwiceLinked

open Sample

/-- The provider redirects back with the state of draw `n` and vouches for the address. -/
def returns (n : ℕ) (subject : String) : Request :=
  .oauthCallback .google ⟨some "code", some (Context.sample.randomToken n), none⟩
    (some ⟨subject, some "ada@example.com", true, none⟩)

/-- Ada signs up through Google, links a second Google account and unlinks Google. -/
def schedule : List (Action Request ℕ) :=
  alone 0 (.oauthLogin .google none) 6 ++ alone 1 (returns 0 "first") 12 ++
    alone 2 (.oauthLink (bearer 1002 .user) .google) 8 ++ alone 3 (returns 4 "second") 4 ++
      alone 4 (.oauthUnlink (bearer 1002 .user) .google) 5

def withPassword : Server := server (.single (account 1 "ada@example.com" .user))

/-- With a password, she links one Google account and unlinks it again. -/
def once : List (Action Request ℕ) :=
  alone 0 (.oauthLink (bearer 1 .user) .google) 8 ++ alone 1 (returns 0 "first") 4 ++
    alone 2 (.oauthUnlink (bearer 1 .user) .google) 5

end TwiceLinked

theorem sign_in_method_remains_once :
    ∃ c, Reached .sample TwiceLinked.withPassword c ∧ HasSignInMethod 1 c.world.store := by
  obtain ⟨c, hc, htest⟩ : ∃ c, Reached .sample TwiceLinked.withPassword c ∧
      (decide (Along DoesNotOverlap c.world.history) && c.world.history.all unlinksOneOfMany) =
        true :=
    Reachable.of_schedule TwiceLinked.once
      (fun c : AppConfig ↦ decide (Along DoesNotOverlap c.world.history) &&
        c.world.history.all unlinksOneOfMany) (by decide) (by decide)
  rw [Bool.and_eq_true, decide_eq_true_eq, List.all_eq_true] at htest
  exact ⟨c, hc, sign_in_method_remains hc htest.1 htest.2 (.inl (by decide))⟩

/-- Unlinking one provider can leave an account nobody can sign in to. -/
theorem last_sign_in_method_can_be_unlinked :
    ¬∀ (cx : Context) (s : Server) (c : AppConfig) (u : Uuid),
      Reachable (machine cx) (handle cx) (fun k ↦ k.managesSignInMethods = true) s c →
        Along DoesNotOverlap c.world.history →
          (HasSignInMethod u s ∨ ∃ e ∈ c.world.history, HasSignInMethod u e.store) →
            HasSignInMethod u c.world.store := by
  intro h
  let test : AppConfig → Bool := fun c ↦ decide (Along DoesNotOverlap c.world.history) &&
    (decide (∃ e ∈ c.world.history, HasSignInMethod 1002 e.store) &&
      !decide (HasSignInMethod 1002 c.world.store))
  obtain ⟨c, hc, htest⟩ : ∃ c, Reachable (machine .sample) (handle .sample)
      (fun k ↦ k.managesSignInMethods = true) (Sample.server .empty) c ∧ test c = true :=
    Reachable.of_schedule TwiceLinked.schedule test (by decide) (by decide)
  simp only [test, Bool.and_eq_true, decide_eq_true_eq, Bool.not_eq_true',
    decide_eq_false_iff_not] at htest
  exact htest.2.2 (h .sample _ c 1002 hc htest.1 (.inr htest.2.1))

end ApiStarter
