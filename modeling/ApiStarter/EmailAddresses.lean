import ApiStarter.Calls

/-!
# One account for an address

The database compares the addresses of accounts letter by letter.  Everything
that stores an address stores its normal form, so no two accounts have addresses
that differ in case or in blanks around them, and a lookup by any spelling finds
the account.  A deleted account gives its address back.
-/

namespace ApiStarter

open Interleave Interleave.Prog Relational

/-- The row of an account that is not deleted. -/
def IsAccount (row : User) (s : Server) : Prop := row ∈ s.db.users ∧ row.isLive = true

/-- What the unique index and the normal form of stored addresses amount to. -/
structure AddressesKept (cx : Context) (s : Server) : Prop where
  normal : ∀ row, IsAccount row s → cx.normalizeEmail row.email = row.email
  unique : ∀ row row', IsAccount row s → IsAccount row' s → row.email = row'.email → row = row'

/-- An account can be created with the address, and every account can change to it. -/
structure Takeable (cx : Context) (raw : String) (s : Server) : Prop where
  create : ∀ id new, new.email = cx.normalizeEmail raw → s.db.users.get? id = none →
    ((UsersSql.create id new).run s.now s.db.users).1 = some (.ok (new.row id s.now))
  change : ∀ id, ((UsersSql.changeEmail id (cx.normalizeEmail raw)).run s.now s.db.users).1 =
    some (.ok ())

/-- What the application promises about addresses in the state `s`. -/
structure AddressesSound (cx : Context) (s : Server) : Prop where
  normal : ∀ row, IsAccount row s → cx.normalizeEmail row.email = row.email
  unique : ∀ row row', IsAccount row s → IsAccount row' s →
    cx.normalizeEmail row.email = cx.normalizeEmail row'.email → row = row'
  /-- A lookup finds the account whose address the spelling is, if there is one. -/
  found : ∀ raw, ∃ o, (UsersService.findByEmail cx raw).alone (machine cx) s = (.ok o, s) ∧
    ∀ row, o = some row ↔
      IsAccount row s ∧ cx.normalizeEmail row.email = cx.normalizeEmail raw
  /-- An address nobody has can be taken. -/
  takeable : ∀ raw, (∀ row, IsAccount row s →
    cx.normalizeEmail row.email ≠ cx.normalizeEmail raw) → Takeable cx raw s
  /-- After a deletion so can the address of the account. -/
  freed : ∀ row guard, IsAccount row s →
    ((UsersSql.softDelete row.id guard).run s.now s.db.users).1 = some (.ok true) →
      ∀ raw, cx.normalizeEmail row.email = cx.normalizeEmail raw →
        Takeable cx raw ((machine cx).exec (.sql (.users (.softDelete row.id guard))) s).2

/-- A statement that stores no address but in its normal form. -/
def Statement.StoresNormalized (cx : Context) : Statement → Prop
  | .sql (.users (.create _ new)) => ∃ raw, new.email = cx.normalizeEmail raw
  | .sql (.users (.changeEmail _ email)) => ∃ raw, email = cx.normalizeEmail raw
  | _ => True

/-- The statement stores `email` for the account `id`. -/
def UsersSql.Stores (id : Uuid) (email : String) (q : UsersSql) : Prop :=
  q = .changeEmail id email ∨ ∃ new, q = .create id new ∧ new.email = email

/-! ## Normal forms -/

/-- Trimming and lowercasing once is enough. -/
theorem normalizeEmail_normalizeEmail {cx : Context} (table : Text.CaseTable isWhiteSpace)
    (hlower : cx.toLowercase = table.toLowercase) (raw : String) :
    cx.normalizeEmail (cx.normalizeEmail raw) = cx.normalizeEmail raw := by
  have htrimmed : Text.Trimmed isWhiteSpace
      (table.lowerFrom [] (Text.strip isWhiteSpace raw.toList)) :=
    Text.CaseTable.trimmed_lowerFrom (Text.trimmed_strip _ _)
  have htrim : trim (table.toLowercase (trim raw)) = table.toLowercase (trim raw) := by
    simp only [trim_eq, Text.CaseTable.toLowercase, String.toList_ofList, htrimmed.strip_eq]
  simp only [Context.normalizeEmail, hlower, htrim, Text.CaseTable.toLowercase_toLowercase]

/-! ## One statement -/

section Statements

variable {cx : Context} {s : Server} {q : UsersSql}

/-- A row gets another address only if no other account has it. -/
theorem UsersSql.email_onRow {now : Time} {users : Table User.id} {row : User} (hrow : row ∈ users)
    (q : UsersSql) :
    (q.onRow now users row).email = row.email ∨
      (q = .changeEmail row.id (q.onRow now users row).email ∧
        ∀ other ∈ users, other.isLive = true → other.email = (q.onRow now users row).email →
          other.id = row.id) := by
  cases q with
  | changeEmail id email =>
      simp only [onRow]
      split
      next => exact .inl rfl
      next hfree =>
        split
        next hlive =>
          have hid : row.id = id := by
            simpa [liveId] using ((Bool.and_eq_true _ _).mp hlive).1
          have hsome : (users.find? (liveId id)).isSome = true :=
            List.find?_isSome.mpr ⟨row, hrow, hlive⟩
          refine .inr ⟨by rw [hid], fun other hother hlive' hemail ↦ ?_⟩
          by_contra hne
          refine hfree ((Bool.and_eq_true ..).mpr ⟨hsome, ?_⟩)
          refine List.find?_isSome.mpr ⟨other, hother, ?_⟩
          simp [hemail, hlive', hid ▸ hne]
        next => exact .inl rfl
  | _ =>
      left
      simp only [onRow]
      repeat' split
      all_goals rfl

/-- An account had its address before, or a statement stored it that found it free. -/
theorem isAccount_run {row' : User}
    (h : IsAccount row' ((machine cx).exec (.sql (.users q)) s).2) :
    (∃ row, IsAccount row s ∧ row.id = row'.id ∧ row.email = row'.email) ∨
      (q.Stores row'.id row'.email ∧
        ∀ other, IsAccount other s → other.email = row'.email → other.id = row'.id) := by
  obtain ⟨hmem, hlive⟩ := h
  have hget' : (q.run s.now s.db.users).2.get? row'.id = some row' := Table.get?_of_mem hmem
  cases hget : s.db.users.get? row'.id with
  | none =>
      obtain ⟨new, rfl, hnew⟩ := UsersSql.get?_run_none hget hget'
      have hemail : row'.email = new.email := congrArg User.email hnew
      have hfree : emailTaken s.db.users new.email = false := by
        cases htaken : emailTaken s.db.users new.email with
        | false => rfl
        | true => simp [UsersSql.run, htaken, hget] at hget'
      refine .inr ⟨.inr ⟨new, rfl, hemail.symm⟩, fun other hother hsame ↦ ?_⟩
      have hnone := Table.find?_eq_none.mp (Option.not_isSome_iff_eq_none.mp
        (Bool.not_eq_true _ ▸ hfree)) other hother.1
      simp [hsame, hemail, hother.2] at hnone
  | some row =>
      obtain ⟨hrow, hid⟩ := Table.get?_eq_some_iff.mp hget
      obtain rfl : q.onRow s.now s.db.users row = row' :=
        Option.some.inj ((UsersSql.get?_run hget q).symm.trans hget')
      have hlive₀ : row.isLive = true := by
        cases hdead : row.isLive with
        | true => rfl
        | false => simp [UsersSql.isLive_onRow s.now s.db.users q hdead] at hlive
      rcases UsersSql.email_onRow hrow q with hemail | ⟨hq, hfree⟩
      · exact .inl ⟨row, ⟨hrow, hlive₀⟩, hid, hemail.symm⟩
      · rw [← hid]
        exact .inr ⟨.inl hq, fun other hother hemail ↦ hfree other hother.1 hother.2 hemail⟩

theorem UsersSql.Stores.inj {id id' : Uuid} {email email' : String} (h : q.Stores id email)
    (h' : q.Stores id' email') : id = id' := by
  rcases h with rfl | ⟨new, rfl, -⟩
  · rcases h' with heq | ⟨new', heq, -⟩ <;> cases heq
    rfl
  · rcases h' with heq | ⟨new', heq, -⟩ <;> cases heq
    rfl

/-- No statement that stores normal forms only lets two accounts share an address. -/
theorem addressesKept_exec {q : Statement}
    (hnorm : ∀ raw, cx.normalizeEmail (cx.normalizeEmail raw) = cx.normalizeEmail raw)
    (hq : q.StoresNormalized cx) (h : AddressesKept cx s) :
    AddressesKept cx ((machine cx).exec q s).2 := by
  cases q with
  | sql q =>
      cases q with
      | users q =>
          constructor
          · intro row' hrow'
            rcases isAccount_run hrow' with ⟨row, hrow, -, hemail⟩ | ⟨hstores, -⟩
            · rw [← hemail]
              exact h.normal row hrow
            · rcases hstores with rfl | ⟨new, rfl, hemail⟩
              · obtain ⟨raw, hraw⟩ := hq
                rw [hraw, hnorm]
              · obtain ⟨raw, hraw⟩ := hq
                rw [← hemail, hraw, hnorm]
          · intro row₁ row₂ h₁ h₂ hemail
            apply Table.eq_of_mem h₁.1 h₂.1
            rcases isAccount_run h₁ with ⟨old₁, hold₁, hid₁, hemail₁⟩ | ⟨hstores₁, hfree₁⟩
            · rcases isAccount_run h₂ with ⟨old₂, hold₂, hid₂, hemail₂⟩ | ⟨-, hfree₂⟩
              · have hsame :=
                  h.unique old₁ old₂ hold₁ hold₂ (hemail₁.trans (hemail.trans hemail₂.symm))
                rw [← hid₁, ← hid₂, hsame]
              · exact hid₁.symm.trans (hfree₂ old₁ hold₁ (hemail₁.trans hemail))
            · rcases isAccount_run h₂ with ⟨old₂, hold₂, hid₂, hemail₂⟩ | ⟨hstores₂, -⟩
              · exact (hfree₁ old₂ hold₂ (hemail₂.trans hemail.symm)).symm.trans hid₂
              · exact hstores₁.inj hstores₂
      | _ => exact ⟨h.normal, h.unique⟩
  | _ => exact ⟨h.normal, h.unique⟩

end Statements

/-! ## One request -/

theorem storesNormalized_of_effect {cx : Context} {q : Statement} (hcreate : q.effect ≠ .createUser)
    (hchange : q.effect ≠ .changeEmail) : q.StoresNormalized cx := by
  unfold Statement.StoresNormalized
  split
  · exact absurd rfl hcreate
  · exact absurd rfl hchange
  · trivial

/-- Every path on which an address is stored puts it into its normal form. -/
theorem handle_storesNormalized (cx : Context) (k : Request) :
    (handle cx k).Only (Statement.StoresNormalized cx) := by
  have hNone : ∀ q : Statement, q.effect = .none → q.StoresNormalized cx := fun q hq ↦
    storesNormalized_of_effect (by simp [hq]) (by simp [hq])
  have hOther : ∀ {l : List Effect}, Effect.createUser ∉ l → Effect.changeEmail ∉ l →
      ∀ q : Statement, q.effect ∈ l → q.StoresNormalized cx := fun hcreate hchange q hq ↦
    storesNormalized_of_effect (fun h ↦ hcreate (h ▸ hq)) fun h ↦ hchange (h ▸ hq)
  cases k with
  | createUser caller email password displayName role =>
      refine .bind (only_adminUser hNone _ _) fun _ ↦ .bind ?_ fun _ ↦ trivial
      refine .bind (only_createWithPassword hNone fun _ _ ↦ ⟨email, rfl⟩) fun _ ↦ ?_
      exact .bind (only_recordAudit hNone) fun _ ↦ trivial
  | bootstrapAdmin email password =>
      refine .bind (.bind (by simp [hNone]) fun _ ↦ only_ite.mpr ⟨fun _ ↦ trivial, fun _ ↦ ?_⟩)
        fun _ ↦ trivial
      exact .bind (.attempt (only_createWithPassword hNone fun _ _ ↦ ⟨email, rfl⟩)) fun _ ↦ trivial
  | register email password =>
      refine .bind (.bind (only_createWithPassword hNone fun _ _ ↦ ⟨email, rfl⟩) fun user ↦ ?_)
        fun _ ↦ trivial
      exact .bind (.attempt (only_sendVerification (hOther (by simp) (by simp)))) fun _ ↦ trivial
  | inviteUser caller email displayName role =>
      refine .bind (only_adminUser hNone _ _) fun _ ↦ .bind ?_ fun _ ↦ trivial
      simp only [PasswordResetService.invite, only_generateToken_bind]
      refine ⟨hNone _ rfl, fun _ ↦ .bind (only_createWithPassword hNone fun _ _ ↦ ⟨email, rfl⟩)
        fun _ ↦ ?_⟩
      refine .bind (only_issue (hOther (by simp) (by simp))) fun _ ↦ ?_
      simp [hOther (l := [.mailLink]) (by simp) (by simp)]
  | confirmEmailChange token =>
      refine .bind ?_ fun _ ↦ trivial
      refine .bind (.bind (only_sql.mpr trivial) fun _ ↦ by simp) fun _ ↦ ?_
      refine .bind (by simp) fun newEmail ↦ .bind (.bind ?_ fun _ ↦ only_orThrow) fun _ ↦ ?_
      · exact only_sql.mpr ⟨newEmail, rfl⟩
      · exact only_sql.mpr trivial
  | oauthCallback provider query answer =>
      exact .bind (only_handleCallback (hOther (by simp) (by simp)) fun _ email _ _ _ _ _ ↦
        ⟨email, rfl⟩) fun _ ↦ trivial
  | _ => exact handle_only _ (hOther (by simp) (by simp))

/-! ## All runs -/

section Runs

variable {cx : Context} {s : Server} {c : AppConfig}

theorem addressesKept_of_reachable
    (hnorm : ∀ raw, cx.normalizeEmail (cx.normalizeEmail raw) = cx.normalizeEmail raw)
    (hs : AddressesKept cx s) (hc : Reached cx s c) : AddressesKept cx c.world.store := by
  have hran := hc.ran_only (S := fun _ q ↦ q.StoresNormalized cx) fun k _ ↦
    handle_storesNormalized cx k
  refine hc.live_of_start (AddressesKept cx)
    (fun _ s ↦ ⟨fun h ↦ ⟨h.1, h.2⟩, fun h ↦ ⟨h.1, h.2⟩⟩) hs ?_
  intro x hx hlive hend
  cases x with
  | answered => exact hend
  | ran i k q b => exact hend (addressesKept_exec hnorm (hran i k q b hx).2 hlive)

/-- A lookup by any spelling finds the account that has the address. -/
theorem findByEmail_eq (h : AddressesKept cx s) (raw : String) :
    ∃ o, (UsersService.findByEmail cx raw).alone (machine cx) s = (.ok o, s) ∧
      ∀ row, o = some row ↔ IsAccount row s ∧
        cx.normalizeEmail row.email = cx.normalizeEmail raw := by
  refine ⟨_, rfl, fun row ↦ ⟨fun hfind ↦ ?_, fun ⟨haccount, hemail⟩ ↦ ?_⟩⟩
  · obtain ⟨hmem, hrow⟩ := Table.find?_eq_some hfind
    obtain ⟨hemail, hlive⟩ : row.email = cx.normalizeEmail raw ∧ row.isLive = true := by
      simpa using hrow
    exact ⟨⟨hmem, hlive⟩, (h.normal row ⟨hmem, hlive⟩).trans hemail⟩
  · rw [h.normal row haccount] at hemail
    cases hfind : s.db.users.find? fun u ↦ decide (u.email = cx.normalizeEmail raw) && u.isLive with
    | none => simpa [hemail, haccount.2] using Table.find?_eq_none.mp hfind row haccount.1
    | some row' =>
        obtain ⟨hmem, hrow⟩ := Table.find?_eq_some hfind
        obtain ⟨hemail', hlive⟩ : row'.email = cx.normalizeEmail raw ∧ row'.isLive = true := by
          simpa using hrow
        exact congrArg some (h.unique row' row ⟨hmem, hlive⟩ haccount (hemail'.trans hemail.symm))

theorem takeable_of_free {raw : String}
    (h : ∀ row, IsAccount row s → row.email ≠ cx.normalizeEmail raw) :
    Takeable cx raw s where
  create id new hnew hid := by
    have hfree : emailTaken s.db.users new.email = false := by
      have hnone : (s.db.users.find? fun u ↦ decide (u.email = new.email) && u.isLive) = none := by
        refine Table.find?_eq_none.mpr fun row hrow ↦ ?_
        cases hlive : row.isLive with
        | false => simp
        | true => simpa [hnew] using h row ⟨hrow, hlive⟩
      rw [emailTaken, hnone]
      rfl
    cases hinsert : s.db.users.insert? (new.row id s.now) with
    | none =>
        have htaken : (s.db.users.get? id).isSome := Table.insert?_eq_none.mp hinsert
        simp [hid] at htaken
    | some users => simp [UsersSql.run, hfree, hinsert]
  change id := by
    have hnone : (s.db.users.find? fun u ↦ decide (u.email = cx.normalizeEmail raw) && u.isLive &&
        decide (u.id ≠ id)) = none := by
      refine Table.find?_eq_none.mpr fun row hrow ↦ ?_
      cases hlive : row.isLive with
      | false => simp
      | true => simp [h row ⟨hrow, hlive⟩]
    simp only [UsersSql.run, hnone, Option.isSome_none, Bool.and_false,
      Bool.false_eq_true, if_false]

/-- Nobody has the address of an account that was deleted. -/
theorem free_of_deleted {row : User} {guard : Bool} (h : AddressesKept cx s)
    (hrow : IsAccount row s)
    (hdeleted : ((UsersSql.softDelete row.id guard).run s.now s.db.users).1 = some (.ok true)) :
    ∀ other, IsAccount other ((machine cx).exec (.sql (.users (.softDelete row.id guard))) s).2 →
      other.email ≠ row.email := by
  intro other hother hemail
  rcases isAccount_run hother with ⟨old, hold, hid, hsame⟩ | ⟨hstores, -⟩
  · obtain rfl := h.unique old row hold hrow (hsame.trans hemail)
    obtain ⟨hmem, hlive⟩ := hother
    have hget : ((UsersSql.softDelete old.id guard).run s.now s.db.users).2.get?
        old.id = some other :=
      Table.get?_eq_some_iff.mpr ⟨hmem, hid.symm⟩
    rw [UsersSql.get?_run (Table.get?_of_mem hrow.1)] at hget
    have hguard : (guard && decide (otherActiveAdmins s.db.users old.id = 0)) = false := by
      cases hguard : (guard && decide (otherActiveAdmins s.db.users old.id = 0)) with
      | false => rfl
      | true => simp [UsersSql.run, hguard] at hdeleted
    have hother : other = old.markDeleted s.now := by
      simpa [UsersSql.onRow, hguard, liveId, hrow.2] using hget.symm
    simp [hother, User.markDeleted, User.isLive] at hlive
  · rcases hstores with heq | ⟨new, heq, -⟩ <;> cases heq

theorem addresses_sound (table : Text.CaseTable isWhiteSpace)
    (hlower : cx.toLowercase = table.toLowercase) (hs : AddressesKept cx s) (hc : Reached cx s c) :
    AddressesSound cx c.world.store := by
  have h := addressesKept_of_reachable (normalizeEmail_normalizeEmail table hlower) hs hc
  constructor
  · exact h.normal
  · intro row row' hrow hrow' hemail
    rw [h.normal row hrow, h.normal row' hrow'] at hemail
    exact h.unique row row' hrow hrow' hemail
  · exact findByEmail_eq h
  · intro raw hnobody
    refine takeable_of_free fun row hrow hemail ↦ hnobody row hrow ?_
    rw [h.normal row hrow, hemail]
  · intro row guard hrow hdeleted raw hraw
    rw [h.normal row hrow] at hraw
    refine takeable_of_free fun other hother hemail ↦ ?_
    exact free_of_deleted h hrow hdeleted other hother (hemail.trans hraw.symm)

end Runs

/-! ## A first account -/

namespace AddressSample

/-- The letters that the sample's address is written with. -/
def letters : Text.CaseTable isWhiteSpace where
  lower c := if c = 'A' then ['a'] else if c = 'Σ' then ['σ'] else [c]
  cased c := c.isAlpha
  ignorable c := decide (c = '.')
  lower_ne_nil c := by
    split
    · simp
    · split <;> simp
  lower_lower c d hd := by
    split at hd
    · simp [List.mem_singleton.mp hd]
    · split at hd
      next hA => simp [List.mem_singleton.mp hd]
      next hA hsigma => simp [List.mem_singleton.mp hd, hA, hsigma]
  blank_lower c d hd hblank := by
    split at hd
    · rw [List.mem_singleton.mp hd] at hblank
      cases hblank
    · split at hd
      · rw [List.mem_singleton.mp hd] at hblank
        cases hblank
      · rwa [List.mem_singleton.mp hd] at hblank
  sigma := by simp [isWhiteSpace]

def context : Context := { Context.sample with toLowercase := letters.toLowercase }

end AddressSample

theorem addresses_sound_after_registration :
    ∃ c, Reached AddressSample.context (Sample.server .empty) c ∧
      (c.world.store.db.users.get? 1001).map User.email = some "ada@example.com" ∧
        AddressesSound AddressSample.context c.world.store := by
  obtain ⟨c, hc, htest⟩ : ∃ c, Reached AddressSample.context (Sample.server .empty) c ∧
      decide ((c.world.store.db.users.get? 1001).map User.email = some "ada@example.com") = true :=
    Reachable.of_schedule (Sample.alone 0 (.register " Ada@example.com" "correct-horse") 8) _
      (by decide) (by decide)
  refine ⟨c, hc, of_decide_eq_true htest, addresses_sound AddressSample.letters rfl ⟨?_, ?_⟩ hc⟩
  · exact fun row hrow ↦ by cases hrow.1
  · exact fun row _ hrow ↦ by cases hrow.1

end ApiStarter
