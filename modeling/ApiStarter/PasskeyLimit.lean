import ApiStarter.Interleave.Capacity
import ApiStarter.PasskeyRemovals

/-!
# The number of passkeys

A ceremony counts the passkeys of its user when it begins, those that decode, and
adds one when it finishes, up to five minutes later.  The limit holds as long as
all of them decode and no other passkey is added in between.
-/

namespace ApiStarter

open Interleave Interleave.Prog Relational

/-- The statement adds a passkey to the account. -/
def addsPasskey (u : Uuid) : AppEvent → Bool
  | .ran _ _ (.sql (.passkeys (.insert id userId _ credentialId _))) b =>
      decide (userId = u) &&
        (b.db.passkeys.find? fun p ↦ decide (p.credentialId = credentialId)).isNone &&
          (b.db.passkeys.get? id).isNone
  | _ => false

def Request.finishesChallenge : Request → Option String
  | .passkeyRegisterFinish _ challengeId _ _ => some challengeId
  | _ => none

def opensCeremony (challengeId : String) (u : Uuid) : AppEvent → Bool
  | .ran _ _ (.sql (.challenges (.insert row))) _ =>
      decide (row.id = challengeId) && decide (row.kind = .registration) &&
        decide (row.userId = some u)
  | _ => false

def listsFor (i : ℕ) (u : Uuid) : AppEvent → Bool
  | .ran j _ (.sql (.passkeys (.listByUser id))) _ => decide (j = i) && decide (id = u)
  | _ => false

/-- The list of the user's passkeys that the ceremony began with which `e` finishes. -/
def listingOf (u : Uuid) (e : AppEvent) (earlier : List AppEvent) : Option AppEvent :=
  (e.request.finishesChallenge.bind fun id ↦ earlier.find? (opensCeremony id u)).bind fun opened ↦
    earlier.find? (listsFor opened.tid u)

theorem tid_of_listsFor {i : ℕ} {u : Uuid} {e : AppEvent} (h : listsFor i u e = true) :
    e.tid = i := by
  unfold listsFor at h
  split at h
  · exact of_decide_eq_true (Bool.and_eq_true_iff.mp h).1
  · cases h

/-- None of the user's stored passkeys would be skipped. -/
def allDecode (cx : Context) (u : Uuid) (s : Server) : Bool :=
  s.db.passkeys.rows.all fun p ↦
    decide (p.userId ≠ u) || (cx.decodePasskey p.credentialJson).isSome

/-- The ceremony that a passkey is added by began in the run with a list of passkeys that all
decode, and since then no passkey of the user was added. -/
def finishesUndisturbed (cx : Context) (u : Uuid) (e : AppEvent) (earlier : List AppEvent) : Bool :=
  !addsPasskey u e || (listingOf u e earlier).any fun listing ↦ allDecode cx u listing.store &&
    (earlier.takeWhile fun x ↦ !listsFor listing.tid u x).all fun x ↦ !addsPasskey u x

/-! ## One request -/

def opensSome : AppEvent → Bool
  | .ran _ _ (.sql (.challenges (.insert row))) _ => decide (row.kind = .registration)
  | _ => false

/-- A ceremony is opened by a request that has listed the user's passkeys, once and before that,
and found few enough that decode. -/
def OpensAfterListing (cx : Context) : AppEvent → List AppEvent → Prop
  | .ran i k (.sql (.challenges (.insert row))) _, own => row.kind = .registration →
      (∃ caller, k = .passkeyRegisterBegin caller) ∧ ∃ u b rows, row.userId = some u ∧
        own.find? (listsFor i u) = some (.ran i k (.sql (.passkeys (.listByUser u))) b) ∧
          ((PasskeySql.listByUser u).run b.now b.db.passkeys).1 = some rows ∧
            (PasskeysService.decoded cx rows).length < maxPasskeysPerUser
  | .ran _ (.passkeyRegisterBegin _) (.sql (.passkeys (.listByUser _))) _, own =>
      ∀ x ∈ own, opensSome x = false
  | _, _ => True

section Requests

variable {cx : Context} {i : ℕ} {k : Request} {own : List AppEvent} {s : Server}

theorem opensAfterListing_of_effect {q : Statement} (hq : q.effect = .none)
    (hown : ∀ x ∈ own, opensSome x = false) : OpensAfterListing cx (.ran i k q s) own := by
  unfold OpensAfterListing
  split
  next heq =>
    cases heq
    simp at hq
  next => exact hown
  next => trivial

theorem opensAfterListing_quiet {q : Statement} (hq : q.effect = .none)
    (hlists : ∀ u, q ≠ .sql (.passkeys (.listByUser u))) :
    OpensAfterListing cx (.ran i k q s) own := by
  unfold OpensAfterListing
  split
  next heq =>
    cases heq
    simp at hq
  next heq =>
    cases heq
    exact absurd rfl (hlists _)
  next => trivial

theorem traced_beginRegistration {actor : AuthUser} {caller : Presented}
    (hown : ∀ x ∈ own, opensSome x = false) :
    Traced (machine cx) (OpensAfterListing cx) i (.passkeyRegisterBegin caller)
      (PasskeysService.beginRegistration cx actor) (fun _ _ ↦ True) (fun _ _ ↦ True) own := by
  have hquiet {q : Statement} (hq : q.effect = .none)
      (hlists : ∀ u, q ≠ .sql (.passkeys (.listByUser u))) (s : Server) (own : List AppEvent) :
      OpensAfterListing cx (.ran i (.passkeyRegisterBegin caller) q s) own :=
    opensAfterListing_quiet hq hlists
  refine traced_bind.mpr (traced_bind.mpr (traced_sql (fun s₀ ↦ hquiet (by simp) (by simp) s₀ _)
    (fun s₀ found _ ↦ ?_) (fun _ _ ↦ trivial) trivial))
  refine (traced_okOr ..).mpr ⟨fun user _ ↦ ?_, fun _ ↦ trivial⟩
  refine traced_bind.mpr (traced_sql (fun s₁ ↦ ?_) (fun s₁ rows hrows ↦ ?_) (fun _ _ ↦ trivial)
    trivial)
  · intro x hx
    rcases List.mem_cons.mp hx with rfl | hx
    · rfl
    · exact hown x hx
  refine traced_bind.mpr ((traced_ensure ..).mpr ⟨fun hfew ↦ ?_, fun _ ↦ trivial⟩)
  refine traced_bind.mpr ((traced_ask _).mpr
    ⟨fun s₂ ↦ ⟨hquiet (by simp) (by simp) s₂ _, ?_⟩, by rintro _ ⟨⟩⟩)
  refine traced_bind.mpr ((traced_okOr ..).mpr ⟨fun state _ ↦ ?_, fun _ ↦ trivial⟩)
  refine traced_bind.mpr ((traced_ask _).mpr
    ⟨fun s₃ ↦ ⟨hquiet (by simp) (by simp) s₃ _, ?_⟩, by rintro _ ⟨⟩⟩)
  refine traced_bind.mpr (traced_clock fun s₄ ↦ ⟨hquiet (by simp) (by simp) s₄ _, ?_⟩)
  refine traced_bind.mpr (traced_clock fun s₅ ↦ ⟨hquiet (by simp) (by simp) s₅ _, ?_⟩)
  refine traced_bind.mpr (traced_sql (fun s₆ ↦ hquiet (by simp) (by simp) s₆ _)
    (fun s₆ _ _ ↦ ?_) (fun _ _ ↦ trivial) trivial)
  refine traced_bind.mpr (traced_sql (fun s₇ _ ↦ ⟨⟨caller, rfl⟩, user.id, s₁, rows, rfl, ?_,
    hrows, Nat.lt_of_not_le hfew⟩) (fun _ _ _ ↦ trivial) (fun _ _ ↦ trivial) trivial)
  simp [listsFor]

theorem traces_opensAfterListing (cx : Context) (k : Request) :
    Traces (machine cx) (OpensAfterListing cx) k (handle cx) := by
  have hends (i : ℕ) (a : Except AppError Response) (s : Server) (own : List AppEvent) :
      OpensAfterListing cx (.answered i k a s) own := trivial
  by_cases hbegin : ∃ caller, k = .passkeyRegisterBegin caller
  · obtain ⟨caller, rfl⟩ := hbegin
    intro i
    have hsession : Traced (machine cx) (OpensAfterListing cx) i (.passkeyRegisterBegin caller)
        (sessionUser cx caller false) (fun _ own ↦ ∀ x ∈ own, opensSome x = false)
          (fun _ _ ↦ True) [] := by
      refine (traced_of_only (A := fun own ↦ ∀ x ∈ own, opensSome x = false)
        (only_sessionUser (fun _ hq ↦ hq) _ _) (returns_true _) ?_ (by simp)).mono
          (fun _ _ h ↦ h.2) fun _ _ _ ↦ trivial
      intro q hq s own hown
      refine ⟨opensAfterListing_of_effect hq hown, fun x hx ↦ ?_⟩
      rcases List.mem_cons.mp hx with rfl | hx
      · unfold opensSome
        split
        next heq =>
          cases heq
          simp at hq
        next => rfl
      · exact hown x hx
    refine traced_bind.mpr (hsession.mono (fun actor own hown ↦ ?_) fun e own _ s ↦ hends i _ s own)
    refine traced_bind.mpr ((traced_beginRegistration hown).mono (fun id own _ ↦ ?_)
      fun e own _ s ↦ hends i _ s own)
    exact fun s ↦ hends i _ s own
  · have hkind : (handle cx k).Only fun q ↦ ∀ row, q = .sql (.challenges (.insert row)) →
        row.kind ≠ .registration := by
      by_cases hlogin : k = .passkeyLoginBegin
      · subst hlogin
        refine .bind (.bind (by simp) fun _ ↦ .bind (by simp) fun _ ↦ ?_) fun _ ↦ trivial
        simp [PasskeysService.storeChallenge]
      · refine handle_only k fun q hq row hrow ↦ ?_
        subst hrow
        cases k with
        | passkeyRegisterBegin caller => exact absurd ⟨caller, rfl⟩ hbegin
        | passkeyLoginBegin => exact absurd rfl hlogin
        | _ => simp at hq
    refine Traces.of_only hkind (fun q hq i s own ↦ ?_) fun i a s own ↦ hends i a s own
    unfold OpensAfterListing
    split
    next heq =>
      cases heq
      exact fun hregistration ↦ absurd hregistration (hq _ rfl)
    next heq =>
      cases heq
      exact absurd ⟨_, rfl⟩ hbegin
    next => trivial

end Requests

/-! ## All runs -/

section Runs

variable {cx : Context} {u : Uuid} {s : Server} {c : AppConfig}

theorem registeredPasskeys_inserted (i : ℕ) (k : Request) (id userId : Uuid)
    (name credentialId json : String) (b : Server) :
    b.db.registeredPasskeys u + (if addsPasskey u (.ran i k (.sql (.passkeys
        (.insert id userId name credentialId json))) b) then 1 else 0) =
      ((machine cx).exec (.sql (.passkeys (.insert id userId name credentialId json)))
        b).2.db.registeredPasskeys u := by
  simp only [exec_sql, Sql.run, PasskeySql.run, Db.registeredPasskeys]
  cases hfind : b.db.passkeys.find? fun p ↦ decide (p.credentialId = credentialId) with
  | some p => simp [addsPasskey, hfind]
  | none =>
      simp only [Option.isSome_none, Bool.false_eq_true, if_false]
      cases hinsert : b.db.passkeys.insert? ⟨id, userId, name, credentialId, json, b.now, none⟩ with
      | none =>
          obtain ⟨row, hrow⟩ := Option.isSome_iff_exists.mp (Table.insert?_eq_none.mp hinsert)
          simp [addsPasskey, hfind, show b.db.passkeys.get? id = some row from hrow]
      | some passkeys' =>
          have hnone : b.db.passkeys.get? id = none := (Table.insert?_eq_some hinsert).1
          simp [addsPasskey, hfind, hnone, Table.countWhere_insert? hinsert]

/-- Passkeys are added and removed one by one. -/
theorem tally_passkeys (h : List AppEvent) :
    Tally (machine cx) (fun s ↦ s.db.registeredPasskeys u) (addsPasskey u) (removesPasskey u)
      h where
  env _ _ := rfl
  answered _ _ _ _ := ⟨rfl, rfl⟩
  ran i k q b _ := by
    cases q with
    | sql q =>
        cases q with
        | passkeys q =>
            cases q with
            | insert id userId name credentialId json =>
                exact registeredPasskeys_inserted i k id userId name credentialId json b
            | delete id passkey => exact registeredPasskeys_deleted i k id passkey
            | updateAfterUse id json => exact registeredPasskeys_updated _ _ _ id json
            | listByUser => rfl
        | _ => rfl
    | _ => rfl

/-- The list behind a ceremony is the one its request has checked. -/
theorem listing_checked (hc : Reached cx s c) {later earlier : List AppEvent} {e opened : AppEvent}
    {id : String} (hhist : c.world.history = later ++ e :: earlier)
    (hopened : earlier.find? (opensCeremony id u) = some opened) :
    ∃ k b rows, earlier.find? (listsFor opened.tid u) =
        some (.ran opened.tid k (.sql (.passkeys (.listByUser u))) b) ∧
      ((PasskeySql.listByUser u).run b.now b.db.passkeys).1 = some rows ∧
        (PasskeysService.decoded cx rows).length < maxPasskeysPerUser := by
  obtain ⟨hopens, mid, older, rfl, hmid⟩ := List.find?_eq_some_iff_append.mp hopened
  have hhist' : c.world.history = (later ++ e :: mid) ++ opened :: older := by simp [hhist]
  have hall := hc.traces fun k _ ↦ traces_opensAfterListing cx k
  have hlocal : AlongOwn (OpensAfterListing cx) opened older := Along.of_append (hhist' ▸ hall)
  unfold opensCeremony at hopens
  split at hopens
  next i k row b₁ =>
    simp only [Bool.and_eq_true, decide_eq_true_eq] at hopens
    obtain ⟨⟨-, hkind⟩, howner⟩ := hopens
    obtain ⟨⟨caller, rfl⟩, u', b, rows, howner', hlist, hrows, hfew⟩ := hlocal hkind
    obtain rfl : u = u' := Option.some.inj (howner.symm.trans howner')
    refine ⟨.passkeyRegisterBegin caller, b, rows, ?_, hrows, hfew⟩
    rw [Event.tid_ran, find?_ownEvents fun _ ↦ tid_of_listsFor] at hlist
    -- the request does not list passkeys after it has opened the ceremony
    have hlater : mid.find? (listsFor i u) = none := by
      refine List.find?_eq_none.mpr fun y hy hlists ↦ ?_
      obtain ⟨newer, rest, rfl⟩ := List.append_of_mem hy
      have hsplit : c.world.history = (later ++ e :: newer) ++ y ::
          (rest ++ .ran i (.passkeyRegisterBegin caller) (.sql (.challenges (.insert row))) b₁ ::
            older) := by
        simp [hhist]
      have honce : AlongOwn (OpensAfterListing cx) y _ := Along.of_append (hsplit ▸ hall)
      have hsame := @Reachable.request_eq _ _ _ _ _ _ _ _ _ _ _ _ hc y
        (.ran i (.passkeyRegisterBegin caller) (.sql (.challenges (.insert row))) b₁)
        (by simp [hsplit]) (by simp [hsplit]) (tid_of_listsFor hlists)
      unfold listsFor at hlists
      split at hlists
      next j k' u' b₂ =>
        obtain rfl : k' = .passkeyRegisterBegin caller := hsame
        obtain rfl : j = i := of_decide_eq_true (Bool.and_eq_true_iff.mp hlists).1
        have hnone := honce _
          (mem_ownEvents.mpr ⟨List.mem_append_right _ List.mem_cons_self, rfl⟩)
        simp [opensSome, hkind] at hnone
      next => cases hlists
    rw [Event.tid_ran, List.find?_append, hlater, Option.none_or, List.find?_cons_of_neg, hlist]
    simp [listsFor]
  next => cases hopens

/-- Where all rows decode, those that were counted are all there are. -/
theorem length_decoded {s : Server} {rows : List PasskeyRow} (hall : allDecode cx u s = true)
    (hrows : ((PasskeySql.listByUser u).run s.now s.db.passkeys).1 = some rows) :
    (PasskeysService.decoded cx rows).length = s.db.registeredPasskeys u := by
  obtain rfl := Option.some.inj hrows
  have hevery : ∀ p ∈ Table.orderBy PasskeyRow.createdAt
      (s.db.passkeys.selectWhere fun p ↦ decide (p.userId = u)),
      ((cx.decodePasskey p.credentialJson).map fun passkey ↦ (p, passkey)).isSome = true := by
    intro p hp
    obtain ⟨hmem, hp⟩ := Table.mem_selectWhere.mp (Table.mem_orderBy.mp hp)
    have hdecodes := List.all_eq_true.mp hall p hmem
    simpa [of_decide_eq_true hp] using hdecodes
  rw [PasskeysService.decoded, List.length_filterMap_eq_countP, List.countP_eq_length.mpr hevery]
  simp [Table.orderBy, Db.registeredPasskeys, Table.countWhere, Table.selectWhere,
    List.countP_eq_length_filter]

theorem checksFirst_of_finishesUndisturbed (hc : Reached cx s c)
    (hundisturbed : Along (fun e earlier ↦ finishesUndisturbed cx u e earlier = true)
      c.world.history) :
    Along (ChecksFirst (fun s ↦ s.db.registeredPasskeys u) (addsPasskey u) maxPasskeysPerUser)
      c.world.history := by
  refine Along.of_splits fun later e earlier hhist hadds ↦ ?_
  have halone : finishesUndisturbed cx u e earlier = true := Along.of_append (hhist ▸ hundisturbed)
  simp only [finishesUndisturbed, hadds, Bool.not_true, Bool.false_or] at halone
  obtain ⟨listing, hlisting, hboth⟩ := (Option.any_eq_true ..).mp halone
  obtain ⟨hall, hnone⟩ := (Bool.and_eq_true_iff ..).mp hboth
  obtain ⟨opened, hopened, hfind⟩ := Option.bind_eq_some_iff.mp hlisting
  obtain ⟨id, -, hopened⟩ := Option.bind_eq_some_iff.mp hopened
  obtain ⟨k, b, rows, hlist, hrows, hfew⟩ := listing_checked hc hhist hopened
  obtain rfl := Option.some.inj (hfind.symm.trans hlist)
  rw [length_decoded hall hrows] at hfew
  obtain ⟨-, newer, older, rfl, hnewer⟩ := List.find?_eq_some_iff_append.mp hlist
  refine ⟨newer, _, older, rfl, hfew, fun y hy ↦ ?_⟩
  rcases List.mem_append.mp hy with hy | hy
  · have hsince := List.all_eq_true.mp hnone y
    rw [Event.tid_ran, List.takeWhile_append_of_pos hnewer] at hsince
    simpa using hsince (List.mem_append_left _ hy)
  · rw [List.mem_singleton.mp hy]
    rfl

theorem passkey_limit_kept (hc : Reached cx s c)
    (hs : s.db.registeredPasskeys u ≤ maxPasskeysPerUser)
    (hundisturbed : Along (fun e earlier ↦ finishesUndisturbed cx u e earlier = true)
      c.world.history) :
    c.world.store.db.registeredPasskeys u ≤ maxPasskeysPerUser ∧
      ∀ i k q b, .ran i k q b ∈ c.world.history →
        ((machine cx).exec q b).2.db.registeredPasskeys u ≤ maxPasskeysPerUser :=
  hc.within_of_checksFirst (tally_passkeys _) hs
    (checksFirst_of_finishesUndisturbed hc hundisturbed)

end Runs

/-! ## Two ceremonies at once -/

namespace CeremonySample

open Sample

/-- Ada has nine passkeys. -/
def start : Server :=
  { server (.single (account 1 "ada@example.com" .user)) with
    db.passkeys := ⟨(List.range 9).map fun n ↦
      ⟨100 + n, 1, "key", "credential-" ++ toString n, "json", 0, none⟩, by decide⟩ }

def begins : Request := .passkeyRegisterBegin (bearer 1 .user)

def finishes (challengeId credential : String) : Request :=
  .passkeyRegisterFinish (bearer 1 .user) challengeId credential none

def single : List (Action Request ℕ) :=
  alone 0 begins 10 ++ alone 1 (finishes "1001" "credential-a") 5

/-- Both ceremonies begin before either finishes. -/
def crossed : List (Action Request ℕ) :=
  alone 0 begins 10 ++ alone 1 begins 10 ++ alone 2 (finishes "1001" "credential-a") 5 ++
    alone 3 (finishes "1003" "credential-b") 5

end CeremonySample

theorem passkey_limit_single :
    ∃ c, Reached .sample CeremonySample.start c ∧ c.world.store.db.registeredPasskeys 1 = 10 ∧
      c.world.store.db.registeredPasskeys 1 ≤ maxPasskeysPerUser ∧
        ∀ i k q b, .ran i k q b ∈ c.world.history →
          ((machine .sample).exec q b).2.db.registeredPasskeys 1 ≤ maxPasskeysPerUser := by
  obtain ⟨c, hc, htest⟩ : ∃ c, Reached .sample CeremonySample.start c ∧
      decide (c.world.store.db.registeredPasskeys 1 = 10 ∧
        Along (fun e earlier ↦ finishesUndisturbed .sample 1 e earlier = true)
          c.world.history) = true :=
    Reachable.of_schedule CeremonySample.single _ (by decide) (by decide)
  obtain ⟨hcount, hundisturbed⟩ := of_decide_eq_true htest
  exact ⟨c, hc, hcount, passkey_limit_kept hc (by decide) hundisturbed⟩

/-- Two ceremonies that begin with nine passkeys stored leave eleven. -/
theorem passkey_limit_exceeded :
    ∃ c, Reached .sample CeremonySample.start c ∧
      CeremonySample.start.db.registeredPasskeys 1 ≤ maxPasskeysPerUser ∧
        maxPasskeysPerUser < c.world.store.db.registeredPasskeys 1 := by
  obtain ⟨c, hc, htest⟩ : ∃ c, Reached .sample CeremonySample.start c ∧
      decide (maxPasskeysPerUser < c.world.store.db.registeredPasskeys 1) = true :=
    Reachable.of_schedule CeremonySample.crossed _ (by decide) (by decide)
  exact ⟨c, hc, by decide, of_decide_eq_true htest⟩

end ApiStarter
