import ApiStarter.Interleave.Solo
import ApiStarter.PasswordChanges
import ApiStarter.SessionTokens

/-!
# How long a session lasts

A token is looked up at every use and there is no list of sessions.  Nothing but
its expiry, the deletion of its account and a password change after the row was
read that it was made from ends it for good: an account that is deactivated and
activated again has its sessions back, and a new role shows in the sessions that
are open.
-/

namespace ApiStarter

open Interleave Interleave.Prog Relational

section Extractor

variable {cx : Context} {token : Claims} {isSafe : Bool} {s : Server} {actor : AuthUser}

/-- Whom the `SessionUser` extractor takes the bearer of a token for. -/
theorem sessionUser_eq_ok :
    ((sessionUser cx (.bearer token) isSafe).alone (machine cx) s).1 = .ok actor ↔
      s.now.timestamp - jwtLeewaySecs ≤ token.exp ∧
        ∃ row, s.db.users.get? token.sub = some row ∧ row.isLive = true ∧ row.isActive = true ∧
          row.tokenVersion = token.tv ∧ actor = ⟨token.sub, row.role, .session⟩ := by
  have hrun : ((sessionUser cx (.bearer token) isSafe).alone (machine cx) s).1 = ((do
      ensure (s.now.timestamp - jwtLeewaySecs ≤ token.exp) SecurityError.invalidToken.into
      let user ← verifySession token.sub token.tv
      ensure (user.credential = .session) SecurityError.sessionRequired.into
      ret user : Req AuthUser).alone (machine cx) s).1 := by
    simp only [sessionUser, authUser, Prog.bind_assoc]
    rfl
  have hverified := @verifySession_eq_ok cx s token.sub token.tv actor
  rw [hrun, ← hverified, ensure]
  by_cases hexp : s.now.timestamp - jwtLeewaySecs ≤ token.exp
  · simp only [hexp, true_and, Prog.alone_bind]
    cases hverify : (verifySession token.sub token.tv).alone (machine cx) s with
    | mk answer s' =>
        cases answer with
        | error e => simp [Prog.alone, hverify]
        | ok user =>
            obtain ⟨row, -, -, -, -, rfl⟩ := verifySession_eq_ok.mp (congrArg Prod.fst hverify)
            simp [ensure, Prog.alone, hverify]
  · simp only [hexp, false_and, iff_false]
    rintro ⟨⟩

end Extractor

section Runs

variable {cx : Context} {s : Server} {c : AppConfig} (hc : Reached cx s c) {u : Uuid} {tv : ℕ}
  {later older : List AppEvent} {read : AppEvent}
include hc

/-- The version of an account that was read is its version until the password is changed. -/
theorem Reached.version_kept (hhist : c.world.history = later ++ read :: older)
    (hread : userIs u (fun row ↦ row.tokenVersion = tv) read.store)
    (hsame : ∀ x ∈ read :: later, changesPassword u x = false) :
    userIs u (fun row ↦ row.tokenVersion = tv) c.world.store := by
  refine hc.live_of_kept (userIs u fun row ↦ row.tokenVersion = tv) (fun _ _ ↦ Iff.rfl) hhist hread
    fun x hx hlive hend ↦ ?_
  cases x with
  | answered => exact hend
  | ran i k q b =>
      obtain ⟨row, hrow, htv⟩ := hlive
      have hkept : hasPassword u row.passwordHash tv ((machine cx).exec q b).2 :=
        hasPassword_exec i k (hsame _ hx) ⟨row, hrow, rfl, htv⟩
      obtain ⟨row', hrow', -, htv'⟩ := hkept
      exact hend ⟨row', hrow', htv'⟩

/-- Where the account still has that version, the password was not changed. -/
theorem Reached.unchanged_of_version (hhist : c.world.history = later ++ read :: older)
    (hread : userIs u (fun row ↦ row.tokenVersion = tv) read.store)
    (hnow : userIs u (fun row ↦ row.isLive = true ∧ row.tokenVersion = tv) c.world.store) :
    ∀ x ∈ later, changesPassword u x = false := by
  intro x hx
  by_contra hchanges
  obtain ⟨row, hrow, htv⟩ := hread
  obtain ⟨row', hrow', hdead⟩ := hc.outdated_of_changed hhist ⟨row, hrow, rfl, htv⟩ hx
    (Bool.not_eq_false _ ▸ hchanges)
  obtain ⟨now, hget, hlive, hversion⟩ := hnow
  obtain rfl : now = row' := Option.some.inj (hget.symm.trans hrow')
  rcases hdead with hdead | hlt
  · simp [hlive] at hdead
  · omega

end Runs

/-- A session token is taken for its account exactly while it has not expired, the account is
there and active, and its password was not changed since the row was read that the token was made
from.  The role is the account's at that moment. -/
theorem sessions_last {cx : Context} {s : Server} {c : AppConfig} (hc : Reached cx s c)
    {later earlier : List AppEvent} {i : ℕ} {k : Request} {response : Response} {b : Server}
    {token : Claims} (hhist : c.world.history = later ++ .answered i k (.ok response) b :: earlier)
    (htoken : issuedToken response = some token) :
    ∃ newer read older, earlier = newer ++ read :: older ∧ read.tid = i ∧ readsRow read = true ∧
      ∀ isSafe actor,
        ((sessionUser cx (.bearer token) isSafe).alone (machine cx) c.world.store).1 = .ok actor ↔
          c.world.store.now.timestamp - jwtLeewaySecs ≤ token.exp ∧
            (∀ x ∈ later ++ .answered i k (.ok response) b :: newer,
              changesPassword token.sub x = false) ∧
              userIs token.sub (fun row ↦ row.isLive = true ∧ row.isActive = true ∧
                actor = ⟨token.sub, row.role, .session⟩) c.world.store := by
  have hmints : MintsFromRead (.answered i k (.ok response) b) (ownEvents i earlier) :=
    Along.of_append (P := AlongOwn MintsFromRead)
      (hhist ▸ hc.traces fun k _ ↦ traces_mintsFromRead k)
  obtain ⟨read, hown, hreads, hrow⟩ := hmints token htoken
  obtain ⟨hmem, htid⟩ := mem_ownEvents.mp hown
  obtain ⟨newer, older, rfl⟩ := List.append_of_mem hmem
  have hsplit : c.world.history =
      (later ++ .answered i k (.ok response) b :: newer) ++ read :: older := by simp [hhist]
  refine ⟨newer, read, older, rfl, htid, hreads, fun isSafe actor ↦ ?_⟩
  rw [sessionUser_eq_ok]
  refine and_congr_right fun _ ↦ ⟨?_, ?_⟩
  · rintro ⟨row, hget, hlive, hactive, htv, hactor⟩
    exact ⟨hc.unchanged_of_version hsplit hrow ⟨row, hget, hlive, htv⟩,
      row, hget, hlive, hactive, hactor⟩
  · rintro ⟨hsame, row, hget, hlive, hactive, hactor⟩
    have hquiet : changesPassword token.sub read = false := by
      unfold readsRow at hreads
      split at hreads
      · rfl
      · rfl
      · cases hreads
    obtain ⟨row', hget', htv⟩ := hc.version_kept hsplit hrow fun x hx ↦ by
      rcases List.mem_cons.mp hx with rfl | hx
      · exact hquiet
      · exact hsame x hx
    obtain rfl : row = row' := Option.some.inj (hget.symm.trans hget')
    exact ⟨row, hget, hlive, hactive, htv, hactor⟩

namespace SessionSample

open Sample

/-- Ada administers, Eve is a member. -/
def start : Server :=
  server ⟨[account 1 "ada@example.com" .admin, account 2 "eve@example.com" .user],
    by simp [account, NewUser.row]⟩

def setActive (isActive : Bool) : Request :=
  .updateUser (bearer 1 .admin) 2 ⟨none, none, some isActive⟩

/-- Eve logs in, and Ada suspends her account for a while. -/
def suspended : List (Action Request ℕ) :=
  alone 0 (.login "eve@example.com" "correct-horse") 3 ++ alone 1 (setActive false) 5 ++
    alone 2 (setActive true) 5

/-- The session is taken for Eve's. -/
def isEve (token : Claims) (s : Server) : Bool :=
  match ((sessionUser .sample (.bearer token) true).alone (machine .sample) s).1 with
  | .ok actor => decide (actor = ⟨2, .user, .session⟩)
  | .error _ => false

def handsEve (s : Server) : AppEvent → Bool
  | .answered _ (.login ..) (.ok response) _ => (issuedToken response).any (isEve · s)
  | _ => false

end SessionSample

theorem sessions_last_suspended : ∃ c, Reached .sample SessionSample.start c ∧
    ∃ later i k response b token newer read older,
      c.world.history = later ++ .answered i k (.ok response) b :: (newer ++ read :: older) ∧
        issuedToken response = some token ∧ readsRow read = true ∧
          (∀ x ∈ later ++ .answered i k (.ok response) b :: newer,
            changesPassword token.sub x = false) ∧
            ((sessionUser .sample (.bearer token) true).alone (machine .sample)
              c.world.store).1 = .ok ⟨2, .user, .session⟩ := by
  let test : AppConfig → Bool := fun c ↦
    c.world.history.any (SessionSample.handsEve c.world.store)
  obtain ⟨c, hc, htest⟩ : ∃ c, Reached .sample SessionSample.start c ∧ test c = true :=
    Reachable.of_schedule SessionSample.suspended test (by decide) (by decide)
  obtain ⟨e, he, hhands⟩ := List.any_eq_true.mp htest
  obtain ⟨later, earlier, hhist⟩ := List.append_of_mem he
  unfold SessionSample.handsEve at hhands
  split at hhands
  next i email password response b =>
    obtain ⟨token, htoken, heve⟩ := (Option.any_eq_true ..).mp hhands
    unfold SessionSample.isEve at heve
    split at heve
    next actor hok =>
      obtain rfl := of_decide_eq_true heve
      obtain ⟨newer, read, older, rfl, -, hreads, hlast⟩ := sessions_last hc hhist htoken
      exact ⟨c, hc, later, i, _, response, b, token, newer, read, older, hhist, htoken, hreads,
        ((hlast true _).mp hok).2.1, hok⟩
    next => cases heve
  next => cases hhands

end ApiStarter
