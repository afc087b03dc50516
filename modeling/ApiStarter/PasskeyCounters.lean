import ApiStarter.Calls

/-!
# Signature counters

A sign-in with a passkey reads the stored credentials, checks the response against
the counter found there and writes the credential back whole.  The write does not
look at what is stored by then, so the counter rises from sign-in to sign-in, and
each response is compared with the highest counter so far, as long as nobody reads
the passkey while a response that was accepted has not been written.
-/

namespace ApiStarter

open Interleave Interleave.Prog Relational

def Request.signsInByPasskey : Request → Bool
  | .passkeyLoginBegin | .passkeyLoginFinish .. => true
  | _ => false

/-- What the check of counters rests on: credentials survive being stored, a response is accepted
only with a counter above that of its key, and the key takes that counter over. -/
structure CountsSignatures (cx : Context) : Prop where
  decode_encode : ∀ passkey, cx.decodePasskey (cx.encodePasskey passkey) = some passkey
  above : ∀ {credential state : String} {keys : List Passkey} {result : AuthenticationResult},
    cx.finishAuthentication credential state keys = some result →
      ∀ key ∈ keys, key.credId = result.credId → key.counter < result.counter
  update : ∀ {key updated : Passkey} {result : AuthenticationResult},
    cx.updateCredential key result = some updated →
      key.credId = result.credId ∧ updated.counter = result.counter

/-! ## Counters -/

section Counters

variable (cx : Context) (p : Uuid)

/-- The signature counter kept in `credential_json`. -/
def storedCounter (s : Server) : Option ℕ :=
  (s.db.passkeys.get? p).bind fun row ↦ (cx.decodePasskey row.credentialJson).map Passkey.counter

/-- The passkeys that a sign-in as `u` finds. -/
def passkeysOf (u : Uuid) (s : Server) : List (PasskeyRow × Passkey) :=
  PasskeysService.decoded cx (Table.orderBy PasskeyRow.createdAt
    (s.db.passkeys.selectWhere fun row ↦ decide (row.userId = u)))

/-- The state of the challenge that a thread has claimed. -/
def claimedCeremony (own : List AppEvent) : Option String :=
  own.findSome? fun
    | .ran _ _ (.sql (.challenges (.claim id kind userId))) b =>
        ((ChallengeSql.claim id kind userId).run b.now b.db.challenges).1.join
    | _ => none

/-- The counter of the response that a sign-in with `p` accepts. -/
def acceptedCounter : AppEvent → List AppEvent → Option ℕ
  | .ran _ (.passkeyLoginFinish _ credential) (.sql (.passkeys (.listByUser u))) b, own => do
      let state ← claimedCeremony own
      let result ← cx.finishAuthentication credential state ((passkeysOf cx u b).map Prod.snd)
      let entry ← (passkeysOf cx u b).find? fun entry ↦ decide (entry.1.id = p)
      if (cx.updateCredential entry.2 result).isSome then some result.counter else none
  | _, _ => none

/-- The counter of `p` that a response is compared with, unless it was accepted for another
passkey. -/
def comparedCounter : AppEvent → List AppEvent → Option ℕ
  | .ran _ (.passkeyLoginFinish _ credential) (.sql (.passkeys (.listByUser u))) b, own => do
      let state ← claimedCeremony own
      let entry ← (passkeysOf cx u b).find? fun entry ↦ decide (entry.1.id = p)
      match cx.finishAuthentication credential state ((passkeysOf cx u b).map Prod.snd) with
      | some result =>
          if (cx.updateCredential entry.2 result).isSome then some entry.2.counter else none
      | none => some entry.2.counter
  | _, _ => none

def acceptedCounters : List AppEvent → List ℕ
  | [] => []
  | e :: earlier =>
      (acceptedCounter cx p e (ownEvents e.tid earlier)).toList ++ acceptedCounters earlier

def writesCounter : AppEvent → Bool
  | .ran _ _ (.sql (.passkeys (.updateAfterUse id _))) _ => decide (id = p)
  | _ => false

/-- The sign-ins that have accepted a response with `p` and not written its counter. -/
def unwritten : List AppEvent → List ℕ
  | [] => []
  | e :: earlier =>
      if (acceptedCounter cx p e (ownEvents e.tid earlier)).isSome then e.tid :: unwritten earlier
      else (unwritten earlier).filter fun i ↦ !(writesCounter p e && decide (e.tid = i))

/-- A response is compared when every response accepted before has been written. -/
def SignInsSettled (e : AppEvent) (earlier : List AppEvent) : Prop :=
  (comparedCounter cx p e (ownEvents e.tid earlier)).isSome = true → unwritten cx p earlier = []

/-- The stored counter does not decrease. -/
def CounterRises : AppEvent → Prop
  | .ran _ _ q b => ∀ n ∈ storedCounter cx p b, ∀ m ∈ storedCounter cx p ((machine cx).exec q b).2,
      n ≤ m
  | .answered .. => True

/-- A response is compared with at least the highest counter accepted so far. -/
def ComparesHighest (e : AppEvent) (earlier : List AppEvent) : Prop :=
  ∀ m ∈ comparedCounter cx p e (ownEvents e.tid earlier), ∀ n ∈ acceptedCounters cx p earlier, n ≤ m

instance (e : AppEvent) (earlier : List AppEvent) : Decidable (SignInsSettled cx p e earlier) :=
  inferInstanceAs (Decidable (_ → _))

instance (e : AppEvent) (earlier : List AppEvent) : Decidable (ComparesHighest cx p e earlier) :=
  inferInstanceAs (Decidable (∀ m ∈ comparedCounter cx p e (ownEvents e.tid earlier),
    ∀ n ∈ acceptedCounters cx p earlier, n ≤ m))

end Counters

/-! ## Passkeys that are read -/

section Reads

variable {cx : Context} {p u : Uuid} {s : Server}

theorem decoded_sublist (rows : List PasskeyRow) :
    ((PasskeysService.decoded cx rows).map fun entry ↦ entry.1.id).Sublist
      (rows.map PasskeyRow.id) := by
  induction rows with
  | nil => exact .slnil
  | cons row rows ih =>
      cases hdecoded : cx.decodePasskey row.credentialJson with
      | none => simpa [PasskeysService.decoded, hdecoded] using ih.cons row.id
      | some passkey => simpa [PasskeysService.decoded, hdecoded] using ih.cons_cons row.id

theorem passkeysOf_nodup : ((passkeysOf cx u s).map fun entry ↦ entry.1.id).Nodup := by
  apply (decoded_sublist _).nodup
  have hselected : ((s.db.passkeys.selectWhere fun row ↦ decide (row.userId = u)).map
      PasskeyRow.id).Nodup := s.db.passkeys.nodup.sublist (List.filter_sublist.map _)
  exact ((List.perm_insertionSort _ _).map _).nodup_iff.mpr hselected

theorem mem_passkeysOf {entry : PasskeyRow × Passkey} (h : entry ∈ passkeysOf cx u s) :
    s.db.passkeys.get? entry.1.id = some entry.1 ∧
      cx.decodePasskey entry.1.credentialJson = some entry.2 := by
  obtain ⟨row, hrow, hentry⟩ := List.mem_filterMap.mp h
  obtain ⟨passkey, hdecoded, rfl⟩ := Option.map_eq_some_iff.mp hentry
  exact ⟨Table.get?_of_mem (Table.mem_selectWhere.mp (Table.mem_orderBy.mp hrow)).1, hdecoded⟩

theorem find?_passkeysOf {entry : PasskeyRow × Passkey} (h : entry ∈ passkeysOf cx u s) :
    (passkeysOf cx u s).find? (fun other ↦ decide (other.1.id = entry.1.id)) = some entry := by
  let passkeys : Table fun entry : PasskeyRow × Passkey ↦ entry.1.id :=
    ⟨passkeysOf cx u s, passkeysOf_nodup⟩
  exact Table.get?_of_mem (t := passkeys) h

theorem stored_of_find {entry : PasskeyRow × Passkey}
    (h : (passkeysOf cx u s).find? (fun entry ↦ decide (entry.1.id = p)) = some entry) :
    storedCounter cx p s = some entry.2.counter := by
  obtain ⟨hget, hdecoded⟩ := mem_passkeysOf (List.mem_of_find?_eq_some h)
  have hid : entry.1.id = p := by simpa using List.find?_some h
  simp [storedCounter, ← hid, hget, hdecoded]

end Reads

/-! ## Responses -/

section Responses

variable {cx : Context} {p : Uuid} {e : AppEvent} {own : List AppEvent} {n : ℕ}

theorem stored_of_compared (h : comparedCounter cx p e own = some n) :
    storedCounter cx p e.store = some n := by
  unfold comparedCounter at h
  split at h
  · obtain ⟨state, -, h⟩ := Option.bind_eq_some_iff.mp h
    obtain ⟨entry, hentry, h⟩ := Option.bind_eq_some_iff.mp h
    have hcounter : some entry.2.counter = some n := by
      split at h
      · split at h
        · exact h
        · cases h
      · exact h
    exact (stored_of_find hentry).trans hcounter
  · cases h

/-- What a sign-in knows when it accepts a response. -/
theorem exists_of_accepted (h : acceptedCounter cx p e own = some n) :
    ∃ i challengeId credential u b state result entry updated,
      e = .ran i (.passkeyLoginFinish challengeId credential) (.sql (.passkeys (.listByUser u))) b ∧
        claimedCeremony own = some state ∧
        cx.finishAuthentication credential state ((passkeysOf cx u b).map Prod.snd) = some result ∧
        ((passkeysOf cx u b).find? fun entry ↦ decide (entry.1.id = p)) = some entry ∧
          cx.updateCredential entry.2 result = some updated ∧ result.counter = n := by
  unfold acceptedCounter at h
  split at h
  next i challengeId credential u b =>
    obtain ⟨state, hstate, h⟩ := Option.bind_eq_some_iff.mp h
    obtain ⟨result, hresult, h⟩ := Option.bind_eq_some_iff.mp h
    obtain ⟨entry, hentry, h⟩ := Option.bind_eq_some_iff.mp h
    split at h
    next hupdate =>
      obtain ⟨updated, hupdated⟩ := Option.isSome_iff_exists.mp hupdate
      exact ⟨i, challengeId, credential, u, b, state, result, entry, updated, rfl, hstate, hresult,
        hentry, hupdated, Option.some.inj h⟩
    next => cases h
  next => cases h

theorem compared_of_accepted (h : acceptedCounter cx p e own = some n) :
    (comparedCounter cx p e own).isSome = true := by
  obtain ⟨i, challengeId, credential, u, b, state, result, entry, updated, rfl, hstate, hresult,
    hentry, hupdated, -⟩ := exists_of_accepted h
  simp [comparedCounter, hstate, hresult, hentry, hupdated]

/-- A response is accepted with a counter above the stored one. -/
theorem stored_of_accepted (hcx : CountsSignatures cx) (h : acceptedCounter cx p e own = some n) :
    ∃ c, storedCounter cx p e.store = some c ∧ c < n := by
  obtain ⟨i, challengeId, credential, u, b, state, result, entry, updated, rfl, hstate, hresult,
    hentry, hupdated, rfl⟩ := exists_of_accepted h
  have hkey : entry.2 ∈ (passkeysOf cx u b).map Prod.snd :=
    List.mem_map_of_mem (List.mem_of_find?_eq_some hentry)
  exact ⟨_, stored_of_find hentry, hcx.above hresult _ hkey (hcx.update hupdated).1⟩

theorem mem_acceptedCounters {h : List AppEvent} (hn : n ∈ acceptedCounters cx p h) :
    ∃ later e earlier, h = later ++ e :: earlier ∧
      acceptedCounter cx p e (ownEvents e.tid earlier) = some n := by
  induction h with
  | nil => simp [acceptedCounters] at hn
  | cons e h ih =>
      rcases List.mem_append.mp hn with hhere | hrest
      · exact ⟨[], e, h, rfl, Option.mem_toList.mp hhere⟩
      · obtain ⟨later, x, earlier, rfl, hx⟩ := ih hrest
        exact ⟨e :: later, x, earlier, rfl, hx⟩

/-- An accepted response is unwritten until its sign-in writes it. -/
theorem mem_unwritten {mid older : List AppEvent} {a : AppEvent}
    (ha : acceptedCounter cx p a (ownEvents a.tid older) = some n)
    (hmid : ∀ w ∈ mid, writesCounter p w = true → w.tid ≠ a.tid) :
    a.tid ∈ unwritten cx p (mid ++ a :: older) := by
  induction mid with
  | nil => simp [unwritten, ha]
  | cons w mid ih =>
      have hrest := ih fun x hx ↦ hmid x (List.mem_cons_of_mem w hx)
      simp only [List.cons_append, unwritten]
      split
      · exact List.mem_cons_of_mem _ hrest
      · refine List.mem_filter.mpr ⟨hrest, ?_⟩
        cases hwrites : writesCounter p w with
        | false => rfl
        | true => simp [hmid w List.mem_cons_self hwrites]

theorem written_of_settled {mid older : List AppEvent} {a : AppEvent}
    (ha : acceptedCounter cx p a (ownEvents a.tid older) = some n)
    (h : unwritten cx p (mid ++ a :: older) = []) :
    ∃ w ∈ mid, writesCounter p w = true ∧ w.tid = a.tid := by
  by_contra hnone
  push Not at hnone
  simpa [h] using mem_unwritten ha hnone

end Responses

/-! ## One sign-in -/

def listsPasskeys : AppEvent → Bool
  | .ran _ _ (.sql (.passkeys (.listByUser _))) _ => true
  | _ => false

/-- A sign-in reads the passkeys once, and a counter it writes is one that it has accepted since
and has not written yet. -/
def SignInSteps (cx : Context) : AppEvent → List AppEvent → Prop
  | .ran _ _ (.sql (.passkeys (.listByUser _))) _, own => ∀ x ∈ own, listsPasskeys x = false
  | .ran _ _ (.sql (.passkeys (.updateAfterUse id json))) _, own =>
      ∃ newer read older n, own = newer ++ read :: older ∧
        acceptedCounter cx id read older = some n ∧
        (cx.decodePasskey json).map Passkey.counter = some n ∧
          ∀ x ∈ newer, writesCounter id x = false
  | _, _ => True

/-- Statements about anything but stored passkeys. -/
def Statement.LeavesPasskeys (q : Statement) : Prop := ∀ q', q ≠ .sql (.passkeys q')

section SignIns

variable {cx : Context} {i : ℕ} {k : Request} {own : List AppEvent}

theorem signInSteps_of_leaves {q : Statement} (hq : q.LeavesPasskeys) (s : Server)
    (own : List AppEvent) : SignInSteps cx (.ran i k q s) own := by
  unfold SignInSteps
  split
  next heq =>
    cases heq
    exact absurd rfl (hq _)
  next heq =>
    cases heq
    exact absurd rfl (hq _)
  next => trivial

/-- The loop writes each passkey that was used once. -/
theorem traced_updateCounters (hcx : CountsSignatures cx) {result : AuthenticationResult}
    {read : AppEvent} {older : List AppEvent} {rest : List (PasskeyRow × Passkey)}
    (hnodup : (rest.map fun entry ↦ entry.1.id).Nodup)
    (haccepted : ∀ entry ∈ rest, ∀ updated, cx.updateCredential entry.2 result = some updated →
      acceptedCounter cx entry.1.id read older = some result.counter) :
    ∀ newer : List AppEvent, (∀ x ∈ newer, ∀ entry ∈ rest, writesCounter entry.1.id x = false) →
      Traced (machine cx) (SignInSteps cx) i k (PasskeysService.updateCounters cx result rest)
        (fun _ _ ↦ True) (fun _ _ ↦ True) (newer ++ read :: older) := by
  induction rest with
  | nil => exact fun _ _ ↦ trivial
  | cons entry rest ih =>
      intro newer hfree
      obtain ⟨hnotin, hnodup⟩ := List.nodup_cons.mp hnodup
      have hlater := ih hnodup fun other hother ↦ haccepted other (List.mem_cons_of_mem _ hother)
      apply traced_bind.mpr
      unfold PasskeysService.updateCounter
      split
      next updated hupdated =>
        refine traced_sql (fun s ↦ ?_) (fun s _ _ ↦ ?_) (fun _ _ ↦ trivial) trivial
        · refine ⟨newer, read, older, result.counter, rfl,
            haccepted entry List.mem_cons_self _ hupdated, ?_,
              fun x hx ↦ hfree x hx entry List.mem_cons_self⟩
          rw [hcx.decode_encode, Option.map_some, (hcx.update hupdated).2]
        · refine hlater (.ran i k (.sql (.passkeys (.updateAfterUse entry.1.id
            (cx.encodePasskey updated)))) s :: newer) fun x hx other hother ↦ ?_
          rcases List.mem_cons.mp hx with rfl | hx
          · refine decide_eq_false fun heq ↦ hnotin ?_
            exact List.mem_map.mpr ⟨other, hother, heq.symm⟩
          · exact hfree x hx other (List.mem_cons_of_mem _ hother)
      next => exact hlater newer fun x hx other hother ↦
          hfree x hx other (List.mem_cons_of_mem _ hother)

theorem traces_passkeyLoginFinish_steps (hcx : CountsSignatures cx)
    (challengeId credential : String) :
    Traces (machine cx) (SignInSteps cx) (.passkeyLoginFinish challengeId credential)
      (handle cx) := by
  intro i
  let E : AppError → List AppEvent → Prop :=
    fun e ↦ Delivers (SignInSteps cx) i (.passkeyLoginFinish challengeId credential) (.error e)
  have failed : ∀ (e : AppError) (own : List AppEvent), E e own := fun _ _ _ ↦ trivial
  refine traced_bind.mpr (traced_bind.mpr (traced_bind.mpr (traced_sql
    (fun s ↦ signInSteps_of_leaves (by simp [Statement.LeavesPasskeys]) s _)
    (fun s₁ claimed hclaimed ↦ ?_) (fun _ _ ↦ failed _ _) (failed _ _))))
  refine traced_bind.mpr ((traced_okOr ..).mpr ⟨fun state hstate ↦ ?_, fun _ ↦ failed _ _⟩)
  refine traced_bind.mpr ((traced_ensure ..).mpr ⟨fun _ ↦ (traced_ret _).mpr ?_,
    fun _ ↦ failed _ _⟩)
  refine traced_bind.mpr ((traced_okOr ..).mpr ⟨fun userId _ ↦ ?_, fun _ ↦ failed _ _⟩)
  refine traced_bind.mpr (traced_sql
    (fun s ↦ signInSteps_of_leaves (by simp [Statement.LeavesPasskeys]) s _)
    (fun s₂ found _ ↦ ?_) (fun _ _ ↦ failed _ _) (failed _ _))
  refine traced_bind.mpr ((traced_okOr ..).mpr ⟨fun user _ ↦ ?_, fun _ ↦ failed _ _⟩)
  refine traced_bind.mpr (traced_sql (fun s₃ ↦ by simp [SignInSteps, listsPasskeys])
    (fun s₃ rows hrows ↦ ?_) (fun _ _ ↦ failed _ _) (failed _ _))
  obtain rfl := Option.some.inj hrows
  refine traced_bind.mpr ((traced_okOr ..).mpr ⟨fun result hresult ↦ ?_, fun _ ↦ failed _ _⟩)
  obtain rfl := hstate
  have hclaimed' : ((ChallengeSql.claim challengeId .authentication none).run s₁.now
      s₁.db.challenges).1 = some (some state) := hclaimed
  have hstate : claimedCeremony [.ran i (.passkeyLoginFinish challengeId credential)
      (.sql (.users (.findById userId))) s₂, .ran i (.passkeyLoginFinish challengeId credential)
        (.sql (.challenges (.claim challengeId .authentication none))) s₁] = some state := by
    simp [claimedCeremony, hclaimed']
  have hresult' : cx.finishAuthentication credential state
      ((passkeysOf cx user.id s₃).map Prod.snd) = some result := hresult
  refine traced_bind.mpr ((traced_updateCounters hcx (passkeysOf_nodup (u := user.id) (s := s₃))
    (fun entry hentry updated hupdated ↦ ?_) [] (by simp)).mono (fun _ own _ ↦ ?_)
      fun e own _ ↦ failed e own)
  · simp [acceptedCounter, hstate, hresult', find?_passkeysOf hentry, hupdated]
  · have hissue : (Prog.ensure (¬(cx.requireVerifiedEmail ∧ ¬user.isEmailVerified))
        (PasskeyError.emailNotVerified.into : AppError) >>= fun _ ↦ issueJwt cx user).Only
          Statement.LeavesPasskeys :=
      .bind (by simp) fun _ ↦ only_issueJwt (by simp [Statement.LeavesPasskeys])
    exact traced_of_quiet hissue (returns_true _) (fun q hq s own ↦ signInSteps_of_leaves hq s own)
      (fun _ _ _ _ _ ↦ trivial) fun e own _ ↦ failed e own

/-- Every sign-in takes these steps. -/
theorem traces_signInSteps (hcx : CountsSignatures cx) {k : Request}
    (hk : k.signsInByPasskey = true) : Traces (machine cx) (SignInSteps cx) k (handle cx) := by
  cases k with
  | passkeyLoginBegin =>
      have honly : (handle cx .passkeyLoginBegin).Only Statement.LeavesPasskeys := by
        refine .bind (.bind (by simp [Statement.LeavesPasskeys]) fun n ↦ .bind (by simp)
          fun state ↦ ?_) fun _ ↦ trivial
        simp [PasskeysService.storeChallenge, Statement.LeavesPasskeys]
      exact .of_only honly (fun q hq i s own ↦ signInSteps_of_leaves hq s own) fun _ _ _ _ ↦ trivial
  | passkeyLoginFinish challengeId credential =>
      exact traces_passkeyLoginFinish_steps hcx challengeId credential
  | _ => cases hk

end SignIns

/-! ## All runs -/

section Runs

variable {cx : Context} {p : Uuid} {s : Server} {c : AppConfig}

theorem storedCounter_exec {i : ℕ} {k : Request} {q : Statement} {b : Server}
    (hq : q.effect ≠ .insertPasskey ∧ q.effect ≠ .deletePasskey)
    (hwrite : writesCounter p (.ran i k q b) = false) :
    storedCounter cx p ((machine cx).exec q b).2 = storedCounter cx p b := by
  cases q with
  | sql q =>
      cases q with
      | passkeys q =>
          cases q with
          | listByUser => rfl
          | insert => exact absurd rfl hq.1
          | delete => exact absurd rfl hq.2
          | updateAfterUse id json =>
              have hne : id ≠ p := by simpa [writesCounter] using hwrite
              simp only [exec_sql, Sql.run, PasskeySql.run, storedCounter, Table.get?_updateKey,
                if_neg hne]
      | _ => rfl
  | _ => rfl

theorem storedCounter_update {json : String} {b : Server} {m n : ℕ}
    (hstored : storedCounter cx p b = some m)
    (hjson : (cx.decodePasskey json).map Passkey.counter = some n) :
    storedCounter cx p ((machine cx).exec (.sql (.passkeys (.updateAfterUse p json))) b).2 =
      some n := by
  obtain ⟨row, hrow, -⟩ := Option.bind_eq_some_iff.mp hstored
  simp only [exec_sql, Sql.run, PasskeySql.run, storedCounter, Table.get?_updateKey, if_pos, hrow,
    Option.map_some, Option.bind_some, hjson]

/-- Runs of sign-ins with passkeys. -/
abbrev SignsIn (cx : Context) (s : Server) (c : AppConfig) : Prop :=
  Reachable (machine cx) (handle cx) (fun k ↦ k.signsInByPasskey = true) s c

theorem SignsIn.leaves_rows (hc : SignsIn cx s c) {i : ℕ} {k : Request} {q : Statement} {b : Server}
    (hran : .ran i k q b ∈ c.world.history) :
    q.effect ≠ .insertPasskey ∧ q.effect ≠ .deletePasskey := by
  have honly : ∀ k : Request, k.signsInByPasskey = true →
      (handle cx k).Only fun q ↦ q.effect ≠ .insertPasskey ∧ q.effect ≠ .deletePasskey := by
    intro k hk
    refine handle_only k fun q hq ↦ ?_
    cases k with
    | passkeyLoginBegin => simp at hq; rcases hq with hq | hq <;> simp [hq]
    | passkeyLoginFinish => simp at hq; rcases hq with hq | hq <;> simp [hq]
    | _ => cases hk
  exact (hc.ran_only (S := fun _ q ↦ q.effect ≠ .insertPasskey ∧ q.effect ≠ .deletePasskey) honly i
    k q b hran).2

theorem SignsIn.steps (hcx : CountsSignatures cx) (hc : SignsIn cx s c)
    {later earlier : List AppEvent} {e : AppEvent}
    (hhist : c.world.history = later ++ e :: earlier) :
    SignInSteps cx e (ownEvents e.tid earlier) :=
  Along.of_append (P := AlongOwn (SignInSteps cx))
    (hhist ▸ hc.traces fun _ hk ↦ traces_signInSteps hcx hk)

theorem lists_of_accepted {a : AppEvent} {own : List AppEvent} {n : ℕ}
    (h : acceptedCounter cx p a own = some n) : listsPasskeys a = true := by
  obtain ⟨i, challengeId, credential, u, b, -, -, -, -, rfl, -⟩ := exists_of_accepted h
  rfl

/-- A sign-in accepts a response once. -/
theorem SignsIn.accepted_once (hcx : CountsSignatures cx) (hc : SignsIn cx s c)
    {later earlier later' earlier' : List AppEvent} {a a' : AppEvent}
    (hhist : c.world.history = later ++ a :: earlier)
    (hhist' : c.world.history = later' ++ a' :: earlier') (ha : listsPasskeys a = true)
    (ha' : listsPasskeys a' = true) (htid : a.tid = a'.tid) : a = a' ∧ earlier = earlier' := by
  have honce : Once (fun e ↦ e.tid = a.tid ∧ listsPasskeys e = true) c.world.history := by
    refine pairwise_of_split fun later e₂ mid e₁ earlier hhist ↦ ?_
    rintro ⟨⟨htid₁, hlists₁⟩, htid₂, hlists₂⟩
    have hsteps := hc.steps hcx hhist
    have hown : e₁ ∈ ownEvents e₂.tid (mid ++ e₁ :: earlier) :=
      mem_ownEvents.mpr ⟨by simp, htid₁.trans htid₂.symm⟩
    unfold listsPasskeys at hlists₂
    split at hlists₂
    · exact absurd ((hsteps e₁ hown).symm.trans hlists₁) (by decide)
    · cases hlists₂
  rw [hhist] at honce
  obtain ⟨-, heq, hrest⟩ := honce.split_unique ⟨rfl, ha⟩ ⟨htid.symm, ha'⟩ (hhist.symm.trans hhist')
  exact ⟨heq, hrest⟩

/-- A counter is written by a sign-in that has accepted it and not written it since. -/
theorem SignsIn.accepted_of_write (hcx : CountsSignatures cx) (hc : SignsIn cx s c)
    {later earlier : List AppEvent} {w : AppEvent} (hhist : c.world.history = later ++ w :: earlier)
    (hw : writesCounter p w = true) :
    ∃ i k json b mid a older n, w = .ran i k (.sql (.passkeys (.updateAfterUse p json))) b ∧
      earlier = mid ++ a :: older ∧ a.tid = i ∧
      acceptedCounter cx p a (ownEvents a.tid older) = some n ∧
      (cx.decodePasskey json).map Passkey.counter = some n ∧
        ∀ x ∈ mid, x.tid = i → writesCounter p x = false := by
  have hsteps := hc.steps hcx hhist
  unfold writesCounter at hw
  split at hw
  next i k id json b =>
    obtain rfl := of_decide_eq_true hw
    obtain ⟨newer, read, older, n, hown, haccepted, hjson, hnewer⟩ := hsteps
    obtain ⟨mid, rest, rfl, rfl, rfl⟩ := exists_of_ownEvents hown
    have htid : read.tid = i := by
      have hread : read ∈ ownEvents i (mid ++ read :: rest) := by
        rw [show ownEvents i (mid ++ read :: rest) = _ from hown]
        simp
      exact (mem_ownEvents.mp hread).2
    exact ⟨i, k, json, b, mid, read, rest, n, rfl, rfl, htid, htid.symm ▸ haccepted, hjson,
      fun x hx hxi ↦ hnewer x (mem_ownEvents.mpr ⟨hx, hxi⟩)⟩
  next => cases hw

section Settled

variable (hcx : CountsSignatures cx) (hc : SignsIn cx s c)
  (hsettled : Along (SignInsSettled cx p) c.world.history)
include hcx hc hsettled

omit hcx hc in
theorem written_since {later mid older : List AppEvent} {a a' : AppEvent} {n n' : ℕ}
    (hhist : c.world.history = later ++ a' :: (mid ++ a :: older))
    (ha : acceptedCounter cx p a (ownEvents a.tid older) = some n)
    (ha' : acceptedCounter cx p a' (ownEvents a'.tid (mid ++ a :: older)) = some n') :
    ∃ w ∈ mid, writesCounter p w = true ∧ w.tid = a.tid :=
  written_of_settled ha (Along.of_append (P := SignInsSettled cx p) (hhist ▸ hsettled)
    (compared_of_accepted ha'))

/-- Nobody writes the passkey between a response that is accepted and its write. -/
theorem SignsIn.alone_since {later mid older : List AppEvent} {w a : AppEvent} {n : ℕ}
    (hhist : c.world.history = later ++ w :: (mid ++ a :: older)) (htid : a.tid = w.tid)
    (ha : acceptedCounter cx p a (ownEvents a.tid older) = some n)
    (hown : ∀ x ∈ mid, x.tid = w.tid → writesCounter p x = false) :
    ∀ x ∈ mid, writesCounter p x = false := by
  intro x hx
  by_contra hwrites
  rw [Bool.not_eq_false] at hwrites
  obtain ⟨l₁, l₂, rfl⟩ := List.append_of_mem hx
  have hx' : c.world.history = (later ++ w :: l₁) ++ x :: (l₂ ++ a :: older) := by simp [hhist]
  obtain ⟨i, k, json, b, mid', a', older', n', rfl, hsplit, htid', ha', -, hown'⟩ :=
    hc.accepted_of_write hcx hx' hwrites
  have hother : i ≠ w.tid := fun heq ↦ absurd ((hown _ hx heq).symm.trans hwrites) (by decide)
  rcases split_cases hsplit with ⟨-, rfl, -⟩ | ⟨between, rfl, rfl⟩ | ⟨between, rfl, rfl⟩
  · exact hother (htid'.symm.trans htid)
  · -- `a'` was accepted first, so it was written before `a` read the passkey
    have hhere : c.world.history = (later ++ w :: (l₁ ++ .ran i k (.sql (.passkeys
        (.updateAfterUse p json))) b :: l₂)) ++ a :: (between ++ a' :: older') := by
      simp [hhist]
    obtain ⟨w', hw', hwrites', htidw⟩ := written_since hsettled hhere ha' ha
    have hnot := hown' w' (by simp [hw']) (htidw.trans htid')
    exact absurd (hnot.symm.trans hwrites') (by decide)
  · -- `a` was accepted first, so it was written before `a'` read the passkey
    have hhere : c.world.history = (later ++ w :: (l₁ ++ .ran i k (.sql (.passkeys
        (.updateAfterUse p json))) b :: mid')) ++ a' :: (between ++ a :: older) := by
      simp [hhist]
    obtain ⟨w', hw', hwrites', htidw⟩ := written_since hsettled hhere ha ha'
    have hnot := hown w' (by simp [hw']) (htidw.trans htid)
    exact absurd (hnot.symm.trans hwrites') (by decide)

/-- A write raises the stored counter to one that its sign-in has accepted. -/
theorem SignsIn.write_raises {later earlier : List AppEvent} {w : AppEvent}
    (hhist : c.world.history = later ++ w :: earlier) (hw : writesCounter p w = true) :
    ∃ mid a older m n, earlier = mid ++ a :: older ∧ a.tid = w.tid ∧
      acceptedCounter cx p a (ownEvents a.tid older) = some n ∧
      storedCounter cx p w.store = some m ∧ m < n ∧
        w.Ran fun q b ↦ storedCounter cx p ((machine cx).exec q b).2 = some n := by
  obtain ⟨i, k, json, b, mid, a, older, n, rfl, rfl, htid, ha, hjson, hown⟩ :=
    hc.accepted_of_write hcx hhist hw
  obtain ⟨m, hstored, hlt⟩ := stored_of_accepted hcx ha
  have halone := hc.alone_since hcx hsettled hhist htid ha hown
  obtain ⟨c', hc', hworld⟩ := hc.past hhist
  have hkept : storedCounter cx p c'.world.store = some m := by
    refine hc'.live_of_kept (fun s ↦ storedCounter cx p s = some m) (fun _ _ ↦ Iff.rfl)
      (congrArg World.history hworld) hstored fun x hx hlive hend ↦ ?_
    have hfree : writesCounter p x = false := by
      rcases List.mem_cons.mp hx with rfl | hx
      · obtain ⟨_, _, _, _, _, _, _, _, _, rfl, -⟩ := exists_of_accepted ha
        rfl
      · exact halone x hx
    have hmem : x ∈ c.world.history := by
      rcases List.mem_cons.mp hx with rfl | hx <;> simp [*]
    cases x with
    | answered => exact hend
    | ran j k q b => exact hend ((storedCounter_exec (hc.leaves_rows hmem) hfree).trans hlive)
  rw [hworld] at hkept
  exact ⟨mid, a, older, m, n, rfl, htid, ha, hkept, hlt, storedCounter_update hkept hjson⟩

theorem SignsIn.counter_rises : Along (fun e _ ↦ CounterRises cx p e) c.world.history := by
  refine Along.of_splits fun later e earlier hhist ↦ ?_
  cases e with
  | answered => trivial
  | ran i k q b =>
      intro n hn m hm
      cases hwrites : writesCounter p (.ran i k q b) with
      | false =>
          have hmem : .ran i k q b ∈ c.world.history := by simp [hhist]
          have hsame : storedCounter cx p ((machine cx).exec q b).2 = storedCounter cx p b :=
            storedCounter_exec (hc.leaves_rows hmem) hwrites
          exact (Option.some.inj (hn.symm.trans (hsame.symm.trans hm))).le
      | true =>
          obtain ⟨-, -, -, n', m', -, -, -, hstored, hlt, hafter⟩ :=
            hc.write_raises hcx hsettled hhist hwrites
          obtain rfl := Option.some.inj (hn.symm.trans hstored)
          obtain rfl := Option.some.inj (hm.symm.trans hafter)
          exact hlt.le

/-- A counter that was written is not undercut. -/
theorem SignsIn.stays_above {later earlier : List AppEvent} {w : AppEvent} {n : ℕ}
    (hhist : c.world.history = later ++ w :: earlier)
    (hw : w.Ran fun q b ↦ storedCounter cx p ((machine cx).exec q b).2 = some n) :
    ∀ m ∈ storedCounter cx p c.world.store, n ≤ m := by
  refine hc.live_of_begun (fun s ↦ ∀ m ∈ storedCounter cx p s, n ≤ m)
    (fun _ _ ↦ Iff.rfl) hhist ?_ fun x hx hlive hend ↦ ?_
  · cases w with
    | answered => exact hw
    | ran i k q b => exact fun m hm ↦ (Option.some.inj (hw.symm.trans hm)).le
  · have hmem : x ∈ c.world.history := by simp [hhist, hx]
    cases x with
    | answered => exact hend
    | ran j k q b =>
        refine hend fun m hm ↦ ?_
        cases hwrites : writesCounter p (.ran j k q b) with
        | false => exact hlive m ((storedCounter_exec (hc.leaves_rows hmem) hwrites).symm.trans hm)
        | true =>
            obtain ⟨newer, older, hsplit⟩ := List.append_of_mem hmem
            obtain ⟨-, -, -, n', m', -, -, -, hstored, hlt, hafter⟩ :=
              hc.write_raises hcx hsettled hsplit hwrites
            obtain rfl := Option.some.inj (hm.symm.trans hafter)
            exact (hlive n' hstored).trans hlt.le

theorem SignsIn.compares_highest : Along (ComparesHighest cx p) c.world.history := by
  refine Along.of_splits fun later e earlier hhist m hm n hn ↦ ?_
  obtain ⟨mid, a, older, rfl, ha⟩ := mem_acceptedCounters hn
  obtain ⟨w, hw, hwrites, htid⟩ := written_of_settled ha (Along.of_append (P := SignInsSettled cx p)
    (hhist ▸ hsettled) (by simp [Option.mem_def.mp hm]))
  obtain ⟨l₁, l₂, rfl⟩ := List.append_of_mem hw
  have hsplit : c.world.history = (later ++ e :: l₁) ++ w :: (l₂ ++ a :: older) := by simp [hhist]
  obtain ⟨mid', a', older', m', n', hmid, htid', ha', -, -, hafter⟩ :=
    hc.write_raises hcx hsettled hsplit hwrites
  have hhere : c.world.history = (later ++ e :: (l₁ ++ w :: l₂)) ++ a :: older := by simp [hhist]
  have hhere' : c.world.history = (later ++ e :: (l₁ ++ w :: mid')) ++ a' :: older' := by
    simp [hsplit, hmid]
  obtain ⟨rfl, rfl⟩ := hc.accepted_once hcx hhere hhere' (lists_of_accepted ha)
    (lists_of_accepted ha') (htid.symm.trans htid'.symm)
  obtain rfl : n = n' := Option.some.inj (ha.symm.trans ha')
  obtain ⟨c', hc', hworld⟩ := hc.past hhist
  have hsettled' : Along (SignInsSettled cx p) c'.world.history := by
    rw [hworld]
    exact Along.earlier (hhist ▸ hsettled)
  apply SignsIn.stays_above hcx hc' hsettled' (by simp [hworld]; rfl) hafter m
  rw [hworld]
  exact stored_of_compared hm

end Settled

/-- In every run in which a response is compared only once all those accepted before have been
written, the stored counter does not decrease, and responses are compared with at least the highest
counter accepted so far. -/
theorem passkey_counter_kept (hcx : CountsSignatures cx) (hc : SignsIn cx s c)
    (hsettled : Along (SignInsSettled cx p) c.world.history) :
    Along (fun e _ ↦ CounterRises cx p e) c.world.history ∧
      Along (ComparesHighest cx p) c.world.history :=
  ⟨hc.counter_rises hcx hsettled, hc.compares_highest hcx hsettled⟩

end Runs

namespace CounterSample

open Sample

/-- A credential is its counter in unary, and its id. -/
def encode (passkey : Passkey) : String :=
  String.ofList (List.replicate passkey.counter '1' ++ '0' :: passkey.credId.toList)

def decode (json : String) : Option Passkey :=
  let counter := (json.toList.takeWhile fun char ↦ decide (char = '1')).length
  some ⟨String.ofList (json.toList.drop (counter + 1)), counter⟩

theorem decode_encode (passkey : Passkey) : decode (encode passkey) = some passkey := by
  have hones : ∀ char ∈ List.replicate passkey.counter '1', decide (char = '1') = true := by
    intro char hchar
    simpa using List.eq_of_mem_replicate hchar
  have hdrop : (List.replicate passkey.counter '1' ++ '0' :: passkey.credId.toList).drop
      (passkey.counter + 1) = passkey.credId.toList := by
    simp [List.drop_append]
  simp [decode, encode, List.takeWhile_append_of_pos hones, hdrop]

def responseCounter (credential : String) : ℕ := if credential = "six" then 6 else 7

/-- Everybody has a key named `key` and signs in with it. -/
def counting : Context :=
  { Context.sample with
    identify := fun _ ↦ some 1
    finishAuthentication := fun credential _ keys ↦
      if (keys.any fun key ↦ decide (key.credId = "key")) && keys.all fun key ↦
          !decide (key.credId = "key") || decide (key.counter < responseCounter credential) then
        some ⟨"key", responseCounter credential⟩
      else none
    updateCredential := fun key result ↦
      if key.credId = result.credId then some ⟨key.credId, result.counter⟩ else none
    encodePasskey := encode
    decodePasskey := decode }

theorem counting_counts : CountsSignatures counting where
  decode_encode := decode_encode
  above := by
    intro credential state keys result hresult key hkey hid
    simp only [counting] at hresult
    split at hresult
    next haccepts =>
      cases hresult
      have hall := List.all_eq_true.mp (Bool.and_eq_true_iff.mp haccepts).2 key hkey
      simpa [hid] using hall
    next => cases hresult
  update := by
    intro key updated result hupdated
    simp only [counting] at hupdated
    split at hupdated
    next hid =>
      cases hupdated
      exact ⟨hid, rfl⟩
    next => cases hupdated

def start : Server :=
  { server (.single (account 1 "ada@example.com" .user)) with
    db.passkeys := .single ⟨2, 1, "laptop", "key", encode ⟨"key", 5⟩, 0, none⟩ }

def ceremonies : List (Action Request ℕ) :=
  alone 0 .passkeyLoginBegin 6 ++ alone 1 .passkeyLoginBegin 6

def inTurn : List (Action Request ℕ) :=
  ceremonies ++ alone 2 (.passkeyLoginFinish "1001" "six") 5 ++
    alone 3 (.passkeyLoginFinish "1003" "seven") 5

/-- The second sign-in reads the passkey before the first one writes it, and writes after it. -/
def overlapping : List (Action Request ℕ) :=
  ceremonies ++ .start (.passkeyLoginFinish "1001" "seven") :: List.replicate 3 (.run 2) ++
    .start (.passkeyLoginFinish "1003" "six") :: List.replicate 3 (.run 3) ++ [.run 2, .run 3]

/-- The stored counter falls from seven to six. -/
def regresses : AppEvent → Bool
  | .ran _ _ q b => decide (storedCounter counting 2 b = some 7) &&
      decide (storedCounter counting 2 ((machine counting).exec q b).2 = some 6)
  | .answered .. => false

end CounterSample

open CounterSample in
theorem passkey_counter_kept_inTurn :
    ∃ c, SignsIn counting CounterSample.start c ∧
      storedCounter counting 2 c.world.store = some 7 ∧
        Along (fun e _ ↦ CounterRises counting 2 e) c.world.history ∧
          Along (ComparesHighest counting 2) c.world.history := by
  let test : AppConfig → Bool := fun c ↦
    decide (storedCounter counting 2 c.world.store = some 7) &&
      decide (Along (SignInsSettled counting 2) c.world.history)
  obtain ⟨c, hc, htest⟩ : ∃ c, SignsIn counting CounterSample.start c ∧ test c = true :=
    Reachable.of_schedule inTurn test (by decide) (by decide)
  simp only [test, Bool.and_eq_true, decide_eq_true_eq] at htest
  exact ⟨c, hc, htest.1, passkey_counter_kept counting_counts hc htest.2⟩

open CounterSample in
/-- Two sign-ins write their counters in the opposite order. -/
theorem passkey_counter_regresses :
    CountsSignatures counting ∧ ∃ c, SignsIn counting CounterSample.start c ∧
      ¬Along (fun e _ ↦ CounterRises counting 2 e) c.world.history ∧
        ¬Along (ComparesHighest counting 2) c.world.history := by
  let test : AppConfig → Bool := fun c ↦
    c.world.history.any regresses && !decide (Along (ComparesHighest counting 2) c.world.history)
  obtain ⟨c, hc, htest⟩ : ∃ c, SignsIn counting CounterSample.start c ∧ test c = true :=
    Reachable.of_schedule overlapping test (by decide) (by decide)
  simp only [test, Bool.and_eq_true, List.any_eq_true, Bool.not_eq_true',
    decide_eq_false_iff_not] at htest
  obtain ⟨⟨e, he, hregresses⟩, hlow⟩ := htest
  refine ⟨counting_counts, c, hc, fun hrises ↦ ?_, hlow⟩
  obtain ⟨later, earlier, -, hrise⟩ := hrises.of_mem he
  cases e with
  | answered => cases hregresses
  | ran i k q b =>
      simp only [regresses, Bool.and_eq_true, decide_eq_true_eq] at hregresses
      exact absurd (hrise 7 hregresses.1 6 hregresses.2) (by decide)

end ApiStarter
