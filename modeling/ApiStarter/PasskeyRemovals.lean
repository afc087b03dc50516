import ApiStarter.Interleave.Capacity
import ApiStarter.SignInMethods

/-!
# The last passkey

Every deletion of a passkey counts the sign-in methods first, but nothing holds
the account in between: deletions that count before the others delete all see
the same number.  On an account that signs in with passkeys only, one remains
exactly when each deletion was two ahead of what was removed since its count.
-/

namespace ApiStarter

open Interleave Interleave.Prog Relational

def Request.deletesPasskey : Request → Bool
  | .passkeyDelete .. => true
  | _ => false

/-- The account signs in with passkeys and nothing else. -/
def PasskeysOnly (u : Uuid) (s : Server) : Prop :=
  userIs u (fun row ↦ row.passwordSet = false) s ∧ s.db.linkedIdentities u = 0

/-- The statement takes a passkey of the account away. -/
def removesPasskey (u : Uuid) : AppEvent → Bool
  | .ran _ _ (.sql (.passkeys (.delete id passkey))) b =>
      decide (id = u) && (b.db.passkeys.get? passkey).any fun p ↦ decide (p.userId = u)
  | _ => false

def countsMethods (i : ℕ) (u : Uuid) : AppEvent → Bool
  | .ran j _ (.sql (.signInMethodCount id)) _ => decide (j = i) && decide (id = u)
  | _ => false

/-- A deletion that takes a passkey away had counted at least two more sign-in methods than
passkeys were removed since. -/
def leavesPasskey (u : Uuid) (e : AppEvent) (earlier : List AppEvent) : Bool :=
  !removesPasskey u e || ((earlier.find? (countsMethods e.tid u)).bind fun count ↦
    count.store.db.signInMethodCount u).any fun n ↦
      decide ((earlier.takeWhile fun x ↦ !countsMethods e.tid u x).countP
        (removesPasskey u) + 2 ≤ n)

/-! ## One statement -/

section Statements

variable {cx : Context} {u : Uuid} {s : Server} {q : Statement}

/-- What a run of deletions can execute. -/
def DeletesOnly (q : Statement) : Prop := q.effect = .none ∨ q.effect = .deletePasskey

theorem passkeysOnly_exec (hq : DeletesOnly q) (h : PasskeysOnly u s) :
    PasskeysOnly u ((machine cx).exec q s).2 := by
  obtain ⟨⟨row, hrow, hset⟩, hlinked⟩ := h
  cases q with
  | sql q =>
      cases q with
      | users q =>
          refine ⟨⟨_, UsersSql.get?_run hrow q, ?_⟩, hlinked⟩
          cases q <;> first | exact hset | simp [DeletesOnly] at hq
      | oauthIdentities q =>
          refine ⟨⟨row, hrow, hset⟩, ?_⟩
          cases q <;> first | exact hlinked | simp [DeletesOnly] at hq
      | _ => exact ⟨⟨row, hrow, hset⟩, hlinked⟩
  | _ => exact ⟨⟨row, hrow, hset⟩, hlinked⟩

/-- Passkeys are counted before and after a deletion. -/
theorem registeredPasskeys_deleted (i : ℕ) (k : Request) (id passkey : Uuid) :
    s.db.registeredPasskeys u =
      ((machine cx).exec (.sql (.passkeys (.delete id passkey))) s).2.db.registeredPasskeys u +
        if removesPasskey u (.ran i k (.sql (.passkeys (.delete id passkey))) s) then 1 else 0 := by
  have hmine : (s.db.passkeys.get? passkey).any
      (fun p ↦ decide (p.userId = u) && decide (p.userId = id)) =
        removesPasskey u (.ran i k (.sql (.passkeys (.delete id passkey))) s) := by
    unfold removesPasskey
    by_cases hid : id = u
    · simp [hid]
    · cases s.db.passkeys.get? passkey with
      | none => simp [hid]
      | some p =>
          have hne : ¬(p.userId = u ∧ p.userId = id) := fun h ↦ hid (h.2.symm.trans h.1)
          simpa [hid] using hne
  rw [← registeredPasskeys_deleteWhere, hmine]
  rfl

theorem registeredPasskeys_updated (cx : Context) (u : Uuid) (s : Server) (id : Uuid)
    (json : String) :
    s.db.registeredPasskeys u = ((machine cx).exec
      (.sql (.passkeys (.updateAfterUse id json))) s).2.db.registeredPasskeys u := by
  simp only [exec_sql, Sql.run, PasskeySql.run, Db.registeredPasskeys]
  exact (Table.countWhere_updateWhere (by intro; rfl)).symm

theorem registeredPasskeys_ran (cx : Context) (u : Uuid) (s : Server) (hq : DeletesOnly q) (i : ℕ)
    (k : Request) :
    s.db.registeredPasskeys u = ((machine cx).exec q s).2.db.registeredPasskeys u +
      if removesPasskey u (.ran i k q s) then 1 else 0 := by
  cases q with
  | sql q =>
      cases q with
      | passkeys q =>
          cases q with
          | delete id passkey => exact registeredPasskeys_deleted i k id passkey
          | insert => simp [DeletesOnly] at hq
          | updateAfterUse id json => exact registeredPasskeys_updated cx u s id json
          | listByUser => rfl
      | _ => rfl
  | _ => rfl

end Statements

/-! ## All runs -/

section Runs

variable {cx : Context} {s : Server} {c : AppConfig} {u : Uuid}

/-- What is known of a run of deletions. -/
theorem deletesOnly_of_reachable
    (hc : Reachable (machine cx) (handle cx) (fun k ↦ k.deletesPasskey = true) s c) {i : ℕ}
    {k : Request} {q : Statement} {b : Server} (h : .ran i k q b ∈ c.world.history) :
    DeletesOnly q := by
  have hran := hc.ran_only (S := fun k q ↦ q.effect ∈ .none :: k.effects)
    (fun k _ ↦ handle_only k fun _ hq ↦ hq) i k q b h
  obtain ⟨hk, heffect⟩ := hran
  cases k with
  | passkeyDelete caller id => simpa [DeletesOnly] using heffect
  | _ => cases hk

/-- The passkeys that an event found are those that are left and those removed since. -/
theorem registeredPasskeys_since
    (hc : Reachable (machine cx) (handle cx) (fun k ↦ k.deletesPasskey = true) s c)
    {later earlier : List AppEvent} {e : AppEvent}
    (hhist : c.world.history = later ++ e :: earlier) :
    e.store.db.registeredPasskeys u = c.world.store.db.registeredPasskeys u +
      (later ++ [e]).countP (removesPasskey u) := by
  have htally : Tally (machine cx) (fun s ↦ s.db.registeredPasskeys u) (fun _ ↦ false)
      (removesPasskey u) c.world.history :=
    { env := fun _ _ ↦ rfl
      answered := fun _ _ _ _ ↦ ⟨rfl, rfl⟩
      ran := fun i k q s h ↦ registeredPasskeys_ran cx u s (deletesOnly_of_reachable hc h) i k }
  simpa using hc.tally_from htally hhist

theorem passkeysOnly_of_reachable
    (hc : Reachable (machine cx) (handle cx) (fun k ↦ k.deletesPasskey = true) s c)
    (hs : PasskeysOnly u s) : PasskeysOnly u c.world.store := by
  refine hc.live_of_start (PasskeysOnly u) (fun _ _ ↦ Iff.rfl) hs fun x hx hlive hend ↦ ?_
  cases x with
  | answered => exact hend
  | ran i k q b => exact hend (passkeysOnly_exec (deletesOnly_of_reachable hc hx) hlive)

/-- The count a deletion of the account's passkey was based on. -/
theorem counted_of_removes
    (hc : Reachable (machine cx) (handle cx) (fun k ↦ k.deletesPasskey = true) s c)
    {later earlier : List AppEvent} {e : AppEvent} (hhist : c.world.history = later ++ e :: earlier)
    (hremoves : removesPasskey u e = true) : CountedMethods e.tid u earlier := by
  have hall : Along RemovesAfterCounting c.world.history :=
    hc.along fun k _ ↦ handles_removesAfterCounting k
  have hlocal : RemovesAfterCounting e earlier := Along.of_append (hhist ▸ hall)
  unfold removesPasskey at hremoves
  split at hremoves
  next i k id passkey b =>
    obtain ⟨hid, -⟩ := (Bool.and_eq_true_iff ..).mp hremoves
    obtain rfl := of_decide_eq_true hid
    exact hlocal
  next => cases hremoves

/-- Where a passkey is removed, the condition is about the count that let the deletion through. -/
theorem leavesPasskey_iff_counted
    (hc : Reachable (machine cx) (handle cx) (fun k ↦ k.deletesPasskey = true) s c)
    {later earlier : List AppEvent} {e : AppEvent} (hhist : c.world.history = later ++ e :: earlier)
    (hremoves : removesPasskey u e = true) :
    ∃ newer k b older n, earlier = newer ++ .ran e.tid k (.sql (.signInMethodCount u)) b :: older ∧
      b.db.signInMethodCount u = some n ∧ 2 ≤ n ∧
      (earlier.takeWhile fun x ↦ !countsMethods e.tid u x) = newer ∧
      (leavesPasskey u e earlier = true ↔ newer.countP (removesPasskey u) + 2 ≤ n) := by
  obtain ⟨newer, k, b, older, n, hearlier, hn, htwo, hother⟩ :=
    counted_of_removes hc hhist hremoves
  have hnewer : ∀ x ∈ newer, countsMethods e.tid u x = false := by
    intro x hx
    unfold countsMethods
    split
    next j k' id b' =>
      have hj : j ≠ e.tid := hother _ hx
      simp [hj]
    next => rfl
  have htake : (earlier.takeWhile fun x ↦ !countsMethods e.tid u x) = newer := by
    rw [hearlier, List.takeWhile_append_of_pos fun x hx ↦ by simp [hnewer x hx]]
    simp [countsMethods]
  have hfind : earlier.find? (countsMethods e.tid u) =
      some (.ran e.tid k (.sql (.signInMethodCount u)) b) := by
    rw [hearlier, List.find?_append, List.find?_eq_none.mpr fun x hx ↦ by simp [hnewer x hx]]
    simp [countsMethods]
  refine ⟨newer, k, b, older, n, hearlier, hn, htwo, htake, ?_⟩
  simp only [leavesPasskey, hremoves, hfind, htake, Bool.not_true, Bool.false_or, Option.bind_some,
    Event.store_ran, hn, Option.any_some, decide_eq_true_eq]

/-- The guard is enough for a deletion that nobody gets ahead of: where no passkey of the account
was removed since its count, the condition holds. -/
theorem leavesPasskey_of_undisturbed
    (hc : Reachable (machine cx) (handle cx) (fun k ↦ k.deletesPasskey = true) s c)
    {later earlier : List AppEvent} {e : AppEvent} (hhist : c.world.history = later ++ e :: earlier)
    (hundisturbed : ∀ x ∈ earlier.takeWhile fun x ↦ !countsMethods e.tid u x,
      removesPasskey u x = false) : leavesPasskey u e earlier = true := by
  cases hremoves : removesPasskey u e with
  | false => simp [leavesPasskey, hremoves]
  | true =>
      obtain ⟨newer, -, -, -, n, -, -, htwo, htake, hiff⟩ :=
        leavesPasskey_iff_counted hc hhist hremoves
      rw [htake] at hundisturbed
      have hnone : newer.countP (removesPasskey u) = 0 :=
        List.countP_eq_zero.mpr fun x hx ↦ by simp [hundisturbed x hx]
      apply hiff.mpr
      omega

theorem signInMethodCount_of_passkeysOnly (h : PasskeysOnly u s) :
    s.db.signInMethodCount u = some (s.db.registeredPasskeys u) := by
  obtain ⟨⟨row, hrow, hset⟩, hlinked⟩ := h
  simp [Db.signInMethodCount, hrow, User.passwordMethods, hset, hlinked]

/-- Where a passkey is removed, the condition says that there were two. -/
theorem leavesPasskey_iff
    (hc : Reachable (machine cx) (handle cx) (fun k ↦ k.deletesPasskey = true) s c)
    (hs : PasskeysOnly u s) {later earlier : List AppEvent} {e : AppEvent}
    (hhist : c.world.history = later ++ e :: earlier) (hremoves : removesPasskey u e = true) :
    leavesPasskey u e earlier = true ↔ 2 ≤ e.store.db.registeredPasskeys u := by
  obtain ⟨newer, k, b, older, n, hearlier, hn, -, -, hiff⟩ :=
    leavesPasskey_iff_counted hc hhist hremoves
  obtain ⟨c₁, hc₁, hworld₁⟩ := hc.past hhist
  have hhist₁ : c₁.world.history =
      newer ++ .ran e.tid k (.sql (.signInMethodCount u)) b :: older := by rw [hworld₁, hearlier]
  obtain ⟨c₀, hc₀, hworld₀⟩ := hc₁.past hhist₁
  have hb : PasskeysOnly u b := by
    have honly := passkeysOnly_of_reachable hc₀ hs
    rwa [hworld₀] at honly
  have hcount : b.db.registeredPasskeys u = n := by
    rw [signInMethodCount_of_passkeysOnly hb] at hn
    exact Option.some.inj hn
  have hlowered := registeredPasskeys_since (u := u) hc₁ hhist₁
  have hsum : n = e.store.db.registeredPasskeys u + newer.countP (removesPasskey u) := by
    rw [← hcount]
    simpa [hworld₁, List.countP_append, removesPasskey] using hlowered
  rw [hiff]
  omega

end Runs

theorem passkey_remains_iff {cx : Context} {s : Server} {c : AppConfig} {u : Uuid}
    (hc : Reachable (machine cx) (handle cx) (fun k ↦ k.deletesPasskey = true) s c)
    (hs : PasskeysOnly u s) (hsome : 0 < s.db.registeredPasskeys u) :
    0 < c.world.store.db.registeredPasskeys u ↔
      Along (fun e earlier ↦ leavesPasskey u e earlier = true) c.world.history := by
  constructor
  · intro hremains
    apply Along.of_splits
    intro later e earlier hhist
    cases hremoves : removesPasskey u e with
    | false => simp [leavesPasskey, hremoves]
    | true =>
        apply (leavesPasskey_iff hc hs hhist hremoves).mpr
        have hlowered := registeredPasskeys_since (u := u) hc hhist
        simp only [List.countP_append, List.countP_singleton, hremoves, if_true] at hlowered
        omega
  · intro halong
    refine hc.live_of_start (fun s ↦ 0 < s.db.registeredPasskeys u) (fun _ _ ↦ Iff.rfl) hsome ?_
    intro x hx hlive hend
    obtain ⟨later, earlier, hhist⟩ := List.append_of_mem hx
    cases x with
    | answered => exact hend
    | ran i k q b =>
        have hran := registeredPasskeys_ran cx u b (deletesOnly_of_reachable hc hx) i k
        cases hremoves : removesPasskey u (.ran i k q b) with
        | false =>
            simp only [hremoves, Bool.false_eq_true, if_false, Nat.add_zero] at hran
            exact hend (hlive.trans_eq hran)
        | true =>
            have hleaves : leavesPasskey u (.ran i k q b) earlier = true :=
              Along.of_append (hhist ▸ halong)
            have htwo := (leavesPasskey_iff hc hs hhist hremoves).mp hleaves
            simp only [hremoves, if_true] at hran
            simp only [Event.store_ran] at htwo
            exact hend (by omega)

/-! ## Two passkeys -/

namespace PasskeySample

open Sample

/-- Ada has two passkeys and no password. -/
def start : Server where
  db := { Db.empty with
    users := .single { account 1 "ada@example.com" .user with passwordSet := false }
    passkeys := ⟨[⟨11, 1, "phone", "credential-11", "json", 0, none⟩,
      ⟨12, 1, "laptop", "credential-12", "json", 0, none⟩], by decide⟩ }
  now := 0
  draws := 0
  mails := []

def deletion (passkey : Uuid) : Request := .passkeyDelete (bearer 1 .user) passkey

/-- Both requests count before either deletes. -/
def crossed : List (Action Request ℕ) :=
  .start (deletion 11) :: .start (deletion 12) :: List.replicate 4 (.run 0) ++
    List.replicate 5 (.run 1) ++ [.run 0]

end PasskeySample

theorem passkey_remains_after_deletion :
    ∃ c, Reachable (machine .sample) (handle .sample) (fun k ↦ k.deletesPasskey = true)
      PasskeySample.start c ∧ c.world.store.db.passkeys.rows.length = 1 ∧
        (0 < c.world.store.db.registeredPasskeys 1 ↔
          Along (fun e earlier ↦ leavesPasskey 1 e earlier = true) c.world.history) := by
  obtain ⟨c, hc, htest⟩ : ∃ c, Reachable (machine .sample) (handle .sample)
      (fun k ↦ k.deletesPasskey = true) PasskeySample.start c ∧
        decide (c.world.store.db.passkeys.rows.length = 1) = true :=
    Reachable.of_schedule (Sample.alone 0 (PasskeySample.deletion 11) 5) _ (by decide) (by decide)
  refine ⟨c, hc, of_decide_eq_true htest, passkey_remains_iff hc ⟨⟨_, rfl, rfl⟩, rfl⟩ (by decide)⟩

/-- Two deletions at once leave an account nobody can sign in to. -/
theorem last_passkey_can_be_deleted :
    ¬∀ (cx : Context) (s : Server) (c : AppConfig) (u : Uuid),
      Reachable (machine cx) (handle cx) (fun k ↦ k.deletesPasskey = true) s c →
        PasskeysOnly u s → 0 < s.db.registeredPasskeys u →
          0 < c.world.store.db.registeredPasskeys u := by
  intro h
  obtain ⟨c, hc, htest⟩ : ∃ c, Reachable (machine .sample) (handle .sample)
      (fun k ↦ k.deletesPasskey = true) PasskeySample.start c ∧
        decide (c.world.store.db.registeredPasskeys 1 = 0) = true :=
    Reachable.of_schedule PasskeySample.crossed _ (by decide) (by decide)
  have hsome := h .sample _ c 1 hc ⟨⟨_, rfl, rfl⟩, rfl⟩ (by decide)
  exact absurd (of_decide_eq_true htest) hsome.ne'

end ApiStarter
