import ApiStarter.Freshness
import ApiStarter.Links

/-!
# Reset emails in an hour

Asking for a reset link first counts the links stored for the account in the
last hour, and three statements later stores and mails one more.  An email that
goes out meanwhile is not in the count.  As long as the count behind each email
saw all the links mailed in the hour before it, no hour sees more than three.
-/

namespace ApiStarter

open Interleave Interleave.Prog Relational

def Request.forgetsOrCleans : Request → Bool
  | .forgotPassword _ | .cleanup => true
  | _ => false

/-- A password-reset email goes to the account's address. -/
def resetMail (u : Uuid) : AppEvent → Bool
  | .ran _ _ (.mail (.passwordReset recipient _)) b =>
      (b.db.users.find? fun row ↦ decide (row.email = recipient) && row.isLive).any
        fun row ↦ decide (row.id = u)
  | _ => false

/-- A reset email to the account in the hour from `t` on. -/
def resetMailFrom (u : Uuid) (t : Time) (e : AppEvent) : Bool :=
  resetMail u e && decide (t ≤ e.store.now) && decide (e.store.now < t + Time.hours 1)

/-- Thread `i` counts the reset links of the account. -/
def countsResets (i : ℕ) (u : Uuid) : AppEvent → Bool
  | .ran j _ (.sql (.authTokens (.countIssuedSince id purpose _))) _ =>
      decide (j = i) && decide (id = u) && decide (purpose = .passwordReset)
  | _ => false

/-- `user_id = $1 AND purpose = $2 AND created_at > $3` -/
def AuthToken.isIssuedSince (userId : Uuid) (purpose : TokenPurpose) (since : Time)
    (t : AuthToken) : Bool :=
  decide (t.userId = userId) && decide (t.purpose = purpose) && decide (since < t.createdAt)

/-- The link in the email is one of those that were counted. -/
def includesMail (cx : Context) : (count mail : AppEvent) → Bool
  | .ran _ _ (.sql (.authTokens (.countIssuedSince userId purpose since))) b,
      .ran _ _ (.mail (.passwordReset _ raw)) _ =>
      (b.db.authTokens.get? (cx.sha256 raw)).any (AuthToken.isIssuedSince userId purpose since)
  | _, _ => false

/-- What the request of a reset email counted included every reset email to the account in the
hour before. -/
def countsHour (cx : Context) (u : Uuid) (e : AppEvent) (earlier : List AppEvent) : Bool :=
  !resetMail u e || (earlier.find? (countsResets e.tid u)).any fun count ↦
    earlier.all fun x ↦ !(resetMail u x && decide (e.store.now < x.store.now + Time.hours 1)) ||
      includesMail cx count x

/-! ## One request -/

def isResetMail : AppEvent → Bool
  | .ran _ _ (.mail (.passwordReset ..)) _ => true
  | _ => false

/-- A reset email is the first of its request, and goes to an account that was found by its
address, had fewer links than the limit, and was issued the one mailed. -/
def MailsAfterCounting (cx : Context) : AppEvent → List AppEvent → Prop
  | .ran i k (.mail (.passwordReset recipient raw)) _, own => ∃ user since,
      (∃ b, own.find? (countsResets i user.id) =
        some (.ran i k (.sql (.authTokens (.countIssuedSince user.id .passwordReset since))) b) ∧
          b.db.authTokens.countWhere (AuthToken.isIssuedSince user.id .passwordReset since) <
            maxResetsPerHour) ∧
        (∃ email b, .ran i k (.sql (.users (.findByEmail email))) b ∈ own ∧
          (b.db.users.find? fun row ↦ decide (row.email = email) && row.isLive) = some user ∧
            user.email = recipient) ∧
          (∃ x ∈ own, x.Mints Statement.Mints (.link (cx.sha256 raw))) ∧
            ∀ x ∈ own, isResetMail x = false
  | _, _ => True

theorem mailsAfterCounting_of_effect {cx : Context} {q : Statement} (hq : q.effect ≠ .mailLink)
    (i : ℕ) (k : Request) (s : Server) (own : List AppEvent) :
    MailsAfterCounting cx (.ran i k q s) own := by
  unfold MailsAfterCounting
  split
  next heq =>
    cases heq
    exact absurd rfl hq
  next => trivial

theorem traces_mailsAfterCounting (cx : Context) {k : Request} (hk : k.forgetsOrCleans = true) :
    Traces (machine cx) (MailsAfterCounting cx) k (handle cx) := by
  cases k with
  | forgotPassword email =>
      intro i
      have hE : ∀ (a : Except AppError Response) own,
          Delivers (MailsAfterCounting cx) i (.forgotPassword email) a own := fun _ _ _ ↦ trivial
      have hquiet : ∀ q : Statement, q.effect ≠ .mailLink → ∀ s own, MailsAfterCounting cx
          (.ran i (.forgotPassword email) q s) own := fun q hq s own ↦
        mailsAfterCounting_of_effect hq i _ s own
      refine traced_bind.mpr (traced_bind.mpr (traced_sql (fun s₀ ↦ hquiet _ (by simp) s₀ _)
        (fun s₀ found hfound ↦ ?_) (fun _ _ ↦ hE _ _) (hE _ _)))
      cases found with
      | none => exact hE _ _
      | some user =>
          have hfind := Option.some.inj hfound
          dsimp only
          split
          swap
          · exact hE _ _
          refine traced_bind.mpr (traced_bind.mpr (traced_clock fun s₁ ↦ ⟨hquiet _ (by simp) s₁ _,
            traced_sql (fun s₂ ↦ hquiet _ (by simp) s₂ _) (fun s₂ recent hrecent ↦ ?_)
              (fun _ _ ↦ hE _ _) (hE _ _)⟩))
          obtain rfl := Option.some.inj hrecent
          split
          · exact hE _ _
          next hfew =>
            refine traced_bind.mpr (traced_bind.mpr (traced_sql (fun s₃ ↦ hquiet _ (by simp) s₃ _)
              (fun s₃ _ _ ↦ ?_) (fun _ _ ↦ hE _ _) (hE _ _)))
            refine traced_bind.mpr (traced_bind.mpr ((traced_ask _).mpr
              ⟨fun s₄ ↦ ⟨hquiet _ (by simp) s₄ _, ?_⟩, by rintro _ ⟨⟩⟩))
            refine traced_bind.mpr (traced_clock fun s₅ ↦ ⟨hquiet _ (by simp) s₅ _, ?_⟩)
            refine traced_bind.mpr (traced_sql (fun s₆ ↦ hquiet _ (by simp) s₆ _)
              (fun s₆ _ _ ↦ ?_) (fun _ _ ↦ hE _ _) (hE _ _))
            refine (traced_ask _).mpr ⟨fun s₇ ↦ ⟨?_, hE _ _⟩, by rintro _ ⟨⟩⟩
            refine ⟨user, s₁.now - Time.hours 1, ⟨s₂, ?_, ?_⟩, ⟨_, s₀, ?_, hfind, rfl⟩,
              ⟨_, List.mem_cons_self, rfl⟩, ?_⟩
            · simp [countsResets]
            · exact Nat.lt_of_not_le hfew
            · simp
            · simp [isResetMail]
  | cleanup =>
      exact .of_only (S := fun q ↦ q.effect = .none)
        (handle_only _ fun q hq ↦ by simpa using hq)
        (fun q hq i s own ↦ mailsAfterCounting_of_effect (by simp [hq]) i _ s own)
        fun _ a _ _ ↦ by cases a <;> trivial
  | _ => cases hk

/-! ## All runs -/

section Runs

variable {cx : Context} {s : Server} {c : AppConfig} {u : Uuid} {later earlier : List AppEvent}
  {e : AppEvent}

theorem users_of_forgets
    (hc : Reachable (machine cx) (handle cx) (fun k ↦ k.forgetsOrCleans = true) s c) :
    c.world.store.db.users = s.db.users := by
  refine hc.live_of_start (fun s' ↦ s'.db.users = s.db.users) (fun _ _ ↦ Iff.rfl) rfl ?_
  intro x hx hsame hend
  cases x with
  | answered => exact hend
  | ran i k q b =>
      obtain ⟨hk, heffect⟩ := hc.ran_only (S := fun k q ↦ q.effect ∈ .none :: k.effects)
        (fun k _ ↦ handle_only k fun _ hq ↦ hq) i k q b hx
      have hreads : ∀ q' : UsersSql, q = .sql (.users q') →
          (q'.run b.now b.db.users).2 = b.db.users := by
        rintro q' rfl
        cases k with
        | forgotPassword | cleanup => cases q' <;> first | rfl | simp at heffect
        | _ => cases hk
      cases q with
      | sql q =>
          cases q with
          | users q => exact hend ((hreads q rfl).trans hsame)
          | _ => exact hend hsame
      | _ => exact hend hsame

/-- The count behind a reset email. -/
theorem counted_of_resetMail
    (hc : Reachable (machine cx) (handle cx) (fun k ↦ k.forgetsOrCleans = true) s c)
    (hhist : c.world.history = later ++ e :: earlier) (hmail : resetMail u e = true) :
    ∃ k b since, earlier.find? (countsResets e.tid u) =
      some (.ran e.tid k (.sql (.authTokens (.countIssuedSince u .passwordReset since))) b) ∧
        b.db.authTokens.countWhere (AuthToken.isIssuedSince u .passwordReset since) <
          maxResetsPerHour := by
  have hlocal : AlongOwn (MailsAfterCounting cx) e earlier :=
    Along.of_append (hhist ▸ hc.traces fun k hk ↦ traces_mailsAfterCounting cx hk)
  unfold resetMail at hmail
  split at hmail
  next i k recipient raw b =>
    obtain ⟨row, hrow, hid⟩ := (Option.any_eq_true ..).mp hmail
    obtain rfl : row.id = u := of_decide_eq_true hid
    obtain ⟨user, since, ⟨b₁, hcount, hfew⟩, ⟨email, b₀, hfound, hfind, rfl⟩, -⟩ := hlocal
    have husers : b₀.db.users = b.db.users := by
      obtain ⟨l, older, hearlier⟩ := List.append_of_mem (mem_ownEvents.mp hfound).1
      obtain ⟨d, hd, hworld⟩ := hc.past hhist
      have hhist₀ : c.world.history =
          (later ++ .ran i k (.mail (.passwordReset user.email raw)) b :: l) ++
            .ran i k (.sql (.users (.findByEmail email))) b₀ :: older := by
        simp [hhist, hearlier]
      obtain ⟨d₀, hd₀, hworld₀⟩ := hc.past hhist₀
      have h₀ := users_of_forgets hd₀
      have h := users_of_forgets hd
      rw [hworld₀] at h₀
      rw [hworld] at h
      exact h₀.trans h.symm
    obtain rfl : user = row := by
      have hemail : user.email = email := by
        have hboth := (Table.find?_eq_some hfind).2
        simp only [Bool.and_eq_true, decide_eq_true_eq] at hboth
        exact hboth.1
      rw [husers, ← hemail, hrow] at hfind
      exact (Option.some.inj hfind).symm
    refine ⟨k, b₁, since, ?_, hfew⟩
    simp only [Event.tid_ran] at hcount ⊢
    rw [← hcount, ownEvents, List.find?_filter]
    refine congrArg (List.find? · earlier) (funext fun x ↦ ?_)
    by_cases htid : x.tid = i
    · simp [htid]
    · unfold countsResets
      split
      next j k' id purpose since' b' =>
        have hj : j ≠ i := htid
        simp [hj]
      next => simp
  next => cases hmail

/-- How the link in a reset email is stored. -/
def mailedHash (cx : Context) : AppEvent → String
  | .ran _ _ (.mail (.passwordReset _ raw)) _ => cx.sha256 raw
  | _ => ""

theorem isResetMail_of_resetMail (h : resetMail u e = true) : isResetMail e = true := by
  unfold resetMail at h
  split at h
  · rfl
  · cases h

theorem stored_of_resetMail
    (hc : Reachable (machine cx) (handle cx) (fun k ↦ k.forgetsOrCleans = true) s c)
    (hhist : c.world.history = later ++ e :: earlier) (hmail : isResetMail e = true) :
    (∃ x ∈ ownEvents e.tid earlier, x.Mints Statement.Mints (.link (mailedHash cx e))) ∧
      ∀ x ∈ ownEvents e.tid earlier, isResetMail x = false := by
  have hlocal : AlongOwn (MailsAfterCounting cx) e earlier :=
    Along.of_append (hhist ▸ hc.traces fun k hk ↦ traces_mailsAfterCounting cx hk)
  unfold isResetMail at hmail
  split at hmail
  next i k recipient raw b =>
    obtain ⟨user, since, -, -, hstored, hfirst⟩ := hlocal
    exact ⟨hstored, hfirst⟩
  next => cases hmail

/-- No link is mailed twice. -/
theorem mailedHash_pairwise
    (hc : Reachable (machine cx) (handle cx) (fun k ↦ k.forgetsOrCleans = true) s c)
    (hdistinct : ∀ hash, cx.DistinctDraws (.link hash) c.world.store.draws) :
    c.world.history.Pairwise fun e₂ e₁ ↦ isResetMail e₂ = true → isResetMail e₁ = true →
      mailedHash cx e₂ ≠ mailedHash cx e₁ := by
  refine pairwise_of_split fun later e₂ mid e₁ older hhist hmail₂ hmail₁ heq ↦ ?_
  have hhist₁ : c.world.history = (later ++ e₂ :: mid) ++ e₁ :: older := by simp [hhist]
  obtain ⟨⟨x₂, hx₂, hmints₂⟩, hfirst⟩ := stored_of_resetMail hc hhist hmail₂
  obtain ⟨⟨x₁, hx₁, hmints₁⟩, -⟩ := stored_of_resetMail hc hhist₁ hmail₁
  obtain ⟨hin₂, htid₂⟩ := mem_ownEvents.mp hx₂
  obtain ⟨hin₁, htid₁⟩ := mem_ownEvents.mp hx₁
  have hreached : Reached cx s c := hc.mono fun _ _ ↦ trivial
  rw [heq] at hmints₂
  obtain rfl : x₂ = x₁ := (hreached.minted_once (hdistinct _)).eq
    (hhist ▸ List.mem_append_right _ (List.mem_cons_of_mem _ hin₂))
    (hhist₁ ▸ List.mem_append_right _ (List.mem_cons_of_mem _ hin₁)) hmints₂ hmints₁
  have hown : e₁ ∈ ownEvents e₂.tid (mid ++ e₁ :: older) :=
    mem_ownEvents.mpr ⟨by simp, htid₁.symm.trans htid₂⟩
  rw [hfirst e₁ hown] at hmail₁
  cases hmail₁

/-- A count includes at most as many emails as it counts links. -/
theorem countP_includesMail_le
    (hc : Reachable (machine cx) (handle cx) (fun k ↦ k.forgetsOrCleans = true) s c)
    (hdistinct : ∀ hash, cx.DistinctDraws (.link hash) c.world.store.draws)
    (hhist : c.world.history = later ++ e :: earlier) {i : ℕ} {k : Request} {b : Server}
    {since : Time} :
    (earlier.countP fun x ↦ resetMail u x && includesMail cx
      (.ran i k (.sql (.authTokens (.countIssuedSince u .passwordReset since))) b) x) ≤
        b.db.authTokens.countWhere (AuthToken.isIssuedSince u .passwordReset since) := by
  let mails := earlier.filter fun x ↦ resetMail u x && includesMail cx
    (.ran i k (.sql (.authTokens (.countIssuedSince u .passwordReset since))) b) x
  let counted := b.db.authTokens.rows.filter (AuthToken.isIssuedSince u .passwordReset since)
  have hnodup : (mails.map (mailedHash cx)).Nodup := by
    have hpair : earlier.Pairwise _ :=
      (List.pairwise_cons.mp
        (List.pairwise_append.mp (hhist ▸ mailedHash_pairwise hc hdistinct)).2.1).2
    refine List.pairwise_map.mpr (List.pairwise_filter.mpr (hpair.imp fun hne h₂ h₁ ↦ ?_))
    exact hne (isResetMail_of_resetMail ((Bool.and_eq_true_iff ..).mp h₂).1)
      (isResetMail_of_resetMail ((Bool.and_eq_true_iff ..).mp h₁).1)
  have hsubset : mails.map (mailedHash cx) ⊆ counted.map AuthToken.tokenHash := by
    intro hash hhash
    obtain ⟨x, hx, rfl⟩ := List.mem_map.mp hhash
    obtain ⟨-, hincludes⟩ := (Bool.and_eq_true_iff ..).mp (List.mem_filter.mp hx).2
    unfold includesMail at hincludes
    split at hincludes
    next heq =>
      cases heq
      obtain ⟨t, ht, hissued⟩ := (Option.any_eq_true ..).mp hincludes
      exact List.mem_map.mpr ⟨t, List.mem_filter.mpr ⟨Table.mem_of_get? ht, hissued⟩,
        Table.key_of_get? ht⟩
    next => cases hincludes
  have hlength := (List.subperm_of_subset hnodup hsubset).length_le
  simp only [List.length_map] at hlength
  simpa [mails, counted, Table.countWhere, List.countP_eq_length_filter] using hlength

end Runs

theorem resets_limited {cx : Context} {s : Server} {c : AppConfig} {u : Uuid}
    (hc : Reachable (machine cx) (handle cx) (fun k ↦ k.forgetsOrCleans = true) s c)
    (hdistinct : ∀ hash, cx.DistinctDraws (.link hash) c.world.store.draws)
    (hcounts : Along (fun e earlier ↦ countsHour cx u e earlier = true) c.world.history)
    (t : Time) : c.world.history.countP (resetMailFrom u t) ≤ maxResetsPerHour := by
  by_contra hmany
  -- the request of the hour's last email counted all the others
  obtain ⟨later, e, earlier, hhist, he, hone⟩ := exists_first_of_countP (Nat.zero_lt_of_lt
    (Nat.lt_of_not_le hmany))
  simp only [resetMailFrom, Bool.and_eq_true, decide_eq_true_eq] at he
  obtain ⟨⟨hmail, -⟩, hend⟩ := he
  have hcond : countsHour cx u e earlier = true := Along.of_append (hhist ▸ hcounts)
  obtain ⟨k, b, since, hcount, hfew⟩ := counted_of_resetMail hc hhist hmail
  simp only [countsHour, hmail, hcount, Bool.not_true, Bool.false_or, Option.any_some,
    List.all_eq_true] at hcond
  have hincluded : earlier.countP (resetMailFrom u t) ≤ earlier.countP fun x ↦ resetMail u x &&
      includesMail cx
        (.ran e.tid k (.sql (.authTokens (.countIssuedSince u .passwordReset since))) b) x := by
    refine List.countP_mono_left fun x hx hboth ↦ ?_
    simp only [resetMailFrom, Bool.and_eq_true, decide_eq_true_eq] at hboth
    obtain ⟨⟨hmail', hstart⟩, -⟩ := hboth
    have hhour : e.store.now < x.store.now + Time.hours 1 :=
      hend.trans_le (Int.add_le_add_right hstart _)
    simpa [hmail', hhour] using hcond x hx
  apply hmany
  calc
    c.world.history.countP (resetMailFrom u t) = earlier.countP (resetMailFrom u t) + 1 := hone
    _ ≤ b.db.authTokens.countWhere (AuthToken.isIssuedSince u .passwordReset since) + 1 :=
      Nat.add_le_add_right (hincluded.trans (countP_includesMail_le hc hdistinct hhist)) 1
    _ ≤ maxResetsPerHour := hfew

/-! ## Four clicks at once -/

namespace ResetSample

open Sample

def asks : Request := .forgotPassword "ada@example.com"

/-- Three links, and a fourth request that is turned down. -/
def oneByOne : List (Action Request ℕ) :=
  alone 0 asks 8 ++ alone 1 asks 8 ++ alone 2 asks 8 ++ alone 3 asks 3

/-- Four requests that all count before the first stores its link. -/
def together : List (Action Request ℕ) :=
  List.replicate 4 (.start asks) ++ (List.range 4).flatMap (fun i ↦ List.replicate 3 (.run i)) ++
    (List.range 4).flatMap fun i ↦ List.replicate 5 (.run i)

theorem distinctTokens : ∀ m < 4, ∀ n < 4, Context.sample.sha256 (Context.sample.randomToken m) =
    Context.sample.sha256 (Context.sample.randomToken n) → m = n := by decide

end ResetSample

theorem resets_limited_one_by_one :
    ∃ c, Reachable (machine .sample) (handle .sample) (fun k ↦ k.forgetsOrCleans = true)
      LinkSample.start c ∧ 2 < c.world.history.countP (resetMailFrom 1 0) ∧
        ∀ t, c.world.history.countP (resetMailFrom 1 t) ≤ maxResetsPerHour := by
  let test : AppConfig → Bool := fun c ↦ decide (2 < c.world.history.countP (resetMailFrom 1 0)) &&
    (decide (c.world.store.draws = 3) &&
      decide (Along (fun e earlier ↦ countsHour .sample 1 e earlier = true) c.world.history))
  obtain ⟨c, hc, htest⟩ : ∃ c, Reachable (machine .sample) (handle .sample)
      (fun k ↦ k.forgetsOrCleans = true) LinkSample.start c ∧ test c = true :=
    Reachable.of_schedule ResetSample.oneByOne test (by decide) (by decide)
  simp only [test, Bool.and_eq_true, decide_eq_true_eq] at htest
  obtain ⟨hthree, hdraws, hcounts⟩ := htest
  refine ⟨c, hc, hthree, resets_limited hc (fun hash m n hm hn hfirst hsecond ↦ ?_) hcounts⟩
  rw [hdraws] at hm hn
  exact ResetSample.distinctTokens m (by omega) n (by omega) (hfirst.trans hsecond.symm)

/-- Four clicks at once send four emails. -/
theorem resets_unlimited_together :
    ¬∀ (cx : Context) (s : Server) (c : AppConfig) (u : Uuid) (t : Time),
      Reachable (machine cx) (handle cx) (fun k ↦ k.forgetsOrCleans = true) s c →
        (∀ hash, cx.DistinctDraws (.link hash) c.world.store.draws) →
          c.world.history.countP (resetMailFrom u t) ≤ maxResetsPerHour := by
  intro h
  obtain ⟨c, hc, htest⟩ : ∃ c, Reachable (machine .sample) (handle .sample)
      (fun k ↦ k.forgetsOrCleans = true) LinkSample.start c ∧
        (decide (c.world.history.countP (resetMailFrom 1 0) = 4) &&
          decide (c.world.store.draws = 4)) = true :=
    Reachable.of_schedule ResetSample.together _ (by decide) (by decide)
  simp only [Bool.and_eq_true, decide_eq_true_eq] at htest
  obtain ⟨hfour, hdraws⟩ := htest
  have hlimited := h .sample _ c 1 0 hc fun hash m n hm hn hfirst hsecond ↦ by
    rw [hdraws] at hm hn
    exact ResetSample.distinctTokens m hm n hn (hfirst.trans hsecond.symm)
  rw [hfour] at hlimited
  exact absurd hlimited (by decide)

end ApiStarter
