import ApiStarter.KeptMail

/-!
# How often an email is accepted

A dispatch task stops sending once the mail server has accepted its email, so
only recovery can send it a second time.  It does when it reads the row of a
dispatch that is still under way: that row is pending as well.
-/

namespace ApiStarter

open Interleave Interleave.Prog Relational

namespace Mailer

/-- How often the mail server has accepted the email. -/
def acceptances (email : Uuid) (h : History) : ℕ := h.countP fun e ↦ e.1.accepts email e.2

def afterRead : Option (List (Uuid × OutgoingMail)) → MailProg Unit
  | none => .ret ()
  | some rows => resend rows

theorem recoverPending_eq : recoverPending = .stmt .pending afterRead :=
  congrArg (Prog.stmt MailStatement.pending) (funext fun found ↦ by cases found <;> rfl)

def dispatches (email : Uuid) : Action → Bool
  | .dispatch _ id _ => decide (id = email)
  | _ => false

/-- One process, which starts once, before anything else, and never crashes. -/
def startsOnce (h : History) : Action → Bool
  | .start _ => h.isEmpty
  | .crash _ => false
  | _ => true

/-- `Uuid::new_v4` gives no id that a stored or an earlier email has. -/
def freshEmail (s : Mailer) (h : History) : Action → Bool
  | .dispatch _ id _ => (s.outbox.get? id).isNone && h.all fun e ↦ !dispatches id e.2
  | _ => true

/-- Where the pending rows are read, they are all from before the start. -/
def readsOldMail (m : Mailer) (h : History) : Action → Bool
  | .run i =>
      match m.statement i with
      | some .pending => m.outbox.rows.all fun r ↦
          decide (r.status ≠ .pending) || h.all fun e ↦ !dispatches r.id e.2
      | _ => true
  | _ => true

/-! ## Tasks -/

/-- The statement stores and sends only emails that satisfy `P`, and reads no others. -/
def Touches (P : Uuid → Prop) : MailStatement → Prop
  | .insert id _ => P id
  | .send email _ _ => P email
  | .pending => False
  | _ => True

def SendsNothing (q : MailStatement) : Prop := ∀ email k mail, q ≠ .send email k mail

/-- At most one of the program's sends is accepted. -/
inductive SendsOnce : MailProg Unit → Prop
  | never {p : MailProg Unit} (h : p.Only SendsNothing) : SendsOnce p
  | send {email : Uuid} {attempt : ℕ} {mail : OutgoingMail}
      {next : Except MailError Unit → MailProg Unit} (hok : (next (.ok ())).Only SendsNothing)
      (herror : ∀ error, SendsOnce (next (.error error))) :
      SendsOnce (.stmt (.send email attempt mail) next)
  | other {q : MailStatement} {next : MailStatement.Res q → MailProg Unit}
      (hq : SendsNothing q) (h : ∀ r, SendsOnce (next r)) : SendsOnce (.stmt q next)

section Tasks

variable {P : Uuid → Prop} {email : Uuid} {mail : OutgoingMail}

theorem touches_deliverFrom (hP : P email) (delays : List Time) (attempt : ℕ) :
    (deliverFrom email mail attempt delays).Only (Touches P) := by
  induction delays generalizing attempt with
  | nil => exact ⟨hP, by rintro (_ | _) <;> trivial⟩
  | cons delay delays ih =>
      refine ⟨hP, ?_⟩
      rintro (error | _)
      · simp only [Prog.bind]
        split
        · exact ⟨trivial, fun _ ↦ ih (attempt + 1)⟩
        · trivial
      · trivial

theorem touches_finish (outcome : DeliveryOutcome) : (finish email outcome).Only (Touches P) := by
  cases outcome <;> exact ⟨trivial, fun _ ↦ trivial⟩

theorem touches_dispatchTask (hP : P email) : (dispatchTask email mail).Only (Touches P) := by
  refine ⟨hP, ?_⟩
  rintro (_ | _)
  · exact (touches_deliverFrom hP _ _).bind fun _ ↦ trivial
  · exact (touches_deliverFrom hP _ _).bind fun outcome ↦ touches_finish outcome

theorem touches_resend {rows : List (Uuid × OutgoingMail)} (hrows : ∀ row ∈ rows, P row.1) :
    (resend rows).Only (Touches P) := by
  induction rows with
  | nil => trivial
  | cons row rows ih =>
      have hrest := ih fun row hrow ↦ hrows row (List.mem_cons_of_mem _ hrow)
      refine (touches_deliverFrom (hrows row List.mem_cons_self) _ _).bind fun outcome ↦ ?_
      exact (touches_finish outcome).bind fun _ ↦ hrest

theorem sendsNothing_finish (outcome : DeliveryOutcome) :
    (finish email outcome).Only SendsNothing := by
  cases outcome <;> exact ⟨by rintro _ _ _ ⟨⟩, fun _ ↦ trivial⟩

/-- A delivery ends with the first accepted send. -/
theorem sendsOnce_deliverFrom {conclude : DeliveryOutcome → MailProg Unit}
    (hconclude : ∀ outcome, (conclude outcome).Only SendsNothing) (delays : List Time)
    (attempt : ℕ) : SendsOnce (deliverFrom email mail attempt delays >>= conclude) := by
  induction delays generalizing attempt with
  | nil => exact .send (hconclude .sent) fun _ ↦ .never (hconclude .gaveUp)
  | cons delay delays ih =>
      refine .send (hconclude .sent) fun error ↦ ?_
      simp only [Prog.bind]
      split
      · exact .other (by rintro _ _ _ ⟨⟩) fun _ ↦ ih (attempt + 1)
      · exact .never (hconclude .gaveUp)

theorem sendsOnce_dispatchTask (email : Uuid) (mail : OutgoingMail) :
    SendsOnce (dispatchTask email mail) := by
  refine .other (by rintro _ _ _ ⟨⟩) ?_
  rintro (_ | _)
  · have hforget : SendsOnce (deliverFrom email mail 0 retryDelays >>= fun _ ↦ ret ()) := by
      apply sendsOnce_deliverFrom
      intro outcome
      trivial
    exact hforget
  · exact sendsOnce_deliverFrom sendsNothing_finish _ _

theorem SendsOnce.next {q : MailStatement} {next : MailStatement.Res q → MailProg Unit}
    (h : SendsOnce (.stmt q next)) (hq : SendsNothing q) (r : MailStatement.Res q) :
    SendsOnce (next r) := by
  cases h with
  | never hnever => exact .never (hnever.2 r)
  | send => exact absurd rfl (hq _ _ _)
  | other _ hnext => exact hnext r

end Tasks

/-! ## Runs -/

/-- Task `i` was spawned to dispatch the email. -/
def Owns (h : History) (i : ℕ) (email : Uuid) : Prop :=
  ∃ e ∈ h, ∃ process mail, e.2 = .dispatch process email (.ok mail) ∧ e.1.tasks.length = i

/-- The email was stored before the start. -/
def Old (s : Mailer) (email : Uuid) : Prop := s.outbox.get? email ≠ none

/-- What the tasks are at, given who dispatches which email and how often each has been
accepted so far. -/
structure Ledger (s : Mailer) (owns : ℕ → Uuid → Prop) (accepted : Uuid → ℕ) (m : Mailer) :
    Prop where
  rows : ∀ r ∈ m.outbox, Old s r.id ∨ ∃ i, owns i r.id
  tasks : ∀ i t, m.task i = some t → t.rest = recoverPending ∨ t.rest.Only (Touches (Old s)) ∨
    ∃ email, owns i email ∧ t.rest.Only (Touches (· = email))
  new : ∀ i email, owns i email → ¬Old s email
  owner : ∀ i j email, owns i email → owns j email → i = j
  owned : ∀ i email, owns i email → ∃ t, m.task i = some t ∧
    (SendsOnce t.rest ∧ accepted email = 0 ∨ t.rest.Only SendsNothing ∧ accepted email ≤ 1)
  unowned : ∀ email, ¬Old s email → (∀ i, ¬owns i email) → accepted email = 0

section Ledger

variable {codec : MailCodec} {s m : Mailer} {owns : ℕ → Uuid → Prop} {accepted : Uuid → ℕ}
  {i process : ℕ} {email : Uuid} {mail : OutgoingMail}

theorem exec_rows {query : MailStatement} {now : Time} {outbox outbox' : Table OutboundRow.id}
    {r : MailStatement.Res query} (hr : query.exec codec now outbox = some (r, outbox'))
    {row : OutboundRow} (hrow : row ∈ outbox') :
    (∃ row₀ ∈ outbox, row₀.id = row.id) ∨ ∃ mail, query = .insert row.id mail := by
  cases query with
  | insert id mail =>
      simp only [MailStatement.exec] at hr
      split at hr
      next =>
        cases hr
        exact .inl ⟨row, hrow, rfl⟩
      next outbox₁ hinsert =>
        cases hr
        rcases (Table.mem_insert? hinsert).mp hrow with hrow | rfl
        · exact .inl ⟨row, hrow, rfl⟩
        · exact .inr ⟨mail, rfl⟩
  | remove id =>
      cases hr
      exact .inl ⟨row, (Table.mem_deleteWhere.mp hrow).1, rfl⟩
  | markDead id =>
      cases hr
      obtain ⟨row₀, hrow₀, rfl⟩ := Table.mem_updateWhere.mp hrow
      refine .inl ⟨row₀, hrow₀, ?_⟩
      split <;> rfl
  | pending | sleep =>
      cases hr
      exact .inl ⟨row, hrow, rfl⟩
  | send => cases hr

/-- A task runs a statement other than a send, or one that fails. -/
theorem Ledger.goOn (hl : Ledger s owns accepted m) {query : MailStatement}
    {next : MailStatement.Res query → MailProg Unit}
    (hi : m.task i = some ⟨process, .stmt query next⟩) (hquery : SendsNothing query)
    (r : MailStatement.Res query) {outbox : Table OutboundRow.id}
    (hrows : ∀ row ∈ outbox,
      (∃ row₀ ∈ m.outbox, row₀.id = row.id) ∨ ∃ mail, query = .insert row.id mail)
    (hread : (.stmt query next : MailProg Unit) = recoverPending →
      (next r).Only (Touches (Old s))) :
    Ledger s owns accepted (({ m with outbox } : Mailer).goOn i process (next r)) := by
  have htask : ∀ j, (({ m with outbox } : Mailer).goOn i process (next r)).task j =
      if j = i then some ⟨process, next r⟩ else m.task j :=
    fun j ↦ task_goOn (m := { m with outbox }) hi
  constructor
  · intro row hrow
    rcases hrows row hrow with ⟨row₀, hrow₀, hid⟩ | ⟨mail, rfl⟩
    · exact hid ▸ hl.rows row₀ hrow₀
    · rcases hl.tasks i _ hi with hread | hold | ⟨email, howns, honly⟩
      · rw [recoverPending_eq] at hread
        cases hread
      · exact .inl hold.1
      · obtain rfl : row.id = email := honly.1
        exact .inr ⟨i, howns⟩
  · intro j t ht
    rw [htask] at ht
    split at ht
    next heq =>
      cases ht
      subst heq
      rcases hl.tasks j _ hi with hrec | hold | ⟨email, howns, honly⟩
      · exact .inr (.inl (hread hrec))
      · exact .inr (.inl (hold.2 r))
      · exact .inr (.inr ⟨email, howns, honly.2 r⟩)
    next => exact hl.tasks j t ht
  · exact hl.new
  · exact hl.owner
  · intro j email howns
    obtain ⟨t, ht, hstate⟩ := hl.owned j email howns
    rw [htask]
    split
    next heq =>
      subst heq
      cases hi.symm.trans ht
      refine ⟨_, rfl, ?_⟩
      rcases hstate with ⟨honce, hzero⟩ | ⟨hnothing, hone⟩
      · exact .inl ⟨honce.next hquery r, hzero⟩
      · exact .inr ⟨hnothing.2 r, hone⟩
    next => exact ⟨t, ht, hstate⟩
  · exact hl.unowned

/-- The mail server answers a send, which only counts for the email's own dispatch. -/
theorem Ledger.answer (hl : Ledger s owns accepted m) {attempt : ℕ}
    {next : Except MailError Unit → MailProg Unit}
    (hi : m.task i = some ⟨process, .stmt (.send email attempt mail) next⟩)
    (result : Except MailError Unit) {accepted' : Uuid → ℕ}
    (hother : ∀ email', email' ≠ email → accepted' email' = accepted email')
    (hself : accepted' email = accepted email + if result.isOk then 1 else 0) :
    Ledger s owns accepted' (m.goOn i process (next result)) := by
  have htask : ∀ j, (m.goOn i process (next result)).task j =
      if j = i then some ⟨process, next result⟩ else m.task j := fun j ↦ task_goOn hi
  have hmine : Old s email ∨ owns i email := by
    rcases hl.tasks i _ hi with hread | hold | ⟨email', howns, honly⟩
    · rw [recoverPending_eq] at hread
      cases hread
    · exact .inl hold.1
    · obtain rfl : email = email' := honly.1
      exact .inr howns
  constructor
  · exact hl.rows
  · intro j t ht
    rw [htask] at ht
    split at ht
    next heq =>
      cases ht
      subst heq
      rcases hl.tasks j _ hi with hread | hold | ⟨email', howns, honly⟩
      · rw [recoverPending_eq] at hread
        cases hread
      · exact .inr (.inl (hold.2 result))
      · exact .inr (.inr ⟨email', howns, honly.2 result⟩)
    next => exact hl.tasks j t ht
  · exact hl.new
  · exact hl.owner
  · intro j email' howns
    obtain ⟨t, ht, hstate⟩ := hl.owned j email' howns
    rw [htask]
    split
    next heq =>
      subst heq
      cases hi.symm.trans ht
      refine ⟨_, rfl, ?_⟩
      have hle : accepted' email' ≤ accepted email' + if result.isOk then 1 else 0 := by
        by_cases hemail : email' = email
        · rw [hemail, hself]
        · rw [hother email' hemail]
          exact Nat.le_add_right _ _
      rcases hstate with ⟨honce, hzero⟩ | ⟨hnothing, -⟩
      · cases honce with
        | never hnever => exact absurd rfl (hnever.1 email attempt mail)
        | other hother => exact absurd rfl (hother email attempt mail)
        | send hok herror =>
            rw [hzero] at hle
            cases result with
            | ok => exact .inr ⟨hok, hle⟩
            | error error => exact .inl ⟨herror error, Nat.le_zero.mp hle⟩
      · exact absurd rfl (hnothing.1 email attempt mail)
    next hne =>
      refine ⟨t, ht, ?_⟩
      have hemail : email' ≠ email := by
        rintro rfl
        exact hne (hl.owner j i _ howns (hmine.resolve_left (hl.new j _ howns)))
      rw [hother email' hemail]
      exact hstate
  · intro email' hnew hnobody
    have hemail : email' ≠ email := by
      rintro rfl
      exact hmine.elim hnew (hnobody i)
    rw [hother email' hemail]
    exact hl.unowned email' hnew hnobody

end Ledger

section Run

variable {codec : MailCodec} {s m m' : Mailer} {a : Action} {h : History} {i process : ℕ}
  {email : Uuid}

@[simp] theorem acceptances_cons (e : Mailer × Action) : acceptances email (e :: h) =
    acceptances email h + if e.1.accepts email e.2 then 1 else 0 := List.countP_cons ..

/-- A dispatch owns the task it spawns, and nothing else owns anything. -/
theorem owns_cons {e : Mailer × Action} : Owns (e :: h) i email ↔ Owns h i email ∨
    ∃ process mail, e.2 = .dispatch process email (.ok mail) ∧ e.1.tasks.length = i := by
  constructor
  · rintro ⟨e', he', howns⟩
    rcases List.mem_cons.mp he' with rfl | he'
    · exact .inr howns
    · exact .inl ⟨e', he', howns⟩
  · rintro (⟨e', he', howns⟩ | howns)
    · exact ⟨e', List.mem_cons_of_mem _ he', howns⟩
    · exact ⟨e, List.mem_cons_self, howns⟩

theorem Ledger.start {owns : ℕ → Uuid → Prop} {accepted : Uuid → ℕ}
    (hl : Ledger s owns accepted m) : Ledger s owns accepted (m.spawn process recoverPending) := by
  constructor
  · exact hl.rows
  · intro j t ht
    rw [task_spawn] at ht
    split at ht
    next =>
      cases ht
      exact .inl rfl
    next => exact hl.tasks j t ht
  · exact hl.new
  · exact hl.owner
  · intro j email howns
    obtain ⟨t, ht, hstate⟩ := hl.owned j email howns
    refine ⟨t, ?_, hstate⟩
    rw [task_spawn, if_neg (lt_of_task ht).ne, ht]
  · exact hl.unowned

theorem Ledger.dispatch {owns : ℕ → Uuid → Prop} {accepted : Uuid → ℕ} {mail : OutgoingMail}
    (hl : Ledger s owns accepted m) (hnew : ¬Old s email) (hfree : ∀ i, ¬owns i email) :
    Ledger s (fun i email' ↦ owns i email' ∨ email' = email ∧ i = m.tasks.length) accepted
      (m.spawn process (dispatchTask email mail)) := by
  constructor
  · intro r hr
    exact (hl.rows r hr).imp_right fun ⟨i, howns⟩ ↦ ⟨i, .inl howns⟩
  · intro j t ht
    rw [task_spawn] at ht
    split at ht
    next heq =>
      cases ht
      exact .inr (.inr ⟨email, .inr ⟨rfl, heq⟩, touches_dispatchTask rfl⟩)
    next =>
      rcases hl.tasks j t ht with hread | hold | ⟨email', howns, honly⟩
      · exact .inl hread
      · exact .inr (.inl hold)
      · exact .inr (.inr ⟨email', .inl howns, honly⟩)
  · rintro j email' (howns | ⟨rfl, -⟩)
    · exact hl.new j email' howns
    · exact hnew
  · rintro i j email' (howns | ⟨rfl, rfl⟩) (howns' | ⟨heq, rfl⟩)
    · exact hl.owner i j email' howns howns'
    · exact absurd (heq ▸ howns) (hfree i)
    · exact absurd howns' (hfree j)
    · rfl
  · rintro j email' (howns | ⟨rfl, rfl⟩)
    · obtain ⟨t, ht, hstate⟩ := hl.owned j email' howns
      refine ⟨t, ?_, hstate⟩
      rw [task_spawn, if_neg (lt_of_task ht).ne, ht]
    · refine ⟨_, task_spawn.trans (if_pos rfl), .inl ⟨sendsOnce_dispatchTask email' mail, ?_⟩⟩
      exact hl.unowned email' hnew hfree
  · intro email' hnew' hnobody
    exact hl.unowned email' hnew' fun i howns ↦ hnobody i (.inl howns)

/-- Recovery that reads only old mail sends only old mail. -/
theorem touches_afterRead {found : Option (List (Uuid × OutgoingMail))}
    {outbox : Table OutboundRow.id} {now : Time}
    (hr : MailStatement.exec codec now m.outbox .pending = some (found, outbox))
    (hold : ∀ r ∈ m.outbox, r.status = .pending → Old s r.id) :
    (afterRead found).Only (Touches (Old s)) := by
  cases hr
  refine touches_resend fun row hrow ↦ ?_
  obtain ⟨r, hr, hread⟩ := List.mem_filterMap.mp hrow
  obtain ⟨hmem, hpending⟩ := Table.mem_selectWhere.mp hr
  obtain ⟨mail, -, rfl⟩ := Option.map_eq_some_iff.mp hread
  exact hold r hmem (of_decide_eq_true hpending)

theorem Ledger.step (hl : Ledger s (Owns h) (fun email ↦ acceptances email h) m)
    (hs : Steps codec m a m') (hstarts : startsOnce h a = true) (hfresh : freshEmail s h a = true)
    (hreads : readsOldMail m h a = true) :
    Ledger s (Owns ((m, a) :: h)) (fun email ↦ acceptances email ((m, a) :: h)) m' := by
  have howns : (∀ process email mail, a ≠ .dispatch process email (.ok mail)) →
      Owns ((m, a) :: h) = Owns h := by
    intro hother
    funext i email
    refine propext (owns_cons.trans (or_iff_left ?_))
    rintro ⟨process, mail, ha, -⟩
    exact hother process email mail ha
  have hacc : (∀ i result, a ≠ .answer i result) →
      (fun email ↦ acceptances email ((m, a) :: h)) = fun email ↦ acceptances email h := by
    intro hother
    funext email
    have hno : m.accepts email a = false := by
      cases a with
      | answer i result => exact absurd rfl (hother i result)
      | _ => rfl
    simp [hno]
  cases hs with
  | tick | unrendered =>
      rw [howns (by simp), hacc (by simp)]
      exact ⟨hl.rows, hl.tasks, hl.new, hl.owner, hl.owned, hl.unowned⟩
  | prune =>
      rw [howns (by simp), hacc (by simp)]
      refine ⟨fun r hr ↦ ?_, hl.tasks, hl.new, hl.owner, hl.owned, hl.unowned⟩
      exact hl.rows r (Table.mem_deleteWhere.mp hr).1
  | crash => cases hstarts
  | start =>
      rw [howns (by simp), hacc (by simp)]
      exact hl.start
  | dispatch process email mail =>
      rw [hacc (by simp)]
      simp only [freshEmail, Bool.and_eq_true, Option.isNone_iff_eq_none, List.all_eq_true,
        Bool.not_eq_true'] at hfresh
      obtain ⟨hstored, hunused⟩ := hfresh
      have hnobody : ∀ i, ¬Owns h i email := by
        rintro i ⟨e, he, process', mail', hdispatch, -⟩
        have hfalse := hunused e he
        simp [hdispatch, dispatches] at hfalse
      have hdispatch : Owns ((m, .dispatch process email (.ok mail)) :: h) =
          fun i email' ↦ Owns h i email' ∨ email' = email ∧ i = m.tasks.length := by
        funext i email'
        refine propext (owns_cons.trans (or_congr_right ?_))
        constructor
        · rintro ⟨_, _, heq, rfl⟩
          cases heq
          exact ⟨rfl, rfl⟩
        · rintro ⟨rfl, rfl⟩
          exact ⟨process, mail, rfl, rfl⟩
      rw [hdispatch]
      exact hl.dispatch (not_not.mpr hstored) hnobody
  | @run i process query next hi r outbox hr =>
      rw [howns (by simp), hacc (by simp)]
      refine hl.goOn hi (ne_send_of_exec hr) r (fun row hrow ↦ exec_rows hr hrow) fun hread ↦ ?_
      rw [recoverPending_eq] at hread
      cases hread
      refine touches_afterRead hr fun row hrow hpending ↦ ?_
      simp only [readsOldMail, statement_eq hi, List.all_eq_true, Bool.or_eq_true,
        decide_eq_true_eq, Bool.not_eq_true'] at hreads
      have hunused := (hreads row hrow).resolve_left (not_not.mpr hpending)
      apply (hl.rows row hrow).resolve_right
      rintro ⟨j, e, he, process', mail', hdispatch, -⟩
      have hfalse := hunused e he
      simp [hdispatch, dispatches] at hfalse
  | @fault i process query next hi r hr =>
      rw [howns (by simp), hacc (by simp)]
      refine hl.goOn hi (ne_send_of_fault hr) r (fun row hrow ↦ .inl ⟨row, hrow, rfl⟩) fun hread ↦
        ?_
      rw [recoverPending_eq] at hread
      cases hread
      cases hr
      trivial
  | @answer i process email attempt mail next hi result =>
      rw [howns (by simp)]
      have hstatement := statement_eq hi
      refine hl.answer hi result (fun email' hne ↦ ?_) ?_
      · have hno : m.accepts email' (.answer i result) = false := by
          cases result <;> simp [accepts, hstatement, Ne.symm hne]
        simp [hno]
      · have hcounts : m.accepts email (.answer i result) = result.isOk := by
          cases result <;> simp [accepts, hstatement, Except.isOk, Except.toBool]
        simp [hcounts]

end Run

end Mailer

/-! ## All runs -/

theorem sent_at_most_once {codec : MailCodec} {s m : Mailer} {h : Mailer.History}
    (hrun : (Mailer.system codec).Trace (fun m a h ↦ (Mailer.startsOnce h a &&
      (Mailer.freshEmail s h a && Mailer.readsOldMail m h a)) = true) s h m)
    (hnone : s.tasks = []) {email : Uuid}
    (hdispatched : ∃ e ∈ h, Mailer.dispatches email e.2 = true) :
    Mailer.acceptances email h ≤ 1 := by
  have hledger : Mailer.Ledger s (Mailer.Owns h) (fun email ↦ Mailer.acceptances email h) m := by
    refine hrun.invariant (I := fun h m ↦
      Mailer.Ledger s (Mailer.Owns h) (fun email ↦ Mailer.acceptances email h) m) ?_ ?_
    · have hnobody : ∀ i email, ¬Mailer.Owns [] i email := by
        rintro i email ⟨e, he, -⟩
        cases he
      refine ⟨fun r hr ↦ .inl ?_, fun i t ht ↦ ?_, fun i email howns ↦ ?_, fun i j email howns ↦ ?_,
        fun i email howns ↦ ?_, fun _ _ _ ↦ rfl⟩
      · simp [Mailer.Old, Table.get?_of_mem hr]
      · simp [Mailer.task, hnone] at ht
      all_goals exact absurd howns (hnobody i email)
    · intro h m a m' _ hallowed hp hl
      simp only [Bool.and_eq_true] at hallowed
      obtain ⟨hstarts, hfresh, hreads⟩ := hallowed
      exact hl.step (Mailer.steps_of_perform hp) hstarts hfresh hreads
  by_cases hnobody : ∃ i, Mailer.Owns h i email
  · obtain ⟨i, howns⟩ := hnobody
    obtain ⟨t, -, ⟨-, hzero⟩ | ⟨-, hone⟩⟩ := hledger.owned i email howns
    · exact hzero.trans_le (Nat.zero_le 1)
    · exact hone
  · obtain ⟨⟨m₀, a₀⟩, he, hdispatch⟩ := hdispatched
    obtain ⟨later, earlier, rfl⟩ := List.append_of_mem he
    have hallowed := (hrun.past rfl).2.1
    have hnew : ¬Mailer.Old s email := by
      cases a₀ with
      | dispatch process id rendered =>
          obtain rfl : id = email := of_decide_eq_true hdispatch
          simp only [Mailer.freshEmail, Bool.and_eq_true, Option.isNone_iff_eq_none] at hallowed
          exact not_not.mpr hallowed.2.1.1
      | _ => cases hdispatch
    have hzero := hledger.unowned email hnew (not_exists.mp hnobody)
    exact hzero.trans_le (Nat.zero_le 1)

namespace Mailer

/-- The first attempt fails, the second is accepted. -/
def delivered : List Action :=
  [.start 0, .run 0, .dispatch 0 7 (.ok letter), .run 1,
    .answer 1 (.error (.delivery false "421 try again later")), .run 1, .answer 1 (.ok ()), .run 1]

/-- Recovery reads the row of a dispatch that is about to send. -/
def readWhileSending : List Action :=
  [.start 0, .dispatch 0 7 (.ok letter), .run 1, .run 0, .answer 1 (.ok ()), .answer 0 (.ok ())]

end Mailer

theorem sent_at_most_once_delivered : ∃ h m, (Mailer.system Mailer.codec).Trace
    (fun m a h ↦ (Mailer.startsOnce h a &&
      (Mailer.freshEmail Mailer.empty h a && Mailer.readsOldMail m h a)) = true)
      Mailer.empty h m ∧ m.outbox.rows.isEmpty = true ∧ Mailer.acceptances 7 h ≤ 1 := by
  obtain ⟨r, hrun, htest⟩ : ∃ r : Mailer.History × Mailer, (Mailer.system Mailer.codec).Trace
      (fun m a h ↦ (Mailer.startsOnce h a &&
        (Mailer.freshEmail Mailer.empty h a && Mailer.readsOldMail m h a)) = true)
        Mailer.empty r.1 r.2 ∧ (r.2.outbox.rows.isEmpty &&
          r.1.any fun e ↦ Mailer.dispatches 7 e.2) = true :=
    System.Trace.of_schedule Mailer.delivered _ (by decide)
  simp only [Bool.and_eq_true, List.any_eq_true] at htest
  exact ⟨r.1, r.2, hrun, htest.1, sent_at_most_once hrun rfl htest.2⟩

/-- The mail server accepts the same email from the dispatch and from recovery. -/
theorem email_sent_twice :
    ¬∀ (codec : MailCodec) (s m : Mailer) (h : Mailer.History) (email : Uuid),
    (Mailer.system codec).Trace (fun _ a h ↦ (Mailer.startsOnce h a &&
      Mailer.freshEmail s h a) = true) s h m → s.tasks = [] →
        (∃ e ∈ h, Mailer.dispatches email e.2 = true) → Mailer.acceptances email h ≤ 1 := by
  intro h
  obtain ⟨r, hrun, htest⟩ : ∃ r : Mailer.History × Mailer, (Mailer.system Mailer.codec).Trace
      (fun _ a h ↦ (Mailer.startsOnce h a && Mailer.freshEmail Mailer.empty h a) = true)
        Mailer.empty r.1 r.2 ∧ ((r.1.any fun e ↦ Mailer.dispatches 7 e.2) &&
          decide (Mailer.acceptances 7 r.1 = 2)) = true :=
    System.Trace.of_schedule Mailer.readWhileSending _ (by decide)
  simp only [Bool.and_eq_true, List.any_eq_true, decide_eq_true_eq] at htest
  have hone := h _ _ r.2 r.1 7 hrun rfl htest.1
  simp [htest.2] at hone

end ApiStarter
