import ApiStarter.OutboxSteps

/-!
# No stored email is lost

A row leaves the outbox only after its email was accepted or given up.  What a
task is about to do to a row it has already earned, by what the mail server
answered it before.
-/

namespace ApiStarter

open Interleave Interleave.Prog Relational

namespace Mailer

/-! ## What has happened to an email -/

/-- The mail server accepts the email. -/
def accepts (m : Mailer) (email : Uuid) : Action → Bool
  | .answer i (.ok ()) =>
      match m.statement i with
      | some (.send email' _ _) => decide (email' = email)
      | _ => false
  | _ => false

def Accepted (h : History) (email : Uuid) : Prop := ∃ e ∈ h, e.1.accepts email e.2 = true

/-- Task `i` has sent the email, whatever the answer. -/
def SentBy (h : History) (i : ℕ) (email : Uuid) (mail : OutgoingMail) : Prop :=
  ∃ e ∈ h, ∃ result attempt, e.2 = .answer i result ∧
    e.1.statement i = some (.send email attempt mail)

def FailedSend (h : History) (i : ℕ) (email : Uuid) (attempt : ℕ) (error : MailError) : Prop :=
  ∃ e ∈ h, e.2 = .answer i (.error error) ∧
    ∃ mail, e.1.statement i = some (.send email attempt mail)

/-- Every attempt before this one failed with an error worth a retry. -/
def Retried (h : History) (i : ℕ) (email : Uuid) (attempt : ℕ) : Prop :=
  ∀ k < attempt, ∃ error, error.isRetryable = true ∧ FailedSend h i email k error

/-- A delivery ended with an error that is not worth a retry, or with all retries used. -/
def GivenUp (h : History) (i : ℕ) (email : Uuid) : Prop :=
  ∃ attempt error, Retried h i email attempt ∧ FailedSend h i email attempt error ∧
    (error.isRetryable = false ∨ attempt = retryDelays.length)

/-- A delivery that was given up has marked the row. -/
def MarkedDead (h : History) (id : Uuid) : Prop :=
  ∃ later e earlier i, h = later ++ e :: earlier ∧ e.2 = .run i ∧
    e.1.statement i = some (.markDead id) ∧ GivenUp earlier i id

/-- The row was inserted. -/
def Stored (h : History) (id : Uuid) : Prop :=
  ∃ e ∈ h, ∃ i mail, e.2 = .run i ∧ e.1.statement i = some (.insert id mail) ∧
    e.1.outbox.get? id = none

def Pending (m : Mailer) (id : Uuid) : Prop :=
  ∃ r, m.outbox.get? id = some r ∧ r.status = .pending

section Monotone

variable {h : History} {i attempt : ℕ} {email : Uuid} {mail : OutgoingMail} {error : MailError}
  (e : Mailer × Action)

theorem Accepted.cons (h' : Accepted h email) : Accepted (e :: h) email := by
  obtain ⟨e', he', haccepts⟩ := h'
  exact ⟨e', List.mem_cons_of_mem _ he', haccepts⟩

theorem SentBy.cons (h' : SentBy h i email mail) : SentBy (e :: h) i email mail := by
  obtain ⟨e', he', hsent⟩ := h'
  exact ⟨e', List.mem_cons_of_mem _ he', hsent⟩

theorem FailedSend.cons (h' : FailedSend h i email attempt error) :
    FailedSend (e :: h) i email attempt error := by
  obtain ⟨e', he', hfailed⟩ := h'
  exact ⟨e', List.mem_cons_of_mem _ he', hfailed⟩

theorem Retried.cons (h' : Retried h i email attempt) : Retried (e :: h) i email attempt := by
  intro k hk
  obtain ⟨error, hretryable, hfailed⟩ := h' k hk
  exact ⟨error, hretryable, hfailed.cons e⟩

theorem GivenUp.cons (h' : GivenUp h i email) : GivenUp (e :: h) i email := by
  obtain ⟨attempt, error, hretried, hfailed, hend⟩ := h'
  exact ⟨attempt, error, hretried.cons e, hfailed.cons e, hend⟩

theorem MarkedDead.cons (h' : MarkedDead h email) : MarkedDead (e :: h) email := by
  obtain ⟨later, e', earlier, i, rfl, hmarked⟩ := h'
  exact ⟨e :: later, e', earlier, i, rfl, hmarked⟩

end Monotone

/-! ## What a task is about to do -/

/-- What follows a delivery: the record is updated and the next row taken, or, where there is
no record, nothing. -/
inductive Concludes (email : Uuid) : (DeliveryOutcome → MailProg Unit) → Prop
  | record (rest : List (Uuid × OutgoingMail)) :
      Concludes email fun outcome ↦ finish email outcome >>= fun _ ↦ resend rest
  | forget : Concludes email fun _ ↦ ret ()

/-- What one answer of the mail server leads to. -/
def afterAnswer (email : Uuid) (mail : OutgoingMail) (attempt : ℕ) (delays : List Time)
    (conclude : DeliveryOutcome → MailProg Unit) : Except MailError Unit → MailProg Unit
  | .ok () => conclude .sent
  | .error error =>
      match delays with
      | [] => conclude .gaveUp
      | delay :: delays =>
          if error.isRetryable then
            .stmt (.sleep delay) fun _ ↦
              deliverFrom email mail (attempt + 1) delays >>= conclude
          else conclude .gaveUp

/-- Where task `i` stands, and what it has done for the email it works on. -/
inductive Stage (h : History) (i : ℕ) : MailProg Unit → Prop
  | returned : Stage h i (.ret ())
  | inserting {id : Uuid} {mail : OutgoingMail} {next : Option Unit → MailProg Unit}
      (hstored : next (some ()) = deliver id mail >>= fun outcome ↦
        finish id outcome >>= fun _ ↦ resend [])
      (hnone : next none = deliver id mail >>= fun _ ↦ ret ()) :
      Stage h i (.stmt (.insert id mail) next)
  | reading {next : Option (List (Uuid × OutgoingMail)) → MailProg Unit}
      (hrows : ∀ rows, next (some rows) = resend rows) (hnone : next none = .ret ()) :
      Stage h i (.stmt .pending next)
  | sending {email : Uuid} {mail : OutgoingMail} {attempt : ℕ} {delays : List Time}
      {conclude : DeliveryOutcome → MailProg Unit} {next : Except MailError Unit → MailProg Unit}
      (hdelays : attempt + delays.length = retryDelays.length)
      (hretried : Retried h i email attempt) (hconclude : Concludes email conclude)
      (hnext : ∀ result, next result = afterAnswer email mail attempt delays conclude result) :
      Stage h i (.stmt (.send email attempt mail) next)
  | sleeping {email : Uuid} {mail : OutgoingMail} {attempt : ℕ} {delay : Time}
      {delays : List Time} {conclude : DeliveryOutcome → MailProg Unit}
      {next : Unit → MailProg Unit} (hdelays : attempt + delays.length = retryDelays.length)
      (hretried : Retried h i email attempt) (hconclude : Concludes email conclude)
      (hnext : ∀ r, next r = deliverFrom email mail attempt delays >>= conclude) :
      Stage h i (.stmt (.sleep delay) next)
  | removing {id : Uuid} {rest : List (Uuid × OutgoingMail)} {next : Option Unit → MailProg Unit}
      (haccepted : Accepted h id) (hnext : ∀ r, next r = resend rest) :
      Stage h i (.stmt (.remove id) next)
  | killing {id : Uuid} {rest : List (Uuid × OutgoingMail)} {next : Option Unit → MailProg Unit}
      (hgiven : GivenUp h i id) (hnext : ∀ r, next r = resend rest) :
      Stage h i (.stmt (.markDead id) next)

section Stage

variable {h : History} {i attempt : ℕ} {email : Uuid} {mail : OutgoingMail} {delays : List Time}
  {conclude : DeliveryOutcome → MailProg Unit} {p : MailProg Unit}

theorem Stage.cons (hstage : Stage h i p) (e : Mailer × Action) : Stage (e :: h) i p := by
  cases hstage with
  | returned => exact .returned
  | inserting hstored hnone => exact .inserting hstored hnone
  | reading hrows hnone => exact .reading hrows hnone
  | sending hdelays hretried hconclude hnext =>
      exact .sending hdelays (hretried.cons e) hconclude hnext
  | sleeping hdelays hretried hconclude hnext =>
      exact .sleeping hdelays (hretried.cons e) hconclude hnext
  | removing haccepted hnext => exact .removing (haccepted.cons e) hnext
  | killing hgiven hnext => exact .killing (hgiven.cons e) hnext

theorem Stage.deliverFrom (hdelays : attempt + delays.length = retryDelays.length)
    (hretried : Retried h i email attempt) (hconclude : Concludes email conclude) :
    Stage h i (deliverFrom email mail attempt delays >>= conclude) := by
  cases delays with
  | nil => exact .sending hdelays hretried hconclude (by rintro (_ | _) <;> rfl)
  | cons delay delays =>
      refine .sending hdelays hretried hconclude ?_
      rintro (error | _)
      · simp only [afterAnswer, Prog.bind]
        split <;> rfl
      · rfl

theorem Stage.deliver (hconclude : Concludes email conclude) :
    Stage h i (deliver email mail >>= conclude) :=
  .deliverFrom (Nat.zero_add _) (fun _ hk ↦ absurd hk (Nat.not_lt_zero _)) hconclude

theorem Stage.resend (rows : List (Uuid × OutgoingMail)) : Stage h i (resend rows) := by
  cases rows with
  | nil => exact .returned
  | cons row rows => exact .deliver (.record rows)

theorem Stage.conclude_sent (hconclude : Concludes email conclude) (haccepted : Accepted h email) :
    Stage h i (conclude .sent) := by
  cases hconclude with
  | record rest => exact .removing haccepted fun _ ↦ rfl
  | forget => exact .returned

theorem Stage.conclude_gaveUp (hconclude : Concludes email conclude) (hgiven : GivenUp h i email) :
    Stage h i (conclude .gaveUp) := by
  cases hconclude with
  | record rest => exact .killing hgiven fun _ ↦ rfl
  | forget => exact .returned

/-- The task goes on with what the mail server has answered. -/
theorem Stage.answer {m : Mailer} {next : Except MailError Unit → MailProg Unit}
    (hstage : Stage h i (.stmt (.send email attempt mail) next))
    (hstatement : m.statement i = some (.send email attempt mail))
    (result : Except MailError Unit) : Stage ((m, .answer i result) :: h) i (next result) := by
  cases hstage with
  | @sending _ _ _ delays conclude _ hdelays hretried hconclude hnext =>
      rw [hnext]
      cases result with
      | ok =>
          refine .conclude_sent hconclude ⟨_, List.mem_cons_self, ?_⟩
          simp [accepts, hstatement]
      | error error =>
          have hfailed : FailedSend ((m, .answer i (.error error)) :: h) i email attempt error :=
            ⟨_, List.mem_cons_self, rfl, mail, hstatement⟩
          have hretried' := hretried.cons (m, Action.answer i (.error error))
          simp only [afterAnswer]
          cases delays with
          | nil =>
              exact .conclude_gaveUp hconclude ⟨attempt, error, hretried', hfailed, .inr hdelays⟩
          | cons delay delays =>
              simp only
              split
              next hretryable =>
                have hdelays' : attempt + 1 + delays.length = retryDelays.length := by
                  rw [List.length_cons] at hdelays
                  omega
                refine .sleeping hdelays' ?_ hconclude fun _ ↦ rfl
                intro k hk
                rcases Nat.lt_succ_iff_lt_or_eq.mp hk with hlt | rfl
                · exact hretried' k hlt
                · exact ⟨error, hretryable, hfailed⟩
              next hfinal =>
                have hfinal' : error.isRetryable = false := by simpa using hfinal
                exact .conclude_gaveUp hconclude ⟨attempt, error, hretried', hfailed, .inl hfinal'⟩

/-- Any other statement only brings the task to its next stage. -/
theorem Stage.next {query : MailStatement} {next : MailStatement.Res query → MailProg Unit}
    (hstage : Stage h i (.stmt query next)) (hquery : ∀ email k mail, query ≠ .send email k mail)
    (r : MailStatement.Res query) : Stage h i (next r) := by
  cases hstage with
  | inserting hstored hnone =>
      cases r with
      | none =>
          rw [hnone]
          exact .deliver .forget
      | some =>
          rw [hstored]
          exact .deliver (.record [])
  | reading hrows hnone =>
      cases r with
      | none =>
          rw [hnone]
          exact .returned
      | some rows =>
          rw [hrows]
          exact .resend rows
  | sending => exact absurd rfl (hquery _ _ _)
  | sleeping hdelays hretried hconclude hnext =>
      rw [hnext]
      exact .deliverFrom hdelays hretried hconclude
  | removing _ hnext | killing _ hnext =>
      rw [hnext]
      exact .resend _

theorem Stage.dispatchTask (id : Uuid) (mail : OutgoingMail) :
    Stage h i (dispatchTask id mail) := by
  refine .inserting ?_ rfl
  refine congrArg (ApiStarter.deliver id mail >>= ·) (funext fun outcome ↦ ?_)
  cases outcome <;> rfl

theorem Stage.recoverPending : Stage h i recoverPending := .reading (fun _ ↦ rfl) rfl

end Stage

/-! ## One step -/

section Step

variable {codec : MailCodec} {m m' : Mailer} {a : Action} {h : History} {i : ℕ} {id : Uuid}

theorem ne_send_of_exec {query : MailStatement} {now : Time} {outbox : Table OutboundRow.id}
    {r : MailStatement.Res query × Table OutboundRow.id} (hr : query.exec codec now outbox = some r)
    (email : Uuid) (k : ℕ) (mail : OutgoingMail) : query ≠ .send email k mail := by
  rintro rfl
  cases hr

theorem ne_send_of_fault {query : MailStatement} {r : MailStatement.Res query}
    (hr : query.fault = some r) (email : Uuid) (k : ℕ) (mail : OutgoingMail) :
    query ≠ .send email k mail := by
  rintro rfl
  cases hr

theorem task_of_crash {process : ℕ} {t : MailTask} (ht : ({ m with
    tasks := m.tasks.map fun t ↦ t.filter fun t ↦ decide (t.process ≠ process) } : Mailer).task i =
      some t) : m.task i = some t := by
  rw [task_eq_some, List.getElem?_map, Option.map_eq_some_iff] at ht
  obtain ⟨o, ho, hfilter⟩ := ht
  obtain ⟨rfl, -⟩ := Option.filter_eq_some_iff.mp hfilter
  exact task_eq_some.mpr ho

theorem Stage.step (hstage : ∀ i t, m.task i = some t → Stage h i t.rest)
    (hs : Steps codec m a m') (i : ℕ) (t : MailTask) (ht : m'.task i = some t) :
    Stage ((m, a) :: h) i t.rest := by
  cases hs with
  | tick | unrendered | prune => exact (hstage i t ht).cons _
  | crash => exact (hstage i t (task_of_crash ht)).cons _
  | start process =>
      rw [task_spawn] at ht
      split at ht
      next =>
        cases ht
        exact .recoverPending
      next => exact (hstage i t ht).cons _
  | dispatch process id mail =>
      rw [task_spawn] at ht
      split at ht
      next =>
        cases ht
        exact .dispatchTask id mail
      next => exact (hstage i t ht).cons _
  | run hj r outbox hr =>
      rw [task_goOn (m := { m with outbox }) hj] at ht
      split at ht
      next heq =>
        cases ht
        subst heq
        exact ((hstage _ _ hj).next (ne_send_of_exec hr) r).cons _
      next => exact (hstage i t ht).cons _
  | fault hj r hr =>
      rw [task_goOn hj] at ht
      split at ht
      next heq =>
        cases ht
        subst heq
        exact ((hstage _ _ hj).next (ne_send_of_fault hr) r).cons _
      next => exact (hstage i t ht).cons _
  | answer hj result =>
      rw [task_goOn hj] at ht
      split at ht
      next heq =>
        cases ht
        subst heq
        exact (hstage _ _ hj).answer (statement_eq hj) result
      next => exact (hstage i t ht).cons _

/-- A pending row stays, unless a task removes it or marks it dead. -/
theorem Pending.step (h : m.Pending id) (hs : Steps codec m a m') : m'.Pending id ∨
    ∃ i, a = .run i ∧
      (m.statement i = some (.remove id) ∨ m.statement i = some (.markDead id)) := by
  obtain ⟨row, hrow, hpending⟩ := h
  cases hs with
  | tick | unrendered | start | dispatch | crash | answer | fault =>
      exact .inl ⟨row, hrow, hpending⟩
  | prune =>
      refine .inl ⟨row, ?_, hpending⟩
      simp [Table.get?_deleteWhere, hrow, hpending]
  | @run i process query next hi r outbox hr =>
      have hstatement := statement_eq hi
      cases query with
      | insert id' mail =>
          simp only [MailStatement.exec] at hr
          split at hr
          next =>
            cases hr
            exact .inl ⟨row, hrow, hpending⟩
          next outbox' hinsert =>
            cases hr
            obtain ⟨hfree, hget⟩ := Table.insert?_eq_some hinsert
            refine .inl ⟨row, (hget id).trans ?_, hpending⟩
            rw [if_neg, hrow]
            rintro rfl
            cases hfree.symm.trans hrow
      | remove id' =>
          by_cases heq : id' = id
          · exact .inr ⟨i, rfl, .inl (heq ▸ hstatement)⟩
          · cases hr
            have hid : row.id ≠ id' := fun hid ↦ heq (hid.symm.trans (Table.key_of_get? hrow))
            refine .inl ⟨row, (Table.get?_deleteWhere _ _ _).trans ?_, hpending⟩
            simp [hrow, hid]
      | markDead id' =>
          by_cases heq : id' = id
          · exact .inr ⟨i, rfl, .inr (heq ▸ hstatement)⟩
          · cases hr
            have hkept : (m.outbox.updateWhere (fun r ↦ decide (r.id = id'))
                (OutboundRow.kill m.now) (OutboundRow.id_kill m.now)).get? id = some row := by
              rw [Table.get?_updateKey, if_neg heq, hrow]
            exact .inl ⟨row, hkept, hpending⟩
      | pending | sleep =>
          cases hr
          exact .inl ⟨row, hrow, hpending⟩
      | send => cases hr

/-- A row that is stored now is pending now. -/
theorem pending_of_insert {process : ℕ} {mail : OutgoingMail}
    {next : Option Unit → MailProg Unit}
    (hi : m.task i = some ⟨process, .stmt (.insert id mail) next⟩)
    (hs : Steps codec m (.run i) m') (hfree : m.outbox.get? id = none) : m'.Pending id := by
  cases hs with
  | run hi' r outbox hr =>
      cases hi.symm.trans hi'
      simp only [MailStatement.exec] at hr
      split at hr
      next hinsert =>
        have htaken := Table.insert?_eq_none.mp hinsert
        simp [newOutbound, hfree] at htaken
      next outbox' hinsert =>
        cases hr
        obtain ⟨-, hget⟩ := Table.insert?_eq_some hinsert
        exact ⟨_, (hget id).trans (if_pos rfl), rfl⟩

/-- A stored email is pending, or has been accepted, or given up and marked. -/
theorem kept_step (hstage : ∀ i t, m.task i = some t → Stage h i t.rest)
    (hs : Steps codec m a m') (hkept : Stored h id → m.Pending id ∨ Accepted h id ∨ MarkedDead h id)
    (hstored : Stored ((m, a) :: h) id) :
    m'.Pending id ∨ Accepted ((m, a) :: h) id ∨ MarkedDead ((m, a) :: h) id := by
  obtain ⟨e, he, i, mail, ha, hstatement, hfree⟩ := hstored
  rcases List.mem_cons.mp he with rfl | he
  · left
    obtain rfl : a = .run i := ha
    obtain ⟨process, next, hi⟩ := task_of_statement hstatement
    exact pending_of_insert hi hs hfree
  · rcases hkept ⟨e, he, i, mail, ha, hstatement, hfree⟩ with hpending | haccepted | hmarked
    · rcases hpending.step hs with hpending | ⟨j, rfl, hdone⟩
      · exact .inl hpending
      · rcases hdone with hremove | hmark
        · obtain ⟨process, next, hj⟩ := task_of_statement hremove
          cases hstage j _ hj with
          | removing haccepted => exact .inr (.inl (haccepted.cons _))
        · obtain ⟨process, next, hj⟩ := task_of_statement hmark
          cases hstage j _ hj with
          | killing hgiven => exact .inr (.inr ⟨[], _, h, j, rfl, rfl, hmark, hgiven⟩)
    · exact .inr (.inl (haccepted.cons _))
    · exact .inr (.inr (hmarked.cons _))

end Step

/-! ## Recovery -/

/-- However its statements are answered, the program sends the email before it returns. -/
def MustSend (email : Uuid) (mail : OutgoingMail) {α : Type} : MailProg α → Prop
  | .ret _ => False
  | .fail _ => False
  | .stmt q next => (∃ attempt, q = .send email attempt mail) ∨ ∀ r, MustSend email mail (next r)

/-- The program is about to read the pending rows, and sends each one it reads. -/
def MustRead (p : MailProg Unit) : Prop :=
  ∃ next : Option (List (Uuid × OutgoingMail)) → MailProg Unit, p = .stmt .pending next ∧
    ∀ rows, ∀ row ∈ rows, MustSend row.1 row.2 (next (some rows))

/-- What has become of the recovery that task `i` was spawned for: the process has ended, the
pending rows are still to be read and then sent, they could not be read, or every one that was
readable has been sent again or is bound to be. -/
def Recovers (codec : MailCodec) (h : History) (m : Mailer) (i process : ℕ) : Prop :=
  m.tasks[i]? = some none ∨ (∃ p, m.tasks[i]? = some (some ⟨process, p⟩) ∧ MustRead p) ∨
    (∃ e ∈ h, e.2 = .fault i ∧ e.1.statement i = some .pending) ∨
      ∃ e ∈ h, e.2 = .run i ∧ e.1.statement i = some .pending ∧
        ∀ r ∈ e.1.outbox, r.status = .pending → ∀ mail, codec.fromStr r.payload = some mail →
          SentBy h i r.id mail ∨
            ∃ t, m.tasks[i]? = some (some t) ∧ MustSend r.id mail t.rest

section Recovery

variable {codec : MailCodec} {m m' : Mailer} {a : Action} {h : History} {i process : ℕ}
  {email : Uuid} {mail : OutgoingMail} {α β : Type}

theorem MustSend.bind_left {p : MailProg α} {f : α → MailProg β} (hp : MustSend email mail p) :
    MustSend email mail (p >>= f) := by
  induction p with
  | ret a => exact hp.elim
  | fail e => exact hp.elim
  | stmt q next ih => exact hp.imp_right fun hnext r ↦ ih r (hnext r)

theorem MustSend.bind {p : MailProg α} {f : α → MailProg β}
    (hf : ∀ a, MustSend email mail (f a)) : MustSend email mail (p >>= f) := by
  induction p with
  | ret a => exact hf a
  | fail e => exact e.elim
  | stmt q next ih => exact .inr ih

theorem mustSend_deliver (email : Uuid) (mail : OutgoingMail) :
    MustSend email mail (deliver email mail) := .inl ⟨0, rfl⟩

theorem mustSend_resend {rows : List (Uuid × OutgoingMail)} (h : (email, mail) ∈ rows) :
    MustSend email mail (resend rows) := by
  induction rows with
  | nil => cases h
  | cons row rows ih =>
      rcases List.mem_cons.mp h with rfl | h
      · exact (mustSend_deliver email mail).bind_left
      · exact .bind fun _ ↦ .bind fun _ ↦ ih h

theorem mustRead_recoverPending : MustRead recoverPending :=
  ⟨_, rfl, fun _ _ hrow ↦ mustSend_resend hrow⟩

theorem MustRead.query_eq {query : MailStatement} {next : MailStatement.Res query → MailProg Unit}
    (h : MustRead (.stmt query next)) : query = .pending := by
  obtain ⟨_, heq, -⟩ := h
  cases heq
  rfl

theorem mem_readable {codec : MailCodec} {outbox : Table OutboundRow.id} {r : OutboundRow}
    (hr : r ∈ outbox) (hpending : r.status = .pending)
    (hread : codec.fromStr r.payload = some mail) :
    (r.id, mail) ∈ (outbox.selectWhere fun r ↦ decide (r.status = .pending)).filterMap
      (OutboundRow.read codec) := by
  refine List.mem_filterMap.mpr ⟨r, Table.mem_selectWhere.mpr ⟨hr, by simpa using hpending⟩, ?_⟩
  simp [OutboundRow.read, hread]

/-- The recovery of a step that leaves its task alone. -/
theorem Recovers.keep (hrec : Recovers codec h m i process) (e : Mailer × Action)
    (htask : m'.tasks[i]? = m.tasks[i]?) : Recovers codec (e :: h) m' i process := by
  unfold Recovers
  rw [htask]
  rcases hrec with hcrashed | hunread | ⟨f, hf, hfault⟩ | ⟨f, hf, hrun, hstatement, hsent⟩
  · exact .inl hcrashed
  · exact .inr (.inl hunread)
  · exact .inr (.inr (.inl ⟨f, List.mem_cons_of_mem _ hf, hfault⟩))
  · refine .inr (.inr (.inr ⟨f, List.mem_cons_of_mem _ hf, hrun, hstatement, ?_⟩))
    intro r hr hpending mail hread
    exact (hsent r hr hpending mail hread).imp_left fun hsent ↦ hsent.cons e

/-- Its task takes a step after the read. -/
theorem Recovers.goOn {t t' : MailTask} (hrec : Recovers codec h m i process)
    (ht : m.tasks[i]? = some (some t)) (hread : ¬MustRead t.rest) (e : Mailer × Action)
    (ht' : m'.tasks[i]? = some (some t'))
    (hgoes : ∀ email mail, MustSend email mail t.rest →
      SentBy (e :: h) i email mail ∨ MustSend email mail t'.rest) :
    Recovers codec (e :: h) m' i process := by
  rcases hrec with hcrashed | ⟨p, hp, hmust⟩ | ⟨f, hf, hfault⟩ |
    ⟨f, hf, hrun, hstatement, hsent⟩
  · cases hcrashed.symm.trans ht
  · cases hp.symm.trans ht
    exact absurd hmust hread
  · exact .inr (.inr (.inl ⟨f, List.mem_cons_of_mem _ hf, hfault⟩))
  · refine .inr (.inr (.inr ⟨f, List.mem_cons_of_mem _ hf, hrun, hstatement, ?_⟩))
    intro r hr hpending mail hread
    rcases hsent r hr hpending mail hread with hsent | ⟨t₀, ht₀, hmust⟩
    · exact .inl (hsent.cons e)
    · cases ht.symm.trans ht₀
      rcases hgoes r.id mail hmust with hsent | hmust'
      · exact .inl hsent
      · exact .inr ⟨t', ht', hmust'⟩

theorem tasks_goOn_self {t : MailTask} (ht : m.task i = some t) (rest : MailProg Unit) :
    (m.goOn i process rest).tasks[i]? = some (some ⟨process, rest⟩) :=
  List.getElem?_set_self (List.getElem?_eq_some_iff.mp (task_eq_some.mp ht)).1

theorem tasks_goOn_ne {j process' : ℕ} (rest : MailProg Unit) (hne : j ≠ i) :
    (m.goOn j process' rest).tasks[i]? = m.tasks[i]? := List.getElem?_set_ne hne

/-- The recovery task reads the pending rows. -/
theorem Recovers.read {process' : ℕ} {query : MailStatement}
    {next : MailStatement.Res query → MailProg Unit} {found : MailStatement.Res query}
    {outbox : Table OutboundRow.id} (hread : MustRead (.stmt query next))
    (hi : m.task i = some ⟨process', .stmt query next⟩)
    (hr : query.exec codec m.now m.outbox = some (found, outbox)) :
    Recovers codec ((m, .run i) :: h)
      (({ m with outbox } : Mailer).goOn i process' (next found)) i process := by
  obtain ⟨next', heq, hsends⟩ := hread
  cases heq
  cases hr
  refine .inr (.inr (.inr ⟨_, List.mem_cons_self, rfl, statement_eq hi, ?_⟩))
  intro r hrow hpending mail hread
  refine .inr ⟨_, tasks_goOn_self (m := m) hi _, ?_⟩
  exact hsends _ _ (mem_readable hrow hpending hread)

theorem Recovers.step (hrec : Recovers codec h m i process) (hlt : i < m.tasks.length)
    (hs : Steps codec m a m') : Recovers codec ((m, a) :: h) m' i process := by
  cases hs with
  | tick | unrendered | prune => exact hrec.keep _ rfl
  | start | dispatch => exact hrec.keep _ (List.getElem?_append_left hlt)
  | crash process' =>
      cases ht : m.tasks[i]? with
      | none => exact hrec.keep _ (by simp [ht])
      | some o =>
          by_cases hkept : o.filter (fun t ↦ decide (t.process ≠ process')) = o
          · exact hrec.keep _ (by rw [List.getElem?_map, ht, Option.map_some, hkept])
          · left
            rw [List.getElem?_map, ht, Option.map_some]
            cases o with
            | none => exact absurd rfl hkept
            | some t =>
                cases hfilter : (some t).filter fun t ↦ decide (t.process ≠ process') with
                | none => rfl
                | some t' =>
                    obtain ⟨heq, -⟩ := Option.filter_eq_some_iff.mp hfilter
                    exact absurd (hfilter.trans heq.symm) hkept
  | @run j process' query next hj r outbox hr =>
      by_cases hji : j = i
      · subst hji
        by_cases hread : MustRead (.stmt query next)
        · exact .read hread hj hr
        · apply hrec.goOn (task_eq_some.mp hj) hread _ (tasks_goOn_self (m := m) hj _)
          rintro email mail (⟨k, rfl⟩ | hnext)
          · cases hr
          · exact .inr (hnext r)
      · exact hrec.keep _ (tasks_goOn_ne (m := { m with outbox }) _ hji)
  | @answer j process' email k mail next hj result =>
      by_cases hji : j = i
      · subst hji
        have hread : ¬MustRead (.stmt (.send email k mail) next) := by
          intro hread
          cases hread.query_eq
        apply hrec.goOn (task_eq_some.mp hj) hread _ (tasks_goOn_self hj _)
        rintro email' mail' (⟨k', heq⟩ | hnext)
        · cases heq
          exact .inl ⟨_, List.mem_cons_self, result, k, rfl, statement_eq hj⟩
        · exact .inr (hnext result)
      · exact hrec.keep _ (tasks_goOn_ne _ hji)
  | @fault j process' query next hj r hr =>
      by_cases hji : j = i
      · subst hji
        by_cases hread : MustRead (.stmt query next)
        · have hpending := statement_eq hj
          rw [hread.query_eq] at hpending
          exact .inr (.inr (.inl ⟨_, List.mem_cons_self, rfl, hpending⟩))
        · apply hrec.goOn (task_eq_some.mp hj) hread _ (tasks_goOn_self hj _)
          rintro email mail (⟨k, rfl⟩ | hnext)
          · cases hr
          · exact .inr (hnext r)
      · exact hrec.keep _ (tasks_goOn_ne _ hji)

theorem length_tasks_le (hs : Steps codec m a m') : m.tasks.length ≤ m'.tasks.length := by
  cases hs <;> simp [spawn, goOn]

theorem exec_isSome (codec : MailCodec) (now : Time) (outbox : Table OutboundRow.id)
    {query : MailStatement} (hquery : ∀ email k mail, query ≠ .send email k mail) :
    ∃ r, query.exec codec now outbox = some r := by
  cases query with
  | insert id mail =>
      cases hinsert : outbox.insert? (newOutbound codec id mail now) with
      | none => exact ⟨(none, outbox), by simp [MailStatement.exec, hinsert]⟩
      | some outbox' => exact ⟨(some (), outbox'), by simp [MailStatement.exec, hinsert]⟩
  | send email k mail => exact absurd rfl (hquery email k mail)
  | _ => exact ⟨_, rfl⟩

/-- A task that has not returned is never blocked. -/
theorem goesOn {t : MailTask} (ht : m.task i = some t) : t.rest = .ret () ∨
    ∃ a m', (a = .run i ∨ ∃ result, a = .answer i result) ∧ m.perform codec a = some m' := by
  obtain ⟨process, rest⟩ := t
  cases rest with
  | ret => exact .inl rfl
  | fail e => exact e.elim
  | stmt query next =>
      right
      by_cases hsend : ∃ email k mail, query = .send email k mail
      · obtain ⟨email, k, mail, rfl⟩ := hsend
        refine ⟨.answer i (.ok ()), m.goOn i process (next (.ok ())), .inr ⟨_, rfl⟩, ?_⟩
        simp [perform, ht]
      · have hquery : ∀ email k mail, query ≠ .send email k mail :=
          fun email k mail heq ↦ hsend ⟨email, k, mail, heq⟩
        obtain ⟨r, hr⟩ := exec_isSome codec m.now m.outbox hquery
        refine ⟨.run i, ({ m with outbox := r.2 } : Mailer).goOn i process (next r.1), .inl rfl, ?_⟩
        simp [perform, ht, hr]

end Recovery

/-- What the outbox is there for. -/
structure KeepsMail (codec : MailCodec) (h : History) (m : Mailer) : Prop where
  kept : ∀ id, Stored h id → m.Pending id ∨ Accepted h id ∨ MarkedDead h id
  recovers : ∀ e ∈ h, ∀ process, e.2 = .start process →
    Recovers codec h m e.1.tasks.length process
  goesOn : ∀ i t, m.task i = some t → t.rest = .ret () ∨
    ∃ a m', (a = .run i ∨ ∃ result, a = .answer i result) ∧ m.perform codec a = some m'

end Mailer

/-! ## All runs -/

namespace Mailer

def letter : OutgoingMail := ⟨"user@example.com", "Reset your password", "link", "<p>link</p>"⟩

/-- A codec that knows one email. -/
def codec : MailCodec where
  toString mail := "\x7b\"to\":\"" ++ mail.to ++ "\",\"subject\":\"" ++ mail.subject ++
    "\",\"text\":\"" ++ mail.text ++ "\",\"html\":\"" ++ mail.html ++ "\"\x7d"
  fromStr payload := if payload.isEmpty then none else some letter

def empty : Mailer := ⟨.empty, 0, []⟩

/-- The process crashes after a failed attempt, and the next one sends the email. -/
def crashed : List Action :=
  [.start 0, .run 0, .dispatch 0 7 (.ok letter), .run 1,
    .answer 1 (.error (.delivery false "421 try again later")), .crash 0, .start 1, .run 2,
    .answer 2 (.ok ()), .run 2]

end Mailer

end ApiStarter
