import ApiStarter.Outbox

/-!
# One step of the mail service

What an action does, and which statement a task stands before.
-/

namespace ApiStarter

open Interleave Interleave.Prog Relational

namespace Mailer

variable {codec : MailCodec} {m m' : Mailer} {a : Action} {i j process : ℕ} {t : MailTask}
  {rest : MailProg Unit}

/-- `perform`, one case for each way to succeed. -/
inductive Steps (codec : MailCodec) (m : Mailer) : Action → Mailer → Prop
  | tick (ticks : ℕ) : Steps codec m (.tick ticks) { m with now := m.now + ticks }
  | start (process : ℕ) : Steps codec m (.start process) (m.spawn process recoverPending)
  | dispatch (process : ℕ) (id : Uuid) (mail : OutgoingMail) :
      Steps codec m (.dispatch process id (.ok mail)) (m.spawn process (dispatchTask id mail))
  | unrendered (process : ℕ) (id : Uuid) (error : MailError) :
      Steps codec m (.dispatch process id (.error error)) m
  | run {i process : ℕ} {query : MailStatement} {next : MailStatement.Res query → MailProg Unit}
      (hi : m.task i = some ⟨process, .stmt query next⟩) (r : MailStatement.Res query)
      (outbox : Table OutboundRow.id) (hr : query.exec codec m.now m.outbox = some (r, outbox)) :
      Steps codec m (.run i) (({ m with outbox } : Mailer).goOn i process (next r))
  | answer {i process : ℕ} {email : Uuid} {attempt : ℕ} {mail : OutgoingMail}
      {next : Except MailError Unit → MailProg Unit}
      (hi : m.task i = some ⟨process, .stmt (.send email attempt mail) next⟩)
      (result : Except MailError Unit) :
      Steps codec m (.answer i result) (m.goOn i process (next result))
  | fault {i process : ℕ} {query : MailStatement} {next : MailStatement.Res query → MailProg Unit}
      (hi : m.task i = some ⟨process, .stmt query next⟩) (r : MailStatement.Res query)
      (hr : query.fault = some r) : Steps codec m (.fault i) (m.goOn i process (next r))
  | crash (process : ℕ) : Steps codec m (.crash process) { m with
      tasks := m.tasks.map fun t ↦ t.filter fun t ↦ decide (t.process ≠ process) }
  | prune : Steps codec m .prune { m with
      outbox := m.outbox.deleteWhere fun r ↦
        decide (r.status = .dead) && decide (r.updatedAt < m.now - Time.days 30) }

theorem steps_of_perform (hp : m.perform codec a = some m') : Steps codec m a m' := by
  cases a with
  | tick ticks =>
      cases hp
      exact .tick ticks
  | start process =>
      cases hp
      exact .start process
  | dispatch process id rendered =>
      cases rendered with
      | ok mail =>
          cases hp
          exact .dispatch process id mail
      | error error =>
          cases hp
          exact .unrendered process id error
  | crash process =>
      cases hp
      exact .crash process
  | prune =>
      cases hp
      exact .prune
  | run i =>
      simp only [perform] at hp
      split at hp
      next hi =>
        obtain ⟨⟨r, outbox⟩, hr, rfl⟩ := Option.map_eq_some_iff.mp hp
        exact .run hi r outbox hr
      next => cases hp
  | answer i result =>
      simp only [perform] at hp
      split at hp
      next hi =>
        cases hp
        exact .answer hi result
      next => cases hp
  | fault i =>
      simp only [perform] at hp
      split at hp
      next hi =>
        obtain ⟨r, hr, rfl⟩ := Option.map_eq_some_iff.mp hp
        exact .fault hi r hr
      next => cases hp

/-- The statement task `i` stands before. -/
def statement (m : Mailer) (i : ℕ) : Option MailStatement :=
  (m.task i).bind fun t ↦ t.rest.head?

theorem statement_eq {query : MailStatement} {next : MailStatement.Res query → MailProg Unit}
    (hi : m.task i = some ⟨process, .stmt query next⟩) : m.statement i = some query := by
  simp [statement, hi, Prog.head?]

theorem task_of_statement {query : MailStatement} (h : m.statement i = some query) :
    ∃ process next, m.task i = some ⟨process, .stmt query next⟩ := by
  obtain ⟨⟨process, rest⟩, hi, hhead⟩ := Option.bind_eq_some_iff.mp h
  cases rest with
  | stmt query next =>
      cases hhead
      exact ⟨process, next, hi⟩
  | _ => cases hhead

theorem task_eq_some : m.task i = some t ↔ m.tasks[i]? = some (some t) := Option.join_eq_some_iff

theorem lt_of_task (hi : m.task i = some t) : i < m.tasks.length :=
  (List.getElem?_eq_some_iff.mp (task_eq_some.mp hi)).1

theorem task_spawn : (m.spawn process rest).task j =
    if j = m.tasks.length then some ⟨process, rest⟩ else m.task j := by
  unfold task spawn
  rcases lt_trichotomy j m.tasks.length with hlt | rfl | hgt
  · rw [List.getElem?_append_left hlt, if_neg hlt.ne]
  · simp
  · have hlen : (m.tasks ++ [some (⟨process, rest⟩ : MailTask)]).length ≤ j := by
      simpa using Nat.succ_le_of_lt hgt
    rw [if_neg hgt.ne', List.getElem?_eq_none hlen, List.getElem?_eq_none hgt.le]

theorem task_goOn (hi : m.task i = some t) : (m.goOn i process rest).task j =
    if j = i then some ⟨process, rest⟩ else m.task j := by
  have hlt := lt_of_task hi
  unfold task goOn
  split
  next heq => simp [heq, List.getElem?_set_self hlt]
  next hne => simp [List.getElem?_set_ne (Ne.symm hne)]

end Mailer

end ApiStarter
