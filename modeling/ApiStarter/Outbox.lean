import ApiStarter.Common
import ApiStarter.Interleave.Prog
import ApiStarter.Interleave.Systems
import ApiStarter.Relational.Table

/-!
# The durable outbox

`modules/mail`: every rendered email is stored before the first attempt, sent
by a task of its own, and deleted or marked dead afterwards.  When a process
starts, one more task sends again what it finds pending.
-/

namespace ApiStarter

open Interleave Interleave.Prog Relational

inductive MailError
  | config (reason : String)
  | render (reason : String)
  | build (reason : String)
  | delivery (permanent : Bool) (reason : String)
  deriving DecidableEq

def MailError.isRetryable : MailError → Bool
  | .delivery false _ => true
  | _ => false

structure OutgoingMail where
  «to» : String
  subject : String
  text : String
  html : String
  deriving DecidableEq

/-- `serde_json`, for the payload of a row. -/
structure MailCodec where
  toString : OutgoingMail → String
  fromStr : String → Option OutgoingMail

inductive MailStatus
  | pending
  | dead
  deriving DecidableEq

structure OutboundRow where
  id : Uuid
  payload : String
  status : MailStatus
  createdAt : Time
  updatedAt : Time

/-- What a mail task asks for. An email goes by the id that `insert` draws for it, whether or
not the row is stored; `attempt` counts the retries of one delivery. -/
inductive MailStatement
  | insert (id : Uuid) (mail : OutgoingMail)
  | remove (id : Uuid)
  | markDead (id : Uuid)
  | pending
  | send (email : Uuid) (attempt : ℕ) (mail : OutgoingMail)
  | sleep (delay : Time)
  deriving DecidableEq

/-- `none` is a database error. -/
@[reducible] def MailStatement.Res : MailStatement → Type
  | .insert .. => Option Unit
  | .remove _ => Option Unit
  | .markDead _ => Option Unit
  | .pending => Option (List (Uuid × OutgoingMail))
  | .send .. => Except MailError Unit
  | .sleep _ => Unit

abbrev MailProg := Prog MailStatement.Res Empty

def retryDelays : List Time := [Time.seconds 1, Time.seconds 4]

inductive DeliveryOutcome
  | sent
  | gaveUp

/-- The loop of `deliver` from `attempt` on, with the delays that are left. -/
def deliverFrom (email : Uuid) (mail : OutgoingMail) :
    (attempt : ℕ) → (delays : List Time) → MailProg DeliveryOutcome
  | attempt, [] => do
      let answer ← ask (MailStatement.send email attempt mail)
      match answer with
      | .ok () => pure .sent
      | .error _ => pure .gaveUp
  | attempt, delay :: delays => do
      let answer ← ask (MailStatement.send email attempt mail)
      match answer with
      | .ok () => pure .sent
      | .error error =>
          if error.isRetryable then do
            ask (MailStatement.sleep delay)
            deliverFrom email mail (attempt + 1) delays
          else pure .gaveUp

def deliver (email : Uuid) (mail : OutgoingMail) : MailProg DeliveryOutcome :=
  deliverFrom email mail 0 retryDelays

/-- A failing update of the record is logged, nothing more. -/
def finish (id : Uuid) : DeliveryOutcome → MailProg Unit
  | .sent => do
      let _ ← ask (MailStatement.remove id)
      pure ()
  | .gaveUp => do
      let _ ← ask (MailStatement.markDead id)
      pure ()

/-- The task `dispatch` spawns for a rendered email. -/
def dispatchTask (id : Uuid) (mail : OutgoingMail) : MailProg Unit := do
  let inserted ← ask (MailStatement.insert id mail)
  match inserted with
  | some () => do
      let outcome ← deliver id mail
      finish id outcome
  | none => do
      let _ ← deliver id mail
      pure ()

def resend : List (Uuid × OutgoingMail) → MailProg Unit
  | [] => pure ()
  | (id, mail) :: rest => do
      let outcome ← deliver id mail
      finish id outcome
      resend rest

/-- The task `recover_pending` spawns. -/
def recoverPending : MailProg Unit := do
  let found ← ask MailStatement.pending
  match found with
  | none => pure ()
  | some rows => resend rows

/-! ## The outbox table -/

def newOutbound (codec : MailCodec) (id : Uuid) (mail : OutgoingMail) (now : Time) :
    OutboundRow where
  id := id
  payload := codec.toString mail
  status := .pending
  createdAt := now
  updatedAt := now

def OutboundRow.kill (now : Time) (r : OutboundRow) : OutboundRow :=
  { r with status := .dead, updatedAt := now }

@[simp] theorem OutboundRow.id_kill (now : Time) (r : OutboundRow) : (r.kill now).id = r.id := rfl

/-- Unreadable payloads are skipped. -/
def OutboundRow.read (codec : MailCodec) (r : OutboundRow) : Option (Uuid × OutgoingMail) :=
  (codec.fromStr r.payload).map fun mail ↦ (r.id, mail)

/-- What a statement does to the outbox; `none` for a send, which the mail server answers. -/
def MailStatement.exec (codec : MailCodec) (now : Time) (outbox : Table OutboundRow.id) :
    (q : MailStatement) → Option (q.Res × Table OutboundRow.id)
  | .insert id mail =>
      match outbox.insert? (newOutbound codec id mail now) with
      | none => some (none, outbox)
      | some outbox' => some (some (), outbox')
  | .remove id => some (some (), outbox.deleteWhere fun r ↦ decide (r.id = id))
  | .markDead id =>
      some (some (), outbox.updateWhere (fun r ↦ decide (r.id = id)) (OutboundRow.kill now)
        (OutboundRow.id_kill now))
  | .pending =>
      some (some ((outbox.selectWhere fun r ↦ decide (r.status = .pending)).filterMap
        (OutboundRow.read codec)), outbox)
  | .send .. => none
  | .sleep _ => some ((), outbox)

def MailStatement.fault : (q : MailStatement) → Option q.Res
  | .insert .. => some none
  | .remove _ => some none
  | .markDead _ => some none
  | .pending => some none
  | .send .. => none
  | .sleep _ => none

/-! ## Processes -/

structure MailTask where
  process : ℕ
  rest : MailProg Unit

structure Mailer where
  outbox : Table OutboundRow.id
  now : Time
  /-- In the order they were spawned; `none` when the process ended before the task. -/
  tasks : List (Option MailTask)

namespace Mailer

def task (m : Mailer) (i : ℕ) : Option MailTask := m.tasks[i]?.join

def spawn (m : Mailer) (process : ℕ) (rest : MailProg Unit) : Mailer :=
  { m with tasks := m.tasks ++ [some ⟨process, rest⟩] }

def goOn (m : Mailer) (i process : ℕ) (rest : MailProg Unit) : Mailer :=
  { m with tasks := m.tasks.set i (some ⟨process, rest⟩) }

inductive Action
  | tick (ticks : ℕ)
  /-- `with_durable_outbox` -/
  | start (process : ℕ)
  | dispatch (process : ℕ) (id : Uuid) (rendered : Except MailError OutgoingMail)
  | run (i : ℕ)
  /-- The mail server answers a send. -/
  | answer (i : ℕ) (result : Except MailError Unit)
  | fault (i : ℕ)
  | crash (process : ℕ)
  /-- `cleanup::prune_dead_mail` -/
  | prune
  deriving DecidableEq

def perform (codec : MailCodec) (m : Mailer) : Action → Option Mailer
  | .tick ticks => some { m with now := m.now + ticks }
  | .start process => some (m.spawn process recoverPending)
  | .dispatch process id (.ok mail) => some (m.spawn process (dispatchTask id mail))
  | .dispatch _ _ (.error _) => some m
  | .run i =>
      match m.task i with
      | some ⟨process, .stmt query next⟩ =>
          (query.exec codec m.now m.outbox).map fun r ↦
            ({ m with outbox := r.2 } : Mailer).goOn i process (next r.1)
      | _ => none
  | .answer i result =>
      match m.task i with
      | some ⟨process, .stmt (.send _ _ _) next⟩ => some (m.goOn i process (next result))
      | _ => none
  | .fault i =>
      match m.task i with
      | some ⟨process, .stmt query next⟩ => query.fault.map fun r ↦ m.goOn i process (next r)
      | _ => none
  | .crash process =>
      some { m with
        tasks := m.tasks.map fun t ↦ t.filter fun t ↦ decide (t.process ≠ process) }
  | .prune =>
      let cutoff := m.now - Time.days 30
      some { m with
        outbox := m.outbox.deleteWhere fun r ↦
          decide (r.status = .dead) && decide (r.updatedAt < cutoff) }

def system (codec : MailCodec) : System Mailer Action := ⟨perform codec⟩

abbrev History := List (Mailer × Action)

end Mailer

end ApiStarter
