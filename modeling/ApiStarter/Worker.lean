import ApiStarter.Interleave.Systems
import ApiStarter.Requests

/-!
# Background workers

`infra/jobs/worker.rs`: a poll loop that claims due jobs, hands them to at most
`MAX_CONCURRENT_JOBS` tasks, and tasks that dispatch their job and then write
its outcome.  Every worker runs in a process of its own, which can end at any
moment and takes its loop and its tasks with it.
-/

namespace ApiStarter

open Interleave Interleave.Prog Relational

def maxConcurrentJobs : ℕ := 4
def claimBatchSize : ℕ := 8
def retryBackoffSecs : List ℤ := [1, 4, 16]

/-- `RETRY_BACKOFF[(attempts as usize).min(RETRY_BACKOFF.len() - 1)]`, where a negative count
is cast to a huge one. -/
def retryBackoff (attempts : ℤ) : Time :=
  let last := retryBackoffSecs.length - 1
  Time.seconds (retryBackoffSecs.getD (if attempts < 0 then last else min attempts.toNat last) 16)

namespace Cleanup

def kind : String := "cleanup_expired_rows"
def rescheduleAfter : Time := Time.hours 1

end Cleanup

/-- `JobsRepository::enqueue` -/
def enqueueJob (cx : Context) (kind payload : String) (runAt : Time) : Req Unit := do
  let n ← ask Statement.draw
  sql (.jobs (.enqueue (cx.randomUuid n) kind payload runAt))

def dispatch (cx : Context) (job : Job) : Prog Statement.Res String Unit :=
  if job.kind = Cleanup.kind then
    mapErr (fun _ : AppError ↦ cx.databaseError) do
      runCleanup
      let now ← clock
      enqueueJob cx Cleanup.kind "\x7b\x7d" (now + Cleanup.rescheduleAfter)
  else
    throw ("no handler registered for job kind `" ++ job.kind ++ "`")

/-- A failing final write is logged, nothing more. -/
def process (cx : Context) (job : Job) : Prog Statement.Res Empty Unit := do
  let result ← attempt (dispatch cx job)
  match result with
  | .ok () =>
      let _ ← attempt (sql (.jobs (.markSucceeded job.id)))
      pure ()
  | .error error =>
      let _ ← attempt (sql (.jobs (.rescheduleOrKill job error (retryBackoff job.attempts))))
      pure ()

structure Task where
  job : Job
  rest : Prog Statement.Res Empty Unit

/-- Where the poll loop is. -/
inductive Loop
  | starting
  /-- `ensure_scheduled` has looked for a scheduled job and is still to insert one. -/
  | scheduling (scheduled : Bool)
  | waiting
  | claiming
  /-- Claimed jobs that wait for a permit. -/
  | handing (jobs : List Job)
  | stopped

structure Worker where
  loop : Loop
  tasks : List Task
  cancelled : Bool

namespace Worker

def spawned : Worker := ⟨.starting, [], false⟩

def waitingJobs (wk : Worker) : List Job :=
  match wk.loop with
  | .handing jobs => jobs
  | _ => []

/-- The jobs the worker has claimed and not finished. -/
def held (wk : Worker) : List Uuid := (wk.waitingJobs ++ wk.tasks.map Task.job).map Job.id

/-- Task `j` goes on with `rest`; one that has returned drops its permit. -/
def resume (wk : Worker) (j : ℕ) (job : Job) : Prog Statement.Res Empty Unit → Worker
  | .ret () => { wk with tasks := wk.tasks.eraseIdx j }
  | rest => { wk with tasks := wk.tasks.set j ⟨job, rest⟩ }

end Worker

structure Queue where
  server : Server
  /-- `none` once the process has ended. -/
  workers : List (Option Worker)

namespace Queue

def worker (q : Queue) (w : ℕ) : Option Worker := q.workers[w]?.join

def setWorker (q : Queue) (w : ℕ) (wk : Option Worker) : Queue :=
  { q with workers := q.workers.set w wk }

/-- Run a statement of the jobs table. -/
def runJobs (q : Queue) (query : JobSql) : Queue :=
  let jobs := (query.run q.server.now q.server.db.jobs).2
  { q with server := { q.server with db := { q.server.db with jobs := jobs } } }

inductive Action
  | tick (ticks : ℕ)
  /-- The application enqueues a job under a new id. -/
  | enqueue (id : Uuid) (kind payload : String) (runAt : Time)
  | spawn
  /-- `ensure_scheduled` when a worker starts, which may fail. It decides on a snapshot, and
  other transactions may commit before it inserts. -/
  | lookUp (w : ℕ)
  | schedule (w : ℕ) (id : Uuid)
  | scheduleFails (w : ℕ)
  /-- The loop wakes up, by its timer, a notification or the cancellation. -/
  | wake (w : ℕ)
  | claim (w : ℕ) (locked : List Uuid)
  | claimFails (w : ℕ)
  /-- The first waiting job gets a permit and a task. -/
  | hand (w : ℕ)
  | run (w j : ℕ)
  | fault (w j : ℕ)
  /-- `Worker::shutdown` is called. -/
  | shutdown (w : ℕ)
  /-- The process ends: it returns from `main`, crashes or is killed. -/
  | stop (w : ℕ)

def perform (cx : Context) (q : Queue) : Action → Option Queue
  | .tick ticks => some { q with server := { q.server with now := q.server.now + ticks } }
  | .enqueue id kind payload runAt => some (q.runJobs (.enqueue id kind payload runAt))
  | .spawn => some { q with workers := q.workers ++ [some .spawned] }
  | .lookUp w =>
      match q.worker w with
      | some ⟨.starting, tasks, cancelled⟩ =>
          let scheduled := isScheduled Cleanup.kind q.server.db.jobs
          some (q.setWorker w (some ⟨.scheduling scheduled, tasks, cancelled⟩))
      | _ => none
  | .schedule w id =>
      match q.worker w with
      | some ⟨.scheduling scheduled, tasks, cancelled⟩ =>
          some ((q.runJobs (.ensureScheduled scheduled id Cleanup.kind)).setWorker w
            (some ⟨.waiting, tasks, cancelled⟩))
      | _ => none
  | .scheduleFails w =>
      match q.worker w with
      | some ⟨.scheduling _, tasks, cancelled⟩ =>
          some (q.setWorker w (some ⟨.waiting, tasks, cancelled⟩))
      | _ => none
  | .wake w =>
      match q.worker w with
      | some ⟨.waiting, tasks, cancelled⟩ =>
          some (q.setWorker w (some ⟨if cancelled then .stopped else .claiming, tasks, cancelled⟩))
      | _ => none
  | .claim w locked =>
      match q.worker w with
      | some ⟨.claiming, tasks, cancelled⟩ =>
          let jobs := (dueJobs q.server.now claimBatchSize locked q.server.db.jobs).map JobRow.job
          some ((q.runJobs (.claimBatch claimBatchSize locked)).setWorker w
            (some ⟨.handing jobs, tasks, cancelled⟩))
      | _ => none
  | .claimFails w =>
      match q.worker w with
      | some ⟨.claiming, tasks, cancelled⟩ =>
          some (q.setWorker w (some ⟨.waiting, tasks, cancelled⟩))
      | _ => none
  | .hand w =>
      match q.worker w with
      | some ⟨.handing (job :: jobs), tasks, cancelled⟩ =>
          if tasks.length < maxConcurrentJobs then
            some (q.setWorker w
              (some ⟨.handing jobs, tasks ++ [⟨job, process cx job⟩], cancelled⟩))
          else none
      | some ⟨.handing [], tasks, cancelled⟩ =>
          some (q.setWorker w (some ⟨.waiting, tasks, cancelled⟩))
      | _ => none
  | .run w j =>
      match q.worker w with
      | some wk =>
          match wk.tasks[j]? with
          | some ⟨job, .stmt query next⟩ =>
              let r := (machine cx).exec query q.server
              some ({ q with server := r.2 }.setWorker w (some (wk.resume j job (next r.1))))
          | _ => none
      | none => none
  | .fault w j =>
      match q.worker w with
      | some wk =>
          match wk.tasks[j]? with
          | some ⟨job, .stmt query next⟩ =>
              ((machine cx).fault query).map fun r ↦
                q.setWorker w (some (wk.resume j job (next r)))
          | _ => none
      | none => none
  | .shutdown w => (q.worker w).map fun wk ↦ q.setWorker w (some { wk with cancelled := true })
  | .stop w => (q.worker w).map fun _ ↦ q.setWorker w none

def system (cx : Context) : System Queue Action := ⟨perform cx⟩

abbrev History := List (Queue × Action)

end Queue

end ApiStarter
