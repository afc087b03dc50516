import ApiStarter.Calls
import ApiStarter.Worker
import Mathlib.Data.List.InsertIdx

/-!
# One step of the queue

What an action does, with the state of the worker it needs, and what the
statements of a task can still be.
-/

namespace ApiStarter

open Interleave Interleave.Prog Relational

namespace Queue

variable {cx : Context} {q q' : Queue} {w w' : ℕ} {wk : Worker}

/-- What one worker does, to the server and to itself. -/
def advance (q : Queue) (w : ℕ) (server : Server) (wk : Worker) : Queue :=
  ({ q with server } : Queue).setWorker w (some wk)

/-- `perform`, one case for each way to succeed. -/
inductive Steps (cx : Context) (q : Queue) : Action → Queue → Prop
  | tick (ticks : ℕ) :
      Steps cx q (.tick ticks) { q with server := { q.server with now := q.server.now + ticks } }
  | enqueue (id : Uuid) (kind payload : String) (runAt : Time) :
      Steps cx q (.enqueue id kind payload runAt) (q.runJobs (.enqueue id kind payload runAt))
  | spawn : Steps cx q .spawn { q with workers := q.workers ++ [some .spawned] }
  | lookUp {w : ℕ} {tasks : List Task} {cancelled : Bool}
      (hw : q.worker w = some ⟨.starting, tasks, cancelled⟩) :
      Steps cx q (.lookUp w) (q.advance w q.server
        ⟨.scheduling (isScheduled Cleanup.kind q.server.db.jobs), tasks, cancelled⟩)
  | schedule {w : ℕ} {scheduled : Bool} {tasks : List Task} {cancelled : Bool} (id : Uuid)
      (hw : q.worker w = some ⟨.scheduling scheduled, tasks, cancelled⟩) :
      Steps cx q (.schedule w id) (q.advance w
        (q.runJobs (.ensureScheduled scheduled id Cleanup.kind)).server
          ⟨.waiting, tasks, cancelled⟩)
  | scheduleFails {w : ℕ} {scheduled : Bool} {tasks : List Task} {cancelled : Bool}
      (hw : q.worker w = some ⟨.scheduling scheduled, tasks, cancelled⟩) :
      Steps cx q (.scheduleFails w) (q.advance w q.server ⟨.waiting, tasks, cancelled⟩)
  | wake {w : ℕ} {tasks : List Task} {cancelled : Bool}
      (hw : q.worker w = some ⟨.waiting, tasks, cancelled⟩) :
      Steps cx q (.wake w) (q.advance w q.server
        ⟨if cancelled then .stopped else .claiming, tasks, cancelled⟩)
  | claim {w : ℕ} {tasks : List Task} {cancelled : Bool} (locked : List Uuid)
      (hw : q.worker w = some ⟨.claiming, tasks, cancelled⟩) :
      Steps cx q (.claim w locked)
        (q.advance w (q.runJobs (.claimBatch claimBatchSize locked)).server
          ⟨.handing ((dueJobs q.server.now claimBatchSize locked q.server.db.jobs).map JobRow.job),
            tasks, cancelled⟩)
  | claimFails {w : ℕ} {tasks : List Task} {cancelled : Bool}
      (hw : q.worker w = some ⟨.claiming, tasks, cancelled⟩) :
      Steps cx q (.claimFails w) (q.advance w q.server ⟨.waiting, tasks, cancelled⟩)
  | hand {w : ℕ} {job : Job} {jobs : List Job} {tasks : List Task} {cancelled : Bool}
      (hw : q.worker w = some ⟨.handing (job :: jobs), tasks, cancelled⟩)
      (hpermit : tasks.length < maxConcurrentJobs) :
      Steps cx q (.hand w) (q.advance w q.server
        ⟨.handing jobs, tasks ++ [⟨job, process cx job⟩], cancelled⟩)
  | handed {w : ℕ} {tasks : List Task} {cancelled : Bool}
      (hw : q.worker w = some ⟨.handing [], tasks, cancelled⟩) :
      Steps cx q (.hand w) (q.advance w q.server ⟨.waiting, tasks, cancelled⟩)
  | run {w j : ℕ} {wk : Worker} {job : Job} {query : Statement}
      {next : Statement.Res query → Prog Statement.Res Empty Unit} (hw : q.worker w = some wk)
      (hj : wk.tasks[j]? = some ⟨job, .stmt query next⟩) :
      Steps cx q (.run w j) (q.advance w ((machine cx).exec query q.server).2
        (wk.resume j job (next ((machine cx).exec query q.server).1)))
  | fault {w j : ℕ} {wk : Worker} {job : Job} {query : Statement}
      {next : Statement.Res query → Prog Statement.Res Empty Unit} (hw : q.worker w = some wk)
      (hj : wk.tasks[j]? = some ⟨job, .stmt query next⟩) (r : Statement.Res query)
      (hr : (machine cx).fault query = some r) :
      Steps cx q (.fault w j) (q.advance w q.server (wk.resume j job (next r)))
  | shutdown {w : ℕ} {wk : Worker} (hw : q.worker w = some wk) :
      Steps cx q (.shutdown w) (q.advance w q.server { wk with cancelled := true })
  | stop {w : ℕ} {wk : Worker} (hw : q.worker w = some wk) :
      Steps cx q (.stop w) (q.setWorker w none)

theorem steps_of_perform {a : Action} (hp : q.perform cx a = some q') : Steps cx q a q' := by
  cases a with
  | tick ticks =>
      cases hp
      exact .tick ticks
  | enqueue id kind payload runAt =>
      cases hp
      exact .enqueue id kind payload runAt
  | spawn =>
      cases hp
      exact .spawn
  | shutdown w =>
      obtain ⟨wk, hw, rfl⟩ := Option.map_eq_some_iff.mp hp
      exact .shutdown hw
  | stop w =>
      obtain ⟨wk, hw, rfl⟩ := Option.map_eq_some_iff.mp hp
      exact .stop hw
  | hand w =>
      simp only [perform] at hp
      split at hp
      next hw =>
        split at hp
        next hpermit =>
          cases hp
          exact .hand hw hpermit
        next => cases hp
      next hw =>
        cases hp
        exact .handed hw
      next => cases hp
  | run w j =>
      simp only [perform] at hp
      split at hp
      next wk hw =>
        split at hp
        next hj =>
          cases hp
          exact .run hw hj
        next => cases hp
      next => cases hp
  | fault w j =>
      simp only [perform] at hp
      split at hp
      next wk hw =>
        split at hp
        next hj =>
          obtain ⟨r, hr, rfl⟩ := Option.map_eq_some_iff.mp hp
          exact .fault hw hj r hr
        next => cases hp
      next => cases hp
  | lookUp w =>
      simp only [perform] at hp
      split at hp
      next hw =>
        cases hp
        exact .lookUp hw
      next => cases hp
  | schedule w id =>
      simp only [perform] at hp
      split at hp
      next hw =>
        cases hp
        exact .schedule id hw
      next => cases hp
  | scheduleFails w =>
      simp only [perform] at hp
      split at hp
      next hw =>
        cases hp
        exact .scheduleFails hw
      next => cases hp
  | wake w =>
      simp only [perform] at hp
      split at hp
      next hw =>
        cases hp
        exact .wake hw
      next => cases hp
  | claim w locked =>
      simp only [perform] at hp
      split at hp
      next hw =>
        cases hp
        exact .claim locked hw
      next => cases hp
  | claimFails w =>
      simp only [perform] at hp
      split at hp
      next hw =>
        cases hp
        exact .claimFails hw
      next => cases hp

theorem lt_of_worker (h : q.worker w = some wk) : w < q.workers.length := by
  unfold worker at h
  by_contra hge
  simp [List.getElem?_eq_none (not_lt.mp hge)] at h

theorem worker_setWorker (h : q.worker w = some wk) (o : Option Worker) :
    (q.setWorker w o).worker w' = if w' = w then o else q.worker w' := by
  have hlt := lt_of_worker h
  unfold worker setWorker
  split
  next heq => simp [heq, List.getElem?_set_self hlt]
  next hne => simp [List.getElem?_set_ne (Ne.symm hne)]

@[simp] theorem server_setWorker (o : Option Worker) : (q.setWorker w o).server = q.server := rfl

@[simp] theorem server_advance (server : Server) (wk : Worker) :
    (q.advance w server wk).server = server := rfl

theorem worker_advance (h : q.worker w = some wk) (server : Server) (wk' : Worker) :
    (q.advance w server wk').worker w' = if w' = w then some wk' else q.worker w' :=
  worker_setWorker (q := { q with server }) h (some wk')

/-- A worker of the new queue was there before, or has just been spawned. -/
theorem worker_spawn
    (h : ({ q with workers := q.workers ++ [some .spawned] } : Queue).worker w = some wk) :
    q.worker w = some wk ∨ wk = .spawned := by
  by_cases hlt : w < q.workers.length
  · exact .inl (by simpa [worker, List.getElem?_append_left hlt] using h)
  · have hlast : w - q.workers.length = 0 := by
      by_contra hne
      simp [worker, List.getElem?_append_right (not_lt.mp hlt), hne] at h
    exact .inr (by simpa [worker, List.getElem?_append_right (not_lt.mp hlt), hlast] using h.symm)

theorem worker_spawn_of (h : q.worker w = some wk) :
    ({ q with workers := q.workers ++ [some .spawned] } : Queue).worker w = some wk := by
  simpa [worker, List.getElem?_append_left (lt_of_worker h)] using h

end Queue

/-! ## Tasks -/

/-- Statements that insert no job and change none but settled ones. -/
def Statement.isUpkeep : Statement → Bool
  | .sql (.jobs (.prune .succeeded _)) => true
  | .sql (.jobs (.prune .dead _)) => true
  | .sql (.jobs _) => false
  | _ => true

/-- The next statement is `mark_succeeded`. -/
def succeedsNext : Prog Statement.Res Empty Unit → Bool
  | .stmt (.sql (.jobs (.markSucceeded _))) _ => true
  | _ => false

/-- What is left of working off a job: some upkeep, in the end one final write, and
`mark_succeeded` only right after the next cleanup has been enqueued. -/
inductive Works (job : Job) : Prog Statement.Res Empty Unit → Prop
  | succeed {next : Option Unit → Prog Statement.Res Empty Unit} (h : ∀ r, next r = .ret ()) :
      Works job (.stmt (.sql (.jobs (.markSucceeded job.id))) next)
  | giveUp {error : String} {next : Option Bool → Prog Statement.Res Empty Unit}
      (h : ∀ r, next r = .ret ()) : Works job
        (.stmt (.sql (.jobs (.rescheduleOrKill job error (retryBackoff job.attempts)))) next)
  | reEnqueue {id : Uuid} {payload : String} {runAt : Time}
      {next : Option Unit → Prog Statement.Res Empty Unit} (hkind : job.kind = Cleanup.kind)
      (h : ∀ r, Works job (next r)) (hphase : ∀ r, succeedsNext (next r) = r.isSome) :
      Works job (.stmt (.sql (.jobs (.enqueue id Cleanup.kind payload runAt))) next)
  | upkeep {q : Statement} {next : Statement.Res q → Prog Statement.Res Empty Unit}
      (hq : q.isUpkeep = true) (h : ∀ r, Works job (next r))
      (hphase : ∀ r, succeedsNext (next r) = false) : Works job (.stmt q next)

/-- A final write ends the task, any other statement leaves it to be worked off. -/
theorem Works.next {job : Job} {q : Statement}
    {next : Statement.Res q → Prog Statement.Res Empty Unit} (h : Works job (.stmt q next))
    (r : Statement.Res q) : next r = .ret () ∨ Works job (next r) := by
  cases h with
  | succeed hret | giveUp hret => exact .inl (hret r)
  | reEnqueue _ hrest | upkeep _ hrest => exact .inr (hrest r)

theorem Works.bindBoth {job : Job} {β ε : Type} {p : Prog Statement.Res ε β}
    {f : Except ε β → Prog Statement.Res Empty Unit} (hp : p.Only fun q ↦ q.isUpkeep = true)
    (hf : ∀ r, Works job (f r) ∧ succeedsNext (f r) = false) :
    Works job (p.bindBoth f) ∧ succeedsNext (p.bindBoth f) = false := by
  induction p with
  | ret b => exact hf (.ok b)
  | fail e => exact hf (.error e)
  | stmt q next ih =>
      refine ⟨.upkeep hp.1 (fun r ↦ (ih r (hp.2 r)).1) fun r ↦ (ih r (hp.2 r)).2, ?_⟩
      unfold succeedsNext
      split
      next heq =>
        cases heq
        cases hp.1
      next => rfl

theorem attempt_mapErr_bind {β ε ε' : Type} (g : ε → ε') (p : Prog Statement.Res ε β)
    (f : Except ε' β → Prog Statement.Res Empty Unit) :
    (attempt (p.mapErr g) >>= f) = p.bindBoth fun r ↦ f (r.mapError g) := by
  induction p with
  | ret b => rfl
  | fail e => rfl
  | stmt q next ih =>
      refine congrArg (Prog.stmt q) (funext fun r ↦ ?_)
      exact ih r

theorem bindBoth_bind {α β ε : Type} (p : Prog Statement.Res ε α) (f : α → Prog Statement.Res ε β)
    (k : Except ε β → Prog Statement.Res Empty Unit) :
    (p >>= f).bindBoth k = p.bindBoth fun r ↦ match r with
      | .ok a => (f a).bindBoth k
      | .error e => k (.error e) := by
  induction p with
  | ret a => rfl
  | fail e => rfl
  | stmt q next ih => exact congrArg (Prog.stmt q) (funext ih)

theorem works_process (cx : Context) (job : Job) :
    Works job (process cx job) ∧ succeedsNext (process cx job) = false := by
  have fails (error : String) : Works job
      (attempt (sql (.jobs (.rescheduleOrKill job error (retryBackoff job.attempts)))) >>=
        fun _ ↦ (ret () : Prog Statement.Res Empty Unit)) :=
    .giveUp (by rintro (_ | _) <;> rfl)
  unfold process dispatch
  split
  next hkind =>
    rw [attempt_mapErr_bind, bindBoth_bind]
    refine Works.bindBoth (by simp [runCleanup, Statement.isUpkeep]) fun r ↦ ?_
    cases r with
    | error e => exact ⟨fails _, rfl⟩
    | ok =>
        refine ⟨.upkeep rfl (fun now ↦ .upkeep rfl (fun n ↦ .reEnqueue hkind ?_ ?_) fun _ ↦ rfl)
          fun _ ↦ rfl, rfl⟩
        · rintro (_ | _)
          · exact fails _
          · exact .succeed (by rintro (_ | _) <;> rfl)
        · rintro (_ | _) <;> rfl
  next => exact ⟨fails _, rfl⟩

/-! ## Workers -/

section Workers

variable {wk : Worker} {j : ℕ} {job : Job} {p rest : Prog Statement.Res Empty Unit} {id : Uuid}

/-- The claimed jobs, waiting or in a task. -/
def Worker.jobs (wk : Worker) : List Job := wk.waitingJobs ++ wk.tasks.map Task.job

theorem Worker.mem_held : id ∈ wk.held ↔ ∃ job ∈ wk.jobs, job.id = id := List.mem_map

theorem Worker.mem_jobs_of_task {t : Task} (h : t ∈ wk.tasks) : t.job ∈ wk.jobs :=
  List.mem_append_right _ (List.mem_map_of_mem h)

theorem Worker.loop_resume : (wk.resume j job rest).loop = wk.loop := by
  cases rest <;> rfl

theorem Worker.waitingJobs_resume : (wk.resume j job rest).waitingJobs = wk.waitingJobs := by
  cases rest <;> rfl

theorem Worker.tasks_resume_of_ne_ret (h : rest ≠ .ret ()) :
    (wk.resume j job rest).tasks = wk.tasks.set j ⟨job, rest⟩ := by
  cases rest with
  | ret => exact absurd rfl h
  | fail e => exact e.elim
  | stmt q next => rfl

theorem Worker.jobs_resume_of_ne_ret (h : wk.tasks[j]? = some ⟨job, p⟩) (hrest : rest ≠ .ret ()) :
    (wk.resume j job rest).jobs = wk.jobs := by
  obtain ⟨hlt, hj⟩ := List.getElem?_eq_some_iff.mp h
  have hset : (wk.tasks.set j ⟨job, rest⟩).map Task.job = wk.tasks.map Task.job := by
    have hlt' : j < (wk.tasks.map Task.job).length := by simpa using hlt
    have hmap : (wk.tasks.map Task.job)[j] = job := by simp [hj]
    rw [List.map_set]
    exact (congrArg _ hmap.symm).trans (List.set_getElem_self hlt')
  cases rest with
  | ret => exact absurd rfl hrest
  | fail e => exact e.elim
  | stmt q next => exact congrArg (wk.waitingJobs ++ ·) hset

theorem Worker.jobs_resume_ret :
    (wk.resume j job (.ret ())).jobs = wk.waitingJobs ++ (wk.tasks.map Task.job).eraseIdx j :=
  congrArg (wk.waitingJobs ++ ·) (List.eraseIdx_map _ _ _).symm

theorem Worker.jobs_resume_sublist (rest : Prog Statement.Res Empty Unit)
    (h : wk.tasks[j]? = some ⟨job, p⟩) :
    (wk.resume j job rest).jobs.Sublist wk.jobs := by
  by_cases hret : rest = .ret ()
  · subst hret
    rw [jobs_resume_ret]
    exact (List.eraseIdx_sublist _ _).append_left _
  · rw [jobs_resume_of_ne_ret h hret]

theorem Worker.mem_held_resume (rest : Prog Statement.Res Empty Unit)
    (h : wk.tasks[j]? = some ⟨job, p⟩) (hid : id ∈ wk.held) :
    id ∈ (wk.resume j job rest).held ∨ rest = .ret () ∧ id = job.id := by
  by_cases hret : rest = .ret ()
  · subst hret
    obtain ⟨job', hjob', rfl⟩ := mem_held.mp hid
    have hin : job' ∈ (wk.resume j job (.ret ())).jobs ∨ job' = job := by
      rw [jobs_resume_ret]
      rcases List.mem_append.mp hjob' with hwaiting | htask
      · exact .inl (List.mem_append_left _ hwaiting)
      · obtain ⟨n, hn⟩ := List.mem_iff_getElem?.mp htask
        by_cases hnj : n = j
        · subst hnj
          rw [List.getElem?_map, h] at hn
          exact .inr (Option.some.inj hn).symm
        · exact .inl (List.mem_append_right _ (List.mem_eraseIdx_iff_getElem?.mpr ⟨n, hnj, hn⟩))
    exact hin.imp (fun hin ↦ mem_held.mpr ⟨job', hin, rfl⟩) fun heq ↦ ⟨rfl, by rw [heq]⟩
  · left
    rw [mem_held, jobs_resume_of_ne_ret h hret]
    exact mem_held.mp hid

/-- A job held once is no longer held when its task has returned. -/
theorem Worker.not_mem_held_resume (h : wk.tasks[j]? = some ⟨job, p⟩) (hnodup : wk.held.Nodup) :
    job.id ∉ (wk.resume j job (.ret ())).held := by
  intro hid
  obtain ⟨job', hjob', heq⟩ := mem_held.mp hid
  unfold held at hnodup
  rw [List.map_append, List.nodup_append] at hnodup
  obtain ⟨-, htasks, hdisjoint⟩ := hnodup
  have hmem : job ∈ wk.tasks.map Task.job := List.mem_map_of_mem (List.mem_of_getElem? h)
  rw [jobs_resume_ret] at hjob'
  rcases List.mem_append.mp hjob' with hwaiting | htask
  · exact hdisjoint _ (List.mem_map_of_mem hwaiting) _ (List.mem_map_of_mem hmem) heq
  · obtain ⟨n, hne, hn⟩ := List.mem_eraseIdx_iff_getElem?.mp htask
    have hlt : n < ((wk.tasks.map Task.job).map Job.id).length := by
      simpa using (List.getElem?_eq_some_iff.mp hn).1
    refine hne ((List.getElem?_inj hlt htasks).mp ?_)
    rw [List.getElem?_map, hn, List.getElem?_map, List.getElem?_map, h]
    simp [heq]

theorem Worker.mem_tasks_resume {t : Task} (ht : t ∈ (wk.resume j job rest).tasks) :
    t ∈ wk.tasks ∨ t = ⟨job, rest⟩ ∧ rest ≠ .ret () := by
  cases rest with
  | ret => exact .inl (List.mem_of_mem_eraseIdx ht)
  | fail e => exact e.elim
  | stmt q next =>
      rcases List.mem_or_eq_of_mem_set ht with ht | rfl
      · exact .inl ht
      · exact .inr ⟨rfl, by simp⟩

/-- The other tasks stay. -/
theorem Worker.mem_tasks_resume_of_ne {t : Task} (h : wk.tasks[j]? = some ⟨job, p⟩)
    (ht : t ∈ wk.tasks) (hne : t.job ≠ job) : t ∈ (wk.resume j job rest).tasks := by
  obtain ⟨n, hn⟩ := List.mem_iff_getElem?.mp ht
  have hnj : n ≠ j := by
    rintro rfl
    cases hn.symm.trans h
    exact hne rfl
  by_cases hret : rest = .ret ()
  · subst hret
    exact List.mem_eraseIdx_iff_getElem?.mpr ⟨n, hnj, hn⟩
  · rw [tasks_resume_of_ne_ret hret]
    refine List.mem_iff_getElem?.mpr ⟨n, ?_⟩
    rw [List.getElem?_set_ne (Ne.symm hnj), hn]

theorem Worker.mem_resume (h : wk.tasks[j]? = some ⟨job, p⟩) (hrest : rest ≠ .ret ()) :
    ⟨job, rest⟩ ∈ (wk.resume j job rest).tasks := by
  rw [tasks_resume_of_ne_ret hrest]
  exact List.mem_set (List.getElem?_eq_some_iff.mp h).1 _

end Workers

/-- No jobs and no workers yet. -/
def Queue.empty : Queue := ⟨Sample.server .empty, []⟩

end ApiStarter
