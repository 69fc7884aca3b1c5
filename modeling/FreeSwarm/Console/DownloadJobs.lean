import FreeSwarm.Console.Downloads

/-!
# Jobs and their workers

Two requests for a repository may both find that it is not being downloaded, and a cancelled job has a worker
to end only once that was started. So a repository has one worker at a time, and a cancelled job ends as
cancelled, as long as no job is registered while a worker of its repository is there or still to come, a
job is cancelled while its worker is read from, and nothing ends the thread of a job before its time.
-/

namespace FreeSwarm.Console

open FreeSwarm.Foundation

variable {Digest : Type}

def pending (phase : Phase) (lines : List Line) : Phase :=
  lines.foldl (fun phase line => match line with
    | .message phase' => phase'
    | .text | .value => phase) phase

/-- The worker ends without an error. -/
def Worker.Succeeds (worker : Worker Digest) : Prop :=
  worker.stage = .leaving 0 ∨ worker.stage = .ended 0

/-- The worker was given its plan, and reports that it is done before it ends without an error. -/
structure Worker.Reports (worker : Worker Digest) (phase : Phase) : Prop where
  fed : worker.stage ≠ .waiting
  done : worker.Succeeds → pending phase worker.output = .done

/-- What is known of the worker of a job, if it was started, at each stage of the job. -/
def Fits (job : Job Digest) (started : Option (Worker Digest)) : Prop :=
  match job.stage with
  | .waiting | .starting => started = none ∧ job.cancelled = false
  | .feeding =>
    job.cancelled = false ∧ ∃ worker, started = some worker ∧ worker.repo = job.repo ∧ worker.stage = .waiting
  | .reading =>
    ∃ worker, started = some worker ∧ worker.repo = job.repo ∧
      (job.cancelled = true → ¬worker.Alive) ∧ worker.Reports job.phase
  | .finished =>
    (∃ worker, started = some worker ∧ worker.repo = job.repo ∧ ¬worker.Alive) ∧
      job.phase.running = false ∧ (job.cancelled = true → job.phase = .cancelled)
  | .crashed => False

namespace Downloads

/-- The job has a worker that is running, or is going to start one. -/
def Due (s : Downloads Digest) (id : Nat) (repo : Name) : Prop :=
  (∃ job, s.jobs.get? id = some job ∧ job.repo = repo ∧ (job.stage = .waiting ∨ job.stage = .starting)) ∨
    ∃ worker, s.workers.get? id = some worker ∧ worker.repo = repo ∧ worker.Alive

variable (s : Downloads Digest)

/-- No job is registered while its repository has a worker or is going to have one, a job is cancelled while
its worker is read from, no worker ends before it is given its plan, and no thread is ended by an exception.
No worker outlives the server. -/
def Timely : DownloadEvent Digest → Prop
  | .request request (.register _) =>
    ∀ entry p, s.requests.get? request = some (.planned entry p) → ∀ id, ¬s.Due id entry.repo
  | .job id ev =>
    ∀ job, s.jobs.get? id = some job →
      match ev with
      | .crash => False
      | .cancel => job.stage = .reading
      | .read => ∀ worker, s.workers.get? id = some worker → worker.output.head? ≠ some .value
      | _ => True
  | .worker id .kill => ∀ job, s.jobs.get? id = some job → job.stage ≠ .feeding
  | .restart => ∀ id worker, s.workers.get? id = some worker → ¬worker.Alive
  | _ => True

/-- The worker of the job was started, and has ended. -/
def Ended (s : Downloads Digest) (id : Nat) : Prop :=
  ∃ worker, s.workers.get? id = some worker ∧ ¬worker.Alive

/-- The job, if it is there, has come to its end, and does not keep its repository. One that was cancelled
ends as cancelled. -/
def Closed (s : Downloads Digest) (id : Nat) : Prop :=
  ∀ job, s.jobs.get? id = some job →
    job.stage = .finished ∧ job.phase.running = false ∧ (job.cancelled = true → job.phase = .cancelled)

/-- A repository has one worker, and the worker of a job that was cancelled has ended. -/
structure Orderly : Prop where
  single : ∀ id id' worker worker', s.workers.get? id = some worker → s.workers.get? id' = some worker' →
    worker.Alive → worker'.Alive → worker.repo = worker'.repo → id = id'
  ended : ∀ id job, s.jobs.get? id = some job → job.cancelled = true → s.Ended id
  /-- A job that has come to its end does not keep its repository, and one that was cancelled ends as
  cancelled. -/
  closed : ∀ id job, s.jobs.get? id = some job → job.stage = .finished →
    job.phase.running = false ∧ (job.cancelled = true → job.phase = .cancelled)

/-- What is known of the jobs. -/
structure Tidy : Prop where
  fits : ∀ id job, s.jobs.get? id = some job → Fits job (s.workers.get? id)
  alone : ∀ id id' repo, s.Due id repo → s.Due id' repo → id = id'

/-- What the thread of a job does when its worker has ended. -/
def Own (id : Nat) (_ : Downloads Digest) (ev : DownloadEvent Digest) : Prop :=
  ev = .job id .read ∨ ev = .job id .finish

end Downloads

/-! ## Workers -/

variable {lines : List Line}

@[simp]
theorem pending_text {phase : Phase} :
    pending phase (lines ++ [.text]) = pending phase lines := by simp [pending]

@[simp]
theorem pending_value {phase : Phase} :
    pending phase (lines ++ [.value]) = pending phase lines := by simp [pending]

@[simp]
theorem pending_message {phase phase' : Phase} :
    pending phase (lines ++ [.message phase']) = phase' := by simp [pending]

namespace Worker
variable {worker worker' : Worker Digest} {disk : Disk Digest} {ev : WorkerEvent}

theorem not_succeeds_of_stage {stage : WorkerStage Digest} (stage_ : worker.stage = stage)
    (leaving : stage ≠ .leaving 0) (ended : stage ≠ .ended 0) : ¬worker.Succeeds := by
  rintro (is_ | is_)
  · exact leaving (stage_.symm.trans is_)
  · exact ended (stage_.symm.trans is_)

theorem not_alive_end {code : Nat} : ¬(worker.end_ code).Alive := fun alive => alive code rfl

theorem kill_not_alive : ¬worker.kill.Alive := by
  rw [kill]
  split_ifs with alive
  · exact not_alive_end
  · exact alive

theorem Reports.of_stage {phase : Phase} {stage : WorkerStage Digest} (is_ : worker.stage = stage)
    (fed : stage ≠ .waiting) (leaving : stage ≠ .leaving 0) (ended : stage ≠ .ended 0) :
    worker.Reports phase :=
  ⟨fun waits => fed (is_.symm.trans waits),
    fun succeeds => absurd succeeds (not_succeeds_of_stage is_ leaving ended)⟩

theorem Reports.kill {phase : Phase} (reports : worker.Reports phase) : worker.kill.Reports phase := by
  rw [Worker.kill]
  split_ifs
  · exact .of_stage rfl (by rintro ⟨⟩) (by rintro ⟨⟩) (by rintro ⟨⟩)
  · exact reports

variable [DecidableEq Digest] {sha256 : List UInt8 → Digest} {isRead : Bool} {pair : Name × Digest}
  {rest : List (Name × Digest)} {bad : List Name}

theorem step_alive (taken : worker.step sha256 isRead disk ev = some worker') : worker.Alive := by
  intro code stage
  simp only [step, stage] at taken
  nomatch taken

theorem step_waiting (taken : worker.step sha256 isRead disk ev = some worker')
    (waiting : worker.stage = .waiting) (lives : ev ≠ .kill) : worker'.stage = .waiting := by
  unfold step at taken
  rw [waiting] at taken
  split at taken
  case h_4 => exact Option.some.inj taken ▸ waiting
  case h_5 => exact Option.some.inj taken ▸ waiting
  case h_12 => exact absurd rfl lives
  all_goals simp_all

theorem hash_reports {phase : Phase} : (worker.hash sha256 true disk pair rest bad).Reports phase := by
  rw [hash]
  split
  · exact .of_stage rfl (by rintro ⟨⟩) (by rintro ⟨⟩) (by rintro ⟨⟩)
  · split_ifs <;> exact .of_stage rfl (by rintro ⟨⟩) (by rintro ⟨⟩) (by rintro ⟨⟩)

theorem step_reports {phase : Phase} (reports : worker.Reports phase)
    (taken : worker.step sha256 true disk ev = some worker') : worker'.Reports phase := by
  unfold step at taken
  split at taken
  case h_1 => nomatch taken
  case h_2 =>
    obtain ⟨-, rfl⟩ := of_guard taken
    exact reports
  case h_4 =>
    cases taken
    exact ⟨reports.fed, fun succeeds => pending_text.trans (reports.done succeeds)⟩
  case h_5 =>
    cases taken
    exact ⟨reports.fed, fun succeeds => pending_value.trans (reports.done succeeds)⟩
  case h_8 => exact Option.some.inj taken ▸ hash_reports
  case h_9 =>
    cases taken
    exact ⟨nofun, fun _ => pending_message⟩
  case h_11 code stage =>
    cases taken
    refine ⟨nofun, fun succeeds => reports.done (.inl ?_)⟩
    obtain is_ | is_ := succeeds
    · nomatch is_
    · rw [stage]
      exact congrArg _ (WorkerStage.ended.inj is_)
  case h_12 => exact Option.some.inj taken ▸ .of_stage rfl nofun nofun nofun
  case h_13 => nomatch taken
  all_goals exact Option.some.inj taken ▸ .of_stage rfl nofun nofun nofun

end Worker

namespace Downloads
variable {s s' : Downloads Digest} {id id' : Nat} {repo : Name}

/-! ## Steps -/

theorem due_setJob {job job' : Job Digest} (before : s.jobs.get? id = some job)
    (same : job'.repo = job.repo)
    (going : job'.stage = .waiting ∨ job'.stage = .starting → job.stage = .waiting ∨ job.stage = .starting)
    (due : (s.setJob id job').Due id' repo) : s.Due id' repo := by
  obtain ⟨found, there, repo_, stage⟩ | worker := due
  · rw [setJob, Dict.get?_set] at there
    split_ifs at there with here
    · cases there
      exact .inl ⟨job, here ▸ before, same.symm.trans repo_, going stage⟩
    · exact .inl ⟨found, there, repo_, stage⟩
  · exact .inr worker

variable {worker : Worker Digest}

theorem due_setWorker (alive : worker.Alive → s.Due id worker.repo)
    (due : (s.setWorker id worker).Due id' repo) : s.Due id' repo := by
  obtain job | ⟨found, there, rfl, lives⟩ := due
  · exact .inl job
  · rw [setWorker, Dict.get?_set] at there
    split_ifs at there with here
    · cases there
      exact here ▸ alive lives
    · exact .inr ⟨found, there, rfl, lives⟩

theorem Tidy.setJob (tidy : Tidy s) {job job' : Job Digest} (before : s.jobs.get? id = some job)
    (same : job'.repo = job.repo)
    (going : job'.stage = .waiting ∨ job'.stage = .starting → job.stage = .waiting ∨ job.stage = .starting)
    (fits : Fits job' (s.workers.get? id)) : Tidy (s.setJob id job') where
  fits id' found there := by
    rw [Downloads.setJob, Dict.get?_set] at there
    split_ifs at there with here
    · cases there
      exact here ▸ fits
    · exact tidy.fits id' found there
  alone _ _ _ due due' := tidy.alone _ _ _ (due_setJob before same going due) (due_setJob before same going due')

theorem Tidy.setWorker (tidy : Tidy s)
    (alive : worker.Alive → s.Due id worker.repo)
    (fits : ∀ job, s.jobs.get? id = some job → Fits job (some worker)) : Tidy (s.setWorker id worker) where
  fits id' job there := by
    rw [Downloads.setWorker, Dict.get?_set]
    split_ifs with here
    · exact fits job (here ▸ there)
    · exact tidy.fits id' job there
  alone _ _ _ due due' := tidy.alone _ _ _ (due_setWorker alive due) (due_setWorker alive due')

theorem Tidy.setBoth (tidy : Tidy s) (job' : Job Digest)
    (fits : Fits job' (some worker)) (alive : worker.Alive → s.Due id worker.repo)
    (going : job'.stage ≠ .waiting ∧ job'.stage ≠ .starting) :
    Tidy ((s.setJob id job').setWorker id worker) where
  fits id' found there := by
    rw [Downloads.setWorker, Dict.get?_set]
    have there : (s.jobs.set id job').get? id' = some found := there
    rw [Dict.get?_set] at there
    split_ifs at there ⊢ with here
    · exact Option.some.inj there ▸ fits
    · exact tidy.fits id' found there
  alone _ _ _ due due' := by
    -- what is due now was due before
    have less : ∀ {id' repo}, ((s.setJob id job').setWorker id worker).Due id' repo → s.Due id' repo := by
      rintro id' repo (⟨found, there, repo_, stage⟩ | ⟨found, there, rfl, lives⟩)
      · have there : (s.jobs.set id job').get? id' = some found := there
        rw [Dict.get?_set] at there
        split_ifs at there with here
        · cases there
          exact absurd stage (by simp [going])
        · exact .inl ⟨found, there, repo_, stage⟩
      · rw [Downloads.setWorker, Dict.get?_set] at there
        split_ifs at there with here
        · cases there
          exact here ▸ alive lives
        · exact .inr ⟨found, there, rfl, lives⟩
    exact tidy.alone _ _ _ (less due) (less due')

theorem Tidy.of_same (tidy : Tidy s) (jobs : s'.jobs = s.jobs) (workers : s'.workers = s.workers) : Tidy s' where
  fits id job there := by
    rw [workers]
    exact tidy.fits id job (jobs ▸ there)
  alone id id' repo due due' := by
    rw [Due, jobs, workers] at due due'
    exact tidy.alone id id' repo due due'

theorem Tidy.registers (tidy : Tidy s) {p : Plan Digest} (fresh : s.workers.get? id = none)
    (none_ : ∀ id', ¬s.Due id' repo) : Tidy (s.setJob id ⟨repo, p, .queued, false, .waiting⟩) where
  fits id' found there := by
    rw [Downloads.setJob, Dict.get?_set] at there
    split_ifs at there with here
    · cases there
      subst here
      exact ⟨fresh, rfl⟩
    · exact tidy.fits id' found there
  alone id₁ id₂ repo' due₁ due₂ := by
    have only : ∀ {id' repo'}, (s.setJob id ⟨repo, p, .queued, false, .waiting⟩).Due id' repo' →
        id' = id ∧ repo' = repo ∨ s.Due id' repo' := by
      rintro id' repo' (⟨found, there, rfl, stage⟩ | worker)
      · rw [Downloads.setJob, Dict.get?_set] at there
        split_ifs at there with here
        · cases there
          exact .inl ⟨here, rfl⟩
        · exact .inr (.inl ⟨found, there, rfl, stage⟩)
      · exact .inr (.inr worker)
    obtain ⟨rfl, rfl⟩ | before₁ := only due₁ <;> obtain ⟨rfl, same⟩ | before₂ := only due₂
    · rfl
    · exact absurd before₂ (none_ _)
    · exact absurd (same ▸ before₁) (none_ _)
    · exact tidy.alone _ _ _ before₁ before₂

theorem tidy_init : Tidy (init : Downloads Digest) where
  fits id job there := nomatch there
  alone id id' repo due := by
    obtain ⟨_, there, -⟩ | ⟨_, there, -⟩ := due <;> nomatch there

theorem tidy_restart (ended : ∀ id worker, s.workers.get? id = some worker → ¬worker.Alive) :
    Tidy { s with requests := .empty, jobs := .empty } where
  fits id job there := nomatch there
  alone id id' repo due := by
    obtain ⟨_, there, -⟩ | ⟨worker, there, -, alive⟩ := due
    · nomatch there
    · exact absurd alive (ended id worker there)

theorem Tidy.stepRequest (tidy : Tidy s) {request : Nat} {r : Request Digest} {ev : RequestEvent Digest}
    (timely : ∀ id, ev = .register id → ∀ entry p, r = .planned entry p → ∀ id', ¬s.Due id' entry.repo)
    (taken : s.stepRequest request r ev = some s') : Tidy s' := by
  unfold Downloads.stepRequest at taken
  split at taken
  · dsimp only at taken
    split_ifs at taken <;> exact Option.some.inj taken ▸ tidy.of_same rfl rfl
  · exact Option.some.inj taken ▸ tidy.of_same rfl rfl
  · next entry p id =>
    split_ifs at taken with known
    cases taken
    have fresh : s.workers.get? id = none := by
      rw [Bool.or_eq_true, not_or] at known
      exact Option.not_isSome_iff_eq_none.mp known.2
    exact (tidy.registers fresh (timely id rfl entry p rfl)).of_same rfl rfl
  · cases taken

theorem Tidy.stepJob (tidy : Tidy s) {job : Job Digest} {ev : JobEvent}
    (before : s.jobs.get? id = some job)
    (crashes : ev ≠ .crash) (cancels : ev = .cancel → job.stage = .reading)
    (reads : ev = .read → ∀ worker, s.workers.get? id = some worker → worker.output.head? ≠ some .value)
    (taken : s.stepJob id job ev = some s') : Tidy s' := by
  have fits := tidy.fits id job before
  unfold Downloads.stepJob at taken
  split at taken
  case h_1 stage =>
    cases taken
    rw [Fits, stage] at fits
    exact tidy.setJob before rfl (fun _ => .inl stage) fits
  case h_2 stage =>
    cases taken
    rw [Fits, stage] at fits
    refine tidy.setBoth _ ⟨fits.2, _, rfl, rfl, rfl⟩ (fun _ => .inl ⟨job, before, rfl, .inr stage⟩) ?_
    exact ⟨by rintro ⟨⟩, by rintro ⟨⟩⟩
  case h_3 => exact absurd rfl crashes
  case h_4 => exact absurd rfl crashes
  case h_5 worker stage here =>
    rw [Fits, stage] at fits
    obtain ⟨active, worker', there, same, waits⟩ := fits
    cases here.symm.trans there
    rw [waits] at taken
    cases taken
    refine tidy.setBoth _ ⟨_, rfl, same, fun cancelled => ?_, .of_stage rfl (by rintro ⟨⟩) (by rintro ⟨⟩) (by rintro ⟨⟩)⟩
      (fun _ => .inr ⟨worker, here, rfl, fun code is_ => by cases waits.symm.trans is_⟩) ⟨by rintro ⟨⟩, by rintro ⟨⟩⟩
    rw [active] at cancelled
    cases cancelled
  case h_6 repo p worker_stage matched line output stage here =>
    cases taken
    rw [Fits, stage] at fits
    obtain ⟨worker', there, same, ended, reports⟩ := fits
    cases here.symm.trans there
    cases line with
    | text =>
      refine tidy.setWorker (fun alive => .inr ⟨_, here, rfl, alive⟩) fun job' there' => ?_
      cases before.symm.trans there'
      rw [Fits, stage]
      exact ⟨_, rfl, same, ended, reports.fed, reports.done⟩
    | value => exact absurd rfl (reads rfl _ here)
    | message phase =>
      refine tidy.setBoth { job with phase := phase } ?_ (fun alive => .inr ⟨_, here, rfl, alive⟩)
        ⟨by simp [stage], by simp [stage]⟩
      rw [Fits, stage]
      exact ⟨_, rfl, same, ended, reports.fed, reports.done⟩
  case h_7 code _ stage here =>
    cases taken
    rw [Fits, stage] at fits
    obtain ⟨worker', there, same, -, reports⟩ := fits
    cases here.symm.trans there
    refine tidy.setJob before rfl (by simp [Job.finish]) ⟨⟨_, here, same, ?_⟩, ?_, ?_⟩
    · exact fun alive => alive code rfl
    · rw [Job.finish]
      split_ifs with cancelled error
      · rfl
      · rfl
      · -- all that it printed was read
        have done : job.phase = .done := reports.done (.inr (congrArg _ (not_not.mp error)))
        rw [done]
        rfl
    · exact fun cancelled => if_pos cancelled
  case h_8 worker here =>
    cases taken
    have stage := cancels rfl
    rw [Fits, stage] at fits
    obtain ⟨worker', there, same, -, reports⟩ := fits
    cases here.symm.trans there
    refine tidy.setBoth { job with cancelled := true } ?_
      (fun alive => absurd alive Worker.kill_not_alive)
      ⟨by simp [stage], by simp [stage]⟩
    rw [Fits, stage]
    exact ⟨_, rfl, Worker.kill_repo.trans same, fun _ => Worker.kill_not_alive, reports.kill⟩
  case h_9 here =>
    rw [Fits, cancels rfl] at fits
    obtain ⟨worker', there, -⟩ := fits
    cases here.symm.trans there
  case h_10 => cases taken

section

variable [DecidableEq Digest] {sha256 : List UInt8 → Digest}

theorem Tidy.stepWorker (tidy : Tidy s) {worker worker' : Worker Digest} {ev : WorkerEvent}
    (before : s.workers.get? id = some worker)
    (fed : ev = .kill → ∀ job, s.jobs.get? id = some job → job.stage ≠ .feeding)
    (taken : worker.step sha256 (s.jobs.get? id).isSome s.disk ev = some worker') :
    Tidy (s.setWorker id worker') := by
  have alive := Worker.step_alive taken
  have repo := (Worker.step_same taken).2
  refine tidy.setWorker (fun _ => .inr ⟨worker, before, repo.symm, alive⟩) fun job there => ?_
  rw [there, Option.isSome_some] at taken
  have fits := tidy.fits id job there
  rw [before] at fits
  rw [Fits] at fits ⊢
  split at fits
  · nomatch fits.1
  · nomatch fits.1
  · next stage =>
    obtain ⟨active, worker, is_, same, waits⟩ := fits
    cases is_
    exact ⟨active, _, rfl, repo.trans same,
      Worker.step_waiting taken waits fun killed => fed killed job there stage⟩
  · obtain ⟨worker, is_, same, ended, reports⟩ := fits
    cases is_
    exact ⟨_, rfl, repo.trans same, fun cancelled => absurd alive (ended cancelled),
      Worker.step_reports reports taken⟩
  · obtain ⟨⟨worker, is_, -, ended⟩, -⟩ := fits
    cases is_
    exact absurd alive ended
  · nomatch fits

theorem Tidy.step (tidy : Tidy s) {ev : DownloadEvent Digest} (timely : s.Timely ev)
    (taken : s.step sha256 ev = some s') : Tidy s' := by
  cases ev with
  | start request entry =>
    simp only [Downloads.step] at taken
    split_ifs at taken
    · exact Option.some.inj taken ▸ tidy
    · exact Option.some.inj taken ▸ tidy.of_same rfl rfl
  | request request ev =>
    obtain ⟨r, before, taken⟩ := Option.bind_eq_some_iff.mp taken
    refine tidy.stepRequest (fun id same entry p is_ => ?_) taken
    subst same is_
    exact timely entry p before
  | job id ev =>
    obtain ⟨job, before, taken⟩ := Option.bind_eq_some_iff.mp taken
    have timely := timely job before
    refine tidy.stepJob before ?_ ?_ ?_ taken
    · rintro rfl
      exact timely
    · rintro rfl
      exact timely
    · rintro rfl
      exact timely
  | worker id ev =>
    obtain ⟨worker, before, taken⟩ := Option.bind_eq_some_iff.mp taken
    obtain ⟨worker', goes, rfl⟩ := Option.map_eq_some_iff.mp taken
    refine (tidy.stepWorker before ?_ goes).of_same rfl rfl
    rintro rfl
    exact timely
  | put => exact Option.some.inj taken ▸ tidy.of_same rfl rfl
  | remove => exact Option.some.inj taken ▸ tidy.of_same rfl rfl
  | report => exact Option.some.inj taken ▸ tidy
  | offline => exact Option.some.inj taken ▸ tidy
  | restart => exact Option.some.inj taken ▸ tidy_restart timely

end

/-! ## What is seen of the jobs -/

theorem Tidy.orderly (tidy : Tidy s) : Orderly s where
  single id id' worker worker' there there' alive alive' same :=
    tidy.alone id id' worker.repo (.inr ⟨worker, there, rfl, alive⟩) (.inr ⟨worker', there', same.symm, alive'⟩)
  ended id job there cancelled := by
    have fits := tidy.fits id job there
    rw [Fits] at fits
    split at fits
    · nomatch fits.2.symm.trans cancelled
    · nomatch fits.2.symm.trans cancelled
    · nomatch fits.1.symm.trans cancelled
    · obtain ⟨worker, is_, -, ended, -⟩ := fits
      exact ⟨worker, is_, ended cancelled⟩
    · obtain ⟨⟨worker, is_, -, ended⟩, -⟩ := fits
      exact ⟨worker, is_, ended⟩
    · nomatch fits
  closed id job there stage := by
    have fits := tidy.fits id job there
    rw [Fits, stage] at fits
    exact fits.2

/-- What is read of a worker that has ended, before its job ends. -/
structure Draining (id : Nat) (s : Downloads Digest) : Prop where
  tidy : Tidy s
  reading : ∃ job, s.jobs.get? id = some job ∧ job.stage = .reading
  ended : s.Ended id

/-- The lines of a worker that are left to be read. -/
def unread (id : Nat) (s : Downloads Digest) : Nat :=
  (s.workers.get? id).elim 0 fun worker => worker.output.length

/-- The job of a worker that has ended has come to its end, or reads what is left. -/
theorem Tidy.draining (tidy : Tidy s) (ended : s.Ended id) : s.Closed id ∨ Draining id s := by
  obtain ⟨worker, there, dead⟩ := ended
  cases is_ : s.jobs.get? id with
  | none => exact .inl fun job here => by cases is_.symm.trans here
  | some job =>
    have fits := tidy.fits id job is_
    rw [Fits, there] at fits
    split at fits
    · cases fits.1
    · cases fits.1
    · obtain ⟨-, worker, same, -, waits⟩ := fits
      cases same
      exact absurd (fun code ended => by cases waits.symm.trans ended) dead
    · next stage => exact .inr ⟨tidy, ⟨job, is_, stage⟩, worker, there, dead⟩
    · next stage =>
      refine .inl fun job' here => ?_
      cases is_.symm.trans here
      exact ⟨stage, fits.2⟩
    · cases fits

/-! ## Runs -/

section

variable [DecidableEq Digest] {sha256 : List UInt8 → Digest} {ev : DownloadEvent Digest}

theorem Draining.enabled (draining : Draining id s) : Enabled (step sha256) (Own id) s := by
  obtain ⟨job, there, reading⟩ := draining.reading
  obtain ⟨⟨repo, p, stage, matched, output⟩, here, dead⟩ := draining.ended
  obtain ⟨code, stage_⟩ := not_forall.mp dead
  obtain rfl : stage = .ended code := not_not.mp stage_
  cases output with
  | nil => exact ⟨.job id .finish, .inr rfl, by simp [step, stepJob, there, reading, here]⟩
  | cons line output => exact ⟨.job id .read, .inl rfl, by simp [step, stepJob, there, reading, here]⟩

omit [DecidableEq Digest] in
theorem stepJob_workers {job : Job Digest} {ev : JobEvent} (other : id' ≠ id)
    (taken : s.stepJob id job ev = some s') : s'.workers.get? id' = s.workers.get? id' := by
  unfold stepJob at taken
  split at taken
  case h_5 =>
    split at taken
    · exact Option.some.inj taken ▸ Dict.get?_set_of_ne other
    · exact Option.some.inj taken ▸ rfl
  case h_6 line _ _ _ =>
    cases taken
    cases line <;> exact Dict.get?_set_of_ne other
  case h_10 => cases taken
  all_goals
    cases taken
    first | rfl | exact Dict.get?_set_of_ne other

theorem step_workers (jobs : ∀ id ev', ev ≠ .job id ev') (workers : ∀ id ev', ev ≠ .worker id ev')
    (taken : s.step sha256 ev = some s') : s'.workers = s.workers := by
  cases ev with
  | start request entry =>
    simp only [step] at taken
    split_ifs at taken <;> exact Option.some.inj taken ▸ rfl
  | request request ev =>
    obtain ⟨r, before, taken⟩ := Option.bind_eq_some_iff.mp taken
    unfold stepRequest at taken
    split at taken
    · dsimp only at taken
      split_ifs at taken <;> exact Option.some.inj taken ▸ rfl
    · exact Option.some.inj taken ▸ rfl
    · split_ifs at taken
      exact Option.some.inj taken ▸ rfl
    · cases taken
  | job id ev => exact absurd rfl (jobs id ev)
  | worker id ev => exact absurd rfl (workers id ev)
  | put | remove | report | offline | restart => exact Option.some.inj taken ▸ rfl

omit [DecidableEq Digest] in
theorem Draining.same (draining : Draining id s) (same : s'.workers.get? id = s.workers.get? id) :
    s'.Ended id ∧ unread id s' ≤ unread id s := by
  rw [Ended, unread, unread, same]
  exact ⟨draining.ended, Nat.le_refl _⟩

omit [DecidableEq Digest] in
theorem Draining.stepJob (draining : Draining id s) {job : Job Digest} {ev : JobEvent}
    (before : s.jobs.get? id = some job) (crashes : ev ≠ .crash)
    (taken : s.stepJob id job ev = some s') :
    s'.Ended id ∧ unread id s' ≤ unread id s ∧
      (ev = .read → unread id s' < unread id s) ∧
      (ev = .finish → ∀ job', s'.jobs.get? id = some job' → job'.stage = .finished) := by
  obtain ⟨job', there, reading⟩ := draining.reading
  cases before.symm.trans there
  obtain ⟨worker, here, dead⟩ := draining.ended
  unfold Downloads.stepJob at taken
  split at taken
  case h_6 repo p worker_stage matched line output _ here' =>
    cases here.symm.trans here'
    cases taken
    have after : ((s.setWorker id ⟨repo, p, worker_stage, matched, output⟩).readLine id job line).workers.get?
        id = some ⟨repo, p, worker_stage, matched, output⟩ := by
      cases line <;> exact Dict.get?_set_self
    refine ⟨⟨_, after, dead⟩, ?_⟩
    rw [unread, unread, after, here]
    simp
  case h_7 code _ _ here' =>
    cases taken
    refine ⟨⟨worker, here, dead⟩, Nat.le_refl _, by rintro ⟨⟩, fun _ job' there' => ?_⟩
    rw [Downloads.setJob, Dict.get?_set_self] at there'
    obtain rfl := Option.some.inj there'
    rfl
  case h_8 worker' here' =>
    cases here.symm.trans here'
    cases taken
    have after : ((s.setJob id { job with cancelled := true }).setWorker id worker.kill).workers.get? id =
        some worker := by
      rw [Worker.kill, if_neg dead]
      exact Dict.get?_set_self
    refine ⟨⟨_, after, dead⟩, ?_, by rintro ⟨⟩, by rintro ⟨⟩⟩
    rw [unread, unread, after, here]
  case h_9 here' => cases here.symm.trans here'
  case h_10 => cases taken
  all_goals simp_all

theorem Draining.step (draining : Draining id s) (timely : s.Timely ev)
    (taken : s.step sha256 ev = some s') :
    s'.Closed id ∨ Draining id s' ∧ unread id s' ≤ unread id s ∧
      (Own id s ev → unread id s' < unread id s) := by
  have tidy := draining.tidy.step timely taken
  -- the worker has ended still, and as much of it is left or less
  have goes : s'.Ended id → unread id s' ≤ unread id s → ¬Own id s ev →
      s'.Closed id ∨ Draining id s' ∧ unread id s' ≤ unread id s ∧
        (Own id s ev → unread id s' < unread id s) := fun ended less other =>
    (tidy.draining ended).imp_right fun draining => ⟨draining, less, fun own => absurd own other⟩
  cases ev with
  | job id' ev =>
    obtain ⟨job, before, taken⟩ := Option.bind_eq_some_iff.mp taken
    by_cases here : id' = id
    · subst here
      have crashes : ev ≠ .crash := by
        rintro rfl
        exact timely job before
      obtain ⟨ended, less, reads, finishes⟩ := draining.stepJob before crashes taken
      by_cases own : Own id' s (.job id' ev)
      · obtain is_ | is_ := own
        · obtain rfl := (DownloadEvent.job.inj is_).2
          exact (tidy.draining ended).imp_right fun draining => ⟨draining, less, fun _ => reads rfl⟩
        · obtain rfl := (DownloadEvent.job.inj is_).2
          exact .inl fun job' there =>
            ⟨finishes rfl job' there, tidy.orderly.closed id' job' there (finishes rfl job' there)⟩
      · exact goes ended less own
    · obtain ⟨ended, less⟩ := draining.same (stepJob_workers (Ne.symm here) taken)
      exact goes ended less fun own => by simp [Own, here] at own
  | worker id' ev =>
    obtain ⟨worker, before, taken⟩ := Option.bind_eq_some_iff.mp taken
    obtain ⟨worker', moves, rfl⟩ := Option.map_eq_some_iff.mp taken
    have other : id ≠ id' := by
      rintro rfl
      obtain ⟨_, there, dead⟩ := draining.ended
      cases before.symm.trans there
      exact dead (Worker.step_alive moves)
    have same : (s.setWorker id' worker').workers.get? id = s.workers.get? id := Dict.get?_set_of_ne other
    obtain ⟨ended, less⟩ := draining.same same
    exact goes ended less fun own => by simp [Own] at own
  | _ =>
    have same := step_workers (by simp) (by simp) taken
    obtain ⟨ended, less⟩ := draining.same (congrArg (Dict.get? · id) same)
    exact goes ended less fun own => by simp [Own] at own

/-- In a run whose steps are timely a repository has one worker at a time and the worker of a cancelled job
has ended, and if the threads of the jobs go on, each job whose worker has ended comes to its end: it does
not keep its repository, and if it was cancelled it ends as cancelled. -/
theorem orderly_of_timely (run : Run (step sha256) Timely) (begins : run.states 0 = init) :
    (∀ n, Orderly (run.states n)) ∧
      ((∀ id, run.Fair (Own id)) → ∀ n id, (run.states n).Ended id →
        ∃ m, n ≤ m ∧ (run.states m).Closed id) := by
  have tidy : ∀ n, Tidy (run.states n) := fun n =>
    (run.reaches n).invariant Tidy (begins ▸ tidy_init) fun _ _ _ tidy timely taken => tidy.step timely taken
  refine ⟨fun n => (tidy n).orderly, fun fair n id ended => ?_⟩
  cases (tidy n).draining ended with
  | inl closed => exact ⟨n, Nat.le_refl n, closed⟩
  | inr draining =>
    exact run.finishes (Draining id) (Closed · id) (unread id) (fair id) (fun _ draining => draining.enabled)
      (fun _ _ _ draining timely taken => draining.step timely taken) n draining

end

/-! ## A job that is cancelled, and two requests at a time -/

theorem not_enabled_of_finished [DecidableEq Digest] {sha256 : List UInt8 → Digest}
    (finished : ∀ pair ∈ s.jobs.entries, pair.2.stage = .finished) : ¬Enabled (step sha256) (Own id) s := by
  rintro ⟨ev, own, taken⟩
  obtain ⟨s', taken⟩ := Option.isSome_iff_exists.mp taken
  obtain rfl | rfl := own <;>
  · obtain ⟨job, there, taken⟩ := Option.bind_eq_some_iff.mp taken
    have stage := finished (id, job) (Dict.mem_entries_iff.mpr there)
    simp [stepJob, show job.stage = .finished from stage] at taken

theorem not_due_of_idle (idle : s.jobs.entries.length = 0 ∧ s.workers.entries.length = 0) :
    ¬s.Due id repo := by
  rintro (⟨job, there, -⟩ | ⟨worker, there, -⟩)
  · have mem := Dict.mem_entries_iff.mpr there
    rw [List.length_eq_zero_iff.mp idle.1] at mem
    nomatch mem
  · have mem := Dict.mem_entries_iff.mpr there
    rw [List.length_eq_zero_iff.mp idle.2] at mem
    nomatch mem

/-- A job is cancelled while its worker is read from. -/
def cancelledRun : List (DownloadEvent Nat) :=
  downloadBegins 0 ++ [.job 0 .cancel, .job 0 .read, .job 0 .finish]

/-- Two requests for a repository look at the jobs before one is registered. -/
def twoRequests : List (DownloadEvent Nat) :=
  [.start 0 twoFilesEntry, .start 1 twoFilesEntry, .request 0 (.plan twoFiles (2 ^ 32)),
    .request 1 (.plan twoFiles (2 ^ 32)), .request 0 (.register 0), .request 1 (.register 1),
    .job 0 .begin_, .job 0 .spawn, .job 1 .begin_, .job 1 .spawn]

theorem cancelledRun_runs :
    cancelledRun.foldlM (step letterSha256) init = some (after cancelledRun) :=
  foldlM_after cancelledRun (by with_unfolding_all decide)

/-- The cancelled job comes to its end. -/
theorem cancelledRun_closed : ∃ run : Run (step letterSha256) Timely, (run.states 7).Ended 0 ∧
    (∀ n, Orderly (run.states n)) ∧ ∃ m, 7 ≤ m ∧ (run.states m).Closed 0 := by
  let free := Run.ofEvents cancelledRun init (after cancelledRun) cancelledRun_runs
  have timely : ∀ n ev, free.events n = some ev → (free.states n).Timely ev := by
    intro n ev event
    match n with
    | 0 | 1 =>
      cases event
      trivial
    | 2 =>
      cases event
      have idle : (free.states 2).jobs.entries.length = 0 ∧ (free.states 2).workers.entries.length = 0 := by
        with_unfolding_all decide
      exact fun _ _ _ _ => not_due_of_idle idle
    | 3 | 4 | 5 | 8 =>
      cases event
      exact fun _ _ => trivial
    | 6 =>
      cases event
      have reading : ∀ pair ∈ (free.states 6).jobs.entries, pair.2.stage = .reading := by
        with_unfolding_all decide
      exact fun job there => reading (0, job) (Dict.mem_entries_iff.mpr there)
    | 7 =>
      cases event
      have readable : ∀ pair ∈ (free.states 7).workers.entries, pair.2.output.head? ≠ some .value := by
        with_unfolding_all decide
      exact fun _ _ worker there => readable (0, worker) (Dict.mem_entries_iff.mpr there)
    | n + 9 => nomatch event
  let run := free.restrict timely
  have finished : ∀ pair ∈ (after cancelledRun).jobs.entries, pair.2.stage = .finished := by
    with_unfolding_all decide
  have fair : ∀ id, run.Fair (Own id) := fun id n => by
    refine ⟨n + 9, Nat.le_add_right n 9, .inr ?_⟩
    have last : run.states (n + 9) = after cancelledRun :=
      Run.ofEvents_last cancelledRun_runs (n + 9) (Nat.le_add_left 9 n)
    rw [last]
    exact not_enabled_of_finished finished
  have ended : ((free.states 7).workers.get? 0).any (fun worker => ¬worker.Alive) = true := by
    with_unfolding_all decide
  obtain ⟨worker, there, dead⟩ := (Option.any_eq_true ..).mp ended
  have ended : (run.states 7).Ended 0 := ⟨worker, there, of_decide_eq_true dead⟩
  obtain ⟨orderly, closes⟩ := orderly_of_timely run rfl
  exact ⟨run, ended, orderly, closes fair 7 0 ended⟩

/-- Both requests start a worker. -/
theorem twoRequests_disorderly : ∃ run : Run (step letterSha256) Always,
    run.states 0 = init ∧ ¬Orderly (run.states 10) := by
  have runs := foldlM_after twoRequests (by with_unfolding_all decide)
  refine ⟨Run.ofEvents twoRequests init (after twoRequests) runs, rfl, fun orderly => ?_⟩
  rw [Run.ofEvents_last runs 10 (by decide)] at orderly
  have both : ∀ id < 2, ((after twoRequests).workers.get? id).any
      (fun worker => worker.repo = twoFilesEntry.repo ∧ worker.Alive) = true := by with_unfolding_all decide
  obtain ⟨worker, there, facts⟩ := (Option.any_eq_true ..).mp (both 0 (by decide))
  obtain ⟨worker', there', facts'⟩ := (Option.any_eq_true ..).mp (both 1 (by decide))
  obtain ⟨repo, alive⟩ := of_decide_eq_true facts
  obtain ⟨repo', alive'⟩ := of_decide_eq_true facts'
  nomatch orderly.single 0 1 worker worker' there there' alive alive' (repo.trans repo'.symm)

end Downloads

end FreeSwarm.Console
