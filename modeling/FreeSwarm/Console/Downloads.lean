import FreeSwarm.Console.DownloadPlan
import FreeSwarm.Foundation.FairRun
import Mathlib.Data.Char
import Mathlib.Data.List.Lex
import Mathlib.Data.List.Sort

/-!
# Downloads

A request looks whether its repository is being downloaded, makes a plan, and registers a job. A thread of
the job starts a worker in a process of its own, gives it the plan, and reads what it prints until it ends.
The worker fetches the files, then hashes those that were not there when the plan was made. Requests, jobs,
workers, whoever else writes on the disk and a restart of the server interleave in any way.
-/

namespace FreeSwarm.Console

open FreeSwarm.Foundation

/-- `phase` of a job. -/
inductive Phase where
  | queued
  | starting
  | downloading
  | verifying
  | error
  | done
  | cancelled
  deriving DecidableEq

def Phase.running (phase : Phase) : Bool := phase ∈ [.starting, .downloading, .verifying]

inductive Line where
  | text
  | value
  | message (phase : Phase)
  deriving DecidableEq

/-- How far the thread of a job is. -/
inductive Stage where
  | waiting
  | starting
  | feeding
  | reading
  | finished
  | crashed
  deriving DecidableEq

inductive WorkerStage (Digest : Type) where
  | waiting
  | downloading
  | verifying (rest : List (Name × Digest)) (bad : List Name)
  | leaving (code : Nat)
  | ended (code : Nat)
  deriving DecidableEq

variable {Digest : Type}

inductive Request (Digest : Type) where
  | checked (entry : Entry)
  | planned (entry : Entry) (plan : Plan Digest)

structure Job (Digest : Type) where
  repo : Name
  plan : Plan Digest
  phase : Phase
  cancelled : Bool
  stage : Stage

structure Worker (Digest : Type) where
  repo : Name
  plan : Plan Digest
  stage : WorkerStage Digest
  matched : List (Name × Digest)
  output : List Line

def Worker.Alive (worker : Worker Digest) : Prop := ∀ code, worker.stage ≠ .ended code

/-- A worker may be running or not. -/
instance Worker.decidableAlive (worker : Worker Digest) : Decidable worker.Alive :=
  match stage : worker.stage with
  | .ended _ => .isFalse fun alive => alive _ stage
  | .waiting | .downloading | .verifying _ _ | .leaving _ =>
    .isTrue fun _ same => nomatch stage.symm.trans same

structure Downloads (Digest : Type) where
  disk : Disk Digest
  requests : Dict Nat (Request Digest)
  jobs : Dict Nat (Job Digest)
  workers : Dict Nat (Worker Digest)

/-- A step of a request, in `start`. -/
inductive RequestEvent (Digest : Type) where
  | plan (listing : Listing Digest) (free : Nat)
  | refuse
  | register (id : Nat)

/-- A step of a job: of its thread, which is `_run`, or `cancel`. -/
inductive JobEvent where
  | begin_
  | spawn
  | feed
  | crash
  | read
  | finish
  | cancel
  deriving DecidableEq

inductive WorkerEvent where
  | write (name : Name) (content : List UInt8)
  | print (line : Line)
  /-- `snapshot_download` returns. -/
  | fetched
  /-- `snapshot_download` fails. -/
  | fail
  | hash
  | conclude
  | exit
  /-- It is killed by something else than `cancel`. -/
  | kill

/-- A step. -/
inductive DownloadEvent (Digest : Type) where
  /-- `start`: a request for a download comes in. -/
  | start (request : Nat) (entry : Entry)
  | request (request : Nat) (ev : RequestEvent Digest)
  | job (id : Nat) (ev : JobEvent)
  | worker (id : Nat) (ev : WorkerEvent)
  | put (path : Path) (content : List UInt8)
  | remove (path : Path)
  /-- `_known_status`: it is reported whether a model is installed. -/
  | report (entry : Entry) (listing : Listing Digest) (free : Nat)
  /-- `_known_status`: it is reported whether a model is in the catalog, while it is not known what is
  published. -/
  | offline (entry : Entry) (listing : Listing Digest) (onDisk : Bool)
  | restart

/-! ## Workers -/

namespace Worker

variable (worker : Worker Digest)

def end_ (code : Nat) : Worker Digest := { worker with stage := .ended code }

def kill : Worker Digest := if worker.Alive then worker.end_ 9 else worker

def print (line : Line) : Worker Digest :=
  { worker with output := worker.output ++ [line] }

/-- `say`: a phase is reported. It ends a worker that nobody reads from any more. -/
def say (isRead : Bool) (phase : Phase) (stage : WorkerStage Digest) :
    Worker Digest :=
  if isRead then { worker with output := worker.output ++ [.message phase], stage := stage }
  else worker.end_ 1

/-- `want`, sorted: the files that are hashed. -/
def want : List (Name × Digest) :=
  (dictOf worker.plan.checksums).insertionSort fun pair pair' => pair.1 ≤ pair'.1

/-- The file is one of those that are fetched, and has the size that is published. -/
def Fetches (name : Name) (content : List UInt8) : Prop :=
  ∃ file ∈ worker.plan.chosen, file.name = name ∧ file.size = content.length

/-- It may be looked up. -/
instance decidableFetches (worker : Worker Digest) (name : Name) (content : List UInt8) :
    Decidable (worker.Fetches name content) :=
  inferInstanceAs (Decidable (∃ file ∈ worker.plan.chosen, file.name = name ∧ file.size = content.length))

section

variable [DecidableEq Digest] (sha256 : List UInt8 → Digest)

variable (worker : Worker Digest)

def hash (isRead : Bool) (disk : Disk Digest) (pair : Name × Digest)
    (rest : List (Name × Digest)) (bad : List Name) : Worker Digest :=
  match disk.get? (worker.plan.folder, pair.1) with
  | none => worker.end_ 1
  | some file =>
    if sha256 file.content = pair.2 then
      { worker with matched := pair :: worker.matched }.say isRead .verifying (.verifying rest bad)
    else worker.say isRead .verifying (.verifying rest (bad ++ [pair.1]))

def step (isRead : Bool) (disk : Disk Digest) (ev : WorkerEvent) :
    Option (Worker Digest) :=
  match worker.stage, ev with
  | .ended _, _ => none
  | .downloading, .write name content => if worker.Fetches name content then some worker else none
  | .downloading, .print (.message .downloading) => some (worker.say isRead .downloading .downloading)
  | _, .print .text => some (worker.print .text)
  | _, .print .value => some (worker.print .value)
  | .downloading, .fetched => some (worker.say isRead .verifying (.verifying worker.want []))
  | .downloading, .fail => some (worker.say isRead .error (.leaving 1))
  | .verifying (pair :: rest) bad, .hash => some (worker.hash sha256 isRead disk pair rest bad)
  | .verifying [] [], .conclude => some (worker.say isRead .done (.leaving 0))
  | .verifying [] (_ :: _), .conclude => some (worker.say isRead .error (.leaving 2))
  | .leaving code, .exit => some (worker.end_ code)
  | _, .kill => some (worker.end_ 9)
  | _, _ => none

/-- What a step of a worker leaves on the disk. A file that has its hash is marked as verified. -/
def writes (id : Nat) (disk : Disk Digest) (ev : WorkerEvent) : Disk Digest :=
  match worker.stage, ev with
  | _, .write name content => disk.set (worker.plan.folder, name) ⟨content, some id, []⟩
  | .verifying (pair :: _) _, .hash =>
    disk.map fun path file =>
      if path = (worker.plan.folder, pair.1) ∧ sha256 file.content = pair.2 then
        { file with verified := pair.2 :: file.verified }
      else file
  | _, _ => disk

end

end Worker

namespace Worker
variable {worker worker' : Worker Digest} {isRead : Bool} {phase : Phase} {stage : WorkerStage Digest}

@[simp]
theorem say_plan : (worker.say isRead phase stage).plan = worker.plan := by
  rw [say]
  split_ifs <;> rfl

@[simp]
theorem say_repo : (worker.say isRead phase stage).repo = worker.repo := by
  rw [say]
  split_ifs <;> rfl

@[simp]
theorem say_matched : (worker.say isRead phase stage).matched = worker.matched := by
  rw [say]
  split_ifs <;> rfl

@[simp]
theorem kill_plan : worker.kill.plan = worker.plan := by
  rw [kill]
  split_ifs <;> rfl

@[simp]
theorem kill_repo : worker.kill.repo = worker.repo := by
  rw [kill]
  split_ifs <;> rfl

@[simp]
theorem kill_matched : worker.kill.matched = worker.matched := by
  rw [kill]
  split_ifs <;> rfl

section

variable [DecidableEq Digest] {sha256 : List UInt8 → Digest} {disk : Disk Digest} {pair : Name × Digest}
  {rest : List (Name × Digest)} {bad : List Name} {ev : WorkerEvent}

theorem hash_same : (worker.hash sha256 isRead disk pair rest bad).plan = worker.plan ∧
    (worker.hash sha256 isRead disk pair rest bad).repo = worker.repo := by
  rw [hash]
  split
  · exact ⟨rfl, rfl⟩
  · split_ifs <;> simp

theorem step_same (taken : worker.step sha256 isRead disk ev = some worker') :
    worker'.plan = worker.plan ∧ worker'.repo = worker.repo := by
  unfold step at taken
  split at taken
  case h_1 => nomatch taken
  case h_2 =>
    obtain ⟨-, rfl⟩ := of_guard taken
    exact ⟨rfl, rfl⟩
  case h_8 => exact Option.some.inj taken ▸ hash_same
  case h_13 => nomatch taken
  all_goals
    cases taken
    first | exact ⟨rfl, rfl⟩ | simp

end

end Worker

/-! ## Requests, jobs and the rest -/

/-- `_run`: the end of a job is recorded. -/
def Job.finish (job : Job Digest) (code : Nat) : Job Digest :=
  { job with
    phase := if job.cancelled then .cancelled else if code ≠ 0 then .error else job.phase
    stage := .finished }

namespace Downloads

def init : Downloads Digest := ⟨.empty, .empty, .empty, .empty⟩

variable (s : Downloads Digest) (id : Nat) (job : Job Digest) (request : Nat)

def setWorker (worker : Worker Digest) : Downloads Digest :=
  { s with workers := s.workers.set id worker }

def setJob : Downloads Digest :=
  { s with jobs := s.jobs.set id job }

def setRequest (r : Request Digest) : Downloads Digest :=
  { s with requests := s.requests.set request r }

def endRequest : Downloads Digest :=
  { s with requests := s.requests.pop request }

/-- `running`: the repository is being downloaded, as far as the phases of the jobs tell. -/
def isRunning (s : Downloads Digest) (repo : Name) : Bool :=
  (s.jobs.find? fun _ job => job.repo = repo ∧ job.phase.running).isSome

def stepRequest (r : Request Digest) (ev : RequestEvent Digest) :
    Option (Downloads Digest) :=
  match r, ev with
  | .checked entry, .plan listing free =>
    let p := plan s.disk free entry listing
    if p.installed || !p.fits then some (s.endRequest request)
    else some (s.setRequest request (.planned entry p))
  | .checked _, .refuse => some (s.endRequest request)
  | .planned entry p, .register id =>
    if (s.jobs.get? id).isSome || (s.workers.get? id).isSome then none
    else some ((s.endRequest request).setJob id ⟨entry.repo, p, .queued, false, .waiting⟩)
  | _, _ => none

/-- `_run`: a line is read. One that is JSON and no object ends the thread. -/
def readLine : Line → Downloads Digest
  | .text => s
  | .value => s.setJob id { job with stage := .crashed }
  | .message phase => s.setJob id { job with phase := phase }

def stepJob (ev : JobEvent) :
    Option (Downloads Digest) :=
  match job.stage, ev, s.workers.get? id with
  | .waiting, .begin_, _ => some (s.setJob id { job with phase := .starting, stage := .starting })
  | .starting, .spawn, _ =>
    some ((s.setJob id { job with stage := .feeding }).setWorker id ⟨job.repo, job.plan, .waiting, [], []⟩)
  | .starting, .crash, _ => some (s.setJob id { job with stage := .crashed })
  | .feeding, .crash, _ => some (s.setJob id { job with stage := .crashed })
  | .feeding, .feed, some worker =>
    match worker.stage with
    | .waiting =>
      some ((s.setJob id { job with stage := .reading }).setWorker id
        (worker.say true .downloading .downloading))
    -- the pipe to a worker that has ended is broken
    | _ => some (s.setJob id { job with stage := .crashed })
  | .reading, .read, some ⟨repo, p, stage, matched, line :: output⟩ =>
    some ((s.setWorker id ⟨repo, p, stage, matched, output⟩).readLine id job line)
  | .reading, .finish, some ⟨_, _, .ended code, _, []⟩ => some (s.setJob id (job.finish code))
  | _, .cancel, some worker => some ((s.setJob id { job with cancelled := true }).setWorker id worker.kill)
  | _, .cancel, none => some (s.setJob id { job with cancelled := true })
  | _, _, _ => none

def step [DecidableEq Digest] (sha256 : List UInt8 → Digest) (s : Downloads Digest) :
    DownloadEvent Digest → Option (Downloads Digest)
  | .start request entry =>
    if (s.requests.get? request).isSome then none
    else if s.isRunning entry.repo then some s
    else some (s.setRequest request (.checked entry))
  | .request request ev => (s.requests.get? request).bind fun r => s.stepRequest request r ev
  | .job id ev => (s.jobs.get? id).bind fun job => s.stepJob id job ev
  | .worker id ev =>
    (s.workers.get? id).bind fun worker =>
      (worker.step sha256 (s.jobs.get? id).isSome s.disk ev).map fun worker' =>
        { s.setWorker id worker' with disk := worker.writes sha256 id s.disk ev }
  | .put path content => some { s with disk := s.disk.set path ⟨content, none, []⟩ }
  | .remove path => some { s with disk := s.disk.pop path }
  | .report .. => some s
  | .offline .. => some s
  | .restart => some { s with requests := .empty, jobs := .empty }

theorem finish_cases {s s' : Downloads Digest} {id : Nat} {job : Job Digest}
    (taken : s.stepJob id job .finish = some s') :
    job.stage = .reading ∧ ∃ repo p code matched,
      s.workers.get? id = some ⟨repo, p, .ended code, matched, []⟩ ∧ s' = s.setJob id (job.finish code) := by
  unfold stepJob at taken
  split at taken <;> simp_all

/-! ## A model of two files -/

/-- The hashes of two texts of one letter, as numbers. -/
def letterSha256 (content : List UInt8) : Nat :=
  if content = [0x61] then 0xca978112ca1bbdcafac231b39a23dc4da786eff8147c4e72b9807785afee48bb
  else if content = [0x62] then 0x3e23e8160039594a33894f6564e1b1348bbd7a0088d42c4acb73eeaed59c009d
  else 0

def twoFiles : Listing Nat where
  files :=
    [⟨"a.safetensors".toList, 1, some (letterSha256 [0x61])⟩,
      ⟨"b.safetensors".toList, 1, some (letterSha256 [0x62])⟩]
  commit := "main".toList
  nodup := by decide

def twoFilesEntry : Entry := ⟨"owner/model".toList, .models, "model".toList, [], [], false, false⟩

/-- A job is registered, and its worker begins. -/
def downloadBegins : List (DownloadEvent Nat) :=
  [.start id twoFilesEntry, .request id (.plan twoFiles (2 ^ 32)), .request id (.register id),
    .job id .begin_, .job id .spawn, .job id .feed]

def after (events : List (DownloadEvent Nat)) : Downloads Nat :=
  (events.foldlM (step letterSha256) init).getD init

variable (events : List (DownloadEvent Nat))

theorem after_concat (ev : DownloadEvent Nat)
    (runs : ((events ++ [ev]).foldlM (step letterSha256) init).isSome = true) :
    (after events).step letterSha256 ev = some (after (events ++ [ev])) ∧
      (events.foldlM (step letterSha256) init).isSome = true := by
  obtain ⟨s', last⟩ := Option.isSome_iff_exists.mp runs
  have last' := last
  rw [List.foldlM_append] at last'
  obtain ⟨s, first, more⟩ := Option.bind_eq_some_iff.mp last'
  obtain ⟨s'', taken, same⟩ := Option.bind_eq_some_iff.mp
    (show (s.step letterSha256 ev >>= fun s => pure s) = some s' from more)
  cases same
  rw [after, after, last, first, Option.getD_some, Option.getD_some]
  exact ⟨taken, rfl⟩

theorem reaches_after {meets : Downloads Nat → DownloadEvent Nat → Prop} (events : List (DownloadEvent Nat))
    (runs : (events.foldlM (step letterSha256) init).isSome = true)
    (condition : ∀ n ev, events[n]? = some ev → meets (after (events.take n)) ev) :
    Reaches (step letterSha256) meets init (after events) := by
  induction events using List.reverseRecOn with
  | nil => exact .refl
  | append_singleton events ev ih =>
    obtain ⟨taken, before⟩ := after_concat events ev runs
    refine .step (ih before fun n ev' event => ?_) ?_ taken
    · have inside : n < events.length := (List.getElem?_eq_some_iff.mp event).1
      have meets_ := condition n ev' ((List.getElem?_append_left inside).trans event)
      rwa [List.take_append_of_le_length inside.le] at meets_
    · have meets_ := condition events.length ev List.getElem?_concat_length
      rwa [List.take_left] at meets_

theorem foldlM_after
    (runs : (events.foldlM (step letterSha256) init).isSome = true) :
    events.foldlM (step letterSha256) init = some (after events) := by
  obtain ⟨s, last⟩ := Option.isSome_iff_exists.mp runs
  rw [after, last, Option.getD_some]

end Downloads

end FreeSwarm.Console
