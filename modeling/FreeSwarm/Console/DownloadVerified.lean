import FreeSwarm.Console.Downloads

/-!
# Downloads that are verified

A run hashes the files that it fetched. What was on the disk with the published size when its plan was made
is not hashed again. So a job that is done, or a model that is installed, is verified as long as each file
that a plan finds with its size was hashed by the run that wrote it, and nothing else writes the files of a
job that is at work.
-/

namespace FreeSwarm.Console

open FreeSwarm.Foundation

variable {Digest : Type}

/-- The file is on the disk, and was hashed and had its hash since it was written. -/
def Verifies (disk : Disk Digest) (path : Path) (digest : Digest) : Prop :=
  ∃ file, disk.get? path = some file ∧ digest ∈ file.verified

/-- What is there was there before, by the same writer. -/
def Grows (disk disk' : Disk Digest) : Prop :=
  ∀ path file', disk'.get? path = some file' →
    ∃ file, disk.get? path = some file ∧ file'.writer = file.writer

/-- Nothing that was verified is lost. -/
def Keeps (disk disk' : Disk Digest) : Prop :=
  ∀ path digest, Verifies disk path digest → Verifies disk' path digest

/-- What a worker has found of the files that it is to hash. -/
def Worker.Covers (worker : Worker Digest) : Prop :=
  match worker.stage with
  | .waiting | .downloading => worker.matched = []
  | .verifying rest bad =>
    ∀ pair ∈ worker.plan.checksums, pair ∈ worker.matched ∨ pair ∈ rest ∨ pair.1 ∈ bad
  | .leaving code | .ended code => code = 0 → ∀ pair ∈ worker.plan.checksums, pair ∈ worker.matched

namespace Downloads

/-- The plan is being carried out, by a request or by a job that has not ended. -/
def AtWork (s : Downloads Digest) (owner : Option Nat) (p : Plan Digest) : Prop :=
  match owner with
  | none => ∃ request entry, s.requests.get? request = some (.planned entry p)
  | some id => ∃ job, s.jobs.get? id = some job ∧ job.stage ≠ .finished ∧ job.plan = p

/-- The worker that wrote the file has hashed it, and it had its hash. -/
def Settled (s : Downloads Digest) (path : Path) (digest : Digest) : Prop :=
  ∃ file id worker, s.disk.get? path = some file ∧ file.writer = some id ∧
    s.workers.get? id = some worker ∧ worker.plan.folder = path.1 ∧ (path.2, digest) ∈ worker.matched

variable (s : Downloads Digest)

/-- What the plan finds with its size was hashed by the worker that wrote it. -/
def Trusts (p : Plan Digest) : Prop :=
  ∀ name digest, p.Publishes name digest → name ∈ p.completeNames → s.Settled (p.folder, name) digest

/-- What a plan finds with its size was hashed by the worker that wrote it, the files of a plan that is being
carried out are written by nothing but its own worker, and that one writes those only that it will hash. What
is said to be installed when it is not known what is published was hashed, too. -/
def Careful : DownloadEvent Digest → Prop
  | .request request (.plan listing free) =>
    ∀ entry, s.requests.get? request = some (.checked entry) → s.Trusts (plan s.disk free entry listing)
  | .worker id (.write name _) =>
    ∀ worker, s.workers.get? id = some worker → ∀ owner p digest, s.AtWork owner p →
      p.folder = worker.plan.folder → p.Publishes name digest →
        owner = some id ∧ name ∉ p.completeNames
  | .put path _ => ∀ owner p digest, s.AtWork owner p → p.folder = path.1 → ¬p.Publishes path.2 digest
  | .remove path => ∀ owner p digest, s.AtWork owner p → p.folder = path.1 → ¬p.Publishes path.2 digest
  | .report entry listing free => s.Trusts (plan s.disk free entry listing)
  | .offline entry listing onDisk =>
    onDisk = true → ∀ name digest, (plan s.disk 0 entry listing).Publishes name digest →
      s.Settled (target entry listing.commit, name) digest
  | _ => True

def AllVerified (p : Plan Digest) : Prop :=
  ∀ name digest, p.Publishes name digest → Verifies s.disk (p.folder, name) digest

/-- A job that ends as done is verified, and so is a model that is said to be installed. -/
def Sound (ev : DownloadEvent Digest) (s' : Downloads Digest) : Prop :=
  match ev with
  | .job id .finish => ∀ job, s'.jobs.get? id = some job → job.phase = .done → s'.AllVerified job.plan
  | .request request (.plan listing free) =>
    ∀ entry, s.requests.get? request = some (.checked entry) →
      (plan s.disk free entry listing).installed = true → s.AllVerified (plan s.disk free entry listing)
  | .report entry listing free =>
    (plan s.disk free entry listing).installed = true → s.AllVerified (plan s.disk free entry listing)
  | .offline entry listing onDisk => onDisk = true → s.AllVerified (plan s.disk 0 entry listing)
  | _ => True

/-- What is known of the files while downloads go on. -/
structure Kept : Prop where
  covers : ∀ id worker, s.workers.get? id = some worker → worker.Covers
  plans : ∀ id job worker, s.jobs.get? id = some job → s.workers.get? id = some worker →
    worker.plan = job.plan
  settled : ∀ path digest, s.Settled path digest → Verifies s.disk path digest
  held : ∀ owner p, s.AtWork owner p → ∀ name digest, p.Publishes name digest →
    name ∈ p.completeNames → Verifies s.disk (p.folder, name) digest
  found : ∀ id job worker, s.jobs.get? id = some job → job.stage ≠ .finished →
    s.workers.get? id = some worker → ∀ name digest, (name, digest) ∈ worker.matched →
      job.plan.Publishes name digest → Verifies s.disk (job.plan.folder, name) digest

end Downloads

/-! ## Workers -/

section

variable {disk disk' : Disk Digest}

theorem Grows.refl : Grows disk disk := fun _ file' there => ⟨file', there, rfl⟩

theorem Keeps.refl : Keeps disk disk := fun _ _ verified => verified

namespace Worker
variable {worker worker' : Worker Digest} {isRead : Bool} {code : Nat}

theorem mem_want {pair : Name × Digest} (mem : pair ∈ worker.plan.checksums) : pair ∈ worker.want := by
  have nodup := (sublist_checksums worker.plan).nodup worker.plan.nodup
  rw [want, List.mem_insertionSort, dictOf_of_nodup nodup]
  exact mem

theorem end_covers (error : code ≠ 0) : (worker.end_ code).Covers := fun good => absurd good error

theorem kill_covers (covers : worker.Covers) : worker.kill.Covers := by
  rw [kill]
  split_ifs
  · exact end_covers (by decide)
  · exact covers

theorem say_covers {phase : Phase} {stage : WorkerStage Digest}
    (covers : ({ worker with stage := stage } : Worker Digest).Covers) :
    (worker.say isRead phase stage).Covers := by
  rw [say]
  split_ifs
  · exact covers
  · exact end_covers (by decide)

section

variable [DecidableEq Digest] {sha256 : List UInt8 → Digest} {id : Nat} {pair : Name × Digest}
  {rest : List (Name × Digest)} {bad : List Name} {ev : WorkerEvent}

theorem hash_covers (covers : worker.Covers) (stage : worker.stage = .verifying (pair :: rest) bad) :
    (worker.hash sha256 isRead disk pair rest bad).Covers := by
  have found : ∀ pair' ∈ worker.plan.checksums,
      pair' ∈ worker.matched ∨ pair' ∈ pair :: rest ∨ pair'.1 ∈ bad := by
    rw [Covers, stage] at covers
    exact covers
  rw [hash]
  split
  · exact end_covers (by decide)
  · split_ifs
    · refine say_covers fun pair' mem => ?_
      obtain before | next | bad := found pair' mem
      · exact .inl (List.mem_cons_of_mem _ before)
      · cases List.mem_cons.mp next with
        | inl same => exact .inl (by rw [same]; exact List.mem_cons_self)
        | inr later => exact .inr (.inl later)
      · exact .inr (.inr bad)
    · refine say_covers fun pair' mem => ?_
      obtain before | next | bad := found pair' mem
      · exact .inl before
      · cases List.mem_cons.mp next with
        | inl same => exact .inr (.inr (by simp [same]))
        | inr later => exact .inr (.inl later)
      · exact .inr (.inr (List.mem_append_left _ bad))

theorem step_covers (covers : worker.Covers) (taken : worker.step sha256 isRead disk ev = some worker') :
    worker'.Covers := by
  unfold step at taken
  split at taken
  case h_1 => nomatch taken
  case h_2 name content _ =>
    obtain ⟨-, rfl⟩ := of_guard taken
    exact covers
  case h_3 stage =>
    cases taken
    rw [Covers, stage] at covers
    exact say_covers covers
  case h_4 => exact Option.some.inj taken ▸ covers
  case h_5 => exact Option.some.inj taken ▸ covers
  case h_6 =>
    cases taken
    exact say_covers fun pair mem => .inr (.inl (mem_want mem))
  case h_7 =>
    cases taken
    exact say_covers fun good => nomatch good
  case h_8 stage => exact Option.some.inj taken ▸ hash_covers covers stage
  case h_9 stage =>
    cases taken
    rw [Covers, stage] at covers
    refine say_covers fun _ pair mem => ?_
    simpa using covers pair mem
  case h_10 =>
    cases taken
    exact say_covers fun good => nomatch good
  case h_11 code stage =>
    cases taken
    rw [Covers, stage] at covers
    exact covers
  case h_12 => exact Option.some.inj taken ▸ end_covers (by decide)
  case h_13 => nomatch taken

theorem hash_verifies (pair' : Name × Digest)
    (mem : pair' ∈ (worker.hash sha256 isRead disk pair rest bad).matched) :
    pair' ∈ worker.matched ∨
      pair' = pair ∧ ∃ file, disk.get? (worker.plan.folder, pair.1) = some file ∧
        sha256 file.content = pair.2 := by
  rw [hash] at mem
  split at mem
  · exact .inl mem
  · next file there =>
    split_ifs at mem with same
    · rw [say_matched] at mem
      exact (List.mem_cons.mp mem).symm.imp_right fun here => ⟨here, file, there, same⟩
    · rw [say_matched] at mem
      exact .inl mem

theorem writes_of_other (reads : ∀ name content, ev ≠ .write name content) (other : ev ≠ .hash) :
    worker.writes sha256 id disk ev = disk := by
  unfold writes
  split
  · exact absurd rfl (reads _ _)
  · exact absurd rfl other
  · rfl

theorem get?_writes_hash (stage : worker.stage = .verifying (pair :: rest) bad) (path : Path) :
    (worker.writes sha256 id disk .hash).get? path = (disk.get? path).map fun file =>
      if path = (worker.plan.folder, pair.1) ∧ sha256 file.content = pair.2 then
        { file with verified := pair.2 :: file.verified }
      else file := by
  simp only [writes, stage]
  exact Dict.get?_map _

theorem grows_hash (stage : worker.stage = .verifying (pair :: rest) bad) :
    Grows disk (worker.writes sha256 id disk .hash) := by
  intro path file' there
  rw [get?_writes_hash stage] at there
  obtain ⟨file, before, rfl⟩ := Option.map_eq_some_iff.mp there
  refine ⟨file, before, ?_⟩
  split_ifs <;> rfl

theorem keeps_hash (stage : worker.stage = .verifying (pair :: rest) bad) :
    Keeps disk (worker.writes sha256 id disk .hash) := by
  rintro path digest ⟨file, there, mem⟩
  refine ⟨_, by rw [get?_writes_hash stage, there, Option.map_some], ?_⟩
  split_ifs
  · exact List.mem_cons_of_mem _ mem
  · exact mem

/-- What a worker does to the disk: it writes a file while it downloads, or marks a file that has its
hash. -/
theorem step_writes (id : Nat) (taken : worker.step sha256 isRead disk ev = some worker') :
    (∃ name content, ev = .write name content ∧ worker.stage = .downloading ∧ worker' = worker) ∨
      Grows disk (worker.writes sha256 id disk ev) ∧ Keeps disk (worker.writes sha256 id disk ev) ∧
        ∀ pair ∈ worker'.matched, pair ∈ worker.matched ∨
          Verifies (worker.writes sha256 id disk ev) (worker.plan.folder, pair.1) pair.2 := by
  unfold step at taken
  split at taken
  case h_1 => nomatch taken
  case h_2 name content stage =>
    obtain ⟨-, rfl⟩ := of_guard taken
    exact .inl ⟨name, content, rfl, stage, rfl⟩
  case h_8 pair rest bad stage =>
    cases taken
    refine .inr ⟨grows_hash stage, keeps_hash stage, fun pair' mem => ?_⟩
    refine (hash_verifies pair' mem).imp_right ?_
    rintro ⟨rfl, file, there, same⟩
    refine ⟨_, by rw [get?_writes_hash stage, there, Option.map_some, if_pos ⟨rfl, same⟩], ?_⟩
    exact List.mem_cons_self
  case h_13 => nomatch taken
  all_goals
    cases taken
    rw [writes_of_other (by simp) (by simp)]
    refine .inr ⟨.refl, .refl, fun pair mem => .inl ?_⟩
    first | exact mem | simpa using mem

end

end Worker

end

/-! ## Steps -/

namespace Downloads
variable {s s' : Downloads Digest} {id : Nat}

theorem atWork_setJob {job job' : Job Digest} (before : s.jobs.get? id = some job)
    (same : job'.plan = job.plan) (going : job'.stage ≠ .finished → job.stage ≠ .finished)
    {owner : Option Nat} {p : Plan Digest} (work : (s.setJob id job').AtWork owner p) :
    s.AtWork owner p := by
  cases owner with
  | none => exact work
  | some id' =>
    obtain ⟨found, there, open_, rfl⟩ := work
    rw [setJob, Dict.get?_set] at there
    split_ifs at there with here
    · cases there
      exact ⟨job, here ▸ before, going open_, same.symm⟩
    · exact ⟨found, there, open_, rfl⟩

theorem Kept.setJob (kept : Kept s) {job : Job Digest} (job' : Job Digest)
    (before : s.jobs.get? id = some job)
    (same : job'.plan = job.plan) (going : job'.stage ≠ .finished → job.stage ≠ .finished) :
    Kept (s.setJob id job') where
  covers := kept.covers
  plans id' found worker there here := by
    rw [Downloads.setJob, Dict.get?_set] at there
    split_ifs at there with this_
    · cases there
      rw [same]
      exact kept.plans id job worker before (this_ ▸ here)
    · exact kept.plans id' found worker there here
  settled := kept.settled
  held owner p work := kept.held owner p (atWork_setJob before same going work)
  found id' found worker there open_ here := by
    rw [Downloads.setJob, Dict.get?_set] at there
    split_ifs at there with this_
    · cases there
      rw [same]
      exact kept.found id job worker before (going open_) (this_ ▸ here)
    · exact kept.found id' found worker there open_ here

theorem Kept.goes (kept : Kept s) {worker : Worker Digest} (worker' : Worker Digest)
    {disk : Disk Digest} (before : s.workers.get? id = some worker) (same : worker'.plan = worker.plan)
    (covers : worker'.Covers) (grows : Grows s.disk disk) (keeps : Keeps s.disk disk)
    (finds : ∀ pair ∈ worker'.matched, pair ∈ worker.matched ∨
      Verifies disk (worker.plan.folder, pair.1) pair.2) :
    Kept { s.setWorker id worker' with disk := disk } where
  covers id' found there := by
    rw [setWorker, Dict.get?_set] at there
    split_ifs at there
    · exact Option.some.inj there ▸ covers
    · exact kept.covers id' found there
  plans id' job found here there := by
    rw [setWorker, Dict.get?_set] at there
    split_ifs at there with this_
    · cases there
      rw [same]
      exact kept.plans id job worker (this_ ▸ here) before
    · exact kept.plans id' job found here there
  settled path digest := by
    rintro ⟨file', id', found, file_there, writer, there, folder, mem⟩
    obtain ⟨file, file_before, written⟩ := grows path file' file_there
    rw [setWorker, Dict.get?_set] at there
    split_ifs at there with this_
    · cases there
      rw [same] at folder
      cases finds _ mem with
      | inl known =>
        exact keeps _ _ (kept.settled path digest ⟨file, id, worker, file_before,
          written ▸ this_ ▸ writer, before, folder, known⟩)
      | inr verified =>
        rw [folder] at verified
        exact verified
    · exact keeps _ _ (kept.settled path digest ⟨file, id', found, file_before,
        written ▸ writer, there, folder, mem⟩)
  held owner p work name digest publishes complete :=
    keeps _ _ (kept.held owner p (by cases owner <;> exact work) name digest publishes complete)
  found id' job found here open_ there name digest mem publishes := by
    rw [setWorker, Dict.get?_set] at there
    split_ifs at there with this_
    · cases there
      cases finds _ mem with
      | inl known =>
        exact keeps _ _ (kept.found id job worker (this_ ▸ here) open_ before name digest known publishes)
      | inr verified =>
        rw [kept.plans id job worker (this_ ▸ here) before] at verified
        exact verified
    · exact keeps _ _ (kept.found id' job found here open_ there name digest mem publishes)

theorem Kept.spawned (kept : Kept s) {worker : Worker Digest} (covers : worker.Covers)
    (none_ : worker.matched = []) (plan : ∀ job, s.jobs.get? id = some job → worker.plan = job.plan) :
    Kept (s.setWorker id worker) where
  covers id' found there := by
    rw [setWorker, Dict.get?_set] at there
    split_ifs at there
    · exact Option.some.inj there ▸ covers
    · exact kept.covers id' found there
  plans id' job found here there := by
    rw [setWorker, Dict.get?_set] at there
    split_ifs at there with this_
    · exact Option.some.inj there ▸ plan job (this_ ▸ here)
    · exact kept.plans id' job found here there
  settled path digest := by
    rintro ⟨file, id', found, file_there, writer, there, folder, mem⟩
    rw [setWorker, Dict.get?_set] at there
    split_ifs at there
    · cases there
      rw [none_] at mem
      cases mem
    · exact kept.settled path digest ⟨file, id', found, file_there, writer, there, folder, mem⟩
  held owner p work := kept.held owner p (by cases owner <;> exact work)
  found id' job found here open_ there name digest mem publishes := by
    rw [setWorker, Dict.get?_set] at there
    split_ifs at there
    · cases there
      rw [none_] at mem
      cases mem
    · exact kept.found id' job found here open_ there name digest mem publishes

theorem Kept.touch (kept : Kept s) (disk : Disk Digest) (path : Path)
    (same : ∀ path', path' ≠ path → disk.get? path' = s.disk.get? path')
    (unsettled : ∀ file writer worker, disk.get? path = some file → file.writer = some writer →
      s.workers.get? writer = some worker → worker.matched = [])
    (free : ∀ owner p digest, s.AtWork owner p → p.folder = path.1 → p.Publishes path.2 digest →
      path.2 ∉ p.completeNames ∧ ∃ id, owner = some id ∧
        ∀ worker, s.workers.get? id = some worker → worker.matched = []) :
    Kept { s with disk := disk } where
  covers := kept.covers
  plans := kept.plans
  settled path' digest := by
    rintro ⟨file, id', found, file_there, writer, there, folder, mem⟩
    by_cases here : path' = path
    · rw [unsettled file id' found (here ▸ file_there) writer there] at mem
      nomatch mem
    · obtain ⟨file', there', verified⟩ := kept.settled path' digest
        ⟨file, id', found, (same path' here) ▸ file_there, writer, there, folder, mem⟩
      exact ⟨file', (same path' here).trans there', verified⟩
  held owner p work name digest publishes complete := by
    have work : s.AtWork owner p := by cases owner <;> exact work
    by_cases here : (p.folder, name) = path
    · subst here
      exact absurd complete (free owner p digest work rfl publishes).1
    · obtain ⟨file', there', verified⟩ := kept.held owner p work name digest publishes complete
      exact ⟨file', (same _ here).trans there', verified⟩
  found id' job found here open_ there name digest mem publishes := by
    by_cases touched : (job.plan.folder, name) = path
    · subst touched
      obtain ⟨-, id, owner, unmatched⟩ := free (some id') job.plan digest ⟨job, here, open_, rfl⟩ rfl publishes
      cases owner
      rw [unmatched found there] at mem
      nomatch mem
    · obtain ⟨file', there', verified⟩ := kept.found id' job found here open_ there name digest mem publishes
      exact ⟨file', (same _ touched).trans there', verified⟩

theorem Kept.asks (kept : Kept s) {requests : Dict Nat (Request Digest)}
    (work : ∀ request entry p, requests.get? request = some (.planned entry p) →
      s.AtWork none p ∨ s.Trusts p) :
    Kept { s with requests := requests } where
  covers := kept.covers
  plans := kept.plans
  settled := kept.settled
  held owner p works name digest publishes complete := by
    cases owner with
    | none =>
      obtain ⟨request, entry, there⟩ := works
      cases work request entry p there with
      | inl before => exact kept.held none p before name digest publishes complete
      | inr trusts => exact kept.settled _ _ (trusts name digest publishes complete)
    | some id => exact kept.held (some id) p works name digest publishes complete
  found := kept.found

theorem Kept.registers (kept : Kept s) {p : Plan Digest} (work : s.AtWork none p) (job : Job Digest)
    (same : job.plan = p) (fresh : s.workers.get? id = none) : Kept (s.setJob id job) where
  covers := kept.covers
  plans id' found worker there here := by
    rw [Downloads.setJob, Dict.get?_set] at there
    split_ifs at there with this_
    · have missing : s.workers.get? id' = some worker := here
      rw [this_, fresh] at missing
      cases missing
    · exact kept.plans id' found worker there here
  settled := kept.settled
  held owner p' works := by
    cases owner with
    | none => exact kept.held none p' works
    | some id' =>
      obtain ⟨found, there, open_, rfl⟩ := works
      rw [Downloads.setJob, Dict.get?_set] at there
      split_ifs at there with this_
      · cases there
        rw [same]
        exact kept.held none p work
      · exact kept.held (some id') found.plan ⟨found, there, open_, rfl⟩
  found id' found worker there open_ here := by
    rw [Downloads.setJob, Dict.get?_set] at there
    split_ifs at there with this_
    · have missing : s.workers.get? id' = some worker := here
      rw [this_, fresh] at missing
      cases missing
    · exact kept.found id' found worker there open_ here

theorem Kept.restart (kept : Kept s) : Kept { s with requests := .empty, jobs := .empty } where
  covers := kept.covers
  plans id job worker there := nomatch there
  settled := kept.settled
  held owner p work := by
    cases owner with
    | none =>
      obtain ⟨_, _, there⟩ := work
      nomatch there
    | some id =>
      obtain ⟨_, there, -⟩ := work
      nomatch there
  found id job worker there := nomatch there

theorem kept_init : Kept (init : Downloads Digest) where
  covers id worker there := nomatch there
  plans id job worker there := nomatch there
  settled path digest := by
    rintro ⟨file, id, worker, there, -⟩
    nomatch there
  held owner p work := by
    cases owner with
    | none =>
      obtain ⟨_, _, there⟩ := work
      nomatch there
    | some id =>
      obtain ⟨_, there, -⟩ := work
      nomatch there
  found id job worker there := nomatch there

theorem Kept.stepRequest (kept : Kept s) {request : Nat} {r : Request Digest} {ev : RequestEvent Digest}
    (before : s.requests.get? request = some r)
    (careful : ∀ listing free, ev = .plan listing free → ∀ entry, r = .checked entry →
      s.Trusts (plan s.disk free entry listing))
    (taken : s.stepRequest request r ev = some s') : Kept s' := by
  have ends : Kept (s.endRequest request) :=
    kept.asks fun request' entry p there => .inl ⟨request', entry, (Dict.get?_pop_eq_some.mp there).1⟩
  unfold Downloads.stepRequest at taken
  split at taken
  · next entry listing free =>
    dsimp only at taken
    split_ifs at taken
    · exact Option.some.inj taken ▸ ends
    · cases taken
      refine kept.asks fun request' entry' p there => ?_
      rw [Dict.get?_set] at there
      split_ifs at there with this_
      · obtain ⟨rfl, rfl⟩ := Request.planned.inj (Option.some.inj there)
        exact .inr (careful listing free rfl entry rfl)
      · exact .inl ⟨request', entry', there⟩
  · exact Option.some.inj taken ▸ ends
  · next entry p id =>
    split_ifs at taken with known
    cases taken
    have fresh : s.workers.get? id = none := by
      rw [Bool.or_eq_true, not_or] at known
      exact Option.not_isSome_iff_eq_none.mp known.2
    have registered := kept.registers ⟨request, entry, before⟩
      ⟨entry.repo, p, .queued, false, .waiting⟩ rfl fresh
    exact registered.asks fun request' entry' p' there =>
      .inl ⟨request', entry', (Dict.get?_pop_eq_some.mp there).1⟩
  · cases taken

theorem Kept.stepJob (kept : Kept s) {job : Job Digest} {ev : JobEvent}
    (before : s.jobs.get? id = some job) (taken : s.stepJob id job ev = some s') : Kept s' := by
  unfold Downloads.stepJob at taken
  split at taken
  case h_1 stage => 
    cases taken
    exact kept.setJob _ before rfl fun _ => by simp [stage]
  case h_2 stage =>
    cases taken
    have going := kept.setJob { job with stage := .feeding } before rfl fun _ => by simp [stage]
    refine going.spawned rfl rfl fun job' there => ?_
    rw [Downloads.setJob, Dict.get?_set_self] at there
    exact (congrArg Job.plan (Option.some.inj there) :)
  case h_3 stage =>
    cases taken
    exact kept.setJob _ before rfl fun _ => by simp [stage]
  case h_4 stage =>
    cases taken
    exact kept.setJob _ before rfl fun _ => by simp [stage]
  case h_5 worker stage here =>
    split at taken
    · next waits =>
      cases taken
      have going := kept.setJob { job with stage := .reading } before rfl fun _ => by simp [stage]
      have covers := kept.covers id worker here
      rw [Worker.Covers, waits] at covers
      exact going.goes _ here Worker.say_plan (Worker.say_covers covers) .refl .refl
        fun pair mem => .inl (by simpa using mem)
    · cases taken
      exact kept.setJob _ before rfl fun _ => by simp [stage]
  case h_6 repo p worker_stage matched line output stage here =>
    cases taken
    have covers := kept.covers id _ here
    have going := kept.goes ⟨repo, p, worker_stage, matched, output⟩ here rfl covers .refl
      .refl fun _ mem => .inl mem
    cases line with
    | text => exact going
    | value => exact going.setJob _ before rfl fun _ => by simp [stage]
    | message phase => exact going.setJob _ before rfl fun _ => by simp [stage]
  case h_7 stage here =>
    cases taken
    exact kept.setJob _ before rfl fun open_ => absurd rfl open_
  case h_8 worker here =>
    cases taken
    have going := kept.setJob { job with cancelled := true } before rfl fun open_ => open_
    exact going.goes _ here Worker.kill_plan (Worker.kill_covers (kept.covers id worker here)) .refl .refl
      fun pair mem => .inl (by simpa using mem)
  case h_9 =>
    cases taken
    exact kept.setJob _ before rfl fun open_ => open_
  case h_10 => nomatch taken

theorem Kept.stepWorker [DecidableEq Digest] {sha256 : List UInt8 → Digest} (kept : Kept s)
    {worker worker' : Worker Digest} {isRead : Bool} {ev : WorkerEvent}
    (before : s.workers.get? id = some worker)
    (careful : ∀ name content, ev = .write name content → ∀ owner p digest, s.AtWork owner p →
      p.folder = worker.plan.folder → p.Publishes name digest → owner = some id ∧ name ∉ p.completeNames)
    (taken : worker.step sha256 isRead s.disk ev = some worker') :
    Kept { s.setWorker id worker' with disk := worker.writes sha256 id s.disk ev } := by
  have covers := Worker.step_covers (kept.covers id worker before) taken
  have same := (Worker.step_same taken).1
  obtain ⟨name, content, rfl, stage, rfl⟩ | ⟨grows, keeps, finds⟩ := Worker.step_writes id taken
  · -- the worker has hashed nothing when it writes
    have unmatched : ∀ worker, s.workers.get? id = some worker → worker.matched = [] := by
      intro worker there
      have covers := kept.covers id worker there
      cases before.symm.trans there
      rw [Worker.Covers, stage] at covers
      exact covers
    have touched := kept.touch (s.disk.set (worker'.plan.folder, name) ⟨content, some id, []⟩)
      (worker'.plan.folder, name) (fun path' other => Dict.get?_set_of_ne other)
      (fun file writer worker there written here => by
        rw [Dict.get?_set_self] at there
        cases there
        cases written
        exact unmatched worker here)
      (fun owner p digest work folder publishes => by
        obtain ⟨owner, missing⟩ := careful name content rfl owner p digest work folder publishes
        exact ⟨missing, id, owner, unmatched⟩)
    exact touched.goes _ before rfl covers .refl .refl fun _ mem => .inl mem
  · exact kept.goes _ before same covers grows keeps finds

section

variable [DecidableEq Digest] {sha256 : List UInt8 → Digest} {ev : DownloadEvent Digest}

theorem Kept.step (kept : Kept s) (careful : s.Careful ev) (taken : s.step sha256 ev = some s') :
    Kept s' := by
  cases ev with
  | start request entry =>
    simp only [Downloads.step] at taken
    split_ifs at taken
    · exact Option.some.inj taken ▸ kept
    · cases taken
      refine kept.asks fun request' entry' p there => .inl ⟨request', entry', ?_⟩
      rw [Dict.get?_set] at there
      split_ifs at there
      · cases there
      · exact there
  | request request ev =>
    obtain ⟨r, before, taken⟩ := Option.bind_eq_some_iff.mp taken
    refine kept.stepRequest before (fun listing free same entry is_ => ?_) taken
    subst same is_
    exact careful entry before
  | job id ev =>
    obtain ⟨job, before, taken⟩ := Option.bind_eq_some_iff.mp taken
    exact kept.stepJob before taken
  | worker id ev =>
    obtain ⟨worker, before, taken⟩ := Option.bind_eq_some_iff.mp taken
    obtain ⟨worker', goes, rfl⟩ := Option.map_eq_some_iff.mp taken
    refine kept.stepWorker before (fun name content same owner p digest work folder publishes => ?_) goes
    subst same
    exact careful worker before owner p digest work folder publishes
  | put path content =>
    cases taken
    refine kept.touch _ path (fun path' other => Dict.get?_set_of_ne other) ?_
      fun owner p digest work folder publishes => absurd publishes (careful owner p digest work folder)
    intro file writer worker there written
    rw [Dict.get?_set_self] at there
    cases there
    cases written
  | remove path =>
    cases taken
    refine kept.touch _ path (fun path' other => ?_) ?_
      fun owner p digest work folder publishes => absurd publishes (careful owner p digest work folder)
    · rw [Dict.pop, Dict.get?_filter_key, if_pos other]
    · intro file writer worker there
      exact absurd rfl (Dict.get?_pop_eq_some.mp there).2
  | report => exact Option.some.inj taken ▸ kept
  | offline => exact Option.some.inj taken ▸ kept
  | restart => exact Option.some.inj taken ▸ kept.restart

end

/-! ## What is said of a download -/

theorem Kept.installed (kept : Kept s) {free : Nat} {entry : Entry} {listing : Listing Digest}
    (trusts : s.Trusts (plan s.disk free entry listing))
    (installed : (plan s.disk free entry listing).installed = true) :
    s.AllVerified (plan s.disk free entry listing) := by
  intro name digest publishes
  have listed := publishes
  obtain ⟨file, mem, rfl, -⟩ := listed
  refine kept.settled _ _ (trusts file.name digest publishes ?_)
  exact (mem_completeNames rfl).mpr ⟨file, mem_required mem, rfl, isPresent_of_installed rfl installed mem⟩

theorem Kept.done (kept : Kept s) {job job' : Job Digest} (before : s.jobs.get? id = some job)
    (taken : s.stepJob id job .finish = some s') (there : s'.jobs.get? id = some job')
    (done : job'.phase = .done) : s'.AllVerified job'.plan := by
  obtain ⟨stage, repo, p, code, matched, here, rfl⟩ := finish_cases taken
  rw [Downloads.setJob, Dict.get?_set_self] at there
  cases there
  -- the worker has ended without an error
  have good : code = 0 := by
    rw [Job.finish] at done
    split_ifs at done with cancelled error
    exact not_not.mp error
  have all := kept.covers id _ here good
  have same : p = job.plan := kept.plans id job _ before here
  subst same
  intro name digest publishes
  have listed := publishes
  obtain ⟨file, mem, rfl, published⟩ := listed
  have work : s.AtWork (some id) job.plan := ⟨job, before, by simp [stage], rfl⟩
  by_cases complete : file.name ∈ job.plan.completeNames
  · exact kept.held _ _ work file.name digest publishes complete
  · exact kept.found id job _ before (by simp [stage]) here file.name digest
      (all _ (mem_checksums (mem_required mem) published complete)) publishes

/-- Whether a file is verified can be looked up. -/
instance decidableVerifies [DecidableEq Digest] (disk : Disk Digest) (path : Path) (digest : Digest) :
    Decidable (Verifies disk path digest) :=
  match there : disk.get? path with
  | none => .isFalse fun ⟨_, here, _⟩ => nomatch there.symm.trans here
  | some file =>
    decidable_of_iff (digest ∈ file.verified)
      ⟨fun mem => ⟨file, there, mem⟩,
        fun ⟨_, here, mem⟩ => Option.some.inj (there.symm.trans here) ▸ mem⟩

/-- Whether a hash is published can be looked up. -/
instance decidablePublishes [DecidableEq Digest] (p : Plan Digest) (name : Name) (digest : Digest) :
    Decidable (p.Publishes name digest) :=
  inferInstanceAs (Decidable (∃ file ∈ required p.chosen, file.name = name ∧ file.sha256 = some digest))

/-- A worker fetches the two files, and hashes them. -/
def downloadRuns : List (DownloadEvent Nat) :=
  downloadBegins 0 ++ [.worker 0 (.write "a.safetensors".toList [0x61]),
    .worker 0 (.write "b.safetensors".toList [0x62]), .worker 0 .fetched, .worker 0 .hash,
    .worker 0 .hash, .worker 0 .conclude, .worker 0 .exit] ++ List.replicate 5 (.job 0 .read)

/-- A worker is killed after it fetched a wrong file, and the next one fetches the other file. -/
def downloadResumes : List (DownloadEvent Nat) :=
  downloadBegins 0 ++ [.worker 0 (.write "a.safetensors".toList [0x62]), .worker 0 .kill,
    .job 0 .read, .job 0 .finish] ++
  downloadBegins 1 ++ [.worker 1 (.write "b.safetensors".toList [0x62]), .worker 1 .fetched,
    .worker 1 .hash, .worker 1 .conclude, .worker 1 .exit] ++ List.replicate 4 (.job 1 .read)

theorem trusts_of_nil {s : Downloads Digest} {p : Plan Digest} (nil : p.completeNames = []) : s.Trusts p := by
  intro name digest _ complete
  rw [nil] at complete
  nomatch complete

theorem careful_write {s : Downloads Digest} {id : Nat} {name : Name} {content : List UInt8}
    (alone : s.requests.entries.length = 0 ∧
      ∀ pair ∈ s.jobs.entries, pair.1 = id ∧ pair.2.plan.completeNames = []) :
    s.Careful (.worker id (.write name content)) := by
  intro worker _ owner p digest work _ _
  cases owner with
  | none =>
    obtain ⟨request, entry, there⟩ := work
    have mem := Dict.mem_entries_iff.mpr there
    rw [List.length_eq_zero_iff.mp alone.1] at mem
    nomatch mem
  | some id' =>
    obtain ⟨job, there, -, rfl⟩ := work
    obtain ⟨same, nil⟩ := alone.2 (id', job) (Dict.mem_entries_iff.mpr there)
    exact ⟨congrArg some same, by rw [nil]; simp⟩

end Downloads

end FreeSwarm.Console
