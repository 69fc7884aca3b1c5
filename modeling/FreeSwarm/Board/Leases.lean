import FreeSwarm.Board.Tasks

/-!
# The lease protocol

What a request can do to a single task is said once, and the protocol is read from it: a task is
held by one agent, which keeps it until it completes it or a clock reading passes the end of its
lease, and only the holder can complete or extend it. The report on a task is guarded by the agent
that claimed it last but not by its status, so the protocol holds exactly in the runs in which no
agent reports on a task that it has finished already.
-/

namespace FreeSwarm.Board

open FreeSwarm.Foundation

def Task.HeldBy (agent : Text) (t : Task) : Prop :=
  t.status = .claimed ∧ t.claimedBy = some agent

/-- The clock reading with which a request looks for leases that have run out. -/
def Request.expiry : Request → Option Time
  | .claimNext _ _ _ expiry => some expiry
  | .readTasks expiry => some expiry
  | _ => none

/-! ## What a request does to a task -/

inductive RowStep (request : Request) (t : Task) : Task → Prop where
  | same : RowStep request t t
  | requeued {now : Time} (passes : request.expiry = some now) (expired : t.Expired now) :
    RowStep request t (t.requeue now)
  | claimed {req : ClaimTask} {scope : Text} {now expiry : Time}
    (claims : request = .claimNext req scope now expiry) (opened : t.status = .open_) :
    RowStep request t (t.claim req now)
  | reclaimed {req : ClaimTask} {scope : Text} {now expiry : Time}
    (claims : request = .claimNext req scope now expiry) (expired : t.Expired expiry) :
    RowStep request t ((t.requeue expiry).claim req now)
  | completed {req : CompleteTask} {now : Time} (completes : request = .completeTask t.id req now)
    (claimer : t.claimedBy = some req.agentId) : RowStep request t (t.complete req now)
  | extended {req : ClaimTask} {now now' : Time}
    (extends_ : request = .extendLease t.id req now now') (held : t.HeldBy req.agentId) :
    RowStep request t (t.extend req now now')

theorem RowStep.id_eq {request : Request} {t t' : Task} (step : RowStep request t t') :
    t'.id = t.id := by
  cases step <;> rfl

theorem expireLeases_mem {now : Time} {tasks : List Task} {t : Task} (mem : t ∈ tasks) :
    (if t.Expired now then t.requeue now else t) ∈ expireLeases now tasks :=
  updateWhere_mem mem

@[simp] theorem map_id_expireLeases (now : Time) (tasks : List Task) :
    (expireLeases now tasks).map Task.id = tasks.map Task.id :=
  map_updateWhere Task.id fun _ => rfl

theorem map_id_claimRow (rowId : Text) (req : ClaimTask) (now : Time) (tasks : List Task) :
    (claimRow rowId req now tasks).map Task.id = tasks.map Task.id :=
  map_updateWhere Task.id fun _ => rfl

variable {tasks : List Task} (requests : List Request) {req : ClaimTask} {scope : Text}

theorem oldestClaimable_mem {tier : Option Tier} {tasks : List Task} {row : Task}
    (oldest : oldestClaimable scope tier tasks = some row) :
    row ∈ tasks ∧ row.Claimable scope tier := by
  have mem := List.argmin_mem oldest
  simpa using List.mem_filter.mp mem

theorem claimOldest_none {now : Time} {tasks : List Task}
    (oldest : oldestClaimable scope req.tier tasks = none) :
    claimOldest req scope now tasks = (tasks, none) := by
  rw [claimOldest, oldest]

theorem claimOldest_some {now : Time} {tasks : List Task}
    {row : Task} (oldest : oldestClaimable scope req.tier tasks = some row) :
    claimOldest req scope now tasks = (claimRow row.id req now tasks,
      (claimRow row.id req now tasks).find? fun t => t.id = row.id) := by
  obtain ⟨mem, claimable⟩ := oldestClaimable_mem oldest
  have counted : rowCount (fun t => t.id = row.id ∧ t.status = .open_) tasks ≠ 0 := by
    intro zero
    exact rowCount_eq_zero.mp zero row mem ⟨rfl, claimable.1⟩
  rw [claimOldest, oldest]
  simp only [if_neg counted]

theorem claimNext_row {now expiry : Time} {tasks : List Task}
    {t : Task} (mem : t ∈ tasks) :
    ∃ t' ∈ (claimNext req scope now expiry tasks).1,
      RowStep (.claimNext req scope now expiry) t t' := by
  have kept : (if t.Expired expiry then t.requeue expiry else t) ∈ expireLeases expiry tasks :=
    expireLeases_mem mem
  unfold claimNext
  cases oldest : oldestClaimable scope req.tier (expireLeases expiry tasks) with
  | none =>
    rw [claimOldest_none oldest]
    refine ⟨_, kept, ?_⟩
    split
    · next expired => exact .requeued rfl expired
    · exact .same
  | some row =>
    rw [claimOldest_some oldest]
    refine ⟨_, updateWhere_mem kept, ?_⟩
    by_cases expired : t.Expired expiry
    · rw [if_pos expired]
      split
      · exact .reclaimed rfl expired
      · exact .requeued rfl expired
    · rw [if_neg expired]
      split
      · next meets => exact .claimed rfl meets.2
      · exact .same

/-- A new task is put behind the others, open and under an identity of its own. -/
theorem handle_createTask (tasks : List Task) (taskId : Text) (req : CreateTask)
    (projectId sessionId : Text) (now : Time) :
    (handle tasks (.createTask taskId req projectId sessionId now)).1 = tasks ∨
      ∃ new : Task, new.id ∉ tasks.map Task.id ∧ new.claimedBy = none ∧
        (handle tasks (.createTask taskId req projectId sessionId now)).1 = tasks ++ [new] := by
  by_cases taken : taskId ∈ tasks.map Task.id
  · left
    simp only [handle, createTask, if_pos taken]
  · right
    simp only [handle, createTask, if_neg taken]
    exact ⟨_, taken, rfl, rfl⟩

theorem handle_row (request : Request) {t : Task} (mem : t ∈ tasks) :
    ∃ t' ∈ (handle tasks request).1, RowStep request t t' := by
  cases request with
  | createTask taskId req projectId sessionId now =>
    refine ⟨t, ?_, .same⟩
    rcases handle_createTask tasks taskId req projectId sessionId now with same | ⟨new, -, -, more⟩
    · rw [same]
      exact mem
    · rw [more]
      exact List.mem_append_left _ mem
  | claimNext req scope now expiry => exact claimNext_row mem
  | completeTask taskId req now =>
    refine ⟨_, updateWhere_mem mem, ?_⟩
    split
    · next meets => exact .completed (meets.1 ▸ rfl) meets.2
    · exact .same
  | extendLease taskId req now now' =>
    refine ⟨_, updateWhere_mem mem, ?_⟩
    split
    · next meets => exact .extended (meets.1 ▸ rfl) ⟨meets.2.2, meets.2.1⟩
    · exact .same
  | readTasks expiry =>
    refine ⟨_, expireLeases_mem mem, ?_⟩
    split
    · next expired => exact .requeued rfl expired
    · exact .same

theorem handle_ids (tasks : List Task) (request : Request) :
    (handle tasks request).1.map Task.id = tasks.map Task.id ∨
      ∃ new : Task, new.id ∉ tasks.map Task.id ∧ new.claimedBy = none ∧
        (handle tasks request).1 = tasks ++ [new] := by
  cases request with
  | createTask taskId req projectId sessionId now =>
    rcases handle_createTask tasks taskId req projectId sessionId now with same | more
    · rw [same]
      exact .inl rfl
    · exact .inr more
  | claimNext req scope now expiry =>
    left
    unfold handle claimNext
    cases oldest : oldestClaimable scope req.tier (expireLeases expiry tasks) with
    | none => simp only [claimOldest_none oldest, map_id_expireLeases]
    | some row => simp only [claimOldest_some oldest, map_id_claimRow, map_id_expireLeases]
  | completeTask taskId req now => exact .inl (map_updateWhere Task.id fun _ => rfl)
  | extendLease taskId req now now' => exact .inl (map_updateWhere Task.id fun _ => rfl)
  | readTasks expiry => exact .inl (map_id_expireLeases expiry tasks)

theorem nodup_handle (nodup : (tasks.map Task.id).Nodup) (request : Request) :
    ((handle tasks request).1.map Task.id).Nodup := by
  rcases handle_ids tasks request with same | ⟨new, apart, -, more⟩
  · rw [same]
    exact nodup
  · rw [more, List.map_append, List.nodup_append]
    refine ⟨nodup, by simp, ?_⟩
    rintro id mem id' mem' rfl
    rw [List.map_singleton, List.mem_singleton] at mem'
    exact apart (mem' ▸ mem)

theorem tasksAfter_concat (request : Request) :
    tasksAfter (requests ++ [request]) = (handle (tasksAfter requests) request).1 := by
  rw [tasksAfter, List.foldl_append]
  rfl

theorem nodup_tasksAfter :
    ((tasksAfter requests).map Task.id).Nodup := by
  induction requests using List.reverseRecOn with
  | nil => exact List.nodup_nil
  | append_singleton requests request ih =>
    rw [tasksAfter_concat]
    exact nodup_handle ih request

theorem rowStep_of_id (nodup : (tasks.map Task.id).Nodup) {request : Request}
    {t t' : Task} (mem : t ∈ tasks) (mem' : t' ∈ (handle tasks request).1) (same : t'.id = t.id) :
    RowStep request t t' := by
  obtain ⟨u, memU, step⟩ := handle_row request mem
  have one : u = t' :=
    row_eq_of_key (nodup_handle nodup request) memU mem' (step.id_eq.trans same.symm)
  exact one ▸ step

theorem handle_mem (nodup : (tasks.map Task.id).Nodup) {request : Request}
    {t' : Task} (mem' : t' ∈ (handle tasks request).1) :
    (∃ t ∈ tasks, RowStep request t t') ∨ t'.claimedBy = none := by
  by_cases known : t'.id ∈ tasks.map Task.id
  · obtain ⟨t, mem, same⟩ := List.mem_map.mp known
    exact .inl ⟨t, mem, rowStep_of_id nodup mem mem' same.symm⟩
  · right
    rcases handle_ids tasks request with same | ⟨new, -, unclaimed, more⟩
    · exact absurd (same ▸ List.mem_map_of_mem mem') known
    · rw [more, List.mem_append, List.mem_singleton] at mem'
      rcases mem' with mem | rfl
      · exact absurd (List.mem_map_of_mem mem) known
      · exact unclaimed

theorem open_unclaimed :
    ∀ t ∈ tasksAfter requests, t.status = .open_ → t.claimedBy = none := by
  induction requests using List.reverseRecOn with
  | nil => exact fun t mem => absurd mem List.not_mem_nil
  | append_singleton requests request ih =>
    intro t' mem' opened
    rw [tasksAfter_concat] at mem'
    rcases handle_mem (nodup_tasksAfter requests) mem' with ⟨t, mem, step⟩ | unclaimed
    · cases step with
      | same => exact ih _ mem opened
      | requeued passes expired => rfl
      | claimed claims _
      | reclaimed claims _ => exact absurd opened (show TaskStatus.claimed ≠ .open_ by decide)
      | @completed req now completes claimer =>
        simp only [Task.complete, CompleteTask.status] at opened
        split at opened
        · exact absurd opened (by decide)
        · exact absurd opened (by decide)
      | extended extends_ held => exact absurd (held.1.symm.trans opened) (by decide)
    · exact unclaimed

/-! ## The protocol -/

structure Lawful (tasks : List Task) (request : Request) : Prop where
  oneHolder : ∀ t ∈ tasks, ∀ t' ∈ tasks, t.id = t'.id → ∀ agent agent', t.HeldBy agent →
    t'.HeldBy agent' → agent = agent'
  claimed : ∀ req scope now expiry t', request = .claimNext req scope now expiry →
    (handle tasks request).2 = .task (some t') →
    t'.HeldBy req.agentId ∧ t'.leaseUntil = some (now + req.leaseS) ∧
      t' ∈ (handle tasks request).1 ∧ ∃ t ∈ tasks, t.id = t'.id ∧ (t.status = .open_ ∨ t.Expired expiry)
  /-- The holder of a task keeps it, unless it reports on it or its lease has run out, and only the
  holder moves the end of the lease. -/
  kept : ∀ t ∈ tasks, ∀ agent, t.HeldBy agent → ∀ t' ∈ (handle tasks request).1, t'.id = t.id →
    (t'.HeldBy agent ∧ (t'.leaseUntil = t.leaseUntil ∨
      ∃ req now now', request = .extendLease t.id req now now' ∧ req.agentId = agent)) ∨
    (∃ req now, request = .completeTask t.id req now ∧ req.agentId = agent) ∨
    (∃ now, request.expiry = some now ∧ t.Expired now)
  completed : ∀ taskId req now, request = .completeTask taskId req now →
    (handle tasks request).2 = .ok → ∃ t ∈ tasks, t.id = taskId ∧ t.HeldBy req.agentId
  extended : ∀ taskId req now now', request = .extendLease taskId req now now' →
    (handle tasks request).2 = .ok → ∃ t ∈ tasks, t.id = taskId ∧ t.HeldBy req.agentId
  finished : ∀ t ∈ tasks, t.status.Finished → ∃ t' ∈ (handle tasks request).1,
    t'.id = t.id ∧ t'.status = t.status ∧ t'.result = t.result
  refused : (handle tasks request).2 = .refused → (handle tasks request).1 = tasks

/-- An agent reports on a task that it claimed last and that is finished already. -/
def Recompletes (tasks : List Task) : Request → Prop
  | .completeTask taskId req _ =>
    ∃ t ∈ tasks, t.id = taskId ∧ t.claimedBy = some req.agentId ∧ t.status.Finished
  | _ => False

def WithinLease (taskId : Text) (before during : List Request) : Prop :=
  ∀ earlier request later, during = earlier ++ request :: later →
    ∀ now, request.expiry = some now →
      ∀ t ∈ tasksAfter (before ++ earlier), t.id = taskId → ¬ t.Expired now

/-- The lease protocol: every request is lawful, and the agent that holds a task stays the one that
claimed it last for as long as no request finds that its lease has run out. -/
structure LeaseProtocol (requests : List Request) : Prop where
  lawful : ∀ before request after, requests = before ++ request :: after →
    Lawful (tasksAfter before) request
  exclusive : ∀ before during after, requests = before ++ during ++ after →
    ∀ t ∈ tasksAfter before, ∀ agent, t.HeldBy agent → WithinLease t.id before during →
      ∀ t' ∈ tasksAfter (before ++ during), t'.id = t.id → t'.claimedBy = some agent

/-! ## Requests are lawful -/

section

variable {tasks : List Task}

theorem claimNext_task (nodup : (tasks.map Task.id).Nodup) {req : ClaimTask} {scope : Text}
    {now expiry : Time} {t' : Task}
    (answer : (claimNext req scope now expiry tasks).2 = some t') :
    t'.HeldBy req.agentId ∧ t'.leaseUntil = some (now + req.leaseS) ∧
      t' ∈ (claimNext req scope now expiry tasks).1 ∧
      ∃ t ∈ tasks, t.id = t'.id ∧ (t.status = .open_ ∨ t.Expired expiry) := by
  unfold claimNext at answer ⊢
  cases oldest : oldestClaimable scope req.tier (expireLeases expiry tasks) with
  | none =>
    rw [claimOldest_none oldest] at answer
    exact absurd answer (by simp)
  | some row =>
    rw [claimOldest_some oldest] at answer ⊢
    obtain ⟨mem, claimable⟩ := oldestClaimable_mem oldest
    have mem' : t' ∈ claimRow row.id req now (expireLeases expiry tasks) :=
      List.mem_of_find?_eq_some answer
    have same : t'.id = row.id := by simpa using List.find?_some answer
    have claimed : row.claim req now ∈ claimRow row.id req now (expireLeases expiry tasks) := by
      have changed := updateWhere_mem (p := fun t => t.id = row.id ∧ t.status = .open_)
        (f := Task.claim req now) mem
      rwa [if_pos ⟨rfl, claimable.1⟩] at changed
    have nodup' : ((claimRow row.id req now (expireLeases expiry tasks)).map Task.id).Nodup := by
      rw [map_id_claimRow, map_id_expireLeases]
      exact nodup
    obtain rfl : t' = row.claim req now := row_eq_of_key nodup' mem' claimed same
    refine ⟨⟨rfl, rfl⟩, rfl, mem', ?_⟩
    obtain ⟨t, memT, becomes⟩ := mem_updateWhere.mp mem
    refine ⟨t, memT, by rw [← becomes]; split <;> rfl, ?_⟩
    by_cases expired : t.Expired expiry
    · exact .inr expired
    · left
      rw [if_neg expired] at becomes
      exact becomes ▸ claimable.1

theorem handle_completeTask_ok {taskId : Text} {req : CompleteTask} {now : Time} :
    (handle tasks (.completeTask taskId req now)).2 = .ok ↔
      ∃ t ∈ tasks, t.id = taskId ∧ t.claimedBy = some req.agentId := by
  simp only [handle, completeTask, decide_not]
  split
  · next counted =>
    refine ⟨fun _ => exists_of_rowCount_ne_zero (by simpa using counted), fun _ => rfl⟩
  · next counted =>
    refine ⟨fun absurd => Response.noConfusion absurd, ?_⟩
    rintro ⟨t, mem, meets⟩
    exact absurd meets (rowCount_eq_zero.mp (by simpa using counted) t mem)

theorem handle_extendLease_ok {taskId : Text} {req : ClaimTask} {now now' : Time}
    (ok : (handle tasks (.extendLease taskId req now now')).2 = .ok) :
    ∃ t ∈ tasks, t.id = taskId ∧ t.HeldBy req.agentId := by
  simp only [handle, extendLease, decide_not] at ok
  split at ok
  · next counted =>
    obtain ⟨t, mem, same, claimer, held⟩ := exists_of_rowCount_ne_zero (by simpa using counted)
    exact ⟨t, mem, same, held, claimer⟩
  · exact Response.noConfusion ok

theorem handle_refused {request : Request} (refused : (handle tasks request).2 = .refused) :
    (handle tasks request).1 = tasks := by
  cases request with
  | createTask taskId req projectId sessionId now =>
    simp only [handle] at refused ⊢
    cases created : createTask taskId req projectId sessionId now tasks with
    | none => rfl
    | some more =>
      rw [created] at refused
      exact Response.noConfusion refused
  | claimNext req scope now expiry => exact Response.noConfusion refused
  | completeTask taskId req now =>
    simp only [handle, completeTask, decide_not] at refused ⊢
    split at refused
    · exact Response.noConfusion refused
    · next counted => exact updateWhere_of_rowCount_eq_zero (by simpa using counted)
  | extendLease taskId req now now' =>
    simp only [handle, extendLease, decide_not] at refused ⊢
    split at refused
    · exact Response.noConfusion refused
    · next counted => exact updateWhere_of_rowCount_eq_zero (by simpa using counted)
  | readTasks expiry => exact Response.noConfusion refused

theorem RowStep.kept {request : Request} {t t' : Task} {agent : Text} (step : RowStep request t t')
    (held : t.HeldBy agent) :
    (t'.HeldBy agent ∧ (t'.leaseUntil = t.leaseUntil ∨
      ∃ req now now', request = .extendLease t.id req now now' ∧ req.agentId = agent)) ∨
    (∃ req now, request = .completeTask t.id req now ∧ req.agentId = agent) ∨
    (∃ now, request.expiry = some now ∧ t.Expired now) := by
  cases step with
  | same => exact .inl ⟨held, .inl rfl⟩
  | requeued passes expired => exact .inr (.inr ⟨_, passes, expired⟩)
  | claimed claims opened => exact absurd (held.1.symm.trans opened) (by decide)
  | reclaimed claims expired => exact .inr (.inr ⟨_, by rw [claims]; rfl, expired⟩)
  | completed completes claimer =>
    have same := Option.some.inj (claimer.symm.trans held.2)
    exact .inr (.inl ⟨_, _, completes, same⟩)
  | extended extends_ held' =>
    have same := Option.some.inj (held'.2.symm.trans held.2)
    exact .inl ⟨held, .inr ⟨_, _, _, extends_, same⟩⟩

theorem RowStep.finished {request : Request} {t t' : Task} (step : RowStep request t t')
    (mem : t ∈ tasks) (finished : t.status.Finished) (once : ¬ Recompletes tasks request) :
    t'.status = t.status ∧ t'.result = t.result := by
  have unclaimed : t.status ≠ .claimed := by
    intro claimed
    rw [claimed] at finished
    exact absurd finished (by decide)
  cases step with
  | same => exact ⟨rfl, rfl⟩
  | requeued passes expired => exact absurd expired.1 unclaimed
  | claimed claims opened =>
    rw [opened] at finished
    exact absurd finished (by decide)
  | reclaimed claims expired => exact absurd expired.1 unclaimed
  | completed completes claimer =>
    rw [completes] at once
    exact absurd ⟨t, mem, rfl, claimer, finished⟩ once
  | extended extends_ held => exact absurd held.1 unclaimed

theorem RowStep.claimer {request : Request} {t t' : Task} {agent : Text}
    (step : RowStep request t t') (taken : t.status ≠ .open_) (claimer : t.claimedBy = some agent)
    (lasts : ∀ now, request.expiry = some now → ¬ t.Expired now) :
    t'.status ≠ .open_ ∧ t'.claimedBy = some agent := by
  cases step with
  | same => exact ⟨taken, claimer⟩
  | requeued passes expired => exact absurd expired (lasts _ passes)
  | claimed claims opened => exact absurd opened taken
  | reclaimed claims expired => exact absurd expired (lasts _ (by rw [claims]; rfl))
  | @completed req now completes claimer' =>
    refine ⟨?_, claimer⟩
    simp only [Task.complete, CompleteTask.status]
    split <;> decide
  | extended extends_ held => exact ⟨taken, claimer⟩

end

/-- On a board that requests have made, a request is lawful iff it is not a second report of an
agent on a task. -/
theorem lawful_iff_taken (requests : List Request) (request : Request) :
    Lawful (tasksAfter requests) request ↔ ¬ Recompletes (tasksAfter requests) request := by
  have nodup := nodup_tasksAfter requests
  constructor
  · rintro lawful again
    cases request with
    | completeTask taskId req now =>
      obtain ⟨t, mem, named, claimer, finished⟩ := again
      obtain ⟨u, memU, namedU, held⟩ := lawful.completed taskId req now rfl
        (handle_completeTask_ok.mpr ⟨t, mem, named, claimer⟩)
      obtain rfl : u = t := row_eq_of_key nodup memU mem (namedU.trans named.symm)
      rw [held.1] at finished
      exact absurd finished (by decide)
    | _ => exact again
  · intro once
    constructor
    · intro t mem t' mem' same agent agent' held held'
      obtain rfl : t = t' := row_eq_of_key nodup mem mem' same
      exact Option.some.inj (held.2.symm.trans held'.2)
    · rintro req scope now expiry t' rfl answer
      exact claimNext_task nodup (Response.task.inj answer)
    · intro t mem agent held t' mem' same
      exact (rowStep_of_id nodup mem mem' same).kept held
    · rintro taskId req now rfl ok
      obtain ⟨t, mem, named, claimer⟩ := handle_completeTask_ok.mp ok
      refine ⟨t, mem, named, ?_, claimer⟩
      -- neither open, as it has a claimer, nor finished, as this is no second report
      cases status : t.status with
      | claimed => rfl
      | open_ =>
        have unclaimed := open_unclaimed requests t mem status
        exact absurd (claimer.symm.trans unclaimed) (by simp)
      | done => exact absurd ⟨t, mem, named, claimer, .inl status⟩ once
      | failed => exact absurd ⟨t, mem, named, claimer, .inr status⟩ once
    · rintro taskId req now now' rfl ok
      exact handle_extendLease_ok ok
    · intro t mem finished
      obtain ⟨t', mem', step⟩ := handle_row request mem
      exact ⟨t', mem', step.id_eq, step.finished mem finished once⟩
    · exact handle_refused

theorem claimer_of_withinLease {before during : List Request} {t : Task}
    (mem : t ∈ tasksAfter before) {agent : Text} (held : t.HeldBy agent)
    (lasts : WithinLease t.id before during) :
    ∃ t' ∈ tasksAfter (before ++ during), t'.id = t.id ∧ t'.status ≠ .open_ ∧
      t'.claimedBy = some agent := by
  induction during using List.reverseRecOn with
  | nil =>
    rw [List.append_nil]
    exact ⟨t, mem, rfl, by rw [held.1]; decide, held.2⟩
  | append_singleton during request ih =>
    have shorter : WithinLease t.id before during := by
      intro earlier request' later split now reads u memU same
      exact lasts earlier request' (later ++ [request]) (by simp [split]) now reads u memU same
    obtain ⟨u, memU, same, taken, claimer⟩ := ih shorter
    obtain ⟨t', mem', step⟩ := handle_row request memU
    have next := step.claimer taken claimer fun now reads =>
      lasts during request [] rfl now reads u memU same
    refine ⟨t', ?_, step.id_eq.trans same, next⟩
    rw [← List.append_assoc, tasksAfter_concat]
    exact mem'

/-- The lease protocol holds exactly in the runs in which no agent reports on a task that it claimed
last and that is finished already. -/
theorem leaseProtocol_iff (requests : List Request) :
    LeaseProtocol requests ↔
      ∀ before request after, requests = before ++ request :: after →
        ¬ Recompletes (tasksAfter before) request := by
  constructor
  · intro protocol before request after split
    exact (lawful_iff_taken before request).mp (protocol.lawful before request after split)
  · intro once
    constructor
    · intro before request after split
      exact (lawful_iff_taken before request).mpr (once before request after split)
    · intro before during after _ t mem agent held lasts t' mem' same
      obtain ⟨u, memU, sameU, -, claimer⟩ := claimer_of_withinLease mem held lasts
      obtain rfl : u = t' :=
        row_eq_of_key (nodup_tasksAfter (before ++ during)) memU mem' (sameU.trans same.symm)
      exact claimer

/-- A task is created and claimed, its agent completes it, and then reports that it failed. -/
def secondReport : List Request :=
  [.createTask ['t'] ⟨[], [], .auto, none⟩ ['p'] ['s'] 0, .claimNext ⟨['a'], 300, none⟩ ['p'] 1 1,
    .completeTask ['t'] ⟨['a'], false, ['o', 'k']⟩ 2, .completeTask ['t'] ⟨['a'], true, []⟩ 3]

/-- The second report takes a task that is done to failed, and replaces its result. -/
theorem secondReport_breaks : ¬ LeaseProtocol secondReport ∧
    (tasksAfter (secondReport.take 3)).map (fun t => (t.status, t.result)) =
      [(.done, some ['o', 'k'])] ∧
    (tasksAfter secondReport).map (fun t => (t.status, t.result)) = [(.failed, some [])] := by
  refine ⟨?_, by decide, by decide⟩
  intro protocol
  have lawful := protocol.lawful (secondReport.take 3)
    (.completeTask ['t'] ⟨['a'], true, []⟩ 3) [] rfl
  have once := (lawful_iff_taken _ _).mp lawful
  have again : ∃ t ∈ tasksAfter (secondReport.take 3), t.id = ['t'] ∧ t.claimedBy = some ['a'] ∧
      t.status.Finished := by decide
  exact once again

end FreeSwarm.Board
