import Wazir.Jobs.JobManager
import Wazir.Shared.Values

/-! Writes of a job that fail. `flush` advances the cached job's revision inside of the store's
update: what fails after that leaves the cached revision ahead of the stored one. A manager without a
store writes nothing and is left out. -/

namespace Wazir.Jobs

open Wazir.Core

inductive WriteFault where
  | none
  /-- Before the update is called: the lock, or reading the store. -/
  | refused
  /-- `structuredClone` of the advanced job. -/
  | unclonable
  | notWritten
  /-- The write is there, and an error is reported all the same. -/
  | writtenAnyway
  deriving DecidableEq

/-- The store's update with what it returns and what is stored then. -/
def storeUpdate (fault : WriteFault) (mutate : Option Job → Except String Job) (stored : Option Job) :
    Except String Job × Option Job :=
  match fault, mutate stored with
  | .refused, _ => (.error "update refused", stored)
  | _, .error e => (.error e, stored)
  | .none, .ok job => (.ok job, some job)
  | .writtenAnyway, .ok job => (.error "write failed", some job)
  | _, .ok _ => (.error "write failed", stored)

/-- `flush` with the cached job and the stored one that it leaves. -/
def flush (claim : Claim) (now : ℤ) (fault : WriteFault) (job : Job) (stored : Option Job) :
    Except String Unit × Job × Option Job :=
  match fault, flushCheck claim now job stored with
  | .refused, _ => (.error "update refused", job, stored)
  | _, .error e => (.error e, job, stored)
  | .none, .ok () => (.ok (), advance job stored, some (stamped (advance job stored) stored))
  | .writtenAnyway, .ok () =>
    (.error "write failed", advance job stored, some (stamped (advance job stored) stored))
  | .unclonable, .ok () => (.error "DataCloneError", advance job stored, stored)
  | .notWritten, .ok () => (.error "write failed", advance job stored, stored)

/-- One manager, with its copy of a job, and the store. -/
structure Holder where
  claim : Claim
  cached : Job
  stored : Option Job

/-- What others do to the stored job without writing it: they take and give up leases, and ask the
holder to cancel. -/
inductive OtherUpdate where
  | acquire (ownerId : String) (leaseMs now : ℤ) (unknownByTask : List (String × UnknownCall))
  | lease (claim : Claim) (now expiresAt : ℤ)
  | cancelRequest (now : ℤ)

def OtherUpdate.apply (stored : Option Job) : OtherUpdate → Except String Job
  | .acquire ownerId leaseMs now unknownByTask => acquireUpdate ownerId leaseMs now unknownByTask stored
  | .lease claim now expiresAt => leaseUpdate claim now expiresAt stored
  | .cancelRequest now =>
    if stored.any (leased · now) then cancelUpdate now stored else .error "not leased"

inductive HolderEvent where
  | write (method : JobMethod) (now : ℤ) (fault : WriteFault)
  | acquire (leaseMs now : ℤ) (unknownByTask : List (String × UnknownCall)) (fault : WriteFault)
  | renew (leaseMs now : ℤ) (fault : WriteFault)
  | release (now : ℤ) (fault : WriteFault)
  | other (update : OtherUpdate)

/-- Without a claim, `cancel` and `pause` change the stored job and do not flush. -/
def JobMethod.unclaimed (now : ℤ) : JobMethod → Option (Option Job → Except String Job)
  | .cancel => some (cancelUpdate now)
  | .pause => some pauseUpdate
  | _ => none

namespace Holder

def update (s : Holder) (method : JobMethod) (now : ℤ) : Option (Option Job → Except String Job) :=
  if s.claim.epoch.isSome then none else method.unclaimed now

/-- A method that throws before its write leaves the cached job as it was. -/
def step (s : Holder) : HolderEvent → Holder
  | .write method now fault =>
    match s.update method now with
    | some update =>
      match storeUpdate fault update s.stored with
      | (.error _, stored) => { s with stored := stored }
      | (.ok job, stored) => { s with cached := job, stored := stored }
    | none =>
      match method.apply now s.cached with
      | .error _ => s
      | .ok job =>
        let (_, cached, stored) := flush s.claim now fault job s.stored
        { s with cached := cached, stored := stored }
  | .acquire leaseMs now unknownByTask fault =>
    match storeUpdate fault (acquireUpdate s.claim.ownerId leaseMs now unknownByTask) s.stored with
    | (.error _, stored) => { s with stored := stored }
    | (.ok job, stored) =>
      { claim := { s.claim with epoch := job.ownership.map (·.epoch) }, cached := job
        stored := stored }
  | .renew leaseMs now fault =>
    match storeUpdate fault (leaseUpdate s.claim now (now + leaseMs)) s.stored with
    | (.error _, stored) => { s with stored := stored }
    | (.ok job, stored) =>
      { s with cached := { s.cached with control := job.control }, stored := stored }
  | .release now fault =>
    if s.claim.epoch.isSome then
      { s with
        claim := { s.claim with epoch := none }
        stored := (storeUpdate fault (leaseUpdate s.claim now 0) s.stored).2 }
    else s
  | .other update =>
    match update.apply s.stored with
    | .error _ => s
    | .ok job => { s with stored := some job }

/-- The cached revision is the stored one. -/
def Synced (s : Holder) : Prop := ∀ current, s.stored = some current → current.revision = s.cached.revision

/-- Nobody else has the job: it is not stored yet, or the manager's lease is live, or there is none. -/
def Holds (s : Holder) (now : ℤ) : Prop :=
  ∀ current, s.stored = some current → claimCheck s.claim now current = .ok ()

/-- Whatever the holder writes next, a store that works takes it. -/
def Open (s : Holder) : Prop :=
  ∀ (method : JobMethod) (now : ℤ) (job : Job), method.apply now s.cached = .ok job → s.Holds now →
    (flush s.claim now .none job s.stored).1 = .ok ()

/-- No write of a stored job fails between the callback's check and the store's write, and no
unclaimed cancellation or pause is reported as failed although it was written. -/
def Careful (s : Holder) : HolderEvent → Prop
  | .write method now fault =>
    match s.update method now with
    | some update => ∀ job, update s.stored = .ok job →
        method = .cancel ∧ s.stored.any (leased · now) = true ∨ fault ≠ .writtenAnyway
    | none => ∀ job, method.apply now s.cached = .ok job →
        s.stored.isSome = true → flushCheck s.claim now job s.stored = .ok () →
          fault ≠ .unclonable ∧ fault ≠ .notWritten
  | _ => True

/-- The states of a run. -/
def states (s : Holder) : List HolderEvent → List Holder
  | [] => [s]
  | e :: rest => s :: states (s.step e) rest

/-- The events of a run, each with the state that it finds. -/
def steps (s : Holder) : List HolderEvent → List (Holder × HolderEvent)
  | [] => []
  | e :: rest => (s, e) :: steps (s.step e) rest

end Holder

variable {method : JobMethod}

section Revisions

variable {now : ℤ} {job job' : Job} {claim : Claim} {stored : Option Job}

theorem updateNodeState_revision {nodeId : String} {state : AgentState} {error : Option String}
    (h : updateNodeState now job nodeId state error = .ok job') : job'.revision = job.revision := by
  unfold updateNodeState at h
  split at h
  · cases h
    rfl
  · obtain ⟨u, -, h⟩ := except_bind_eq_ok.mp h
    cases h
    rfl

theorem addTasksToJob_revision (stamp : String) (newTasks : List JobTaskInput)
    (replacesTaskId : Option String) (job : Job) :
    (addTasksToJob stamp newTasks replacesTaskId job).revision = job.revision := by
  have hadded : (addTasks stamp newTasks job).1.revision = job.revision := by
    unfold addTasks
    generalize newTasks.zipIdx = inputs
    generalize ([] : List String) = created
    induction inputs generalizing job created with
    | nil => rfl
    | cons input rest ih => exact ih _ _
  unfold addTasksToJob
  simp only
  split
  · split_ifs
    · exact hadded
    · exact hadded
  · exact hadded

/-- The methods leave the revision to `flush`. -/
theorem apply_revision (h : method.apply now job = .ok job') :
    job'.revision = job.revision := by
  cases method with
  | save => cases h; rfl
  | completeTask taskId =>
    obtain ⟨task, -, h⟩ := except_bind_eq_ok.mp h
    obtain ⟨u, -, h⟩ := except_bind_eq_ok.mp h
    obtain ⟨job₁, h₁, h⟩ := except_bind_eq_ok.mp h
    cases h
    have hrev := updateNodeState_revision h₁
    exact hrev
  | failTask taskId error retryCount =>
    obtain ⟨task, -, h⟩ := except_bind_eq_ok.mp h
    obtain ⟨u, -, h⟩ := except_bind_eq_ok.mp h
    split at h
    · obtain ⟨job₁, h₁, h⟩ := except_bind_eq_ok.mp h
      cases h
      split at h₁
      · have hrev := updateNodeState_revision h₁
        exact hrev
      · cases h₁
        rfl
    · obtain ⟨job₁, h₁, h⟩ := except_bind_eq_ok.mp h
      cases h
      have hrev := updateNodeState_revision h₁
      exact hrev
  | addMessage => cases h; rfl
  | addArtifact => cases h; rfl
  | setJobStatus status startedAt completedAt =>
    obtain ⟨u, -, h⟩ := except_bind_eq_ok.mp h
    cases h
    rfl
  | updateTaskStatus taskId status =>
    obtain ⟨task, -, h⟩ := except_bind_eq_ok.mp h
    obtain ⟨u, -, h⟩ := except_bind_eq_ok.mp h
    cases h
    rfl
  | updateAgentState nodeId state error => exact updateNodeState_revision h
  | addTasksToJob stamp newTasks replacesTaskId =>
    cases h
    exact addTasksToJob_revision stamp newTasks replacesTaskId job
  | pause =>
    simp only [JobMethod.apply] at h
    split_ifs at h
    cases h
    rfl
  | resume =>
    simp only [JobMethod.apply] at h
    split_ifs at h
    cases h
    rfl
  | cancel =>
    simp only [JobMethod.apply] at h
    split_ifs at h
    cases h
    rfl

end Revisions

variable {job : Job}

section Runs

variable {s : Holder}

/-- The updates of leases leave the revision as it is. -/
theorem acquireUpdate_revision {ownerId : String} {leaseMs now : ℤ}
    {unknownByTask : List (String × UnknownCall)} {stored : Option Job}
    (h : acquireUpdate ownerId leaseMs now unknownByTask stored = .ok job) :
    ∃ current, stored = some current ∧ job.revision = current.revision := by
  cases stored with
  | none => cases h
  | some current =>
    refine ⟨current, rfl, ?_⟩
    simp only [acquireUpdate] at h
    split_ifs at h
    cases h
    unfold acquiredStatus
    split_ifs <;> rfl

theorem leaseUpdate_revision {claim : Claim} {now expiresAt : ℤ} {stored : Option Job}
    (h : leaseUpdate claim now expiresAt stored = .ok job) :
    ∃ current, stored = some current ∧ job.revision = current.revision := by
  obtain ⟨u, -, h⟩ := except_bind_eq_ok.mp h
  cases stored with
  | none => cases h
  | some current =>
    cases h
    exact ⟨current, rfl, rfl⟩

theorem otherUpdate_revision {update : OtherUpdate} {stored : Option Job}
    (h : update.apply stored = .ok job) :
    ∃ current, stored = some current ∧ job.revision = current.revision := by
  cases update with
  | acquire ownerId leaseMs now unknownByTask => exact acquireUpdate_revision h
  | lease claim now expiresAt => exact leaseUpdate_revision h
  | cancelRequest now =>
    cases stored with
    | none => cases h
    | some current =>
      refine ⟨current, rfl, ?_⟩
      simp only [OtherUpdate.apply, Option.any_some, cancelUpdate] at h
      split_ifs at h
      cases h
      rfl

theorem storeUpdate_revision (fault : WriteFault) (mutate : Option Job → Except String Job)
    (stored : Option Job)
    (hmutate : ∀ job, mutate stored = .ok job →
      ∃ current, stored = some current ∧ job.revision = current.revision) :
    (∀ after, (storeUpdate fault mutate stored).2 = some after →
        ∃ current, stored = some current ∧ after.revision = current.revision) ∧
      ∀ job, (storeUpdate fault mutate stored).1 = .ok job →
        (storeUpdate fault mutate stored).2 = some job := by
  have hkept : ∀ after, stored = some after →
      ∃ current, stored = some current ∧ after.revision = current.revision :=
    fun after hafter => ⟨after, hafter, rfl⟩
  cases hres : mutate stored with
  | error e =>
    cases fault <;> exact ⟨by simpa [storeUpdate, hres] using hkept, by simp [storeUpdate, hres]⟩
  | ok job =>
    have hnew : ∀ after, some job = some after →
        ∃ current, stored = some current ∧ after.revision = current.revision := by
      rintro _ ⟨⟩
      exact hmutate job hres
    cases fault with
    | none => exact ⟨by simpa [storeUpdate, hres] using hnew, by simp [storeUpdate, hres]⟩
    | writtenAnyway => exact ⟨by simpa [storeUpdate, hres] using hnew, by simp [storeUpdate, hres]⟩
    | refused => exact ⟨by simpa [storeUpdate] using hkept, by simp [storeUpdate]⟩
    | unclonable => exact ⟨by simpa [storeUpdate, hres] using hkept, by simp [storeUpdate, hres]⟩
    | notWritten => exact ⟨by simpa [storeUpdate, hres] using hkept, by simp [storeUpdate, hres]⟩

namespace Holder

/-- A check that passes finds the cached revision stored, or nothing stored. -/
theorem Synced.open (h : s.Synced) : s.Open := by
  intro method now job happly hholds
  have hrev := apply_revision happly
  have hcheck : flushCheck s.claim now job s.stored = .ok () := by
    cases hstored : s.stored with
    | none => rfl
    | some current =>
      have hsame : current.revision = job.revision := (h current hstored).trans hrev.symm
      rw [flushCheck, hholds current hstored, if_pos hsame]
      rfl
  simp only [flush, hcheck]

theorem flush_check {claim : Claim} {now : ℤ} {stored : Option Job} {e : String}
    (h : flushCheck claim now job stored = .error e) (fault : WriteFault) :
    ∃ e', flush claim now fault job stored = (.error e', job, stored) := by
  cases fault <;> simp [flush, h]

/-- What a write leaves, in step or not. -/
theorem synced_flush {claim : Claim} {now : ℤ} {stored : Option Job}
    (hsame : ∀ current, stored = some current → current.revision = job.revision)
    (fault : WriteFault) :
    (∀ current, (flush claim now fault job stored).2.2 = some current →
        current.revision = (flush claim now fault job stored).2.1.revision) ↔
      (stored.isSome = true → flushCheck claim now job stored = .ok () →
        fault ≠ .unclonable ∧ fault ≠ .notWritten) := by
  cases hcheck : flushCheck claim now job stored with
  | error e =>
    obtain ⟨e', hflush⟩ := flush_check hcheck fault
    rw [hflush]
    exact iff_of_true hsame fun _ h => by cases h
  | ok u =>
    have hwritten : ∀ current, some (stamped (advance job stored) stored) = some current →
        current.revision = (advance job stored).revision := by
      rintro _ ⟨⟩
      rfl
    -- the cached revision is one more than the stored one
    have hahead : (∀ current, stored = some current →
        current.revision = (advance job stored).revision) ↔ stored.isSome = false := by
      cases stored with
      | none => simp
      | some current =>
        simp only [Option.some.injEq, forall_eq', Option.isSome_some, advance, Option.bind_some]
        cases current.revision <;> simp
    cases fault with
    | none => simpa [flush, hcheck] using hwritten
    | refused => simpa [flush, hcheck] using hsame
    | writtenAnyway => simpa [flush, hcheck] using hwritten
    | unclonable => simpa [flush, hcheck] using hahead
    | notWritten => simpa [flush, hcheck] using hahead

theorem Synced.stored {s' : Holder} (h : s.Synced)
    (hkept : ∀ after, s'.stored = some after →
      ∃ current, s.stored = some current ∧ after.revision = current.revision)
    (hcached : s'.cached.revision = s.cached.revision) : s'.Synced := by
  intro after hafter
  obtain ⟨current, hcurrent, hrev⟩ := hkept after hafter
  rw [hrev, hcached]
  exact h current hcurrent

/-- A cancellation or a pause advances the stored revision, unless the holder is only asked. -/
theorem unclaimed_revision {now : ℤ} {stored : Option Job} {update : Option Job → Except String Job}
    (hupdate : method.unclaimed now = some update) (h : update stored = .ok job) :
    ∃ current, stored = some current ∧
      (job.revision = current.revision ↔ method = .cancel ∧ leased current now = true) := by
  have hahead : ∀ revision : Option ℕ, some (revision.getD 0 + 1) ≠ revision := by
    intro revision
    cases revision <;> simp
  cases method <;> cases hupdate
  · cases stored with
    | none => cases h
    | some current =>
      simp only [pauseUpdate] at h
      split_ifs at h
      cases h
      exact ⟨current, rfl, by simpa using hahead current.revision⟩
  · cases stored with
    | none => cases h
    | some current =>
      simp only [cancelUpdate] at h
      split_ifs at h with hend hleased
      · cases h
        exact ⟨current, rfl, by simpa using hleased⟩
      · cases h
        exact ⟨current, rfl, by simpa [hleased] using hahead current.revision⟩

theorem Synced.unclaimed_iff (h : s.Synced) {now : ℤ} {update : Option Job → Except String Job}
    (hupdate : s.update method now = some update) (fault : WriteFault) :
    Synced (match storeUpdate fault update s.stored with
      | (.error _, stored) => { s with stored := stored }
      | (.ok job, stored) => { s with cached := job, stored := stored }) ↔
      ∀ job, update s.stored = .ok job →
        method = .cancel ∧ s.stored.any (leased · now) = true ∨ fault ≠ .writtenAnyway := by
  have hmethod : method.unclaimed now = some update := by
    unfold Holder.update at hupdate
    split_ifs at hupdate
    exact hupdate
  cases hres : update s.stored with
  | error e => cases fault <;> simpa [storeUpdate, hres] using h
  | ok job =>
    obtain ⟨current, hcurrent, hrev⟩ := unclaimed_revision hmethod hres
    cases fault with
    | none => simp [storeUpdate, hres, Synced]
    | writtenAnyway =>
      have hstore : storeUpdate .writtenAnyway update s.stored = (.error "write failed", some job) := by
        simp [storeUpdate, hres]
      rw [hstore]
      simp only [Synced, Option.some.injEq, forall_eq', Except.ok.injEq, ne_eq, not_true, or_false]
      rw [← h current hcurrent, hcurrent, Option.any_some]
      exact hrev
    | refused => simpa [storeUpdate, hres] using h
    | unclonable => simpa [storeUpdate, hres] using h
    | notWritten => simpa [storeUpdate, hres] using h

/-- One event keeps the revisions in step exactly if no write fails late. -/
theorem Synced.step_iff (h : s.Synced) (e : HolderEvent) : (s.step e).Synced ↔ s.Careful e := by
  cases e with
  | write method now fault =>
    cases hupdate : s.update method now with
    | some update => simpa only [step, Careful, hupdate] using h.unclaimed_iff hupdate fault
    | none =>
      cases happly : method.apply now s.cached with
      | error e => simpa [step, Careful, happly, hupdate] using h
      | ok job =>
        have hsame : ∀ current, s.stored = some current → current.revision = job.revision :=
          fun current hc => (h current hc).trans (apply_revision happly).symm
        simpa [step, Careful, happly, hupdate, Synced] using synced_flush hsame fault
  | acquire leaseMs now unknownByTask fault =>
    obtain ⟨hkept, hnew⟩ := storeUpdate_revision fault
      (acquireUpdate s.claim.ownerId leaseMs now unknownByTask) s.stored
      fun _ => acquireUpdate_revision
    refine iff_of_true ?_ trivial
    simp only [step]
    split
    · rename_i e stored heq
      rw [heq] at hkept
      exact h.stored hkept rfl
    · rename_i job stored heq
      rw [heq] at hnew
      intro current hcurrent
      exact congrArg Job.revision (Option.some.inj (hcurrent.symm.trans (hnew job rfl)))
  | renew leaseMs now fault =>
    obtain ⟨hkept, -⟩ := storeUpdate_revision fault
      (leaseUpdate s.claim now (now + leaseMs)) s.stored fun _ => leaseUpdate_revision
    refine iff_of_true ?_ trivial
    simp only [step]
    split
    · rename_i e stored heq
      rw [heq] at hkept
      exact h.stored hkept rfl
    · rename_i job stored heq
      rw [heq] at hkept
      exact h.stored hkept rfl
  | release now fault =>
    obtain ⟨hkept, -⟩ := storeUpdate_revision fault (leaseUpdate s.claim now 0) s.stored
      fun _ => leaseUpdate_revision
    refine iff_of_true ?_ trivial
    simp only [step]
    split_ifs
    · exact h.stored hkept rfl
    · exact h
  | other update =>
    refine iff_of_true ?_ trivial
    simp only [step]
    split
    · exact h
    · rename_i job hjob
      refine h.stored ?_ rfl
      rintro _ ⟨⟩
      exact otherUpdate_revision hjob

/-- In every run from a manager whose revision is the stored one, it stays so, and the store takes
whatever the holder of the lease writes next, exactly if no write of a stored job fails late. -/
theorem flush_open_iff (h : s.Synced) (events : List HolderEvent) :
    (∀ s' ∈ s.states events, s'.Synced ∧ s'.Open) ↔
      ∀ p ∈ s.steps events, p.1.Careful p.2 := by
  have hsynced : (∀ s' ∈ s.states events, s'.Synced) ↔ ∀ p ∈ s.steps events, p.1.Careful p.2 := by
    induction events generalizing s with
    | nil => simpa [states, steps] using h
    | cons e rest ih =>
      simp only [states, steps, List.forall_mem_cons]
      constructor
      · rintro ⟨-, hrest⟩
        have hnext : (s.step e).Synced := hrest _ (by cases rest <;> simp [states])
        exact ⟨(h.step_iff e).mp hnext, (ih hnext).mp hrest⟩
      · rintro ⟨hcareful, hrest⟩
        exact ⟨h, (ih ((h.step_iff e).mpr hcareful)).mpr hrest⟩
  rw [← hsynced]
  exact forall₂_congr fun s' _ => and_iff_left_of_imp Synced.open

end Holder

end Runs

/-! A write that fails late, and one that is refused. -/

/-- A running job of one task, held until 1000. -/
def heldJob : Job where
  id := "job-1"
  revision := some 4
  control := none
  ownership := some ⟨"here", 1, 1000⟩
  status := .running
  tasks := [⟨"build", .running⟩]
  graph := ⟨[{ newNode "build" [] with state := .running }], []⟩
  maxRetries := none
  createdAt := 0
  startedAt := some 0
  completedAt := none

def holder : Holder := ⟨⟨"here", some 1⟩, heldJob, some heldJob⟩

theorem holder_synced : holder.Synced := by
  rintro _ ⟨⟩
  rfl

/-- The task's completion does not reach the disk. -/
def lateFailure : HolderEvent := .write (.completeTask "build") 10 .notWritten

/-- The holder's lease is live and the disk works again: the next write is refused all the same. -/
theorem flush_locks_out : ¬ ∀ (s : Holder) (events : List HolderEvent), s.Synced →
    ∀ s' ∈ s.states events, s'.Synced ∧ s'.Open := by
  intro hall
  obtain ⟨-, hopen⟩ := hall holder [lateFailure] holder_synced (holder.step lateFailure)
    (by simp [Holder.states])
  have hholds : (holder.step lateFailure).Holds 20 := by
    rintro _ ⟨⟩
    rfl
  have hwrite := hopen .save 20 _ rfl hholds
  have hrefused : (flush holder.claim 20 .none (holder.step lateFailure).cached (some heldJob)).1 =
      .error "JOB_REVISION_CONFLICT" := rfl
  cases hrefused.symm.trans hwrite

/-- A write that is refused before it starts, and one that is there although it reports an error. -/
def harmlessFailures : List HolderEvent :=
  [.write (.completeTask "build") 10 .refused, .write .save 20 .writtenAnyway,
    .renew 1000 30 .notWritten, .write (.setJobStatus .completed none (some 40)) 40 .none]

theorem flush_open_harmless :
    (∀ s ∈ holder.states harmlessFailures, s.Synced ∧ s.Open) ∧
      (holder.states harmlessFailures).getLast?.map (·.stored.map fun j => (j.revision, j.status)) =
        some (some (some 6, .completed)) := by
  refine ⟨(Holder.flush_open_iff holder_synced harmlessFailures).mpr ?_, by decide⟩
  simp only [harmlessFailures, Holder.steps, List.forall_mem_cons, List.not_mem_nil, false_imp_iff,
    implies_true, and_true]
  have hnot : ∀ fault : WriteFault, fault = .refused ∨ fault = .writtenAnyway ∨ fault = .none →
      fault ≠ .unclonable ∧ fault ≠ .notWritten := by
    rintro _ (rfl | rfl | rfl) <;> decide
  exact ⟨fun _ _ _ _ => hnot _ (.inl rfl), fun _ _ _ _ => hnot _ (.inr (.inl rfl)), trivial,
    fun _ _ _ _ => hnot _ (.inr (.inr rfl))⟩

end Wazir.Jobs
