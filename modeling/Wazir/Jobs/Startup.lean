import Wazir.Async.Trace
import Wazir.Jobs.JobManager
import Wazir.Shared.Values

/-! Job managers that load one store at the same time, beside holders that acquire, renew, write and
release jobs. Each update of a key is one command; a manager's loading ends in an exception where one
of its corrections is refused. -/

namespace Wazir.Jobs

open Wazir.Core Wazir.Async

abbrev JobStore := Table String Job

inductive JobsOp where
  | list
  | clock
  | flush (claim : Claim) (job : Job)
  | acquire (ownerId jobId : String) (leaseMs : ℤ) (unknownByTask : List (String × UnknownCall))
  | renew (claim : Claim) (jobId : String) (leaseMs : ℤ)
  | release (claim : Claim) (jobId : String)
  | cancel (jobId : String)
  | pause (jobId : String)
  | delete (jobId : String)

abbrev JobsRes : JobsOp → Type
  | .list => List Job
  | .clock => ℤ
  | .delete _ => Unit
  | _ => Except String Unit

abbrev JobsProg := Prog JobsOp JobsRes String

def updated (store : JobStore) (jobId : String) : Except String Job → Except String Unit × JobStore
  | .ok job => (.ok (), store.insert jobId job)
  | .error e => (.error e, store)

/-- A command at a clock reading. -/
def jobsExec (op : JobsOp) (now : ℤ) (store : JobStore) : JobsRes op × JobStore :=
  match op with
  | .list => (store.entries.map fun kv => kv.2, store)
  | .clock => (now, store)
  | .flush claim job =>
    let current := store.lookup job.id
    updated store job.id <|
      (flushCheck claim now job current).map fun _ => stamped (advance job current) current
  | .acquire ownerId jobId leaseMs unknownByTask =>
    updated store jobId (acquireUpdate ownerId leaseMs now unknownByTask (store.lookup jobId))
  | .renew claim jobId leaseMs =>
    updated store jobId (leaseUpdate claim now (now + leaseMs) (store.lookup jobId))
  | .release claim jobId => updated store jobId (leaseUpdate claim now 0 (store.lookup jobId))
  | .cancel jobId => updated store jobId (cancelUpdate now (store.lookup jobId))
  | .pause jobId => updated store jobId (pauseUpdate (store.lookup jobId))
  | .delete jobId => ((), store.erase jobId)

/-! Loading. -/

/-- `reconcileStaleStatus`; whoever loads has claimed nothing yet. -/
def reconcile (ownerId : String) (job : Job) : JobsProg Unit := do
  let now ← (.call .clock .ret : JobsProg ℤ)
  match reconcileStaleStatus now job with
  | none => return
  | some job => .call (.flush ⟨ownerId, none⟩ job) .resume

def loadJob (ownerId : String) (job : Job) : JobsProg Unit :=
  match job.ownership with
  | none => reconcile ownerId job
  | some o => do
    let now ← (.call .clock .ret : JobsProg ℤ)
    if o.expiresAt ≤ now then reconcile ownerId job else return

/-- `seen` are the jobs that the manager has. -/
def loadJobs (ownerId : String) : List Job → List String → JobsProg Unit
  | [], _ => return
  | job :: rest, seen =>
    if job.id ∈ seen then loadJobs ownerId rest seen
    else do
      loadJob ownerId job
      loadJobs ownerId rest (job.id :: seen)

def loadInitialJobs (ownerId : String) : JobsProg Unit := do
  let loaded ← (.call .list .ret : JobsProg (List Job))
  loadJobs ownerId loaded []

inductive JobsCall where
  | load (ownerId : String)
  | write (claim : Claim) (job : Job)
  | acquire (ownerId jobId : String) (leaseMs : ℤ) (unknownByTask : List (String × UnknownCall))
  | renew (claim : Claim) (jobId : String) (leaseMs : ℤ)
  | release (claim : Claim) (jobId : String)
  | cancel (jobId : String)
  | pause (jobId : String)
  | delete (jobId : String)

structure JobsRequest where
  process : ℕ
  call : JobsCall

def JobsRequest.body (c : JobsRequest) : JobsProg Unit :=
  match c.call with
  | .load ownerId => loadInitialJobs ownerId
  | .write claim job => .call (.flush claim job) .resume
  | .acquire ownerId jobId leaseMs unknownByTask =>
    .call (.acquire ownerId jobId leaseMs unknownByTask) .resume
  | .renew claim jobId leaseMs => .call (.renew claim jobId leaseMs) .resume
  | .release claim jobId => .call (.release claim jobId) .resume
  | .cancel jobId => .call (.cancel jobId) .resume
  | .pause jobId => .call (.pause jobId) .resume
  | .delete jobId => .call (.delete jobId) .ret

/-- A command's input is the time; a crash leaves the store as it is. -/
def jobsSystem : System JobsOp JobsRes String Unit JobsRequest ℕ ℤ JobStore where
  body := JobsRequest.body
  proc := JobsRequest.process
  exec op now store := some (jobsExec op now store)
  admits _ store := some store
  crash _ store := store

abbrev JobsEntry := Entry JobsOp JobsRes JobsRequest ℤ JobStore
abbrev JobsConfig := Config JobsOp JobsRes String Unit JobsRequest ℕ ℤ JobStore

/-- A write of a job finds it under a live lease, or at another revision. -/
def Raced : JobsEntry → Prop
  | ⟨_, _, .flush _ job, now, _, before, _⟩ => ∃ current, before.lookup job.id = some current ∧
      (leased current now = true ∨ current.revision ≠ job.revision)
  | _ => False

/-- A write of a job that is under a live lease. -/
def OnLease : JobsEntry → Prop
  | ⟨_, _, .flush _ job, now, _, before, _⟩ => ∃ current, before.lookup job.id = some current ∧
      leased current now = true
  | _ => False

def Refused : JobsEntry → Prop
  | ⟨_, _, .flush _ _, _, .error _, _, _⟩ => True
  | _ => False

/-- The jobs that a loader was given. -/
def listing : JobsEntry → Option (List Job)
  | ⟨_, _, .list, _, jobs, _, _⟩ => some jobs
  | _ => none

section Ends

variable {ownerId : String} {out : Except String Unit} {es : List JobsEntry}

/-- What a procedure of a loader comes to: at most so many commands, of which only the last can be
a refused write, and an exception exactly if it is. -/
structure Loads (n : ℕ) (es : List JobsEntry) (out : Except String Unit) : Prop where
  short : es.length ≤ n
  last : es.Pairwise fun x _ => ¬ Refused x
  fails : (∃ e, out = .error e) ↔ ∃ x ∈ es, Refused x

theorem Loads.done (n : ℕ) : Loads n [] (.ok ()) := ⟨Nat.zero_le n, .nil, by simp⟩

theorem Loads.mono {n m : ℕ} (h : Loads n es out) (hnm : n ≤ m) : Loads m es out :=
  ⟨h.short.trans hnm, h.last, h.fails⟩

theorem Loads.quiet {n : ℕ} {x : JobsEntry} (hx : ¬ Refused x) (h : Loads n es out) :
    Loads (n + 1) (x :: es) out where
  short := Nat.succ_le_succ h.short
  last := List.pairwise_cons.mpr ⟨fun _ _ => hx, h.last⟩
  fails := h.fails.trans (by simp [hx])

theorem Loads.append {n m : ℕ} {es' : List JobsEntry} (h : Loads n es (.ok ()))
    (h' : Loads m es' out) : Loads (n + m) (es ++ es') out := by
  have hnone : ∀ x ∈ es, ¬ Refused x := fun x hx hrefused => by
    obtain ⟨e, he⟩ := h.fails.mpr ⟨x, hx, hrefused⟩
    cases he
  refine ⟨?_, List.pairwise_append.mpr ⟨h.last, h'.last, fun x hx _ _ => hnone x hx⟩, ?_⟩
  · rw [List.length_append]
    exact Nat.add_le_add h.short h'.short
  · refine h'.fails.trans ⟨?_, ?_⟩
    · rintro ⟨x, hx, hrefused⟩
      exact ⟨x, List.mem_append_right _ hx, hrefused⟩
    · rintro ⟨x, hx, hrefused⟩
      rcases List.mem_append.mp hx with hx | hx
      · exact absurd hrefused (hnone x hx)
      · exact ⟨x, hx, hrefused⟩

theorem reconcile_ends {job : Job} (h : Ends (reconcile ownerId job) es out) : Loads 2 es out := by
  obtain ⟨i, c, inp, now, before, after, es', rfl, hrest⟩ := Ends.call_iff.mp h
  refine Loads.quiet id ?_
  simp only [Prog.bind_ret] at hrest
  split at hrest
  · obtain ⟨rfl, rfl⟩ := Ends.ret_iff.mp hrest
    exact Loads.done 1
  · obtain ⟨j, d, inp', r, before', after', es'', rfl, hend⟩ := Ends.call_iff.mp hrest
    obtain ⟨rfl, rfl⟩ := Ends.resume_iff.mp hend
    refine ⟨by simp, List.pairwise_singleton _ _, ?_⟩
    cases out <;> simp [Refused]

theorem loadJob_ends {job : Job} (h : Ends (loadJob ownerId job) es out) : Loads 3 es out := by
  unfold loadJob at h
  split at h
  · exact (reconcile_ends h).mono (by omega)
  · obtain ⟨i, c, inp, now, before, after, es', rfl, hrest⟩ := Ends.call_iff.mp h
    refine Loads.quiet id ?_
    simp only [Prog.bind_ret] at hrest
    split_ifs at hrest
    · exact reconcile_ends hrest
    · obtain ⟨rfl, rfl⟩ := Ends.ret_iff.mp hrest
      exact Loads.done 2

theorem loadJobs_ends {jobs : List Job} {seen : List String}
    (h : Ends (loadJobs ownerId jobs seen) es out) : Loads (3 * jobs.length) es out := by
  induction jobs generalizing seen es with
  | nil =>
    obtain ⟨rfl, rfl⟩ := Ends.ret_iff.mp h
    exact Loads.done _
  | cons job rest ih =>
    rw [loadJobs] at h
    have hthree : 3 * (job :: rest).length = 3 + 3 * rest.length := by
      rw [List.length_cons]
      omega
    split_ifs at h
    · exact (ih h).mono (by omega)
    · rcases Ends.bind_iff.mp h with ⟨e, rfl, h₁⟩ | ⟨es₁, es₂, u, rfl, h₁, h₂⟩
      · exact (loadJob_ends h₁).mono (by omega)
      · rw [hthree]
        exact (loadJob_ends h₁).append (ih h₂)

theorem load_ends {n : ℕ} (h : Ends (loadInitialJobs ownerId) es out)
    (hn : ∀ x ∈ es, ∀ jobs, listing x = some jobs → jobs.length ≤ n) : Loads (1 + 3 * n) es out := by
  obtain ⟨i, c, inp, jobs, before, after, es', rfl, hrest⟩ := Ends.call_iff.mp h
  have hloads := loadJobs_ends hrest
  have hjobs : jobs.length ≤ n := hn _ List.mem_cons_self jobs rfl
  exact (Loads.quiet id hloads).mono (by omega)

/-- Any procedure can come to an end, with given results. -/
theorem exists_ends {α : Type} (witness : (op : JobsOp) → JobsRes op) (p : JobsProg α) :
    ∃ (es : List JobsEntry) (out : Except String α), Ends p es out ∧
      ∀ x ∈ es, x.res = witness x.op := by
  induction p with
  | ret a => exact ⟨[], .ok a, .ret a, by simp⟩
  | raise e => exact ⟨[], .error e, .raise e, by simp⟩
  | call op next ih =>
    obtain ⟨es, out, hends, hres⟩ := ih (witness op)
    exact ⟨_, out, .call 0 ⟨0, .delete ""⟩ 0 (witness op) ∅ ∅ hends, by simpa using hres⟩

/-- The results of an empty store. -/
def blank : (op : JobsOp) → JobsRes op
  | .list => ([] : List Job)
  | .clock => (0 : ℤ)
  | .delete _ => ()
  | .flush _ _ => (.ok () : Except String Unit)
  | .acquire _ _ _ _ => (.ok () : Except String Unit)
  | .renew _ _ _ => (.ok () : Except String Unit)
  | .release _ _ => (.ok () : Except String Unit)
  | .cancel _ => (.ok () : Except String Unit)
  | .pause _ => (.ok () : Except String Unit)

end Ends

variable {ownerId : String}

section Runs

variable {s₀ : JobStore} {cfg : JobsConfig}

/-- A flush of a manager that has claimed nothing is refused exactly if it is raced. -/
theorem flush_refused_iff {job : Job} {now : ℤ} {store store' : JobStore} {r : Except String Unit}
    (h : jobsExec (.flush ⟨ownerId, none⟩ job) now store = (r, store')) :
    ((∃ e, r = .error e) ↔ ∃ current, store.lookup job.id = some current ∧
      (leased current now = true ∨ current.revision ≠ job.revision)) ∧
      ((∃ e, r = .error e) → store' = store) := by
  cases hcurrent : store.lookup job.id with
  | none =>
    simp only [jobsExec, hcurrent, flushCheck, updated, Except.map] at h
    cases h
    simp
  | some current =>
    by_cases hleased : leased current now = true
    · simp only [jobsExec, hcurrent, flushCheck, claimCheck, hleased] at h
      cases h
      simp [hleased]
    · by_cases hrev : current.revision = job.revision
      · have hcheck : flushCheck ⟨ownerId, none⟩ now job (some current) = .ok () := by
          simp [flushCheck, claimCheck, hleased, hrev]
        simp only [jobsExec, hcurrent, hcheck, updated, Except.map] at h
        cases h
        simp [hleased, hrev]
      · have hcheck : flushCheck ⟨ownerId, none⟩ now job (some current) =
            .error "JOB_REVISION_CONFLICT" := by
          simp only [flushCheck, claimCheck, hleased, hrev]
          rfl
        simp only [jobsExec, hcurrent, hcheck, updated, Except.map] at h
        cases h
        simp [hrev]

/-- Of loaders: all flushes are those of a manager that has claimed nothing. -/
def Unclaimed (c : JobsRequest) (op : JobsOp) : Prop :=
  ∀ ownerId claim job, c.call = .load ownerId → op = .flush claim job → claim.epoch = none

theorem only_unclaimed (c : JobsRequest) : (JobsRequest.body c).Only (Unclaimed c) := by
  have hreconcile : ∀ ownerId job, (reconcile ownerId job).Only (Unclaimed c) := by
    intro ownerId job
    refine ⟨by rintro _ _ _ _ ⟨⟩, fun now => ?_⟩
    simp only [Prog.bind_ret]
    split
    · trivial
    · refine ⟨?_, fun r => Prog.only_resume⟩
      rintro _ _ _ _ ⟨⟩
      rfl
  have hjob : ∀ ownerId job, (loadJob ownerId job).Only (Unclaimed c) := by
    intro ownerId job
    unfold loadJob
    split
    · exact hreconcile ownerId job
    · refine ⟨by rintro _ _ _ _ ⟨⟩, fun now => ?_⟩
      simp only [Prog.bind_ret]
      split_ifs
      · exact hreconcile ownerId job
      · trivial
  have hjobs : ∀ ownerId jobs seen, (loadJobs ownerId jobs seen).Only (Unclaimed c) := by
    intro ownerId jobs
    induction jobs with
    | nil => exact fun seen => trivial
    | cons job rest ih =>
      intro seen
      rw [loadJobs]
      split_ifs
      · exact ih seen
      · exact (hjob ownerId job).bind fun _ => ih _
  obtain ⟨process, call⟩ := c
  cases call with
  | load ownerId => exact ⟨by rintro _ _ _ _ ⟨⟩, fun jobs => hjobs ownerId jobs []⟩
  | write claim job => exact ⟨by rintro _ _ _ ⟨⟩, fun r => Prog.only_resume⟩
  | acquire ownerId jobId leaseMs unknownByTask =>
    exact ⟨by rintro _ _ _ ⟨⟩, fun r => Prog.only_resume⟩
  | renew claim jobId leaseMs => exact ⟨by rintro _ _ _ ⟨⟩, fun r => Prog.only_resume⟩
  | release claim jobId => exact ⟨by rintro _ _ _ ⟨⟩, fun r => Prog.only_resume⟩
  | cancel jobId => exact ⟨by rintro _ _ _ ⟨⟩, fun r => Prog.only_resume⟩
  | pause jobId => exact ⟨by rintro _ _ _ ⟨⟩, fun r => Prog.only_resume⟩
  | delete jobId => exact ⟨by rintro _ _ _ ⟨⟩, fun r => trivial⟩

theorem refused_iff_raced (hr : Reach jobsSystem s₀ cfg) {x : JobsEntry} (hx : x ∈ cfg.hist.entries)
    (hload : x.call.call = .load ownerId) :
    (Refused x ↔ Raced x) ∧ (OnLease x → x.after = x.before) := by
  have hexec := hr.executed hx
  have honly := hr.only only_unclaimed x hx
  obtain ⟨i, c, op, now, r, before, after⟩ := x
  have hexec : jobsExec op now before = (r, after) := Option.some.inj hexec
  cases op with
  | flush claim job =>
    obtain ⟨owner, epoch⟩ := claim
    obtain rfl : epoch = none := honly ownerId _ job hload rfl
    obtain ⟨hrefused, hsame⟩ := flush_refused_iff hexec
    have hiff : (∃ e, r = .error e) ↔ Refused ⟨i, c, .flush ⟨owner, none⟩ job, now, r, before, after⟩ := by
      cases r <;> simp [Refused]
    refine ⟨hiff.symm.trans hrefused, ?_⟩
    rintro ⟨current, hcurrent, hleased⟩
    exact hsame (hrefused.mpr ⟨current, hcurrent, .inl hleased⟩)
  | list => exact ⟨Iff.rfl, False.elim⟩
  | clock => exact ⟨Iff.rfl, False.elim⟩
  | acquire owner jobId leaseMs unknownByTask => exact ⟨Iff.rfl, False.elim⟩
  | renew claim jobId leaseMs => exact ⟨Iff.rfl, False.elim⟩
  | release claim jobId => exact ⟨Iff.rfl, False.elim⟩
  | cancel jobId => exact ⟨Iff.rfl, False.elim⟩
  | pause jobId => exact ⟨Iff.rfl, False.elim⟩
  | delete jobId => exact ⟨Iff.rfl, False.elim⟩

/-- However a loader's call may end, it ends after what it did so far. -/
theorem loader_ends (hr : Reach jobsSystem s₀ cfg) {i process : ℕ} {rest : JobsProg Unit}
    (ht : cfg.threads[i]? = some ⟨⟨process, .load ownerId⟩, some rest⟩) :
    ∃ es out, Ends rest es out ∧ (∀ x ∈ es, x.res = blank x.op) ∧
      Ends (loadInitialJobs ownerId) (cfg.hist.entriesOf i ++ es) out := by
  obtain ⟨es, out, hends, hres⟩ := exists_ends blank rest
  exact ⟨es, out, hends, hres, hr.ends_later ht hends⟩

theorem listing_blank {x : JobsEntry} (hx : x.res = blank x.op) {jobs : List Job}
    (h : listing x = some jobs) : jobs = [] := by
  obtain ⟨i, c, op, now, r, before, after⟩ := x
  cases op with
  | list => exact (Option.some.inj h).symm.trans hx
  | _ => cases h

theorem exists_bound (es : List JobsEntry) :
    ∃ n, ∀ x ∈ es, ∀ jobs, listing x = some jobs → jobs.length ≤ n := by
  induction es with
  | nil => exact ⟨0, by simp⟩
  | cons x es ih =>
    obtain ⟨n, hn⟩ := ih
    refine ⟨max n ((listing x).map List.length |>.getD 0), ?_⟩
    intro y hy jobs hjobs
    rcases List.mem_cons.mp hy with rfl | hy
    · simp [hjobs]
    · exact (hn y hy jobs hjobs).trans (le_max_left _ _)

/-- In every run over any store, a loader's promise is rejected exactly if one of its writes was
raced. Otherwise it is resolved: the loader never has to wait, and it runs at most three commands for
each job that it listed. Where it finds a live lease it writes nothing. -/
theorem startup_rejects_iff (hr : Reach jobsSystem s₀ cfg) {i process : ℕ} {ownerId : String}
    {rest : JobsProg Unit} (ht : cfg.threads[i]? = some ⟨⟨process, .load ownerId⟩, some rest⟩) :
    ((∃ e, rest = .raise e) ↔ ∃ x ∈ cfg.hist.entriesOf i, Raced x) ∧
      (∀ op next, rest = .call op next → ∀ now, (jobsSystem.exec op now cfg.hist.shared).isSome) ∧
      (∀ n, (∀ x ∈ cfg.hist.entriesOf i, ∀ jobs, listing x = some jobs → jobs.length ≤ n) →
        (cfg.hist.entriesOf i).length ≤ 1 + 3 * n) ∧
      ∀ x ∈ cfg.hist.entriesOf i, OnLease x → x.after = x.before := by
  have hown : ∀ x ∈ cfg.hist.entriesOf i, x ∈ cfg.hist.entries ∧ x.call.call = .load ownerId := by
    intro x hx
    obtain ⟨hin, hthread⟩ := List.mem_filter.mp hx
    obtain ⟨rest', hcall⟩ := hr.call_of hin
    rw [of_decide_eq_true hthread, ht] at hcall
    exact ⟨hin, congrArg JobsRequest.call (Thread.mk.inj (Option.some.inj hcall)).1.symm⟩
  have hraced : ∀ x ∈ cfg.hist.entriesOf i, (Refused x ↔ Raced x) ∧ (OnLease x → x.after = x.before) :=
    fun x hx => refused_iff_raced hr (hown x hx).1 (hown x hx).2
  obtain ⟨es, out, hends, hblank, hwhole⟩ := loader_ends hr ht
  have hloads : ∀ n, (∀ x ∈ cfg.hist.entriesOf i, ∀ jobs, listing x = some jobs → jobs.length ≤ n) →
      Loads (1 + 3 * n) (cfg.hist.entriesOf i ++ es) out := by
    intro n hn
    refine load_ends hwhole fun x hx jobs hjobs => ?_
    rcases List.mem_append.mp hx with hx | hx
    · exact hn x hx jobs hjobs
    · rw [listing_blank (hblank x hx) hjobs]
      exact Nat.zero_le n
  refine ⟨⟨?_, ?_⟩, fun op next _ now => rfl, fun n hn => ?_, fun x hx => (hraced x hx).2⟩
  · rintro ⟨e, rfl⟩
    have hend := hr.ends (o := .error e) ht
    obtain ⟨n, hn⟩ := exists_bound (cfg.hist.entriesOf i)
    obtain ⟨x, hx, hrefused⟩ := (load_ends hend hn).fails.mp ⟨e, rfl⟩
    exact ⟨x, hx, (hraced x hx).1.mp hrefused⟩
  · rintro ⟨x, hx, hrace⟩
    have hrefused := (hraced x hx).1.mpr hrace
    obtain ⟨n, hn⟩ := exists_bound (cfg.hist.entriesOf i)
    have hload := hloads n hn
    -- nothing follows a refused write
    have hnil : es = [] := by
      cases es with
      | nil => rfl
      | cons y es =>
        exact absurd hrefused
          ((List.pairwise_append.mp hload.last).2.2 x hx y List.mem_cons_self)
    obtain ⟨e, rfl⟩ := hload.fails.mpr ⟨x, List.mem_append_left _ hx, hrefused⟩
    subst hnil
    cases hends
    exact ⟨e, rfl⟩
  · have hshort := (hloads n hn).short
    rw [List.length_append] at hshort
    omega

end Runs

/-! Two managers that load one stale job. -/

/-- A job whose process ended after its only task. -/
def staleJob : Job where
  id := "job-1"
  revision := some 4
  control := none
  ownership := some ⟨"gone", 1, 1000⟩
  status := .running
  tasks := [⟨"build", .completed⟩]
  graph := ⟨[{ newNode "build" [] with state := .completed, completedAt := some 900 }], []⟩
  maxRetries := none
  createdAt := 0
  startedAt := some 0
  completedAt := none

def staleStore : JobStore := (∅ : JobStore).insert "job-1" staleJob

/-- Both list the job before either corrects it. -/
def twoLoaders : List (Action JobsRequest ℕ ℤ) :=
  [.begin ⟨0, .load "first"⟩, .begin ⟨1, .load "second"⟩, .run 0 2000, .run 1 2000, .run 0 2000,
    .run 1 2000, .run 0 2000, .run 1 2000, .run 0 2000, .run 1 2000]

def rejected (cfg : JobsConfig) (i : ℕ) : Bool :=
  match cfg.threads[i]? with
  | some ⟨⟨_, .load _⟩, some (.raise _)⟩ => true
  | _ => false

theorem rejected_thread {cfg : JobsConfig} {i : ℕ} (h : rejected cfg i = true) :
    ∃ (process : ℕ) (ownerId e : String),
      cfg.threads[i]? = some ⟨⟨process, .load ownerId⟩, some (.raise e)⟩ := by
  unfold rejected at h
  split at h
  · rename_i ht
    exact ⟨_, _, _, ht⟩
  · cases h

/-- The slower loader's correction is refused, and its manager never becomes ready. -/
theorem startup_wedges : ¬ ∀ (s₀ : JobStore) (cfg : JobsConfig), Reach jobsSystem s₀ cfg →
    ∀ (i process : ℕ) (ownerId : String) (rest : JobsProg Unit),
      cfg.threads[i]? = some ⟨⟨process, .load ownerId⟩, some rest⟩ → ∀ e, rest ≠ .raise e := by
  intro hall
  have hrun : ((schedule jobsSystem twoLoaders (Config.start staleStore)).any
      fun cfg => rejected cfg 1) = true := by
    decide
  obtain ⟨cfg, hr, hcheck⟩ := Reach.of_check hrun
  obtain ⟨process, ownerId, e, ht⟩ := rejected_thread hcheck
  exact hall staleStore cfg hr 1 process ownerId _ ht e rfl

/-- A loader beside the job's owner, which comes back too late to renew its lease. -/
def loaderAndOwner : List (Action JobsRequest ℕ ℤ) :=
  [.begin ⟨0, .load "first"⟩, .run 0 2000, .begin ⟨1, .renew ⟨"gone", some 1⟩ "job-1" 500⟩,
    .run 1 2000, .run 0 2000, .run 0 2000, .run 0 2000]

def resolved (cfg : JobsConfig) (i : ℕ) : Bool :=
  match cfg.threads[i]? with
  | some ⟨⟨_, .load _⟩, some (.ret _)⟩ => true
  | _ => false

theorem startup_resolved : ∃ cfg : JobsConfig, Reach jobsSystem staleStore cfg ∧
    resolved cfg 0 = true ∧ (∀ x ∈ cfg.hist.entriesOf 0, ¬ Raced x) ∧
      (cfg.hist.shared.lookup "job-1").map (·.status) = some .completed := by
  have hrun : ((schedule jobsSystem loaderAndOwner (Config.start staleStore)).any
      fun cfg => resolved cfg 0 &&
        (cfg.hist.shared.lookup "job-1").map (·.status) = some .completed) = true := by
    decide
  obtain ⟨cfg, hr, hcheck⟩ := Reach.of_check hrun
  simp only [Bool.and_eq_true, decide_eq_true_eq] at hcheck
  obtain ⟨hresolved, hstatus⟩ := hcheck
  refine ⟨cfg, hr, hresolved, fun x hx hraced => ?_, hstatus⟩
  unfold resolved at hresolved
  split at hresolved
  · rename_i ht
    obtain ⟨e, he⟩ := (startup_rejects_iff hr ht).1.mpr ⟨x, hx, hraced⟩
    cases he
  · cases hresolved

end Wazir.Jobs
