import Wazir.Checkpoints.RestartKept
import Wazir.Core.LeaseLog

/-! Leases survive restarts, but for the milliseconds of their expiry and for the time of a release:
`new Date(String(date))` reads a date back without its milliseconds, and a released lease is rebuilt
with the time of its event. -/

namespace Wazir.Core.Leases

open JsValue

/-- What the holder of a lease and its rivals can tell of it. -/
def Lease.shown (l : Lease) : JsValue × JsNumber × String × JsDate × Bool :=
  (l.workerId, l.epoch, l.token, l.expiresAt, l.released)

theorem leaseRefusal_congr {a b : Option Lease} (h : a.map Lease.shown = b.map Lease.shown)
    (c : Claimant) (now : JsDate) : leaseRefusal a c now = leaseRefusal b c now := by
  cases a with
  | none =>
    cases b with
    | none => rfl
    | some b => cases h
  | some a =>
    cases b with
    | none => cases h
    | some b =>
      simp only [Option.map_some, Option.some.injEq, Lease.shown, Prod.mk.injEq] at h
      obtain ⟨hworker, hepoch, htoken, hexpiry, hreleased⟩ := h
      unfold leaseRefusal
      simp only [hworker, hepoch, htoken, hexpiry, hreleased]

variable {v : JsValue}

section Store

variable {store : LeaseStore} {host : Host}

/-! The members of an event's data. -/

/-- A member of an object, of a name that no store treats in a way of its own. -/
def Member (data : JsValue) (key : String) (v : JsValue) : Prop :=
  ∃ fields, data = .obj fields ∧ SafeFields fields ∧ fields.lookup key = some v ∧
    v.isUndefined = false

theorem Member.get {data : JsValue} {key : String} (h : Member data key v) :
    data.get key = v := by
  obtain ⟨fields, rfl, -, hv, -⟩ := h
  rw [get_obj, hv, Option.getD_some]

theorem lookup_defined_map {fields : List (String × JsValue)} {key : String} (f : JsValue → JsValue)
    (hv : fields.lookup key = some v) (hdef : v.isUndefined = false) :
    ((fields.filter fun kv => !kv.2.isUndefined).map fun kv => (kv.1, f kv.2)).lookup key =
      some (f v) := by
  induction fields with
  | nil => cases hv
  | cons kv rest ih =>
    obtain ⟨k, w⟩ := kv
    rw [List.lookup_cons] at hv
    by_cases hk : key == k
    · rw [hk] at hv
      obtain rfl := Option.some.inj hv
      simp [hdef, List.lookup_cons, hk]
    · rw [Bool.not_eq_true] at hk
      rw [hk] at hv
      by_cases hw : w.isUndefined = true
      · simpa [hw] using ih hv
      · simpa [hw, List.lookup_cons, hk] using ih hv

theorem Member.back {data : JsValue} {key : String} (h : Member data key v) :
    Member (store.back host data) key (store.back host v) := by
  obtain ⟨fields, rfl, hsafe, hv, hdef⟩ := h
  cases store with
  | memory => exact ⟨fields, rfl, hsafe, hv, hdef⟩
  | reviving store =>
    refine ⟨_, reload_obj store host.parseDate hsafe, ?_, lookup_defined_map _ hv hdef,
      reload_defined store host.parseDate v⟩
    intro kv hkv
    obtain ⟨kv', hkv', rfl⟩ := List.mem_map.mp hkv
    exact hsafe kv' (List.mem_of_mem_filter hkv')

theorem Member.kept {data : JsValue} {key : String} (hback : store.back host v = v)
    (h : Member data key v) : Member (store.back host data) key v := by
  have hmember : Member (store.back host data) key (store.back host v) := h.back
  rwa [hback] at hmember

/-! What the stores keep. -/

/-- The text does not come back as a date. -/
def LeaseStore.keepsText : LeaseStore → String → Bool
  | .memory, _ => true
  | .reviving _, s => !isIsoDateString s

/-- The expiry is read back as it was: it has no milliseconds, or the store leaves its text a text,
as it does for years that ISO-8601 writes with more than four digits. -/
def LeaseStore.keepsExpiry : LeaseStore → JsDate → Bool
  | .memory, d => d.all fun t => t.1 % 1000 = 0
  | .reviving _, none => false
  | .reviving _, some t => t.1 % 1000 = 0 || !isIsoDateString (isoText t)

theorem back_num (q : ℚ) : store.back host (.num (.finite q)) = .num (.finite q) := by
  cases store with
  | memory => rfl
  | reviving store => cases store <;> rfl

theorem back_str {s : String} (h : store.keepsText s = true) :
    store.back host (.str s) = .str s := by
  cases store with
  | memory => rfl
  | reviving store =>
    rw [LeaseStore.back, reload_str, if_neg (by simpa [LeaseStore.keepsText] using h)]

theorem wholeSeconds_eq {t : Timestamp} (h : t.1 % 1000 = 0) : wholeSeconds t = some t := by
  rw [wholeSeconds, h, sub_zero, JsDate.ofMs, dif_pos t.2]

/-- What a kept expiry comes back as. -/
structure ComesBack (store : LeaseStore) (host : Host) (v : JsValue) (d : JsDate) : Prop where
  stable : store.back host (store.back host v) = store.back host v
  truthy : (store.back host v).truthy = true
  date : host.newDate (store.back host v) = d

variable (hparse : ∀ t, host.parseDate (isoText t) = some t)
include hparse

theorem back_date {store : RevivingStore} {t : Timestamp}
    (hiso : isIsoDateString (isoText t) = true) :
    (LeaseStore.reviving store).back host (.date (some t)) = .date (some t) := by
  have htext : store.reload host.parseDate (.date (some t)) =
      store.reload host.parseDate (.str (isoText t)) := by cases store <;> rfl
  rw [LeaseStore.back, htext, reload_str, if_pos hiso, hparse]

theorem back_expiry {d : JsDate} (h : store.keepsExpiry d = true) :
    ComesBack store host (.date d) d := by
  cases store with
  | memory =>
    refine ⟨rfl, rfl, ?_⟩
    cases d with
    | none => rfl
    | some t => exact wholeSeconds_eq (by simpa [LeaseStore.keepsExpiry] using h)
  | reviving store =>
    cases d with
    | none => cases h
    | some t =>
      have htext : store.reload host.parseDate (.date (some t)) =
          store.reload host.parseDate (.str (isoText t)) := by cases store <;> rfl
      by_cases hiso : isIsoDateString (isoText t) = true
      · have hback : (LeaseStore.reviving store).back host (.date (some t)) = .date (some t) :=
          back_date hparse hiso
        have hwhole : t.1 % 1000 = 0 := by simpa [LeaseStore.keepsExpiry, hiso] using h
        exact ⟨by rw [hback, hback], by rw [hback]; rfl, by rw [hback]; exact wholeSeconds_eq hwhole⟩
      · have hback : (LeaseStore.reviving store).back host (.date (some t)) = .str (isoText t) := by
          rw [LeaseStore.back, htext, reload_str, if_neg hiso]
        have hkept : (LeaseStore.reviving store).keepsText (isoText t) = true := by
          simpa [LeaseStore.keepsText] using hiso
        refine ⟨by rw [hback, back_str hkept], ?_, by rw [hback]; exact hparse t⟩
        rw [hback]
        have hne : isoText t ≠ "" := by
          intro hempty
          simp [isoText] at hempty
        simpa [JsValue.truthy] using hne

omit hparse

/-! The last event of the log tells of the lease. -/

/-- The event tells of the lease, and so it will however often it is stored and loaded. -/
structure Told (store : LeaseStore) (host : Host) (e : LeaseEvent) (l : Lease) : Prop where
  worker : ∃ w, l.workerId = .str w ∧ store.keepsText w = true ∧ Member e.data "workerId" (.str w)
  epoch : ∃ n : ℕ, l.epoch = .finite n ∧ Member e.data "epoch" (.num (.finite n))
  token : store.keepsText l.token = true ∧ Member e.data "token" (.str l.token)
  released : l.released = decide (e.type = .released)
  ended : e.type = .released → l.expiresAt = some e.timestamp
  expiry : e.type ≠ .released →
    ∃ v, Member e.data "expiresAt" v ∧ ComesBack store host v l.expiresAt

variable {e : LeaseEvent} {l l' : Lease}

theorem Told.loaded (h : Told store host e l) (hsame : l'.shown = l.shown) :
    Told store host (store.loaded host e) l' := by
  simp only [Lease.shown, Prod.mk.injEq] at hsame
  obtain ⟨hworker, hepoch, htoken, hexpiry, hreleased⟩ := hsame
  obtain ⟨w, hw, hkeeps, hmember⟩ := h.worker
  obtain ⟨n, hn, hnumber⟩ := h.epoch
  refine ⟨⟨w, hworker.trans hw, hkeeps, ?_⟩, ⟨n, hepoch.trans hn, ?_⟩, ?_, hreleased.trans h.released,
    fun htype => hexpiry.trans (h.ended htype), fun htype => ?_⟩
  · exact hmember.kept (back_str hkeeps)
  · exact hnumber.kept (back_num n)
  · rw [htoken]
    exact ⟨h.token.1, h.token.2.kept (back_str h.token.1)⟩
  · obtain ⟨v, hv, hback⟩ := h.expiry htype
    refine ⟨store.back host v, hv.back, ?_⟩
    rw [hexpiry]
    exact ⟨by rw [hback.stable, hback.stable], by rw [hback.stable]; exact hback.truthy,
      by rw [hback.stable]; exact hback.date⟩

/-- An engine that loads the event reads the lease out of it. -/
theorem Told.read (h : Told store host e l) (executionId : String) (current : Option Lease) :
    (leaseAfter host executionId current (store.loaded host e)).shown = l.shown := by
  have hloaded := h.loaded rfl
  obtain ⟨w, hw, -, hmember⟩ := hloaded.worker
  obtain ⟨n, hn, hnumber⟩ := hloaded.epoch
  have htoken := hloaded.token.2.get
  have hworker := hmember.get
  have hepoch := hnumber.get
  have hexpiry : (if e.type = .released then some e.timestamp
      else if ((store.loaded host e).data.get "expiresAt").truthy then
        host.newDate ((store.loaded host e).data.get "expiresAt")
      else host.addTtl (leaseAfter host executionId current (store.loaded host e)).renewedAt
        (leaseAfter host executionId current (store.loaded host e)).ttlMs) = l.expiresAt := by
    by_cases htype : e.type = .released
    · rw [if_pos htype, h.ended htype]
    · obtain ⟨v, hv, hback⟩ := h.expiry htype
      have hget : (store.loaded host e).data.get "expiresAt" = store.back host v := hv.back.get
      rw [if_neg htype, hget, if_pos hback.truthy, hback.date]
  simp only [Lease.shown, Prod.mk.injEq]
  refine ⟨?_, ?_, ?_, hexpiry, h.released.symm⟩
  · simp only [leaseAfter, hworker, hw]
  · simp only [leaseAfter, hepoch, hn, JsValue.number, Option.getD_some]
  · simp only [leaseAfter, htoken, JsValue.string, Option.getD_some]

end Store

/-! Calls. -/

section Calls

variable {host : Host} {executionId : String} {s : LeaseState} {env : Moment} {lease : Lease}
  {event : LeaseEvent}

/-- What a call that is not refused leaves. -/
inductive Changed (host : Host) (executionId : String) (s : LeaseState) (env : Moment) :
    LeaseCall → Lease → LeaseEvent → Prop
  | acquired (workerId : String) (options : AcquireOptions) (nowArg : Option JsDate)
      (lease : Lease) (h : lease = s.acquired host executionId workerId options nowArg env) :
      Changed host executionId s env (.acquire workerId options nowArg) lease
        ⟨.acquired, env.stamp, lease.workerId, .obj (leaseFields lease)⟩
  | renewed (workerId : String) (options : LeaseOptions) (ttlMsArg : Option JsNumber)
      (nowArg : Option JsDate) (current lease : Lease) (hlive : s.live = some current)
      (hopen : current.released = false)
      (h : lease = { current with
        renewedAt := options.at nowArg env
        expiresAt := host.addTtl (options.at nowArg env) (s.renewTtl options ttlMsArg)
        ttlMs := s.renewTtl options ttlMsArg }) :
      Changed host executionId s env (.renew workerId options ttlMsArg nowArg) lease
        ⟨.renewed, env.stamp, env.recordWorker, .obj (leaseFields lease)⟩
  | released (workerId : String) (options : LeaseOptions) (nowArg : Option JsDate)
      (current lease : Lease) (hlive : s.live = some current)
      (h : lease = { current with released := true, expiresAt := options.at nowArg env }) :
      Changed host executionId s env (.release workerId options nowArg) lease
        ⟨.released, env.stamp, env.recordWorker, .obj (releaseFields lease (options.at nowArg env))⟩

/-- A claim that names a worker is refused on a lease that is released. -/
theorem open_of_claim {live : Lease} {c : Claimant} {now : JsDate} {reject : Bool}
    (hlive : s.live = some live) (hworker : c.workerId.isSome = true)
    (h : s.refusal c now reject = none) : live.released = false := by
  have hrefusal := (Option.or_eq_none_iff.mp h).1
  have hsome : c.workerId.isNone = false := by
    rw [← Option.not_isSome, hworker]
    rfl
  unfold leaseRefusal at hrefusal
  by_contra hreleased
  rw [Bool.not_eq_false] at hreleased
  simp [hlive, hsome, hreleased] at hrefusal

theorem renewClaimant_worker (s : LeaseState) (workerId : String) (options : LeaseOptions)
    (ttlMsArg : Option JsNumber) :
    (s.renewClaimant workerId options ttlMsArg).workerId.isSome = true := by
  cases options <;> rfl

theorem change_changed {call : LeaseCall}
    (h : s.change host executionId env call = .ok (lease, event)) :
    Changed host executionId s env call lease event := by
  cases call with
  | acquire workerId options nowArg =>
    simp only [LeaseState.change] at h
    split_ifs at h
    simp only [Except.ok.injEq, Prod.mk.injEq] at h
    obtain ⟨rfl, rfl⟩ := h
    exact .acquired _ _ _ _ rfl
  | renew workerId options ttlMsArg nowArg =>
    simp only [LeaseState.change] at h
    split at h
    · next hrefusal hlive =>
      simp only [Except.ok.injEq, Prod.mk.injEq] at h
      obtain ⟨rfl, rfl⟩ := h
      exact .renewed _ _ _ _ _ _ hlive
        (open_of_claim hlive (renewClaimant_worker s workerId options ttlMsArg) hrefusal) rfl
    · cases h
    · cases h
  | release workerId options nowArg =>
    simp only [LeaseState.change] at h
    split at h
    · next hrefusal hlive =>
      simp only [Except.ok.injEq, Prod.mk.injEq] at h
      obtain ⟨rfl, rfl⟩ := h
      exact .released _ _ _ _ _ hlive rfl
    · cases h
    · cases h

theorem leaseFields_member {key : String} (h : (leaseFields lease).lookup key = some v)
    (hdef : v.isUndefined = false) :
    Member (.obj (leaseFields lease)) key v := by
  refine ⟨_, rfl, ?_, h, hdef⟩
  simp [SafeFields, leaseFields, unsafeKeys]

theorem releaseFields_member {releasedAt : JsDate} {key : String}
    (h : (releaseFields lease releasedAt).lookup key = some v) (hdef : v.isUndefined = false) :
    Member (.obj (releaseFields lease releasedAt)) key v := by
  refine ⟨_, rfl, ?_, h, hdef⟩
  simp [SafeFields, releaseFields, unsafeKeys]

theorem notIso_lease (s : String) : isIsoDateString ("lease-" ++ s) = false := by
  simp [isIsoDateString, dropPattern, String.toList_append]

theorem keepsText_lease {store : LeaseStore} (s : String) :
    store.keepsText ("lease-" ++ s) = true := by
  cases store with
  | memory => rfl
  | reviving store => rw [LeaseStore.keepsText, notIso_lease, Bool.not_false]

end Calls

section Runs

variable (store : LeaseStore) (host : Host) (executionId : String)

/-- The call leaves nothing that the restart reads back in another way: the worker's id is no date,
the expiry is kept and a release takes place at the time of its own event. -/
def LeaseState.Kept (s : LeaseState) (env : Moment) : LeaseCall → Prop
  | .acquire workerId options nowArg =>
    store.keepsText workerId = true ∧
      store.keepsExpiry (host.addTtl (options.at nowArg env) options.ttl) = true
  | .renew _ options ttlMsArg nowArg =>
    store.keepsExpiry (host.addTtl (options.at nowArg env) (s.renewTtl options ttlMsArg)) = true
  | .release _ options nowArg => options.at nowArg env = some env.stamp

/-- The runs of an execution in which every call that is not refused is kept so. -/
inductive KeptRun : LeaseState → Prop
  | start (status : ExecutionStatus) : KeptRun (start status)
  | status {s : LeaseState} (h : KeptRun s) (status : ExecutionStatus) :
    KeptRun (s.next store host executionId (.status status))
  | restart {s : LeaseState} (h : KeptRun s) : KeptRun (s.next store host executionId .restart)
  | call {s : LeaseState} (h : KeptRun s) (call : LeaseCall) (env : Moment)
      (hkept : ∀ changed, s.change host executionId env call = .ok changed →
        s.Kept store host env call) : KeptRun (s.next store host executionId (.call call env))

variable {store host executionId} {s : LeaseState} {env : Moment} {lease : Lease}
  {event : LeaseEvent} {call : LeaseCall}

/-- The last event tells of the live lease, or there is neither. -/
def LogTells (store : LeaseStore) (host : Host) (s : LeaseState) : Prop :=
  (s.log = [] ∧ (s.failed = false → s.live = none)) ∨
    ∃ init e l, s.log = init ++ [e] ∧ Told store host e l ∧ (s.failed = false → s.live = some l)

/-- What a call appends tells of the lease it leaves. -/
theorem told_changed (hparse : ∀ t, host.parseDate (isoText t) = some t)
    (hlog : LogTells store host s) (hfailed : s.failed = false)
    (h : Changed host executionId s env call lease event) (hkept : s.Kept store host env call) :
    Told store host event lease := by
  have hlast : ∀ current, s.live = some current → ∃ e, Told store host e current := by
    intro current hlive
    rcases hlog with ⟨-, hnone⟩ | ⟨init, e, l, -, htold, hsome⟩
    · rw [hnone hfailed] at hlive
      cases hlive
    · rw [hsome hfailed] at hlive
      obtain rfl := Option.some.inj hlive
      exact ⟨e, htold⟩
  cases h with
  | acquired workerId options nowArg _ hlease =>
    subst hlease
    have hepoch : ∃ n : ℕ, (s.live.map (·.epoch)).getD (.finite 0) = .finite n := by
      cases hlive : s.live with
      | none => exact ⟨0, by simp⟩
      | some current =>
        obtain ⟨e, htold⟩ := hlast current hlive
        exact htold.epoch.imp fun n hn => hn.1
    obtain ⟨n, hn⟩ := hepoch
    have hnext : (s.acquired host executionId workerId options nowArg env).epoch =
        .finite ((n + 1 : ℕ) : ℚ) := by
      rw [LeaseState.acquired, hn, plus, Nat.cast_succ]
    refine ⟨⟨workerId, rfl, hkept.1, leaseFields_member rfl rfl⟩, ⟨n + 1, hnext, ?_⟩,
      ⟨?_, leaseFields_member rfl rfl⟩, rfl, nofun, fun _ => ⟨_, leaseFields_member rfl rfl,
        back_expiry hparse hkept.2⟩⟩
    · rw [← hnext]
      exact leaseFields_member rfl rfl
    · simp only [LeaseState.acquired, String.append_assoc]
      exact keepsText_lease _
  | renewed workerId options ttlMsArg nowArg current _ hlive hopen hlease =>
    subst hlease
    obtain ⟨e, htold⟩ := hlast current hlive
    obtain ⟨w, hw, hworker, -⟩ := htold.worker
    obtain ⟨n, hn, -⟩ := htold.epoch
    exact ⟨⟨w, hw, hworker, leaseFields_member (congrArg some hw) rfl⟩,
      ⟨n, hn, leaseFields_member (congrArg (fun m => some (JsValue.num m)) hn) rfl⟩,
      ⟨htold.token.1, leaseFields_member rfl rfl⟩, hopen, nofun,
      fun _ => ⟨_, leaseFields_member rfl rfl, back_expiry hparse hkept⟩⟩
  | released workerId options nowArg current _ hlive hlease =>
    subst hlease
    obtain ⟨e, htold⟩ := hlast current hlive
    obtain ⟨w, hw, hworker, -⟩ := htold.worker
    obtain ⟨n, hn, -⟩ := htold.epoch
    exact ⟨⟨w, hw, hworker, releaseFields_member (congrArg some hw) rfl⟩,
      ⟨n, hn, releaseFields_member (congrArg (fun m => some (JsValue.num m)) hn) rfl⟩,
      ⟨htold.token.1, releaseFields_member rfl rfl⟩, rfl, fun _ => hkept, fun hne => absurd rfl hne⟩

theorem rebuilt_concat (store : LeaseStore) (host : Host) (executionId : String) {init : List LeaseEvent} {e : LeaseEvent}
    (hlog : s.log = init ++ [e]) :
    ∃ current, s.rebuilt store host executionId =
      some (leaseAfter host executionId current (store.loaded host e)) := by
  rw [LeaseState.rebuilt, reconstructLease, hlog, List.map_append, List.foldl_append]
  exact ⟨_, rfl⟩

/-- What a new engine reads is what the live lease shows. -/
theorem LogTells.rebuilt (h : LogTells store host s) (hfailed : s.failed = false) :
    s.live.map Lease.shown = (s.rebuilt store host executionId).map Lease.shown := by
  rcases h with ⟨hlog, hnone⟩ | ⟨init, e, l, hlog, htold, hsome⟩
  · rw [hnone hfailed, LeaseState.rebuilt, hlog]
    rfl
  · obtain ⟨current, hrebuilt⟩ := rebuilt_concat store host executionId hlog
    rw [hsome hfailed, hrebuilt, Option.map_some, Option.map_some, htold.read]

theorem LogTells.restart (h : LogTells store host s) :
    LogTells store host (s.next store host executionId .restart) := by
  rcases h with ⟨hlog, -⟩ | ⟨init, e, l, hlog, htold, -⟩
  · refine .inl ⟨by rw [LeaseState.next, hlog]; rfl, fun _ => ?_⟩
    rw [LeaseState.next, LeaseState.rebuilt, hlog]
    rfl
  · obtain ⟨current, hrebuilt⟩ := rebuilt_concat store host executionId hlog
    refine .inr ⟨init.map (store.loaded host), store.loaded host e, _, ?_,
      htold.loaded (htold.read executionId current), fun _ => hrebuilt⟩
    rw [LeaseState.next, hlog, List.map_append]
    rfl

/-- A call that is not refused changes the lease, and the log as well where its write lands. -/
theorem next_call (store : LeaseStore) (host : Host) (executionId : String) (s : LeaseState)
    (env : Moment) (call : LeaseCall) : s.next store host executionId (.call call env) = s ∨
    ∃ lease event, s.failed = false ∧ s.change host executionId env call = .ok (lease, event) ∧
      (s.next store host executionId (.call call env) = { s with
          live := some lease
          log := s.log ++ [event]
          granted := match call with
            | .acquire .. => s.granted ++ [lease.epoch]
            | _ => s.granted } ∨
        s.next store host executionId (.call call env) =
          { s with live := some lease, failed := true }) := by
  simp only [LeaseState.next]
  by_cases hfailed : s.failed = true
  · exact .inl (if_pos hfailed)
  rw [if_neg hfailed]
  cases hchange : s.change host executionId env call with
  | error e => exact .inl rfl
  | ok changed =>
    refine .inr ⟨changed.1, changed.2, by simpa using hfailed, rfl, ?_⟩
    by_cases hlands : env.lands = true
    · exact .inl (if_pos hlands)
    · exact .inr (if_neg hlands)

theorem LogTells.called (hparse : ∀ t, host.parseDate (isoText t) = some t)
    (h : LogTells store host s) (hkept : ∀ changed, s.change host executionId env call = .ok changed →
      s.Kept store host env call) :
    LogTells store host (s.next store host executionId (.call call env)) := by
  rcases next_call store host executionId s env call with hsame |
    ⟨lease, event, hfailed, hchange, hlanded | hlost⟩
  · rwa [hsame]
  · rw [hlanded]
    exact .inr ⟨s.log, event, lease, rfl,
      told_changed hparse h hfailed (change_changed hchange) (hkept _ hchange), fun _ => rfl⟩
  · rw [hlost]
    rcases h with ⟨hlog, -⟩ | ⟨init, e, l, hlog, hlast, -⟩
    · exact .inl ⟨hlog, nofun⟩
    · exact .inr ⟨init, e, l, hlog, hlast, nofun⟩

theorem KeptRun.logTells (hparse : ∀ t, host.parseDate (isoText t) = some t)
    (h : KeptRun store host executionId s) : LogTells store host s := by
  induction h with
  | start status => exact .inl ⟨rfl, fun _ => rfl⟩
  | status h status ih => exact ih
  | restart h ih => exact ih.restart
  | call h call env hkept ih => exact ih.called hparse hkept

/-! Epochs, in any run. -/

variable (store host executionId) in
/-- The runs of an execution, whatever the calls are. -/
inductive Run : LeaseState → Prop
  | start (status : ExecutionStatus) : Run (start status)
  | next {s : LeaseState} (h : Run s) (act : LeaseAct) : Run (s.next store host executionId act)

/-- The epochs granted so far rise up to `top`, the epoch of the log and of the live lease. -/
structure Rising (s : LeaseState) (ns : List ℕ) (top : ℕ) : Prop where
  granted : s.granted = ns.map fun n : ℕ => .finite n
  increasing : ns.Pairwise (· < ·)
  below : ∀ n ∈ ns, n ≤ top
  log : (s.log = [] ∧ top = 0) ∨
    ∃ init e, s.log = init ++ [e] ∧ Member e.data "epoch" (.num (.finite top))
  live : s.failed = false → (s.live.map (·.epoch)).getD (.finite 0) = .finite top

theorem Rising.restart {ns : List ℕ} {top : ℕ} (h : Rising s ns top) :
    Rising (s.next store host executionId .restart) ns top := by
  refine ⟨h.granted, h.increasing, h.below, ?_, fun _ => ?_⟩
  · rcases h.log with ⟨hlog, htop⟩ | ⟨init, e, hlog, hmember⟩
    · exact .inl ⟨by rw [LeaseState.next, hlog]; rfl, htop⟩
    · refine .inr ⟨init.map (store.loaded host), store.loaded host e, ?_, ?_⟩
      · rw [LeaseState.next, hlog, List.map_append]
        rfl
      · exact hmember.kept (back_num top)
  · show ((s.rebuilt store host executionId).map (·.epoch)).getD (.finite 0) = _
    rcases h.log with ⟨hlog, htop⟩ | ⟨init, e, hlog, hmember⟩
    · rw [LeaseState.rebuilt, hlog, htop]
      simp [reconstructLease]
    · obtain ⟨current, hrebuilt⟩ := rebuilt_concat store host executionId hlog
      have hback : Member (store.loaded host e).data "epoch" (.num (.finite top)) :=
        hmember.kept (back_num top)
      rw [hrebuilt, Option.map_some, Option.getD_some, leaseAfter]
      simp only [hback.get, JsValue.number, Option.getD_some]

theorem Rising.called {ns : List ℕ} {top : ℕ} (h : Rising s ns top) :
    ∃ ns' top', Rising (s.next store host executionId (.call call env)) ns' top' := by
  rcases next_call store host executionId s env call with hsame |
    ⟨lease, event, hfailed, hchange, hlanded | hlost⟩
  · rw [hsame]
    exact ⟨ns, top, h⟩
  · rw [hlanded]
    have hlive := h.live hfailed
    cases change_changed hchange with
    | acquired workerId options nowArg _ hlease =>
      have hnext : lease.epoch = .finite ((top + 1 : ℕ) : ℚ) := by
        rw [hlease, LeaseState.acquired, hlive, plus, Nat.cast_succ]
      refine ⟨ns ++ [top + 1], top + 1, ?_, ?_, ?_, .inr ⟨s.log, _, rfl, ?_⟩, fun _ => hnext⟩
      · rw [h.granted, hnext, List.map_append, List.map_singleton]
      · refine List.pairwise_append.mpr ⟨h.increasing, List.pairwise_singleton _ _, ?_⟩
        intro n hn m hm
        have := h.below n hn
        rw [List.mem_singleton.mp hm]
        omega
      · intro n hn
        rcases List.mem_append.mp hn with hold | hnew
        · exact (h.below n hold).trans (Nat.le_succ top)
        · exact (List.mem_singleton.mp hnew).le
      · exact leaseFields_member (congrArg (fun m => some (JsValue.num m)) hnext) rfl
    | renewed workerId options ttlMsArg nowArg current _ hcurrent hopen hlease =>
      have hepoch : lease.epoch = .finite top := by
        rw [hcurrent] at hlive
        rw [hlease]
        exact hlive
      exact ⟨ns, top, h.granted, h.increasing, h.below, .inr ⟨s.log, _, rfl,
        leaseFields_member (congrArg (fun m => some (JsValue.num m)) hepoch) rfl⟩, fun _ => hepoch⟩
    | released workerId options nowArg current _ hcurrent hlease =>
      have hepoch : lease.epoch = .finite top := by
        rw [hcurrent] at hlive
        rw [hlease]
        exact hlive
      exact ⟨ns, top, h.granted, h.increasing, h.below, .inr ⟨s.log, _, rfl,
        releaseFields_member (congrArg (fun m => some (JsValue.num m)) hepoch) rfl⟩,
        fun _ => hepoch⟩
  · rw [hlost]
    exact ⟨ns, top, h.granted, h.increasing, h.below, h.log, nofun⟩

theorem Run.rising (h : Run store host executionId s) : ∃ ns top, Rising s ns top := by
  induction h with
  | start status =>
    exact ⟨[], 0, rfl, List.Pairwise.nil, by simp, .inl ⟨rfl, rfl⟩, fun _ => by simp [Leases.start]⟩
  | next h act ih =>
    obtain ⟨ns, top, hrising⟩ := ih
    cases act with
    | status status => exact ⟨ns, top, hrising.granted, hrising.increasing, hrising.below,
        hrising.log, hrising.live⟩
    | restart => exact ⟨ns, top, hrising.restart⟩
    | call call env => exact hrising.called

theorem KeptRun.run (h : KeptRun store host executionId s) : Run store host executionId s := by
  induction h with
  | start status => exact .start status
  | status h status ih => exact ih.next _
  | restart h ih => exact ih.next _
  | call h call env hkept ih => exact ih.next _

/-- A restart leaves the lease as it was, and with it the answers to those who claim it, and the
epochs have only risen. -/
def Survives (store : LeaseStore) (host : Host) (executionId : String) (s : LeaseState) : Prop :=
  (s.failed = false →
    s.live.map Lease.shown = (s.rebuilt store host executionId).map Lease.shown ∧
    ∀ c now reject, s.refusal c now reject =
      (s.next store host executionId .restart).refusal c now reject) ∧
  ∃ ns : List ℕ, s.granted = (ns.map fun n : ℕ => JsNumber.finite n) ∧ ns.Pairwise (· < ·)

theorem leases_survive (hparse : ∀ t, host.parseDate (isoText t) = some t)
    (h : KeptRun store host executionId s) : Survives store host executionId s := by
  obtain ⟨ns, top, hrising⟩ := h.run.rising
  refine ⟨fun hfailed => ?_, ns, hrising.granted, hrising.increasing⟩
  have hsame : s.live.map Lease.shown = (s.rebuilt store host executionId).map Lease.shown :=
    (h.logTells hparse).rebuilt hfailed
  refine ⟨hsame, fun c now reject => ?_⟩
  rw [LeaseState.refusal, LeaseState.refusal, leaseRefusal_congr hsame]
  rfl

end Runs

/-! Two leases. -/

noncomputable def plainHost : Host where
  round q := q
  parseDate := Checkpoints.parseIso

/-- Worker `worker-1` takes the lease for the default time, on a fresh execution. -/
noncomputable def acquiredAt (now : Timestamp) : LeaseState :=
  (start .running).next (.reviving .jsonFile) plainHost "exec-1"
    (.call (.acquire "worker-1" (.options none none) none)
      { now := now, stamp := now, uuid := "1f0c7a1e", recordWorker := .str "worker-1"
        lands := true })

theorem plain_expiry {now expiry : Timestamp} (h : expiry.1 = now.1 + 30000) :
    plainHost.addTtl (some now) defaultTtlMs = some expiry := by
  have hms : plainHost.round (now.1 + 30000) = ((expiry.1 : ℤ) : ℚ) := by
    rw [h, Int.cast_add]
    rfl
  have hrange : |((expiry.1 : ℤ) : ℚ)| ≤ maxTimeMs := by
    rw [abs_le]
    exact ⟨by exact_mod_cast expiry.2.1, by exact_mod_cast expiry.2.2⟩
  simp only [Host.addTtl, defaultTtlMs, hms, if_pos hrange, Int.floor_intCast, Int.ceil_intCast,
    ite_self, JsDate.ofMs]
  exact dif_pos expiry.2

theorem acquiredAt_live {now expiry : Timestamp} (h : expiry.1 = now.1 + 30000) :
    ∃ lease e, (acquiredAt now).live = some lease ∧ (acquiredAt now).log = [] ++ [e] ∧
      (acquiredAt now).failed = false ∧ lease.expiresAt = some expiry ∧ e.type = .acquired ∧
      Member e.data "expiresAt" (.date (some expiry)) := by
  refine ⟨_, _, rfl, rfl, rfl, plain_expiry h, rfl, ?_⟩
  rw [← plain_expiry h]
  exact leaseFields_member rfl rfl

def momentAt (now : Timestamp) : Moment where
  now := now
  stamp := now
  uuid := "1f0c7a1e"
  recordWorker := .str "worker-1"
  lands := true

/-- The lease is renewed after ten seconds, and released after ten more. -/
noncomputable def renewedState : LeaseState :=
  (acquiredAt ⟨1772366400000, by decide⟩).next (.reviving .jsonFile) plainHost "exec-1"
    (.call (.renew "worker-1" (.options none none none (some defaultTtlMs) none) none none)
      (momentAt ⟨1772366410000, by decide⟩))

noncomputable def releasedState : LeaseState :=
  renewedState.next (.reviving .jsonFile) plainHost "exec-1"
    (.call (.release "worker-1" .absent none) (momentAt ⟨1772366420000, by decide⟩))

theorem acquired_kept :
    KeptRun (.reviving .jsonFile) plainHost "exec-1" (acquiredAt ⟨1772366400000, by decide⟩) := by
  refine .call (.start _) _ _ fun _ _ => ⟨by decide, ?_⟩
  have hexpiry : plainHost.addTtl (some ⟨1772366400000, by decide⟩) defaultTtlMs =
      some ⟨1772366430000, by decide⟩ := plain_expiry (by decide)
  show LeaseStore.keepsExpiry _ (plainHost.addTtl (some ⟨1772366400000, _⟩) defaultTtlMs) = true
  rw [hexpiry]
  decide

theorem renewed_kept : KeptRun (.reviving .jsonFile) plainHost "exec-1" renewedState := by
  refine .call acquired_kept _ _ fun _ _ => ?_
  have hexpiry : plainHost.addTtl (some ⟨1772366410000, by decide⟩) defaultTtlMs =
      some ⟨1772366440000, by decide⟩ := plain_expiry (by decide)
  show LeaseStore.keepsExpiry _ (plainHost.addTtl (some ⟨1772366410000, _⟩) defaultTtlMs) = true
  rw [hexpiry]
  decide

theorem acquired_survives : releasedState.log.map (·.type) = [.acquired, .renewed, .released] ∧
    Survives (.reviving .jsonFile) plainHost "exec-1" releasedState :=
  ⟨by decide +kernel,
    leases_survive Checkpoints.parseIso_isoText (.call renewed_kept _ _ fun _ _ => rfl)⟩

/-- The lease of half past a second runs out earlier once a new engine has read it. -/
theorem milliseconds_lost : ¬ ∀ s, Run (.reviving .jsonFile) plainHost "exec-1" s →
    Survives (.reviving .jsonFile) plainHost "exec-1" s := by
  intro h
  obtain ⟨lease, e, hlive, hlog, hfailed, hexpiry, htype, hmember⟩ :=
    @acquiredAt_live ⟨1772366400500, by decide⟩ ⟨1772366430500, by decide⟩ (by decide)
  have hsame := ((h (acquiredAt ⟨1772366400500, by decide⟩) ((Run.start _).next _)).1 hfailed).1
  obtain ⟨current, hrebuilt⟩ := rebuilt_concat (.reviving .jsonFile) plainHost "exec-1" hlog
  have hback : (LeaseStore.reviving .jsonFile).back plainHost
      (.date (some ⟨1772366430500, by decide⟩)) = .date (some ⟨1772366430500, by decide⟩) :=
    back_date Checkpoints.parseIso_isoText (by decide)
  have hread := (hmember.kept hback).get
  rw [hlive, hrebuilt] at hsame
  have hdates := congrArg (fun shown => shown.2.2.2.1) (Option.some.inj hsame)
  have hrounded : (leaseAfter plainHost "exec-1" current
      ((LeaseStore.reviving .jsonFile).loaded plainHost e)).expiresAt =
        wholeSeconds ⟨1772366430500, by decide⟩ := by
    have htruthy : (JsValue.date (some ⟨1772366430500, by decide⟩)).truthy = true := rfl
    simp only [leaseAfter, LeaseStore.loaded, hread, htype, htruthy, if_true, Host.newDate,
      Option.bind_some, reduceCtorEq, if_false]
  simp only [Lease.shown, hexpiry, hrounded] at hdates
  revert hdates
  decide

end Wazir.Core.Leases
