import Wazir.Async.Local
import Wazir.Async.Trace
import Wazir.Resources.NoOverAdmission

/-! An account that failed authentication stays blocked until an operator resets it, as long as no
other failure is recorded over the block. -/

namespace Wazir.Resources

open Wazir.Async

/-- `resetHealth`, as the operator runs it after the account was authenticated again. -/
def resetHealth (accountId : String) : LedgerCall :=
  .setHealth accountId ⟨.ok, none, "reset by operator"⟩

def isReset (accountId : String) : LedgerCall → Bool
  | .setHealth id row =>
    id = accountId && row.health = .ok && row.untilAt = none && row.reason = "reset by operator"
  | _ => false

def Ledger.authBlocked (l : Ledger) (accountId : String) : Bool :=
  (l.healthRow accountId).any (·.health = .authBlocked)

/-- A failed request's report put the account into `auth_blocked`. -/
def recordsAuthFailure (accountId : String) : LedgerEntry → Bool
  | ⟨_, ⟨_, .fail _ _⟩, .setHealth id row, _, .ok (), _, _⟩ =>
    id = accountId && row.health = .authBlocked
  | _ => false

/-- The operator's reset was executed. -/
def resetsHealth (accountId : String) : LedgerEntry → Bool
  | ⟨_, c, .setHealth _ _, _, .ok (), _, _⟩ => isReset accountId c.call
  | _ => false

/-- Whoever writes the health of a blocked account blocks it again or resets it. -/
def keepsBlock : LedgerEntry → Bool
  | ⟨_, c, .setHealth id row, _, _, before, _⟩ =>
    !before.authBlocked id || row.health = .authBlocked || isReset id c.call
  | _ => true

variable {req : AdmissionRequest} {d : AdmissionDecision}

section Health

variable {config : ResourceConfig} {inp : LedgerInput} {l l' : Ledger} {accountId : String}

theorem healthRow_setHealth (l : Ledger) (id : String) (row : HealthRow) :
    (l.setHealth id row).healthRow accountId =
      if accountId = id then some row else l.healthRow accountId := by
  unfold Ledger.healthRow Ledger.setHealth
  induction l.health with
  | nil => by_cases h : accountId = id <;> simp [h, Ne.symm]
  | cons kv rest ih =>
    by_cases hkv : kv.1 = id
    · by_cases h : accountId = id <;> simp_all [Ne.symm]
    · by_cases h : kv.1 = accountId <;> simp_all

/-- An insertion leaves the health as it is. -/
theorem evaluate_health {account : AccountConfig} {now : ℤ} {uuid : String}
    (h : evaluate config req account now l uuid = .ok (d, l')) :
    l'.health = l.health := by
  rcases evaluate_ok h with ⟨-, rfl⟩ | ⟨-, mode, reasons, -, hr⟩
  · rfl
  · rcases reserveAndAdmit_ok hr with ⟨-, rfl⟩ | ⟨-, -, -, -, rfl⟩ <;> rfl

theorem attempt_health {α : Type} {done : Except String (α × Ledger)} {res : Except String α}
    (h : attempt inp l done = (res, l'))
    (hkeep : ∀ a l₁, done = .ok (a, l₁) → l₁.health = l.health) : l'.health = l.health := by
  rcases attempt_cases inp l done with ⟨-, e, ha⟩ | ⟨e, -, ha⟩ | ⟨a, l₁, hok, ha, -⟩
  · obtain rfl : l = l' := congrArg Prod.snd (ha.symm.trans h)
    rfl
  · obtain rfl : l = l' := congrArg Prod.snd (ha.symm.trans h)
    rfl
  · obtain rfl : l₁ = l' := congrArg Prod.snd (ha.symm.trans h)
    exact hkeep a l₁ hok

/-- Only `setHealth` writes the health. -/
theorem exec_health {op : LedgerOp} {r : LedgerRes op} (h : ledgerExec config op inp l = (r, l'))
    (hop : ∀ id row, op ≠ .setHealth id row) : l'.health = l.health := by
  have hkeep : ∀ {α : Type} {p : α × Ledger}, p.2.health = l.health → ∀ a l₁,
      (.ok p : Except String (α × Ledger)) = .ok (a, l₁) → l₁.health = l.health := by
    rintro α p hp a l₁ ⟨⟩
    exact hp
  cases op <;> simp only [ledgerExec] at h
  case clock =>
    cases h
    rfl
  case setHealth id row => exact absurd rfl (hop id row)
  case evaluate req account => exact attempt_health h fun d l₁ hd => evaluate_health hd
  case settle row =>
    refine attempt_health h (hkeep ?_)
    unfold Ledger.settle
    split_ifs <;> rfl
  case release requestId =>
    refine attempt_health h (hkeep ?_)
    unfold Ledger.release
    split
    · rfl
    · split_ifs <;> rfl
  all_goals exact attempt_health h (hkeep rfl)

/-- No command but a reset lifts the block, where the health is written with care. -/
theorem authBlocked_step {i : ℕ} {c : LedgerRequest} {op : LedgerOp} {r : LedgerRes op}
    (h : ledgerExec config op inp l = (r, l')) (hkeeps : keepsBlock ⟨i, c, op, inp, r, l, l'⟩ = true)
    (hreset : resetsHealth accountId ⟨i, c, op, inp, r, l, l'⟩ = false)
    (hblocked : l.authBlocked accountId = true) : l'.authBlocked accountId = true := by
  by_cases hop : ∀ id row, op ≠ .setHealth id row
  · rwa [Ledger.authBlocked, Ledger.healthRow, exec_health h hop]
  · push Not at hop
    obtain ⟨id, row, rfl⟩ := hop
    rcases attempt_cases inp l (.ok ((), l.setHealth id row)) with
      ⟨-, e, ha⟩ | ⟨e, he, -⟩ | ⟨u, l₁, hok, ha, -⟩
    · obtain rfl : l = l' := congrArg Prod.snd (ha.symm.trans h)
      exact hblocked
    · cases he
    · cases hok
      obtain ⟨rfl, rfl⟩ := Prod.mk.inj (ha.symm.trans h)
      rw [Ledger.authBlocked, healthRow_setHealth]
      split_ifs with hid
      · subst hid
        change isReset accountId c.call = false at hreset
        simpa [keepsBlock, hblocked, hreset] using hkeeps
      · exact hblocked

/-- A blocked account is refused while the limits are enforced. -/
theorem not_admitted_of_authBlocked (henforce : config.policy.enforce = true)
    {account : AccountConfig} (h : ledgerExec config (.evaluate req account) inp l = (.ok d, l'))
    (hblocked : l.authBlocked account.id = true) : d.outcome ≠ .admitted := by
  intro hd
  obtain ⟨-, -, -, hpassed, -⟩ := evaluate_admits h hd
  obtain ⟨mode, reasons, hpassed⟩ := hpassed henforce
  have hhealth : (l.getHealth account.id inp.now).health = .authBlocked := by
    obtain ⟨row, hrow, hauth⟩ : ∃ row, l.healthRow account.id = some row ∧
        row.health = .authBlocked := by
      simpa [Ledger.authBlocked, Option.any_eq_true] using hblocked
    simp [Ledger.getHealth, hrow, hauth]
  have hnone := hpassed.authorised
  simp only [checkAccount, hhealth] at hnone
  split_ifs at hnone

theorem authBlocked_recorded {i : ℕ} {c : LedgerRequest} {op : LedgerOp} {r : LedgerRes op}
    (h : ledgerExec config op inp l = (r, l'))
    (hrec : recordsAuthFailure accountId ⟨i, c, op, inp, r, l, l'⟩ = true) :
    l'.authBlocked accountId = true := by
  unfold recordsAuthFailure at hrec
  split at hrec
  · rename_i id row _ _ _ heq
    cases heq
    simp only [Bool.and_eq_true, decide_eq_true_eq] at hrec
    obtain ⟨rfl, hrow⟩ := hrec
    rcases attempt_cases inp l (.ok ((), l.setHealth id row)) with
      ⟨-, e, ha⟩ | ⟨e, he, -⟩ | ⟨u, l₁, hok, ha, -⟩
    · cases ha.symm.trans h
    · cases he
    · cases hok
      obtain ⟨-, rfl⟩ := Prod.mk.inj (ha.symm.trans h)
      simpa [Ledger.authBlocked, healthRow_setHealth] using hrow
  · cases hrec

/-- An admission that comes to a decision either knows no such account or evaluates it. -/
theorem admitRequest_ends {es : List LedgerEntry} (h : Ends (admitRequest config req) es (.ok d)) :
    d.outcome ≠ .admitted ∨ ∃ account, config.account req.accountId = some account ∧
      ∃ i c inp before after, ⟨i, c, .evaluate req account, inp, .ok d, before, after⟩ ∈ es := by
  unfold admitRequest at h
  split at h
  · obtain ⟨-, hd⟩ := Ends.ret_iff.mp h
    cases hd
    exact .inl (by simp [deny])
  · rename_i account haccount
    refine .inr ⟨account, haccount, ?_⟩
    rcases Ends.bind_iff.mp h with ⟨e, he, -⟩ | ⟨es₁, es', now, rfl, -, h⟩
    · cases he
    rcases Ends.bind_iff.mp h with ⟨e, he, -⟩ | ⟨es₂, es', n, rfl, -, h⟩
    · cases he
    rcases Ends.bind_iff.mp h with ⟨e, he, -⟩ | ⟨es₃, es₄, d', rfl, hcall, h⟩
    · cases he
    rcases Ends.bind_iff.mp h with ⟨e, he, -⟩ | ⟨es₅, es₆, u, rfl, -, h⟩
    · cases he
    obtain ⟨-, hd⟩ := Ends.ret_iff.mp h
    cases hd
    obtain ⟨i, c, inp, r, before, after, es₇, rfl, hret⟩ := Ends.call_iff.mp hcall
    obtain ⟨-, rfl⟩ := Ends.resume_iff.mp hret
    exact ⟨i, c, inp, before, after, by simp⟩

end Health

variable {cfg : LedgerConfig}

section Run

variable {config : ResourceConfig} {s₀ : Ledger} {accountId : String}

/-- The account is blocked from the recorded failure on, until it is reset. -/
theorem authBlocked_run (hr : Reach (ledgerSystem config) s₀ cfg)
    (hkeeps : ∀ e ∈ cfg.hist.entries, keepsBlock e = true)
    {pre post : List (Event LedgerOp LedgerRes LedgerRequest ℕ LedgerInput Ledger)}
    {e : LedgerEntry} (he : cfg.hist.events = pre ++ .ran e :: post)
    (hrec : recordsAuthFailure accountId e = true)
    (hreset : ∀ x, .ran x ∈ post → resetsHealth accountId x = false) :
    cfg.hist.shared.authBlocked accountId = true := by
  have hstep : ∀ {h : LedgerHist} {ev : Event LedgerOp LedgerRes LedgerRequest ℕ LedgerInput Ledger}
      {s : Ledger} {pre post}, (h.push ev s).events = pre ++ .ran e :: post →
      (∃ post', h.events = pre ++ .ran e :: post' ∧ post = post' ++ [ev]) ∨ ev = .ran e := by
    intro h ev s pre post he
    rcases Hist.split_push he with ⟨post', he'⟩ | ⟨hev, -⟩
    · refine .inl ⟨post', he', ?_⟩
      rw [Hist.push_events, he', List.append_assoc, List.cons_append] at he
      exact (List.cons.inj (List.append_cancel_left he)).2.symm
    · exact .inr hev
  have hinv := hr.invariant (I := fun h => (∀ e ∈ h.entries, keepsBlock e = true) → ∀ pre post,
    h.events = pre ++ .ran e :: post → (∀ x, .ran x ∈ post → resetsHealth accountId x = false) →
      h.shared.authBlocked accountId = true)
    ?start ?began ?ran ?crashed
  · exact hinv hkeeps pre post he hreset
  case start =>
    intro _ pre post he
    simp at he
  case began =>
    intro h i c s' ih hadm hkeeps pre post he hreset
    cases hadm
    rcases hstep he with ⟨post', he', rfl⟩ | hev
    · exact ih (by simpa using hkeeps) pre post' he' fun x hx =>
        hreset x (List.mem_append_left _ hx)
    · cases hev
  case crashed =>
    intro h p ih hkeeps pre post he hreset
    rcases hstep he with ⟨post', he', rfl⟩ | hev
    · exact ih (by simpa using hkeeps) pre post' he' fun x hx =>
        hreset x (List.mem_append_left _ hx)
    · cases hev
  case ran =>
    intro h i c op inp r s' ih hx hkeeps pre post he hreset
    have hexec : ledgerExec config op inp h.shared = (r, s') := Option.some.inj hx
    simp only [Hist.entries_push_ran, List.mem_append, List.mem_singleton] at hkeeps
    rcases hstep he with ⟨post', he', rfl⟩ | hev
    · exact authBlocked_step hexec (hkeeps _ (.inr rfl)) (hreset _ (by simp))
        (ih (fun x hx => hkeeps x (.inl hx)) pre post' he' fun x hx =>
          hreset x (List.mem_append_left _ hx))
    · cases hev
      exact authBlocked_recorded hexec hrec

/-- Where nobody writes another failure over a block, no admission that begins after an
authentication failure was recorded is granted before the account is reset. -/
theorem auth_block_sticky (config : ResourceConfig) (henforce : config.policy.enforce = true)
    {s₀ : Ledger} {cfg : LedgerConfig} (hr : Reach (ledgerSystem config) s₀ cfg)
    (hkeeps : ∀ e ∈ cfg.hist.entries, keepsBlock e = true) {accountId : String}
    {pre post : List (Event LedgerOp LedgerRes LedgerRequest ℕ LedgerInput Ledger)}
    {e : LedgerEntry} (he : cfg.hist.events = pre ++ .ran e :: post)
    (hrec : recordsAuthFailure accountId e = true)
    (hreset : ∀ x, .ran x ∈ post → resetsHealth accountId x = false) {i p : ℕ} {c : LedgerRequest}
    (hbegan : .began i c ∈ post) {req : AdmissionRequest} (haccount : req.accountId = accountId)
    {d : AdmissionDecision} (hret : cfg.returned i = some (⟨p, .admitRequest req⟩, some d)) :
    d.outcome ≠ .admitted := by
  have hends : Ends (some <$> admitRequest config req) (cfg.hist.entriesOf i) (.ok (some d)) :=
    hr.ends (o := .ok (some d)) (Config.returned_eq_some hret)
  obtain ⟨res, hres, hends⟩ := Ends.map_iff.mp hends
  obtain ⟨d', rfl, hd'⟩ := except_map_eq_ok.mp hres.symm
  cases hd'
  rcases admitRequest_ends hends with hd | ⟨account, hfound, j, b, inp, before, after, hmem⟩
  · exact hd
  obtain ⟨mid, rest, rfl⟩ := List.append_of_mem hbegan
  have hbegin : cfg.hist.events =
      (pre ++ .ran e :: mid) ++ .began i c :: rest := by
    rw [he, List.append_assoc, List.cons_append]
  obtain ⟨mid', rest', rfl⟩ := List.append_of_mem (hr.ran_later hbegin hmem)
  have hsplit : cfg.hist.events =
      (pre ++ .ran e :: (mid ++ .began i c :: mid')) ++
        .ran ⟨j, b, .evaluate req account, inp, .ok d, before, after⟩ :: rest' := by
    rw [he]
    simp only [List.append_assoc, List.cons_append]
  obtain ⟨cfg₁, hr₁, hhist, hexec, hlater⟩ := hr.ran hsplit
  have hkept : ∀ x ∈ cfg₁.hist.entries, keepsBlock x = true := fun x hx =>
    hkeeps x (((Step.events_prefix hlater).filterMap _).subset hx)
  have hblocked := authBlocked_run hr₁ hkept (by rw [hhist]) hrec fun x hx =>
    hreset x (by
      rw [List.mem_append, List.mem_cons] at hx ⊢
      rcases hx with hx | hx | hx <;> simp [hx])
  rw [hhist] at hblocked
  have hid : account.id = accountId := by
    simpa [haccount] using List.find?_some hfound
  exact not_admitted_of_authBlocked henforce (Option.some.inj hexec) (hid ▸ hblocked)

end Run

/-! A rate limit that is reported after an authentication failure, and one before it. -/

/-- Two requests at a time. -/
def sharedAccount : AccountConfig :=
  { narrowAccount with id := "cloud", kind := .subscription, limits := none, maxConcurrent := some 2 }

def sharedConfig : ResourceConfig where
  accounts := [sharedAccount]
  policy := narrowConfig.policy
  valid := by
    rintro _ (_ | ⟨_, ⟨⟩⟩)
    decide

def cloudRequest (requestId : String) : AdmissionRequest :=
  ⟨requestId, "cloud", "model", .routine, 10, 10, none, none⟩

def failure (failureClass : FailureClass) : FailureReport := ⟨failureClass, none, false, none, ""⟩

/-- All commands of a call, at one time. -/
def callAt (i : ℕ) (now : ℤ) (uuid : String) (commands : ℕ) (call : LedgerCall) :
    List LedgerAction :=
  .begin ⟨0, call⟩ :: List.replicate commands (.run i ⟨now, uuid, none⟩)

/-- Two admitted requests fail, and a third asks to be admitted. -/
def twoFailures (first second : FailureClass) : List LedgerAction :=
  callAt 0 0 "one" 4 (.admitRequest (cloudRequest "one")) ++
  callAt 1 0 "two" 4 (.admitRequest (cloudRequest "two")) ++
  callAt 2 1 "" 6 (.fail "one" (failure first)) ++
  callAt 3 2 "" 6 (.fail "two" (failure second)) ++
  callAt 4 40000 "three" 4 (.admitRequest (cloudRequest "three"))

/-- The last thread's admission, and the failure recorded at `at'` that precedes it. -/
def sinceFailure (at' : ℕ) (cfg : LedgerConfig) : Bool :=
  match cfg.hist.events.drop at' with
  | .ran e :: post =>
    recordsAuthFailure "cloud" e &&
      post.all (fun ev => ev.entry.all fun x => !resetsHealth "cloud" x) &&
      post.any fun ev => match ev with
        | .began i _ => i = 4
        | _ => false
  | _ => false

theorem sinceFailure_split {at' : ℕ} (h : sinceFailure at' cfg = true) :
    ∃ pre e post c, cfg.hist.events = pre ++ .ran e :: post ∧
      recordsAuthFailure "cloud" e = true ∧
      (∀ x, .ran x ∈ post → resetsHealth "cloud" x = false) ∧ .began 4 c ∈ post := by
  unfold sinceFailure at h
  split at h
  · rename_i e post heq
    simp only [Bool.and_eq_true, List.all_eq_true, List.any_eq_true] at h
    obtain ⟨⟨hrec, hall⟩, ev, hev, hbegan⟩ := h
    cases ev with
    | began i c =>
      obtain rfl : i = 4 := of_decide_eq_true hbegan
      refine ⟨cfg.hist.events.take at', e, post, c, ?_, hrec, fun x hx => ?_, hev⟩
      · rw [← heq, List.take_append_drop]
      · simpa [Event.entry] using hall _ hx
    | ran x => cases hbegan
    | crashed q => cases hbegan
  · cases h

/-- The decision of the last thread. -/
def lastOutcome (cfg : LedgerConfig) : Option (String × AdmissionOutcome) :=
  match cfg.returned 4 with
  | some (⟨_, .admitRequest req⟩, some d) => some (req.accountId, d.outcome)
  | _ => none

theorem lastOutcome_returned {accountId : String} {outcome : AdmissionOutcome}
    (h : lastOutcome cfg = some (accountId, outcome)) : ∃ p req d,
      cfg.returned 4 = some (⟨p, .admitRequest req⟩, some d) ∧ req.accountId = accountId ∧
        d.outcome = outcome := by
  unfold lastOutcome at h
  split at h
  · rename_i hret
    cases h
    exact ⟨_, _, _, hret, rfl, rfl⟩
  · cases h

/-- The second request's rate limit takes the place of the first one's authentication failure, and
has passed when the third request asks. -/
theorem auth_block_overwritten : ¬ ∀ (config : ResourceConfig) (cfg : LedgerConfig),
    config.policy.enforce = true → Reach (ledgerSystem config) emptyLedger cfg →
    ∀ accountId pre e post i c p req d, cfg.hist.events = pre ++ .ran e :: post →
      recordsAuthFailure accountId e = true →
      (∀ x, .ran x ∈ post → resetsHealth accountId x = false) → .began i c ∈ post →
      req.accountId = accountId → cfg.returned i = some (⟨p, .admitRequest req⟩, some d) →
      d.outcome ≠ .admitted := by
  intro hall
  have hrun : ((schedule (ledgerSystem sharedConfig) (twoFailures .authFailed .rateLimit)
      (Config.start emptyLedger)).any fun cfg => sinceFailure 13 cfg &&
        lastOutcome cfg = some ("cloud", .admitted)) = true := by
    decide
  obtain ⟨cfg, hr, hcheck⟩ := Reach.of_check hrun
  simp only [Bool.and_eq_true, decide_eq_true_eq] at hcheck
  obtain ⟨pre, e, post, c, he, hrec, hreset, hbegan⟩ := sinceFailure_split hcheck.1
  obtain ⟨p, req, d, hret, haccount, hd⟩ := lastOutcome_returned hcheck.2
  exact hall sharedConfig cfg rfl hr _ pre e post 4 c p req d he hrec hreset hbegan haccount hret hd

/-- The authentication failure is reported last, and the third request is refused. -/
theorem auth_block_sticky_last : ∃ (cfg : LedgerConfig) (d : AdmissionDecision),
    Reach (ledgerSystem sharedConfig) emptyLedger cfg ∧
      (∃ c, cfg.returned 4 = some (c, some d)) ∧ d.outcome ≠ .admitted := by
  have hrun : ((schedule (ledgerSystem sharedConfig) (twoFailures .rateLimit .authFailed)
      (Config.start emptyLedger)).any fun cfg => sinceFailure 20 cfg &&
        (cfg.hist.entries.all keepsBlock &&
          (lastOutcome cfg).any fun last => last.1 = "cloud")) = true := by
    decide
  obtain ⟨cfg, hr, hcheck⟩ := Reach.of_check hrun
  simp only [Bool.and_eq_true, List.all_eq_true, Option.any_eq_true, decide_eq_true_eq] at hcheck
  obtain ⟨hsince, hkeeps, ⟨accountId, outcome⟩, hlast, rfl⟩ := hcheck
  obtain ⟨pre, e, post, c, he, hrec, hreset, hbegan⟩ := sinceFailure_split hsince
  obtain ⟨p, req, d, hret, haccount, -⟩ := lastOutcome_returned hlast
  exact ⟨cfg, d, hr, ⟨_, hret⟩,
    auth_block_sticky sharedConfig rfl hr hkeeps he hrec hreset hbegan haccount hret⟩

end Wazir.Resources
