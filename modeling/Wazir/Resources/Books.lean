import Wazir.Resources.Budget
import Wazir.Shared.Values

/-! What the tables keep whatever is called, in any order and with crashes anywhere: a request has
one reservation and at most one usage row, which is the reservation's, and an active reservation
has none. -/

namespace Wazir.Resources

open Wazir.Async

/-- All of a reservation but its status and its lease, which nothing changes. -/
def ReservationRow.core (r : ReservationRow) : ReservationRow :=
  { r with status := .active, leaseExpiresAt := 0 }

/-- A usage row of the reservation's request. -/
structure Owns (r : ReservationRow) (row : UsageRow) : Prop where
  requestId : row.requestId = r.requestId
  accountId : row.accountId = r.accountId
  taskId : row.taskId = r.taskId
  isLocal : row.isLocal = r.isLocal

variable {r r' : ReservationRow}

theorem Owns.of_core {row : UsageRow} (h : Owns r row) (hc : r'.core = r.core) : Owns r' row := by
  simp only [ReservationRow.core, ReservationRow.mk.injEq] at hc
  exact ⟨by rw [h.requestId, hc.2.1], by rw [h.accountId, hc.2.2.1],
    by rw [h.taskId, hc.2.2.2.2.1], by rw [h.isLocal]; simp [hc]⟩

theorem ReservationRow.core_id (h : r'.core = r.core) : r'.id = r.id := by
  simp only [ReservationRow.core, ReservationRow.mk.injEq] at h
  exact h.1

theorem ReservationRow.core_requestId (h : r'.core = r.core) :
    r'.requestId = r.requestId := by
  simp only [ReservationRow.core, ReservationRow.mk.injEq] at h
  exact h.2.1

variable {f : ReservationRow → ReservationRow} {l : Ledger} {requestId : String}

namespace Ledger

/-- How many usage rows a request has. -/
def uses (l : Ledger) (requestId : String) : ℕ := l.usage.countP (·.requestId = requestId)

theorem hasUsage_iff :
    l.hasUsage requestId = true ↔ ∃ row ∈ l.usage, row.requestId = requestId := by
  simp [hasUsage]

theorem uses_eq_zero :
    l.uses requestId = 0 ↔ l.hasUsage requestId = false := by
  simp [uses, hasUsage, List.countP_eq_zero]

/-! Statements that change some rows. -/

@[simp] theorem updateWhere_usage (l : Ledger) (p : ReservationRow → Bool)
    (f : ReservationRow → ReservationRow) : (l.updateWhere p f).usage = l.usage := rfl

theorem mem_updateWhere {p : ReservationRow → Bool} {r' : ReservationRow} :
    r' ∈ (l.updateWhere p f).reservations ↔
      ∃ r ∈ l.reservations, (if p r then f r else r) = r' := by
  simp [updateWhere]

theorem core_of_update {p : ReservationRow → Bool} (hf : ∀ r, (f r).core = r.core)
    (r : ReservationRow) :
    (if p r then f r else r).core = r.core := by
  split_ifs
  · exact hf r
  · rfl

theorem updateWhere_cores (l : Ledger) (p : ReservationRow → Bool) (hf : ∀ r, (f r).core = r.core) :
    (l.updateWhere p f).reservations.map ReservationRow.core =
      l.reservations.map ReservationRow.core := by
  simp [updateWhere, Function.comp_def, core_of_update hf]

end Ledger

/-- Time passed: no reservation is gone. -/
def Later (l l' : Ledger) : Prop :=
  ∀ r ∈ l.reservations, ∃ r' ∈ l'.reservations, r'.core = r.core

theorem Later.refl (l : Ledger) : Later l l := fun r hr => ⟨r, hr, rfl⟩

theorem Later.trans {l l' l'' : Ledger} (h : Later l l') (h' : Later l' l'') : Later l l'' := by
  intro r hr
  obtain ⟨r', hr', hc⟩ := h r hr
  obtain ⟨r'', hr'', hc'⟩ := h' r' hr'
  exact ⟨r'', hr'', hc'.trans hc⟩

variable {l l' : Ledger}

theorem Later.of_cores
    (h : l'.reservations.map ReservationRow.core = l.reservations.map ReservationRow.core) :
    Later l l' := by
  intro r hr
  have hm : r.core ∈ l'.reservations.map ReservationRow.core := by
    rw [h]
    exact List.mem_map_of_mem hr
  exact List.mem_map.mp hm

/-! What one command does to the reservations and the usage rows. -/

inductive Change (config : ResourceConfig) (inp : LedgerInput) (l l' : Ledger) :
    (op : LedgerOp) → LedgerRes op → Prop
  /-- The database refuses. -/
  | refused (op : LedgerOp) (res : LedgerRes op) (refused : inp.refused.isSome) (same : l' = l) :
      Change config inp l l' op res
  | idle (op : LedgerOp) (res : LedgerRes op) (noSettle : ∀ row, op ≠ .settle row)
      (reservations : l'.reservations = l.reservations) (usage : l'.usage = l.usage) :
      Change config inp l l' op res
  /-- The request has a usage row already. -/
  | duplicate (row : UsageRow) (used : l.hasUsage row.requestId = true) (same : l' = l) :
      Change config inp l l' (.settle row) (.ok false)
  | inserted (req : AdmissionRequest) (account : AccountConfig) (decision : AdmissionDecision)
      (admitted : decision.outcome = .admitted) (requestId : decision.requestId = req.requestId)
      (newId : ∀ r ∈ l.reservations, r.id ≠ inp.uuid)
      (newRequest : ∀ r ∈ l.reservations, r.requestId ≠ req.requestId)
      (reservations : l'.reservations =
        l.reservations ++ [reservationOf config req account inp.now inp.uuid])
      (usage : l'.usage = l.usage) : Change config inp l l' (.evaluate req account) (.ok decision)
  /-- A lease is renewed or an active reservation released. -/
  | updated (op : LedgerOp) (res : LedgerRes op) (noSettle : ∀ row, op ≠ .settle row)
      (p : ReservationRow → Bool) (f : ReservationRow → ReservationRow)
      (core : ∀ r, (f r).core = r.core)
      (active : (l.reservations.map (·.requestId)).Nodup →
        ∀ r ∈ l.reservations, p r → r.status = .active)
      (lease : ∀ r, r.leaseExpiresAt ≤ (f r).leaseExpiresAt)
      (status : ∀ r, (f r).status = r.status ∨ (f r).status = .released)
      (reservations : l'.reservations = (l.updateWhere p f).reservations)
      (usage : l'.usage = l.usage) : Change config inp l l' op res
  | expired (r : ReservationRow) (now : ℤ)
      (reservations : l'.reservations = (l.updateWhere (fun r' => r'.id = r.id && r'.lapsed now)
        fun r' => { r' with status := .expired }).reservations)
      (usage : l'.usage = l.usage) : Change config inp l l' (.expire r now) (.ok true)
  | settled (row : UsageRow) (accepted : inp.refused = none)
      (unused : l.hasUsage row.requestId = false)
      (reservations : l'.reservations = (l.updateWhere
        (fun r => r.requestId = row.requestId && (r.status = .active || r.status = .expired))
        fun r => { r with status := .settled }).reservations)
      (usage : l'.usage = l.usage ++ [row]) : Change config inp l l' (.settle row) (.ok true)

/-- What holds of the tables of every run. -/
structure Sound (l : Ledger) : Prop where
  ids : (l.reservations.map (·.id)).Nodup
  requests : (l.reservations.map (·.requestId)).Nodup
  once : (l.usage.map (·.requestId)).Nodup
  owned : ∀ row ∈ l.usage, ∃ r ∈ l.reservations, Owns r row
  unused : ∀ r ∈ l.reservations, r.status = .active → l.hasUsage r.requestId = false
  spent : ∀ r ∈ l.reservations, r.status = .settled → l.hasUsage r.requestId = true

namespace Sound

theorem eq_of_requestId (h : Sound l) (hr : r ∈ l.reservations) (hr' : r' ∈ l.reservations)
    (he : r.requestId = r'.requestId) :
    r = r' :=
  List.inj_on_of_nodup_map h.requests hr hr' he

theorem eq_of_id (h : Sound l) (hr : r ∈ l.reservations) (hr' : r' ∈ l.reservations)
    (he : r.id = r'.id) : r = r' :=
  List.inj_on_of_nodup_map h.ids hr hr' he

end Sound

variable {d : AdmissionDecision} {req : AdmissionRequest} {reasons : List AdmissionReason}
  {op : LedgerOp} {l' : Ledger}

section Exec

variable {config : ResourceConfig} {inp : LedgerInput} {l : Ledger}

theorem reserveAndAdmit_ok {account : AccountConfig} {now : ℤ} {uuid : String} {mode : BudgetMode}
    (h : reserveAndAdmit config req account now l uuid mode reasons = .ok (d, l')) :
    (d.outcome ≠ .admitted ∧ l' = l) ∨
    (d.outcome = .admitted ∧ d.requestId = req.requestId ∧ (∀ r ∈ l.reservations, r.id ≠ uuid) ∧
      (∀ r ∈ l.reservations, r.requestId ≠ req.requestId) ∧
      l' = { l with reservations :=
        l.reservations ++ [reservationOf config req account now uuid] }) := by
  unfold reserveAndAdmit at h
  split at h
  · cases h
    exact .inl ⟨by simp [deny], rfl⟩
  · refine .inr ?_
    simp only [Ledger.insertReservation] at h
    split at h
    · cases h
    · rename_i hnew
      simp only [Except.map, Except.ok.injEq, Prod.mk.injEq] at h
      obtain ⟨rfl, rfl⟩ := h
      simp only [List.any_eq_true, Bool.or_eq_true, not_exists, not_and, not_or,
        reservationOf] at hnew
      exact ⟨rfl, rfl, fun r hr he => (hnew r hr).1 (decide_eq_true he),
        fun r hr he => (hnew r hr).2 (decide_eq_true he), rfl⟩

theorem checkAccount_denies {account : AccountConfig} {now : ℤ}
    (h : checkAccount config req account now l = some d) :
    d.outcome ≠ .admitted := by
  simp only [checkAccount] at h
  split_ifs at h
  all_goals try (cases h; simp [deny])
  split at h <;> cases h <;> simp [deny]

theorem checkConcurrency_denies {account : AccountConfig} {now : ℤ}
    (h : checkConcurrency config req account now l = some d) :
    d.outcome ≠ .admitted := by
  simp only [checkConcurrency] at h
  split at h
  · cases h
  · split at h <;> cases h
    simp [deny]

theorem checkLimits_denies {account : AccountConfig} {now : ℤ} {limits : List LimitSpec}
    {mode : BudgetMode}
    (h : checkLimits config req account now l limits mode reasons = .error (.ok d)) :
    d.outcome ≠ .admitted := by
  induction limits generalizing mode reasons with
  | nil => cases h
  | cons limit rest ih =>
    simp only [checkLimits] at h
    split at h
    · cases h
    · split at h
      · split at h <;> cases h <;> simp [deny]
      · exact ih h

theorem checkMode_denies {account : AccountConfig} {mode : BudgetMode}
    (h : checkMode req account mode reasons = some d) : d.outcome ≠ .admitted := by
  simp only [checkMode] at h
  split_ifs at h <;> cases h <;> simp [deny]

theorem checkTask_denies {now : ℤ} {mode : BudgetMode}
    (h : checkTask config req now l mode reasons = some d) : d.outcome ≠ .admitted := by
  simp only [checkTask] at h
  split at h
  · cases h
  · split at h <;> cases h
    simp [deny]

theorem checkSpend_denies {account : AccountConfig} {now : ℤ} {limitUsd : ℚ} {window : String}
    (h : checkSpend req account now l limitUsd window reasons = .ok (some d)) :
    d.outcome ≠ .admitted := by
  simp only [checkSpend] at h
  split at h
  · obtain ⟨b, -, hb⟩ := except_map_eq_ok.mp h
    split at hb <;> cases hb
    simp [deny]
  · cases h

theorem checkPaid_denies {account : AccountConfig} {now : ℤ}
    (h : checkPaid config req account now l reasons = .ok (some d)) : d.outcome ≠ .admitted := by
  simp only [checkPaid] at h
  split at h
  · simp only [orElse] at h
    split at h <;> exact checkSpend_denies h
  · cases h

/-- What lets a request through while the limits are enforced. -/
structure Passed (config : ResourceConfig) (req : AdmissionRequest) (account : AccountConfig)
    (now : ℤ) (l : Ledger) (mode : BudgetMode) (reasons : List AdmissionReason) : Prop where
  authorised : checkAccount config req account now l = none
  concurrency : checkConcurrency config req account now l = none
  limits : checkLimits config req account now l (effectiveLimits account) .normal [] =
    .ok (mode, reasons)
  served : checkMode req account mode reasons = none
  task : checkTask config req now l mode reasons = none
  paid : checkPaid config req account now l reasons = .ok none

theorem orElseDo_ok {refusal : Option AdmissionDecision}
    {next : Except String (AdmissionDecision × Ledger)} (h : orElseDo l refusal next = .ok (d, l')) :
    (refusal = some d ∧ l' = l) ∨ (refusal = none ∧ next = .ok (d, l')) := by
  cases refusal with
  | none => exact .inr ⟨rfl, h⟩
  | some d' =>
    cases h
    exact .inl ⟨rfl, rfl⟩

/-- A refusal changes nothing; a reservation comes after every check. -/
theorem evaluate_ok {account : AccountConfig} {now : ℤ} {uuid : String}
    (h : evaluate config req account now l uuid = .ok (d, l')) :
    (d.outcome ≠ .admitted ∧ l' = l) ∨
    (account.enabled ≠ some false ∧ ∃ mode reasons,
      (config.policy.enforce = true → Passed config req account now l mode reasons) ∧
      reserveAndAdmit config req account now l uuid mode reasons = .ok (d, l')) := by
  unfold evaluate at h
  split at h
  · cases h
    exact .inl ⟨by simp [deny], rfl⟩
  rename_i henabled
  split at h
  · cases h
    exact .inl ⟨by simp [deny], rfl⟩
  split at h
  · rename_i henforce
    exact .inr ⟨henabled, _, _, fun he => by simp [he] at henforce, h⟩
  rcases orElseDo_ok h with ⟨hd, rfl⟩ | ⟨haccount, h⟩
  · exact .inl ⟨checkAccount_denies hd, rfl⟩
  rcases orElseDo_ok h with ⟨hd, rfl⟩ | ⟨hconcurrency, h⟩
  · exact .inl ⟨checkConcurrency_denies hd, rfl⟩
  split at h
  · cases h
  · rename_i hlimits
    cases h
    exact .inl ⟨checkLimits_denies hlimits, rfl⟩
  rename_i mode reasons hlimits
  rcases orElseDo_ok h with ⟨hd, rfl⟩ | ⟨hmode, h⟩
  · exact .inl ⟨checkMode_denies hd, rfl⟩
  rcases orElseDo_ok h with ⟨hd, rfl⟩ | ⟨htask, h⟩
  · exact .inl ⟨checkTask_denies hd, rfl⟩
  split at h
  · cases h
  rename_i refusal hpaid
  rcases orElseDo_ok h with ⟨hd, rfl⟩ | ⟨rfl, h⟩
  · subst hd
    exact .inl ⟨checkPaid_denies hpaid, rfl⟩
  · exact .inr ⟨henabled, mode, reasons,
      fun _ => ⟨haccount, hconcurrency, hlimits, hmode, htask, hpaid⟩, h⟩

/-- The outcome of a statement that the database does not refuse. -/
theorem attempt_cases {α : Type} (inp : LedgerInput) (l : Ledger)
    (done : Except String (α × Ledger)) :
    (inp.refused.isSome ∧ ∃ e, attempt inp l done = (.error e, l)) ∨
    (∃ e, done = .error e ∧ attempt inp l done = (.error e, l)) ∨
    ∃ a l', done = .ok (a, l') ∧ attempt inp l done = (.ok a, l') ∧ inp.refused = none := by
  unfold attempt
  split
  · rename_i e he
    exact .inl ⟨by simp [he], e, rfl⟩
  · rename_i he
    split
    · exact .inr (.inl ⟨_, rfl, rfl⟩)
    · exact .inr (.inr ⟨_, _, rfl, rfl, he⟩)

theorem release_change (l : Ledger) (requestId : String) :
    ∃ p : ReservationRow → Bool, ((l.reservations.map (·.requestId)).Nodup →
        ∀ r ∈ l.reservations, p r → r.status = .active) ∧
      (l.release requestId).reservations =
        (l.updateWhere p fun r => { r with status := .released }).reservations ∧
      (l.release requestId).usage = l.usage := by
  have idle : l.reservations =
      (l.updateWhere (fun _ => false) fun r => { r with status := .released }).reservations := by
    simp [Ledger.updateWhere]
  unfold Ledger.release
  split
  · exact ⟨fun _ => false, fun _ _ _ h => (Bool.false_ne_true h).elim, idle, rfl⟩
  · rename_i r hr
    have hid : r.requestId = requestId := by simpa using List.find?_some hr
    split
    · rename_i hactive
      refine ⟨(·.requestId = requestId), fun hnodup r' hr' hp => ?_, rfl, rfl⟩
      have hsame : r' = r := List.inj_on_of_nodup_map hnodup hr' (List.mem_of_find?_eq_some hr)
        ((of_decide_eq_true hp).trans hid.symm)
      rw [hsame, hactive]
    · exact ⟨fun _ => false, fun _ _ _ h => (Bool.false_ne_true h).elim, idle, rfl⟩

theorem attempt_rows {α : Type} {done : Except String (α × Ledger)}
    (h : ∀ a l', done = .ok (a, l') → l'.reservations = l.reservations ∧ l'.usage = l.usage) :
    (attempt inp l done).2.reservations = l.reservations ∧
      (attempt inp l done).2.usage = l.usage := by
  rcases attempt_cases inp l done with ⟨-, e, ha⟩ | ⟨e, -, ha⟩ | ⟨a, l', hd, ha, -⟩
  · rw [ha]
    exact ⟨rfl, rfl⟩
  · rw [ha]
    exact ⟨rfl, rfl⟩
  · rw [ha]
    exact h a l' hd

theorem idle_change (noSettle : ∀ row, op ≠ .settle row)
    (h : (ledgerExec config op inp l).2.reservations = l.reservations ∧
      (ledgerExec config op inp l).2.usage = l.usage) :
    Change config inp l (ledgerExec config op inp l).2 op (ledgerExec config op inp l).1 :=
  .idle _ _ noSettle h.1 h.2

/-- The inversion of a command. -/
theorem ledgerExec_change (op : LedgerOp) :
    Change config inp l (ledgerExec config op inp l).2 op (ledgerExec config op inp l).1 := by
  cases op with
  | clock => exact idle_change (by rintro _ ⟨⟩) ⟨rfl, rfl⟩
  | audit => exact idle_change (by rintro _ ⟨⟩) (attempt_rows (by rintro _ _ ⟨⟩; exact ⟨rfl, rfl⟩))
  | getReservation requestId =>
    exact idle_change (by rintro _ ⟨⟩) (attempt_rows (by rintro _ _ ⟨⟩; exact ⟨rfl, rfl⟩))
  | lapsed now => exact idle_change (by rintro _ ⟨⟩) (attempt_rows (by rintro _ _ ⟨⟩; exact ⟨rfl, rfl⟩))
  | setHealth accountId row =>
    exact idle_change (by rintro _ ⟨⟩) (attempt_rows (by rintro _ _ ⟨⟩; exact ⟨rfl, rfl⟩))
  | setStop stop => exact idle_change (by rintro _ ⟨⟩) (attempt_rows (by rintro _ _ ⟨⟩; exact ⟨rfl, rfl⟩))
  | expire r now =>
    simp only [ledgerExec]
    rcases attempt_cases inp l (.ok (l.expire r.id now)) with
      ⟨hr, e, ha⟩ | ⟨e, hd, -⟩ | ⟨a, l', hd, ha, -⟩
    · rw [ha]
      exact .refused _ _ hr rfl
    · cases hd
    · rw [ha]
      simp only [Ledger.expire, Except.ok.injEq, Prod.mk.injEq] at hd
      obtain ⟨rfl, rfl⟩ := hd
      cases hw : l.reservations.any fun r' => r'.id = r.id && r'.lapsed now with
      | true => exact .expired r now rfl rfl
      | false =>
        refine .idle _ _ (by rintro _ ⟨⟩) ?_ rfl
        rw [List.any_eq_false] at hw
        exact (List.map_congr_left fun r' hr' => if_neg (hw r' hr')).trans (List.map_id _)
  | settle row =>
    simp only [ledgerExec]
    rcases attempt_cases inp l (.ok (l.settle row)) with
      ⟨hr, e, ha⟩ | ⟨e, hd, -⟩ | ⟨a, l', hd, ha, hr⟩
    · rw [ha]
      exact .refused _ _ hr rfl
    · cases hd
    · rw [ha]
      simp only [Ledger.settle, Except.ok.injEq] at hd
      split at hd <;> cases hd
      · exact .duplicate row ‹_› rfl
      · exact .settled row hr (by simpa using ‹¬l.hasUsage row.requestId = true›) rfl rfl
  | release requestId =>
    simp only [ledgerExec]
    rcases attempt_cases inp l (.ok ((), l.release requestId)) with
      ⟨hr, e, ha⟩ | ⟨e, hd, -⟩ | ⟨a, l', hd, ha, hr⟩
    · rw [ha]
      exact .refused _ _ hr rfl
    · cases hd
    · cases hd
      rw [ha]
      obtain ⟨p, hp, hres, huse⟩ := release_change l requestId
      exact .updated _ _ (by rintro _ ⟨⟩) p (fun r => { r with status := .released })
        (fun _ => rfl) hp (fun _ => le_rfl) (fun _ => .inr rfl) hres huse
  | renewLease requestId until' =>
    simp only [ledgerExec]
    rcases attempt_cases inp l (.ok ((), l.renewLease requestId until')) with
      ⟨hr, e, ha⟩ | ⟨e, hd, -⟩ | ⟨a, l', hd, ha, hr⟩
    · rw [ha]
      exact .refused _ _ hr rfl
    · cases hd
    · cases hd
      rw [ha]
      refine .updated _ _ (by rintro _ ⟨⟩) (fun r => r.requestId = requestId && r.status = .active)
        (fun r => { r with leaseExpiresAt := max r.leaseExpiresAt until' })
        (fun _ => rfl) (fun _ r _ hp => ?_) (fun r => le_max_left _ _) (fun _ => .inl rfl) rfl rfl
      simp only [Bool.and_eq_true, decide_eq_true_eq] at hp
      exact hp.2
  | evaluate req account =>
    simp only [ledgerExec]
    rcases attempt_cases inp l (evaluate config req account inp.now l inp.uuid) with
      ⟨hr, e, ha⟩ | ⟨e, hd, ha⟩ | ⟨d, l', hd, ha, -⟩
    · rw [ha]
      exact .refused _ _ hr rfl
    · rw [ha]
      exact .idle _ _ (by rintro _ ⟨⟩) rfl rfl
    · rw [ha]
      rcases evaluate_ok hd with ⟨-, rfl⟩ | ⟨-, mode, reasons, -, hr⟩
      · exact .idle _ _ (by rintro _ ⟨⟩) rfl rfl
      · rcases reserveAndAdmit_ok hr with ⟨-, rfl⟩ | ⟨hadm, hreq, hid, hnew, rfl⟩
        · exact .idle _ _ (by rintro _ ⟨⟩) rfl rfl
        · exact .inserted req account d hadm hreq hid hnew rfl rfl

/-- What an admission found and did. -/
theorem evaluate_admits {account : AccountConfig}
    (h : ledgerExec config (.evaluate req account) inp l = (.ok d, l')) (hd : d.outcome = .admitted) :
    account.enabled ≠ some false ∧ d.requestId = req.requestId ∧
      (∀ r ∈ l.reservations, r.requestId ≠ req.requestId) ∧
      (config.policy.enforce = true →
        ∃ mode reasons, Passed config req account inp.now l mode reasons) ∧
      l' = { l with reservations :=
        l.reservations ++ [reservationOf config req account inp.now inp.uuid] } := by
  simp only [ledgerExec] at h
  rcases attempt_cases inp l (evaluate config req account inp.now l inp.uuid) with
    ⟨-, e, ha⟩ | ⟨e, -, ha⟩ | ⟨d', l'', hok, ha, -⟩
  · rw [ha] at h
    cases h
  · rw [ha] at h
    cases h
  · rw [ha] at h
    cases h
    rcases evaluate_ok hok with ⟨hn, -⟩ | ⟨henabled, mode, reasons, hpassed, hr⟩
    · exact absurd hd hn
    · rcases reserveAndAdmit_ok hr with ⟨hn, -⟩ | ⟨-, hreq, -, hnew, rfl⟩
      · exact absurd hd hn
      · exact ⟨henabled, hreq, hnew, fun he => ⟨mode, reasons, hpassed he⟩, rfl⟩

end Exec

variable {r : ReservationRow}

section Soundness

variable {config : ResourceConfig} {inp : LedgerInput} {l l' : Ledger} {op : LedgerOp}
  {res : LedgerRes op}

theorem Change.later (h : Change config inp l l' op res) : Later l l' := by
  cases h with
  | refused _ _ _ same => exact same ▸ Later.refl l
  | idle _ _ _ reservations _ => exact .of_cores (by rw [reservations])
  | duplicate _ _ same => exact same ▸ Later.refl l
  | inserted req account _ _ _ _ _ reservations _ =>
    exact fun r hr => ⟨r, by rw [reservations]; exact List.mem_append_left _ hr, rfl⟩
  | updated _ _ _ p f core _ _ _ reservations _ =>
    exact .of_cores (by rw [reservations, Ledger.updateWhere_cores l p core])
  | expired _ _ reservations _ =>
    exact .of_cores (by rw [reservations]; exact Ledger.updateWhere_cores l _ fun _ => rfl)
  | settled _ _ _ reservations _ =>
    exact .of_cores (by rw [reservations]; exact Ledger.updateWhere_cores l _ fun _ => rfl)

/-- Rows that differ in status and lease only have the same keys. -/
theorem Sound.keys {f : ReservationRow → String} (hf : ∀ r, f r = f r.core)
    (h : l'.reservations.map ReservationRow.core = l.reservations.map ReservationRow.core) :
    l'.reservations.map f = l.reservations.map f := by
  have hcore : ∀ rows : List ReservationRow,
      rows.map f = (rows.map ReservationRow.core).map f := by
    intro rows
    rw [List.map_map]
    exact List.map_congr_left fun r _ => hf r
  rw [hcore, h, ← hcore]

/-- No usage row is new, and no reservation becomes active or settled. -/
theorem Sound.of_cores (hs : Sound l)
    (hcores : l'.reservations.map ReservationRow.core = l.reservations.map ReservationRow.core)
    (husage : l'.usage = l.usage)
    (hstatus : ∀ r' ∈ l'.reservations, r'.status = .active ∨ r'.status = .settled →
      ∃ r ∈ l.reservations, r.requestId = r'.requestId ∧ r.status = r'.status) : Sound l' where
  ids := by
    rw [Sound.keys (fun _ => rfl) hcores]
    exact hs.ids
  requests := by
    rw [Sound.keys (fun _ => rfl) hcores]
    exact hs.requests
  once := husage ▸ hs.once
  owned := by
    intro row hrow
    rw [husage] at hrow
    obtain ⟨r, hr, ho⟩ := hs.owned row hrow
    obtain ⟨r', hr', hc⟩ := Later.of_cores hcores r hr
    exact ⟨r', hr', ho.of_core hc⟩
  unused := by
    intro r' hr' ha
    obtain ⟨r, hr, hid, hst⟩ := hstatus r' hr' (.inl ha)
    have := hs.unused r hr (hst.trans ha)
    simpa [Ledger.hasUsage, husage, hid] using this
  spent := by
    intro r' hr' ha
    obtain ⟨r, hr, hid, hst⟩ := hstatus r' hr' (.inr ha)
    have := hs.spent r hr (hst.trans ha)
    simpa [Ledger.hasUsage, husage, hid] using this

theorem Sound.insert (hs : Sound l) (active : r.status = .active)
    (newId : ∀ r' ∈ l.reservations, r'.id ≠ r.id)
    (newRequest : ∀ r' ∈ l.reservations, r'.requestId ≠ r.requestId)
    (reservations : l'.reservations = l.reservations ++ [r]) (usage : l'.usage = l.usage) :
    Sound l' where
  ids := by
    rw [reservations, List.map_append, List.nodup_append]
    refine ⟨hs.ids, by simp, ?_⟩
    rintro _ ha _ hb rfl
    obtain ⟨r', hr', hid⟩ := List.mem_map.mp ha
    simp only [List.map_cons, List.map_nil, List.mem_singleton] at hb
    exact newId r' hr' (hid.trans hb)
  requests := by
    rw [reservations, List.map_append, List.nodup_append]
    refine ⟨hs.requests, by simp, ?_⟩
    rintro _ ha _ hb rfl
    obtain ⟨r', hr', hid⟩ := List.mem_map.mp ha
    simp only [List.map_cons, List.map_nil, List.mem_singleton] at hb
    exact newRequest r' hr' (hid.trans hb)
  once := usage ▸ hs.once
  owned := by
    intro row hrow
    rw [usage] at hrow
    obtain ⟨r', hr', ho⟩ := hs.owned row hrow
    exact ⟨r', by rw [reservations]; exact List.mem_append_left _ hr', ho⟩
  unused := by
    intro r' hr' ha
    rw [reservations] at hr'
    rcases List.mem_append.mp hr' with hr' | hr'
    · simpa [Ledger.hasUsage, usage] using hs.unused r' hr' ha
    · -- a usage row of the new request would have a reservation already
      rw [List.mem_singleton] at hr'
      subst hr'
      simp only [Ledger.hasUsage, usage, List.any_eq_false, decide_eq_true_eq]
      intro row hrow hid
      obtain ⟨r'', hr'', ho⟩ := hs.owned row hrow
      exact newRequest r'' hr'' (ho.requestId.symm.trans hid)
  spent := by
    intro r' hr' ha
    rw [reservations] at hr'
    rcases List.mem_append.mp hr' with hr' | hr'
    · simpa [Ledger.hasUsage, usage] using hs.spent r' hr' ha
    · rw [List.mem_singleton] at hr'
      rw [hr', active] at ha
      cases ha

theorem Sound.settle {row : UsageRow} (hs : Sound l)
    (owner : ∃ r ∈ l.reservations, Owns r row) (unused : l.hasUsage row.requestId = false)
    (reservations : l'.reservations = (l.updateWhere
      (fun r => r.requestId = row.requestId && (r.status = .active || r.status = .expired))
      fun r => { r with status := .settled }).reservations)
    (usage : l'.usage = l.usage ++ [row]) : Sound l' := by
  have hcores : l'.reservations.map ReservationRow.core =
      l.reservations.map ReservationRow.core := by
    rw [reservations]
    exact Ledger.updateWhere_cores l _ fun _ => rfl
  have hused : ∀ requestId, l'.hasUsage requestId =
      (l.hasUsage requestId || decide (row.requestId = requestId)) := by
    intro requestId
    simp [Ledger.hasUsage, usage]
  refine ⟨?_, ?_, ?_, ?_, ?_, ?_⟩
  · rw [Sound.keys (fun _ => rfl) hcores]
    exact hs.ids
  · rw [Sound.keys (fun _ => rfl) hcores]
    exact hs.requests
  · rw [usage, List.map_append, List.nodup_append]
    refine ⟨hs.once, by simp, ?_⟩
    rintro _ ha _ hb rfl
    obtain ⟨row', hrow', hid⟩ := List.mem_map.mp ha
    simp only [List.map_cons, List.map_nil, List.mem_singleton] at hb
    simp only [Ledger.hasUsage, List.any_eq_false, decide_eq_true_eq] at unused
    exact unused row' hrow' (hid.trans hb)
  · intro row' hrow'
    rw [usage] at hrow'
    have hold : ∃ r ∈ l.reservations, Owns r row' := by
      rcases List.mem_append.mp hrow' with hrow' | hrow'
      · exact hs.owned row' hrow'
      · rw [List.mem_singleton] at hrow'
        exact hrow' ▸ owner
    obtain ⟨r, hr, ho⟩ := hold
    obtain ⟨r', hr', hc⟩ := Later.of_cores hcores r hr
    exact ⟨r', hr', ho.of_core hc⟩
  · intro r' hr' ha
    rw [reservations, Ledger.mem_updateWhere] at hr'
    obtain ⟨r, hr, rfl⟩ := hr'
    split at ha
    · cases ha
    · rename_i hp
      rw [if_neg hp]
      have hne : r.requestId ≠ row.requestId := fun he => hp (by simp [he, ha])
      rw [hused, hs.unused r hr ha, Bool.false_or]
      exact decide_eq_false (Ne.symm hne)
  · intro r' hr' ha
    rw [reservations, Ledger.mem_updateWhere] at hr'
    obtain ⟨r, hr, rfl⟩ := hr'
    split
    · rename_i hp
      simp only [Bool.and_eq_true, decide_eq_true_eq] at hp
      simp [hused, hp.1]
    · rename_i hp
      rw [if_neg hp] at ha
      rw [hused, hs.spent r hr ha, Bool.true_or]

/-- The only usage rows recorded are those of reservations. -/
theorem Sound.change (hs : Sound l) (h : Change config inp l l' op res)
    (owner : ∀ row, op = .settle row → ∃ r ∈ l.reservations, Owns r row) : Sound l' := by
  cases h with
  | refused _ _ _ same => exact same ▸ hs
  | duplicate _ _ same => exact same ▸ hs
  | idle _ _ _ reservations usage =>
    exact hs.of_cores (by rw [reservations]) usage
      fun r' hr' _ => ⟨r', reservations ▸ hr', rfl, rfl⟩
  | inserted req account _ _ _ newId newRequest reservations usage =>
    exact hs.insert rfl newId newRequest reservations usage
  | updated _ _ _ p f core _ _ status reservations usage =>
    refine hs.of_cores (by rw [reservations, Ledger.updateWhere_cores l p core]) usage
      fun r' hr' ha => ?_
    rw [reservations, Ledger.mem_updateWhere] at hr'
    obtain ⟨r, hr, rfl⟩ := hr'
    refine ⟨r, hr, (ReservationRow.core_requestId (Ledger.core_of_update core r)).symm, ?_⟩
    split at ha
    · rename_i hp
      rcases status r with hst | hst
      · rw [if_pos hp, hst]
      · rw [hst] at ha
        simp at ha
    · rename_i hp
      rw [if_neg hp]
  | expired r₀ now reservations usage =>
    refine hs.of_cores (by rw [reservations]; exact Ledger.updateWhere_cores l _ fun _ => rfl) usage
      fun r' hr' ha => ?_
    rw [reservations, Ledger.mem_updateWhere] at hr'
    obtain ⟨r, hr, rfl⟩ := hr'
    split at ha
    · simp at ha
    · rename_i hp
      exact ⟨r, hr, by rw [if_neg hp], by rw [if_neg hp]⟩
  | settled row _ unused reservations usage =>
    exact hs.settle (owner row rfl) unused reservations usage

end Soundness

/-! Procedures record usage of reservations only, and charge what they expire. -/

/-- A row that was read from the tables. -/
def Known (l : Ledger) (r : ReservationRow) : Prop := ∃ r' ∈ l.reservations, r'.core = r.core

theorem Known.later (h : Known l r) (hl : Later l l') :
    Known l' r := by
  obtain ⟨r₁, hr₁, hc₁⟩ := h
  obtain ⟨r₂, hr₂, hc₂⟩ := hl r₁ hr₁
  exact ⟨r₂, hr₂, hc₂.trans hc₁⟩

theorem Known.owns {row : UsageRow} (h : Known l r) (ho : Owns r row) :
    ∃ r' ∈ l.reservations, Owns r' row := by
  obtain ⟨r', hr', hc⟩ := h
  exact ⟨r', hr', ho.of_core hc⟩

def Fits {α : Type} (l : Ledger) : (op : LedgerOp) → (LedgerRes op → LedgerProg α) → Prop
  | .settle row, _ => ∃ r ∈ l.reservations, Owns r row
  | .expire r now, next => Known l r ∧
      ∃ rest, next (.ok true) = .call (.settle (conservativeCharge r now)) rest
  | _, _ => True

/-- Whatever happens before each command, the command fits; `Q` holds in the end. -/
def Follows {α : Type} (config : ResourceConfig) (Q : α → Ledger → Prop) :
    LedgerProg α → Ledger → Prop
  | .ret a, l => Q a l
  | .raise _, _ => True
  | .call op next, l => ∀ l', Later l l' → Fits l' op next ∧
      ∀ inp, Follows config Q (next (ledgerExec config op inp l').1) (ledgerExec config op inp l').2

namespace Follows

variable {config : ResourceConfig} {α β : Type} {Q : α → Ledger → Prop} {R : β → Ledger → Prop}

theorem bind {p : LedgerProg α} {f : α → LedgerProg β} (hp : Follows config Q p l)
    (hf : ∀ a l', Q a l' → Follows config R (f a) l') : Follows config R (p.bind f) l := by
  induction p generalizing l with
  | ret a => exact hf a l hp
  | raise e => trivial
  | call op next ih =>
    intro l' hl
    obtain ⟨hfit, hnext⟩ := hp l' hl
    refine ⟨?_, fun inp => ih _ (hnext inp)⟩
    cases op with
    | expire r now =>
      obtain ⟨hk, rest, hrest⟩ := hfit
      refine ⟨hk, fun res => (rest res).bind f, ?_⟩
      rw [← Prog.bind_call, ← hrest]
    | settle row => exact hfit
    | _ => trivial

theorem later {next : LedgerRes op → LedgerProg α} (h : Follows config Q (.call op next) l)
    (hl : Later l l') :
    Follows config Q (.call op next) l' :=
  fun l'' hl' => h l'' (hl.trans hl')

theorem after {p : LedgerProg α} (h : Follows config (fun _ _ => True) p l) (hl : Later l l') :
    Follows config (fun _ _ => True) p l' := by
  cases p with
  | ret a => trivial
  | raise e => trivial
  | call op next => exact h.later hl

theorem resume {x : Except String α} (h : ∀ a, x = .ok a → Q a l) :
    Follows config Q (.resume x) l := by
  cases x with
  | ok a => exact h a rfl
  | error e => trivial

/-- A result, and what follows when it is no exception. -/
theorem resumeBind {x : Except String α} {f : α → LedgerProg β}
    (h : ∀ a, x = .ok a → Follows config R (f a) l) :
    Follows config R ((Prog.resume x).bind f) l := by
  cases x with
  | ok a => exact h a rfl
  | error e => trivial

end Follows

variable {inp : LedgerInput}

section Procedures

variable {config : ResourceConfig} {l : Ledger}

theorem ledgerExec_later (op : LedgerOp) (inp : LedgerInput) :
    Later l (ledgerExec config op inp l).2 :=
  (ledgerExec_change op).later

theorem Known.exec (h : Known l r) (op : LedgerOp) (inp : LedgerInput) :
    Known (ledgerExec config op inp l).2 r :=
  h.later (ledgerExec_later op inp)

theorem conservativeCharge_owned (r : ReservationRow) (now : ℤ) :
    Owns r (conservativeCharge r now) := ⟨rfl, rfl, rfl, rfl⟩

theorem recoverRows_follows (now : ℤ) (rows : List ReservationRow)
    (h : ∀ r ∈ rows, Known l r) :
    Follows config (fun _ _ => True) (recoverRows now rows) l := by
  induction rows generalizing l with
  | nil => trivial
  | cons r rest ih =>
    have hrest : ∀ r' ∈ rest, Known l r' := fun r' hr' => h r' (List.mem_cons_of_mem _ hr')
    intro l₁ hl₁
    refine ⟨⟨(h r List.mem_cons_self).later hl₁, _, rfl⟩, fun inp₁ => .resumeBind fun won _ => ?_⟩
    have hl₁' : Later l₁ (ledgerExec config (.expire r now) inp₁ l₁).2 := ledgerExec_later _ inp₁
    split
    · intro l₂ hl₂
      have hto := hl₁.trans (hl₁'.trans hl₂)
      refine ⟨((h r List.mem_cons_self).later hto).owns (conservativeCharge_owned r now),
        fun inp₂ => .resumeBind fun charged _ => .bind (ih fun r' hr' => ?_) fun _ _ _ => trivial⟩
      exact ((hrest r' hr').later hto).exec _ _
    · exact ih fun r' hr' => ((hrest r' hr').later hl₁).exec _ _

/-- A statement that only reads gives what the tables hold. -/
theorem attempt_read {α : Type} {x a : α} (h : (attempt inp l (.ok (x, l))).1 = .ok a) :
    a = x ∧ (attempt inp l (.ok (x, l))).2 = l := by
  unfold attempt at h ⊢
  cases hr : inp.refused with
  | some e => simp [hr] at h
  | none => simpa [hr, eq_comm] using h

theorem lapsed_known {now : ℤ} {rows : List ReservationRow}
    (h : (ledgerExec config (.lapsed now) inp l).1 = .ok rows) :
    ∀ r ∈ rows, Known (ledgerExec config (.lapsed now) inp l).2 r := by
  intro r hr
  obtain ⟨rfl, hl⟩ := attempt_read h
  exact ⟨r, hl.symm ▸ (List.mem_filter.mp hr).1, rfl⟩

theorem getReservation_known
    (h : (ledgerExec config (.getReservation requestId) inp l).1 = .ok (some r)) :
    Known (ledgerExec config (.getReservation requestId) inp l).2 r := by
  obtain ⟨hr, hl⟩ := attempt_read h
  exact ⟨r, hl.symm ▸ List.mem_of_find?_eq_some hr.symm, rfl⟩

theorem recoverExpired_follows (now : ℤ) :
    Follows config (fun _ _ => True) (recoverExpired now) l := by
  intro l' hl
  refine ⟨trivial, fun inp => .resumeBind fun rows hrows => ?_⟩
  exact recoverRows_follows now rows (lapsed_known hrows)

theorem admitRequest_follows (req : AdmissionRequest) :
    Follows config (fun _ _ => True) (admitRequest config req) l := by
  unfold admitRequest
  split
  · trivial
  intro l₁ hl₁
  refine ⟨trivial, fun inp₁ => (recoverExpired_follows _).bind fun _ l₂ _ => ?_⟩
  intro l₃ hl₃
  refine ⟨trivial, fun inp₃ => .resumeBind fun decision _ => ?_⟩
  intro l₄ hl₄
  exact ⟨trivial, fun inp₄ => .resumeBind fun _ _ => trivial⟩

theorem usageOf_owned (r : ReservationRow) (usage : UsageMeasurement) (agent : Option String)
    (durationMs : Option ℤ) (now : ℤ) : Owns r (usageOf config r usage agent durationMs now) :=
  ⟨rfl, rfl, rfl, rfl⟩

theorem reconcile_follows (requestId : String) (usage : UsageMeasurement) (agent : Option String)
    (durationMs : Option ℤ) :
    Follows config (fun _ _ => True) (reconcile config requestId usage agent durationMs) l := by
  intro l₁ hl₁
  refine ⟨trivial, fun inp₁ => .resumeBind fun r hr => ?_⟩
  cases r with
  | none => trivial
  | some r =>
    have hk := getReservation_known hr
    intro l₂ hl₂
    refine ⟨trivial, fun inp₂ => ?_⟩
    intro l₃ hl₃
    refine ⟨((hk.later hl₂).exec .clock inp₂ |>.later hl₃).owns (usageOf_owned r ..),
      fun inp₃ => .resume fun _ _ => trivial⟩

theorem fail_follows (requestId : String) (report : FailureReport) :
    Follows config (fun _ _ => True) (fail config requestId report) l := by
  have finish : ∀ (r : ReservationRow) (l : Ledger), Follows config (fun _ _ => True)
      (do
        (.call .audit .resume : LedgerProg Unit)
        if report.ambiguous then
          (.call .audit .resume : LedgerProg Unit)
          let _ ← reconcile config requestId (ambiguousUsage r report) none none
          return
        else .call (.release requestId) .resume) l := by
    intro r l l₁ hl₁
    refine ⟨trivial, fun inp₁ => .resumeBind fun _ _ => ?_⟩
    split
    · intro l₂ hl₂
      exact ⟨trivial, fun inp₂ => .resumeBind fun _ _ =>
        Follows.bind (reconcile_follows _ _ _ _) fun _ _ _ => trivial⟩
    · intro l₂ hl₂
      exact ⟨trivial, fun inp₂ => .resume fun _ _ => trivial⟩
  intro l₁ hl₁
  refine ⟨trivial, fun inp₁ => .resumeBind fun r hr => ?_⟩
  cases r with
  | none => trivial
  | some r =>
    intro l₂ hl₂
    refine ⟨trivial, fun inp₂ => .resumeBind fun health _ => ?_⟩
    cases health with
    | none => exact finish r _
    | some row =>
      intro l₃ hl₃
      refine ⟨trivial, fun inp₃ => .resumeBind fun _ _ => ?_⟩
      intro l₄ hl₄
      exact ⟨trivial, fun inp₄ => .resumeBind fun _ _ => finish r _⟩

/-- One statement on its own. -/
theorem statement_follows {f : LedgerRes op → LedgerProg (Option AdmissionDecision)}
    (hfit : ∀ l', Fits l' op f) (hf : ∀ res l', Follows config (fun _ _ => True) (f res) l') :
    Follows config (fun _ _ => True) (.call op f) l :=
  fun l' _ => ⟨hfit l', fun _ => hf _ _⟩

theorem body_follows (c : LedgerRequest) :
    Follows config (fun _ _ => True) (c.body config) l := by
  unfold LedgerRequest.body
  cases c.call with
  | admitRequest req => exact (admitRequest_follows req).bind fun _ _ _ => trivial
  | reconcile requestId usage agent durationMs =>
    exact Follows.bind (reconcile_follows _ _ _ _) fun _ _ _ => trivial
  | fail requestId report => exact Follows.bind (fail_follows _ _) fun _ _ _ => trivial
  | release requestId =>
    exact statement_follows (fun _ => trivial) fun _ _ => .resumeBind fun _ _ => trivial
  | renewLease requestId until' =>
    exact statement_follows (fun _ => trivial) fun _ _ => .resumeBind fun _ _ => trivial
  | recoverExpired now =>
    cases now with
    | some now => exact (recoverExpired_follows now).bind fun _ _ _ => trivial
    | none =>
      exact statement_follows (fun _ => trivial) fun _ _ =>
        (recoverExpired_follows _).bind fun _ _ _ => trivial
  | setHealth accountId row =>
    exact statement_follows (fun _ => trivial) fun _ _ => .resumeBind fun _ _ => trivial
  | setStop stop =>
    exact statement_follows (fun _ => trivial) fun _ _ => .resumeBind fun _ _ => trivial

end Procedures

/-! Runs. -/

/-- The tables are sound, and every procedure goes on from them as it should. -/
structure Bookkept (config : ResourceConfig) (cfg : LedgerConfig) : Prop where
  sound : Sound cfg.hist.shared
  follows : ∀ (i : ℕ) (t : LedgerThread), cfg.threads[i]? = some t → ∀ p, t.rest = some p →
    Follows config (fun _ _ => True) p cfg.hist.shared

namespace Bookkept

variable {config : ResourceConfig} {cfg cfg' : LedgerConfig}

theorem start : Bookkept config (Config.start emptyLedger) where
  sound := by constructor <;> simp [Config.start, emptyLedger]
  follows i t ht := by simp [Config.start] at ht

/-- The command that a thread takes next fits the tables. -/
theorem fits (h : Bookkept config cfg) {i : ℕ} {c : LedgerRequest}
    {next : LedgerRes op → LedgerProg (Option AdmissionDecision)}
    (waiting : cfg.threads[i]? = some ⟨c, some (.call op next)⟩) : Fits cfg.hist.shared op next :=
  (h.follows i _ waiting _ rfl cfg.hist.shared (.refl _)).1

theorem step (h : Bookkept config cfg) (hs : Step (ledgerSystem config) cfg cfg') :
    Bookkept config cfg' := by
  cases hs with
  | begin c s alive adm =>
    cases adm
    refine ⟨h.sound, fun i t ht p hp => ?_⟩
    rcases Nat.lt_or_ge i cfg.threads.length with hi | hi
    · rw [List.getElem?_append_left hi] at ht
      exact h.follows i t ht p hp
    · rw [List.getElem?_append_right hi] at ht
      obtain rfl := List.mem_singleton.mp (List.mem_of_getElem? ht)
      cases hp
      exact body_follows c
  | run i c op next inp r s hw hx =>
    have hexec : ledgerExec config op inp cfg.hist.shared = (r, s) := Option.some.inj hx
    obtain ⟨hfit, hnext⟩ := h.follows i _ hw _ rfl cfg.hist.shared (.refl _)
    have hchange : Change config inp cfg.hist.shared (ledgerExec config op inp cfg.hist.shared).2
        op (ledgerExec config op inp cfg.hist.shared).1 := ledgerExec_change op
    have hrest := hnext inp
    rw [hexec] at hchange hrest
    have hsound : Sound s := by
      refine h.sound.change hchange fun row hop => ?_
      subst hop
      exact hfit
    refine ⟨hsound, fun j t ht p hp => ?_⟩
    by_cases hij : i = j
    · subst hij
      rw [List.getElem?_set_self (List.getElem?_eq_some_iff.mp hw).1] at ht
      cases ht
      cases hp
      exact hrest
    · rw [List.getElem?_set_ne hij] at ht
      exact (h.follows j t ht p hp).after hchange.later
  | crash p =>
    refine ⟨h.sound, fun i t ht q hq => ?_⟩
    rw [List.getElem?_map] at ht
    obtain ⟨t₀, ht₀, rfl⟩ := Option.map_eq_some_iff.mp ht
    unfold Thread.kill at hq
    split at hq
    · cases hq
    · exact h.follows i t₀ ht₀ q hq

theorem reach (hr : Reach (ledgerSystem config) emptyLedger cfg) : Bookkept config cfg := by
  induction hr with
  | start => exact start
  | step _ hs ih => exact ih.step hs

end Bookkept

end Wazir.Resources
