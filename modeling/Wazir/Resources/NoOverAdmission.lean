import Wazir.Async.RelyGuarantee
import Wazir.Resources.Totals

/-! No over-admission. An admission recovers the leases that ended by one clock reading and checks
by a later one: a lease that ends in between counts neither as reserved nor as used, and neither
does an expired request whose charge is still to come. Where there is none of either, what was
admitted on an account's scope stays within every limit. -/

namespace Wazir.Resources

open Wazir.Async

/-- What holds of the ledger `l` that an admission at `now` leaves. -/
structure WithinLimits (config : ResourceConfig) (req : AdmissionRequest) (account : AccountConfig)
    (now : ℤ) (l : Ledger) : Prop where
  limits : ∀ spec ∈ effectiveLimits account, spec.hard ≠ some false → ∀ n, spec.limit = some n →
    ∃ b, windowBounds spec.window now = .ok b ∧
      l.committed (·.accountId ∈ config.scope account) (·.within b.start b.endsAt) spec.unit ≤ n
  concurrency : ∀ max, account.maxConcurrent = some max → max ≠ 0 →
    (l.reservations.filter fun r =>
      r.accountId ∈ config.scope account && r.status = .active).length ≤ max
  task : ∀ task, req.taskId = some task → task ≠ "" → 0 < config.policy.maxTaskTokens →
    l.committed (·.taskId = some task) (fun _ => true) .tokens ≤ config.policy.maxTaskTokens
  /-- A ceiling of 0 is none; a request that costs nothing is not held to one. -/
  spend : isPaid account = true → 0 < estCost req account → ∀ limitUsd window,
    (limitUsd, window) ∈
      [(config.policy.dailySpendUsd, "day"), (config.policy.monthlySpendUsd, "month")] →
    0 < limitUsd → ∃ b, windowBounds window now = .ok b ∧
      l.committed (!·.isLocal) (·.within b.start none) .costUsd ≤ limitUsd
  /-- Each earlier request counted as reserved or as used, unless it was released. -/
  either : ∀ r ∈ l.reservations, r.requestId ≠ req.requestId → r.status ≠ .released →
    r.live now = true ∨ l.hasUsage r.requestId = true

variable {reasons : List AdmissionReason}

section Checks

variable {config : ResourceConfig} {req : AdmissionRequest} {account : AccountConfig} {now : ℤ}
  {l : Ledger}

theorem effectiveLimits_pos (h : validAccount account = true) {spec : LimitSpec}
    (hspec : spec ∈ effectiveLimits account) {n : ℚ} (hn : spec.limit = some n) : 0 < n := by
  simp only [validAccount, Bool.and_eq_true, List.all_eq_true] at h
  obtain ⟨⟨hlimits, hrpm⟩, htpm⟩ := h
  have minute : ∀ {unit : LimitUnit} {rate : Option ℚ}, rate.all (0 ≤ ·) = true →
      spec ∈ perMinute unit rate → 0 < n := by
    intro unit rate hrate hmem
    cases rate with
    | none => cases hmem
    | some m =>
      simp only [perMinute] at hmem
      split_ifs at hmem with hm
      · cases hmem
      · rw [List.mem_singleton] at hmem
        subst hmem
        cases hn
        exact lt_of_le_of_ne (by simpa using hrate) (Ne.symm hm)
  simp only [effectiveLimits, List.mem_append] at hspec
  rcases hspec with (hspec | hspec) | hspec
  · have := hlimits spec hspec
    simp only [checkLimit, hn, Option.all_some, Bool.and_eq_true, decide_eq_true_eq] at this
    exact this.2
  · exact minute hrpm hspec
  · exact minute htpm hspec

theorem checkLimits_passed {limits : List LimitSpec} {mode : BudgetMode}
    {res : BudgetMode × List AdmissionReason}
    (h : checkLimits config req account now l limits mode reasons = .ok res) :
    ∀ limit ∈ limits, ∃ s, limitStatus config account limit
      (unitsOf limit.unit req (estCost req account)) now l = .ok s ∧ s.mode ≠ .exhausted := by
  induction limits generalizing mode reasons with
  | nil =>
    intro limit hlimit
    cases hlimit
  | cons limit rest ih =>
    simp only [checkLimits] at h
    split at h
    · cases h
    · rename_i s hs
      split at h
      · split at h <;> cases h
      · rename_i hmode
        intro limit' hlimit'
        rcases List.mem_cons.mp hlimit' with rfl | hrest
        · exact ⟨s, hs, hmode⟩
        · exact ih h limit' hrest

theorem le_of_not_overLimit {total n : ℚ} (hn : 0 < n) (h : overLimit total n = false) :
    total ≤ n := by
  simp only [overLimit, hn.ne', if_false, decide_eq_false_iff_not, not_lt] at h
  rwa [div_le_one hn] at h

/-- A hard limit that the check did not find exhausted. -/
theorem limit_kept {limit : LimitSpec} {adding : ℚ} {s : LimitStatus}
    (hs : limitStatus config account limit adding now l = .ok s) (hmode : s.mode ≠ .exhausted)
    (hhard : limit.hard ≠ some false) {n : ℚ} (hn : limit.limit = some n) (hpos : 0 < n) :
    ∃ b, windowBounds limit.window now = .ok b ∧
      l.usedSince (config.scope account) limit.unit b.start b.endsAt +
        l.reservedNow (config.scope account) limit.unit now + adding ≤ n := by
  simp only [limitStatus, hn] at hs
  obtain ⟨b, hb, rfl⟩ := except_map_eq_ok.mp hs
  refine ⟨b, hb, le_of_not_overLimit hpos ?_⟩
  by_contra hover
  rw [Bool.not_eq_false] at hover
  simp [limitMode, hover, hhard] at hmode

/-- The reservation of a request asks for what the request was checked for. -/
theorem reservationOf_units (uuid : String) (unit : LimitUnit) :
    (reservationOf config req account now uuid).units unit =
      unitsOf unit req (estCost req account) := by
  cases unit <;> rfl

theorem mem_scope (hmem : account ∈ config.accounts) (henabled : account.enabled ≠ some false) :
    account.id ∈ config.scope account := by
  unfold ResourceConfig.scope
  split
  · exact List.mem_singleton_self _
  · rename_i group hgroup
    split_ifs
    · exact List.mem_singleton_self _
    · exact List.mem_map.mpr ⟨account, List.mem_filter.mpr ⟨hmem, by simp [henabled, hgroup]⟩, rfl⟩

end Checks

section Within

variable {config : ResourceConfig} {req : AdmissionRequest} {account : AccountConfig} {now : ℤ}
  {l : Ledger}

theorem Settled.limits (hq : Settled l now) (hs : Sound l) (accounts : List String)
    (unit : LimitUnit) (since : ℤ) (until' : Option ℤ) :
    l.committed (·.accountId ∈ accounts) (·.within since until') unit =
      l.usedSince accounts unit since until' + l.reservedNow accounts unit now :=
  hq.committed hs _ (·.accountId ∈ accounts) (fun _ _ ho => by rw [ho.accountId]) _ _

theorem Settled.task (hq : Settled l now) (hs : Sound l) (task : String) :
    l.committed (·.taskId = some task) (fun _ => true) .tokens = l.taskTokens task now := by
  rw [hq.committed hs _ (·.taskId = some task) (fun _ _ ho => by rw [ho.taskId])]
  simp only [Bool.and_true]
  rfl

theorem Settled.spend (hq : Settled l now) (hs : Sound l) (since : ℤ) :
    l.committed (!·.isLocal) (·.within since none) .costUsd =
      l.spendSince since + l.reservedSpendNow now := by
  have husage : (fun row : UsageRow => !row.isLocal && row.within since none) =
      fun row => since ≤ row.time && !row.isLocal := by
    funext row
    simp [UsageRow.within, Bool.and_comm]
  have hreserved : (fun r : ReservationRow => !r.isLocal && r.live now) =
      fun r => r.live now && !r.isLocal := funext fun r => Bool.and_comm _ _
  rw [hq.committed hs _ (!·.isLocal) (fun _ _ ho => by rw [ho.isLocal]), husage, hreserved]
  rfl

/-- The reservations in flight are the active ones. -/
theorem Settled.inFlight (hq : Settled l now) (accounts : List String) :
    (l.reservations.filter fun r => r.accountId ∈ accounts && r.status = .active).length =
      l.inFlight accounts now := by
  refine congrArg List.length (List.filter_congr fun r hr => ?_)
  by_cases ha : r.status = .active
  · simp [ReservationRow.live, ha, hq.live r hr ha]
  · simp [ReservationRow.live, ha]

theorem spend_kept {limitUsd : ℚ} {window : String}
    (h : checkSpend req account now l limitUsd window reasons = .ok none) (hpos : 0 < limitUsd) :
    ∃ b, windowBounds window now = .ok b ∧
      l.spendSince b.start + l.reservedSpendNow now + estCost req account ≤ limitUsd := by
  simp only [checkSpend, hpos, if_true] at h
  obtain ⟨b, hb, hnone⟩ := except_map_eq_ok.mp h
  refine ⟨b, hb, ?_⟩
  split_ifs at hnone with hover
  exact not_lt.mp hover

theorem orElse_none {b c : Except String (Option AdmissionDecision)}
    (h : orElse b c = .ok none) : b = .ok none ∧ c = .ok none := by
  unfold orElse at h
  split at h
  · exact ⟨rfl, h⟩
  · rename_i hb
    exact absurd h hb

/-- An admission whose sums leave nothing out keeps within the limits. -/
theorem Passed.within {mode : BudgetMode} (h : Passed config req account now l mode reasons)
    (hs : Sound l) (hq : Settled l now) (hmem : account ∈ config.accounts)
    (henabled : account.enabled ≠ some false)
    (hnew : ∀ r ∈ l.reservations, r.requestId ≠ req.requestId) (uuid : String) :
    WithinLimits config req account now
      { l with reservations := l.reservations ++ [reservationOf config req account now uuid] } := by
  have hinsert := fun p window unit => hs.committed_insert
    (r := reservationOf config req account now uuid) rfl hnew p window unit
  refine ⟨?_, ?_, ?_, ?_, ?_⟩
  · intro spec hspec hhard n hn
    obtain ⟨s, hst, hmode⟩ := checkLimits_passed h.limits spec hspec
    obtain ⟨b, hb, hle⟩ := limit_kept hst hmode hhard hn
      (effectiveLimits_pos (config.valid account hmem) hspec hn)
    refine ⟨b, hb, ?_⟩
    have hin : decide ((reservationOf config req account now uuid).accountId ∈
        config.scope account) = true := decide_eq_true (mem_scope hmem henabled)
    rw [hinsert, hq.limits hs, hin, if_pos rfl, reservationOf_units]
    exact hle
  · intro max hmax hne
    have hcheck := h.concurrency
    simp only [checkConcurrency, hmax] at hcheck
    split_ifs at hcheck with hfull
    rw [List.filter_append, List.length_append, hq.inFlight]
    have hone : ∀ q : ReservationRow → Bool, ∀ r, ([r].filter q).length ≤ 1 :=
      fun q r => List.length_filter_le q [r]
    have := hone (fun r => r.accountId ∈ config.scope account && r.status = .active)
      (reservationOf config req account now uuid)
    simp only [Bool.and_eq_true, decide_eq_true_eq, not_and, not_le] at hfull
    have := hfull hne
    omega
  · intro task htask hne hpos
    have hcheck := h.task
    simp only [checkTask, htask] at hcheck
    split_ifs at hcheck with hover
    simp only [hpos, hne, Bool.and_eq_true, decide_eq_true_eq, ne_eq, not_false_eq_true, true_and,
      not_lt] at hover
    have hin : decide ((reservationOf config req account now uuid).taskId = some task) = true :=
      decide_eq_true htask
    rw [hinsert, hq.task hs, hin, if_pos rfl, reservationOf_units]
    have : l.taskTokens task now + unitsOf .tokens req (estCost req account) =
      l.taskTokens task now + req.estimatedInputTokens + req.estimatedOutputTokens := by
      simp only [unitsOf]
      ring
    rw [this]
    exact hover
  · intro hpaid hcost limitUsd window hwindow hpos
    have hcheck := h.paid
    simp only [checkPaid, hpaid, hcost, decide_true, Bool.and_self, if_true] at hcheck
    obtain ⟨hday, hmonth⟩ := orElse_none hcheck
    have hkept : ∃ b, windowBounds window now = .ok b ∧
        l.spendSince b.start + l.reservedSpendNow now + estCost req account ≤ limitUsd := by
      simp only [List.mem_cons, Prod.mk.injEq, List.not_mem_nil, or_false] at hwindow
      rcases hwindow with ⟨rfl, rfl⟩ | ⟨rfl, rfl⟩
      · exact spend_kept hday hpos
      · exact spend_kept hmonth hpos
    obtain ⟨b, hb, hle⟩ := hkept
    refine ⟨b, hb, ?_⟩
    have hremote : (!(reservationOf config req account now uuid).isLocal) = true := by
      have hkind : account.kind = .api := by simpa [isPaid] using hpaid
      simp [reservationOf, hkind]
    rw [hinsert, hq.spend hs, hremote, if_pos rfl, reservationOf_units]
    exact hle
  · intro r hr hne hn
    rcases List.mem_append.mp hr with hold | hmine
    · rw [hq.either hs hold hn]
      cases hu : l.hasUsage r.requestId with
      | true => exact .inr hu
      | false => exact .inl rfl
    · rw [List.mem_singleton] at hmine
      exact absurd (by rw [hmine]; rfl) hne

end Within

/-! What the recovery before an admission leaves. -/

abbrev LedgerHist := Hist LedgerOp LedgerRes LedgerRequest ℕ LedgerInput Ledger
abbrev LedgerEntry := Entry LedgerOp LedgerRes LedgerRequest LedgerInput Ledger

/-- The clock reading that a command made. -/
def reading (e : LedgerEntry) : Option ℤ :=
  match e.op with
  | .clock => some e.input.now
  | .evaluate _ _ => some e.input.now
  | _ => none

def readings (h : LedgerHist) : List ℤ := h.entries.filterMap reading

def Nondecreasing (h : LedgerHist) : Prop := (readings h).Pairwise (· ≤ ·)

/-- The first clock reading of a call; an admission recovers by it. -/
def recoveredAt (h : LedgerHist) (i : ℕ) : Option ℤ := ((h.entriesOf i).filterMap reading).head?

/-- Of the active reservations only these have a lease that ended before `t`. -/
def LapsedOnly (l : Ledger) (t : ℤ) (ids : List String) : Prop :=
  ∀ r ∈ l.reservations, r.status = .active → r.leaseExpiresAt < t → r.id ∈ ids

/-- A checked request is of its account, and every lease that ended before the call's first clock
reading is recovered. -/
def Recovered (config : ResourceConfig) (h : LedgerHist) (e : LedgerEntry) : Prop :=
  ∀ req account, e.op = .evaluate req account → config.account req.accountId = some account ∧
    ∃ t, recoveredAt h e.thread = some t ∧ LapsedOnly e.before t []

def recovery (config : ResourceConfig) :
    Contract LedgerOp LedgerRes LedgerRequest ℕ LedgerInput Ledger where
  Ok := Nondecreasing
  Inv h := h.Always (Recovered config)
  Rely i _ h h' := h'.entriesOf i = h.entriesOf i ∧
    ∀ t ∈ readings h, t ∈ readings h' ∧
      ∀ ids, LapsedOnly h.shared t ids → LapsedOnly h'.shared t ids

section Recovery

variable {config : ResourceConfig} {i : ℕ} {c : LedgerRequest} {h h' : LedgerHist}
  {op : LedgerOp} {inp : LedgerInput} {r : LedgerRes op} {s : Ledger} {t : ℤ}

theorem LapsedOnly.change {l l' : Ledger} {ids : List String} (hl : LapsedOnly l t ids)
    (hc : Change config inp l l' op r) (hnow : ∀ req account, op = .evaluate req account →
      t ≤ inp.now) : LapsedOnly l' t ids := by
  intro r' hr' ha hlt
  cases hc with
  | refused _ _ _ same => exact hl r' (same ▸ hr') ha hlt
  | duplicate _ _ same => exact hl r' (same ▸ hr') ha hlt
  | idle _ _ _ reservations _ => exact hl r' (reservations ▸ hr') ha hlt
  | inserted req account _ _ _ _ _ reservations _ =>
    rw [reservations] at hr'
    rcases List.mem_append.mp hr' with hold | hnew
    · exact hl r' hold ha hlt
    · rw [List.mem_singleton] at hnew
      have hle := hnow req account rfl
      rw [hnew] at hlt
      simp only [reservationOf] at hlt
      omega
  | updated _ _ _ p f core _ lease status reservations _ =>
    rw [reservations, Ledger.mem_updateWhere] at hr'
    obtain ⟨r, hr, rfl⟩ := hr'
    rw [ReservationRow.core_id (Ledger.core_of_update core r)]
    split at ha <;> rename_i hp
    · rw [if_pos hp] at hlt
      rcases status r with hst | hst
      · exact hl r hr (hst.symm.trans ha) ((lease r).trans_lt hlt)
      · rw [hst] at ha
        cases ha
    · rw [if_neg hp] at hlt
      exact hl r hr ha hlt
  | expired _ _ reservations _ =>
    rw [reservations, Ledger.mem_updateWhere] at hr'
    obtain ⟨r, hr, rfl⟩ := hr'
    split at ha <;> rename_i hp
    · simp at ha
    · rw [if_neg hp] at hlt ⊢
      exact hl r hr ha hlt
  | settled _ _ _ reservations _ =>
    rw [reservations, Ledger.mem_updateWhere] at hr'
    obtain ⟨r, hr, rfl⟩ := hr'
    split at ha <;> rename_i hp
    · simp at ha
    · rw [if_neg hp] at hlt ⊢
      exact hl r hr ha hlt

theorem readings_ran : readings (h.ran i c op inp r s) =
    readings h ++ (reading ⟨i, c, op, inp, r, h.shared, s⟩).toList := by
  unfold readings Hist.ran
  rw [Hist.entries_push_ran, List.filterMap_append]
  cases hr : reading ⟨i, c, op, inp, r, h.shared, s⟩ <;> simp [List.filterMap, hr]

/-- Every reading is at least as late as those before. -/
theorem Nondecreasing.last (hok : Nondecreasing (h.ran i c op inp r s)) (ht : t ∈ readings h)
    {req : AdmissionRequest} {account : AccountConfig} (hop : op = .evaluate req account) :
    t ≤ inp.now := by
  unfold Nondecreasing at hok
  rw [readings_ran, List.pairwise_append] at hok
  refine hok.2.2 t ht inp.now ?_
  subst hop
  exact List.mem_singleton_self _

theorem exec_change (hx : (ledgerSystem config).exec op inp h.shared = some (r, s)) :
    Change config inp h.shared s op r := by
  have hexec : ledgerExec config op inp h.shared = (r, s) := Option.some.inj hx
  have hchange : Change config inp h.shared (ledgerExec config op inp h.shared).2
    op (ledgerExec config op inp h.shared).1 := ledgerExec_change op
  rwa [hexec] at hchange

/-- No command undoes what the other calls rely on. -/
theorem recovery_rely (hx : (ledgerSystem config).exec op inp h.shared = some (r, s))
    (hok : Nondecreasing (h.ran i c op inp r s)) :
    ∀ j d, j ≠ i → (recovery config).Rely j d h (h.ran i c op inp r s) := by
  intro j d hj
  refine ⟨?_, fun t ht => ⟨?_, fun ids hl => ?_⟩⟩
  · rw [Hist.ran, Hist.entriesOf_push_ran, if_neg (Ne.symm hj), List.append_nil]
  · rw [readings_ran]
    exact List.mem_append_left _ ht
  · exact hl.change (exec_change hx) fun _ _ hop => hok.last ht hop

theorem recovery_inv (hinv : (recovery config).Inv h)
    (hr : Recovered config h ⟨i, c, op, inp, r, h.shared, s⟩) :
    (recovery config).Inv (h.ran i c op inp r s) := by
  intro pre e post he
  rcases Hist.split_push he with ⟨post', he'⟩ | ⟨hev, hpre⟩
  · exact hinv pre e post' he'
  · cases hev
    subst hpre
    exact hr

/-- A command that checks nothing. -/
theorem recovery_quiet (hop : ∀ req account, op ≠ .evaluate req account)
    (hinv : (recovery config).Inv h)
    (hx : (ledgerSystem config).exec op inp h.shared = some (r, s))
    (hok : (recovery config).Ok (h.ran i c op inp r s)) :
    (recovery config).Inv (h.ran i c op inp r s) ∧
      ∀ j d, j ≠ i → (recovery config).Rely j d h (h.ran i c op inp r s) :=
  ⟨recovery_inv hinv fun req account he => absurd he (hop req account), recovery_rely hx hok⟩

/-- The call read `t` first, and only these leases that ended before it are left. -/
structure Recovering (t : ℤ) (ids : List String) (i : ℕ) (h : LedgerHist) : Prop where
  first : recoveredAt h i = some t
  read : t ∈ readings h
  lapsed : LapsedOnly h.shared t ids

theorem Recovering.rely {ids : List String} (hk : Recovering t ids i h)
    (hr : (recovery config).Rely i c h h') : Recovering t ids i h' := by
  obtain ⟨hentries, hlater⟩ := hr
  obtain ⟨hread, hlapsed⟩ := hlater t hk.read
  refine ⟨?_, hread, hlapsed ids hk.lapsed⟩
  rw [recoveredAt, hentries]
  exact hk.first

theorem recoveredAt_ran (hf : recoveredAt h i = some t) :
    recoveredAt (h.ran i c op inp r s) i = some t := by
  unfold recoveredAt at hf ⊢
  rw [Hist.ran, Hist.entriesOf_push_ran, if_pos rfl, List.filterMap_append, List.head?_append, hf]
  rfl

/-- The call's own commands keep it too. -/
theorem Recovering.own {ids : List String} (hk : Recovering t ids i h)
    (hop : ∀ req account, op ≠ .evaluate req account)
    (hx : (ledgerSystem config).exec op inp h.shared = some (r, s)) :
    Recovering t ids i (h.ran i c op inp r s) where
  first := recoveredAt_ran hk.first
  read := by
    rw [readings_ran]
    exact List.mem_append_left _ hk.read
  lapsed := hk.lapsed.change (exec_change hx) fun req account he => absurd he (hop req account)

/-- Whoever took it, the reservation has not lapsed any more. -/
theorem expire_spent {row : ReservationRow} {won : Bool} {l l' : Ledger}
    (hx : ledgerExec config (.expire row t) inp l = (.ok won, l')) :
    ∀ r ∈ l'.reservations, r.id = row.id → r.lapsed t = false := by
  simp only [ledgerExec] at hx
  rcases attempt_cases inp l (.ok (l.expire row.id t)) with
    ⟨-, e, ha⟩ | ⟨e, hd, -⟩ | ⟨a, l'', hd, ha, -⟩
  · rw [ha] at hx
    cases hx
  · cases hd
  · rw [ha] at hx
    cases hx
    simp only [Ledger.expire, Except.ok.injEq, Prod.mk.injEq] at hd
    intro r' hr' hid
    rw [← hd.2, Ledger.mem_updateWhere] at hr'
    obtain ⟨r, -, rfl⟩ := hr'
    split
    · simp [ReservationRow.lapsed]
    · rename_i hp
      rw [if_neg hp] at hid
      simpa [hid] using hp

theorem Recovering.expire {row : ReservationRow} {rest : List ReservationRow} {won : Bool}
    (hk : Recovering t ((row :: rest).map (·.id)) i h)
    (hx : (ledgerSystem config).exec (.expire row t) inp h.shared = some (.ok won, s)) :
    Recovering t (rest.map (·.id)) i (h.ran i c (.expire row t) inp (.ok won) s) := by
  have hown := hk.own (c := c) (by rintro _ _ ⟨⟩) hx
  refine ⟨hown.first, hown.read, fun r' hr' ha hlt => ?_⟩
  rcases List.mem_cons.mp (hown.lapsed r' hr' ha hlt) with hid | hrest
  · have := expire_spent (Option.some.inj hx) r' hr' hid
    simp [ReservationRow.lapsed, ha, hlt.le] at this
  · exact hrest

variable {α : Type}

theorem safe_resumeBind {x : Except String α} {f : α → LedgerProg ℕ}
    {Q : Except String ℕ → LedgerHist → Prop} (herr : ∀ e, Q (.error e) h)
    (hok : ∀ a, x = .ok a → Safe (ledgerSystem config) (recovery config) i c Q (f a) h) :
    Safe (ledgerSystem config) (recovery config) i c Q ((Prog.resume x).bind f) h := by
  cases x with
  | ok a => exact hok a rfl
  | error e => exact herr e

/-- No lease that ended before `t` is left when the recovery has gone through. -/
theorem recoverRows_safe (rows : List ReservationRow) (hk : Recovering t (rows.map (·.id)) i h) :
    Safe (ledgerSystem config) (recovery config) i c
      (fun out h => ∀ n, out = .ok n → Recovering t [] i h) (recoverRows t rows) h := by
  induction rows generalizing h with
  | nil => exact fun n _ => hk
  | cons row rest ih =>
    intro h₁ inp₁ res₁ s₁ hrely₁ hinv₁ hx₁ hok₁
    obtain ⟨hi₁, hr₁⟩ := recovery_quiet (by rintro _ _ ⟨⟩) hinv₁ hx₁ hok₁
    refine ⟨hi₁, hr₁, safe_resumeBind (by rintro _ _ ⟨⟩) fun won hwon => ?_⟩
    subst hwon
    have hk₁ := (hk.rely hrely₁).expire (c := c) hx₁
    split
    · intro h₂ inp₂ res₂ s₂ hrely₂ hinv₂ hx₂ hok₂
      obtain ⟨hi₂, hr₂⟩ := recovery_quiet (by rintro _ _ ⟨⟩) hinv₂ hx₂ hok₂
      refine ⟨hi₂, hr₂, safe_resumeBind (by rintro _ _ ⟨⟩) fun charged _ => ?_⟩
      refine (ih ((hk₁.rely hrely₂).own (by rintro _ _ ⟨⟩) hx₂)).bind ?_ (by rintro _ _ _ _ ⟨⟩)
      exact fun n h' hQ m _ => hQ n rfl
    · exact ih hk₁

theorem recoverExpired_safe (hf : recoveredAt h i = some t) (hread : t ∈ readings h) :
    Safe (ledgerSystem config) (recovery config) i c
      (fun out h => ∀ n, out = .ok n → Recovering t [] i h) (recoverExpired t) h := by
  intro h₁ inp₁ res₁ s₁ hrely₁ hinv₁ hx₁ hok₁
  obtain ⟨hi₁, hr₁⟩ := recovery_quiet (by rintro _ _ ⟨⟩) hinv₁ hx₁ hok₁
  refine ⟨hi₁, hr₁, safe_resumeBind (by rintro _ _ ⟨⟩) fun rows hrows => ?_⟩
  have hexec : ledgerExec config (.lapsed t) inp₁ h₁.shared = (res₁, s₁) := Option.some.inj hx₁
  have hres : (ledgerExec config (.lapsed t) inp₁ h₁.shared).1 = .ok rows := by rw [hexec, hrows]
  obtain ⟨rfl, hsame⟩ := attempt_read hres
  have hsame' : s₁ = h₁.shared := (congrArg Prod.snd hexec).symm.trans hsame
  refine recoverRows_safe _ ⟨recoveredAt_ran ?_, ?_, fun r hr ha hlt => ?_⟩
  · rw [recoveredAt, hrely₁.1]
    exact hf
  · rw [readings_ran]
    exact List.mem_append_left _ (hrely₁.2 t hread).1
  · refine List.mem_map_of_mem (List.mem_filter.mpr ⟨?_, by simp [ReservationRow.lapsed, ha, hlt.le]⟩)
    exact hsame' ▸ hr

theorem mem_accounts {id : String} {account : AccountConfig} (h : config.account id = some account) :
    account ∈ config.accounts := List.mem_of_find?_eq_some h

/-- The checks come after the recovery. -/
theorem admitRequest_safe (req : AdmissionRequest) (hnew : h.entriesOf i = []) :
    Safe (ledgerSystem config) (recovery config) i c (fun _ _ => True)
      (admitRequest config req) h := by
  unfold admitRequest
  split
  · trivial
  rename_i account haccount
  intro h₁ inp₁ now s₁ hrely₁ hinv₁ hx₁ hok₁
  obtain ⟨hi₁, hr₁⟩ := recovery_quiet (by rintro _ _ ⟨⟩) hinv₁ hx₁ hok₁
  have hnow : inp₁.now = now := congrArg Prod.fst (Option.some.inj hx₁)
  refine ⟨hi₁, hr₁, ?_⟩
  have hfirst : recoveredAt (h₁.ran i c .clock inp₁ now s₁) i = some now := by
    rw [recoveredAt, Hist.ran, Hist.entriesOf_push_ran, hrely₁.1, hnew, if_pos rfl]
    simp [reading, hnow]
  have hread : now ∈ readings (h₁.ran i c .clock inp₁ now s₁) := by
    rw [readings_ran]
    exact List.mem_append_right _ (by simp [reading, hnow])
  refine (recoverExpired_safe hfirst hread).bind (fun n h₂ hk => ?_) (fun _ _ _ => trivial)
  have hk₂ := hk n rfl
  intro h₃ inp₃ res₃ s₃ hrely₃ hinv₃ hx₃ hok₃
  have hk₃ := hk₂.rely hrely₃
  refine ⟨recovery_inv hinv₃ ?_, recovery_rely hx₃ hok₃, ?_⟩
  · intro req' account' he
    cases he
    exact ⟨haccount, now, hk₃.first, hk₃.lapsed⟩
  · cases res₃ with
    | error e => trivial
    | ok decision =>
      intro h₄ inp₄ res₄ s₄ hrely₄ hinv₄ hx₄ hok₄
      obtain ⟨hi₄, hr₄⟩ := recovery_quiet (by rintro _ _ ⟨⟩) hinv₄ hx₄ hok₄
      refine ⟨hi₄, hr₄, ?_⟩
      cases res₄ <;> trivial

end Recovery

/-! The other calls check nothing. -/

def Quiet (op : LedgerOp) : Prop := ∀ req account, op ≠ .evaluate req account

section Quiet

variable {config : ResourceConfig} {α : Type}

theorem only_resumeBind {β : Type} {x : Except String α} {f : α → LedgerProg β}
    (hf : ∀ a, (f a).Only Quiet) : ((Prog.resume x).bind f).Only Quiet := by
  cases x with
  | ok a => exact hf a
  | error e => trivial

theorem recoverRows_quiet (now : ℤ) (rows : List ReservationRow) :
    (recoverRows now rows).Only Quiet := by
  induction rows with
  | nil => trivial
  | cons r rest ih =>
    refine ⟨by rintro _ _ ⟨⟩, fun res => only_resumeBind fun won => ?_⟩
    split
    · refine ⟨by rintro _ _ ⟨⟩, fun res' => only_resumeBind fun charged => ?_⟩
      exact ih.bind fun _ => trivial
    · exact ih

theorem recoverExpired_quiet (now : ℤ) : (recoverExpired now).Only Quiet :=
  ⟨by rintro _ _ ⟨⟩, fun _ => only_resumeBind fun rows => recoverRows_quiet now rows⟩

theorem reconcile_quiet (requestId : String) (usage : UsageMeasurement) (agent : Option String)
    (durationMs : Option ℤ) : (reconcile config requestId usage agent durationMs).Only Quiet := by
  refine ⟨by rintro _ _ ⟨⟩, fun _ => only_resumeBind fun r => ?_⟩
  cases r with
  | none => trivial
  | some r =>
    exact ⟨by rintro _ _ ⟨⟩, fun _ => ⟨by rintro _ _ ⟨⟩, fun _ => Prog.only_resume⟩⟩

theorem fail_quiet (requestId : String) (report : FailureReport) :
    (fail config requestId report).Only Quiet := by
  have finish : ∀ r : ReservationRow, Prog.Only Quiet (do
      (.call .audit .resume : LedgerProg Unit)
      if report.ambiguous then
        (.call .audit .resume : LedgerProg Unit)
        let _ ← reconcile config requestId (ambiguousUsage r report) none none
        return
      else .call (.release requestId) .resume) := by
    intro r
    refine ⟨by rintro _ _ ⟨⟩, fun _ => only_resumeBind fun _ => ?_⟩
    split
    · exact ⟨by rintro _ _ ⟨⟩, fun _ => only_resumeBind fun _ =>
        (reconcile_quiet _ _ _ _).bind fun _ => trivial⟩
    · exact ⟨by rintro _ _ ⟨⟩, fun _ => Prog.only_resume⟩
  refine ⟨by rintro _ _ ⟨⟩, fun _ => only_resumeBind fun r => ?_⟩
  cases r with
  | none => trivial
  | some r =>
    refine ⟨by rintro _ _ ⟨⟩, fun _ => only_resumeBind fun health => ?_⟩
    cases health with
    | none => exact finish r
    | some row =>
      exact ⟨by rintro _ _ ⟨⟩, fun _ => only_resumeBind fun _ =>
        ⟨by rintro _ _ ⟨⟩, fun _ => only_resumeBind fun _ => finish r⟩⟩

end Quiet

section Run

variable {config : ResourceConfig}

theorem body_safe {i : ℕ} {c : LedgerRequest} {h : LedgerHist} (hnew : h.entriesOf i = []) :
    Safe (ledgerSystem config) (recovery config) i c (fun _ _ => True) (c.body config) h := by
  have quiet : ∀ {p : LedgerProg (Option AdmissionDecision)}, p.Only Quiet →
      Safe (ledgerSystem config) (recovery config) i c (fun _ _ => True) p h :=
    fun hp => Safe.of_only (fun _ _ _ _ _ hop hinv hx hok => recovery_quiet hop hinv hx hok) hp h
  unfold LedgerRequest.body
  cases c.call with
  | admitRequest req =>
    exact (admitRequest_safe req hnew).bind (fun _ _ _ => trivial) (fun _ _ _ => trivial)
  | reconcile requestId usage agent durationMs =>
    exact quiet ((reconcile_quiet _ _ _ _).bind fun _ => trivial)
  | fail requestId report => exact quiet ((fail_quiet _ _).bind fun _ => trivial)
  | recoverExpired now =>
    cases now with
    | some now => exact quiet ((recoverExpired_quiet now).bind fun _ => trivial)
    | none =>
      exact quiet ⟨by rintro _ _ ⟨⟩, fun _ => (recoverExpired_quiet _).bind fun _ => trivial⟩
  | release requestId =>
    exact quiet ⟨by rintro _ _ ⟨⟩, fun _ => only_resumeBind fun _ => trivial⟩
  | renewLease requestId until' =>
    exact quiet ⟨by rintro _ _ ⟨⟩, fun _ => only_resumeBind fun _ => trivial⟩
  | setHealth accountId row =>
    exact quiet ⟨by rintro _ _ ⟨⟩, fun _ => only_resumeBind fun _ => trivial⟩
  | setStop stop =>
    exact quiet ⟨by rintro _ _ ⟨⟩, fun _ => only_resumeBind fun _ => trivial⟩

theorem recovery_upheld :
    (recovery config).Upheld (ledgerSystem config) fun _ _ _ _ => True where
  okPrefix h ev s hok := by
    refine List.Pairwise.sublist ?_ hok
    rw [readings, readings, Hist.entries, Hist.entries, Hist.push_events, List.filterMap_append,
      List.filterMap_append]
    exact List.sublist_append_left _ _
  refl i c h := ⟨rfl, fun t ht => ⟨ht, fun _ hl => hl⟩⟩
  trans i c h₁ h₂ h₃ h₁₂ h₂₃ := by
    refine ⟨h₂₃.1.trans h₁₂.1, fun t ht => ?_⟩
    obtain ⟨ht₂, hl₂⟩ := h₁₂.2 t ht
    obtain ⟨ht₃, hl₃⟩ := h₂₃.2 t ht₂
    exact ⟨ht₃, fun ids hl => hl₃ ids (hl₂ ids hl)⟩
  began h i c s hinv hnew alive adm hok := by
    cases adm
    have hread : readings (h.push (.began i c) h.shared) = readings h := by
      simp only [readings, Hist.entries_push_began]
    refine ⟨fun pre e post he => ?_, fun j d _ => ?_, body_safe (by simpa using hnew)⟩
    · rcases Hist.split_push he with ⟨post', he'⟩ | ⟨hev, -⟩
      · exact hinv pre e post' he'
      · cases hev
    · exact ⟨Hist.entriesOf_push_began .., fun t ht => ⟨hread ▸ ht, fun _ hl => hl⟩⟩
  crashed h p hinv hok := by
    have hread : readings (h.push (.crashed p) h.shared) = readings h := by
      simp only [readings, Hist.entries_push_crashed]
    refine ⟨fun pre e post he => ?_, fun j d _ => ?_⟩
    · rcases Hist.split_push he with ⟨post', he'⟩ | ⟨hev, -⟩
      · exact hinv pre e post' he'
      · cases hev
    · exact ⟨Hist.entriesOf_push_crashed .., fun t ht => ⟨hread ▸ ht, fun _ hl => hl⟩⟩

/-- No active lease ends between the recovery's clock reading and the check's, and every expired
request is charged. -/
def NothingUncounted (h : LedgerHist) (e : LedgerEntry) : Prop :=
  ∀ r ∈ e.before.reservations,
    (r.status = .active → ∀ t ∈ recoveredAt h e.thread,
      ¬(t ≤ r.leaseExpiresAt ∧ r.leaseExpiresAt ≤ e.input.now)) ∧
    (r.status = .expired → e.before.hasUsage r.requestId = true)

instance {h : LedgerHist} {e : LedgerEntry} : Decidable (NothingUncounted h e) :=
  inferInstanceAs (Decidable (∀ r ∈ e.before.reservations,
    (r.status = .active → ∀ t ∈ recoveredAt h e.thread,
      ¬(t ≤ r.leaseExpiresAt ∧ r.leaseExpiresAt ≤ e.input.now)) ∧
    (r.status = .expired → e.before.hasUsage r.requestId = true)))

/-- What an executed command admitted is within the limits. -/
def AdmittedWithin (config : ResourceConfig) : LedgerEntry → Prop
  | ⟨_, _, .evaluate req account, inp, .ok decision, _, after⟩ =>
    decision.outcome = .admitted → WithinLimits config req account inp.now after
  | _ => True

end Run

/-! A lease that ends between the two readings, and one that ends before. -/

/-- One request at a time, of at most 100 tokens a day. -/
def narrowAccount : AccountConfig where
  id := "machine"
  quotaGroup := none
  kind := .localMachine
  contextLimits := none
  limits := some [⟨.tokens, "1d", some 100, .configured, none, none⟩]
  maxConcurrent := some 1
  rpm := none
  tpm := none
  pricing := none
  workloads := none
  reserveFor := none
  criticalOnly := none
  allowPaid := false
  enabled := none
  unknownLimitPolicy := none

def narrowConfig : ResourceConfig where
  accounts := [narrowAccount]
  policy := ⟨true, false, 50, 0, 0, 0, none⟩
  valid := by
    rintro _ (_ | ⟨_, ⟨⟩⟩)
    decide

def narrowRequest (requestId : String) : AdmissionRequest :=
  ⟨requestId, "machine", "model", .routine, 10, 10, none, none⟩

/-- The first request is admitted at 0, with a lease until 50. -/
def firstAdmission : List LedgerAction :=
  [.begin ⟨0, .admitRequest (narrowRequest "first")⟩, .run 0 ⟨0, "one", none⟩,
    .run 0 ⟨0, "one", none⟩, .run 0 ⟨0, "one", none⟩]

/-- The last command admitted a request beside another that is in flight. -/
def overfull (cfg : LedgerConfig) : Bool :=
  match cfg.hist.events.getLast? with
  | some (.ran ⟨_, _, .evaluate _ account, _, .ok decision, _, after⟩) =>
    decision.outcome = .admitted && account.maxConcurrent = some 1 &&
      1 < (after.reservations.filter fun r =>
        r.accountId ∈ narrowConfig.scope account && r.status = .active).length
  | _ => false

/-- The last command comes after one usage row and leaves two reservations. -/
def secondAdmitted (cfg : LedgerConfig) : Bool :=
  match cfg.hist.events.getLast? with
  | some (.ran e) => decide (NothingUncounted ⟨cfg.hist.events.dropLast, e.before⟩ e ∧
      e.before.usage.length = 1 ∧ e.after.reservations.length = 2)
  | _ => false

end Wazir.Resources
