import Wazir.Resources.Books

/-! Usage is accounted once. Expiry and its charge are two transactions: between them a crash, or a
database that refuses the second, leaves an expired reservation that no recovery selects again. And
a release does not keep a late reconciliation from recording usage. In the runs without these, each
admitted request is reserved, used or released, and never two of them. -/

namespace Wazir.Resources

open Wazir.Async

/-- The request that an executed command admitted. -/
def admittedId : Entry LedgerOp LedgerRes LedgerRequest LedgerInput Ledger → Option String
  | ⟨_, _, .evaluate _ _, _, .ok decision, _, _⟩ =>
    if decision.outcome = .admitted then some decision.requestId else none
  | _ => none

def admittedIds (h : Hist LedgerOp LedgerRes LedgerRequest ℕ LedgerInput Ledger) : List String :=
  h.entries.filterMap admittedId

/-- The usage row that the thread's next command records. -/
def recording (t : LedgerThread) : Option UsageRow :=
  match t.rest with
  | some (.call (.settle row) _) => some row
  | _ => none

/-- The thread is about to charge a request conservatively. -/
def charges (t : LedgerThread) (requestId : String) : Bool :=
  (recording t).any fun row => row.requestId = requestId && row.source = .conservative

/-- What a recovery leaves that nobody disturbs. -/
def recovered (config : ResourceConfig) (l : Ledger) (now : ℤ) : Ledger :=
  ((recoverExpired now).alone (fun op => ledgerExec config op ⟨now, "", none⟩) l).2

/-- A recovery has yet to record the usage: one in progress, or a later one. -/
def Recoverable (config : ResourceConfig) (cfg : LedgerConfig) (requestId : String) : Prop :=
  (∃ t ∈ cfg.threads, charges t requestId = true) ∨
    ∃ now, (recovered config cfg.hist.shared now).hasUsage requestId = true

/-- How often usage may be recorded in each status; `coming` says that it still will be. -/
def Standing (used : ℕ) (coming : Prop) : ReservationStatus → Prop
  | .active => used = 0
  | .settled => used = 1
  | .released => used = 0
  | .expired => used = 1 ∨ used = 0 ∧ coming

structure Accounted (config : ResourceConfig) (cfg : LedgerConfig) : Prop where
  once : ∀ requestId, cfg.hist.shared.uses requestId ≤ 1
  standing : ∀ requestId ∈ admittedIds cfg.hist,
    ∃ r, cfg.hist.shared.getReservation requestId = some r ∧
      Standing (cfg.hist.shared.uses requestId) (Recoverable config cfg requestId) r.status
  /-- What may have been dispatched is reserved, or used, or still to be recorded. -/
  notLost : ∀ requestId ∈ admittedIds cfg.hist,
    ∃ r, cfg.hist.shared.getReservation requestId = some r ∧
      (r.status = .released ∨ r.status = .active ∨ cfg.hist.shared.hasUsage requestId = true ∨
        Recoverable config cfg requestId)

/-! Where the two transactions come apart. -/

/-- The reservation expired and has no usage row. -/
def missing (l : Ledger) (requestId : String) : Bool :=
  (l.reservations.any fun r => r.requestId = requestId && r.status = .expired) &&
    !l.hasUsage requestId

def wasReleased (l : Ledger) (requestId : String) : Bool :=
  l.reservations.any fun r => r.requestId = requestId && r.status = .released

/-- A charge is missing that none of these threads is about to make. -/
def forgotten (l : Ledger) (threads : List LedgerThread) (requestId : String) : Bool :=
  missing l requestId && !threads.any (charges · requestId)

/-- Usage is not recorded for a released request, and no charge is interrupted: neither does the
database refuse it nor the process die before it, while the expired request has no usage row and no
other thread is about to charge it. -/
def careful (cfg : LedgerConfig) : LedgerAction → Bool
  | .begin _ => true
  | .run i inp => (cfg.threads[i]?.bind recording).all fun row =>
    if inp.refused.isNone then !wasReleased cfg.hist.shared row.requestId
    else row.source ≠ .conservative ||
      !forgotten cfg.hist.shared (cfg.threads.eraseIdx i) row.requestId
  | .crash p => (cfg.threads.filter (·.call.process = p)).all fun t =>
    (recording t).all fun row => row.source ≠ .conservative ||
      !forgotten cfg.hist.shared (cfg.threads.filter (·.call.process ≠ p)) row.requestId

inductive CarefulRun (config : ResourceConfig) : LedgerConfig → Prop
  | start : CarefulRun config (Config.start emptyLedger)
  | act {cfg cfg' : LedgerConfig} {a : LedgerAction} (run : CarefulRun config cfg)
      (careful : careful cfg a = true) (acted : act (ledgerSystem config) cfg a = some cfg') :
      CarefulRun config cfg'

/-- A careful schedule that can be run. -/
def carefully (config : ResourceConfig) : List LedgerAction → LedgerConfig → Option LedgerConfig
  | [], cfg => some cfg
  | a :: rest, cfg =>
    if careful cfg a then (act (ledgerSystem config) cfg a).bind (carefully config rest) else none

theorem CarefulRun.of_carefully {config : ResourceConfig} {acts : List LedgerAction}
    {cfg cfg' : LedgerConfig} (hr : CarefulRun config cfg)
    (h : carefully config acts cfg = some cfg') : CarefulRun config cfg' := by
  induction acts generalizing cfg with
  | nil =>
    cases h
    exact hr
  | cons a rest ih =>
    simp only [carefully] at h
    split at h
    · rename_i hc
      obtain ⟨cfg₁, ha, hrest⟩ := Option.bind_eq_some_iff.mp h
      exact ih (hr.act hc ha) hrest
    · cases h

/-! One usage row a request. -/

variable {l : Ledger}

theorem Sound.uses_le_one (h : Sound l) (requestId : String) :
    l.uses requestId ≤ 1 := by
  have hcount := List.nodup_iff_count_le_one.mp h.once requestId
  rwa [List.count, List.countP_map] at hcount

variable {requestId : String}

theorem Sound.uses_eq_one (h : Sound l) :
    l.uses requestId = 1 ↔ l.hasUsage requestId = true := by
  have hle := h.uses_le_one requestId
  have hzero : l.uses requestId = 0 ↔ l.hasUsage requestId = false := Ledger.uses_eq_zero
  rw [← Bool.not_eq_false, ← hzero]
  omega

variable {r : ReservationRow}

theorem Sound.getReservation (h : Sound l) (hr : r ∈ l.reservations) :
    l.getReservation r.requestId = some r := by
  cases hf : l.getReservation r.requestId with
  | none => simpa using List.find?_eq_none.mp hf r hr
  | some r' =>
    have hid : r'.requestId = r.requestId := by simpa using List.find?_some hf
    rw [h.eq_of_requestId (List.mem_of_find?_eq_some hf) hr hid]

theorem Standing.mono {used : ℕ} {coming coming' : Prop} {status : ReservationStatus}
    (h : Standing used coming status) (hc : status = .expired → used = 0 → coming → coming') :
    Standing used coming' status := by
  cases status with
  | active | settled | released => exact h
  | expired => exact h.imp_right fun ⟨hu, hcoming⟩ => ⟨hu, hc rfl hu hcoming⟩

/-! Who is about to charge a request. -/

def Charged (threads : List LedgerThread) (requestId : String) : Prop :=
  ∃ t ∈ threads, charges t requestId = true

variable {threads : List LedgerThread}

theorem not_forgotten (h : forgotten l threads requestId = false) (hm : missing l requestId = true) :
    Charged threads requestId := by
  simpa [forgotten, hm, Charged] using h

theorem missing_of_expired (hr : r ∈ l.reservations) (he : r.status = .expired)
    (hu : l.uses r.requestId = 0) :
    missing l r.requestId = true := by
  simp only [missing, Bool.and_eq_true, List.any_eq_true, decide_eq_true_eq, Bool.not_eq_true']
  exact ⟨⟨r, hr, rfl, he⟩, Ledger.uses_eq_zero.mp hu⟩

/-- The other threads are where they were. -/
theorem Charged.set {i : ℕ} {t : LedgerThread} (h : Charged (threads.eraseIdx i) requestId) :
    Charged (threads.set i t) requestId := by
  obtain ⟨u, hu, hc⟩ := h
  obtain ⟨j, hne, hj⟩ := List.mem_eraseIdx_iff_getElem?.mp hu
  refine ⟨u, List.mem_of_getElem? (i := j) ?_, hc⟩
  rw [List.getElem?_set_ne (Ne.symm hne)]
  exact hj

theorem Charged.erase {i : ℕ} {t : LedgerThread} (h : Charged threads requestId)
    (ht : threads[i]? = some t) (hn : charges t requestId = false) :
    Charged (threads.eraseIdx i) requestId := by
  obtain ⟨u, hu, hc⟩ := h
  obtain ⟨j, hj⟩ := List.getElem?_of_mem hu
  refine ⟨u, List.mem_eraseIdx_iff_getElem?.mpr ⟨j, ?_, hj⟩, hc⟩
  rintro rfl
  rw [ht] at hj
  cases hj
  simp [hn] at hc

variable {c : LedgerRequest}

theorem charges_settle {row : UsageRow}
    {next : LedgerRes (.settle row) → LedgerProg (Option AdmissionDecision)} :
    charges ⟨c, some (.call (.settle row) next)⟩ requestId = true ↔
      row.requestId = requestId ∧ row.source = .conservative := by
  simp [charges, recording]

theorem charges_other {op : LedgerOp} {next : LedgerRes op → LedgerProg (Option AdmissionDecision)}
    (h : ∀ row, op ≠ .settle row) : charges ⟨c, some (.call op next)⟩ requestId = false := by
  cases op with
  | settle row => exact absurd rfl (h row)
  | _ => rfl

/-! Careful runs. -/

/-- A careful crash leaves a thread that charges what is missing. -/
theorem Charged.survives {cfg : LedgerConfig} {p : ℕ} (h : Charged cfg.threads requestId)
    (hc : careful cfg (.crash p) = true) (hm : missing cfg.hist.shared requestId = true) :
    Charged (cfg.threads.filter (·.call.process ≠ p)) requestId := by
  obtain ⟨t, ht, htc⟩ := h
  by_cases hp : t.call.process = p
  · obtain ⟨row, hrow, hid⟩ := (Option.any_eq_true _ _).mp htc
    simp only [Bool.and_eq_true, decide_eq_true_eq] at hid
    have hall := List.all_eq_true.mp hc t (List.mem_filter.mpr ⟨ht, by simpa using hp⟩)
    rw [hrow, Option.all_some, hid.2, hid.1] at hall
    exact not_forgotten (by simpa using hall) hm
  · exact ⟨t, List.mem_filter.mpr ⟨ht, by simpa using hp⟩, htc⟩

theorem Charged.crash {config : ResourceConfig} {p : ℕ}
    (h : Charged (threads.filter (·.call.process ≠ p)) requestId) :
    Charged (threads.map (Thread.kill (ledgerSystem config) p)) requestId := by
  obtain ⟨t, ht, htc⟩ := h
  obtain ⟨ht, hp⟩ := List.mem_filter.mp ht
  exact ⟨t, List.mem_map.mpr ⟨t, ht, if_neg (of_decide_eq_true hp)⟩, htc⟩

/-- The invariant of the careful runs. -/
structure Accounting (config : ResourceConfig) (cfg : LedgerConfig) : Prop where
  books : Bookkept config cfg
  standing : ∀ r ∈ cfg.hist.shared.reservations,
    Standing (cfg.hist.shared.uses r.requestId) (Charged cfg.threads r.requestId) r.status
  admitted : ∀ requestId ∈ admittedIds cfg.hist,
    ∃ r ∈ cfg.hist.shared.reservations, r.requestId = requestId

namespace Accounting

variable {config : ResourceConfig} {cfg cfg' : LedgerConfig}

theorem start : Accounting config (Config.start emptyLedger) where
  books := .start
  standing := by simp [Config.start, emptyLedger]
  admitted := by simp [Config.start, admittedIds, Hist.entries]

theorem begin (h : Accounting config cfg)
    (hact : act (ledgerSystem config) cfg (.begin c) = some cfg') : Accounting config cfg' := by
  have hbooks := h.books.step (act_step hact)
  simp only [act] at hact
  split_ifs at hact
  obtain ⟨l, hl, rfl⟩ := Option.map_eq_some_iff.mp hact
  cases hl
  refine ⟨hbooks, fun r hr => ?_, fun requestId hid => ?_⟩
  · refine (h.standing r hr).mono fun _ _ hcharged => ?_
    obtain ⟨t, ht, hc⟩ := hcharged
    exact ⟨t, List.mem_append_left _ ht, hc⟩
  · simp only [admittedIds, Hist.entries_push_began] at hid
    exact h.admitted requestId hid

theorem crash (h : Accounting config cfg) {p : ℕ} (hc : careful cfg (.crash p) = true)
    (hact : act (ledgerSystem config) cfg (.crash p) = some cfg') : Accounting config cfg' := by
  have hbooks := h.books.step (act_step hact)
  cases hact
  refine ⟨hbooks, fun r hr => ?_, fun requestId hid => ?_⟩
  · exact (h.standing r hr).mono fun hst hu hcharged =>
      (hcharged.survives hc (missing_of_expired hr hst hu)).crash
  · simp only [admittedIds, Hist.entries_push_crashed] at hid
    exact h.admitted requestId hid

section Run

variable {i : ℕ} {c : LedgerRequest} {op : LedgerOp} {inp : LedgerInput} {res : LedgerRes op}
  {next : LedgerRes op → LedgerProg (Option AdmissionDecision)} {l' : Ledger}

/-- A reservation that the command leaves alone. -/
theorem keep (h : Accounting config cfg) (hw : cfg.threads[i]? = some ⟨c, some (.call op next)⟩)
    (hr : r ∈ cfg.hist.shared.reservations)
    (hidle : r.status = .expired → cfg.hist.shared.uses r.requestId = 0 →
      charges ⟨c, some (.call op next)⟩ r.requestId = true →
      Charged (cfg.threads.eraseIdx i) r.requestId) :
    Standing (cfg.hist.shared.uses r.requestId)
      (Charged (cfg.threads.set i ⟨c, some (next res)⟩) r.requestId) r.status := by
  refine (h.standing r hr).mono fun hst hu hcharged => ?_
  cases hch : charges ⟨c, some (.call op next)⟩ r.requestId with
  | true => exact (hidle hst hu hch).set
  | false => exact (hcharged.erase hw hch).set

theorem refused (h : Accounting config cfg) (hw : cfg.threads[i]? = some ⟨c, some (.call op next)⟩)
    (hc : careful cfg (.run i inp) = true) (hr : inp.refused.isSome)
    (hmem : r ∈ cfg.hist.shared.reservations) :
    Standing (cfg.hist.shared.uses r.requestId)
      (Charged (cfg.threads.set i ⟨c, some (next res)⟩) r.requestId) r.status := by
  refine h.keep hw hmem fun hst hu hch => ?_
  cases op with
  | settle row =>
    obtain ⟨hid, hsource⟩ := charges_settle.mp hch
    have hnone : inp.refused.isNone = false := by
      cases he : inp.refused <;> simp_all
    simp only [careful, hw, Option.bind_some, recording, Option.all_some, hnone,
      Bool.false_eq_true, if_false, hsource, hid] at hc
    exact not_forgotten (by simpa using hc) (missing_of_expired hmem hst hu)
  | _ => exact absurd hch (by simp [charges, recording])

theorem settled (h : Accounting config cfg) {row : UsageRow}
    {next : LedgerRes (.settle row) → LedgerProg (Option AdmissionDecision)}
    {res : LedgerRes (.settle row)}
    (hw : cfg.threads[i]? = some ⟨c, some (.call (.settle row) next)⟩)
    (hc : careful cfg (.run i inp) = true) (accepted : inp.refused = none)
    (unused : cfg.hist.shared.hasUsage row.requestId = false)
    (reservations : l'.reservations = (cfg.hist.shared.updateWhere
      (fun r => r.requestId = row.requestId && (r.status = .active || r.status = .expired))
      fun r => { r with status := .settled }).reservations)
    (usage : l'.usage = cfg.hist.shared.usage ++ [row]) (hs : Sound l') {r' : ReservationRow}
    (hr' : r' ∈ l'.reservations) :
    Standing (l'.uses r'.requestId)
      (Charged (cfg.threads.set i ⟨c, some (next res)⟩) r'.requestId) r'.status := by
  have hused : l'.hasUsage row.requestId = true :=
    Ledger.hasUsage_iff.mpr ⟨row, by rw [usage]; exact List.mem_append_right _ (by simp), rfl⟩
  rw [reservations, Ledger.mem_updateWhere] at hr'
  obtain ⟨r, hr, rfl⟩ := hr'
  have hzero := Ledger.uses_eq_zero.mpr unused
  split
  · rename_i hp
    simp only [Bool.and_eq_true, decide_eq_true_eq] at hp
    exact hs.uses_eq_one.mpr (by simpa [hp.1] using hused)
  · rename_i hp
    by_cases hid : r.requestId = row.requestId
    · -- a settled request has a usage row, and none is recorded for a released one
      have hstand := h.standing r hr
      have hrel : wasReleased cfg.hist.shared row.requestId = false := by
        simpa [careful, hw, recording, accepted] using hc
      have hrel' : r.status ≠ .released := by
        intro hst
        simp only [wasReleased, List.any_eq_false, Bool.and_eq_true, decide_eq_true_eq,
          not_and] at hrel
        exact hrel r hr hid hst
      rw [hid] at hstand
      cases hst : r.status with
      | active => simp [hid, hst] at hp
      | expired => simp [hid, hst] at hp
      | released => exact absurd hst hrel'
      | settled =>
        rw [hst] at hstand
        exact absurd (hzero.symm.trans hstand) (by decide)
    · have huses : l'.uses r.requestId = cfg.hist.shared.uses r.requestId := by
        simp [Ledger.uses, usage, Ne.symm hid]
      rw [huses]
      exact h.keep hw hr fun _ _ hch => absurd (charges_settle.mp hch).1.symm hid

theorem standing_after (h : Accounting config cfg)
    (hw : cfg.threads[i]? = some ⟨c, some (.call op next)⟩)
    (hc : careful cfg (.run i inp) = true)
    (hchange : Change config inp cfg.hist.shared l' op res) (hs : Sound l') {r' : ReservationRow}
    (hr' : r' ∈ l'.reservations) :
    Standing (l'.uses r'.requestId)
      (Charged (cfg.threads.set i ⟨c, some (next res)⟩) r'.requestId) r'.status := by
  have idle : (∀ row, op ≠ .settle row) → l'.usage = cfg.hist.shared.usage →
      ∀ r ∈ cfg.hist.shared.reservations, Standing (l'.uses r.requestId)
        (Charged (cfg.threads.set i ⟨c, some (next res)⟩) r.requestId) r.status := by
    intro hop husage r hr
    have huses : l'.uses r.requestId = cfg.hist.shared.uses r.requestId := by
      simp only [Ledger.uses, husage]
    rw [huses]
    exact h.keep hw hr fun _ _ hch => absurd hch (by simp [charges_other hop])
  have active : r'.status = .active → Standing (l'.uses r'.requestId)
      (Charged (cfg.threads.set i ⟨c, some (next res)⟩) r'.requestId) r'.status := by
    intro ha
    rw [ha]
    exact Ledger.uses_eq_zero.mpr (hs.unused r' hr' ha)
  cases hchange with
  | refused _ _ hr same =>
    subst same
    exact h.refused hw hc hr hr'
  | idle _ _ noSettle reservations usage => exact idle noSettle usage r' (reservations ▸ hr')
  | duplicate row used same =>
    subst same
    refine h.keep hw hr' fun _ hu hch => ?_
    rw [← (charges_settle.mp hch).1, Ledger.uses_eq_zero, used] at hu
    cases hu
  | inserted req account _ _ _ _ _ reservations usage =>
    rw [reservations] at hr'
    rcases List.mem_append.mp hr' with hold | hnew
    · exact idle (by rintro _ ⟨⟩) usage r' hold
    · rw [List.mem_singleton] at hnew
      exact active (by rw [hnew]; rfl)
  | updated _ _ noSettle p f core hactive _ status reservations usage =>
    have hmem := hr'
    rw [reservations, Ledger.mem_updateWhere] at hmem
    obtain ⟨r, hr, rfl⟩ := hmem
    have hstand := idle noSettle usage r hr
    by_cases hp : p r
    · rw [if_pos hp] at hr' active ⊢
      rcases status r with hst | hst
      · exact active (hst.trans (hactive h.books.sound.requests r hr hp))
      · rw [hactive h.books.sound.requests r hr hp] at hstand
        rw [hst, ReservationRow.core_requestId (core r)]
        exact hstand
    · rw [if_neg hp]
      exact hstand
  | expired r₀ now reservations usage =>
    rw [reservations, Ledger.mem_updateWhere] at hr'
    obtain ⟨r, hr, rfl⟩ := hr'
    have hstand := idle (by rintro _ ⟨⟩) usage r hr
    split
    · -- the thread that expires a request charges it next
      rename_i hp
      simp only [Bool.and_eq_true, decide_eq_true_eq, ReservationRow.lapsed] at hp
      obtain ⟨⟨r₁, hr₁, hcore⟩, rest, hrest⟩ := h.books.fits hw
      have hsame : r = r₁ :=
        h.books.sound.eq_of_id hr hr₁ (hp.1.trans (ReservationRow.core_id hcore).symm)
      rw [hp.2.1] at hstand
      refine .inr ⟨hstand, _, List.mem_set (List.getElem?_eq_some_iff.mp hw).1 _, ?_⟩
      rw [hrest]
      exact charges_settle.mpr
        ⟨by rw [hsame]; exact (ReservationRow.core_requestId hcore).symm, rfl⟩
    · exact hstand
  | settled row accepted unused reservations usage =>
    exact h.settled hw hc accepted unused reservations usage hs hr'

theorem admitted_after (h : Accounting config cfg)
    (hexec : ledgerExec config op inp cfg.hist.shared = (res, l'))
    (hlater : Later cfg.hist.shared l') (hid : requestId ∈ admittedIds
      (cfg.hist.push (.ran ⟨i, c, op, inp, res, cfg.hist.shared, l'⟩) l')) :
    ∃ r ∈ l'.reservations, r.requestId = requestId := by
  simp only [admittedIds, Hist.entries_push_ran, List.filterMap_append, List.mem_append] at hid
  rcases hid with hid | hid
  · obtain ⟨r, hr, he⟩ := h.admitted requestId hid
    obtain ⟨r', hr', hcore⟩ := hlater r hr
    exact ⟨r', hr', (ReservationRow.core_requestId hcore).trans he⟩
  · obtain ⟨e, he, hadm⟩ := List.mem_filterMap.mp hid
    rw [List.mem_singleton] at he
    subst he
    simp only [admittedId] at hadm
    split at hadm
    · rename_i heq
      cases heq
      split_ifs at hadm with hd
      cases hadm
      obtain ⟨-, hreq, -, -, rfl⟩ := evaluate_admits hexec hd
      exact ⟨_, List.mem_append_right _ (List.mem_singleton_self _), hreq.symm⟩
    · cases hadm

theorem run (h : Accounting config cfg) (hc : careful cfg (.run i inp) = true)
    (hact : act (ledgerSystem config) cfg (.run i inp) = some cfg') : Accounting config cfg' := by
  have hbooks := h.books.step (act_step hact)
  simp only [act] at hact
  split at hact
  · rename_i c op next hw
    obtain ⟨⟨res, l'⟩, hx, rfl⟩ := Option.map_eq_some_iff.mp hact
    have hexec : ledgerExec config op inp cfg.hist.shared = (res, l') := Option.some.inj hx
    have hchange : Change config inp cfg.hist.shared (ledgerExec config op inp cfg.hist.shared).2
        op (ledgerExec config op inp cfg.hist.shared).1 := ledgerExec_change op
    rw [hexec] at hchange
    exact ⟨hbooks, fun r' hr' => h.standing_after hw hc hchange hbooks.sound hr',
      fun requestId hid => h.admitted_after hexec hchange.later hid⟩
  · cases hact

end Run

theorem of_run (hr : CarefulRun config cfg) : Accounting config cfg := by
  induction hr with
  | start => exact start
  | @act cfg cfg' a _ careful acted ih =>
    cases a with
    | begin c => exact ih.begin acted
    | run i inp => exact ih.run careful acted
    | crash p => exact ih.crash careful acted

end Accounting

/-- In a careful run usage is accounted exactly once. -/
theorem usage_accounted (config : ResourceConfig) {cfg : LedgerConfig}
    (hr : CarefulRun config cfg) : Accounted config cfg := by
  have h := Accounting.of_run hr
  have standing : ∀ requestId ∈ admittedIds cfg.hist,
      ∃ r, cfg.hist.shared.getReservation requestId = some r ∧
        Standing (cfg.hist.shared.uses requestId) (Recoverable config cfg requestId) r.status := by
    intro requestId hid
    obtain ⟨r, hr, rfl⟩ := h.admitted requestId hid
    exact ⟨r, h.books.sound.getReservation hr,
      (h.standing r hr).mono fun _ _ hcharged => .inl hcharged⟩
  refine ⟨h.books.sound.uses_le_one, standing, fun requestId hid => ?_⟩
  obtain ⟨r, hr, hstand⟩ := standing requestId hid
  refine ⟨r, hr, ?_⟩
  cases hst : r.status with
  | active => exact .inr (.inl rfl)
  | released => exact .inl rfl
  | settled =>
    rw [hst] at hstand
    exact .inr (.inr (.inl (h.books.sound.uses_eq_one.mp hstand)))
  | expired =>
    rw [hst] at hstand
    rcases hstand with hused | ⟨-, hcoming⟩
    · exact .inr (.inr (.inl (h.books.sound.uses_eq_one.mp hused)))
    · exact .inr (.inr (.inr hcoming))

/-! A run that loses a charge, and one that does not. -/

/-- One account without limits. -/
def plainAccount : AccountConfig where
  id := "machine"
  quotaGroup := none
  kind := .localMachine
  contextLimits := none
  limits := none
  maxConcurrent := none
  rpm := none
  tpm := none
  pricing := none
  workloads := none
  reserveFor := none
  criticalOnly := none
  allowPaid := false
  enabled := none
  unknownLimitPolicy := none

def plainConfig : ResourceConfig where
  accounts := [plainAccount]
  policy := ⟨true, false, 50, 0, 0, 0, none⟩
  valid := by simp [validAccount, plainAccount]

def plainRequest : AdmissionRequest :=
  ⟨"request", "machine", "model", .routine, 10, 10, none, none⟩

def atTime (now : ℤ) : LedgerInput := ⟨now, "reservation", none⟩

/-- Process 0 admits the request; process 1 finds its lease lapsed and takes it. -/
def lapseRun : List LedgerAction :=
  [.begin ⟨0, .admitRequest plainRequest⟩, .run 0 (atTime 0), .run 0 (atTime 0), .run 0 (atTime 0),
    .run 0 (atTime 0), .begin ⟨1, .recoverExpired (some 100)⟩, .run 1 (atTime 100),
    .run 1 (atTime 100)]

/-- A recovery finds nothing where no reservation is active. -/
theorem recovered_idle (config : ResourceConfig) (now : ℤ)
    (h : ∀ r ∈ l.reservations, r.status ≠ .active) : recovered config l now = l := by
  have hl : l.lapsed now = [] := by
    rw [Ledger.lapsed, List.filter_eq_nil_iff]
    intro r hr
    simp [ReservationRow.lapsed, h r hr]
  have hexec : ledgerExec config (.lapsed now) ⟨now, "", none⟩ l = (.ok [], l) := by
    simp only [ledgerExec, attempt, hl]
  unfold recovered recoverExpired
  simp only [Prog.bind_def, Prog.bind_call, Prog.alone, hexec]
  rfl

/-- The process that took the request dies before it charges it. -/
theorem usage_lost : ¬ ∀ (config : ResourceConfig) (cfg : LedgerConfig),
    Reach (ledgerSystem config) emptyLedger cfg → Accounted config cfg := by
  intro hall
  have hrun : ((schedule (ledgerSystem plainConfig) (lapseRun ++ [.crash 1])
      (Config.start emptyLedger)).any fun cfg =>
        admittedIds cfg.hist = ["request"] && cfg.hist.shared.uses "request" = 0 &&
          (cfg.hist.shared.getReservation "request").all (·.status = .expired) &&
          cfg.hist.shared.reservations.all (·.status ≠ .active) &&
          cfg.threads.all (!charges · "request")) = true := by decide
  obtain ⟨cfg, hr, hcheck⟩ := Reach.of_check hrun
  simp only [Bool.and_eq_true, decide_eq_true_eq, List.all_eq_true, Bool.not_eq_true'] at hcheck
  obtain ⟨⟨⟨⟨hadm, huses⟩, hexpired⟩, hactive⟩, hcharges⟩ := hcheck
  obtain ⟨r, hres, hstand⟩ := (hall plainConfig cfg hr).standing "request" (by simp [hadm])
  have hst : r.status = .expired := by simpa [hres] using hexpired
  rw [hst, huses] at hstand
  rcases hstand with hused | ⟨-, ⟨t, ht, hc⟩ | ⟨now, hnow⟩⟩
  · cases hused
  · exact absurd hc (by simp [hcharges t ht])
  · rw [recovered_idle plainConfig now hactive] at hnow
    rw [Ledger.uses_eq_zero.mp huses] at hnow
    cases hnow

/-- The charge is made, and a late reconciliation records nothing more. -/
theorem usage_accounted_late : ∃ cfg, CarefulRun plainConfig cfg ∧
    admittedIds cfg.hist = ["request"] ∧ Accounted plainConfig cfg := by
  have hrun : ((carefully plainConfig (lapseRun ++ [.run 1 (atTime 100),
      .begin ⟨0, .reconcile "request" ⟨5, 5, none, none, .providerReported⟩ none none⟩,
      .run 2 (atTime 100), .run 2 (atTime 100), .run 2 (atTime 100)])
      (Config.start emptyLedger)).any fun cfg => admittedIds cfg.hist = ["request"]) = true := by
    decide
  obtain ⟨cfg, hcfg, hadm⟩ := (Option.any_eq_true _ _).mp hrun
  have hr : CarefulRun plainConfig cfg := CarefulRun.start.of_carefully hcfg
  exact ⟨cfg, hr, of_decide_eq_true hadm, usage_accounted plainConfig hr⟩

end Wazir.Resources
