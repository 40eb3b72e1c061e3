import Wazir.Goals.AuditSystem

/-! Appends that never meet under one number are kept for ever, in one chain. -/

namespace Wazir.Goals

open Wazir.Async JsValue

variable {appends : List AuditAppend}

section Kept

variable {sanitizeUntrustedOutput : String → String} {localeCompare : String → String → Ordering}
  {sha256 : String → String} {store : RevivingStore} {parseDate : String → JsDate}
  {h : AuditHist} {i : ℕ} {c : AuditRequest}

/-- The records that one instance alone would make of the events. -/
abbrev chainOf (sanitizeUntrustedOutput : String → String)
    (localeCompare : String → String → Ordering) (sha256 : String → String)
    (appends : List AuditAppend) : AuditStore :=
  entriesFrom sanitizeUntrustedOutput localeCompare sha256 0 "GENESIS" appends

/-- Puts that stay apart make the chain that one instance alone would make. -/
def auditContract (sanitizeUntrustedOutput : String → String)
    (localeCompare : String → String → Ordering) (sha256 : String → String) :
    Contract AuditOp AuditRes AuditRequest ℕ AuditInput AuditShared where
  Ok h := h.Always Apart
  Inv h := ∃ appends, h.shared.entries =
    chainOf sanitizeUntrustedOutput localeCompare sha256 appends
  Rely _ _ h h' := h.shared.entries <+: h'.shared.entries

abbrev AuditSafe {α : Type} (sanitizeUntrustedOutput : String → String)
    (localeCompare : String → String → Ordering) (sha256 : String → String)
    (store : RevivingStore) (parseDate : String → JsDate) (i : ℕ) (c : AuditRequest)
    (Q : Except Thrown α → AuditHist → Prop) (p : AuditProg α) (h : AuditHist) : Prop :=
  Safe (auditSystem sanitizeUntrustedOutput localeCompare sha256 store parseDate)
    (auditContract sanitizeUntrustedOutput localeCompare sha256) i c Q p h

/-- A command that is no put leaves the records alone. -/
theorem quiet_entries {op : AuditOp} {inp : AuditInput} {s s' : AuditShared} {r : AuditRes op}
    (hx : auditExec store parseDate op inp s = some (r, s'))
    (hop : ∀ key value, op ≠ .put key value) : s'.entries = s.entries := by
  cases op with
  | put key value => exact absurd rfl (hop key value)
  | turn chain ahead =>
    simp only [auditExec] at hx
    split_ifs at hx
    cases hx
    rfl
  | _ =>
    cases hx
    rfl

/-- Such a command is safe if what follows it is. -/
theorem auditQuiet_safe {α : Type} {Q : Except Thrown α → AuditHist → Prop} {op : AuditOp}
    {next : AuditRes op → AuditProg α} (hop : ∀ key value, op ≠ .put key value)
    (hnext : ∀ (h' : AuditHist) inp r s, h.shared.entries <+: h'.shared.entries →
      (∃ appends, h'.shared.entries =
        chainOf sanitizeUntrustedOutput localeCompare sha256 appends) →
      auditExec store parseDate op inp h'.shared = some (r, s) →
      AuditSafe sanitizeUntrustedOutput localeCompare sha256 store parseDate i c Q (next r)
        (h'.ran i c op inp r s)) :
    AuditSafe sanitizeUntrustedOutput localeCompare sha256 store parseDate i c Q
      (.call op next) h := by
  intro h' inp r s hrely hinv hx _
  have hsame : (h'.ran i c op inp r s).shared.entries = h'.shared.entries := quiet_entries hx hop
  obtain ⟨appends, happends⟩ := hinv
  refine ⟨⟨appends, hsame.trans happends⟩, fun _ _ _ => ?_, hnext h' inp r s hrely ⟨_, happends⟩ hx⟩
  change h'.shared.entries <+: (h'.ran i c op inp r s).shared.entries
  rw [hsame]

/-- The next record of a listing, put while it is the next of the store. -/
theorem put_next {appends now : List AuditAppend} {a : AuditAppend}
    (hbefore : chainOf sanitizeUntrustedOutput localeCompare sha256 appends <+:
      chainOf sanitizeUntrustedOutput localeCompare sha256 now)
    (hfresh : auditSeqKey (appends.length + 1) ∉
      (chainOf sanitizeUntrustedOutput localeCompare sha256 now).map Prod.fst) :
    (chainOf sanitizeUntrustedOutput localeCompare sha256 now).put
        (auditSeqKey (appends.length + 1))
        (recordAt sanitizeUntrustedOutput localeCompare sha256 appends.length
          (lastDigest sanitizeUntrustedOutput localeCompare sha256 0 "GENESIS" appends) a) =
      chainOf sanitizeUntrustedOutput localeCompare sha256 (appends ++ [a]) := by
  have hlength := hbefore.length_le
  rw [entriesFrom_length, entriesFrom_length] at hlength
  have hsame := hbefore.eq_of_length (by
    rw [mem_entriesFrom_keys] at hfresh
    rw [entriesFrom_length, entriesFrom_length]
    omega)
  rw [AuditStore.put_fresh hfresh, ← hsame, chainOf, chainOf, entriesFrom_append, Nat.zero_add]

/-- The record is in the store. -/
def Stored (record : JsValue) (h : AuditHist) : Prop := record ∈ h.shared.entries.map Prod.snd

theorem putRecord_safe {a : AuditAppend}
    (hlisted : chainOf sanitizeUntrustedOutput localeCompare sha256 appends <+: h.shared.entries)
    {record : JsValue} (hrecord : record = recordAt sanitizeUntrustedOutput localeCompare sha256
      appends.length (lastDigest sanitizeUntrustedOutput localeCompare sha256 0 "GENESIS" appends)
      a) :
    AuditSafe sanitizeUntrustedOutput localeCompare sha256 store parseDate i c
      (fun out h => ∀ record, out = .ok record → Stored record h)
      ((Prog.call (.put (auditSeqKey (appends.length + 1)) record) .resume : AuditProg Unit).bind
        fun _ => .ret record) h := by
  intro h₁ inp r s hbefore hinv hx hok
  obtain ⟨now, hnow⟩ := hinv
  replace hbefore := hlisted.trans hbefore
  simp only [auditSystem, auditExec, Option.some.injEq, Prod.mk.injEq] at hx
  obtain ⟨rfl, hs⟩ := hx
  by_cases hlands : inp.lands = true
  · -- the put goes through, so its key is a new one
    rw [if_pos hlands] at hs
    have hlast := Hist.Always.last hok rfl
    have hfresh : auditSeqKey (appends.length + 1) ∉ h₁.shared.entries.map Prod.fst :=
      hlast (auditSeqKey (appends.length + 1), record) (if_pos hlands)
    have hafter : s.entries = h₁.shared.entries ++ [(auditSeqKey (appends.length + 1), record)] := by
      rw [← hs, AuditStore.put_fresh hfresh]
    rw [hnow] at hbefore hfresh
    have hchain := put_next (a := a) hbefore hfresh
    rw [← hrecord, ← hnow] at hchain
    refine ⟨⟨_, (congrArg AuditShared.entries hs).symm.trans hchain⟩, fun _ _ _ => ?_, ?_⟩
    · change h₁.shared.entries <+: s.entries
      exact hafter ▸ List.prefix_append _ _
    · have hstored : Stored record (h₁.ran i c (.put (auditSeqKey (appends.length + 1)) record) inp
          (guarded inp.fault ()) s) := by
        change record ∈ s.entries.map Prod.snd
        rw [hafter]
        simp
      cases guarded inp.fault () with
      | error x => rintro _ ⟨⟩
      | ok _ =>
        rintro _ ⟨⟩
        exact hstored
  · rw [if_neg hlands] at hs
    subst hs
    refine ⟨⟨now, hnow⟩, fun _ _ _ => List.prefix_refl _, ?_⟩
    obtain ⟨x, hx⟩ : ∃ x, inp.fault = some x := by
      cases hfault : inp.fault with
      | none => simp [AuditInput.lands, hfault] at hlands
      | some x => exact ⟨x, rfl⟩
    rw [hx]
    rintro _ ⟨⟩

theorem appendAuditInternal_safe (hsha : ∀ text, (sha256 text).length = 64)
    {rawEvent : RawAuditEvent} :
    AuditSafe sanitizeUntrustedOutput localeCompare sha256 store parseDate i c
      (fun out h => ∀ record, out = .ok record → Stored record h)
      (appendAuditInternal sanitizeUntrustedOutput localeCompare sha256 rawEvent) h := by
  unfold appendAuditInternal
  refine auditQuiet_safe (fun _ _ hop => by cases hop) fun h₁ inp r s _ hinv hx => ?_
  obtain ⟨appends, happends⟩ := hinv
  simp only [auditExec, Option.some.injEq, Prod.mk.injEq] at hx
  obtain ⟨rfl, rfl⟩ := hx
  cases hlist : guarded inp.fault (listed store parseDate h₁.shared.entries) with
  | error x =>
    rintro record ⟨⟩
  | ok existing =>
    obtain rfl := guarded_ok hlist
    refine auditQuiet_safe (fun _ _ hop => by cases hop) fun h₂ inp₂ now s₂ hbefore₂ _ hx₂ => ?_
    cases hx₂
    dsimp only [Prog.bind]
    cases hnow : inp₂.now.toISOString with
    | error x =>
      rintro record ⟨⟩
    | ok recordedAt =>
      have hnext : nextRecord sanitizeUntrustedOutput localeCompare sha256
          (listed store parseDate h₁.shared.entries) (isoText recordedAt) rawEvent =
          (appends.length + 1, auditRecord localeCompare sha256 (appends.length + 1)
            (isoText recordedAt) (.str (lastDigest sanitizeUntrustedOutput localeCompare sha256 0
              "GENESIS" appends)) (sanitizedEvent sanitizeUntrustedOutput rawEvent
                (appends.length + 1) (isoText recordedAt))) := by
        rw [happends, nextRecord_entries hsha]
      simp only [Prog.resume_ok, Prog.bind_def, Prog.bind_ret, Prog.pure_def]
      rw [hnext]
      exact putRecord_safe (a := ⟨recordedAt, rawEvent⟩) (happends ▸ hbefore₂) rfl

theorem Stored.later {record : JsValue} {h h' : AuditHist} (hs : Stored record h)
    (hbefore : h.shared.entries <+: h'.shared.entries) : Stored record h' :=
  (hbefore.sublist.map Prod.snd).subset hs

theorem enqueueAudit_safe (hsha : ∀ text, (sha256 text).length = 64) {chain : ℕ}
    {rawEvent : RawAuditEvent} :
    AuditSafe sanitizeUntrustedOutput localeCompare sha256 store parseDate i c
      (fun out h => ∀ record, out = .ok record → Stored record h)
      (enqueueAudit sanitizeUntrustedOutput localeCompare sha256 chain rawEvent) h := by
  refine auditQuiet_safe (fun _ _ hop => by cases hop) fun h₁ _ ahead _ _ _ _ => ?_
  refine auditQuiet_safe (fun _ _ hop => by cases hop) fun h₂ _ _ _ _ _ _ => ?_
  refine (appendAuditInternal_safe hsha).settle fun out h₃ hout => ?_
  refine auditQuiet_safe (fun _ _ hop => by cases hop) fun h₄ inp r s hbefore _ hx => ?_
  have hsame := quiet_entries hx fun _ _ hop => by cases hop
  cases out with
  | error x => rintro _ ⟨⟩
  | ok record =>
    rintro _ ⟨⟩
    exact ((hout record rfl).later hbefore).later (hsame ▸ List.prefix_refl _)

theorem listAfterChain_safe {chain : ℕ} :
    AuditSafe sanitizeUntrustedOutput localeCompare sha256 store parseDate i c
      (fun _ _ => True) (listAfterChain chain) h := by
  refine auditQuiet_safe (fun _ _ hop => by cases hop) fun h₁ _ ahead _ _ _ _ => ?_
  refine auditQuiet_safe (fun _ _ hop => by cases hop) fun h₂ _ _ _ _ _ _ => ?_
  refine auditQuiet_safe (fun _ _ hop => by cases hop) fun h₃ _ listing _ _ _ _ => ?_
  cases listing <;> trivial

/-- What an append that has returned has left in the store. -/
def AuditDone (out : Except Thrown AuditReply) (h : AuditHist) : Prop :=
  ∀ record, out = .ok (.appended record) → Stored record h

theorem auditBody_safe (hsha : ∀ text, (sha256 text).length = 64) :
    AuditSafe sanitizeUntrustedOutput localeCompare sha256 store parseDate i c AuditDone
      (c.body sanitizeUntrustedOutput localeCompare sha256) h := by
  obtain ⟨chain, call⟩ := c
  cases call with
  | appendAudit rawEvent =>
    refine (enqueueAudit_safe hsha).bind (fun record h₁ hstored => ?_) fun x h₁ _ => ?_
    · rintro _ ⟨⟩
      exact hstored record rfl
    · rintro _ ⟨⟩
  | queryAudit query =>
    refine listAfterChain_safe.bind (fun listing h₁ _ => ?_) fun x h₁ _ => ?_
    · rintro _ ⟨⟩
    · rintro _ ⟨⟩
  | verifyAuditChain =>
    refine listAfterChain_safe.bind (fun listing h₁ _ => ?_) fun x h₁ _ => ?_
    · rintro _ ⟨⟩
    · rintro _ ⟨⟩

theorem auditUpheld (hsha : ∀ text, (sha256 text).length = 64) :
    (auditContract sanitizeUntrustedOutput localeCompare sha256).Upheld
      (auditSystem sanitizeUntrustedOutput localeCompare sha256 store parseDate)
      fun _ _ => AuditDone where
  okPrefix _ _ _ hok := hok.past
  refl _ _ _ := List.prefix_refl _
  trans _ _ _ _ _ := List.IsPrefix.trans
  began h i c s inv _ _ hadm _ := by
    cases hadm
    exact ⟨inv, fun _ _ _ => List.prefix_refl _, auditBody_safe hsha⟩
  crashed h p inv _ := ⟨inv, fun _ _ _ => List.prefix_refl _⟩

theorem auditInv_start : (auditContract sanitizeUntrustedOutput localeCompare sha256).Inv
    ⟨[], emptyAudit⟩ := ⟨[], rfl⟩

/-- Nothing is taken from the store again. -/
theorem audit_mono (hsha : ∀ text, (sha256 text).length = 64) {cfg cfg' : AuditConfig}
    (hr : Reach (auditSystem sanitizeUntrustedOutput localeCompare sha256 store parseDate)
      emptyAudit cfg)
    (hlater : Relation.ReflTransGen
      (Step (auditSystem sanitizeUntrustedOutput localeCompare sha256 store parseDate)) cfg cfg')
    (hok : cfg'.hist.Always Apart) :
    cfg.hist.Always Apart ∧ cfg.hist.shared.entries <+: cfg'.hist.shared.entries := by
  have U : (auditContract sanitizeUntrustedOutput localeCompare sha256).Upheld
      (auditSystem sanitizeUntrustedOutput localeCompare sha256 store parseDate)
      fun _ _ => AuditDone := auditUpheld hsha
  let R : AuditHist → AuditHist → Prop := fun h h' =>
    h'.Always Apart → h.Always Apart ∧ h.shared.entries <+: h'.shared.entries
  have step : ∀ a b, Reach (auditSystem sanitizeUntrustedOutput localeCompare sha256 store
      parseDate) emptyAudit a → Step (auditSystem sanitizeUntrustedOutput localeCompare sha256 store
        parseDate) a b → R a.hist b.hist := by
    intro a b ha hab hokb
    obtain ⟨p, hp⟩ := Infinite.exists_notMem_finset b.hist.dead.toFinset
    exact ⟨U.okBefore hab hokb, U.bystander auditInv_start ha hab hokb
      (d := ⟨p, .verifyAuditChain⟩) le_rfl (by simpa [auditSystem] using hp)⟩
  have hR : R cfg.hist cfg'.hist := (Reach.later (R := R) (fun h hok => ⟨hok, List.prefix_refl _⟩)
    (fun _ _ _ h₁ h₂ hok => ⟨(h₁ (h₂ hok).1).1, (h₁ (h₂ hok).1).2.trans (h₂ hok).2⟩) step hr
    hlater).1
  exact hR hok

/-- What a call that lists finds is what the store held at a moment of the call. -/
theorem listAfterChain_ends {cfg : AuditConfig}
    (hr : Reach (auditSystem sanitizeUntrustedOutput localeCompare sha256 store parseDate)
      emptyAudit cfg) {j chain : ℕ} {l : List JsValue}
    (hends : Ends (listAfterChain chain) (cfg.hist.entriesOf j) (.ok l)) :
    ∃ e ∈ cfg.hist.entriesOf j, l = listed store parseDate e.before.entries := by
  obtain ⟨_, _, _, _, _, _, es₁, hes₁, h₁⟩ := Ends.call_iff.mp hends
  obtain ⟨_, _, _, _, _, _, es₂, rfl, h₂⟩ := Ends.call_iff.mp h₁
  obtain ⟨i, c, inp, r, before, after, es₃, rfl, h₃⟩ := Ends.call_iff.mp h₂
  obtain ⟨rfl, rfl⟩ := Ends.resume_iff.mp h₃
  have hmem : (⟨i, c, .list, inp, .ok l, before, after⟩ : AuditEntry) ∈ cfg.hist.entriesOf j := by
    rw [hes₁]
    simp
  have hx := hr.executed (List.mem_of_mem_filter hmem)
  simp only [auditSystem, auditExec, Option.some.injEq, Prod.mk.injEq] at hx
  exact ⟨_, hmem, (guarded_ok hx.1).symm⟩

theorem auditRecords_mem (hsha : ∀ text, (sha256 text).length = 64) {record : JsValue}
    (h : record ∈ (chainOf sanitizeUntrustedOutput localeCompare sha256 appends).map Prod.snd) :
    store.reload parseDate record ∈ auditRecords (listed store parseDate
      (chainOf sanitizeUntrustedOutput localeCompare sha256 appends)) := by
  obtain ⟨kv, hkv, rfl⟩ := List.mem_map.mp h
  have hlisted : store.reload parseDate kv.2 ∈ listed store parseDate
      (chainOf sanitizeUntrustedOutput localeCompare sha256 appends) := List.mem_map_of_mem hkv
  obtain ⟨hevent, hnumber⟩ := listed_records hsha notIso_genesis _ hlisted
  rw [auditRecords, mem_sortBy, List.mem_filter, hevent, hnumber]
  exact ⟨hlisted, rfl⟩

/-- The records of a chain that all keep their texts make it valid. -/
theorem chainOf_valid (hsha : ∀ text, (sha256 text).length = 64)
    (h : ∀ kv ∈ chainOf sanitizeUntrustedOutput localeCompare sha256 appends,
      survives kv.2 = true) :
    (verifyAuditChain localeCompare sha256 (listed store parseDate
      (chainOf sanitizeUntrustedOutput localeCompare sha256 appends))).valid = true := by
  have hall : ∀ {n : ℕ} {prev : String} {as : List AuditAppend}, isIsoDateString prev = false →
      (∀ kv ∈ entriesFrom sanitizeUntrustedOutput localeCompare sha256 n prev as,
        survives kv.2 = true) → ∀ a ∈ as, a.survives sanitizeUntrustedOutput = true := by
    intro n prev as hprev h
    induction as generalizing n prev with
    | nil => intro a ha; cases ha
    | cons a rest ih =>
      rw [entriesFrom, List.forall_mem_cons] at h
      rw [List.forall_mem_cons]
      exact ⟨(survives_recordAt hsha hprev).mp h.1, ih (notIso_digestAt hsha) h.2⟩
  exact chain_valid hsha (hall notIso_genesis h)

/-- What the log of a run amounts to. -/
structure AuditKept (sanitizeUntrustedOutput : String → String)
    (localeCompare : String → String → Ordering) (sha256 : String → String)
    (store : RevivingStore) (parseDate : String → JsDate) (cfg : AuditConfig) : Prop where
  /-- An event whose append has returned is in what is queried from then on. -/
  present : ∀ cfg₀ i c record,
    Reach (auditSystem sanitizeUntrustedOutput localeCompare sha256 store parseDate) emptyAudit cfg₀ →
    Relation.ReflTransGen (Step (auditSystem sanitizeUntrustedOutput localeCompare sha256 store
      parseDate)) cfg₀ cfg → cfg₀.returned i = some (c, .appended record) →
    ∀ j d query records, cfg₀.threads.length ≤ j → cfg.returned j = some (d, .queried records) →
      d.call = .queryAudit query → query.limit = none →
      query.takes (store.reload parseDate record) = true →
      store.reload parseDate record ∈ records
  /-- The chain is valid if the store has not changed a record's text. -/
  chained : (∀ kv ∈ cfg.hist.shared.entries, survives kv.2 = true) →
    (verifyAuditChain localeCompare sha256
      (listed store parseDate cfg.hist.shared.entries)).valid = true
  verified : (∀ kv ∈ cfg.hist.shared.entries, survives kv.2 = true) →
    ∀ j d report, cfg.returned j = some (d, .verified report) → report.valid = true

/-- What a call that lists found, some time after the calls of an earlier moment. -/
theorem listed_later (hsha : ∀ text, (sha256 text).length = 64) {cfg₀ cfg : AuditConfig}
    (hr₀ : Reach (auditSystem sanitizeUntrustedOutput localeCompare sha256 store parseDate)
      emptyAudit cfg₀)
    (hlater : Relation.ReflTransGen (Step (auditSystem sanitizeUntrustedOutput localeCompare sha256
      store parseDate)) cfg₀ cfg) (hok : cfg.hist.Always Apart) {j chain : ℕ}
    (hj : cfg₀.threads.length ≤ j) {l : List JsValue}
    (hends : Ends (listAfterChain chain) (cfg.hist.entriesOf j) (.ok l)) :
    ∃ appends, l = listed store parseDate
        (chainOf sanitizeUntrustedOutput localeCompare sha256 appends) ∧
      cfg₀.hist.shared.entries <+: chainOf sanitizeUntrustedOutput localeCompare sha256 appends ∧
      chainOf sanitizeUntrustedOutput localeCompare sha256 appends <+: cfg.hist.shared.entries := by
  have hr := hr₀.trans hlater
  obtain ⟨e, he, rfl⟩ := listAfterChain_ends hr hends
  obtain ⟨hmem, hthread⟩ := List.mem_filter.mp he
  rcases Step.entry_later hlater hmem with hold | ⟨mid, h₁, h₂, hmid⟩
  · have hnone : e ∈ cfg₀.hist.entriesOf j := List.mem_filter.mpr ⟨hold, hthread⟩
    rw [entriesOf_fresh hr₀ hj] at hnone
    cases hnone
  · obtain ⟨hok', hpost⟩ := audit_mono hsha (hr₀.trans h₁) h₂ hok
    obtain ⟨-, hpre⟩ := audit_mono hsha hr₀ h₁ hok'
    obtain ⟨appends, happends⟩ := ((auditUpheld hsha).run auditInv_start (hr₀.trans h₁) hok').1
    rw [happends] at hpre hpost
    exact ⟨appends, by rw [← hmid, happends], hpre, hpost⟩

/-- Whatever the instances do, puts that replace no record lose none. -/
theorem audit_kept (hsha : ∀ text, (sha256 text).length = 64) {cfg : AuditConfig}
    (hr : Reach (auditSystem sanitizeUntrustedOutput localeCompare sha256 store parseDate)
      emptyAudit cfg) (hok : cfg.hist.Always Apart) :
    AuditKept sanitizeUntrustedOutput localeCompare sha256 store parseDate cfg := by
  have U : (auditContract sanitizeUntrustedOutput localeCompare sha256).Upheld
      (auditSystem sanitizeUntrustedOutput localeCompare sha256 store parseDate)
      fun _ _ => AuditDone := auditUpheld hsha
  constructor
  · intro cfg₀ i c record hr₀ hlater hret j d query records hj hqueried hcall hlimit htakes
    have hends := hr.ends (o := .ok (.queried records)) (Config.returned_eq_some hqueried)
    obtain ⟨chain, call⟩ := d
    obtain rfl : call = .queryAudit query := hcall
    obtain ⟨out, hout, hlist⟩ := Ends.map_iff.mp hends
    cases out with
    | error x => cases hout
    | ok l =>
      cases hout
      obtain ⟨appends, rfl, hpre, -⟩ := listed_later hsha hr₀ hlater hok hj hlist
      obtain ⟨h₀, hrely, hstored⟩ := U.finished (o := .ok (.appended record)) auditInv_start hr₀
        (audit_mono hsha hr₀ hlater hok).1 (Config.returned_eq_some hret)
      have hrecord : record ∈ cfg₀.hist.shared.entries.map Prod.snd :=
        (hstored record rfl).later hrely
      rw [queriedRecords, hlimit]
      exact List.mem_filter.mpr ⟨auditRecords_mem hsha ((hpre.sublist.map Prod.snd).subset hrecord),
        htakes⟩
  · intro hsurvive
    obtain ⟨appends, happends⟩ := (U.run auditInv_start hr hok).1
    rw [happends] at hsurvive ⊢
    exact chainOf_valid hsha hsurvive
  · intro hsurvive j d report hverified
    have hends := hr.ends (o := .ok (.verified report)) (Config.returned_eq_some hverified)
    obtain ⟨chain, call⟩ := d
    cases call with
    | verifyAuditChain =>
      obtain ⟨out, hout, hlist⟩ := Ends.map_iff.mp hends
      cases out with
      | error x => cases hout
      | ok l =>
        cases hout
        obtain ⟨appends, rfl, -, hpost⟩ :=
          listed_later hsha .start hr.steps hok (Nat.zero_le j) hlist
        exact chainOf_valid hsha fun kv hkv => hsurvive kv (hpost.subset hkv)
    | appendAudit rawEvent =>
      obtain ⟨out, hout, -⟩ := Ends.map_iff.mp hends
      cases out <;> cases hout
    | queryAudit query =>
      obtain ⟨out, hout, -⟩ := Ends.map_iff.mp hends
      cases out <;> cases hout

end Kept
/-! Two instances, and one event of each. -/

def runStatus (now : Timestamp) : AuditAppend :=
  ⟨now, ⟨some (.finite 0), "run.status", none, none, none, none, none, .obj []⟩⟩

/-- What the digest of a first record is taken of. -/
def firstText (type : String) : String :=
  "\x7b\"event\":\x7b\"data\":\x7b\x7d,\"seq\":0,\"timestamp\":\"+010000-01-01T00:00:00.000Z\"," ++
  "\"type\":\"" ++ type ++ "\"\x7d,\"prevDigest\":\"GENESIS\"," ++
  "\"recordedAt\":\"+010000-01-01T00:00:00.000Z\",\"seq\":\"0000000001\"\x7d"

/-- The digests of the texts that the two runs below hash: either event's as the first, and the
second event's after the first. -/
def twoDigest (text : String) : String :=
  if text = firstText "run.created" then
    "5e7964a377d2c882f73e874e9db2d00ec8bf259af2c9ad1392f46226b3b67f53"
  else if text = firstText "run.status" then
    "ffb0d90a6be8c4768e06c54cbbdf93deaff38be843afa62cfe27e05f856ea956"
  else "f65c8272eb32ef2fdbcd6b2d4a73db135a02357484d056d360ca61eac8a3a0d6"

theorem twoDigest_length (text : String) : (twoDigest text).length = 64 := by
  unfold twoDigest
  split_ifs <;> exact String.length_ofList

abbrev twoSystem : System AuditOp AuditRes Thrown AuditReply AuditRequest ℕ AuditInput AuditShared :=
  auditSystem id compare twoDigest .jsonFile fun _ => none

/-- So many commands of thread `i`. -/
def auditSteps (i n : ℕ) : List (Action AuditRequest ℕ AuditInput) :=
  List.replicate n (.run i ⟨some yearTenThousand, none, false⟩)

def appendsBegin : List (Action AuditRequest ℕ AuditInput) :=
  [.begin ⟨0, .appendAudit (runCreated yearTenThousand).event⟩,
    .begin ⟨1, .appendAudit (runStatus yearTenThousand).event⟩]

def everything : GoalAuditQuery := ⟨none, none, none, none, none, none, none⟩

def queryEverything : List (Action AuditRequest ℕ AuditInput) :=
  .begin ⟨0, .queryAudit everything⟩ :: auditSteps 2 3

/-- The first append has returned, and a later query shows no event of its type. -/
def lost (before after : AuditConfig) : Bool :=
  match before.returned 0, after.returned 2 with
  | some (_, .appended record), some (⟨_, .queryAudit query⟩, .queried records) =>
    let type := fun v : JsValue => (v.get "event").get "type"
    let shown := RevivingStore.reload .jsonFile (fun _ => none) record
    before.threads.length ≤ 2 && query.limit.isNone && query.takes shown &&
      strictEqual (type shown) (type shown) &&
      records.all fun v => !strictEqual (type v) (type shown)
  | _, _ => false

theorem not_kept_of_lost {before after : AuditConfig} (hr : Reach twoSystem emptyAudit before)
    (hlater : Relation.ReflTransGen (Step twoSystem) before after)
    (h : lost before after = true) :
    ¬ AuditKept id compare twoDigest .jsonFile (fun _ => none) after := by
  intro hkept
  unfold lost at h
  split at h
  · rename_i c record chain query records hret hqueried
    simp only [Bool.and_eq_true, decide_eq_true_eq, Option.isNone_iff_eq_none,
      List.all_eq_true, Bool.not_eq_true'] at h
    obtain ⟨⟨⟨⟨hlength, hlimit⟩, htakes⟩, hsame⟩, hnone⟩ := h
    have hmem := hkept.present before 0 c record hr hlater hret 2 _ query records hlength hqueried
      rfl hlimit htakes
    rw [hnone _ hmem] at hsame
    cases hsame
  · cases h

/-- Both list before either puts: the second record takes the place of the first. -/
theorem raced_lost : ∃ cfg, Reach twoSystem emptyAudit cfg ∧
    ¬ AuditKept id compare twoDigest .jsonFile (fun _ => none) cfg := by
  have h : ((schedule twoSystem (appendsBegin ++ auditSteps 0 4 ++ auditSteps 1 4 ++
      auditSteps 0 2 ++ auditSteps 1 2) (.start emptyAudit)).any fun before =>
        (schedule twoSystem queryEverything before).any fun after => lost before after) = true := by
    decide +kernel
  obtain ⟨before, hbefore, h⟩ := (Option.any_eq_true _ _).mp h
  obtain ⟨after, hafter, hlost⟩ := (Option.any_eq_true _ _).mp h
  have hr := schedule_reach .start hbefore
  exact ⟨after, schedule_reach hr hafter, not_kept_of_lost hr (schedule_steps hafter) hlost⟩

def apart (_ : AuditHist) (e : AuditEntry) : Bool :=
  (landing e).all fun kv => kv.1 ∉ e.before.entries.map Prod.fst

theorem apart_sound (h : AuditHist) (e : AuditEntry) (hcheck : apart h e = true) : Apart h e := by
  intro kv hkv
  simpa [apart, hkv] using hcheck

/-- One after the other they are both kept. -/
theorem audit_kept_two : ∃ cfg, Reach twoSystem emptyAudit cfg ∧
    cfg.hist.shared.entries.length = 2 ∧
    AuditKept id compare twoDigest .jsonFile (fun _ => none) cfg := by
  have h : (schedule twoSystem (appendsBegin ++ auditSteps 0 6 ++ auditSteps 1 6 ++ queryEverything)
      (.start emptyAudit)).any (fun cfg => cfg.hist.shared.entries.length = 2 &&
        Hist.checkFrom apart [] cfg.hist.events) = true := by
    decide +kernel
  obtain ⟨cfg, hr, hcheck⟩ := Reach.of_check h
  obtain ⟨hlength, hapart⟩ := Bool.and_eq_true_iff.mp hcheck
  exact ⟨cfg, hr, of_decide_eq_true hlength,
    audit_kept twoDigest_length hr (Hist.always_of_check apart_sound hapart)⟩

end Wazir.Goals
