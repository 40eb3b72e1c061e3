import Wazir.Goals.PromptStore
import Wazir.Shared.KeyedLists

/-! The version chain of the prompts. A slot is claimed by a call that has seen the version before it
and that holds its process's mutex for the executor key; what the call found when it looked for the
key's head is part of the history. -/

namespace Wazir.Goals.Prompts

open Wazir.Async PromptStore

/-- The versions of a prompt are the numbers from 1 to `n`. -/
def VersionsTo (id : PromptId) (n : ℕ) (s : PromptShared) : Prop :=
  ∀ v, (s.versions.lookup (id, v)).isSome ↔ 1 ≤ v ∧ v ≤ n

/-- The record that a command wrote, if it filled an empty slot. -/
def written : PromptEntry → Option PromptVersionRecord
  | ⟨_, _, .claimSlot record, _, _, before, after⟩ =>
    if before.versions.lookup record.key = none then after.versions.lookup record.key else none
  | _ => none

/-- A call under the mutex of an executor key; `passed` once it has found no head of another
prompt. -/
structure Section where
  process : ℕ
  executorKey : String
  promptId : PromptId
  passed : Bool
  deriving DecidableEq

def inSection (s : Option Section) : PromptEntry → Option Section
  | ⟨_, _, .acquire process executorKey promptId, _, _, _, _⟩ =>
    some ⟨process, executorKey, promptId, false⟩
  | ⟨_, _, .release _ _, _, _, _, _⟩ => none
  | ⟨_, _, .getHead _, _, .ok head, _, _⟩ =>
    s.map fun σ => { σ with passed := head.all (·.promptId = σ.promptId) }
  | _ => s

/-- Where thread `i` is. -/
def sectionOf (h : PromptHist) (i : ℕ) : Option Section := (h.entriesOf i).foldl inSection none

def Stored (h : PromptHist) (record : PromptVersionRecord) : Prop :=
  h.shared.versions.lookup record.key = some record

/-- A call that finds no head finds no version of another prompt under its key, and no call for
another prompt that has found none either in another process. -/
def Settles (h : PromptHist) : PromptEntry → Prop
  | ⟨i, _, .getHead executorKey, _, .ok none, _, _⟩ => ∀ σ, sectionOf h i = some σ →
      (∀ record, Stored h record → record.executorKey = executorKey → record.id = σ.promptId) ∧
      ∀ j τ, sectionOf h j = some τ → τ.passed = true → τ.process ∉ h.dead →
        τ.process ≠ σ.process → τ.executorKey = executorKey → τ.promptId = σ.promptId
  | _ => True

def Settled (h : PromptHist) : Prop := h.Always Settles

variable {inp : PromptInput} {s : PromptShared} {op : PromptOp} {c : PromptRequest}

section Sections

variable {h : PromptHist} {i j : ℕ}

@[simp] theorem sectionOf_began :
    sectionOf (h.push (.began j c) s) i = sectionOf h i := by
  simp [sectionOf]

@[simp] theorem sectionOf_crashed {p : ℕ} :
    sectionOf (h.push (.crashed p) s) i = sectionOf h i := by
  simp [sectionOf]

theorem sectionOf_ran {r : PromptRes op} : sectionOf (h.ran i c op inp r s) i =
      inSection (sectionOf h i) ⟨i, c, op, inp, r, h.shared, s⟩ := by
  simp [sectionOf, Hist.ran, Hist.entriesOf_push_ran]

theorem sectionOf_ran_ne {r : PromptRes op} (hij : j ≠ i) :
    sectionOf (h.ran i c op inp r s) j = sectionOf h j := by
  simp [sectionOf, Hist.ran, Hist.entriesOf_push_ran, hij.symm]

end Sections

variable {executorKey : String}

section Chain

variable (tools : PromptTools) (settled : Prop)

structure StoreInv (h : PromptHist) : Prop where
  contiguous : ∀ id, ∃ n, VersionsTo id n h.shared
  linked : ∀ key record, h.shared.versions.lookup key = some record → record.key = key ∧
    tools.promptDigest record.toPromptContent = record.digest
  oneKey : ∀ record record', Stored h record → Stored h record' → record.id = record'.id →
    record.executorKey = record'.executorKey
  heads : ∀ executorKey head, h.shared.heads.lookup executorKey = some head →
    ∃ record, Stored h record ∧ record.id = head.promptId ∧ record.executorKey = executorKey
  writes : ∀ record, Stored h record ↔ record ∈ h.entries.filterMap written
  once : ((h.entries.filterMap written).map PromptVersionRecord.key).Nodup

/-- Every version under the key is one of the prompt, and so is every call that has passed. -/
def Clear (h : PromptHist) (executorKey : String) (promptId : PromptId) : Prop :=
  (∀ record, Stored h record → record.executorKey = executorKey → record.id = promptId) ∧
    ∀ j τ, sectionOf h j = some τ → τ.passed = true → τ.process ∉ h.dead →
      τ.executorKey = executorKey → τ.promptId = promptId

structure PromptInv (h : PromptHist) : Prop extends StoreInv tools h where
  /-- Two calls of one process are not under one key. -/
  apart : ∀ i σ, sectionOf h i = some σ → σ.process ∉ h.dead →
    (σ.process, σ.executorKey) ∈ h.shared.running ∧ ∀ j τ, j ≠ i → sectionOf h j = some τ →
      τ.process = σ.process → τ.executorKey ≠ σ.executorKey
  passed : settled → ∀ i σ, sectionOf h i = some σ → σ.passed = true → σ.process ∉ h.dead →
    Clear h σ.executorKey σ.promptId
  bound : settled → ∀ record record', Stored h record → Stored h record' →
    record.executorKey = record'.executorKey → record.id = record'.id

/-- What a call must know before a command. -/
def Founded (i : ℕ) (op : PromptOp) (h : PromptHist) : Prop :=
  match op with
  | .release process executorKey =>
    ∃ σ, sectionOf h i = some σ ∧ σ.process = process ∧ σ.executorKey = executorKey
  | .getHead executorKey => ∀ σ, sectionOf h i = some σ → σ.executorKey = executorKey
  | .claimSlot record =>
    tools.promptDigest record.toPromptContent = record.digest ∧
    (∃ n, record.version = n + 1 ∧ (n = 0 ∨ ∃ before, Stored h before ∧ before.key = (record.id, n) ∧
      before.executorKey = record.executorKey)) ∧
    ∃ σ, sectionOf h i = some σ ∧ σ.passed = true ∧ σ.process ∉ h.dead ∧
      σ.executorKey = record.executorKey ∧ σ.promptId = record.id
  | .moveHead record => Stored h record
  | _ => True

/-- The others only add versions, and leave a living process alive. -/
def promptContract : Contract PromptOp PromptRes PromptRequest ℕ PromptInput PromptShared where
  Ok h := settled → Settled h
  Inv := PromptInv tools settled
  Rely i c h h' := (∀ record, Stored h record → Stored h' record) ∧
    h'.entriesOf i = h.entriesOf i ∧ (c.process ∉ h.dead → c.process ∉ h'.dead)

variable {tools settled} {h h' : PromptHist} {i : ℕ} {c : PromptRequest}

theorem stored_congr (hversions : ∀ key, h'.shared.versions.lookup key = h.shared.versions.lookup key)
    (record : PromptVersionRecord) : Stored h' record ↔ Stored h record := by
  rw [Stored, Stored, hversions]

theorem StoreInv.quiet (inv : StoreInv tools h)
    (hversions : ∀ key, h'.shared.versions.lookup key = h.shared.versions.lookup key)
    (hwrites : h'.entries.filterMap written = h.entries.filterMap written)
    (hheads : ∀ executorKey head, h'.shared.heads.lookup executorKey = some head →
      ∃ record, Stored h record ∧ record.id = head.promptId ∧ record.executorKey = executorKey) :
    StoreInv tools h' where
  contiguous id := by
    obtain ⟨n, hn⟩ := inv.contiguous id
    exact ⟨n, fun v => by rw [hversions, hn v]⟩
  linked key record := by
    rw [hversions]
    exact inv.linked key record
  oneKey record record' := by
    rw [stored_congr hversions, stored_congr hversions]
    exact inv.oneKey record record'
  heads executorKey head hhead := by
    obtain ⟨record, hrecord, h₁, h₂⟩ := hheads executorKey head hhead
    exact ⟨record, (stored_congr hversions record).2 hrecord, h₁, h₂⟩
  writes record := by
    rw [stored_congr hversions, hwrites]
    exact inv.writes record
  once := by
    rw [hwrites]
    exact inv.once

/-- Nothing happens to the versions or to the calls under a mutex. -/
theorem PromptInv.quiet (inv : PromptInv tools settled h)
    (hversions : ∀ key, h'.shared.versions.lookup key = h.shared.versions.lookup key)
    (hwrites : h'.entries.filterMap written = h.entries.filterMap written)
    (hheads : ∀ executorKey head, h'.shared.heads.lookup executorKey = some head →
      ∃ record, Stored h record ∧ record.id = head.promptId ∧ record.executorKey = executorKey)
    (hsections : ∀ i, sectionOf h' i = sectionOf h i) (hdead : h.dead ⊆ h'.dead)
    (hrunning : ∀ p k, p ∉ h'.dead → (p, k) ∈ h.shared.running → (p, k) ∈ h'.shared.running) :
    PromptInv tools settled h' where
  toStoreInv := inv.toStoreInv.quiet hversions hwrites hheads
  apart i σ hσ halive := by
    rw [hsections] at hσ
    obtain ⟨hmem, hapart⟩ := inv.apart i σ hσ fun hd => halive (hdead hd)
    refine ⟨hrunning _ _ halive hmem, fun j τ hj hτ => ?_⟩
    rw [hsections] at hτ
    exact hapart j τ hj hτ
  passed hs i σ hσ hpassed halive := by
    rw [hsections] at hσ
    obtain ⟨hrecords, hcalls⟩ := inv.passed hs i σ hσ hpassed fun hd => halive (hdead hd)
    refine ⟨fun record => ?_, fun j τ hτ hp ha => ?_⟩
    · rw [stored_congr hversions]
      exact hrecords record
    · rw [hsections] at hτ
      exact hcalls j τ hτ hp fun hd => ha (hdead hd)
  bound hs record record' := by
    rw [stored_congr hversions, stored_congr hversions]
    exact inv.bound hs record record'

theorem VersionsTo.unique {id : PromptId} {n : ℕ} (h : ∃ m, VersionsTo id m s)
    (hn : n = 0 ∨ (s.versions.lookup (id, n)).isSome) (hnext : s.versions.lookup (id, n + 1) = none) :
    VersionsTo id n s := by
  obtain ⟨m, hm⟩ := h
  have hle : n ≤ m := by
    obtain rfl | hn := hn
    · exact Nat.zero_le m
    · exact ((hm n).1 hn).2
  have hlt : ¬ n + 1 ≤ m := by
    intro hle
    have hsome := (hm (n + 1)).2 ⟨by omega, hle⟩
    simp [hnext] at hsome
  obtain rfl : n = m := by omega
  exact hm

/-- A record in an empty slot, one above the last version. -/
theorem StoreInv.claimed (inv : StoreInv tools h) {record : PromptVersionRecord} {n : ℕ}
    (hempty : h.shared.versions.lookup record.key = none)
    (hdigest : tools.promptDigest record.toPromptContent = record.digest)
    (hversion : record.version = n + 1)
    (hbefore : n = 0 ∨ ∃ before, Stored h before ∧ before.key = (record.id, n) ∧
      before.executorKey = record.executorKey)
    (hversions : h'.shared.versions = h.shared.versions.insert record.key record)
    (hwrites : h'.entries.filterMap written = h.entries.filterMap written ++ [record])
    (hheads : h'.shared.heads = h.shared.heads) :
    StoreInv tools h' ∧ ∀ other, Stored h' other ↔ Stored h other ∨ other = record := by
  have hkey : record.key = (record.id, n + 1) := by rw [PromptVersionRecord.key, hversion]
  have hstored : ∀ other, Stored h' other ↔ Stored h other ∨ other = record := by
    intro other
    rw [Stored, Stored, hversions]
    by_cases hk : other.key = record.key
    · rw [hk, AList.lookup_insert, hempty]
      simp [eq_comm]
    · rw [AList.lookup_insert_ne hk]
      exact (or_iff_left fun heq : other = record => hk (heq ▸ rfl)).symm
  have hprior : n = 0 ∨ (h.shared.versions.lookup (record.id, n)).isSome := by
    obtain rfl | ⟨before, hstored, hk, -⟩ := hbefore
    · exact .inl rfl
    · exact .inr (by rw [← hk, hstored]; rfl)
  have hto := VersionsTo.unique (inv.contiguous record.id) hprior (hkey ▸ hempty)
  -- all versions of the prompt have the key of the one before
  have hsame : ∀ other, Stored h other → other.id = record.id →
      other.executorKey = record.executorKey := by
    intro other hother hid
    have hv : 1 ≤ other.version ∧ other.version ≤ n :=
      (hto other.version).1 (by rw [← hid]; exact hother ▸ rfl)
    obtain rfl | ⟨before, hstored, hk, hexec⟩ := hbefore
    · omega
    · have hbid : before.id = record.id := congrArg Prod.fst hk
      exact (inv.oneKey other before hother hstored (hid.trans hbid.symm)).trans hexec
  refine ⟨?_, hstored⟩
  constructor
  · intro id
    by_cases hid : id = record.id
    · subst hid
      refine ⟨n + 1, fun v => ?_⟩
      rw [hversions]
      by_cases hv : v = n + 1
      · subst hv
        rw [← hkey, AList.lookup_insert]
        simp
      · rw [AList.lookup_insert_ne (by simp [hkey, hv]), hto v]
        omega
    · obtain ⟨m, hm⟩ := inv.contiguous id
      refine ⟨m, fun v => ?_⟩
      rw [hversions, AList.lookup_insert_ne (by simp [hkey, hid]), hm v]
  · intro key other hlookup
    rw [hversions] at hlookup
    by_cases hk : key = record.key
    · subst hk
      rw [AList.lookup_insert] at hlookup
      obtain rfl := Option.some.inj hlookup
      exact ⟨rfl, hdigest⟩
    · rw [AList.lookup_insert_ne hk] at hlookup
      exact inv.linked key other hlookup
  · intro a b ha hb hid
    obtain ha | rfl := (hstored a).1 ha
    · obtain hb | rfl := (hstored b).1 hb
      · exact inv.oneKey a b ha hb hid
      · exact hsame a ha hid
    · obtain hb | rfl := (hstored b).1 hb
      · exact (hsame b hb hid.symm).symm
      · rfl
  · intro executorKey head hhead
    rw [hheads] at hhead
    obtain ⟨other, hother, h₁, h₂⟩ := inv.heads executorKey head hhead
    exact ⟨other, (hstored other).2 (.inl hother), h₁, h₂⟩
  · intro other
    rw [hstored, hwrites, inv.writes other, List.mem_append, List.mem_singleton]
  · rw [hwrites, List.map_append]
    refine List.nodup_append.2 ⟨inv.once, by simp, ?_⟩
    intro a ha b hb heq
    obtain ⟨other, hother, rfl⟩ := List.mem_map.1 ha
    obtain rfl : b = record.key := by simpa using hb
    have hlookup : Stored h other := (inv.writes other).2 hother
    rw [Stored, heq, hempty] at hlookup
    cases hlookup

/-! One command. -/

theorem dead_ran {r : PromptRes op} :
    (h.ran i c op inp r s).dead = h.dead := by
  simp [Hist.ran]

theorem writes_ran {r : PromptRes op} :
    (h.ran i c op inp r s).entries.filterMap written =
      h.entries.filterMap written ++ (written ⟨i, c, op, inp, r, h.shared, s⟩).toList := by
  cases hw : written ⟨i, c, op, inp, r, h.shared, s⟩ <;> simp [Hist.ran, hw]

/-- A command that leaves versions and mutex alone, and where the thread is. -/
theorem PromptInv.command (inv : PromptInv tools settled h) {r : PromptRes op}
    (hversions : ∀ key, s.versions.lookup key = h.shared.versions.lookup key)
    (hwritten : written ⟨i, c, op, inp, r, h.shared, s⟩ = none)
    (hheads : ∀ executorKey head, s.heads.lookup executorKey = some head →
      ∃ record, Stored h record ∧ record.id = head.promptId ∧ record.executorKey = executorKey)
    (hsection : inSection (sectionOf h i) ⟨i, c, op, inp, r, h.shared, s⟩ = sectionOf h i)
    (hrunning : s.running = h.shared.running) : PromptInv tools settled (h.ran i c op inp r s) := by
  refine inv.quiet hversions ?_ hheads (fun j => ?_) ?_ fun p k _ hmem => ?_
  · rw [writes_ran, hwritten]
    simp
  · by_cases hj : j = i
    · subst hj
      rw [sectionOf_ran, hsection]
    · exact sectionOf_ran_ne hj
  · rw [dead_ran]
    exact List.Subset.refl _
  · show (p, k) ∈ s.running
    exact hrunning ▸ hmem

/-- The mutex of the process is the thread's own. -/
theorem section_ran_cases {r : PromptRes op} {j : ℕ} {τ : Section}
    (hτ : sectionOf (h.ran i c op inp r s) j = some τ) :
    j = i ∧ inSection (sectionOf h i) ⟨i, c, op, inp, r, h.shared, s⟩ = some τ ∨
      j ≠ i ∧ sectionOf h j = some τ := by
  by_cases hj : j = i
  · subst hj
    exact .inl ⟨rfl, sectionOf_ran ▸ hτ⟩
  · exact .inr ⟨hj, sectionOf_ran_ne hj ▸ hτ⟩

/-- A command that stores nothing. -/
theorem StoreInv.ran (inv : StoreInv tools h) {r : PromptRes op}
    (hversions : s.versions = h.shared.versions) (hheads : s.heads = h.shared.heads)
    (hwritten : written ⟨i, c, op, inp, r, h.shared, s⟩ = none) :
    StoreInv tools (h.ran i c op inp r s) := by
  refine inv.quiet (fun key => congrArg (AList.lookup key) hversions) ?_ fun executorKey head hhead => ?_
  · rw [writes_ran, hwritten]
    simp
  · exact inv.heads executorKey head (hheads ▸ hhead)

/-- A call takes its turn: nobody else of its process is under the key. -/
theorem PromptInv.acquired (inv : PromptInv tools settled h) {process : ℕ} {promptId : PromptId}
    (hfree : (process, executorKey) ∉ h.shared.running) :
    PromptInv tools settled (h.ran i c (.acquire process executorKey promptId) inp ()
      { h.shared with running := (process, executorKey) :: h.shared.running }) where
  toStoreInv := inv.toStoreInv.ran rfl rfl rfl
  apart j σ hσ halive := by
    rw [dead_ran] at halive
    obtain ⟨rfl, heq⟩ | ⟨hj, hσ⟩ := section_ran_cases hσ
    · obtain rfl := Option.some.inj heq
      refine ⟨List.mem_cons_self, fun k τ hk hτ hp hkey => ?_⟩
      rw [sectionOf_ran_ne hk] at hτ
      have hmem := (inv.apart k τ hτ (hp ▸ halive)).1
      rw [hp, hkey] at hmem
      exact hfree hmem
    · obtain ⟨hmem, hapart⟩ := inv.apart j σ hσ halive
      refine ⟨List.mem_cons_of_mem _ hmem, fun k τ hk hτ hp hkey => ?_⟩
      obtain ⟨rfl, heq⟩ | ⟨_, hτ⟩ := section_ran_cases hτ
      · obtain rfl := Option.some.inj heq
        rw [← hp, ← hkey] at hmem
        exact hfree hmem
      · exact hapart k τ hk hτ hp hkey
  passed hs j σ hσ hpassed halive := by
    rw [dead_ran] at halive
    have before : ∀ {k τ}, sectionOf (h.ran i c (.acquire process executorKey promptId) inp ()
        { h.shared with running := (process, executorKey) :: h.shared.running }) k = some τ →
        τ.passed = true → sectionOf h k = some τ := by
      intro k τ hτ hp
      obtain ⟨rfl, heq⟩ | ⟨_, hτ⟩ := section_ran_cases hτ
      · obtain rfl := Option.some.inj heq
        cases hp
      · exact hτ
    obtain ⟨hrecords, hcalls⟩ := inv.passed hs j σ (before hσ hpassed) hpassed halive
    refine ⟨hrecords, fun k τ hτ hp ha => hcalls k τ (before hτ hp) hp ?_⟩
    rwa [dead_ran] at ha
  bound := inv.bound

/-- The end of a call's own turn. -/
theorem PromptInv.released (inv : PromptInv tools settled h) {process : ℕ}
    (hf : Founded tools i (.release process executorKey) h) :
    PromptInv tools settled (h.ran i c (.release process executorKey) inp ()
      { h.shared with running := h.shared.running.erase (process, executorKey) }) := by
  obtain ⟨own, hown, rfl, rfl⟩ := hf
  have before : ∀ {k τ}, sectionOf (h.ran i c (.release own.process own.executorKey) inp ()
      { h.shared with running := h.shared.running.erase (own.process, own.executorKey) }) k = some τ →
      k ≠ i ∧ sectionOf h k = some τ := by
    intro k τ hτ
    obtain ⟨rfl, heq⟩ | hk := section_ran_cases hτ
    · cases heq
    · exact hk
  constructor
  · exact inv.toStoreInv.ran rfl rfl rfl
  · intro j σ hσ halive
    rw [dead_ran] at halive
    obtain ⟨hj, hσ⟩ := before hσ
    obtain ⟨hmem, hapart⟩ := inv.apart j σ hσ halive
    refine ⟨(List.mem_erase_of_ne fun heq => ?_).2 hmem, fun k τ hk hτ => hapart k τ hk (before hτ).2⟩
    obtain ⟨hp, hkey⟩ := Prod.mk.inj heq
    exact hapart i own hj.symm hown hp.symm hkey.symm
  · intro hs j σ hσ hpassed halive
    rw [dead_ran] at halive
    obtain ⟨hrecords, hcalls⟩ := inv.passed hs j σ (before hσ).2 hpassed halive
    refine ⟨hrecords, fun k τ hτ hp ha => hcalls k τ (before hτ).2 hp ?_⟩
    rwa [dead_ran] at ha
  · exact inv.bound

/-- What a call finds that passes the check of the head: no version and no other passed call is of
another prompt. -/
theorem PromptInv.headClear (inv : PromptInv tools settled h) (hs : settled) {σ : Section}
    (hσ : sectionOf h i = some σ) (halive : σ.process ∉ h.dead)
    (hok : Settled (h.ran i c (.getHead σ.executorKey) inp
      (.ok (h.shared.heads.lookup σ.executorKey)) h.shared))
    (hpassed : (h.shared.heads.lookup σ.executorKey).all (·.promptId = σ.promptId) = true) :
    (∀ record, Stored h record → record.executorKey = σ.executorKey → record.id = σ.promptId) ∧
      ∀ j τ, j ≠ i → sectionOf h j = some τ → τ.passed = true → τ.process ∉ h.dead →
        τ.executorKey = σ.executorKey → τ.promptId = σ.promptId := by
  cases hhead : h.shared.heads.lookup σ.executorKey with
  | none =>
    rw [hhead] at hok
    obtain ⟨hrecords, hcalls⟩ := Hist.Always.last hok rfl σ hσ
    refine ⟨hrecords, fun j τ hj hτ hp ha hkey => ?_⟩
    have hprocess : τ.process ≠ σ.process := fun heq =>
      (inv.apart i σ hσ halive).2 j τ hj hτ heq hkey
    exact hcalls j τ hτ hp ha hprocess hkey
  | some head =>
    obtain ⟨first, hfirst, hid, hkey⟩ := inv.heads _ _ hhead
    have hsame : first.id = σ.promptId := by
      rw [hid]
      simpa [hhead] using hpassed
    refine ⟨fun record hrecord hk => ?_, fun j τ hj hτ hp ha hk => ?_⟩
    · exact (inv.bound hs record first hrecord hfirst (hk.trans hkey.symm)).trans hsame
    · have hclear := (inv.passed hs j τ hτ hp ha).1 first hfirst (hkey.trans hk.symm)
      exact hclear.symm.trans hsame

/-- The check of the head. -/
theorem PromptInv.checked (inv : PromptInv tools settled h)
    (hf : Founded tools i (.getHead executorKey) h)
    (hok : settled → Settled (h.ran i c (.getHead executorKey) inp
      (.ok (h.shared.heads.lookup executorKey)) h.shared)) :
    PromptInv tools settled (h.ran i c (.getHead executorKey) inp
      (.ok (h.shared.heads.lookup executorKey)) h.shared) := by
  -- the thread's own section but for `passed`
  have before : ∀ {k τ}, sectionOf (h.ran i c (.getHead executorKey) inp
      (.ok (h.shared.heads.lookup executorKey)) h.shared) k = some τ →
      (k ≠ i ∧ sectionOf h k = some τ) ∨ ∃ σ, k = i ∧ sectionOf h i = some σ ∧
        τ = { σ with passed := (h.shared.heads.lookup executorKey).all (·.promptId = σ.promptId) } := by
    intro k τ hτ
    obtain ⟨rfl, heq⟩ | hk := section_ran_cases hτ
    · obtain ⟨σ, hσ, rfl⟩ := Option.map_eq_some_iff.1 heq
      exact .inr ⟨σ, rfl, hσ, rfl⟩
    · exact .inl hk
  have place : ∀ {k τ}, sectionOf (h.ran i c (.getHead executorKey) inp
      (.ok (h.shared.heads.lookup executorKey)) h.shared) k = some τ → ∃ σ, sectionOf h k = some σ ∧
        σ.process = τ.process ∧ σ.executorKey = τ.executorKey := by
    intro k τ hτ
    obtain ⟨_, hτ⟩ | ⟨σ, rfl, hσ, rfl⟩ := before hτ
    · exact ⟨τ, hτ, rfl, rfl⟩
    · exact ⟨σ, hσ, rfl, rfl⟩
  constructor
  · exact inv.toStoreInv.ran rfl rfl rfl
  · intro j σ hσ halive
    rw [dead_ran] at halive
    obtain ⟨σ₀, hσ₀, hp, hkey⟩ := place hσ
    obtain ⟨hmem, hapart⟩ := inv.apart j σ₀ hσ₀ (hp ▸ halive)
    refine ⟨hp ▸ hkey ▸ hmem, fun k τ hk hτ hpτ => ?_⟩
    obtain ⟨τ₀, hτ₀, hp₀, hkey₀⟩ := place hτ
    rw [← hkey, ← hkey₀]
    exact hapart k τ₀ hk hτ₀ (hp₀.trans (hpτ.trans hp.symm))
  · intro hs j σ hσ hpassed halive
    rw [dead_ran] at halive
    obtain ⟨hj, hσ₀⟩ | ⟨own, rfl, hown, rfl⟩ := before hσ
    · obtain ⟨hrecords, hcalls⟩ := inv.passed hs j σ hσ₀ hpassed halive
      refine ⟨hrecords, fun k τ hτ hp ha hkey => ?_⟩
      rw [dead_ran] at ha
      obtain ⟨_, hτ⟩ | ⟨own, rfl, hown, rfl⟩ := before hτ
      · exact hcalls k τ hτ hp ha hkey
      · obtain rfl := hf own hown
        exact ((inv.headClear hs hown ha (hok hs) hp).2 j σ hj hσ₀ hpassed halive hkey.symm).symm
    · obtain rfl := hf own hown
      obtain ⟨hrecords, hcalls⟩ := inv.headClear hs hown halive (hok hs) hpassed
      refine ⟨hrecords, fun k τ hτ hp ha hkey => ?_⟩
      rw [dead_ran] at ha
      obtain ⟨hk, hτ⟩ | ⟨other, rfl, hother, rfl⟩ := before hτ
      · exact hcalls k τ hk hτ hp ha hkey
      · rw [hown] at hother
        obtain rfl := Option.some.inj hother
        rfl
  · exact inv.bound

/-- A slot that was empty. -/
theorem PromptInv.slotClaimed (inv : PromptInv tools settled h) {record : PromptVersionRecord}
    (hf : Founded tools i (.claimSlot record) h) {r : PromptRes (.claimSlot record)}
    (hempty : h.shared.versions.lookup record.key = none) :
    PromptInv tools settled (h.ran i c (.claimSlot record) inp r
      { h.shared with versions := h.shared.versions.insert record.key record }) := by
  obtain ⟨hdigest, ⟨n, hversion, hbefore⟩, own, hown, hpass, hlive, hkey, hid⟩ := hf
  have hwrites : (h.ran i c (.claimSlot record) inp r
      { h.shared with versions := h.shared.versions.insert record.key record }).entries.filterMap
        written = h.entries.filterMap written ++ [record] := by
    rw [writes_ran]
    simp [written, hempty]
  have hclaim := inv.toStoreInv.claimed hempty hdigest hversion hbefore rfl hwrites rfl
  obtain ⟨hstore, hstored⟩ := hclaim
  have before : ∀ k, sectionOf (h.ran i c (.claimSlot record) inp r
      { h.shared with versions := h.shared.versions.insert record.key record }) k = sectionOf h k := by
    intro k
    by_cases hk : k = i
    · subst hk
      exact sectionOf_ran
    · exact sectionOf_ran_ne hk
  constructor
  · exact hstore
  · intro j σ hσ halive
    rw [dead_ran] at halive
    obtain ⟨hmem, hapart⟩ := inv.apart j σ (before j ▸ hσ) halive
    exact ⟨hmem, fun k τ hk hτ => hapart k τ hk (before k ▸ hτ)⟩
  · intro hs j σ hσ hpassed halive
    rw [dead_ran] at halive
    rw [before] at hσ
    obtain ⟨hrecords, hcalls⟩ := inv.passed hs j σ hσ hpassed halive
    refine ⟨fun other hother hk => ?_, fun k τ hτ hp ha => ?_⟩
    · obtain hother | rfl := (hstored other).1 hother
      · exact hrecords other hother hk
      · exact hid.symm.trans (hcalls i own hown hpass hlive (hkey.trans hk))
    · rw [dead_ran] at ha
      exact hcalls k τ (before k ▸ hτ) hp ha
  · intro hs
    have hclear := (inv.passed hs i own hown hpass hlive).1
    have hnew : ∀ other, Stored h other → other.executorKey = record.executorKey →
        other.id = record.id := fun other hother hk =>
      (hclear other hother (hk.trans hkey.symm)).trans hid
    intro a b ha hb hk
    obtain ha₀ | rfl := (hstored a).1 ha
    · obtain hb₀ | rfl := (hstored b).1 hb
      · exact inv.bound hs a b ha₀ hb₀ hk
      · exact hnew a ha₀ hk
    · obtain hb₀ | rfl := (hstored b).1 hb
      · exact (hnew b hb₀ hk.symm).symm
      · rfl

theorem updated_state {α : Type} {a : α} {s s' t : PromptShared} {r : Except Thrown α}
    (hx : updated inp a s s' = some (r, t)) : t = s ∨ t = s' := by
  unfold updated at hx
  split at hx
  · cases hx
    exact .inr rfl
  · cases hx
    split_ifs
    · exact .inr rfl
    · exact .inl rfl

/-- A head that is moved stays on a version of its key. -/
theorem StoreInv.headMoved (inv : StoreInv tools h) {record : PromptVersionRecord}
    (hrecord : Stored h record) (executorKey : String) (head : PromptHead)
    (hhead : (h.shared.heads.insert record.executorKey
      (movedHead record (h.shared.heads.lookup record.executorKey))).lookup executorKey = some head) :
    ∃ other, Stored h other ∧ other.id = head.promptId ∧ other.executorKey = executorKey := by
  by_cases hk : executorKey = record.executorKey
  · subst hk
    rw [AList.lookup_insert] at hhead
    obtain rfl := Option.some.inj hhead
    cases hold : h.shared.heads.lookup record.executorKey with
    | none => exact ⟨record, hrecord, rfl, rfl⟩
    | some old =>
      dsimp only [movedHead]
      split_ifs
      · exact ⟨record, hrecord, rfl, rfl⟩
      · exact inv.heads _ _ hold
  · rw [AList.lookup_insert_ne hk] at hhead
    exact inv.heads executorKey head hhead

/-- What a command of a call that knows enough does. -/
theorem promptInv_ran {r : PromptRes op} (inv : PromptInv tools settled h)
    (hf : Founded tools i op h) (hx : promptExec op inp h.shared = some (r, s))
    (hok : settled → Settled (h.ran i c op inp r s)) :
    PromptInv tools settled (h.ran i c op inp r s) ∧
      ∀ record, Stored h record → Stored (h.ran i c op inp r s) record := by
  cases op with
  | acquire process executorKey promptId =>
    simp only [promptExec] at hx
    split_ifs at hx with hbusy
    cases hx
    exact ⟨inv.acquired hbusy, fun _ hr => hr⟩
  | release process executorKey =>
    cases hx
    exact ⟨inv.released hf, fun _ hr => hr⟩
  | getHead executorKey =>
    simp only [promptExec, Option.some.injEq, Prod.mk.injEq] at hx
    obtain ⟨hr, rfl⟩ := hx
    cases hfault : inp.fault with
    | none =>
      rw [hfault] at hr
      subst hr
      exact ⟨inv.checked hf hok, fun _ hr => hr⟩
    | some e =>
      rw [hfault] at hr
      subst hr
      exact ⟨inv.command (fun _ => rfl) rfl inv.heads rfl rfl, fun _ hr => hr⟩
  | claimSlot record =>
    cases hslot : h.shared.versions.lookup record.key with
    | none =>
      simp only [promptExec, hslot, Option.getD_none] at hx
      obtain rfl | rfl := updated_state hx
      · exact ⟨inv.command (fun _ => rfl) (by simp [written, hslot]) inv.heads rfl rfl, fun _ hr => hr⟩
      · refine ⟨inv.slotClaimed hf hslot, fun other hother => ?_⟩
        have hk : other.key ≠ record.key := by
          intro heq
          rw [Stored, heq, hslot] at hother
          cases hother
        exact (AList.lookup_insert_ne hk).trans hother
    | some old =>
      simp only [promptExec, hslot, Option.getD_some] at hx
      have hsame : ∀ key, s.versions.lookup key = h.shared.versions.lookup key := by
        intro key
        obtain rfl | rfl := updated_state hx
        · rfl
        · by_cases hk : key = record.key
          · rw [hk, AList.lookup_insert, hslot]
          · exact AList.lookup_insert_ne hk
      have hrest : s.heads = h.shared.heads ∧ s.running = h.shared.running := by
        obtain rfl | rfl := updated_state hx <;> exact ⟨rfl, rfl⟩
      refine ⟨inv.command hsame (by simp [written, hslot]) (hrest.1 ▸ inv.heads) rfl hrest.2, ?_⟩
      exact fun other hother => (hsame other.key).trans hother
  | moveHead record =>
    simp only [promptExec] at hx
    obtain rfl | rfl := updated_state hx
    · exact ⟨inv.command (fun _ => rfl) rfl inv.heads rfl rfl, fun _ hr => hr⟩
    · refine ⟨inv.command (fun _ => rfl) rfl (inv.toStoreInv.headMoved hf) rfl rfl, fun _ hr => hr⟩
  | clock | getVersion _ _ | listVersions _ | onEvent _ =>
    cases hx
    exact ⟨inv.command (fun _ => rfl) rfl inv.heads rfl rfl, fun _ hr => hr⟩

end Chain

end Wazir.Goals.Prompts
