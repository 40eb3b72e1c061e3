import Wazir.Goals.PromptChain

/-! What the calls know on their way, and what the prompts of a run amount to. -/

namespace Wazir.Goals.Prompts

open Wazir.Async PromptStore

variable {latest : Option PromptVersionRecord} {promptId : PromptId} {actor : String} {σ : Section}

section Calls

variable {tools : PromptTools} {settled : Prop} {h : PromptHist} {i : ℕ} {c : PromptRequest}

/-- The call is alive, and there. -/
def At (i : ℕ) (c : PromptRequest) (place : Option Section) (h : PromptHist) : Prop :=
  sectionOf h i = place ∧ c.process ∉ h.dead

variable (tools settled i c) in
abbrev PromptSafe {α : Type} (Q : Except Thrown α → PromptHist → Prop) (p : PromptProg α)
    (h : PromptHist) : Prop :=
  Safe (promptSystem tools) (promptContract tools settled) i c Q p h

variable (tools settled i c) in
abbrev PromptStable (A : PromptHist → Prop) : Prop := Stable (promptContract tools settled) i c A

theorem At.stable {place : Option Section} : PromptStable tools settled i c (At i c place) := by
  intro h h' hr hat
  refine ⟨?_, hr.2.2 hat.2⟩
  rw [sectionOf, hr.2.1]
  exact hat.1

theorem stored_stable {record : PromptVersionRecord} :
    PromptStable tools settled i c fun h => Stored h record :=
  fun _ _ hr hs => hr.1 record hs

theorem latest_stable :
    PromptStable tools settled i c fun h => ∀ last ∈ latest, Stored h last :=
  fun _ _ hr hs last hl => hr.1 last (hs last hl)

theorem At.ran {place : Option Section} (hat : At i c place h) (op : PromptOp) (inp : PromptInput)
    (r : PromptRes op) (s : PromptShared) :
    At i c (inSection place ⟨i, c, op, inp, r, h.shared, s⟩) (h.ran i c op inp r s) := by
  refine ⟨?_, ?_⟩
  · rw [sectionOf_ran, hat.1]
  · rw [dead_ran]
    exact hat.2

/-- One command: it is founded on what the call knows, and the rest goes on from there. -/
theorem prompt_call {α : Type} {op : PromptOp} {next : PromptRes op → PromptProg α}
    {Q : Except Thrown α → PromptHist → Prop} {A : PromptHist → Prop}
    (stable : PromptStable tools settled i c A) (founded : ∀ h, A h → Founded tools i op h)
    (rest : ∀ h inp r s, A h → PromptInv tools settled h →
      promptExec op inp h.shared = some (r, s) →
      (∀ record, Stored h record → Stored (h.ran i c op inp r s) record) →
      PromptSafe tools settled i c Q (next r) (h.ran i c op inp r s))
    (ha : A h) : PromptSafe tools settled i c Q (.call op next) h := by
  intro h' inp r s hrely hinv hx hok
  have ha' := stable h h' hrely ha
  obtain ⟨hinv', hgrow⟩ := promptInv_ran hinv (founded h' ha') hx hok
  refine ⟨hinv', fun j d hj => ⟨hgrow, ?_, fun hd => ?_⟩, rest h' inp r s ha' hinv hx hgrow⟩
  · simp [Hist.ran, Hist.entriesOf_push_ran, hj.symm]
  · rwa [dead_ran]

/-- What holds of a result, with what holds either way. -/
def Keeps {α : Type} (A : PromptHist → Prop) (P : α → PromptHist → Prop) :
    Except Thrown α → PromptHist → Prop
  | .ok a, h => A h ∧ P a h
  | .error _, h => A h

theorem mem_versionsOf {s : PromptShared} {record : PromptVersionRecord}
    (hr : record ∈ versionsOf s promptId) : record.id = promptId ∧
      ∃ key, s.versions.lookup key = some record := by
  obtain ⟨hmem, hid⟩ := List.mem_filter.1 (mem_sortBy.1 hr)
  obtain ⟨⟨key, value⟩, hentry, rfl⟩ := List.mem_map.1 hmem
  exact ⟨by simpa using hid, key, AList.mem_lookup_iff.2 hentry⟩

theorem listVersions_safe {place : Option Section} (hat : At i c place h) :
    PromptSafe tools settled i c
      (Keeps (At i c place) fun all h => ∀ record ∈ all, record.id = promptId ∧ Stored h record)
      (.call (.listVersions promptId) .resume) h := by
  refine prompt_call At.stable (fun _ _ => trivial) (fun h₁ inp r s hat₁ hinv hx _ => ?_) hat
  simp only [promptExec, Option.some.injEq, Prod.mk.injEq] at hx
  obtain ⟨hr, rfl⟩ := hx
  have hend := hat₁.ran (.listVersions promptId) inp r h₁.shared
  cases r with
  | error x => exact hend
  | ok all =>
    refine ⟨hend, fun record hrecord => ?_⟩
    cases hfault : inp.fault with
    | some x => rw [hfault] at hr; cases hr
    | none =>
      rw [hfault] at hr
      cases hr
      obtain ⟨hid, key, hlookup⟩ := mem_versionsOf hrecord
      refine ⟨hid, ?_⟩
      obtain ⟨rfl, -⟩ := hinv.linked key record hlookup
      exact hlookup

theorem moveHead_safe {place : Option Section} {record : PromptVersionRecord} (hat : At i c place h)
    (hrecord : Stored h record) : PromptSafe tools settled i c
      (Keeps (At i c place) fun _ _ => True) (moveHead record) h := by
  refine prompt_call (At.stable.and stored_stable) (fun _ ha => ha.2)
    (fun h₁ inp r s ha _ _ _ => ?_) ⟨hat, hrecord⟩
  have hend := ha.1.ran (.moveHead record) inp r s
  cases r with
  | error x => exact hend
  | ok _ => exact ⟨hend, trivial⟩

theorem updated_ok {α : Type} {inp : PromptInput} {a a' : α} {s s' t : PromptShared}
    (hx : updated inp a s s' = some (.ok a', t)) : a' = a ∧ t = s' := by
  unfold updated at hx
  split at hx
  · cases hx
    exact ⟨rfl, rfl⟩
  · cases hx

/-- A claim that returns its own record has stored it, or found it there. -/
theorem claimSlot_safe {record : PromptVersionRecord} (hat : At i c (some σ) h)
    (hp : σ.process = c.process) (hpassed : σ.passed = true)
    (hkey : σ.executorKey = record.executorKey) (hid : σ.promptId = record.id)
    (hdigest : tools.promptDigest record.toPromptContent = record.digest) {n : ℕ}
    (hversion : record.version = n + 1) (hlatest : ∀ last ∈ latest, Stored h last)
    (hbefore : n = 0 ∨ ∃ last ∈ latest, last.key = (record.id, n) ∧
      last.executorKey = record.executorKey) :
    PromptSafe tools settled i c
      (Keeps (At i c (some σ)) fun claimed h => claimed = true → Stored h record)
      (PromptStore.claimSlot record) h := by
  refine prompt_call (At.stable.and latest_stable) (fun h₁ ha => ?_)
    (fun h₁ inp r s ha _ hx _ => ?_) ⟨hat, hlatest⟩
  · obtain ⟨⟨hσ, halive⟩, hstored⟩ := ha
    refine ⟨hdigest, ⟨n, hversion, ?_⟩, σ, hσ, hpassed, hp ▸ halive, hkey, hid⟩
    obtain rfl | ⟨last, hlast, hk, hexec⟩ := hbefore
    · exact .inl rfl
    · exact .inr ⟨last, hstored last hlast, hk, hexec⟩
  · have hend := ha.1.ran (.claimSlot record) inp r s
    cases r with
    | error x => exact hend
    | ok stored =>
      refine ⟨hend, fun heq => ?_⟩
      obtain rfl : stored = record := of_decide_eq_true heq
      obtain ⟨hsame, rfl⟩ := updated_ok hx
      exact (AList.lookup_insert _).trans (congrArg some hsame.symm)

theorem findSame_safe {place : Option Section} {mode : WriteMode} {id : PromptId} {digest : String}
    (hat : At i c place h) (hlatest : ∀ last ∈ latest, Stored h last) : PromptSafe tools settled i c
      (Keeps (At i c place) fun _ h => ∀ last ∈ latest, Stored h last)
      (findSame mode id digest latest) h := by
  unfold findSame
  cases hsame : latest.filter (·.digest = digest) with
  | some same =>
    have hmem : same ∈ latest := (Option.filter_eq_some_iff.1 hsame).1
    refine prompt_call (At.stable.and latest_stable) (fun _ ha => ha.2 same hmem)
      (fun h₁ inp r s ha _ _ hgrow => ?_) ⟨hat, hlatest⟩
    have hend := ha.1.ran (.moveHead same) inp r s
    cases r with
    | error x => exact hend
    | ok _ => exact ⟨hend, fun last hl => hgrow last (ha.2 last hl)⟩
  | none =>
    dsimp only
    split_ifs
    · refine prompt_call (At.stable.and latest_stable) (fun _ _ => trivial)
        (fun h₁ inp r s ha _ _ hgrow => ?_) ⟨hat, hlatest⟩
      have hend := ha.1.ran (.listVersions id) inp r s
      cases r with
      | error x => exact hend
      | ok all => exact ⟨hend, fun last hl => hgrow last (ha.2 last hl)⟩
    · exact ⟨hat, hlatest⟩

theorem emit_safe {place : Option Section} {record : PromptVersionRecord} (hat : At i c place h) :
    PromptSafe tools settled i c (Keeps (At i c place) fun _ _ => True) (emit record) h :=
  prompt_call At.stable (fun _ _ => trivial) (fun _ _ _ _ ha _ _ _ => ⟨ha.ran _ _ _ _, trivial⟩) hat

/-- The check of the latest version leaves one of the same executor key. -/
theorem checkLatest_ok {mode : WriteMode} {expectedVersion : Option ℤ} {id : PromptId}
    {executorKey : String} {last : PromptVersionRecord}
    (hok : checkLatest mode expectedVersion id executorKey (some last) = .ok ()) :
    last.executorKey = executorKey := by
  by_contra hne
  simp only [checkLatest, if_pos hne] at hok
  split_ifs at hok <;> cases hok

/-- Induction on the attempts left: each finds the versions anew. -/
theorem attempts_safe {draft : PromptDraft} {mode : WriteMode} {content : PromptContent}
    (hp : σ.process = c.process) (hpassed : σ.passed = true)
    (hkey : σ.executorKey = content.executorKey) (left : ℕ) (hat : At i c (some σ) h) :
    PromptSafe tools settled i c (fun _ => At i c (some σ))
      (attempts tools draft actor mode σ.promptId content left) h := by
  induction left generalizing h with
  | zero => exact hat
  | succ left ih =>
    unfold attempts
    dsimp only [Prog.bind_def]
    refine (listVersions_safe hat).bind (fun all h₁ hall => ?_) fun _ _ herr => herr
    obtain ⟨hat₁, hall⟩ := hall
    have hlast : ∀ last ∈ all.getLast?, last.id = σ.promptId ∧ Stored h₁ last := fun last hl =>
      hall last (List.mem_of_getLast? hl)
    generalize all.getLast? = latest at hlast
    cases hcheck : checkLatest mode draft.expectedVersion σ.promptId content.executorKey latest with
    | error x => exact hat₁
    | ok _ =>
      simp only [Prog.resume_ok, Prog.bind_ret]
      refine (findSame_safe hat₁ fun last hl => (hlast last hl).2).bind (fun same h₂ hfound => ?_)
        fun _ _ herr => herr
      obtain ⟨hat₂, hstored⟩ := hfound
      cases same with
      | some same => exact hat₂
      | none =>
        refine prompt_call (At.stable.and latest_stable) (fun _ _ => trivial)
          (fun h₃ inp now s ha _ _ hgrow => ?_) ⟨hat₂, hstored⟩
        have hat₃ := ha.1.ran .clock inp now s
        dsimp only [Prog.bind_ret, Prog.bind_def]
        cases now with
        | none => exact hat₃
        | some createdAt =>
          simp only [JsDate.toISOString, Prog.resume_ok, Prog.bind_ret]
          refine (claimSlot_safe (n := (latest.map (·.version)).getD 0) hat₃ hp hpassed hkey rfl rfl
            rfl (fun last hl => hgrow last (ha.2 last hl)) ?_).bind (fun claimed h₄ hclaim => ?_)
            fun _ _ herr => herr
          · cases latest with
            | none => exact .inl rfl
            | some last =>
              have hid := (hlast last rfl).1
              exact .inr ⟨last, rfl, by rw [PromptVersionRecord.key, hid]; rfl, checkLatest_ok hcheck⟩
          · obtain ⟨hat₄, hown⟩ := hclaim
            cases claimed with
            | false => exact ih hat₄
            | true =>
              refine (moveHead_safe hat₄ (hown rfl)).bind (fun _ h₅ hmoved => ?_) fun _ _ herr => herr
              exact (emit_safe hmoved.1).bind (fun _ _ hend => hend.1) fun _ _ herr => herr

/-- The check of the head, and what follows it if it is passed. -/
theorem checked_safe {α : Type} {p : PromptProg α} (hat : At i c (some σ) h)
    (hbody : ∀ h, At i c (some { σ with passed := true }) h → PromptSafe tools settled i c
      (fun _ => At i c (some { σ with passed := true })) p h) :
    PromptSafe tools settled i c (fun _ h => ∃ passed, At i c (some { σ with passed := passed }) h)
      (do
        let boundHead ← (.call (.getHead σ.executorKey) .resume : PromptProg (Option PromptHead))
        (.resume (checkBound σ.executorKey σ.promptId boundHead) : PromptProg Unit)
        p) h := by
  dsimp only [Prog.bind_def]
  refine prompt_call At.stable (fun h₁ ha own hown => ?_) (fun h₁ inp r s ha _ _ _ => ?_) hat
  · obtain rfl := Option.some.inj (ha.1.symm.trans hown)
    rfl
  have hend := ha.ran (.getHead σ.executorKey) inp r s
  cases r with
  | error x => exact ⟨σ.passed, hend⟩
  | ok boundHead =>
    simp only [Prog.resume_ok, Prog.bind_ret]
    cases hcheck : checkBound σ.executorKey σ.promptId boundHead with
    | error x => exact ⟨_, hend⟩
    | ok _ =>
      simp only [Prog.resume_ok, Prog.bind_ret]
      have hpassed : boundHead.all (·.promptId = σ.promptId) = true := by
        cases boundHead with
        | none => rfl
        | some head =>
          simp only [checkBound] at hcheck
          split_ifs at hcheck with hother
          · cases hcheck
          · simpa using hother
      simp only [inSection, Option.map_some, hpassed] at hend
      exact (hbody _ hend).mono fun _ _ hq => ⟨true, hq⟩

/-- The turn of a call, from taking it to giving it back. -/
theorem locked_safe {α : Type} {p : PromptProg α} (hat : At i c none h)
    (hbody : ∀ h, At i c (some { σ with passed := false }) h → PromptSafe tools settled i c
      (fun _ h => ∃ passed, At i c (some { σ with passed := passed }) h) p h) :
    PromptSafe tools settled i c (fun _ => At i c none)
      (locked σ.process σ.executorKey σ.promptId p) h := by
  refine prompt_call At.stable (fun _ _ => trivial) (fun h₁ inp r s ha _ _ _ => ?_) hat
  have hin := ha.ran (.acquire σ.process σ.executorKey σ.promptId) inp r s
  refine (hbody _ hin).settle fun out h₂ ⟨passed, hat₂⟩ => ?_
  refine prompt_call (A := At i c (some { σ with passed := passed })) At.stable
    (fun h₃ ha => ⟨_, ha.1, rfl, rfl⟩) (fun h₃ inp r s ha _ _ _ => ?_) hat₂
  have hend := ha.ran (.release σ.process σ.executorKey) inp r s
  cases out <;> exact hend

theorem write_safe {draft : PromptDraft} {mode : WriteMode} (hat : At i c none h) :
    PromptSafe tools settled i c (fun _ => At i c none)
      (write tools c.process draft actor mode) h := by
  unfold write
  dsimp only [Prog.bind_def]
  cases checkActor actor with
  | error x => exact hat
  | ok _ =>
    simp only [Prog.resume_ok, Prog.bind_ret]
    cases normalizeDraft tools draft with
    | error x => exact hat
    | ok normal =>
      simp only [Prog.resume_ok, Prog.bind_ret]
      refine locked_safe (σ := ⟨c.process, (seeded tools mode.source normal.2).executorKey, normal.1,
        false⟩) hat fun h₁ hin => ?_
      exact checked_safe hin fun h₂ hpassed => attempts_safe rfl rfl rfl 16 hpassed

-- a call is more than a write, and its proof need not run one
attribute [local irreducible] write

theorem requireVersion_safe {version : ℤ} (hat : At i c none h) :
    PromptSafe tools settled i c (fun _ => At i c none) (requireVersion promptId version) h := by
  unfold requireVersion readVersion
  dsimp only [Prog.bind_def]
  split_ifs
  · exact hat
  · refine prompt_call At.stable (fun _ _ => trivial) (fun h₁ inp r s ha _ _ _ => ?_) hat
    have hend := ha.ran (.getVersion promptId version.toNat) inp r s
    cases r with
    | error x => exact hend
    | ok found => cases found <;> exact hend

theorem rollback_safe {toVersion : ℤ} {note : Option String} (hat : At i c none h) :
    PromptSafe tools settled i c (fun _ => At i c none)
      (rollback tools c.process promptId toVersion actor note) h := by
  unfold rollback
  dsimp only [Prog.bind_def]
  refine (requireVersion_safe hat).bind (fun target h₁ hat₁ => ?_) fun _ _ herr => herr
  exact write_safe hat₁

theorem seedFromGraph_safe (seeds : List PromptSeed) (hat : At i c none h) :
    PromptSafe tools settled i c (fun _ => At i c none)
      (seedFromGraph tools c.process actor seeds) h := by
  induction seeds generalizing h with
  | nil => exact hat
  | cons seed rest ih =>
    unfold seedFromGraph
    dsimp only [Prog.bind_def]
    refine (write_safe hat).bind (fun result h₁ hat₁ => ?_) fun _ _ herr => herr
    exact (ih hat₁).bind (fun results _ hend => hend) fun _ _ herr => herr

theorem listed_safe {p : PromptProg PublishResult}
    (hp : PromptSafe tools settled i c (fun _ => At i c none) p h) :
    PromptSafe tools settled i c (fun _ => At i c none) (([·]) <$> p) h :=
  hp.bind (fun _ _ hend => hend) fun _ _ herr => herr

theorem promptBody_safe (hat : At i c none h) :
    PromptSafe tools settled i c (fun _ => At i c none) (c.body tools) h := by
  unfold PromptRequest.body
  split
  · exact listed_safe (write_safe hat)
  · exact listed_safe (write_safe hat)
  · exact listed_safe (rollback_safe hat)
  · exact seedFromGraph_safe _ hat

theorem promptUpheld (tools : PromptTools) (settled : Prop) :
    (promptContract tools settled).Upheld (promptSystem tools) fun i c _ => At i c none where
  okPrefix h ev s hok hs := (hok hs).past
  refl _ _ _ := ⟨fun _ hr => hr, rfl, fun hd => hd⟩
  trans _ _ _ _ _ h₁ h₂ := ⟨fun record hr => h₂.1 record (h₁.1 record hr), h₂.2.1.trans h₁.2.1,
    fun hd => h₂.2.2 (h₁.2.2 hd)⟩
  began h i c s inv fresh alive hadm _ := by
    cases hadm
    refine ⟨inv.quiet (fun _ => rfl) (by rw [Hist.entries_push_began]) inv.heads
      (fun _ => sectionOf_began) (by simp) fun _ _ _ hmem => hmem, fun j d _ => ?_, ?_⟩
    · exact ⟨fun _ hr => hr, by simp, by simp⟩
    · refine promptBody_safe ⟨?_, by simpa [promptSystem] using alive⟩
      rw [sectionOf_began, sectionOf, fresh]
      rfl
  crashed h p inv _ := by
    refine ⟨inv.quiet (fun _ => rfl) (by rw [Hist.entries_push_crashed]) inv.heads
      (fun _ => sectionOf_crashed) (by simp) fun q k halive hmem => ?_, fun j d hd => ?_⟩
    · have hq : q ≠ p := by
        rintro rfl
        simp at halive
      exact List.mem_filter.2 ⟨hmem, by simpa using hq⟩
    · refine ⟨fun _ hr => hr, by simp, fun hlive => ?_⟩
      have hp : d.process ≠ p := hd
      simp [hlive, hp]

theorem promptInv_start (tools : PromptTools) (settled : Prop) :
    PromptInv tools settled ⟨[], emptyPrompts⟩ where
  contiguous _ := ⟨0, fun v => by simp [emptyPrompts]; omega⟩
  linked _ _ h := by simp [emptyPrompts] at h
  oneKey _ _ h := by simp [Stored, emptyPrompts] at h
  heads _ _ h := by simp [emptyPrompts] at h
  writes _ := by simp [Stored, emptyPrompts, Hist.entries]
  once := by simp [Hist.entries]
  apart _ _ h := by simp [sectionOf, Hist.entriesOf, Hist.entries] at h
  passed _ _ _ h := by simp [sectionOf, Hist.entriesOf, Hist.entries] at h
  bound _ _ _ h := by simp [Stored, emptyPrompts] at h

end Calls

/-! Whole runs. -/

/-- What the versions of a run are, wherever the calls met. -/
structure VersionsChained (tools : PromptTools) (cfg : PromptConfig) : Prop where
  contiguous : ∀ id, ∃ n, VersionsTo id n cfg.hist.shared
  ownSlot : ∀ key record, cfg.hist.shared.versions.lookup key = some record → record.key = key
  digest : ∀ record, Stored cfg.hist record →
    tools.promptDigest record.toPromptContent = record.digest
  writtenOnce : ∀ record, Stored cfg.hist record →
    (cfg.hist.entries.filterMap written).filter (·.key = record.key) = [record]
  unchanged : ∀ cfg', Relation.ReflTransGen (Step (promptSystem tools)) cfg cfg' →
    ∀ record, Stored cfg.hist record → Stored cfg'.hist record

/-- Every executor key has one prompt, now and in all that came before. -/
structure KeysBound (tools : PromptTools) (cfg : PromptConfig) : Prop where
  versions : ∀ record record', Stored cfg.hist record → Stored cfg.hist record' →
    record.executorKey = record'.executorKey → record.id = record'.id
  heads : ∀ before, Reach (promptSystem tools) emptyPrompts before →
    Relation.ReflTransGen (Step (promptSystem tools)) before cfg →
    ∀ executorKey head, before.hist.shared.heads.lookup executorKey = some head →
      (∀ record, Stored cfg.hist record → record.executorKey = executorKey →
        record.id = head.promptId) ∧
      ∀ later, cfg.hist.shared.heads.lookup executorKey = some later → later.promptId = head.promptId

section Runs

variable {tools : PromptTools} {cfg cfg' : PromptConfig}

theorem prompts_inv (settled : Prop) (hr : Reach (promptSystem tools) emptyPrompts cfg)
    (hok : settled → Settled cfg.hist) : PromptInv tools settled cfg.hist :=
  ((promptUpheld tools settled).run (promptInv_start tools settled) hr hok).1

theorem prompts_kept (hr : Reach (promptSystem tools) emptyPrompts cfg)
    (hlater : Relation.ReflTransGen (Step (promptSystem tools)) cfg cfg')
    {record : PromptVersionRecord} (hs : Stored cfg.hist record) : Stored cfg'.hist record := by
  let R : PromptHist → PromptHist → Prop := fun h h' => ∀ record, Stored h record → Stored h' record
  have U := promptUpheld tools False
  have step : ∀ a b, Reach (promptSystem tools) emptyPrompts a → Step (promptSystem tools) a b →
      R a.hist b.hist := by
    intro a b ha hab
    obtain ⟨p, hp⟩ := Infinite.exists_notMem_finset b.hist.dead.toFinset
    exact (U.bystander (promptInv_start tools False) ha hab False.elim (d := ⟨p, .seedFromGraph [] ""⟩)
      le_rfl (by simpa [promptSystem] using hp)).1
  exact (Reach.later (R := R) (fun _ _ hr => hr) (fun _ _ _ h₁ h₂ record hr => h₂ record (h₁ record hr))
    step hr hlater).1 record hs

/-- Every run of any number of processes keeps the versions chained; the keys stay bound as long as
no call finds its key's head missing while another prompt is under the key. -/
theorem prompts_chained (hr : Reach (promptSystem tools) emptyPrompts cfg) :
    VersionsChained tools cfg ∧ (Settled cfg.hist → KeysBound tools cfg) := by
  constructor
  · have inv := prompts_inv False hr False.elim
    constructor
    · exact inv.contiguous
    · exact fun key record hs => (inv.linked key record hs).1
    · exact fun record hs => (inv.linked _ record hs).2
    · exact fun record hs => filter_key_eq inv.once ((inv.writes record).1 hs)
    · exact fun cfg' hlater record hs => prompts_kept hr hlater hs
  · intro hsettled
    have inv := prompts_inv True hr fun _ => hsettled
    refine ⟨inv.bound trivial, fun before hbefore hlater executorKey head hhead => ?_⟩
    have invBefore := prompts_inv False hbefore False.elim
    obtain ⟨first, hfirst, hid, hkey⟩ := invBefore.heads executorKey head hhead
    have same : ∀ record, Stored cfg.hist record → record.executorKey = executorKey →
        record.id = head.promptId := by
      intro record hs hk
      rw [← hid]
      exact inv.bound trivial record first hs (prompts_kept hbefore hlater hfirst) (hk.trans hkey.symm)
    refine ⟨same, fun later hlate => ?_⟩
    obtain ⟨record, hs, hrid, hk⟩ := inv.heads executorKey later hlate
    exact hrid.symm.trans (same record hs hk)

end Runs

/-! A prompt of two versions, and two prompts of one key. -/

/-- The digests of the two contents that the runs below use. -/
def smallTools : PromptTools where
  promptDigest content := if content.template = "Do it." then
      "b7c68dec0016031749aa0a20270ea8049372d26df296ec63d5ac8e8572341742"
    else "420072fb6007b69d937988b9d563b27f7c7021e65d3cd8bcfe42561e6df9d12a"
  checkSchema _ := none
  deriveInputSchema _ := none
  lintPrompt _ := []

def shellDraft (id : PromptId) (template : String) : PromptDraft where
  id := some id
  executorKey := "shell"
  role := "worker"
  template := template
  inputSchema := none
  outputSchema := none
  requiredCapabilities := none
  note := none
  expectedVersion := none

/-- So many commands of thread `i`. -/
def promptSteps (i n : ℕ) : List (Action PromptRequest ℕ PromptInput) :=
  List.replicate n (.run i ⟨JsDate.ofMs 0, none, false⟩)

def twoVersions : List (Action PromptRequest ℕ PromptInput) :=
  [.begin ⟨0, .create (shellDraft "shell" "Do it.") "me"⟩] ++ promptSteps 0 8 ++
    [.begin ⟨1, .publish (shellDraft "shell" "Do it well.") "me"⟩] ++ promptSteps 1 8

/-- The first process crashes before the head of its prompt is written. -/
def headLeftBehind : List (Action PromptRequest ℕ PromptInput) :=
  [.begin ⟨0, .create (shellDraft "first" "Do it.") "me"⟩] ++ promptSteps 0 5 ++
    [.crash 0, .begin ⟨1, .create (shellDraft "second" "Do it.") "me"⟩] ++ promptSteps 1 8

def boundToShell (cfg : PromptConfig) (id : PromptId) : Bool :=
  (cfg.hist.shared.versions.lookup (id, 1)).any fun record =>
    record.key = (id, 1) ∧ record.executorKey = "shell"

theorem stored_of_boundToShell {cfg : PromptConfig} {id : PromptId}
    (hcheck : boundToShell cfg id = true) :
    ∃ record, Stored cfg.hist record ∧ record.id = id ∧ record.executorKey = "shell" := by
  obtain ⟨record, hlookup, hrecord⟩ := (Option.any_eq_true _ _).mp hcheck
  obtain ⟨hkey, hexec⟩ := of_decide_eq_true hrecord
  refine ⟨record, ?_, congrArg Prod.fst hkey, hexec⟩
  rw [Stored, hkey]
  exact hlookup

theorem shell_bound_twice : ∃ cfg, Reach (promptSystem smallTools) emptyPrompts cfg ∧
    ∃ record record', Stored cfg.hist record ∧ Stored cfg.hist record' ∧
      record.executorKey = record'.executorKey ∧ record.id ≠ record'.id := by
  have h : (schedule (promptSystem smallTools) headLeftBehind (.start emptyPrompts)).any
      (fun cfg => boundToShell cfg "first" && boundToShell cfg "second") = true := by decide
  obtain ⟨cfg, hr, hcheck⟩ := Reach.of_check h
  obtain ⟨hfirst, hsecond⟩ := Bool.and_eq_true_iff.mp hcheck
  obtain ⟨first, hs, hid, hkey⟩ := stored_of_boundToShell hfirst
  obtain ⟨second, hs', hid', hkey'⟩ := stored_of_boundToShell hsecond
  exact ⟨cfg, hr, first, second, hs, hs', hkey.trans hkey'.symm, by rw [hid, hid']; decide⟩

/-- A call that has the store to itself, and finds it empty. -/
def aloneAtFirst (h : PromptHist) : PromptEntry → Bool
  | ⟨i, _, .getHead _, _, .ok none, _, _⟩ =>
    h.shared.versions.entries.isEmpty && h.entries.all (·.thread = i)
  | _ => true

theorem settles_of_alone (h : PromptHist) (e : PromptEntry) (hcheck : aloneAtFirst h e = true) :
    Settles h e := by
  unfold aloneAtFirst at hcheck
  split at hcheck
  · rename_i i _ _ _ _ _
    obtain ⟨hempty, halone⟩ := Bool.and_eq_true_iff.mp hcheck
    intro σ hσ
    refine ⟨fun record hs => ?_, fun j τ hτ _ _ hne => ?_⟩
    · have hmem := AList.mem_lookup_iff.1 hs
      rw [List.isEmpty_iff.1 hempty] at hmem
      cases hmem
    · -- no other thread has done anything
      by_cases hj : j = i
      · subst hj
        exact absurd (congrArg Section.process (Option.some.inj (hτ.symm.trans hσ))) hne
      · have hnone : h.entriesOf j = [] := List.filter_eq_nil_iff.2 fun entry hentry heq => by
          have hi := of_decide_eq_true (List.all_eq_true.1 halone entry hentry)
          exact hj ((of_decide_eq_true heq).symm.trans hi)
        rw [sectionOf, hnone] at hτ
        cases hτ
  · rename_i hother
    unfold Settles
    split
    · exact (hother _ _ _ _ _ _ rfl).elim
    · trivial

def shellAtTwo (cfg : PromptConfig) : Bool :=
  (cfg.hist.shared.versions.lookup ("shell", 2)).isSome &&
    (cfg.hist.shared.versions.lookup ("shell", 3)).isNone

theorem shell_chained : ∃ cfg, Reach (promptSystem smallTools) emptyPrompts cfg ∧
    Settled cfg.hist ∧ VersionsTo "shell" 2 cfg.hist.shared ∧ VersionsChained smallTools cfg ∧
      KeysBound smallTools cfg := by
  have h : (schedule (promptSystem smallTools) twoVersions (.start emptyPrompts)).any
      (fun cfg => shellAtTwo cfg && Hist.checkFrom aloneAtFirst [] cfg.hist.events) = true := by
    decide
  obtain ⟨cfg, hr, hcheck⟩ := Reach.of_check h
  obtain ⟨htwo, halone⟩ := Bool.and_eq_true_iff.mp hcheck
  obtain ⟨hsome, hnone⟩ := Bool.and_eq_true_iff.mp htwo
  have hsettled : Settled cfg.hist := Hist.always_of_check settles_of_alone halone
  obtain ⟨hchained, hbound⟩ := prompts_chained hr
  exact ⟨cfg, hr, hsettled, VersionsTo.unique (hchained.contiguous _) (.inr hsome)
    (Option.isNone_iff_eq_none.mp hnone), hchained, hbound hsettled⟩

end Wazir.Goals.Prompts
